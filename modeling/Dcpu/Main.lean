import Dcpu.CommandLine
import Dcpu.Image
import Dcpu.Listing.Basic
import Dcpu.Monitor.Session
import Dcpu.Text.Lines

/-! The command line: `monitor IMAGE` and `list INPUT OUTPUT`, both with the flag `-b`. -/
namespace Dcpu.Shell

def usage : String :=
  "usage: dcpu monitor [-b] IMAGE\n       dcpu list [-b] INPUT OUTPUT\n\n" ++
    "  -b, --big-endian  words have their most significant byte first\n" ++
    "  -h, --help        show this text\n" ++
    "  -V, --version     show the version\n"

def version : String := "dcpu 1.0.0\n"

def faultOf : IO.Error → FileFault
  | .noFileOrDirectory .. => .missing
  | e => .other (toString e)

def attempt {α : Type} (action : IO α) : IO (Except FileFault α) := do
  try return .ok (← action) catch e => return .error (faultOf e)

def byteOrder (o : CommandLine.Options) : ByteOrder := if o.bigEndian then .big else .little

def readBytes (path : String) : IO (Except FileFault (List UInt8)) :=
  attempt do return (← IO.FS.readBinFile path).toList

/-- The bytes of the next line that is typed, with its newline. -/
partial def readLine (input : IO.FS.Stream) (line : ByteArray) : IO ByteArray := do
  let byte ← input.read 1
  let line := line ++ byte
  if byte.isEmpty || byte == ⟨[0x0a].toArray⟩ then return line
  readLine input line

def showEntry (elapsed : String) (entry : Monitor.Entry) : IO Unit := do
  let stream ← match entry with
    | .failure _ => IO.getStderr
    | _ => IO.getStdout
  stream.putStr (entry.text elapsed)
  stream.flush

partial def interact (input : IO.FS.Stream) (m : Machine) (elapsed : String) :
    IO Monitor.Ending := do
  showEntry elapsed (.status m.toProcessor)
  showEntry elapsed .prompt
  let line ← readLine input .empty
  match (Text.lines line.toList).head? with
  | none => return .closed
  | some none => return .unreadable
  | some (some line) =>
    let start ← IO.monoNanosNow
    let (shown, goesOn, m) := Monitor.respondEntries line m
    shown.forM (showEntry elapsed)
    let stop ← IO.monoNanosNow
    if goesOn then interact input m (Monitor.elapsedText (stop - start)) else return .quit

def fail (message : String) : IO UInt32 := do
  IO.eprintln message
  return 1

def runMonitor (o : CommandLine.Options) (path : String) : IO UInt32 := do
  match Machine.ofImage (byteOrder o) path (← readBytes path) with
  | .error e => fail e.message
  | .ok m =>
    match (← interact (← IO.getStdin) m (Monitor.elapsedText 0)).message? with
    | none => return 0
    | some message => fail message

def runListing (o : CommandLine.Options) (inputPath outputPath : String) : IO UInt32 := do
  let input ← readBytes inputPath
  let creation ← match input with
    | .ok _ => attempt (IO.FS.writeFile outputPath "")
    | .error _ => pure (.ok ())
  let outcome := Listing.ofFile (byteOrder o) inputPath outputPath input creation
  let written ← match outcome.output with
    | some text => attempt (IO.FS.writeFile outputPath text)
    | none => pure (.ok ())
  match outcome.error, written with
  | some e, _ => fail e.message
  | none, .error fault => fail (ListingError.unwritable outputPath fault).message
  | none, .ok () => return 0

/-- Read the options of an activity with the given number of paths, and carry it out. -/
def start (count : Nat) (arguments : List String)
    (action : CommandLine.Options → IO UInt32) : IO UInt32 := do
  match CommandLine.parse count arguments with
  | .ok o => action o
  | .error .help =>
    IO.print usage
    return 0
  | .error .version =>
    IO.print version
    return 0
  | .error _ =>
    IO.eprint usage
    return 2

def launch : List String → IO UInt32
  | "monitor" :: arguments =>
    start 1 arguments fun o =>
      match o.paths with
      | [path] => runMonitor o path
      | _ => fail usage
  | "list" :: arguments =>
    start 2 arguments fun o =>
      match o.paths with
      | [inputPath, outputPath] => runListing o inputPath outputPath
      | _ => fail usage
  | arguments => start 0 arguments fun _ => fail usage

end Dcpu.Shell

def main (arguments : List String) : IO UInt32 := Dcpu.Shell.launch arguments
