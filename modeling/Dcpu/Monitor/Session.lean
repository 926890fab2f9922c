import Dcpu.Monitor.Reply

/-! A session at the monitor, from the lines that are typed to everything that is shown. -/
namespace Dcpu.Monitor

/-- What is shown, in order. -/
inductive Entry where
  | status (p : Processor)
  | prompt
  | output (line : String)
  | failure (cause : Failure)
deriving DecidableEq

/-- How a session comes to its end. -/
inductive Ending where
  | closed
  | quit
  /-- The next line is not valid UTF-8. -/
  | unreadable
deriving DecidableEq

def Ending.message? : Ending → Option String
  | closed | quit => none
  | unreadable =>
    some "Couldn't read command from stdin: stream did not contain valid UTF-8"

/-- The text of a span of time. -/
def elapsedText (nanoseconds : Nat) : String :=
  Nat.repr (nanoseconds / 1000000) ++ " ms (" ++ Nat.repr nanoseconds ++ " ns)"

/-- The state of a processor, with how long the last command took. -/
def statusText (p : Processor) (elapsed : String) : String :=
  let general := Register.all.map fun r => r.name ++ ": " ++ Text.hex (p.registers.get r)
  "<<<   PC: " ++ Text.hex p.pc ++ ", SP: " ++ Text.hex p.sp ++ ", EX: " ++ Text.hex p.ex ++ ", " ++
    ", ".intercalate general ++ ", " ++ elapsed ++ "   >>>"

/-- An entry as it is printed. Everything but the prompt ends its line. -/
def Entry.text (elapsed : String) : Entry → String
  | status p => statusText p elapsed ++ "\n"
  | prompt => "> "
  | output line => line ++ "\n"
  | failure cause => "!> " ++ cause.message ++ "\n"

/-- What a command shows, and whether the session goes on. -/
def respondEntries (line : String) (m : Machine) : List Entry × Bool × Machine :=
  match respond line m with
  | .ok .quit m => ([], false, m)
  | .ok (.lines lines) m => (lines.map .output, true, m)
  | .error cause m => ([.failure cause], true, m)

/-- A session over the given lines, of which those that are not valid UTF-8 have no text. -/
def session (m : Machine) : List (Option String) → List Entry × Ending
  | [] => ([.status m.toProcessor, .prompt], .closed)
  | none :: _ => ([.status m.toProcessor, .prompt], .unreadable)
  | some line :: lines =>
    let status := Entry.status m.toProcessor
    match respondEntries line m with
    | (shown, false, _) => (status :: .prompt :: shown, .quit)
    | (shown, true, m) =>
      let (log, ending) := session m lines
      (status :: .prompt :: (shown ++ log), ending)

end Dcpu.Monitor
