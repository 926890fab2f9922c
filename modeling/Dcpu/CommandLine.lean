/-! Command lines of a few paths and one flag. -/
namespace Dcpu.CommandLine

structure Options where
  paths : List String
  bigEndian : Bool
deriving DecidableEq

/-- Why a command line does not lead to a run. -/
inductive Stop where
  | help
  | version
  | missingPath
  /-- A path that is the empty text. -/
  | emptyPath
  /-- An option that does not exist, or one path too many. -/
  | unknownArgument
  /-- The flag a second time. -/
  | repeatedFlag
  /-- A value attached to an option, none of which take one. -/
  | attachedValue
deriving DecidableEq

inductive Flag where
  | bigEndian | help | version
deriving DecidableEq

namespace Flag

def ofShort? : Char → Option Flag
  | 'b' => some bigEndian
  | 'h' => some help
  | 'V' => some version
  | _ => none

def ofLong? : String → Option Flag
  | "big-endian" => some bigEndian
  | "help" => some help
  | "version" => some version
  | _ => none

end Flag

namespace Options

/-- An empty path is refused once another argument has been recognised, or none follows. -/
def checkLastPath (o : Options) : Except Stop Unit :=
  if o.paths.getLast? = some "" then .error .emptyPath else .ok ()

def addPath (o : Options) (count : Nat) (path : String) : Except Stop Options := do
  if o.paths.length = count then throw .unknownArgument
  o.checkLastPath
  return { o with paths := o.paths ++ [path] }

def addFlag (o : Options) (flag : Flag) : Except Stop Options := do
  o.checkLastPath
  match flag with
  | .help => throw .help
  | .version => throw .version
  | .bigEndian =>
    if o.bigEndian then throw .repeatedFlag
    return { o with bigEndian := true }

/-- Flags written as single letters behind one dash. -/
def addShort (o : Options) : List Char → Except Stop Options
  | [] => .ok o
  | c :: cs =>
    match Flag.ofShort? c with
    | none => .error .unknownArgument
    | some flag => do (← o.addFlag flag).addShort cs

/-- A flag written out behind two dashes. -/
def addLong (o : Options) (cs : List Char) : Except Stop Options :=
  match Flag.ofLong? (String.ofList (cs.takeWhile (· != '='))) with
  | none => .error .unknownArgument
  | some flag => if '=' ∈ cs then .error .attachedValue else o.addFlag flag

/-- Read arguments from left to right. Behind two dashes alone, all of them are paths. -/
def addArguments (o : Options) (count : Nat) : List String → Except Stop Options
  | [] => .ok o
  | argument :: rest =>
    match argument.toList with
    | ['-', '-'] => rest.foldlM (fun o path => o.addPath count path) o
    | '-' :: '-' :: cs => do (← o.addLong cs).addArguments count rest
    | '-' :: c :: cs => do (← o.addShort (c :: cs)).addArguments count rest
    | _ => do (← o.addPath count argument).addArguments count rest

end Options

/-- Read the arguments of a command that takes the given number of paths. -/
def parse (count : Nat) (arguments : List String) : Except Stop Options := do
  let o ← (Options.mk [] false).addArguments count arguments
  o.checkLastPath
  if o.paths.length < count then throw .missingPath
  return o

end Dcpu.CommandLine
