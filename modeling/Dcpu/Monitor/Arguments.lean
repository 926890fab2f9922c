import Dcpu.Monitor.Numeral
import Dcpu.Register
import Dcpu.Text.Blank
import Dcpu.Text.Quoted

/-! The words of a command line, read one argument after the other. -/
namespace Dcpu.Monitor

inductive CommandError where
  | unknownCommand (name : String)
  /-- There is no argument with that index, which counts from one. -/
  | missingArgument (index : Nat)
  | badNumber (argument : String) (fault : NumeralFault)
  | outOfRange (argument : String)
  | unknownRegister (name : String)
  | unusedArguments (count : Nat)
deriving DecidableEq

def CommandError.message : CommandError → String
  | unknownCommand name => "Unknown command " ++ Text.quoted name
  | missingArgument index => "Missing argument " ++ Nat.repr index
  | badNumber argument fault => "Bad argument (" ++ argument ++ ": " ++ fault.message ++ ")"
  | outOfRange argument => "Bad argument (" ++ argument ++ " is out of range)"
  | unknownRegister name => "Unknown register " ++ Text.quoted name
  | unusedArguments count => Nat.repr count ++ " unused command arguments"

/-- What a single argument stands for. -/
abbrev Reading (α : Type) := String → Except CommandError α

namespace Reading

def count : Reading UInt64 := fun argument =>
  match Numeral.read argument with
  | .error fault => .error (.badNumber argument fault)
  | .ok n => .ok (UInt64.ofNat n)

def word : Reading Word := fun argument =>
  match Numeral.read argument with
  | .error fault => .error (.badNumber argument fault)
  | .ok n => if n < 0x10000 then .ok (UInt16.ofNat n) else .error (.outOfRange argument)

def register : Reading Register := fun argument =>
  match Register.ofName? argument with
  | some r => .ok r
  | none => .error (.unknownRegister argument)

end Reading

/-- The words still to be read, and the index of the argument that was asked for last. -/
structure Arguments where
  rest : List String
  index : Nat
deriving DecidableEq

namespace Arguments

def ofLine (line : String) : Arguments := ⟨Text.tokens line, 0⟩

/-- Take the command's name off, which is not counted as an argument. -/
def name (args : Arguments) : Option String × Arguments :=
  (args.rest.head?, { args with rest := args.rest.tail })

/-- The next argument, which has to be there. -/
def next {α : Type} (read : Reading α) : EStateM CommandError Arguments α := fun args =>
  let index := args.index + 1
  match args.rest with
  | [] => .error (.missingArgument index) ⟨[], index⟩
  | argument :: rest =>
    match read argument with
    | .ok a => .ok a ⟨rest, index⟩
    | .error e => .error e ⟨rest, index⟩

/-- The next argument, or a value in place of one that is not there. -/
def nextOr {α : Type} (read : Reading α) (default : α) : EStateM CommandError Arguments α :=
  fun args =>
    match args.rest with
    | [] => .ok default ⟨[], args.index + 1⟩
    | _ :: _ => next read args

/-- Refuse arguments that are left over. -/
def finish : EStateM CommandError Arguments Unit := fun args =>
  match args.rest.length with
  | 0 => .ok () args
  | unused => .error (.unusedArguments unused) args

end Arguments

end Dcpu.Monitor
