import Dcpu.Monitor.Arguments

/-! The commands of the monitor and how they are written. -/
namespace Dcpu.Monitor

inductive Command where
  /-- Execute that many instructions. -/
  | execute (count : UInt64)
  /-- Execute until PC has a value. -/
  | runToPc (target : Word) (limit : UInt64)
  /-- Execute until a register has a value. -/
  | runToValue (r : Register) (value : Word) (limit : UInt64)
  /-- Show memory as words. -/
  | dump (start : Word) (length : UInt64)
  /-- Show memory as instructions, from PC on if no start is given. -/
  | list (start : Option Word) (count : UInt64)
  /-- Set PC. Unused arguments are reported only after that, so the command keeps their number. -/
  | jump (target : Word) (unused : Nat)
  | reset
  | quit
deriving DecidableEq

namespace Command

def defaultLimit : UInt64 := 1000000

def defaultLength : UInt64 := 64

def defaultCount : UInt64 := 8

/-- The command with a name, from its arguments. -/
def parse (name : String) : EStateM CommandError Arguments Command :=
  match name with
  | "e" => do
    let count ← Arguments.nextOr .count 1
    Arguments.finish
    return execute count
  | "eb" => do
    let target ← Arguments.next .word
    let limit ← Arguments.nextOr .count defaultLimit
    Arguments.finish
    return runToPc target limit
  | "er" => do
    let r ← Arguments.next .register
    let value ← Arguments.next .word
    let limit ← Arguments.nextOr .count defaultLimit
    Arguments.finish
    return runToValue r value limit
  | "d" => do
    let start ← Arguments.nextOr .word 0
    let length ← Arguments.nextOr .count defaultLength
    Arguments.finish
    return dump start length
  | "dis" => do
    let start ← Arguments.nextOr (fun argument => (Reading.word argument).map some) none
    let count ← Arguments.nextOr .count defaultCount
    Arguments.finish
    return list start count
  | "jmp" => do
    let target ← Arguments.next .word
    return jump target (← get).rest.length
  | "reset" => do
    Arguments.finish
    return reset
  | "q" => return quit
  | _ => throw (.unknownCommand name)

/-- The command on a line, or none on a blank line. -/
def ofLine (line : String) : Except CommandError (Option Command) :=
  match (Arguments.ofLine line).name with
  | (none, _) => .ok none
  | (some name, args) =>
    match parse name args with
    | .ok command _ => .ok (some command)
    | .error e _ => .error e

end Command

end Dcpu.Monitor
