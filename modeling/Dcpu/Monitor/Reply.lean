import Dcpu.Machine.Run
import Dcpu.Monitor.Command

/-! What the commands of the monitor do to a machine, and what they show. -/
namespace Dcpu.Monitor

/-- The rows of a dump: up to eight words each, behind the address of the first. Offsets are counted
in 64 bits, so the end of a row that would lie beyond them wraps and leaves the row empty. -/
def dumpRows (m : Memory) (start : Word) (length : UInt64) : List (Word × List Word) :=
  (List.range ((length.toNat + 7) / 8)).map fun row =>
    let first := UInt64.ofNat (8 * row)
    let last := min length (first + 8)
    let offsets := List.range' first.toNat (last.toNat - first.toNat)
    (start + first.toUInt16, offsets.map fun offset => m.read (start + UInt16.ofNat offset))

def dumpText (row : Word × List Word) : String :=
  Text.hex row.1 ++ ": " ++ " ".intercalate (row.2.map Text.bareHex)

def listText (line : Word × Except DecodeError Instruction) : String :=
  Text.hex line.1 ++ ": " ++ Instruction.lineText line.2

/-- Why a command came to nothing, or was broken off. -/
inductive Failure where
  | command (cause : CommandError)
  | execution (cause : ExecuteError)
deriving DecidableEq

def Failure.message : Failure → String
  | command cause => cause.message
  | execution cause => cause.chain

/-- What a command answers. -/
inductive Reply where
  | lines (lines : List String)
  | quit
deriving DecidableEq

namespace Command

/-- The answer to a run of several instructions, or of none. -/
def executedText (count : Nat) : String := "Executed " ++ Nat.repr count ++ " instructions"

def run : Command → EStateM Failure Machine Reply
  | execute 1 => do
    let pc := (← get).pc
    let i ← EStateM.adaptExcept .execution Machine.step
    return .lines [Text.hex pc ++ ": " ++ i.text]
  | execute count => do
    EStateM.adaptExcept .execution (Machine.run count.toNat)
    return .lines [executedText count.toNat]
  | runToPc target limit => do
    let executed ← EStateM.adaptExcept .execution (Machine.runUntil (·.pc == target) limit.toNat)
    return .lines [executedText executed]
  | runToValue r value limit => do
    let executed ←
      EStateM.adaptExcept .execution (Machine.runUntil (·.register r == value) limit.toNat)
    return .lines [executedText executed]
  | dump start length => do
    return .lines ((dumpRows (← get).memory start length).map dumpText)
  | list start count => do
    let m ← get
    return .lines ((m.memory.listing (start.getD m.pc) count.toNat).map listText)
  | jump target unused => do
    modify fun m => { m with pc := target }
    match unused with
    | 0 => return .lines []
    | unused => throw (.command (.unusedArguments unused))
  | reset => do
    modify Machine.reset
    return .lines []
  | quit => return .quit

end Command

/-- Answer a line that was typed. A blank line does nothing. -/
def respond (line : String) : EStateM Failure Machine Reply :=
  match Command.ofLine line with
  | .error e => throw (.command e)
  | .ok none => return .lines []
  | .ok (some command) => command.run

end Dcpu.Monitor
