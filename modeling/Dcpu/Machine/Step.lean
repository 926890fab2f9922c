import Dcpu.Arithmetic
import Dcpu.Machine.Place

/-! One instruction on a machine. A failure leaves whatever the instruction did before it. -/
namespace Dcpu

inductive ExecuteError where
  | illegal (cause : DecodeError)
  /-- A destination where the opcode has none, or none where it has one. -/
  | malformed (i : Instruction)
  /-- A run that was still going on after that many instructions. -/
  | limit (instructions : Nat)
deriving DecidableEq

namespace ExecuteError

def message : ExecuteError → String
  | illegal cause => "Illegal instruction (" ++ cause.message ++ ")"
  | malformed i => "Malformed instruction (" ++ i.text ++ ")"
  | limit instructions => "Instruction limit of " ++ Nat.repr instructions ++ " reached"

/-- The message followed by that of the failure behind it, if there is one. -/
def chain : ExecuteError → String
  | e@(illegal cause) => e.message ++ ": " ++ cause.message
  | e@(malformed _) | e@(limit _) => e.message

end ExecuteError

namespace Machine

/-- Go to a subroutine, with the way back on the stack. -/
def call (m : Machine) (target : Word) : Machine := { m.push m.pc with pc := target }

/-- Move the registers I and J. -/
def moveIndices (m : Machine) (stride : Word) : Machine :=
  let m := m.setRegister .i (m.register .i + stride)
  m.setRegister .j (m.register .j + stride)

/-- Carry out an operation between values that were read. EX changes after the destination, and I
and J last. -/
def operate (m : Machine) (op : Operation) (target : Place) (b a : Word) : Machine :=
  let (result, excess) := op.eval m.ex b a
  let m := m.write target result
  let m := match excess with
    | some ex => { m with ex }
    | none => m
  m.moveIndices op.stride

/-- Execute an instruction that has been fetched. The source is read before the destination is
located. -/
def execute (i : Instruction) : EStateM ExecuteError Machine Unit := fun m =>
  match i.opcode, i.b with
  | .jsr, none =>
    let (_, target, m) := m.fetch i.a
    .ok () (m.call target)
  | .operate op, some b =>
    let (_, source, m) := m.fetch i.a
    let (place, value, m) := m.fetch b
    .ok () (m.operate op place value source)
  | .test c, some b =>
    let (_, source, m) := m.fetch i.a
    let (_, value, m) := m.fetch b
    if c.holds value source then .ok () m
    else EStateM.adaptExcept .illegal Instruction.skip m
  | .jsr, some _ | .operate _, none | .test _, none => .error (.malformed i) m

/-- Fetch the instruction at PC and execute it. -/
def step : EStateM ExecuteError Machine Instruction := do
  let i ← EStateM.adaptExcept .illegal Instruction.load
  execute i
  return i

end Machine

end Dcpu
