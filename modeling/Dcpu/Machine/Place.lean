import Dcpu.Machine.Basic

/-! Operands of a running machine: the place that an operand names is settled once, together with
the move of SP that PUSH and POP make. -/
namespace Dcpu

/-- What an operand is read from and written to. -/
inductive Place where
  | register (r : Register)
  | cell (address : Word)
  | sp
  | pc
  | ex
  /-- A constant, which ignores what is written to it. -/
  | constant (w : Word)
deriving DecidableEq

/-- The place that an operand names, and the processor after the operand's move of SP. -/
def Processor.locate (p : Processor) : Operand → Place × Processor
  | .register r => (.register r, p)
  | .indirect r => (.cell (p.registers.get r), p)
  | .indexed r offset => (.cell (p.registers.get r + offset), p)
  | .push => p.growStack.map .cell id
  | .pop => p.shrinkStack.map .cell id
  | .peek => (.cell p.sp, p)
  | .pick offset => (.cell (p.sp + offset), p)
  | .sp => (.sp, p)
  | .pc => (.pc, p)
  | .ex => (.ex, p)
  | .absolute address => (.cell address, p)
  | .immediate w | .literal w => (.constant w, p)

namespace Machine

def read (m : Machine) : Place → Word
  | .register r => m.register r
  | .cell address => m.memory.read address
  | .sp => m.sp
  | .pc => m.pc
  | .ex => m.ex
  | .constant w => w

def write (m : Machine) (place : Place) (w : Word) : Machine :=
  match place with
  | .register r => m.setRegister r w
  | .cell address => { m with memory := m.memory.write address w }
  | .sp => { m with sp := w }
  | .pc => { m with pc := w }
  | .ex => { m with ex := w }
  | .constant _ => m

/-- The place of an operand and the word there, with the machine after the move of SP. -/
def fetch (m : Machine) (o : Operand) : Place × Word × Machine :=
  let (place, p) := m.toProcessor.locate o
  let m := { m with toProcessor := p }
  (place, m.read place, m)

end Machine

end Dcpu
