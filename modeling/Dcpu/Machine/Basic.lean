import Dcpu.Memory

/-! The machine: a processor and its memory. The stack grows downward, and its top is at SP. -/
namespace Dcpu

/-- Everything but memory. EX holds the excess word of the last operation that had one. -/
structure Processor where
  registers : Registers
  pc : Word
  sp : Word
  ex : Word
deriving DecidableEq

/-- The state at power-on. -/
def Processor.initial : Processor where
  registers := .zero
  pc := 0
  sp := 0xffff
  ex := 0

/-- Make room for a word on the stack and return its address. -/
def Processor.growStack (p : Processor) : Word × Processor :=
  let top := p.sp - 1
  (top, { p with sp := top })

/-- Give up the top of the stack and return its address. -/
def Processor.shrinkStack (p : Processor) : Word × Processor :=
  (p.sp, { p with sp := p.sp + 1 })

structure Machine extends Processor where
  memory : Memory
deriving DecidableEq

inductive BootError where
  /-- A program of that many words, which memory cannot hold. -/
  | tooLarge (words : Nat)
deriving DecidableEq

def BootError.message : BootError → String
  | tooLarge words =>
    "Program (" ++ Nat.repr words ++ " words) doesn't fit into memory (" ++ Nat.repr Memory.size ++
      " words)"

namespace Machine

/-- A machine at power-on, with a program in its memory. -/
def boot (program : List Word) : Except BootError Machine :=
  if program.length ≤ Memory.size then
    .ok { toProcessor := .initial, memory := .ofList program }
  else .error (.tooLarge program.length)

/-- The processor as at power-on, with memory left alone. -/
def reset (m : Machine) : Machine := { m with toProcessor := .initial }

def register (m : Machine) (r : Register) : Word := m.registers.get r

def setRegister (m : Machine) (r : Register) (w : Word) : Machine :=
  { m with registers := m.registers.set r w }

/-- Instructions are fetched at PC, so passing over words moves PC and nothing else. -/
instance : WordReader Machine where
  next := fun m => .ok (m.memory.read m.pc) { m with pc := m.pc + 1 }
  skip := fun n m => .ok () { m with pc := m.pc + n }

/-- Put a word on the stack. -/
def push (m : Machine) (w : Word) : Machine :=
  let (top, p) := m.growStack
  { toProcessor := p, memory := m.memory.write top w }

/-- Take the top of the stack off. -/
def pop (m : Machine) : Word × Machine :=
  let (top, p) := m.shrinkStack
  (m.memory.read top, { m with toProcessor := p })

end Machine

end Dcpu
