import Dcpu.Register
import Dcpu.Text.Hex

/-! Operands of instructions and their assembly text. -/
namespace Dcpu

/-- The two operand fields of an instruction word: `b` is the destination, `a` the source. -/
inductive Slot where
  | a | b
deriving DecidableEq

def Slot.name : Slot → String
  | a => "A"
  | b => "B"

inductive Operand where
  | register (r : Register)
  /-- The cell that a register points to. -/
  | indirect (r : Register)
  /-- The cell at an offset from where a register points to. -/
  | indexed (r : Register) (offset : Word)
  /-- The cell below the top of the stack, which becomes the top. -/
  | push
  /-- The top of the stack, which is taken off. -/
  | pop
  /-- The top of the stack, which stays. -/
  | peek
  /-- The cell at an offset from the top of the stack. -/
  | pick (offset : Word)
  | sp
  | pc
  | ex
  /-- The cell at a fixed address. -/
  | absolute (address : Word)
  /-- A constant held in a word of its own. -/
  | immediate (word : Word)
  /-- A constant held in the instruction word itself. -/
  | literal (word : Word)
deriving DecidableEq

namespace Operand

/-- The word that follows the instruction word for this operand, if one does. -/
def extra? : Operand → Option Word
  | indexed _ w | pick w | absolute w | immediate w => some w
  | register _ | indirect _ | push | pop | peek | sp | pc | ex | literal _ => none

def setExtra : Operand → Word → Operand
  | indexed r _, w => indexed r w
  | pick _, w => pick w
  | absolute _, w => absolute w
  | immediate _, w => immediate w
  | o@(register _), _ | o@(indirect _), _ | o@push, _ | o@pop, _ | o@peek, _ | o@sp, _ | o@pc, _
  | o@ex, _ | o@(literal _), _ => o

/-- How many words follow the instruction word for this operand. -/
def extraWords (o : Operand) : Word := if o.extra?.isSome then 1 else 0

def text : Operand → String
  | register r => r.name
  | indirect r => "[" ++ r.name ++ "]"
  | indexed r offset => "[" ++ r.name ++ "+" ++ Text.hex offset ++ "]"
  | push => "PUSH"
  | pop => "POP"
  | peek => "PEEK"
  | pick offset => "PICK " ++ Text.hex offset
  | sp => "SP"
  | pc => "PC"
  | ex => "EX"
  | absolute address => "[" ++ Text.hex address ++ "]"
  | immediate word => Text.hex word
  | literal word => Int.repr word.signed

theorem extra?_setExtra (o : Operand) (w : Word) :
    (o.setExtra w).extra? = o.extra?.map fun _ => w := by
  cases o <;> rfl

end Operand

end Dcpu
