import Dcpu.Instruction.Basic

/-! Instructions written as words. -/
namespace Dcpu

inductive EncodeError where
  | literalDestination
  /-- PUSH as a source, or POP as a destination. -/
  | stackOperand (o : Operand) (slot : Slot)
  | missingDestination
  | surplusDestination
deriving DecidableEq

def EncodeError.message : EncodeError → String
  | literalDestination => "Literal can't be used as a destination"
  | stackOperand o slot => o.text ++ " can't be used as the " ++ slot.name ++ " value"
  | missingDestination => "Missing destination value"
  | surplusDestination => "Special instruction takes a single value"

namespace Operand

/-- Whether a constant fits into an operand code. -/
def isShort (w : Word) : Bool := -1 ≤ w.signed && w.signed ≤ 30

/-- The code of an operand in a slot, and the word that follows the instruction word for it. A
literal that is not short goes into a word of its own. -/
def encode (slot : Slot) : Operand → Except EncodeError (Word × Option Word)
  | register r => .ok (UInt16.ofNat r.index, none)
  | indirect r => .ok (0x08 + UInt16.ofNat r.index, none)
  | indexed r offset => .ok (0x10 + UInt16.ofNat r.index, some offset)
  | push =>
    match slot with
    | .a => .error (.stackOperand push .a)
    | .b => .ok (0x18, none)
  | pop =>
    match slot with
    | .a => .ok (0x18, none)
    | .b => .error (.stackOperand pop .b)
  | peek => .ok (0x19, none)
  | pick offset => .ok (0x1a, some offset)
  | sp => .ok (0x1b, none)
  | pc => .ok (0x1c, none)
  | ex => .ok (0x1d, none)
  | absolute address => .ok (0x1e, some address)
  | immediate word => .ok (0x1f, some word)
  | literal word =>
    match slot with
    | .a => if isShort word then .ok (word + 0x21, none) else .ok (0x1f, some word)
    | .b => .error .literalDestination

end Operand

namespace Instruction

/-- The words of an instruction. Of two faults the source operand's is reported. -/
def encode (i : Instruction) : Except EncodeError (List Word) := do
  let (a, aExtra) ← i.a.encode .a
  match i.opcode.isSpecial, i.b with
  | true, none =>
    return Fields.toWord { opcode := 0, b := i.opcode.code, a } :: aExtra.toList
  | true, some _ => .error .surplusDestination
  | false, none => .error .missingDestination
  | false, some operand =>
    let (b, bExtra) ← operand.encode .b
    return Fields.toWord { opcode := i.opcode.code, b, a } :: (aExtra.toList ++ bExtra.toList)

end Instruction

end Dcpu
