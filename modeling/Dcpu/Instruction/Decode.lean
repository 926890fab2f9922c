import Dcpu.Instruction.Basic
import Dcpu.WordReader

/-! Instructions read from words. The words after the instruction word belong to the source operand
first and to the destination second. -/
namespace Dcpu

inductive DecodeError where
  | specialOpcode (opcode : Word)
  | binaryOpcode (opcode : Word)
  | operandCode (code : Word)
  /-- The code of a literal in the destination field. -/
  | literalDestination (code : Word)
  /-- The words end behind the instruction word but before the instruction does. -/
  | incomplete
  | read (cause : ReadError)
deriving DecidableEq

namespace DecodeError

def message : DecodeError → String
  | specialOpcode opcode => "Invalid special opcode " ++ Text.hexField opcode
  | binaryOpcode opcode => "Invalid binary opcode " ++ Text.hexField opcode
  | operandCode code => "Invalid value code " ++ Text.hexField code
  | literalDestination code =>
    "Value code " ++ Text.hexField code ++ " can't be used as a destination"
  | incomplete => "Input ended inside an instruction"
  | read cause => cause.message

/-- What a failed read means behind the instruction word. -/
def withinInstruction : ReadError → DecodeError
  | .endOfInput => incomplete
  | .cannotSkip => read .cannotSkip

end DecodeError

namespace Operand

/-- The operand that a code stands for in a slot, with zero for its extra word. -/
def ofCode (slot : Slot) (code : Word) : Except DecodeError Operand :=
  let r := Register.ofLowBits code
  if code < 0x08 then .ok (register r)
  else if code < 0x10 then .ok (indirect r)
  else if code < 0x18 then .ok (indexed r 0)
  else if code = 0x18 then
    match slot with
    | .a => .ok pop
    | .b => .ok push
  else if code = 0x19 then .ok peek
  else if code = 0x1a then .ok (pick 0)
  else if code = 0x1b then .ok sp
  else if code = 0x1c then .ok pc
  else if code = 0x1d then .ok ex
  else if code = 0x1e then .ok (absolute 0)
  else if code = 0x1f then .ok (immediate 0)
  else if code < 0x40 then
    match slot with
    | .a => .ok (literal (code - 0x21))
    | .b => .error (.literalDestination code)
  else .error (.operandCode code)

/-- Read the extra word of an operand, if it has one. -/
def load {σ : Type} [WordReader σ] (o : Operand) : EStateM ReadError σ Operand :=
  match o.extra? with
  | some _ => return o.setExtra (← WordReader.next)
  | none => return o

end Operand

namespace Instruction

/-- The instruction that begins with the given word, with zero for every extra word. -/
def ofWord (w : Word) : Except DecodeError Instruction :=
  let f := Fields.ofWord w
  if f.opcode = 0 then
    match Opcode.ofSpecialCode? f.b with
    | none => .error (.specialOpcode f.b)
    | some opcode => return { opcode, b := none, a := ← Operand.ofCode .a f.a }
  else
    match Opcode.ofCode? f.opcode with
    | none => .error (.binaryOpcode f.opcode)
    | some opcode => do
      let a ← Operand.ofCode .a f.a
      let b ← Operand.ofCode .b f.b
      return { opcode, b := some b, a }

/-- A line of a listing: the instruction or, between angle brackets, why there is none. -/
def lineText : Except DecodeError Instruction → String
  | .ok i => i.text
  | .error e => "<" ++ e.message ++ ">"

/-- Read the extra words of both operands. -/
def loadExtra {σ : Type} [WordReader σ] (i : Instruction) : EStateM ReadError σ Instruction := do
  let a ← i.a.load
  match i.b with
  | some b => return { i with a, b := some (← b.load) }
  | none => return { i with a }

/-- Read one instruction. Of its failures only `DecodeError.read .endOfInput` means that no
instruction begins here. -/
@[specialize]
def load {σ : Type} [WordReader σ] : EStateM DecodeError σ Instruction := do
  let w ← EStateM.adaptExcept .read WordReader.next
  match ofWord w with
  | .error e => throw e
  | .ok i => EStateM.adaptExcept .withinInstruction i.loadExtra

/-- Pass over one instruction without reading its extra words. -/
@[specialize]
def skip {σ : Type} [WordReader σ] : EStateM DecodeError σ Unit := do
  let w ← EStateM.adaptExcept .read WordReader.next
  match ofWord w with
  | .error e => throw e
  | .ok i => EStateM.adaptExcept .withinInstruction (WordReader.skip i.extraWords)

end Instruction

end Dcpu
