import Dcpu.Opcode
import Dcpu.Operand

/-! Instructions, their assembly text, and the layout of the word they begin with. -/
namespace Dcpu

/-- An opcode with its operands. An instruction that can be encoded has a destination `b` exactly
if its opcode is not special. -/
structure Instruction where
  opcode : Opcode
  b : Option Operand
  a : Operand
deriving DecidableEq

namespace Instruction

/-- How many words follow the instruction word. -/
def extraWords (i : Instruction) : Word :=
  i.a.extraWords + match i.b with
    | some b => b.extraWords
    | none => 0

/-- The length in words. -/
def size (i : Instruction) : Word := 1 + i.extraWords

def text (i : Instruction) : String :=
  match i.b with
  | some b => i.opcode.mnemonic ++ " " ++ b.text ++ ", " ++ i.a.text
  | none => i.opcode.mnemonic ++ " " ++ i.a.text

/-- The three fields of an instruction word. An `opcode` of zero announces a special instruction,
whose opcode then stands in `b`. -/
structure Fields where
  opcode : Word
  b : Word
  a : Word
deriving DecidableEq

/-- From the lowest bit up: five bits of opcode, five of `b`, six of `a`. -/
def Fields.ofWord (w : Word) : Fields where
  opcode := w &&& 0x1f
  b := (w >>> 5) &&& 0x1f
  a := (w >>> 10) &&& 0x3f

def Fields.toWord (f : Fields) : Word := f.a <<< 10 ||| f.b <<< 5 ||| f.opcode

end Instruction

end Dcpu
