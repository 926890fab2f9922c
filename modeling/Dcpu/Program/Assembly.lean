import Dcpu.Instruction.Encode
import Dcpu.Program.AddressMap

/-! Machine code of whole programs, plain or with tags that remember where instructions start. -/
namespace Dcpu.Program

/-- The words of the instructions one after the other. The first instruction that has none decides
the failure. -/
def assemble (is : List Instruction) : Except EncodeError (List Word) := do
  return (← is.mapM Instruction.encode).flatten

/-- Machine code from address zero on, with a tag at the start of each instruction. -/
structure Tagged (τ : Type) [BEq τ] [Hashable τ] where
  code : Array Word
  starts : AddressMap τ

variable {τ : Type} [BEq τ] [LawfulBEq τ] [Hashable τ]

def Tagged.empty : Tagged τ := ⟨Array.empty, .empty⟩

/-- Put an instruction behind the code. Its address is the length of the code before it, wrapped. -/
def Tagged.append (p : Tagged τ) (i : Instruction) (tag : τ) : Except EncodeError (Tagged τ) :=
  match i.encode with
  | .error e => .error e
  | .ok words =>
    let address := UInt16.ofNat p.code.size
    .ok { code := p.code.appendList words, starts := p.starts.insert address tag }

def assembleTagged (is : List (Instruction × τ)) : Except EncodeError (Tagged τ) :=
  is.foldlM (fun p entry => p.append entry.1 entry.2) .empty

end Dcpu.Program
