import Dcpu.Word

/-! States from which words are read front to back, and the reader over a list of words. -/
namespace Dcpu

inductive ReadError where
  | endOfInput
  | cannotSkip
deriving DecidableEq

def ReadError.message : ReadError → String
  | endOfInput => "End of input"
  | cannotSkip => "Word source cannot skip"

/-- A state that supplies words. A failed read may still have moved it. -/
class WordReader (σ : Type) where
  next : EStateM ReadError σ Word
  /-- Pass over as many words as the argument says. -/
  skip : Word → EStateM ReadError σ Unit

/-- A list of words read up to a position: `rest` is what stands behind the position. -/
structure WordCursor where
  rest : List Word
  position : Nat
deriving DecidableEq

namespace WordCursor

def ofList (words : List Word) : WordCursor := ⟨words, 0⟩

def isExhausted (c : WordCursor) : Bool := c.rest.isEmpty

def next? (c : WordCursor) : Option (Word × WordCursor) :=
  match c.rest with
  | [] => none
  | w :: rest => some (w, ⟨rest, c.position + 1⟩)

/-- The cursor `n` words on, unless fewer are left. -/
def advance? (c : WordCursor) : Nat → Option WordCursor
  | 0 => some c
  | n + 1 =>
    match c.rest with
    | [] => none
    | _ :: rest => advance? ⟨rest, c.position + 1⟩ n

instance : WordReader WordCursor where
  next := fun c =>
    match c.next? with
    | some (w, c') => .ok w c'
    | none => .error .endOfInput c
  skip := fun n c =>
    match c.advance? n.toNat with
    | some c' => .ok () c'
    | none => .error .endOfInput c

theorem advance?_eq (c : WordCursor) (n : Nat) :
    c.advance? n =
      if n ≤ c.rest.length then some ⟨c.rest.drop n, c.position + n⟩ else none := by
  induction n generalizing c with
  | zero => simp [advance?]
  | succ n ih =>
    cases c with | mk rest position =>
    cases rest with
    | nil => simp [advance?]
    | cons w rest => simp [advance?, ih, Nat.add_comm 1 n, Nat.add_assoc]

end WordCursor

end Dcpu
