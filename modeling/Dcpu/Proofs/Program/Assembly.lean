import Dcpu.Fallible
import Dcpu.Program.Assembly
import Dcpu.Proofs.Reading.Supply

/-! Machine code as a code: no encoding begins another, so that a program is determined by its
words up to canonical form. -/
namespace Dcpu

open Fallible WordReader

namespace Instruction

theorem load_ofList_append {i : Instruction} {words : List Word} (he : i.encode = .ok words)
    (rest : List Word) :
    load (WordCursor.ofList (words ++ rest)) = .ok i.canonical ⟨rest, words.length⟩ :=
  load_of_encode he (WordCursor.supplies_iff.2 ⟨rfl, (Nat.zero_add _).symm⟩)

/-- Of two encodings at the beginning of the same words neither is longer. -/
theorem encode_prefix_free {i j : Instruction} {words words' rest rest' : List Word}
    (hi : i.encode = .ok words) (hj : j.encode = .ok words')
    (h : words ++ rest = words' ++ rest') : i.canonical = j.canonical ∧ rest = rest' := by
  have hload := load_ofList_append hi rest
  rw [h, load_ofList_append hj rest'] at hload
  injection hload with hcanonical hcursor
  exact ⟨hcanonical.symm, (congrArg WordCursor.rest hcursor).symm⟩

theorem length_pos_of_encode {i : Instruction} {words : List Word} (he : i.encode = .ok words) :
    0 < words.length := by
  obtain ⟨w, rfl⟩ := exists_eq_cons_extras he
  exact Nat.zero_lt_succ _

end Instruction

namespace Program

theorem assemble_cons_eq_ok_iff {i : Instruction} {is : List Instruction} {words : List Word} :
    assemble (i :: is) = .ok words ↔ ∃ head tail, i.encode = .ok head ∧
      assemble is = .ok tail ∧ words = head ++ tail := by
  unfold assemble
  rw [List.mapM_cons]
  simp only [bind_eq_ok_iff]
  constructor
  · intro h
    obtain ⟨_, ⟨head, he, tails, ht, hcons⟩, h⟩ := h
    cases hcons
    cases h
    exact ⟨head, tails.flatten, he, ⟨tails, ht, rfl⟩, rfl⟩
  · intro h
    obtain ⟨head, _, he, ⟨tails, ht, htail⟩, rfl⟩ := h
    cases htail
    exact ⟨head :: tails, ⟨head, he, tails, ht, rfl⟩, rfl⟩

private theorem assemble_cons_ne_ok_nil {i : Instruction} {is : List Instruction} :
    assemble (i :: is) ≠ .ok [] := by
  intro h
  obtain ⟨head, tail, he, -, hnil⟩ := assemble_cons_eq_ok_iff.1 h
  obtain ⟨rfl, -⟩ := List.append_eq_nil_iff.1 hnil.symm
  exact absurd (Instruction.length_pos_of_encode he) (Nat.lt_irrefl 0)

/-- Programs with the same machine code agree up to canonical form. -/
theorem map_canonical_eq_of_assemble_eq {is js : List Instruction} {words : List Word}
    (hi : assemble is = .ok words) (hj : assemble js = .ok words) :
    is.map Instruction.canonical = js.map Instruction.canonical := by
  induction is generalizing js words with
  | nil =>
    cases hi
    cases js with
    | nil => rfl
    | cons j js => exact absurd hj assemble_cons_ne_ok_nil
  | cons i is ih =>
    cases js with
    | nil =>
      cases hj
      exact absurd hi assemble_cons_ne_ok_nil
    | cons j js =>
      obtain ⟨head, tail, he, his, rfl⟩ := assemble_cons_eq_ok_iff.1 hi
      obtain ⟨head', tail', he', hjs, happend⟩ := assemble_cons_eq_ok_iff.1 hj
      obtain ⟨hcanonical, rfl⟩ := Instruction.encode_prefix_free he he' happend
      rw [List.map_cons, List.map_cons, hcanonical, ih his hjs]

/-- Which instructions can be written, that an encoding is read back whatever follows it and up to
its last word, and that machine code has one program up to canonical form. -/
theorem encode_invertible :
    (∀ i : Instruction, (∃ words, i.encode = .ok words) ↔ i.a ≠ .push ∧
      (i.opcode = .jsr ∧ i.b = none ∨
        i.opcode ≠ .jsr ∧ ∃ o, i.b = some o ∧ o ≠ .pop ∧ ∀ w, o ≠ .literal w)) ∧
    (∀ (i : Instruction) (words rest : List Word), i.encode = .ok words →
      Instruction.load (WordCursor.ofList (words ++ rest)) =
        .ok i.canonical ⟨rest, words.length⟩) ∧
    (∀ (is js : List Instruction) (words : List Word), assemble is = .ok words →
      assemble js = .ok words → is.map Instruction.canonical = js.map Instruction.canonical) :=
  ⟨fun _ => Instruction.exists_encode_iff,
    fun _ _ rest he => Instruction.load_ofList_append he rest,
    fun _ _ _ hi hj => map_canonical_eq_of_assemble_eq hi hj⟩

/-- A literal too long for its code is read back as an immediate, with the word behind it left. -/
theorem encode_invertible_of_long_literal :
    Instruction.load (WordCursor.ofList ([0x7e01, 0x1234, 2] ++ [0x7c01])) =
      .ok ⟨.operate .set, some (.indexed .a 2), .immediate 0x1234⟩ ⟨[0x7c01], 3⟩ :=
  encode_invertible.2.1 ⟨.operate .set, some (.indexed .a 2), .literal 0x1234⟩ _ [0x7c01] rfl

end Program

end Dcpu
