import Dcpu.Proofs.Reading.Supply

/-! Declared lengths. An instruction declares as many words as its encoding has, unless its source is
a literal that no operand code can hold: the word that such a literal takes is left out of the
count. -/
namespace Dcpu

namespace Operand

/-- How many words an operand takes as a source beyond those that it declares. -/
def undeclared : Operand → Nat
  | literal w => if isShort w then 0 else 1
  | _ => 0

theorem length_extra?_canonical (o : Operand) :
    o.canonical.extra?.toList.length = o.extra?.toList.length + o.undeclared := by
  cases o with
  | literal w => by_cases hw : isShort w <;> simp [canonical, undeclared, extra?, hw]
  | _ => rfl

theorem undeclared_eq_zero_iff {o : Operand} :
    o.undeclared = 0 ↔ ∀ w, o = .literal w → isShort w := by
  cases o with
  | literal w => by_cases hw : isShort w <;> simp [undeclared, hw]
  | _ => simp [undeclared]

theorem undeclared_of_canonical {o : Operand} (h : o.canonical = o) : o.undeclared = 0 := by
  have hlength := o.length_extra?_canonical
  rw [h] at hlength
  omega

end Operand

namespace Instruction

theorem length_extras_canonical (i : Instruction) :
    i.canonical.extras.length = i.extras.length + i.a.undeclared := by
  simp only [extras, canonical, List.length_append, Operand.length_extra?_canonical]
  omega

theorem length_tail_of_encode {i : Instruction} {words : List Word} (h : i.encode = .ok words) :
    words.tail.length = i.extraWords.toNat + i.a.undeclared := by
  obtain ⟨w, rfl⟩ := exists_eq_cons_extras h
  rw [List.tail_cons, length_extras_canonical, toNat_extraWords]

theorem length_of_encode {i : Instruction} {words : List Word} (h : i.encode = .ok words) :
    words.length = i.size.toNat + i.a.undeclared := by
  obtain ⟨w, rfl⟩ := exists_eq_cons_extras h
  rw [List.length_cons, length_extras_canonical, toNat_size, Nat.add_right_comm]

/-- An encoding has the declared length exactly if the source is not a literal that is too long for
an operand code, and one word more if it is. An instruction that was read has no such literal,
whatever it was read from. -/
theorem declared_length (i : Instruction) :
    (∀ words, i.encode = .ok words → words.length = i.size.toNat + i.a.undeclared ∧
      words.tail.length = i.extraWords.toNat + i.a.undeclared) ∧
    (i.a.undeclared = 0 ↔ ∀ w, i.a = .literal w → Operand.isShort w) ∧
    ∀ (σ : Type) [WordReader σ] (s t : σ), load s = .ok i t →
      ∃ words, i.encode = .ok words ∧ words.length = i.size.toNat ∧
        words.tail.length = i.extraWords.toNat := by
  refine ⟨fun words h => ⟨length_of_encode h, length_tail_of_encode h⟩,
    Operand.undeclared_eq_zero_iff, fun σ _ s t h => ?_⟩
  obtain ⟨hi, words, he, -⟩ := load_eq_ok_iff.1 h
  have hnone : i.a.undeclared = 0 := Operand.undeclared_of_canonical (congrArg Instruction.a hi)
  exact ⟨words, he, by rw [length_of_encode he, hnone, Nat.add_zero],
    by rw [length_tail_of_encode he, hnone, Nat.add_zero]⟩

/-- The word of the destination is declared, and the word of the long literal is not. -/
theorem declared_length_of_two_extras :
    encode ⟨.operate .set, some (.indexed .a 2), .literal 0x1234⟩ = .ok [0x7e01, 0x1234, 2] ∧
    [0x7e01, 0x1234, 2].length =
      (size ⟨.operate .set, some (.indexed .a 2), .literal 0x1234⟩).toNat + 1 ∧
    ∃ words, encode ⟨.operate .set, some (.indexed .a 2), .immediate 0x1234⟩ = .ok words ∧
      words.length = 3 := by
  have he : encode ⟨.operate .set, some (.indexed .a 2), .literal 0x1234⟩ =
      .ok [0x7e01, 0x1234, 2] := rfl
  obtain ⟨hlong, -⟩ := declared_length ⟨.operate .set, some (.indexed .a 2), .literal 0x1234⟩
  obtain ⟨-, -, hread⟩ := declared_length ⟨.operate .set, some (.indexed .a 2), .immediate 0x1234⟩
  obtain ⟨words, he', hlength, -⟩ := hread WordCursor (.ofList [0x7e01, 0x1234, 2]) ⟨[], 3⟩ rfl
  exact ⟨he, (hlong _ he).1, words, he', hlength⟩

/-- The least literal that is not short: one word is declared, and two are written. -/
theorem size_lt_length_of_long_literal :
    ∃ words, encode ⟨.operate .set, some (.register .a), .literal 31⟩ = .ok words ∧
      (size ⟨.operate .set, some (.register .a), .literal 31⟩).toNat < words.length ∧
      (extraWords ⟨.operate .set, some (.register .a), .literal 31⟩).toNat < words.tail.length :=
  ⟨[0x7c01, 31], rfl, by decide, by decide⟩

end Instruction

end Dcpu
