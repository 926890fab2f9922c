import Dcpu.Arithmetic
import Dcpu.Proofs.Arithmetic.Width

/-! Carries and borrows between words. A word of a sum and its carry are together the exact sum, and
a word of a difference and its borrow the exact difference, if what came in was a carry or a
borrow. -/
namespace Dcpu

namespace Arithmetic

open Word

theorem toNat_sum (ex b a : Word) :
    (b.toUInt32 + a.toUInt32 + ex.toUInt32).toNat = b.toNat + a.toNat + ex.toNat := by
  have hb := b.toNat_lt
  have ha := a.toNat_lt
  have hex := ex.toNat_lt
  simp only [UInt32.toNat_add, UInt16.toNat_toUInt32]
  omega

theorem toInt_difference (ex b a : Word) :
    (b.toUInt32.toInt32 - a.toUInt32.toInt32 + extend ex).toInt =
      b.toNat - a.toNat + ex.signed := by
  have hb := b.toNat_lt
  have ha := a.toNat_lt
  have hex := ex.toNat_lt
  have hsigned := signed_eq_ite ex
  rw [Int32.toInt_add, Int32.toInt_sub, toInt_toInt32, toInt_toInt32, signed_eq_toInt_extend,
    Int.bmod_add_bmod]
  apply Int.bmod_eq_of_le <;> split at hsigned <;> omega

/-- The carry out is 0 or 1 although three words are added. -/
theorem adx_exact {ex : Word} (hex : ex = 0 ∨ ex = 1) (b a : Word) :
    ((adx ex b a).2 = 0 ∨ (adx ex b a).2 = 1) ∧
      (adx ex b a).1.toNat + 2 ^ 16 * (adx ex b a).2.toNat = b.toNat + a.toNat + ex.toNat := by
  have hb := b.toNat_lt
  have ha := a.toNat_lt
  have hcarry : ex.toNat ≤ 1 := by
    obtain rfl | rfl := hex <;> decide
  have hsum := toNat_sum ex b a
  simp only [adx, UInt32.toNat_toUInt16, gt_iff_lt, UInt32.lt_iff_toNat_lt, hsum]
  split
  · next hover =>
    refine ⟨Or.inr rfl, ?_⟩
    have hlimit : 0xffff < b.toNat + a.toNat + ex.toNat := hover
    change _ + 2 ^ 16 * 1 = _
    omega
  · next hover =>
    refine ⟨Or.inl rfl, ?_⟩
    have hlimit : ¬ 0xffff < b.toNat + a.toNat + ex.toNat := hover
    change _ + 2 ^ 16 * 0 = _
    omega

/-- The borrow out is 0 or -1, even for `0 - 0xffff - 1`, whose word is 0. -/
theorem sbx_exact {ex : Word} (hex : ex = 0 ∨ ex = 0xffff) (b a : Word) :
    ((sbx ex b a).2 = 0 ∨ (sbx ex b a).2 = 0xffff) ∧
      ((sbx ex b a).1.toNat : ℤ) + 2 ^ 16 * (sbx ex b a).2.signed =
        b.toNat - a.toNat + ex.signed := by
  have hb := b.toNat_lt
  have ha := a.toNat_lt
  have hborrow : ex.signed = 0 ∨ ex.signed = -1 := by
    obtain rfl | rfl := hex
    · exact Or.inl rfl
    · exact Or.inr rfl
  have hdifference := toInt_difference ex b a
  simp only [sbx, toNat_toInt16, gt_iff_lt, Int32.lt_iff_toInt_lt, hdifference]
  split
  · next hunder =>
    refine ⟨Or.inr rfl, ?_⟩
    have hlimit : b.toNat - a.toNat + ex.signed < 0 := hunder
    change _ + 2 ^ 16 * (-1) = _
    omega
  · next hunder =>
    have hlimit : ¬ (b.toNat - a.toNat + ex.signed < 0) := hunder
    rw [if_neg (fun h => ?_)]
    · refine ⟨Or.inl rfl, ?_⟩
      change _ + 2 ^ 16 * 0 = _
      omega
    · have h' : 0xffff < b.toNat - a.toNat + ex.signed := h
      omega

/-- Without a carry in, a sum of three words is one of two. -/
theorem adx_zero (b a : Word) : adx 0 b a = add b a := by
  have hb := b.toNat_lt
  have ha := a.toNat_lt
  have hlow := (add b a).1.toNat_lt
  have hsum : (add b a).1.toNat + 2 ^ 16 * (add b a).2.toNat = b.toNat + a.toNat := by
    refine (toNat_split _).trans ?_
    simp only [UInt32.toNat_add, UInt16.toNat_toUInt32]
    omega
  obtain ⟨-, hexact⟩ := adx_exact (Or.inl rfl) b a
  have hlow' := (adx 0 b a).1.toNat_lt
  have hzero : (0 : Word).toNat = 0 := rfl
  apply Prod.ext <;> apply UInt16.toNat_inj.1 <;> omega

/-- Without a borrow in, a difference of three words is one of two. -/
theorem sbx_zero (b a : Word) : sbx 0 b a = sub b a := by
  have hb := b.toNat_lt
  have ha := a.toNat_lt
  have hlow := (sub b a).1.toNat_lt
  have hhigh := (sub b a).2.toNat_lt
  have hdifference : (sub b a).1.toNat + 2 ^ 16 * (sub b a).2.toNat =
      (2 ^ 32 - a.toNat + b.toNat) % 2 ^ 32 := by
    refine (toNat_split _).trans ?_
    rw [UInt32.toNat_sub, UInt16.toNat_toUInt32, UInt16.toNat_toUInt32]
  obtain ⟨hborrow, hexact⟩ := sbx_exact (Or.inl rfl) b a
  have hlow' := (sbx 0 b a).1.toNat_lt
  have hzero : signed 0 = 0 := rfl
  have hread : (sbx 0 b a).2.toNat = 0 ∧ (sbx 0 b a).2.signed = 0 ∨
      (sbx 0 b a).2.toNat = 0xffff ∧ (sbx 0 b a).2.signed = -1 := by
    obtain h | h := hborrow
    · exact Or.inl (by rw [h]; exact ⟨rfl, rfl⟩)
    · exact Or.inr (by rw [h]; exact ⟨rfl, rfl⟩)
  apply Prod.ext <;> apply UInt16.toNat_inj.1 <;> omega

end Arithmetic

end Dcpu
