import Dcpu.Arithmetic
import Dcpu.Proofs.Arithmetic.Width
import Mathlib.Tactic.LinearCombination

/-! Products. A product and its excess word are together the exact product, without a sign or with
one. The two products differ in the excess word only, by one factor for each sign that is set in the
other. -/
namespace Dcpu.Arithmetic

open Word

theorem toNat_product (b a : Word) : (b.toUInt32 * a.toUInt32).toNat = b.toNat * a.toNat := by
  have hlt : b.toNat * a.toNat < 2 ^ 16 * 2 ^ 16 := Nat.mul_lt_mul'' b.toNat_lt a.toNat_lt
  rw [UInt32.toNat_mul, UInt16.toNat_toUInt32, UInt16.toNat_toUInt32]
  exact Nat.mod_eq_of_lt hlt

theorem toInt_product (b a : Word) : (extend b * extend a).toInt = b.signed * a.signed := by
  have hb := signed_bounds b
  have ha := signed_bounds a
  have habs : (b.signed * a.signed).natAbs ≤ 2 ^ 15 * 2 ^ 15 := by
    rw [Int.natAbs_mul]
    exact Nat.mul_le_mul (by omega) (by omega)
  rw [Int32.toInt_mul, signed_eq_toInt_extend, signed_eq_toInt_extend]
  apply Int.bmod_eq_of_le <;> omega

theorem toNat_mul (b a : Word) :
    (mul b a).1.toNat + 2 ^ 16 * (mul b a).2.toNat = b.toNat * a.toNat :=
  (toNat_split _).trans (toNat_product b a)

theorem toInt_mli (b a : Word) :
    ((mli b a).2.toBitVec ++ (mli b a).1.toBitVec).toInt = b.signed * a.signed :=
  (toInt_split_toUInt32 _).trans (toInt_product b a)

theorem toNat_mli_fst (b a : Word) : ((mli b a).1.toNat : ℤ) = b.signed * a.signed % 2 ^ 16 := by
  rw [← toInt_product]
  exact toNat_split_toUInt32_snd _

theorem toNat_mli_snd (b a : Word) :
    ((mli b a).2.toNat : ℤ) = b.signed * a.signed / 2 ^ 16 % 2 ^ 16 := by
  rw [← toInt_product]
  exact toNat_split_toUInt32_fst _

theorem signed_eq_sub (w : Word) : w.signed = w.toNat - 2 ^ 16 * if 0x8000 ≤ w then 1 else 0 := by
  have hle : 0x8000 ≤ w ↔ 0x8000 ≤ w.toNat := UInt16.le_iff_toNat_le
  rw [signed_eq_ite]
  simp only [hle]
  split <;> split <;> omega

/-- The signed product is the unsigned one, less `2 ^ 16` times the other factor for each set sign.
Where both are set, `2 ^ 32` comes back. -/
theorem exists_signed_mul_eq (b a : Word) : ∃ k : ℤ, b.signed * a.signed = (mul b a).1.toNat +
    2 ^ 16 * ((mul b a).2.toNat - (if 0x8000 ≤ b then a else 0).toNat -
      (if 0x8000 ≤ a then b else 0).toNat) + 2 ^ 32 * k := by
  have hmul : ((mul b a).1.toNat : ℤ) + 2 ^ 16 * (mul b a).2.toNat = b.toNat * a.toNat := by
    exact_mod_cast toNat_mul b a
  have hshare (p : Prop) [Decidable p] (w : Word) :
      ((if p then w else 0).toNat : ℤ) = (if p then 1 else 0) * w.toNat := by
    split <;> simp
  refine ⟨(if 0x8000 ≤ b then 1 else 0) * (if 0x8000 ≤ a then 1 else 0), ?_⟩
  rw [hshare, hshare, signed_eq_sub b, signed_eq_sub a]
  linear_combination -hmul

theorem mul_fst_eq_mli_fst (b a : Word) : (mul b a).1 = (mli b a).1 := by
  have hlow := (mul b a).1.toNat_lt
  have hmli := toNat_mli_fst b a
  obtain ⟨k, hk⟩ := exists_signed_mul_eq b a
  rw [hk] at hmli
  apply UInt16.toNat_inj.1
  omega

theorem mli_snd_eq_sub (b a : Word) : (mli b a).2 =
    (mul b a).2 - (if 0x8000 ≤ b then a else 0) - (if 0x8000 ≤ a then b else 0) := by
  have hlow := (mul b a).1.toNat_lt
  have hmli := toNat_mli_snd b a
  obtain ⟨k, hk⟩ := exists_signed_mul_eq b a
  rw [hk] at hmli
  generalize (if 0x8000 ≤ b then a else 0) = x at hmli ⊢
  generalize (if 0x8000 ≤ a then b else 0) = y at hmli ⊢
  have hx := x.toNat_lt
  have hy := y.toNat_lt
  apply UInt16.toNat_inj.1
  rw [UInt16.toNat_sub, UInt16.toNat_sub]
  omega

/-- What is computed on the way to a product is what unbounded integers would give. -/
structure ProductHasRoom (b a : Word) : Prop where
  mul_eq : mul b a = lowFirst (b.toUInt32 * a.toUInt32)
  product : (b.toUInt32 * a.toUInt32).toNat = b.toNat * a.toNat
  mli_eq : mli b a = lowFirst (extend b * extend a).toUInt32
  signed_product : (extend b * extend a).toInt = b.signed * a.signed

theorem productHasRoom (b a : Word) : ProductHasRoom b a where
  mul_eq := rfl
  product := toNat_product b a
  mli_eq := rfl
  signed_product := toInt_product b a

/-- A product and its excess are exact, and the unsigned and the signed one agree up to a correction
of the excess. Neither outgrows the double word in which it is computed. -/
theorem products_exact (b a : Word) :
    (mul b a).1.toNat + 2 ^ 16 * (mul b a).2.toNat = b.toNat * a.toNat ∧
    ((mli b a).2.toBitVec ++ (mli b a).1.toBitVec).toInt = b.signed * a.signed ∧
    (mul b a).1 = (mli b a).1 ∧
    (mli b a).2 =
      (mul b a).2 - (if 0x8000 ≤ b then a else 0) - (if 0x8000 ≤ a then b else 0) ∧
    ProductHasRoom b a :=
  ⟨toNat_mul b a, toInt_mli b a, mul_fst_eq_mli_fst b a, mli_snd_eq_sub b a, productHasRoom b a⟩

end Dcpu.Arithmetic
