import Mathlib.Tactic.Ring
import Dcpu.Word

/-! Numbers of sixteen, 32 and 64 bits as unbounded ones. The halves of a double word are its
quotient and remainder by `2 ^ 16`, with a sign or without one, and a shift to the left multiplies
as long as the result has room. -/
namespace Dcpu.Word

theorem toInt_toInt32 (w : Word) : w.toUInt32.toInt32.toInt = w.toNat := by
  have h : w.toUInt32.toInt32.toInt = w.toUInt32.toBitVec.toInt := rfl
  have hw := w.toNat_lt
  rw [h, BitVec.toInt_eq_toNat_cond, UInt32.toNat_toBitVec, UInt16.toNat_toUInt32,
    if_pos (by omega)]

/-- Bits stand for the remainder of their signed reading. -/
theorem toNat_eq_toInt_emod {n : ℕ} (x : BitVec n) : (x.toNat : ℤ) = x.toInt % 2 ^ n := by
  have hx : (x.toNat : ℤ) < ((2 ^ n : ℕ) : ℤ) := by exact_mod_cast x.isLt
  have hmod : x.toInt % ((2 ^ n : ℕ) : ℤ) = x.toNat := by
    rw [BitVec.toInt_eq_toNat_bmod, Int.bmod_emod, Int.emod_eq_of_lt (Int.natCast_nonneg _) hx]
  rw [← hmod]
  norm_cast

theorem toNat_eq_signed_emod (w : Word) : (w.toNat : ℤ) = w.signed % 2 ^ 16 :=
  toNat_eq_toInt_emod w.toBitVec

theorem signed_inj {v w : Word} : v.signed = w.signed ↔ v = w := by
  constructor
  · intro h
    have hnat : (v.toNat : ℤ) = w.toNat := by
      rw [toNat_eq_signed_emod, toNat_eq_signed_emod, h]
    exact UInt16.toNat_inj.1 (Int.natCast_inj.1 hnat)
  · exact congrArg signed

theorem signed_toUInt16 (n : Int16) : signed n.toUInt16 = n.toInt := by
  rw [signed, Int16.toInt16_toUInt16]

theorem toNat_toInt16 (d : Int32) : (d.toInt16.toUInt16.toNat : ℤ) = d.toInt % 2 ^ 16 := by
  rw [toNat_eq_signed_emod, signed_toUInt16, Int32.toInt_toInt16]
  exact Int.bmod_emod

theorem toNat_split_fst (d : UInt32) : (split d).1.toNat = d.toNat / 2 ^ 16 := by
  have hd := d.toNat_lt
  have hhigh : (d >>> 16).toNat = d.toNat / 2 ^ 16 := by
    rw [UInt32.toNat_shiftRight, ← Nat.shiftRight_eq_div_pow]
    rfl
  simp only [split, UInt32.toNat_toUInt16, hhigh]
  omega

theorem toNat_split_snd (d : UInt32) : (split d).2.toNat = d.toNat % 2 ^ 16 :=
  UInt32.toNat_toUInt16 d

/-- The halves of a double word are its digits to the base `2 ^ 16`. -/
theorem toNat_split (d : UInt32) :
    (split d).2.toNat + 2 ^ 16 * (split d).1.toNat = d.toNat := by
  rw [toNat_split_fst, toNat_split_snd]
  omega

theorem toNat_toUInt32 (d : Int32) : (d.toUInt32.toNat : ℤ) = d.toInt % 2 ^ 32 :=
  toNat_eq_toInt_emod d.toBitVec

theorem toNat_split_toUInt32_fst (d : Int32) :
    ((split d.toUInt32).1.toNat : ℤ) = d.toInt / 2 ^ 16 % 2 ^ 16 := by
  have hd := toNat_toUInt32 d
  rw [toNat_split_fst]
  omega

theorem toNat_split_toUInt32_snd (d : Int32) :
    ((split d.toUInt32).2.toNat : ℤ) = d.toInt % 2 ^ 16 := by
  have hd := toNat_toUInt32 d
  rw [toNat_split_snd]
  omega

/-- The halves of a signed double word are its bits. -/
theorem toInt_split_toUInt32 (d : Int32) :
    ((split d.toUInt32).1.toBitVec ++ (split d.toUInt32).2.toBitVec).toInt = d.toInt := by
  have hhigh := toNat_split_toUInt32_fst d
  have hlow := toNat_split_toUInt32_snd d
  have hsigned := signed_eq_ite (split d.toUInt32).1
  have hle := d.le_toInt
  have hlt := d.toInt_lt
  have happend : ((split d.toUInt32).1.toBitVec ++ (split d.toUInt32).2.toBitVec).toInt =
      2 ^ 16 * (split d.toUInt32).1.signed + (split d.toUInt32).2.toNat := by
    rw [BitVec.toInt_append]
    rfl
  rw [happend]
  split at hsigned <;> omega

theorem signed_bounds (w : Word) : -2 ^ 15 ≤ w.signed ∧ w.signed < 2 ^ 15 := by
  have hw := w.toNat_lt
  have hsigned := signed_eq_ite w
  split at hsigned <;> omega

theorem toNat_scaled (b : Word) : (b.toUInt32 <<< 16).toNat = b.toNat * 2 ^ 16 := by
  have hb := b.toNat_lt
  have hcount : (16 : UInt32).toNat % 32 = 16 := rfl
  rw [UInt32.toNat_shiftLeft, hcount, Nat.shiftLeft_eq, UInt16.toNat_toUInt32]
  exact Nat.mod_eq_of_lt (by omega)

/-- A shift to the left multiplies if no bit of the result, its sign included, is shifted out. -/
theorem toInt_shiftLeft {n : ℕ} {x : BitVec n} {k : ℕ} (hlow : -2 ^ n ≤ x.toInt * 2 ^ k * 2)
    (hhigh : x.toInt * 2 ^ k * 2 < 2 ^ n) : (x <<< k).toInt = x.toInt * 2 ^ k := by
  have hbmod : (x <<< k).toInt = (x.toInt * 2 ^ k).bmod (2 ^ n) := by
    rw [BitVec.toInt_shiftLeft, Nat.shiftLeft_eq, BitVec.toInt_eq_toNat_bmod, Int.bmod_mul_bmod]
    norm_cast
  rw [hbmod]
  apply Int.bmod_eq_of_le_mul_two
  · push_cast
    omega
  · push_cast
    omega

end Dcpu.Word
