import Dcpu.Arithmetic
import Dcpu.Proofs.Arithmetic.Width

/-! Shifts by any count. Each computes a double word that is the shifted number itself, as far as a
double word can hold it, also from count 32 on, where nothing is shifted any more. The word for the
destination and the excess word are its halves. -/
namespace Dcpu.Arithmetic

open Word

theorem toNat_count {a : Word} (h : a < 32) : a.toUInt32.toNat % 32 = a.toNat :=
  Nat.mod_eq_of_lt (UInt16.lt_iff_toNat_lt.1 h)

theorem toNat_signed_count {a : Word} (h : a < 32) :
    (a.toUInt32.toInt32.toBitVec.smod 32).toNat = a.toNat := by
  have hlt : a.toNat < 32 := UInt16.lt_iff_toNat_lt.1 h
  have hmod : (a.toUInt32.toInt32.toBitVec.smod 32).toInt = (a.toNat : ℤ).fmod 32 := by
    rw [BitVec.toInt_smod]
    exact congrArg (Int.fmod · 32) (toInt_toInt32 a)
  have hnat := toNat_eq_toInt_emod (a.toUInt32.toInt32.toBitVec.smod 32)
  rw [hmod, Int.fmod_eq_emod_of_nonneg _ (by decide)] at hnat
  omega

theorem pow_dvd_of_not_lt {a : Word} (h : ¬ a < 32) : 2 ^ 32 ∣ 2 ^ a.toNat := by
  have hle : 32 ≤ a.toNat := Nat.le_of_not_lt fun hlt => h (UInt16.lt_iff_toNat_lt.2 hlt)
  exact Nat.pow_dvd_pow 2 hle

theorem pow_le_of_not_lt {a : Word} (h : ¬ a < 32) : 2 ^ 32 ≤ 2 ^ a.toNat :=
  Nat.le_of_dvd (Nat.two_pow_pos _) (pow_dvd_of_not_lt h)

/-- The double word of a left shift is the product, less what has left it. From count 32 on that is
all of it. -/
theorem toNat_shl_wide (b a : Word) :
    (if a < 32 then b.toUInt32 <<< a.toUInt32 else 0).toNat =
      b.toNat * 2 ^ a.toNat % 2 ^ 32 := by
  split
  · next h =>
    rw [UInt32.toNat_shiftLeft, toNat_count h, Nat.shiftLeft_eq, UInt16.toNat_toUInt32]
  · next h =>
    have hdvd : 2 ^ 32 ∣ b.toNat * 2 ^ a.toNat :=
      Nat.dvd_mul_left_of_dvd (pow_dvd_of_not_lt h) _
    rw [Nat.mod_eq_zero_of_dvd hdvd]
    rfl

/-- The double word of a right shift is the quotient of a word that stands in the high half. From
count 32 on, the divisor exceeds every such word. -/
theorem toNat_shr_wide (b a : Word) :
    (if a < 32 then (b.toUInt32 <<< 16) >>> a.toUInt32 else 0).toNat =
      b.toNat * 2 ^ 16 / 2 ^ a.toNat := by
  split
  · next h =>
    rw [UInt32.toNat_shiftRight, toNat_count h, Nat.shiftRight_eq_div_pow, toNat_scaled]
  · next h =>
    have hb := b.toNat_lt
    have hpow := pow_le_of_not_lt h
    rw [Nat.div_eq_of_lt (by omega)]
    rfl

theorem toInt_scaled_narrow (b : Word) : (extend b <<< 16).toInt = b.signed * 2 ^ 16 := by
  have hb := signed_bounds b
  have hnarrow : (extend b).toBitVec.toInt = b.signed := signed_eq_toInt_extend b
  have hshift : (extend b <<< 16).toInt = ((extend b).toBitVec <<< 16).toInt := rfl
  rw [hshift, toInt_shiftLeft] <;> rw [hnarrow] <;> omega

/-- From count 32 on, rounding down leaves the sign alone. -/
theorem scaled_ediv_of_not_lt (b : Word) {a : Word} (h : ¬ a < 32) :
    b.signed * 2 ^ 16 / 2 ^ a.toNat = if b.signed < 0 then -1 else 0 := by
  have hb := signed_bounds b
  have hpow : (2 : ℤ) ^ 32 ≤ 2 ^ a.toNat := by exact_mod_cast pow_le_of_not_lt h
  generalize (2 : ℤ) ^ a.toNat = divisor at hpow ⊢
  have hpos : 0 < divisor := by omega
  split
  · have hunique := Int.ediv_emod_unique hpos (a := b.signed * 2 ^ 16) (q := -1)
      (r := b.signed * 2 ^ 16 + divisor)
    exact (hunique.2 ⟨by omega, by omega, by omega⟩).1
  · exact Int.ediv_eq_zero_of_lt (by omega) (by omega)

theorem toInt_asr_wide (b a : Word) :
    (if a < 32 then (extend b <<< 16) >>> a.toUInt32.toInt32
      else if extend b <<< 16 < 0 then -1 else 0).toInt =
      b.signed * 2 ^ 16 / 2 ^ a.toNat := by
  split
  · next h =>
    have hshift : ((extend b <<< 16) >>> a.toUInt32.toInt32).toInt =
        (extend b <<< 16).toInt >>> a.toNat := by
      rw [← Int32.toInt_toBitVec, Int32.toBitVec_shiftRight, BitVec.sshiftRight_eq',
        toNat_signed_count h, BitVec.toInt_sshiftRight, Int32.toInt_toBitVec]
    rw [hshift, toInt_scaled_narrow, Int.shiftRight_eq_div_pow, Nat.cast_pow, Nat.cast_ofNat]
  · next h =>
    have hsign : extend b <<< 16 < 0 ↔ b.signed < 0 := by
      have hzero : (0 : Int32).toInt = 0 := rfl
      rw [Int32.lt_iff_toInt_lt, toInt_scaled_narrow, hzero]
      omega
    rw [scaled_ediv_of_not_lt b h]
    simp only [hsign]
    split
    · rfl
    · rfl

theorem toNat_shl (b a : Word) :
    (shl b a).1.toNat = b.toNat * 2 ^ a.toNat % 2 ^ 16 ∧
      (shl b a).2.toNat = b.toNat * 2 ^ a.toNat / 2 ^ 16 % 2 ^ 16 := by
  have hwide := toNat_shl_wide b a
  constructor
  · refine (toNat_split_snd _).trans ?_
    rw [hwide]
    omega
  · refine (toNat_split_fst _).trans ?_
    rw [hwide]
    omega

theorem toNat_shr (b a : Word) :
    (shr b a).1.toNat = b.toNat / 2 ^ a.toNat ∧
      (shr b a).2.toNat = b.toNat * 2 ^ 16 / 2 ^ a.toNat % 2 ^ 16 := by
  have hwide := toNat_shr_wide b a
  constructor
  · refine (toNat_split_fst _).trans ?_
    rw [hwide, Nat.div_div_eq_div_mul, Nat.mul_div_mul_right _ _ (by decide)]
  · refine (toNat_split_snd _).trans ?_
    rw [hwide]

theorem toNat_asr (b a : Word) :
    ((asr b a).1.toNat : ℤ) = b.signed / 2 ^ a.toNat % 2 ^ 16 ∧
      ((asr b a).2.toNat : ℤ) = b.signed * 2 ^ 16 / 2 ^ a.toNat % 2 ^ 16 := by
  have hwide := toInt_asr_wide b a
  have hpow : (0 : ℤ) < 2 ^ a.toNat := Int.pow_pos (by decide)
  constructor
  · refine (toNat_split_toUInt32_fst _).trans ?_
    rw [hwide, Int.ediv_ediv_of_nonneg hpow.le, Int.mul_ediv_mul_of_pos_left _ _ (by decide)]
  · refine (toNat_split_toUInt32_snd _).trans ?_
    rw [hwide]

/-- Shifts multiply by a power of two, or divide by it and round down, for every count of sixteen
bits. The excess word holds the sixteen bits next to those of the result. -/
theorem shifts_exact (b a : Word) :
    ((shl b a).1.toNat = b.toNat * 2 ^ a.toNat % 2 ^ 16 ∧
      (shl b a).2.toNat = b.toNat * 2 ^ a.toNat / 2 ^ 16 % 2 ^ 16) ∧
    ((shr b a).1.toNat = b.toNat / 2 ^ a.toNat ∧
      (shr b a).2.toNat = b.toNat * 2 ^ 16 / 2 ^ a.toNat % 2 ^ 16) ∧
    ((asr b a).1.toNat : ℤ) = b.signed / 2 ^ a.toNat % 2 ^ 16 ∧
      ((asr b a).2.toNat : ℤ) = b.signed * 2 ^ 16 / 2 ^ a.toNat % 2 ^ 16 :=
  ⟨toNat_shl b a, toNat_shr b a, toNat_asr b a⟩

/-- Nothing but the sign is left of -5. -/
example : asr 0xfffb 40 = (0xffff, 0xffff) ∧ shl 0x1234 20 = (0, 0x2340) := by decide

end Dcpu.Arithmetic
