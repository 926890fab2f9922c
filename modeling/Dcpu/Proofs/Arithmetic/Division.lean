import Dcpu.Arithmetic
import Dcpu.Proofs.Arithmetic.Width
import Mathlib.Tactic.Ring

/-! Quotients, remainders and what follows the binary point. Without a sign or with one, quotient
and remainder are those of integer division, and the excess word is the quotient that the remainder
gives when it is scaled by `2 ^ 16`: it holds the sixteen binary places behind the quotient. -/
namespace Dcpu.Arithmetic

open Word

/-- A quotient of a scaled number continues with the places that the remainder gives. -/
theorem scaled_div (n k : ℕ) {m : ℕ} (hm : 0 < m) : n * k / m = n / m * k + n % m * k / m := by
  have hsplit : n * k = n % m * k + n / m * k * m := by
    calc n * k = (n % m + m * (n / m)) * k := by rw [Nat.mod_add_div]
      _ = n % m * k + n / m * k * m := by ring
  rw [hsplit, Nat.add_mul_div_right _ _ hm, Nat.add_comm]

/-- Rounding toward zero is symmetric, so that the same holds of truncated quotients. -/
theorem scaled_tdiv (s : ℤ) (k : ℕ) {t : ℤ} (ht : t ≠ 0) :
    (s * k).tdiv t = s.tdiv t * k + (s.tmod t * k).tdiv t := by
  obtain ⟨n, hn⟩ := s.eq_nat_or_neg
  obtain ⟨m, hm⟩ := t.eq_nat_or_neg
  have hm' : 0 < m := by omega
  have hnat : ((n : ℤ) * k).tdiv m = (n : ℤ).tdiv m * k + ((n : ℤ).tmod m * k).tdiv m := by
    rw [← Int.ofNat_tmod, ← Nat.cast_mul, ← Nat.cast_mul, ← Int.ofNat_tdiv, ← Int.ofNat_tdiv,
      ← Int.ofNat_tdiv]
    exact_mod_cast scaled_div n k hm'
  obtain rfl | rfl := hn <;> obtain rfl | rfl := hm <;>
    simp only [neg_mul, Int.neg_tdiv, Int.tdiv_neg, Int.neg_tmod, Int.tmod_neg, hnat] <;> ring

theorem toNat_scaled_quotient (b a : Word) :
    ((b.toUInt32 <<< 16) / a.toUInt32).toNat = b.toNat * 2 ^ 16 / a.toNat := by
  rw [UInt32.toNat_div, toNat_scaled, UInt16.toNat_toUInt32]

theorem toInt_wide (w : Word) : (extend w).toInt64.toInt = w.signed := by
  rw [Int32.toInt_toInt64, signed_eq_toInt_extend]

theorem toInt_scaled (b : Word) : ((extend b).toInt64 <<< 16).toInt = b.signed * 2 ^ 16 := by
  have hb := signed_bounds b
  have hwide : (extend b).toInt64.toBitVec.toInt = b.signed := toInt_wide b
  have hshift : ((extend b).toInt64 <<< 16).toInt =
      ((extend b).toInt64.toBitVec <<< 16).toInt := rfl
  rw [hshift, toInt_shiftLeft] <;> rw [hwide] <;> omega

/-- Only the least dividend has a quotient without room. -/
theorem toInt_div_of_lt {x : Int64} (y : Int64) (h : -2 ^ 63 < x.toInt) :
    (x / y).toInt = x.toInt.tdiv y.toInt := by
  apply Int64.toInt_div_of_ne_left
  intro hleast
  rw [hleast] at h
  exact absurd h (by decide)

theorem toInt_quotient (b a : Word) :
    ((extend b).toInt64 / (extend a).toInt64).toInt = b.signed.tdiv a.signed := by
  have hb := signed_bounds b
  have hwide := toInt_wide b
  rw [toInt_div_of_lt _ (by omega), hwide, toInt_wide]

theorem toInt_scaled_quotient (b a : Word) :
    (((extend b).toInt64 <<< 16) / (extend a).toInt64).toInt =
      (b.signed * 2 ^ 16).tdiv a.signed := by
  have hb := signed_bounds b
  have hscaled := toInt_scaled b
  rw [toInt_div_of_lt _ (by omega), hscaled, toInt_wide]

theorem toInt_narrow_quotient (b a : Word) :
    (extend b / extend a).toInt = b.signed.tdiv a.signed := by
  have hb := signed_bounds b
  have hne : extend b ≠ Int32.minValue := by
    intro hleast
    rw [← signed_eq_toInt_extend, hleast] at hb
    exact absurd hb (by decide)
  rw [Int32.toInt_div_of_ne_left _ _ hne, signed_eq_toInt_extend, signed_eq_toInt_extend]

theorem toInt_remainder (b a : Word) : (extend b % extend a).toInt = b.signed.tmod a.signed := by
  rw [Int32.toInt_mod, signed_eq_toInt_extend, signed_eq_toInt_extend]

theorem toNat_pos {a : Word} (ha : a ≠ 0) : 0 < a.toNat := by
  have hne : a.toNat ≠ (0 : Word).toNat := fun h => ha (UInt16.toNat_inj.1 h)
  exact Nat.pos_of_ne_zero hne

theorem div_of_ne_zero {b a : Word} (ha : a ≠ 0) :
    div b a = (b / a, ((b.toUInt32 <<< 16) / a.toUInt32).toUInt16) :=
  if_neg ha

/-- The excess word has room for the places that the remainder gives, and for no others. -/
theorem toNat_div_snd {a : Word} (ha : a ≠ 0) (b : Word) :
    (div b a).2.toNat = b.toNat % a.toNat * 2 ^ 16 / a.toNat := by
  have hpos := toNat_pos ha
  have hmod : b.toNat % a.toNat < a.toNat := Nat.mod_lt _ hpos
  have hroom : b.toNat % a.toNat * 2 ^ 16 / a.toNat < 2 ^ 16 := by
    apply Nat.div_lt_of_lt_mul
    exact Nat.mul_lt_mul_of_pos_right hmod (by decide)
  rw [div_of_ne_zero ha, UInt32.toNat_toUInt16, toNat_scaled_quotient, scaled_div _ _ hpos,
    Nat.add_comm, Nat.add_mul_mod_self_right, Nat.mod_eq_of_lt hroom]

theorem signed_ne_zero {a : Word} (ha : a ≠ 0) : a.signed ≠ 0 :=
  fun h => ha (signed_inj.1 h)

theorem natAbs_tmod_lt {a : Word} (ha : a ≠ 0) (s : ℤ) :
    (s.tmod a.signed).natAbs < a.signed.natAbs := by
  have hpos : 0 < a.signed.natAbs := Int.natAbs_pos.2 (signed_ne_zero ha)
  rw [Int.natAbs_tmod]
  exact Nat.mod_lt _ hpos

theorem signed_mdi {b a : Word} (ha : a ≠ 0) : (mdi b a).signed = b.signed.tmod a.signed := by
  have hlt := natAbs_tmod_lt ha b.signed
  have hbounds := signed_bounds a
  rw [mdi, if_neg ha, signed_toUInt16, Int32.toInt_toInt16, toInt_remainder]
  apply Int.bmod_eq_of_le <;> omega

theorem dvi_of_ne_zero {b a : Word} (ha : a ≠ 0) :
    dvi b a = (((extend b).toInt64 / (extend a).toInt64).toInt16.toUInt16,
      (((extend b).toInt64 <<< 16) / (extend a).toInt64).toInt16.toUInt16) :=
  if_neg ha

theorem signed_dvi_fst {b a : Word} (ha : a ≠ 0) :
    (dvi b a).1.signed = (b.signed.tdiv a.signed).bmod (2 ^ 16) := by
  rw [dvi_of_ne_zero ha, signed_toUInt16, Int64.toInt_toInt16, toInt_quotient]

/-- The excess word holds the places that the remainder gives. What stands before them is a multiple
of `2 ^ 16`. -/
theorem toNat_dvi_snd {b a : Word} (ha : a ≠ 0) : ((dvi b a).2.toNat : ℤ) =
    (b.signed.tmod a.signed * 2 ^ 16).tdiv a.signed % 2 ^ 16 := by
  have hscaled : (b.signed * 2 ^ 16).tdiv a.signed = b.signed.tdiv a.signed * 2 ^ 16 +
      (b.signed.tmod a.signed * 2 ^ 16).tdiv a.signed := by
    exact_mod_cast scaled_tdiv b.signed (2 ^ 16) (signed_ne_zero ha)
  have hsigned : (dvi b a).2.signed = ((b.signed * 2 ^ 16).tdiv a.signed).bmod (2 ^ 16) := by
    rw [dvi_of_ne_zero ha, signed_toUInt16, Int64.toInt_toInt16, toInt_scaled_quotient]
  have hmod : (dvi b a).2.signed % 2 ^ 16 = (b.signed * 2 ^ 16).tdiv a.signed % 2 ^ 16 := by
    rw [hsigned]
    exact Int.bmod_emod
  rw [toNat_eq_signed_emod, hmod, hscaled, Int.add_comm, Int.add_mul_emod_self_right]

/-- The quotient of two words is a word, except that there is no word for `2 ^ 15`. -/
theorem bmod_tdiv_eq_iff {b a : Word} (ha : a ≠ 0) :
    (b.signed.tdiv a.signed).bmod (2 ^ 16) = b.signed.tdiv a.signed ↔
      ¬ (b = 0x8000 ∧ a = 0xffff) := by
  have hleast : (0x8000 : Word).signed = -2 ^ 15 := rfl
  have hminus : (0xffff : Word).signed = -1 := rfl
  rw [← signed_inj, ← signed_inj, hleast, hminus]
  have hb := signed_bounds b
  have hle := Int.natAbs_tdiv_le_natAbs b.signed a.signed
  have hsplit := Int.tmod_add_mul_tdiv b.signed a.signed
  have hlt := natAbs_tmod_lt ha b.signed
  constructor
  · intro h hexception
    obtain ⟨hb', ha'⟩ := hexception
    rw [hb', ha'] at h
    exact absurd h (by decide)
  · intro h
    have hne : b.signed.tdiv a.signed ≠ 2 ^ 15 := by
      intro hq
      rw [hq] at hsplit hle
      exact h ⟨by omega, by omega⟩
    apply Int.bmod_eq_of_le <;> omega

/-- How the unsigned quotient, its excess and the remainder belong together. -/
structure UnsignedDivision (b a : Word) : Prop where
  dividend : b.toNat = (div b a).1.toNat * a.toNat + (mod b a).toNat
  remainder_lt : (mod b a).toNat < a.toNat
  excess : (div b a).2.toNat = (mod b a).toNat * 2 ^ 16 / a.toNat
  scaled : (div b a).1.toNat * 2 ^ 16 + (div b a).2.toNat = b.toNat * 2 ^ 16 / a.toNat

/-- How the signed quotient, its excess and the remainder belong together. Quotients are rounded
toward zero. -/
structure SignedDivision (b a : Word) : Prop where
  dividend : b.signed = b.signed.tdiv a.signed * a.signed + (mdi b a).signed
  remainder_lt : (mdi b a).signed.natAbs < a.signed.natAbs
  sign_remainder : (mdi b a).signed = 0 ∨ (mdi b a).signed.sign = b.signed.sign
  quotient : ((dvi b a).1.toNat : ℤ) = b.signed.tdiv a.signed % 2 ^ 16
  quotient_exact : (dvi b a).1.signed = b.signed.tdiv a.signed ↔ ¬ (b = 0x8000 ∧ a = 0xffff)
  excess : ((dvi b a).2.toNat : ℤ) = ((mdi b a).signed * 2 ^ 16).tdiv a.signed % 2 ^ 16

/-- What is computed on the way is what unbounded integers would give. A remainder is taken along
with a quotient, which has to have room too. -/
structure DivisionHasRoom (b a : Word) : Prop where
  div_eq : div b a = (b / a, ((b.toUInt32 <<< 16) / a.toUInt32).toUInt16)
  scaled : (b.toUInt32 <<< 16).toNat = b.toNat * 2 ^ 16
  scaled_quotient : ((b.toUInt32 <<< 16) / a.toUInt32).toNat = b.toNat * 2 ^ 16 / a.toNat
  dvi_eq : dvi b a = (((extend b).toInt64 / (extend a).toInt64).toInt16.toUInt16,
    (((extend b).toInt64 <<< 16) / (extend a).toInt64).toInt16.toUInt16)
  signed_quotient : ((extend b).toInt64 / (extend a).toInt64).toInt = b.signed.tdiv a.signed
  signed_scaled : ((extend b).toInt64 <<< 16).toInt = b.signed * 2 ^ 16
  signed_scaled_quotient : (((extend b).toInt64 <<< 16) / (extend a).toInt64).toInt =
    (b.signed * 2 ^ 16).tdiv a.signed
  mod_eq : mod b a = b % a
  mdi_eq : mdi b a = (extend b % extend a).toInt16.toUInt16
  remainder : (extend b % extend a).toInt = b.signed.tmod a.signed
  remainder_quotient : (extend b / extend a).toInt = b.signed.tdiv a.signed

theorem divisionHasRoom {a : Word} (ha : a ≠ 0) (b : Word) : DivisionHasRoom b a where
  div_eq := div_of_ne_zero ha
  scaled := toNat_scaled b
  scaled_quotient := toNat_scaled_quotient b a
  dvi_eq := dvi_of_ne_zero ha
  signed_quotient := toInt_quotient b a
  signed_scaled := toInt_scaled b
  signed_scaled_quotient := toInt_scaled_quotient b a
  mod_eq := if_neg ha
  mdi_eq := if_neg ha
  remainder := toInt_remainder b a
  remainder_quotient := toInt_narrow_quotient b a

theorem unsignedDivision {a : Word} (ha : a ≠ 0) (b : Word) : UnsignedDivision b a := by
  have hpos := toNat_pos ha
  have hexcess := toNat_div_snd ha b
  have hquotient : (div b a).1.toNat = b.toNat / a.toNat := by
    rw [div_of_ne_zero ha, UInt16.toNat_div]
  have hremainder : (mod b a).toNat = b.toNat % a.toNat := by
    rw [mod, if_neg ha, UInt16.toNat_mod]
  constructor
  · rw [hquotient, hremainder, Nat.div_add_mod']
  · rw [hremainder]
    exact Nat.mod_lt _ hpos
  · rw [hexcess, hremainder]
  · rw [hexcess, hquotient]
    exact (scaled_div _ _ hpos).symm

theorem signedDivision {a : Word} (ha : a ≠ 0) (b : Word) : SignedDivision b a := by
  have hremainder := signed_mdi ha (b := b)
  constructor
  · rw [hremainder, Int.tdiv_mul_add_tmod]
  · rw [hremainder]
    exact natAbs_tmod_lt ha _
  · rw [hremainder, ← Int.sign_eq_zero_iff_zero, Int.sign_tmod]
    split
    · exact Or.inl rfl
    · exact Or.inr rfl
  · rw [toNat_eq_signed_emod, signed_dvi_fst ha]
    exact Int.bmod_emod
  · rw [signed_dvi_fst ha, bmod_tdiv_eq_iff ha]
  · rw [toNat_dvi_snd ha, hremainder]

/-- A quotient, its excess and the remainder fit together, without a sign and with one, and by zero
they are all zero. Nothing outgrows the type in which it is computed. -/
theorem division_exact (b a : Word) :
    (a = 0 → div b a = (0, 0) ∧ dvi b a = (0, 0) ∧ mod b a = 0 ∧ mdi b a = 0) ∧
    (a ≠ 0 → UnsignedDivision b a ∧ SignedDivision b a ∧ DivisionHasRoom b a) := by
  constructor
  · intro ha
    subst ha
    exact ⟨rfl, rfl, rfl, rfl⟩
  · intro ha
    exact ⟨unsignedDivision ha b, signedDivision ha b, divisionHasRoom ha b⟩

/-- The least number by -1, whose quotient is no word. -/
theorem division_exact_of_least_by_minus_one :
    div 5 0 = (0, 0) ∧ dvi 0x8000 0xffff = (0x8000, 0) ∧
      UnsignedDivision 0x8000 0xffff ∧ SignedDivision 0x8000 0xffff ∧
      DivisionHasRoom 0x8000 0xffff := by
  obtain ⟨hzero, -⟩ := division_exact 5 0
  obtain ⟨-, hlaws⟩ := division_exact 0x8000 0xffff
  exact ⟨(hzero rfl).1, by decide, hlaws (by decide)⟩

end Dcpu.Arithmetic
