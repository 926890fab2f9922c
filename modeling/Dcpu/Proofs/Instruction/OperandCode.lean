import Dcpu.Instruction.Decode
import Dcpu.Instruction.Encode

/-! Codes of operands, read back. A code and an extra word stand for exactly one operand, except
that a literal too long for a code shares its encoding with the immediate of the same word. -/
namespace Dcpu

theorem Register.toNat_index_ofLowBits (code : Word) :
    ((ofLowBits code).index : Nat) = code.toNat % 8 := by
  simp [ofLowBits]

/-- A code among the eight from `base` on is `base` with the number of its register. -/
theorem Register.add_index_ofLowBits {base code : Word} (hb : base.toNat % 8 = 0)
    (hl : base.toNat ≤ code.toNat) (hu : code.toNat < base.toNat + 8) :
    base + UInt16.ofNat (ofLowBits code).index = code := by
  have hc := code.toNat_lt
  apply UInt16.toNat_inj.1
  rw [UInt16.toNat_add, UInt16.toNat_ofNat', toNat_index_ofLowBits]
  omega

namespace Operand

theorem isShort_iff (w : Word) : isShort w ↔ w.toNat ≤ 30 ∨ w.toNat = 0xffff := by
  have hw := w.toNat_lt
  simp only [isShort, Word.signed_eq_ite, Bool.and_eq_true, decide_eq_true_eq]
  split <;> omega

theorem isShort_sub_iff (code : Word) :
    isShort (code - 0x21) ↔ 0x20 ≤ code.toNat ∧ code.toNat < 0x40 := by
  have hc := code.toNat_lt
  rw [isShort_iff, UInt16.toNat_sub, show (0x21 : Word).toNat = 0x21 from rfl]
  omega

/-- What an operand becomes when it is written to machine code and read again: a literal that is
not short turns into the immediate of its word. -/
def canonical : Operand → Operand
  | literal w => if isShort w then literal w else immediate w
  | o => o

@[simp] theorem canonical_canonical (o : Operand) : o.canonical.canonical = o.canonical := by
  cases o with
  | literal w => by_cases h : isShort w <;> simp [canonical, h]
  | _ => rfl

/-- As sources, an operand and its canonical form are written alike. -/
@[simp] theorem encode_canonical (o : Operand) : o.canonical.encode .a = o.encode .a := by
  cases o with
  | literal w => by_cases h : isShort w <;> simp [canonical, encode, h]
  | _ => rfl

theorem exists_encode_a_iff {o : Operand} : (∃ p, o.encode .a = .ok p) ↔ o ≠ push := by
  cases o with
  | literal w => by_cases h : isShort w <;> simp [encode, h]
  | _ => simp [encode]

theorem exists_encode_b_iff {o : Operand} :
    (∃ p, o.encode .b = .ok p) ↔ o ≠ pop ∧ ∀ w, o ≠ literal w := by
  cases o <;> simp [encode]

theorem canonical_of_encode_b {o : Operand} {p : Word × Option Word}
    (h : o.encode .b = .ok p) : o.canonical = o := by
  cases o with
  | literal w => cases h
  | _ => rfl

/-- The operand with zero for its extra word, which is what its code alone stands for. -/
def blank (o : Operand) : Operand := o.setExtra 0

@[simp] theorem blank_setExtra (o : Operand) (w : Word) : (o.setExtra w).blank = o.blank := by
  cases o <;> rfl

@[simp] theorem blank_blank (o : Operand) : o.blank.blank = o.blank := blank_setExtra o 0

@[simp] theorem extraWords_blank (o : Operand) : o.blank.extraWords = o.extraWords := by
  cases o <;> rfl

theorem setExtra_of_extra?_eq_none {o : Operand} (h : o.extra? = none) (w : Word) :
    o.setExtra w = o := by
  cases o <;> first | rfl | cases h

/-- Operands with the same code differ at most in the extra word. -/
theorem blank_eq_blank_iff {o o' : Operand} : o'.blank = o.blank ↔ ∃ w, o' = o.setExtra w := by
  constructor
  · intro h
    refine ⟨o'.extra?.getD 0, ?_⟩
    cases o <;> cases o' <;> cases h <;> rfl
  · intro h
    obtain ⟨w, rfl⟩ := h
    exact blank_setExtra o w

private theorem ofCode_literal {code : Word} (h : isShort (code - 0x21)) :
    ofCode .a code = .ok (literal (code - 0x21)) := by
  rw [isShort_sub_iff] at h
  have below {k : Word} (hk : k.toNat ≤ 0x20) : ¬ code < k := by
    rw [UInt16.lt_iff_toNat_lt]
    omega
  have apart {k : Word} (hk : k.toNat < 0x20) : code ≠ k := by
    rintro rfl
    omega
  have hlast : code < 0x40 := UInt16.lt_iff_toNat_lt.2 h.2
  simp [ofCode, below, apart, hlast]

private theorem ofCode_of_encode {slot : Slot} {o : Operand} {code : Word} {extra : Option Word}
    (ho : o.canonical = o) (h : o.encode slot = .ok (code, extra)) :
    extra = o.extra? ∧ ofCode slot code = .ok o.blank := by
  cases o with
  | register r | indirect r | indexed r _ =>
    cases h
    cases slot <;> cases r <;> exact ⟨rfl, rfl⟩
  | literal w =>
    cases slot with
    | b => cases h
    | a =>
      have hw : isShort w := by
        by_cases hw : isShort w
        · exact hw
        · simp [canonical, hw] at ho
      simp only [encode, hw, if_true, Except.ok.injEq, Prod.mk.injEq] at h
      obtain ⟨rfl, rfl⟩ := h
      have hsub : w + 0x21 - 0x21 = w := UInt16.add_sub_cancel w 0x21
      have hcode := ofCode_literal (hsub.symm ▸ hw)
      rw [hsub] at hcode
      exact ⟨rfl, hcode⟩
  | push | pop =>
    cases slot <;> cases h
    exact ⟨rfl, rfl⟩
  | _ =>
    cases h
    cases slot <;> exact ⟨rfl, rfl⟩

private theorem encode_setExtra_of_ofCode {slot : Slot} {o : Operand} {code : Word}
    (h : ofCode slot code = .ok o) (w : Word) :
    (o.setExtra w).canonical = o.setExtra w ∧
      (o.setExtra w).encode slot = .ok (code, (o.setExtra w).extra?) := by
  revert h
  fun_cases ofCode slot code <;> intro h <;> cases h
  case case1 r hu =>
    have hc : 0 + UInt16.ofNat r.index = code :=
      Register.add_index_ofLowBits (by decide) (by simp) hu
    rw [UInt16.zero_add] at hc
    simp [setExtra, canonical, encode, extra?, hc]
  case case2 r hl hu =>
    have hc : 0x08 + UInt16.ofNat r.index = code :=
      Register.add_index_ofLowBits (by decide) (UInt16.not_lt.1 hl) hu
    simp [setExtra, canonical, encode, extra?, hc]
  case case3 r _ hl hu =>
    have hc : 0x10 + UInt16.ofNat r.index = code :=
      Register.add_index_ofLowBits (by decide) (UInt16.not_lt.1 hl) hu
    simp [setExtra, canonical, encode, extra?, hc]
  case case13 =>
    have hl : 0x20 ≤ code.toNat := by
      simp only [UInt16.lt_iff_toNat_lt, ← UInt16.toNat_inj, UInt16.reduceToNat] at *
      omega
    have hw : isShort (code - 0x21) := (isShort_sub_iff code).2 ⟨hl, by assumption⟩
    simp [setExtra, canonical, encode, extra?, hw]
  all_goals simp_all [setExtra, canonical, encode, extra?]

/-- A code stands for the operands that are written with it. -/
theorem ofCode_eq_ok_blank_iff {slot : Slot} {o : Operand} {code : Word} :
    ofCode slot code = .ok o.blank ↔ o.canonical = o ∧ o.encode slot = .ok (code, o.extra?) := by
  constructor
  · intro h
    obtain ⟨w, hw⟩ := blank_eq_blank_iff.1 (blank_blank o).symm
    rw [hw]
    exact encode_setExtra_of_ofCode h w
  · intro h
    obtain ⟨ho, h⟩ := h
    exact (ofCode_of_encode ho h).2

theorem extra?_of_encode {slot : Slot} {o : Operand} {code : Word} {extra : Option Word}
    (ho : o.canonical = o) (h : o.encode slot = .ok (code, extra)) : extra = o.extra? :=
  (ofCode_of_encode ho h).1

theorem blank_of_ofCode {slot : Slot} {o : Operand} {code : Word}
    (h : ofCode slot code = .ok o) : o.blank = o := by
  revert h
  fun_cases ofCode slot code <;> intro h <;> cases h <;> rfl

end Operand

end Dcpu
