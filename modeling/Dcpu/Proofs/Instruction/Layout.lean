import Dcpu.Instruction.Basic

/-! The three fields of an instruction word do not overlap and fill it, so that words and fields
that fit determine each other. -/
namespace Dcpu.Instruction.Fields

/-- Every field fits its bits. -/
structure Fits (f : Fields) : Prop where
  opcode : f.opcode.toNat < 32
  b : f.b.toNat < 32
  a : f.a.toNat < 64

theorem toNat_toWord {f : Fields} (h : f.Fits) :
    f.toWord.toNat = f.a.toNat * 1024 + (f.b.toNat * 32 + f.opcode.toNat) := by
  have ho := h.opcode
  have hb := h.b
  have ha := h.a
  have hs : f.toWord.toNat = f.a.toNat <<< 10 ||| f.b.toNat <<< 5 ||| f.opcode.toNat := by
    simp only [toWord, UInt16.toNat_or, UInt16.toNat_shiftLeft, UInt16.reduceToNat,
      Nat.reduceMod, Nat.shiftLeft_eq]
    rw [Nat.mod_eq_of_lt (by omega), Nat.mod_eq_of_lt (by omega)]
  have hlow : f.b.toNat <<< 5 ||| f.opcode.toNat = f.b.toNat * 32 + f.opcode.toNat := by
    rw [← Nat.shiftLeft_add_eq_or_of_lt (by omega), Nat.shiftLeft_eq]
  rw [hs, Nat.or_assoc, hlow, ← Nat.shiftLeft_add_eq_or_of_lt (by omega), Nat.shiftLeft_eq]

theorem toNat_opcode_ofWord (w : Word) : (ofWord w).opcode.toNat = w.toNat % 32 := by
  simpa [ofWord] using Nat.and_two_pow_sub_one_eq_mod w.toNat 5

theorem toNat_b_ofWord (w : Word) : (ofWord w).b.toNat = w.toNat / 32 % 32 := by
  simpa [ofWord, Nat.shiftRight_eq_div_pow] using
    Nat.and_two_pow_sub_one_eq_mod (w.toNat / 32) 5

theorem toNat_a_ofWord (w : Word) : (ofWord w).a.toNat = w.toNat / 1024 % 64 := by
  simpa [ofWord, Nat.shiftRight_eq_div_pow] using
    Nat.and_two_pow_sub_one_eq_mod (w.toNat / 1024) 6

theorem fits_ofWord (w : Word) : (ofWord w).Fits where
  opcode := by rw [toNat_opcode_ofWord]; omega
  b := by rw [toNat_b_ofWord]; omega
  a := by rw [toNat_a_ofWord]; omega

@[simp] theorem toWord_ofWord (w : Word) : (ofWord w).toWord = w := by
  have hw := w.toNat_lt
  apply UInt16.toNat_inj.1
  rw [toNat_toWord (fits_ofWord w), toNat_opcode_ofWord, toNat_b_ofWord, toNat_a_ofWord]
  omega

theorem ofWord_toWord {f : Fields} (h : f.Fits) : ofWord f.toWord = f := by
  have hn := toNat_toWord h
  have ho : (ofWord f.toWord).opcode = f.opcode := by
    apply UInt16.toNat_inj.1
    rw [toNat_opcode_ofWord, hn]
    have := h.opcode
    omega
  have hb : (ofWord f.toWord).b = f.b := by
    apply UInt16.toNat_inj.1
    rw [toNat_b_ofWord, hn]
    have := h.opcode
    have := h.b
    omega
  have ha : (ofWord f.toWord).a = f.a := by
    apply UInt16.toNat_inj.1
    rw [toNat_a_ofWord, hn]
    have := h.opcode
    have := h.b
    have := h.a
    omega
  cases hf : ofWord f.toWord
  simp_all

end Dcpu.Instruction.Fields
