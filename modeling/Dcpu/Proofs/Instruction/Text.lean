import Dcpu.Instruction.Basic
import Dcpu.Proofs.Text.Numeral

/-! Assembly text read back. An operand is read by the first characters of its text. No text of an
operand holds a comma or a line break, so that instructions and listings fall apart into operands in
one way only. -/
namespace Dcpu

open Monitor

namespace Text

/-- The word that a number stands for. -/
def word? (cs : List Char) : Option Word :=
  (Numeral.read (String.ofList cs)).toOption.map UInt16.ofNat

theorem word?_hex (w : Word) : word? (hex w).toList = some w := by
  simp [word?, read_hex, Except.toOption]

/-- The word that a number before a closing bracket stands for. -/
def closed? (cs : List Char) : Option Word := word? cs.dropLast

theorem closed?_hex (w : Word) : closed? ((hex w).toList ++ [']']) = some w := by
  rw [closed?, List.dropLast_concat, word?_hex]

/-- The characters of a decimal number. -/
def isDecimal (c : Char) : Bool := c.isDigit || c == '-'

theorem isDigit_of_mem_repr {c : Char} {n : Nat} (h : c ∈ n.repr.toList) : c.isDigit = true := by
  rw [Nat.toList_repr] at h
  exact Nat.isDigit_of_mem_toDigits (by decide) (by decide) h

theorem all_isDecimal_repr (n : Int) : n.repr.toList.all isDecimal = true := by
  have hdigits (k : Nat) : k.repr.toList.all isDecimal = true := by
    rw [List.all_eq_true]
    intro c hc
    rw [isDecimal, isDigit_of_mem_repr hc, Bool.true_or]
  rw [Int.repr_eq_if]
  split
  · exact hdigits _
  · rw [String.toList_append, List.all_append, hdigits]
    rfl

/-- The word whose signed reading is a decimal number. -/
def signed? : List Char → Option Word
  | '-' :: cs => (word? cs).map (- ·)
  | cs => word? cs

theorem signed?_repr (w : Word) : signed? w.signed.repr.toList = some w := by
  have hw := w.toNat_lt
  have hword {n : Nat} (hn : n ≤ 0x10000) : word? n.repr.toList = some (UInt16.ofNat n) := by
    have hbound : n < Numeral.bound := by
      unfold Numeral.bound
      omega
    rw [word?, String.ofList_toList, Numeral.read_repr hbound]
    rfl
  rw [Int.repr_eq_if, Word.signed_eq_ite]
  by_cases hneg : w.toNat < 0x8000
  · rw [if_pos hneg, if_pos (Int.natCast_nonneg _), Int.toNat_natCast]
    unfold signed?
    split
    · next heq =>
      have hminus : '-' ∈ w.toNat.repr.toList := heq ▸ List.mem_cons_self
      cases isDigit_of_mem_repr hminus
    · rw [hword (by omega), UInt16.ofNat_toNat]
  · have hminus : (-((w.toNat : Int) - 0x10000)).toNat = 0x10000 - w.toNat := by omega
    rw [if_neg hneg, if_neg (by omega), hminus, String.toList_append]
    change (word? (0x10000 - w.toNat).repr.toList).map (- ·) = some w
    rw [hword (by omega), Option.map_some, Option.some.injEq]
    apply UInt16.toNat_inj.1
    rw [UInt16.toNat_neg, UInt16.toNat_ofNat', UInt16.size]
    omega

/-- A character that is no digit does not stand among the digits of a printed number. -/
theorem notMem_hexDigits {c : Char} (hc : Numeral.digit? 16 c = none) (width : Nat) {n : Nat}
    (hn : n < Numeral.bound) : c ∉ (hexDigits width n).toList := by
  intro h
  have hdigits := readDigits_hexDigits width hn
  have hdigit := Numeral.isSome_digit?_of_readDigits hdigits h
  rw [hc] at hdigit
  cases hdigit

/-- Texts that a character ends can be told from what follows it. -/
theorem append_cons_inj {c : Char} {xs ys us vs : List Char} (hx : c ∉ xs) (hy : c ∉ ys) :
    xs ++ c :: us = ys ++ c :: vs ↔ xs = ys ∧ us = vs := by
  induction xs generalizing ys with
  | nil => cases ys <;> simp_all
  | cons x xs ih =>
    simp only [List.mem_cons, not_or] at hx
    cases ys with
    | nil => simp [Ne.symm hx.1]
    | cons y ys =>
      simp only [List.mem_cons, not_or] at hy
      simp [ih hx.2 hy.2, and_assoc]

end Text

namespace Register

/-- The register whose name is a single letter. -/
def ofLetter? (c : Char) : Option Register := all.find? fun r => r.name.toList == [c]

theorem exists_letter (r : Register) : ∃ c, r.name.toList = [c] ∧ ofLetter? c = some r ∧
    c ≠ ',' ∧ c ≠ '\n' := by
  cases r <;> exact ⟨_, rfl, rfl, by decide, by decide⟩

end Register

namespace Operand

open Text

/-- The operand with a text that is no decimal number. -/
def ofSymbols? : List Char → Option Operand
  | ['P', 'U', 'S', 'H'] => some push
  | ['P', 'O', 'P'] => some pop
  | ['P', 'E', 'E', 'K'] => some peek
  | 'P' :: 'I' :: 'C' :: 'K' :: ' ' :: cs => (word? cs).map pick
  | ['S', 'P'] => some sp
  | ['P', 'C'] => some pc
  | ['E', 'X'] => some ex
  | [r] => (Register.ofLetter? r).map register
  | ['[', r, ']'] => (Register.ofLetter? r).map indirect
  | '[' :: r :: '+' :: cs => do return indexed (← Register.ofLetter? r) (← closed? cs)
  | '[' :: cs => (closed? cs).map absolute
  | cs => (word? cs).map immediate

/-- The operand with a text. -/
def ofText? (cs : List Char) : Option Operand :=
  if cs.all isDecimal then (signed? cs).map literal else ofSymbols? cs

theorem ofText?_of_not_isDecimal {c : Char} {cs : List Char} (hc : isDecimal c = false)
    (hmem : c ∈ cs) : ofText? cs = ofSymbols? cs := by
  have hall : cs.all isDecimal = false := List.all_eq_false.2 ⟨c, hmem, by simp [hc]⟩
  rw [ofText?, hall]
  rfl

theorem ofText?_text (o : Operand) : ofText? o.text.toList = some o := by
  cases o with
  | register r => cases r <;> rfl
  | indirect r => cases r <;> rfl
  | indexed r w =>
    obtain ⟨c, hname, hr, -⟩ := r.exists_letter
    have htext : (indexed r w).text.toList = '[' :: c :: '+' :: ((hex w).toList ++ [']']) := by
      simp [text, hname]
    rw [htext, ofText?_of_not_isDecimal (c := '[') rfl List.mem_cons_self]
    change (do return indexed (← Register.ofLetter? c) (← closed? _)) = _
    rw [hr, closed?_hex]
    rfl
  | push | pop | peek | sp | pc | ex => rfl
  | pick w =>
    have htext : (pick w).text.toList = 'P' :: 'I' :: 'C' :: 'K' :: ' ' :: (hex w).toList := by
      simp [text]
    rw [htext, ofText?_of_not_isDecimal (c := 'P') rfl List.mem_cons_self]
    change (word? (hex w).toList).map pick = _
    rw [word?_hex]
    rfl
  | absolute w =>
    have htext : (absolute w).text.toList = '[' :: ((hex w).toList ++ [']']) := by
      simp [text]
    have hread : ofSymbols? ('[' :: ((hex w).toList ++ [']'])) =
        (closed? ((hex w).toList ++ [']'])).map absolute := by
      rw [toList_hex]
      rfl
    rw [htext, ofText?_of_not_isDecimal (c := '[') rfl List.mem_cons_self, hread, closed?_hex]
    rfl
  | immediate w =>
    have hx : 'x' ∈ (hex w).toList := by
      simp [toList_hex]
    have hread : ofSymbols? (hex w).toList = (word? (hex w).toList).map immediate := by
      rw [toList_hex]
      rfl
    change ofText? (hex w).toList = _
    rw [ofText?_of_not_isDecimal (c := 'x') rfl hx, hread, word?_hex]
    rfl
  | literal w =>
    change ofText? w.signed.repr.toList = _
    rw [ofText?, if_pos (all_isDecimal_repr _), signed?_repr]
    rfl

theorem text_inj {o o' : Operand} : o.text = o'.text ↔ o = o' := by
  constructor
  · intro h
    have hread := ofText?_text o
    rw [h, ofText?_text] at hread
    exact (Option.some.inj hread).symm
  · intro h
    rw [h]

/-- Commas and line breaks stand between operands only. -/
theorem notMem_text (o : Operand) {c : Char} (hc : c = ',' ∨ c = '\n') : c ∉ o.text.toList := by
  have hhex (w : Word) : c ∉ (hexDigits 4 w.toNat).toList := by
    apply notMem_hexDigits _ 4 (Numeral.toNat_lt_bound w)
    obtain rfl | rfl := hc <;> rfl
  have hname (r : Register) : c ∉ r.name.toList := by
    obtain ⟨d, hname, -, hcomma, hbreak⟩ := r.exists_letter
    obtain rfl | rfl := hc <;> simp [hname, hcomma.symm, hbreak.symm]
  cases o with
  | literal w =>
    intro h
    have hdecimal := List.all_eq_true.1 (all_isDecimal_repr w.signed) c h
    obtain rfl | rfl := hc <;> cases hdecimal
  | register r => exact hname r
  | _ =>
    obtain rfl | rfl := hc <;> simp_all [text, toList_hex]

end Operand

/-- Mnemonics have three letters and can be looked up. -/
theorem Opcode.mnemonic_spec (o : Opcode) : o.mnemonic.toList.length = 3 ∧
    '\n' ∉ o.mnemonic.toList ∧ ofMnemonic? o.mnemonic = some o := by
  have h : ∀ o ∈ all, o.mnemonic.toList.length = 3 ∧ '\n' ∉ o.mnemonic.toList ∧
      ofMnemonic? o.mnemonic = some o := by decide
  exact h o o.mem_all

theorem Opcode.mnemonic_inj {o o' : Opcode} : o.mnemonic = o'.mnemonic ↔ o = o' := by
  constructor
  · intro h
    have hread := o.mnemonic_spec.2.2
    rw [h, o'.mnemonic_spec.2.2] at hread
    exact (Option.some.inj hread).symm
  · intro h
    rw [h]

namespace Instruction

open Text

/-- The operands as they stand behind the mnemonic. -/
def operandText (i : Instruction) : List Char :=
  match i.b with
  | some b => b.text.toList ++ ',' :: ' ' :: i.a.text.toList
  | none => i.a.text.toList

theorem toList_text (i : Instruction) :
    i.text.toList = i.opcode.mnemonic.toList ++ ' ' :: i.operandText := by
  unfold text operandText
  cases i.b <;> simp

theorem notMem_operandText (i : Instruction) : '\n' ∉ i.operandText := by
  have hbreak (o : Operand) : '\n' ∉ o.text.toList := o.notMem_text (Or.inr rfl)
  unfold operandText
  cases i.b <;> simp [hbreak]

theorem eq_of_operandText_eq {i j : Instruction} (h : i.operandText = j.operandText) :
    i.b = j.b ∧ i.a = j.a := by
  have hcomma (o : Operand) : ',' ∉ o.text.toList := o.notMem_text (Or.inl rfl)
  have hinj {o o' : Operand} (h : o.text.toList = o'.text.toList) : o = o' :=
    Operand.text_inj.1 (String.toList_inj.1 h)
  obtain ⟨opcode, b, a⟩ := i
  obtain ⟨opcode', b', a'⟩ := j
  cases b with
  | none =>
    cases b' with
    | none => exact ⟨rfl, hinj h⟩
    | some b' =>
      have ha : a.text.toList = b'.text.toList ++ ',' :: ' ' :: a'.text.toList := h
      exact absurd (ha ▸ by simp) (hcomma a)
  | some b =>
    cases b' with
    | none =>
      have ha : b.text.toList ++ ',' :: ' ' :: a.text.toList = a'.text.toList := h
      exact absurd (ha ▸ by simp) (hcomma a')
    | some b' =>
      obtain ⟨hb, ha⟩ := (append_cons_inj (hcomma b) (hcomma b')).1 h
      exact ⟨congrArg some (hinj hb), hinj (List.cons.inj ha).2⟩

/-- Instructions have one text each, whether or not they can be encoded. -/
theorem text_inj {i j : Instruction} : i.text = j.text ↔ i = j := by
  constructor
  · intro h
    have hchars := congrArg String.toList h
    rw [toList_text, toList_text] at hchars
    have hlength := i.opcode.mnemonic_spec.1.trans j.opcode.mnemonic_spec.1.symm
    obtain ⟨hmnemonic, hrest⟩ := List.append_inj hchars hlength
    have hopcode : i.opcode = j.opcode := Opcode.mnemonic_inj.1 (String.toList_inj.1 hmnemonic)
    obtain ⟨hb, ha⟩ := eq_of_operandText_eq (List.cons.inj hrest).2
    cases i
    cases j
    simp_all
  · intro h
    rw [h]

theorem notMem_text (i : Instruction) : '\n' ∉ i.text.toList := by
  rw [toList_text]
  simp [i.opcode.mnemonic_spec.2.1, i.notMem_operandText]

end Instruction

end Dcpu
