import Dcpu.Fallible
import Dcpu.Proofs.Instruction.Layout
import Dcpu.Proofs.Instruction.OperandCode

/-! First words of instructions, read back. The word an instruction begins with and the extra words
of its operands are its encoding, and no other instruction in canonical form has the same. -/
namespace Dcpu

open Fallible

theorem Opcode.code_fits (o : Opcode) : o.code.toNat < 32 ∧ o.code ≠ 0 := by
  cases o with
  | jsr => decide
  | operate op => cases op <;> decide
  | test c => cases c <;> decide

theorem Opcode.isSpecial_iff {o : Opcode} : o.isSpecial = true ↔ o = jsr := by
  cases o <;> simp [isSpecial]

/-- How many codes a slot's field of the instruction word can hold. -/
def Slot.codes : Slot → Nat
  | a => 64
  | b => 32

/-- The codes that stand for operands are those that fit the field. -/
theorem Operand.exists_ofCode_iff {slot : Slot} {code : Word} :
    (∃ o, ofCode slot code = .ok o) ↔ code.toNat < slot.codes := by
  have h32 : 32 ≤ slot.codes := by cases slot <;> decide
  have h64 : slot.codes ≤ 64 := by cases slot <;> decide
  fun_cases ofCode slot code
  all_goals
    simp only [UInt16.lt_iff_toNat_lt, ← UInt16.toNat_inj, UInt16.reduceToNat, Slot.codes,
      Except.ok.injEq, exists_eq', true_iff, reduceCtorEq, exists_false, false_iff] at *
    omega

theorem Operand.toNat_lt_of_ofCode {slot : Slot} {o : Operand} {code : Word}
    (h : ofCode slot code = .ok o) : code.toNat < slot.codes :=
  exists_ofCode_iff.1 ⟨o, h⟩

namespace Instruction

/-- The words after the instruction word, the source operand's first. -/
def extras (i : Instruction) : List Word := i.a.extra?.toList ++ (i.b.bind Operand.extra?).toList

/-- The instruction with zero for every extra word, which is what its first word stands for. -/
def blank (i : Instruction) : Instruction :=
  { i with b := i.b.map Operand.blank, a := i.a.blank }

@[simp] theorem blank_blank (i : Instruction) : i.blank.blank = i.blank := by
  obtain ⟨opcode, b, a⟩ := i
  cases b <;> simp [blank]

@[simp] theorem extraWords_blank (i : Instruction) : i.blank.extraWords = i.extraWords := by
  obtain ⟨opcode, b, a⟩ := i
  cases b <;> simp [extraWords, blank]

theorem size_eq_of_blank_eq {i j : Instruction} (h : j.blank = i.blank) : j.size = i.size := by
  rw [size, size, ← extraWords_blank j, h, extraWords_blank]

theorem extraWords_eq_length (i : Instruction) :
    i.extraWords = UInt16.ofNat i.extras.length := by
  obtain ⟨opcode, b, a⟩ := i
  cases ha : a.extra? <;> cases b with
  | none => simp [extraWords, extras, Operand.extraWords, ha]
  | some b =>
    cases hb : b.extra? <;> simp [extraWords, extras, Operand.extraWords, ha, hb]

/-- What an instruction becomes when it is written to machine code and read again. -/
def canonical (i : Instruction) : Instruction := { i with a := i.a.canonical }

theorem length_extras_le (i : Instruction) : i.extras.length ≤ 2 := by
  have ha : i.a.extra?.toList.length ≤ 1 := by cases i.a.extra? <;> simp
  have hb : (i.b.bind Operand.extra?).toList.length ≤ 1 := by
    cases i.b.bind Operand.extra? <;> simp
  rw [extras, List.length_append]
  omega

theorem toNat_extraWords (i : Instruction) : i.extraWords.toNat = i.extras.length := by
  have hlength := length_extras_le i
  rw [extraWords_eq_length, UInt16.toNat_ofNat']
  omega

theorem toNat_size (i : Instruction) : i.size.toNat = i.extras.length + 1 := by
  have hlength := i.length_extras_le
  rw [size, UInt16.toNat_add, toNat_extraWords]
  change (1 + _) % 65536 = _
  omega

@[simp] theorem canonical_canonical (i : Instruction) : i.canonical.canonical = i.canonical := by
  simp [canonical]

@[simp] theorem encode_canonical (i : Instruction) : i.canonical.encode = i.encode := by
  simp [encode, canonical]

theorem encode_eq_ok_iff {i : Instruction} {words : List Word} :
    i.encode = .ok words ↔ ∃ a x, i.a.encode .a = .ok (a, x) ∧
      (i.opcode.isSpecial = true ∧ i.b = none ∧
          words = Fields.toWord ⟨0, i.opcode.code, a⟩ :: x.toList ∨
        i.opcode.isSpecial = false ∧ ∃ o b y, i.b = some o ∧ o.encode .b = .ok (b, y) ∧
          words = Fields.toWord ⟨i.opcode.code, b, a⟩ :: (x.toList ++ y.toList)) := by
  unfold encode
  rw [bind_eq_ok_iff]
  constructor
  · intro h
    obtain ⟨⟨a, x⟩, ha, h⟩ := h
    refine ⟨a, x, ha, ?_⟩
    cases hs : i.opcode.isSpecial <;> cases hb : i.b <;> rw [hs, hb] at h
    case true.none =>
      cases h
      exact Or.inl ⟨rfl, rfl, rfl⟩
    case false.some o =>
      obtain ⟨⟨b, y⟩, ho, h⟩ := bind_eq_ok_iff.1 h
      cases h
      exact Or.inr ⟨rfl, o, b, y, rfl, ho, rfl⟩
    all_goals cases h
  · intro h
    obtain ⟨a, x, ha, ⟨hs, hb, rfl⟩ | ⟨hs, o, b, y, hb, ho, rfl⟩⟩ := h
    · exact ⟨(a, x), ha, by rw [hs, hb]; rfl⟩
    · refine ⟨(a, x), ha, ?_⟩
      rw [hs, hb]
      exact bind_eq_ok_iff.2 ⟨(b, y), ho, rfl⟩

theorem exists_encode_iff {i : Instruction} :
    (∃ words, i.encode = .ok words) ↔ i.a ≠ .push ∧
      (i.opcode = .jsr ∧ i.b = none ∨
        i.opcode ≠ .jsr ∧ ∃ o, i.b = some o ∧ o ≠ .pop ∧ ∀ w, o ≠ .literal w) := by
  have hspecial : i.opcode.isSpecial = false ↔ i.opcode ≠ .jsr := by
    rw [ne_eq, ← Opcode.isSpecial_iff, Bool.not_eq_true]
  simp only [encode_eq_ok_iff, Opcode.isSpecial_iff, hspecial, ← Operand.exists_encode_a_iff,
    ← Operand.exists_encode_b_iff]
  grind

theorem ofWord_eq_ok_iff {w : Word} {i : Instruction} :
    ofWord w = .ok i ↔ Operand.ofCode .a (Fields.ofWord w).a = .ok i.a ∧
      ((Fields.ofWord w).opcode = 0 ∧
          Opcode.ofSpecialCode? (Fields.ofWord w).b = some i.opcode ∧ i.b = none ∨
        (Fields.ofWord w).opcode ≠ 0 ∧
          Opcode.ofCode? (Fields.ofWord w).opcode = some i.opcode ∧
          ∃ o, i.b = some o ∧ Operand.ofCode .b (Fields.ofWord w).b = .ok o) := by
  unfold ofWord
  generalize Fields.ofWord w = f
  by_cases hz : f.opcode = 0
  · simp only [hz, if_true, ne_eq, not_true_eq_false, false_and, or_false, true_and]
    cases hc : Opcode.ofSpecialCode? f.b with
    | none => simp
    | some opcode =>
      rw [bind_eq_ok_iff]
      constructor
      · intro h
        obtain ⟨a, ha, h⟩ := h
        cases h
        exact ⟨ha, rfl, rfl⟩
      · obtain ⟨opcode', b, a⟩ := i
        intro h
        obtain ⟨ha, ⟨⟩, ⟨⟩⟩ := h
        exact ⟨a, ha, rfl⟩
  · simp only [hz, if_false, ne_eq, not_false_eq_true, false_and, false_or, true_and]
    cases hc : Opcode.ofCode? f.opcode with
    | none => simp
    | some opcode =>
      simp only [bind_eq_ok_iff]
      constructor
      · intro h
        obtain ⟨a, ha, o, ho, h⟩ := h
        cases h
        exact ⟨ha, rfl, o, rfl, ho⟩
      · obtain ⟨opcode', b, a⟩ := i
        intro h
        obtain ⟨ha, ⟨⟩, o, ⟨⟩, ho⟩ := h
        exact ⟨a, ha, o, ho, rfl⟩

/-- A word begins no instruction only if its opcode is missing from the tables: every code that its
operand fields can hold stands for an operand. -/
theorem opcode_missing_of_ofWord {w : Word} {e : DecodeError} (h : ofWord w = .error e) :
    ∃ code, e = .specialOpcode code ∨ e = .binaryOpcode code := by
  have hf := Fields.fits_ofWord w
  obtain ⟨a, ha⟩ : ∃ o, Operand.ofCode .a (Fields.ofWord w).a = .ok o :=
    Operand.exists_ofCode_iff.2 hf.a
  obtain ⟨b, hb⟩ : ∃ o, Operand.ofCode .b (Fields.ofWord w).b = .ok o :=
    Operand.exists_ofCode_iff.2 hf.b
  unfold ofWord at h
  simp only [ha, hb] at h
  split at h
  · split at h
    · cases h
      exact ⟨_, Or.inl rfl⟩
    · cases h
  · split at h
    · cases h
      exact ⟨_, Or.inr rfl⟩
    · cases h

theorem blank_of_ofWord {w : Word} {i : Instruction} (h : ofWord w = .ok i) : i.blank = i := by
  obtain ⟨opcode, b, a⟩ := i
  obtain ⟨ha, ⟨-, -, hb⟩ | ⟨-, -, o, hb, ho⟩⟩ := ofWord_eq_ok_iff.1 h
  · simp_all [blank, Operand.blank_of_ofCode ha]
  · simp_all [blank, Operand.blank_of_ofCode ha, Operand.blank_of_ofCode ho]

private theorem encode_of_ofWord {w : Word} {i : Instruction} (h : ofWord w = .ok i.blank) :
    i.canonical = i ∧ i.encode = .ok (w :: i.extras) := by
  obtain ⟨ha, hcase⟩ := ofWord_eq_ok_iff.1 h
  have hw := Fields.toWord_ofWord w
  generalize Fields.ofWord w = f at ha hcase hw
  obtain ⟨opcode, b, a⟩ := f
  obtain ⟨hca, hea⟩ := Operand.ofCode_eq_ok_blank_iff.1 ha
  refine ⟨by simp [canonical, hca], encode_eq_ok_iff.2 ⟨_, _, hea, ?_⟩⟩
  obtain ⟨rfl, hs, hb⟩ | ⟨-, hc, o, hb, ho⟩ := hcase
  · left
    obtain ⟨hj, rfl⟩ := Opcode.ofSpecialCode?_eq_some_iff.1 hs
    have hb : i.b = none := by simpa [blank] using hb
    refine ⟨Opcode.isSpecial_iff.2 hj, hb, ?_⟩
    simp only [extras, hb, Option.bind_none, Option.toList_none, List.append_nil, ← hw]
    rfl
  · right
    obtain ⟨rfl, hs⟩ := Opcode.code_of_ofCode? hc
    obtain ⟨o', hb', rfl⟩ : ∃ o', i.b = some o' ∧ o'.blank = o := by simpa [blank] using hb
    obtain ⟨-, heb⟩ := Operand.ofCode_eq_ok_blank_iff.1 ho
    refine ⟨hs, o', b, o'.extra?, hb', heb, ?_⟩
    simp only [extras, hb', Option.bind_some, ← hw]
    rfl

private theorem ofWord_of_encode {w : Word} {i : Instruction} (hi : i.canonical = i)
    (h : i.encode = .ok (w :: i.extras)) : ofWord w = .ok i.blank := by
  have hca : i.a.canonical = i.a := congrArg Instruction.a hi
  obtain ⟨a, x, hea, hcase⟩ := encode_eq_ok_iff.1 h
  obtain rfl := Operand.extra?_of_encode hca hea
  have ha := Operand.ofCode_eq_ok_blank_iff.2 ⟨hca, hea⟩
  have hcode := i.opcode.code_fits
  obtain ⟨hs, hb, hw⟩ | ⟨hs, o, b, y, hb, heb, hw⟩ := hcase
  · obtain ⟨rfl, -⟩ := List.cons.inj hw
    have hf : Fields.Fits ⟨0, i.opcode.code, a⟩ :=
      ⟨Nat.zero_lt_succ _, hcode.1, Operand.toNat_lt_of_ofCode ha⟩
    rw [ofWord_eq_ok_iff, Fields.ofWord_toWord hf]
    refine ⟨ha, Or.inl ⟨rfl, ?_, by simp [blank, hb]⟩⟩
    exact Opcode.ofSpecialCode?_eq_some_iff.2 ⟨Opcode.isSpecial_iff.1 hs, rfl⟩
  · have hcb := Operand.canonical_of_encode_b heb
    obtain rfl := Operand.extra?_of_encode hcb heb
    have ho := Operand.ofCode_eq_ok_blank_iff.2 ⟨hcb, heb⟩
    obtain ⟨rfl, -⟩ := List.cons.inj hw
    have hf : Fields.Fits ⟨i.opcode.code, b, a⟩ :=
      ⟨hcode.1, Operand.toNat_lt_of_ofCode ho, Operand.toNat_lt_of_ofCode ha⟩
    rw [ofWord_eq_ok_iff, Fields.ofWord_toWord hf]
    exact ⟨ha, Or.inr ⟨hcode.2, Opcode.ofCode?_code hs, o.blank, by simp [blank, hb], ho⟩⟩

/-- A word stands for the instructions that are written with it. -/
theorem ofWord_eq_ok_blank_iff {w : Word} {i : Instruction} :
    ofWord w = .ok i.blank ↔ i.canonical = i ∧ i.encode = .ok (w :: i.extras) :=
  ⟨encode_of_ofWord, fun ⟨hi, h⟩ => ofWord_of_encode hi h⟩

/-- An encoding is a first word and the extra words of the canonical form. -/
theorem exists_eq_cons_extras {i : Instruction} {words : List Word} (h : i.encode = .ok words) :
    ∃ w, words = w :: i.canonical.extras := by
  obtain ⟨a, x, hea, hcase⟩ := encode_eq_ok_iff.1 h
  rw [← Operand.encode_canonical] at hea
  obtain rfl := Operand.extra?_of_encode (Operand.canonical_canonical i.a) hea
  obtain ⟨-, hb, rfl⟩ | ⟨-, o, b, y, hb, heb, rfl⟩ := hcase
  · refine ⟨Fields.toWord ⟨0, i.opcode.code, a⟩, ?_⟩
    simp [extras, canonical, hb]
  · obtain rfl := Operand.extra?_of_encode (Operand.canonical_of_encode_b heb) heb
    refine ⟨Fields.toWord ⟨i.opcode.code, b, a⟩, ?_⟩
    simp [extras, canonical, hb]

/-- An encoding is as long as the canonical form says. -/
theorem size_canonical_of_encode {i : Instruction} {words : List Word}
    (h : i.encode = .ok words) : i.canonical.size = UInt16.ofNat words.length := by
  obtain ⟨w, rfl⟩ := exists_eq_cons_extras h
  rw [size, extraWords_eq_length, List.length_cons, UInt16.ofNat_add, UInt16.add_comm]
  rfl

end Instruction

end Dcpu
