import Dcpu.Proofs.Monitor.Parameter

/-! Numbers as they are typed. The forms of a numeral are data with a text and a value, and reading
a number takes exactly the texts of these forms, for the value they have. -/
namespace Dcpu.Monitor

namespace Numeral

/-- What stands in front of digits and fixes their base. -/
inductive Mark where
  | decimal
  | hexadecimal (capital : Bool)
deriving DecidableEq

namespace Mark

def base : Mark → Nat
  | decimal => 10
  | hexadecimal _ => 16

def chars : Mark → List Char
  | decimal => []
  | hexadecimal false => ['0', 'x']
  | hexadecimal true => ['0', 'X']

theorem base_le (m : Mark) : m.base ≤ 16 := by
  cases m <;> simp [base]

theorem one_lt_base (m : Mark) : 1 < m.base := by
  cases m <;> simp [base]

theorem mem_iff {base : Nat} {chars : List Char} :
    (base, chars) ∈ [(10, []), (16, ['0', 'x']), (16, ['0', 'X'])] ↔
      ∃ m : Mark, m.base = base ∧ m.chars = chars := by
  simp only [List.mem_cons, Prod.mk.injEq, List.not_mem_nil, or_false]
  constructor
  · intro h
    rcases h with ⟨rfl, rfl⟩ | ⟨rfl, rfl⟩ | ⟨rfl, rfl⟩
    · exact ⟨decimal, rfl, rfl⟩
    · exact ⟨hexadecimal false, rfl, rfl⟩
    · exact ⟨hexadecimal true, rfl, rfl⟩
  · intro h
    obtain ⟨m, rfl, rfl⟩ := h
    match m with
    | decimal => exact Or.inl ⟨rfl, rfl⟩
    | hexadecimal false => exact Or.inr (Or.inl ⟨rfl, rfl⟩)
    | hexadecimal true => exact Or.inr (Or.inr ⟨rfl, rfl⟩)

end Mark

/-- A digit as it is typed. Letters stand in either case. -/
structure Digit (base : Nat) where
  value : Fin base
  capital : Bool

namespace Digit

variable {base : Nat}

def char (d : Digit base) : Char :=
  if d.capital then (Nat.digitChar d.value).toUpper else Nat.digitChar d.value

theorem digit?_char (hb : base ≤ 16) (d : Digit base) : digit? base d.char = some d.value.val := by
  obtain ⟨⟨n, hn⟩, capital⟩ := d
  cases capital with
  | false => exact digit?_digitChar hb hn
  | true =>
    have hlt : n < 16 := by omega
    change digit? base (Nat.digitChar n).toUpper = some n
    interval_cases n <;> exact if_pos hn

theorem digit?_cases {c : Char} {n : Nat} (h : digit? base c = some n) : n < base ∧
    (48 ≤ c.toNat ∧ c.toNat ≤ 57 ∧ n = c.toNat - 48 ∨
      97 ≤ c.toNat ∧ c.toNat ≤ 122 ∧ n = c.toNat - 97 + 10 ∨
      65 ≤ c.toNat ∧ c.toNat ≤ 90 ∧ n = c.toNat - 65 + 10) := by
  obtain ⟨hlt, hn⟩ := Option.ite_none_right_eq_some.1 h
  cases hn
  refine ⟨hlt, ?_⟩
  split
  · next hc => exact Or.inl ⟨hc.1, hc.2, rfl⟩
  · split
    · next hc => exact Or.inr (Or.inl ⟨hc.1, hc.2, rfl⟩)
    · split
      · next hc => exact Or.inr (Or.inr ⟨hc.1, hc.2, rfl⟩)
      · next hdecimal hlower hupper =>
        rw [if_neg hdecimal, if_neg hlower, if_neg hupper] at hlt
        omega

theorem toNat_digitChar {n : Nat} (hn : n < 16) :
    (Nat.digitChar n).toNat = if n < 10 then n + 48 else n - 10 + 97 := by
  interval_cases n <;> rfl

theorem toNat_toUpper_digitChar {n : Nat} (hlow : 10 ≤ n) (hn : n < 16) :
    (Nat.digitChar n).toUpper.toNat = n - 10 + 65 := by
  interval_cases n <;> rfl

theorem exists_char {c : Char} {n : Nat} (hb : base ≤ 16) (h : digit? base c = some n) :
    ∃ d : Digit base, d.char = c ∧ d.value.val = n := by
  obtain ⟨hlt, hc⟩ := digit?_cases h
  have hn : n < 16 := by omega
  have hlower := toNat_digitChar hn
  rcases hc with hdecimal | hletter | hcapital
  · refine ⟨⟨⟨n, hlt⟩, false⟩, Char.toNat_inj.1 ?_, rfl⟩
    rw [if_pos (by omega)] at hlower
    refine hlower.trans ?_
    omega
  · refine ⟨⟨⟨n, hlt⟩, false⟩, Char.toNat_inj.1 ?_, rfl⟩
    rw [if_neg (by omega)] at hlower
    refine hlower.trans ?_
    omega
  · refine ⟨⟨⟨n, hlt⟩, true⟩, Char.toNat_inj.1 ?_, rfl⟩
    refine (toNat_toUpper_digitChar (by omega) hn).trans ?_
    omega

/-- Characters have values as digits exactly if they are the characters of digits. -/
theorem map_eq_map_some_iff (hb : base ≤ 16) {cs : List Char} {values : List Nat} :
    cs.map (digit? base) = values.map some ↔
      ∃ ds : List (Digit base), ds.map char = cs ∧ ds.map (·.value.val) = values := by
  constructor
  · intro h
    induction cs generalizing values with
    | nil => exact ⟨[], rfl, (List.map_eq_nil_iff.1 h.symm).symm⟩
    | cons c cs ih =>
      cases values with
      | nil => cases h
      | cons n values =>
        rw [List.map_cons, List.map_cons, List.cons.injEq] at h
        obtain ⟨d, rfl, rfl⟩ := exists_char hb h.1
        obtain ⟨ds, rfl, rfl⟩ := ih h.2
        exact ⟨d :: ds, rfl, rfl⟩
  · intro h
    obtain ⟨ds, rfl, rfl⟩ := h
    rw [List.map_map, List.map_map]
    exact List.map_congr_left fun d _ => digit?_char hb d

end Digit

/-- A way to write a number: a mark, perhaps a plus sign, and at least one digit. The most
significant digit comes first. -/
structure Form where
  mark : Mark
  plus : Bool
  digits : List (Digit mark.base)
  digits_ne_nil : digits ≠ []

namespace Form

def text (f : Form) : String :=
  String.ofList (f.mark.chars ++ ((if f.plus then ['+'] else []) ++ f.digits.map Digit.char))

def value (f : Form) : Nat :=
  Nat.ofDigits f.mark.base (f.digits.map (·.value.val)).reverse

end Form

theorem spells_iff (m : Mark) {cs : List Char} {n : Nat} : Spells m.base cs n ↔
    ∃ ds : List (Digit m.base), ds.map Digit.char = cs ∧
      Nat.ofDigits m.base (ds.map (·.value.val)).reverse = n := by
  unfold Spells
  simp only [Digit.map_eq_map_some_iff m.base_le]
  constructor
  · intro h
    obtain ⟨_, ⟨ds, hcs, rfl⟩, hn⟩ := h
    exact ⟨ds, hcs, hn⟩
  · intro h
    obtain ⟨ds, hcs, hn⟩ := h
    exact ⟨_, ⟨ds, hcs, rfl⟩, hn⟩

theorem denotes_iff {text : String} {n : Nat} :
    Denotes text n ↔ ∃ f : Form, f.text = text ∧ f.value = n := by
  constructor
  · intro h
    obtain ⟨base, chars, sign, cs, hmark, hsign, hcs, htext, hspells⟩ := h
    obtain ⟨m, rfl, rfl⟩ := Mark.mem_iff.1 hmark
    obtain ⟨ds, rfl, hn⟩ := (spells_iff m).1 hspells
    have hds : ds ≠ [] := fun h => hcs (by rw [h, List.map_nil])
    simp only [List.mem_cons, List.not_mem_nil, or_false] at hsign
    rcases hsign with rfl | rfl
    · exact ⟨⟨m, false, ds, hds⟩, String.toList_injective (by simp [Form.text, htext]), hn⟩
    · exact ⟨⟨m, true, ds, hds⟩, String.toList_injective (by simp [Form.text, htext]), hn⟩
  · intro h
    obtain ⟨⟨m, plus, ds, hds⟩, rfl, rfl⟩ := h
    refine ⟨m.base, m.chars, if plus then ['+'] else [], ds.map Digit.char,
      Mark.mem_iff.2 ⟨m, rfl, rfl⟩, ?_, ?_, String.toList_ofList, (spells_iff m).2 ⟨ds, rfl, rfl⟩⟩
    · cases plus <;> simp
    · exact fun h => hds (List.map_eq_nil_iff.1 h)

/-- Zeros in front of the digits of a number do not change it. -/
theorem denotes_padded (m : Mark) (zeros : Nat) {n : Nat} (hn : n < bound) : Denotes
    (String.ofList (m.chars ++ (List.replicate zeros '0' ++ Nat.toDigits m.base n))) n := by
  have hdigits := readDigits_toDigits m.one_lt_base m.base_le hn
  have hpadded : List.replicate zeros '0' ++ Nat.toDigits m.base n =
      (Nat.toDigits m.base n).leftpad (zeros + (Nat.toDigits m.base n).length) '0' := by
    rw [List.leftpad, Nat.add_sub_cancel]
  have hpos : 0 < m.base := Nat.zero_lt_of_lt m.one_lt_base
  rw [← readDigits_leftpad hpos, ← hpadded] at hdigits
  obtain ⟨hspells, -⟩ := (readDigits_zero_eq_ok_iff hpos).1 hdigits
  refine ⟨m.base, m.chars, [], _, Mark.mem_iff.2 ⟨m, rfl, rfl⟩, by simp, ?_,
    String.toList_ofList, hspells⟩
  simp [Nat.toDigits_ne_nil]

end Numeral

/-- An error says what is wrong with a text as a number. -/
def CommandError.IsBadArgument (text : String) : CommandError → Prop
  | .badNumber argument _ => argument = text
  | .outOfRange argument => argument = text
  | _ => False

theorem Kind.isBadArgument_of_fault? {kind : Kind} {text : String} {e : CommandError}
    (hkind : kind ≠ .register) (h : kind.fault? text = some e) : e.IsBadArgument text := by
  cases kind with
  | register => contradiction
  | count =>
    rw [fault?] at h
    split at h
    · cases h
      rfl
    · cases h
  | word =>
    rw [fault?] at h
    split at h
    · cases h
      rfl
    · split at h
      · cases h
      · cases h
        rfl

namespace Reading

/-- A reading takes exactly the numerals for numbers below a bound, and calls every other text a bad
argument. Every such number is read back from its digits, with any number of zeros before them. -/
structure TakesNumerals {α : Type} (read : Reading α) (toNat : α → Nat) (bound : Nat) : Prop where
  ok_iff : ∀ text a, read text = .ok a ↔ ∃ f : Numeral.Form, f.text = text ∧ f.value = toNat a
  error_iff : ∀ text, (∃ e, read text = .error e ∧ e.IsBadArgument text) ↔
    ∀ f : Numeral.Form, f.text = text → bound ≤ f.value
  read_padded : ∀ (m : Numeral.Mark) zeros a, read (String.ofList (m.chars ++
    (List.replicate zeros '0' ++ Nat.toDigits m.base (toNat a)))) = .ok a

section

variable {α : Type} {read : Reading α} {toNat : α → Nat} {bound : Nat}

theorem takesNumerals (hok : ∀ text a, read text = .ok a ↔ Numeral.Denotes text (toNat a))
    (herror : ∀ text e, read text = .error e → e.IsBadArgument text)
    (hlt : ∀ a, toNat a < bound) (honto : ∀ n < bound, ∃ a, toNat a = n)
    (hbound : bound ≤ Numeral.bound) : TakesNumerals read toNat bound where
  ok_iff := by
    intro text a
    rw [hok, Numeral.denotes_iff]
  error_iff := by
    intro text
    cases hread : read text with
    | ok a =>
      obtain ⟨f, hf, hvalue⟩ := Numeral.denotes_iff.1 ((hok text a).1 hread)
      simp only [reduceCtorEq, false_and, exists_false, false_iff, not_forall, not_le]
      exact ⟨f, hf, hvalue ▸ hlt a⟩
    | error e =>
      simp only [Except.error.injEq, exists_eq_left', herror text e hread, true_iff]
      intro f hf
      by_contra hvalue
      obtain ⟨a, ha⟩ := honto f.value (Nat.lt_of_not_le hvalue)
      have hdenotes := (hok text a).2 (Numeral.denotes_iff.2 ⟨f, hf, ha.symm⟩)
      rw [hread] at hdenotes
      cases hdenotes
  read_padded := by
    intro m zeros a
    rw [hok]
    exact Numeral.denotes_padded m zeros (Nat.lt_of_lt_of_le (hlt a) hbound)

end

/-- Both readings of numbers take exactly the numerals, up to 64 and to 16 bits. -/
theorem takesNumerals_count_and_word :
    TakesNumerals count UInt64.toNat (2 ^ 64) ∧ TakesNumerals word UInt16.toNat (2 ^ 16) := by
  have hcount (text : String) (e : CommandError) (h : count text = .error e) :
      e.IsBadArgument text :=
    Kind.isBadArgument_of_fault? (by decide) ((Kind.describes_count text e).1 h)
  have hword (text : String) (e : CommandError) (h : word text = .error e) :
      e.IsBadArgument text :=
    Kind.isBadArgument_of_fault? (by decide) ((Kind.describes_word text e).1 h)
  constructor
  · refine takesNumerals (fun _ _ => count_eq_ok_iff) hcount UInt64.toNat_lt
      (fun n hn => ⟨UInt64.ofNat n, ?_⟩) (by decide)
    exact UInt64.toNat_ofNat_of_lt' hn
  · refine takesNumerals (fun _ _ => word_eq_ok_iff) hword UInt16.toNat_lt
      (fun n hn => ⟨UInt16.ofNat n, ?_⟩) (by decide)
    exact UInt16.toNat_ofNat_of_lt' hn

end Reading

end Dcpu.Monitor
