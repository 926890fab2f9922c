import Dcpu.Monitor.Numeral
import Dcpu.Text.Hex
import Mathlib.Data.Nat.Digits.Defs
import Mathlib.Tactic.IntervalCases
import Mathlib.Tactic.Ring

/-! Numbers read back from their digits, and the texts that can be read as numbers. What listings
print as a hexadecimal number can be typed at the monitor, and stands for the word that was
printed. -/
namespace Dcpu

namespace Monitor.Numeral

theorem toNat_lt_bound (w : Word) : w.toNat < bound := by
  have hw := w.toNat_lt
  unfold bound
  omega

theorem digit?_digitChar {base n : Nat} (hb : base ≤ 16) (hn : n < base) :
    digit? base (Nat.digitChar n) = some n := by
  have hlt : n < 16 := by omega
  interval_cases n <;> exact if_pos hn

theorem readDigits_append (base value : Nat) (xs ys : List Char) :
    readDigits base value (xs ++ ys) =
      readDigits base value xs >>= fun value => readDigits base value ys := by
  induction xs generalizing value with
  | nil => rfl
  | cons c xs ih =>
    rw [List.cons_append, readDigits, readDigits]
    cases digit? base c with
    | none => rfl
    | some d =>
      dsimp only
      split
      · exact ih _
      · rfl

theorem readDigits_digitChar {base n : Nat} (value : Nat) (hb : base ≤ 16) (hn : n < base)
    (hbound : value * base + n < bound) :
    readDigits base value [Nat.digitChar n] = .ok (value * base + n) := by
  simp [readDigits, digit?_digitChar hb hn, hbound]

/-- The digits of a number stand for it. -/
theorem readDigits_toDigits {base n : Nat} (hb : 1 < base) (hb' : base ≤ 16) (hn : n < bound) :
    readDigits base 0 (Nat.toDigits base n) = .ok n := by
  induction n using Nat.strongRecOn with
  | ind n ih =>
    rw [Nat.toDigits_eq_if hb]
    split
    · next hlt => simpa using readDigits_digitChar 0 hb' hlt (by omega)
    · next hge =>
      have hdiv : n / base < n := Nat.div_lt_self (by omega) hb
      have hmod : n % base < base := Nat.mod_lt n (by omega)
      have hsplit : n / base * base + n % base = n := Nat.div_add_mod' n base
      have hlast := readDigits_digitChar (n / base) hb' hmod (by omega)
      rw [hsplit] at hlast
      rw [readDigits_append, ih _ hdiv (by omega)]
      exact hlast

theorem readDigits_leftpad {base width : Nat} (hb : 0 < base) (ds : List Char) :
    readDigits base 0 (ds.leftpad width '0') = readDigits base 0 ds := by
  have hzero : digit? base '0' = some 0 := if_pos hb
  unfold List.leftpad
  induction width - ds.length with
  | zero => rfl
  | succ n ih =>
    rw [List.replicate_succ, List.cons_append, readDigits, hzero]
    simpa [bound] using ih

theorem isSome_digit?_of_readDigits {base value n : Nat} {cs : List Char}
    (h : readDigits base value cs = .ok n) {c : Char} (hc : c ∈ cs) :
    (digit? base c).isSome = true := by
  induction cs generalizing value with
  | nil => cases hc
  | cons d cs ih =>
    rw [readDigits] at h
    cases hd : digit? base d with
    | none => simp [hd] at h
    | some k =>
      simp only [hd] at h
      split at h
      · obtain rfl | hc := List.mem_cons.1 hc
        · simp [hd]
        · exact ih h hc
      · cases h

/-- Digits can stand without a sign before them. -/
theorem readUnsigned_of_readDigits {base n : Nat} {cs : List Char} (hcs : cs ≠ [])
    (hplus : digit? base '+' = none) (h : readDigits base 0 cs = .ok n) :
    readUnsigned base cs = .ok n := by
  cases cs with
  | nil => contradiction
  | cons c cs =>
    have hc : c ≠ '+' := by
      intro hc
      have hdigit := isSome_digit?_of_readDigits h (List.mem_cons_self ..)
      rw [hc, hplus] at hdigit
      cases hdigit
    simpa [readUnsigned, hc] using h

/-- Characters are the digits of a number, the most significant one first. -/
def Spells (base : Nat) (cs : List Char) (n : Nat) : Prop :=
  ∃ digits : List Nat, cs.map (digit? base) = digits.map some ∧
    Nat.ofDigits base digits.reverse = n

/-- A text is a numeral for a number: digits with or without a plus sign before them, which are
decimal unless the mark of hexadecimal ones precedes. -/
def Denotes (text : String) (n : Nat) : Prop :=
  ∃ base mark sign cs, (base, mark) ∈ [(10, []), (16, ['0', 'x']), (16, ['0', 'X'])] ∧
    sign ∈ [[], ['+']] ∧ cs ≠ [] ∧ text.toList = mark ++ (sign ++ cs) ∧ Spells base cs n

private theorem horner (base value d : Nat) (digits : List Nat) :
    value * base ^ (d :: digits).length + Nat.ofDigits base (d :: digits).reverse =
      (value * base + d) * base ^ digits.length + Nat.ofDigits base digits.reverse := by
  rw [List.reverse_cons, Nat.ofDigits_append, Nat.ofDigits_singleton, List.length_cons,
    List.length_reverse]
  ring

theorem readDigits_eq_ok_iff {base value n : Nat} {cs : List Char} (hb : 0 < base)
    (hvalue : value < bound) : readDigits base value cs = .ok n ↔
      ∃ digits : List Nat, cs.map (digit? base) = digits.map some ∧
        value * base ^ digits.length + Nat.ofDigits base digits.reverse = n ∧ n < bound := by
  induction cs generalizing value with
  | nil =>
    rw [readDigits, Except.ok.injEq]
    constructor
    · intro h
      subst h
      exact ⟨[], rfl, by simp, hvalue⟩
    · intro h
      obtain ⟨digits, hdigits, hn, -⟩ := h
      obtain rfl := List.map_eq_nil_iff.1 hdigits.symm
      simpa using hn
  | cons c cs ih =>
    rw [readDigits]
    cases hc : digit? base c with
    | none =>
      constructor
      · intro h
        cases h
      · intro h
        obtain ⟨digits, hdigits, -⟩ := h
        cases digits <;> simp [hc] at hdigits
    | some d =>
      dsimp only
      constructor
      · intro h
        split at h
        · next hd =>
          obtain ⟨digits, hdigits, hn, hbound⟩ := (ih hd).1 h
          exact ⟨d :: digits, by simp [hc, hdigits], by rw [horner, hn], hbound⟩
        · cases h
      · intro h
        obtain ⟨digits, hdigits, hn, hbound⟩ := h
        cases digits with
        | nil => cases hdigits
        | cons d' digits =>
          rw [List.map_cons, List.map_cons, List.cons.injEq, hc, Option.some.injEq] at hdigits
          obtain ⟨rfl, hdigits⟩ := hdigits
          rw [horner] at hn
          -- a number only grows by further digits, so that it is within the bound all the way
          have hle : value * base + d ≤ (value * base + d) * base ^ digits.length :=
            Nat.le_mul_of_pos_right _ (Nat.pow_pos hb)
          have hd : value * base + d < bound := by omega
          rw [if_pos hd]
          exact (ih hd).2 ⟨digits, hdigits, hn, hbound⟩

theorem readDigits_zero_eq_ok_iff {base n : Nat} {cs : List Char} (hb : 0 < base) :
    readDigits base 0 cs = .ok n ↔ Spells base cs n ∧ n < bound := by
  rw [readDigits_eq_ok_iff hb (by decide)]
  simp only [Nat.zero_mul, Nat.zero_add, Spells]
  constructor
  · intro h
    obtain ⟨digits, hdigits, hn, hbound⟩ := h
    exact ⟨⟨digits, hdigits, hn⟩, hbound⟩
  · intro h
    obtain ⟨⟨digits, hdigits, hn⟩, hbound⟩ := h
    exact ⟨digits, hdigits, hn, hbound⟩

theorem readUnsigned_eq_ok_iff {base n : Nat} {cs : List Char} (hb : 0 < base)
    (hplus : digit? base '+' = none) : readUnsigned base cs = .ok n ↔
      (∃ sign ds, sign ∈ [[], ['+']] ∧ ds ≠ [] ∧ cs = sign ++ ds ∧ Spells base ds n) ∧
        n < bound := by
  constructor
  · intro h
    unfold readUnsigned at h
    split at h
    · cases h
    · cases h
    · next ds hds =>
      obtain ⟨hspells, hbound⟩ := (readDigits_zero_eq_ok_iff hb).1 h
      exact ⟨⟨['+'], ds, by simp, fun hnil => hds (by rw [hnil]), rfl, hspells⟩, hbound⟩
    · next hnil _ _ =>
      obtain ⟨hspells, hbound⟩ := (readDigits_zero_eq_ok_iff hb).1 h
      exact ⟨⟨[], cs, by simp, hnil, rfl, hspells⟩, hbound⟩
  · intro h
    obtain ⟨⟨sign, ds, hsign, hds, rfl, hspells⟩, hbound⟩ := h
    have hread := (readDigits_zero_eq_ok_iff hb).2 ⟨hspells, hbound⟩
    simp only [List.mem_cons, List.not_mem_nil, or_false] at hsign
    rcases hsign with rfl | rfl
    · exact readUnsigned_of_readDigits hds hplus hread
    · cases ds with
      | nil => contradiction
      | cons d ds => exact hread

/-- A text can be read as a number exactly if it is a numeral for one of at most 64 bits. -/
theorem read_eq_ok_iff {text : String} {n : Nat} :
    read text = .ok n ↔ Denotes text n ∧ n < bound := by
  constructor
  · intro h
    have hdenotes {base : Nat} {cs : List Char} (mark : List Char) (hb : 0 < base)
        (hplus : digit? base '+' = none)
        (hmark : (base, mark) ∈ [(10, []), (16, ['0', 'x']), (16, ['0', 'X'])])
        (htext : text.toList = mark ++ cs) (h : readUnsigned base cs = .ok n) :
        Denotes text n ∧ n < bound := by
      obtain ⟨⟨sign, ds, hsign, hds, rfl, hspells⟩, hbound⟩ :=
        (readUnsigned_eq_ok_iff hb hplus).1 h
      exact ⟨⟨base, mark, sign, ds, hmark, hsign, hds, htext, hspells⟩, hbound⟩
    unfold read at h
    split at h
    · next htext => exact hdenotes ['0', 'x'] (by decide) rfl (by simp) htext h
    · next htext => exact hdenotes ['0', 'X'] (by decide) rfl (by simp) htext h
    · exact hdenotes [] (by decide) rfl (by simp) rfl h
  · intro h
    obtain ⟨⟨base, mark, sign, cs, hmark, hsign, hcs, htext, hspells⟩, hbound⟩ := h
    have hread {base : Nat} (hb : 0 < base) (hplus : digit? base '+' = none)
        (hspells : Spells base cs n) : readUnsigned base (sign ++ cs) = .ok n :=
      (readUnsigned_eq_ok_iff hb hplus).2 ⟨⟨sign, cs, hsign, hcs, rfl, hspells⟩, hbound⟩
    simp only [List.mem_cons, Prod.mk.injEq, List.not_mem_nil, or_false] at hmark hsign
    unfold read
    rcases hmark with ⟨rfl, rfl⟩ | ⟨rfl, rfl⟩ | ⟨rfl, rfl⟩
    · have hdigits := (readDigits_zero_eq_ok_iff (by decide)).2 ⟨hspells, hbound⟩
      have hletter {c : Char} (hc : digit? 10 c = none) (hplus : c ≠ '+') : c ∉ sign ++ cs := by
        intro h
        rcases List.mem_append.1 h with h | h
        · rcases hsign with rfl | rfl <;> simp_all
        · have hdigit := isSome_digit?_of_readDigits hdigits h
          rw [hc] at hdigit
          cases hdigit
      rw [htext, List.nil_append]
      split
      · next heq => exact absurd (heq ▸ by simp) (hletter (c := 'x') rfl (by decide))
      · next heq => exact absurd (heq ▸ by simp) (hletter (c := 'X') rfl (by decide))
      · exact hread (by decide) rfl hspells
    · rw [htext]
      exact hread (by decide) rfl hspells
    · rw [htext]
      exact hread (by decide) rfl hspells

theorem read_eq_ok_iff_denotes {text : String} {n : Nat} (hn : n < bound) :
    read text = .ok n ↔ Denotes text n := by
  rw [read_eq_ok_iff]
  exact and_iff_left hn

/-- A number that is printed in decimal can be typed. -/
theorem read_repr {n : Nat} (hn : n < bound) : read (Nat.repr n) = .ok n := by
  have hdigits := readDigits_toDigits (by decide : 1 < 10) (by decide) hn
  obtain ⟨hspells, -⟩ := (readDigits_zero_eq_ok_iff (by decide)).1 hdigits
  exact (read_eq_ok_iff_denotes hn).2 ⟨10, [], [], Nat.toDigits 10 n, by simp, by simp,
    Nat.toDigits_ne_nil, Nat.toList_repr, hspells⟩

end Monitor.Numeral

namespace Text

open Monitor

theorem readDigits_hexDigits (width : Nat) {n : Nat} (hn : n < Numeral.bound) :
    Numeral.readDigits 16 0 (hexDigits width n).toList = .ok n := by
  rw [hexDigits, String.toList_ofList, Numeral.readDigits_leftpad (by decide)]
  exact Numeral.readDigits_toDigits (by decide) (by decide) hn

theorem toList_hex (w : Word) : (hex w).toList = '0' :: 'x' :: (hexDigits 4 w.toNat).toList := by
  simp [hex]

/-- A word that was printed can be typed. -/
theorem read_hex (w : Word) : Numeral.read (hex w) = .ok w.toNat := by
  have hdigits := readDigits_hexDigits 4 (Numeral.toNat_lt_bound w)
  have hnil : (hexDigits 4 w.toNat).toList ≠ [] := by
    simp [hexDigits, List.leftpad, Nat.toDigits_ne_nil]
  rw [Numeral.read, toList_hex]
  exact Numeral.readUnsigned_of_readDigits hnil rfl hdigits

end Text

end Dcpu
