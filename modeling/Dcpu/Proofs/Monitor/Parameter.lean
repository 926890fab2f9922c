import Dcpu.Fallible
import Dcpu.Monitor.Command
import Dcpu.Proofs.Text.Numeral

/-! What commands take. A command has a list of parameters, each of which accepts some of the words
that can be typed. The first argument that its parameter does not accept is found from left to
right. -/
namespace Dcpu

namespace Text

theorem toNat_toLower (c : Char) :
    c.toLower.toNat = if 65 ≤ c.toNat ∧ c.toNat ≤ 90 then c.toNat + 32 else c.toNat := by
  have hshift : ('a'.val - 'A'.val).toNat = 32 := rfl
  by_cases h : 65 ≤ c.toNat ∧ c.toNat ≤ 90
  · have hrange : 'A'.val ≤ c.val ∧ c.val ≤ 'Z'.val := h
    have hlower : c.toLower = ⟨c.val + ('a'.val - 'A'.val), _⟩ := dif_pos hrange
    rw [if_pos h, hlower, Char.toNat, UInt32.toNat_add, hshift]
    change (c.toNat + 32) % 4294967296 = c.toNat + 32
    omega
  · exact (congrArg Char.toNat (dif_neg h)).trans (if_neg h).symm

theorem toNat_toUpper (c : Char) :
    c.toUpper.toNat = if 97 ≤ c.toNat ∧ c.toNat ≤ 122 then c.toNat - 32 else c.toNat := by
  have hshift : ('A'.val - 'a'.val).toNat = 4294967264 := rfl
  by_cases h : 97 ≤ c.toNat ∧ c.toNat ≤ 122
  · have hrange : 'a'.val ≤ c.val ∧ c.val ≤ 'z'.val := h
    have hupper : c.toUpper = ⟨c.val + ('A'.val - 'a'.val), _⟩ := dif_pos hrange
    rw [if_pos h, hupper, Char.toNat, UInt32.toNat_add, hshift]
    change (c.toNat + 4294967264) % 4294967296 = c.toNat - 32
    omega
  · exact (congrArg Char.toNat (dif_neg h)).trans (if_neg h).symm

/-- A character is a capital letter but for its case exactly if its capital is this letter. -/
theorem toLower_eq_toLower_iff {c u : Char} (hu : u.isUpper = true) :
    c.toLower = u.toLower ↔ u = c.toUpper := by
  have hrange : 65 ≤ u.toNat ∧ u.toNat ≤ 90 := of_decide_eq_true hu
  rw [← Char.toNat_inj, ← Char.toNat_inj, toNat_toLower, toNat_toLower, toNat_toUpper,
    if_pos hrange]
  split <;> split <;> omega

end Text

namespace Register

/-- A text names a register if they differ at most in case, which only the ASCII letters have. -/
def IsNamed (r : Register) (text : String) : Prop :=
  text.map Char.toLower = r.name.map Char.toLower

instance (r : Register) (text : String) : Decidable (r.IsNamed text) :=
  inferInstanceAs (Decidable (_ = _))

theorem name_injective {r s : Register} (h : r.name = s.name) : r = s := by
  revert h
  cases r <;> cases s <;> decide

theorem isNamed_iff {r : Register} {text : String} :
    r.IsNamed text ↔ r.name = text.map Char.toUpper := by
  obtain ⟨u, hname, hu⟩ : ∃ u, r.name.toList = [u] ∧ u.isUpper = true := by
    cases r <;> exact ⟨_, rfl, rfl⟩
  rw [IsNamed, ← String.toList_inj, ← String.toList_inj, String.toList_map, String.toList_map,
    String.toList_map, hname]
  cases text.toList with
  | nil => simp
  | cons c cs =>
    cases cs with
    | nil => simp [Text.toLower_eq_toLower_iff hu]
    | cons c' cs => simp

theorem ofName?_eq_some_iff {r : Register} {text : String} :
    ofName? text = some r ↔ r.IsNamed text := by
  have hfound {s : Register} (h : ofName? text = some s) : s.name = text.map Char.toUpper := by
    have hs := List.find?_some h
    exact beq_iff_eq.1 hs
  rw [isNamed_iff]
  constructor
  · exact hfound
  · intro h
    cases hfind : ofName? text with
    | none =>
      have hr := List.find?_eq_none.1 hfind r r.mem_all
      exact absurd (beq_iff_eq.2 h) hr
    | some s => rw [name_injective ((hfound hfind).trans h.symm)]

theorem ofName?_eq_none_iff {text : String} :
    ofName? text = none ↔ ∀ r : Register, ¬ r.IsNamed text := by
  simp only [Option.eq_none_iff_forall_ne_some, ne_eq, ofName?_eq_some_iff]

end Register

namespace Monitor

namespace Reading

theorem count_eq_ok_iff {text : String} {n : UInt64} :
    count text = .ok n ↔ Numeral.Denotes text n.toNat := by
  rw [← Numeral.read_eq_ok_iff_denotes n.toNat_lt]
  unfold count
  cases hread : Numeral.read text with
  | error fault => simp
  | ok k =>
    have hk : k % 18446744073709551616 = k := Nat.mod_eq_of_lt (Numeral.read_eq_ok_iff.1 hread).2
    simp [UInt64.ofNat_eq_iff_mod_eq_toNat, hk]

theorem word_eq_ok_iff {text : String} {w : Word} :
    word text = .ok w ↔ Numeral.Denotes text w.toNat := by
  have hw : w.toNat < 0x10000 := w.toNat_lt
  rw [← Numeral.read_eq_ok_iff_denotes (Numeral.toNat_lt_bound w)]
  unfold word
  cases hread : Numeral.read text with
  | error fault => simp
  | ok k =>
    by_cases hk : k < 0x10000
    · simp [hk, UInt16.ofNat_eq_iff_mod_eq_toNat, Nat.mod_eq_of_lt hk]
    · have hne : k ≠ w.toNat := by omega
      simp [hk, hne]

theorem register_eq_ok_iff {text : String} {r : Register} :
    register text = .ok r ↔ r.IsNamed text := by
  rw [← Register.ofName?_eq_some_iff]
  unfold register
  cases Register.ofName? text <;> simp

end Reading

/-- What an argument has to be. -/
inductive Kind where
  | count | word | register
deriving DecidableEq

namespace Kind

/-- The texts that an argument can be. -/
def Accepts : Kind → String → Prop
  | count, text => ∃ n : UInt64, Numeral.Denotes text n.toNat
  | word, text => ∃ w : Word, Numeral.Denotes text w.toNat
  | register, text => ∃ r : Register, r.IsNamed text

/-- What is wrong with a text. -/
def fault? : Kind → String → Option CommandError
  | count, text =>
    match Numeral.read text with
    | .error fault => some (.badNumber text fault)
    | .ok _ => none
  | word, text =>
    match Numeral.read text with
    | .error fault => some (.badNumber text fault)
    | .ok n => if n < 0x10000 then none else some (.outOfRange text)
  | register, text =>
    if ∃ r ∈ Register.all, r.IsNamed text then none else some (.unknownRegister text)

/-- A reading finds those faults, and reads every other text. -/
def Describes {α : Type} (kind : Kind) (read : Reading α) : Prop :=
  ∀ text e, read text = .error e ↔ kind.fault? text = some e

theorem describes_count : count.Describes Reading.count := by
  intro text e
  cases hread : Numeral.read text <;> simp [Reading.count, fault?, hread]

theorem describes_word : word.Describes Reading.word := by
  intro text e
  cases hread : Numeral.read text with
  | error fault => simp [Reading.word, fault?, hread]
  | ok n => by_cases hn : n < 0x10000 <;> simp [Reading.word, fault?, hread, hn]

theorem describes_register : register.Describes Reading.register := by
  intro text e
  unfold Reading.register fault?
  cases hname : Register.ofName? text with
  | none =>
    have hnone := Register.ofName?_eq_none_iff.1 hname
    simp [hnone]
  | some r =>
    have hnamed : ∃ r ∈ Register.all, r.IsNamed text :=
      ⟨r, r.mem_all, Register.ofName?_eq_some_iff.1 hname⟩
    simp [hnamed]

theorem Describes.map {α β : Type} {kind : Kind} {read : Reading α} (h : kind.Describes read)
    (f : α → β) : kind.Describes fun text => (read text).map f := by
  intro text e
  rw [Fallible.map_eq_error_iff, h]

theorem Describes.fault?_eq_none_iff {α : Type} {kind : Kind} {read : Reading α}
    (h : kind.Describes read) {text : String} :
    kind.fault? text = none ↔ ∃ a, read text = .ok a := by
  cases hread : read text with
  | error e => simp [(h text e).1 hread]
  | ok a =>
    have hnone : kind.fault? text = none := by
      rw [Option.eq_none_iff_forall_ne_some]
      intro e he
      have herror := (h text e).2 he
      rw [hread] at herror
      cases herror
    simp [hnone]

/-- There is something wrong with exactly the texts that are not accepted. -/
theorem fault?_eq_none_iff {kind : Kind} {text : String} :
    kind.fault? text = none ↔ kind.Accepts text := by
  cases kind with
  | count =>
    rw [describes_count.fault?_eq_none_iff]
    simp only [Reading.count_eq_ok_iff, Accepts]
  | word =>
    rw [describes_word.fault?_eq_none_iff]
    simp only [Reading.word_eq_ok_iff, Accepts]
  | register =>
    rw [describes_register.fault?_eq_none_iff]
    simp only [Reading.register_eq_ok_iff, Accepts]

theorem not_accepts_of_fault? {kind : Kind} {text : String} {e : CommandError}
    (h : kind.fault? text = some e) : ¬ kind.Accepts text := by
  intro haccepts
  rw [fault?_eq_none_iff.2 haccepts] at h
  cases h

end Kind

/-- What a command takes at one place. -/
inductive Parameter where
  | required (kind : Kind)
  | optional (kind : Kind)
deriving DecidableEq

namespace Parameter

def kind : Parameter → Kind
  | required kind => kind
  | optional kind => kind

def Accepts : Parameter → Option String → Prop
  | required _, none => False
  | optional _, none => True
  | p, some text => p.kind.Accepts text

/-- What is wrong with the argument at a place, which is counted from one. -/
def fault? (index : Nat) : Parameter → Option String → Option CommandError
  | required _, none => some (.missingArgument index)
  | optional _, none => none
  | p, some text => p.kind.fault? text

theorem fault?_eq_none_iff {index : Nat} {p : Parameter} {argument : Option String} :
    p.fault? index argument = none ↔ p.Accepts argument := by
  cases p <;> cases argument <;> simp [fault?, Accepts, kind, Kind.fault?_eq_none_iff]

end Parameter

/-- The parameters of each command but the one to quit, which takes whatever follows it. -/
def signature? : String → Option (List Parameter)
  | "e" => some [.optional .count]
  | "eb" => some [.required .word, .optional .count]
  | "er" => some [.required .register, .required .word, .optional .count]
  | "d" => some [.optional .word, .optional .count]
  | "dis" => some [.optional .word, .optional .count]
  | "jmp" => some [.required .word]
  | "reset" => some []
  | _ => none

/-- The arguments at the first places are accepted, as far as there are parameters for them. -/
def AcceptedBelow (places : Nat) (params : List Parameter) (args : List String) : Prop :=
  ∀ k < places, ∀ p ∈ params[k]?, p.Accepts args[k]?

theorem acceptedBelow_zero (params : List Parameter) (args : List String) :
    AcceptedBelow 0 params args := by
  intro k hk
  omega

theorem acceptedBelow_succ_iff {places : Nat} {p : Parameter} {params : List Parameter}
    {args : List String} : AcceptedBelow (places + 1) (p :: params) args ↔
      p.Accepts args.head? ∧ AcceptedBelow places params args.tail := by
  unfold AcceptedBelow
  rw [Nat.forall_lt_succ_left]
  simp [List.head?_eq_getElem?]

/-- What is wrong with the first argument that its parameter does not accept. -/
def firstFault? : Nat → List Parameter → List String → Option CommandError
  | _, [], _ => none
  | index, p :: params, args =>
    (p.fault? (index + 1) args.head?).or (firstFault? (index + 1) params args.tail)

theorem firstFault?_eq_some_iff {index : Nat} {params : List Parameter} {args : List String}
    {e : CommandError} : firstFault? index params args = some e ↔
      ∃ k p, params[k]? = some p ∧ p.fault? (index + k + 1) args[k]? = some e ∧
        AcceptedBelow k params args := by
  induction params generalizing index args with
  | nil => simp [firstFault?]
  | cons p params ih =>
    rw [firstFault?, Option.or_eq_some_iff, ih, Parameter.fault?_eq_none_iff]
    constructor
    · intro h
      rcases h with h | ⟨hp, k, q, hq, hfault, hbelow⟩
      · exact ⟨0, p, rfl, List.head?_eq_getElem? ▸ h, acceptedBelow_zero _ _⟩
      · refine ⟨k + 1, q, hq, ?_, acceptedBelow_succ_iff.2 ⟨hp, hbelow⟩⟩
        rw [List.getElem?_tail] at hfault
        rwa [Nat.add_right_comm index 1 k] at hfault
    · intro h
      obtain ⟨k, q, hq, hfault, hbelow⟩ := h
      cases k with
      | zero =>
        cases hq
        exact Or.inl (List.head?_eq_getElem? ▸ hfault)
      | succ k =>
        obtain ⟨hp, hbelow⟩ := acceptedBelow_succ_iff.1 hbelow
        refine Or.inr ⟨hp, k, q, hq, ?_, hbelow⟩
        rw [List.getElem?_tail]
        rwa [Nat.add_right_comm index 1 k]

theorem firstFault?_eq_none_iff {index : Nat} {params : List Parameter} {args : List String} :
    firstFault? index params args = none ↔ AcceptedBelow params.length params args := by
  induction params generalizing index args with
  | nil => simp [firstFault?, AcceptedBelow]
  | cons p params ih =>
    rw [firstFault?, Option.or_eq_none_iff, ih, Parameter.fault?_eq_none_iff, List.length_cons,
      acceptedBelow_succ_iff]

end Monitor

end Dcpu
