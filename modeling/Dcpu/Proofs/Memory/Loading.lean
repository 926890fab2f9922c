import Dcpu.Proofs.Reading.Memory
import Mathlib.Data.List.Induction
import Mathlib.Order.Bounds.Basic

/-! Words loaded into memory. Addresses wrap, so that a long list passes over its own beginning, and
each cell holds the last word that was written to it. A list that fits fills an empty memory just as
a memory is made of it; of a longer one the first words are kept there, and the last ones here. -/
namespace Dcpu.Memory

/-- The places in a list of the given length whose words fall on a cell, if the list is loaded from
an address on. -/
def landings (address x : Word) (length : Nat) : Set Nat :=
  {i | i < length ∧ address + UInt16.ofNat i = x}

/-- Every cell holds zero. -/
def zero : Memory := ⟨Vector.replicate 65536 0⟩

theorem read_zero (x : Word) : zero.read x = 0 := by
  simp [zero, read]

theorem load_append (m : Memory) (address : Word) (xs ys : List Word) : m.load address (xs ++ ys) =
    (m.load address xs).load (address + UInt16.ofNat xs.length) ys := by
  induction xs generalizing m address with
  | nil => simp [load]
  | cons x xs ih =>
    rw [List.cons_append, load, load, ih, add_one_add_ofNat, List.length_cons]

theorem landings_succ_of_ne {address x : Word} {n : Nat} (h : address + UInt16.ofNat n ≠ x) :
    landings address x (n + 1) = landings address x n := by
  ext i
  constructor
  · intro hi
    have hne : i ≠ n := fun e => h (e ▸ hi.2)
    have hlt : i < n := by
      have := hi.1
      omega
    exact ⟨hlt, hi.2⟩
  · exact fun hi => ⟨Nat.lt_succ_of_lt hi.1, hi.2⟩

/-- A cell holds the last word that falls on it, or what it held before. -/
theorem read_load (m : Memory) (address x : Word) (words : List Word) :
    (∃ i, IsGreatest (landings address x words.length) i ∧
      words[i]? = some ((m.load address words).read x)) ∨
    (landings address x words.length = ∅ ∧ (m.load address words).read x = m.read x) := by
  -- From the back: the word at the end decides, unless it falls on another cell.
  induction words using List.reverseRecOn with
  | nil => exact Or.inr ⟨by simp [landings], rfl⟩
  | append_singleton words w ih =>
    have hload : m.load address (words ++ [w]) =
        (m.load address words).write (address + UInt16.ofNat words.length) w := load_append ..
    rw [hload, read_write, List.length_append, List.length_singleton]
    by_cases h : address + UInt16.ofNat words.length = x
    · refine Or.inl ⟨words.length, ⟨⟨Nat.lt_succ_self _, h⟩, fun i hi => ?_⟩, ?_⟩
      · exact Nat.le_of_lt_succ hi.1
      · rw [if_pos h, List.getElem?_concat_length]
    · rw [landings_succ_of_ne h, if_neg h]
      refine ih.imp_left fun hlast => ?_
      obtain ⟨i, hi, hw⟩ := hlast
      exact ⟨i, hi, by rw [List.getElem?_append_left hi.1.1, hw]⟩

/-- In a list from address zero on, a word falls on its own place as long as there is no word beyond
the last address. -/
theorem eq_toNat_of_mem_landings {x : Word} {length i : Nat} (hlength : length ≤ size)
    (h : i ∈ landings 0 x length) : i = x.toNat := by
  obtain ⟨hi, hx⟩ := h
  have hlt : i < 65536 := Nat.lt_of_lt_of_le hi hlength
  rw [← hx, UInt16.zero_add, UInt16.toNat_ofNat', Nat.mod_eq_of_lt hlt]

theorem ofList_eq_load {words : List Word} (h : words.length ≤ size) :
    ofList words = zero.load 0 words := by
  apply ext_read
  intro x
  rw [read_ofList, List.getD_eq_getElem?_getD]
  obtain ⟨i, hi, hw⟩ | ⟨hnone, hkept⟩ := zero.read_load 0 x words
  · rw [← eq_toNat_of_mem_landings h hi.1, hw, Option.getD_some]
  · have hout : words.length ≤ x.toNat := by
      by_contra hlt
      have hmem : x.toNat ∈ landings 0 x words.length := ⟨by omega, by simp⟩
      rw [hnone] at hmem
      exact hmem
    rw [List.getElem?_eq_none hout, hkept, read_zero, Option.getD_none]

/-- Of a list that is longer than memory, the last words fall on every cell. -/
theorem exists_mem_landings {length : Nat} (h : size ≤ length) (address x : Word) :
    ∃ i ∈ landings address x length, length - size ≤ i := by
  have hfirst : length - size + size = length := Nat.sub_add_cancel h
  have hoffset := (x - (address + UInt16.ofNat (length - size))).toNat_lt
  refine ⟨length - size + (x - (address + UInt16.ofNat (length - size))).toNat, ⟨?_, ?_⟩,
    Nat.le_add_right ..⟩
  · unfold size at hfirst hoffset ⊢
    omega
  · rw [UInt16.ofNat_add, UInt16.ofNat_toNat, ← UInt16.add_assoc, UInt16.add_comm,
      UInt16.sub_add_cancel]

/-- Whatever is loaded, a cell holds the last of the words that fall on it, and a cell that is passed
by keeps its word. A list can be loaded in two parts. In an empty memory it leaves what a memory made
of it holds, unless it is longer than that: then the one has its last words and the other its
first. -/
theorem load_keeps_last_word (m : Memory) (address : Word) (words : List Word) :
    (∀ x, (∃ i, IsGreatest (landings address x words.length) i ∧
        words[i]? = some ((m.load address words).read x)) ∨
      (landings address x words.length = ∅ ∧ (m.load address words).read x = m.read x)) ∧
    (m.load address words).cells.toList.length = size ∧
    (∀ more, m.load address (words ++ more) =
      (m.load address words).load (address + UInt16.ofNat words.length) more) ∧
    (words.length ≤ size → ofList words = zero.load 0 words) ∧
    (size < words.length → ∀ x, words[x.toNat]? = some ((ofList words).read x) ∧
      ∃ i, words.length - size ≤ i ∧ UInt16.ofNat i = x ∧
        words[i]? = some ((zero.load 0 words).read x)) := by
  refine ⟨fun x => m.read_load address x words, Vector.length_toList .., fun more => ?_,
    ofList_eq_load, fun hlong x => ⟨?_, ?_⟩⟩
  · exact m.load_append address words more
  · have hx : x.toNat < words.length := Nat.lt_trans x.toNat_lt hlong
    rw [read_ofList, List.getD_eq_getElem?_getD, List.getElem?_eq_getElem hx, Option.getD_some]
  · obtain ⟨j, hj, hlast⟩ := exists_mem_landings hlong.le 0 x
    obtain ⟨i, hi, hw⟩ | ⟨hnone, -⟩ := zero.read_load 0 x words
    · exact ⟨i, hlast.trans (hi.2 hj), by simpa using hi.1.2, hw⟩
    · rw [hnone] at hj
      exact hj.elim

end Dcpu.Memory
