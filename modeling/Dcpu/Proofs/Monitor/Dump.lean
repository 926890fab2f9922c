import Dcpu.Monitor.Reply
import Dcpu.Proofs.Listing.Coverage
import Mathlib.Algebra.Group.Nat.Defs

/-! Dumps of memory. Up to a length of `2 ^ 64 - 8` the rows show the words that are asked for, each
of them once and in order. The end of the last row of a longer dump is not a number of 64 bits: it
wraps, and the row is empty. -/
namespace Dcpu

namespace Memory

theorem map_read_range' (m : Memory) (address : Word) (first n : Nat) :
    (List.range' first n).map (fun offset => m.read (address + UInt16.ofNat offset)) =
      m.words (address + UInt16.ofNat first) n := by
  induction n generalizing first with
  | zero => rfl
  | succ n ih =>
    have hnext : UInt16.ofNat (first + 1) = UInt16.ofNat first + 1 := UInt16.ofNat_add ..
    rw [List.range'_succ, List.map_cons, ih, words, hnext, UInt16.add_assoc]

end Memory

namespace Monitor

/-- The rows show the given number of words from an address on: eight words each, and what remains
in the last. -/
structure ShowsOnce (m : Memory) (start : Word) (length : Nat) (rows : List (Word × List Word)) :
    Prop where
  count : rows.length = (length + 7) / 8
  label : ∀ r row, rows[r]? = some row → row.1 = start + UInt16.ofNat (8 * r)
  full : ∀ r row, rows[r]? = some row → r + 1 < rows.length → row.2.length = 8
  rest : ∀ row ∈ rows.getLast?, 1 ≤ row.2.length ∧ row.2.length ≤ 8
  words : rows.flatMap Prod.snd = m.words start length

/-- The row of a dump over numbers without bound. -/
def exactRow (m : Memory) (start : Word) (length row : Nat) : Word × List Word :=
  (start + UInt16.ofNat (8 * row),
    m.words (start + UInt16.ofNat (8 * row)) (min 8 (length - 8 * row)))

def exactRows (m : Memory) (start : Word) (length : Nat) : List (Word × List Word) :=
  (List.range ((length + 7) / 8)).map (exactRow m start length)

theorem getElem?_exactRows_eq_some_iff {m : Memory} {start : Word} {length r : Nat}
    {row : Word × List Word} : (exactRows m start length)[r]? = some row ↔
      r < (length + 7) / 8 ∧ exactRow m start length r = row := by
  rw [List.getElem?_eq_some_iff]
  simp [exactRows]

theorem flatMap_exactRow (m : Memory) (start : Word) (length n : Nat) :
    (List.range n).flatMap (fun row => (exactRow m start length row).2) =
      m.words start (min length (8 * n)) := by
  induction n with
  | zero => simp [Memory.words]
  | succ n ih =>
    rw [List.range_succ, List.flatMap_append, ih, List.flatMap_singleton]
    by_cases h : 8 * n ≤ length
    · have hwords : min length (8 * (n + 1)) = 8 * n + min 8 (length - 8 * n) := by omega
      rw [Nat.min_eq_right h, hwords, Memory.words_add, exactRow]
    · have hrest : length - 8 * n = 0 := by omega
      have hwords : min length (8 * (n + 1)) = min length (8 * n) := by omega
      rw [exactRow, hrest, hwords, Nat.min_zero, Memory.words, List.append_nil]

theorem showsOnce_exactRows (m : Memory) (start : Word) (length : Nat) :
    ShowsOnce m start length (exactRows m start length) := by
  have hcount : (exactRows m start length).length = (length + 7) / 8 := by simp [exactRows]
  have hsize (r : Nat) : (exactRow m start length r).2.length = min 8 (length - 8 * r) :=
    Memory.length_words ..
  constructor
  case count => exact hcount
  case label =>
    intro r row hrow
    obtain ⟨-, rfl⟩ := getElem?_exactRows_eq_some_iff.1 hrow
    rfl
  case full =>
    intro r row hrow hr
    obtain ⟨-, rfl⟩ := getElem?_exactRows_eq_some_iff.1 hrow
    rw [hsize]
    omega
  case rest =>
    intro row hrow
    rw [List.getLast?_eq_getElem?] at hrow
    obtain ⟨hr, rfl⟩ := getElem?_exactRows_eq_some_iff.1 hrow
    rw [hsize]
    omega
  case words =>
    have hall : min length (8 * ((length + 7) / 8)) = length := by omega
    rw [exactRows, List.flatMap_map, flatMap_exactRow, hall]

/-- A row of a dump, whose end is counted in 64 bits. -/
def dumpRow (m : Memory) (start : Word) (length : UInt64) (row : Nat) : Word × List Word :=
  let first := UInt64.ofNat (8 * row)
  let last := min length (first + 8)
  let offsets := List.range' first.toNat (last.toNat - first.toNat)
  (start + first.toUInt16, offsets.map fun offset => m.read (start + UInt16.ofNat offset))

theorem dumpRows_eq_map (m : Memory) (start : Word) (length : UInt64) :
    dumpRows m start length =
      (List.range ((length.toNat + 7) / 8)).map (dumpRow m start length) := rfl

theorem toNat_min (a b : UInt64) : (min a b).toNat = min a.toNat b.toNat := by
  have hmin : min a b = if a ≤ b then a else b := rfl
  rw [hmin, Nat.min_def, apply_ite UInt64.toNat]
  rfl

/-- A row shows what lies between its beginning and its end, if its end does not wrap. -/
theorem dumpRow_eq {m : Memory} {start : Word} {length : UInt64} {row : Nat}
    (h : 8 * row < 2 ^ 64) : dumpRow m start length row = (start + UInt16.ofNat (8 * row),
      m.words (start + UInt16.ofNat (8 * row))
        (min length.toNat ((8 * row + 8) % 2 ^ 64) - 8 * row)) := by
  have hfirst : (UInt64.ofNat (8 * row)).toNat = 8 * row := UInt64.toNat_ofNat_of_lt' h
  simp only [dumpRow, hfirst, toNat_min, UInt64.toNat_add, UInt64.toUInt16_ofNat',
    Memory.map_read_range']
  rfl

theorem dumpRow_eq_exactRow {m : Memory} {start : Word} {length : UInt64} {row : Nat}
    (h : 8 * row + 8 < 2 ^ 64) :
    dumpRow m start length row = exactRow m start length.toNat row := by
  have hend : min length.toNat (8 * row + 8) - 8 * row = min 8 (length.toNat - 8 * row) := by omega
  rw [dumpRow_eq (by omega), Nat.mod_eq_of_lt h, hend, exactRow]

/-- The greatest length of which no row ends beyond 64 bits. -/
def longest : Nat := 2 ^ 64 - 8

theorem dumpRows_of_le {length : UInt64} (h : length.toNat ≤ longest) (m : Memory) (start : Word) :
    dumpRows m start length = exactRows m start length.toNat := by
  rw [dumpRows_eq_map, exactRows]
  apply List.map_congr_left
  intro row hrow
  have hrow := List.mem_range.1 hrow
  unfold longest at h
  exact dumpRow_eq_exactRow (by omega)

/-- A row that ends by `longest` shows the same in every dump that goes so far. -/
theorem exactRow_longest {length row : Nat} (hrow : 8 * row + 8 ≤ longest)
    (hlength : longest ≤ length) (m : Memory) (start : Word) :
    exactRow m start length row = exactRow m start longest row := by
  have hsize : min 8 (length - 8 * row) = min 8 (longest - 8 * row) := by omega
  rw [exactRow, exactRow, hsize]

/-- The row that begins at `longest` ends where the offsets have wrapped to zero. -/
theorem dumpRow_longest (m : Memory) (start : Word) (length : UInt64) :
    dumpRow m start length ((longest + 7) / 8) = (start + UInt16.ofNat longest, []) := by
  have hfirst : 8 * ((longest + 7) / 8) = longest := rfl
  have hend : (longest + 8) % 2 ^ 64 = 0 := rfl
  have hfits : 8 * ((longest + 7) / 8) < 2 ^ 64 := by decide
  rw [dumpRow_eq hfits, hfirst, hend, Nat.min_zero, Nat.zero_sub, Memory.words]

theorem dumpRows_of_lt {length : UInt64} (h : longest < length.toNat) (m : Memory) (start : Word) :
    dumpRows m start length =
      exactRows m start longest ++ [(start + UInt16.ofNat longest, [])] := by
  have hlength := length.toNat_lt
  have hcount : (length.toNat + 7) / 8 = (longest + 7) / 8 + 1 := by
    unfold longest at *
    omega
  have hrows : (List.range ((longest + 7) / 8)).map (dumpRow m start length) =
      exactRows m start longest := by
    rw [exactRows]
    apply List.map_congr_left
    intro row hrow
    have hrow := List.mem_range.1 hrow
    have hend : 8 * row + 8 ≤ longest := by
      unfold longest at *
      omega
    have hfits : 8 * row + 8 < 2 ^ 64 := Nat.lt_of_le_of_lt hend (by decide)
    rw [dumpRow_eq_exactRow hfits, exactRow_longest hend h.le]
  rw [dumpRows_eq_map, hcount, List.range_succ, List.map_append, hrows, List.map_singleton,
    dumpRow_longest]

theorem not_showsOnce_of_empty_row {m : Memory} {start : Word} {length : Nat}
    (rows : List (Word × List Word)) (label : Word) :
    ¬ ShowsOnce m start length (rows ++ [(label, [])]) := by
  intro h
  have hrest := h.rest (label, []) (by simp)
  exact Nat.not_succ_le_zero 0 hrest.1

theorem rows_fit_iff {length : Nat} (h : length < 2 ^ 64) :
    (∀ r < (length + 7) / 8, 8 * r + 8 < 2 ^ 64) ↔ length ≤ longest := by
  unfold longest
  constructor
  · intro hrows
    by_contra hlong
    have hlast := hrows (2 ^ 61 - 1) (by omega)
    omega
  · intro hlength r hr
    omega

/-- A dump of at most `2 ^ 64 - 8` words shows each of them once, and so no end of a row leaves 64
bits; of no other dump this is true. There the rows show as many words, and one more is empty. -/
theorem dump_shows_words_iff (m : Machine) (start : Word) (length : UInt64) : ∃ rows,
    (Command.dump start length).run m = .ok (.lines (rows.map dumpText)) m ∧
    rows.length = (length.toNat + 7) / 8 ∧
    (ShowsOnce m.memory start length.toNat rows ↔ length.toNat ≤ 2 ^ 64 - 8) ∧
    ((∀ r < rows.length, 8 * r + 8 < 2 ^ 64) ↔ length.toNat ≤ 2 ^ 64 - 8) ∧
    (2 ^ 64 - 8 < length.toNat → ∃ shown, rows = shown ++ [(start + 0xfff8, [])] ∧
      ShowsOnce m.memory start (2 ^ 64 - 8) shown) := by
  have hcount : (dumpRows m.memory start length).length = (length.toNat + 7) / 8 := by
    simp [dumpRows]
  have hlabel : UInt16.ofNat longest = 0xfff8 := by decide
  refine ⟨dumpRows m.memory start length, rfl, hcount, ⟨fun hshows => ?_, fun hlength => ?_⟩, ?_,
    fun hlong => ⟨exactRows m.memory start longest, ?_, showsOnce_exactRows ..⟩⟩
  · by_contra hlong
    rw [dumpRows_of_lt (Nat.lt_of_not_le hlong)] at hshows
    exact not_showsOnce_of_empty_row _ _ hshows
  · rw [dumpRows_of_le hlength]
    exact showsOnce_exactRows ..
  · rw [hcount]
    exact rows_fit_iff length.toNat_lt
  · rw [dumpRows_of_lt hlong, hlabel]

/-- The greatest length that can be asked for leaves seven words out: their row is empty. -/
theorem dump_of_greatest_length :
    let m : Machine := { toProcessor := .initial, memory := .ofList [] }
    ∃ rows, (Command.dump 0 0xffffffffffffffff).run m = .ok (.lines (rows.map dumpText)) m ∧
      rows.getLast? = some (0xfff8, []) ∧ ¬ ShowsOnce m.memory 0 0xffffffffffffffff rows := by
  intro m
  have hlong : longest < (0xffffffffffffffff : UInt64).toNat := by decide
  have hlabel : (0 : Word) + UInt16.ofNat longest = 0xfff8 := by decide
  refine ⟨dumpRows m.memory 0 0xffffffffffffffff, rfl, ?_, ?_⟩
  · rw [dumpRows_of_lt hlong, hlabel, List.getLast?_concat]
  · rw [dumpRows_of_lt hlong]
    exact not_showsOnce_of_empty_row _ _

end Monitor

end Dcpu
