import Dcpu.Proofs.Reading.Memory
import Mathlib.Data.List.Chain

/-! Listings of memory leave nothing out and show nothing twice. Every line takes the words from its
own address up to that of the next, and written out again the lines are these words. -/
namespace Dcpu.Memory

/-- The given number of words, read one after the other from an address on. -/
def words (m : Memory) (address : Word) : Nat → List Word
  | 0 => []
  | n + 1 => m.read address :: m.words (address + 1) n

theorem holds_iff_words {m : Memory} {address : Word} {ws : List Word} :
    m.Holds address ws ↔ ws = m.words address ws.length := by
  induction ws generalizing address with
  | nil => exact iff_of_true trivial rfl
  | cons w ws ih => rw [Holds, List.length_cons, words, List.cons.injEq, ih, eq_comm]

theorem length_words (m : Memory) (address : Word) (n : Nat) : (m.words address n).length = n := by
  induction n generalizing address with
  | zero => rfl
  | succ n ih => rw [words, List.length_cons, ih]

theorem words_add (m : Memory) (address : Word) (n k : Nat) : m.words address (n + k) =
    m.words address n ++ m.words (address + UInt16.ofNat n) k := by
  induction n generalizing address with
  | zero => simp [words]
  | succ n ih =>
    rw [Nat.add_right_comm, words, words, ih, add_one_add_ofNat, List.cons_append]

/-- How many words a line of a listing takes. A word that begins no instruction has a line of its
own. -/
def lineSize : Except DecodeError Instruction → Word
  | .ok i => i.size
  | .error _ => 1

/-- The words of a line: the instruction is written again, and other words are looked up. -/
def lineWords (m : Memory) (line : Word × Except DecodeError Instruction) :
    Except EncodeError (List Word) :=
  match line.2 with
  | .ok i => i.encode
  | .error _ => .ok [m.read line.1]

/-- The address behind the lines of a listing from an address on. -/
def behind (address : Word) : List (Word × Except DecodeError Instruction) → Word
  | [] => address
  | line :: lines => behind (line.1 + lineSize line.2) lines

theorem nextAddress_eq (m : Memory) (address : Word) :
    m.nextAddress address = address + lineSize (m.instructionAt address) := by
  unfold nextAddress
  cases m.instructionAt address <;> rfl

theorem behind_listing_succ (m : Memory) (address : Word) (n : Nat) :
    behind address (m.listing address (n + 1)) =
      behind (m.nextAddress address) (m.listing (m.nextAddress address) n) := by
  rw [listing_succ, behind, ← nextAddress_eq]

theorem length_listing (m : Memory) (address : Word) (n : Nat) :
    (m.listing address n).length = n := by
  induction n generalizing address with
  | zero => rfl
  | succ n ih => rw [listing_succ, List.length_cons, ih]

theorem eq_of_mem_head?_listing {m : Memory} {address : Word} {n : Nat}
    {line : Word × Except DecodeError Instruction} (h : line ∈ (m.listing address n).head?) :
    line.1 = address := by
  cases n with
  | zero => cases h
  | succ n =>
    rw [listing_succ] at h
    cases h
    rfl

theorem isChain_listing (m : Memory) (address : Word) (n : Nat) :
    (m.listing address n).IsChain fun line next => next.1 = line.1 + lineSize line.2 := by
  induction n generalizing address with
  | zero => exact .nil
  | succ n ih =>
    rw [listing_succ, List.isChain_cons]
    refine ⟨fun next hnext => ?_, ih _⟩
    rw [eq_of_mem_head?_listing hnext, nextAddress_eq]

theorem listing_add (m : Memory) (address : Word) (n k : Nat) : m.listing address (n + k) =
    m.listing address n ++ m.listing (behind address (m.listing address n)) k := by
  induction n generalizing address with
  | zero => rw [Nat.zero_add]; rfl
  | succ n ih =>
    rw [Nat.add_right_comm, listing_succ, ih, behind_listing_succ, listing_succ, List.cons_append]

/-- A line stands for the words from its address up to the next. -/
theorem exists_lineWords (m : Memory) (address : Word) : ∃ ws,
    m.lineWords (address, m.instructionAt address) = .ok ws ∧ m.Holds address ws ∧
      m.nextAddress address = address + UInt16.ofNat ws.length := by
  cases hi : m.instructionAt address with
  | ok i =>
    obtain ⟨-, ws, he, hholds⟩ := instructionAt_eq_ok_iff.1 hi
    exact ⟨ws, he, hholds, (instructionAt_of_encode he hholds).2⟩
  | error e =>
    refine ⟨[m.read address], rfl, ⟨rfl, trivial⟩, ?_⟩
    rw [nextAddress, hi]
    rfl

/-- The lines of a listing stand for the words from its beginning to its end. -/
theorem exists_chunks (m : Memory) (address : Word) (n : Nat) : ∃ chunks,
    (m.listing address n).mapM m.lineWords = .ok chunks ∧ m.Holds address chunks.flatten ∧
      behind address (m.listing address n) = address + UInt16.ofNat chunks.flatten.length := by
  induction n generalizing address with
  | zero => exact ⟨[], rfl, trivial, by simp [listing, behind]⟩
  | succ n ih =>
    obtain ⟨ws, hline, hholds, hnext⟩ := exists_lineWords m address
    obtain ⟨chunks, hchunks, hrest, hbehind⟩ := ih (m.nextAddress address)
    refine ⟨ws :: chunks, ?_, ?_, ?_⟩
    · rw [listing_succ, List.mapM_cons, hline, hchunks]
      rfl
    · rw [List.flatten_cons, holds_append_iff, ← hnext]
      exact ⟨hholds, hrest⟩
    · rw [behind_listing_succ, hbehind, hnext, List.flatten_cons, List.length_append,
        UInt16.ofNat_add, UInt16.add_assoc]

/-- A listing has the lines that are asked for. The first is at the given address, and each of the
others begins where the line before it ends, be it beyond the last address. All lines together are
the words of memory in a row, and a listing goes on where a shorter one stops. -/
theorem listing_covers (m : Memory) (address : Word) (n : Nat) :
    (m.listing address n).length = n ∧
    (∀ line ∈ (m.listing address n).head?, line.1 = address) ∧
    (m.listing address n).IsChain (fun line next => next.1 = line.1 + lineSize line.2) ∧
    (∃ chunks, (m.listing address n).mapM m.lineWords = .ok chunks ∧
      chunks.flatten = m.words address chunks.flatten.length ∧
      behind address (m.listing address n) = address + UInt16.ofNat chunks.flatten.length) ∧
    ∀ k, m.listing address (n + k) =
      m.listing address n ++ m.listing (behind address (m.listing address n)) k := by
  obtain ⟨chunks, hchunks, hholds, hbehind⟩ := m.exists_chunks address n
  exact ⟨m.length_listing address n, fun _ => eq_of_mem_head?_listing, m.isChain_listing address n,
    ⟨chunks, hchunks, holds_iff_words.1 hholds, hbehind⟩, m.listing_add address n⟩

end Dcpu.Memory
