import Dcpu.Machine.Basic
import Dcpu.Proofs.Reading.Agreement
import Dcpu.Proofs.Reading.Supply

/-! Instructions in memory. What stands at an address decides what loading and skipping from there
come to, for a cursor as for a machine at that PC: an instruction moves them by its size, a word
that begins none by one. -/
namespace Dcpu

open WordReader

namespace Memory

/-- The instruction that begins at an address, or what is wrong with the word there. -/
def instructionAt (m : Memory) (address : Word) : Except DecodeError Instruction :=
  (Cursor.step ⟨m, address⟩).1.2

/-- The address after the instruction that begins at an address, or after a word that begins
none. -/
def nextAddress (m : Memory) (address : Word) : Word :=
  match m.instructionAt address with
  | .ok i => address + i.size
  | .error _ => address + 1

/-- The words stand in memory from an address on. -/
def Holds (m : Memory) (address : Word) : List Word → Prop
  | [] => True
  | w :: words => m.read address = w ∧ m.Holds (address + 1) words

theorem add_one_add_ofNat (address : Word) (n : Nat) :
    address + 1 + UInt16.ofNat n = address + UInt16.ofNat (n + 1) := by
  rw [UInt16.ofNat_add, UInt16.add_assoc, UInt16.add_comm 1]
  rfl

theorem holds_append_iff {m : Memory} {address : Word} {xs ys : List Word} :
    m.Holds address (xs ++ ys) ↔
      m.Holds address xs ∧ m.Holds (address + UInt16.ofNat xs.length) ys := by
  induction xs generalizing address with
  | nil => simp [Holds]
  | cons x xs ih =>
    simp only [List.cons_append, Holds, ih, List.length_cons, add_one_add_ofNat, and_assoc]

private theorem holds_ofList_append {done words : List Word}
    (h : (done ++ words).length ≤ size) :
    (ofList (done ++ words)).Holds (UInt16.ofNat done.length) words := by
  induction words generalizing done with
  | nil => exact trivial
  | cons w words ih =>
    have hlt : done.length < 65536 := by
      rw [List.length_append, List.length_cons, size] at h
      omega
    have hnext : UInt16.ofNat done.length + 1 = UInt16.ofNat (done ++ [w]).length := by
      rw [List.length_append, UInt16.ofNat_add]
      rfl
    rw [List.append_cons] at h ⊢
    refine ⟨?_, hnext ▸ ih h⟩
    rw [read_ofList, UInt16.toNat_ofNat', Nat.mod_eq_of_lt hlt]
    simp

/-- Words that fit stand in memory from address zero on. -/
theorem holds_ofList {words : List Word} (h : words.length ≤ size) :
    (ofList words).Holds 0 words := by
  have hfits : ([] ++ words).length ≤ size := h
  simpa using holds_ofList_append hfits

namespace Cursor

open Stateful

private theorem exists_load_operand (o : Operand) (c : Cursor) : ∃ o',
    o.load c = .ok o' { c with address := c.address + o.extraWords } := by
  cases ho : o.extra? with
  | none => exact ⟨o, by simp [Operand.load, Operand.extraWords, ho, pure, EStateM.pure]⟩
  | some _ =>
    refine ⟨o.setExtra (c.memory.read c.address), ?_⟩
    simp [Operand.load, Operand.extraWords, ho, bind, EStateM.bind, next, pure, EStateM.pure]

private theorem exists_loadExtra (i : Instruction) (c : Cursor) : ∃ j,
    i.loadExtra c = .ok j { c with address := c.address + i.extraWords } := by
  obtain ⟨a, ha⟩ := exists_load_operand i.a c
  unfold Instruction.loadExtra
  rw [bind_of_ok ha]
  cases hb : i.b with
  | none => exact ⟨{ i with a }, by simp [Instruction.extraWords, hb, pure, EStateM.pure]⟩
  | some o =>
    obtain ⟨b, ho⟩ := exists_load_operand o { c with address := c.address + i.a.extraWords }
    refine ⟨{ i with a, b := some b }, ?_⟩
    simp only [bind_of_ok ho, Instruction.extraWords, hb, UInt16.add_assoc]
    rfl

/-- Reading words from memory never fails, so that only the first word of an instruction can be
wrong, and skipping goes as far as loading. -/
private theorem load_spec (c : Cursor) :
    (∃ i j, Instruction.ofWord (c.memory.read c.address) = .ok j ∧
      Instruction.load c = .ok i { c with address := c.address + i.size } ∧
      Instruction.skip c = .ok () { c with address := c.address + i.size }) ∨
    (∃ e, Instruction.ofWord (c.memory.read c.address) = .error e ∧
      Instruction.load c = .error e { c with address := c.address + 1 } ∧
      Instruction.skip c = .error e { c with address := c.address + 1 }) := by
  have hnext : EStateM.adaptExcept DecodeError.read next c =
      .ok (c.memory.read c.address) { c with address := c.address + 1 } := rfl
  unfold Instruction.load Instruction.skip
  rw [bind_of_ok hnext, bind_of_ok hnext]
  cases Instruction.ofWord (c.memory.read c.address) with
  | error e => exact Or.inr ⟨e, rfl, rfl, rfl⟩
  | ok i =>
    obtain ⟨j, hj⟩ := exists_loadExtra i { c with address := c.address + 1 }
    have hsize : j.size = i.size :=
      Instruction.size_eq_of_blank_eq (Instruction.loadExtra_eq_ok_iff.1 hj).1
    have haddress : c.address + 1 + i.extraWords = c.address + j.size := by
      rw [hsize, Instruction.size, UInt16.add_assoc]
    rw [haddress] at hj
    refine Or.inl ⟨j, i, rfl, adaptExcept_of_ok hj, adaptExcept_of_ok ?_⟩
    rw [← haddress]
    rfl

theorem load_eq (c : Cursor) : Instruction.load c =
    match c.memory.instructionAt c.address with
    | .ok i => .ok i { c with address := c.memory.nextAddress c.address }
    | .error e => .error e { c with address := c.memory.nextAddress c.address } := by
  obtain ⟨i, -, -, h, -⟩ | ⟨e, -, h, -⟩ := load_spec c <;>
    simp [nextAddress, instructionAt, step, EStateM.run, h]

theorem skip_eq (c : Cursor) : Instruction.skip c =
    match c.memory.instructionAt c.address with
    | .ok _ => .ok () { c with address := c.memory.nextAddress c.address }
    | .error e => .error e { c with address := c.memory.nextAddress c.address } := by
  obtain ⟨i, -, -, h, hs⟩ | ⟨e, -, h, hs⟩ := load_spec c <;>
    simp [nextAddress, instructionAt, step, EStateM.run, h, hs]

end Cursor

/-- A cursor supplies the words that stand at its address. -/
theorem Cursor.supplies_iff {c d : Cursor} {words : List Word} :
    Supplies c words d ↔ c.memory.Holds c.address words ∧
      d = { c with address := c.address + UInt16.ofNat words.length } := by
  induction words generalizing c with
  | nil => simp [Holds, eq_comm]
  | cons w words ih =>
    rw [supplies_cons_iff]
    constructor
    · intro h
      obtain ⟨t, head, tail⟩ := h
      cases head
      obtain ⟨h, rfl⟩ := ih.1 tail
      exact ⟨⟨rfl, h⟩, by simp only [add_one_add_ofNat, List.length_cons]⟩
    · intro h
      obtain ⟨⟨rfl, h⟩, rfl⟩ := h
      refine ⟨_, rfl, ih.2 ⟨h, ?_⟩⟩
      simp only [add_one_add_ofNat, List.length_cons]

/-- The instruction at an address is the one whose encoding stands there. -/
theorem instructionAt_eq_ok_iff {m : Memory} {address : Word} {i : Instruction} :
    m.instructionAt address = .ok i ↔
      i.canonical = i ∧ ∃ words, i.encode = .ok words ∧ m.Holds address words := by
  have hload := Cursor.load_eq ⟨m, address⟩
  constructor
  · intro h
    simp only [h] at hload
    obtain ⟨hc, words, he, hs⟩ := Instruction.load_eq_ok_iff.1 hload
    exact ⟨hc, words, he, (Cursor.supplies_iff.1 hs).1⟩
  · intro h
    obtain ⟨hc, words, he, h⟩ := h
    have hs : Supplies (Cursor.mk m address) words ⟨m, address + UInt16.ofNat words.length⟩ :=
      Cursor.supplies_iff.2 ⟨h, rfl⟩
    rw [Instruction.load_eq_ok_iff.2 ⟨hc, words, he, hs⟩] at hload
    cases hm : m.instructionAt address with
    | ok j =>
      simp only [hm] at hload
      injection hload with hj
      rw [hj]
    | error e =>
      simp only [hm] at hload
      cases hload

/-- Where an encoding stands, the canonical form is read and the address after it is reached. -/
theorem instructionAt_of_encode {m : Memory} {address : Word} {i : Instruction}
    {words : List Word} (he : i.encode = .ok words) (h : m.Holds address words) :
    m.instructionAt address = .ok i.canonical ∧
      m.nextAddress address = address + UInt16.ofNat words.length := by
  have hi : m.instructionAt address = .ok i.canonical := instructionAt_eq_ok_iff.2
    ⟨i.canonical_canonical, words, by rw [Instruction.encode_canonical, he], h⟩
  refine ⟨hi, ?_⟩
  rw [nextAddress, hi, ← Instruction.size_canonical_of_encode he]

/-- No instruction begins at an address exactly if none begins with the word there. -/
theorem instructionAt_eq_error_iff {m : Memory} {address : Word} {e : DecodeError} :
    m.instructionAt address = .error e ↔ Instruction.ofWord (m.read address) = .error e := by
  obtain ⟨i, j, hj, hi, -⟩ | ⟨e', he', hi, -⟩ := Cursor.load_spec ⟨m, address⟩
  · simp [instructionAt, Cursor.step, EStateM.run, hi, hj]
  · simp [instructionAt, Cursor.step, EStateM.run, hi, he']

/-- Of all faults only a missing opcode occurs in memory. -/
theorem opcode_missing_of_instructionAt {m : Memory} {address : Word} {e : DecodeError}
    (h : m.instructionAt address = .error e) :
    ∃ code, e = .specialOpcode code ∨ e = .binaryOpcode code :=
  Instruction.opcode_missing_of_ofWord (instructionAt_eq_error_iff.1 h)

theorem listing_succ (m : Memory) (address : Word) (n : Nat) : m.listing address (n + 1) =
    (address, m.instructionAt address) :: m.listing (m.nextAddress address) n := by
  have hload := Cursor.load_eq ⟨m, address⟩
  cases h : m.instructionAt address <;>
    simp [listing, Cursor.step, EStateM.run, hload, h]

end Memory

namespace Machine

/-- The cursor and the machine read from one memory at one address, and the machine has kept all
else. -/
def Reads (m : Machine) (c : Memory.Cursor) (n : Machine) : Prop :=
  c.memory = m.memory ∧ n = { m with pc := c.address }

theorem next_agree (m : Machine) {c : Memory.Cursor} {n : Machine} (h : Reads m c n) :
    Agree (Reads m) (next c) (next n) := by
  obtain ⟨hm, rfl⟩ := h
  simp only [next, hm]
  exact .ok ⟨rfl, rfl⟩

theorem skip_agree (m : Machine) {c : Memory.Cursor} {n : Machine} (count : Word)
    (h : Reads m c n) : Agree (Reads m) (skip count c) (skip count n) := by
  obtain ⟨hm, rfl⟩ := h
  exact .ok ⟨hm, rfl⟩

theorem load_eq (m : Machine) : Instruction.load m =
    match m.memory.instructionAt m.pc with
    | .ok i => .ok i { m with pc := m.memory.nextAddress m.pc }
    | .error e => .error e { m with pc := m.memory.nextAddress m.pc } := by
  have h := Instruction.load_agree (next_agree m) (s := ⟨m.memory, m.pc⟩) ⟨rfl, rfl⟩
  rw [Memory.Cursor.load_eq] at h
  generalize Instruction.load m = result at h
  cases hi : m.memory.instructionAt m.pc <;> rw [hi] at h <;> obtain ⟨-, rfl⟩ | ⟨-, rfl⟩ := h <;>
    rfl

theorem skip_eq (m : Machine) : Instruction.skip m =
    match m.memory.instructionAt m.pc with
    | .ok _ => .ok () { m with pc := m.memory.nextAddress m.pc }
    | .error e => .error e { m with pc := m.memory.nextAddress m.pc } := by
  have h := Instruction.skip_agree (next_agree m) (skip_agree m) (s := ⟨m.memory, m.pc⟩) ⟨rfl, rfl⟩
  rw [Memory.Cursor.skip_eq] at h
  generalize Instruction.skip m = result at h
  cases hi : m.memory.instructionAt m.pc <;> rw [hi] at h <;> obtain ⟨-, rfl⟩ | ⟨-, rfl⟩ := h <;>
    rfl

end Machine

end Dcpu
