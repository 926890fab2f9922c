import Dcpu.Proofs.Listing.Coverage
import Dcpu.Proofs.Machine.Effect
import Mathlib.Data.Nat.Basic
import Mathlib.Order.Interval.Set.Defs

/-! STI and STD as block moves. Each of them copies the cell at J to the cell at I and moves both
registers on, so that executing one many times copies a block cell by cell. The blocks may overlap
and wrap, as long as no cell is written before its turn to be read. -/
namespace Dcpu.Machine

open Stateful

/-- Execute one instruction the given number of times, without fetching it. -/
def executeTimes (i : Instruction) : Nat → EStateM ExecuteError Machine Unit
  | 0 => return
  | n + 1 => do
    execute i
    executeTimes i n

/-- The operation from the cell at J to the cell at I. -/
def fromJToI (op : Operation) : Instruction := ⟨.operate op, some (.indirect .i), .indirect .j⟩

/-- The machine `m'` differs from `m` in a block of `n` cells and in the registers I and J. The
words of the block are those that stood at the sources, and I and J stand behind the blocks. -/
structure BlockMove (target source : Nat → Word) (n : Nat) (m m' : Machine) : Prop where
  copied : ∀ k < n, m'.memory.read (target k) = m.memory.read (source k)
  kept : ∀ x, (∀ k < n, target k ≠ x) → m'.memory.read x = m.memory.read x
  i : m'.register .i = target n
  j : m'.register .j = source n
  register : ∀ r, r ≠ .i → r ≠ .j → m'.register r = m.register r
  pc : m'.pc = m.pc
  sp : m'.sp = m.sp
  ex : m'.ex = m.ex

/-- The cell that is `k` strides away from where a register points to. -/
def cellFrom (m : Machine) (op : Operation) (r : Register) (k : Nat) : Word :=
  m.register r + op.stride * UInt16.ofNat k

theorem cellFrom_zero (m : Machine) (op : Operation) (r : Register) :
    m.cellFrom op r 0 = m.register r := by
  simp [cellFrom]

/-- The machine after one move. -/
def moved (m : Machine) (op : Operation) : Machine :=
  m.operate op (.cell (m.register .i)) (m.memory.read (m.register .i))
    (m.memory.read (m.register .j))

theorem execute_fromJToI (m : Machine) (op : Operation) :
    execute (fromJToI op) m = .ok () (m.moved op) := rfl

theorem register_moved (m : Machine) (op : Operation) (r : Register) :
    (m.moved op).register r = m.register r + if r = .i ∨ r = .j then op.stride else 0 := by
  rw [moved, register_operate, if_neg nofun]

theorem cellFrom_moved (m : Machine) (op : Operation) {r : Register} (hr : r = .i ∨ r = .j)
    (k : Nat) : (m.moved op).cellFrom op r k = m.cellFrom op r (k + 1) := by
  have hnext : UInt16.ofNat (k + 1) = UInt16.ofNat k + 1 := UInt16.ofNat_add ..
  rw [cellFrom, register_moved, if_pos hr, cellFrom, hnext]
  grind

section Copy

variable {op : Operation}

/-- No cell of a block falls on its first, because there are no more cells than addresses. -/
theorem cellFrom_ne (hstride : op.stride * op.stride = 1) {k : Nat} (hk : k + 1 < Memory.size)
    (m : Machine) (r : Register) : m.register r ≠ m.cellFrom op r (k + 1) := by
  intro h
  have hzero : UInt16.ofNat (k + 1) = 0 := by
    rw [cellFrom] at h
    grind
  have hk : k + 1 < 65536 := hk
  have := congrArg UInt16.toNat hzero
  rw [UInt16.toNat_ofNat', Nat.mod_eq_of_lt hk] at this
  exact Nat.succ_ne_zero k this

/-- A source that is read later is not the cell that is written first. -/
theorem source_ne (hstride : op.stride * op.stride = 1) {m : Machine} {n k : Nat}
    (hn : n < Memory.size) (hk : k < n)
    (hfar : (op.stride * (m.register .i - m.register .j)).toNat ∉ Set.Ico 1 (n + 1)) :
    m.register .i ≠ m.cellFrom op .j (k + 1) := by
  intro h
  have hoffset : op.stride * (m.register .i - m.register .j) = UInt16.ofNat (k + 1) := by
    rw [cellFrom] at h
    grind
  have hk' : k + 1 < 65536 := Nat.lt_of_le_of_lt hk hn
  rw [hoffset, UInt16.toNat_ofNat', Nat.mod_eq_of_lt hk', Set.mem_Ico] at hfar
  omega

variable (hcopy : ∀ ex b a, op.eval ex b a = (a, none))
include hcopy

theorem read_moved (m : Machine) (x : Word) : (m.moved op).memory.read x =
    if m.register .i = x then m.memory.read (m.register .j) else m.memory.read x := by
  rw [moved, memory_operate, hcopy]
  simp only [Place.cell.injEq]

variable (hstride : op.stride * op.stride = 1)
include hstride

/-- The first move and those that follow it are one block move. -/
theorem blockMove_succ {m m' : Machine} {n : Nat} (hn : n < Memory.size)
    (hfar : (op.stride * (m.register .i - m.register .j)).toNat ∉ Set.Ico 1 (n + 1))
    (h : BlockMove ((m.moved op).cellFrom op .i) ((m.moved op).cellFrom op .j) n (m.moved op) m') :
    BlockMove (m.cellFrom op .i) (m.cellFrom op .j) (n + 1) m m' := by
  obtain ⟨hcopied, hkept, hi, hj, hregister, hpc, hsp, hex⟩ := h
  simp only [cellFrom_moved, true_or, or_true] at hcopied hkept hi hj
  constructor
  case copied =>
    intro k hk
    cases k with
    | zero =>
      have hfirst : ∀ k < n, m.cellFrom op .i (k + 1) ≠ m.register .i := fun k hk =>
        (cellFrom_ne hstride (Nat.lt_of_le_of_lt hk hn) m .i).symm
      rw [cellFrom_zero, cellFrom_zero, hkept _ hfirst, read_moved hcopy, if_pos rfl]
    | succ k =>
      have hk := Nat.lt_of_succ_lt_succ hk
      rw [hcopied k hk, read_moved hcopy, if_neg (source_ne hstride hn hk hfar)]
  case kept =>
    intro x hx
    have hfirst := hx 0 (Nat.zero_lt_succ n)
    rw [cellFrom_zero] at hfirst
    rw [hkept x fun k hk => hx (k + 1) (Nat.succ_lt_succ hk), read_moved hcopy, if_neg hfirst]
  case i => exact hi
  case j => exact hj
  case register =>
    intro r hri hrj
    rw [hregister r hri hrj, register_moved, if_neg (not_or.2 ⟨hri, hrj⟩), UInt16.add_zero]
  case pc => rw [hpc, moved, pc_operate, if_neg nofun]
  case sp => rw [hsp, moved, sp_operate, if_neg nofun]
  case ex => rw [hex, moved, ex_operate, hcopy, if_neg nofun, Option.getD_none]

/-- Moves one after the other copy a block. -/
theorem exists_blockMove {n : Nat} (hn : n ≤ Memory.size) {m : Machine}
    (hfar : (op.stride * (m.register .i - m.register .j)).toNat ∉ Set.Ico 1 n) :
    ∃ m', executeTimes (fromJToI op) n m = .ok () m' ∧
      BlockMove (m.cellFrom op .i) (m.cellFrom op .j) n m m' := by
  -- The first move comes off the front. It moves I and J alike, so the rest starts from the same
  -- distance between them, and `hfar` carries over.
  induction n generalizing m with
  | zero =>
    refine ⟨m, rfl, ⟨nofun, fun _ _ => rfl, ?_, ?_, fun _ _ _ => rfl, rfl, rfl, rfl⟩⟩
    · exact (m.cellFrom_zero op .i).symm
    · exact (m.cellFrom_zero op .j).symm
  | succ n ih =>
    have hoffset : (m.moved op).register .i - (m.moved op).register .j =
        m.register .i - m.register .j := by
      rw [register_moved, register_moved, if_pos (Or.inl rfl), if_pos (Or.inr rfl)]
      grind
    have hrest : (op.stride * ((m.moved op).register .i - (m.moved op).register .j)).toNat ∉
        Set.Ico 1 n := by
      rw [hoffset]
      exact fun h => hfar ⟨h.1, Nat.lt_succ_of_lt h.2⟩
    obtain ⟨m', hrun, hmove⟩ := ih (Nat.le_of_succ_le hn) hrest
    exact ⟨m', (bind_of_ok (execute_fromJToI m op)).trans hrun,
      blockMove_succ hcopy hstride hn hfar hmove⟩

end Copy

/-- Repeated, STI copies a block upward and STD downward, whatever wraps or overlaps, unless a cell
is written before it is read. Nothing else changes but the registers I and J, which stand behind the
blocks in the end. -/
theorem sti_std_move_blocks (m : Machine) {n : Nat} (hn : n ≤ Memory.size) :
    ((m.register .i - m.register .j).toNat ∉ Set.Ico 1 n → ∃ m',
      executeTimes ⟨.operate .sti, some (.indirect .i), .indirect .j⟩ n m = .ok () m' ∧
        BlockMove (m.register .i + UInt16.ofNat ·) (m.register .j + UInt16.ofNat ·) n m m') ∧
    ((m.register .j - m.register .i).toNat ∉ Set.Ico 1 n → ∃ m',
      executeTimes ⟨.operate .std, some (.indirect .i), .indirect .j⟩ n m = .ok () m' ∧
        BlockMove (m.register .i - UInt16.ofNat ·) (m.register .j - UInt16.ofNat ·) n m m') := by
  have hsti (r : Register) : m.cellFrom .sti r = (m.register r + UInt16.ofNat ·) := by
    funext k
    exact congrArg (m.register r + ·) (UInt16.one_mul _)
  have hstd (r : Register) : m.cellFrom .std r = (m.register r - UInt16.ofNat ·) := by
    funext k
    change m.register r + -1 * UInt16.ofNat k = m.register r - UInt16.ofNat k
    grind
  refine ⟨fun hfar => ?_, fun hfar => ?_⟩
  · rw [← hsti, ← hsti]
    refine exists_blockMove (fun _ _ _ => rfl) rfl hn ?_
    rw [Operation.stride, UInt16.one_mul]
    exact hfar
  · rw [← hstd, ← hstd]
    refine exists_blockMove (fun _ _ _ => rfl) rfl hn ?_
    have hoffset : Operation.std.stride * (m.register .i - m.register .j) =
        m.register .j - m.register .i := by
      rw [Operation.stride]
      grind
    rw [hoffset]
    exact hfar

/-- Blocks of three words that overlap in two: one goes down by a cell over the end of memory, and
the other up by a cell. -/
theorem sti_std_move_blocks_of_overlap :
    let m (i j : Word) : Machine := { Processor.initial with
      registers := (Registers.zero.set .i i).set .j j
      memory := .ofList [7, 8, 9] }
    3 ≤ Memory.size ∧
    (((m 0xffff 0).register .i - (m 0xffff 0).register .j).toNat ∉ Set.Ico 1 3 ∧ ∃ m',
      executeTimes ⟨.operate .sti, some (.indirect .i), .indirect .j⟩ 3 (m 0xffff 0) = .ok () m' ∧
        m'.memory.words 0xffff 4 = [7, 8, 9, 9] ∧ m'.register .i = 2 ∧ m'.register .j = 3) ∧
    (((m 3 2).register .j - (m 3 2).register .i).toNat ∉ Set.Ico 1 3 ∧ ∃ m',
      executeTimes ⟨.operate .std, some (.indirect .i), .indirect .j⟩ 3 (m 3 2) = .ok () m' ∧
        m'.memory.words 0 4 = [7, 7, 8, 9] ∧ m'.register .i = 0 ∧ m'.register .j = 0xffff) := by
  intro m
  have hread (i j x : Word) : (m i j).memory.read x = [7, 8, 9].getD x.toNat 0 :=
    Memory.read_ofList ..
  have hup : ((m 0xffff 0).register .i - (m 0xffff 0).register .j).toNat ∉ Set.Ico 1 3 :=
    fun h => absurd h.2 (by decide)
  have hdown : ((m 3 2).register .j - (m 3 2).register .i).toNat ∉ Set.Ico 1 3 :=
    fun h => absurd h.2 (by decide)
  have hi (i j : Word) : (m i j).register .i = i := by
    simp [m, register, Registers.get_set]
  have hj (i j : Word) : (m i j).register .j = j := by
    simp [m, register, Registers.get_set]
  have hn : 3 ≤ Memory.size := by decide
  obtain ⟨u, hsti, hupward⟩ := (sti_std_move_blocks (m 0xffff 0) hn).1 hup
  obtain ⟨d, hstd, hdownward⟩ := (sti_std_move_blocks (m 3 2) hn).2 hdown
  simp only [hi, hj] at hupward hdownward
  refine ⟨hn, ⟨hup, u, hsti, ?_, hupward.i, hupward.j⟩,
    hdown, d, hstd, ?_, hdownward.i, hdownward.j⟩
  · have h0 : u.memory.read 0xffff = 7 := (hupward.copied 0 (by decide)).trans (hread ..)
    have h1 : u.memory.read 0 = 8 := (hupward.copied 1 (by decide)).trans (hread ..)
    have h2 : u.memory.read 1 = 9 := (hupward.copied 2 (by decide)).trans (hread ..)
    have h3 : u.memory.read 2 = 9 := (hupward.kept 2 (by decide)).trans (hread ..)
    simp [Memory.words, h0, h1, h2, h3]
  · have h0 : d.memory.read 0 = 7 := (hdownward.kept 0 (by decide)).trans (hread ..)
    have h1 : d.memory.read 1 = 7 := (hdownward.copied 2 (by decide)).trans (hread ..)
    have h2 : d.memory.read 2 = 8 := (hdownward.copied 1 (by decide)).trans (hread ..)
    have h3 : d.memory.read 3 = 9 := (hdownward.copied 0 (by decide)).trans (hread ..)
    simp [Memory.words, h0, h1, h2, h3]

end Dcpu.Machine
