import Dcpu.Proofs.Machine.Effect
import Mathlib.Algebra.Ring.Int.Defs

/-! The stack of a machine as a list. A machine whose stack lies in memory does what the same
processor does with a list in its place, as long as the stack holds no more words than memory has
addresses. -/
namespace Dcpu

open Stateful

namespace Memory

/-- A write outside of the words leaves them where they stand. -/
theorem holds_write_iff {m : Memory} {address x w : Word} {words : List Word}
    (h : words.length ≤ (x - address).toNat) :
    (m.write x w).Holds address words ↔ m.Holds address words := by
  induction words generalizing address with
  | nil => rfl
  | cons v words ih =>
    rw [List.length_cons, UInt16.toNat_sub] at h
    have hx := x.toNat_lt
    have haddress := address.toNat_lt
    have hne : x ≠ address := by
      rintro rfl
      omega
    have hnext : words.length ≤ (x - (address + 1)).toNat := by
      rw [UInt16.toNat_sub, UInt16.toNat_add]
      change _ ≤ (65536 - (address.toNat + 1) % 65536 + x.toNat) % 65536
      omega
    rw [Holds, Holds, read_write, if_neg hne, ih hnext]

end Memory

namespace Stack

/-- What can be put on the stack without a look into memory. -/
inductive Source where
  | register (r : Register)
  | sp
  | pc
  | ex
  | immediate (w : Word)
  | literal (w : Word)

/-- What can take a word from the stack and leaves SP alone. -/
inductive Target where
  | register (r : Register)
  | pc
  | ex

namespace Source

def operand : Source → Operand
  | register r => .register r
  | sp => .sp
  | pc => .pc
  | ex => .ex
  | immediate w => .immediate w
  | literal w => .literal w

def value (p : Processor) : Source → Word
  | register r => p.registers.get r
  | sp => p.sp
  | pc => p.pc
  | ex => p.ex
  | immediate w | literal w => w

end Source

namespace Target

def operand : Target → Operand
  | register r => .register r
  | pc => .pc
  | ex => .ex

def place : Target → Place
  | register r => .register r
  | pc => .pc
  | ex => .ex

def assign (p : Processor) (w : Word) : Target → Processor
  | register r => { p with registers := p.registers.set r w }
  | pc => { p with pc := w }
  | ex => { p with ex := w }

end Target

inductive Operation where
  /-- Put a word on the stack. -/
  | push (w : Word)
  /-- Take a word off the stack. -/
  | pop
  /-- Execute `SET PUSH, x`. -/
  | save (x : Source)
  /-- Execute `JSR x`. -/
  | call (x : Source)
  /-- Execute `SET r, POP`, which returns from a call if `r` is PC. -/
  | restore (r : Target)

/-- A processor with a stack of its own instead of memory. -/
structure ListMachine extends Processor where
  stack : List Word

namespace ListMachine

def push (s : ListMachine) (w : Word) : ListMachine :=
  { s with sp := s.sp - 1, stack := w :: s.stack }

def pop? (s : ListMachine) : Option (Word × ListMachine) :=
  match s.stack with
  | [] => none
  | w :: rest => some (w, { s with sp := s.sp + 1, stack := rest })

end ListMachine

namespace Operation

/-- How many words more there are on the stack after the operation. -/
def shift : Operation → Int
  | push _ | save _ | call _ => 1
  | pop | restore _ => -1

/-- Carry an operation out on a machine. It answers with the word that it takes from the stack, read
where the operation has left it. -/
def perform : Operation → EStateM ExecuteError Machine (Option Word)
  | push w => do
    modify (·.push w)
    return none
  | pop => some <$> modifyGet Machine.pop
  | save x => do
    Machine.execute ⟨.operate .set, some .push, x.operand⟩
    return none
  | call x => do
    Machine.execute ⟨.jsr, none, x.operand⟩
    return none
  | restore r => do
    Machine.execute ⟨.operate .set, some r.operand, .pop⟩
    return some ((← get).read r.place)

/-- Carry an operation out where the stack is a list. It fails if there is nothing to take. -/
def performOnList : Operation → StateT ListMachine Option (Option Word)
  | push w => fun s => some (none, s.push w)
  | pop => fun s => s.pop?.map fun (w, s) => (some w, s)
  | save x => fun s => some (none, s.push (x.value s.toProcessor))
  | call x => fun s => some (none, { s.push s.pc with pc := x.value s.toProcessor })
  | restore r => fun s => s.pop?.map fun (w, s) =>
    (some w, { s with toProcessor := r.assign s.toProcessor w })

end Operation

/-- How many words operations leave on a stack that was empty before them. -/
def depth (ops : List Operation) : Int := (ops.map Operation.shift).sum

/-- The processors are in the same state, and the list stands in memory from SP on. The stack was
empty when SP was at `base`. -/
structure Represents (base : Word) (m : Machine) (s : ListMachine) : Prop where
  processor : m.toProcessor = s.toProcessor
  sp : m.sp = base - UInt16.ofNat s.stack.length
  stack : m.memory.Holds m.sp s.stack

end Stack

namespace Machine

open Stack

theorem operate_set (m : Machine) (place : Place) (b a : Word) :
    m.operate .set place b a = m.write place a := (m.write place a).moveIndices_zero

theorem execute_save (m : Machine) (x : Source) :
    execute ⟨.operate .set, some .push, x.operand⟩ m = .ok () (m.push (x.value m.toProcessor)) := by
  cases x <;> exact congrArg (EStateM.Result.ok ()) (operate_set ..)

theorem execute_call (m : Machine) (x : Source) :
    execute ⟨.jsr, none, x.operand⟩ m =
      .ok () { m.push m.pc with pc := x.value m.toProcessor } := by
  cases x <;> rfl

theorem execute_restore (m : Machine) (r : Target) :
    execute ⟨.operate .set, some r.operand, .pop⟩ m = .ok () (m.pop.2.write r.place m.pop.1) := by
  cases r <;> exact congrArg (EStateM.Result.ok ()) (operate_set ..)

theorem toProcessor_push (m : Machine) (w : Word) :
    (m.push w).toProcessor = { m.toProcessor with sp := m.sp - 1 } := rfl

theorem memory_push (m : Machine) (w : Word) :
    (m.push w).memory = m.memory.write (m.sp - 1) w := rfl

theorem toProcessor_write (m : Machine) (r : Target) (w : Word) :
    (m.write r.place w).toProcessor = r.assign m.toProcessor w := by
  cases r <;> rfl

theorem memory_write_place (m : Machine) (r : Target) (w : Word) :
    (m.write r.place w).memory = m.memory := by
  cases r <;> rfl

theorem read_write_place (m : Machine) (r : Target) (w : Word) :
    (m.write r.place w).read r.place = w := by
  cases r with
  | register r => exact (m.register_write _ w r).trans (if_pos rfl)
  | _ => rfl

end Machine

namespace Stack

theorem Target.sp_assign (r : Target) (p : Processor) (w : Word) : (r.assign p w).sp = p.sp := by
  cases r <;> rfl

theorem ofNat_succ (n : Nat) : (UInt16.ofNat (n + 1) : Word) = UInt16.ofNat n + 1 :=
  UInt16.ofNat_add ..

namespace Represents

variable {base : Word} {m : Machine} {s : ListMachine}

/-- There is room for a word as long as not every address is taken. -/
theorem push (h : Represents base m s) (hroom : s.stack.length < 65536) (w : Word) :
    Represents base (m.push w) (s.push w) := by
  have hsp : m.sp - 1 = base - UInt16.ofNat (w :: s.stack).length := by
    rw [h.sp, List.length_cons, ofNat_succ]
    grind
  have hkeep : s.stack.length ≤ (m.sp - 1 - m.sp).toNat := by
    have hlast : m.sp - 1 - m.sp = 0xffff := by grind
    rw [hlast]
    exact Nat.le_of_lt_succ hroom
  refine ⟨?_, hsp, ?_, ?_⟩
  · rw [Machine.toProcessor_push, h.processor]
    rfl
  · exact (Memory.read_write ..).trans (if_pos rfl)
  · have hnext : m.sp - 1 + 1 = m.sp := UInt16.sub_add_cancel ..
    rw [Machine.memory_push, Machine.toProcessor_push, hnext, Memory.holds_write_iff hkeep]
    exact h.stack

/-- What is taken from a stack with a word on it is the head of the list. -/
theorem pop (h : Represents base m s) (hstack : 0 < s.stack.length) :
    ∃ s', s.pop? = some (m.pop.1, s') ∧ Represents base m.pop.2 s' ∧
      s'.stack.length + 1 = s.stack.length := by
  obtain ⟨p, _ | ⟨w, rest⟩⟩ := s
  · cases hstack
  · obtain ⟨hprocessor, hsp, hw, hrest⟩ := h
    obtain rfl : m.toProcessor = p := hprocessor
    have hsp' : m.sp + 1 = base - UInt16.ofNat rest.length := by
      rw [hsp, List.length_cons, ofNat_succ]
      grind
    exact ⟨⟨{ m.toProcessor with sp := m.sp + 1 }, rest⟩, by rw [← hw]; rfl,
      ⟨rfl, hsp', hrest⟩, rfl⟩

/-- A word is put as far below the base as there are words on the stack. -/
theorem read_push (h : Represents base m s) (hroom : s.stack.length < 65536) (w : Word) {x : Word}
    (hx : s.stack.length < (base - 1 - x).toNat) :
    (m.push w).memory.read x = m.memory.read x := by
  have hne : m.sp - 1 ≠ x := by
    rintro rfl
    have hoffset : base - 1 - (m.sp - 1) = UInt16.ofNat s.stack.length := by
      rw [h.sp]
      grind
    rw [hoffset, UInt16.toNat_ofNat', Nat.mod_eq_of_lt hroom] at hx
    exact absurd hx (Nat.lt_irrefl _)
  rw [Machine.memory_push, Memory.read_write, if_neg hne]

/-- Registers can change together, as long as SP does not. -/
theorem of_eq (h : Represents base m s) {t : Machine} {s' : ListMachine}
    (hprocessor : t.toProcessor = s'.toProcessor) (hsp : t.sp = m.sp)
    (hmemory : t.memory = m.memory) (hstack : s'.stack = s.stack) : Represents base t s' := by
  refine ⟨hprocessor, ?_, ?_⟩
  · rw [hsp, hstack, h.sp]
  · rw [hsp, hmemory, hstack]
    exact h.stack

end Represents

/-- One operation gives the same answer on memory as on the list, and touches no cell but the one
that it puts a word into. -/
theorem perform_refines {base : Word} {m : Machine} {s : ListMachine} (h : Represents base m s)
    (op : Operation) (hempty : 0 ≤ s.stack.length + op.shift)
    (hfull : s.stack.length + op.shift ≤ 65536) :
    ∃ answer t s', op.perform m = .ok answer t ∧ op.performOnList s = some (answer, s') ∧
      Represents base t s' ∧ s'.stack.length = s.stack.length + op.shift ∧
      ∀ x, s'.stack.length ≤ (base - 1 - x).toNat → t.memory.read x = m.memory.read x := by
  have hroom (hshift : op.shift = 1) : s.stack.length < 65536 := by omega
  have hword (hshift : op.shift = -1) : 0 < s.stack.length := by omega
  cases op with
  | push w =>
    exact ⟨none, m.push w, s.push w, rfl, rfl, h.push (hroom rfl) w, rfl,
      fun x hx => h.read_push (hroom rfl) w hx⟩
  | save x =>
    refine ⟨none, _, _, bind_of_ok (m.execute_save x), rfl, ?_, rfl,
      fun x hx => h.read_push (hroom rfl) _ hx⟩
    rw [← h.processor]
    exact h.push (hroom rfl) _
  | call x =>
    refine ⟨none, _, _, bind_of_ok (m.execute_call x), rfl, ?_, rfl,
      fun x hx => h.read_push (hroom rfl) _ hx⟩
    rw [← h.processor]
    exact (h.push (hroom rfl) m.pc).of_eq (congrArg ({ · with pc := x.value m.toProcessor })
      (h.push (hroom rfl) m.pc).processor) rfl rfl rfl
  | pop =>
    obtain ⟨s', hpop, hs', hlength⟩ := h.pop (hword rfl)
    refine ⟨some m.pop.1, m.pop.2, s', rfl, ?_, hs', ?_, fun _ _ => rfl⟩
    · simp [Operation.performOnList, hpop]
    · simp only [Operation.shift]
      omega
  | restore r =>
    obtain ⟨s', hpop, hs', hlength⟩ := h.pop (hword rfl)
    have hread : (m.pop.2.write r.place m.pop.1).read r.place = m.pop.1 :=
      Machine.read_write_place ..
    refine ⟨some m.pop.1, m.pop.2.write r.place m.pop.1,
      { s' with toProcessor := r.assign s'.toProcessor m.pop.1 }, ?_, ?_, ?_, ?_, fun x _ => ?_⟩
    · refine (bind_of_ok (m.execute_restore r)).trans ?_
      exact congrArg (EStateM.Result.ok · _) (congrArg some hread)
    · simp [Operation.performOnList, hpop]
    · have hprocessor := Machine.toProcessor_write m.pop.2 r m.pop.1
      refine hs'.of_eq ?_ ?_ (Machine.memory_write_place ..) rfl
      · rw [hprocessor, hs'.processor]
      · rw [hprocessor, r.sp_assign]
    · simp only [Operation.shift]
      omega
    · rw [Machine.memory_write_place]
      rfl

theorem depth_cons (op : Operation) (ops : List Operation) :
    depth (op :: ops) = op.shift + depth ops := by
  simp [depth]

/-- Operations one after the other give the same answers on memory as on the list. -/
theorem performAll_refines {base : Word} {m : Machine} {s : ListMachine}
    (h : Represents base m s) {ops : List Operation}
    (hempty : ∀ k, 0 ≤ s.stack.length + depth (ops.take k))
    (hfull : ∀ k, s.stack.length + depth (ops.take k) ≤ 65536) :
    ∃ answers t s', ops.mapM Operation.perform m = .ok answers t ∧
      ops.mapM Operation.performOnList s = some (answers, s') ∧ Represents base t s' ∧
      s'.stack.length = s.stack.length + depth ops ∧
      ∀ x, (∀ k, s.stack.length + depth (ops.take k) ≤ (base - 1 - x).toNat) →
        t.memory.read x = m.memory.read x := by
  induction ops generalizing m s with
  | nil => exact ⟨[], m, s, rfl, rfl, h, by simp [depth], fun _ _ => rfl⟩
  | cons op ops ih =>
    have hfirst : depth ((op :: ops).take 1) = op.shift := by simp [depth]
    obtain ⟨answer, t, s', hperform, hlist, ht, hlength, hkeep⟩ :=
      perform_refines h op (hfirst ▸ hempty 1) (hfirst ▸ hfull 1)
    have hnext (k : Nat) : s'.stack.length + depth (ops.take k) =
        s.stack.length + depth ((op :: ops).take (k + 1)) := by
      rw [hlength, List.take_succ_cons, depth_cons, Int.add_assoc]
    obtain ⟨answers, u, s'', hperforms, hlists, hu, hlength', hkeep'⟩ :=
      ih ht (fun k => hnext k ▸ hempty (k + 1)) (fun k => hnext k ▸ hfull (k + 1))
    refine ⟨answer :: answers, u, s'', ?_, ?_, hu, ?_, fun x hx => ?_⟩
    · rw [List.mapM_cons, bind_of_ok hperform, bind_of_ok hperforms]
      rfl
    · rw [List.mapM_cons]
      change (op.performOnList s >>= _) = _
      rw [hlist]
      change (ops.mapM Operation.performOnList s' >>= _) = _
      rw [hlists]
      rfl
    · rw [hlength', hlength, depth_cons, Int.add_assoc]
    · rw [hkeep' x fun k => hnext k ▸ hx (k + 1)]
      have hx := hx 1
      rw [hfirst, ← hlength] at hx
      exact hkeep x (Int.ofNat_le.1 hx)

/-- The stack of a machine is a list, as long as the operations on it neither take more words than
they have put there nor leave more than memory has cells. After any number of them SP is as far
below its start as there are words on the list, and no cell below the deepest word has changed. -/
theorem stack_refines_list {ops : List Operation} (hempty : ∀ k, 0 ≤ depth (ops.take k))
    (hfull : ∀ k, depth (ops.take k) ≤ Memory.size) (m : Machine) (n : Nat) :
    ∃ answers t s, (ops.take n).mapM Operation.perform m = .ok answers t ∧
      (ops.take n).mapM Operation.performOnList ⟨m.toProcessor, []⟩ = some (answers, s) ∧
      t.toProcessor = s.toProcessor ∧ s.stack.length = depth (ops.take n) ∧
      t.sp = m.sp - UInt16.ofNat s.stack.length ∧ t.memory.Holds t.sp s.stack ∧
      ∀ x, (∀ k ≤ n, depth (ops.take k) ≤ (m.sp - 1 - x).toNat) →
        t.memory.read x = m.memory.read x := by
  have h : Represents m.sp m ⟨m.toProcessor, []⟩ := ⟨rfl, (UInt16.sub_zero _).symm, trivial⟩
  have hprefix (k : Nat) : ((⟨m.toProcessor, []⟩ : ListMachine).stack.length : Int) +
      depth ((ops.take n).take k) = depth (ops.take (min k n)) := by
    rw [List.take_take]
    exact Int.zero_add _
  obtain ⟨answers, t, s, hperform, hlist, ht, hlength, hkeep⟩ := performAll_refines h
    (fun k => hprefix k ▸ hempty (min k n)) (fun k => hprefix k ▸ hfull (min k n))
  refine ⟨answers, t, s, hperform, hlist, ht.processor, ?_, ht.sp, ht.stack, fun x hx => ?_⟩
  · rw [hlength]
    exact Int.zero_add _
  · exact hkeep x fun k => hprefix k ▸ hx (min k n) (Nat.min_le_right k n)

/-- A call over the end of memory: the way back is put at address zero, below it the word that the
subroutine is given, and both are taken off again. -/
theorem stack_refines_list_of_call :
    let m : Machine := { Processor.initial with sp := 1, pc := 7, memory := .ofList [] }
    let ops : List Operation :=
      [.call (.immediate 9), .save (.literal 5), .restore (.register .a), .restore .pc]
    (∀ k, 0 ≤ depth (ops.take k)) ∧ (∀ k, depth (ops.take k) ≤ Memory.size) ∧
      ∃ t, ops.mapM Operation.perform m = .ok [none, none, some 5, some 7] t ∧
        t.toProcessor = { m.toProcessor with registers := m.registers.set .a 5 } ∧
        t.memory.read 1 = m.memory.read 1 := by
  intro m ops
  have hdepth (k : Nat) : 0 ≤ depth (ops.take k) ∧ depth (ops.take k) ≤ 2 := by
    match k with
    | 0 | 1 | 2 | 3 => decide
    | k + 4 =>
      have htake : ops.take (k + 4) = ops := List.take_of_length_le (Nat.le_add_left 4 k)
      rw [htake]
      decide
  have hempty (k : Nat) := (hdepth k).1
  have hfull (k : Nat) : depth (ops.take k) ≤ Memory.size :=
    Int.le_trans (hdepth k).2 (by decide)
  have hrun : ops.mapM Operation.performOnList ⟨m.toProcessor, []⟩ =
      some ([none, none, some 5, some 7],
        ⟨{ m.toProcessor with registers := m.registers.set .a 5 }, []⟩) := by cbv
  obtain ⟨answers, t, s, hperform, hlist, ht, -, -, -, hkeep⟩ :=
    stack_refines_list hempty hfull m 4
  obtain ⟨rfl, rfl⟩ := Prod.mk.inj (Option.some.inj (hlist.symm.trans hrun))
  refine ⟨hempty, hfull, t, hperform, ht, hkeep 1 fun k _ => ?_⟩
  exact Int.le_trans (hdepth k).2 (by decide)

end Stack

end Dcpu
