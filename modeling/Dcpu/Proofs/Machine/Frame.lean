import Dcpu.Proofs.Machine.Effect

/-! What one instruction changes, and that it changes nothing else. An operation assigns one word to
the place of its destination; besides that only SP, PC, EX, the registers I and J and the top of the
stack can change, each by a rule of its own. -/
namespace Dcpu

open Stateful

namespace Opcode

def hasExcess : Opcode → Bool
  | operate op => op.hasExcess
  | jsr | test _ => false

/-- How far the registers I and J move. -/
def stride : Opcode → Word
  | operate op => op.stride
  | jsr | test _ => 0

end Opcode

/-- Only a source takes from the stack, and only a destination puts something there. -/
theorem Instruction.stackShift_of_encode {i : Instruction} {words : List Word}
    (h : i.encode = .ok words) : i.stackShift =
      (if i.a = .pop then 1 else 0) - (if i.b = some .push then 1 else 0) := by
  obtain ⟨ha, ⟨-, hb⟩ | ⟨-, o, hb, ho, -⟩⟩ := exists_encode_iff.1 ⟨words, h⟩
  · rw [stackShift, hb]
    cases hia : i.a <;> simp [hia, Operand.stackShift] at ha ⊢
  · rw [stackShift, hb]
    have hpop : (1 : Word) + -1 = 0 := rfl
    cases hia : i.a <;> cases o <;> simp_all [Operand.stackShift]

namespace Machine

/-- The machines in which an instruction that was fetched can come to its end. -/
inductive Completes (m : Machine) : Instruction → Machine → Prop
  | call (a : Operand) : Completes m ⟨.jsr, none, a⟩
      (call { m with sp := m.sp + a.stackShift } (m.fetch a).2.1)
  | operate (op : Operation) (b a : Operand) : Completes m ⟨.operate op, some b, a⟩
      (operate { m with sp := m.sp + (a.stackShift + b.stackShift) } op
        (Processor.place { m.toProcessor with sp := m.sp + a.stackShift } b)
        (m.values b a).1 (m.values b a).2)
  | pass (c : Condition) (b a : Operand)
      (hc : c.holds (m.values b a).1 (m.values b a).2 = true) : Completes m ⟨.test c, some b, a⟩
      { m with sp := m.sp + (a.stackShift + b.stackShift) }
  | skip (c : Condition) (b a : Operand) (next : Instruction)
      (hc : c.holds (m.values b a).1 (m.values b a).2 = false)
      (hnext : m.memory.instructionAt m.pc = .ok next) : Completes m ⟨.test c, some b, a⟩
      { m with pc := m.pc + next.size, sp := m.sp + (a.stackShift + b.stackShift) }

theorem values_eq (m : Machine) (b a : Operand) : m.values b a =
    ((fetch { m with sp := m.sp + a.stackShift } b).2.1, (m.fetch a).2.1) := by
  rw [← fetch_machine]
  rfl

/-- The place of a destination, found after the source has moved SP. -/
def destination (m : Machine) (b a : Operand) : Place :=
  Processor.place { m.toProcessor with sp := m.sp + a.stackShift } b

theorem execute_operate (m : Machine) (op : Operation) (b a : Operand) :
    execute ⟨.operate op, some b, a⟩ m =
      .ok () (operate { m with sp := m.sp + (a.stackShift + b.stackShift) } op
        (m.destination b a) (m.values b a).1 (m.values b a).2) := by
  rw [values_eq]
  simp only [execute, fetch_machine, UInt16.add_assoc]
  rfl

theorem completes_of_execute {m m' : Machine} {i : Instruction} (h : execute i m = .ok () m') :
    Completes m i m' := by
  obtain ⟨opcode, b, a⟩ := i
  cases opcode with
  | jsr =>
    cases b with
    | some b => cases h
    | none =>
      simp only [execute, fetch_machine] at h
      cases h
      exact .call a
  | operate op =>
    cases b with
    | none => cases h
    | some b =>
      rw [execute_operate] at h
      cases h
      exact .operate op b a
  | test c =>
    cases b with
    | none => cases h
    | some b =>
      by_cases hs : m.Skips ⟨.test c, some b, a⟩
      · rw [execute_of_skips hs] at h
        obtain ⟨c, b, ⟨⟩, ⟨⟩, hc⟩ := hs
        cases hnext : m.memory.instructionAt m.pc with
        | error e =>
          rw [hnext] at h
          cases h
        | ok next =>
          rw [hnext] at h
          cases h
          rw [Memory.nextAddress, hnext]
          exact .skip c b a next hc hnext
      · have hc : c.holds (m.values b a).1 (m.values b a).2 = true := by
          rw [← Bool.not_eq_false]
          exact fun hc => hs ⟨c, b, rfl, rfl, hc⟩
        simp only [execute, fetch_machine, UInt16.add_assoc] at h
        rw [values_eq] at hc
        rw [if_pos hc] at h
        cases h
        rw [← values_eq] at hc
        exact .pass c b a hc

/-- The machine once PC has passed an instruction. -/
def past (m : Machine) (i : Instruction) : Machine := { m with pc := m.pc + i.size }

/-- The word that an operation computes for its destination, if the destination is among those that
are asked for. Calls and conditions compute none. -/
def assigned? (m : Machine) (i : Instruction) (asked : Operand → Bool) : Option Word :=
  match i.opcode, i.b with
  | .operate op, some b =>
    if asked b then some (op.eval m.ex (m.values b i.a).1 (m.values b i.a).2).1 else none
  | _, _ => none

/-- The excess word of an operation that has one. -/
def excess? (m : Machine) (i : Instruction) : Option Word :=
  match i.opcode, i.b with
  | .operate op, some b => (op.eval m.ex (m.values b i.a).1 (m.values b i.a).2).2
  | _, _ => none

/-- The machine `m'` differs from `m` in what the instruction at PC changes, and in nothing else.
Operands are read with PC behind the instruction, the source first. -/
structure Frame (m : Machine) (i : Instruction) (m' : Machine) : Prop where
  /-- A call leaves the way back on top of the stack, and an operation its result in the cell that
  the destination names once both operands have moved SP. -/
  memory : ∀ x, m'.memory.read x =
    if i.opcode = .jsr ∧ x = m'.sp then m.pc + i.size
    else ((m.past i).assigned? i (·.cell? m.registers (m.sp + i.stackShift) = some x)).getD
      (m.memory.read x)
  sp : m'.sp = ((m.past i).assigned? i (· = .sp)).getD
    (m.sp + (if i.a = .pop then 1 else 0) - (if i.b = some .push then 1 else 0) -
      (if i.opcode = .jsr then 1 else 0))
  pc_call : i.opcode = .jsr → m'.pc = ((m.past i).fetch i.a).2.1
  pc_skip : (m.past i).Skips i → ∃ next,
    m.memory.instructionAt (m.pc + i.size) = .ok next ∧ m'.pc = m.pc + i.size + next.size
  pc : i.opcode ≠ .jsr → ¬ (m.past i).Skips i →
    m'.pc = ((m.past i).assigned? i (· = .pc)).getD (m.pc + i.size)
  /-- The excess word is what stays in EX, even if EX is the destination too. -/
  ex_excess : i.opcode.hasExcess = true → (m.past i).excess? i = some m'.ex
  ex : i.opcode.hasExcess = false → m'.ex = ((m.past i).assigned? i (· = .ex)).getD m.ex
  register : ∀ r, m'.register r = ((m.past i).assigned? i (· = .register r)).getD (m.register r) +
    if r = .i ∨ r = .j then i.opcode.stride else 0

theorem getD_assigned?_operate (m : Machine) (op : Operation) (b a : Operand)
    (asked : Operand → Bool) (kept : Word) :
    (m.assigned? ⟨.operate op, some b, a⟩ asked).getD kept =
      if asked b then (op.eval m.ex (m.values b a).1 (m.values b a).2).1 else kept := by
  simp only [assigned?]
  split <;> rfl

/-- The move of SP by the operands, in the terms of the stack. -/
theorem sp_add_stackShift {i : Instruction} {words : List Word} (m : Machine)
    (h : i.encode = .ok words) : m.sp + i.stackShift =
      m.sp + (if i.a = .pop then 1 else 0) - (if i.b = some .push then 1 else 0) := by
  rw [Instruction.stackShift_of_encode h, UInt16.sub_eq_add_neg, UInt16.sub_eq_add_neg,
    UInt16.add_assoc]

section Frame

variable {m : Machine} {words : List Word} {a b : Operand}

theorem frame_call (he : Instruction.encode ⟨.jsr, none, a⟩ = .ok words) :
    Frame m ⟨.jsr, none, a⟩ (call { m.past ⟨.jsr, none, a⟩ with sp := m.sp + a.stackShift }
      ((m.past ⟨.jsr, none, a⟩).fetch a).2.1) := by
  have hsp := m.sp_add_stackShift he
  constructor
  case memory =>
    intro x
    simp [call, push, Processor.growStack, Memory.read_write, past, assigned?, eq_comm]
  case sp => simpa [call, push, Processor.growStack, assigned?, Instruction.stackShift] using hsp
  case pc_call => exact fun _ => rfl
  case pc_skip =>
    intro h
    obtain ⟨_, _, hc, -⟩ := h
    cases hc
  case pc => exact fun h => absurd rfl h
  case ex_excess =>
    intro h
    cases h
  case ex => exact fun _ => rfl
  case register =>
    intro r
    simp [call, push, Processor.growStack, past, assigned?, register, Opcode.stride]

theorem frame_test {c : Condition} {pc : Word}
    (he : Instruction.encode ⟨.test c, some b, a⟩ = .ok words)
    (hskip : (m.past ⟨.test c, some b, a⟩).Skips ⟨.test c, some b, a⟩ → ∃ next,
      m.memory.instructionAt (m.pc + Instruction.size ⟨.test c, some b, a⟩) = .ok next ∧
        pc = m.pc + Instruction.size ⟨.test c, some b, a⟩ + next.size)
    (hpass : ¬ (m.past ⟨.test c, some b, a⟩).Skips ⟨.test c, some b, a⟩ →
      pc = m.pc + Instruction.size ⟨.test c, some b, a⟩) :
    Frame m ⟨.test c, some b, a⟩
      { m with pc := pc, sp := m.sp + (a.stackShift + b.stackShift) } := by
  have hsp := m.sp_add_stackShift he
  constructor
  case memory =>
    intro x
    simp [assigned?]
  case sp => simpa [assigned?, Instruction.stackShift] using hsp
  case pc_call =>
    intro h
    cases h
  case pc_skip => exact hskip
  case pc => exact fun _ h => hpass h
  case ex_excess =>
    intro h
    cases h
  case ex => exact fun _ => rfl
  case register =>
    intro r
    simp [assigned?, register, Opcode.stride]

theorem frame_operate {op : Operation}
    (he : Instruction.encode ⟨.operate op, some b, a⟩ = .ok words) :
    Frame m ⟨.operate op, some b, a⟩
      (operate { m.past ⟨.operate op, some b, a⟩ with sp := m.sp + (a.stackShift + b.stackShift) }
        op (Processor.place { (m.past ⟨.operate op, some b, a⟩).toProcessor with
          sp := m.sp + a.stackShift } b)
        ((m.past ⟨.operate op, some b, a⟩).values b a).1
        ((m.past ⟨.operate op, some b, a⟩).values b a).2) := by
  have hsp := m.sp_add_stackShift he
  constructor
  case memory =>
    intro x
    simp only [memory_operate, getD_assigned?_operate, Processor.place_eq_cell_iff,
      UInt16.add_assoc, decide_eq_true_eq, reduceCtorEq, false_and, if_false]
    rfl
  case sp =>
    simp only [sp_operate, getD_assigned?_operate, Processor.place_eq_sp_iff, decide_eq_true_eq,
      reduceCtorEq, if_false, UInt16.sub_zero, ← hsp]
    rfl
  case pc_call =>
    intro h
    cases h
  case pc_skip =>
    intro h
    obtain ⟨_, _, hc, -⟩ := h
    cases hc
  case pc =>
    intro _ _
    simp only [pc_operate, getD_assigned?_operate, Processor.place_eq_pc_iff, decide_eq_true_eq]
    rfl
  case ex_excess =>
    intro h
    rw [← ex_operate_of_hasExcess _ _ _ _ _ h]
    rfl
  case ex =>
    intro h
    rw [ex_operate_of_not_hasExcess _ _ _ _ _ h]
    simp only [getD_assigned?_operate, Processor.place_eq_ex_iff, decide_eq_true_eq]
    rfl
  case register =>
    intro r
    simp only [register_operate, getD_assigned?_operate, Processor.place_eq_register_iff,
      decide_eq_true_eq]
    rfl

end Frame

theorem frame_of_completes {m m' : Machine} {i : Instruction} {words : List Word}
    (he : i.encode = .ok words) (h : Completes (m.past i) i m') : Frame m i m' := by
  cases h with
  | call a => exact frame_call he
  | operate op b a => exact frame_operate he
  | pass c b a hc =>
    refine frame_test he (fun hs => ?_) fun _ => rfl
    obtain ⟨_, _, ⟨⟩, ⟨⟩, hc'⟩ := hs
    rw [hc] at hc'
    cases hc'
  | skip c b a next hc hnext =>
    exact frame_test he (fun _ => ⟨next, hnext, rfl⟩) fun hs => absurd ⟨c, b, rfl, rfl, hc⟩ hs

/-- Only the top of the stack after a call, or the cell of an operation's destination, changes. -/
theorem Frame.cell_of_read_ne {m m' : Machine} {i : Instruction} {x : Word} (h : Frame m i m')
    (hx : m'.memory.read x ≠ m.memory.read x) : i.opcode = .jsr ∧ x = m'.sp ∨
      ∃ op b, i.opcode = .operate op ∧ i.b = some b ∧
        b.cell? m.registers (m.sp + i.stackShift) = some x := by
  by_cases hcall : i.opcode = .jsr ∧ x = m'.sp
  · exact Or.inl hcall
  · right
    rw [h.memory x, if_neg hcall] at hx
    unfold assigned? at hx
    split at hx
    · next op b ho hb =>
      split at hx
      · next hcell => exact ⟨op, b, ho, hb, of_decide_eq_true hcell⟩
      · exact absurd rfl hx
    · exact absurd rfl hx

theorem Frame.eq_of_read_ne {m m' : Machine} {i : Instruction} {x y : Word} (h : Frame m i m')
    (hx : m'.memory.read x ≠ m.memory.read x) (hy : m'.memory.read y ≠ m.memory.read y) :
    x = y := by
  obtain ⟨ho, rfl⟩ | ⟨op, b, ho, hb, hcell⟩ := h.cell_of_read_ne hx <;>
    obtain ⟨ho', rfl⟩ | ⟨op', b', ho', hb', hcell'⟩ := h.cell_of_read_ne hy
  · rfl
  · cases ho.symm.trans ho'
  · cases ho.symm.trans ho'
  · cases hb.symm.trans hb'
    exact Option.some.inj (hcell.symm.trans hcell')

theorem execute_of_step {m m' : Machine} {i : Instruction} (h : step m = .ok i m') :
    m.memory.instructionAt m.pc = .ok i ∧ execute i (m.past i) = .ok () m' := by
  cases hj : m.memory.instructionAt m.pc with
  | error e =>
    rw [step_of_instructionAt_eq_error hj] at h
    cases h
  | ok j =>
    have hpast : { m with pc := m.memory.nextAddress m.pc } = m.past j := by
      rw [Memory.nextAddress, hj, past]
    rw [step_of_instructionAt_eq_ok hj, hpast] at h
    cases hx : execute j (m.past j) with
    | ok _ n =>
      rw [map_of_ok hx] at h
      cases h
      exact ⟨rfl, hx⟩
    | error e n =>
      rw [map_of_error hx] at h
      cases h

/-- A step that succeeds changes what its instruction says, and nothing else: above all, at most one
cell of memory. -/
theorem frame_of_step {m m' : Machine} {i : Instruction} (h : step m = .ok i m') :
    Frame m i m' ∧ ∀ x y, m'.memory.read x ≠ m.memory.read x →
      m'.memory.read y ≠ m.memory.read y → x = y := by
  obtain ⟨hi, hx⟩ := execute_of_step h
  obtain ⟨-, words, he, -⟩ := Memory.instructionAt_eq_ok_iff.1 hi
  have hframe := frame_of_completes he (completes_of_execute hx)
  exact ⟨hframe, fun _ _ => hframe.eq_of_read_ne⟩

/-- The top of the stack is taken off, doubled and put back. -/
theorem frame_of_double :
    let m : Machine := { Processor.initial with sp := 2, memory := .ofList [0x6302, 0, 7] }
    let m' : Machine := { m with pc := 1, memory := m.memory.write 2 14 }
    step m = .ok ⟨.operate .add, some .push, .pop⟩ m' ∧
      Frame m ⟨.operate .add, some .push, .pop⟩ m' ∧
      ∀ x y, m'.memory.read x ≠ m.memory.read x → m'.memory.read y ≠ m.memory.read y → x = y := by
  intro m m'
  have hstep : step m = .ok ⟨.operate .add, some .push, .pop⟩ m' := by
    have hcode : m.memory.Holds m.pc [0x6302] := by
      simp [Memory.Holds, m, Memory.read_ofList, Processor.initial]
    obtain ⟨hi, hnext⟩ := Memory.instructionAt_of_encode
      (i := ⟨.operate .add, some .push, .pop⟩) rfl hcode
    have htop : m.memory.read 2 = 7 := by simp [m, Memory.read_ofList]
    have hsp : (2 : Word) + 1 - 1 = 2 := rfl
    have hindices : (m.registers.set .i 0).set .j 0 = m.registers := by decide
    have hx : execute ⟨.operate .add, some .push, .pop⟩ { m with pc := 1 } = .ok () m' := by
      change EStateM.Result.ok () (operate { m with pc := 1, sp := 2 + 1 - 1 } .add
        (.cell (2 + 1 - 1)) (m.memory.read (2 + 1 - 1)) (m.memory.read 2)) = _
      rw [hsp, htop]
      change EStateM.Result.ok () { m' with registers := (m.registers.set .i 0).set .j 0 } = _
      rw [hindices]
    rw [step_of_instructionAt_eq_ok hi, hnext]
    exact map_of_ok hx
  exact ⟨hstep, frame_of_step hstep⟩

end Machine

end Dcpu
