import Dcpu.Machine.Run
import Dcpu.Proofs.Reading.Memory

/-! What one instruction comes to. Only a condition that does not hold can fail, and it does so
exactly where no instruction follows; a listing of memory tells all of this beforehand. -/
namespace Dcpu

open Stateful

namespace Operand

/-- How far an operand moves SP. -/
def stackShift : Operand → Word
  | push => -1
  | pop => 1
  | register _ | indirect _ | indexed _ _ | peek | pick _ | sp | pc | ex | absolute _ | immediate _
  | literal _ => 0

end Operand

namespace Instruction

/-- How far the operands of an instruction move SP. -/
def stackShift (i : Instruction) : Word :=
  i.a.stackShift + match i.b with
    | some b => b.stackShift
    | none => 0

/-- There is a destination exactly if the opcode takes one. -/
def WellFormed (i : Instruction) : Prop := i.opcode.isSpecial = i.b.isNone

theorem wellFormed_of_encode {i : Instruction} {words : List Word} (h : i.encode = .ok words) :
    i.WellFormed := by
  obtain ⟨a, x, -, ⟨hs, hb, -⟩ | ⟨hs, o, b, y, hb, -, -⟩⟩ := encode_eq_ok_iff.1 h
  · simp [WellFormed, hs, hb]
  · simp [WellFormed, hs, hb]

end Instruction

theorem Memory.wellFormed_of_instructionAt {m : Memory} {address : Word} {i : Instruction}
    (h : m.instructionAt address = .ok i) : i.WellFormed := by
  obtain ⟨-, words, he, -⟩ := instructionAt_eq_ok_iff.1 h
  exact Instruction.wellFormed_of_encode he

namespace Machine

/-- Fetching an operand moves SP and nothing else. -/
theorem fetch_machine (m : Machine) (o : Operand) :
    (m.fetch o).2.2 = { m with sp := m.sp + o.stackShift } := by
  cases o <;> simp [fetch, Processor.locate, Processor.growStack, Processor.shrinkStack,
    Operand.stackShift, UInt16.sub_eq_add_neg]

/-- The values of a destination and of a source, of which the source is read first. -/
def values (m : Machine) (b a : Operand) : Word × Word :=
  let (_, source, m) := m.fetch a
  let (_, value, _) := m.fetch b
  (value, source)

/-- Executing `i` passes over the instruction at PC: `i` tests a condition that does not hold. -/
def Skips (m : Machine) (i : Instruction) : Prop :=
  ∃ c b, i.opcode = .test c ∧ i.b = some b ∧ c.holds (m.values b i.a).1 (m.values b i.a).2 = false

theorem execute_of_skips {m : Machine} {i : Instruction} (h : m.Skips i) :
    execute i m = match m.memory.instructionAt m.pc with
      | .ok _ => .ok ()
        { m with pc := m.memory.nextAddress m.pc, sp := m.sp + i.stackShift }
      | .error e => .error (.illegal e)
        { m with pc := m.memory.nextAddress m.pc, sp := m.sp + i.stackShift } := by
  obtain ⟨c, b, ho, hb, hc⟩ := h
  have ha := m.fetch_machine i.a
  rcases hfa : m.fetch i.a with ⟨p, source, n⟩
  have hn := n.fetch_machine b
  rcases hfb : n.fetch b with ⟨q, value, n'⟩
  simp only [hfa, hfb] at ha hn
  simp only [values, hfa, hfb] at hc
  simp only [execute, ho, hb, hfa, hfb, hc, Bool.false_eq_true, if_false, EStateM.adaptExcept,
    skip_eq]
  subst ha hn
  simp only [Instruction.stackShift, hb, UInt16.add_assoc]
  cases m.memory.instructionAt m.pc <;> rfl

theorem exists_execute_of_not_skips {m : Machine} {i : Instruction} (hi : i.WellFormed)
    (h : ¬ m.Skips i) : ∃ m', execute i m = .ok () m' := by
  unfold Instruction.WellFormed at hi
  cases ho : i.opcode <;> cases hb : i.b <;> rw [ho, hb] at hi <;> try cases hi
  case jsr.none => simp [execute, ho, hb]
  case operate.some op b => simp [execute, ho, hb]
  case test.some c b =>
    have hc : c.holds (m.values b i.a).1 (m.values b i.a).2 = true := by
      cases hc : c.holds (m.values b i.a).1 (m.values b i.a).2 with
      | true => rfl
      | false => exact absurd ⟨c, b, ho, hb, hc⟩ h
    simp only [values] at hc
    simp [execute, ho, hb, hc]

theorem step_of_instructionAt_eq_error {m : Machine} {e : DecodeError}
    (h : m.memory.instructionAt m.pc = .error e) :
    step m = .error (.illegal e) { m with pc := m.pc + 1 } := by
  have hload : Instruction.load m = .error e { m with pc := m.pc + 1 } := by
    rw [load_eq, h, Memory.nextAddress, h]
  exact bind_of_error (adaptExcept_of_error hload)

theorem step_of_instructionAt_eq_ok {m : Machine} {i : Instruction}
    (h : m.memory.instructionAt m.pc = .ok i) :
    step m = ((fun _ => i) <$> execute i) { m with pc := m.memory.nextAddress m.pc } := by
  have hload : Instruction.load m = .ok i { m with pc := m.memory.nextAddress m.pc } := by
    rw [load_eq, h]
  exact bind_of_ok (adaptExcept_of_ok hload)

theorem step_of_skips {m : Machine} {i : Instruction} {p : Word}
    (h : m.memory.instructionAt m.pc = .ok i) (hp : m.memory.nextAddress m.pc = p)
    (hs : Skips { m with pc := p } i) :
    step m = match m.memory.instructionAt p with
      | .ok _ => .ok i { m with pc := m.memory.nextAddress p, sp := m.sp + i.stackShift }
      | .error e => .error (.illegal e)
        { m with pc := m.memory.nextAddress p, sp := m.sp + i.stackShift } := by
  have he := execute_of_skips hs
  rw [step_of_instructionAt_eq_ok h, hp]
  cases hj : m.memory.instructionAt p with
  | ok j =>
    simp only [hj] at he
    exact map_of_ok he
  | error e =>
    simp only [hj] at he
    exact map_of_error he

theorem exists_step_of_not_skips {m : Machine} {i : Instruction}
    (h : m.memory.instructionAt m.pc = .ok i)
    (hs : ¬ Skips { m with pc := m.memory.nextAddress m.pc } i) : ∃ m', step m = .ok i m' := by
  obtain ⟨m', hm'⟩ := exists_execute_of_not_skips (Memory.wellFormed_of_instructionAt h) hs
  rw [step_of_instructionAt_eq_ok h]
  exact ⟨m', map_of_ok hm'⟩

/-- A step fails only on a word whose opcode is missing: at PC, or where it passes over the next
instruction. -/
theorem opcode_missing_of_step {m m' : Machine} {e : ExecuteError} (h : step m = .error e m') :
    ∃ code, e = .illegal (.specialOpcode code) ∨ e = .illegal (.binaryOpcode code) := by
  have hillegal {address : Word} {cause : DecodeError}
      (hcause : m.memory.instructionAt address = .error cause) :
      ∃ code, ExecuteError.illegal cause = .illegal (.specialOpcode code) ∨
        ExecuteError.illegal cause = .illegal (.binaryOpcode code) := by
    simpa using Memory.opcode_missing_of_instructionAt hcause
  cases hi : m.memory.instructionAt m.pc with
  | error cause =>
    rw [step_of_instructionAt_eq_error hi] at h
    cases h
    exact hillegal hi
  | ok i =>
    by_cases hs : Skips { m with pc := m.memory.nextAddress m.pc } i
    · rw [step_of_skips hi rfl hs] at h
      cases hj : m.memory.instructionAt (m.memory.nextAddress m.pc) with
      | ok j =>
        rw [hj] at h
        cases h
      | error cause =>
        rw [hj] at h
        cases h
        exact hillegal hj
    · obtain ⟨n, hn⟩ := exists_step_of_not_skips hi hs
      rw [hn] at h
      cases h

theorem opcode_missing_of_run {n : Nat} {m m' : Machine} {e : ExecuteError}
    (h : run n m = .error e m') :
    ∃ code, e = .illegal (.specialOpcode code) ∨ e = .illegal (.binaryOpcode code) := by
  induction n generalizing m with
  | zero => cases h
  | succ n ih =>
    obtain h | ⟨i, u, -, h⟩ := bind_eq_error_iff.1 h
    · exact opcode_missing_of_step h
    · exact ih h

/-- The first two lines of the listing from PC on tell what a step comes to: whether it fails, with
which fault, and where PC stands if it passes over an instruction. No other faults occur, in a step
or in a run: even the code of a literal cannot stand in the narrower field of the destination. -/
theorem step_predicted_by_listing (m : Machine) :
    ∃ r₀ p₁ r₁, m.memory.listing m.pc 2 = [(m.pc, r₀), (p₁, r₁)] ∧
      (∀ e, r₀ = .error e → step m = .error (.illegal e) { m with pc := m.pc + 1 }) ∧
      (∀ i, r₀ = .ok i → Skips { m with pc := p₁ } i →
        (∀ e, r₁ = .error e → step m =
          .error (.illegal e) { m with pc := p₁ + 1, sp := m.sp + i.stackShift }) ∧
        (∀ next, r₁ = .ok next → step m =
          .ok i { m with pc := p₁ + next.size, sp := m.sp + i.stackShift })) ∧
      (∀ i, r₀ = .ok i → ¬ Skips { m with pc := p₁ } i → ∃ m', step m = .ok i m') ∧
      (∀ e m', step m = .error e m' →
        ∃ code, e = .illegal (.specialOpcode code) ∨ e = .illegal (.binaryOpcode code)) ∧
      ∀ n e m', run n m = .error e m' →
        ∃ code, e = .illegal (.specialOpcode code) ∨ e = .illegal (.binaryOpcode code) := by
  refine ⟨_, _, _, by simp only [Memory.listing_succ]; rfl, ?_, ?_, ?_, ?_, ?_⟩
  · exact fun e he => step_of_instructionAt_eq_error he
  · intro i hi hs
    have hstep := step_of_skips hi rfl hs
    refine ⟨fun e he => ?_, fun next hnext => ?_⟩
    · rw [hstep, he, Memory.nextAddress, he]
    · rw [hstep, hnext, Memory.nextAddress, hnext]
  · exact fun i hi hs => exists_step_of_not_skips hi hs
  · exact fun e m' h => opcode_missing_of_step h
  · exact fun n e m' h => opcode_missing_of_run h

end Machine

end Dcpu
