import Dcpu.Proofs.Machine.Frame

/-! Why an instruction fails. Its shape is looked at before anything is done, so that a malformed one
leaves the machine alone. What is well-formed fails only as a condition that passes over a word with
which no instruction begins; then PC is behind that word, and the operands have moved SP. -/
namespace Dcpu

theorem Opcode.exists_operate {o : Opcode} (hcall : o ≠ jsr) (htest : o.isConditional = false) :
    ∃ op, o = operate op := by
  cases o with
  | jsr => exact absurd rfl hcall
  | operate op => exact ⟨op, rfl⟩
  | test c => cases htest

theorem Instruction.wellFormed_iff {i : Instruction} :
    i.WellFormed ↔ (i.opcode = .jsr ↔ i.b = none) := by
  rw [WellFormed, Bool.eq_iff_iff, Opcode.isSpecial_iff, Option.isNone_iff_eq_none]

theorem Instruction.not_wellFormed_iff {i : Instruction} :
    ¬ i.WellFormed ↔ i.opcode = .jsr ∧ i.b ≠ none ∨ i.opcode ≠ .jsr ∧ i.b = none := by
  rw [wellFormed_iff]
  by_cases ho : i.opcode = .jsr <;> simp [ho]

namespace Machine

theorem execute_of_not_wellFormed {i : Instruction} (h : ¬ i.WellFormed) (m : Machine) :
    execute i m = .error (.malformed i) m := by
  obtain ⟨opcode, b, a⟩ := i
  cases opcode <;> cases b
  case jsr.some | operate.none | test.none => rfl
  all_goals exact absurd rfl h

/-- The machine in which passing over a word fails. -/
def stranded (m : Machine) (i : Instruction) : Machine :=
  { m with pc := m.pc + 1, sp := m.sp + i.stackShift }

theorem execute_of_skips_error {m : Machine} {i : Instruction} {e : DecodeError} (h : m.Skips i)
    (he : Instruction.ofWord (m.memory.read m.pc) = .error e) :
    execute i m = .error (.illegal e) (m.stranded i) := by
  have hnone : m.memory.instructionAt m.pc = .error e := Memory.instructionAt_eq_error_iff.2 he
  rw [execute_of_skips h, Memory.nextAddress, hnone]
  rfl

theorem exists_execute_of_skips_ok {m : Machine} {i : Instruction} (h : m.Skips i)
    (hnext : ∀ e, Instruction.ofWord (m.memory.read m.pc) ≠ .error e) :
    ∃ m', execute i m = .ok () m' := by
  rw [execute_of_skips h]
  cases hi : m.memory.instructionAt m.pc with
  | ok next => exact ⟨_, rfl⟩
  | error e => exact absurd (Memory.instructionAt_eq_error_iff.1 hi) (hnext e)

/-- The three ways in which an instruction can end, of which each excludes the others. -/
theorem execute_cases (i : Instruction) (m : Machine) :
    (¬ i.WellFormed ∧ execute i m = .error (.malformed i) m) ∨
    (∃ e, m.Skips i ∧ Instruction.ofWord (m.memory.read m.pc) = .error e ∧
      execute i m = .error (.illegal e) (m.stranded i)) ∨
    (i.WellFormed ∧ ¬ (m.Skips i ∧ ∃ e, Instruction.ofWord (m.memory.read m.pc) = .error e) ∧
      ∃ m', execute i m = .ok () m') := by
  by_cases hi : i.WellFormed
  · right
    by_cases hs : m.Skips i
    · by_cases hbad : ∃ e, Instruction.ofWord (m.memory.read m.pc) = .error e
      · obtain ⟨e, he⟩ := hbad
        exact Or.inl ⟨e, hs, he, execute_of_skips_error hs he⟩
      · exact Or.inr ⟨hi, fun h => hbad h.2,
          exists_execute_of_skips_ok hs fun e he => hbad ⟨e, he⟩⟩
    · exact Or.inr ⟨hi, fun h => hs h.1, exists_execute_of_not_skips hi hs⟩
  · exact Or.inl ⟨hi, execute_of_not_wellFormed hi m⟩

theorem execute_eq_malformed_iff {i j : Instruction} {m m' : Machine} :
    execute i m = .error (.malformed j) m' ↔ ¬ i.WellFormed ∧ j = i ∧ m' = m := by
  constructor
  · intro h
    obtain ⟨hi, hx⟩ | ⟨e, -, -, hx⟩ | ⟨-, -, n, hx⟩ := execute_cases i m <;> rw [hx] at h <;> cases h
    exact ⟨hi, rfl, rfl⟩
  · intro h
    obtain ⟨hi, rfl, rfl⟩ := h
    exact execute_of_not_wellFormed hi m'

theorem execute_eq_illegal_iff {i : Instruction} {m m' : Machine} {e : DecodeError} :
    execute i m = .error (.illegal e) m' ↔ m.Skips i ∧
      Instruction.ofWord (m.memory.read m.pc) = .error e ∧ m' = m.stranded i := by
  constructor
  · intro h
    obtain ⟨-, hx⟩ | ⟨e', hs, he, hx⟩ | ⟨-, -, n, hx⟩ := execute_cases i m <;> rw [hx] at h <;>
      cases h
    exact ⟨hs, he, rfl⟩
  · intro h
    obtain ⟨hs, he, rfl⟩ := h
    exact execute_of_skips_error hs he

theorem exists_execute_iff {i : Instruction} {m : Machine} :
    (∃ m', execute i m = .ok () m') ↔ i.WellFormed ∧
      ¬ (m.Skips i ∧ ∃ e, Instruction.ofWord (m.memory.read m.pc) = .error e) := by
  obtain ⟨hi, hx⟩ | ⟨e, hs, he, hx⟩ | ⟨hi, hok, n, hx⟩ := execute_cases i m
  · simp [hx, hi]
  · simp [hx, hs, he]
  · exact iff_of_true ⟨n, hx⟩ ⟨hi, hok⟩

/-- A shape that does not fit the opcode is found before the machine has changed. Beyond that only a
condition that does not hold can fail, namely where no instruction follows; then PC has passed one
word, and SP has moved as the operands say. Everything else succeeds: with a destination, whatever is
neither a call nor a condition is an operation. -/
theorem execute_outcomes (i : Instruction) (m : Machine) :
    (∀ j m', execute i m = .error (.malformed j) m' ↔
      (i.opcode = .jsr ∧ i.b ≠ none ∨ i.opcode ≠ .jsr ∧ i.b = none) ∧ j = i ∧ m' = m) ∧
    (∀ e m', execute i m = .error (.illegal e) m' ↔ m.Skips i ∧
      Instruction.ofWord (m.memory.read m.pc) = .error e ∧
        m' = { m with pc := m.pc + 1, sp := m.sp + i.stackShift }) ∧
    ((∃ m', execute i m = .ok () m') ↔ (i.opcode = .jsr ↔ i.b = none) ∧
      ¬ (m.Skips i ∧ ∃ e, Instruction.ofWord (m.memory.read m.pc) = .error e)) ∧
    ∀ b, i.b = some b → i.opcode ≠ .jsr → i.opcode.isConditional = false →
      ∃ op, i.opcode = .operate op ∧ execute i m =
        .ok () (operate { m with sp := m.sp + i.stackShift } op (m.destination b i.a)
          (m.values b i.a).1 (m.values b i.a).2) := by
  refine ⟨fun j m' => ?_, fun e m' => execute_eq_illegal_iff, ?_, fun b hb hcall htest => ?_⟩
  · rw [execute_eq_malformed_iff, Instruction.not_wellFormed_iff]
  · rw [exists_execute_iff, Instruction.wellFormed_iff]
  · obtain ⟨op, hop⟩ := Opcode.exists_operate hcall htest
    obtain ⟨opcode, b?, a⟩ := i
    obtain rfl : opcode = .operate op := hop
    obtain rfl : b? = some b := hb
    exact ⟨op, rfl, execute_operate m op b a⟩

/-- An empty memory holds no instruction to pass over, but the operand is popped all the same. -/
theorem execute_outcomes_of_pop :
    let i : Instruction := ⟨.test .ifn, some (.register .a), .pop⟩
    let m : Machine := { toProcessor := .initial, memory := .ofList [] }
    m.Skips i ∧ execute i m = .error (.illegal (.specialOpcode 0)) { m with pc := 1, sp := 0 } := by
  intro i m
  have hzero (x : Word) : m.memory.read x = 0 := by simp [m, Memory.read_ofList]
  have hskips : m.Skips i := by
    refine ⟨.ifn, .register .a, rfl, rfl, ?_⟩
    change (0 != m.memory.read 0xffff) = false
    rw [hzero]
    rfl
  have hbad : Instruction.ofWord (m.memory.read m.pc) = .error (.specialOpcode 0) := by
    rw [hzero]
    rfl
  have hsp : m.sp + i.stackShift = 0 := by decide
  have hfails := ((execute_outcomes i m).2.1 _ _).2 ⟨hskips, hbad, rfl⟩
  rw [hsp] at hfails
  exact ⟨hskips, hfails⟩

end Machine

end Dcpu
