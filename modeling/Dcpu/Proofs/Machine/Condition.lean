import Dcpu.Proofs.Arithmetic.Width
import Dcpu.Proofs.Machine.Outcome
import Mathlib.Logic.ExistsUnique

/-! The conditions against one another. Between the same operands they sort all cases into pairs and
threes of which one condition holds and the others do not, and on every machine their runs differ in
PC alone: either the next instruction runs, or PC is behind it. -/
namespace Dcpu

/-- The bit that is set in the words whose signed reading is negative. -/
def Word.signBit (w : Word) : Bool := w.toBitVec.msb

namespace Condition

/-- Conditions of which one holds at a time. -/
def groups : List (List Condition) := [[ife, ifn], [ifb, ifc], [ifl, ife, ifg], [ifu, ife, ifa]]

/-- The signed order is the other one turned around where the sign bits differ. -/
theorem holds_ifu (b a : Word) :
    ifu.holds b a = ((b.signBit != a.signBit) ^^ ifl.holds b a) :=
  BitVec.slt_eq_ult

theorem holds_ifa (b a : Word) :
    ifa.holds b a = ((b.signBit != a.signBit) ^^ ifg.holds b a) := by
  rw [bne_comm]
  exact holds_ifu a b

theorem existsUnique_of_not {p q : Condition} {b a : Word} (h : p.holds b a = !q.holds b a) :
    ∃! c, c ∈ [p, q] ∧ c.holds b a = true := by
  cases hq : q.holds b a with
  | true => exact ⟨q, by simp [hq], by grind⟩
  | false => exact ⟨p, by simp [h, hq], by grind⟩

/-- Of two words with different readings as numbers one is the lower. -/
theorem existsUnique_of_order {lower upper : Condition} {reading : Word → Int}
    (hinj : ∀ {b a}, reading b = reading a ↔ b = a)
    (hlower : ∀ b a, lower.holds b a = decide (reading b < reading a))
    (hupper : ∀ b a, upper.holds b a = decide (reading a < reading b)) (b a : Word) :
    ∃! c, c ∈ [lower, ife, upper] ∧ c.holds b a = true := by
  have hequal : ife.holds b a = decide (reading b = reading a) := by
    rw [Bool.eq_iff_iff, decide_eq_true_iff, hinj]
    exact beq_iff_eq
  obtain h | h | h := Int.lt_trichotomy (reading b) (reading a)
  · exact ⟨lower, by simp [hlower, h], by grind⟩
  · exact ⟨ife, by simp [hequal, h], by grind⟩
  · exact ⟨upper, by simp [hupper, h], by grind⟩

/-- In each group one condition holds, and only one. -/
theorem existsUnique_holds {group : List Condition} (h : group ∈ groups) (b a : Word) :
    ∃! c, c ∈ group ∧ c.holds b a = true := by
  simp only [groups, List.mem_cons, List.not_mem_nil, or_false] at h
  obtain rfl | rfl | rfl | rfl := h
  · have hnot : ife.holds b a = !ifn.holds b a := (Bool.not_not _).symm
    exact existsUnique_of_not hnot
  · exact existsUnique_of_not rfl
  · have hinj {b a : Word} : (b.toNat : Int) = a.toNat ↔ b = a := by
      rw [Int.ofNat_inj, UInt16.toNat_inj]
    have hlower (b a : Word) : ifl.holds b a = decide ((b.toNat : Int) < a.toNat) := by
      rw [holds, decide_eq_decide, Int.ofNat_lt, UInt16.lt_iff_toNat_lt]
    exact existsUnique_of_order hinj hlower (fun b a => hlower a b) b a
  · exact existsUnique_of_order Word.signed_inj (fun _ _ => rfl) (fun _ _ => rfl) b a

end Condition

theorem Instruction.size_ne_zero (i : Instruction) : i.size ≠ 0 := by
  intro h
  have hsize := i.toNat_size
  rw [h] at hsize
  cases hsize

namespace Machine

/-- Testing the condition between the operands lets the next instruction run: the test comes to its
end, and PC has not moved. -/
def LetsRun (m : Machine) (b a : Operand) (c : Condition) : Prop :=
  ∃ m', execute ⟨.test c, some b, a⟩ m = .ok () m' ∧ m'.pc = m.pc

/-- The machine once the operands have been read. -/
def afterOperands (m : Machine) (b a : Operand) : Machine :=
  { m with sp := m.sp + (a.stackShift + b.stackShift) }

section Test

variable (m : Machine) (b a : Operand) (c : Condition)

theorem execute_test_of_holds (h : c.holds (m.values b a).1 (m.values b a).2 = true) :
    execute ⟨.test c, some b, a⟩ m = .ok () (m.afterOperands b a) := by
  simp only [values, fetch_machine] at h
  simp only [execute, fetch_machine, h, if_true, UInt16.add_assoc]
  rfl

theorem execute_test_of_not_holds (h : c.holds (m.values b a).1 (m.values b a).2 = false) :
    execute ⟨.test c, some b, a⟩ m = match m.memory.instructionAt m.pc with
      | .ok next => .ok () { m.afterOperands b a with pc := m.pc + next.size }
      | .error e => .error (.illegal e) { m.afterOperands b a with pc := m.pc + 1 } := by
  have hskips : m.Skips ⟨.test c, some b, a⟩ := ⟨c, b, rfl, rfl, h⟩
  rw [execute_of_skips hskips, Memory.nextAddress]
  cases m.memory.instructionAt m.pc <;> rfl

theorem letsRun_iff_holds :
    m.LetsRun b a c ↔ c.holds (m.values b a).1 (m.values b a).2 = true := by
  constructor
  · intro h
    obtain ⟨m', hx, hpc⟩ := h
    by_contra hc
    rw [Bool.not_eq_true] at hc
    rw [execute_test_of_not_holds m b a c hc] at hx
    cases hnext : m.memory.instructionAt m.pc with
    | error e =>
      rw [hnext] at hx
      cases hx
    | ok next =>
      rw [hnext] at hx
      cases hx
      exact next.size_ne_zero (UInt16.add_eq_left.1 hpc)
  · intro h
    exact ⟨_, execute_test_of_holds m b a c h, rfl⟩

end Test

/-- Of conditions that exclude one another, one lets the next instruction run. Signed and unsigned
order decide alike where the sign bits of the values agree, and otherwise not. All eight tests leave
the same machine behind but for PC, which stays if the condition holds; if not, it passes one
instruction, of whatever kind, or all fail at the word there. -/
theorem conditions_partition (m : Machine) (b a : Operand) :
    (∀ group ∈ Condition.groups, ∃! c, c ∈ group ∧ m.LetsRun b a c) ∧
    ((m.values b a).1.signBit = (m.values b a).2.signBit →
      (m.LetsRun b a .ifa ↔ m.LetsRun b a .ifg) ∧ (m.LetsRun b a .ifu ↔ m.LetsRun b a .ifl)) ∧
    ((m.values b a).1.signBit ≠ (m.values b a).2.signBit →
      (m.LetsRun b a .ifa ↔ ¬ m.LetsRun b a .ifg) ∧ (m.LetsRun b a .ifu ↔ ¬ m.LetsRun b a .ifl)) ∧
    (∀ c, m.LetsRun b a c → execute ⟨.test c, some b, a⟩ m = .ok () (m.afterOperands b a)) ∧
    ((∃ next, m.memory.instructionAt m.pc = .ok next ∧ ∀ c, ¬ m.LetsRun b a c →
        execute ⟨.test c, some b, a⟩ m =
          .ok () { m.afterOperands b a with pc := m.pc + next.size }) ∨
      ∃ e, m.memory.instructionAt m.pc = .error e ∧ ∀ c, ¬ m.LetsRun b a c →
        execute ⟨.test c, some b, a⟩ m =
          .error (.illegal e) { m.afterOperands b a with pc := m.pc + 1 }) := by
  simp only [letsRun_iff_holds, Bool.not_eq_true]
  refine ⟨fun group hgroup => Condition.existsUnique_holds hgroup _ _, fun hsign => ?_,
    fun hsign => ?_, m.execute_test_of_holds b a, ?_⟩
  · rw [Condition.holds_ifa, Condition.holds_ifu, hsign, bne_self_eq_false, Bool.false_xor,
      Bool.false_xor]
    exact ⟨Iff.rfl, Iff.rfl⟩
  · rw [Condition.holds_ifa, Condition.holds_ifu, bne_iff_ne.2 hsign]
    simp
  · have hfails := m.execute_test_of_not_holds b a
    cases hnext : m.memory.instructionAt m.pc with
    | ok next =>
      rw [hnext] at hfails
      exact Or.inl ⟨next, rfl, hfails⟩
    | error e =>
      rw [hnext] at hfails
      exact Or.inr ⟨e, rfl, hfails⟩

end Machine

end Dcpu
