import Dcpu.Proofs.Machine.Outcome
import Dcpu.Proofs.Program.Starts

/-! Machine code executed, and the instructions that it was written from. A machine with the code of
a program in its memory does what the instructions say as they were written: execution cannot tell
an instruction from its canonical form. -/
namespace Dcpu.Machine

open Program Stateful

/-- Execute the instruction of the list that starts at PC, as it was written. Nothing is read from
memory to find it; PC first moves behind its encoding. -/
def interpret? (is : List Instruction) (starts : AddressMap Nat) (m : Machine) :
    Option (EStateM.Result ExecuteError Machine Unit) := do
  let i ← is[← starts.tagAt? m.pc]?
  let words ← i.encode.toOption
  return execute i { m with pc := m.pc + UInt16.ofNat words.length }

/-- Execute the given number of instructions as they were written. -/
def interpretRun? (is : List Instruction) (starts : AddressMap Nat) :
    Nat → Machine → Option (EStateM.Result ExecuteError Machine Unit)
  | 0, m => some (.ok () m)
  | n + 1, m => do
    match ← interpret? is starts m with
    | .ok _ m' => interpretRun? is starts n m'
    | .error e m' => some (.error e m')

/-- Before each of the first `n` instructions of a run, the code stands in memory from address zero
on and PC is where an instruction of the program starts. -/
def Undisturbed (p : Tagged Nat) (n : Nat) (m : Machine) : Prop :=
  ∀ k < n, ∀ m', run k m = .ok () m' →
    m'.memory.Holds 0 p.code.toList ∧ ∃ tag, p.starts.addressOf? tag = some m'.pc

/-- A literal and the immediate of the same word are the same constant. -/
theorem fetch_canonical (m : Machine) (o : Operand) : m.fetch o.canonical = m.fetch o := by
  cases o with
  | literal w =>
    by_cases hw : Operand.isShort w
    · rw [Operand.canonical, if_pos hw]
    · rw [Operand.canonical, if_neg hw]
      rfl
  | _ => rfl

theorem execute_canonical {i : Instruction} (h : i.WellFormed) :
    execute i.canonical = execute i := by
  funext m
  obtain ⟨opcode, b, a⟩ := i
  cases opcode <;> cases b <;> try cases h
  all_goals
    simp only [execute, Instruction.canonical, fetch_canonical]

/-- A step where an encoding stands executes the instruction that was encoded. -/
theorem step_of_encode {m : Machine} {i : Instruction} {words : List Word}
    (he : i.encode = .ok words) (h : m.memory.Holds m.pc words) :
    step m = ((fun _ => i.canonical) <$> execute i)
      { m with pc := m.pc + UInt16.ofNat words.length } := by
  obtain ⟨hi, hnext⟩ := Memory.instructionAt_of_encode he h
  rw [step_of_instructionAt_eq_ok hi, hnext,
    execute_canonical (Instruction.wellFormed_of_encode he)]

/-- At a start of the program, a step executes the instruction that was written there. -/
theorem step_of_start {is : List Instruction} {p : Tagged Nat} {m : Machine} {k : Nat}
    (hp : assembleTagged is.zipIdx = .ok p) (hcode : m.memory.Holds 0 p.code.toList)
    (hk : p.starts.addressOf? k = some m.pc) :
    ∃ i words, is[k]? = some i ∧ i.encode = .ok words ∧
      step m = ((fun _ => i.canonical) <$> execute i)
        { m with pc := m.pc + UInt16.ofNat words.length } := by
  obtain ⟨i, words, before, after, hi, he, happend, haddress⟩ := places_of_addressOf? hp hk
  rw [happend, Memory.holds_append_iff, Memory.holds_append_iff, UInt16.zero_add,
    ← haddress] at hcode
  exact ⟨i, words, hi, he, step_of_encode he hcode.2.1⟩

theorem undisturbed_of_run_succ {p : Tagged Nat} {n : Nat} {m m' : Machine} {i : Instruction}
    (h : Undisturbed p (n + 1) m) (hstep : step m = .ok i m') : Undisturbed p n m' := by
  intro k hk m'' hrun
  exact h (k + 1) (Nat.succ_lt_succ hk) m'' ((bind_of_ok hstep).trans hrun)

/-- As long as the code is left alone and PC keeps to it, machine code and instructions run in
lockstep. -/
theorem interpretRun?_eq_run {is : List Instruction} {p : Tagged Nat} {n : Nat} {m : Machine}
    (hp : assembleTagged is.zipIdx = .ok p) (h : Undisturbed p n m) :
    interpretRun? is p.starts n m = some (run n m) := by
  induction n generalizing m with
  | zero => rfl
  | succ n ih =>
    obtain ⟨hcode, k, hk⟩ := h 0 (Nat.zero_lt_succ n) m rfl
    obtain ⟨i, words, hi, he, hstep⟩ := step_of_start hp hcode hk
    have htag := (AddressMap.addressOf?_eq_some_iff ..).1 hk
    have hinterpret : interpret? is p.starts m =
        some (execute i { m with pc := m.pc + UInt16.ofNat words.length }) := by
      simp [interpret?, htag, hi, he, Except.toOption]
    cases hx : execute i { m with pc := m.pc + UInt16.ofNat words.length } with
    | ok _ m' =>
      rw [map_of_ok hx] at hstep
      have hrun : run (n + 1) m = run n m' := bind_of_ok hstep
      rw [hrun, ← ih (undisturbed_of_run_succ h hstep)]
      simp [interpretRun?, hinterpret, hx]
    | error e m' =>
      rw [map_of_error hx] at hstep
      have hrun : run (n + 1) m = .error e m' := bind_of_error hstep
      rw [hrun]
      simp [interpretRun?, hinterpret, hx]

/-- Machine code does what the instructions it was written from say: in a step that begins where one
of them starts, and in a run of any length that keeps to them. Code that is longer than memory is
held where it wraps onto itself unchanged. -/
theorem execution_as_written {is : List Instruction} {p : Tagged Nat}
    (h : assembleTagged is.zipIdx = .ok p) (m : Machine) :
    (m.memory.Holds 0 p.code.toList → ∀ k, p.starts.addressOf? k = some m.pc →
      ∃ i words, is[k]? = some i ∧ i.encode = .ok words ∧
        step m = ((fun _ => i.canonical) <$> execute i)
          { m with pc := m.pc + UInt16.ofNat words.length }) ∧
    ∀ n, Undisturbed p n m → interpretRun? is p.starts n m = some (run n m) :=
  ⟨fun hcode _ hk => step_of_start h hcode hk, fun _ hn => interpretRun?_eq_run h hn⟩

/-- Both instructions of a loop, with the literal of the first read back as an immediate. -/
theorem execution_of_loop :
    let is : List Instruction :=
      [⟨.operate .set, some (.register .a), .literal 0x1234⟩,
        ⟨.operate .set, some .pc, .literal 0⟩]
    let m : Machine := { Processor.initial with memory := .ofList [0x7c01, 0x1234, 0x8781] }
    ∃ p, assembleTagged is.zipIdx = .ok p ∧ m.memory.Holds 0 p.code.toList ∧
      p.starts.addressOf? 0 = some m.pc ∧ Undisturbed p 2 m ∧
      step m = .ok ⟨.operate .set, some (.register .a), .immediate 0x1234⟩
        { m with registers := m.registers.set .a 0x1234, pc := 2 } ∧
      interpretRun? is p.starts 2 m = some (run 2 m) := by
  intro is m
  let starts : AddressMap Nat := (AddressMap.empty.insert 0 0).insert 2 1
  have hp : assembleTagged is.zipIdx = .ok ⟨#[0x7c01, 0x1234, 0x8781], starts⟩ := rfl
  have hcode : m.memory.Holds 0 [0x7c01, 0x1234, 0x8781] := by
    simp [Memory.Holds, m, Memory.read_ofList]
  have hstarts : starts.addressOf? 0 = some 0 ∧ starts.addressOf? 1 = some 2 := by
    simp [AddressMap.addressOf?_eq_some_iff, starts, AddressMap.tagAt?_insert]
  have h := execution_as_written hp m
  have hstep : step m = .ok ⟨.operate .set, some (.register .a), .immediate 0x1234⟩
      { m with registers := m.registers.set .a 0x1234, pc := 2 } := by
    obtain ⟨i, words, hi, he, hstep⟩ := h.1 hcode 0 hstarts.1
    cases hi
    cases he
    exact hstep
  have hrun : Undisturbed ⟨#[0x7c01, 0x1234, 0x8781], starts⟩ 2 m := by
    intro k hk m' hm'
    obtain rfl | rfl : k = 0 ∨ k = 1 := by omega
    · cases hm'
      exact ⟨hcode, 0, hstarts.1⟩
    · rw [show run 1 m = .ok () _ from bind_of_ok hstep] at hm'
      cases hm'
      exact ⟨hcode, 1, hstarts.2⟩
  exact ⟨_, hp, hcode, hstarts.1, hrun, hstep, h.2 2 hrun⟩

end Dcpu.Machine
