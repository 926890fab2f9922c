import Dcpu.Proofs.Machine.Outcome

/-! Runs until a condition holds. A run ends in the first state in which its condition holds, unless
a step fails before or the limit is reached, and it can be broken off at a limit and continued. -/
namespace Dcpu.Machine

open Stateful

theorem run_succ_eq_ok_iff {n : Nat} {m t : Machine} :
    run (n + 1) m = .ok () t ↔ ∃ s i, run n m = .ok () s ∧ step s = .ok i t := by
  induction n generalizing m with
  | zero =>
    unfold run
    rw [bind_eq_ok_iff]
    constructor
    · intro h
      obtain ⟨i, u, hstep, hrun⟩ := h
      obtain ⟨-, rfl⟩ := pure_eq_ok_iff.1 hrun
      exact ⟨m, i, rfl, hstep⟩
    · intro h
      obtain ⟨s, i, hrun, hstep⟩ := h
      obtain ⟨-, rfl⟩ := pure_eq_ok_iff.1 hrun
      exact ⟨i, t, hstep, rfl⟩
  | succ n ih =>
    constructor
    · intro h
      obtain ⟨i, u, hfirst, hrest⟩ := bind_eq_ok_iff.1 h
      obtain ⟨s, j, hrun, hstep⟩ := ih.1 hrest
      exact ⟨s, j, bind_eq_ok_iff.2 ⟨i, u, hfirst, hrun⟩, hstep⟩
    · intro h
      obtain ⟨s, j, hrun, hstep⟩ := h
      obtain ⟨i, u, hfirst, hrun⟩ := bind_eq_ok_iff.1 hrun
      exact bind_eq_ok_iff.2 ⟨i, u, hfirst, ih.2 ⟨s, j, hrun, hstep⟩⟩

/-- The condition holds in none of the first `n` states of the run, all of which are reached. -/
def Passes (stop : Machine → Bool) (n : Nat) (m : Machine) : Prop :=
  ∀ k < n, ∃ s, run k m = .ok () s ∧ stop s = false

variable {stop : Machine → Bool}

theorem passes_succ_iff {n : Nat} {m : Machine} : Passes stop (n + 1) m ↔
    Passes stop n m ∧ ∃ s, run n m = .ok () s ∧ stop s = false := by
  constructor
  · intro h
    exact ⟨fun k hk => h k (Nat.lt_succ_of_lt hk), h n (Nat.lt_succ_self n)⟩
  · intro h k hk
    obtain hk | rfl := Nat.lt_succ_iff_lt_or_eq.1 hk
    · exact h.1 k hk
    · exact h.2

theorem runUntilFrom_of_stop {m : Machine} (h : stop m = true) (executed limit : Nat) :
    runUntilFrom stop executed limit m = .ok executed m := by
  cases limit <;> exact (bind_of_ok rfl).trans (by rw [h]; rfl)

theorem runUntilFrom_zero {m : Machine} (h : stop m = false) (executed : Nat) :
    runUntilFrom stop executed 0 m = .error (.limit executed) m :=
  (bind_of_ok rfl).trans (by rw [h]; rfl)

theorem runUntilFrom_succ {m : Machine} (h : stop m = false) (executed limit : Nat) :
    runUntilFrom stop executed (limit + 1) m =
      (step >>= fun _ => runUntilFrom stop (executed + 1) limit) m :=
  (bind_of_ok rfl).trans (by rw [h]; rfl)

/-- As long as the condition does not hold, the run takes one step after the other. -/
theorem runUntilFrom_of_passes {k : Nat} {m s : Machine} (hpasses : Passes stop k m)
    (hrun : run k m = .ok () s) (executed limit : Nat) :
    runUntilFrom stop executed (k + limit) m = runUntilFrom stop (executed + k) limit s := by
  induction k generalizing s limit with
  | zero =>
    cases hrun
    rw [Nat.zero_add, Nat.add_zero]
  | succ k ih =>
    obtain ⟨u, i, hu, hstep⟩ := run_succ_eq_ok_iff.1 hrun
    obtain ⟨hpasses, u', hu', hstop⟩ := passes_succ_iff.1 hpasses
    rw [hu] at hu'
    cases hu'
    rw [Nat.add_right_comm, Nat.add_assoc, ih hpasses hu, runUntilFrom_succ hstop,
      bind_of_ok hstep, Nat.add_assoc]

/-- What a run comes to: the condition holds, a step fails, or the limit is reached. -/
theorem passes_cases (stop : Machine → Bool) (limit : Nat) (m : Machine) :
    (∃ n ≤ limit, ∃ t, run n m = .ok () t ∧ stop t = true ∧ Passes stop n m) ∨
    (∃ k < limit, ∃ s e t, run k m = .ok () s ∧ Passes stop (k + 1) m ∧ step s = .error e t) ∨
    ∃ t, run limit m = .ok () t ∧ Passes stop (limit + 1) m := by
  have hpasses {n : Nat} {t : Machine} (h : Passes stop n m) (ht : run n m = .ok () t) :
      stop t = true ∨ Passes stop (n + 1) m := by
    cases hstop : stop t with
    | true => exact Or.inl rfl
    | false => exact Or.inr (passes_succ_iff.2 ⟨h, t, ht, hstop⟩)
  induction limit with
  | zero =>
    obtain hstop | h := hpasses (n := 0) (fun k hk => by omega) rfl
    · exact Or.inl ⟨0, Nat.le_refl 0, m, rfl, hstop, fun k hk => by omega⟩
    · exact Or.inr (Or.inr ⟨m, rfl, h⟩)
  | succ limit ih =>
    obtain ⟨n, hn, h⟩ | ⟨k, hk, h⟩ | ⟨s, hs, h⟩ := ih
    · exact Or.inl ⟨n, Nat.le_succ_of_le hn, h⟩
    · exact Or.inr (Or.inl ⟨k, Nat.lt_succ_of_lt hk, h⟩)
    · cases hstep : step s with
      | error e t => exact Or.inr (Or.inl ⟨limit, Nat.lt_succ_self limit, s, e, t, hs, h, hstep⟩)
      | ok i t =>
        have ht : run (limit + 1) m = .ok () t := run_succ_eq_ok_iff.2 ⟨s, i, hs, hstep⟩
        obtain hstop | h' := hpasses h ht
        · exact Or.inl ⟨limit + 1, Nat.le_refl _, t, ht, hstop, h⟩
        · exact Or.inr (Or.inr ⟨t, ht, h'⟩)

section Ends

/-! The three ends of a run, each from the states that lead to it. -/

variable {m s t : Machine} {n k limit : Nat} {e : ExecuteError}

theorem runUntil_of_stop (hn : n ≤ limit) (hrun : run n m = .ok () t) (hstop : stop t = true)
    (hpasses : Passes stop n m) : runUntil stop limit m = .ok n t := by
  obtain ⟨rest, rfl⟩ := Nat.exists_eq_add_of_le hn
  rw [runUntil, runUntilFrom_of_passes hpasses hrun, runUntilFrom_of_stop hstop, Nat.zero_add]

theorem runUntil_of_step_error (hk : k < limit) (hrun : run k m = .ok () s)
    (hpasses : Passes stop (k + 1) m) (hstep : step s = .error e t) :
    runUntil stop limit m = .error e t := by
  obtain ⟨rest, rfl⟩ := Nat.exists_eq_add_of_lt hk
  obtain ⟨hpasses, s', hs', hstop⟩ := passes_succ_iff.1 hpasses
  rw [hrun] at hs'
  cases hs'
  rw [runUntil, Nat.add_assoc, runUntilFrom_of_passes hpasses hrun, runUntilFrom_succ hstop,
    bind_of_error hstep]

theorem runUntil_of_passes (hrun : run limit m = .ok () t) (hpasses : Passes stop (limit + 1) m) :
    runUntil stop limit m = .error (.limit limit) t := by
  obtain ⟨hpasses, t', ht', hstop⟩ := passes_succ_iff.1 hpasses
  rw [hrun] at ht'
  cases ht'
  have hrest := runUntilFrom_of_passes hpasses hrun 0 0
  rw [Nat.add_zero, runUntilFrom_zero hstop, Nat.zero_add] at hrest
  exact hrest

theorem ne_limit_of_step_error (h : step s = .error e t) (n : Nat) : e ≠ .limit n := by
  obtain ⟨code, rfl | rfl⟩ := opcode_missing_of_step h <;> nofun

theorem runUntil_cases (stop : Machine → Bool) (limit : Nat) (m : Machine) :
    (∃ n t, runUntil stop limit m = .ok n t ∧
      n ≤ limit ∧ run n m = .ok () t ∧ stop t = true ∧ Passes stop n m) ∨
    (∃ e t, runUntil stop limit m = .error e t ∧ (∀ n, e ≠ .limit n) ∧
      ∃ k < limit, ∃ s, run k m = .ok () s ∧ Passes stop (k + 1) m ∧ step s = .error e t) ∨
    ∃ t, runUntil stop limit m = .error (.limit limit) t ∧
      run limit m = .ok () t ∧ Passes stop (limit + 1) m := by
  obtain ⟨n, hn, t, hrun, hstop, hpasses⟩ | ⟨k, hk, s, e, t, hrun, hpasses, hstep⟩ |
    ⟨t, hrun, hpasses⟩ := passes_cases stop limit m
  · exact Or.inl ⟨n, t, runUntil_of_stop hn hrun hstop hpasses, hn, hrun, hstop, hpasses⟩
  · exact Or.inr (Or.inl ⟨e, t, runUntil_of_step_error hk hrun hpasses hstep,
      ne_limit_of_step_error hstep, k, hk, s, hrun, hpasses, hstep⟩)
  · exact Or.inr (Or.inr ⟨t, runUntil_of_passes hrun hpasses, hrun, hpasses⟩)

theorem runUntil_eq_ok_iff : runUntil stop limit m = .ok n t ↔
    n ≤ limit ∧ run n m = .ok () t ∧ stop t = true ∧ Passes stop n m := by
  constructor
  · intro h
    obtain ⟨n', t', hend, hreached⟩ | ⟨e, t', hend, -⟩ | ⟨t', hend, -⟩ :=
      runUntil_cases stop limit m
    all_goals
      rw [hend] at h
      cases h
    exact hreached
  · intro h
    obtain ⟨hn, hrun, hstop, hpasses⟩ := h
    exact runUntil_of_stop hn hrun hstop hpasses

theorem runUntil_eq_step_error_iff :
    (runUntil stop limit m = .error e t ∧ ∀ n, e ≠ .limit n) ↔
      ∃ k < limit, ∃ s, run k m = .ok () s ∧ Passes stop (k + 1) m ∧ step s = .error e t := by
  constructor
  · intro h
    obtain ⟨h, he⟩ := h
    obtain ⟨n', t', hend, -⟩ | ⟨e', t', hend, -, hfailed⟩ | ⟨t', hend, -⟩ :=
      runUntil_cases stop limit m
    all_goals
      rw [hend] at h
      cases h
    · exact hfailed
    · exact absurd rfl (he limit)
  · intro h
    obtain ⟨k, hk, s, hrun, hpasses, hstep⟩ := h
    exact ⟨runUntil_of_step_error hk hrun hpasses hstep, ne_limit_of_step_error hstep⟩

theorem runUntil_eq_limit_iff : runUntil stop limit m = .error (.limit n) t ↔
    n = limit ∧ run limit m = .ok () t ∧ Passes stop (limit + 1) m := by
  constructor
  · intro h
    obtain ⟨n', t', hend, -⟩ | ⟨e', t', hend, he, -⟩ | ⟨t', hend, hreached⟩ :=
      runUntil_cases stop limit m
    all_goals
      rw [hend] at h
      cases h
    · exact absurd rfl (he n)
    · exact ⟨rfl, hreached⟩
  · intro h
    obtain ⟨rfl, hrun, hpasses⟩ := h
    exact runUntil_of_passes hrun hpasses

end Ends

/-- The result of a run, if other instructions were executed before it and count towards it. -/
def counted (before : Nat) : EStateM.Result ExecuteError Machine Nat →
    EStateM.Result ExecuteError Machine Nat
  | .ok n m => .ok (before + n) m
  | .error (.limit n) m => .error (.limit (before + n)) m
  | .error e m => .error e m

theorem runUntilFrom_add (stop : Machine → Bool) (before executed limit : Nat) (m : Machine) :
    runUntilFrom stop (before + executed) limit m =
      counted before (runUntilFrom stop executed limit m) := by
  induction limit generalizing executed m with
  | zero =>
    cases hstop : stop m with
    | true => rw [runUntilFrom_of_stop hstop, runUntilFrom_of_stop hstop, counted]
    | false => rw [runUntilFrom_zero hstop, runUntilFrom_zero hstop, counted]
  | succ limit ih =>
    cases hstop : stop m with
    | true => rw [runUntilFrom_of_stop hstop, runUntilFrom_of_stop hstop, counted]
    | false =>
      rw [runUntilFrom_succ hstop, runUntilFrom_succ hstop]
      cases hstep : step m with
      | ok i t => rw [bind_of_ok hstep, bind_of_ok hstep, Nat.add_assoc, ih]
      | error e t =>
        rw [bind_of_error hstep, bind_of_error hstep]
        obtain ⟨code, rfl | rfl⟩ := opcode_missing_of_step hstep <;> rfl

/-- A run that was broken off at its limit goes on as if it had not been. -/
theorem runUntil_add {limit : Nat} {m t : Machine}
    (h : runUntil stop limit m = .error (.limit limit) t) (more : Nat) :
    runUntil stop (limit + more) m = counted limit (runUntil stop more t) := by
  obtain ⟨-, hrun, hpasses⟩ := runUntil_eq_limit_iff.1 h
  rw [runUntil, runUntilFrom_of_passes (passes_succ_iff.1 hpasses).1 hrun, runUntil,
    ← runUntilFrom_add, Nat.zero_add, Nat.add_zero]

theorem runUntilFrom_of_never (h : ∀ s, stop s = false) (executed limit : Nat) (m : Machine) :
    runUntilFrom stop executed limit m =
      match run limit m with
      | .ok () t => .error (.limit (executed + limit)) t
      | .error e t => .error e t := by
  induction limit generalizing executed m with
  | zero => rw [runUntilFrom_zero (h m)]; rfl
  | succ limit ih =>
    rw [runUntilFrom_succ (h m)]
    cases hstep : step m with
    | ok i t =>
      have hrun : run (limit + 1) m = run limit t := bind_of_ok hstep
      rw [bind_of_ok hstep, ih, hrun, Nat.add_assoc, Nat.add_comm 1]
    | error e t =>
      have hrun : run (limit + 1) m = .error e t := bind_of_error hstep
      rw [bind_of_error hstep, hrun]

/-- A run ends with the count of its instructions in the first state in which the condition holds,
with a step's error if that step comes before, and else at its limit. Continued from there it is the
run with the sum of the limits, and without a condition to stop it, it is the run of that length. -/
theorem runUntil_stops_at_first_match (stop : Machine → Bool) (limit : Nat) (m : Machine) :
    (∀ n t, runUntil stop limit m = .ok n t ↔
      n ≤ limit ∧ run n m = .ok () t ∧ stop t = true ∧ Passes stop n m) ∧
    (∀ e t, (runUntil stop limit m = .error e t ∧ ∀ n, e ≠ .limit n) ↔
      ∃ k < limit, ∃ s, run k m = .ok () s ∧ Passes stop (k + 1) m ∧ step s = .error e t) ∧
    (∀ n t, runUntil stop limit m = .error (.limit n) t ↔
      n = limit ∧ run limit m = .ok () t ∧ Passes stop (limit + 1) m) ∧
    (∀ t more, runUntil stop limit m = .error (.limit limit) t →
      runUntil stop (limit + more) m = counted limit (runUntil stop more t)) ∧
    ((∀ s, stop s = false) → runUntil stop limit m =
      match run limit m with
      | .ok () t => .error (.limit limit) t
      | .error e t => .error e t) := by
  refine ⟨fun n t => runUntil_eq_ok_iff, fun e t => runUntil_eq_step_error_iff,
    fun n t => runUntil_eq_limit_iff, fun t more h => runUntil_add h more, fun h => ?_⟩
  rw [runUntil, runUntilFrom_of_never h, Nat.zero_add]

/-- A run to address 2 over two instructions is broken off after the first and continued. -/
theorem runUntil_of_two_instructions :
    let m (pc : Word) : Machine :=
      { Processor.initial with pc := pc, memory := .ofList [0x8401, 0x8401] }
    let stop (s : Machine) : Bool := s.pc == 2
    runUntil stop 1 (m 0) = .error (.limit 1) (m 1) ∧
      runUntil stop (1 + 1) (m 0) = .ok 2 (m 2) ∧
      (∀ s : Machine, (fun _ => false) s = false) ∧
      runUntil (fun _ => false) 2 (m 0) = .error (.limit 2) (m 2) := by
  intro m stop
  have hstep (pc : Word) (hcode : (m pc).memory.Holds pc [0x8401]) :
      step (m pc) = .ok ⟨.operate .set, some (.register .a), .literal 0⟩ (m (pc + 1)) := by
    obtain ⟨hi, hnext⟩ := Memory.instructionAt_of_encode
      (i := ⟨.operate .set, some (.register .a), .literal 0⟩) rfl hcode
    have hregisters : ((Registers.zero.set .a 0).set .i 0).set .j 0 = Registers.zero := by decide
    have hx : execute ⟨.operate .set, some (.register .a), .literal 0⟩ (m (pc + 1)) =
        .ok () (m (pc + 1)) := by
      change EStateM.Result.ok () { m (pc + 1) with
        registers := ((Registers.zero.set .a 0).set .i 0).set .j 0 } = _
      rw [hregisters]
      rfl
    rw [step_of_instructionAt_eq_ok hi, hnext]
    exact map_of_ok hx
  have hfirst := hstep 0 (by simp [Memory.Holds, m, Memory.read_ofList])
  have hsecond := hstep 1 (by simp [Memory.Holds, m, Memory.read_ofList])
  have hbroken : runUntil stop 1 (m 0) = .error (.limit 1) (m 1) := by
    rw [runUntil, runUntilFrom_succ rfl, bind_of_ok hfirst]
    exact runUntilFrom_zero rfl _
  have hmore : runUntil stop 1 (m 1) = .ok 1 (m 2) := by
    rw [runUntil, runUntilFrom_succ rfl, bind_of_ok hsecond]
    exact runUntilFrom_of_stop rfl _ _
  have hrun : run 2 (m 0) = .ok () (m 2) :=
    (bind_of_ok hfirst).trans (bind_of_ok hsecond)
  obtain ⟨-, -, -, hcontinued, -⟩ := runUntil_stops_at_first_match stop 1 (m 0)
  obtain ⟨-, -, -, -, hnever⟩ := runUntil_stops_at_first_match (fun _ => false) 2 (m 0)
  refine ⟨hbroken, ?_, fun _ => rfl, ?_⟩
  · rw [hcontinued (m 1) 1 hbroken, hmore, counted]
  · rw [hnever fun _ => rfl, hrun]

end Dcpu.Machine
