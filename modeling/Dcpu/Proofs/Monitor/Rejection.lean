import Dcpu.Monitor.Reply
import Dcpu.Stateful

/-! Lines that the monitor rejects. A line is read before anything is done, so that a rejected one
leaves the machine alone, with one exception: a jump moves PC before it finds fault with what stands
behind its target. -/
namespace Dcpu.Monitor

open Stateful

theorem Arguments.next_eq_ok_iff {α : Type} {read : Reading α} {args args' : Arguments} {a : α} :
    next read args = .ok a args' ↔ ∃ argument rest, args.rest = argument :: rest ∧
      read argument = .ok a ∧ args' = ⟨rest, args.index + 1⟩ := by
  unfold next
  constructor
  · intro h
    split at h
    · cases h
    · next argument rest hargs =>
      split at h
      · next hread =>
        cases h
        exact ⟨argument, rest, hargs, hread, rfl⟩
      · cases h
  · intro h
    obtain ⟨argument, rest, hargs, hread, rfl⟩ := h
    simp only [hargs, hread]

namespace Command

theorem ofLine_of_no_tokens {line : String} (htokens : Text.tokens line = []) :
    ofLine line = .ok none := by
  unfold ofLine Arguments.ofLine Arguments.name
  rw [htokens]
  rfl

theorem ofLine_of_tokens {line name : String} {args : List String}
    (htokens : Text.tokens line = name :: args) :
    ofLine line = match parse name ⟨args, 0⟩ with
      | .ok c _ => .ok (some c)
      | .error e _ => .error e := by
  unfold ofLine Arguments.ofLine Arguments.name
  rw [htokens]
  rfl

theorem ofLine_eq_ok_some_iff {line : String} {c : Command} :
    ofLine line = .ok (some c) ↔ ∃ name rest args', Text.tokens line = name :: rest ∧
      parse name ⟨rest, 0⟩ = .ok c args' := by
  cases htokens : Text.tokens line with
  | nil => simp [ofLine_of_no_tokens htokens]
  | cons name rest =>
    rw [ofLine_of_tokens htokens]
    simp only [List.cons.injEq]
    constructor
    · intro h
      cases hparse : parse name ⟨rest, 0⟩ with
      | ok command args' =>
        rw [hparse] at h
        cases h
        exact ⟨name, rest, args', ⟨rfl, rfl⟩, hparse⟩
      | error e args' =>
        rw [hparse] at h
        cases h
    · intro h
      obtain ⟨_, _, args', ⟨rfl, rfl⟩, hparse⟩ := h
      rw [hparse]

theorem eq_jmp_of_parse {name : String} {args args' : Arguments} {target : Word} {surplus : Nat}
    (h : parse name args = .ok (jump target surplus) args') : name = "jmp" := by
  unfold parse at h
  split at h
  case h_6 => rfl
  case h_8 => cases h
  case h_9 => exact absurd h throw_ne_ok
  all_goals
    simp only [bind_eq_ok_iff, pure_eq_ok_iff, reduceCtorEq, false_and, and_false,
      exists_false] at h

theorem parse_jmp_eq_ok_iff {args args' : Arguments} {target : Word} {surplus : Nat} :
    parse "jmp" args = .ok (jump target surplus) args' ↔ ∃ argument rest,
      args.rest = argument :: rest ∧ Reading.word argument = .ok target ∧ rest.length = surplus ∧
        args' = ⟨rest, args.index + 1⟩ := by
  simp only [parse, bind_eq_ok_iff, Arguments.next_eq_ok_iff, pure_eq_ok_iff]
  constructor
  · intro h
    obtain ⟨w, _, ⟨argument, rest, hargs, hword, rfl⟩, u, _, ⟨⟩, ⟨⟩, rfl⟩ := h
    exact ⟨argument, rest, hargs, hword, rfl, rfl⟩
  · intro h
    obtain ⟨argument, rest, hargs, hword, rfl, rfl⟩ := h
    exact ⟨target, _, ⟨argument, rest, hargs, hword, rfl⟩, _, _, rfl, rfl, rfl⟩

/-- A line is read as a jump exactly if it begins like one, and whatever stands behind its
target. -/
theorem ofLine_eq_ok_jump_iff {line : String} {target : Word} {surplus : Nat} :
    ofLine line = .ok (some (jump target surplus)) ↔ ∃ argument rest,
      Text.tokens line = "jmp" :: argument :: rest ∧ Reading.word argument = .ok target ∧
        rest.length = surplus := by
  rw [ofLine_eq_ok_some_iff]
  constructor
  · intro h
    obtain ⟨name, args, args', htokens, hparse⟩ := h
    obtain rfl := eq_jmp_of_parse hparse
    obtain ⟨argument, rest, rfl, hword, hlength, -⟩ := parse_jmp_eq_ok_iff.1 hparse
    exact ⟨argument, rest, htokens, hword, hlength⟩
  · intro h
    obtain ⟨argument, rest, htokens, hword, hlength⟩ := h
    exact ⟨_, _, _, htokens, parse_jmp_eq_ok_iff.2 ⟨argument, rest, rfl, hword, hlength, rfl⟩⟩

/-- What fails in an execution is not the command. -/
theorem answer_ne_command_error {α : Type} {x : EStateM ExecuteError Machine α} {f : α → Reply}
    {m m' : Machine} {e : CommandError} :
    (do return f (← EStateM.adaptExcept Failure.execution x)) m ≠
      (.error (.command e) m' : EStateM.Result Failure Machine Reply) := by
  intro h
  cases hx : x m with
  | ok a t =>
    rw [bind_of_ok (adaptExcept_of_ok hx)] at h
    cases h
  | error cause t =>
    rw [bind_of_error (adaptExcept_of_error hx)] at h
    cases h

theorem run_jump (m : Machine) (target : Word) (surplus : Nat) :
    run (jump target surplus) m = if surplus = 0 then .ok (.lines []) { m with pc := target }
      else .error (.command (.unusedArguments surplus)) { m with pc := target } := by
  cases surplus <;> rfl

/-- Of all commands that were read only a jump can still be rejected. -/
theorem exists_jump_of_run {c : Command} {m m' : Machine} {e : CommandError}
    (h : c.run m = .error (.command e) m') : ∃ target surplus, c = jump target surplus := by
  unfold run at h
  split at h
  case h_1 | h_2 | h_3 | h_4 => exact absurd h answer_ne_command_error
  case h_7 target surplus => exact ⟨target, surplus, rfl⟩
  all_goals cases h

end Command

theorem eq_or_jump_of_respond {line : String} {m m' : Machine} {e : CommandError}
    (h : respond line m = .error (.command e) m') : m' = m ∨
      ∃ argument surplus target, Text.tokens line = "jmp" :: argument :: surplus ∧ surplus ≠ [] ∧
        Reading.word argument = .ok target ∧ e = .unusedArguments surplus.length ∧
        m' = { m with pc := target } := by
  unfold respond at h
  cases hline : Command.ofLine line with
  | error cause =>
    rw [hline] at h
    cases h
    exact Or.inl rfl
  | ok command? =>
    rw [hline] at h
    cases command? with
    | none => cases h
    | some command =>
      obtain ⟨target, count, rfl⟩ := Command.exists_jump_of_run h
      obtain ⟨argument, surplus, htokens, hword, rfl⟩ := Command.ofLine_eq_ok_jump_iff.1 hline
      change Command.run (.jump target surplus.length) m = _ at h
      rw [Command.run_jump] at h
      split at h
      · cases h
      · next hcount =>
        cases h
        have hsurplus : surplus ≠ [] := fun hnil => hcount (by rw [hnil, List.length_nil])
        exact Or.inr ⟨argument, surplus, target, htokens, hsurplus, hword, rfl, rfl⟩

theorem respond_of_jump {line argument : String} {surplus : List String} {target : Word}
    (htokens : Text.tokens line = "jmp" :: argument :: surplus) (hsurplus : surplus ≠ [])
    (hword : Reading.word argument = .ok target) (m : Machine) : respond line m =
      .error (.command (.unusedArguments surplus.length)) { m with pc := target } := by
  have hline : Command.ofLine line = .ok (some (.jump target surplus.length)) :=
    Command.ofLine_eq_ok_jump_iff.2 ⟨argument, surplus, htokens, hword, rfl⟩
  have hcount : surplus.length ≠ 0 := fun h => hsurplus (List.eq_nil_of_length_eq_zero h)
  unfold respond
  rw [hline]
  change Command.run (.jump target surplus.length) m = _
  rw [Command.run_jump, if_neg hcount]

/-- A rejected line leaves the machine as it was, unless it tells the monitor to jump and goes on
behind the target. Then PC has moved all the same, and nothing else. -/
theorem rejection_moves_pc_only_by_jump (line : String) (m : Machine) :
    (∀ e m', respond line m = .error (.command e) m' → m' = m ∨
      ∃ argument surplus target, Text.tokens line = "jmp" :: argument :: surplus ∧ surplus ≠ [] ∧
        Reading.word argument = .ok target ∧ e = .unusedArguments surplus.length ∧
        m' = { m with pc := target }) ∧
    ∀ argument surplus target, Text.tokens line = "jmp" :: argument :: surplus → surplus ≠ [] →
      Reading.word argument = .ok target → respond line m =
        .error (.command (.unusedArguments surplus.length)) { m with pc := target } :=
  ⟨fun _ _ h => eq_or_jump_of_respond h,
    fun _ _ _ htokens hsurplus hword => respond_of_jump htokens hsurplus hword m⟩

/-- The first number is gone to, and the second is complained about. -/
theorem respond_jump_to_two_targets :
    let m : Machine := { toProcessor := .initial, memory := .ofList [] }
    respond "jmp 5 6" m = .error (.command (.unusedArguments 1)) { m with pc := 5 } ∧
      { m with pc := 5 } ≠ m := by
  intro m
  have htokens : Text.tokens "jmp 5 6" = ["jmp", "5", "6"] := by decide +kernel
  have hword : Reading.word "5" = .ok 5 := by cbv
  refine ⟨respond_of_jump htokens (List.cons_ne_nil _ _) hword m, fun h => ?_⟩
  have hpc : (5 : Word) = 0 := congrArg (fun n : Machine => n.pc) h
  exact absurd hpc (by decide)

end Dcpu.Monitor
