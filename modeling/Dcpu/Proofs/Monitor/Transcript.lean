import Dcpu.Proofs.Monitor.Display
import Dcpu.Proofs.Text.Lines

/-! A session from beginning to end. Its lines are answered one after the other, each by the machine
that the lines before it have left. Nothing is remembered but this machine, and no line is read
before it is its turn. -/
namespace Dcpu.Monitor

open Stateful

namespace Command

theorem eq_q_of_parse {name : String} {args args' : Arguments}
    (h : parse name args = .ok quit args') : name = "q" := by
  unfold parse at h
  split at h
  case h_8 => rfl
  case h_9 => exact absurd h throw_ne_ok
  all_goals
    simp only [bind_eq_ok_iff, pure_eq_ok_iff, reduceCtorEq, false_and, and_false,
      exists_false] at h

theorem eq_quit_of_run {c : Command} {m m' : Machine} (h : c.run m = .ok .quit m') : c = quit := by
  unfold run at h
  split at h
  case h_9 => rfl
  case h_7 target surplus =>
    change run (jump target surplus) m = _ at h
    rw [run_jump] at h
    split at h <;> cases h
  all_goals
    simp only [bind_eq_ok_iff, pure_eq_ok_iff, reduceCtorEq, false_and, and_false,
      exists_false] at h

end Command

/-- The first word of a line is the command to quit, whatever follows it. -/
def Quits (line : String) : Prop := (Text.tokens line).head? = some "q"

instance : DecidablePred Quits := fun _ => inferInstanceAs (Decidable (_ = _))

theorem Command.ofLine_eq_quit_iff {line : String} :
    ofLine line = .ok (some quit) ↔ Quits line := by
  rw [ofLine_eq_ok_some_iff, Quits, List.head?_eq_some_iff]
  constructor
  · intro h
    obtain ⟨name, rest, args', htokens, hparse⟩ := h
    obtain rfl := eq_q_of_parse hparse
    exact ⟨rest, htokens⟩
  · intro h
    obtain ⟨rest, htokens⟩ := h
    exact ⟨_, rest, _, htokens, rfl⟩

theorem respondEntries_of_quits {line : String} (h : Quits line) (m : Machine) :
    respondEntries line m = ([], false, m) := by
  unfold respondEntries respond
  rw [Command.ofLine_eq_quit_iff.2 h]
  rfl

theorem goesOn_of_not_quits {line : String} (h : ¬Quits line) (m : Machine) :
    (respondEntries line m).2.1 = true := by
  have hreply (m' : Machine) : respond line m ≠ .ok .quit m' := by
    intro hquit
    rcases respond_cases line m with ⟨e, -, hrespond⟩ | ⟨-, hrespond⟩ | ⟨c, hline, hrespond⟩
    · rw [hrespond] at hquit
      cases hquit
    · rw [hrespond] at hquit
      cases hquit
    · rw [hrespond] at hquit
      have hcommand : c = .quit := Command.eq_quit_of_run hquit
      rw [hcommand] at hline
      exact h (Command.ofLine_eq_quit_iff.1 hline)
  unfold respondEntries
  split
  · next m' hquit => exact absurd hquit (hreply m')
  · rfl
  · rfl

/-- The machine that a line leaves. -/
def afterLine (m : Machine) (line : String) : Machine := (respondEntries line m).2.2

/-- The machine that lines leave, one after the other. -/
def afterLines (m : Machine) (lines : List String) : Machine := lines.foldl afterLine m

/-- What is shown before a line is read. -/
def invitation (m : Machine) : List Entry := [.status m.toProcessor, .prompt]

theorem session_cons_of_quits {line : String} (h : Quits line) (m : Machine)
    (lines : List (Option String)) : session m (some line :: lines) = (invitation m, .quit) := by
  rw [session, respondEntries_of_quits h]
  rfl

theorem session_cons_of_not_quits {line : String} (h : ¬Quits line) (m : Machine)
    (lines : List (Option String)) : session m (some line :: lines) =
      (invitation m ++ (respondEntries line m).1 ++ (session (afterLine m line) lines).1,
        (session (afterLine m line) lines).2) := by
  have hgoesOn := goesOn_of_not_quits h m
  unfold afterLine
  rw [session]
  cases hanswer : respondEntries line m with
  | mk shown answer =>
    rw [hanswer] at hgoesOn
    cases answer with
    | mk goesOn m' =>
      obtain rfl : goesOn = true := hgoesOn
      rfl

end Dcpu.Monitor
