import Dcpu.Proofs.Monitor.Transcript

/-! Looking at a machine does not disturb it. A session can be stripped of all lines that only look,
and what remains goes on as before. -/
namespace Dcpu.Monitor

open Stateful

namespace Command

/-- The names that commands have. -/
def names : List String := ["e", "eb", "er", "d", "dis", "jmp", "reset", "q"]

theorem parse_of_notMem_names {name : String} (h : name ∉ names) (args : Arguments) :
    parse name args = .error (.unknownCommand name) args := by
  unfold parse
  split
  case h_9 => rfl
  all_goals exact absurd (by decide) h

theorem eq_dump_of_parse {c : Command} {args args' : Arguments} (h : parse "d" args = .ok c args') :
    ∃ start length, c = dump start length := by
  simp only [parse, bind_eq_ok_iff, pure_eq_ok_iff] at h
  obtain ⟨start, _, -, length, _, -, _, _, -, rfl, -⟩ := h
  exact ⟨start, length, rfl⟩

theorem eq_list_of_parse {c : Command} {args args' : Arguments}
    (h : parse "dis" args = .ok c args') : ∃ start count, c = list start count := by
  simp only [parse, bind_eq_ok_iff, pure_eq_ok_iff] at h
  obtain ⟨start, _, -, count, _, -, _, _, -, rfl, -⟩ := h
  exact ⟨start, count, rfl⟩

end Command

/-- The line is blank, or its command shows memory, or there is no such command. -/
def inspects (line : String) : Bool :=
  match (Text.tokens line).head? with
  | none => true
  | some name => name == "d" || name == "dis" || !Command.names.contains name

theorem not_quits_of_inspects {line : String} (h : inspects line = true) : ¬Quits line := by
  intro hquits
  unfold inspects at h
  rw [hquits] at h
  revert h
  decide

/-- What a line that only looks can be read as. -/
theorem ofLine_of_inspects {line : String} {c : Command} (h : inspects line = true)
    (hline : Command.ofLine line = .ok (some c)) :
    (∃ start length, c = .dump start length) ∨ ∃ start count, c = .list start count := by
  obtain ⟨name, rest, args', htokens, hparse⟩ := Command.ofLine_eq_ok_some_iff.1 hline
  unfold inspects at h
  simp only [htokens, List.head?_cons, Bool.or_eq_true, beq_iff_eq, Bool.not_eq_true',
    List.contains_eq_mem, decide_eq_false_iff_not] at h
  rcases h with (rfl | rfl) | hname
  · exact Or.inl (Command.eq_dump_of_parse hparse)
  · exact Or.inr (Command.eq_list_of_parse hparse)
  · rw [Command.parse_of_notMem_names hname] at hparse
    cases hparse

theorem afterLine_of_inspects {line : String} (h : inspects line = true) (m : Machine) :
    afterLine m line = m := by
  unfold afterLine respondEntries
  rcases respond_cases line m with ⟨e, -, hrespond⟩ | ⟨-, hrespond⟩ | ⟨c, hline, hrespond⟩
  · rw [hrespond]
  · rw [hrespond]
  · rw [hrespond]
    rcases ofLine_of_inspects h hline with ⟨start, length, rfl⟩ | ⟨start, count, rfl⟩
    · rfl
    · rfl

/-- A line that is typed, and the machine that answers it. What the answer is and which machine it
leaves follows from both. -/
structure Exchange where
  before : Machine
  line : String

/-- What is shown from the status before the line on up to the next status. -/
def Exchange.log (e : Exchange) : List Entry :=
  invitation e.before ++ (respondEntries e.line e.before).1

/-- The exchanges of a session, of which one that ends it is the last. -/
def exchanges (m : Machine) : List (Option String) → List Exchange
  | some line :: lines =>
    ⟨m, line⟩ :: if Quits line then [] else exchanges (afterLine m line) lines
  | _ => []

/-- The exchanges are the first lines of a session in their order, each with the machine that the
lines before it have left. A session that is quit is quit by the last of them. -/
structure Recorded (m : Machine) (lines : List (Option String)) (es : List Exchange) : Prop where
  inOrder : es.map (fun e => some e.line) <+: lines
  before : ∀ k e, es[k]? = some e → e.before = afterLines m ((es.take k).map Exchange.line)
  quit : (session m lines).2 = .quit ↔ ∃ e, es.getLast? = some e ∧ Quits e.line

theorem recorded_exchanges (m : Machine) (lines : List (Option String)) :
    Recorded m lines (exchanges m lines) := by
  induction lines generalizing m with
  | nil => exact ⟨List.prefix_rfl, by simp [exchanges], by simp [exchanges, session]⟩
  | cons line lines ih =>
    cases line with
    | none => exact ⟨List.nil_prefix, by simp [exchanges], by simp [exchanges, session]⟩
    | some line =>
      by_cases hline : Quits line
      · rw [exchanges, if_pos hline]
        refine ⟨?_, ?_, ?_⟩
        · simp
        · intro k e h
          cases k with
          | zero =>
            cases h
            rfl
          | succ k => simp at h
        · rw [session_cons_of_quits hline]
          simp [hline]
      · obtain ⟨hlines, hbefore, hquit⟩ := ih (afterLine m line)
        rw [exchanges, if_neg hline]
        refine ⟨?_, ?_, ?_⟩
        · simpa using hlines
        · intro k e h
          cases k with
          | zero =>
            cases h
            rfl
          | succ k => exact hbefore k e h
        · rw [session_cons_of_not_quits hline, hquit]
          cases hes : (exchanges (afterLine m line) lines).getLast? with
          | none => simp [List.getLast?_cons, hes, hline]
          | some e => simp [List.getLast?_cons, hes]

theorem exchanges_of_inspects {line : String} (h : inspects line = true) (m : Machine)
    (lines : List (Option String)) :
    exchanges m (some line :: lines) = ⟨m, line⟩ :: exchanges m lines := by
  rw [exchanges, if_neg (not_quits_of_inspects h), afterLine_of_inspects h]

theorem session_of_inspects {line : String} (h : inspects line = true) (m : Machine)
    (lines : List (Option String)) : session m (some line :: lines) =
      (Exchange.log ⟨m, line⟩ ++ (session m lines).1, (session m lines).2) := by
  rw [session_cons_of_not_quits (not_quits_of_inspects h), afterLine_of_inspects h]
  rfl

/-- The lines of a session without those that only look. -/
def withoutInspection (lines : List (Option String)) : List (Option String) :=
  lines.filter fun line => !line.any inspects

theorem withoutInspection_of_inspects {line : String} (h : inspects line = true)
    (lines : List (Option String)) :
    withoutInspection (some line :: lines) = withoutInspection lines := by
  simp [withoutInspection, h]

theorem withoutInspection_of_not_inspects {line : String} (h : inspects line = false)
    (lines : List (Option String)) :
    withoutInspection (some line :: lines) = some line :: withoutInspection lines := by
  simp [withoutInspection, h]

theorem exchanges_withoutInspection (m : Machine) (lines : List (Option String)) :
    exchanges m (withoutInspection lines) =
      (exchanges m lines).filter fun e => !inspects e.line := by
  induction lines generalizing m with
  | nil => rfl
  | cons line lines ih =>
    cases line with
    | none => rfl
    | some line =>
      cases hline : inspects line with
      | true =>
        rw [withoutInspection_of_inspects hline, exchanges_of_inspects hline, ih]
        simp [hline]
      | false =>
        rw [withoutInspection_of_not_inspects hline, exchanges, exchanges, List.filter_cons_of_pos]
        · split
          · rfl
          · rw [ih]
        · simp [hline]

/-- What a session shows belongs to its exchanges, but for what stands behind the last one. -/
theorem session_withoutInspection (m : Machine) (lines : List (Option String)) :
    (session m (withoutInspection lines)).2 = (session m lines).2 ∧
    ∃ closing, (session m lines).1 = (exchanges m lines).flatMap Exchange.log ++ closing ∧
      (session m (withoutInspection lines)).1 =
        (exchanges m (withoutInspection lines)).flatMap Exchange.log ++ closing := by
  induction lines generalizing m with
  | nil => exact ⟨rfl, invitation m, rfl, rfl⟩
  | cons line lines ih =>
    cases line with
    | none => exact ⟨rfl, invitation m, rfl, rfl⟩
    | some line =>
      cases hline : inspects line with
      | true =>
        -- The line is left out, and the machine behind it is the one before it.
        obtain ⟨hending, closing, hlog, hlog'⟩ := ih m
        rw [withoutInspection_of_inspects hline, session_of_inspects hline,
          exchanges_of_inspects hline]
        refine ⟨hending, closing, ?_, hlog'⟩
        rw [hlog, List.flatMap_cons, List.append_assoc]
      | false =>
        rw [withoutInspection_of_not_inspects hline]
        by_cases hquits : Quits line
        · -- Here both sessions end, and nothing is shown behind the last exchange.
          rw [session_cons_of_quits hquits, session_cons_of_quits hquits, exchanges, exchanges,
            if_pos hquits, if_pos hquits]
          have hlog : Exchange.log ⟨m, line⟩ = invitation m := by
            rw [Exchange.log, respondEntries_of_quits hquits, List.append_nil]
          exact ⟨rfl, [], by simp [hlog], by simp [hlog]⟩
        · obtain ⟨hending, closing, hlog, hlog'⟩ := ih (afterLine m line)
          rw [session_cons_of_not_quits hquits, session_cons_of_not_quits hquits, exchanges,
            exchanges, if_neg hquits, if_neg hquits, hlog, hlog']
          exact ⟨hending, closing, by simp [Exchange.log], by simp [Exchange.log]⟩

/-- Lines that only look can be left out of a session. The lines that remain are answered by the
same machines and leave the same ones, and show the same. The session is quit by the same line, or
comes to its end in the same way. -/
theorem inspection_leaves_session (m : Machine) (lines : List (Option String)) :
    let kept := withoutInspection lines
    Recorded m lines (exchanges m lines) ∧ Recorded m kept (exchanges m kept) ∧
      exchanges m kept = (exchanges m lines).filter (fun e => !inspects e.line) ∧
      (session m kept).2 = (session m lines).2 ∧
      ∃ closing, (session m lines).1 = (exchanges m lines).flatMap Exchange.log ++ closing ∧
        (session m kept).1 = (exchanges m kept).flatMap Exchange.log ++ closing := by
  intro kept
  obtain ⟨hending, hlog⟩ := session_withoutInspection m lines
  exact ⟨recorded_exchanges m lines, recorded_exchanges m kept,
    exchanges_withoutInspection m lines, hending, hlog⟩

/-- It does not matter whether the arguments make sense. -/
example : inspects "d 0x10000" = true ∧ inspects "dis 5 5 5" = true ∧ inspects "D" = true ∧
    inspects "jmp" = false := by decide +kernel

end Dcpu.Monitor
