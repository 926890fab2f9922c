import Dcpu.Proofs.Monitor.Parameter
import Dcpu.Proofs.Monitor.Rejection

/-! The grammar of command lines. A line is rejected for the first argument that its parameter does
not accept, and for words that are left over only where all arguments are accepted. A line without
any fault runs its command, with defaults in place of arguments that are not there. -/
namespace Dcpu.Monitor

open Stateful

/-- What is wrong with words that are left over. -/
def surplusFault? (count : Nat) : Option CommandError :=
  if count = 0 then none else some (.unusedArguments count)

theorem surplusFault?_eq_none_iff {count : Nat} : surplusFault? count = none ↔ count = 0 := by
  simp [surplusFault?]

/-- What is still wrong with a command that was read. -/
def Command.fault? : Command → Option CommandError
  | jump _ unused => surplusFault? unused
  | _ => none

namespace Arguments

/-- What is wrong with a line, as far as its command shows it. -/
def fault? : EStateM.Result CommandError Arguments Command → Option CommandError
  | .ok c _ => c.fault?
  | .error e _ => some e

/-- Reading a command finds the first fault among the arguments that it has parameters for, and
surplus arguments if there is none. -/
def Follows (params : List Parameter) (x : EStateM CommandError Arguments Command) : Prop :=
  ∀ args, fault? (x args) = (firstFault? args.index params args.rest).or
    (surplusFault? (args.rest.length - params.length))

variable {α : Type} {params : List Parameter} {kind : Kind} {read : Reading α}

theorem follows_argument (hread : kind.Describes read) {p : Parameter} (hp : p.kind = kind)
    {f : α → EStateM CommandError Arguments Command} (hf : ∀ a, Follows params (f a))
    (text : String) (rest : List String) (index : Nat) :
    fault? ((next read >>= f) ⟨text :: rest, index⟩) =
      (firstFault? index (p :: params) (text :: rest)).or
        (surplusFault? ((text :: rest).length - (p :: params).length)) := by
  have hfault : p.fault? (index + 1) (some text) = kind.fault? text := by
    rw [← hp]
    cases p <;> rfl
  rw [firstFault?, List.head?_cons, List.tail_cons, hfault, List.length_cons, List.length_cons,
    Nat.add_sub_add_right]
  cases h : read text with
  | ok a =>
    have hnext : next read ⟨text :: rest, index⟩ = .ok a ⟨rest, index + 1⟩ := by
      simp [next, h]
    rw [bind_of_ok hnext, hf, hread.fault?_eq_none_iff.2 ⟨a, h⟩, Option.none_or]
  | error e =>
    have hnext : next read ⟨text :: rest, index⟩ = .error e ⟨rest, index + 1⟩ := by
      simp [next, h]
    rw [bind_of_error hnext, (hread text e).1 h, Option.some_or, Option.some_or]
    rfl

theorem Follows.next (hread : kind.Describes read)
    {f : α → EStateM CommandError Arguments Command} (hf : ∀ a, Follows params (f a)) :
    Follows (.required kind :: params) (Arguments.next read >>= f) := by
  intro ⟨rest, index⟩
  cases rest with
  | nil => rfl
  | cons text rest => exact follows_argument hread rfl hf text rest index

theorem Follows.nextOr (hread : kind.Describes read) (default : α)
    {f : α → EStateM CommandError Arguments Command} (hf : ∀ a, Follows params (f a)) :
    Follows (.optional kind :: params) (Arguments.nextOr read default >>= f) := by
  intro ⟨rest, index⟩
  cases rest with
  | nil =>
    have hnext : Arguments.nextOr read default ⟨[], index⟩ = .ok default ⟨[], index + 1⟩ := rfl
    rw [bind_of_ok hnext, hf]
    simp [firstFault?, Parameter.fault?]
  | cons text rest => exact follows_argument hread rfl hf text rest index

theorem follows_finish {c : Command} (hc : c.fault? = none) :
    Follows [] (do finish; return c) := by
  intro ⟨rest, index⟩
  cases rest with
  | nil => exact hc
  | cons text rest => rfl

theorem follows_jump (target : Word) :
    Follows [] (do return .jump target (← get).rest.length) :=
  fun _ => rfl

end Arguments

open Arguments

theorem Command.follows_parse {name : String} {params : List Parameter}
    (h : signature? name = some params) : Follows params (parse name) := by
  unfold signature? at h
  split at h
  case h_1 =>
    cases h
    exact .nextOr Kind.describes_count _ fun _ => follows_finish rfl
  case h_2 =>
    cases h
    exact .next Kind.describes_word fun _ => .nextOr Kind.describes_count _ fun _ =>
      follows_finish rfl
  case h_3 =>
    cases h
    exact .next Kind.describes_register fun _ => .next Kind.describes_word fun _ =>
      .nextOr Kind.describes_count _ fun _ => follows_finish rfl
  case h_4 =>
    cases h
    exact .nextOr Kind.describes_word _ fun _ => .nextOr Kind.describes_count _ fun _ =>
      follows_finish rfl
  case h_5 =>
    cases h
    exact .nextOr (Kind.describes_word.map some) _ fun _ =>
      .nextOr Kind.describes_count _ fun _ => follows_finish rfl
  case h_6 =>
    cases h
    exact .next Kind.describes_word fun target => follows_jump target
  case h_7 =>
    cases h
    exact follows_finish rfl
  case h_8 => cases h

/-- What a line is rejected for. -/
def rejection? : EStateM.Result Failure Machine Reply → Option CommandError
  | .error (.command e) _ => some e
  | _ => none

theorem rejection?_eq_some_iff {answer : EStateM.Result Failure Machine Reply} {e : CommandError} :
    rejection? answer = some e ↔ ∃ m, answer = .error (.command e) m := by
  cases answer with
  | ok reply m => simp [rejection?]
  | error cause m => cases cause <;> simp [rejection?]

theorem Command.rejection?_run (c : Command) (m : Machine) :
    rejection? (c.run m) = c.fault? := by
  cases hrun : rejection? (c.run m) with
  | some e =>
    obtain ⟨m', herror⟩ := rejection?_eq_some_iff.1 hrun
    obtain ⟨target, surplus, rfl⟩ := exists_jump_of_run herror
    rw [run_jump] at herror
    split at herror
    · cases herror
    · next hsurplus =>
      cases herror
      exact (if_neg hsurplus).symm
  | none =>
    cases c with
    | jump target surplus =>
      rw [run_jump] at hrun
      split at hrun
      · next hsurplus => exact (if_pos hsurplus).symm
      · cases hrun
    | _ => rfl

theorem respond_of_tokens {line name : String} {args : List String}
    (htokens : Text.tokens line = name :: args) (m : Machine) :
    respond line m = match Command.parse name ⟨args, 0⟩ with
      | .ok c _ => c.run m
      | .error e _ => .error (.command e) m := by
  unfold respond
  rw [Command.ofLine_of_tokens htokens]
  cases Command.parse name ⟨args, 0⟩ <;> rfl

theorem respond_of_no_tokens {line : String} (m : Machine) (htokens : Text.tokens line = []) :
    respond line m = .ok (.lines []) m := by
  unfold respond
  rw [Command.ofLine_of_no_tokens htokens]
  rfl

theorem rejection?_respond {line name : String} {args : List String}
    (htokens : Text.tokens line = name :: args) (m : Machine) :
    rejection? (respond line m) = Arguments.fault? (Command.parse name ⟨args, 0⟩) := by
  rw [respond_of_tokens htokens]
  cases Command.parse name ⟨args, 0⟩ with
  | ok c args' => exact c.rejection?_run m
  | error e args' => rfl

/-- The faults of a line: the first argument that is not accepted is missing or wrong, or all
arguments are accepted and there are too many. -/
inductive Fault (params : List Parameter) (args : List String) : CommandError → Prop where
  | missing {k : Nat} {kind : Kind} (hparam : params[k]? = some (.required kind))
      (habsent : args.length ≤ k) (hbefore : AcceptedBelow k params args) :
      Fault params args (.missingArgument (k + 1))
  | wrong {k : Nat} {p : Parameter} {text : String} {e : CommandError}
      (hparam : params[k]? = some p) (hpresent : args[k]? = some text)
      (hrefused : ¬ p.kind.Accepts text) (hwrong : p.kind.fault? text = some e)
      (hbefore : AcceptedBelow k params args) : Fault params args e
  | unused {surplus : Nat} (hlength : args.length = params.length + surplus)
      (hsurplus : surplus ≠ 0) (hall : AcceptedBelow params.length params args) :
      Fault params args (.unusedArguments surplus)

theorem fault_iff {params : List Parameter} {args : List String} {e : CommandError} :
    (firstFault? 0 params args).or (surplusFault? (args.length - params.length)) = some e ↔
      Fault params args e := by
  rw [Option.or_eq_some_iff, firstFault?_eq_some_iff, firstFault?_eq_none_iff]
  constructor
  · intro h
    rcases h with ⟨k, p, hparam, hfault, hbefore⟩ | ⟨hall, hsurplus⟩
    · cases hargument : args[k]? with
      | none =>
        rw [hargument] at hfault
        cases p with
        | required kind =>
          cases hfault
          rw [Nat.zero_add]
          exact .missing hparam (List.getElem?_eq_none_iff.1 hargument) hbefore
        | optional kind => cases hfault
      | some text =>
        rw [hargument] at hfault
        have hwrong : p.kind.fault? text = some e := by
          cases p <;> exact hfault
        exact .wrong hparam hargument (Kind.not_accepts_of_fault? hwrong) hwrong hbefore
    · unfold surplusFault? at hsurplus
      split at hsurplus
      · cases hsurplus
      · next hne =>
        cases hsurplus
        exact .unused (by omega) hne hall
  · intro h
    cases h with
    | @missing k kind hparam habsent hbefore =>
      refine Or.inl ⟨k, _, hparam, ?_, hbefore⟩
      rw [List.getElem?_eq_none_iff.2 habsent, Nat.zero_add]
      rfl
    | @wrong k p text e hparam hpresent _ hwrong hbefore =>
      refine Or.inl ⟨k, p, hparam, ?_, hbefore⟩
      rw [hpresent]
      cases p <;> exact hwrong
    | @unused surplus hlength hsurplus hall =>
      refine Or.inr ⟨hall, ?_⟩
      rw [hlength, Nat.add_sub_cancel_left]
      exact if_neg hsurplus

/-- An argument is there and stands for a value. -/
def Given {α : Type} (stands : String → α → Prop) (argument : Option String) (a : α) : Prop :=
  ∃ text, argument = some text ∧ stands text a

/-- An argument stands for a value, or it is not there and the value is the default. -/
def GivenOr {α : Type} (stands : String → α → Prop) (default : α) (argument : Option String)
    (a : α) : Prop :=
  (argument = none ∧ a = default) ∨ Given stands argument a

def DenotesWord (text : String) (w : Word) : Prop := Numeral.Denotes text w.toNat

def DenotesCount (text : String) (n : UInt64) : Prop := Numeral.Denotes text n.toNat

namespace Command

/-- The command that a name calls with arguments, where PC has a value. -/
inductive Calls (pc : Word) (args : List String) : String → Command → Prop where
  | execute {count : UInt64} (hcount : GivenOr DenotesCount 1 args[0]? count) :
      Calls pc args "e" (.execute count)
  | runToPc {target : Word} {limit : UInt64} (htarget : Given DenotesWord args[0]? target)
      (hlimit : GivenOr DenotesCount defaultLimit args[1]? limit) :
      Calls pc args "eb" (.runToPc target limit)
  | runToValue {r : Register} {value : Word} {limit : UInt64}
      (hr : Given (fun text r => r.IsNamed text) args[0]? r)
      (hvalue : Given DenotesWord args[1]? value)
      (hlimit : GivenOr DenotesCount defaultLimit args[2]? limit) :
      Calls pc args "er" (.runToValue r value limit)
  | dump {start : Word} {length : UInt64} (hstart : GivenOr DenotesWord 0 args[0]? start)
      (hlength : GivenOr DenotesCount defaultLength args[1]? length) :
      Calls pc args "d" (.dump start length)
  | list {start : Word} {count : UInt64} (hstart : GivenOr DenotesWord pc args[0]? start)
      (hcount : GivenOr DenotesCount defaultCount args[1]? count) :
      Calls pc args "dis" (.list (some start) count)
  | jump {target : Word} (htarget : Given DenotesWord args[0]? target) :
      Calls pc args "jmp" (.jump target 0)
  | reset : Calls pc args "reset" .reset

section

variable {α : Type} {stands : String → α → Prop} {read : Reading α} {args args' : Arguments}
  {all : List String} {k : Nat} {a default : α}

theorem given_of_next (hread : ∀ text a, read text = .ok a ↔ stands text a)
    (hrest : args.rest = all.drop k) (h : Arguments.next read args = .ok a args') :
    Given stands all[k]? a ∧ args'.rest = all.drop (k + 1) := by
  obtain ⟨text, rest, hargs, htext, rfl⟩ := Arguments.next_eq_ok_iff.1 h
  have hdrop : all.drop k = text :: rest := hrest ▸ hargs
  have hhead : all[k]? = some text := by
    rw [← List.head?_drop, hdrop, List.head?_cons]
  have htail : rest = all.drop (k + 1) := by
    rw [← List.tail_drop, hdrop, List.tail_cons]
  exact ⟨⟨text, hhead, (hread text a).1 htext⟩, htail⟩

theorem givenOr_of_nextOr (hread : ∀ text a, read text = .ok a ↔ stands text a)
    (hrest : args.rest = all.drop k) (h : Arguments.nextOr read default args = .ok a args') :
    GivenOr stands default all[k]? a ∧ args'.rest = all.drop (k + 1) := by
  unfold Arguments.nextOr at h
  split at h
  · next hnil =>
    cases h
    have hdrop : all.drop k = [] := hrest ▸ hnil
    have hnone : all[k]? = none := by
      rw [← List.head?_drop, hdrop, List.head?_nil]
    have htail : [] = all.drop (k + 1) := by
      rw [← List.tail_drop, hdrop, List.tail_nil]
    exact ⟨Or.inl ⟨hnone, rfl⟩, htail⟩
  · obtain ⟨hgiven, hrest'⟩ := given_of_next hread hrest h
    exact ⟨Or.inr hgiven, hrest'⟩

end

/-- The same command, with a start for a list that has none. -/
def startingAt (pc : Word) : Command → Command
  | list start count => list (some (start.getD pc)) count
  | c => c

theorem run_startingAt (c : Command) (m : Machine) : (c.startingAt m.pc).run m = c.run m := by
  cases c <;> rfl

/-- What is read from a name and its arguments, and has nothing wrong with it, is called by them. -/
theorem calls_of_parse {name : String} {params : List Parameter} {args : List String} {c : Command}
    {args' : Arguments} (hname : signature? name = some params)
    (hparse : parse name ⟨args, 0⟩ = .ok c args') (hc : c.fault? = none) (pc : Word) :
    Calls pc args name (c.startingAt pc) := by
  have hcount (text : String) (n : UInt64) : Reading.count text = .ok n ↔ DenotesCount text n :=
    Reading.count_eq_ok_iff
  have hword (text : String) (w : Word) : Reading.word text = .ok w ↔ DenotesWord text w :=
    Reading.word_eq_ok_iff
  unfold parse at hparse
  split at hparse
  case h_8 => cases hname
  case h_9 => cases hparse
  all_goals simp only [bind_eq_ok_iff, pure_eq_ok_iff] at hparse
  · obtain ⟨count, _, h, _, _, -, rfl, -⟩ := hparse
    obtain ⟨hgiven, -⟩ := givenOr_of_nextOr (k := 0) hcount rfl h
    exact .execute hgiven
  · obtain ⟨target, _, h, limit, _, h', _, _, -, rfl, -⟩ := hparse
    obtain ⟨htarget, hrest⟩ := given_of_next (k := 0) hword rfl h
    obtain ⟨hlimit, -⟩ := givenOr_of_nextOr hcount hrest h'
    exact .runToPc htarget hlimit
  · obtain ⟨r, _, h, value, _, h', limit, _, h'', _, _, -, rfl, -⟩ := hparse
    obtain ⟨hr, hrest⟩ := given_of_next (k := 0) (fun _ _ => Reading.register_eq_ok_iff) rfl h
    obtain ⟨hvalue, hrest'⟩ := given_of_next hword hrest h'
    obtain ⟨hlimit, -⟩ := givenOr_of_nextOr hcount hrest' h''
    exact .runToValue hr hvalue hlimit
  · obtain ⟨start, _, h, length, _, h', _, _, -, rfl, -⟩ := hparse
    obtain ⟨hstart, hrest⟩ := givenOr_of_nextOr (k := 0) hword rfl h
    obtain ⟨hlength, -⟩ := givenOr_of_nextOr hcount hrest h'
    exact .dump hstart hlength
  · obtain ⟨start, _, h, count, _, h', _, _, -, rfl, -⟩ := hparse
    have hread (text : String) (start : Option Word) : (Reading.word text).map some = .ok start ↔
        ∃ w, DenotesWord text w ∧ some w = start := by
      simp only [Fallible.map_eq_ok_iff, hword]
    obtain ⟨hstart, hrest⟩ := givenOr_of_nextOr (k := 0) hread rfl h
    obtain ⟨hcount, -⟩ := givenOr_of_nextOr hcount hrest h'
    refine .list ?_ hcount
    obtain ⟨hnone, rfl⟩ | ⟨text, htext, w, hw, rfl⟩ := hstart
    · exact Or.inl ⟨hnone, rfl⟩
    · exact Or.inr ⟨text, htext, hw⟩
  · obtain ⟨target, _, h, _, _, -, rfl, -⟩ := hparse
    obtain ⟨htarget, -⟩ := given_of_next (k := 0) hword rfl h
    rw [surplusFault?_eq_none_iff.1 hc]
    exact .jump htarget
  · obtain ⟨_, _, -, rfl, -⟩ := hparse
    exact .reset

theorem parse_of_signature?_eq_none {name : String} (hname : signature? name = none)
    (hq : name ≠ "q") : parse name = throw (.unknownCommand name) := by
  unfold parse
  split
  case h_8 => exact absurd rfl hq
  case h_9 => rfl
  all_goals cases hname

end Command

/-- A line does nothing, or quits, or names no command, or is rejected for exactly its faults, or runs
the command that it calls. -/
theorem respond_by_grammar (line : String) (m : Machine) :
    (Text.tokens line = [] → respond line m = .ok (.lines []) m) ∧
    ∀ name args, Text.tokens line = name :: args →
      (name = "q" → respond line m = .ok .quit m) ∧
      (name ≠ "q" → signature? name = none →
        respond line m = .error (.command (.unknownCommand name)) m) ∧
      ∀ params, signature? name = some params →
        (∀ e, (∃ m', respond line m = .error (.command e) m') ↔ Fault params args e) ∧
        ((∀ e, ¬ Fault params args e) →
          ∃ c, Command.Calls m.pc args name c ∧ respond line m = c.run m) := by
  refine ⟨respond_of_no_tokens m, fun name args htokens => ⟨?_, ?_, fun params hname => ⟨?_, ?_⟩⟩⟩
  · intro hq
    rw [respond_of_tokens htokens, hq]
    rfl
  · intro hq hname
    rw [respond_of_tokens htokens, Command.parse_of_signature?_eq_none hname hq]
    rfl
  · intro e
    rw [← rejection?_eq_some_iff, rejection?_respond htokens, Command.follows_parse hname, fault_iff]
  · intro hfaultless
    have hnone : Arguments.fault? (Command.parse name ⟨args, 0⟩) = none := by
      rw [Command.follows_parse hname, Option.eq_none_iff_forall_ne_some]
      exact fun e he => hfaultless e (fault_iff.1 he)
    rw [respond_of_tokens htokens]
    cases hparse : Command.parse name ⟨args, 0⟩ with
    | ok c args' =>
      rw [hparse] at hnone
      exact ⟨c.startingAt m.pc, Command.calls_of_parse hname hparse hnone m.pc,
        (c.run_startingAt m).symm⟩
    | error e args' =>
      rw [hparse] at hnone
      cases hnone

/-- The value is out of range and the limit is no number, but the register comes before both. With
no argument at all, a list begins at PC and has eight lines. -/
theorem respond_by_grammar_of_rejected_and_defaulted :
    let m : Machine := { Processor.initial with pc := 0x200, memory := .ofList [] }
    (∃ m', respond "er q 70000 many" m = .error (.command (.unknownRegister "q")) m') ∧
      (∀ e, ¬ Fault [.optional .word, .optional .count] [] e) ∧
      respond "dis" m = (Command.list (some 0x200) 8).run m := by
  intro m
  have htokens : Text.tokens "er q 70000 many" = ["er", "q", "70000", "many"] := by
    decide +kernel
  have hwrong : Kind.register.fault? "q" = some (.unknownRegister "q") :=
    (Kind.describes_register "q" _).1 (by decide +kernel)
  have hparam : [Parameter.required .register, .required .word, .optional .count][0]? =
      some (.required .register) := rfl
  have hfault : Fault [.required .register, .required .word, .optional .count]
      ["q", "70000", "many"] (.unknownRegister "q") :=
    .wrong hparam rfl (Kind.not_accepts_of_fault? hwrong) hwrong (acceptedBelow_zero _ _)
  have htokens' : Text.tokens "dis" = ["dis"] := by decide +kernel
  have hfaultless (e : CommandError) : ¬ Fault [.optional .word, .optional .count] [] e := by
    intro h
    cases h with
    | missing hparam => simpa using List.mem_of_getElem? hparam
    | wrong _ hpresent => cases hpresent
    | unused hlength =>
      simp only [List.length_nil, List.length_cons] at hlength
      omega
  obtain ⟨-, hlines⟩ := respond_by_grammar "er q 70000 many" m
  obtain ⟨-, -, hgrammar⟩ := hlines _ _ htokens
  obtain ⟨hrejected, -⟩ := hgrammar _ rfl
  obtain ⟨-, hlines'⟩ := respond_by_grammar "dis" m
  obtain ⟨-, -, hgrammar'⟩ := hlines' _ _ htokens'
  obtain ⟨-, hruns⟩ := hgrammar' _ rfl
  refine ⟨(hrejected _).2 hfault, hfaultless, ?_⟩
  obtain ⟨c, hcalls, hrespond⟩ := hruns hfaultless
  generalize hname : "dis" = name at hcalls
  cases hcalls with
  | list hstart hcount =>
    obtain ⟨-, rfl⟩ | ⟨text, habsent, -⟩ := hstart
    · obtain ⟨-, rfl⟩ | ⟨text, habsent, -⟩ := hcount
      · exact hrespond
      · cases habsent
    · cases habsent
  | _ => exact absurd hname (by decide)

end Dcpu.Monitor
