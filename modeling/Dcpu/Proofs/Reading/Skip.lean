import Dcpu.Proofs.Reading.Memory

/-! Instructions passed over instead of read. Loading takes the extra words of the operands one by
one and skipping takes them all at once, but both stop at the same place, or fail alike. -/
namespace Dcpu

open Stateful WordReader

variable {σ : Type} [WordReader σ]

/-- From this state skipping succeeds exactly if loading does, and then both reach the same state;
and they fail with the same fault. -/
def Instruction.SkipsAsLoads (s : σ) : Prop :=
  (∀ t, skip s = .ok () t ↔ ∃ i, load s = .ok i t) ∧
    ∀ e, (∃ t, skip s = .error e t) ↔ ∃ t, load s = .error e t

/-- Every word can stand as the extra word of an operand that has one. -/
theorem Operand.exists_extra?_eq {o : Operand} {words : List Word}
    (h : words.length = o.extra?.toList.length) :
    ∃ o' : Operand, o'.blank = o.blank ∧ o'.extra?.toList = words := by
  cases ho : o.extra? with
  | none =>
    have hnil : words = [] := List.eq_nil_of_length_eq_zero (by simpa [ho] using h)
    exact ⟨o, rfl, by simp [ho, hnil]⟩
  | some v =>
    obtain ⟨w, rfl⟩ : ∃ w, words = [w] := List.length_eq_one_iff.1 (by simpa [ho] using h)
    exact ⟨o.setExtra w, blank_setExtra o w, by simp [extra?_setExtra, ho]⟩

namespace Instruction

/-- All words can stand as the extra words of an instruction, if there are as many as it takes. -/
theorem exists_extras_eq {i : Instruction} {words : List Word}
    (h : words.length = i.extras.length) :
    ∃ j : Instruction, j.blank = i.blank ∧ j.extras = words := by
  obtain ⟨opcode, b, a⟩ := i
  have hlength : words.length = a.extra?.toList.length + (b.bind Operand.extra?).toList.length := by
    rw [h, extras, List.length_append]
  obtain ⟨xs, ys, rfl, hxs, hys⟩ : ∃ xs ys, words = xs ++ ys ∧
      xs.length = a.extra?.toList.length ∧ ys.length = (b.bind Operand.extra?).toList.length := by
    refine ⟨_, _, (List.take_append_drop a.extra?.toList.length words).symm, ?_, ?_⟩
    · exact List.length_take_of_le (by omega)
    · rw [List.length_drop]
      omega
  obtain ⟨a', ha, rfl⟩ := Operand.exists_extra?_eq hxs
  cases b with
  | none =>
    obtain rfl : ys = [] := List.eq_nil_of_length_eq_zero hys
    exact ⟨⟨opcode, none, a'⟩, by simp [blank, ha], rfl⟩
  | some b =>
    obtain ⟨b', hb, rfl⟩ := Operand.exists_extra?_eq (o := b) hys
    exact ⟨⟨opcode, some b', a'⟩, by simp [blank, ha, hb], rfl⟩

/-- The extra words of an instruction are loaded wherever as many words can be read. -/
theorem exists_loadExtra_iff {i : Instruction} {s t : σ} :
    (∃ j, i.loadExtra s = .ok j t) ↔
      ∃ words, words.length = i.extraWords.toNat ∧ Supplies s words t := by
  simp only [loadExtra_eq_ok_iff, toNat_extraWords]
  constructor
  · intro h
    obtain ⟨j, hblank, hs⟩ := h
    have hextra : j.extraWords = i.extraWords := by
      rw [← extraWords_blank j, hblank, extraWords_blank]
    exact ⟨j.extras, by rw [← toNat_extraWords, hextra, toNat_extraWords], hs⟩
  · intro h
    obtain ⟨words, hlength, hs⟩ := h
    obtain ⟨j, hblank, rfl⟩ := exists_extras_eq hlength
    exact ⟨j, hblank, hs⟩

end Instruction

section Lawful

/-! Readers for which nothing goes wrong but the end of the words. -/

variable (hnext : ∀ {s t : σ} {e}, next s = .error e t → e = .endOfInput)
include hnext

theorem Operand.eq_endOfInput_of_load {o : Operand} {s t : σ} {e : ReadError}
    (h : o.load s = .error e t) : e = .endOfInput := by
  unfold load at h
  cases ho : o.extra? with
  | none =>
    rw [ho] at h
    cases h
  | some v =>
    rw [ho] at h
    obtain h | ⟨w, u, -, h⟩ := bind_eq_error_iff.1 h
    · exact hnext h
    · cases h

namespace Instruction

theorem eq_endOfInput_of_loadExtra {i : Instruction} {s t : σ} {e : ReadError}
    (h : i.loadExtra s = .error e t) : e = .endOfInput := by
  unfold loadExtra at h
  obtain h | ⟨a, u, -, h⟩ := bind_eq_error_iff.1 h
  · exact Operand.eq_endOfInput_of_load hnext h
  · cases hb : i.b with
    | none =>
      rw [hb] at h
      cases h
    | some b =>
      rw [hb] at h
      obtain h | ⟨b', v, -, h⟩ := bind_eq_error_iff.1 h
      · exact Operand.eq_endOfInput_of_load hnext h
      · cases h

/-- A reader that passes over words exactly where it can read as many skips instructions as it
loads them. -/
theorem skipsAsLoads_of_lawful
    (hskip : ∀ {n} {s t : σ} {e}, WordReader.skip n s = .error e t → e = .endOfInput)
    (hok : ∀ {n} {s t : σ}, WordReader.skip n s = .ok () t ↔
      ∃ words, words.length = n.toNat ∧ Supplies s words t) (s : σ) : SkipsAsLoads s := by
  unfold SkipsAsLoads skip load
  cases hw : (next s : EStateM.Result ReadError σ Word) with
  | error e u =>
    have hread : EStateM.adaptExcept DecodeError.read next s = .error (.read e) u :=
      adaptExcept_of_error hw
    simp [bind_of_error hread]
  | ok w u =>
    have hread : EStateM.adaptExcept DecodeError.read next s = .ok w u := adaptExcept_of_ok hw
    simp only [bind_of_ok hread]
    cases hi : ofWord w with
    | error e => simp
    | ok i =>
      have hextra (t : σ) :
          WordReader.skip i.extraWords u = .ok () t ↔ ∃ j, i.loadExtra u = .ok j t :=
        hok.trans exists_loadExtra_iff.symm
      simp only [adaptExcept_eq_ok_iff]
      refine ⟨hextra, fun e => ?_⟩
      cases hl : i.loadExtra u with
      | ok j t =>
        have hs : WordReader.skip i.extraWords u = .ok () t := (hextra t).2 ⟨j, hl⟩
        simp [adaptExcept_of_ok hl, adaptExcept_of_ok hs]
      | error e' t =>
        obtain rfl := eq_endOfInput_of_loadExtra hnext hl
        cases hs : (WordReader.skip i.extraWords u : EStateM.Result ReadError σ Unit) with
        | ok _ t' =>
          obtain ⟨j, hj⟩ := (hextra t').1 hs
          rw [hl] at hj
          cases hj
        | error e'' t' =>
          obtain rfl := hskip hs
          simp [adaptExcept_of_error hl, adaptExcept_of_error hs]

end Instruction

end Lawful

namespace WordCursor

theorem eq_endOfInput_of_next {c d : WordCursor} {e : ReadError}
    (h : (next : EStateM ReadError WordCursor Word) c = .error e d) : e = .endOfInput := by
  simp only [next] at h
  split at h
  · cases h
  · cases h
    rfl

theorem eq_endOfInput_of_skip {n : Word} {c d : WordCursor} {e : ReadError}
    (h : skip n c = .error e d) : e = .endOfInput := by
  simp only [skip] at h
  split at h
  · cases h
  · cases h
    rfl

theorem skip_eq_ok_iff {n : Word} {c d : WordCursor} :
    skip n c = .ok () d ↔ ∃ words, words.length = n.toNat ∧ Supplies c words d := by
  simp only [skip, advance?_eq, supplies_iff]
  constructor
  · intro h
    by_cases hn : n.toNat ≤ c.rest.length
    · rw [if_pos hn] at h
      cases h
      refine ⟨c.rest.take n.toNat, List.length_take_of_le hn, ?_, ?_⟩
      · rw [List.take_append_drop]
      · rw [List.length_take_of_le hn]
    · rw [if_neg hn] at h
      cases h
  · intro h
    obtain ⟨words, hlength, hrest, hposition⟩ := h
    obtain ⟨rest, position⟩ := d
    have hn : n.toNat ≤ c.rest.length := by
      rw [hrest, List.length_append]
      omega
    rw [if_pos hn, hrest, ← hlength, List.drop_left, ← hposition]

theorem skipsAsLoads (c : WordCursor) : Instruction.SkipsAsLoads c :=
  Instruction.skipsAsLoads_of_lawful eq_endOfInput_of_next eq_endOfInput_of_skip skip_eq_ok_iff c

end WordCursor

theorem Memory.Cursor.skipsAsLoads (c : Memory.Cursor) : Instruction.SkipsAsLoads c := by
  unfold Instruction.SkipsAsLoads
  rw [load_eq, skip_eq]
  cases c.memory.instructionAt c.address <;> simp

namespace Machine

theorem skipsAsLoads (m : Machine) : Instruction.SkipsAsLoads m := by
  unfold Instruction.SkipsAsLoads
  rw [load_eq, skip_eq]
  cases m.memory.instructionAt m.pc <;> simp

/-- Passing over an instruction moves PC and nothing else, even if its operands would move SP. -/
theorem skip_moves_pc (m : Machine) : ∃ pc, Instruction.skip m = .ok () { m with pc } ∨
    ∃ e, Instruction.skip m = .error e { m with pc } := by
  refine ⟨m.memory.nextAddress m.pc, ?_⟩
  rw [skip_eq]
  cases m.memory.instructionAt m.pc <;> simp

end Machine

/-- From a list of words, from memory and from a machine, skipping an instruction comes to the same
as loading it, and a machine that skips one is left as it was but for PC. -/
theorem Instruction.skip_follows_load :
    (∀ c : WordCursor, SkipsAsLoads c) ∧ (∀ c : Memory.Cursor, SkipsAsLoads c) ∧
      (∀ m : Machine, SkipsAsLoads m) ∧
      ∀ m : Machine, ∃ pc, skip m = .ok () { m with pc } ∨ ∃ e, skip m = .error e { m with pc } :=
  ⟨WordCursor.skipsAsLoads, Memory.Cursor.skipsAsLoads, Machine.skipsAsLoads, Machine.skip_moves_pc⟩

end Dcpu
