import Dcpu.Proofs.Listing.Decoding
import Dcpu.Proofs.Reading.Bytes
import Dcpu.Proofs.Reading.Skip
import Mathlib.Data.List.Forall2

/-! Readers asked the same questions. A machine answers as a cursor at its PC does, a cursor in
memory as one on the list that is in memory, and a stream of bytes as a cursor on the words that
they make up, however reading and skipping of words and instructions follow one another. -/
namespace Dcpu

open Stateful WordReader

namespace Reading

/-- What can be asked of a reader. -/
inductive Request where
  | next
  /-- Pass over as many words. -/
  | pass (count : Word)
  | load
  | skip

/-- What a request that succeeds is answered with. -/
inductive Answer where
  | word (w : Word)
  | instruction (i : Instruction)
  | passed
deriving DecidableEq

section

variable {σ : Type} [WordReader σ]

def Request.perform : Request → EStateM DecodeError σ Answer
  | next => .word <$> EStateM.adaptExcept .read WordReader.next
  | pass count => (fun _ => .passed) <$> EStateM.adaptExcept .read (WordReader.skip count)
  | load => .instruction <$> Instruction.load
  | skip => (fun _ => .passed) <$> Instruction.skip

/-- The answer to a request, or how it failed, and the reader afterwards. -/
def respond (request : Request) (s : σ) : Except DecodeError Answer × σ :=
  match request.perform s with
  | .ok answer t => (.ok answer, t)
  | .error e t => (.error e, t)

/-- Requests made one after the other, also after one that failed. -/
def trace : List Request → σ → List (Except DecodeError Answer × σ)
  | [], _ => []
  | request :: requests, s => respond request s :: trace requests (respond request s).2

end

/-- The request needs no words to be passed over unread. -/
def Request.isReading : Request → Bool
  | next | load => true
  | pass _ | skip => false

/-- The request failed because there were too few words. -/
def ranOut : Except DecodeError Answer → Bool
  | .error e => e == .read .endOfInput || e == .incomplete
  | .ok _ => false

section Agreement

variable {σ τ : Type} {R : σ → τ → Prop} [WordReader σ] [WordReader τ]
  (hnext : ∀ {s t}, R s t → Agree R (WordReader.next (σ := σ) s) (WordReader.next (σ := τ) t))
include hnext

theorem perform_agree_of_isReading {request : Request} (hrequest : request.isReading = true)
    {s : σ} {t : τ} (h : R s t) : Agree R (request.perform s) (request.perform t) := by
  cases request with
  | next => exact Agree.map (Agree.adaptExcept (hnext h))
  | load => exact Agree.map (Instruction.load_agree hnext h)
  | pass | skip => cases hrequest

theorem perform_agree (hskip : ∀ {s t} (n : Word), R s t →
      Agree R (WordReader.skip (σ := σ) n s) (WordReader.skip (σ := τ) n t))
    (request : Request) {s : σ} {t : τ} (h : R s t) :
    Agree R (request.perform s) (request.perform t) := by
  cases request with
  | next | load => exact perform_agree_of_isReading hnext rfl h
  | pass count => exact Agree.map (Agree.adaptExcept (hskip count h))
  | skip => exact Agree.map (Instruction.skip_agree hnext hskip h)

end Agreement

/-- Readers that agree on each request agree on all of them. -/
theorem trace_agree {σ τ : Type} {R : σ → τ → Prop} [WordReader σ] [WordReader τ]
    {requests : List Request} (hperform : ∀ request ∈ requests, ∀ {s : σ} {t : τ}, R s t →
      Agree R (request.perform s) (request.perform t)) {s : σ} {t : τ} (h : R s t) :
    List.Forall₂ (fun x y => x.1 = y.1 ∧ R x.2 y.2) (trace requests s) (trace requests t) := by
  induction requests generalizing s t with
  | nil => exact .nil
  | cons request requests ih =>
    have hhead := hperform request List.mem_cons_self h
    have htail {s t} (h : R s t) :=
      ih (fun request hr => hperform request (List.mem_cons_of_mem _ hr)) h
    simp only [trace, respond]
    generalize request.perform s = x at hhead
    generalize request.perform t = y at hhead
    cases hhead with
    | ok h => exact .cons ⟨rfl, h⟩ (htail h)
    | error h => exact .cons ⟨rfl, h⟩ (htail h)

end Reading

open Reading

/-- Whatever is asked, a machine answers as the cursor at its PC, and moves PC alone. -/
theorem Machine.trace_eq (requests : List Request) (m : Machine) :
    trace requests m = (trace requests (Memory.Cursor.mk m.memory m.pc)).map
      fun x => (x.1, { m with pc := x.2.address }) := by
  have hperform (request : Request) (_ : request ∈ requests) {c : Memory.Cursor} {n : Machine}
      (h : Reads m c n) : Agree (Reads m) (request.perform c) (request.perform n) :=
    perform_agree (next_agree m) (skip_agree m) request h
  have htrace := trace_agree hperform (s := ⟨m.memory, m.pc⟩) (t := m) ⟨rfl, rfl⟩
  rw [← List.forall₂_eq_eq_eq, List.forall₂_map_right_iff]
  exact htrace.flip.imp fun x y h => Prod.ext h.1.symm h.2.2

/-- A stream of bytes answers as the cursor on its whole words, unless it is to skip. -/
theorem ByteReader.answers_eq {order : ByteOrder} {c : WordCursor} {r : ByteReader}
    {requests : List Request} (hrequests : ∀ request ∈ requests, request.isReading = true)
    (h : Reads order c r) :
    (trace requests r).map Prod.fst = (trace requests c).map Prod.fst := by
  have htrace := trace_agree (fun request hr =>
    perform_agree_of_isReading next_agree (hrequests request hr)) h
  rw [← List.forall₂_eq_eq_eq, List.forall₂_map_right_iff, List.forall₂_map_left_iff]
  exact htrace.flip.imp fun x y h => h.1.symm

/-- A word that begins no instruction fails loading and skipping alike. -/
theorem Instruction.load_of_ofWord_eq_error {σ : Type} [WordReader σ] {s t : σ} {w : Word}
    {e : DecodeError} (hw : next s = .ok w t) (he : ofWord w = .error e) :
    load s = .error e t ∧ skip s = .error e t := by
  have hread : EStateM.adaptExcept DecodeError.read next s = .ok w t := adaptExcept_of_ok hw
  unfold load skip
  rw [bind_of_ok hread, bind_of_ok hread, he]
  exact ⟨rfl, rfl⟩

namespace WordCursor

/-- Loading from a list fails because there are too few words, or because a word begins no
instruction. -/
theorem load_error_cases {c d : WordCursor} {e : DecodeError}
    (h : Instruction.load c = .error e d) :
    (e = .read .endOfInput ∨ e = .incomplete) ∨
      ∃ w, next c = .ok w d ∧ Instruction.ofWord w = .error e := by
  unfold Instruction.load at h
  obtain h | ⟨w, u, hw, h⟩ := bind_eq_error_iff.1 h
  · obtain ⟨e', hnext, rfl⟩ := adaptExcept_eq_error_iff.1 h
    rw [eq_endOfInput_of_next hnext]
    exact Or.inl (Or.inl rfl)
  · cases hi : Instruction.ofWord w with
    | error e' =>
      rw [hi] at h
      cases h
      exact Or.inr ⟨w, adaptExcept_eq_ok_iff.1 hw, hi⟩
    | ok i =>
      rw [hi] at h
      obtain ⟨e', hextra, rfl⟩ := adaptExcept_eq_error_iff.1 h
      rw [Instruction.eq_endOfInput_of_loadExtra eq_endOfInput_of_next hextra]
      exact Or.inl (Or.inr rfl)

/-- The words left in the list stand in memory before the cursor there. -/
def Stands (c : WordCursor) (d : Memory.Cursor) : Prop :=
  d.address = UInt16.ofNat c.position ∧ d.memory.Holds d.address c.rest

theorem exists_supplies_of_stands {c c' : WordCursor} {d : Memory.Cursor} {words : List Word}
    (h : Stands c d) (hs : Supplies c words c') : ∃ d', Supplies d words d' ∧ Stands c' d' ∧
      d' = { d with address := d.address + UInt16.ofNat words.length } := by
  obtain ⟨haddress, hholds⟩ := h
  obtain ⟨hrest, hposition⟩ := supplies_iff.1 hs
  rw [hrest, Memory.holds_append_iff] at hholds
  refine ⟨_, Memory.Cursor.supplies_iff.2 ⟨hholds.1, rfl⟩, ⟨?_, hholds.2⟩, rfl⟩
  rw [hposition, UInt16.ofNat_add, haddress]

theorem exists_next_of_stands {c c' : WordCursor} {d : Memory.Cursor} {w : Word}
    (h : Stands c d) (hnext : next c = .ok w c') : ∃ d', next d = .ok w d' ∧ Stands c' d' := by
  obtain ⟨d', hs, hstands, -⟩ := exists_supplies_of_stands h (.cons hnext (.nil c'))
  obtain ⟨d'', hnext, hs⟩ := supplies_cons_iff.1 hs
  obtain rfl := supplies_nil_iff.1 hs
  exact ⟨d'', hnext, hstands⟩

theorem exists_load_of_stands {c c' : WordCursor} {d : Memory.Cursor} {i : Instruction}
    (h : Stands c d) (hload : Instruction.load c = .ok i c') :
    ∃ d', Instruction.load d = .ok i d' ∧ Stands c' d' := by
  obtain ⟨hi, words, he, hs⟩ := Instruction.load_eq_ok_iff.1 hload
  obtain ⟨d', hs, hstands, -⟩ := exists_supplies_of_stands h hs
  exact ⟨d', Instruction.load_eq_ok_iff.2 ⟨hi, words, he, hs⟩, hstands⟩

theorem next_agree_of_stands {c : WordCursor} {d : Memory.Cursor} (h : Stands c d) :
    Agree Stands (next c : EStateM.Result ReadError WordCursor Word) (next d) ∨
      ∃ c', (next c : EStateM.Result ReadError WordCursor Word) = .error .endOfInput c' := by
  cases hc : (next c : EStateM.Result ReadError WordCursor Word) with
  | ok w c' =>
    obtain ⟨d', hd, hstands⟩ := exists_next_of_stands h hc
    rw [hd]
    exact Or.inl (.ok hstands)
  | error e c' =>
    rw [eq_endOfInput_of_next hc]
    exact Or.inr ⟨c', rfl⟩

theorem skip_agree_of_stands {c : WordCursor} {d : Memory.Cursor} (h : Stands c d) (n : Word) :
    Agree Stands (skip n c : EStateM.Result ReadError WordCursor Unit) (skip n d) ∨
      ∃ c', (skip n c : EStateM.Result ReadError WordCursor Unit) = .error .endOfInput c' := by
  cases hc : (skip n c : EStateM.Result ReadError WordCursor Unit) with
  | ok _ c' =>
    obtain ⟨words, hlength, hs⟩ := skip_eq_ok_iff.1 hc
    obtain ⟨d', -, hstands, hd'⟩ := exists_supplies_of_stands h hs
    rw [hlength, UInt16.ofNat_toNat] at hd'
    have hd : skip n d = .ok () d' := hd' ▸ rfl
    rw [hd]
    exact Or.inl (.ok hstands)
  | error e c' =>
    rw [eq_endOfInput_of_skip hc]
    exact Or.inr ⟨c', rfl⟩

theorem load_agree_of_stands {c : WordCursor} {d : Memory.Cursor} (h : Stands c d) :
    Agree Stands (Instruction.load c) (Instruction.load d) ∨
      ∃ e c', Instruction.load c = .error e c' ∧ (e = .read .endOfInput ∨ e = .incomplete) := by
  cases hc : Instruction.load c with
  | ok i c' =>
    obtain ⟨d', hd, hstands⟩ := exists_load_of_stands h hc
    rw [hd]
    exact Or.inl (.ok hstands)
  | error e c' =>
    obtain he | ⟨w, hnext, hw⟩ := load_error_cases hc
    · exact Or.inr ⟨e, c', rfl, he⟩
    · obtain ⟨d', hd, hstands⟩ := exists_next_of_stands h hnext
      rw [(Instruction.load_of_ofWord_eq_error hd hw).1]
      exact Or.inl (.error hstands)

theorem skipInstruction_agree_of_stands {c : WordCursor} {d : Memory.Cursor} (h : Stands c d) :
    Agree Stands (Instruction.skip c) (Instruction.skip d) ∨
      ∃ e c', Instruction.skip c = .error e c' ∧ (e = .read .endOfInput ∨ e = .incomplete) := by
  obtain ⟨hok, herror⟩ := c.skipsAsLoads
  cases hc : Instruction.skip c with
  | ok _ c' =>
    obtain ⟨i, hload⟩ := (hok c').1 hc
    obtain ⟨d', hd, hstands⟩ := exists_load_of_stands h hload
    rw [(d.skipsAsLoads.1 d').2 ⟨i, hd⟩]
    exact Or.inl (.ok hstands)
  | error e c' =>
    obtain ⟨c'', hload⟩ := (herror e).1 ⟨c', hc⟩
    obtain he | ⟨w, hnext, hw⟩ := load_error_cases hload
    · exact Or.inr ⟨e, c', rfl, he⟩
    · obtain ⟨d', hd, hstands⟩ := exists_next_of_stands h hnext
      rw [(Instruction.load_of_ofWord_eq_error hnext hw).2] at hc
      cases hc
      rw [(Instruction.load_of_ofWord_eq_error hd hw).2]
      exact Or.inl (.error hstands)

/-- As long as there are enough words, the cursor in memory answers as the one on the list does. -/
theorem perform_agree_of_stands {c : WordCursor} {d : Memory.Cursor} (h : Stands c d)
    (request : Request) : Agree Stands (request.perform c) (request.perform d) ∨
      ∃ e c', request.perform c = .error e c' ∧ ranOut (.error e) = true := by
  cases request with
  | next =>
    obtain hagree | ⟨c', hc⟩ := next_agree_of_stands h
    · exact Or.inl (Agree.map (Agree.adaptExcept hagree))
    · exact Or.inr ⟨_, c', map_of_error (adaptExcept_of_error hc), rfl⟩
  | pass count =>
    obtain hagree | ⟨c', hc⟩ := skip_agree_of_stands h count
    · exact Or.inl (Agree.map (Agree.adaptExcept hagree))
    · exact Or.inr ⟨_, c', map_of_error (adaptExcept_of_error hc), rfl⟩
  | load =>
    obtain hagree | ⟨e, c', hc, he⟩ := load_agree_of_stands h
    · exact Or.inl (Agree.map hagree)
    · exact Or.inr ⟨e, c', map_of_error hc, by simp [ranOut, he]⟩
  | skip =>
    obtain hagree | ⟨e, c', hc, he⟩ := skipInstruction_agree_of_stands h
    · exact Or.inl (Agree.map hagree)
    · exact Or.inr ⟨e, c', map_of_error hc, by simp [ranOut, he]⟩

/-- Before the list runs out, both give the same answers and stand at the same place. -/
theorem trace_prefix_of_stands {c : WordCursor} {d : Memory.Cursor} (h : Stands c d)
    (requests : List Request) :
    (((trace requests c).takeWhile fun x => !ranOut x.1).map
        fun x => (x.1, UInt16.ofNat x.2.position)) <+:
      (trace requests d).map fun x => (x.1, x.2.address) := by
  induction requests generalizing c d with
  | nil => exact List.prefix_rfl
  | cons request requests ih =>
    simp only [trace, respond]
    obtain hagree | ⟨e, c', hc, he⟩ := perform_agree_of_stands h request
    · generalize request.perform c = x at hagree
      generalize request.perform d = y at hagree
      cases hagree with
      | @ok answer c' d' h =>
        simpa [ranOut, h.1] using ih h
      | @error e c' d' h =>
        by_cases he : ranOut (.error e) = true
        · simp [he]
        · simpa [he, h.1] using ih h
    · simp [hc, he]

end WordCursor

theorem ByteOrder.wholeWords_bytes (o : ByteOrder) (words : List Word) :
    o.wholeWords (o.bytes words) = words := by
  induction words with
  | nil => rfl
  | cons w words ih => rw [bytes, wholeWords, word_split, ih]

/-- Readers simulate one another: a machine and a cursor in its memory, a list and the memory that
holds it until the list runs out, and bytes and the words that they make up. -/
theorem Reading.readers_agree :
    (∀ (m : Machine) (requests : List Request),
      trace requests m = (trace requests (Memory.Cursor.mk m.memory m.pc)).map
        fun x => (x.1, { m with pc := x.2.address })) ∧
    (∀ (words : List Word), words.length ≤ Memory.size → ∀ requests : List Request,
      (((trace requests (WordCursor.ofList words)).takeWhile fun x => !ranOut x.1).map
          fun x => (x.1, UInt16.ofNat x.2.position)) <+:
        (trace requests (Memory.Cursor.mk (Memory.ofList words) 0)).map
          fun x => (x.1, x.2.address)) ∧
    ∀ (order : ByteOrder) (words : List Word) (requests : List Request),
      (∀ request ∈ requests, request.isReading = true) →
        order.words (order.bytes words) = .ok words ∧
        (trace requests (ByteReader.mk order (order.bytes words))).map Prod.fst =
          (trace requests (WordCursor.ofList words)).map Prod.fst := by
  refine ⟨fun m requests => m.trace_eq requests, fun words hfits requests => ?_,
    fun order words requests hrequests => ⟨order.words_bytes words, ?_⟩⟩
  · have hstands : WordCursor.Stands (.ofList words) ⟨Memory.ofList words, 0⟩ :=
      ⟨rfl, Memory.holds_ofList hfits⟩
    exact WordCursor.trace_prefix_of_stands hstands requests
  · exact ByteReader.answers_eq hrequests ⟨rfl, (order.wholeWords_bytes words).symm⟩

/-- An instruction of two words, and what comes behind it where the list has ended. -/
theorem Reading.readers_agree_of_two_words :
    let words : List Word := [0x7c01, 0x1234]
    let i : Instruction := ⟨.operate .set, some (.register .a), .immediate 0x1234⟩
    words.length ≤ Memory.size ∧
    [(.ok (.instruction i), 2)] <+:
      (trace [.load, .next] (Memory.Cursor.mk (Memory.ofList words) 0)).map
        (fun x => (x.1, x.2.address)) ∧
    (∀ request ∈ [Request.load, .next, .load], request.isReading = true) ∧
    (trace [.load, .next, .load] (ByteReader.mk .big [0x7c, 0x01, 0x12, 0x34])).map Prod.fst =
      [.ok (.instruction i), .error (.read .endOfInput), .error (.read .endOfInput)] := by
  intro words i
  have hfits : words.length ≤ Memory.size := by decide
  have hreading : ∀ request ∈ [Request.load, .next, .load], request.isReading = true := by decide
  have hmemory := readers_agree.2.1 words hfits [.load, .next]
  have hbytes := (readers_agree.2.2 .big words [.load, .next, .load] hreading).2
  exact ⟨hfits, hmemory, hreading, hbytes⟩

end Dcpu
