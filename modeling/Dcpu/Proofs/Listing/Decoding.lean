import Dcpu.Proofs.Listing.Lossless
import Dcpu.Proofs.Reading.Agreement
import Dcpu.Proofs.Reading.Memory

/-! All ways to list machine code agree: item by item from a stream of bytes, all at once, as a
text, as a file and from memory. They find what can be loaded from the whole words of the bytes.
What ends it is a fault, unless it is the end of the bytes and cuts off neither an instruction nor a
word. -/
namespace Dcpu

open Stateful WordReader

/-- The words of whole pairs. A lone last byte makes up none. -/
def ByteOrder.wholeWords (o : ByteOrder) : List UInt8 → List Word
  | first :: second :: rest => o.word first second :: o.wholeWords rest
  | [] | [_] => []

/-- Only a read of the instruction word fails with the end of the input. -/
theorem Instruction.next_of_load_eq_endOfInput {σ : Type} [WordReader σ] {s t : σ}
    (h : load s = .error (.read .endOfInput) t) : next s = .error .endOfInput t := by
  unfold load at h
  obtain h | ⟨w, u, -, h⟩ := bind_eq_error_iff.1 h
  · obtain ⟨_, hnext, ⟨⟩⟩ := adaptExcept_eq_error_iff.1 h
    exact hnext
  · cases hi : ofWord w with
    | error e =>
      obtain ⟨code, hcode⟩ := opcode_missing_of_ofWord hi
      rw [hi] at h
      cases h
      obtain hcode | hcode := hcode <;> cases hcode
    | ok i =>
      rw [hi] at h
      obtain ⟨e, -, he⟩ := adaptExcept_eq_error_iff.1 h
      cases e <;> cases he

namespace WordCursor

theorem length_lt_of_load {c d : WordCursor} {i : Instruction}
    (h : Instruction.load c = .ok i d) : d.rest.length < c.rest.length := by
  obtain ⟨-, words, he, hs⟩ := Instruction.load_eq_ok_iff.1 h
  have hpos := Instruction.length_pos_of_encode he
  rw [(supplies_iff.1 hs).1, List.length_append]
  omega

/-- What can be loaded one after the other, and the failure that puts an end to it. -/
def decodeAll (c : WordCursor) : List Instruction × DecodeError :=
  match _ : Instruction.load c with
  | .error e _ => ([], e)
  | .ok i d =>
    let (is, e) := decodeAll d
    (i :: is, e)
termination_by c.rest.length
decreasing_by exact length_lt_of_load ‹_›

theorem decodeAll_of_error {c d : WordCursor} {e : DecodeError}
    (h : Instruction.load c = .error e d) : c.decodeAll = ([], e) := by
  rw [decodeAll]
  split
  · next h' =>
    rw [h] at h'
    cases h'
    rfl
  · next h' => simp [h] at h'

theorem decodeAll_of_ok {c d : WordCursor} {i : Instruction}
    (h : Instruction.load c = .ok i d) :
    c.decodeAll = (i :: d.decodeAll.1, d.decodeAll.2) := by
  rw [decodeAll]
  split
  · next h' => simp [h] at h'
  · next h' =>
    rw [h] at h'
    cases h'
    rfl

end WordCursor

/-- Instructions in a row, and the fault that follows them if there is one. -/
structure Decoding where
  instructions : List Instruction
  fault : Option DecodeError
deriving DecidableEq

namespace Decoding

def items (x : Decoding) : List (Except DecodeError Instruction) :=
  x.instructions.map .ok ++ (x.fault.map .error).toList

/-- The instructions, unless a fault follows them. -/
def result (x : Decoding) : Except DecodeError (List Instruction) :=
  match x.fault with
  | none => .ok x.instructions
  | some e => .error e

theorem items_cons (i : Instruction) (is : List Instruction) (fault : Option DecodeError) :
    items ⟨i :: is, fault⟩ = .ok i :: items ⟨is, fault⟩ := rfl

theorem mapM_items {β : Type} (x : Decoding) (f : Instruction → β) :
    x.items.mapM (·.map f) = x.result.map (List.map f) := by
  obtain ⟨is, fault⟩ := x
  induction is with
  | nil => cases fault <;> rfl
  | cons i is ih =>
    rw [items_cons, List.mapM_cons, ih]
    cases fault <;> rfl

end Decoding

namespace ByteReader

/-- What a failure on the whole words is to the stream. The end of the words is a fault only if it
cuts off a word. -/
def fault? (r : ByteReader) : DecodeError → Option DecodeError
  | .read .endOfInput => if r.bytes.length % 2 = 0 then none else some .incomplete
  | e => some e

/-- What can be loaded from the whole words of the stream. -/
def decoding (r : ByteReader) : Decoding :=
  let (is, e) := (WordCursor.ofList (r.order.wholeWords r.bytes)).decodeAll
  ⟨is, r.fault? e⟩

/-- What the stream answers when it is asked for an item again and again, from question zero on. -/
def answer (r : ByteReader) : Nat → Option (Except DecodeError Instruction)
  | 0 => r.nextItem.1
  | n + 1 => r.nextItem.2.answer n

theorem nextItem_of_bytes_eq_nil {r : ByteReader} (h : r.bytes = []) : r.nextItem = (none, r) := by
  simp [nextItem, instruction, isExhausted, h]

/-- The cursor stands before the whole words of the stream. -/
def Reads (order : ByteOrder) (c : WordCursor) (r : ByteReader) : Prop :=
  r.order = order ∧ c.rest = order.wholeWords r.bytes

theorem next_agree {order : ByteOrder} {c : WordCursor} {r : ByteReader}
    (h : Reads order c r) : Agree (Reads order) (next c) (next r) := by
  obtain ⟨rfl, hrest⟩ := h
  obtain ⟨order, bytes⟩ := r
  obtain ⟨rest, position⟩ := c
  match bytes with
  | [] | [_] =>
    obtain rfl : rest = [] := hrest
    exact .error ⟨rfl, rfl⟩
  | first :: second :: tail =>
    obtain rfl : rest = order.word first second :: order.wholeWords tail := hrest
    exact .ok ⟨rfl, rfl⟩

theorem length_of_supplies {r s : ByteReader} {words : List Word} (h : Supplies r words s) :
    r.bytes.length = 2 * words.length + s.bytes.length := by
  induction h with
  | nil r => simp
  | cons head tail ih =>
    obtain ⟨first, second, hb, -, -⟩ := next_eq_ok_iff.1 head
    rw [hb]
    simp only [List.length_cons]
    omega

theorem length_eq_one_of_next {r s : ByteReader} {e : ReadError}
    (h : (next : EStateM ReadError ByteReader Word) r = .error e s) (hnil : r.bytes ≠ []) :
    r.bytes.length = 1 := by
  simp only [next] at h
  split at h
  · cases h
  · contradiction
  · next hb => rw [hb]; rfl

theorem nextItem_of_load_ok {r s : ByteReader} {i : Instruction}
    (h : Instruction.load r = .ok i s) : r.nextItem = (some (.ok i), s) := by
  obtain ⟨-, words, he, hs⟩ := Instruction.load_eq_ok_iff.1 h
  have hpos := Instruction.length_pos_of_encode he
  have hlength := length_of_supplies hs
  have hbytes : r.bytes ≠ [] := by
    intro hnil
    rw [hnil, List.length_nil] at hlength
    omega
  simp [nextItem, instruction, isExhausted, hbytes, EStateM.run, h]

theorem nextItem_of_load_error {r s : ByteReader} {e : DecodeError}
    (h : Instruction.load r = .error e s) : r.nextItem.1 = (r.fault? e).map .error := by
  by_cases hnil : r.bytes = []
  · have hnext : (next : EStateM ReadError ByteReader Word) r = .error .endOfInput r.drain := by
      simp [next, hnil]
    have hload : Instruction.load r = .error (.read .endOfInput) r.drain :=
      bind_of_error (adaptExcept_of_error hnext)
    rw [h] at hload
    cases hload
    simp [nextItem_of_bytes_eq_nil hnil, fault?, hnil]
  · by_cases he : e = .read .endOfInput
    · -- The end of the input is reported as such by the read of the first word alone, so that no
      -- more than half a word is left.
      subst he
      have hodd := length_eq_one_of_next (Instruction.next_of_load_eq_endOfInput h) hnil
      simp [nextItem, instruction, isExhausted, hnil, EStateM.run, h, fault?, hodd]
    · have hfault : r.fault? e = some e := by
        unfold fault?
        split
        · exact absurd rfl he
        · rfl
      have hinstruction : r.instruction = .error e s := by
        simp [instruction, isExhausted, hnil, EStateM.run, h, he]
      simp [nextItem, hinstruction, hfault]

/-- Nothing can be read behind a fault. -/
theorem items_of_nextItem_eq_error {r s : ByteReader} {e : DecodeError}
    (h : r.nextItem = (some (.error e), s)) : r.items = [.error e] := by
  have hs : s.bytes = [] := by
    unfold nextItem at h
    split at h
    · cases h
    · cases h
    · cases h
      rfl
  rw [items_of_nextItem_eq_some h, items_of_nextItem_eq_none (nextItem_of_bytes_eq_nil hs)]

theorem items_of_load_error {r s : ByteReader} {e : DecodeError}
    (h : Instruction.load r = .error e s) : r.items = ((r.fault? e).map .error).toList := by
  have hitem := nextItem_of_load_error h
  cases hn : r.nextItem with | mk item t =>
  rw [hn] at hitem
  obtain rfl : item = (r.fault? e).map .error := hitem
  cases hfault : r.fault? e with
  | none =>
    rw [hfault] at hn
    exact items_of_nextItem_eq_none hn
  | some fault =>
    rw [hfault] at hn
    exact items_of_nextItem_eq_error hn

/-- Loading takes whole words, so that the stream ends as it would have ended before. -/
theorem fault?_of_load {r s : ByteReader} {i : Instruction} (h : Instruction.load r = .ok i s) :
    r.fault? = s.fault? := by
  obtain ⟨-, words, -, hs⟩ := Instruction.load_eq_ok_iff.1 h
  have hlength := length_of_supplies hs
  have hparity : r.bytes.length % 2 = s.bytes.length % 2 := by omega
  funext e
  unfold fault?
  rw [hparity]

/-- The stream keeps pace with a cursor on its whole words, until the cursor can load no more. -/
theorem items_eq_of_rest {r : ByteReader} {c : WordCursor}
    (h : c.rest = r.order.wholeWords r.bytes) :
    r.items = Decoding.items ⟨c.decodeAll.1, r.fault? c.decodeAll.2⟩ := by
  induction c using WordCursor.decodeAll.induct generalizing r with
  | case1 c e d hc =>
    have hagree := Instruction.load_agree next_agree (show Reads r.order c r from ⟨rfl, h⟩)
    rw [hc] at hagree
    generalize hload : Instruction.load r = result at hagree
    cases hagree
    rw [items_of_load_error hload, WordCursor.decodeAll_of_error hc]
    rfl
  | case2 c i d hc _ _ _ ih =>
    have hagree := Instruction.load_agree next_agree (show Reads r.order c r from ⟨rfl, h⟩)
    rw [hc] at hagree
    generalize hload : Instruction.load r = result at hagree
    cases hagree with | @ok _ _ s hs =>
    have hrest : d.rest = s.order.wholeWords s.bytes := by rw [hs.1, hs.2]
    rw [items_of_nextItem_eq_some (nextItem_of_load_ok hload), ih hrest,
      WordCursor.decodeAll_of_ok hc, fault?_of_load hload, Decoding.items_cons]

theorem items_eq (r : ByteReader) : r.items = r.decoding.items := items_eq_of_rest rfl

theorem instructions_eq (r : ByteReader) : r.instructions = r.decoding.result := by
  have hid : (·.map id) = (id : Except DecodeError Instruction → _) := Except.map_id
  unfold instructions
  rw [items_eq, ← hid, Decoding.mapM_items]
  cases r.decoding.result <;> simp [Except.map]

theorem text_eq (r : ByteReader) : r.text =
    r.decoding.result.map fun is => String.join (is.map fun i => i.text ++ "\n") := by
  unfold text
  rw [items_eq, Decoding.mapM_items]
  cases r.decoding.result <;> rfl

end ByteReader

end Dcpu
