import Dcpu.Listing.Basic
import Dcpu.Proofs.Program.Assembly

/-! Listings lose nothing: a stream of bytes that decodes to the end is written back word for
word. -/
namespace Dcpu

open Fallible WordReader

theorem ByteOrder.length_of_words {order : ByteOrder} {bytes : List UInt8} {words : List Word}
    (h : order.words bytes = .ok words) : bytes.length = 2 * words.length := by
  fun_induction order.words bytes generalizing words with
  | case1 =>
    cases h
    rfl
  | case2 => cases h
  | case3 first second rest ih =>
    obtain ⟨tail, htail, rfl⟩ := map_eq_ok_iff.1 h
    have hlength := ih htail
    simp only [List.length_cons]
    omega

namespace ByteReader

theorem next_eq_ok_iff {r s : ByteReader} {w : Word} :
    (next : EStateM ReadError ByteReader Word) r = .ok w s ↔ ∃ first second,
      r.bytes = first :: second :: s.bytes ∧ s.order = r.order ∧ w = r.order.word first second := by
  obtain ⟨order, bytes⟩ := r
  obtain ⟨order', bytes'⟩ := s
  match bytes with
  | [] | [_] => simp [next]
  | first :: second :: rest =>
    simp only [next, EStateM.Result.ok.injEq, mk.injEq, List.cons.injEq]
    grind

/-- Reading takes the words that the bytes make up, from the front. -/
theorem words_of_supplies {r s : ByteReader} {words : List Word} (h : Supplies r words s) :
    s.order = r.order ∧ r.order.words r.bytes = (r.order.words s.bytes).map (words ++ ·) := by
  induction h with
  | nil r => exact ⟨rfl, by cases r.order.words r.bytes <;> rfl⟩
  | @cons r t s w words head tail ih =>
    obtain ⟨first, second, hb, ho, rfl⟩ := next_eq_ok_iff.1 head
    obtain ⟨hs, ih⟩ := ih
    refine ⟨hs.trans ho, ?_⟩
    rw [hb, ByteOrder.words, ← ho, ih]
    cases t.order.words s.bytes <;> rfl

/-- Only an empty stream ends without a fault. -/
theorem bytes_eq_nil_of_nextItem {r s : ByteReader} (h : r.nextItem = (none, s)) :
    r.bytes = [] := by
  unfold nextItem at h
  split at h
  · cases h
  · next hi =>
    unfold instruction at hi
    split at hi
    · next hempty => simpa [isExhausted] using hempty
    · split at hi
      · cases hi
      · next hother => exact absurd hi (hother _)
  · cases h

theorem load_of_nextItem {r s : ByteReader} {i : Instruction}
    (h : r.nextItem = (some (.ok i), s)) : Instruction.load r = .ok i s := by
  unfold nextItem at h
  split at h
  · next hi =>
    cases h
    unfold instruction at hi
    split at hi
    · cases hi
    · split at hi
      · cases hi
      · exact hi
  all_goals cases h

theorem items_of_nextItem_eq_none {r s : ByteReader} (h : r.nextItem = (none, s)) :
    r.items = [] := by
  rw [items]
  split
  · rfl
  · next h' => simp [h] at h'

theorem items_of_nextItem_eq_some {r s : ByteReader} {item : Except DecodeError Instruction}
    (h : r.nextItem = (some item, s)) : r.items = item :: s.items := by
  rw [items]
  split
  · next h' => simp [h] at h'
  · next h' =>
    rw [h] at h'
    cases h'
    rfl

/-- The decoded instructions are written back as the words of the stream. -/
theorem exists_words_of_instructions {r : ByteReader} {is : List Instruction}
    (h : r.instructions = .ok is) :
    ∃ words, r.order.words r.bytes = .ok words ∧ Program.assemble is = .ok words := by
  unfold instructions at h
  induction r using items.induct generalizing is with
  | case1 r s hn =>
    rw [items_of_nextItem_eq_none hn] at h
    cases h
    exact ⟨[], by rw [bytes_eq_nil_of_nextItem hn]; rfl, rfl⟩
  | case2 r item s hn ih =>
    rw [items_of_nextItem_eq_some hn, List.mapM_cons, bind_eq_ok_iff] at h
    obtain ⟨i, hitem, h⟩ := h
    obtain ⟨tail, htail, hcons⟩ := bind_eq_ok_iff.1 h
    obtain rfl : item = .ok i := hitem
    cases hcons
    obtain ⟨rest, hrest, hassemble⟩ := ih htail
    obtain ⟨-, words, he, hsupplies⟩ := Instruction.load_eq_ok_iff.1 (load_of_nextItem hn)
    obtain ⟨ho, hwords⟩ := words_of_supplies hsupplies
    refine ⟨words ++ rest, ?_, Program.assemble_cons_eq_ok_iff.2
      ⟨words, rest, he, hassemble, rfl⟩⟩
    rw [hwords, ← ho, hrest]
    rfl

/-- A stream that decodes to its end consists of whole words, and they are the machine code of what
it decodes to. -/
theorem assemble_instructions {order : ByteOrder} {bytes : List UInt8} {is : List Instruction}
    (h : (ByteReader.mk order bytes).instructions = .ok is) :
    bytes.length % 2 = 0 ∧
      ∃ words, order.words bytes = .ok words ∧ Program.assemble is = .ok words := by
  obtain ⟨words, hwords, hassemble⟩ := exists_words_of_instructions h
  refine ⟨?_, words, hwords, hassemble⟩
  rw [ByteOrder.length_of_words hwords]
  exact Nat.mul_mod_right 2 words.length

/-- Two instructions in four words, with the source's extra word before the destination's. -/
theorem assemble_instructions_of_pair :
    (ByteReader.mk .big [0x7e, 0x01, 0x12, 0x34, 0x00, 0x02, 0x8b, 0x23]).instructions =
      .ok [⟨.operate .set, some (.indexed .a 2), .immediate 0x1234⟩,
        ⟨.operate .sub, some .peek, .literal 1⟩] ∧
    [0x7e, 0x01, 0x12, 0x34, 0x00, 0x02, 0x8b, 0x23].length % 2 = 0 ∧
    ∃ words, ByteOrder.big.words [0x7e, 0x01, 0x12, 0x34, 0x00, 0x02, 0x8b, 0x23] = .ok words ∧
      Program.assemble [⟨.operate .set, some (.indexed .a 2), .immediate 0x1234⟩,
        ⟨.operate .sub, some .peek, .literal 1⟩] = .ok words := by
  have hitems : (ByteReader.mk .big [0x7e, 0x01, 0x12, 0x34, 0x00, 0x02, 0x8b, 0x23]).items =
      [.ok ⟨.operate .set, some (.indexed .a 2), .immediate 0x1234⟩,
        .ok ⟨.operate .sub, some .peek, .literal 1⟩] := by cbv
  have h := congrArg (List.mapM id) hitems
  exact ⟨h, assemble_instructions h⟩

end ByteReader

end Dcpu
