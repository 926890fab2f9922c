import Dcpu.ByteOrder
import Dcpu.Instruction.Decode
import Dcpu.Stateful

/-! Instructions read from a stream of bytes. The stream ends cleanly only between instructions, and
with its first fault. -/
namespace Dcpu

structure ByteReader where
  order : ByteOrder
  bytes : List UInt8
deriving DecidableEq

namespace ByteReader

open Stateful

def isExhausted (r : ByteReader) : Bool := r.bytes.isEmpty

/-- The reader without any bytes left. -/
def drain (r : ByteReader) : ByteReader := { r with bytes := [] }

/-- A lone last byte is used up by the read that fails on it. Bytes cannot be passed over unread. -/
instance : WordReader ByteReader where
  next := fun r =>
    match r.bytes with
    | first :: second :: rest => .ok (r.order.word first second) { r with bytes := rest }
    | [] | [_] => .error .endOfInput r.drain
  skip := fun _ r => .error .cannotSkip r

/-- The next instruction. The stream has ended cleanly only if it has no byte left: half a word is
the beginning of an instruction. -/
def instruction : EStateM DecodeError ByteReader Instruction := fun r =>
  if r.isExhausted then .error (.read .endOfInput) r
  else
    match Instruction.load.run r with
    | .error (.read .endOfInput) r' => .error .incomplete r'
    | result => result

/-- The next instruction or the fault that ends the stream; nothing after the end. -/
def nextItem (r : ByteReader) : Option (Except DecodeError Instruction) × ByteReader :=
  match r.instruction with
  | .ok i r' => (some (.ok i), r')
  | .error (.read .endOfInput) r' => (none, r')
  | .error e r' => (some (.error e), r'.drain)

theorem length_lt_of_next {r r' : ByteReader} {w : Word}
    (h : (WordReader.next : EStateM ReadError ByteReader Word) r = .ok w r') :
    r'.bytes.length < r.bytes.length := by
  simp only [WordReader.next] at h
  split at h
  · next hb =>
    cases h
    simp only [hb, List.length_cons]
    omega
  all_goals cases h

theorem length_le_of_load {r r' : ByteReader} {o o' : Operand} (h : o.load r = .ok o' r') :
    r'.bytes.length ≤ r.bytes.length := by
  unfold Operand.load at h
  cases ho : o.extra? <;> simp only [ho] at h
  · cases (pure_eq_ok_iff.1 h).2
    exact Nat.le_refl _
  · obtain ⟨_, _, hn, h⟩ := bind_eq_ok_iff.1 h
    cases (pure_eq_ok_iff.1 h).2
    exact Nat.le_of_lt (length_lt_of_next hn)

theorem length_le_of_loadExtra {r r' : ByteReader} {i i' : Instruction}
    (h : i.loadExtra r = .ok i' r') : r'.bytes.length ≤ r.bytes.length := by
  obtain ⟨_, _, ha, h⟩ := bind_eq_ok_iff.1 h
  have ha := length_le_of_load ha
  cases hb : i.b <;> simp only [hb] at h
  · cases (pure_eq_ok_iff.1 h).2
    exact ha
  · obtain ⟨_, _, hb, h⟩ := bind_eq_ok_iff.1 h
    cases (pure_eq_ok_iff.1 h).2
    exact Nat.le_trans (length_le_of_load hb) ha

theorem length_lt_of_instruction {r r' : ByteReader} {i : Instruction}
    (h : r.instruction = .ok i r') : r'.bytes.length < r.bytes.length := by
  unfold instruction at h
  split at h
  · cases h
  · split at h
    · cases h
    · obtain ⟨w, _, hw, h⟩ := bind_eq_ok_iff.1 h
      have hw := length_lt_of_next (adaptExcept_eq_ok_iff.1 hw)
      cases hi : Instruction.ofWord w <;> simp only [hi] at h
      · exact absurd h throw_ne_ok
      · exact Nat.lt_of_le_of_lt (length_le_of_loadExtra (adaptExcept_eq_ok_iff.1 h)) hw

theorem length_lt_of_nextItem {r r' : ByteReader} {item : Except DecodeError Instruction}
    (h : r.nextItem = (some item, r')) : r'.bytes.length < r.bytes.length := by
  unfold nextItem at h
  split at h
  · next hi =>
    cases h
    exact length_lt_of_instruction hi
  · cases h
  · next e _ he hi =>
    cases h
    cases hb : r.bytes with
    | nil => simp_all [instruction, isExhausted]
    | cons => simp [drain]

/-- Everything the stream yields: instructions, and a fault as the last item if one ends it. -/
def items (r : ByteReader) : List (Except DecodeError Instruction) :=
  match _ : r.nextItem with
  | (none, _) => []
  | (some item, r') => item :: items r'
termination_by r.bytes.length
decreasing_by exact length_lt_of_nextItem ‹_›

end ByteReader

end Dcpu
