import Dcpu.Fallible
import Dcpu.ByteOrder

/-! Words written as bytes. In either order a word and a pair of bytes determine each other, so that
a list of words has exactly one list of bytes that makes it up. -/
namespace Dcpu.ByteOrder

open Fallible

/-- The two bytes of a word, in the order in which they stand. -/
def split (o : ByteOrder) (w : Word) : UInt8 × UInt8 :=
  match o with
  | little => (w.toUInt8, (w >>> 8).toUInt8)
  | big => ((w >>> 8).toUInt8, w.toUInt8)

/-- The bytes of words, pair by pair. -/
def bytes (o : ByteOrder) : List Word → List UInt8
  | [] => []
  | w :: words => (o.split w).1 :: (o.split w).2 :: o.bytes words

private theorem toNat_pair (high low : UInt8) :
    (high.toUInt16 <<< 8 ||| low.toUInt16).toNat = high.toNat * 256 + low.toNat := by
  have hhigh := high.toNat_lt
  have hlow := low.toNat_lt
  have hshift : (high.toUInt16 <<< 8).toNat = high.toNat <<< 8 := by
    rw [UInt16.toNat_shiftLeft, UInt8.toNat_toUInt16]
    apply Nat.mod_eq_of_lt
    simp only [UInt16.reduceToNat, Nat.reduceMod, Nat.shiftLeft_eq]
    omega
  rw [UInt16.toNat_or, hshift, UInt8.toNat_toUInt16, ← Nat.shiftLeft_add_eq_or_of_lt hlow,
    Nat.shiftLeft_eq]

private theorem toNat_low (w : Word) : w.toUInt8.toNat = w.toNat % 256 := by
  simp

private theorem toNat_high (w : Word) : (w >>> 8).toUInt8.toNat = w.toNat / 256 := by
  have hw := w.toNat_lt
  have hshift : (w >>> 8).toNat = w.toNat / 256 := by
    simp [Nat.shiftRight_eq_div_pow]
  rw [toNat_low, hshift]
  omega

private theorem pair_halves (w : Word) :
    (w >>> 8).toUInt8.toUInt16 <<< 8 ||| w.toUInt8.toUInt16 = w := by
  apply UInt16.toNat_inj.1
  rw [toNat_pair, toNat_high, toNat_low]
  omega

private theorem halves_pair (high low : UInt8) :
    ((high.toUInt16 <<< 8 ||| low.toUInt16) >>> 8).toUInt8 = high ∧
      (high.toUInt16 <<< 8 ||| low.toUInt16).toUInt8 = low := by
  have hhigh := high.toNat_lt
  have hlow := low.toNat_lt
  constructor
  · apply UInt8.toNat_inj.1
    rw [toNat_high, toNat_pair]
    omega
  · apply UInt8.toNat_inj.1
    rw [toNat_low, toNat_pair]
    omega

theorem word_split (o : ByteOrder) (w : Word) : o.word (o.split w).1 (o.split w).2 = w := by
  cases o with
  | little => exact pair_halves w
  | big => exact pair_halves w

theorem split_word (o : ByteOrder) (first second : UInt8) :
    o.split (o.word first second) = (first, second) := by
  cases o with
  | little =>
    obtain ⟨hhigh, hlow⟩ := halves_pair second first
    exact Prod.ext hlow hhigh
  | big =>
    obtain ⟨hhigh, hlow⟩ := halves_pair first second
    exact Prod.ext hhigh hlow

@[simp] theorem words_bytes (o : ByteOrder) (words : List Word) :
    o.words (o.bytes words) = .ok words := by
  induction words with
  | nil => rfl
  | cons w words ih => simp [bytes, ByteOrder.words, ih, word_split, Except.map]

/-- The bytes that make up words are those that the words are written as. -/
theorem words_eq_ok_iff {o : ByteOrder} {bytes : List UInt8} {words : List Word} :
    o.words bytes = .ok words ↔ bytes = o.bytes words := by
  constructor
  · intro h
    fun_induction o.words bytes generalizing words with
    | case1 =>
      cases h
      rfl
    | case2 => cases h
    | case3 first second rest ih =>
      obtain ⟨tail, htail, rfl⟩ := map_eq_ok_iff.1 h
      rw [ByteOrder.bytes, split_word, ← ih htail]
  · intro h
    rw [h, words_bytes]

end Dcpu.ByteOrder
