/-! Sixteen-bit words, their signed reading, and the halves of a double word. -/
namespace Dcpu

/-- A cell of memory, which is also an address. Its arithmetic wraps at `2 ^ 16`. -/
abbrev Word := UInt16

namespace Word

/-- The value of a word in two's complement. -/
def signed (w : Word) : Int := w.toInt16.toInt

/-- The word whose bits are those of a signed number. -/
def ofSigned (n : Int16) : Word := n.toUInt16

/-- The signed reading as a double word, with the sign copied into the high half. -/
def extend (w : Word) : Int32 := w.toInt16.toInt32

/-- The high and the low half of a double word, in this order. -/
def split (d : UInt32) : Word × Word := ((d >>> 16).toUInt16, d.toUInt16)

theorem signed_eq_ite (w : Word) :
    w.signed = if w.toNat < 0x8000 then (w.toNat : Int) else w.toNat - 0x10000 := by
  have h : w.signed = w.toBitVec.toInt := rfl
  rw [h, BitVec.toInt_eq_toNat_cond, UInt16.toNat_toBitVec]
  split <;> split <;> omega

theorem signed_eq_toInt_extend (w : Word) : w.extend.toInt = w.signed := by
  simp [extend, signed]

end Word

end Dcpu
