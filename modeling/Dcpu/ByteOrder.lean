import Dcpu.WordReader

/-! Words as pairs of bytes, in either order. -/
namespace Dcpu

inductive ByteOrder where
  /-- Least significant byte first. -/
  | little
  /-- Most significant byte first. -/
  | big
deriving DecidableEq

namespace ByteOrder

/-- The word that two bytes make up, in the order in which they stand. -/
def word (o : ByteOrder) (first second : UInt8) : Word :=
  match o with
  | little => second.toUInt16 <<< 8 ||| first.toUInt16
  | big => first.toUInt16 <<< 8 ||| second.toUInt16

/-- The words of a whole number of pairs. -/
def words (o : ByteOrder) : List UInt8 → Except ReadError (List Word)
  | [] => .ok []
  | [_] => .error .endOfInput
  | first :: second :: rest => (o.words rest).map (o.word first second :: ·)

end ByteOrder

end Dcpu
