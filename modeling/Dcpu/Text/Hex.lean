import Dcpu.Word

/-! Hexadecimal numbers as listings print them: lowercase, with a least number of digits. -/
namespace Dcpu.Text

/-- The digits of `n`, with zeros in front of them up to `width`. -/
def hexDigits (width n : Nat) : String :=
  String.ofList ((Nat.toDigits 16 n).leftpad width '0')

/-- A word as it stands in memory dumps: four digits. -/
def bareHex (w : Word) : String := hexDigits 4 w.toNat

/-- A word as it stands in assembly text: four digits after `0x`. -/
def hex (w : Word) : String := "0x" ++ hexDigits 4 w.toNat

/-- A field of an instruction word as it stands in error messages: two digits, or more if it has
more. -/
def hexField (w : Word) : String := "0x" ++ hexDigits 2 w.toNat

end Dcpu.Text
