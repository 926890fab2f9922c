import Dcpu.Text.Hex
import Dcpu.Text.Printable

/-! Quoted text, for names in messages: what cannot be shown is written as an escape. -/
namespace Dcpu.Text

/-- The form of one character between the quotes: a short escape if it has one, itself if it can
be shown, else its code point in hexadecimal between braces. -/
def escape (c : Char) : String :=
  match c with
  | '\x00' => "\\0"
  | '\t' => "\\t"
  | '\r' => "\\r"
  | '\n' => "\\n"
  | '"' => "\\\""
  | '\\' => "\\\\"
  | _ =>
    if isPrintable c then c.toString
    else "\\u\x7b" ++ hexDigits 1 c.toNat ++ "\x7d"

def quoted (s : String) : String := "\"" ++ String.join (s.toList.map escape) ++ "\""

end Dcpu.Text
