import Dcpu.Opcode

/-! Word arithmetic. Each function takes the destination's value `b` before the source's value `a`.
Those that produce an excess word return it as the second component, next to the result. -/
namespace Dcpu.Arithmetic

open Word

/-- A double word as result and excess. -/
def lowFirst (d : UInt32) : Word × Word := (split d).swap

def add (b a : Word) : Word × Word := lowFirst (b.toUInt32 + a.toUInt32)

/-- A borrow fills the excess word. -/
def sub (b a : Word) : Word × Word := lowFirst (b.toUInt32 - a.toUInt32)

def mul (b a : Word) : Word × Word := lowFirst (b.toUInt32 * a.toUInt32)

/-- Signed product. -/
def mli (b a : Word) : Word × Word := lowFirst (extend b * extend a).toUInt32

/-- Quotient, with the sixteen binary places that follow it. -/
def div (b a : Word) : Word × Word :=
  if a = 0 then (0, 0)
  else (b / a, ((b.toUInt32 <<< 16) / a.toUInt32).toUInt16)

/-- Signed quotient, rounded toward zero, with the sixteen binary places that follow it. -/
def dvi (b a : Word) : Word × Word :=
  if a = 0 then (0, 0)
  else
    let dividend := (extend b).toInt64
    let divisor := (extend a).toInt64
    ((dividend / divisor).toInt16.toUInt16, ((dividend <<< 16) / divisor).toInt16.toUInt16)

def mod (b a : Word) : Word := if a = 0 then 0 else b % a

/-- Signed remainder, with the sign of `b`. -/
def mdi (b a : Word) : Word := if a = 0 then 0 else (extend b % extend a).toInt16.toUInt16

/-- The excess holds the bits shifted out on the left. -/
def shl (b a : Word) : Word × Word :=
  lowFirst (if a < 32 then b.toUInt32 <<< a.toUInt32 else 0)

/-- The excess holds the bits shifted out on the right. -/
def shr (b a : Word) : Word × Word :=
  split (if a < 32 then (b.toUInt32 <<< 16) >>> a.toUInt32 else 0)

/-- Shift right with copies of the sign coming in. -/
def asr (b a : Word) : Word × Word :=
  let wide := extend b <<< 16
  split (if a < 32 then wide >>> a.toUInt32.toInt32 else if wide < 0 then -1 else 0).toUInt32

/-- Sum of three words. The excess tells whether it overflows. -/
def adx (ex b a : Word) : Word × Word :=
  let sum := b.toUInt32 + a.toUInt32 + ex.toUInt32
  (sum.toUInt16, if sum > 0xffff then 1 else 0)

/-- Difference plus the signed reading of `ex`. The excess tells whether it underflows (`-1`) or
overflows (`1`). -/
def sbx (ex b a : Word) : Word × Word :=
  let difference := b.toUInt32.toInt32 - a.toUInt32.toInt32 + extend ex
  (difference.toInt16.toUInt16,
    if difference < 0 then 0xffff else if difference > 0xffff then 1 else 0)

end Dcpu.Arithmetic

namespace Dcpu.Operation

def withExcess (r : Word × Word) : Word × Option Word := (r.1, some r.2)

/-- The word for the destination, and the new excess word if the operation has one. -/
def eval (op : Operation) (ex b a : Word) : Word × Option Word :=
  match op with
  | set | sti | std => (a, none)
  | add => withExcess (Arithmetic.add b a)
  | sub => withExcess (Arithmetic.sub b a)
  | mul => withExcess (Arithmetic.mul b a)
  | mli => withExcess (Arithmetic.mli b a)
  | div => withExcess (Arithmetic.div b a)
  | dvi => withExcess (Arithmetic.dvi b a)
  | mod => (Arithmetic.mod b a, none)
  | mdi => (Arithmetic.mdi b a, none)
  | and => (b &&& a, none)
  | bor => (b ||| a, none)
  | xor => (b ^^^ a, none)
  | shr => withExcess (Arithmetic.shr b a)
  | asr => withExcess (Arithmetic.asr b a)
  | shl => withExcess (Arithmetic.shl b a)
  | adx => withExcess (Arithmetic.adx ex b a)
  | sbx => withExcess (Arithmetic.sbx ex b a)

end Dcpu.Operation
