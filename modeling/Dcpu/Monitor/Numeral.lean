/-! Numbers as they are typed: decimal, or hexadecimal after `0x`, of at most 64 bits. -/
namespace Dcpu.Monitor

inductive NumeralFault where
  | empty
  | invalidDigit
  | tooLarge
deriving DecidableEq

def NumeralFault.message : NumeralFault → String
  | empty => "cannot parse integer from empty string"
  | invalidDigit => "invalid digit found in string"
  | tooLarge => "number too large to fit in target type"

namespace Numeral

/-- What numbers have to stay below: they have 64 bits. -/
def bound : Nat := 0x10000000000000000

/-- The value of a digit in a base of at most 36. Letters of either case follow nine. -/
def digit? (base : Nat) (c : Char) : Option Nat :=
  let value :=
    if '0' ≤ c ∧ c ≤ '9' then c.toNat - '0'.toNat
    else if 'a' ≤ c ∧ c ≤ 'z' then c.toNat - 'a'.toNat + 10
    else if 'A' ≤ c ∧ c ≤ 'Z' then c.toNat - 'A'.toNat + 10
    else base
  if value < base then some value else none

/-- Read digits on behind a number that has been read. The leftmost fault is reported: a character
that is no digit, or the digit with which the number outgrows 64 bits. -/
def readDigits (base value : Nat) : List Char → Except NumeralFault Nat
  | [] => .ok value
  | c :: cs =>
    match digit? base c with
    | none => .error .invalidDigit
    | some d =>
      let value := value * base + d
      if value < bound then readDigits base value cs else .error .tooLarge

/-- Read digits that a plus sign may precede. -/
def readUnsigned (base : Nat) : List Char → Except NumeralFault Nat
  | [] => .error .empty
  | ['+'] => .error .invalidDigit
  | '+' :: cs => readDigits base 0 cs
  | cs => readDigits base 0 cs

def read (text : String) : Except NumeralFault Nat :=
  match text.toList with
  | '0' :: 'x' :: cs => readUnsigned 16 cs
  | '0' :: 'X' :: cs => readUnsigned 16 cs
  | cs => readUnsigned 10 cs

end Numeral

end Dcpu.Monitor
