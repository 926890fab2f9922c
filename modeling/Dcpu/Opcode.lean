import Dcpu.Word

/-! What instructions do, with the codes and mnemonics. Opcodes live in two tables: the binary one,
and the special one, whose instructions have a single operand. -/
namespace Dcpu

/-- The operations that compute a word for their destination. -/
inductive Operation where
  | set | add | sub | mul | mli | div | dvi | mod | mdi
  | and | bor | xor | shr | asr | shl | adx | sbx | sti | std
deriving DecidableEq

/-- The comparisons that decide whether the next instruction runs. -/
inductive Condition where
  | ifb | ifc | ife | ifn | ifg | ifa | ifl | ifu
deriving DecidableEq

inductive Opcode where
  /-- Call a subroutine: the only special instruction. -/
  | jsr
  | operate (op : Operation)
  | test (c : Condition)
deriving DecidableEq

namespace Operation

def all : List Operation :=
  [set, add, sub, mul, mli, div, dvi, mod, mdi, and, bor, xor, shr, asr, shl, adx, sbx, sti, std]

def mnemonic : Operation → String
  | set => "SET"
  | add => "ADD"
  | sub => "SUB"
  | mul => "MUL"
  | mli => "MLI"
  | div => "DIV"
  | dvi => "DVI"
  | mod => "MOD"
  | mdi => "MDI"
  | and => "AND"
  | bor => "BOR"
  | xor => "XOR"
  | shr => "SHR"
  | asr => "ASR"
  | shl => "SHL"
  | adx => "ADX"
  | sbx => "SBX"
  | sti => "STI"
  | std => "STD"

def code : Operation → Word
  | set => 0x01
  | add => 0x02
  | sub => 0x03
  | mul => 0x04
  | mli => 0x05
  | div => 0x06
  | dvi => 0x07
  | mod => 0x08
  | mdi => 0x09
  | and => 0x0a
  | bor => 0x0b
  | xor => 0x0c
  | shr => 0x0d
  | asr => 0x0e
  | shl => 0x0f
  | adx => 0x1a
  | sbx => 0x1b
  | sti => 0x1e
  | std => 0x1f

/-- How far the registers I and J move after the operation. -/
def stride : Operation → Word
  | sti => 1
  | std => -1
  | set | add | sub | mul | mli | div | dvi | mod | mdi | and | bor | xor | shr | asr | shl | adx
  | sbx => 0

end Operation

namespace Condition

def all : List Condition := [ifb, ifc, ife, ifn, ifg, ifa, ifl, ifu]

def mnemonic : Condition → String
  | ifb => "IFB"
  | ifc => "IFC"
  | ife => "IFE"
  | ifn => "IFN"
  | ifg => "IFG"
  | ifa => "IFA"
  | ifl => "IFL"
  | ifu => "IFU"

def code : Condition → Word
  | ifb => 0x10
  | ifc => 0x11
  | ife => 0x12
  | ifn => 0x13
  | ifg => 0x14
  | ifa => 0x15
  | ifl => 0x16
  | ifu => 0x17

/-- Whether the condition holds between the destination's value `b` and the source's value `a`.
IFA and IFU compare signed readings. -/
def holds (c : Condition) (b a : Word) : Bool :=
  match c with
  | ifb => b &&& a != 0
  | ifc => b &&& a == 0
  | ife => b == a
  | ifn => b != a
  | ifg => b > a
  | ifa => b.signed > a.signed
  | ifl => b < a
  | ifu => b.signed < a.signed

end Condition

namespace Opcode

def all : List Opcode := jsr :: Operation.all.map operate ++ Condition.all.map test

def mnemonic : Opcode → String
  | jsr => "JSR"
  | operate op => op.mnemonic
  | test c => c.mnemonic

/-- The code of an opcode within its table. -/
def code : Opcode → Word
  | jsr => 0x01
  | operate op => op.code
  | test c => c.code

def isSpecial : Opcode → Bool
  | jsr => true
  | operate _ | test _ => false

def isConditional : Opcode → Bool
  | test _ => true
  | jsr | operate _ => false

/-- Look a code up in the binary table. -/
def ofCode? (code : Word) : Option Opcode :=
  match code.toNat with
  | 0x01 => some (operate .set)
  | 0x02 => some (operate .add)
  | 0x03 => some (operate .sub)
  | 0x04 => some (operate .mul)
  | 0x05 => some (operate .mli)
  | 0x06 => some (operate .div)
  | 0x07 => some (operate .dvi)
  | 0x08 => some (operate .mod)
  | 0x09 => some (operate .mdi)
  | 0x0a => some (operate .and)
  | 0x0b => some (operate .bor)
  | 0x0c => some (operate .xor)
  | 0x0d => some (operate .shr)
  | 0x0e => some (operate .asr)
  | 0x0f => some (operate .shl)
  | 0x10 => some (test .ifb)
  | 0x11 => some (test .ifc)
  | 0x12 => some (test .ife)
  | 0x13 => some (test .ifn)
  | 0x14 => some (test .ifg)
  | 0x15 => some (test .ifa)
  | 0x16 => some (test .ifl)
  | 0x17 => some (test .ifu)
  | 0x1a => some (operate .adx)
  | 0x1b => some (operate .sbx)
  | 0x1e => some (operate .sti)
  | 0x1f => some (operate .std)
  | _ => none

/-- Look a code up in the special table. -/
def ofSpecialCode? (code : Word) : Option Opcode :=
  if code = 0x01 then some jsr else none

def ofMnemonic? (text : String) : Option Opcode := all.find? (·.mnemonic == text)

theorem mem_all (o : Opcode) : o ∈ all := by
  cases o with
  | jsr => decide
  | operate op => cases op <;> decide
  | test c => cases c <;> decide

@[simp] theorem ofCode?_code {o : Opcode} (h : o.isSpecial = false) : ofCode? o.code = some o := by
  cases o with
  | jsr => contradiction
  | operate op => cases op <;> rfl
  | test c => cases c <;> rfl

theorem code_of_ofCode? {w : Word} {o : Opcode} (h : ofCode? w = some o) :
    o.code = w ∧ o.isSpecial = false := by
  unfold ofCode? at h
  split at h <;> cases h <;>
    exact ⟨UInt16.toNat_inj.1 (by simp_all [code, Operation.code, Condition.code]), rfl⟩

theorem ofSpecialCode?_eq_some_iff {w : Word} {o : Opcode} :
    ofSpecialCode? w = some o ↔ o = jsr ∧ w = o.code := by
  unfold ofSpecialCode?
  constructor
  · intro h
    split at h
    · cases h
      exact ⟨rfl, ‹_›⟩
    · cases h
  · rintro ⟨rfl, rfl⟩
    rfl

end Opcode

end Dcpu
