import Dcpu.Word

/-! The eight general registers, and the file that holds their contents. -/
namespace Dcpu

inductive Register where
  | a | b | c | x | y | z | i | j
deriving DecidableEq

namespace Register

def all : List Register := [a, b, c, x, y, z, i, j]

def name : Register → String
  | a => "A"
  | b => "B"
  | c => "C"
  | x => "X"
  | y => "Y"
  | z => "Z"
  | i => "I"
  | j => "J"

/-- The place of a register in `all`, which is also its number in operand codes. -/
def index : Register → Fin 8
  | a => 0
  | b => 1
  | c => 2
  | x => 3
  | y => 4
  | z => 5
  | i => 6
  | j => 7

def ofFin : Fin 8 → Register
  | 0 => a
  | 1 => b
  | 2 => c
  | 3 => x
  | 4 => y
  | 5 => z
  | 6 => i
  | 7 => j

/-- The register that the lowest three bits of an operand code number. -/
def ofLowBits (code : Word) : Register := ofFin ⟨code.toNat % 8, Nat.mod_lt _ (by decide)⟩

def ofIndex? (n : Nat) : Option Register :=
  if h : n < 8 then some (ofFin ⟨n, h⟩) else none

/-- The register with the given name, in either case. Only the ASCII letters have a case here. -/
def ofName? (text : String) : Option Register :=
  all.find? fun r => r.name == text.map Char.toUpper

theorem mem_all (r : Register) : r ∈ all := by
  cases r <;> decide

@[simp] theorem ofFin_index (r : Register) : ofFin r.index = r := by
  cases r <;> rfl

@[simp] theorem index_ofFin (n : Fin 8) : (ofFin n).index = n := by
  revert n
  decide

theorem index_injective {r s : Register} (h : r.index = s.index) : r = s := by
  rw [← ofFin_index r, h, ofFin_index]

end Register

/-- The contents of the registers, in the order of `Register.all`. -/
structure Registers where
  cells : Vector Word 8
deriving DecidableEq

namespace Registers

/-- Every register holds zero. -/
def zero : Registers := ⟨Vector.replicate 8 0⟩

def get (rs : Registers) (r : Register) : Word := rs.cells[r.index]

def set (rs : Registers) (r : Register) (w : Word) : Registers := ⟨rs.cells.set r.index w⟩

theorem get_set (rs : Registers) (r s : Register) (w : Word) :
    (rs.set r w).get s = if r = s then w else rs.get s := by
  by_cases h : r = s
  · subst h
    simp [get, set]
  · have hi : (r.index : Nat) ≠ s.index := fun e => h (Register.index_injective (Fin.ext e))
    simp [get, set, h, Vector.getElem_set_ne, hi]

theorem ext_get {rs ts : Registers} (h : ∀ r, rs.get r = ts.get r) : rs = ts := by
  cases rs with | mk xs =>
  cases ts with | mk ys =>
  congr 1
  refine Vector.ext fun n hn => ?_
  simpa [get] using h (Register.ofFin ⟨n, hn⟩)

end Registers

end Dcpu
