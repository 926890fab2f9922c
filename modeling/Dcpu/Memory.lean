import Dcpu.Instruction.Decode

/-! Memory: a word at each of the `2 ^ 16` addresses. Every address is valid, and the address after
the last is the first. -/
namespace Dcpu

structure Memory where
  cells : Vector Word 65536
deriving DecidableEq

namespace Memory

/-- The number of addresses. -/
def size : Nat := 65536

def read (m : Memory) (address : Word) : Word :=
  have := address.toNat_lt
  m.cells[address.toNat]

def write (m : Memory) (address value : Word) : Memory :=
  have := address.toNat_lt
  ⟨m.cells.set address.toNat value⟩

/-- The words from address zero on. Words beyond the last address are dropped, and cells without a
word hold zero. -/
def ofList (words : List Word) : Memory :=
  let words := words.toArray
  ⟨Vector.ofFn fun i => words.getD i 0⟩

/-- Write the words in turn from an address on. Where they wrap onto themselves the later stays. -/
def load (m : Memory) (address : Word) : List Word → Memory
  | [] => m
  | w :: words => (m.write address w).load (address + 1) words

theorem read_write (m : Memory) (address value x : Word) :
    (m.write address value).read x = if address = x then value else m.read x := by
  simp only [read, write, Vector.getElem_set, UInt16.toNat_inj]

theorem read_ofList (words : List Word) (x : Word) :
    (ofList words).read x = words.getD x.toNat 0 := by
  simp [read, ofList]

theorem ext_read {m n : Memory} (h : ∀ x, m.read x = n.read x) : m = n := by
  cases m with | mk xs =>
  cases n with | mk ys =>
  congr 1
  refine Vector.ext fun i hi => ?_
  have := h (UInt16.ofNat i)
  simpa [read, Nat.mod_eq_of_lt hi] using this

/-- A memory that is read from an address on, and that reading leaves alone. -/
structure Cursor where
  memory : Memory
  address : Word

namespace Cursor

instance : WordReader Cursor where
  next := fun c => .ok (c.memory.read c.address) { c with address := c.address + 1 }
  skip := fun n c => .ok () { c with address := c.address + n }

/-- The next instruction or what is wrong with it, at its address. After a word that does not decode
the cursor stands behind that word. -/
def step (c : Cursor) : (Word × Except DecodeError Instruction) × Cursor :=
  match Instruction.load.run c with
  | .ok i c' => ((c.address, .ok i), c')
  | .error e c' => ((c.address, .error e), c')

end Cursor

/-- The given number of instructions, from an address on. -/
def listing (m : Memory) (address : Word) : Nat → List (Word × Except DecodeError Instruction)
  | 0 => []
  | n + 1 =>
    let (line, next) := Cursor.step ⟨m, address⟩
    line :: m.listing next.address n

end Memory

end Dcpu
