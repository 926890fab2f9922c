import Dcpu.Proofs.Machine.Outcome

/-! What writing to a place changes, and what an operation changes: the place of its destination, EX
if there is an excess word, and the registers I and J. -/
namespace Dcpu

namespace Operation

/-- Whether the operation puts an excess word into EX. -/
def hasExcess : Operation → Bool
  | add | sub | mul | mli | div | dvi | shr | asr | shl | adx | sbx => true
  | set | mod | mdi | and | bor | xor | sti | std => false

theorem isSome_excess (op : Operation) (ex b a : Word) :
    (op.eval ex b a).2.isSome = op.hasExcess := by
  cases op <;> rfl

end Operation

/-- The address of the cell that an operand names, once it has moved SP. -/
def Operand.cell? (registers : Registers) (sp : Word) : Operand → Option Word
  | indirect r => some (registers.get r)
  | indexed r offset => some (registers.get r + offset)
  | push | peek => some sp
  | pop => some (sp - 1)
  | pick offset => some (sp + offset)
  | absolute address => some address
  | register _ | Operand.sp | pc | ex | immediate _ | literal _ => none

namespace Processor

/-- The place that an operand names. -/
def place (p : Processor) (o : Operand) : Place := (p.locate o).1

theorem place_eq_cell_iff {p : Processor} {o : Operand} {address : Word} :
    p.place o = .cell address ↔ o.cell? p.registers (p.sp + o.stackShift) = some address := by
  cases o with
  | pop => simp [place, locate, Operand.cell?, shrinkStack, Operand.stackShift]
  | _ =>
    simp [place, locate, Operand.cell?, growStack, Operand.stackShift, UInt16.sub_eq_add_neg]

theorem place_eq_sp_iff {p : Processor} {o : Operand} : p.place o = .sp ↔ o = .sp := by
  cases o <;> simp [place, locate, growStack, shrinkStack]

theorem place_eq_pc_iff {p : Processor} {o : Operand} : p.place o = .pc ↔ o = .pc := by
  cases o <;> simp [place, locate, growStack, shrinkStack]

theorem place_eq_ex_iff {p : Processor} {o : Operand} : p.place o = .ex ↔ o = .ex := by
  cases o <;> simp [place, locate, growStack, shrinkStack]

theorem place_eq_register_iff {p : Processor} {o : Operand} {r : Register} :
    p.place o = .register r ↔ o = .register r := by
  cases o <;> simp [place, locate, growStack, shrinkStack]

end Processor

namespace Machine

theorem memory_write (m : Machine) (place : Place) (w x : Word) :
    (m.write place w).memory.read x = if place = .cell x then w else m.memory.read x := by
  cases place <;> simp [write, setRegister, Memory.read_write]

theorem sp_write (m : Machine) (place : Place) (w : Word) :
    (m.write place w).sp = if place = .sp then w else m.sp := by
  cases place <;> simp [write, setRegister]

theorem pc_write (m : Machine) (place : Place) (w : Word) :
    (m.write place w).pc = if place = .pc then w else m.pc := by
  cases place <;> simp [write, setRegister]

theorem ex_write (m : Machine) (place : Place) (w : Word) :
    (m.write place w).ex = if place = .ex then w else m.ex := by
  cases place <;> simp [write, setRegister]

theorem register_write (m : Machine) (place : Place) (w : Word) (r : Register) :
    (m.write place w).register r = if place = .register r then w else m.register r := by
  cases place <;> simp [write, setRegister, register, Registers.get_set]

theorem register_moveIndices (m : Machine) (stride : Word) (r : Register) :
    (m.moveIndices stride).register r =
      m.register r + if r = .i ∨ r = .j then stride else 0 := by
  simp only [moveIndices, setRegister, register, Registers.get_set]
  cases r <;> simp

theorem moveIndices_zero (m : Machine) : m.moveIndices 0 = m := by
  have hregisters : (m.moveIndices 0).registers = m.registers := by
    apply Registers.ext_get
    intro r
    have hr := m.register_moveIndices 0 r
    rwa [ite_self, UInt16.add_zero] at hr
  exact congrArg (fun registers => { m with registers }) hregisters

section Operate

/-! The machine after an operation, part by part. -/

variable (m : Machine) (op : Operation) (place : Place) (b a : Word)

/-- The destination changes first, then EX if there is an excess word, and I and J last. -/
theorem operate_eq : m.operate op place b a =
    let written := m.write place (op.eval m.ex b a).1
    moveIndices { written with ex := (op.eval m.ex b a).2.getD written.ex } op.stride := by
  unfold operate
  obtain ⟨result, _ | excess⟩ := op.eval m.ex b a <;> rfl

theorem memory_operate (x : Word) : (m.operate op place b a).memory.read x =
    if place = .cell x then (op.eval m.ex b a).1 else m.memory.read x := by
  rw [operate_eq, ← memory_write]
  rfl

theorem sp_operate : (m.operate op place b a).sp =
    if place = .sp then (op.eval m.ex b a).1 else m.sp := by
  rw [operate_eq, ← sp_write]
  rfl

theorem pc_operate : (m.operate op place b a).pc =
    if place = .pc then (op.eval m.ex b a).1 else m.pc := by
  rw [operate_eq, ← pc_write]
  rfl

theorem ex_operate : (m.operate op place b a).ex =
    (op.eval m.ex b a).2.getD (if place = .ex then (op.eval m.ex b a).1 else m.ex) := by
  rw [operate_eq, ← ex_write]
  rfl

theorem ex_operate_of_hasExcess (h : op.hasExcess = true) :
    (op.eval m.ex b a).2 = some (m.operate op place b a).ex := by
  obtain ⟨excess, hexcess⟩ := Option.isSome_iff_exists.1 ((op.isSome_excess m.ex b a).trans h)
  rw [ex_operate, hexcess, Option.getD_some]

theorem ex_operate_of_not_hasExcess (h : op.hasExcess = false) :
    (m.operate op place b a).ex = if place = .ex then (op.eval m.ex b a).1 else m.ex := by
  have hnone := Option.isSome_eq_false_iff.1 ((op.isSome_excess m.ex b a).trans h)
  rw [ex_operate, Option.isNone_iff_eq_none.1 hnone, Option.getD_none]

theorem register_operate (r : Register) : (m.operate op place b a).register r =
    (if place = .register r then (op.eval m.ex b a).1 else m.register r) +
      if r = .i ∨ r = .j then op.stride else 0 := by
  rw [operate_eq, register_moveIndices, ← register_write]
  rfl

end Operate

end Machine

end Dcpu
