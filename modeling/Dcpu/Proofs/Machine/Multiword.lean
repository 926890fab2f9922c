import Mathlib.Data.Nat.Digits.Defs
import Mathlib.Tactic.LinearCombination
import Dcpu.Proofs.Arithmetic.Carry
import Dcpu.Proofs.Machine.Frame

/-! Sums and differences of numbers of many words. The words are added or subtracted one after the
other, each with the excess word that the one before has left in EX, and the result is exact. -/
namespace Dcpu

namespace Word

/-- The number whose digits to the base `2 ^ 16` are the words, the least significant first. -/
def number (words : List Word) : Nat := Nat.ofDigits (2 ^ 16) (words.map UInt16.toNat)

theorem number_cons (w : Word) (words : List Word) :
    number (w :: words) = w.toNat + 2 ^ 16 * number words := Nat.ofDigits_cons ..

theorem number_lt (words : List Word) : number words < 2 ^ (16 * words.length) := by
  have hdigits : ∀ d ∈ words.map UInt16.toNat, d < 2 ^ 16 := by
    intro d hd
    obtain ⟨w, -, rfl⟩ := List.mem_map.1 hd
    exact w.toNat_lt
  have hlt := Nat.ofDigits_lt_base_pow_length (by decide) hdigits
  rwa [List.length_map, ← Nat.pow_mul] at hlt

end Word

namespace Operation

open Word

/-- Operations one after the other, each between two values and with the excess word that is left
by then. The results come with the last excess word. -/
def evalAll (ex : Word) : List (Operation × Word × Word) → List Word × Word
  | [] => ([], ex)
  | (op, b, a) :: rest =>
    let (result, excess) := op.eval ex b a
    let (results, last) := evalAll (excess.getD ex) rest
    (result :: results, last)

/-- One operation between the first words of two numbers, and another between all that follow. -/
def chain (first next : Operation) : List Word → List Word → List (Operation × Word × Word)
  | x :: xs, y :: ys => (first, x, y) :: (xs.zip ys).map (Prod.mk next)
  | _, _ => []

theorem eval_add (ex b a : Word) : add.eval ex b a = adx.eval 0 b a := by
  rw [eval, eval, Arithmetic.adx_zero]

theorem eval_sub (ex b a : Word) : sub.eval ex b a = sbx.eval 0 b a := by
  rw [eval, eval, Arithmetic.sbx_zero]

theorem evalAll_cons {op : Operation} {ex b a result ex' : Word}
    (h : op.eval ex b a = (result, some ex')) (rest : List (Operation × Word × Word)) :
    evalAll ex ((op, b, a) :: rest) =
      (result :: (evalAll ex' rest).1, (evalAll ex' rest).2) := by
  rw [evalAll, h]
  rfl

/-- A first operation that is the next without a carry makes the whole chain one of the next. -/
theorem evalAll_chain {first next : Operation} (hnext : next.hasExcess = true)
    (h : ∀ ex b a, first.eval ex b a = next.eval 0 b a) {xs ys : List Word}
    (hlength : xs.length = ys.length) (hne : xs ≠ []) (ex : Word) :
    evalAll ex (chain first next xs ys) = evalAll 0 ((xs.zip ys).map (Prod.mk next)) := by
  cases xs with
  | nil => exact absurd rfl hne
  | cons x xs =>
    cases ys with
    | nil => cases hlength
    | cons y ys =>
      obtain ⟨ex', hex'⟩ := Option.isSome_iff_exists.1 ((next.isSome_excess 0 x y).trans hnext)
      have heval : next.eval 0 x y = ((next.eval 0 x y).1, some ex') := Prod.ext rfl hex'
      rw [chain, List.zip_cons_cons, List.map_cons, evalAll_cons heval,
        evalAll_cons ((h ex x y).trans heval)]

/-- What is exact for one word, with a carry in and a carry out, is exact for any number of
words. -/
theorem number_evalAll {op : Operation} {sign : ℤ} {Carry : Word → Prop}
    (hop : ∀ ex b a, Carry ex → ∃ result ex', op.eval ex b a = (result, some ex') ∧ Carry ex' ∧
      (result.toNat : ℤ) + 2 ^ 16 * ex'.signed = b.toNat + sign * a.toNat + ex.signed)
    {xs ys : List Word} (hlength : xs.length = ys.length) {ex : Word} (hex : Carry ex) :
    ∃ results last, evalAll ex ((xs.zip ys).map (Prod.mk op)) = (results, last) ∧
      results.length = xs.length ∧ Carry last ∧
      (number results : ℤ) + last.signed * 2 ^ (16 * xs.length) =
        number xs + sign * number ys + ex.signed := by
  induction xs generalizing ys ex with
  | nil =>
    cases ys with
    | nil => exact ⟨[], ex, rfl, rfl, hex, by simp [number]⟩
    | cons y ys => cases hlength
  | cons x xs ih =>
    cases ys with
    | nil => cases hlength
    | cons y ys =>
      obtain ⟨result, ex', heval, hex', hword⟩ := hop ex x y hex
      obtain ⟨results, last, hrest, hresults, hlast, hnumber⟩ :=
        ih (Nat.succ.inj hlength) hex'
      refine ⟨result :: results, last, ?_, congrArg Nat.succ hresults, hlast, ?_⟩
      · rw [List.zip_cons_cons, List.map_cons, evalAll_cons heval, hrest]
      · have hpow : (2 : ℤ) ^ (16 * (xs.length + 1)) = 2 ^ 16 * 2 ^ (16 * xs.length) := by
          rw [Nat.mul_add, pow_add, mul_comm]
        simp only [number_cons, List.length_cons, hpow]
        push_cast
        linear_combination hword + 2 ^ 16 * hnumber

theorem evalAll_adx {xs ys : List Word} (hlength : xs.length = ys.length) :
    ∃ sum carry, evalAll 0 ((xs.zip ys).map (Prod.mk adx)) = (sum, carry) ∧
      sum.length = xs.length ∧ (carry = 0 ∨ carry = 1) ∧
      number sum + carry.toNat * 2 ^ (16 * xs.length) = number xs + number ys := by
  have hsigned {ex : Word} (h : ex = 0 ∨ ex = 1) : ex.signed = ex.toNat := by
    obtain rfl | rfl := h <;> rfl
  have hword (ex b a : Word) (hex : ex = 0 ∨ ex = 1) : ∃ result ex',
      adx.eval ex b a = (result, some ex') ∧ (ex' = 0 ∨ ex' = 1) ∧
        (result.toNat : ℤ) + 2 ^ 16 * ex'.signed = b.toNat + 1 * a.toNat + ex.signed := by
    obtain ⟨hcarry, hexact⟩ := Arithmetic.adx_exact hex b a
    refine ⟨(Arithmetic.adx ex b a).1, (Arithmetic.adx ex b a).2, rfl, hcarry, ?_⟩
    rw [hsigned hcarry, hsigned hex, one_mul]
    exact_mod_cast hexact
  obtain ⟨sum, carry, heval, hsum, hcarry, hnumber⟩ :=
    number_evalAll hword hlength (Or.inl rfl)
  refine ⟨sum, carry, heval, hsum, hcarry, ?_⟩
  have hzero : signed 0 = 0 := rfl
  rw [hsigned hcarry, hzero, one_mul, add_zero] at hnumber
  exact_mod_cast hnumber

theorem evalAll_sbx {xs ys : List Word} (hlength : xs.length = ys.length) :
    ∃ difference borrow,
      evalAll 0 ((xs.zip ys).map (Prod.mk sbx)) = (difference, borrow) ∧
      difference.length = xs.length ∧
      (number difference : ℤ) = (number xs - number ys) % 2 ^ (16 * xs.length) ∧
      borrow = if number xs < number ys then 0xffff else 0 := by
  have hword (ex b a : Word) (hex : ex = 0 ∨ ex = 0xffff) : ∃ result ex',
      sbx.eval ex b a = (result, some ex') ∧ (ex' = 0 ∨ ex' = 0xffff) ∧
        (result.toNat : ℤ) + 2 ^ 16 * ex'.signed = b.toNat + -1 * a.toNat + ex.signed := by
    obtain ⟨hborrow, hexact⟩ := Arithmetic.sbx_exact hex b a
    refine ⟨(Arithmetic.sbx ex b a).1, (Arithmetic.sbx ex b a).2, rfl, hborrow, ?_⟩
    rw [hexact]
    ring
  obtain ⟨difference, borrow, heval, hdifference, hborrow, hnumber⟩ :=
    number_evalAll hword hlength (Or.inl rfl)
  have hlt : (number difference : ℤ) < 2 ^ (16 * xs.length) := by
    rw [← hdifference]
    exact_mod_cast number_lt difference
  have hvalue : (number xs - number ys : ℤ) =
      number difference + borrow.signed * 2 ^ (16 * xs.length) := by
    have hzero : signed 0 = 0 := rfl
    rw [hnumber, hzero]
    ring
  refine ⟨difference, borrow, heval, hdifference, ?_, ?_⟩
  · rw [hvalue, Int.add_mul_emod_self_right, Int.emod_eq_of_lt (Int.natCast_nonneg _) hlt]
  · generalize (2 : ℤ) ^ (16 * xs.length) = bound at hlt hvalue
    obtain rfl | rfl := hborrow
    · change _ = _ + 0 * bound at hvalue
      rw [if_neg (by omega)]
    · change _ = _ + -1 * bound at hvalue
      rw [if_pos (by omega)]

theorem hasExcess_of_mem_chain {first next : Operation} (hfirst : first.hasExcess = true)
    (hnext : next.hasExcess = true) {xs ys : List Word} :
    ∀ s ∈ chain first next xs ys, s.1.hasExcess = true := by
  intro s hs
  unfold chain at hs
  split at hs
  · obtain rfl | hs := List.mem_cons.1 hs
    · exact hfirst
    · obtain ⟨p, -, rfl⟩ := List.mem_map.1 hs
      exact hnext
  · cases hs

theorem stride_of_hasExcess {op : Operation} (h : op.hasExcess = true) : op.stride = 0 := by
  cases op <;> first | rfl | cases h

end Operation

/-- Operands that still hold the word an operation wrote to them when it is over. EX does not, since
the excess word comes after. -/
def Operand.keepsResult : Operand → Bool
  | register _ | indirect _ | indexed _ _ | push | pop | peek | pick _ | sp | pc | absolute _ => true
  | ex | immediate _ | literal _ => false

theorem Processor.place_of_keepsResult {o : Operand} (h : o.keepsResult = true) (p : Processor) :
    p.place o ≠ .ex ∧ ∀ w, p.place o ≠ .constant w := by
  cases o with
  | ex | immediate _ | literal _ => cases h
  | _ => simp [place, locate, growStack, shrinkStack]

namespace Machine

open Word Operation

/-- The machine executes operations one after the other. The first list has each operation with the
values it finds, the second the word that is then in its destination. -/
inductive Operates : Machine → List (Operation × Word × Word) → List Word → Machine → Prop
  | nil (m : Machine) : Operates m [] [] m
  | cons {m s t : Machine} {op : Operation} {b a : Operand}
      {rest : List (Operation × Word × Word)} {results : List Word}
      (hstep : step m = .ok ⟨.operate op, some b, a⟩ s) (hb : b.keepsResult = true)
      (hrest : Operates s rest results t) :
      Operates m ((op, (m.past ⟨.operate op, some b, a⟩).values b a) :: rest)
        (s.read ((m.past ⟨.operate op, some b, a⟩).destination b a) :: results) t

theorem read_operate {op : Operation} {place : Place} (hop : op.stride = 0)
    (hex : place ≠ .ex) (hconstant : ∀ w, place ≠ .constant w) (m : Machine) (b a : Word) :
    (m.operate op place b a).read place = (op.eval m.ex b a).1 := by
  cases place with
  | register r => rw [read, register_operate, if_pos rfl, hop, ite_self, UInt16.add_zero]
  | cell address => rw [read, memory_operate, if_pos rfl]
  | sp => rw [read, sp_operate, if_pos rfl]
  | pc => rw [read, pc_operate, if_pos rfl]
  | ex => exact absurd rfl hex
  | constant w => exact absurd rfl (hconstant w)

/-- After an operation with an excess word its destination holds the result, and EX the excess. -/
theorem eval_of_execute {m s : Machine} {op : Operation} {b a : Operand}
    (h : execute ⟨.operate op, some b, a⟩ m = .ok () s) (hop : op.hasExcess = true)
    (hb : b.keepsResult = true) :
    op.eval m.ex (m.values b a).1 (m.values b a).2 = (s.read (m.destination b a), some s.ex) := by
  rw [execute_operate] at h
  cases h
  obtain ⟨hex, hconstant⟩ := Processor.place_of_keepsResult hb
    { m.toProcessor with sp := m.sp + a.stackShift }
  have hresult := read_operate (op.stride_of_hasExcess hop) hex hconstant
    { m with sp := m.sp + (a.stackShift + b.stackShift) } (m.values b a).1 (m.values b a).2
  have hexcess := ex_operate_of_hasExcess { m with sp := m.sp + (a.stackShift + b.stackShift) }
    op (m.destination b a) (m.values b a).1 (m.values b a).2 hop
  exact Prod.ext hresult.symm hexcess

theorem evalAll_of_operates {m t : Machine} {steps : List (Operation × Word × Word)}
    {results : List Word} (h : Operates m steps results t)
    (hexcess : ∀ s ∈ steps, s.1.hasExcess = true) :
    evalAll m.ex steps = (results, t.ex) := by
  induction h with
  | nil m => rfl
  | cons hstep hb hrest ih =>
    obtain ⟨hop, hexcess⟩ := List.forall_mem_cons.1 hexcess
    have heval := eval_of_execute (execute_of_step hstep).2 hop hb
    refine (evalAll_cons heval _).trans ?_
    rw [ih hexcess]

/-- The sum of two numbers of equally many words is exact with the carry that is left in EX, and so
is their difference with the borrow. Every machine that executes the operations comes to these
words, whatever was in EX before. -/
theorem multiword_exact {xs ys : List Word} (hlength : xs.length = ys.length) (hne : xs ≠ [])
    (m : Machine) :
    (∃ sum carry, evalAll m.ex (chain .add .adx xs ys) = (sum, carry) ∧
      sum.length = xs.length ∧ (carry = 0 ∨ carry = 1) ∧
      number sum + carry.toNat * 2 ^ (16 * xs.length) = number xs + number ys ∧
      ∀ results t, Operates m (chain .add .adx xs ys) results t →
        results = sum ∧ t.ex = carry) ∧
    ∃ difference borrow, evalAll m.ex (chain .sub .sbx xs ys) = (difference, borrow) ∧
      difference.length = xs.length ∧
      (number difference : ℤ) = (number xs - number ys) % 2 ^ (16 * xs.length) ∧
      (borrow = if number xs < number ys then 0xffff else 0) ∧
      ∀ results t, Operates m (chain .sub .sbx xs ys) results t →
        results = difference ∧ t.ex = borrow := by
  obtain ⟨sum, carry, hsum, hadded⟩ := evalAll_adx hlength
  obtain ⟨difference, borrow, hdifference, hsubtracted⟩ := evalAll_sbx hlength
  rw [← evalAll_chain rfl eval_add hlength hne m.ex] at hsum
  rw [← evalAll_chain rfl eval_sub hlength hne m.ex] at hdifference
  refine ⟨⟨sum, carry, hsum, hadded.1, hadded.2.1, hadded.2.2, fun results t h => ?_⟩,
    ⟨difference, borrow, hdifference, hsubtracted.1, hsubtracted.2.1, hsubtracted.2.2,
      fun results t h => ?_⟩⟩
  · rw [evalAll_of_operates h (hasExcess_of_mem_chain rfl rfl)] at hsum
    exact Prod.mk.inj hsum
  · rw [evalAll_of_operates h (hasExcess_of_mem_chain rfl rfl)] at hdifference
    exact Prod.mk.inj hdifference

/-- One operation between registers. -/
private theorem operates_registers {m t : Machine} {op : Operation} {r q : Register}
    {w b a result ex : Word} {rest : List (Operation × Word × Word)} {results : List Word}
    (he : Instruction.encode ⟨.operate op, some (.register r), .register q⟩ = .ok [w])
    (hw : m.memory.read m.pc = w) (hb : m.register r = b) (ha : m.register q = a)
    (heval : op.eval m.ex b a = (result, some ex)) (hop : op.stride = 0)
    (hrest : Operates { m with registers := m.registers.set r result, pc := m.pc + 1, ex := ex }
      rest results t) : Operates m ((op, b, a) :: rest) (result :: results) t := by
  subst hb ha
  have hstep : step m = .ok ⟨.operate op, some (.register r), .register q⟩
      { m with registers := m.registers.set r result, pc := m.pc + 1, ex := ex } := by
    obtain ⟨hi, hnext⟩ := Memory.instructionAt_of_encode he ⟨hw, trivial⟩
    have hx : execute ⟨.operate op, some (.register r), .register q⟩ { m with pc := m.pc + 1 } =
        .ok () { m with registers := m.registers.set r result, pc := m.pc + 1, ex := ex } := by
      change EStateM.Result.ok () (operate { m with pc := m.pc + 1 } op (.register r)
        (m.register r) (m.register q)) = _
      rw [operate_eq, heval, hop, moveIndices_zero]
      rfl
    rw [step_of_instructionAt_eq_ok hi, hnext]
    exact Stateful.map_of_ok hx
  have hresult : Registers.get (m.registers.set r result) r = result := by
    rw [Registers.get_set, if_pos rfl]
  have hoperates := Operates.cons hstep rfl hrest
  change Operates m _ (Registers.get (m.registers.set r result) r :: results) t at hoperates
  rw [hresult] at hoperates
  exact hoperates

/-- A carry out of `0xffff + 0xffff + 1` and a borrow out of `0 - 0xffff - 1`, with the machines that
come to them. -/
theorem multiword_exact_of_two_words :
    let m (b first second : Word) : Machine := { Processor.initial with
      registers := (((Registers.zero.set .a b).set .b b).set .x 1).set .y 0xffff
      memory := .ofList [first, second] }
    (∃ t, Operates (m 0xffff 0x0c02 0x103a) (chain .add .adx [0xffff, 0xffff] [1, 0xffff])
        [0, 0xffff] t ∧ t.ex = 1 ∧
      number [0, 0xffff] + t.ex.toNat * 2 ^ (16 * 2) =
        number [0xffff, 0xffff] + number [1, 0xffff]) ∧
    ∃ t, Operates (m 0 0x0c03 0x103b) (chain .sub .sbx [0, 0] [1, 0xffff]) [0xffff, 0] t ∧
      t.ex = 0xffff ∧ (number [0xffff, 0] : ℤ) =
        (number [0, 0] - number [1, 0xffff]) % 2 ^ (16 * 2) := by
  intro m
  have hfirst (b first second : Word) :
      (m b first second).memory.read (m b first second).pc = first := by
    simp [m, Memory.read_ofList, Processor.initial]
  have hsecond (b first second : Word) :
      (m b first second).memory.read ((m b first second).pc + 1) = second := by
    simp [m, Memory.read_ofList, Processor.initial]
  have hadd : add.eval 0 0xffff 1 = (0, some 1) := by decide
  have hadx : adx.eval 1 0xffff 0xffff = (0xffff, some 1) := by decide
  have hsub : sub.eval 0 0 1 = (0xffff, some 0xffff) := by decide
  have hsbx : sbx.eval 0xffff 0 0xffff = (0, some 0xffff) := by decide
  have hlength (b : Word) : [b, b].length = [(1 : Word), 0xffff].length := rfl
  obtain ⟨⟨sum, carry, -, -, -, hsum, hadded⟩, -⟩ :=
    multiword_exact (hlength 0xffff) (by decide) (m 0xffff 0x0c02 0x103a)
  obtain ⟨-, difference, borrow, -, -, hdifference, -, hsubtracted⟩ :=
    multiword_exact (hlength 0) (by decide) (m 0 0x0c03 0x103b)
  have hadds : Operates (m 0xffff 0x0c02 0x103a) (chain .add .adx [0xffff, 0xffff] [1, 0xffff])
      [0, 0xffff] _ := operates_registers (r := .a) (q := .x) rfl (hfirst ..) rfl rfl hadd rfl
    (operates_registers (r := .b) (q := .y) rfl (hsecond ..) rfl rfl hadx rfl (.nil _))
  have hsubtracts : Operates (m 0 0x0c03 0x103b) (chain .sub .sbx [0, 0] [1, 0xffff])
      [0xffff, 0] _ := operates_registers (r := .a) (q := .x) rfl (hfirst ..) rfl rfl hsub rfl
    (operates_registers (r := .b) (q := .y) rfl (hsecond ..) rfl rfl hsbx rfl (.nil _))
  obtain ⟨rfl, rfl⟩ := hadded _ _ hadds
  obtain ⟨rfl, rfl⟩ := hsubtracted _ _ hsubtracts
  refine ⟨⟨_, hadds, rfl, hsum⟩, _, hsubtracts, rfl, ?_⟩
  rw [hdifference]
  rfl

end Machine

end Dcpu
