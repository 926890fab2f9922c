import Dcpu.Proofs.Instruction.Encoding
import Dcpu.Stateful

/-! Instructions read from any state that supplies words. Loading succeeds exactly on the encodings
of canonical instructions, and uses up no word beyond them. -/
namespace Dcpu

open Stateful

variable {σ : Type} [WordReader σ]

/-- From `s` the words can be read one after the other, and `t` is reached by reading them. -/
inductive WordReader.Supplies : σ → List Word → σ → Prop
  | nil (s : σ) : Supplies s [] s
  | cons {s t u : σ} {w : Word} {words : List Word} (head : WordReader.next s = .ok w t)
      (tail : Supplies t words u) : Supplies s (w :: words) u

namespace WordReader

@[simp] theorem supplies_nil_iff {s t : σ} : Supplies s [] t ↔ s = t := by
  constructor
  · intro h
    cases h
    rfl
  · rintro rfl
    exact .nil s

theorem supplies_cons_iff {s u : σ} {w : Word} {words : List Word} :
    Supplies s (w :: words) u ↔ ∃ t, next s = .ok w t ∧ Supplies t words u := by
  constructor
  · intro h
    cases h with
    | cons head tail => exact ⟨_, head, tail⟩
  · intro h
    obtain ⟨t, head, tail⟩ := h
    exact .cons head tail

theorem supplies_append_iff {s u : σ} {xs ys : List Word} :
    Supplies s (xs ++ ys) u ↔ ∃ t, Supplies s xs t ∧ Supplies t ys u := by
  induction xs generalizing s with
  | nil => simp
  | cons x xs ih =>
    simp only [List.cons_append, supplies_cons_iff, ih]
    constructor
    · intro h
      obtain ⟨t, head, v, hx, hy⟩ := h
      exact ⟨v, ⟨t, head, hx⟩, hy⟩
    · intro h
      obtain ⟨v, ⟨t, head, hx⟩, hy⟩ := h
      exact ⟨t, head, v, hx, hy⟩

end WordReader

open WordReader

/-- A cursor supplies the words behind it. -/
theorem WordCursor.supplies_iff {c d : WordCursor} {words : List Word} :
    Supplies c words d ↔
      c.rest = words ++ d.rest ∧ d.position = c.position + words.length := by
  induction words generalizing c with
  | nil =>
    obtain ⟨rest, position⟩ := c
    obtain ⟨rest', position'⟩ := d
    simp [eq_comm]
  | cons w words ih =>
    obtain ⟨rest, position⟩ := c
    simp only [supplies_cons_iff, next, next?]
    cases rest with
    | nil => simp
    | cons v rest =>
      simp [ih, Nat.add_comm 1, Nat.add_assoc, and_assoc, eq_comm]

theorem Operand.load_eq_ok_iff {o o' : Operand} {s t : σ} :
    o.load s = .ok o' t ↔ o'.blank = o.blank ∧ Supplies s o'.extra?.toList t := by
  rw [Operand.blank_eq_blank_iff]
  cases ho : o.extra? with
  | none =>
    have hset := setExtra_of_extra?_eq_none ho
    simp only [load, ho, pure_eq_ok_iff]
    constructor
    · intro h
      obtain ⟨rfl, rfl⟩ := h
      exact ⟨⟨0, (hset 0).symm⟩, by simp [ho]⟩
    · intro h
      obtain ⟨⟨w, rfl⟩, h⟩ := h
      rw [hset w] at h ⊢
      exact ⟨rfl, by simpa [ho] using h⟩
  | some v =>
    have hset (w : Word) : (o.setExtra w).extra? = some w := by simp [extra?_setExtra, ho]
    simp only [load, ho, bind_eq_ok_iff]
    constructor
    · intro h
      obtain ⟨w, u, hw, h⟩ := h
      obtain ⟨rfl, rfl⟩ := pure_eq_ok_iff.1 h
      refine ⟨⟨w, rfl⟩, ?_⟩
      rw [hset w]
      exact .cons hw (.nil u)
    · intro h
      obtain ⟨⟨w, rfl⟩, h⟩ := h
      rw [hset w, Option.toList_some, supplies_cons_iff] at h
      obtain ⟨u, hw, hu⟩ := h
      exact ⟨w, u, hw, pure_eq_ok_iff.2 ⟨rfl, supplies_nil_iff.1 hu⟩⟩

namespace Instruction

theorem blank_eq_blank_iff {i j : Instruction} : j.blank = i.blank ↔
    j.opcode = i.opcode ∧ j.b.map Operand.blank = i.b.map Operand.blank ∧
      j.a.blank = i.a.blank := by
  simp [blank]

theorem loadExtra_eq_ok_iff {i j : Instruction} {s t : σ} :
    i.loadExtra s = .ok j t ↔ j.blank = i.blank ∧ Supplies s j.extras t := by
  obtain ⟨opcode, b, a⟩ := i
  obtain ⟨opcode', b', a'⟩ := j
  rw [blank_eq_blank_iff]
  unfold loadExtra
  rw [bind_eq_ok_iff]
  cases b with
  | none =>
    constructor
    · intro h
      obtain ⟨a₁, u, ha, h⟩ := h
      obtain ⟨⟨⟩, rfl⟩ := pure_eq_ok_iff.1 h
      obtain ⟨hblank, hs⟩ := Operand.load_eq_ok_iff.1 ha
      exact ⟨⟨rfl, rfl, hblank⟩, by simpa [extras] using hs⟩
    · intro h
      obtain ⟨⟨rfl, hb, ha⟩, hs⟩ := h
      obtain rfl : b' = none := Option.map_eq_none_iff.1 hb
      have hs : Supplies s a'.extra?.toList t := by simpa [extras] using hs
      exact ⟨a', t, Operand.load_eq_ok_iff.2 ⟨ha, hs⟩, pure_eq_ok_iff.2 ⟨rfl, rfl⟩⟩
  | some b =>
    constructor
    · intro h
      obtain ⟨a₁, u, ha, h⟩ := h
      obtain ⟨b₁, v, hb, h⟩ := bind_eq_ok_iff.1 h
      obtain ⟨⟨⟩, rfl⟩ := pure_eq_ok_iff.1 h
      obtain ⟨hablank, has⟩ := Operand.load_eq_ok_iff.1 ha
      obtain ⟨hbblank, hbs⟩ := Operand.load_eq_ok_iff.1 hb
      exact ⟨⟨rfl, congrArg some hbblank, hablank⟩, supplies_append_iff.2 ⟨u, has, hbs⟩⟩
    · intro h
      obtain ⟨⟨rfl, hb, ha⟩, hs⟩ := h
      obtain ⟨b₁, rfl, hbblank⟩ := Option.map_eq_some_iff.1 hb
      obtain ⟨u, has, hbs⟩ := supplies_append_iff.1 hs
      exact ⟨a', u, Operand.load_eq_ok_iff.2 ⟨ha, has⟩, bind_eq_ok_iff.2
        ⟨b₁, t, Operand.load_eq_ok_iff.2 ⟨hbblank, hbs⟩, pure_eq_ok_iff.2 ⟨rfl, rfl⟩⟩⟩

/-- An instruction is read exactly where its encoding stands, and only in canonical form. -/
theorem load_eq_ok_iff {i : Instruction} {s t : σ} :
    load s = .ok i t ↔ i.canonical = i ∧ ∃ words, i.encode = .ok words ∧ Supplies s words t := by
  unfold load
  rw [bind_eq_ok_iff]
  constructor
  · intro h
    obtain ⟨w, u, hw, h⟩ := h
    rw [adaptExcept_eq_ok_iff] at hw
    cases hi : ofWord w with
    | error e =>
      rw [hi] at h
      exact absurd h throw_ne_ok
    | ok j =>
      rw [hi] at h
      obtain ⟨hblank, hs⟩ := loadExtra_eq_ok_iff.1 (adaptExcept_eq_ok_iff.1 h)
      rw [← blank_of_ofWord hi, ← hblank] at hi
      obtain ⟨hc, he⟩ := ofWord_eq_ok_blank_iff.1 hi
      exact ⟨hc, _, he, .cons hw hs⟩
  · intro h
    obtain ⟨hc, words, he, hs⟩ := h
    obtain ⟨w, rfl⟩ := exists_eq_cons_extras he
    rw [hc] at he hs
    obtain ⟨u, hw, hs⟩ := supplies_cons_iff.1 hs
    refine ⟨w, u, adaptExcept_eq_ok_iff.2 hw, ?_⟩
    rw [ofWord_eq_ok_blank_iff.2 ⟨hc, he⟩]
    exact adaptExcept_eq_ok_iff.2 (loadExtra_eq_ok_iff.2 ⟨(blank_blank i).symm, hs⟩)

/-- Whatever the words that follow, an encoding is read as the canonical form. -/
theorem load_of_encode {i : Instruction} {words : List Word} {s t : σ}
    (he : i.encode = .ok words) (hs : Supplies s words t) : load s = .ok i.canonical t :=
  load_eq_ok_iff.2 ⟨i.canonical_canonical, words, by rw [encode_canonical, he], hs⟩

end Instruction

end Dcpu
