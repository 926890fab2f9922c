import Dcpu.Instruction.Decode
import Dcpu.Stateful

/-! States that supply the same words. If reading a word takes related states to related states, so
does loading an instruction, with the same answer; and skipping one, if passing over words does. -/
namespace Dcpu

variable {σ τ ε ε' α β : Type} {R : σ → τ → Prop}

/-- Two actions come out alike: with one answer or one failure, in related states. -/
inductive Agree (R : σ → τ → Prop) : EStateM.Result ε σ α → EStateM.Result ε τ α → Prop
  | ok {a : α} {s : σ} {t : τ} (h : R s t) : Agree R (.ok a s) (.ok a t)
  | error {e : ε} {s : σ} {t : τ} (h : R s t) : Agree R (.error e s) (.error e t)

namespace Agree

theorem bind {x : EStateM ε σ α} {y : EStateM ε τ α} {f : α → EStateM ε σ β}
    {g : α → EStateM ε τ β} {s : σ} {t : τ} (h : Agree R (x s) (y t))
    (hf : ∀ a s' t', R s' t' → Agree R (f a s') (g a t')) :
    Agree R ((x >>= f) s) ((y >>= g) t) := by
  change Agree R (EStateM.bind x f s) (EStateM.bind y g t)
  unfold EStateM.bind
  generalize x s = p at h
  generalize y t = q at h
  cases h with
  | ok h => exact hf _ _ _ h
  | error h => exact .error h

theorem map {k : α → β} {x : EStateM ε σ α} {y : EStateM ε τ α} {s : σ} {t : τ}
    (h : Agree R (x s) (y t)) : Agree R ((k <$> x) s) ((k <$> y) t) := by
  change Agree R (EStateM.map k x s) (EStateM.map k y t)
  unfold EStateM.map
  generalize x s = p at h
  generalize y t = q at h
  cases h with
  | ok h => exact .ok h
  | error h => exact .error h

theorem adaptExcept {k : ε → ε'} {x : EStateM ε σ α} {y : EStateM ε τ α} {s : σ} {t : τ}
    (h : Agree R (x s) (y t)) :
    Agree R (EStateM.adaptExcept k x s) (EStateM.adaptExcept k y t) := by
  unfold EStateM.adaptExcept
  generalize x s = p at h
  generalize y t = q at h
  cases h with
  | ok h => exact .ok h
  | error h => exact .error h

end Agree

variable [WordReader σ] [WordReader τ]

section Load

variable (hnext : ∀ {s t}, R s t →
  Agree R (WordReader.next (σ := σ) s) (WordReader.next (σ := τ) t))
include hnext

theorem Operand.load_agree (o : Operand) {s : σ} {t : τ} (h : R s t) :
    Agree R (o.load s) (o.load t) := by
  unfold load
  cases o.extra? with
  | none => exact .ok h
  | some _ => exact Agree.bind (hnext h) fun _ _ _ h => .ok h

namespace Instruction

theorem loadExtra_agree (i : Instruction) {s : σ} {t : τ} (h : R s t) :
    Agree R (i.loadExtra s) (i.loadExtra t) := by
  refine Agree.bind (Operand.load_agree hnext i.a h) fun a s t h => ?_
  cases i.b with
  | none => exact .ok h
  | some b => exact Agree.bind (Operand.load_agree hnext b h) fun _ _ _ h => .ok h

theorem load_agree {s : σ} {t : τ} (h : R s t) : Agree R (load s) (load t) := by
  refine Agree.bind (Agree.adaptExcept (hnext h)) fun w s t h => ?_
  cases ofWord w with
  | error e => exact .error h
  | ok i => exact Agree.adaptExcept (loadExtra_agree hnext i h)

theorem skip_agree (hskip : ∀ {s t} (n : Word), R s t →
      Agree R (WordReader.skip (σ := σ) n s) (WordReader.skip (σ := τ) n t))
    {s : σ} {t : τ} (h : R s t) : Agree R (skip s) (skip t) := by
  refine Agree.bind (Agree.adaptExcept (hnext h)) fun w s t h => ?_
  cases ofWord w with
  | error e => exact .error h
  | ok i => exact Agree.adaptExcept (hskip i.extraWords h)

end Instruction

end Load

end Dcpu
