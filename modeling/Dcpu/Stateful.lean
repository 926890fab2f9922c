/-! When an action on a state succeeds and when it fails, if failures keep the state that they
reached. -/
namespace Dcpu.Stateful

variable {ε ε' σ α β : Type}

theorem bind_eq_ok_iff {x : EStateM ε σ α} {f : α → EStateM ε σ β} {s t : σ} {b : β} :
    (x >>= f) s = .ok b t ↔ ∃ a u, x s = .ok a u ∧ f a u = .ok b t := by
  change EStateM.bind x f s = _ ↔ _
  unfold EStateM.bind
  cases x s <;> simp [and_assoc]

theorem bind_eq_error_iff {x : EStateM ε σ α} {f : α → EStateM ε σ β} {s t : σ} {e : ε} :
    (x >>= f) s = .error e t ↔
      x s = .error e t ∨ ∃ a u, x s = .ok a u ∧ f a u = .error e t := by
  change EStateM.bind x f s = _ ↔ _
  unfold EStateM.bind
  cases x s <;> simp [and_assoc]

theorem bind_of_ok {x : EStateM ε σ α} {f : α → EStateM ε σ β} {s t : σ} {a : α}
    (h : x s = .ok a t) : (x >>= f) s = f a t := by
  change EStateM.bind x f s = _
  simp [EStateM.bind, h]

theorem bind_of_error {x : EStateM ε σ α} {f : α → EStateM ε σ β} {s t : σ} {e : ε}
    (h : x s = .error e t) : (x >>= f) s = .error e t := by
  change EStateM.bind x f s = _
  simp [EStateM.bind, h]

theorem map_of_ok {x : EStateM ε σ α} {f : α → β} {s t : σ} {a : α} (h : x s = .ok a t) :
    (f <$> x) s = .ok (f a) t := by
  simp [Functor.map, EStateM.map, h]

theorem map_of_error {x : EStateM ε σ α} {f : α → β} {s t : σ} {e : ε} (h : x s = .error e t) :
    (f <$> x) s = .error e t := by
  simp [Functor.map, EStateM.map, h]

theorem pure_eq_ok_iff {s t : σ} {a b : α} :
    (pure a : EStateM ε σ α) s = .ok b t ↔ a = b ∧ s = t := by
  change EStateM.Result.ok a s = _ ↔ _
  simp

theorem adaptExcept_eq_ok_iff {g : ε → ε'} {x : EStateM ε σ α} {s t : σ} {a : α} :
    EStateM.adaptExcept g x s = .ok a t ↔ x s = .ok a t := by
  unfold EStateM.adaptExcept
  cases x s <;> simp

theorem adaptExcept_eq_error_iff {g : ε → ε'} {x : EStateM ε σ α} {s t : σ} {e' : ε'} :
    EStateM.adaptExcept g x s = .error e' t ↔ ∃ e, x s = .error e t ∧ g e = e' := by
  unfold EStateM.adaptExcept
  cases x s with
  | ok a u => simp
  | error e u =>
    constructor
    · intro h
      cases h
      exact ⟨e, rfl, rfl⟩
    · intro h
      obtain ⟨_, ⟨⟩, rfl⟩ := h
      rfl

theorem adaptExcept_of_ok {g : ε → ε'} {x : EStateM ε σ α} {s t : σ} {a : α}
    (h : x s = .ok a t) : EStateM.adaptExcept g x s = .ok a t := by
  simp [EStateM.adaptExcept, h]

theorem adaptExcept_of_error {g : ε → ε'} {x : EStateM ε σ α} {s t : σ} {e : ε}
    (h : x s = .error e t) : EStateM.adaptExcept g x s = .error (g e) t := by
  simp [EStateM.adaptExcept, h]

@[simp] theorem throw_eq (e : ε) (s : σ) : (throw e : EStateM ε σ α) s = .error e s := rfl

theorem throw_ne_ok {e : ε} {s t : σ} {a : α} :
    (throw e : EStateM ε σ α) s ≠ .ok a t := nofun

end Dcpu.Stateful
