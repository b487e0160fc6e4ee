import Mathlib.Algebra.Group.Int.Defs
import Mathlib.Algebra.Group.Nat.Defs
import Mathlib.Algebra.GroupWithZero.Nat
import Mathlib.Tactic.Common

/-!
# Results of stateful computations

Rules for `EStateM`, whose exceptions keep the state.

* `Ends` — what holds of the result and the state, and what of the state behind an exception.
* `Ends.bind`, `Ends.mono` — composition and weakening.
* `EndsIn` — the same, with the exception in view.
* `bind_ok`, `get_bind`, `modify_bind`, `bind_error` — a computation behind a step whose result is known.
-/

set_option autoImplicit false

namespace Acts

variable {ε σ α β : Type}

/-- From `s`, `Q` holds where `x` returns, and `E` where it throws. -/
def Ends (x : EStateM ε σ α) (s : σ) (Q : α → σ → Prop) (E : σ → Prop) : Prop :=
  match x s with
  | .ok a s => Q a s
  | .error _ s => E s

section Bind

variable {x : EStateM ε σ α} {f : α → EStateM ε σ β} {s s' : σ}

theorem bind_ok {a : α} (h : x s = .ok a s') : (x >>= f) s = f a s' := by
  show EStateM.bind x f s = f a s'
  unfold EStateM.bind
  rw [h]

theorem bind_of_eq (h : x s = x s') : (x >>= f) s = (x >>= f) s' := by
  show EStateM.bind x f s = EStateM.bind x f s'
  unfold EStateM.bind
  rw [h]

theorem returns_of_bind {b : β} (h : (x >>= f) s = .ok b s') :
    ∃ a s₁, x s = .ok a s₁ ∧ f a s₁ = .ok b s' := by
  cases hx : x s with
  | ok a s₁ => exact ⟨a, s₁, rfl, (bind_ok hx).symm.trans h⟩
  | error e s₁ =>
    have h : EStateM.bind x f s = .ok b s' := h
    unfold EStateM.bind at h
    rw [hx] at h
    cases h

theorem get_bind (f : σ → EStateM ε σ β) (s : σ) : (get >>= f) s = f s s := rfl

theorem modify_bind (g : σ → σ) (f : PUnit → EStateM ε σ β) (s : σ) :
    (modify g >>= f) s = f ⟨⟩ (g s) := rfl

theorem bind_error {e : ε} (h : x s = .error e s') : (x >>= f) s = .error e s' := by
  show EStateM.bind x f s = .error e s'
  unfold EStateM.bind
  rw [h]

end Bind

namespace Ends

variable {x : EStateM ε σ α} {s s' : σ} {Q Q' : α → σ → Prop} {E E' : σ → Prop}

theorem of_ok {a : α} (hx : x s = .ok a s') (h : Q a s') : Ends x s Q E := by
  unfold Ends
  rw [hx]
  exact h

theorem of_error {e : ε} (hx : x s = .error e s') (h : E s') : Ends x s Q E := by
  unfold Ends
  rw [hx]
  exact h

theorem trivial (x : EStateM ε σ α) (s : σ) : Ends x s (fun _ _ => True) (fun _ => True) := by
  unfold Ends
  split
  · exact True.intro
  · exact True.intro

theorem ok {a : α} (h : Ends x s Q E) (hx : x s = .ok a s') : Q a s' := by
  unfold Ends at h
  rw [hx] at h
  exact h

theorem error {e : ε} (h : Ends x s Q E) (hx : x s = .error e s') : E s' := by
  unfold Ends at h
  rw [hx] at h
  exact h

theorem mono (h : Ends x s Q E) (hQ : ∀ a s, Q a s → Q' a s) (hE : ∀ s, E s → E' s) :
    Ends x s Q' E' := by
  cases hx : x s with
  | ok a s' => exact .of_ok hx (hQ a s' (h.ok hx))
  | error e s' => exact .of_error hx (hE s' (h.error hx))

theorem bind {f : α → EStateM ε σ β} {R : β → σ → Prop} (h : Ends x s Q E)
    (hf : ∀ a s', Q a s' → Ends (f a) s' R E) : Ends (x >>= f) s R E := by
  cases hx : x s with
  | ok a s' =>
    have hrest := hf a s' (h.ok hx)
    unfold Ends at hrest ⊢
    rw [bind_ok hx]
    exact hrest
  | error e s' => exact .of_error (bind_error hx) (h.error hx)

theorem get {f : σ → EStateM ε σ β} {R : β → σ → Prop} (h : Ends (f s) s R E) :
    Ends (MonadState.get >>= f) s R E := h

theorem modify {f : σ → σ} {g : PUnit → EStateM ε σ β} {R : β → σ → Prop}
    (h : Ends (g ⟨⟩) (f s) R E) : Ends (modify f >>= g) s R E := h

end Ends

/-! ## With the exception -/

/-- From `s`, `Q` holds where `x` returns, and `E` of what it throws. -/
def EndsIn (x : EStateM ε σ α) (s : σ) (Q : α → σ → Prop) (E : ε → σ → Prop) : Prop :=
  match x s with
  | .ok a s => Q a s
  | .error e s => E e s

namespace EndsIn

variable {x : EStateM ε σ α} {s s' : σ} {Q Q' : α → σ → Prop} {E E' : ε → σ → Prop}

instance [∀ a s, Decidable (Q a s)] [∀ e s, Decidable (E e s)] : Decidable (EndsIn x s Q E) := by
  unfold EndsIn
  split
  · infer_instance
  · infer_instance

theorem of_ok {a : α} (hx : x s = .ok a s') (h : Q a s') : EndsIn x s Q E := by
  unfold EndsIn
  rw [hx]
  exact h

theorem of_error {e : ε} (hx : x s = .error e s') (h : E e s') : EndsIn x s Q E := by
  unfold EndsIn
  rw [hx]
  exact h

theorem ok {a : α} (h : EndsIn x s Q E) (hx : x s = .ok a s') : Q a s' := by
  unfold EndsIn at h
  rw [hx] at h
  exact h

theorem error {e : ε} (h : EndsIn x s Q E) (hx : x s = .error e s') : E e s' := by
  unfold EndsIn at h
  rw [hx] at h
  exact h

theorem mono (h : EndsIn x s Q E) (hQ : ∀ a s, Q a s → Q' a s) (hE : ∀ e s, E e s → E' e s) :
    EndsIn x s Q' E' := by
  cases hx : x s with
  | ok a s' => exact .of_ok hx (hQ a s' (h.ok hx))
  | error e s' => exact .of_error hx (hE e s' (h.error hx))

/-- Behind a step whose result is known. -/
theorem after {f : α → EStateM ε σ β} {R : β → σ → Prop} {a : α} (hx : x s = .ok a s')
    (h : EndsIn (f a) s' R E) : EndsIn (x >>= f) s R E := by
  unfold EndsIn at h ⊢
  rw [bind_ok hx]
  exact h

theorem bind {f : α → EStateM ε σ β} {R : β → σ → Prop} (h : EndsIn x s Q E)
    (hE : ∀ e s, E e s → E' e s) (hf : ∀ a s', Q a s' → EndsIn (f a) s' R E') :
    EndsIn (x >>= f) s R E' := by
  cases hx : x s with
  | ok a s' => exact .after hx (hf a s' (h.ok hx))
  | error e s' => exact .of_error (bind_error hx) (hE e s' (h.error hx))

theorem get {f : σ → EStateM ε σ β} {R : β → σ → Prop} (h : EndsIn (f s) s R E) :
    EndsIn (MonadState.get >>= f) s R E := h

theorem modify {f : σ → σ} {g : PUnit → EStateM ε σ β} {R : β → σ → Prop}
    (h : EndsIn (g ⟨⟩) (f s) R E) : EndsIn (modify f >>= g) s R E := h

end EndsIn

end Acts
