import Mathlib.Algebra.Group.Int.Defs
import Mathlib.Algebra.Group.Nat.Defs
import Mathlib.Algebra.GroupWithZero.Nat
import Mathlib.Data.List.Forall2
import Mathlib.Tactic.Common

/-!
# Computations that can fail

* `ok_of_bind` — the first step of a computation that succeeds.
* `mapM_ok`, `mapM_error` — a computation run on every element of a list.
* `Safe` — a computation that ends well or with a permitted error, composed along its steps.
-/

set_option autoImplicit false

namespace Acts

variable {ε α β : Type}

/-- From a computation that succeeds, its first step succeeds. -/
theorem ok_of_bind {x : Except ε α} {f : α → Except ε β} {r : β} (h : x >>= f = .ok r) :
    ∃ a, x = .ok a ∧ f a = .ok r := by
  cases x with
  | error e => cases h
  | ok a => exact ⟨a, rfl, h⟩

theorem ok_of_map {x : Except ε α} {f : α → β} {r : β} (h : x.map f = .ok r) :
    ∃ a, x = .ok a ∧ f a = r := by
  cases x with
  | error e => cases h
  | ok a => exact ⟨a, rfl, Except.ok.inj h⟩

theorem ok_of_toOption {x : Except ε α} {a : α} (h : x.toOption = some a) : x = .ok a := by
  cases x with
  | error e => cases h
  | ok b =>
    cases h
    rfl

/-- A map that succeeds succeeds at every element. -/
theorem mapM_ok {f : α → Except ε β} {xs : List α} {ys : List β} (h : xs.mapM f = .ok ys) :
    List.Forall₂ (fun x y => f x = .ok y) xs ys := by
  induction xs generalizing ys with
  | nil =>
    cases h
    exact .nil
  | cons x xs ih =>
    rw [List.mapM_cons] at h
    obtain ⟨y, hy, h⟩ := ok_of_bind h
    obtain ⟨ys', hys, h⟩ := ok_of_bind h
    cases h
    exact .cons hy (ih hys)

/-- A map whose function succeeds everywhere succeeds. -/
theorem mapM_of_forall {f : α → Except ε β} {R : α → β → Prop}
    (h : ∀ x, ∃ y, f x = .ok y ∧ R x y) (xs : List α) :
    ∃ ys, xs.mapM f = .ok ys ∧ List.Forall₂ R xs ys := by
  induction xs with
  | nil => exact ⟨[], rfl, .nil⟩
  | cons x xs ih =>
    obtain ⟨y, hy, hR⟩ := h x
    obtain ⟨ys, hys, hall⟩ := ih
    refine ⟨y :: ys, ?_, .cons hR hall⟩
    rw [List.mapM_cons, hy]
    show (xs.mapM f >>= _) = _
    rw [hys]
    rfl

theorem mapM_getElem? {f : α → Except ε β} {xs : List α} {ys : List β} {i : Nat} {y : β}
    (h : xs.mapM f = .ok ys) (hy : ys[i]? = some y) : ∃ x, xs[i]? = some x ∧ f x = .ok y := by
  obtain ⟨hi, rfl⟩ := List.getElem?_eq_some_iff.mp hy
  have hforall := mapM_ok h
  have hi' : i < xs.length := hforall.length_eq ▸ hi
  exact ⟨xs[i], List.getElem?_eq_getElem hi', hforall.get hi' hi⟩

/-- A map that fails fails at some element. -/
theorem mapM_error {f : α → Except ε β} {xs : List α} {e : ε} (h : xs.mapM f = .error e) :
    ∃ x ∈ xs, f x = .error e := by
  induction xs with
  | nil => cases h
  | cons x xs ih =>
    rw [List.mapM_cons] at h
    cases hx : f x with
    | error e' =>
      rw [hx] at h
      cases h
      exact ⟨x, List.mem_cons_self, hx⟩
    | ok y =>
      rw [hx] at h
      cases hxs : xs.mapM f with
      | error e' =>
        simp only [hxs, bind, Except.bind] at h
        cases h
        obtain ⟨x', hx', he⟩ := ih hxs
        exact ⟨x', List.mem_cons_of_mem _ hx', he⟩
      | ok ys =>
        simp only [hxs, bind, Except.bind] at h
        cases h

/-- A result satisfies `Q`, an error satisfies `E`. -/
def Safe (E : ε → Prop) (x : Except ε α) (Q : α → Prop) : Prop :=
  match x with
  | .ok a => Q a
  | .error e => E e

namespace Safe

variable {E : ε → Prop} {x : Except ε α} {Q Q' : α → Prop}

/-- The next step may use what the first one computed. -/
theorem bindOk {f : α → Except ε β} {R : β → Prop} (hx : Safe E x Q)
    (hf : ∀ a, x = .ok a → Q a → Safe E (f a) R) : Safe E (x >>= f) R := by
  cases x with
  | error e => exact hx
  | ok a => exact hf a rfl hx

theorem bind {f : α → Except ε β} {R : β → Prop} (hx : Safe E x Q)
    (hf : ∀ a, Q a → Safe E (f a) R) : Safe E (x >>= f) R :=
  hx.bindOk fun a _ ha => hf a ha

theorem mono (hx : Safe E x Q) (h : ∀ a, Q a → Q' a) : Safe E x Q' := by
  cases x with
  | error e => exact hx
  | ok a => exact h a hx

end Safe

end Acts
