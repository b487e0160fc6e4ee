import Mathlib.Algebra.Group.Int.Defs
import Mathlib.Algebra.Group.Nat.Defs
import Mathlib.Algebra.GroupWithZero.Nat
import Mathlib.Tactic.Common

/-!
# Computations that leave a trace

A computation that ends with a value or an error and records what it accessed on the way, also
when it fails.

* `Traced` — the result and the accesses, in order; a monad.
* `Traced.Keeps` — every access is permitted and a value satisfies a condition, composed along
  the steps of a computation.
-/

set_option autoImplicit false

namespace Acts.Lib

variable {ε σ α β : Type}

structure Traced (ε σ α : Type) where
  result : Except ε α
  accesses : List σ

namespace Traced

def lift (x : Except ε α) : Traced ε σ α := ⟨x, []⟩

def fail (e : ε) : Traced ε σ α := ⟨.error e, []⟩

/-- An access, with what it yields. -/
def access (s : σ) (x : Except ε α) : Traced ε σ α := ⟨x, [s]⟩

protected def bind (x : Traced ε σ α) (f : α → Traced ε σ β) : Traced ε σ β :=
  match x.result with
  | .error e => ⟨.error e, x.accesses⟩
  | .ok a => ⟨(f a).result, x.accesses ++ (f a).accesses⟩

instance : Monad (Traced ε σ) where
  pure a := ⟨.ok a, []⟩
  bind := Traced.bind

/-- Every access satisfies `P`, and the value `Q`. -/
structure Keeps (P : σ → Prop) (x : Traced ε σ α) (Q : α → Prop) : Prop where
  accesses : ∀ s ∈ x.accesses, P s
  value : ∀ a, x.result = .ok a → Q a

variable {P : σ → Prop} {Q : α → Prop} {R : β → Prop}

theorem keeps_lift {x : Except ε α} (h : ∀ a, x = .ok a → Q a) : Keeps P (lift x) Q :=
  ⟨nofun, h⟩

theorem keeps_fail (e : ε) : Keeps P (fail e) Q := ⟨nofun, nofun⟩

theorem keeps_pure {a : α} (h : Q a) : Keeps P (pure a : Traced ε σ α) Q := by
  refine ⟨nofun, fun b hb => ?_⟩
  cases hb
  exact h

theorem keeps_access {s : σ} {x : Except ε α} (hs : P s) (h : ∀ a, x = .ok a → Q a) :
    Keeps P (access s x) Q := by
  refine ⟨fun s' hs' => ?_, h⟩
  rw [List.mem_singleton.mp hs']
  exact hs

theorem Keeps.bind {x : Traced ε σ α} {f : α → Traced ε σ β} (hx : Keeps P x Q)
    (hf : ∀ a, Q a → Keeps P (f a) R) : Keeps P (x >>= f) R := by
  show Keeps P (Traced.bind x f) R
  unfold Traced.bind
  split
  · exact ⟨hx.accesses, nofun⟩
  · rename_i a ha
    have hfa := hf a (hx.value a ha)
    refine ⟨fun s hs => ?_, hfa.value⟩
    rcases List.mem_append.mp hs with hs | hs
    · exact hx.accesses s hs
    · exact hfa.accesses s hs

/-- More accesses may be permitted. -/
theorem Keeps.permit {P' : σ → Prop} {x : Traced ε σ α} (hx : Keeps P x Q)
    (h : ∀ s, P s → P' s) : Keeps P' x Q :=
  ⟨fun s hs => h s (hx.accesses s hs), hx.value⟩

end Traced

end Acts.Lib
