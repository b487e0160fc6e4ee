import Mathlib.Algebra.Group.Int.Defs
import Mathlib.Algebra.Group.Nat.Defs
import Mathlib.Algebra.GroupWithZero.Nat
import Mathlib.Data.Nat.Bitwise
import Mathlib.Data.Nat.GCD.Basic
import Mathlib.Data.Nat.ModEq
import Mathlib.Data.Nat.Prime.Basic
import Mathlib.Tactic.Common

/-!
# Functions that work on low bits

* `LowBits` — the lowest bits of the result are decided by as many bits of the argument, and
  decide them.
* `LowBits.comp`, `LowBits.mul_odd`, `LowBits.xor_const`, `LowBits.foldl` — how such functions are
  put together.
-/

set_option autoImplicit false

namespace Acts

variable {w : Nat}

/-- `x` and `y` have the same `n` lowest bits. -/
def SameLow (n : Nat) (x y : BitVec w) : Prop := x.toNat % 2 ^ n = y.toNat % 2 ^ n

/-- The `n` lowest bits of the result stand for the `n` lowest bits of the argument. -/
def LowBits (f : BitVec w → BitVec w) : Prop :=
  ∀ n, n ≤ w → ∀ x y, SameLow n (f x) (f y) ↔ SameLow n x y

namespace LowBits

variable {f g : BitVec w → BitVec w}

theorem id : LowBits (fun x : BitVec w => x) := fun _ _ _ _ => Iff.rfl

theorem comp (hg : LowBits g) (hf : LowBits f) : LowBits (fun x => g (f x)) := by
  intro n hn x y
  rw [hg n hn, hf n hn]

/-- Multiplication by an odd number. -/
theorem mul_odd {p : BitVec w} (hp : p.toNat % 2 = 1) : LowBits (fun x => p * x) := by
  intro n hn x y
  have hdvd : 2 ^ n ∣ 2 ^ w := Nat.pow_dvd_pow 2 hn
  have hcoprime : (2 ^ n).gcd p.toNat = 1 :=
    (Nat.coprime_two_left.mpr (Nat.odd_iff.mpr hp)).pow_left n
  unfold SameLow
  rw [BitVec.toNat_mul, BitVec.toNat_mul, Nat.mod_mod_of_dvd _ hdvd, Nat.mod_mod_of_dvd _ hdvd]
  constructor
  · intro h
    exact Nat.ModEq.cancel_left_of_coprime hcoprime h
  · intro h
    exact Nat.ModEq.mul_left _ h

/-- Exclusive or with a number. -/
theorem xor_const (c : BitVec w) : LowBits (fun x => x ^^^ c) := by
  intro n hn x y
  unfold SameLow
  rw [BitVec.toNat_xor, BitVec.toNat_xor, Nat.xor_mod_two_pow, Nat.xor_mod_two_pow]
  constructor
  · intro h
    have hx := congrArg (· ^^^ c.toNat % 2 ^ n) h
    simpa only [Nat.xor_xor_cancel_right] using hx
  · intro h
    rw [h]

/-- One such step for each element of a list. -/
theorem foldl {α : Type} {step : BitVec w → α → BitVec w}
    (hstep : ∀ a, LowBits (fun x => step x a)) (l : List α) :
    LowBits (fun x => l.foldl step x) := by
  induction l with
  | nil => exact LowBits.id
  | cons a l ih => exact ih.comp (hstep a)

end LowBits

end Acts
