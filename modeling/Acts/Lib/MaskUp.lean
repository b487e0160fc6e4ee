import Mathlib.Algebra.Group.Int.Defs
import Mathlib.Algebra.Group.Nat.Defs
import Mathlib.Algebra.GroupWithZero.Nat
import Mathlib.Data.Nat.Bitwise
import Mathlib.Tactic.Common

/-!
# Rounding up with a mask

* `roundUp` — the next multiple; `maskUp` — `(x + (a - 1)) & ~(a - 1)` in 64 bits.
* `maskUp_spec` — **when the mask gives the next multiple.**
* `maskMod_two_pow` — it does for powers of two.
-/

set_option autoImplicit false

namespace Acts

/-- The first multiple of `a` from `n` on. -/
def roundUp (n a : Nat) : Nat := n + (a - 1) - (n + (a - 1)) % a

theorem le_roundUp {a : Nat} (ha : 0 < a) (n : Nat) : n ≤ roundUp n a := by
  have hlt := Nat.mod_lt (n + (a - 1)) ha
  unfold roundUp
  omega

theorem dvd_roundUp (n a : Nat) : a ∣ roundUp n a := Nat.dvd_sub_mod _

/-- `(x + (a - 1)) & ~(a - 1)` -/
def maskUp (x a : UInt64) : UInt64 := (x + (a - 1)) &&& ~~~(a - 1)

/-- The mask takes as much off as a division does. -/
def MaskMod (n a : Nat) : Prop := (n + (a - 1)) &&& (a - 1) = (n + (a - 1)) % a

instance (n a : Nat) : Decidable (MaskMod n a) := inferInstanceAs (Decidable (_ = _))

theorem maskMod_two_pow (n k : Nat) : MaskMod n (2 ^ k) := Nat.and_two_pow_sub_one_eq_mod _ k

section Mask

variable {x a : UInt64}

/-- What the mask leaves, and what it takes off. -/
theorem toNat_and_not (x m : UInt64) :
    (x &&& ~~~m).toNat = x.toNat - (x.toNat &&& m.toNat) := by
  have hzero : (x.toBitVec &&& m.toBitVec) &&& (x.toBitVec &&& ~~~m.toBitVec) = 0#64 := by
    ext i hi
    simp only [BitVec.getElem_and, BitVec.getElem_not, BitVec.getElem_zero]
    cases x.toBitVec[i] <;> cases m.toBitVec[i] <;> rfl
  have hall : (x.toBitVec &&& m.toBitVec) + (x.toBitVec &&& ~~~m.toBitVec) = x.toBitVec := by
    rw [BitVec.add_eq_or_of_and_eq_zero _ _ hzero]
    ext i hi
    simp only [BitVec.getElem_or, BitVec.getElem_and, BitVec.getElem_not]
    cases x.toBitVec[i] <;> cases m.toBitVec[i] <;> rfl
  have hsum := congrArg BitVec.toNat hall
  rw [BitVec.toNat_add_of_and_eq_zero hzero, BitVec.toNat_and] at hsum
  show (x.toBitVec &&& ~~~m.toBitVec).toNat =
    x.toBitVec.toNat - (x.toBitVec.toNat &&& m.toBitVec.toNat)
  omega

theorem maskUp_zero (x : UInt64) : maskUp x 0 = 0 := by
  unfold maskUp
  rw [show ~~~((0 : UInt64) - 1) = 0 from rfl, UInt64.and_zero]

theorem toNat_sub_one (ha : a ≠ 0) : (a - 1).toNat = a.toNat - 1 := by
  have hpos : a.toNat ≠ 0 := fun h => ha (UInt64.toNat_inj.1 h)
  exact UInt64.toNat_sub_of_le _ _ (UInt64.le_iff_toNat_le.2 (Nat.one_le_iff_ne_zero.2 hpos))

theorem toNat_maskUp (ha : a ≠ 0) (hlt : x.toNat + (a.toNat - 1) < 2 ^ 64) :
    (maskUp x a).toNat =
      x.toNat + (a.toNat - 1) - ((x.toNat + (a.toNat - 1)) &&& (a.toNat - 1)) := by
  unfold maskUp
  rw [toNat_and_not, UInt64.toNat_add, toNat_sub_one ha, Nat.mod_eq_of_lt hlt]

/-- The mask goes back where the sum wraps. -/
theorem maskUp_lt (ha : a ≠ 0) (hle : 2 ^ 64 ≤ x.toNat + (a.toNat - 1)) :
    (maskUp x a).toNat < x.toNat := by
  have hx := x.toNat_lt
  have ha' := a.toNat_lt
  unfold maskUp
  rw [toNat_and_not, UInt64.toNat_add, toNat_sub_one ha]
  omega

/-- **Where the mask gives a multiple that is not before `x`**: it is then the next one. -/
theorem maskUp_spec (ha : a ≠ 0) :
    (x.toNat ≤ (maskUp x a).toNat ∧ a.toNat ∣ (maskUp x a).toNat) ↔
      x.toNat + (a.toNat - 1) < 2 ^ 64 ∧ MaskMod x.toNat a.toNat := by
  have hpos : 0 < a.toNat := Nat.pos_of_ne_zero fun h => ha (UInt64.toNat_inj.1 h)
  have hmask : (x.toNat + (a.toNat - 1)) &&& (a.toNat - 1) ≤ a.toNat - 1 := Nat.and_le_right
  constructor
  · rintro ⟨hle, hdvd⟩
    have hlt : x.toNat + (a.toNat - 1) < 2 ^ 64 := by
      by_contra hnot
      have hback := maskUp_lt ha (Nat.le_of_not_lt hnot)
      omega
    refine ⟨hlt, ?_⟩
    rw [toNat_maskUp ha hlt] at hdvd
    unfold MaskMod
    have hsplit : x.toNat + (a.toNat - 1) =
        (x.toNat + (a.toNat - 1) - ((x.toNat + (a.toNat - 1)) &&& (a.toNat - 1))) +
          ((x.toNat + (a.toNat - 1)) &&& (a.toNat - 1)) :=
      (Nat.sub_add_cancel Nat.and_le_left).symm
    obtain ⟨q, hq⟩ := hdvd
    have hmod' : (x.toNat + (a.toNat - 1)) % a.toNat =
        (a.toNat * q + ((x.toNat + (a.toNat - 1)) &&& (a.toNat - 1))) % a.toNat :=
      congrArg (· % a.toNat) (hsplit.trans (congrArg (· + _) hq))
    rw [hmod', Nat.mul_add_mod, Nat.mod_eq_of_lt (by omega)]
  · rintro ⟨hlt, hmod⟩
    unfold MaskMod at hmod
    rw [toNat_maskUp ha hlt, hmod]
    exact ⟨le_roundUp hpos x.toNat, dvd_roundUp x.toNat a.toNat⟩

theorem maskUp_eq (ha : a ≠ 0) (hlt : x.toNat + (a.toNat - 1) < 2 ^ 64)
    (hmod : MaskMod x.toNat a.toNat) : (maskUp x a).toNat = roundUp x.toNat a.toNat := by
  unfold MaskMod at hmod
  rw [toNat_maskUp ha hlt, hmod]
  rfl

end Mask

end Acts
