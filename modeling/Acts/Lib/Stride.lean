import Mathlib.Algebra.Group.Int.Defs
import Mathlib.Algebra.Group.Nat.Defs
import Mathlib.Algebra.GroupWithZero.Nat
import Mathlib.Data.List.Nodup
import Mathlib.Tactic.Common

/-!
# Every `k`-th index

* `strided` — the indices `i`, `i + k`, … below a bound.
* `strided_perm` — **`k` workers that start one behind the other have every index once.**
-/

set_option autoImplicit false

namespace Acts.Stride

variable {k stop i j : Nat}

/-- The indices `i`, `i + k`, … below `stop`. -/
def strided (k stop i : Nat) : List Nat := List.range' i ((stop - i + k - 1) / k) k

theorem strided_of_lt (hk : 0 < k) (h : i < stop) :
    strided k stop i = i :: strided k stop (i + k) := by
  have hcount : (stop - i + k - 1) / k = (stop - (i + k) + k - 1) / k + 1 := by
    rcases Nat.lt_or_ge (stop - i) k with hlt | hge
    · rw [show stop - (i + k) = 0 by omega, Nat.div_eq_of_lt (show 0 + k - 1 < k by omega),
        show stop - i + k - 1 = stop - i - 1 + k by omega, Nat.add_div_right _ hk,
        Nat.div_eq_of_lt (by omega)]
    · rw [← Nat.add_div_right _ hk]
      congr 1
      omega
  unfold strided
  rw [hcount, List.range'_succ]

theorem strided_of_le (hk : 0 < k) (h : stop ≤ i) : strided k stop i = [] := by
  unfold strided
  rw [Nat.div_eq_of_lt (by omega)]
  rfl

theorem mem_strided (hk : 0 < k) : j ∈ strided k stop i ↔ i ≤ j ∧ j < stop ∧ k ∣ j - i := by
  unfold strided
  rw [List.mem_range']
  constructor
  · rintro ⟨n, hn, rfl⟩
    have hmul := Nat.mul_le_of_le_div k (n + 1) (stop - i + k - 1) hn
    rw [Nat.add_one_mul, Nat.mul_comm] at hmul
    exact ⟨Nat.le_add_right _ _, by omega, ⟨n, Nat.add_sub_cancel_left ..⟩⟩
  · rintro ⟨hle, hlt, n, hn⟩
    refine ⟨n, ?_, by omega⟩
    have hmul : (n + 1) * k ≤ stop - i + k - 1 := by
      rw [Nat.add_one_mul, Nat.mul_comm]
      omega
    exact (Nat.le_div_iff_mul_le hk).2 hmul

theorem mod_of_mem_strided {t : Nat} (ht : t < k) (h : j ∈ strided k stop (1 + t)) :
    (j - 1) % k = t := by
  obtain ⟨hle, -, n, hn⟩ := (mem_strided (by omega)).1 h
  have hj : j - 1 = t + k * n := by omega
  rw [hj, Nat.add_mul_mod_self_left, Nat.mod_eq_of_lt ht]

/-- **Workers that start one behind the other have every index once.** -/
theorem strided_perm (hk : 0 < k) :
    ((List.range' 0 k).flatMap fun t => strided k stop (1 + t)).Perm
      (List.range' 1 (stop - 1)) := by
  have hnodup : ((List.range' 0 k).flatMap fun t => strided k stop (1 + t)).Nodup := by
    rw [List.nodup_flatMap]
    refine ⟨fun t _ => List.nodup_range' _ hk, ?_⟩
    have hrange : (List.range' 0 k).Nodup := List.nodup_range'
    refine hrange.imp_of_mem fun {t t'} ht ht' hne => ?_
    intro j hj hj'
    rw [List.mem_range'_1] at ht ht'
    exact hne ((mod_of_mem_strided (by omega) hj).symm.trans
      (mod_of_mem_strided (by omega) hj'))
  refine (List.perm_ext_iff_of_nodup hnodup List.nodup_range').2 fun j => ?_
  rw [List.mem_flatMap, List.mem_range'_1]
  constructor
  · rintro ⟨t, -, hj⟩
    obtain ⟨h₁, h₂, -⟩ := (mem_strided hk).1 hj
    omega
  · intro hj
    refine ⟨(j - 1) % k, ?_, ?_⟩
    · rw [List.mem_range'_1]
      have := Nat.mod_lt (j - 1) hk
      omega
    · have hle := Nat.mod_le (j - 1) k
      refine (mem_strided hk).2 ⟨by omega, by omega, ?_⟩
      rw [Nat.sub_add_eq]
      exact Nat.dvd_sub_mod _

end Acts.Stride
