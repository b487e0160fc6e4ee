import Mathlib.Algebra.Group.Int.Defs
import Mathlib.Algebra.Group.Nat.Defs
import Mathlib.Algebra.GroupWithZero.Nat
import Mathlib.Data.List.Perm.Basic
import Mathlib.Tactic.Common

/-!
# Ranges that tile an interval

Half-open ranges of positions.  Ranges that follow one another without a gap cover every position
between the first begin and the last end exactly once, in whatever order they are counted.

* `Contiguous a rs b` — the ranges `rs` lead from `a` to `b`.
* `covers rs k` — how many of the ranges contain `k`.
* `Contiguous.covers` — a contiguous list covers every position of its interval once.
-/

set_option autoImplicit false

namespace Acts.Lib.Tiling

/-- A range from its first position to the position behind its last one. -/
abbrev Range := Nat × Nat

def Contiguous (a : Nat) : List Range → Nat → Prop
  | [], b => a = b
  | r :: rs, b => r.1 = a ∧ r.1 < r.2 ∧ Contiguous r.2 rs b

/-- The number of ranges that contain a position. -/
def covers (rs : List Range) (k : Nat) : Nat :=
  rs.countP fun r => r.1 ≤ k ∧ k < r.2

/-- Every position below `n` is in one range, and no other position is in any. -/
def Tiles (rs : List Range) (n : Nat) : Prop :=
  ∀ k, covers rs k = if k < n then 1 else 0

variable {a b : Nat} {rs rs' : List Range}

theorem Contiguous.le (h : Contiguous a rs b) : a ≤ b := by
  induction rs generalizing a with
  | nil => exact Nat.le_of_eq h
  | cons r rs ih =>
    obtain ⟨rfl, hlt, hrest⟩ := h
    exact Nat.le_trans (Nat.le_of_lt hlt) (ih hrest)

theorem covers_cons (r : Range) (rs : List Range) (k : Nat) :
    covers (r :: rs) k = covers rs k + if r.1 ≤ k ∧ k < r.2 then 1 else 0 := by
  unfold covers
  rw [List.countP_cons]
  simp only [decide_eq_true_eq]

theorem Contiguous.covers (h : Contiguous a rs b) (k : Nat) :
    covers rs k = if a ≤ k ∧ k < b then 1 else 0 := by
  induction rs generalizing a with
  | nil =>
    cases h
    rw [if_neg (by omega)]
    rfl
  | cons r rs ih =>
    obtain ⟨rfl, hlt, hrest⟩ := h
    have hle := hrest.le
    rw [covers_cons, ih hrest]
    split <;> split <;> split <;> omega

/-- **Contiguous ranges tile, in any order.** -/
theorem Contiguous.tiles (h : Contiguous 0 rs b) (hp : rs.Perm rs') : Tiles rs' b := by
  intro k
  have hcount : Tiling.covers rs' k = Tiling.covers rs k := (hp.countP_eq _).symm
  rw [hcount, h.covers k]
  simp only [Nat.zero_le, true_and]

end Acts.Lib.Tiling
