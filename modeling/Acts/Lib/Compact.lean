import Mathlib.Algebra.Group.Int.Defs
import Mathlib.Algebra.Group.Nat.Defs
import Mathlib.Algebra.GroupWithZero.Nat
import Mathlib.Data.List.Basic
import Mathlib.Tactic.Common

/-!
# Removing parts of a buffer in place

* `memmove` — a range of a list over another one, which may overlap.
* `Compacted` — what is kept of the part up to `src` stands at the front, the rest is as it was.
* `Compacted.move`, `Compacted.skip` — **the next elements are kept, or left out.**
-/

set_option autoImplicit false

namespace Acts

variable {α : Type}

/-- `memmove` of `n` elements at `src` to `dst`. -/
def memmove (l : List α) (dst src n : Nat) : List α :=
  l.take dst ++ ((l.drop src).take n ++ l.drop (dst + n))

section Memmove

variable {l : List α} {dst src n : Nat}

theorem length_memmove (hdst : dst ≤ src) (hsrc : src + n ≤ l.length) :
    (memmove l dst src n).length = l.length := by
  simp only [memmove, List.length_append, List.length_take, List.length_drop]
  omega

theorem take_memmove (hdst : dst ≤ src) (hsrc : src + n ≤ l.length) :
    (memmove l dst src n).take (dst + n) = l.take dst ++ (l.drop src).take n := by
  have hlen : (l.take dst ++ (l.drop src).take n).length = dst + n := by
    simp only [List.length_append, List.length_take, List.length_drop]
    omega
  rw [memmove, ← List.append_assoc, ← hlen, List.take_left]

theorem drop_memmove (hdst : dst ≤ src) (hsrc : src + n ≤ l.length) {k : Nat}
    (hk : dst + n ≤ k) : (memmove l dst src n).drop k = l.drop k := by
  have hlen : (l.take dst ++ (l.drop src).take n).length = dst + n := by
    simp only [List.length_append, List.length_take, List.length_drop]
    omega
  obtain ⟨j, rfl⟩ := Nat.exists_eq_add_of_le hk
  rw [memmove, ← List.append_assoc, ← List.drop_drop, ← hlen, List.drop_left, hlen, List.drop_drop]

end Memmove

/-- `kept` is at the front of `buffer`, and from `src` on it is `orig`. -/
structure Compacted (orig buffer kept : List α) (src : Nat) : Prop where
  take : buffer.take kept.length = kept
  drop : buffer.drop src = orig.drop src
  length : buffer.length = orig.length
  le : kept.length ≤ src

namespace Compacted

variable {orig buffer kept : List α} {src n : Nat}

/-- At first all is kept. -/
theorem start (h : src ≤ orig.length) : Compacted orig orig (orig.take src) src where
  take := by rw [List.length_take, Nat.min_eq_left h]
  drop := rfl
  length := rfl
  le := by
    rw [List.length_take]
    omega

theorem move (h : Compacted orig buffer kept src) (hn : src + n ≤ orig.length) :
    Compacted orig (memmove buffer kept.length src n) (kept ++ (orig.drop src).take n) (src + n) := by
  have hsrc : src + n ≤ buffer.length := by rw [h.length]; exact hn
  have hlen : (kept ++ (orig.drop src).take n).length = kept.length + n := by
    simp only [List.length_append, List.length_take, List.length_drop]
    omega
  have hle := h.le
  refine ⟨?_, ?_, (length_memmove hle hsrc).trans h.length, by omega⟩
  · rw [hlen, take_memmove hle hsrc, h.take, h.drop]
  · rw [drop_memmove hle hsrc (by omega), ← List.drop_drop, h.drop, List.drop_drop]

theorem skip (h : Compacted orig buffer kept src) (k : Nat) :
    Compacted orig buffer kept (src + k) where
  take := h.take
  drop := by rw [← List.drop_drop, h.drop, List.drop_drop]
  length := h.length
  le := Nat.le_add_right_of_le h.le

end Compacted

end Acts
