import Mathlib.Algebra.Group.Int.Defs
import Mathlib.Algebra.Group.Nat.Defs
import Mathlib.Algebra.GroupWithZero.Nat
import Mathlib.Data.List.Pairwise
import Mathlib.Tactic.Common

/-!
# Binary search

* `lowerBound` — the halving search of the standard library, on the positions from `first` on.
* `lowerBound_spec` — where the predicate holds on a prefix, it finds the end of that prefix.
* `find_of_lowerBound` — in a strictly sorted list it finds what a linear scan finds.
-/

set_option autoImplicit false

namespace Acts.Lib.BinarySearch

/-- `std::lower_bound` on `count` positions from `first` on; `less i` is the comparison of the
element at `i` with the value that is searched. -/
def lowerBound (less : Nat → Bool) (first count : Nat) : Nat :=
  if h : count = 0 then first
  else if less (first + count / 2) then
    lowerBound less (first + count / 2 + 1) (count - (count / 2 + 1))
  else lowerBound less first (count / 2)
termination_by count
decreasing_by all_goals omega

/-- On the positions `[a, b)` the predicate holds up to some point and not after it. -/
def Splits (less : Nat → Bool) (a b : Nat) : Prop :=
  ∀ i j, a ≤ i → i ≤ j → j < b → less j = true → less i = true

theorem lowerBound_spec (less : Nat → Bool) (first count : Nat)
    (h : Splits less first (first + count)) :
    first ≤ lowerBound less first count ∧ lowerBound less first count ≤ first + count ∧
    (∀ i, first ≤ i → i < lowerBound less first count → less i = true) ∧
    (∀ i, lowerBound less first count ≤ i → i < first + count → less i = false) := by
  induction first, count using lowerBound.induct less with
  | case1 first =>
    unfold lowerBound
    simp only [dif_pos]
    exact ⟨Nat.le_refl _, Nat.le_refl _, fun i hi hlt => by omega, fun i hi hlt => by omega⟩
  | case2 first count hcount hless ih =>
    unfold lowerBound
    simp only [dif_neg hcount]
    rw [if_pos hless]
    obtain ⟨hle, hge, hbelow, habove⟩ := ih fun i j hi hij hj =>
      h i j (by omega) hij (by omega)
    refine ⟨by omega, by omega, fun i hi hlt => ?_, fun i hi hlt => habove i hi (by omega)⟩
    by_cases hmid : i ≤ first + count / 2
    · exact h i (first + count / 2) hi hmid (by omega) hless
    · exact hbelow i (by omega) hlt
  | case3 first count hcount hless ih =>
    unfold lowerBound
    simp only [dif_neg hcount]
    rw [if_neg hless]
    obtain ⟨hle, hge, hbelow, habove⟩ := ih fun i j hi hij hj =>
      h i j hi hij (by omega)
    refine ⟨hle, by omega, hbelow, fun i hi hlt => ?_⟩
    by_cases hmid : i < first + count / 2
    · exact habove i hi hmid
    · refine Bool.eq_false_iff.mpr fun htrue => hless ?_
      exact h (first + count / 2) i (by omega) (by omega) hlt htrue

section
variable {α : Type} {xs : List α} {key : α → Nat}

/-- The position at which the search for the key `k` ends. -/
def position (key : α → Nat) (xs : List α) (k : Nat) : Nat :=
  lowerBound (fun i => (xs[i]?).any fun x => decide (key x < k)) 0 xs.length

/-- The element of key `k` found by the search. -/
def find (key : α → Nat) (xs : List α) (k : Nat) : Option α :=
  (xs[position key xs k]?).filter fun x => key x = k

/-- **In a strictly sorted list the search finds what a linear scan finds.** -/
theorem find_eq (h : xs.Pairwise fun x y => key x < key y) (k : Nat) :
    find key xs k = xs.find? fun x => key x = k := by
  have hsplits : Splits (fun i => (xs[i]?).any fun x => decide (key x < k)) 0 (0 + xs.length) := by
    intro i j _ hij hj hless
    have hj' : j < xs.length := by omega
    have hi' : i < xs.length := by omega
    simp only [List.getElem?_eq_getElem hj', List.getElem?_eq_getElem hi', Option.any_some,
      decide_eq_true_eq] at hless ⊢
    rcases Nat.lt_or_eq_of_le hij with hlt | rfl
    · have := List.pairwise_iff_getElem.mp h i j hi' hj' hlt
      omega
    · exact hless
  obtain ⟨-, hle, hbelow, habove⟩ := lowerBound_spec _ 0 xs.length hsplits
  have hpos : lowerBound (fun i => (xs[i]?).any fun x => decide (key x < k)) 0 xs.length =
    position key xs k := rfl
  rw [hpos] at hle hbelow habove
  have hbefore : ∀ i (hi : i < xs.length), i < position key xs k → key xs[i] < k := by
    intro i hi hlt
    have hless := hbelow i (Nat.zero_le _) hlt
    simpa only [List.getElem?_eq_getElem hi, Option.any_some, decide_eq_true_eq] using hless
  have hafter : ∀ i (hi : i < xs.length), position key xs k ≤ i → k ≤ key xs[i] := by
    intro i hi hge
    have hless := habove i hge (by omega)
    simp only [List.getElem?_eq_getElem hi, Option.any_some, decide_eq_false_iff_not] at hless
    omega
  unfold find
  by_cases hlt : position key xs k < xs.length
  · rw [List.getElem?_eq_getElem hlt]
    by_cases hkey : key xs[position key xs k] = k
    · rw [Option.filter_some, if_pos (by simpa using hkey)]
      refine (List.find?_eq_some_iff_getElem.mpr ⟨by simpa using hkey, _, hlt, rfl, ?_⟩).symm
      intro i hi
      have := hbefore i (Nat.lt_trans hi hlt) hi
      simp only [Bool.not_eq_true', decide_eq_false_iff_not]
      omega
    · rw [Option.filter_some, if_neg (by simpa using hkey)]
      refine (List.find?_eq_none.mpr fun x hx => ?_).symm
      obtain ⟨i, hi, rfl⟩ := List.getElem_of_mem hx
      have hat := hafter _ hlt (Nat.le_refl _)
      simp only [decide_eq_true_eq]
      rcases Nat.lt_trichotomy i (position key xs k) with hi' | rfl | hi'
      · have := hbefore i hi hi'
        omega
      · exact hkey
      · have := List.pairwise_iff_getElem.mp h _ i hlt hi hi'
        omega
  · rw [List.getElem?_eq_none (by omega)]
    refine (List.find?_eq_none.mpr fun x hx => ?_).symm
    obtain ⟨i, hi, rfl⟩ := List.getElem_of_mem hx
    have := hbefore i hi (by omega)
    simp only [decide_eq_true_eq]
    omega

end

end Acts.Lib.BinarySearch
