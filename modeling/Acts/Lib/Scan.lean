import Mathlib.Algebra.Group.Int.Defs
import Mathlib.Algebra.Group.Nat.Defs
import Mathlib.Algebra.GroupWithZero.Nat
import Mathlib.Tactic.Common

/-!
# Positions in a list

* `up`, `down`, `before` — searching up, down, and down from in front of a position.
* `up_eq`, `down_eq`, `before_eq_down` — **the position that each of them finds.**
* `slice` — the elements between two positions.
* `Sits` — a part of a list that stands at a position.
-/

set_option autoImplicit false

namespace Acts.Scan

section Search

variable (p : Nat → Bool)

/-- The first of `n` positions that `p` does not hold of, or the one behind them. -/
def up (i : Nat) : Nat → Nat
  | 0 => i
  | n + 1 => if p i then up (i + 1) n else i

/-- The last position up to `i` that `p` does not hold of. -/
def down : Nat → Nat
  | 0 => 0
  | i + 1 => if p (i + 1) then down i else i + 1

/-- The last position below `i` that `p` does not hold of, but not below `start`. -/
def before (start : Nat) : Nat → Nat
  | 0 => 0
  | i + 1 => if start < i + 1 then if p i then before start i else i else i + 1

end Search

variable {p : Nat → Bool} {i j n start : Nat}

/-! ## What is found -/

theorem up_spec (p : Nat → Bool) (i n : Nat) :
    i ≤ up p i n ∧ up p i n ≤ i + n ∧ (∀ k, i ≤ k → k < up p i n → p k = true) ∧
      (up p i n < i + n → p (up p i n) = false) := by
  induction n generalizing i with
  | zero => exact ⟨Nat.le_refl i, Nat.le_refl i, fun k _ _ => absurd ‹k < i› (by omega),
      fun h => absurd h (Nat.lt_irrefl i)⟩
  | succ n ih =>
    obtain ⟨hle, hlen, hall, hend⟩ := ih (i + 1)
    unfold up
    split
    · rename_i hi
      refine ⟨by omega, by omega, fun k hk hlt => ?_, fun h => hend (by omega)⟩
      rcases Nat.eq_or_lt_of_le hk with rfl | hk
      · exact hi
      · exact hall k hk hlt
    · rename_i hi
      exact ⟨Nat.le_refl i, by omega, fun k _ _ => absurd ‹k < i› (by omega),
        fun _ => Bool.eq_false_iff.2 hi⟩

theorem up_eq (hle : i ≤ j) (hn : j ≤ i + n) (hall : ∀ k, i ≤ k → k < j → p k = true)
    (hend : j < i + n → p j = false) : up p i n = j := by
  obtain ⟨hle', hn', hall', hend'⟩ := up_spec p i n
  rcases Nat.lt_trichotomy (up p i n) j with h | h | h
  · have := hall _ hle' h
    rw [hend' (by omega)] at this
    cases this
  · exact h
  · have := hall' _ hle h
    rw [hend (by omega)] at this
    cases this

theorem down_spec (hp : p start = false) (h : start ≤ i) :
    start ≤ down p i ∧ down p i ≤ i ∧ p (down p i) = false ∧
      ∀ k, down p i < k → k ≤ i → p k = true := by
  induction i with
  | zero =>
    obtain rfl : start = 0 := by omega
    exact ⟨Nat.le_refl 0, Nat.le_refl 0, hp, fun k _ _ =>
      absurd ‹k ≤ 0› (by unfold down at *; omega)⟩
  | succ i ih =>
    unfold down
    split
    · rename_i hi
      have hne : start ≠ i + 1 := by
        rintro rfl
        rw [hp] at hi
        cases hi
      obtain ⟨hs, hle, hd, hall⟩ := ih (by omega)
      refine ⟨hs, by omega, hd, fun k hk hki => ?_⟩
      rcases Nat.eq_or_lt_of_le hki with rfl | hki
      · exact hi
      · exact hall k hk (by omega)
    · rename_i hi
      exact ⟨h, Nat.le_refl _, Bool.eq_false_iff.2 hi, fun k _ _ => by omega⟩

theorem down_eq (hle : j ≤ i) (hp : p j = false) (hall : ∀ k, j < k → k ≤ i → p k = true) :
    down p i = j := by
  obtain ⟨hj, hi, hd, _⟩ := down_spec hp hle
  rcases Nat.eq_or_lt_of_le hj with h | h
  · exact h.symm
  · have := hall _ h hi
    rw [hd] at this
    cases this

theorem before_eq_down (hp : p start = false) (h : start < i) :
    before p start i = down p (i - 1) := by
  induction i with
  | zero => omega
  | succ i ih =>
    rw [Nat.add_sub_cancel]
    unfold before
    rw [if_pos h]
    rcases Nat.eq_or_lt_of_le (Nat.le_of_lt_succ h) with rfl | hi
    · rw [if_neg (by rw [hp]; decide), down_eq (Nat.le_refl _) hp fun k _ _ => by omega]
    · obtain ⟨i, rfl⟩ : ∃ k, i = k + 1 := ⟨i - 1, by omega⟩
      rw [ih hi]
      rfl

theorem before_self (p : Nat → Bool) (i : Nat) : before p i i = i := by
  cases i with
  | zero => rfl
  | succ i =>
    unfold before
    rw [if_neg (Nat.lt_irrefl _)]

/-! ## Parts of a list -/

section Parts

variable {α : Type} {l seg : List α} {a b c : Nat}

def slice (l : List α) (a b : Nat) : List α := (l.drop a).take (b - a)

/-- A part stands at a position. -/
def Sits (l : List α) (a : Nat) (seg : List α) : Prop := slice l a (a + seg.length) = seg

theorem length_slice (hab : a ≤ b) (hb : b ≤ l.length) : (slice l a b).length = b - a := by
  unfold slice
  rw [List.length_take, List.length_drop]
  omega

theorem sits_slice (hab : a ≤ b) (hb : b ≤ l.length) : Sits l a (slice l a b) := by
  unfold Sits
  rw [length_slice hab hb, Nat.add_sub_cancel' hab]

theorem sits_append (pre seg post : List α) : Sits (pre ++ (seg ++ post)) pre.length seg := by
  unfold Sits slice
  rw [List.drop_left, Nat.add_sub_cancel_left, List.take_left]

theorem slice_append (hab : a ≤ b) (hbc : b ≤ c) :
    slice l a b ++ slice l b c = slice l a c := by
  unfold slice
  have hc : c - a = (b - a) + (c - b) := by omega
  have hdrop : l.drop b = (l.drop a).drop (b - a) := by
    rw [List.drop_drop]
    congr 1
    omega
  rw [hc, List.take_add, hdrop]

theorem slice_all (l : List α) : slice l 0 l.length = l := by
  unfold slice
  rw [List.drop_zero, Nat.sub_zero, List.take_length]

theorem Sits.getElem? (h : Sits l a seg) {k : Nat} (hk : k < seg.length) :
    l[a + k]? = seg[k]? := by
  have h : (slice l a (a + seg.length))[k]? = seg[k]? := by rw [h]
  unfold slice at h
  rw [List.getElem?_take_of_lt (by omega), List.getElem?_drop] at h
  exact h

/-- What holds of the elements of a part holds at their positions, and the other way round. -/
theorem Sits.forall_iff [Inhabited α] (h : Sits l a seg) (P : α → Prop) :
    (∀ x ∈ seg, P x) ↔ ∀ k, a ≤ k → k < a + seg.length → P (l.getD k default) := by
  refine ⟨fun hall k hk hlt => ?_, fun hall x hx => ?_⟩
  · obtain ⟨k, rfl⟩ := Nat.exists_eq_add_of_le hk
    have hk : k < seg.length := by omega
    rw [List.getD_eq_getElem?_getD, h.getElem? hk, List.getElem?_eq_getElem hk]
    exact hall _ (List.getElem_mem hk)
  · obtain ⟨k, hk, rfl⟩ := List.getElem_of_mem hx
    have := hall (a + k) (by omega) (by omega)
    rw [List.getD_eq_getElem?_getD, h.getElem? hk, List.getElem?_eq_getElem hk] at this
    exact this

end Parts

end Acts.Scan
