import Mathlib.Algebra.Group.Int.Defs
import Mathlib.Algebra.Group.Nat.Defs
import Mathlib.Algebra.GroupWithZero.Nat
import Mathlib.Tactic.Common

/-!
# Merging by a strict weak order

* `StrictWeak` — an order whose elements may be equivalent without being equal.
* `Sorted` — no element is less than one in front of it.
* `sorted_merge` — **merging two sorted lists gives a sorted one.**
-/

set_option autoImplicit false

namespace Acts.WeakOrder

variable {α : Type} {lt : α → α → Bool}

structure StrictWeak (lt : α → α → Bool) : Prop where
  asymm : ∀ a b, lt a b = true → lt b a = false
  negTrans : ∀ a b c, lt a b = false → lt b c = false → lt a c = false

def Sorted (lt : α → α → Bool) (xs : List α) : Prop := xs.Pairwise fun a b => lt b a = false

/-- An order that compares a key. -/
theorem StrictWeak.comap {β : Type} (h : StrictWeak lt) (f : β → α) :
    StrictWeak fun a b => lt (f a) (f b) where
  asymm a b := h.asymm (f a) (f b)
  negTrans a b c := h.negTrans (f a) (f b) (f c)

theorem strictWeak_nat : StrictWeak fun a b : Nat => decide (a < b) where
  asymm a b hab := by simp at hab ⊢; omega
  negTrans a b c hab hbc := by simp at hab hbc ⊢; omega

theorem sorted_merge (h : StrictWeak lt) {xs ys : List α} (hx : Sorted lt xs)
    (hy : Sorted lt ys) : Sorted lt (xs.merge ys lt) := by
  induction xs generalizing ys with
  | nil => rwa [List.nil_merge]
  | cons x xs ihx =>
    induction ys with
    | nil => rwa [List.merge_right]
    | cons y ys ihy =>
      have hx' := List.pairwise_cons.1 hx
      have hy' := List.pairwise_cons.1 hy
      by_cases hlt : lt x y = true
      · rw [List.cons_merge_cons_pos _ _ _ hlt]
        refine List.pairwise_cons.2 ⟨fun z hz => ?_, ihx hx'.2 hy⟩
        have hyx := h.asymm x y hlt
        rcases List.mem_merge.1 hz with hz | hz
        · exact hx'.1 z hz
        · rcases List.mem_cons.1 hz with rfl | hz
          · exact hyx
          · exact h.negTrans z y x (hy'.1 z hz) hyx
      · rw [List.cons_merge_cons_neg _ _ _ hlt]
        refine List.pairwise_cons.2 ⟨fun z hz => ?_, ihy hy'.2⟩
        have hxy : lt x y = false := Bool.eq_false_iff.2 hlt
        rcases List.mem_merge.1 hz with hz | hz
        · rcases List.mem_cons.1 hz with rfl | hz
          · exact hxy
          · exact h.negTrans z x y (hx'.1 z hz) hxy
        · exact hy'.1 z hz

end Acts.WeakOrder
