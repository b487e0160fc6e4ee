import Mathlib.Algebra.Group.Int.Defs
import Mathlib.Algebra.Group.Nat.Defs
import Mathlib.Algebra.GroupWithZero.Nat
import Mathlib.Data.List.Induction
import Mathlib.Tactic.Common

/-!
# Cells and packed bits

* `lastSet` — the value of the last accepted call at an index.
* `run_reads` — a store whose calls change one cell each reads as its last calls.
* `bitAt` — a bit of a list of words; `bitAt_set` when one word is replaced.
* `packed`, `field` — the number that the words spell, and `size` bits of it.
-/

set_option autoImplicit false

namespace Acts.Cells

/-! ## Last values -/

section LastSet

variable {σ ι α : Type} [DecidableEq ι] {accepts : α → Bool}

/-- The value of the last accepted call at `id`. -/
def lastSet (accepts : α → Bool) (calls : List (ι × α)) (id : ι) : Option α :=
  (calls.filter fun c => accepts c.2 && c.1 == id).getLast?.map Prod.snd

@[simp]
theorem lastSet_nil (id : ι) : lastSet accepts [] id = none := rfl

theorem lastSet_concat (calls : List (ι × α)) (i : ι) (a : α) (id : ι) :
    lastSet accepts (calls ++ [(i, a)]) id =
      if accepts a = true ∧ i = id then some a else lastSet accepts calls id := by
  unfold lastSet
  rw [List.filter_append]
  split
  · rename_i h
    simp [h]
  · rename_i h
    have hnone : ([(i, a)].filter fun c => accepts c.2 && c.1 == id) = [] := by
      simp only [List.filter_cons, List.filter_nil]
      rw [if_neg]
      simpa using h
    rw [hnone, List.append_nil]

/-- If the calls `good` allows set their own cell, then after a run of them a cell reads as the
last accepted call at it. -/
theorem run_reads {step : σ → ι × α → σ} {read : σ → ι → α} {inv : σ → Prop} {cell : ι → Prop}
    {good : σ → ι × α → Prop}
    (hstep : ∀ s c, inv s → good s c → inv (step s c) ∧
      ∀ id, cell id → read (step s c) id = if accepts c.2 = true ∧ c.1 = id then c.2 else read s id)
    {s : σ} (hs : inv s) {calls : List (ι × α)}
    (hgood : ∀ done c, done ++ [c] <+: calls → good (done.foldl step s) c) :
    inv (calls.foldl step s) ∧
      ∀ id, cell id → read (calls.foldl step s) id = (lastSet accepts calls id).getD (read s id) := by
  induction calls using List.reverseRecOn with
  | nil => exact ⟨hs, fun id _ => rfl⟩
  | append_singleton calls c ih =>
    obtain ⟨hinv, hread⟩ := ih fun done c' h => hgood done c' (h.trans (List.prefix_append _ _))
    obtain ⟨hinv', hread'⟩ := hstep _ c hinv (hgood calls c (List.prefix_refl _))
    rw [List.foldl_append]
    refine ⟨hinv', fun id hid => (hread' id hid).trans ?_⟩
    obtain ⟨i, a⟩ := c
    rw [lastSet_concat, hread id hid]
    split
    · rfl
    · rfl

end LastSet

/-! ## Packed bits -/

section Bits

variable {w : Nat}

/-- Bit `i` of a list of words, the lowest bit of the first word first. -/
def bitAt (words : List (BitVec w)) (i : Nat) : Bool := (words.getD (i / w) 0).getLsbD (i % w)

theorem bitAt_eq_getElem {words : List (BitVec w)} {i : Nat} (h : i / w < words.length) :
    bitAt words i = words[i / w].getLsbD (i % w) := by
  rw [bitAt, List.getD_eq_getElem?_getD, List.getElem?_eq_getElem h, Option.getD_some]

theorem bitAt_set {words : List (BitVec w)} {k : Nat} (hk : k < words.length) (x : BitVec w)
    (i : Nat) :
    bitAt (words.set k x) i = if i / w = k then x.getLsbD (i % w) else bitAt words i := by
  unfold bitAt
  simp only [List.getD_eq_getElem?_getD, List.getElem?_set]
  by_cases h : k = i / w
  · subst h
    simp [hk]
  · rw [if_neg h, if_neg (Ne.symm h)]

/-- The number that a list of words spells, the lowest word first. -/
def packed : List (BitVec w) → Nat
  | [] => 0
  | x :: xs => 2 ^ w * packed xs + x.toNat

theorem testBit_packed (hw : 0 < w) (words : List (BitVec w)) (i : Nat) :
    (packed words).testBit i = bitAt words i := by
  induction words generalizing i with
  | nil => simp [packed, bitAt]
  | cons x xs ih =>
    rw [packed, Nat.testBit_two_pow_mul_add _ x.isLt, ih]
    unfold bitAt
    by_cases hi : i < w
    · rw [if_pos hi, Nat.div_eq_of_lt hi, Nat.mod_eq_of_lt hi]
      rfl
    · obtain ⟨k, rfl⟩ := Nat.exists_eq_add_of_le (Nat.le_of_not_lt hi)
      rw [if_neg hi, Nat.add_sub_cancel_left, Nat.add_div_left _ hw, Nat.add_mod_left,
        List.getD_cons_succ]

/-- The `size` bits at `offset` of a list of words, as a number. -/
def field (words : List (BitVec w)) (offset size : Nat) : Nat :=
  packed words / 2 ^ offset % 2 ^ size

theorem testBit_field (hw : 0 < w) (words : List (BitVec w)) (offset size j : Nat) :
    (field words offset size).testBit j = (decide (j < size) && bitAt words (offset + j)) := by
  rw [field, Nat.testBit_mod_two_pow, Nat.testBit_div_two_pow, testBit_packed hw, Nat.add_comm]

theorem field_lt (words : List (BitVec w)) (offset size : Nat) :
    field words offset size < 2 ^ size := Nat.mod_lt _ (Nat.two_pow_pos size)

/-- A number whose bits are those at `offset`, and zero behind them, is the field. -/
theorem packed_eq_field (hw : 0 < w) {words buffer : List (BitVec w)} {offset size : Nat}
    (h : ∀ j, bitAt buffer j = (decide (j < size) && bitAt words (offset + j))) :
    packed buffer = field words offset size := by
  apply Nat.eq_of_testBit_eq
  intro j
  rw [testBit_packed hw, testBit_field hw, h]

end Bits

end Acts.Cells
