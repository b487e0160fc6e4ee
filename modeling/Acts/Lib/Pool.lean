import Mathlib.Algebra.Group.Int.Defs
import Mathlib.Algebra.Group.Nat.Defs
import Mathlib.Algebra.GroupWithZero.Nat
import Mathlib.Data.List.Perm.Basic
import Mathlib.Tactic.Common

/-!
# Pools of workers

The phases of some workers, in a list, and a condition variable that some of them wait for.

* `total`, `gather` — a number, and a list, taken over all workers.
* `Notify`, `Wakes` — what a notification does to the phases.
* `Move` — one worker goes from a phase to another one, and notifies others.
* `Move.total`, `Move.gather` — **what a move does to a number and to a list over all workers.**
-/

set_option autoImplicit false

namespace Acts.Pool

variable {α β : Type}

def total (f : α → Nat) (ws : List α) : Nat := (ws.map f).sum

def gather (g : α → List β) (ws : List α) : List β := ws.flatMap g

/-! ## One phase changes -/

section Set

variable {ws : List α} {i : Nat} {p q : α}

theorem total_set (f : α → Nat) (h : ws[i]? = some p) :
    total f (ws.set i q) + f p = total f ws + f q := by
  induction ws generalizing i with
  | nil => cases h
  | cons w ws ih =>
    cases i with
    | zero =>
      obtain rfl : w = p := Option.some.inj h
      simp [total]
      omega
    | succ i =>
      have := ih h
      simp [total] at this ⊢
      omega

theorem gather_set (g : α → List β) (h : ws[i]? = some p) :
    (gather g (ws.set i q) ++ g p).Perm (gather g ws ++ g q) := by
  induction ws generalizing i with
  | nil => cases h
  | cons w ws ih =>
    cases i with
    | zero =>
      obtain rfl : w = p := Option.some.inj h
      simp only [gather, List.set_cons_zero, List.flatMap_cons]
      exact (List.perm_append_comm.trans (List.Perm.append_left _ List.perm_append_comm)).trans
        (List.append_assoc .. ▸ List.Perm.refl _)
    | succ i =>
      simp only [gather, List.set_cons_succ, List.flatMap_cons, List.append_assoc]
      exact (ih h).append_left _

theorem gather_set_of_eq (g : α → List β) (h : ws[i]? = some p) (hg : g p = g q) :
    (gather g (ws.set i q)).Perm (gather g ws) := by
  have hset := gather_set (q := q) g h
  rw [hg] at hset
  exact (List.perm_append_right_iff _).mp hset

theorem le_total (f : α → Nat) (h : ws[i]? = some p) : f p ≤ total f ws := by
  induction ws generalizing i with
  | nil => cases h
  | cons w ws ih =>
    cases i with
    | zero =>
      obtain rfl : w = p := Option.some.inj h
      simp [total]
    | succ i =>
      have := ih h
      simp [total] at this ⊢
      omega

theorem total_pos_iff (f : α → Nat) (ws : List α) : 0 < total f ws ↔ ∃ p ∈ ws, 0 < f p := by
  induction ws with
  | nil => simp [total]
  | cons w ws ih =>
    have hcons : total f (w :: ws) = f w + total f ws := by simp [total]
    rw [hcons]
    constructor
    · intro h
      by_cases hw : 0 < f w
      · exact ⟨w, List.mem_cons_self, hw⟩
      · obtain ⟨p, hp, hpos⟩ := ih.mp (by omega)
        exact ⟨p, List.mem_cons_of_mem _ hp, hpos⟩
    · rintro ⟨p, hp, hpos⟩
      rcases List.mem_cons.mp hp with rfl | hp
      · omega
      · have := ih.mpr ⟨p, hp, hpos⟩
        omega

end Set

/-! ## Notifications -/

inductive Notify
  | none
  | one
  | all

/-- How many of `len` workers a notification wakes at most. -/
def Notify.size (len : Nat) : Notify → Nat
  | .none => 0
  | .one => 1
  | .all => len

/-- What a notification does to the workers that are `asleep`. -/
inductive Wakes (asleep awake : α) : Notify → List α → List α → Prop
  | none (ws : List α) : Wakes asleep awake .none ws ws
  | nobody (ws : List α) (h : asleep ∉ ws) : Wakes asleep awake .one ws ws
  | one (ws : List α) (j : Nat) (h : ws[j]? = some asleep) :
    Wakes asleep awake .one ws (ws.set j awake)
  | all (ws ws' : List α) (h : List.Forall₂ (fun p q => (p = asleep ∧ q = awake) ∨
      (p ≠ asleep ∧ q = p)) ws ws') : Wakes asleep awake .all ws ws'

section Wakes

variable {asleep awake : α} {n : Notify} {ws ws' : List α}

theorem Wakes.length (h : Wakes asleep awake n ws ws') : ws'.length = ws.length := by
  cases h with
  | none => rfl
  | nobody => rfl
  | one _ j h => exact List.length_set ..
  | all _ _ h => exact h.length_eq.symm

/-- What is the same for a sleeping and a waking worker stays as it is. -/
theorem Wakes.total (h : Wakes asleep awake n ws ws') {f : α → Nat} (hf : f asleep = f awake) :
    total f ws' = total f ws := by
  cases h with
  | none => rfl
  | nobody => rfl
  | one _ j h =>
    have := total_set (q := awake) f h
    omega
  | all _ _ h =>
    induction h with
    | nil => rfl
    | cons hpq _ ih =>
      simp only [Pool.total, List.map_cons, List.sum_cons] at ih ⊢
      rcases hpq with ⟨rfl, rfl⟩ | ⟨-, rfl⟩ <;> omega

theorem Wakes.gather (h : Wakes asleep awake n ws ws') {g : α → List β}
    (hg : g asleep = g awake) : (gather g ws').Perm (gather g ws) := by
  cases h with
  | none => exact .refl _
  | nobody => exact .refl _
  | one _ j h => exact gather_set_of_eq g h hg
  | all _ _ h =>
    induction h with
    | nil => exact .refl _
    | cons hpq _ ih =>
      simp only [Pool.gather, List.flatMap_cons] at ih ⊢
      rcases hpq with ⟨rfl, rfl⟩ | ⟨-, rfl⟩
      · rw [hg]
        exact ih.append_left _
      · exact ih.append_left _

/-- A number that is smaller for a waking worker does not grow. -/
theorem Wakes.total_le (h : Wakes asleep awake n ws ws') {f : α → Nat} (hf : f awake ≤ f asleep) :
    Pool.total f ws' ≤ Pool.total f ws := by
  cases h with
  | none => exact Nat.le_refl _
  | nobody => exact Nat.le_refl _
  | one _ j h =>
    have := total_set (q := awake) f h
    omega
  | all _ _ h =>
    induction h with
    | nil => exact Nat.le_refl _
    | cons hpq _ ih =>
      simp only [Pool.total, List.map_cons, List.sum_cons] at ih ⊢
      rcases hpq with ⟨rfl, rfl⟩ | ⟨-, rfl⟩ <;> omega

theorem Wakes.le_total (h : Wakes asleep awake n ws ws') {f : α → Nat} (hf : f asleep ≤ f awake) :
    Pool.total f ws ≤ Pool.total f ws' := by
  cases h with
  | none => exact Nat.le_refl _
  | nobody => exact Nat.le_refl _
  | one _ j h =>
    have := total_set (q := awake) f h
    omega
  | all _ _ h =>
    induction h with
    | nil => exact Nat.le_refl _
    | cons hpq _ ih =>
      simp only [Pool.total, List.map_cons, List.sum_cons] at ih ⊢
      rcases hpq with ⟨rfl, rfl⟩ | ⟨-, rfl⟩ <;> omega

/-- How much a number grows that is larger by one for a waking worker. -/
theorem Wakes.total_grows (h : Wakes asleep awake n ws ws') {f : α → Nat}
    (hf : f awake ≤ f asleep + 1) :
    Pool.total f ws' ≤ Pool.total f ws + n.size ws.length := by
  cases h with
  | none => exact Nat.le_refl _
  | nobody => exact Nat.le_succ _
  | one _ j h =>
    have := total_set (q := awake) f h
    simp only [Notify.size]
    omega
  | all _ _ h =>
    induction h with
    | nil => exact Nat.le_refl _
    | cons hpq _ ih =>
      simp only [Pool.total, Notify.size, List.map_cons, List.sum_cons, List.length_cons] at ih ⊢
      rcases hpq with ⟨rfl, rfl⟩ | ⟨-, rfl⟩ <;> omega

/-- After a notification of all nobody sleeps. -/
theorem Wakes.nobody_asleep (h : Wakes asleep awake .all ws ws') (hne : awake ≠ asleep) :
    asleep ∉ ws' := by
  cases h with
  | all _ _ h =>
    induction h with
    | nil => exact List.not_mem_nil
    | cons hpq _ ih =>
      rw [List.mem_cons, not_or]
      refine ⟨?_, ih⟩
      rcases hpq with ⟨-, rfl⟩ | ⟨hp, rfl⟩
      · exact hne.symm
      · exact hp.symm

end Wakes

/-! ## Moves -/

/-- Worker `i` goes from `p` to `q` and notifies. -/
def Move (asleep awake : α) (p q : α) (n : Notify) (ws ws' : List α) : Prop :=
  ∃ i, ws[i]? = some p ∧ Wakes asleep awake n (ws.set i q) ws'

section Move

variable {asleep awake p q : α} {n : Notify} {ws ws' : List α}

theorem Move.mem (h : Move asleep awake p q n ws ws') : p ∈ ws := by
  obtain ⟨i, hi, -⟩ := h
  exact List.mem_of_getElem? hi

theorem Move.le_source (h : Move asleep awake p q n ws ws') (f : α → Nat) :
    f p ≤ Pool.total f ws := by
  obtain ⟨i, hi, -⟩ := h
  exact Pool.le_total f hi

theorem Move.length (h : Move asleep awake p q n ws ws') : ws'.length = ws.length := by
  obtain ⟨i, -, hw⟩ := h
  rw [hw.length, List.length_set]

theorem Move.total (h : Move asleep awake p q n ws ws') {f : α → Nat} (hf : f asleep = f awake) :
    Pool.total f ws' + f p = Pool.total f ws + f q := by
  obtain ⟨i, hi, hw⟩ := h
  rw [hw.total hf]
  exact total_set f hi

theorem Move.gather (h : Move asleep awake p q n ws ws') {g : α → List β}
    (hg : g asleep = g awake) :
    (Pool.gather g ws' ++ g p).Perm (Pool.gather g ws ++ g q) := by
  obtain ⟨i, hi, hw⟩ := h
  exact ((hw.gather hg).append_right _).trans (gather_set g hi)

theorem Move.total_le (h : Move asleep awake p q n ws ws') {f : α → Nat}
    (hf : f awake ≤ f asleep) : Pool.total f ws' + f p ≤ Pool.total f ws + f q := by
  obtain ⟨i, hi, hw⟩ := h
  have := hw.total_le hf
  have := total_set (q := q) f hi
  omega

theorem Move.le_total (h : Move asleep awake p q n ws ws') {f : α → Nat}
    (hf : f asleep ≤ f awake) : Pool.total f ws + f q ≤ Pool.total f ws' + f p := by
  obtain ⟨i, hi, hw⟩ := h
  have := hw.le_total hf
  have := total_set (q := q) f hi
  omega

theorem Move.total_grows (h : Move asleep awake p q n ws ws') {f : α → Nat}
    (hf : f awake ≤ f asleep + 1) :
    Pool.total f ws' + f p ≤ Pool.total f ws + f q + n.size ws.length := by
  obtain ⟨i, hi, hw⟩ := h
  have hgrow := hw.total_grows hf
  have hset := total_set (q := q) f hi
  rw [List.length_set] at hgrow
  omega

end Move

end Acts.Pool
