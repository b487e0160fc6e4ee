import Mathlib.Algebra.Group.Int.Defs
import Mathlib.Algebra.Group.Nat.Defs
import Mathlib.Algebra.GroupWithZero.Nat
import Mathlib.Tactic.Common

/-!
# Deterministic machines with events

* `Run` — a number of steps of a machine, with the events they perform.
* `Run.trans`, `Run.unique`, `Run.prefix_of_le`, `Run.le_of_halted` — runs compose, are determined
  by their length, extend each other, and end at a halted state.
* `Simulates` — a machine follows an interpreter with fuel: it performs the events of the
  interpreter and halts with its result, or has taken as many steps as the fuel when the
  interpreter runs out.
* `Simulates.complete` — **then the interpreter also accounts for everything the machine does**,
  so the two perform the same finite or infinite sequence of events.
-/

set_option autoImplicit false

namespace Acts.Machine

universe u v w

variable {C : Type u} {E : Type v} {R : Type w} {next : C → Option (List E × C)}

/-- `n` steps from `c` to `c'` with the events `tr`. -/
inductive Run (next : C → Option (List E × C)) : Nat → C → List E → C → Prop where
  | refl (c : C) : Run next 0 c [] c
  | step {n : Nat} {c c' c'' : C} {ev tr : List E} (h : next c = some (ev, c'))
      (r : Run next n c' tr c'') : Run next (n + 1) c (ev ++ tr) c''

theorem Run.one {c c' : C} {ev : List E} (h : next c = some (ev, c')) : Run next 1 c ev c' := by
  have r := Run.step h (Run.refl c')
  rw [List.append_nil] at r
  exact r

theorem Run.trans {n m : Nat} {c c' c'' : C} {tr tr' : List E} (h : Run next n c tr c')
    (h' : Run next m c' tr' c'') : Run next (n + m) c (tr ++ tr') c'' := by
  induction h with
  | refl c =>
    rw [Nat.zero_add, List.nil_append]
    exact h'
  | step hs _ ih =>
    rw [Nat.add_right_comm, List.append_assoc]
    exact Run.step hs (ih h')

/-- A longer run starts with a shorter one. -/
theorem Run.split {n m : Nat} {c c' c'' : C} {tr tr' : List E} (h : Run next n c tr c')
    (h' : Run next m c tr' c'') (hle : n ≤ m) :
    ∃ rest, tr' = tr ++ rest ∧ Run next (m - n) c' rest c'' := by
  induction h generalizing m tr' with
  | refl c => exact ⟨tr', rfl, h'⟩
  | @step n c c₁ c₂ ev tr hs hr ih =>
    cases h' with
    | refl => exact absurd hle (by omega)
    | @step m _ c₃ _ ev' tr' hs' hr' =>
      rw [hs] at hs'
      cases hs'
      obtain ⟨rest, htr, hrest⟩ := ih hr' (by omega)
      refine ⟨rest, ?_, ?_⟩
      · rw [htr, List.append_assoc]
      · rw [Nat.add_sub_add_right]
        exact hrest

theorem Run.prefix_of_le {n m : Nat} {c c' c'' : C} {tr tr' : List E} (h : Run next n c tr c')
    (h' : Run next m c tr' c'') (hle : n ≤ m) : tr <+: tr' := by
  obtain ⟨rest, htr, -⟩ := h.split h' hle
  exact ⟨rest, htr.symm⟩

theorem Run.unique {n : Nat} {c c' c'' : C} {tr tr' : List E} (h : Run next n c tr c')
    (h' : Run next n c tr' c'') : tr = tr' ∧ c' = c'' := by
  obtain ⟨rest, htr, hrest⟩ := h.split h' (Nat.le_refl n)
  rw [Nat.sub_self] at hrest
  cases hrest
  rw [List.append_nil] at htr
  exact ⟨htr.symm, rfl⟩

/-- No run goes past a halted state. -/
theorem Run.le_of_halted {n m : Nat} {c c' c'' : C} {tr tr' : List E} (h : Run next n c tr c')
    (hhalt : next c' = none) (h' : Run next m c tr' c'') : m ≤ n := by
  by_contra hlt
  obtain ⟨rest, -, hrest⟩ := h.split h' (by omega)
  obtain ⟨k, hk⟩ : ∃ k, m - n = k + 1 := ⟨m - n - 1, by omega⟩
  rw [hk] at hrest
  cases hrest with
  | step hs _ =>
    rw [hhalt] at hs
    cases hs

/-- The machine from `c` follows the interpreter `exec`, whose result is missing when it runs out
of fuel; `result` reads the result of a halted state. -/
structure Simulates (next : C → Option (List E × C)) (result : C → Option R) (c : C)
    (exec : Nat → List E × Option R) : Prop where
  finished : ∀ fuel tr r, exec fuel = (tr, some r) →
    ∃ n c', Run next n c tr c' ∧ next c' = none ∧ result c' = some r
  unfinished : ∀ fuel tr, exec fuel = (tr, none) → ∃ n c', fuel ≤ n ∧ Run next n c tr c'

/-- Every run of the machine is accounted for by the interpreter, and a halted one is finished. -/
theorem Simulates.complete {result : C → Option R} {c : C} {exec : Nat → List E × Option R}
    (h : Simulates next result c exec) {n : Nat} {tr : List E} {c' : C}
    (hr : Run next n c tr c') :
    ∃ fuel, tr <+: (exec fuel).1 ∧
      (next c' = none → ∃ r, exec fuel = (tr, some r) ∧ result c' = some r) := by
  refine ⟨n + 1, ?_⟩
  cases he : exec (n + 1) with
  | mk tr' res =>
    cases res with
    | some r =>
      obtain ⟨m, c'', hr', hhalt, hres⟩ := h.finished _ _ _ he
      have hle := hr'.le_of_halted hhalt hr
      refine ⟨hr.prefix_of_le hr' hle, ?_⟩
      intro hnone
      obtain rfl : m = n := Nat.le_antisymm (hr.le_of_halted hnone hr') hle
      obtain ⟨rfl, rfl⟩ := hr.unique hr'
      exact ⟨r, rfl, hres⟩
    | none =>
      obtain ⟨m, c'', hle, hr'⟩ := h.unfinished _ _ he
      refine ⟨hr.prefix_of_le hr' (by omega), ?_⟩
      intro hnone
      have := hr.le_of_halted hnone hr'
      omega

end Acts.Machine
