import Mathlib.Algebra.Group.Int.Defs
import Mathlib.Algebra.Group.Nat.Defs
import Mathlib.Algebra.GroupWithZero.Nat
import Mathlib.Data.Fintype.Card
import Mathlib.Data.Set.Finite.Basic
import Mathlib.Logic.Relation
import Mathlib.Tactic.Common

/-!
# Definitions that use each other

* `Reaches` — what a definition uses, directly or through others.
* `acc_of_acyclic` — where none of finitely many definitions uses itself, induction reaches all.
* `exists_solution` — **equations over definitions have a solution, where none uses itself.**
-/

set_option autoImplicit false

namespace Acts.Acyclic

open Relation

variable {α β : Type} {uses : α → α → Prop} {s t : α}

/-- What is used, and the definition itself. -/
abbrev Reaches (uses : α → α → Prop) : α → α → Prop := ReflTransGen uses

/-- All that is used is known behind it. -/
abbrev Founded (uses : α → α → Prop) (s : α) : Prop := Acc (fun t s => uses s t) s

theorem Founded.of_uses (h : Founded uses s) (hst : uses s t) : Founded uses t := h.inv hst

theorem Founded.of_reaches (h : Founded uses s) (hst : Reaches uses s t) : Founded uses t := by
  induction hst with
  | refl => exact h
  | tail _ hstep ih => exact ih.of_uses hstep

/-- A founded definition does not use itself. -/
theorem Founded.acyclic (h : Founded uses s) : ¬ TransGen uses s s := by
  induction h with
  | intro s _ ih =>
    intro hcycle
    obtain ⟨t, hst, hts⟩ := TransGen.head'_iff.1 hcycle
    exact ih t hst (TransGen.tail' hts hst)

theorem acc_of_acyclic (hfinite : {t | Reaches uses s t}.Finite)
    (hacyclic : ∀ t, Reaches uses s t → ¬ TransGen uses t t) : Founded uses s := by
  have hfin : Finite {t // Reaches uses s t} := hfinite
  let r (a b : {t // Reaches uses s t}) : Prop := TransGen uses b.1 a.1
  have htrans : IsTrans _ r := ⟨fun a b c hab hbc => TransGen.trans hbc hab⟩
  have hirrefl : Std.Irrefl r := ⟨fun a => hacyclic a.1 a.2⟩
  have hwf : WellFounded r := Finite.wellFounded_of_trans_of_irrefl r
  have hall : ∀ a : {t // Reaches uses s t}, Founded uses a.1 := fun a => by
    induction a using hwf.induction with
    | _ a ih =>
      exact ⟨_, fun t ht => ih ⟨t, a.2.tail ht⟩ (TransGen.single ht)⟩
  exact hall ⟨s, .refl⟩

/-- **Equations that take a definition from what it uses have a solution.** -/
theorem exists_solution [Inhabited β] (uses : α → α → Prop) (f : α → (α → β) → β)
    (hcongr : ∀ s N N', (∀ t, uses s t → N t = N' t) → f s N = f s N') :
    ∃ N : α → β, ∀ s, Founded uses s → N s = f s N := by
  classical
  have hwf : WellFounded fun a b : {s // Founded uses s} => uses b.1 a.1 := by
    refine ⟨fun a => ?_⟩
    obtain ⟨s, hs⟩ := a
    induction hs with
    | intro s h ih => exact ⟨_, fun b hb => ih b.1 hb⟩
  let F (a : {s // Founded uses s}) (rec : ∀ b : {s // Founded uses s}, uses a.1 b.1 → β) : β :=
    f a.1 fun t => if h : uses a.1 t then rec ⟨t, a.2.of_uses h⟩ h else default
  let N (s : α) : β := if h : Founded uses s then hwf.fix F ⟨s, h⟩ else default
  refine ⟨N, fun s hs => ?_⟩
  have hN : N s = hwf.fix F ⟨s, hs⟩ := dif_pos hs
  rw [hN, hwf.fix_eq]
  refine hcongr s _ _ fun t ht => ?_
  have hNt : N t = hwf.fix F ⟨t, hs.of_uses ht⟩ := dif_pos (hs.of_uses ht)
  rw [dif_pos ht, hNt]

end Acts.Acyclic
