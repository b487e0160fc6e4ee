import Mathlib.Algebra.Group.Int.Defs
import Mathlib.Algebra.Group.Nat.Defs
import Mathlib.Algebra.GroupWithZero.Nat
import Mathlib.Tactic.Common

/-!
# Links to representatives

Elements that were declared equal are kept as links from an element to the one that stands for it:

* `rep` — one step along the links.
* `Collapsed` — every element is one step from its representative, and what was declared equal has
  the same one.
* `Linked` — where the links come from.
* `collapsed_join_iff` — **which new link keeps the links collapsed.**
-/

set_option autoImplicit false

namespace Acts.Links

variable {α : Type}

/-- The element that stands for `p`. -/
def rep (m : α → Option α) (p : α) : α := (m p).getD p

/-- `sub` is linked to `root`. -/
def link [DecidableEq α] (m : α → Option α) (sub root : α) : α → Option α :=
  fun p => if p = sub then some root else m p

/-- `sub` is declared equal to `main`: it is linked to what stands for `main`, if that is not `sub`
itself. -/
def join [DecidableEq α] (m : α → Option α) (main sub : α) : α → Option α :=
  if rep m main = sub then m else link m sub (rep m main)

/-- One step leads to the representative, and both elements of each pair have the same one. -/
structure Collapsed (m : α → Option α) (pairs : List (α × α)) : Prop where
  idempotent : ∀ p, rep m (rep m p) = rep m p
  equal : ∀ c ∈ pairs, rep m c.1 = rep m c.2

/-- An element is linked because it was declared equal to another one, and to another one. -/
structure Linked (m : α → Option α) (pairs : List (α × α)) : Prop where
  declared : ∀ p, m p ≠ none → ∃ x, x ≠ p ∧ ((x, p) ∈ pairs ∨ (p, x) ∈ pairs)
  noSelf : ∀ p, m p ≠ some p

/-- The two have the same representative, or `sub` stands for itself only. -/
def Joins (m : α → Option α) (main sub : α) : Prop :=
  rep m main = rep m sub ∨ (m sub = none ∧ ∀ p, m p ≠ some sub)

variable {m : α → Option α} {main sub p root : α} {pairs : List (α × α)}

theorem rep_of_none (h : m p = none) : rep m p = p := by rw [rep, h, Option.getD_none]

theorem rep_of_some (h : m p = some root) : rep m p = root := by rw [rep, h, Option.getD_some]

theorem rep_link_self [DecidableEq α] : rep (link m sub root) sub = root := rep_of_some (if_pos rfl)

theorem rep_link_ne [DecidableEq α] (h : p ≠ sub) : rep (link m sub root) p = rep m p := by
  rw [rep, link, if_neg h, rep]

/-- Nothing but itself has `sub` as its representative. -/
theorem eq_of_rep_eq (halone : ∀ p, m p ≠ some sub) (h : rep m p = sub) : p = sub := by
  cases hp : m p with
  | none => rwa [rep_of_none hp] at h
  | some q =>
    rw [rep_of_some hp] at h
    exact absurd (h ▸ hp) (halone p)

theorem linked_nil : Linked (fun _ : α => none) [] :=
  ⟨fun _ h => absurd rfl h, fun _ h => by cases h⟩

theorem collapsed_nil : Collapsed (fun _ : α => none) [] :=
  ⟨fun _ => rfl, fun _ hc => absurd hc List.not_mem_nil⟩

/-- What was declared equal before is still declared. -/
theorem Linked.join [DecidableEq α] (h : Linked m pairs) :
    Linked (join m main sub) ((main, sub) :: pairs) := by
  have hold : ∀ p, m p ≠ none → ∃ x, x ≠ p ∧
      ((x, p) ∈ (main, sub) :: pairs ∨ (p, x) ∈ (main, sub) :: pairs) := by
    intro p hp
    obtain ⟨x, hne, hx | hx⟩ := h.declared p hp
    · exact ⟨x, hne, .inl (List.mem_cons_of_mem _ hx)⟩
    · exact ⟨x, hne, .inr (List.mem_cons_of_mem _ hx)⟩
  unfold Links.join
  split
  · exact ⟨hold, h.noSelf⟩
  · rename_i hroot
    constructor
    · intro p hp
      by_cases hsub : p = sub
      · subst hsub
        by_cases hmain : main = p
        · subst hmain
          refine hold main ?_
          intro hnone
          exact hroot (rep_of_none hnone)
        · exact ⟨main, hmain, .inl List.mem_cons_self⟩
      · rw [link, if_neg hsub] at hp
        exact hold p hp
    · intro p hp
      unfold link at hp
      split at hp
      · rename_i hsub
        cases hp
        exact hroot hsub
      · exact h.noSelf p hp

theorem Collapsed.cons (h : Collapsed m pairs) (hsame : rep m main = rep m sub) :
    Collapsed m ((main, sub) :: pairs) := by
  refine ⟨h.idempotent, ?_⟩
  intro c hc
  rcases List.mem_cons.mp hc with rfl | hc
  · exact hsame
  · exact h.equal c hc

/-- A link that is there already changes nothing. -/
theorem link_same [DecidableEq α] (h : m sub = some root) : link m sub root = m := by
  funext p
  unfold link
  split
  · rename_i hp
    rw [hp, h]
  · rfl

/-- An element that stands for itself only may be linked to another representative. -/
theorem Collapsed.link_alone [DecidableEq α] (h : Collapsed m pairs) (hroot : rep m main ≠ sub)
    (hown : m sub = none) (halone : ∀ p, m p ≠ some sub) :
    Collapsed (link m sub (rep m main)) ((main, sub) :: pairs) := by
  have hrep : ∀ p, p ≠ sub → rep m p ≠ sub := fun p hp heq =>
    hp (eq_of_rep_eq halone heq)
  constructor
  · intro p
    by_cases hp : p = sub
    · rw [hp, rep_link_self, rep_link_ne hroot, h.idempotent]
    · rw [rep_link_ne hp, rep_link_ne (hrep p hp), h.idempotent]
  · intro c hc
    rcases List.mem_cons.mp hc with rfl | hc
    · by_cases hmain : main = sub
      · rw [hmain]
      · rw [rep_link_ne hmain, rep_link_self]
    · have heq := h.equal c hc
      by_cases h₁ : c.1 = sub
      · rw [h₁, rep_of_none hown] at heq
        rw [h₁, eq_of_rep_eq halone heq.symm]
      · by_cases h₂ : c.2 = sub
        · rw [h₂, rep_of_none hown] at heq
          exact absurd heq (hrep _ h₁)
        · rw [rep_link_ne h₁, rep_link_ne h₂, heq]

/-- The one that is linked anew has to stand for itself only. -/
theorem Collapsed.alone_of_link [DecidableEq α] (h : Collapsed m pairs) (hlinked : Linked m pairs)
    (hne : rep m main ≠ rep m sub) (hroot : rep m main ≠ sub)
    (hnew : Collapsed (link m sub (rep m main)) ((main, sub) :: pairs)) :
    m sub = none ∧ ∀ p, m p ≠ some sub := by
  constructor
  · -- otherwise it leaves the one that it was declared equal to
    by_contra hsub
    obtain ⟨x, hxsub, hx⟩ := hlinked.declared sub hsub
    have hbefore : rep m x = rep m sub := by
      rcases hx with hx | hx
      · exact h.equal _ hx
      · exact (h.equal _ hx).symm
    have hafter : rep m x = rep m main := by
      rcases hx with hx | hx
      · have heq := hnew.equal _ (List.mem_cons_of_mem _ hx)
        rwa [rep_link_ne hxsub, rep_link_self] at heq
      · have heq := hnew.equal _ (List.mem_cons_of_mem _ hx)
        rw [rep_link_self, rep_link_ne hxsub] at heq
        exact heq.symm
    exact hne (hafter.symm.trans hbefore)
  · -- otherwise what is linked to it is two steps from its representative
    intro p hp
    have hpsub : p ≠ sub := by
      rintro rfl
      exact hlinked.noSelf p hp
    have hidem := hnew.idempotent p
    rw [rep_link_ne hpsub, rep_of_some hp, rep_link_self] at hidem
    exact hroot hidem

/-- **A new link keeps the links collapsed exactly when the two have the same representative
already, or the element that is linked stands for itself only.** -/
theorem collapsed_join_iff [DecidableEq α] (main sub : α) (h : Collapsed m pairs)
    (hlinked : Linked m pairs) :
    Collapsed (join m main sub) ((main, sub) :: pairs) ↔ Joins m main sub := by
  unfold join
  split
  · rename_i hroot
    have hsame : rep m main = rep m sub := by rw [← hroot, h.idempotent]
    exact ⟨fun _ => .inl hsame, fun _ => h.cons hsame⟩
  · rename_i hroot
    constructor
    · intro hnew
      by_cases hsame : rep m main = rep m sub
      · exact .inl hsame
      · exact .inr (h.alone_of_link hlinked hsame hroot hnew)
    · rintro (hsame | ⟨hown, halone⟩)
      · have hlink : m sub = some (rep m main) := by
          cases hm : m sub with
          | none => exact absurd (hsame.trans (rep_of_none hm)) hroot
          | some q => rw [hsame, rep_of_some hm]
        rw [link_same hlink]
        exact h.cons hsame
      · exact h.link_alone hroot hown halone

end Acts.Links
