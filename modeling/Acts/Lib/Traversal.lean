import Mathlib.Algebra.Group.Int.Defs
import Mathlib.Algebra.Group.Nat.Defs
import Mathlib.Algebra.GroupWithZero.Nat
import Mathlib.Data.List.Nodup

/-!
# Depth-first traversals

A traversal keeps the list of the nodes it has entered and does not enter a node twice.

* `Reached` — what a node leads to without passing through the nodes entered before.
* `Visited` — what a traversal adds to the list: reached nodes, each once, with their successors.
* `Visited.seen`, `Visited.append`, `Visited.enter` — the rules for a node entered before, for
  several roots and for a new node.
* `Visited.mem_iff` — **a traversal enters exactly what it reaches**, cycles or not.
-/

set_option autoImplicit false

namespace Acts

variable {α : Type} {next : α → List α} {old new new' roots roots' : List α} {p q root : α}

/-- The nodes on a way from `root` that enters no old node before its end. -/
inductive Reached (next : α → List α) (old : List α) (root : α) : α → Prop
  | root : Reached next old root root
  | step {p q : α} (h : Reached next old root q) (hq : q ∉ old) (hp : p ∈ next q) :
      Reached next old root p

theorem Reached.mono (h : Reached next (old ++ new) root p) : Reached next old root p := by
  induction h with
  | root => exact .root
  | step _ hq hp ih => exact .step ih (fun hold => hq (List.mem_append_left _ hold)) hp

theorem Reached.of_next (hq : q ∉ old) (hroot : root ∈ next q)
    (h : Reached next old root p) : Reached next old q p := by
  induction h with
  | root => exact .step .root hq hroot
  | step _ hmid hp ih => exact .step ih hmid hp

/-- A traversal from `roots` adds `new` to the list `old`. -/
structure Visited (next : α → List α) (old new roots : List α) : Prop where
  nodup : (old ++ new).Nodup
  reached : ∀ p ∈ new, ∃ root ∈ roots, Reached next old root p
  closed : ∀ p ∈ new, ∀ q ∈ next p, q ∈ old ++ new
  entered : ∀ root ∈ roots, root ∈ old ++ new

theorem Visited.none (h : old.Nodup) : Visited next old [] [] where
  nodup := by rwa [List.append_nil]
  reached p hp := by cases hp
  closed p hp := by cases hp
  entered p hp := by cases hp

theorem Visited.seen (h : old.Nodup) (hp : p ∈ old) : Visited next old [] [p] where
  nodup := by rwa [List.append_nil]
  reached q hq := by cases hq
  closed q hq := by cases hq
  entered q hq := by
    rw [List.mem_singleton.1 hq, List.append_nil]
    exact hp

theorem Visited.append (h : Visited next old new roots)
    (h' : Visited next (old ++ new) new' roots') :
    Visited next old (new ++ new') (roots ++ roots') where
  nodup := by
    rw [← List.append_assoc]
    exact h'.nodup
  reached p hp := by
    rcases List.mem_append.1 hp with hp | hp
    · obtain ⟨root, hroot, hreach⟩ := h.reached p hp
      exact ⟨root, List.mem_append_left _ hroot, hreach⟩
    · obtain ⟨root, hroot, hreach⟩ := h'.reached p hp
      exact ⟨root, List.mem_append_right _ hroot, hreach.mono⟩
  closed p hp q hq := by
    rw [← List.append_assoc]
    rcases List.mem_append.1 hp with hp | hp
    · exact List.mem_append_left _ (h.closed p hp q hq)
    · exact h'.closed p hp q hq
  entered root hroot := by
    rw [← List.append_assoc]
    rcases List.mem_append.1 hroot with hroot | hroot
    · exact List.mem_append_left _ (h.entered root hroot)
    · exact h'.entered root hroot

theorem Visited.enter (hp : p ∉ old) (h : Visited next (old ++ [p]) new (next p)) :
    Visited next old (p :: new) [p] where
  nodup := by
    have hnodup := h.nodup
    rwa [List.append_assoc] at hnodup
  reached q hq := by
    refine ⟨p, List.mem_singleton_self p, ?_⟩
    rcases List.mem_cons.1 hq with rfl | hq
    · exact .root
    · obtain ⟨root, hroot, hreach⟩ := h.reached q hq
      exact hreach.mono.of_next hp hroot
  closed q hq r hr := by
    have hmem : r ∈ (old ++ [p]) ++ new := by
      rcases List.mem_cons.1 hq with rfl | hq
      · exact h.entered r hr
      · exact h.closed q hq r hr
    rwa [List.append_assoc] at hmem
  entered q hq := by
    rw [List.mem_singleton.1 hq]
    simp

/-- A traversal enters exactly what it reaches. -/
theorem Visited.mem_iff (h : Visited next old new [root]) :
    p ∈ old ++ new ↔ p ∈ old ∨ Reached next old root p := by
  constructor
  · intro hp
    rcases List.mem_append.1 hp with hp | hp
    · exact .inl hp
    · obtain ⟨root', hroot, hreach⟩ := h.reached p hp
      rw [List.mem_singleton.1 hroot] at hreach
      exact .inr hreach
  · rintro (hp | hp)
    · exact List.mem_append_left _ hp
    · induction hp with
      | root => exact h.entered root (List.mem_singleton_self root)
      | step _ hq hp ih =>
        rcases List.mem_append.1 ih with ih | ih
        · exact absurd ih hq
        · exact h.closed _ ih _ hp

end Acts
