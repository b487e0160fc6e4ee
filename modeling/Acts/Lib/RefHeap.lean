import Mathlib.Algebra.Group.Int.Defs
import Mathlib.Algebra.Group.Nat.Defs
import Mathlib.Algebra.GroupWithZero.Nat
import Mathlib.Data.List.AList
import Mathlib.Tactic.Common

/-!
# Reference-counted heaps

Objects with a count, which hold values; a value may refer to an object.

* `Heap`, `retain`, `release` — a reference is taken, a reference is given up; an object without
  references gives up what it holds and is freed.
* `Counted` — every count is the number of references, from the roots and from other objects.
* `retain_counted`, `release_counted`, `insert_counted` — **the operations keep that.**

A reference to an object that is not in the heap is `none`.
-/

set_option autoImplicit false

namespace Acts.RefHeap

/-- An object: its count, and the values it holds. -/
structure Cell (β : Type) where
  count : Nat
  held : List β
  deriving DecidableEq, Repr

abbrev Heap (κ β : Type) := AList (fun _ : κ => Cell β)

/-- What is left to do when references are given up. -/
inductive Work (κ β : Type) where
  | release (v : β)
  | free (k : κ)

variable {κ β : Type} [DecidableEq κ] (ref : β → Option κ)

/-- `--count` of a `size_t`. -/
def decrement (n : Nat) : Nat := if n = 0 then 2 ^ 64 - 1 else n - 1

/-- Gives up references one after the other.  The values of a dead object come before what was left
to do, and then it is freed. -/
def drain : Nat → Heap κ β → List (Work κ β) → Option (Heap κ β)
  | _, h, [] => some h
  | 0, _, _ :: _ => none
  | fuel + 1, h, .free k :: ws => drain fuel (h.erase k) ws
  | fuel + 1, h, .release v :: ws =>
    match ref v with
    | none => drain fuel h ws
    | some k =>
      match h.lookup k with
      | none => none
      | some c =>
        if decrement c.count = 0 then
          drain fuel (h.insert k ⟨0, []⟩) (c.held.map .release ++ .free k :: ws)
        else drain fuel (h.insert k ⟨decrement c.count, c.held⟩) ws

/-- The sum of a number of each object. -/
def total (f : Cell β → Nat) (h : Heap κ β) : Nat := (h.entries.map fun e => f e.2).sum

/-- The steps that giving up references can take. -/
def Cell.weight (c : Cell β) : Nat := c.held.length + if c.count = 0 then 0 else 1

def release (h : Heap κ β) (v : β) : Option (Heap κ β) :=
  drain ref (total Cell.weight h + 1) h [.release v]

def retain (h : Heap κ β) (v : β) : Option (Heap κ β) :=
  match ref v with
  | none => some h
  | some k => (h.lookup k).map fun c => h.insert k { c with count := c.count + 1 }

/-! ## Sums over the objects -/

section Total

variable {f : Cell β → Nat} {h : Heap κ β} {k : κ} {c : Cell β}

theorem total_erase (hk : h.lookup k = some c) : total f (h.erase k) + f c = total f h := by
  have hmem : k ∈ h.entries.keys := AList.lookup_isSome.mp (by rw [hk]; rfl)
  obtain ⟨b, l₁, l₂, hnot, hl, herase⟩ := List.exists_of_kerase hmem
  have hb : b = c := by
    have := hk
    rw [AList.lookup, hl, List.dlookup_append, List.dlookup_eq_none.mpr hnot,
      Option.none_or, List.dlookup_cons_eq] at this
    exact Option.some.inj this
  subst hb
  have hentries : (h.erase k).entries = l₁ ++ l₂ := herase
  rw [total, total, hentries, hl]
  simp only [List.map_append, List.map_cons, List.sum_append, List.sum_cons]
  omega

theorem total_insert_new (c' : Cell β) (hk : h.lookup k = none) :
    total f (h.insert k c') = total f h + f c' := by
  rw [total, AList.entries_insert_of_notMem (AList.lookup_eq_none.mp hk), List.map_cons,
    List.sum_cons, total, Nat.add_comm]

theorem total_insert (c' : Cell β) (hk : h.lookup k = some c) :
    total f (h.insert k c') + f c = total f h + f c' := by
  have herase := total_erase (f := f) hk
  have hentries : (h.insert k c').entries = ⟨k, c'⟩ :: (h.erase k).entries :=
    AList.entries_insert
  rw [total, hentries, List.map_cons, List.sum_cons]
  unfold total at herase ⊢
  simp only at herase ⊢
  omega

end Total

/-! ## References -/

/-- How many of the values refer to an object. -/
def refs (vs : List β) (k : κ) : Nat := (vs.filterMap ref).count k

/-- The count of an object; one that is not there has none. -/
def countOf (h : Heap κ β) (k : κ) : Nat := ((h.lookup k).map Cell.count).getD 0

/-- How many of the values held by objects refer to an object. -/
def heldRefs (h : Heap κ β) (k : κ) : Nat := total (fun c => refs ref c.held k) h

/-- **Every count is the number of references**, and an object without references is not there. -/
structure Counted (h : Heap κ β) (roots : List β) : Prop where
  count : ∀ k, countOf h k = refs ref roots k + heldRefs ref h k
  live : ∀ k c, h.lookup k = some c → 0 < c.count

variable {ref}

@[simp] theorem refs_nil (k : κ) : refs ref [] k = 0 := rfl

theorem refs_append (vs ws : List β) (k : κ) :
    refs ref (vs ++ ws) k = refs ref vs k + refs ref ws k := by
  rw [refs, List.filterMap_append, List.count_append, refs, refs]

theorem refs_cons (v : β) (vs : List β) (k : κ) :
    refs ref (v :: vs) k = (if ref v = some k then 1 else 0) + refs ref vs k := by
  unfold refs
  cases hv : ref v with
  | none => simp [hv]
  | some j =>
    rw [List.filterMap_cons, hv, List.count_cons]
    simp only [beq_iff_eq, Option.some.injEq]
    omega

theorem refs_replicate {v : β} {k : κ} (hv : ref v = some k) (n : Nat) (j : κ) :
    refs ref (List.replicate n v) j = if k = j then n else 0 := by
  induction n with
  | zero => simp
  | succ n ih =>
    rw [List.replicate_succ, refs_cons, hv, ih]
    simp only [Option.some.injEq]
    split
    · exact Nat.add_comm _ _
    · rfl

theorem refs_set (ref : β → Option κ) {vs : List β} {i : Nat} {u : β} (v : β) (hi : vs[i]? = some u) (k : κ) :
    refs ref (vs.set i v) k + refs ref [u] k = refs ref vs k + refs ref [v] k := by
  induction vs generalizing i with
  | nil => cases hi
  | cons w ws ih =>
    cases i with
    | zero =>
      cases hi
      simp only [List.set_cons_zero, refs_cons, refs_nil]
      omega
    | succ i =>
      have := ih hi
      simp only [List.set_cons_succ, refs_cons, refs_nil] at this ⊢
      omega

theorem countOf_of_lookup {h : Heap κ β} {k : κ} {c : Cell β} (hk : h.lookup k = some c) :
    countOf h k = c.count := by
  rw [countOf, hk]
  rfl

theorem countOf_insert (h : Heap κ β) (k : κ) (c : Cell β) (j : κ) :
    countOf (h.insert k c) j = if k = j then c.count else countOf h j := by
  unfold countOf
  split
  · rename_i hkj
    rw [← hkj, AList.lookup_insert]
    rfl
  · rename_i hkj
    rw [AList.lookup_insert_ne (fun hjk => hkj hjk.symm)]

theorem countOf_erase (h : Heap κ β) (k j : κ) :
    countOf (h.erase k) j = if k = j then 0 else countOf h j := by
  unfold countOf
  split
  · rename_i hkj
    rw [← hkj, AList.lookup_erase]
    rfl
  · rename_i hkj
    rw [AList.lookup_erase_ne (fun hjk => hkj hjk.symm)]

/-! ## Giving up references -/

/-- The values still to be released, and the objects still to be freed. -/
def pending : List (Work κ β) → List β
  | [] => []
  | .release v :: ws => v :: pending ws
  | .free _ :: ws => pending ws

def freeing : List (Work κ β) → List κ
  | [] => []
  | .release _ :: ws => freeing ws
  | .free k :: ws => k :: freeing ws

omit [DecidableEq κ] in
theorem pending_releases (vs : List β) (ws : List (Work κ β)) :
    pending (vs.map .release ++ ws) = vs ++ pending ws := by
  induction vs with
  | nil => rfl
  | cons v vs ih => rw [List.map_cons, List.cons_append, pending, ih, List.cons_append]

omit [DecidableEq κ] in
theorem freeing_releases (vs : List β) (ws : List (Work κ β)) :
    freeing (vs.map .release ++ ws) = freeing ws := by
  induction vs with
  | nil => rfl
  | cons v vs ih => rw [List.map_cons, List.cons_append, freeing, ih]

/-- In between, what is to be released counts as a reference, and what is to be freed is dead. -/
structure Draining (ref : β → Option κ) (h : Heap κ β) (roots : List β) (ws : List (Work κ β)) :
    Prop where
  count : ∀ k, countOf h k = refs ref roots k + refs ref (pending ws) k + heldRefs ref h k
  dead : ∀ k ∈ freeing ws, h.lookup k = some ⟨0, []⟩
  nodup : (freeing ws).Nodup
  live : ∀ k c, h.lookup k = some c → k ∈ freeing ws ∨ 0 < c.count

namespace Draining

variable {h : Heap κ β} {roots : List β} {ws : List (Work κ β)} {v : β} {k : κ} {c : Cell β}

theorem skip (hd : Draining ref h roots (.release v :: ws)) (hv : ref v = none) :
    Draining ref h roots ws := by
  refine ⟨fun k => ?_, hd.dead, hd.nodup, hd.live⟩
  have := hd.count k
  rw [pending, refs_cons, if_neg (by rw [hv]; exact nofun)] at this
  omega

theorem lookup_release (hd : Draining ref h roots (.release v :: ws)) (hv : ref v = some k) :
    ∃ c, h.lookup k = some c ∧ 0 < c.count := by
  have hcount := hd.count k
  rw [pending, refs_cons, if_pos hv] at hcount
  cases hl : h.lookup k with
  | none =>
    rw [countOf, hl] at hcount
    simp only [Option.map_none, Option.getD_none] at hcount
    omega
  | some c =>
    rw [countOf_of_lookup hl] at hcount
    exact ⟨c, rfl, by omega⟩

/-- One reference less, and more are left. -/
theorem decrement (hd : Draining ref h roots (.release v :: ws)) (hv : ref v = some k)
    (hk : h.lookup k = some c) (hc : 1 < c.count) :
    Draining ref (h.insert k ⟨c.count - 1, c.held⟩) roots ws := by
  have hnot : k ∉ freeing ws := by
    intro hmem
    have := hd.dead k hmem
    rw [hk] at this
    cases this
    simp at hc
  refine ⟨fun j => ?_, fun j hj => ?_, hd.nodup, fun j c' hj => ?_⟩
  · have hcount := hd.count j
    have htotal := total_insert (f := fun c => refs ref c.held j) ⟨c.count - 1, c.held⟩ hk
    rw [pending, refs_cons, hv] at hcount
    rw [countOf_insert]
    unfold heldRefs at hcount ⊢
    simp only [Option.some.injEq] at hcount htotal
    split
    · rename_i hkj
      rw [← hkj, countOf_of_lookup hk, if_pos rfl] at hcount
      rw [← hkj] at htotal ⊢
      simp only
      omega
    · rename_i hkj
      rw [if_neg hkj] at hcount
      omega
  · have hne : j ≠ k := fun hjk => hnot (hjk ▸ hj)
    rw [AList.lookup_insert_ne hne]
    exact hd.dead j hj
  · by_cases hjk : j = k
    · subst hjk
      rw [AList.lookup_insert] at hj
      cases hj
      exact .inr (by simp only; omega)
    · rw [AList.lookup_insert_ne hjk] at hj
      exact hd.live j c' hj

/-- The last reference: the object dies, and what it held is to be released. -/
theorem die (hd : Draining ref h roots (.release v :: ws)) (hv : ref v = some k)
    (hk : h.lookup k = some c) (hc : c.count = 1) :
    Draining ref (h.insert k ⟨0, []⟩) roots (c.held.map .release ++ .free k :: ws) := by
  have hnot : k ∉ freeing ws := by
    intro hmem
    have := hd.dead k hmem
    rw [hk] at this
    cases this
    simp at hc
  refine ⟨fun j => ?_, fun j hj => ?_, ?_, fun j c' hj => ?_⟩
  · have hcount := hd.count j
    have htotal := total_insert (f := fun c => refs ref c.held j) ⟨0, []⟩ hk
    rw [pending, refs_cons, hv] at hcount
    rw [countOf_insert, pending_releases, refs_append, pending]
    unfold heldRefs at hcount ⊢
    simp only [Option.some.injEq, refs_nil] at hcount htotal
    split
    · rename_i hkj
      rw [← hkj, countOf_of_lookup hk, if_pos rfl] at hcount
      rw [← hkj] at htotal ⊢
      simp only
      omega
    · rename_i hkj
      rw [if_neg hkj] at hcount
      omega
  · rw [freeing_releases, freeing] at hj
    rcases List.mem_cons.mp hj with rfl | hj
    · exact AList.lookup_insert _
    · have hne : j ≠ k := fun hjk => hnot (hjk ▸ hj)
      rw [AList.lookup_insert_ne hne]
      exact hd.dead j hj
  · rw [freeing_releases, freeing]
    exact List.nodup_cons.mpr ⟨hnot, hd.nodup⟩
  · rw [freeing_releases, freeing]
    by_cases hjk : j = k
    · exact .inl (hjk ▸ List.mem_cons_self)
    · rw [AList.lookup_insert_ne hjk] at hj
      rcases hd.live j c' hj with hmem | hpos
      · exact .inl (List.mem_cons_of_mem _ hmem)
      · exact .inr hpos

/-- A dead object is freed. -/
theorem free (hd : Draining ref h roots (.free k :: ws)) : Draining ref (h.erase k) roots ws := by
  have hk := hd.dead k List.mem_cons_self
  obtain ⟨hnot, hnodup⟩ := List.nodup_cons.mp hd.nodup
  refine ⟨fun j => ?_, fun j hj => ?_, hnodup, fun j c hj => ?_⟩
  · have hcount := hd.count j
    have htotal := total_erase (f := fun c => refs ref c.held j) hk
    rw [pending] at hcount
    rw [countOf_erase]
    unfold heldRefs at hcount ⊢
    simp only [refs_nil] at htotal
    split
    · rename_i hkj
      rw [← hkj, countOf_of_lookup hk] at hcount
      rw [← hkj] at htotal ⊢
      simp only at hcount
      omega
    · omega
  · have hne : j ≠ k := fun hjk => hnot (hjk ▸ hj)
    rw [AList.lookup_erase_ne hne]
    exact hd.dead j (List.mem_cons_of_mem _ hj)
  · have hne : j ≠ k := by
      rintro rfl
      rw [AList.lookup_erase] at hj
      cases hj
    rw [AList.lookup_erase_ne hne] at hj
    rcases hd.live j c hj with hmem | hpos
    · rcases List.mem_cons.mp hmem with rfl | hmem
      · exact absurd rfl hne
      · exact .inl hmem
    · exact .inr hpos

end Draining

/-- **Giving up references ends, finds every object it looks for, and leaves a counted heap.** -/
theorem drain_counted {fuel : Nat} {h : Heap κ β} {roots : List β} {ws : List (Work κ β)}
    (hd : Draining ref h roots ws) (hfuel : total Cell.weight h + ws.length ≤ fuel) :
    ∃ h', drain ref fuel h ws = some h' ∧ Counted ref h' roots := by
  induction fuel generalizing h ws with
  | zero =>
    cases ws with
    | nil =>
      refine ⟨h, rfl, fun k => ?_, fun k c hk => ?_⟩
      · exact hd.count k
      · exact (hd.live k c hk).resolve_left (List.not_mem_nil)
    | cons w ws =>
      rw [List.length_cons] at hfuel
      omega
  | succ fuel ih =>
    cases ws with
    | nil =>
      refine ⟨h, rfl, fun k => ?_, fun k c hk => ?_⟩
      · exact hd.count k
      · exact (hd.live k c hk).resolve_left (List.not_mem_nil)
    | cons w ws =>
      rw [List.length_cons] at hfuel
      cases w with
      | free k =>
        have htotal := total_erase (f := Cell.weight) (hd.dead k List.mem_cons_self)
        exact ih hd.free (by omega)
      | release v =>
        rw [drain]
        cases hv : ref v with
        | none => exact ih (hd.skip hv) (by omega)
        | some k =>
          obtain ⟨c, hk, hpos⟩ := hd.lookup_release hv
          simp only [hk]
          have hdec : RefHeap.decrement c.count = c.count - 1 := if_neg (by omega)
          rw [hdec]
          by_cases hone : c.count = 1
          · have htotal := total_insert (f := Cell.weight) ⟨0, []⟩ hk
            rw [if_pos (by omega)]
            refine ih (hd.die hv hk hone) ?_
            rw [Cell.weight, Cell.weight, if_neg (by omega)] at htotal
            simp only [List.length_append, List.length_map, List.length_cons, List.length_nil,
              if_true] at htotal ⊢
            omega
          · have htotal := total_insert (f := Cell.weight) ⟨c.count - 1, c.held⟩ hk
            rw [if_neg (by omega)]
            refine ih (hd.decrement hv hk (by omega)) ?_
            rw [Cell.weight, Cell.weight, if_neg (by omega), if_neg (by simp only; omega)] at htotal
            simp only at htotal
            omega

namespace Counted

variable {h : Heap κ β} {roots roots' : List β}

theorem congr (hh : Counted ref h roots) (hr : ∀ k, refs ref roots' k = refs ref roots k) :
    Counted ref h roots' :=
  ⟨fun k => by rw [hr k]; exact hh.count k, hh.live⟩

/-- What a root refers to is there. -/
theorem lookup_root (hh : Counted ref h roots) {v : β} (hv : v ∈ roots) {k : κ}
    (hk : ref v = some k) : ∃ c, h.lookup k = some c := by
  have hpos : 0 < refs ref roots k :=
    List.count_pos_iff.mpr (List.mem_filterMap.mpr ⟨v, hv, hk⟩)
  have hcount := hh.count k
  cases hl : h.lookup k with
  | none =>
    rw [countOf, hl] at hcount
    simp only [Option.map_none, Option.getD_none] at hcount
    omega
  | some c => exact ⟨c, rfl⟩

/-- **Giving up the reference of a root.** -/
theorem release {v : β} (hh : Counted ref h (v :: roots)) :
    ∃ h', RefHeap.release ref h v = some h' ∧ Counted ref h' roots := by
  refine drain_counted ⟨fun k => ?_, nofun, List.nodup_nil, fun k c hk => ?_⟩ (Nat.le_refl _)
  · have := hh.count k
    rw [refs_cons] at this
    rw [pending, pending, refs_cons, refs_nil]
    omega
  · exact .inr (hh.live k c hk)

/-- **Taking references to an object that is there.** -/
theorem addRefs (hh : Counted ref h roots) {k : κ} {c : Cell β} (hk : h.lookup k = some c) {v : β}
    (hv : ref v = some k) (n : Nat) :
    Counted ref (h.insert k { c with count := c.count + n }) (List.replicate n v ++ roots) := by
  refine ⟨fun j => ?_, fun j c' hj => ?_⟩
  · have hcount := hh.count j
    have htotal := total_insert (f := fun c => refs ref c.held j) ⟨c.count + n, c.held⟩ hk
    rw [countOf_insert, refs_append, refs_replicate hv]
    unfold heldRefs at hcount ⊢
    simp only at htotal ⊢
    split
    · rename_i hkj
      rw [← hkj, countOf_of_lookup hk] at hcount
      rw [← hkj] at htotal ⊢
      omega
    · omega
  · by_cases hjk : j = k
    · subst hjk
      rw [AList.lookup_insert] at hj
      cases hj
      exact Nat.lt_of_lt_of_le (hh.live j c hk) (Nat.le_add_right _ _)
    · rw [AList.lookup_insert_ne hjk] at hj
      exact hh.live j c' hj

theorem retain (hh : Counted ref h roots) {v : β}
    (hv : ∀ k, ref v = some k → ∃ c, h.lookup k = some c) :
    ∃ h', RefHeap.retain ref h v = some h' ∧ Counted ref h' (v :: roots) := by
  unfold RefHeap.retain
  cases href : ref v with
  | none =>
    refine ⟨h, rfl, hh.congr fun k => ?_⟩
    rw [refs_cons, href]
    simp
  | some k =>
    obtain ⟨c, hk⟩ := hv k href
    simp only [hk, Option.map_some]
    exact ⟨_, rfl, hh.addRefs hk href 1⟩

/-- **A new object, with as many references as its count.** -/
theorem insert (hh : Counted ref h roots) {k : κ} (hk : h.lookup k = none) {v : β}
    (hv : ref v = some k) {n : Nat} (hn : 0 < n) :
    Counted ref (h.insert k ⟨n, []⟩) (List.replicate n v ++ roots) := by
  refine ⟨fun j => ?_, fun j c hj => ?_⟩
  · have hcount := hh.count j
    have htotal := total_insert_new (f := fun c => refs ref c.held j) ⟨n, []⟩ hk
    rw [countOf_insert, refs_append, refs_replicate hv]
    unfold heldRefs at hcount ⊢
    simp only [refs_nil] at htotal
    split
    · rename_i hkj
      rw [← hkj, countOf, hk] at hcount
      rw [← hkj] at htotal ⊢
      simp only [Option.map_none, Option.getD_none] at hcount ⊢
      omega
    · omega
  · by_cases hjk : j = k
    · subst hjk
      rw [AList.lookup_insert] at hj
      cases hj
      exact hn
    · rw [AList.lookup_insert_ne hjk] at hj
      exact hh.live j c hj

theorem empty : Counted ref (∅ : Heap κ β) [] := by
  refine ⟨fun k => rfl, fun k c hk => ?_⟩
  rw [AList.lookup_empty] at hk
  cases hk

end Counted

end Acts.RefHeap
