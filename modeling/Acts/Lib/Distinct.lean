import Mathlib.Algebra.Group.Int.Defs
import Mathlib.Algebra.Group.Nat.Defs
import Mathlib.Algebra.GroupWithZero.Nat
import Mathlib.Data.List.AList
import Mathlib.Tactic.Common

/-!
# Lists without repeats, built from the front

* `pushNew` — append unless present.
* `foldl_pushNew_blocks` — runs of equal elements leave one element each.
* `upsert` — a table whose values are updated by key, and what a sequence of updates leaves.
* `fileInto` — the first bucket that fits takes an item, else a new bucket.
-/

set_option autoImplicit false

namespace Acts

section PushNew

variable {α ω : Type} [DecidableEq α]

/-- `x` is appended unless the list holds it. -/
def pushNew (l : List α) (x : α) : List α := if x ∈ l then l else l ++ [x]

theorem pushNew_of_mem {l : List α} {x : α} (h : x ∈ l) : pushNew l x = l := if_pos h

theorem pushNew_of_notMem {l : List α} {x : α} (h : x ∉ l) : pushNew l x = l ++ [x] := if_neg h

theorem mem_pushNew {l : List α} {x y : α} : y ∈ pushNew l x ↔ y ∈ l ∨ y = x := by
  by_cases h : x ∈ l
  · rw [pushNew_of_mem h]
    constructor
    · exact Or.inl
    · rintro (hy | rfl)
      · exact hy
      · exact h
  · rw [pushNew_of_notMem h]
    simp

theorem mem_foldl_pushNew {l xs : List α} {y : α} :
    y ∈ xs.foldl pushNew l ↔ y ∈ l ∨ y ∈ xs := by
  induction xs generalizing l with
  | nil => simp
  | cons x xs ih =>
    rw [List.foldl_cons, ih, mem_pushNew, List.mem_cons, or_assoc]

theorem nodup_foldl_pushNew {l : List α} (h : l.Nodup) (xs : List α) :
    (xs.foldl pushNew l).Nodup := by
  induction xs generalizing l with
  | nil => exact h
  | cons x xs ih =>
    rw [List.foldl_cons]
    apply ih
    by_cases hx : x ∈ l
    · rw [pushNew_of_mem hx]
      exact h
    · rw [pushNew_of_notMem hx, List.nodup_append]
      refine ⟨h, List.nodup_singleton x, fun a ha b hb => ?_⟩
      rw [List.mem_singleton.mp hb]
      rintro rfl
      exact hx ha

/-- A run of one element, once present, changes nothing. -/
theorem foldl_pushNew_of_forall_mem {l xs : List α} (h : ∀ x ∈ xs, x ∈ l) :
    xs.foldl pushNew l = l := by
  induction xs with
  | nil => rfl
  | cons x xs ih =>
    rw [List.foldl_cons, pushNew_of_mem (h x List.mem_cons_self)]
    exact ih fun y hy => h y (List.mem_cons_of_mem x hy)

/-- A nonempty run of a new element appends it once. -/
theorem foldl_pushNew_run {l xs : List α} {y : α} (hne : xs ≠ []) (hxs : ∀ x ∈ xs, x = y)
    (hy : y ∉ l) : xs.foldl pushNew l = l ++ [y] := by
  cases xs with
  | nil => exact absurd rfl hne
  | cons x xs =>
    rw [List.foldl_cons, hxs x List.mem_cons_self, pushNew_of_notMem hy]
    apply foldl_pushNew_of_forall_mem
    intro z hz
    rw [hxs z (List.mem_cons_of_mem x hz)]
    simp

/-- **Runs of equal elements leave one element each**: where the selected places have a run of
their own element, and the others none. -/
theorem foldl_pushNew_blocks {ws : List ω} {block : ω → List α} {sel : ω → Bool} {r : ω → α}
    (hsel : ∀ w ∈ ws, sel w = true → block w ≠ [] ∧ ∀ x ∈ block w, x = r w)
    (hrest : ∀ w ∈ ws, sel w = false → block w = []) {l : List α}
    (hnodup : (l ++ (ws.filter sel).map r).Nodup) :
    (ws.flatMap block).foldl pushNew l = l ++ (ws.filter sel).map r := by
  induction ws generalizing l with
  | nil => simp
  | cons w ws ih =>
    have hsel' := fun v hv => hsel v (List.mem_cons_of_mem w hv)
    have hrest' := fun v hv => hrest v (List.mem_cons_of_mem w hv)
    rw [List.flatMap_cons, List.foldl_append]
    cases hw : sel w with
    | true =>
      obtain ⟨hne, hall⟩ := hsel w List.mem_cons_self hw
      rw [List.filter_cons_of_pos hw, List.map_cons] at hnodup ⊢
      have hnew : r w ∉ l := by
        intro hmem
        rw [List.nodup_append] at hnodup
        exact hnodup.2.2 _ hmem _ List.mem_cons_self rfl
      rw [foldl_pushNew_run hne hall hnew, ih hsel' hrest' (by simpa using hnodup)]
      simp
    | false =>
      rw [hrest w List.mem_cons_self hw, List.foldl_nil]
      rw [List.filter_cons_of_neg (by simp [hw])] at hnodup ⊢
      exact ih hsel' hrest' hnodup

end PushNew

/-! ## Tables updated by key -/

section Table

variable {κ α ν : Type} [DecidableEq κ]

/-- `upd x` is applied to the value under `k`, which is `init` before. -/
def upsert (init : ν) (upd : α → ν → ν) (table : AList fun _ : κ => ν) (hit : κ × α) :
    AList fun _ : κ => ν :=
  table.insert hit.1 (upd hit.2 ((table.lookup hit.1).getD init))

variable {init : ν} {upd : α → ν → ν} {table : AList fun _ : κ => ν} {k : κ}

theorem getD_upsert_self (x : α) :
    ((upsert init upd table (k, x)).lookup k).getD init = upd x ((table.lookup k).getD init) := by
  unfold upsert
  rw [AList.lookup_insert]
  rfl

theorem lookup_upsert_ne {hit : κ × α} (h : hit.1 ≠ k) :
    (upsert init upd table hit).lookup k = table.lookup k :=
  AList.lookup_insert_ne (Ne.symm h)

/-- **A sequence of updates makes of the value under a key what the updates of that key do.** -/
theorem getD_foldl_upsert (hits : List (κ × α)) :
    ((hits.foldl (upsert init upd) table).lookup k).getD init =
      ((hits.filter (·.1 = k)).map (·.2)).foldl (fun v x => upd x v)
        ((table.lookup k).getD init) := by
  induction hits generalizing table with
  | nil => rfl
  | cons hit hits ih =>
    obtain ⟨k', x⟩ := hit
    rw [List.foldl_cons, ih]
    by_cases hk : k' = k
    · subst hk
      rw [getD_upsert_self, List.filter_cons_of_pos (by simp), List.map_cons, List.foldl_cons]
    · rw [lookup_upsert_ne hk, List.filter_cons_of_neg (by simpa using hk)]

theorem lookup_foldl_upsert_other {hits : List (κ × α)} (h : ∀ hit ∈ hits, hit.1 ≠ k) :
    (hits.foldl (upsert init upd) table).lookup k = table.lookup k := by
  induction hits generalizing table with
  | nil => rfl
  | cons hit hits ih =>
    rw [List.foldl_cons, ih fun x hx => h x (List.mem_cons_of_mem hit hx),
      lookup_upsert_ne (h hit List.mem_cons_self)]

end Table

/-! ## Buckets -/

section Buckets

variable {β γ : Type} {fits : β → Bool} {fresh : β} {put : β → β} {l : List β}

/-- `put` is applied to the first bucket that fits; if none does, `fresh` is appended. -/
def fileInto (fits : β → Bool) (fresh : β) (put : β → β) : List β → List β
  | [] => [fresh]
  | b :: bs => if fits b then put b :: bs else b :: fileInto fits fresh put bs

theorem mem_fileInto {b : β} (h : b ∈ fileInto fits fresh put l) :
    b ∈ l ∨ b = fresh ∨ ∃ b' ∈ l, fits b' = true ∧ b = put b' := by
  induction l with
  | nil => exact Or.inr (Or.inl (List.mem_singleton.mp h))
  | cons c cs ih =>
    unfold fileInto at h
    split at h
    · rename_i hfits
      rcases List.mem_cons.mp h with rfl | hmem
      · exact Or.inr (Or.inr ⟨c, List.mem_cons_self, hfits, rfl⟩)
      · exact Or.inl (List.mem_cons_of_mem c hmem)
    · rcases List.mem_cons.mp h with rfl | hmem
      · exact Or.inl List.mem_cons_self
      · rcases ih hmem with hb | hb | ⟨b', hb', hfits, rfl⟩
        · exact Or.inl (List.mem_cons_of_mem c hb)
        · exact Or.inr (Or.inl hb)
        · exact Or.inr (Or.inr ⟨b', List.mem_cons_of_mem c hb', hfits, rfl⟩)

/-- What the buckets hold grows by the one item. -/
theorem perm_fileInto {held : β → List γ} {x : γ} (hfresh : List.Perm (held fresh) [x])
    (hput : ∀ b ∈ l, fits b = true → List.Perm (held (put b)) (x :: held b)) :
    List.Perm ((fileInto fits fresh put l).flatMap held) (x :: l.flatMap held) := by
  induction l with
  | nil =>
    unfold fileInto
    rw [List.flatMap_cons, List.flatMap_nil, List.append_nil]
    exact hfresh
  | cons c cs ih =>
    unfold fileInto
    split
    · rename_i hfits
      rw [List.flatMap_cons, List.flatMap_cons]
      exact (hput c List.mem_cons_self hfits).append_right _
    · have hrest := ih fun b hb => hput b (List.mem_cons_of_mem c hb)
      rw [List.flatMap_cons, List.flatMap_cons]
      exact (hrest.append_left _).trans List.perm_middle

/-- An element of what the blocks hold without repeats is in exactly one of them. -/
theorem exists_only_block {held : β → List γ} {x : γ} (hx : x ∈ l.flatMap held)
    (hnodup : (l.flatMap held).Nodup) :
    ∃ l₁ b l₂, l = l₁ ++ b :: l₂ ∧ x ∈ held b ∧ ∀ b' ∈ l₁ ++ l₂, x ∉ held b' := by
  obtain ⟨b, hb, hxb⟩ := List.mem_flatMap.mp hx
  obtain ⟨l₁, l₂, rfl⟩ := List.append_of_mem hb
  refine ⟨l₁, b, l₂, rfl, hxb, fun b' hb' hxb' => ?_⟩
  have hperm : List.Perm ((l₁ ++ b :: l₂).flatMap held) (held b ++ (l₁ ++ l₂).flatMap held) := by
    rw [← List.flatMap_cons]
    exact List.Perm.flatMap_right held List.perm_middle
  have hdisjoint := (List.nodup_append.mp (hperm.nodup_iff.mp hnodup)).2.2
  exact hdisjoint x hxb x (List.mem_flatMap.mpr ⟨b', hb', hxb'⟩) rfl

end Buckets

end Acts
