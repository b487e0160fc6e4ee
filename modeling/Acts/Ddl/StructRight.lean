import Acts.Ddl.StructRuns

/-!
# When `CompleteStruct` does what it is for

* `Right` — it accepts what is good, with every struct laid out.
* `Fits` — the sizes are not too large; `Misled` — `root` is inside of itself, behind a member.
* `complete_lays` — good definitions are accepted; `complete_sound` — what is accepted exists.
* `complete_right` — **when `CompleteStruct` is right.**
-/

set_option autoImplicit false

namespace Acts.Ddl

open Acyclic Relation

/-! ## What it is for -/

/-- Bits that a member takes. -/
def DDLMember.room (sub : DDLMember) : Nat :=
  if sub.isArray then sub.size.toNat * sub.arraySize.toNat else sub.size.toNat

/-- The struct `t` of `D` is laid out in `d`. -/
def LaidOut (D d : DDLCompiled) (t : UInt64) : Prop :=
  ∃ current, D.findStruct t = some current.erase ∧ d.findStruct t = some current ∧
    current.size.toNat = (current.values.map DDLMember.room).sum ∧
    ∀ j sub, current.values[j]? = some sub →
      sub.offset.toNat = ((current.values.take j).map DDLMember.room).sum ∧
      sub.size =
        match D.structOf sub with
        | some u => d.structSize u
        | none => (sub.sized (D.enumSize sub.typeName)).size

/-- What `CompleteStruct` is for. -/
def Right (root : UInt64) (D : DDLCompiled) : Prop :=
  ∃ b d, complete root D = some (b, d) ∧ (b = true ↔ Good root D) ∧
    (b = true → ∀ t, Reaches (Uses D) root t → LaidOut D d t)

/-- The sizes of all structs fit in 64 bits. -/
def Fits (root : UInt64) (D : DDLCompiled) : Prop :=
  ∃ N : UInt64 → Nat, ∀ t, Reaches (Uses D) root t → Solves D N t ∧ N t < 2 ^ 64

/-- All structs exist, and contain themselves only through `root`, which does, in the member `sub`,
where the members before it have a size. -/
structure Misled (root : UInt64) (D : DDLCompiled) (pre : List DDLMember) (sub : DDLMember)
    (post : List DDLMember) : Prop where
  fine : Fine D root root
  members : D.findStruct root = some ⟨0, pre ++ sub :: post⟩
  first : ∀ m ∈ pre, ∀ t, D.structOf m = some t → ¬ Reaches (Uses D) t root
  back : ∃ t, D.structOf sub = some t ∧ Reaches (Uses D) t root
  sized : ∃ N : UInt64 → Nat,
    (∀ t, Reaches (Uses D) root t → ¬ Reaches (Uses D) t root → Solves D N t) ∧
    D.total N pre % 2 ^ 64 ≠ 0

section Right

variable {D d d' : DDLCompiled} {root s t : UInt64} {N : UInt64 → Nat} {b : Bool}
  {pre post : List DDLMember} {sub : DDLMember}

/-! ## Definitions that nothing is computed of -/

theorem Same.erased (hfresh : Fresh D) {current : DDLStruct}
    (h : D.findStruct t = some current) : current.erase = current := by
  have herase := hfresh.of_found h
  rw [h] at herase
  exact (Option.some.inj herase).symm

theorem Same.unsized (hfresh : Fresh D) (t : UInt64) : D.structSize t = 0 := by
  unfold DDLCompiled.structSize
  cases h : D.findStruct t with
  | none => rfl
  | some current =>
    rw [← Same.erased hfresh h]
    rfl

theorem complete_eq {current : DDLStruct} (h : D.findStruct root = some current) :
    complete root D = completeStruct (D.structs.length + 1) root [] D := by
  unfold complete
  rw [h]

/-- Sizes exist, where structs do not contain themselves. -/
theorem exists_solves (D : DDLCompiled) :
    ∃ N : UInt64 → Nat, ∀ t, Founded (Uses D) t → Solves D N t := by
  obtain ⟨N, hN⟩ := exists_solution (Uses D)
    (fun t N => ((D.findStruct t).map fun current => D.total N current.values).getD 0)
    (fun t N N' hcongr => by
      cases h : D.findStruct t with
      | none => rfl
      | some current =>
        refine congrArg List.sum (List.map_congr_left fun sub hsub => ?_)
        have hwidth : D.width N sub = D.width N' sub := by
          unfold DDLCompiled.width
          split
          · rename_i u hu
            exact hcongr u ⟨current, h, sub, hsub, hu⟩
          · rfl
        unfold DDLCompiled.bits
        rw [hwidth])
  refine ⟨N, fun t ht current h => ?_⟩
  rw [hN t ht, h]
  rfl

/-! ## Good definitions -/

theorem Fine.isSome (h : Fine D root s) : (D.findStruct s).isSome := by
  obtain ⟨hfound, -, -⟩ := h
  exact hfound

theorem Fine.of_reaches (h : Fine D root root) (hreach : Reaches (Uses D) root t) :
    Fine D root t := by
  induction hreach with
  | refl => exact h
  | @tail s t _ hstep ih =>
    by_cases ht : t = root
    · rw [ht]
      exact h
    · obtain ⟨-, -, hall⟩ := ih
      exact hall t hstep ht

/-- What does not lead back to `root` does not contain itself. -/
theorem Fine.founded_of_not (h : Fine D root s) (hnot : ¬ Reaches (Uses D) s root) :
    Founded (Uses D) s := by
  induction h with
  | intro _ _ _ ih =>
    refine ⟨_, fun t ht => ih t ht ?_ fun hreach => hnot (.head ht hreach)⟩
    rintro rfl
    exact hnot (.single ht)

theorem good_of_fine (h : Fine D root root) (hnot : ¬ TransGen (Uses D) root root) :
    Good root D where
  found t ht := (h.of_reaches ht).isSome
  acyclic t ht hcycle := by
    by_cases hback : Reaches (Uses D) t root
    · exact hnot (TransGen.trans_right ht (hcycle.trans_left hback))
    · exact ((h.of_reaches ht).founded_of_not hback).acyclic hcycle

theorem Good.founded (h : Good root D) : Founded (Uses D) root := by
  refine acc_of_acyclic ((List.finite_toSet (D.structs.map Prod.fst)).subset fun t ht => ?_)
    h.acyclic
  obtain ⟨current, hcurrent⟩ := Option.isSome_iff_exists.1 (h.found t ht)
  exact mem_keys_of_lookup hcurrent

theorem Good.region (h : Good root D)
    (hsolves : ∀ t, Reaches (Uses D) root t → Solves D N t) :
    Region D N (Reaches (Uses D) root) where
  closed _ _ hs hst := hs.tail hst
  found := h.found
  founded _ hs := h.founded.of_reaches hs
  solves := hsolves

/-- **Good definitions are accepted and laid out.** -/
theorem complete_lays (hfresh : Fresh D) (hgood : Good root D)
    (hsolves : ∀ t, Reaches (Uses D) root t → Solves D N t)
    (h : complete root D = some (b, d)) :
    b = true ∧ ∀ t, Reaches (Uses D) root t → Laid D N d t := by
  obtain ⟨current, hcurrent⟩ := Option.isSome_iff_exists.1 (hgood.found root .refl)
  rw [complete_eq hcurrent] at h
  refine completeStruct_lays D N _ hfresh (hgood.region hsolves) (fun u hu => by cases hu)
    (fun w _ hsize => absurd (hfresh.unsized w) hsize) h

/-- **What is accepted exists, and contains itself through `root` at most.** -/
theorem complete_sound (hfresh : Fresh D) (h : complete root D = some (true, d)) :
    Fine D root root := by
  cases hroot : D.findStruct root with
  | none =>
    unfold complete at h
    rw [hroot] at h
    cases h
  | some current =>
    rw [complete_eq hroot] at h
    exact (completeStruct_sound D root _ hfresh (fun u hu => absurd (hfresh.unsized u) hu)
      (.inl rfl) (fun _ => .inl rfl) h).2.2 (hfresh.unsized root)

/-! ## Layouts as sums -/

theorem structOf_sized (D : DDLCompiled) (sub : DDLMember) (size offset : UInt64) :
    D.structOf { sub.sized size with offset } = D.structOf sub := by
  unfold DDLMember.sized
  split
  · rfl
  · rfl

theorem erase_sized (sub : DDLMember) (size offset : UInt64) :
    DDLMember.erase { sub.sized size with offset } = sub.erase := by
  unfold DDLMember.sized
  split
  · rename_i htype
    unfold DDLMember.erase
    dsimp only
    rw [if_pos htype, if_pos htype]
  · rfl

theorem map_erase_laid (D : DDLCompiled) (N : UInt64 → Nat) (off : Nat)
    (subs : List DDLMember) :
    (D.laid N off subs).map DDLMember.erase = subs.map DDLMember.erase := by
  induction subs generalizing off with
  | nil => rfl
  | cons sub subs ih =>
    unfold DDLCompiled.laid
    rw [List.map_cons, List.map_cons, erase_sized, ih]

theorem getElem?_laid {off j : Nat} {subs : List DDLMember} {m : DDLMember}
    (h : (D.laid N off subs)[j]? = some m) :
    ∃ sub, subs[j]? = some sub ∧
      m = { sub.sized (.ofNat (D.width N sub)) with
        offset := .ofNat (off + D.total N (subs.take j)) } := by
  induction subs generalizing off j with
  | nil => cases h
  | cons sub subs ih =>
    unfold DDLCompiled.laid at h
    cases j with
    | zero =>
      cases h
      exact ⟨sub, rfl, rfl⟩
    | succ j =>
      rw [List.getElem?_cons_succ] at h ⊢
      obtain ⟨sub', hsub', rfl⟩ := ih h
      refine ⟨sub', hsub', ?_⟩
      rw [List.take_succ_cons, total_cons, Nat.add_assoc]

theorem size_sized_width (D : DDLCompiled) (N : UInt64 → Nat) (sub : DDLMember) :
    (sub.sized (.ofNat (D.width N sub))).size = .ofNat (D.width N sub) := by
  unfold DDLMember.sized
  split
  · rfl
  · rename_i htype
    have hnone : D.structOf sub = none := if_neg fun hand => htype hand.1
    unfold DDLCompiled.width
    rw [hnone]
    unfold DDLMember.sized
    dsimp only
    rw [if_neg htype, UInt64.ofNat_toNat]

/-- A size is written over the one before. -/
theorem size_sized_again (sub : DDLMember) (size size' offset : UInt64) :
    ({ sub.sized size with offset }.sized size').size = (sub.sized size').size := by
  unfold DDLMember.sized
  dsimp only
  split
  · rfl
  · rfl

theorem typeName_sized (sub : DDLMember) (size : UInt64) :
    (sub.sized size).typeName = sub.typeName := by
  unfold DDLMember.sized
  split
  · rfl
  · rfl

/-- A member takes what its struct has. -/
theorem room_sized (hwidth : D.width N sub < 2 ^ 64) (offset : UInt64) :
    DDLMember.room { sub.sized (.ofNat (D.width N sub)) with offset } = D.bits N sub := by
  have hsize : (sub.sized (.ofNat (D.width N sub))).size.toNat = D.width N sub := by
    rw [size_sized_width]
    exact UInt64.toNat_ofNat_of_lt' hwidth
  have harray : (sub.sized (.ofNat (D.width N sub))).isArray = sub.isArray ∧
      (sub.sized (.ofNat (D.width N sub))).arraySize = sub.arraySize := by
    unfold DDLMember.sized
    split
    · exact ⟨rfl, rfl⟩
    · exact ⟨rfl, rfl⟩
  unfold DDLMember.room DDLCompiled.bits
  dsimp only
  rw [harray.1, harray.2, hsize]

theorem sum_room_laid {off : Nat} {subs : List DDLMember}
    (hwidth : ∀ sub ∈ subs, D.width N sub < 2 ^ 64) :
    ((D.laid N off subs).map DDLMember.room).sum = D.total N subs := by
  induction subs generalizing off with
  | nil => rfl
  | cons sub subs ih =>
    unfold DDLCompiled.laid
    rw [List.map_cons, List.sum_cons, total_cons, room_sized (hwidth sub List.mem_cons_self),
      ih fun sub' hsub' => hwidth sub' (List.mem_cons_of_mem sub hsub')]

theorem take_laid (off j : Nat) (subs : List DDLMember) :
    (D.laid N off subs).take j = D.laid N off (subs.take j) := by
  induction subs generalizing off j with
  | nil => cases j with | zero => rfl | succ j => rfl
  | cons sub subs ih =>
    cases j with
    | zero => rfl
    | succ j =>
      rw [List.take_succ_cons]
      unfold DDLCompiled.laid
      rw [List.take_succ_cons, ih]

theorem total_take_le (D : DDLCompiled) (N : UInt64 → Nat) (j : Nat) (subs : List DDLMember) :
    D.total N (subs.take j) ≤ D.total N subs := by
  have hsplit := congrArg (D.total N) (List.take_append_drop j subs)
  unfold DDLCompiled.total at hsplit ⊢
  rw [List.map_append, List.sum_append] at hsplit
  omega

theorem width_lt {current : DDLStruct} (hcurrent : D.findStruct t = some current)
    (hfits : ∀ u, Uses D t u → N u < 2 ^ 64) (hsub : sub ∈ current.values) :
    D.width N sub < 2 ^ 64 := by
  unfold DDLCompiled.width
  split
  · rename_i u hu
    exact hfits u ⟨current, hcurrent, sub, hsub, hu⟩
  · exact UInt64.toNat_lt _

/-- **What is laid out has its members one behind the other**, where sizes fit in 64 bits. -/
theorem laidOut_of_laid (hfresh : Fresh D)
    (hlaid : ∀ u, Reaches (Uses D) t u → Laid D N d u)
    (hfits : ∀ u, Reaches (Uses D) t u → Solves D N u ∧ N u < 2 ^ 64) : LaidOut D d t := by
  obtain ⟨current, hcurrent, hfound⟩ := hlaid t .refl
  obtain ⟨hsolves, hlt⟩ := hfits t .refl
  have htotal := hsolves current hcurrent
  rw [htotal] at hlt
  have hwidth : ∀ sub ∈ current.values, D.width N sub < 2 ^ 64 :=
    fun sub hsub => width_lt hcurrent (fun u hu => (hfits u (.single hu)).2) hsub
  refine ⟨_, ?_, hfound, ?_, fun j m hm => ?_⟩
  · rw [hcurrent, ← Same.erased hfresh hcurrent]
    unfold DDLStruct.erase
    dsimp only
    rw [map_erase_laid, List.map_map]
    refine congrArg some (congrArg (DDLStruct.mk 0) (List.map_congr_left fun sub _ => ?_))
    unfold DDLMember.erase
    dsimp only [Function.comp]
    split
    · rfl
    · rfl
  · rw [sum_room_laid hwidth]
    exact UInt64.toNat_ofNat_of_lt' hlt
  · obtain ⟨sub, hsub, rfl⟩ := getElem?_laid hm
    have hmem := List.mem_of_getElem? hsub
    constructor
    · have hle := total_take_le D N j current.values
      rw [take_laid, sum_room_laid fun sub' hsub' => hwidth sub' (List.mem_of_mem_take hsub'),
        Nat.zero_add]
      exact UInt64.toNat_ofNat_of_lt' (Nat.lt_of_le_of_lt hle hlt)
    · rw [structOf_sized]
      rw [size_sized_again]
      dsimp only
      rw [size_sized_width, typeName_sized]
      unfold DDLCompiled.width
      cases hstruct : D.structOf sub with
      | some u =>
        have hu : Reaches (Uses D) t u := .single ⟨current, hcurrent, sub, hmem, hstruct⟩
        exact ((hlaid u hu).structSize (hfits u hu).1).symm
      | none => exact UInt64.ofNat_toNat

/-- Sizes of structs that are laid out fit in 64 bits. -/
theorem fits_of_laidOut (hlaid : ∀ t, Reaches (Uses D) root t → LaidOut D d t) :
    Fits root D := by
  refine ⟨fun t => (d.structSize t).toNat, fun t ht => ⟨fun current' hcurrent' => ?_,
    UInt64.toNat_lt _⟩⟩
  obtain ⟨current, hcurrent, hfound, hsize, hmembers⟩ := hlaid t ht
  rw [hcurrent] at hcurrent'
  cases hcurrent'
  unfold DDLStruct.erase
  dsimp only
  rw [structSize_of_found hfound, hsize, total_erase]
  refine congrArg List.sum (List.map_congr_left fun sub hsub => ?_)
  obtain ⟨j, hj⟩ := List.mem_iff_getElem?.1 hsub
  obtain ⟨-, heq⟩ := hmembers j sub hj
  have hwidth : D.width (fun t => (d.structSize t).toNat) sub = sub.size.toNat := by
    unfold DDLCompiled.width
    rw [heq]
    cases D.structOf sub with
    | some u => rfl
    | none => rfl
  unfold DDLMember.room DDLCompiled.bits
  rw [hwidth]

/-! ## `root` inside of itself -/

theorem Behind.drop {name : UInt64} {j : Nat} {pre rest : List DDLMember}
    (h : Behind D name j (pre ++ rest)) : Behind D name (j + pre.length) rest := by
  induction pre generalizing j with
  | nil => exact h
  | cons sub pre ih =>
    have hnext := ih h.next
    rwa [Nat.add_assoc, Nat.add_comm 1] at hnext

theorem structSize_setOffset (d : DDLCompiled) (name : UInt64) (j : Nat) (u : UInt64) :
    (d.update name (·.setOffset j)).structSize u = d.structSize u := by
  unfold DDLCompiled.structSize
  rw [findStruct_update]
  split
  · rw [Option.map_map]
    rfl
  · rfl

/-- The walk up to the first member that leads back to `root`. -/
theorem complete_prefix (hfresh : Fresh D) (hfine : Fine D root root) {rest : List DDLMember}
    (hmembers : D.findStruct root = some ⟨0, pre ++ rest⟩)
    (hfirst : ∀ m ∈ pre, ∀ t, D.structOf m = some t → ¬ Reaches (Uses D) t root)
    (hsolves : ∀ t, Reaches (Uses D) root t → ¬ Reaches (Uses D) t root → Solves D N t)
    {r : Bool × DDLCompiled} (h : complete root D = some r) :
    ∃ d₁, completeMembers (completeStruct D.structs.length) root [] rest pre.length d₁ = some r ∧
      Same d₁ D ∧ Behind D root pre.length rest ∧
      d₁.structSize root = .ofNat (D.total N pre) ∧
      ∀ u, Reaches (Uses D) u root → u ≠ root → d₁.structSize u = 0 := by
  have hbehind := hfresh.behind hmembers
  rw [complete_eq hmembers] at h
  unfold completeStruct at h
  rw [hmembers] at h
  have hregion : Region D N fun u =>
      Reaches (Uses D) root u ∧ ¬ Reaches (Uses D) u root :=
    { closed := fun s t hs hst => ⟨hs.1.tail hst, fun hback => hs.2 (.head hst hback)⟩
      found := fun s hs => (hfine.of_reaches hs.1).isSome
      founded := fun s hs => (hfine.of_reaches hs.1).founded_of_not hs.2
      solves := fun s hs => hsolves s hs.1 hs.2 }
  have hframe : ∀ u, u ≠ root →
      (D.update root fun current => { current with size := 0 }).findStruct u = D.findStruct u :=
    fun u hu => findStruct_update_ne hu _
  obtain ⟨d₁, hrest, hsame, hrecord, hkept, -, -⟩ :=
    completeMembers_lays pre rest [] 0 (completeStruct_keeps D _)
      (completeStruct_lays D N _) hregion (fun hroot => hroot.2 .refl) (fun u hu => by cases hu)
      (fun m hm t ht => ⟨.single ⟨_, hmembers, m, List.mem_append_left _ hm, ht⟩,
        hfirst m hm t ht⟩) (hfresh.reset root) hbehind
      (fun w hw hsize => absurd (hfresh.unsized w) (by
        rwa [structSize_update_ne (by rintro rfl; exact hw.2 .refl)] at hsize))
      (findStruct_update_self hmembers _) h
  refine ⟨d₁, ?_, hsame, ?_, ?_, fun u hback hu => ?_⟩
  · rw [← hrest, List.length_nil, Nat.zero_add]
  · have hdrop := hbehind.drop
    rwa [Nat.zero_add] at hdrop
  · rw [structSize_of_found hrecord, Nat.zero_add]
  · rw [structSize_of_findStruct ((hkept u (fun hnot => hnot.2 hback) hu).trans (hframe u hu))]
    exact hfresh.unsized u

/-- **`root` inside of itself is refused, where the members before it take no bits.** -/
theorem complete_rejects (hfresh : Fresh D) (hfine : Fine D root root)
    (hmembers : D.findStruct root = some ⟨0, pre ++ sub :: post⟩)
    (hfirst : ∀ m ∈ pre, ∀ t, D.structOf m = some t → ¬ Reaches (Uses D) t root)
    (hback : ∃ t, D.structOf sub = some t ∧ Reaches (Uses D) t root)
    (hsolves : ∀ t, Reaches (Uses D) root t → ¬ Reaches (Uses D) t root → Solves D N t)
    (hzero : D.total N pre % 2 ^ 64 = 0) : complete root D ≠ some (true, d) := by
  intro h
  obtain ⟨d₁, hrest, hsame, hbehind, hsize, hunsized⟩ :=
    complete_prefix hfresh hfine hmembers hfirst hsolves h
  obtain ⟨t, hsome, hreach⟩ := hback
  have hcycle : TransGen (Uses D) root root := .head' (hbehind.uses hsome) hreach
  have hoffset : Same (d₁.update root (·.setOffset pre.length)) D :=
    hsame.update fun current _ => erase_setOffset pre.length current
  have hsize' : (d₁.update root (·.setOffset pre.length)).structSize root = 0 := by
    rw [structSize_setOffset, hsize, ← UInt64.toNat_inj]
    exact UInt64.toNat_ofNat'.trans hzero
  have hunsized' : Unsized D root [] (d₁.update root (·.setOffset pre.length)) := by
    intro u hu _
    by_cases hne : u = root
    · rw [hne, hsize']
    · rw [structSize_update_ne hne]
      exact hunsized u hu hne
  cases turn_of_eq hrest with
  | sized hnone hrest =>
    rw [hsame.structOf, hsome] at hnone
    cases hnone
  | refused t hsome' hwhy hr => cases hr
  | rejected t hsome' hfound hnew d' hcall hr => cases hr
  | entered t' hsome' hfound hnew d' hcall hrest =>
    rw [hsame.structOf, hsome] at hsome'
    cases hsome'
    exact completeStruct_rejects hcycle _ hoffset hreach (List.mem_singleton_self t)
      (hunsized'.push t) (hunsized' t hreach List.not_mem_nil) hcall

/-- **`root` inside of itself is accepted, where the members before it take bits**: then its size
is taken for one that is done. -/
theorem Misled.accepted (h : Misled root D pre sub post) (hfresh : Fresh D)
    (hlast : ∀ m ∈ post, ∀ t, D.structOf m = some t → ¬ Reaches (Uses D) t root)
    (hcomplete : complete root D = some (b, d)) : b = true := by
  obtain ⟨N, hsolves, hne⟩ := h.sized
  obtain ⟨d₁, hrest, hsame, hbehind, hsize, -⟩ :=
    complete_prefix hfresh h.fine h.members h.first hsolves hcomplete
  have hoffset : Same (d₁.update root (·.setOffset pre.length)) D :=
    hsame.update fun current _ => erase_setOffset pre.length current
  have hsize' : (d₁.update root (·.setOffset pre.length)).structSize root ≠ 0 := by
    rw [structSize_setOffset, hsize, Ne, ← UInt64.toNat_inj]
    exact fun hzero => hne (UInt64.toNat_ofNat'.symm.trans hzero)
  have hahead : Ahead D root [] root :=
    ⟨h.fine, List.not_mem_nil, fun u hu => by cases hu⟩
  obtain ⟨t, hsome, hreach⟩ := h.back
  have huses := hbehind.uses hsome
  have hcalled : ∀ {b d'}, completeStruct D.structs.length t ([] ++ [t])
      (d₁.update root (·.setOffset pre.length)) = some (b, d') → b = true := fun hcall =>
    (completeStruct_passes D root _ hoffset (hahead.push huses) (.inl hsize') hcall).1
  cases turn_of_eq hrest with
  | sized hnone hrest =>
    rw [hsame.structOf, hsome] at hnone
    cases hnone
  | refused t' hsome' hwhy hr =>
    rw [hsame.structOf, hsome] at hsome'
    cases hsome'
    rcases hwhy with hnone | hmem
    · have hfound := (h.fine.of_reaches (.single huses)).isSome
      rw [← hsame.isSome, hnone] at hfound
      cases hfound
    · cases hmem
  | rejected t' hsome' hfound hnew d' hcall hr =>
    rw [hsame.structOf, hsome] at hsome'
    cases hsome'
    cases hcalled hcall
  | entered t' hsome' hfound hnew d' hcall hrest =>
    rw [hsame.structOf, hsome] at hsome'
    cases hsome'
    exact (completeMembers_passes (completeStruct_keeps D _) (completeStruct_passes D root _)
      ((completeStruct_keeps D _ hoffset hcall).1.finish hbehind _) hbehind.next hahead
      (fun m hm u hu => .inr (hlast m hm u hu)) hrest).1

/-- What is accepted and not good has misled the walk. -/
theorem misled_of_accepted (hfresh : Fresh D) (h : complete root D = some (true, d))
    (hnot : ¬ Good root D) : ∃ pre sub post, Misled root D pre sub post := by
  classical
  have hfine := complete_sound hfresh h
  have hcycle : TransGen (Uses D) root root := by
    by_contra hacyclic
    exact hnot (good_of_fine hfine hacyclic)
  obtain ⟨current, hcurrent⟩ := Option.isSome_iff_exists.1 hfine.isSome
  obtain ⟨t, huses, hreach⟩ := TransGen.head'_iff.1 hcycle
  obtain ⟨sub, hsub, hsome⟩ := hfresh.exists_member hcurrent huses
  have hfind : (current.values.find? fun m =>
      decide (∃ t, D.structOf m = some t ∧ Reaches (Uses D) t root)).isSome := by
    rw [List.find?_isSome]
    exact ⟨sub, hsub, decide_eq_true ⟨t, hsome, hreach⟩⟩
  obtain ⟨sub', hfind'⟩ := Option.isSome_iff_exists.1 hfind
  obtain ⟨hback, pre, post, hvalues, hfirst⟩ := List.find?_eq_some_iff_append.1 hfind'
  have hback' := of_decide_eq_true hback
  have hfirst' : ∀ m ∈ pre, ∀ t, D.structOf m = some t → ¬ Reaches (Uses D) t root := by
    intro m hm t ht hreach
    have hnone := hfirst m hm
    rw [decide_eq_true ⟨t, ht, hreach⟩] at hnone
    cases hnone
  have hmembers : D.findStruct root = some ⟨0, pre ++ sub' :: post⟩ := by
    rw [hcurrent, ← hvalues]
    have hsize := hfresh.unsized root
    rw [structSize_of_found hcurrent] at hsize
    rw [← hsize]
  obtain ⟨N, hN⟩ := exists_solves D
  have hsolves : ∀ t, Reaches (Uses D) root t → ¬ Reaches (Uses D) t root → Solves D N t :=
    fun t ht hback => hN t ((hfine.of_reaches ht).founded_of_not hback)
  refine ⟨pre, sub', post, hfine, hmembers, hfirst', hback', N, hsolves, fun hzero => ?_⟩
  exact complete_rejects hfresh hfine hmembers hfirst' hback' hsolves hzero h

/-- **When `CompleteStruct` does what it is for**: it does, where the sizes of good definitions fit
in 64 bits, and `root` is not inside of itself behind members that take bits.  Where it does, the
sizes fit, and `root` is not inside of itself in one member behind such. -/
theorem complete_right (hfresh : Fresh D) (root : UInt64) :
    ((Good root D → Fits root D) → (∀ pre sub post, ¬ Misled root D pre sub post) →
      Right root D) ∧
    (Right root D → (Good root D → Fits root D) ∧
      ∀ pre sub post, (∀ m ∈ post, ∀ t, D.structOf m = some t → ¬ Reaches (Uses D) t root) →
        ¬ Misled root D pre sub post) := by
  constructor
  · intro hfits hmisled
    obtain ⟨⟨b, d⟩, h⟩ := Option.ne_none_iff_exists'.1 (complete_ends hfresh root)
    refine ⟨b, d, h, ⟨fun hb => ?_, fun hgood => ?_⟩, fun hb t ht => ?_⟩
    · subst hb
      by_contra hnot
      obtain ⟨pre, sub, post, hmis⟩ := misled_of_accepted hfresh h hnot
      exact hmisled pre sub post hmis
    · obtain ⟨N, hN⟩ := hfits hgood
      exact (complete_lays hfresh hgood (fun t ht => (hN t ht).1) h).1
    · subst hb
      have hgood : Good root D := by
        by_contra hnot
        obtain ⟨pre, sub, post, hmis⟩ := misled_of_accepted hfresh h hnot
        exact hmisled pre sub post hmis
      obtain ⟨N, hN⟩ := hfits hgood
      obtain ⟨-, hlaid⟩ := complete_lays hfresh hgood (fun t ht => (hN t ht).1) h
      exact laidOut_of_laid hfresh (fun u hu => hlaid u (ht.trans hu))
        fun u hu => hN u (ht.trans hu)
  · rintro ⟨b, d, h, hiff, hlaid⟩
    refine ⟨fun hgood => fits_of_laidOut (hlaid (hiff.2 hgood)), fun pre sub post hlast hmis => ?_⟩
    have hgood := hiff.1 (hmis.accepted hfresh hlast h)
    obtain ⟨t, hsome, hreach⟩ := hmis.back
    have huses : Uses D root t :=
      ⟨_, hmis.members, sub, List.mem_append_right _ List.mem_cons_self, hsome⟩
    exact hgood.acyclic root .refl (.head' huses hreach)

theorem fresh_of_erase (h : ∀ p ∈ D.structs, p.2.erase = p.2) : Fresh D where
  enums := rfl
  keys := rfl
  found t := by
    unfold DDLCompiled.findStruct
    cases hfound : D.structs.lookup t with
    | none => rfl
    | some current => exact congrArg some (h (t, current) (mem_of_lookup hfound))

theorem mem_of_uses (h : Uses D s t) :
    ∃ p ∈ D.structs, p.1 = s ∧ t ∈ p.2.values.filterMap D.structOf := by
  obtain ⟨current, hcurrent, sub, hsub, hsome⟩ := h
  exact ⟨(s, current), mem_of_lookup hcurrent, rfl, List.mem_filterMap.2 ⟨sub, hsub, hsome⟩⟩

end Right

/-- `root` of a byte, and of three structs of a byte and two bits. -/
def nested : DDLCompiled where
  enums := []
  structs :=
    [(1, ⟨0, [⟨10, .byte, 0, 8, false, 0⟩, ⟨2, .class, 0, 0, true, 3⟩]⟩),
      (2, ⟨0, [⟨10, .byte, 0, 8, false, 0⟩, ⟨11, .pad, 0, 1, true, 2⟩]⟩)]

theorem nested_uses {s t : UInt64} (h : Uses nested s t) : s = 1 ∧ t = 2 := by
  obtain ⟨p, hp, rfl, ht⟩ := mem_of_uses h
  have hall : nested.structs.map (fun p => (p.1, p.2.values.filterMap nested.structOf)) =
      [(1, [2]), (2, [])] := by decide
  have hmem : (p.1, p.2.values.filterMap nested.structOf) ∈ [((1 : UInt64), [(2 : UInt64)]),
      (2, [])] := by
    rw [← hall]
    exact List.mem_map_of_mem hp
  rcases List.mem_cons.1 hmem with heq | hmem
  · rw [Prod.mk.injEq] at heq
    rw [heq.2] at ht
    exact ⟨heq.1, List.mem_singleton.1 ht⟩
  · rw [List.mem_singleton, Prod.mk.injEq] at hmem
    rw [hmem.2] at ht
    cases ht

theorem nested_right : Right 1 nested := by
  have hback : ¬ Reaches (Uses nested) 2 1 := by
    intro h
    rcases ReflTransGen.cases_head h with heq | ⟨t, huses, -⟩
    · exact absurd heq (by decide)
    · exact absurd (nested_uses huses).1 (by decide)
  refine (complete_right (fresh_of_erase (by decide)) 1).1 (fun _ => ?_)
    fun pre sub post hmisled => ?_
  · refine ⟨fun t => if t = 2 then 10 else 38, fun t ht => ?_⟩
    have hcases : t = 1 ∨ t = 2 := by
      rcases ReflTransGen.cases_tail ht with heq | ⟨s, -, huses⟩
      · exact .inl heq
      · exact .inr (nested_uses huses).2
    rcases hcases with rfl | rfl
    · refine ⟨fun current h => ?_, by decide⟩
      cases h
      decide
    · refine ⟨fun current h => ?_, by decide⟩
      cases h
      decide
  · obtain ⟨t, hsome, hreach⟩ := hmisled.back
    have huses : Uses nested 1 t :=
      ⟨_, hmisled.members, sub, List.mem_append_right _ List.mem_cons_self, hsome⟩
    rw [(nested_uses huses).2] at hreach
    exact hback hreach

/-- `root` of a byte and of `root`. -/
def endless : DDLCompiled where
  enums := []
  structs := [(1, ⟨0, [⟨10, .byte, 0, 8, false, 0⟩, ⟨1, .class, 0, 0, false, 0⟩]⟩)]

/-- `root` inside of itself is accepted. -/
theorem endless_accepted :
    Fresh endless ∧ (complete 1 endless).map Prod.fst = some true ∧ ¬ Good 1 endless := by
  refine ⟨fresh_of_erase (by decide), by decide +kernel, fun hgood => ?_⟩
  refine hgood.acyclic 1 .refl (.single ⟨_, rfl, ⟨1, .class, 0, 0, false, 0⟩, ?_, rfl⟩)
  exact List.mem_cons_of_mem _ List.mem_cons_self

end Acts.Ddl
