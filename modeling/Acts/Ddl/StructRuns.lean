import Acts.Ddl.StructLayout

/-!
# What `CompleteStruct` accepts

A struct is taken as computed when its size is not zero, which is also the case for `root` while
its members are computed; and `root` is not among the names that a walk is inside of.

* `Fine` — the structs exist, and no struct contains itself but through `root`.
* `completeStruct_sound` — **only those are accepted.**
* `completeStruct_rejects` — `root` inside of itself is found where its size is still zero.
* `completeStruct_passes` — and is not found where its size is not zero any more.
-/

set_option autoImplicit false

namespace Acts.Ddl

open Acyclic Relation

/-! ## What is accepted exists -/

/-- All that `s` uses exists, and nothing of it uses itself, but through `root`. -/
inductive Fine (D : DDLCompiled) (root : UInt64) : UInt64 → Prop where
  | intro {s : UInt64} (hfound : (D.findStruct s).isSome)
    (hused : ∀ t, Uses D s t → (D.findStruct t).isSome)
    (hfine : ∀ t, Uses D s t → t ≠ root → Fine D root t) : Fine D root s

section Sound

variable {D d d' : DDLCompiled} {root name t : UInt64} {call : Complete} {types : List UInt64}
  {sub : DDLMember} {subs : List DDLMember} {j : Nat} {b : Bool}

theorem structSize_update_ne {f : DDLStruct → DDLStruct} {u : UInt64} (h : u ≠ name) :
    (d.update name f).structSize u = d.structSize u := by
  unfold DDLCompiled.structSize
  rw [findStruct_update_ne h]

/-- A size that is not zero is that of a struct that is done, or that the walk is inside of. -/
def Known (D : DDLCompiled) (root : UInt64) (types : List UInt64) (d : DDLCompiled) : Prop :=
  ∀ u, d.structSize u ≠ 0 → u = root ∨ u ∈ types ∨ Fine D root u

theorem Known.update (h : Known D root types d) (hname : name = root ∨ name ∈ types)
    (f : DDLStruct → DDLStruct) : Known D root types (d.update name f) := by
  intro u hu
  by_cases hne : u = name
  · subst hne
    rcases hname with hroot | hmem
    · exact .inl hroot
    · exact .inr (.inl hmem)
  · rw [structSize_update_ne hne] at hu
    exact h u hu

/-- What a call that accepts has found. -/
def Sound (D : DDLCompiled) (root : UInt64) (call : Complete) : Prop :=
  ∀ {t types d d'}, Same d D → Known D root types d → (t = root ∨ t ∈ types) →
    (d.structSize t ≠ 0 → t = root ∨ Fine D root t) → call t types d = some (true, d') →
    Known D root types d' ∧ (t = root ∨ Fine D root t) ∧ (d.structSize t = 0 → Fine D root t)

theorem completeMembers_sound (hkeeps : Keeps D call) (hsound : Sound D root call)
    (hd : Same d D) (hbehind : Behind D name j subs) (hknown : Known D root types d)
    (hname : name = root ∨ name ∈ types)
    (h : completeMembers call name types subs j d = some (true, d')) :
    Known D root types d' ∧ ∀ sub ∈ subs, ∀ t, D.structOf sub = some t →
      (D.findStruct t).isSome ∧ (t ≠ root → Fine D root t) := by
  induction subs generalizing j d with
  | nil =>
    cases h
    exact ⟨hknown, fun sub hsub => by cases hsub⟩
  | cons sub subs ih =>
    have hoffset : Same (d.update name (·.setOffset j)) D :=
      hd.update fun current _ => erase_setOffset j current
    have hknown₀ := hknown.update hname (·.setOffset j)
    cases turn_of_eq h with
    | sized hnone hrest =>
      rw [hd.structOf] at hnone
      obtain ⟨hknown', hall⟩ := ih (hoffset.finish hbehind _) hbehind.next
        (hknown₀.update hname _) hrest
      refine ⟨hknown', fun sub' hsub' t ht => ?_⟩
      rcases List.mem_cons.1 hsub' with rfl | hsub'
      · rw [hnone] at ht
        cases ht
      · exact hall sub' hsub' t ht
    | refused t hsome hwhy hr => cases hr
    | rejected t hsome hfound hnew d'' hcall hr => cases hr
    | entered t hsome hfound hnew d'' hcall hrest =>
      rw [hd.structOf] at hsome
      rw [hd.isSome] at hfound
      have hpushed : Known D root (types ++ [t]) (d.update name (·.setOffset j)) := fun u hu => by
        rcases hknown₀ u hu with hroot | hmem | hfine
        · exact .inl hroot
        · exact .inr (.inl (List.mem_append_left _ hmem))
        · exact .inr (.inr hfine)
      obtain ⟨hcalled, hfine, -⟩ := hsound hoffset hpushed
        (.inr (List.mem_append_right _ (List.mem_singleton_self t))) (fun hsize => by
          rcases hknown₀ t hsize with hroot | hmem | hfine
          · exact .inl hroot
          · exact absurd hmem hnew
          · exact .inr hfine) hcall
      have hpopped : Known D root types d'' := fun u hu => by
        rcases hcalled u hu with hroot | hmem | hfine'
        · exact .inl hroot
        · rcases List.mem_append.1 hmem with hmem | hmem
          · exact .inr (.inl hmem)
          · rw [List.mem_singleton.1 hmem]
            rcases hfine with hroot | hfine
            · exact .inl hroot
            · exact .inr (.inr hfine)
        · exact .inr (.inr hfine')
      obtain ⟨hknown', hall⟩ := ih ((hkeeps hoffset hcall).1.finish hbehind _) hbehind.next
        (hpopped.update hname _) hrest
      refine ⟨hknown', fun sub' hsub' u hu => ?_⟩
      rcases List.mem_cons.1 hsub' with rfl | hsub'
      · rw [hsome] at hu
        cases hu
        refine ⟨hfound, fun hne => ?_⟩
        rcases hfine with hroot | hfine
        · exact absurd hroot hne
        · exact hfine
      · exact hall sub' hsub' u hu

/-- The members of a struct are those that it uses. -/
theorem Same.exists_member {current : DDLStruct} (hd : Same d D)
    (hfound : d.findStruct name = some current) (huses : Uses D name t) :
    ∃ sub ∈ current.values, D.structOf sub = some t := by
  obtain ⟨current', hcurrent', sub, hsub, hsome⟩ := huses
  rw [hd.of_found hfound] at hcurrent'
  cases hcurrent'
  obtain ⟨sub', hsub', rfl⟩ := List.mem_map.1 hsub
  exact ⟨sub', hsub', hsome⟩

/-- **What is accepted exists, and does not contain itself but through `root`.** -/
theorem completeStruct_sound (D : DDLCompiled) (root : UInt64) (fuel : Nat) :
    Sound D root (completeStruct fuel) := by
  induction fuel with
  | zero =>
    intro t types d d' _ _ _ _ h
    cases h
  | succ fuel ih =>
    intro t types d d' hd hknown ht hsize h
    unfold completeStruct at h
    split at h
    · cases h
    · rename_i current hcurrent
      rw [structSize_of_found hcurrent] at hsize ⊢
      split at h
      · rename_i hne
        cases h
        exact ⟨hknown, hsize hne, fun hzero => absurd hzero hne⟩
      · obtain ⟨hknown', hall⟩ := completeMembers_sound (completeStruct_keeps D fuel) ih
          (hd.reset t) (hd.behind hcurrent) (hknown.update ht _) ht h
        have hfine : Fine D root t := by
          refine .intro (by rw [hd.of_found hcurrent]; rfl) (fun u hu => ?_) fun u hu => ?_
          · obtain ⟨sub, hsub, hsome⟩ := hd.exists_member hcurrent hu
            exact (hall sub hsub u hsome).1
          · obtain ⟨sub, hsub, hsome⟩ := hd.exists_member hcurrent hu
            exact (hall sub hsub u hsome).2
        exact ⟨hknown', .inr hfine, fun _ => hfine⟩

end Sound

/-! ## `root` inside of itself -/

section Back

variable {D d d' : DDLCompiled} {root name s t : UInt64} {call : Complete} {types : List UInt64}
  {subs : List DDLMember} {j : Nat} {b : Bool}

/-- Nothing that leads back to `root` has a size, but what the walk is inside of. -/
def Unsized (D : DDLCompiled) (root : UInt64) (types : List UInt64) (d : DDLCompiled) : Prop :=
  ∀ u, Reaches (Uses D) u root → u ∉ types → d.structSize u = 0

theorem Unsized.push (h : Unsized D root types d) (t : UInt64) :
    Unsized D root (types ++ [t]) d :=
  fun u hu hnew => h u hu fun hmem => hnew (List.mem_append_left _ hmem)

theorem Unsized.update (h : Unsized D root types d) (hname : name ∈ types)
    (f : DDLStruct → DDLStruct) : Unsized D root types (d.update name f) := by
  intro u hu hnew
  have hne : u ≠ name := by
    rintro rfl
    exact hnew hname
  rw [structSize_update_ne hne]
  exact h u hu hnew

/-- A member that does not lead back leaves what does. -/
theorem Unsized.of_call (h : Unsized D root types d) (ht : ¬ Reaches (Uses D) t root)
    (hkept : ∀ u, ¬ Reaches (Uses D) t u → d'.findStruct u = d.findStruct u) :
    Unsized D root types d' := by
  intro u hu hnew
  rw [structSize_of_findStruct (hkept u fun htu => ht (htu.trans hu))]
  exact h u hu hnew

/-- What a call does to a struct that leads back. -/
def Rejects (D : DDLCompiled) (root : UInt64) (call : Complete) : Prop :=
  ∀ {t types d d'}, Same d D → Reaches (Uses D) t root → t ∈ types →
    Unsized D root types d → d.structSize t = 0 → call t types d ≠ some (true, d')

theorem completeMembers_rejects (hkeeps : Keeps D call) (hrejects : Rejects D root call)
    (hd : Same d D) (hbehind : Behind D name j subs) (hunsized : Unsized D root types d)
    (hname : name ∈ types)
    (hback : ∃ sub ∈ subs, ∃ t, D.structOf sub = some t ∧ Reaches (Uses D) t root) :
    completeMembers call name types subs j d ≠ some (true, d') := by
  induction subs generalizing j d with
  | nil =>
    obtain ⟨sub, hsub, -⟩ := hback
    cases hsub
  | cons sub subs ih =>
    intro h
    have hoffset : Same (d.update name (·.setOffset j)) D :=
      hd.update fun current _ => erase_setOffset j current
    have hunsized₀ := hunsized.update hname (·.setOffset j)
    have hlater : (∀ t, D.structOf sub = some t → ¬ Reaches (Uses D) t root) →
        ∃ sub ∈ subs, ∃ t, D.structOf sub = some t ∧ Reaches (Uses D) t root := by
      intro hnot
      obtain ⟨sub', hsub', t, ht, hreach⟩ := hback
      rcases List.mem_cons.1 hsub' with rfl | hsub'
      · exact absurd hreach (hnot t ht)
      · exact ⟨sub', hsub', t, ht, hreach⟩
    cases turn_of_eq h with
    | sized hnone hrest =>
      rw [hd.structOf] at hnone
      refine ih (hoffset.finish hbehind _) hbehind.next (hunsized₀.update hname _)
        (hlater fun t ht => ?_) hrest
      rw [hnone] at ht
      cases ht
    | refused t hsome hwhy hr => cases hr
    | rejected t hsome hfound hnew d'' hcall hr => cases hr
    | entered t hsome hfound hnew d'' hcall hrest =>
      rw [hd.structOf] at hsome
      by_cases hreach : Reaches (Uses D) t root
      · exact hrejects hoffset hreach (List.mem_append_right _ (List.mem_singleton_self t))
          (hunsized₀.push t) (hunsized₀ t hreach hnew) hcall
      · obtain ⟨hsame, hkept⟩ := hkeeps hoffset hcall
        refine ih (hsame.finish hbehind _) hbehind.next
          ((hunsized₀.of_call hreach hkept).update hname _) (hlater fun t' ht' => ?_) hrest
        rw [hsome] at ht'
        cases ht'
        exact hreach

/-- **What leads back to `root` is refused, as long as `root` has no size.** -/
theorem completeStruct_rejects (hcycle : TransGen (Uses D) root root) (fuel : Nat) :
    Rejects D root (completeStruct fuel) := by
  induction fuel with
  | zero =>
    intro t types d d' _ _ _ _ _ h
    cases h
  | succ fuel ih =>
    intro t types d d' hd hreach hmem hunsized hsize h
    unfold completeStruct at h
    split at h
    · cases h
    · rename_i current hcurrent
      rw [structSize_of_found hcurrent] at hsize
      rw [if_neg (not_not.2 hsize)] at h
      refine completeMembers_rejects (completeStruct_keeps D fuel) ih (hd.reset t)
        (hd.behind hcurrent) (hunsized.update hmem _) hmem ?_ h
      obtain ⟨u, hu, hback⟩ : ∃ u, Uses D t u ∧ Reaches (Uses D) u root := by
        rcases ReflTransGen.cases_head hreach with rfl | hstep
        · exact TransGen.head'_iff.1 hcycle
        · exact hstep
      obtain ⟨sub, hsub, hsome⟩ := hd.exists_member hcurrent hu
      exact ⟨sub, hsub, u, hsome, hback⟩

/-! ## `root` with a size -/

/-- The struct `s` has a member of the struct `t`, which is not `root`. -/
def Off (D : DDLCompiled) (root s t : UInt64) : Prop := Uses D s t ∧ t ≠ root

theorem Fine.founded (h : Fine D root s) : Founded (Off D root) s := by
  induction h with
  | intro _ _ _ ih => exact ⟨_, fun t ht => ih t ht.1 ht.2⟩

/-- The walk is inside of nothing that it still meets behind `t`. -/
structure Ahead (D : DDLCompiled) (root : UInt64) (types : List UInt64) (t : UInt64) : Prop where
  fine : Fine D root t
  away : root ∉ types
  behind : ∀ u ∈ types, ¬ TransGen (Off D root) t u

theorem Ahead.push (h : Ahead D root types s) (hst : Uses D s t) (hne : t ≠ root) :
    Ahead D root (types ++ [t]) t := by
  obtain ⟨-, -, hall⟩ := h.fine
  refine ⟨hall t hst hne, fun hmem => ?_, fun u hu htrans => ?_⟩
  · rcases List.mem_append.1 hmem with hmem | hmem
    · exact h.away hmem
    · exact hne (List.mem_singleton.1 hmem).symm
  · rcases List.mem_append.1 hu with hu | hu
    · exact h.behind u hu (.head ⟨hst, hne⟩ htrans)
    · rw [List.mem_singleton.1 hu] at htrans
      exact (hall t hst hne).founded.acyclic htrans

theorem Ahead.not_mem (h : Ahead D root types s) (hst : Uses D s t) : t ∉ types := by
  intro hmem
  by_cases hroot : t = root
  · exact h.away (hroot ▸ hmem)
  · exact h.behind t hmem (.single ⟨hst, hroot⟩)

/-- What a call does to a struct, where `root` has a size. -/
def Passes (D : DDLCompiled) (root : UInt64) (call : Complete) : Prop :=
  ∀ {t types d b d'}, Same d D → (t ≠ root → Ahead D root types t) →
    (d.structSize root ≠ 0 ∨ ¬ Reaches (Uses D) t root) →
    call t types d = some (b, d') → b = true ∧ d'.findStruct root = d.findStruct root

theorem completeMembers_passes (hkeeps : Keeps D call) (hpasses : Passes D root call)
    (hd : Same d D) (hbehind : Behind D name j subs) (hahead : Ahead D root types name)
    (hsize : ∀ sub ∈ subs, ∀ t, D.structOf sub = some t →
      (name ≠ root ∧ d.structSize root ≠ 0) ∨ ¬ Reaches (Uses D) t root)
    (h : completeMembers call name types subs j d = some (b, d')) :
    b = true ∧ (name ≠ root → d'.findStruct root = d.findStruct root) := by
  induction subs generalizing j d with
  | nil =>
    cases h
    exact ⟨rfl, fun _ => rfl⟩
  | cons sub subs ih =>
    have hoffset : Same (d.update name (·.setOffset j)) D :=
      hd.update fun current _ => erase_setOffset j current
    have hkept₀ : name ≠ root →
        (d.update name (·.setOffset j)).findStruct root = d.findStruct root :=
      fun hname => findStruct_update_ne hname.symm _
    have hcalled : ∀ t, D.structOf sub = some t → ∀ {b d'},
        call t (types ++ [t]) (d.update name (·.setOffset j)) = some (b, d') →
        b = true ∧ (name ≠ root → d'.findStruct root = d.findStruct root) := by
      intro t hsome b d' hcall
      obtain ⟨hb, hkept⟩ := hpasses hoffset (hahead.push (hbehind.uses hsome)) (by
        rcases hsize sub List.mem_cons_self t hsome with ⟨hname, hsize⟩ | hnot
        · rw [structSize_of_findStruct (hkept₀ hname)]
          exact .inl hsize
        · exact .inr hnot) hcall
      exact ⟨hb, fun hname => hkept.trans (hkept₀ hname)⟩
    have hnext : ∀ {d₁ : DDLCompiled} {f : DDLStruct → DDLStruct}, Same (d₁.update name f) D →
        (name ≠ root → d₁.findStruct root = d.findStruct root) →
        completeMembers call name types subs (j + 1) (d₁.update name f) = some (b, d') →
        b = true ∧ (name ≠ root → d'.findStruct root = d.findStruct root) := by
      intro d₁ f hsame hkept hrest
      have hkept' : name ≠ root → (d₁.update name f).findStruct root = d.findStruct root :=
        fun hname => by rw [findStruct_update_ne hname.symm, hkept hname]
      obtain ⟨hb, hkept''⟩ := ih hsame hbehind.next (fun sub' hsub' t ht => by
        rcases hsize sub' (List.mem_cons_of_mem sub hsub') t ht with ⟨hname, hsize⟩ | hnot
        · rw [structSize_of_findStruct (hkept' hname)]
          exact .inl ⟨hname, hsize⟩
        · exact .inr hnot) hrest
      exact ⟨hb, fun hname => (hkept'' hname).trans (hkept' hname)⟩
    cases turn_of_eq h with
    | sized hnone hrest => exact hnext (hoffset.finish hbehind _) hkept₀ hrest
    | refused t hsome hwhy hr =>
      rw [hd.structOf] at hsome
      have huses := hbehind.uses hsome
      rcases hwhy with hnone | hmem
      · obtain ⟨-, hused, -⟩ := hahead.fine
        have hfound := hused t huses
        rw [← hd.isSome, hnone] at hfound
        cases hfound
      · exact absurd hmem (hahead.not_mem huses)
    | rejected t hsome hfound hnew d'' hcall hr =>
      rw [hd.structOf] at hsome
      cases (hcalled t hsome hcall).1
    | entered t hsome hfound hnew d'' hcall hrest =>
      rw [hd.structOf] at hsome
      exact hnext ((hkeeps hoffset hcall).1.finish hbehind _) (hcalled t hsome hcall).2 hrest

/-- **What leads back to `root` is accepted, when `root` has a size.** -/
theorem completeStruct_passes (D : DDLCompiled) (root : UInt64) (fuel : Nat) :
    Passes D root (completeStruct fuel) := by
  induction fuel with
  | zero =>
    intro t types d b d' _ _ _ h
    cases h
  | succ fuel ih =>
    intro t types d b d' hd hahead hsize h
    unfold completeStruct at h
    split at h
    · cases h
    · rename_i current hcurrent
      split at h
      · cases h
        exact ⟨rfl, rfl⟩
      · rename_i hzero
        have hne : t ≠ root := by
          rintro rfl
          rw [structSize_of_found hcurrent] at hsize
          rcases hsize with hsize | hnot
          · exact hzero hsize
          · exact hnot .refl
        have hkept : (d.update t fun current => { current with size := 0 }).findStruct root =
            d.findStruct root := findStruct_update_ne hne.symm _
        obtain ⟨hb, hroot⟩ := completeMembers_passes (completeStruct_keeps D fuel) ih (hd.reset t)
          (hd.behind hcurrent) (hahead hne) (fun sub hsub u hu => by
            rw [structSize_of_findStruct hkept]
            rcases hsize with hsize | hnot
            · exact .inl ⟨hne, hsize⟩
            · exact .inr fun hreach => hnot (.head ⟨_, hd.of_found hcurrent, _,
                List.mem_map_of_mem hsub, hu⟩ hreach)) h
        exact ⟨hb, (hroot hne).trans hkept⟩

end Back

end Acts.Ddl
