import Acts.Ddl.Struct

/-!
# The layout that `CompleteStruct` computes

* `bits`, `total` — the sizes of members, from the sizes `N` of the structs.
* `laid`, `Laid` — a struct with its members one behind the other.
* `Region` — structs whose sizes are what their members take.
* `completeMembers_lays` — members of such structs are laid out, whatever follows them.
* `completeStruct_lays` — **structs that do not contain themselves are laid out.**
-/

set_option autoImplicit false

namespace Acts.Ddl

open Acyclic Relation

/-! ## Sizes -/

/-- Bits of one member, or of one element of it, where structs have the sizes `N`. -/
def DDLCompiled.width (D : DDLCompiled) (N : UInt64 → Nat) (sub : DDLMember) : Nat :=
  match D.structOf sub with
  | some t => N t
  | none => (sub.sized (D.enumSize sub.typeName)).size.toNat

def DDLCompiled.bits (D : DDLCompiled) (N : UInt64 → Nat) (sub : DDLMember) : Nat :=
  if sub.isArray then D.width N sub * sub.arraySize.toNat else D.width N sub

def DDLCompiled.total (D : DDLCompiled) (N : UInt64 → Nat) (subs : List DDLMember) : Nat :=
  (subs.map (D.bits N)).sum

/-- Members one behind the other. -/
def DDLCompiled.laid (D : DDLCompiled) (N : UInt64 → Nat) : Nat → List DDLMember → List DDLMember
  | _, [] => []
  | off, sub :: subs =>
    { sub.sized (.ofNat (D.width N sub)) with offset := .ofNat off } ::
      D.laid N (off + D.bits N sub) subs

/-- The struct `t` is laid out. -/
def Laid (D : DDLCompiled) (N : UInt64 → Nat) (d : DDLCompiled) (t : UInt64) : Prop :=
  ∃ current, D.findStruct t = some current ∧
    d.findStruct t = some ⟨.ofNat (D.total N current.values), D.laid N 0 current.values⟩

/-- `N` is the size of the struct `t`. -/
def Solves (D : DDLCompiled) (N : UInt64 → Nat) (t : UInt64) : Prop :=
  ∀ current, D.findStruct t = some current → N t = D.total N current.values

/-- Structs that exist, do not contain themselves, and have the sizes `N`. -/
structure Region (D : DDLCompiled) (N : UInt64 → Nat) (R : UInt64 → Prop) : Prop where
  closed : ∀ s t, R s → Uses D s t → R t
  found : ∀ s, R s → (D.findStruct s).isSome
  founded : ∀ s, R s → Founded (Uses D) s
  solves : ∀ s, R s → Solves D N s

/-- If the struct `w` has a size, that is final. -/
def Memo (D : DDLCompiled) (N : UInt64 → Nat) (d : DDLCompiled) (w : UInt64) : Prop :=
  d.structSize w ≠ 0 → ∀ u, Reaches (Uses D) w u → Laid D N d u

/-- What a call does to structs that do not contain themselves. -/
def Lays (D : DDLCompiled) (N : UInt64 → Nat) (call : Complete) : Prop :=
  ∀ {t types d b d'}, Same d D → Region D N (Reaches (Uses D) t) →
    (∀ u ∈ types, ¬ TransGen (Uses D) t u) → (∀ w, Reaches (Uses D) t w → Memo D N d w) →
    call t types d = some (b, d') → b = true ∧ ∀ u, Reaches (Uses D) t u → Laid D N d' u

section Lays

variable {D d d' : DDLCompiled} {N : UInt64 → Nat} {name t : UInt64} {sub : DDLMember}
  {subs pre rest done : List DDLMember} {off : Nat}

theorem total_cons (D : DDLCompiled) (N : UInt64 → Nat) (sub : DDLMember)
    (subs : List DDLMember) : D.total N (sub :: subs) = D.bits N sub + D.total N subs := by
  unfold DDLCompiled.total
  rw [List.map_cons, List.sum_cons]

theorem length_laid (D : DDLCompiled) (N : UInt64 → Nat) (off : Nat) (subs : List DDLMember) :
    (D.laid N off subs).length = subs.length := by
  induction subs generalizing off with
  | nil => rfl
  | cons sub subs ih =>
    unfold DDLCompiled.laid
    rw [List.length_cons, List.length_cons, ih]

/-! ## What is computed does not matter -/

theorem width_erase (D : DDLCompiled) (N : UInt64 → Nat) (sub : DDLMember) :
    D.width N sub.erase = D.width N sub := by
  unfold DDLCompiled.width
  rw [structOf_erase]
  split
  · rfl
  · unfold DDLMember.sized DDLMember.erase
    dsimp only
    split
    · rfl
    · rfl

theorem bits_erase (D : DDLCompiled) (N : UInt64 → Nat) (sub : DDLMember) :
    D.bits N sub.erase = D.bits N sub := by
  unfold DDLCompiled.bits
  rw [width_erase]
  rfl

theorem total_erase (D : DDLCompiled) (N : UInt64 → Nat) (subs : List DDLMember) :
    D.total N (subs.map DDLMember.erase) = D.total N subs := by
  unfold DDLCompiled.total
  rw [List.map_map]
  exact congrArg List.sum (List.map_congr_left fun sub _ => bits_erase D N sub)

theorem sized_erase (sub : DDLMember) (size offset : UInt64) :
    { sub.erase.sized size with offset } = { sub.sized size with offset } := by
  unfold DDLMember.sized DDLMember.erase
  dsimp only
  split
  · rfl
  · rfl

theorem laid_erase (D : DDLCompiled) (N : UInt64 → Nat) (off : Nat) (subs : List DDLMember) :
    D.laid N off (subs.map DDLMember.erase) = D.laid N off subs := by
  induction subs generalizing off with
  | nil => rfl
  | cons sub subs ih =>
    rw [List.map_cons]
    unfold DDLCompiled.laid
    rw [ih, bits_erase, width_erase, sized_erase]

/-! ## One turn of the loop -/

theorem modify_behind {α : Type} (done : List α) (x : α) (rest : List α) (f : α → α) :
    (done ++ x :: rest).modify done.length f = done ++ f x :: rest := by
  induction done with
  | nil => rfl
  | cons y done ih =>
    rw [List.cons_append, List.length_cons, List.modify_succ_cons, ih, List.cons_append]

theorem sized_sized (sub : DDLMember) (size offset : UInt64) :
    { sub with offset }.sized size = { sub.sized size with offset } := by
  unfold DDLMember.sized
  dsimp only
  split
  · rfl
  · rfl

/-- A member gets its offset and its size, and the struct grows by it. -/
theorem finish_setOffset (size size' : UInt64) (done : List DDLMember) (sub : DDLMember)
    (rest : List DDLMember) :
    ((⟨size, done ++ sub :: rest⟩ : DDLStruct).setOffset done.length).finish done.length
        (sub.sized size') =
      ⟨size + (sub.sized size').total,
        done ++ { sub.sized size' with offset := size } :: rest⟩ := by
  unfold DDLStruct.finish DDLStruct.setOffset DDLStruct.setSize DDLStruct.grow
  dsimp only
  rw [type_sized, modify_behind, modify_behind]
  unfold DDLMember.sized
  split
  · rfl
  · rfl

theorem total_sized (D : DDLCompiled) (N : UInt64 → Nat) (sub : DDLMember) {size : UInt64}
    (h : (sub.sized size).size = .ofNat (D.width N sub)) :
    (sub.sized size).total = .ofNat (D.bits N sub) := by
  have harray : (sub.sized size).isArray = sub.isArray ∧
      (sub.sized size).arraySize = sub.arraySize := by
    unfold DDLMember.sized
    split
    · exact ⟨rfl, rfl⟩
    · exact ⟨rfl, rfl⟩
  unfold DDLMember.total DDLCompiled.bits
  rw [harray.1, harray.2, h]
  split
  · rw [UInt64.ofNat_mul, UInt64.ofNat_toNat]
  · rfl

/-- The size that a turn of the loop finds. -/
theorem sized_width (D : DDLCompiled) (N : UInt64 → Nat) (sub : DDLMember) (size : UInt64)
    (hnone : D.structOf sub = none → size = D.enumSize sub.typeName)
    (hsome : ∀ t, D.structOf sub = some t → size = .ofNat (N t)) :
    sub.sized size = sub.sized (.ofNat (D.width N sub)) ∧
      (sub.sized size).size = .ofNat (D.width N sub) := by
  unfold DDLCompiled.width
  cases hstruct : D.structOf sub with
  | some t =>
    rw [hsome t hstruct]
    refine ⟨rfl, ?_⟩
    unfold DDLMember.sized
    have htype : sub.type = .class := by
      unfold DDLCompiled.structOf at hstruct
      split at hstruct
      · rename_i hand
        exact hand.1
      · cases hstruct
    rw [if_pos htype]
  | none =>
    rw [hnone hstruct]
    dsimp only
    rw [UInt64.ofNat_toNat]
    unfold DDLMember.sized
    split
    · exact ⟨rfl, rfl⟩
    · exact ⟨rfl, rfl⟩

/-! ## The loop over members -/

theorem Region.reaches {R : UInt64 → Prop} (h : Region D N R) {s t : UInt64} (hs : R s)
    (hst : Reaches (Uses D) s t) : R t := by
  induction hst with
  | refl => exact hs
  | tail _ hstep ih => exact h.closed _ _ ih hstep

theorem Region.mono {R R' : UInt64 → Prop} (h : Region D N R)
    (hclosed : ∀ s t, R' s → Uses D s t → R' t) (hsub : ∀ s, R' s → R s) : Region D N R' where
  closed := hclosed
  found s hs := h.found s (hsub s hs)
  founded s hs := h.founded s (hsub s hs)
  solves s hs := h.solves s (hsub s hs)

theorem Region.below {R : UInt64 → Prop} (h : Region D N R) {t : UInt64} (ht : R t) :
    Region D N (Reaches (Uses D) t) :=
  h.mono (fun _ _ hs hst => hs.tail hst) fun _ hs => h.reaches ht hs

theorem Laid.of_findStruct {u : UInt64} (h : Laid D N d u)
    (hsame : d'.findStruct u = d.findStruct u) : Laid D N d' u := by
  obtain ⟨current, hcurrent, hlaid⟩ := h
  exact ⟨current, hcurrent, hsame.trans hlaid⟩

theorem structSize_of_findStruct {u : UInt64} (hsame : d'.findStruct u = d.findStruct u) :
    d'.structSize u = d.structSize u := by
  unfold DDLCompiled.structSize
  rw [hsame]

theorem structSize_of_found {current : DDLStruct} (h : d.findStruct t = some current) :
    d.structSize t = current.size := by
  unfold DDLCompiled.structSize
  rw [h]
  rfl

theorem Laid.structSize (h : Laid D N d t) (hsolves : Solves D N t) :
    d.structSize t = .ofNat (N t) := by
  obtain ⟨current, hcurrent, hlaid⟩ := h
  rw [structSize_of_found hlaid, hsolves current hcurrent]

section Loop

variable {R : UInt64 → Prop} {call : Complete} {types : List UInt64} {j : Nat}
  {r : Bool × DDLCompiled}

/-- What a struct outside of `R` leaves of `R` when it is changed. -/
theorem Memo.frame {w : UInt64} (hregion : Region D N R) (hw : R w) (h : Memo D N d w)
    (hframe : ∀ u, R u → d'.findStruct u = d.findStruct u) : Memo D N d' w := by
  intro hsize u hu
  rw [structSize_of_findStruct (hframe w hw)] at hsize
  exact (h hsize u hu).of_findStruct (hframe u (hregion.reaches hw hu))

/-- A call lays out what it reaches, and leaves the rest. -/
theorem Laid.of_call {u : UInt64}
    (hkept : ∀ u, ¬ Reaches (Uses D) t u → d'.findStruct u = d.findStruct u)
    (hlaid : ∀ u, Reaches (Uses D) t u → Laid D N d' u) (h : Laid D N d u) : Laid D N d' u := by
  by_cases hreach : Reaches (Uses D) t u
  · exact hlaid u hreach
  · exact h.of_findStruct (hkept u hreach)

theorem Memo.of_call {w : UInt64}
    (hkept : ∀ u, ¬ Reaches (Uses D) t u → d'.findStruct u = d.findStruct u)
    (hlaid : ∀ u, Reaches (Uses D) t u → Laid D N d' u) (h : Memo D N d w) : Memo D N d' w := by
  intro hsize u hu
  by_cases hreach : Reaches (Uses D) t w
  · exact hlaid u (hreach.trans hu)
  · rw [structSize_of_findStruct (hkept w hreach)] at hsize
    exact (h hsize u hu).of_call hkept hlaid

/-- **Members that do not lead back are laid out, whatever follows them.** -/
theorem completeMembers_lays (pre rest done : List DDLMember) (off : Nat)
    (hkeeps : Keeps D call) (hlays : Lays D N call) (hregion : Region D N R) (hname : ¬ R name)
    (htypes : ∀ u ∈ types, ¬ R u)
    (hpre : ∀ sub ∈ pre, ∀ t, D.structOf sub = some t → R t) (hd : Same d D)
    (hbehind : Behind D name done.length (pre ++ rest)) (hmemo : ∀ w, R w → Memo D N d w)
    (hrecord : d.findStruct name = some ⟨.ofNat off, done ++ (pre ++ rest)⟩)
    (h : completeMembers call name types (pre ++ rest) done.length d = some r) :
    ∃ d', completeMembers call name types rest (done.length + pre.length) d' = some r ∧
      Same d' D ∧
      d'.findStruct name =
        some ⟨.ofNat (off + D.total N pre), done ++ (D.laid N off pre ++ rest)⟩ ∧
      (∀ u, ¬ R u → u ≠ name → d'.findStruct u = d.findStruct u) ∧
      (∀ u, R u → Laid D N d u → Laid D N d' u) ∧
      ∀ sub ∈ pre, ∀ t, D.structOf sub = some t → ∀ u, Reaches (Uses D) t u → Laid D N d' u := by
  induction pre generalizing d done off with
  | nil =>
    exact ⟨d, h, hd, hrecord, fun _ _ _ => rfl, fun _ _ hlaid => hlaid, fun sub hsub => by
      cases hsub⟩
  | cons sub pre ih =>
    have hne : ∀ u, R u → u ≠ name := by
      rintro u hu rfl
      exact hname hu
    have hoffset : Same (d.update name (·.setOffset done.length)) D :=
      hd.update fun current _ => erase_setOffset done.length current
    have hframe : ∀ u, R u →
        (d.update name (·.setOffset done.length)).findStruct u = d.findStruct u :=
      fun u hu => findStruct_update_ne (hne u hu) _
    have hmemo₀ : ∀ w, R w → Memo D N (d.update name (·.setOffset done.length)) w :=
      fun w hw => (hmemo w hw).frame hregion hw hframe
    -- the turn of `sub` leaves `d₁`, and the loop goes on behind it
    have hturn : ∃ d₁, completeMembers call name types (pre ++ rest) (done.length + 1) d₁ =
          some r ∧ Same d₁ D ∧
        d₁.findStruct name = some ⟨.ofNat (off + D.bits N sub),
          done ++ { sub.sized (.ofNat (D.width N sub)) with offset := .ofNat off } ::
            (pre ++ rest)⟩ ∧
        (∀ w, R w → Memo D N d₁ w) ∧
        (∀ u, ¬ R u → u ≠ name → d₁.findStruct u = d.findStruct u) ∧
        (∀ u, R u → Laid D N d u → Laid D N d₁ u) ∧
        ∀ t, D.structOf sub = some t → ∀ u, Reaches (Uses D) t u → Laid D N d₁ u := by
      have hset := findStruct_update_self hrecord (·.setOffset done.length)
      cases turn_of_eq h with
      | sized hnone hrest =>
        rw [hd.structOf] at hnone
        have hframe' : ∀ u, R u → ((d.update name (·.setOffset done.length)).update name
            (·.finish done.length (sub.sized (d.enumSize sub.typeName)))).findStruct u =
              d.findStruct u := fun u hu => by
          rw [findStruct_update_ne (hne u hu), hframe u hu]
        have hsize : d.enumSize sub.typeName = D.enumSize sub.typeName := by
          unfold DDLCompiled.enumSize
          rw [hd.findEnum]
        obtain ⟨hsized, hwidth⟩ := sized_width D N sub _ (fun _ => hsize) fun t ht => by
          rw [hnone] at ht
          cases ht
        refine ⟨_, hrest, hoffset.finish hbehind _, ?_, fun w hw =>
          (hmemo w hw).frame hregion hw hframe', fun u _ hu => ?_, fun u hu hlaid =>
          hlaid.of_findStruct (hframe' u hu), fun t ht => ?_⟩
        · rw [findStruct_update_self hset, List.cons_append, finish_setOffset,
            total_sized D N sub hwidth, hsized, UInt64.ofNat_add]
        · rw [findStruct_update_ne hu, findStruct_update_ne hu]
        · rw [hnone] at ht
          cases ht
      | refused t hsome hwhy hr =>
        rw [hd.structOf] at hsome
        have ht := hpre sub List.mem_cons_self t hsome
        rcases hwhy with hnone | hmem
        · have hfound := hregion.found t ht
          rw [← hd.isSome, hnone] at hfound
          cases hfound
        · exact absurd ht (htypes t hmem)
      | rejected t hsome hfound hnew d' hcall hr =>
        rw [hd.structOf] at hsome
        have ht := hpre sub List.mem_cons_self t hsome
        obtain ⟨hb, -⟩ := hlays hoffset (hregion.below ht) (fun u hu htrans => by
          rcases List.mem_append.1 hu with hu | hu
          · exact htypes u hu (hregion.reaches ht htrans.to_reflTransGen)
          · rw [List.mem_singleton.1 hu] at htrans
            exact (hregion.founded t ht).acyclic htrans)
          (fun w hw => hmemo₀ w (hregion.reaches ht hw)) hcall
        cases hb
      | entered t hsome hfound hnew d' hcall hrest =>
        rw [hd.structOf] at hsome
        have ht := hpre sub List.mem_cons_self t hsome
        obtain ⟨-, hlaid⟩ := hlays hoffset (hregion.below ht) (fun u hu htrans => by
          rcases List.mem_append.1 hu with hu | hu
          · exact htypes u hu (hregion.reaches ht htrans.to_reflTransGen)
          · rw [List.mem_singleton.1 hu] at htrans
            exact (hregion.founded t ht).acyclic htrans)
          (fun w hw => hmemo₀ w (hregion.reaches ht hw)) hcall
        obtain ⟨hsame, hkept⟩ := hkeeps hoffset hcall
        have hown := hkept name fun hreach => hname (hregion.reaches ht hreach)
        have hframe' : ∀ u, R u → (d'.update name
            (·.finish done.length (sub.sized (d'.structSize t)))).findStruct u =
              d'.findStruct u := fun u hu => findStruct_update_ne (hne u hu) _
        obtain ⟨hsized, hwidth⟩ := sized_width D N sub (d'.structSize t)
          (fun hnone => by
            rw [hnone] at hsome
            cases hsome)
          fun t' ht' => by
            rw [hsome] at ht'
            cases ht'
            exact (hlaid t .refl).structSize (hregion.solves t ht)
        refine ⟨_, hrest, hsame.finish hbehind _, ?_, fun w hw => ?_, fun u hnot hu => ?_,
          fun u hu hlaid' => ?_, fun t' ht' u hu => ?_⟩
        · rw [findStruct_update_self (hown.trans hset), List.cons_append, finish_setOffset,
            total_sized D N sub hwidth, hsized, UInt64.ofNat_add]
        · exact ((hmemo₀ w hw).of_call hkept hlaid).frame hregion hw hframe'
        · rw [findStruct_update_ne hu, hkept u fun hreach => hnot (hregion.reaches ht hreach),
            findStruct_update_ne hu]
        · exact ((hlaid'.of_findStruct (hframe u hu)).of_call hkept hlaid).of_findStruct
            (hframe' u hu)
        · rw [hsome] at ht'
          cases ht'
          exact (hlaid u hu).of_findStruct (hframe' u (hregion.reaches ht hu))
    obtain ⟨d₁, hrest, hsame, hrecord₁, hmemo₁, hkept₁, hlaid₁, hsub⟩ := hturn
    have hlength : (done ++ [{ sub.sized (.ofNat (D.width N sub)) with
        offset := .ofNat off }]).length = done.length + 1 := List.length_append
    obtain ⟨d', hrest', hsame', hrecord', hkept', hlaid', hall⟩ :=
      ih _ _ (fun sub' hsub' => hpre sub' (List.mem_cons_of_mem sub hsub')) hsame
        (by rw [hlength]; exact hbehind.next) hmemo₁
        (by rw [hrecord₁, List.append_assoc]; rfl) (by rw [hlength]; exact hrest)
    refine ⟨d', ?_, hsame', ?_, fun u hnot hu => (hkept' u hnot hu).trans (hkept₁ u hnot hu),
      fun u hu h => hlaid' u hu (hlaid₁ u hu h), ?_⟩
    · rw [List.length_cons, ← hrest', hlength]
      congr 1
      omega
    · rw [hrecord', total_cons, List.append_assoc, Nat.add_assoc]
      rfl
    · intro sub' hsub' t ht u hu
      rcases List.mem_cons.1 hsub' with rfl | hsub'
      · have htR := hpre sub' List.mem_cons_self t ht
        exact hlaid' u (hregion.reaches htR hu) (hsub t ht u hu)
      · exact hall sub' hsub' t ht u hu

end Loop

/-- **Structs that do not contain themselves are accepted and laid out.** -/
theorem completeStruct_lays (D : DDLCompiled) (N : UInt64 → Nat) (fuel : Nat) :
    Lays D N (completeStruct fuel) := by
  induction fuel with
  | zero =>
    intro t types d b d' _ _ _ _ h
    cases h
  | succ fuel ih =>
    intro t types d b d' hd hregion htypes hmemo h
    unfold completeStruct at h
    split at h
    · cases h
    · rename_i current hcurrent
      split at h
      · rename_i hne
        cases h
        refine ⟨rfl, hmemo t .refl ?_⟩
        rw [structSize_of_found hcurrent]
        exact hne
      · have hfounded := hregion.founded t .refl
        have hR : Region D N (TransGen (Uses D) t) :=
          hregion.mono (fun _ _ hs hst => hs.tail hst) fun _ hs => hs.to_reflTransGen
        have hframe : ∀ u, TransGen (Uses D) t u →
            (d.update t fun current => { current with size := 0 }).findStruct u =
              d.findStruct u := fun u hu => findStruct_update_ne (by
          rintro rfl
          exact hfounded.acyclic hu) _
        have hbehind := hd.behind hcurrent
        have hmembers : ∀ sub ∈ current.values, ∀ u, D.structOf sub = some u → Uses D t u :=
          fun sub hsub u hu =>
            ⟨_, hd.of_found hcurrent, _, List.mem_map_of_mem hsub, hu⟩
        obtain ⟨d₁, hrest, hsame, hrecord, -, -, hlaid⟩ :=
          completeMembers_lays current.values [] [] 0
            (completeStruct_keeps D fuel) ih hR hfounded.acyclic htypes
            (fun sub hsub u hu => .single (hmembers sub hsub u hu)) (hd.reset t)
            (by rw [List.append_nil]; exact hbehind)
            (fun w hw => (hmemo w hw.to_reflTransGen).frame hR hw hframe)
            (by rw [findStruct_update_self hcurrent, List.append_nil]; rfl)
            (by rw [List.append_nil]; exact h)
        cases hrest
        refine ⟨rfl, fun u hu => ?_⟩
        rcases ReflTransGen.cases_head hu with rfl | ⟨v, hv, hvu⟩
        · refine ⟨current.erase, hd.of_found hcurrent, ?_⟩
          rw [hrecord]
          unfold DDLStruct.erase
          dsimp only
          rw [total_erase, laid_erase, Nat.zero_add, List.nil_append, List.append_nil]
        · obtain ⟨current', hcurrent', sub, hsub, hsome⟩ := hv
          rw [hd.of_found hcurrent] at hcurrent'
          cases hcurrent'
          obtain ⟨sub', hsub', rfl⟩ := List.mem_map.1 hsub
          exact hlaid sub' hsub' v hsome u hvu

end Lays

end Acts.Ddl
