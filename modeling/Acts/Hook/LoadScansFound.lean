import Acts.Hook.LoadScans

/-!
# What a scan of many patterns finds

* `searchRegions_eq` — the walk as a sequence of hits.
* `loadScansMulti_ends` — what a call leaves in the container, however it ends.
* `findsAll_iff` — when a call finds for each pattern the locations that `scanLibrary` finds.
-/

set_option autoImplicit false

namespace Acts.Hook

/-! ## The walk -/

/-- The offsets of a walk that stops `bound` bytes before the end of a region. -/
def places (bound : Nat) (regions : List MemoryRegion) : List (MemoryRegion × Nat) :=
  regions.flatMap fun region =>
    (List.range (region.data.length + 1 - bound)).map fun off => (region, off)

/-- The patterns that stand at a place, with their `rva`. -/
def Compiled.hitsAt (comp : Compiled) (lib : Int) (place : MemoryRegion × Nat) :
    List (UInt64 × Nat) :=
  ((comp.maskedSc ++ comp.scindex (place.1.data.getD place.2 0)).filter
      (·.packed.matchesAt place.1 place.2)).map
    fun msc => (msc.key, rloc lib (msc.packed.location place.1 place.2))

/-- The hits of a hash at a place. -/
def Compiled.hitsOf (comp : Compiled) (lib : Int) (k : UInt64) (place : MemoryRegion × Nat) :
    List Nat :=
  ((comp.hitsAt lib place).filter (·.1 = k)).map (·.2)

section Walk

variable {comp : Compiled} {lib : Int} {k : UInt64}

theorem mem_places {bound off : Nat} {region : MemoryRegion} {regions : List MemoryRegion} :
    (region, off) ∈ places bound regions ↔
      region ∈ regions ∧ off + bound ≤ region.data.length := by
  unfold places
  simp only [List.mem_flatMap, List.mem_map, List.mem_range, Prod.mk.injEq]
  constructor
  · rintro ⟨r, hr, off', hoff, rfl, rfl⟩
    exact ⟨hr, by omega⟩
  · rintro ⟨hr, hoff⟩
    exact ⟨region, hr, off, by omega, rfl, rfl⟩

theorem searchOffset_eq (region : MemoryRegion) (results : Results) (off : Nat) :
    searchOffset comp lib region results off =
      (comp.hitsAt lib (region, off)).foldl (upsert {} addRva) results := by
  unfold searchOffset Compiled.hitsAt
  rw [← List.foldl_append, List.foldl_map, List.foldl_filter]
  rfl

/-- **The walk is a sequence of hits.** -/
theorem searchRegions_eq (regions : List MemoryRegion) (results : Results) :
    searchRegions comp lib regions results =
      ((places comp.maxSize regions).flatMap (comp.hitsAt lib)).foldl (upsert {} addRva) results := by
  unfold searchRegions places
  induction regions generalizing results with
  | nil => rfl
  | cons region regions ih =>
    rw [List.foldl_cons, ih, List.flatMap_cons, List.flatMap_append, List.foldl_append]
    congr 1
    unfold searchRegion
    rw [List.foldl_flatMap, List.foldl_map]
    congr 1
    funext results off
    exact searchOffset_eq region results off

theorem foldl_addRva (rvas : List Nat) (value : ResultValue) :
    rvas.foldl (fun value rva => addRva rva value) value =
      ⟨value.loaded, rvas.foldl pushNew value.res⟩ := by
  induction rvas generalizing value with
  | nil => rfl
  | cons rva rvas ih =>
    rw [List.foldl_cons, ih]
    rfl

/-- What the walk makes of the value under a hash. -/
theorem valueAt_search (w : World) (regions : List MemoryRegion) :
    (w.setResults (searchRegions comp lib regions w.container.results)).valueAt k =
      ⟨(w.valueAt k).loaded,
        ((places comp.maxSize regions).flatMap (comp.hitsOf lib k)).foldl pushNew
          (w.valueAt k).res⟩ := by
  unfold World.valueAt
  rw [World.results_setResults, searchRegions_eq, getD_foldl_upsert, foldl_addRva,
    List.filter_flatMap, List.map_flatMap]
  rfl

/-- A pattern with a full first byte stands only where this byte does. -/
theorem matchesAt_first {packed : PackedScan} {region : MemoryRegion} {off : Nat}
    (h : packed.matchesAt region off = true) (hmask : packed.first.mask = 0xFF) :
    region.data.getD off 0 = packed.first.searched := by
  unfold PackedScan.matchesAt PackedScan.cells at h
  cases hdrop : region.data.drop off with
  | nil =>
    rw [hdrop] at h
    cases h
  | cons b bytes =>
    rw [hdrop] at h
    have hb : region.data.getD off 0 = b := by
      have hget : region.data[off]? = some b := by
        rw [← List.head?_drop, hdrop]
        rfl
      rw [List.getD_eq_getElem?_getD, hget]
      rfl
    simp only [matchCells, Bool.and_eq_true, Cell.accepts, hmask, beq_iff_eq] at h
    have hand : ∀ b : UInt8, b &&& 0xFF = b := by
      intro b
      exact UInt8.and_neg_one
    rw [hb, ← h.1, hand]

/-- **The hits of a hash at a place**: its patterns that stand there. -/
theorem mem_hitsOf (h : comp.Indexes) {region : MemoryRegion} {off rva : Nat} :
    rva ∈ comp.hitsOf lib k (region, off) ↔
      ∃ cs ∈ comp.cscans, cs.key = k ∧ cs.packed.matchesAt region off = true ∧
        rva = rloc lib (cs.packed.location region off) := by
  unfold Compiled.hitsOf Compiled.hitsAt
  simp only [List.mem_map, List.mem_filter, decide_eq_true_eq]
  constructor
  · rintro ⟨_, ⟨⟨cs, ⟨hcs, hm⟩, rfl⟩, hk⟩, rfl⟩
    exact ⟨cs, h.of_index _ cs hcs, hk, hm, rfl⟩
  · rintro ⟨cs, hcs, hk, hm, rfl⟩
    have hindex := h.index cs hcs (region.data.getD off 0) (matchesAt_first hm)
    exact ⟨_, ⟨⟨cs, ⟨hindex, hm⟩, rfl⟩, hk⟩, rfl⟩

end Walk

/-! ## The last loop -/

section Use

variable {p : Platform} {w w' : World} {cs : CompiledScan}

/-- A value that is found in the cache, or a null result. -/
theorem scanAs_ends {path : Pattern} (hs : Synced w) (hignore : w.container.ignoreMissing = true)
    (hloaded : (w.valueAt (hash64 path)).loaded = true) (single : Bool) :
    ∃ res w', scanAs p single path w = .ok res w' ∧ Touched w w' := by
  have hscan := scan_of_loaded (p := p) hs hloaded
  have hmissing : ∀ failure, ∃ res w', missing failure w = .ok res w' ∧ Touched w w' := by
    intro failure
    refine ⟨0, { w with container := { w.container with foundMissing := true } }, ?_,
      ⟨rfl, rfl, rfl, rfl, rfl, rfl, rfl, rfl⟩, fun _ => rfl⟩
    unfold missing
    rw [get_bind, if_pos hignore]
    rfl
  cases single with
  | true =>
    show ∃ res w', scanSingle p path w = .ok res w' ∧ Touched w w'
    unfold scanSingle
    rw [bind_ok hscan]
    cases scanCached w.container.lib (w.valueAt (hash64 path)) with
    | nil => exact hmissing _
    | cons first rest =>
      cases rest with
      | nil => exact ⟨first, w, rfl, .refl w⟩
      | cons second rest => exact hmissing _
  | false =>
    show ∃ res w', scanAny p path w = .ok res w' ∧ Touched w w'
    unfold scanAny
    rw [bind_ok hscan]
    cases scanCached w.container.lib (w.valueAt (hash64 path)) with
    | nil => exact hmissing _
    | cons first rest => exact ⟨first, w, rfl, .refl w⟩

theorem valueAt_markLoaded (w : World) (k k' : UInt64) :
    (w.markLoaded k).valueAt k' =
      if k' = k then { w.valueAt k with loaded := true } else w.valueAt k' := by
  unfold World.markLoaded World.valueAt
  rw [World.results_setResults]
  by_cases hk : k' = k
  · rw [if_pos hk, hk, AList.lookup_insert]
    rfl
  · rw [if_neg hk, AList.lookup_insert_ne hk]

theorem useScan_ends (hs : Synced w) (hignore : w.container.ignoreMissing = true)
    (htype : cs.scan.type ≠ .offset) :
    EndsIn (useScan p cs) w (fun _ w' => Touched (w.markLoaded cs.key) w')
      (fun e w' => e = .accessViolation ∧ Touched (w.markLoaded cs.key) w') := by
  have hs' : Synced (w.markLoaded cs.key) := hs
  have hloaded : ((w.markLoaded cs.key).valueAt (hash64 cs.scan.scan)).loaded = true := by
    rw [valueAt_markLoaded]
    exact congrArg ResultValue.loaded (if_pos rfl)
  unfold useScan
  apply EndsIn.modify
  split
  · exact .after (scan_of_loaded hs' hloaded) (loadScanResultAll_ends htype _ _)
  · obtain ⟨res, w₁, hscan, h₁⟩ := scanAs_ends (p := p) hs' hignore hloaded cs.scan.single
    apply EndsIn.after hscan
    apply (getScanResult_ends htype res).bind
    · rintro e w' ⟨rfl, rfl⟩
      exact ⟨rfl, h₁⟩
    · rintro v w' rfl
      obtain ⟨w₂, hstore, h₂⟩ := storeValue_touched cs.scan v w'
      exact .of_ok hstore (h₁.trans h₂)

/-- **The last loop marks the compiled patterns as loaded**; a read that faults ends it. -/
theorem useScans_ends (cscans : List CompiledScan) (hs : Synced w)
    (hignore : w.container.ignoreMissing = true) (htypes : ∀ cs ∈ cscans, cs.scan.type ≠ .offset) :
    EndsIn (useScans p cscans) w
      (fun _ w' => Frame w w' ∧ ∀ k, w'.valueAt k =
        { w.valueAt k with loaded := (w.valueAt k).loaded || cscans.any (·.key = k) })
      (fun e w' => e = .accessViolation ∧ Frame w w' ∧
        ∀ k, (w'.valueAt k).res = (w.valueAt k).res) := by
  induction cscans generalizing w with
  | nil =>
    refine .of_ok rfl ⟨.refl w, fun k => ?_⟩
    simp
  | cons cs cscans ih =>
    have hmark := frame_setResults w
      (w.container.results.insert cs.key { w.valueAt cs.key with loaded := true })
    have hres : ∀ k, ((w.markLoaded cs.key).valueAt k).res = (w.valueAt k).res := by
      intro k
      rw [valueAt_markLoaded]
      split
      · rename_i hk
        rw [hk]
      · rfl
    unfold useScans
    apply (useScan_ends hs hignore (htypes cs List.mem_cons_self)).bind
    · rintro e w' ⟨he, h'⟩
      exact ⟨he, hmark.trans h'.toFrame, fun k => by rw [h'.valueAt, hres]⟩
    · rintro _ w₁ h₁
      have hframe := hmark.trans h₁.toFrame
      apply (ih (hframe.synced hs) (hframe.ignoreMissing.trans hignore)
        fun c hc => htypes c (List.mem_cons_of_mem cs hc)).mono
      · rintro _ w' ⟨h', hvalues⟩
        refine ⟨hframe.trans h', fun k => ?_⟩
        rw [hvalues, h₁.valueAt, valueAt_markLoaded, List.any_cons]
        by_cases hk : k = cs.key
        · simp [hk]
        · simp [hk, Ne.symm hk]
      · rintro e w' ⟨he, h', hvalues⟩
        exact ⟨he, hframe.trans h', fun k => by rw [hvalues, h₁.valueAt, hres]⟩

end Use

/-! ## A call -/

def World.ignoring (w : World) (b : Bool) : World :=
  { w with container := { w.container with ignoreMissing := b } }

section Call

variable (p : Platform) (w : World) (list : List ScanInformation)

/-- The patterns that are not cached, packed and indexed. -/
structure Packs (comp : Compiled) : Prop where
  indexes : comp.Indexes
  cscans : comp.cscans.map (·.scan) = list.filter (pending w)

/-- The hits of a hash, in the order of the walk. -/
def Compiled.found (comp : Compiled) (lib : Int) (k : UInt64) : List Nat :=
  (places comp.maxSize (readableRegions p lib)).flatMap (comp.hitsOf lib k)

/-- The walk has added its hits to the values. -/
structure Searched (w' : World) : Prop where
  lib : w'.container.lib = w.container.lib
  hits : ∃ comp, Packs w list comp ∧ ∀ k, (w'.valueAt k).res =
    (comp.found p w.container.lib k).foldl pushNew (w.valueAt k).res

/-- And the patterns are loaded. -/
structure Loads (w' : World) : Prop where
  frame : ∃ b, Frame (w.ignoring b) w'
  searched : Searched p w list w'
  loaded : ∀ k, (w'.valueAt k).loaded =
    ((w.valueAt k).loaded || (list.filter (pending w)).any (·.key = k))

variable {p w list} {comp : Compiled} {w' : World}

theorem any_scan (cscans : List CompiledScan) (k : UInt64) :
    (cscans.map (·.scan)).any (·.key = k) = cscans.any (·.key = k) := by
  rw [List.any_map]
  rfl

theorem Packs.pending (h : Packs w list comp) {cs : CompiledScan} (hcs : cs ∈ comp.cscans) :
    cs.scan ∈ list ∧ Hook.pending w cs.scan = true := by
  have hmem : cs.scan ∈ comp.cscans.map (·.scan) := List.mem_map.mpr ⟨cs, hcs, rfl⟩
  rw [h.cscans] at hmem
  exact List.mem_filter.mp hmem

theorem Packs.type (h : Packs w list comp) {cs : CompiledScan} (hcs : cs ∈ comp.cscans) :
    cs.scan.type ≠ .offset := by
  have hpending := (h.pending hcs).2
  simp only [Hook.pending, Bool.and_eq_true, decide_eq_true_eq] at hpending
  exact hpending.1

/-- Each pattern that has to be searched is compiled. -/
theorem Packs.compiled (h : Packs w list comp) {si : ScanInformation} (hsi : si ∈ list)
    (hpending : Hook.pending w si = true) : ∃ cs ∈ comp.cscans, cs.scan = si := by
  have hmem : si ∈ list.filter (Hook.pending w) := List.mem_filter.mpr ⟨hsi, hpending⟩
  rw [← h.cscans] at hmem
  exact List.mem_map.mp hmem

/-- A hash without a pattern to search has no hits. -/
theorem found_other (h : Packs w list comp) {k : UInt64}
    (hk : ∀ si ∈ list.filter (Hook.pending w), si.key ≠ k) (lib : Int) :
    comp.found p lib k = [] := by
  unfold Compiled.found
  rw [List.flatMap_eq_nil_iff]
  rintro ⟨region, off⟩ -
  rw [List.eq_nil_iff_forall_not_mem]
  intro rva hrva
  obtain ⟨cs, hcs, hkey, -⟩ := (mem_hitsOf h.indexes).mp hrva
  exact hk cs.scan (List.mem_filter.mpr (h.pending hcs)) hkey

theorem setIgnoreMissing_eq (b : Bool) (w : World) :
    setIgnoreMissing b w = .ok ⟨⟩ (w.ignoring b) := rfl

/-- Nothing had to be searched. -/
theorem loads_of_nil {b : Bool} (b' : Bool) (h : Packs w list comp) (hnil : comp.cscans = [])
    (hw : Touched (w.ignoring b) w') : Loads p w list (w'.ignoring b') where
  frame := ⟨b', hw.lib, hw.uid, hw.scanPath, hw.savePost, hw.sync, hw.anyUpdate, rfl, hw.files⟩
  searched := by
    refine ⟨hw.lib, comp, h, fun k => ?_⟩
    have hnone : ∀ si ∈ list.filter (Hook.pending w), si.key ≠ k := by
      rw [← h.cscans, hnil]
      intro si hsi
      cases hsi
    rw [found_other h hnone]
    exact congrArg ResultValue.res (hw.valueAt k)
  loaded k := by
    rw [← h.cscans, hnil]
    exact (congrArg ResultValue.loaded (hw.valueAt k)).trans (Bool.or_false _).symm

/-- The walk, and what the last loop makes of its results. -/
theorem searched_ends (hs : Synced w) {w₁ : World} (h : Packs w list comp)
    (hw : Touched (w.ignoring true) w₁) :
    EndsIn (useScans p comp.cscans)
      (w₁.setResults (searchRegions comp w₁.container.lib
        (readableRegions p w₁.container.lib) w₁.container.results))
      (fun _ w' => ∀ b, Loads p w list (w'.ignoring b))
      (fun e w' => e = .accessViolation ∧ Searched p w list w') := by
  have hlib : w₁.container.lib = w.container.lib := hw.lib
  rw [hlib]
  have hframe := hw.toFrame.trans (frame_setResults w₁ (searchRegions comp w.container.lib
    (readableRegions p w.container.lib) w₁.container.results))
  have hvalue : ∀ k, (w₁.setResults (searchRegions comp w.container.lib
      (readableRegions p w.container.lib) w₁.container.results)).valueAt k =
      ⟨(w.valueAt k).loaded, (comp.found p w.container.lib k).foldl pushNew (w.valueAt k).res⟩ := by
    intro k
    rw [valueAt_search, hw.valueAt]
    rfl
  apply (useScans_ends comp.cscans (hframe.synced hs) hframe.ignoreMissing
    fun cs hcs => h.type hcs).mono
  · rintro _ w' ⟨h', hvalues⟩ b
    have hw' := hframe.trans h'
    refine ⟨?_, ?_, ?_⟩
    · exact ⟨b, hw'.lib, hw'.uid, hw'.scanPath, hw'.savePost, hw'.sync, hw'.anyUpdate, rfl,
        hw'.files⟩
    · refine ⟨hw'.lib, comp, h, fun k => ?_⟩
      exact (congrArg ResultValue.res (hvalues k)).trans (congrArg ResultValue.res (hvalue k))
    · intro k
      rw [← h.cscans, any_scan]
      refine (congrArg ResultValue.loaded (hvalues k)).trans ?_
      rw [hvalue]
  · rintro e w' ⟨he, h', hvalues⟩
    exact ⟨he, h'.lib.trans hframe.lib, comp, h, fun k => by rw [hvalues, hvalue]⟩

/-- **A call**: it throws at a malformed pattern, with nothing searched; else the hits of the
walk are in the container and the patterns are loaded, unless a read of a result faults. -/
theorem loadScansMulti_ends (p : Platform) (list : List ScanInformation) (hs : Synced w) :
    EndsIn (loadScansMulti p list) w (fun _ w' => Loads p w list w')
      (fun e w' => (∃ si ∈ list, pending w si = true ∧ packScan si.scan = .error e) ∧
          (∃ b, Touched (w.ignoring b) w') ∨
        e = .missingScans ∧ Loads p w list w' ∨
        e = .accessViolation ∧
          ((∃ si ∈ list, si.type ≠ .offset ∧ (w.valueAt si.key).loaded = true) ∨
            Searched p w list w')) := by
  have hpending : pending (w.ignoring true) = pending w := rfl
  unfold loadScansMulti
  apply EndsIn.get
  apply EndsIn.after (setIgnoreMissing_eq true w)
  apply (compile_ends list {} (w.ignoring true) hs .empty).bind
  · rintro e w₁ ⟨h₁, ⟨si, hsi, hp, hpack⟩ | ⟨he, hcached⟩⟩
    · exact .inl ⟨⟨si, hsi, hp, hpack⟩, true, h₁⟩
    · exact .inr (.inr ⟨he, .inl hcached⟩)
  · rintro comp w₁ ⟨h₁, hindexes, hcscans⟩
    rw [hpending] at hcscans
    have hpacks : Packs w list comp := ⟨hindexes, hcscans⟩
    have hw : Touched (w.ignoring true)
        { w₁ with container := { w₁.container with foundMissing := comp.anyMissing } } :=
      ⟨⟨h₁.lib, h₁.uid, h₁.scanPath, h₁.savePost, h₁.sync, h₁.anyUpdate, h₁.ignoreMissing,
        h₁.files⟩, h₁.valueAt⟩
    apply EndsIn.modify
    split
    · rename_i hnil
      split
      · refine .of_error rfl (.inr (.inl ⟨rfl, ?_⟩))
        have hloads : Loads p w list _ := loads_of_nil true hpacks hnil hw
        have hsame : World.ignoring _ true = _ := congrArg
          (fun b => World.ignoring { w₁ with
            container := { w₁.container with foundMissing := comp.anyMissing } } b)
          h₁.ignoreMissing.symm
        rw [hsame] at hloads
        exact hloads
      · exact .of_ok (setIgnoreMissing_eq _ _) (loads_of_nil _ hpacks hnil hw)
    · apply EndsIn.modify
      apply (searched_ends hs hpacks hw).bind
      · rintro e w' ⟨he, hsearched⟩
        exact .inr (.inr ⟨he, .inr hsearched⟩)
      · rintro _ w' hloads
        apply EndsIn.after (setIgnoreMissing_eq _ w')
        apply EndsIn.get
        split
        · exact .of_error rfl (.inr (.inl ⟨rfl, hloads _⟩))
        · exact .of_ok rfl (hloads _)

end Call

/-! ## The first `Sync()` -/

section Presync

variable {p : Platform} {w w₁ : World}

theorem compile_presync (list : List ScanInformation) (comp : Compiled)
    (h : sync false w = .ok ⟨⟩ w₁) (h₁ : Synced w₁)
    (hne : ∃ si ∈ list, si.type ≠ .offset) : compile p list comp w = compile p list comp w₁ := by
  induction list generalizing comp w w₁ with
  | nil =>
    obtain ⟨si, hsi, -⟩ := hne
    cases hsi
  | cons si list ih =>
    unfold compile
    by_cases htype : si.type = .offset
    · rw [if_pos htype]
      obtain ⟨si', hsi', htype'⟩ := hne
      have hrest : ∃ si ∈ list, si.type ≠ .offset := by
        rcases List.mem_cons.mp hsi' with rfl | hsi'
        · exact absurd htype htype'
        · exact ⟨si', hsi', htype'⟩
      -- the reference is stored before the `Sync()` instead of behind it
      have hstore : ∀ v, sync false (w.store si v) = .ok ⟨⟩ (w₁.store si v) := by
        intro v
        obtain ⟨-, hignore, hvalue, hvalues, hsync⟩ := sync_frame h w.container.ignoreMissing
          (w.store si v).value (w.store si v).values
        refine hsync.trans ?_
        unfold World.store
        rw [hvalue, hvalues, ← hignore]
      have hlib := (sync_frame h true w.value w.values).1
      have hoffset : ∃ v, loadScanOffset si w = .ok ⟨⟩ (w.store si v) ∧
          loadScanOffset si w₁ = .ok ⟨⟩ (w₁.store si v) := by
        refine ⟨_, rfl, ?_⟩
        rw [← hlib]
        rfl
      obtain ⟨v, hw, hw₁⟩ := hoffset
      rw [bind_ok hw, bind_ok hw₁]
      exact ih comp (hstore v) h₁ hrest
    · rw [if_neg htype]
      exact bind_of_eq (getCached_presync h h₁)

theorem loadScansMulti_presync {list : List ScanInformation} (h : sync false w = .ok ⟨⟩ w₁)
    (h₁ : Synced w₁) (hne : ∃ si ∈ list, si.type ≠ .offset) :
    loadScansMulti p list w = loadScansMulti p list w₁ := by
  obtain ⟨-, hignore, hvalue, hvalues, hsync⟩ := sync_frame h true w.value w.values
  have hsync : sync false (w.ignoring true) = .ok ⟨⟩ (w₁.ignoring true) := by
    refine hsync.trans ?_
    rw [← hvalue, ← hvalues]
    rfl
  unfold loadScansMulti
  rw [get_bind, get_bind, hignore, bind_ok (setIgnoreMissing_eq true w),
    bind_ok (setIgnoreMissing_eq true w₁)]
  exact bind_of_eq (compile_presync list {} hsync h₁ hne)

end Presync

/-! ## One walk against a scan of each pattern -/

def endState {α : Type} : EStateM.Result Failure World α → World
  | .ok _ w => w
  | .error _ w => w

@[simp] theorem endState_ok {α : Type} (a : α) (w : World) : endState (.ok a w) = w := rfl

@[simp] theorem endState_error {α : Type} (e : Failure) (w : World) :
    endState (.error e w : EStateM.Result Failure World α) = w := rfl

/-- The patterns of a list. -/
def patterns (list : List ScanInformation) : List ScanInformation :=
  list.filter fun si => si.type ≠ .offset

/-- The length of the longest pattern of a list. -/
def maxSize (list : List ScanInformation) : Nat :=
  longest ((patterns list).filterMap fun si => (packScan si.scan).toOption)

/-- The locations under a hash. -/
def World.locations (w : World) (k : UInt64) : List Int :=
  (w.valueAt k).res.map fun (rva : Nat) => w.container.lib + (rva : Int)

/-- Nothing is cached. -/
structure Uncached (w : World) : Prop where
  synced : Synced w
  empty : ∀ k, w.valueAt k = {}

section Finds

variable (p : Platform)

/-- A call finds for each pattern the locations that a scan of this pattern finds. -/
def FindsAll (list : List ScanInformation) (w : World) : Prop :=
  ∀ si ∈ patterns list, ∃ locs, scanLibrary p w.container.lib si.scan false = .ok locs ∧
    ∀ x, x ∈ locs ↔ x ∈ (endState (loadScansMulti p list w)).locations si.key

/-- The pattern stands at an offset of a readable region, and `x` is the location. -/
def Match (lib : Int) (si : ScanInformation) (region : MemoryRegion) (off : Nat) (x : Int) : Prop :=
  region ∈ readableRegions p lib ∧ ∃ scan, packScan si.scan = .ok scan ∧
    scan.matchesAt region off = true ∧ x = scan.location region off

/-- One walk does for all patterns: they are well formed, what they match lies in the 4 GiB from
the module on, patterns of one hash match the same, and each match that starts too near to the
end of a region for the longest pattern is made elsewhere, too. -/
structure SharedWalk (lib : Int) (list : List ScanInformation) : Prop where
  accepted : ∀ si ∈ patterns list, ∃ scan, packScan si.scan = .ok scan ∧ scan.size ≤ lazySize
  within : ∀ si ∈ patterns list, ∀ region off x, Match p lib si region off x →
    lib ≤ x ∧ x < lib + 2 ^ 32
  sameHash : ∀ si ∈ patterns list, ∀ sj ∈ patterns list, si.key = sj.key →
    ∀ region off x, Match p lib sj region off x → ∃ region off, Match p lib si region off x
  early : ∀ si ∈ patterns list, ∀ region off x, Match p lib si region off x →
    region.data.length < off + maxSize list →
    ∃ sj ∈ patterns list, sj.key = si.key ∧ ∃ region off, Match p lib sj region off x ∧
      off + maxSize list ≤ region.data.length

variable {p} {w w' : World} {list : List ScanInformation} {lib : Int}

theorem rloc_eq {x : Int} (h : lib ≤ x ∧ x < lib + 2 ^ 32) : lib + (rloc lib x : Int) = x := by
  unfold rloc
  omega

theorem rloc_within (lib x : Int) :
    lib ≤ lib + (rloc lib x : Int) ∧ lib + (rloc lib x : Int) < lib + 2 ^ 32 := by
  unfold rloc
  omega

theorem mem_scanLibrary {si : ScanInformation} {locs : List Int}
    (h : scanLibrary p lib si.scan false = .ok locs) (x : Int) :
    x ∈ locs ↔ ∃ region off, Match p lib si region off x := by
  obtain ⟨scan, hpack, -, rfl⟩ := scanLibrary_ok h
  rw [mem_scanRegions]
  constructor
  · rintro ⟨region, hregion, off, hm, hx⟩
    exact ⟨region, off, hregion, scan, hpack, hm, hx⟩
  · rintro ⟨region, off, hregion, scan', hpack', hm, hx⟩
    cases hpack.symm.trans hpack'
    exact ⟨region, hregion, off, hm, hx⟩

theorem patterns_pending (w : World) (list : List ScanInformation) :
    patterns (list.filter (pending w)) = list.filter (pending w) := by
  apply List.filter_eq_self.mpr
  intro si hsi
  have hpending := (List.mem_filter.mp hsi).2
  simp only [Hook.pending, Bool.and_eq_true] at hpending
  exact hpending.1

theorem Uncached.pending (h : Uncached w) : list.filter (pending w) = patterns list := by
  unfold patterns
  congr 1
  funext si
  unfold Hook.pending
  rw [h.empty]
  exact Bool.and_true _

/-- The longest compiled pattern is the longest of those that are searched. -/
theorem Packs.maxSize {comp : Compiled} (h : Packs w list comp) :
    comp.maxSize = Hook.maxSize (list.filter (Hook.pending w)) := by
  rw [h.indexes.maxSize, Hook.maxSize, patterns_pending, ← h.cscans, List.filterMap_map]
  congr 1
  have hall := h.indexes.packed
  generalize comp.cscans = cscans at hall
  induction cscans with
  | nil => rfl
  | cons cs cscans ih =>
    rw [List.map_cons, ih fun c hc => hall c (List.mem_cons_of_mem cs hc),
      List.filterMap_cons_some]
    show (packScan cs.scan.scan).toOption = some cs.packed
    rw [hall cs List.mem_cons_self]
    rfl

theorem Packs.maxSize_uncached {comp : Compiled} (h : Packs w list comp) (hw : Uncached w) :
    comp.maxSize = Hook.maxSize list := by
  have hpatterns := patterns_pending w list
  rw [hw.pending] at hpatterns
  rw [h.maxSize, hw.pending, Hook.maxSize, hpatterns, Hook.maxSize]

/-- Well-formed patterns are searched, whatever becomes of their results. -/
theorem searched_of_accepted (hw : Uncached w)
    (h : ∀ si ∈ patterns list, ∃ scan, packScan si.scan = .ok scan ∧ scan.size ≤ lazySize) :
    Searched p w list (endState (loadScansMulti p list w)) := by
  have hends := loadScansMulti_ends p list hw.synced
  have hmem : ∀ si ∈ list, pending w si = true → si ∈ patterns list := by
    intro si hsi hpending
    rw [← hw.pending]
    exact List.mem_filter.mpr ⟨hsi, hpending⟩
  cases hrun : loadScansMulti p list w with
  | ok a w' => exact (hends.ok hrun).searched
  | error e w' =>
    rcases hends.error hrun with ⟨⟨si, hsi, hpending, hpack⟩, -⟩ | ⟨-, hloads⟩ | ⟨-, hcases⟩
    · obtain ⟨scan, hscan, -⟩ := h si (hmem si hsi hpending)
      cases hscan.symm.trans hpack
    · exact hloads.searched
    · rcases hcases with ⟨si, -, -, hloaded⟩ | hsearched
      · rw [hw.empty] at hloaded
        cases hloaded
      · exact hsearched

/-- **What is found under a hash**: what its patterns match, short of the ends of the regions. -/
theorem mem_locations (hw : Uncached w) (h : Searched p w list w') {k : UInt64} {x : Int} :
    x ∈ w'.locations k ↔ ∃ sj ∈ patterns list, sj.key = k ∧ ∃ region off y,
      Match p w.container.lib sj region off y ∧ off + Hook.maxSize list ≤ region.data.length ∧
        x = w.container.lib + rloc w.container.lib y := by
  obtain ⟨hlib, comp, hpacks, hres⟩ := h
  unfold World.locations
  rw [hlib, hres, hw.empty]
  simp only [List.mem_map, mem_foldl_pushNew, List.not_mem_nil, false_or, Compiled.found,
    List.mem_flatMap]
  constructor
  · rintro ⟨rva, ⟨⟨region, off⟩, hplace, hrva⟩, rfl⟩
    obtain ⟨cs, hcs, hkey, hm, rfl⟩ := (mem_hitsOf hpacks.indexes).mp hrva
    obtain ⟨hregion, hoff⟩ := mem_places.mp hplace
    have hmem := hpacks.pending hcs
    have hpattern : cs.scan ∈ patterns list := by
      rw [← hw.pending]
      exact List.mem_filter.mpr hmem
    rw [hpacks.maxSize_uncached hw] at hoff
    exact ⟨cs.scan, hpattern, hkey, region, off, _,
      ⟨hregion, cs.packed, hpacks.indexes.packed cs hcs, hm, rfl⟩, hoff, rfl⟩
  · rintro ⟨sj, hsj, hkey, region, off, y, ⟨hregion, scan, hpack, hm, rfl⟩, hoff, rfl⟩
    rw [← hw.pending] at hsj
    obtain ⟨cs, hcs, rfl⟩ := hpacks.compiled (List.mem_filter.mp hsj).1 (List.mem_filter.mp hsj).2
    cases (hpacks.indexes.packed cs hcs).symm.trans hpack
    rw [← hpacks.maxSize_uncached hw] at hoff
    exact ⟨_, ⟨(region, off), mem_places.mpr ⟨hregion, hoff⟩,
      (mem_hitsOf hpacks.indexes).mpr ⟨cs, hcs, hkey, hm, rfl⟩⟩, rfl⟩

/-- **A call finds for each pattern what a scan of it finds exactly when one walk does.** -/
theorem findsAll_iff (hw : Uncached w) : FindsAll p list w ↔ SharedWalk p w.container.lib list := by
  constructor
  · intro h
    have haccepted : ∀ si ∈ patterns list,
        ∃ scan, packScan si.scan = .ok scan ∧ scan.size ≤ lazySize := by
      intro si hsi
      obtain ⟨locs, hlocs, -⟩ := h si hsi
      obtain ⟨scan, hpack, hsize, -⟩ := scanLibrary_ok hlocs
      exact ⟨scan, hpack, hsize⟩
    have hsearched := searched_of_accepted (p := p) hw haccepted
    -- a match is a location that the call has found
    have hfound : ∀ si ∈ patterns list, ∀ x,
        (∃ region off, Match p w.container.lib si region off x) ↔
          x ∈ (endState (loadScansMulti p list w)).locations si.key := by
      intro si hsi x
      obtain ⟨locs, hlocs, hall⟩ := h si hsi
      rw [← mem_scanLibrary hlocs x]
      exact hall x
    have hwithin : ∀ si ∈ patterns list, ∀ region off x, Match p w.container.lib si region off x →
        w.container.lib ≤ x ∧ x < w.container.lib + 2 ^ 32 := by
      intro si hsi region off x hm
      have hx := (hfound si hsi x).mp ⟨region, off, hm⟩
      obtain ⟨sj, hsj, -, region', off', y, -, -, rfl⟩ := (mem_locations hw hsearched).mp hx
      exact rloc_within _ y
    refine ⟨haccepted, hwithin, ?_, ?_⟩
    · intro si hsi sj hsj hkey region off x hm
      have hx := (hfound sj hsj x).mp ⟨region, off, hm⟩
      rw [← hkey] at hx
      exact (hfound si hsi x).mpr hx
    · intro si hsi region off x hm _
      have hx := (hfound si hsi x).mp ⟨region, off, hm⟩
      obtain ⟨sj, hsj, hkey, region', off', y, hm', hoff, hxy⟩ :=
        (mem_locations hw hsearched).mp hx
      rw [rloc_eq (hwithin sj hsj region' off' y hm')] at hxy
      exact ⟨sj, hsj, hkey, region', off', hxy ▸ hm', hoff⟩
  · intro h si hsi
    have hsearched := searched_of_accepted (p := p) hw h.accepted
    obtain ⟨scan, hpack, hsize⟩ := h.accepted si hsi
    refine ⟨_, scanLibrary_eq hpack hsize, fun x => ?_⟩
    rw [mem_scanLibrary (scanLibrary_eq hpack hsize) x, mem_locations hw hsearched]
    constructor
    · rintro ⟨region, off, hm⟩
      by_cases hoff : off + Hook.maxSize list ≤ region.data.length
      · exact ⟨si, hsi, rfl, region, off, x, hm, hoff, (rloc_eq (h.within si hsi _ _ _ hm)).symm⟩
      · obtain ⟨sj, hsj, hkey, region', off', hm', hoff'⟩ :=
          h.early si hsi region off x hm (Nat.lt_of_not_le hoff)
        exact ⟨sj, hsj, hkey, region', off', x, hm', hoff',
          (rloc_eq (h.within sj hsj _ _ _ hm')).symm⟩
    · rintro ⟨sj, hsj, hkey, region, off, y, hm, -, rfl⟩
      rw [rloc_eq (h.within sj hsj region off y hm)]
      exact h.sameHash si hsi sj hsj hkey.symm region off y hm

end Finds

section Example

/-- A module of two readable bytes. -/
def twoBytes : Platform where
  getUID _ := 1
  enumerateMemoryRegions _ := [⟨0x1000, [0x41, 0x42], true⟩]
  peek32 _ := none

def absoluteScan (scan : Pattern) (ref : Nat) : ScanInformation :=
  ⟨scan, .absolute, 0, 0, true, false, ref⟩

/-- A container for it, with nothing cached. -/
def twoBytesWorld : World :=
  let w := newContainer twoBytes 0x1000 false fun _ => none
  { w with container := { w.container with sync := true } }

theorem twoBytesWorld_uncached : Uncached twoBytesWorld := ⟨.inr rfl, fun _ => rfl⟩

/-- `42` alone is found. -/
theorem one_pattern_found : FindsAll twoBytes [absoluteScan [0x34, 0x32] 0] twoBytesWorld := by
  apply (findsAll_iff twoBytesWorld_uncached).mpr
  have hone : ∀ si ∈ patterns [absoluteScan [0x34, 0x32] 0],
      packScan si.scan = .ok ⟨⟨0xFF, 0x42⟩, [], 0⟩ := by decide
  have hmatch : ∀ si ∈ patterns [absoluteScan [0x34, 0x32] 0], ∀ region off x,
      Match twoBytes twoBytesWorld.container.lib si region off x →
        region = ⟨0x1000, [0x41, 0x42], true⟩ ∧ off + 1 ≤ 2 ∧ x = 0x1000 + off := by
    rintro si hsi region off x ⟨hregion, scan, hpack, hm, rfl⟩
    have hregion : region = ⟨0x1000, [0x41, 0x42], true⟩ := List.mem_singleton.mp hregion
    cases (hone si hsi).symm.trans hpack
    subst hregion
    exact ⟨rfl, PackedScan.matchesAt_bound hm, Int.sub_zero _⟩
  refine ⟨fun si hsi => ⟨_, hone si hsi, by decide⟩, ?_, ?_, ?_⟩
  · intro si hsi region off x hm
    obtain ⟨-, hoff, rfl⟩ := hmatch si hsi region off x hm
    show (0x1000 : Int) ≤ _ ∧ _ < (0x1000 : Int) + 2 ^ 32
    omega
  · intro si hsi sj hsj _ region off x hm
    have hsi := List.mem_singleton.mp hsi
    have hsj := List.mem_singleton.mp hsj
    rw [hsj.trans hsi.symm] at hm
    exact ⟨region, off, hm⟩
  · intro si hsi region off x hm hlate
    obtain ⟨rfl, hoff, -⟩ := hmatch si hsi region off x hm
    have hmax : maxSize [absoluteScan [0x34, 0x32] 0] = 1 := by decide
    rw [hmax] at hlate
    exact absurd hlate (Nat.not_lt.mpr hoff)

/-- Next to `41 42` the pattern `42` is not found: the walk stops two bytes before the end. -/
theorem short_pattern_missed :
    ¬FindsAll twoBytes
      [absoluteScan [0x34, 0x31, 0x20, 0x34, 0x32] 0, absoluteScan [0x34, 0x32] 1]
      twoBytesWorld := by
  intro h
  obtain ⟨locs, hlocs, hall⟩ := h (absoluteScan [0x34, 0x32] 1) (by decide)
  have hscan : scanLibrary twoBytes twoBytesWorld.container.lib [0x34, 0x32] false =
      .ok [0x1001] := by decide
  have hlocs : locs = [0x1001] := Except.ok.inj (hlocs.symm.trans hscan)
  have hfound := (hall 0x1001).mp (by rw [hlocs]; exact List.mem_singleton_self _)
  have hempty : (endState (loadScansMulti twoBytes
      [absoluteScan [0x34, 0x31, 0x20, 0x34, 0x32] 0, absoluteScan [0x34, 0x32] 1]
      twoBytesWorld)).locations (absoluteScan [0x34, 0x32] 1).key = [] := by decide +kernel
  rw [hempty] at hfound
  cases hfound

end Example

end Acts.Hook
