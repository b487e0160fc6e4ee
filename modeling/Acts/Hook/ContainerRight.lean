import Acts.Hook.ContainerRuns

/-!
# The results of a run are right

* `found_eq` — what `LoadScansMulti` records for a pattern is what `ScanLibrary` finds.
* `Inv.sync`, `Inv.scan`, `Inv.loadScans`, `Inv.save`, `Inv.load` — one lemma for each operation.
* `run_right` — the results of every step of a run.
-/

set_option autoImplicit false

namespace Acts.Hook

/-! ## The results of one walk, in order -/

section Walk

variable {p : Platform} {w : World} {list : List ScanInformation} {scan : PackedScan} {lib : Int}

/-- The locations of a pattern, short of the ends of the regions. -/
def PackedScan.walked (scan : PackedScan) (bound : Nat) (regions : List MemoryRegion) : List Int :=
  ((places bound regions).filter fun place => scan.matchesAt place.1 place.2).map
    fun place => scan.location place.1 place.2

theorem mem_walked {bound : Nat} {regions : List MemoryRegion} {x : Int} :
    x ∈ scan.walked bound regions ↔ ∃ region ∈ regions, ∃ off,
      off + bound ≤ region.data.length ∧ scan.matchesAt region off = true ∧
        x = scan.location region off := by
  unfold PackedScan.walked
  simp only [List.mem_map, List.mem_filter, Prod.exists, mem_places]
  constructor
  · rintro ⟨region, off, ⟨⟨hregion, hoff⟩, hm⟩, rfl⟩
    exact ⟨region, hregion, off, hoff, hm, rfl⟩
  · rintro ⟨region, hregion, off, hoff, hm, rfl⟩
    exact ⟨region, off, ⟨⟨hregion, hoff⟩, hm⟩, rfl⟩

/-- A walk with a larger bound leaves some locations out. -/
theorem walked_sublist (scan : PackedScan) {bound : Nat} (hbound : scan.size ≤ bound) (regions : List MemoryRegion) :
    (scan.walked bound regions).Sublist (regions.flatMap scan.scanRegion) := by
  induction regions with
  | nil => exact List.Sublist.refl _
  | cons region regions ih =>
    have hsplit : scan.walked bound (region :: regions) =
        (scan.offsets bound region).map (scan.location region) ++ scan.walked bound regions := by
      unfold PackedScan.walked places PackedScan.offsets
      rw [List.flatMap_cons, List.filter_append, List.map_append, List.filter_map, List.map_map]
      rfl
    rw [hsplit, List.flatMap_cons]
    refine List.Sublist.append ?_ ih
    unfold PackedScan.scanRegion PackedScan.offsets
    apply List.Sublist.map
    apply List.Sublist.filter
    rw [List.range_sublist]
    omega

theorem le_longest {scans : List PackedScan} (h : scan ∈ scans) : scan.size ≤ longest scans := by
  have hinit : ∀ (scans : List PackedScan) (n : Nat),
      n ≤ scans.foldl (fun n scan => max n scan.size) n := by
    intro scans
    induction scans with
    | nil => exact fun n => Nat.le_refl n
    | cons scan scans ih => exact fun n => Nat.le_trans (Nat.le_max_left n _) (ih _)
  unfold longest
  generalize 0 = n
  induction scans generalizing n with
  | nil => cases h
  | cons first scans ih =>
    rw [List.foldl_cons]
    rcases List.mem_cons.mp h with rfl | h
    · exact Nat.le_trans (Nat.le_max_right n _) (hinit scans _)
    · exact ih h _

/-- **One walk finds the locations of a pattern in the order of a scan.** -/
theorem walked_eq {si : ScanInformation} (hsi : si ∈ patterns list)
    (hpack : packScan si.scan = .ok scan)
    (hhash : ∀ sj ∈ patterns list, sj.key = si.key → packScan sj.scan = packScan si.scan)
    (hordered : Ordered (p.enumerateMemoryRegions lib)) (h : SharedWalk p lib list) :
    scan.walked (maxSize list) (readableRegions p lib) =
      (readableRegions p lib).flatMap scan.scanRegion := by
  have hmem : scan ∈ (patterns list).filterMap fun si => (packScan si.scan).toOption := by
    refine List.mem_filterMap.mpr ⟨si, hsi, ?_⟩
    rw [hpack]
    rfl
  have hsub := walked_sublist scan (le_longest hmem) (readableRegions p lib)
  apply hsub.eq_of_length_le
  apply List.Subperm.length_le
  have hnodup : ((readableRegions p lib).flatMap scan.scanRegion).Nodup :=
    (scanRegions_sorted scan (readableRegions_ordered hordered)).imp fun hlt => by omega
  apply List.subperm_of_subset hnodup
  intro x hx
  obtain ⟨region, hregion, off, hm, rfl⟩ := mem_scanRegions.mp hx
  apply mem_walked.mpr
  by_cases hoff : off + maxSize list ≤ region.data.length
  · exact ⟨region, hregion, off, hoff, hm, rfl⟩
  · obtain ⟨sj, hsj, hkey, region', off', ⟨hregion', scan', hpack', hm', hx'⟩, hoff'⟩ :=
      h.early si hsi region off _ ⟨hregion, scan, hpack, hm, rfl⟩ (Nat.lt_of_not_le hoff)
    cases (hhash sj hsj hkey ▸ hpack').symm.trans hpack
    exact ⟨region', hregion', off', hoff', hm', hx'⟩

/-- **What a call records for a pattern is what a scan of it finds.** -/
theorem found_eq {comp : Compiled} (hpacks : Packs w list comp) {si : ScanInformation}
    (hsi : si ∈ list.filter (pending w)) (hpack : packScan si.scan = .ok scan)
    (hhash : ∀ sj ∈ list.filter (pending w), sj.key = si.key →
      packScan sj.scan = packScan si.scan)
    (hordered : Ordered (p.enumerateMemoryRegions lib))
    (h : SharedWalk p lib (list.filter (pending w))) :
    (comp.found p lib si.key).foldl pushNew [] =
      ((readableRegions p lib).flatMap scan.scanRegion).map (rloc lib) := by
  rw [← patterns_pending] at hsi hhash
  have hwalk := walked_eq hsi hpack hhash hordered h
  rw [← hpacks.maxSize] at hwalk
  have hwithin : ∀ x ∈ (readableRegions p lib).flatMap scan.scanRegion,
      lib ≤ x ∧ x < lib + 2 ^ 32 := by
    intro x hx
    obtain ⟨region, hregion, off, hm, rfl⟩ := mem_scanRegions.mp hx
    exact h.within si hsi region off _ ⟨hregion, scan, hpack, hm, rfl⟩
  -- the places at which the pattern stands, with the `rva` recorded there
  have hrvas : ((places comp.maxSize (readableRegions p lib)).filter
        fun place => scan.matchesAt place.1 place.2).map
        (fun place => rloc lib (scan.location place.1 place.2)) =
      ((readableRegions p lib).flatMap scan.scanRegion).map (rloc lib) := by
    rw [← hwalk, PackedScan.walked, List.map_map]
    rfl
  have hnodup : (((readableRegions p lib).flatMap scan.scanRegion).map (rloc lib)).Nodup := by
    have hlt := scanRegions_sorted scan (readableRegions_ordered hordered)
    refine List.Nodup.map_on ?_ (hlt.imp fun hlt => by omega)
    intro x hx y hy hxy
    rw [← rloc_eq (hwithin x hx), ← rloc_eq (hwithin y hy), hxy]
  have hpacked : ∀ cs ∈ comp.cscans, cs.key = si.key → cs.packed = scan := by
    intro cs hcs hkey
    have hcsmem := List.mem_filter.mpr (hpacks.pending hcs)
    rw [← patterns_pending] at hcsmem
    have hsame := hhash cs.scan hcsmem hkey
    rw [hpacks.indexes.packed cs hcs, hpack] at hsame
    exact Except.ok.inj hsame
  have hblocks : ((places comp.maxSize (readableRegions p lib)).flatMap
      (comp.hitsOf lib si.key)).foldl pushNew [] =
      [] ++ ((places comp.maxSize (readableRegions p lib)).filter
        fun place => scan.matchesAt place.1 place.2).map
        fun place => rloc lib (scan.location place.1 place.2) := by
    apply foldl_pushNew_blocks
    · rintro ⟨region, off⟩ - hm
      constructor
      · have hsi := List.mem_filter.mp (patterns_pending w list ▸ hsi)
        obtain ⟨cs, hcs, rfl⟩ := hpacks.compiled hsi.1 hsi.2
        apply List.ne_nil_of_mem (a := rloc lib (scan.location region off))
        refine (mem_hitsOf hpacks.indexes).mpr ⟨cs, hcs, rfl, ?_⟩
        rw [hpacked cs hcs rfl]
        exact ⟨hm, rfl⟩
      · intro rva hrva
        obtain ⟨cs, hcs, hkey, -, rfl⟩ := (mem_hitsOf hpacks.indexes).mp hrva
        rw [hpacked cs hcs hkey]
    · rintro ⟨region, off⟩ - hm
      rw [List.eq_nil_iff_forall_not_mem]
      intro rva hrva
      obtain ⟨cs, hcs, hkey, hstands, -⟩ := (mem_hitsOf hpacks.indexes).mp hrva
      rw [hpacked cs hcs hkey] at hstands
      exact Bool.false_ne_true (hm.symm.trans hstands)
    · rw [List.nil_append, hrvas]
      exact hnodup
  exact hblocks.trans ((List.nil_append _).trans hrvas)

end Walk

/-! ## The operations -/

section Steps

variable {p : Platform} {s : Setting p} {w w' : World} {g : Ghost} {path : Pattern}
  {list : List ScanInformation}

/-- The state behind a `Sync` that reads the store file. -/
def synced (p : Platform) (w : World) : World :=
  { w with
    container := { w.container with
      results := (stored p w.files w.container.lib).1
      sync := true } }

theorem Inv.lib_ne (h : Inv s w g) : w.container.lib ≠ 0 := s.nonnull _ h.library

theorem Inv.of_touched {b : Bool} (h : Inv s w g) (hw : Touched (w.ignoring b) w') : Inv s w' g where
  library := hw.lib ▸ h.library
  uid := by rw [hw.uid, hw.lib]; exact h.uid
  path := by rw [hw.scanPath, hw.lib]; exact h.path
  used := h.used
  unsynced hsync := by
    rw [hw.sync] at hsync
    obtain ⟨hempty, hupdate, hunsaved⟩ := h.unsynced hsync
    refine ⟨fun k => ?_, hw.anyUpdate.trans hupdate, hunsaved⟩
    rw [hw.valueAt]
    exact hempty k
  cache hsync := by
    rw [hw.sync] at hsync
    rw [show w'.valueAt = w.valueAt from funext hw.valueAt]
    exact h.cache hsync
  files l hl hclean := by
    rw [hw.files]
    rw [hw.anyUpdate] at hclean
    exact h.files l hl hclean

/-- A `Sync` that reads its store file to the end. -/
theorem sync_stored {force : Bool} (hlib : w.container.lib ≠ 0)
    (huid : w.container.uid = libraryUID p w.container.lib)
    (hpath : w.container.scanPath = getContainerPath (libraryUID p w.container.lib))
    (heff : (force || !w.container.sync) = true)
    (hcomplete : (stored p w.files w.container.lib).2 = true) :
    Hook.sync force w = .ok ⟨⟩ (synced p w) := by
  have hguard : ¬((w.container.lib = 0 : Bool) || (w.container.sync && !force)) = true := by
    cases force <;> cases hs : w.container.sync <;> simp [hlib, hs] at heff ⊢
  have hstored : stored p w.files w.container.lib =
      readFile w.container.uid (w.container.scanPath.bind w.files) := by
    rw [hpath, huid]
    rfl
  rw [hstored] at hcomplete
  unfold Hook.sync synced
  rw [if_neg hguard, hstored]
  dsimp only
  cases hfile : w.container.scanPath.bind w.files with
  | none => rfl
  | some bytes =>
    rw [hfile] at hcomplete
    have hcomplete : (readStore w.container.uid bytes).2 = true := hcomplete
    dsimp only
    rw [if_pos hcomplete]
    rfl

/-- **`Sync`** reads the results of the library, where nothing unsaved is dropped. -/
theorem Inv.sync (h : Inv s w g) (force : Bool) (heff : (force || !w.container.sync) = true)
    (hclean : w.container.anyUpdate = false ∧ g.unsaved = false) :
    Hook.sync force w = .ok ⟨⟩ (synced p w) ∧
      Inv s (synced p w) { g with cacheOf := w.container.lib, unsaved := false } := by
  obtain ⟨hcomplete, hholds⟩ := h.files _ h.library (.inr hclean)
  refine ⟨sync_stored h.lib_ne h.uid h.path heff hcomplete, ?_⟩
  exact
    { library := h.library
      uid := h.uid
      path := h.path
      used := h.used
      unsynced := fun hsync => by cases hsync
      cache := fun _ => hholds
      files := fun l hl _ => h.files l hl (.inr hclean) }

/-- The `Sync()` of an operation. -/
theorem Inv.settle (h : Inv s w g) (op : Op) :
    Inv s (op.settle w) (g.settle op w) ∧ (op.settle w).container.lib = w.container.lib ∧
      (op.syncs = true → Hook.sync false w = .ok ⟨⟩ (op.settle w) ∧
        (op.settle w).container.sync = true) := by
  unfold Op.settle Ghost.settle
  cases hop : op.syncs with
  | false => exact ⟨h, rfl, fun h => by cases h⟩
  | true =>
    cases hsync : w.container.sync with
    | true =>
      have hnone := sync_of_synced (w := w) (.inr hsync)
      rw [hnone]
      exact ⟨h, rfl, fun _ => ⟨rfl, hsync⟩⟩
    | false =>
      obtain ⟨-, hupdate, hunsaved⟩ := h.unsynced hsync
      obtain ⟨hrun, hinv⟩ := h.sync false (by simp [hsync]) ⟨hupdate, hunsaved⟩
      rw [hrun]
      refine ⟨?_, rfl, fun _ => ⟨rfl, rfl⟩⟩
      have hg : g = { g with unsaved := false } := by rw [← hunsaved]
      rw [hg]
      exact hinv

/-- Patterns that the cache answers join the history. -/
theorem Inv.extend (h : Inv s w g) (hsync : w.container.sync = true)
    (hcache : g.cacheOf = w.container.lib) {es : History}
    (hes : ∀ e ∈ es, e.1 = w.container.lib ∧ s.Used e.2 ∧
      (w.valueAt (hash64 e.2)).loaded = true) :
    Inv s w { g with history := g.history ++ es } where
  library := h.library
  uid := h.uid
  path := h.path
  used e he := by
    rcases List.mem_append.mp he with he | he
    · exact h.used e he
    · exact (hes e he).2.1
  unsynced hs := absurd (hsync.symm.trans hs) (by simp)
  cache _ := (h.cache hsync).extend fun e he _ => (hes e he).2.2
  files l hl hclean := by
    obtain ⟨hcomplete, hholds⟩ := h.files l hl hclean
    refine ⟨hcomplete, hholds.extend fun e he hel => ?_⟩
    -- the file has a pattern of this hash, since the cache has its result from the history
    obtain ⟨hlib, -, hloaded⟩ := hes e he
    obtain ⟨-, q, -, hq, hkey, -⟩ := (h.cache hsync).sound _ hloaded
    rw [← hkey]
    apply hholds.complete
    rw [← hel, hlib, ← hcache]
    exact hq

theorem Inv.cacheHolds (h : Inv s w g) (hsync : w.container.sync = true)
    (hcache : g.cacheOf = w.container.lib) :
    Holds p g.history w.container.lib w.valueAt := hcache ▸ h.cache hsync

/-- **`Scan`** returns what a scan of the library finds, and records it. -/
theorem Inv.scan (h : Inv s w g) (hsync : w.container.sync = true)
    (hallowed : Allowed s (.scan path) w g) :
    Inv s (endState (Hook.scan p path w))
        (g.after (.scan path) w (endState (Hook.scan p path w))) ∧
      ∀ r w', Hook.scan p path w = .ok r w' →
        scanLibrary p w.container.lib path false = .ok r := by
  obtain ⟨hused, hcache, hwithin⟩ := hallowed
  have hholds := h.cacheHolds hsync hcache
  cases hloaded : (w.valueAt (hash64 path)).loaded with
  | true =>
    have hrun := scan_of_loaded (p := p) (.inr hsync) hloaded
    rw [hrun, endState_ok, Ghost.after_loaded hloaded]
    constructor
    · apply h.extend hsync hcache
      intro e he
      rw [List.mem_singleton.mp he]
      exact ⟨rfl, hused, hloaded⟩
    · intro r w' hr
      cases hr
      exact hholds.answer h.used hused hloaded
  | false =>
    cases hscan : scanLibrary p w.container.lib path false with
    | error e =>
      have htouched := touched_touch w (hash64 path)
      have hfailed := (congrArg ResultValue.loaded (htouched.valueAt (hash64 path))).trans hloaded
      rw [scan_of_error (.inr hsync) hloaded hscan, endState_error, Ghost.after_failed hfailed]
      refine ⟨h.of_touched (b := w.container.ignoreMissing) htouched, ?_⟩
      intro r w' hr
      cases hr
    | ok r =>
      obtain ⟨results, hrun, hlookup⟩ := scan_of_ok (.inr hsync) hloaded hscan
      rw [hrun, endState_ok]
      have hvalue : ∀ k, World.valueAt { w with
          container := { w.container with results := results, anyUpdate := true } } k =
          if k = hash64 path then ⟨true, r.map (rloc w.container.lib)⟩ else w.valueAt k := by
        intro k
        unfold World.valueAt
        rw [hlookup, hholds.fresh _ hloaded, List.nil_append]
        split
        · rfl
        · rfl
      have hnew := hvalue (hash64 path)
      rw [if_pos rfl] at hnew
      rw [Ghost.after_loaded (congrArg ResultValue.loaded hnew)]
      refine ⟨⟨h.library, h.uid, h.path, ?_, ?_, ?_, ?_⟩, ?_⟩
      · intro e he
        rcases List.mem_append.mp he with he | he
        · exact h.used e he
        · rw [List.mem_singleton.mp he]
          exact hused
      · intro hs
        exact absurd (hsync.symm.trans hs) (by simp)
      · intro _
        apply (h.cache hsync).update fun e he => List.mem_append_left _ he
        · intro k
          rw [hvalue]
          by_cases hk : k = hash64 path
          · rw [if_pos hk]
            refine .inr ⟨rfl, path, r, ?_, hk.symm, hcache ▸ hscan, ?_, by rw [hcache]⟩
            · rw [hcache]
              exact List.mem_append_right _ List.mem_cons_self
            · rw [hcache]
              exact hwithin hloaded r hscan
          · rw [if_neg hk]
            exact .inl rfl
        · intro q hq
          rw [hvalue]
          by_cases hk : hash64 q = hash64 path
          · rw [if_pos hk]
          · rw [if_neg hk]
            rcases List.mem_append.mp hq with hq | hq
            · exact (h.cache hsync).complete q hq
            · have hpair := List.mem_singleton.mp hq
              exact absurd (congrArg (fun e : Int × Pattern => hash64 e.2) hpair) hk
      · rintro l hl (hne | ⟨hupdate, -⟩)
        · obtain ⟨hcomplete, hfile⟩ := h.files l hl (.inl hne)
          refine ⟨hcomplete, hfile.extend fun e he hel => ?_⟩
          rw [List.mem_singleton.mp he] at hel
          exact absurd (hel.symm.trans hcache.symm) hne
        · cases hupdate
      · intro r' w' hr
        cases hr
        rfl

/-- `LoadScans` has only answered what was cached. -/
theorem Inv.cachedOnly {b : Bool} (h : Inv s w g)
    (hsync : patterns list ≠ [] → w.container.sync = true ∧ g.cacheOf = w.container.lib)
    (hused : ∀ si ∈ patterns list, s.Used si.scan) (hw : Touched (w.ignoring b) w') :
    Inv s w' (g.after (.loadScans list) w w') := by
  have hinv := h.of_touched hw
  have hvalue : ∀ k, w'.valueAt k = w.valueAt k := hw.valueAt
  have hlib : w'.container.lib = w.container.lib := hw.lib
  have hnew : (list.filter (pending w)).any (loadedIn w') = false := by
    rw [List.any_eq_false]
    intro si hsi hloaded
    have hpending := (List.mem_filter.mp hsi).2
    unfold loadedIn at hloaded
    rw [hvalue] at hloaded
    simp [pending, hloaded] at hpending
  unfold Ghost.after
  dsimp only
  rw [hnew, Bool.or_false]
  by_cases hne : patterns list = []
  · rw [hne, List.filter_nil, List.map_nil, List.append_nil]
    exact hinv
  · obtain ⟨hsync, hcache⟩ := hsync hne
    apply hinv.extend ((hw.sync).trans hsync) (hcache.trans hlib.symm)
    intro e he
    obtain ⟨si, hsi, rfl⟩ := List.mem_map.mp he
    obtain ⟨hsi, hloaded⟩ := List.mem_filter.mp hsi
    exact ⟨hlib.symm, hused si hsi, hloaded⟩

/-- A pattern that is searched. -/
theorem pattern_of_pending {si : ScanInformation} (hsi : si ∈ list.filter (pending w)) :
    si ∈ patterns list ∧ (w.valueAt si.key).loaded = false := by
  obtain ⟨hmem, hpending⟩ := List.mem_filter.mp hsi
  simp only [pending, Bool.and_eq_true, Bool.not_eq_true'] at hpending
  exact ⟨List.mem_filter.mpr ⟨hmem, hpending.1⟩, hpending.2⟩

theorem Loads.other (hl : Loads p w list w') {k : UInt64}
    (hnone : ∀ si ∈ list.filter (pending w), si.key ≠ k) : w'.valueAt k = w.valueAt k := by
  obtain ⟨comp, hpacks, hres⟩ := hl.searched.hits
  have hany : (list.filter (pending w)).any (·.key = k) = false := by
    rw [List.any_eq_false]
    intro si hsi
    simpa using hnone si hsi
  have hl := hl.loaded k
  have hr := hres k
  rw [found_other hpacks hnone] at hr
  rw [hany, Bool.or_false] at hl
  cases hv : w'.valueAt k
  cases hv' : w.valueAt k
  rw [hv, hv'] at hl hr
  cases hl
  cases hr
  rfl

/-- The values behind a call: as before, or the results of scans. -/
theorem Loads.values (hl : Loads p w list w') {history : History}
    (hholds : Holds p history w.container.lib w.valueAt)
    (hused : ∀ si ∈ patterns list, s.Used si.scan)
    (hordered : Ordered (p.enumerateMemoryRegions w.container.lib))
    (hshared : SharedWalk p w.container.lib (list.filter (pending w)))
    {history' : History} (hnew : ∀ si ∈ patterns list, (w.container.lib, si.scan) ∈ history')
    (k : UInt64) :
    w'.valueAt k = w.valueAt k ∨ Recorded p history' w.container.lib k (w'.valueAt k) := by
  obtain ⟨comp, hpacks, hres⟩ := hl.searched.hits
  have hsub : ∀ si ∈ list.filter (pending w), si ∈ patterns list :=
    fun si hsi => (pattern_of_pending hsi).1
  by_cases hk : ∃ si ∈ list.filter (pending w), si.key = k
  · obtain ⟨si, hsi, rfl⟩ := hk
    have hmem : si ∈ patterns (list.filter (pending w)) := by
      rw [patterns_pending]
      exact hsi
    obtain ⟨scan, hpack, hsize⟩ := hshared.accepted si hmem
    have hhash : ∀ sj ∈ list.filter (pending w), sj.key = si.key →
        packScan sj.scan = packScan si.scan := fun sj hsj hkey =>
      s.hashes _ _ (hused sj (hsub sj hsj)) (hused si (hsub si hsi)) hkey
    have hold := (pattern_of_pending hsi).2
    refine .inr ⟨?_, si.scan, _, hnew si (hsub si hsi), rfl, scanLibrary_eq hpack hsize, ?_, ?_⟩
    · rw [hl.loaded, List.any_eq_true.mpr ⟨si, hsi, by simp⟩, Bool.or_true]
    · intro x hx
      obtain ⟨region, hregion, off, hm, rfl⟩ := mem_scanRegions.mp hx
      exact hshared.within si hmem region off _ ⟨hregion, scan, hpack, hm, rfl⟩
    · rw [hres, hholds.fresh _ hold]
      exact found_eq hpacks hsi hpack hhash hordered hshared
  · exact .inl (hl.other fun si hsi hkey => hk ⟨si, hsi, hkey⟩)

/-- **`LoadScans`** records what scans of the library find. -/
theorem Inv.loads (h : Inv s w g) (hsync : w.container.sync = true)
    (hcache : g.cacheOf = w.container.lib) (hused : ∀ si ∈ patterns list, s.Used si.scan)
    (hshared : SharedWalk p w.container.lib (list.filter (pending w)))
    (hl : Loads p w list w') :
    Inv s w' (g.after (.loadScans list) w w') ∧ Answers p list w' := by
  obtain ⟨b, hframe⟩ := hl.frame
  have hlib : w'.container.lib = w.container.lib := hframe.lib
  have hholds := h.cacheHolds hsync hcache
  have hkept : ∀ k, (w.valueAt k).loaded = true → (w'.valueAt k).loaded = true := by
    intro k hk
    rw [hl.loaded, hk, Bool.true_or]
  have hall : ∀ si ∈ patterns list, loadedIn w' si = true := by
    intro si hsi
    obtain ⟨hsi, htype⟩ := List.mem_filter.mp hsi
    cases hold : (w.valueAt si.key).loaded with
    | true => exact hkept _ hold
    | false =>
      have hpending : pending w si = true := by
        unfold pending
        rw [hold, htype]
        rfl
      unfold loadedIn
      rw [hl.loaded, List.any_eq_true.mpr ⟨si, List.mem_filter.mpr ⟨hsi, hpending⟩, by simp⟩,
        Bool.or_true]
  have hinv : Inv s w' (g.after (.loadScans list) w w') := by
    by_cases hnone : list.filter (pending w) = []
    · have hsame : ∀ k, w'.valueAt k = w.valueAt k := fun k => hl.other fun si hsi => by
        rw [hnone] at hsi
        cases hsi
      exact h.cachedOnly (b := b) (fun _ => ⟨hsync, hcache⟩) hused ⟨hframe, hsame⟩
    · have hunsaved : (list.filter (pending w)).any (loadedIn w') = true := by
        obtain ⟨si, hsi⟩ := List.exists_mem_of_ne_nil _ hnone
        exact List.any_eq_true.mpr ⟨si, hsi, hall si (pattern_of_pending hsi).1⟩
      have hnew : ∀ si ∈ patterns list, (w.container.lib, si.scan) ∈
          (g.after (.loadScans list) w w').history := fun si hsi =>
        List.mem_append_right _ (List.mem_map.mpr ⟨si, List.mem_filter.mpr ⟨hsi, hall si hsi⟩, rfl⟩)
      refine ⟨hlib ▸ h.library, ?_, ?_, ?_, ?_, ?_, ?_⟩
      · rw [hlib]
        exact hframe.uid.trans h.uid
      · rw [hlib]
        exact hframe.scanPath.trans h.path
      · intro e he
        rcases List.mem_append.mp he with he | he
        · exact h.used e he
        · obtain ⟨si, hsi, rfl⟩ := List.mem_map.mp he
          exact hused si (List.mem_filter.mp hsi).1
      · intro hs
        exact absurd ((hframe.sync.trans hsync).symm.trans hs) (by simp)
      · intro _
        show Holds p _ g.cacheOf w'.valueAt
        rw [hcache]
        apply hholds.update fun e he => List.mem_append_left _ he
        · exact hl.values hholds hused (s.ordered _ h.library) hshared hnew
        · intro q hq
          rcases List.mem_append.mp hq with hq | hq
          · exact hkept _ (hholds.complete q hq)
          · obtain ⟨si, hsi, hpair⟩ := List.mem_map.mp hq
            obtain ⟨-, rfl⟩ := Prod.mk.inj hpair
            exact (List.mem_filter.mp hsi).2
      · rintro l hl' (hne | ⟨-, hclean⟩)
        · rw [hframe.files]
          obtain ⟨hcomplete, hfile⟩ := h.files l hl' (.inl hne)
          refine ⟨hcomplete, hfile.extend fun e he hel => ?_⟩
          obtain ⟨si, -, rfl⟩ := List.mem_map.mp he
          exact absurd (hel.symm.trans hcache.symm) hne
        · have hclean : (g.unsaved || (list.filter (pending w)).any (loadedIn w')) = false := hclean
          rw [hunsaved, Bool.or_true] at hclean
          cases hclean
  refine ⟨hinv, fun si hsi => ?_⟩
  have hloaded : (w'.valueAt (hash64 si.scan)).loaded = true := hall si hsi
  have hholds' := hinv.cacheHolds (hframe.sync.trans hsync) (hcache.trans hlib.symm)
  refine ⟨_, hholds'.answer hinv.used (hused si hsi) hloaded, ?_⟩
  unfold answer
  rw [if_pos hloaded]

/-- A call with offsets only. -/
theorem loadScans_offsets (hnone : ∀ si ∈ list, si.type = .offset) :
    ∃ b w', loadScansMulti p list w = .ok ⟨⟩ w' ∧ Touched (w.ignoring b) w' := by
  have hcompile : ∀ (list : List ScanInformation), (∀ si ∈ list, si.type = .offset) →
      ∀ w, ∃ w', compile p list {} w = .ok {} w' ∧ Touched w w' := by
    intro list
    induction list with
    | nil => exact fun _ w => ⟨w, rfl, .refl w⟩
    | cons si list ih =>
      intro hall w
      obtain ⟨w₁, hrun, h₁⟩ := loadScanOffset_touched si w
      obtain ⟨w', hrest, h'⟩ := ih (fun si' hsi' => hall si' (List.mem_cons_of_mem si hsi')) w₁
      refine ⟨w', ?_, h₁.trans h'⟩
      unfold compile
      rw [if_pos (hall si List.mem_cons_self), bind_ok hrun]
      exact hrest
  obtain ⟨w₁, hrun, h₁⟩ := hcompile list hnone (w.ignoring true)
  refine ⟨w.container.ignoreMissing, World.ignoring { w₁ with
    container := { w₁.container with foundMissing := false } } w.container.ignoreMissing, ?_, ?_⟩
  · unfold loadScansMulti
    rw [get_bind, bind_ok (setIgnoreMissing_eq true w), bind_ok hrun]
    rfl
  · exact ⟨⟨h₁.lib, h₁.uid, h₁.scanPath, h₁.savePost, h₁.sync, h₁.anyUpdate, rfl, h₁.files⟩,
      h₁.valueAt⟩

/-- **`LoadScans`**, however it ends. -/
theorem Inv.loadScans (h : Inv s w g) (hsync : patterns list ≠ [] → w.container.sync = true)
    (hallowed : Allowed s (.loadScans list) w g) :
    EndsIn (loadScansMulti p list) w
      (fun _ w' => Inv s w' (g.after (.loadScans list) w w') ∧ Answers p list w')
      (fun e w' => e = .accessViolation ∨ Inv s w' (g.after (.loadScans list) w w') ∧
        (e = .missingScans → Answers p list w')) := by
  obtain ⟨hused, hcache, hshared⟩ := hallowed
  by_cases hne : patterns list = []
  · have hnone : ∀ si ∈ list, si.type = .offset := by
      intro si hsi
      by_cases htype : si.type = .offset
      · exact htype
      · have hmem : si ∈ patterns list := List.mem_filter.mpr ⟨hsi, by simpa using htype⟩
        rw [hne] at hmem
        cases hmem
    obtain ⟨b, w', hrun, hw⟩ := loadScans_offsets (p := p) (w := w) hnone
    refine .of_ok hrun ⟨h.cachedOnly (fun hcontra => absurd hne hcontra) hused hw, ?_⟩
    intro si hsi
    rw [hne] at hsi
    cases hsi
  · have hready := hsync hne
    have hcache := hcache hne
    have haccepted : ∀ {w'}, Searched p w list w' →
        SharedWalk p w.container.lib (list.filter (pending w)) := by
      rintro w' ⟨-, comp, hpacks, -⟩
      apply hshared
      intro si hsi
      obtain ⟨hmem, hpending⟩ := List.mem_filter.mp hsi
      obtain ⟨cs, hcs, rfl⟩ := hpacks.compiled hmem hpending
      exact ⟨_, hpacks.indexes.packed cs hcs⟩
    apply (loadScansMulti_ends p list (.inr hready)).mono
    · intro _ w' hl
      exact h.loads hready hcache hused (haccepted hl.searched) hl
    · rintro e w' (⟨⟨si, hsi, hpending, hpack⟩, b, hw⟩ | ⟨-, hl⟩ | ⟨he, -⟩)
      · refine .inr ⟨h.cachedOnly (fun _ => ⟨hready, hcache⟩) hused hw, ?_⟩
        rintro rfl
        cases packScan_error hpack
      · have hloads := h.loads hready hcache hused (haccepted hl.searched) hl
        exact .inr ⟨hloads.1, fun _ => hloads.2⟩
      · exact .inl he

theorem saved_eq (hupdate : w'.container.anyUpdate = w.container.anyUpdate) :
    g.saved w w' = g := by
  unfold Ghost.saved
  rw [hupdate, Bool.and_not_self, Bool.not_false, Bool.and_true]

theorem libraryUID_inj {l l' : Int} (hl : s.Library l) (hl' : s.Library l')
    (h : libraryUID p l = libraryUID p l') : l = l' := by
  unfold libraryUID at h
  rw [if_neg (s.nonnull l hl), if_neg (s.nonnull l' hl')] at h
  exact s.uids l l' hl hl' (UInt32.toNat_inj.mp h)

theorem libraryUID_lt (l : Int) : libraryUID p l < 256 ^ 4 := by
  unfold libraryUID
  split
  · exact Nat.pow_pos (by omega)
  · exact (p.getUID l).toNat_lt

/-- The store files with that of `lib` written. -/
def written (p : Platform) (w : World) (path : Nat) : Option (List UInt8) :=
  if path = libraryUID p w.container.lib then some (storeBytes w.container) else w.files path

theorem stored_other {l : Int} (hl : s.Library l) (hlib : s.Library w.container.lib)
    (hne : l ≠ w.container.lib) : stored p (written p w) l = stored p w.files l := by
  have huid : libraryUID p l ≠ libraryUID p w.container.lib := fun h =>
    hne (libraryUID_inj hl hlib h)
  unfold stored getContainerPath
  by_cases hzero : libraryUID p l = 0
  · rw [if_pos hzero]
    rfl
  · rw [if_neg hzero]
    show readFile _ (written p w (libraryUID p l)) = readFile _ (w.files (libraryUID p l))
    unfold written
    rw [if_neg huid]

/-- What is written is read back. -/
theorem Inv.written (h : Inv s w g) (hsync : w.container.sync = true)
    (hcache : g.cacheOf = w.container.lib) (huid : libraryUID p w.container.lib ≠ 0)
    (hloaded : ∀ k v, w.container.results.lookup k = some v → v.loaded = true)
    (hcounts : w.container.results.entries.length < 256 ^ 4 ∧
      ∀ entry ∈ w.container.results.entries, entry.2.res.length < 256 ^ 4) :
    Stores p g.history (Hook.written p w) w.container.lib := by
  have hholds := h.cacheHolds hsync hcache
  have hfits : ∀ entry ∈ w.container.results.entries, EntryFits entry := by
    intro entry hentry
    refine ⟨hcounts.2 entry hentry, fun rva hrva => ?_⟩
    have hlookup : w.container.results.lookup entry.1 = some entry.2 :=
      AList.mem_lookup_iff.mpr hentry
    have hvalue : w.valueAt entry.1 = entry.2 := by
      unfold World.valueAt
      rw [hlookup]
      rfl
    have hsound := hholds.sound entry.1 (by rw [hvalue]; exact hloaded _ _ hlookup)
    obtain ⟨-, q, r, -, -, -, -, hres⟩ := hsound
    rw [← hvalue, hres] at hrva
    obtain ⟨x, -, rfl⟩ := List.mem_map.mp hrva
    unfold rloc
    omega
  have huid' : w.container.uid < 256 ^ 4 := by
    rw [h.uid]
    exact libraryUID_lt _
  obtain ⟨results, hread, hlookup⟩ := readStore_storeBytes huid' hcounts.1 hfits
  have hstored : stored p (Hook.written p w) w.container.lib = (results, true) := by
    unfold stored getContainerPath
    rw [if_neg huid]
    show readFile _ (Hook.written p w (libraryUID p w.container.lib)) = _
    unfold Hook.written
    rw [if_pos rfl, ← h.uid]
    exact hread
  have hvalues : valueIn results = w.valueAt := by
    funext k
    unfold valueIn World.valueAt
    rw [hlookup]
    cases hk : w.container.results.lookup k with
    | none => rfl
    | some v =>
      have hv := hloaded k v hk
      show ({ v with loaded := true } : ResultValue) = v
      rw [← hv]
  refine ⟨by rw [hstored], ?_⟩
  rw [hstored, hvalues]
  exact hholds

/-- **`Save`** leaves a store file with the results of the library, or throws. -/
theorem Inv.save (h : Inv s w g) (ha : SaveAllowed w g) :
    EndsIn Hook.save w
      (fun _ w' => Inv s w' (g.saved w w') ∧ w'.container.lib = w.container.lib ∧
        Stores p g.history w'.files w.container.lib)
      (fun e w' => e = .cannotOpen ∧ w' = w) := by
  cases hupdate : w.container.anyUpdate with
  | false =>
    have hrun : Hook.save w = .ok ⟨⟩ w := by
      unfold Hook.save
      rw [if_pos (by rw [hupdate]; simp)]
    refine .of_ok hrun ⟨by rw [saved_eq rfl]; exact h, rfl, ?_⟩
    apply h.files _ h.library
    by_cases hcache : g.cacheOf = w.container.lib
    · refine .inr ⟨hupdate, ?_⟩
      cases hunsaved : g.unsaved with
      | false => rfl
      | true => exact absurd (ha.dirty hunsaved hcache) (by simp [hupdate])
    · exact .inl (Ne.symm hcache)
  | true =>
    have hcache := ha.cacheOf hupdate
    have hsync : w.container.sync = true := by
      cases hsync : w.container.sync with
      | true => rfl
      | false => exact absurd ((h.unsynced hsync).2.1.symm.trans hupdate) (by simp)
    have hguard : ¬((w.container.lib = 0 : Bool) || !w.container.anyUpdate) = true := by
      simp [h.lib_ne, hupdate]
    by_cases huid : libraryUID p w.container.lib = 0
    · refine .of_error ?_ ⟨rfl, rfl⟩
      unfold Hook.save
      rw [if_neg hguard, h.path, getContainerPath, if_pos huid]
    · have hrun : Hook.save w = .ok ⟨⟩ { w with
          container := { w.container with anyUpdate := false }
          files := Hook.written p w } := by
        unfold Hook.save
        rw [if_neg hguard, h.path, getContainerPath, if_neg huid]
        rfl
      have hwritten := h.written hsync hcache huid (ha.loaded hupdate) (ha.counts hupdate)
      have hclean : (g.saved w { w with
          container := { w.container with anyUpdate := false }
          files := Hook.written p w }).unsaved = false := by
        unfold Ghost.saved
        rw [hupdate]
        exact Bool.and_false _
      refine .of_ok hrun ⟨⟨h.library, h.uid, h.path, h.used, ?_, fun hs => h.cache hs, ?_⟩, rfl,
        hwritten⟩
      · intro hs
        exact absurd (hsync.symm.trans hs) (by simp)
      · intro l hl _
        by_cases hlib : l = w.container.lib
        · rw [hlib]
          exact hwritten
        · obtain ⟨hcomplete, hholds⟩ := h.files l hl (.inl (hcache ▸ hlib))
          rw [← stored_other hl h.library hlib] at hcomplete hholds
          exact ⟨hcomplete, hholds⟩

theorem Inv.setLibrary (h : Inv s w g) {l : Int} (hl : s.Library l) :
    Inv s (w.setLibrary p l) g :=
  ⟨hl, rfl, rfl, h.used, h.unsynced, h.cache, h.files⟩

/-- **`Load`** keeps the cache, which is still the one of the library it was synced for. -/
theorem Inv.load (h : Inv s w g) {l : Int} (hallowed : Allowed s (.load l) w g) :
    EndsIn (Hook.load p l) w (fun _ w' => Inv s w' (g.saved w w'))
      (fun _ w' => Inv s w' (g.saved w w')) := by
  obtain ⟨hl, ha⟩ := hallowed
  unfold Hook.load
  apply EndsIn.get
  by_cases hguard : l ≠ w.container.lib ∧ w.container.lib ≠ 0 ∧ w.container.savePost = true
  · rw [if_pos hguard]
    apply (h.save (ha hguard.1 hguard.2.2)).bind
    · rintro e w' ⟨-, rfl⟩
      rw [saved_eq rfl]
      exact h
    · rintro _ w' ⟨hinv, -, -⟩
      exact .of_ok rfl (hinv.setLibrary hl)
  · rw [if_neg hguard]
    refine .of_ok rfl ?_
    have hsaved : g.saved w (w.setLibrary p l) = g := saved_eq rfl
    show Inv s (w.setLibrary p l) (g.saved w (w.setLibrary p l))
    rw [hsaved]
    exact h.setLibrary hl

/-- A new container answers what the store file has. -/
theorem Stores.restores {history : History} {files : Nat → Option (List UInt8)}
    (h : Stores p history files w.container.lib) (hlib : s.Library w.container.lib)
    (hused : ∀ e ∈ history, s.Used e.2) (hfiles : w.files = files) : Restores p history w := by
  subst hfiles
  refine ⟨_, sync_stored (s.nonnull _ hlib) rfl rfl rfl h.complete, ?_⟩
  intro path r
  have hanswer : answer (synced p (newContainer p w.container.lib false w.files)) path =
      if (valueIn (stored p w.files w.container.lib).1 (hash64 path)).loaded then
        some (scanCached w.container.lib
          (valueIn (stored p w.files w.container.lib).1 (hash64 path)))
      else none := rfl
  rw [hanswer]
  constructor
  · intro hr
    split at hr
    · rename_i hloaded
      obtain ⟨-, q, -, hq, hkey, -⟩ := h.holds.sound _ hloaded
      refine ⟨q, hq, hkey, ?_⟩
      rw [← Option.some.inj hr, ← hkey]
      exact h.holds.answer hused (hused _ hq) (h.holds.complete q hq)
    · cases hr
  · rintro ⟨q, hq, hkey, hscan⟩
    have hloaded := h.holds.complete q hq
    have hright := h.holds.answer hused (hused _ hq) hloaded
    rw [hkey] at hloaded hright
    rw [if_pos hloaded, Except.ok.inj (hright.symm.trans hscan)]

end Steps

/-! ## Runs -/

section Runs

variable {p : Platform} {s : Setting p} {w w₀ : World} {g g₀ : Ghost}

/-- What a step needs of its result. -/
def StepOk (s : Setting p) (op : Op) (w w₁ : World) (g₁ : Ghost)
    (out : EStateM.Result Failure World (List Int)) : Prop :=
  (¬Faults out → Inv s (endState out) (g₁.after op w₁ (endState out))) ∧
    Right p op w (g₁.after op w₁ (endState out)).history out

/-- An operation without a result, from what is known of its end. -/
theorem stepOk_of_ends {op : Op} {w₁ : World} {g₁ : Ghost} {x : M Unit}
    {Q : World → Prop} {E : Failure → World → Prop}
    (h : EndsIn x w (fun _ w' => Q w') E)
    (hQ : ∀ w', Q w' → StepOk s op w w₁ g₁ (.ok [] w'))
    (hE : ∀ e w', E e w' → StepOk s op w w₁ g₁ (.error e w')) :
    StepOk s op w w₁ g₁ ((x >>= fun _ => pure []) w) := by
  cases hx : x w with
  | ok a w' =>
    rw [bind_ok hx]
    exact hQ w' (h.ok hx)
  | error e w' =>
    rw [bind_error hx]
    exact hE e w' (h.error hx)

/-- **A step that meets the condition** keeps the invariant, and its results are right. -/
theorem step_ok (h : Inv s w g) (op : Op) (hallowed : Allowed s op (op.settle w) (g.settle op w)) :
    StepOk s op w (op.settle w) (g.settle op w) (op.run p w) := by
  obtain ⟨hinv, hlib, hsyncs⟩ := h.settle op
  cases op with
  | load l =>
    apply stepOk_of_ends (hinv.load hallowed)
    · exact fun w' hw' => ⟨fun _ => hw', trivial⟩
    · exact fun e w' hw' => ⟨fun _ => hw', trivial⟩
  | scan path =>
    obtain ⟨hsync, hready⟩ := hsyncs rfl
    have hscan := hinv.scan hready hallowed
    rw [← scan_presync (p := p) hsync (.inr hready), hlib] at hscan
    refine ⟨fun _ => hscan.1, ?_⟩
    show Right p (.scan path) w _ (Hook.scan p path w)
    unfold Right
    split
    · rename_i r w' hrun
      exact hscan.2 r w' hrun
    · trivial
  | loadScans list =>
    by_cases hne : patterns list = []
    · have hnosync : (Op.loadScans list).syncs = false := by simp [Op.syncs, hne]
      have hsettle : (Op.loadScans list).settle w = w := by
        unfold Op.settle
        rw [hnosync]
        rfl
      rw [hsettle] at hinv hallowed ⊢
      apply stepOk_of_ends (hinv.loadScans (fun hcontra => absurd hne hcontra) hallowed)
      · exact fun w' hw' => ⟨fun _ => hw'.1, hw'.2⟩
      · rintro e w' (he | hw')
        · exact ⟨fun hcontra => absurd he hcontra, fun hmissing => by rw [he] at hmissing; cases hmissing⟩
        · exact ⟨fun _ => hw'.1, hw'.2⟩
    · have hsyncs' : (Op.loadScans list).syncs = true := by simp [Op.syncs, hne]
      obtain ⟨hsync, hready⟩ := hsyncs hsyncs'
      have hsome : ∃ si ∈ list, si.type ≠ .offset := by
        obtain ⟨si, hsi⟩ := List.exists_mem_of_ne_nil _ hne
        obtain ⟨hsi, htype⟩ := List.mem_filter.mp hsi
        exact ⟨si, hsi, by simpa using htype⟩
      have hends := hinv.loadScans (fun _ => hready) hallowed
      have hrun := loadScansMulti_presync (p := p) hsync (.inr hready) hsome
      unfold EndsIn at hends
      rw [← hrun] at hends
      apply stepOk_of_ends (x := loadScansMulti p list) (w := w) hends
      · exact fun w' hw' => ⟨fun _ => hw'.1, hw'.2⟩
      · rintro e w' (he | hw')
        · exact ⟨fun hcontra => absurd he hcontra, fun hmissing => by rw [he] at hmissing; cases hmissing⟩
        · exact ⟨fun _ => hw'.1, hw'.2⟩
  | sync force =>
    have hrun : EndsIn (Hook.sync force) w
        (fun _ w' => Inv s w' (g.after (.sync force) w w')) (fun _ _ => False) := by
      unfold Ghost.after
      dsimp only
      by_cases heff : (force || !w.container.sync) = true
      · have hclean : w.container.anyUpdate = false ∧ g.unsaved = false := by
          cases hsync : w.container.sync with
          | false => exact (h.unsynced hsync).2
          | true =>
            rw [hsync, Bool.not_true, Bool.or_false] at heff
            exact hallowed heff hsync
        obtain ⟨hsync, hinv⟩ := h.sync force heff hclean
        rw [if_pos heff]
        exact .of_ok hsync hinv
      · rw [if_neg heff]
        have hnone : Hook.sync force w = .ok ⟨⟩ w := by
          unfold Hook.sync
          rw [if_pos]
          cases force <;> cases hs : w.container.sync <;> simp [hs] at heff ⊢
        exact .of_ok hnone h
    apply stepOk_of_ends hrun
    · exact fun w' hw' => ⟨fun _ => hw', trivial⟩
    · exact fun _ _ hfalse => hfalse.elim
  | save =>
    apply stepOk_of_ends (hinv.save hallowed)
    · rintro w' ⟨hw', hlib', hstores⟩
      refine ⟨fun _ => hw', ?_⟩
      rw [← hlib'] at hstores
      exact hstores.restores (hlib' ▸ h.library) h.used rfl
    · rintro e w' ⟨-, rfl⟩
      have hsaved : g.saved w' w' = g := saved_eq rfl
      refine ⟨fun _ => ?_, trivial⟩
      show Inv s w' (g.saved w' w')
      rw [hsaved]
      exact h

theorem Run.inv (h₀ : Inv s w₀ g₀) (h : Run s w₀ g₀ w g) : Inv s w g := by
  induction h with
  | start => exact h₀
  | step op _ hallowed hok ih => exact (step_ok ih op hallowed).1 hok

theorem inv_newContainer {lib : Int} (hlib : s.Library lib) (savePost : Bool) {history : History}
    {files : Nat → Option (List UInt8)} (hused : ∀ e ∈ history, s.Used e.2)
    (hfiles : ∀ l, s.Library l → Stores p history files l) :
    Inv s (newContainer p lib savePost files) ⟨lib, false, history⟩ where
  library := hlib
  uid := rfl
  path := rfl
  used := hused
  unsynced _ := ⟨fun _ => rfl, rfl, rfl⟩
  cache hsync := by cases hsync
  files l hl _ := hfiles l hl

/-- **In a run whose steps meet the condition, each result is the one of a scan of the loaded
library, and behind a `Save` a new container answers exactly the patterns that were scanned.** -/
theorem run_right (s : Setting p) (lib : Int) (hlib : s.Library lib) (savePost : Bool)
    (history : History) (files : Nat → Option (List UInt8)) (hused : ∀ e ∈ history, s.Used e.2)
    (hfiles : ∀ l, s.Library l → Stores p history files l)
    (hrun : Run s (newContainer p lib savePost files) ⟨lib, false, history⟩ w g)
    (op : Op) (hallowed : Allowed s op (op.settle w) (g.settle op w)) :
    Right p op w ((g.settle op w).after op (op.settle w) (endState (op.run p w))).history
      (op.run p w) :=
  (step_ok (hrun.inv (inv_newContainer hlib savePost hused hfiles)) op hallowed).2

end Runs

section Example

/-- `42`, in the module of two bytes. -/
def exampleSetting : Setting twoBytes where
  Used path := path = [0x34, 0x32]
  Library l := l = 0x1000
  nonnull l hl := by
    rw [hl]
    decide
  ordered l _ := List.pairwise_singleton _ _
  hashes q q' hq hq' _ := by rw [hq, hq']
  uids l l' hl hl' _ := hl.trans hl'.symm

theorem exampleSetting_stores (l : Int) (_ : exampleSetting.Library l) :
    Stores twoBytes [] (fun _ => none) l := by
  have hstored : stored twoBytes (fun _ => none) l = (∅, true) := by
    unfold stored
    cases getContainerPath (libraryUID twoBytes l) with
    | none => rfl
    | some path => rfl
  refine ⟨by rw [hstored], ?_⟩
  rw [hstored]
  exact Holds.empty fun _ hq => by cases hq

def exampleStart : World := newContainer twoBytes 0x1000 true fun _ => none

def exampleScanned : World := endState ((Op.scan [0x34, 0x32]).run twoBytes exampleStart)

def exampleGhost : Ghost := ⟨0x1000, false, [(0x1000, [0x34, 0x32])]⟩

theorem exampleScanned_entries : exampleScanned.container.results.entries =
    [⟨hash64 [0x34, 0x32], ⟨true, [1]⟩⟩] := by decide +kernel

theorem exampleRun :
    Run exampleSetting exampleStart ⟨0x1000, false, []⟩ exampleScanned exampleGhost := by
  have hallowed : Allowed exampleSetting (.scan [0x34, 0x32])
      ((Op.scan [0x34, 0x32]).settle exampleStart)
      (Ghost.settle ⟨0x1000, false, []⟩ (.scan [0x34, 0x32]) exampleStart) := by
    refine ⟨rfl, rfl, fun _ r hr x hx => ?_⟩
    have hscan : scanLibrary twoBytes 0x1000 [0x34, 0x32] false = .ok [0x1001] := by decide
    cases hscan.symm.trans hr
    rw [List.mem_singleton.mp hx]
    show (0x1000 : Int) ≤ 0x1001 ∧ (0x1001 : Int) < 0x1000 + 2 ^ 32
    decide
  exact Run.step (.scan [0x34, 0x32]) .start hallowed fun h => h

theorem exampleScanned_save : SaveAllowed exampleScanned exampleGhost := by
  refine ⟨fun h => absurd h (by decide), fun _ => rfl, fun _ k v hv => ?_, fun _ => ?_⟩
  · have hmem : (⟨k, v⟩ : Sigma fun _ : UInt64 => ResultValue) ∈
        exampleScanned.container.results.entries := AList.mem_lookup_iff.mp hv
    rw [exampleScanned_entries] at hmem
    cases List.mem_singleton.mp hmem
    rfl
  · rw [exampleScanned_entries]
    refine ⟨by decide, fun entry hentry => ?_⟩
    rw [List.mem_singleton.mp hentry]
    decide

/-- A scan and a `Save`: the store file restores the scan. -/
theorem saved_scan_restored :
    Right twoBytes .save exampleScanned [(0x1000, [0x34, 0x32])]
      (Op.save.run twoBytes exampleScanned) :=
  run_right exampleSetting 0x1000 rfl true [] (fun _ => none) (fun e he => by cases he)
    exampleSetting_stores exampleRun .save exampleScanned_save

/-- Two modules: `41` is the first byte of the one and the second byte of the other. -/
def twoModules : Platform where
  getUID l := if l = 0x1000 then 1 else 2
  enumerateMemoryRegions l :=
    [if l = 0x1000 then ⟨0x1000, [0x41, 0x00], true⟩ else ⟨0x2000, [0x00, 0x41], true⟩]
  peek32 _ := none

/-- `Load A`, `Scan`, `Load B`, `Scan` -/
def loadTwice : M (List Int) := do
  load twoModules 0x1000
  let _ ← scan twoModules [0x34, 0x31]
  load twoModules 0x2000
  scan twoModules [0x34, 0x31]

def returned : EStateM.Result Failure World (List Int) → Option (List Int)
  | .ok r _ => some r
  | .error _ _ => none

/-- The second scan answers with the offset of the first library. -/
theorem stale_after_load :
    returned (loadTwice (newContainer twoModules 0x1000 false fun _ => none)) = some [0x2000] ∧
      scanLibrary twoModules 0x2000 [0x34, 0x31] false = .ok [0x2001] := by
  decide +kernel

end Example

end Acts.Hook
