import Acts.Extension.AcefLoaded
import Mathlib.Data.List.Perm.Lattice
import Mathlib.Data.List.Range

/-!
# Queries over ACEF files

* `ReturnsAll` — what queries are for: each returns every block with its id once.
* `Index` — what holds between two queries, with the files that are loaded in their order.
* `queries_spec` — **over files whose blocks can all be loaded, every sequence of queries returns
  everything.**
-/

set_option autoImplicit false

namespace Acts.Acef

/-! ## Purpose -/

/-- What an ACEF file is written from. -/
structure Source where
  alg : UInt64
  blocks : List AcefBlock

/-- The files of a directory, each below four GiB. -/
def Written (lib : Libraries) (sources : List Source) (files : List (List UInt8)) : Prop :=
  List.Forall₂ (fun source file =>
    compressACEFBlock lib source.alg source.blocks = .ok file ∧ file.length < 2 ^ 32) sources files

/-- The contents of all blocks with an id. -/
def blocksOf (sources : List Source) (id : UInt64) : List (List UInt8) :=
  dataOf id (sources.flatMap Source.blocks)

/-- Each of the queries returns the contents of every block with its id exactly once. -/
def ReturnsAll (lib : Libraries) (sources : List Source) (files : List (List UInt8))
    (ids : List UInt64) : Prop :=
  ∃ turns results s, queries lib files turns ids .empty = .ok results s ∧
    List.Forall₂ (fun id out => ∃ contents, out = some contents ∧
      contents.Perm (blocksOf sources id)) ids results

/-- The blocks of a file can all be loaded, and their offsets fit their fields. -/
def Source.Loads (source : Source) : Prop :=
  (∀ block ∈ source.blocks, Sound source.alg block) ∧ total source.blocks < 2 ^ 32

/-! ## Files by index -/

variable {lib : Libraries} {sources : List Source} {files : List (List UInt8)}

/-- The blocks of a file. -/
def blocksAt (sources : List Source) (k : Nat) : List AcefBlock :=
  (sources[k]?.map Source.blocks).getD []

theorem flatMap_blocksAt (sources : List Source) :
    (List.range sources.length).flatMap (blocksAt sources) = sources.flatMap Source.blocks := by
  induction sources with
  | nil => rfl
  | cons source sources ih =>
    rw [List.length_cons, List.range_succ_eq_map, List.flatMap_cons, List.flatMap_cons,
      List.flatMap_map, ← ih]
    rfl

theorem withId_flatMap (id : UInt64) (ks : List Nat) (f : Nat → List AcefBlock) :
    withId id (ks.flatMap f) = ks.flatMap fun k => withId id (f k) := by
  induction ks with
  | nil => rfl
  | cons k ks ih =>
    rw [List.flatMap_cons, List.flatMap_cons, ← ih]
    exact List.filter_append _ _

/-- Files in any order, and the others. -/
theorem range_split {order : List Nat} {n : Nat} (hnodup : order.Nodup)
    (hlt : ∀ k ∈ order, k < n) :
    ∃ rest, (List.range n).Perm (order ++ rest) ∧ ∀ k ∈ rest, k < n ∧ k ∉ order := by
  refine ⟨(List.range n).filter fun k => k ∉ order, ?_, ?_⟩
  · have hin : ((List.range n).filter fun k => k ∈ order).Perm order := by
      refine (List.perm_ext_iff_of_nodup (List.nodup_range.filter _) hnodup).mpr ?_
      intro k
      simp only [List.mem_filter, List.mem_range, decide_eq_true_eq]
      exact ⟨And.right, fun hk => ⟨hlt k hk, hk⟩⟩
    have hsplit := List.filter_append_perm (fun k => decide (k ∈ order)) (List.range n)
    have hnot : (fun k => !decide (k ∈ order)) = fun k => decide (k ∉ order) := by
      funext k
      simp
    rw [hnot] at hsplit
    exact hsplit.symm.trans (hin.append_right _)
  · intro k hk
    simpa using hk

theorem Written.get {k : Nat} {source : Source} (h : Written lib sources files)
    (hk : sources[k]? = some source) :
    ∃ file final, files[k]? = some file ∧ IsFile lib source.alg source.blocks final file := by
  induction h generalizing k with
  | nil => cases hk
  | cons hfile _ ih =>
    cases k with
    | zero =>
      cases hk
      obtain ⟨final, hisFile⟩ := isFile_of_written hfile.1 hfile.2
      exact ⟨_, final, rfl, hisFile⟩
    | succ k => exact ih hk

theorem Written.length_eq (h : Written lib sources files) : files.length = sources.length :=
  (List.Forall₂.length_eq h).symm

/-! ## Index -/

/-- The locations that a file is registered with for an id, once for each block. -/
def marks (sources : List Source) (id : UInt64) (k : Nat) : List Nat :=
  List.replicate (withId id (blocksAt sources k)).length k

/-- The files of `order` are loaded, the others are not. -/
def Flags (files : List (List UInt8)) (order : List Nat) (s : AcefData) : Prop :=
  ∀ k, s.locs[k]? = files[k]?.map fun file => (⟨file, decide (k ∈ order)⟩ : AcefFileLoc)

theorem getElem?_setLoaded (s : AcefData) (k j : Nat) (loaded : Bool) :
    (s.setLoaded k loaded).locs[j]? =
      s.locs[j]?.map fun l => if k = j then { l with loaded } else l := by
  unfold AcefData.setLoaded
  dsimp only
  rw [List.getElem?_modify]
  rfl

theorem Flags.indexed {order : List Nat} {k : Nat} {s s' : AcefData} (h : Flags files order s)
    (hlocs : s'.locs = s.locs) (hk : k ∉ order) : Flags files order (s'.setLoaded k false) := by
  intro j
  rw [getElem?_setLoaded, hlocs, h, Option.map_map]
  refine congrArg (fun f => Option.map f files[j]?) (funext fun file => ?_)
  dsimp only [Function.comp]
  split
  · rename_i heq
    rw [← heq, decide_eq_false hk]
  · rfl

theorem Flags.loaded {order : List Nat} {k : Nat} {s s' : AcefData} (h : Flags files order s)
    (hlocs : s'.locs = s.locs) : Flags files (order ++ [k]) (s'.setLoaded k true) := by
  intro j
  rw [getElem?_setLoaded, hlocs, h, Option.map_map]
  refine congrArg (fun f => Option.map f files[j]?) (funext fun file => ?_)
  dsimp only [Function.comp]
  split
  · rename_i heq
    simp [heq]
  · rename_i hne
    have : j ≠ k := fun heq => hne heq.symm
    simp [this]

theorem nodup_snoc {order : List Nat} {k : Nat} (h : order.Nodup) (hk : k ∉ order) :
    (order ++ [k]).Nodup := by
  rw [List.nodup_append]
  refine ⟨h, List.nodup_singleton k, ?_⟩
  intro a ha b hb heq
  rw [List.mem_singleton] at hb
  exact hk (hb ▸ heq ▸ ha)

theorem lt_snoc {order : List Nat} {k n : Nat} (h : ∀ j ∈ order, j < n) (hk : k < n) :
    ∀ j ∈ order ++ [k], j < n := by
  intro j hj
  rcases List.mem_append.mp hj with hj | hj
  · exact h j hj
  · exact List.mem_singleton.mp hj ▸ hk

/-- The files before `m` are indexed, those of `order` are loaded. -/
structure Index (sources : List Source) (files : List (List UInt8)) (m : Nat) (order : List Nat)
    (s : AcefData) : Prop where
  called : s.called = true
  flags : Flags files order s
  nodup : order.Nodup
  lt : ∀ k ∈ order, k < sources.length
  locs : ∀ id, (s.ref id).locs =
    (List.range m).flatMap (marks sources id) ++ order.flatMap (marks sources id)
  found : ∀ id, s.map id = none ↔ (s.ref id).locs = []
  contents : ∀ id, s.contents (s.ref id).allocs =
    order.flatMap fun k => dataOf id (blocksAt sources k)
  inHeap : ∀ id, ∀ a ∈ (s.ref id).allocs, a.data + a.len ≤ s.heap.length

theorem blocksAt_eq {k : Nat} {source : Source} (h : sources[k]? = some source) :
    blocksAt sources k = source.blocks := by
  unfold blocksAt
  rw [h]
  rfl

theorem loadExtensionFile_loaded {k : Nat} {preload : Bool} {file : List UInt8} {s : AcefData}
    (h : s.locs[k]? = some ⟨file, true⟩) : loadExtensionFile lib k preload s = .ok () s := by
  unfold loadExtensionFile
  rw [get_bind, h]
  rfl

theorem loadExtensionFile_eq {k : Nat} {preload : Bool} {file : List UInt8} {s s' : AcefData}
    (h : s.locs[k]? = some ⟨file, false⟩)
    (hrun : catchWarning (loadFile lib file k preload) s = .ok () s') :
    loadExtensionFile lib k preload s = .ok () (s'.setLoaded k (!preload)) := by
  unfold loadExtensionFile
  rw [get_bind, h]
  exact bind_ok hrun

/-- Memory that is allocated later does not change what is behind an array. -/
theorem contents_prefix {s s' : AcefData} {arrays : List AcefArray} (h : s.heap <+: s'.heap)
    (hle : ∀ a ∈ arrays, a.data + a.len ≤ s.heap.length) :
    s'.contents arrays = s.contents arrays := by
  obtain ⟨more, hmore⟩ := h
  refine List.map_congr_left fun a ha => ?_
  have := hle a ha
  rw [← hmore, List.drop_append_of_le_length (by omega),
    List.take_append_of_le_length (by rw [List.length_drop]; omega)]

namespace Index

variable {m k : Nat} {order : List Nat} {s s' : AcefData} {source : Source}

theorem found_registered {arrays : UInt64 → List AcefArray} (h : Index sources files m order s)
    (hreg : Registered k source.blocks arrays s s') (id : UInt64) :
    s'.map id = none ↔ (s'.ref id).locs = [] := by
  rw [hreg.found, hreg.locs, h.found, List.append_eq_nil_iff, List.replicate_eq_nil_iff,
    List.length_eq_zero_iff]

/-- **Indexing the next file.** -/
theorem preload (h : Index sources files m [] s) (hfiles : Written lib sources files)
    (hsource : sources[m]? = some source) (hlt : total source.blocks < 2 ^ 32) :
    ∃ s', loadExtensionFile lib m true s = .ok () s' ∧ Index sources files (m + 1) [] s' := by
  obtain ⟨file, final, hfile, hisFile⟩ := hfiles.get hsource
  obtain ⟨s', hrun, hreg, hheap⟩ := loadFile_preload hisFile hlt m s
  have hloc : s.locs[m]? = some ⟨file, false⟩ := by
    rw [h.flags, hfile]
    rfl
  refine ⟨_, loadExtensionFile_eq hloc hrun, ?_, ?_, List.nodup_nil, by simp, ?_, ?_, ?_, ?_⟩
  · exact hreg.called.trans h.called
  · exact h.flags.indexed hreg.files List.not_mem_nil
  · intro id
    have hlocs := hreg.locs id
    rw [h.locs, ← blocksAt_eq hsource] at hlocs
    show (s'.ref id).locs = _
    rw [List.range_succ, List.flatMap_append]
    simpa [marks] using hlocs
  · intro id
    exact h.found_registered hreg id
  · intro id
    show s'.contents (s'.ref id).allocs = _
    rw [hreg.allocs, List.append_nil, AcefData.contents, hheap]
    exact h.contents id
  · intro id a ha
    have ha : a ∈ (s'.ref id).allocs := ha
    rw [hreg.allocs, List.append_nil] at ha
    show a.data + a.len ≤ s'.heap.length
    rw [hheap]
    exact h.inHeap id a ha

/-- **Loading a file.** -/
theorem load (hlib : lib.RoundTrips) (h : Index sources files m order s)
    (hfiles : Written lib sources files) (hsource : sources[k]? = some source)
    (hloads : source.Loads) (hk : k ∉ order) :
    ∃ s', loadExtensionFile lib k false s = .ok () s' ∧
      Index sources files m (order ++ [k]) s' := by
  obtain ⟨file, final, hfile, hisFile⟩ := hfiles.get hsource
  obtain ⟨s', hrun, hreg, hheap⟩ := loadFile_load hlib hisFile hloads.1 hloads.2 k s
  have hloc : s.locs[k]? = some ⟨file, false⟩ := by
    rw [h.flags, hfile, decide_eq_false hk]
    rfl
  have hprefix : s.heap <+: s'.heap := ⟨_, hheap.symm⟩
  refine ⟨_, loadExtensionFile_eq hloc hrun, ?_, ?_, ?_, ?_, ?_, ?_, ?_, ?_⟩
  · exact hreg.called.trans h.called
  · exact h.flags.loaded hreg.files
  · exact nodup_snoc h.nodup hk
  · exact lt_snoc h.lt (List.getElem?_eq_some_iff.mp hsource).1
  · intro id
    show (s'.ref id).locs = _
    rw [hreg.locs, h.locs, ← blocksAt_eq hsource, List.flatMap_append, List.append_assoc,
      List.flatMap_singleton]
    rfl
  · intro id
    exact h.found_registered hreg id
  · intro id
    have hnew : s'.contents (arraysOf s.heap.length source.blocks id) =
        dataOf id source.blocks := contents_arraysOf id _ s' (hheap ▸ List.prefix_refl _)
    have hold : s'.contents (s.ref id).allocs = s.contents (s.ref id).allocs :=
      contents_prefix hprefix (h.inHeap id)
    show s'.contents (s'.ref id).allocs = _
    rw [hreg.allocs, List.flatMap_append, List.flatMap_singleton, blocksAt_eq hsource, ← hnew,
      ← h.contents id, ← hold]
    exact List.map_append
  · intro id a ha
    have ha : a ∈ (s'.ref id).allocs := ha
    show a.data + a.len ≤ s'.heap.length
    rw [hreg.allocs] at ha
    have hle := hprefix.length_le
    rcases List.mem_append.mp ha with ha | ha
    · have := h.inHeap id a ha
      omega
    · have := le_of_mem_arraysOf ha
      rw [hheap, List.length_append, length_flatMap_data]
      exact this

theorem locs_iff (h : Index sources files m order s) {id : UInt64} {k : Nat} :
    k ∈ (s.ref id).locs ↔ (k < m ∨ k ∈ order) ∧ withId id (blocksAt sources k) ≠ [] := by
  have hmark : ∀ j, k ∈ marks sources id j ↔ j = k ∧ withId id (blocksAt sources k) ≠ [] := by
    intro j
    rw [marks, List.mem_replicate]
    constructor
    · rintro ⟨hne, rfl⟩
      exact ⟨rfl, fun hnil => hne (congrArg List.length hnil)⟩
    · rintro ⟨rfl, hne⟩
      exact ⟨fun hlen => hne (List.length_eq_zero_iff.mp hlen), rfl⟩
  simp only [h.locs, List.mem_append, List.mem_flatMap, List.mem_range, hmark]
  constructor
  · rintro (⟨j, hj, rfl, hne⟩ | ⟨j, hj, rfl, hne⟩)
    · exact ⟨.inl hj, hne⟩
    · exact ⟨.inr hj, hne⟩
  · rintro ⟨hj | hj, hne⟩
    · exact .inl ⟨k, hj, rfl, hne⟩
    · exact .inr ⟨k, hj, rfl, hne⟩

/-- An id has at most twice as many locations as there are blocks. -/
theorem length_locs (h : Index sources files sources.length order s) (id : UInt64) :
    (s.ref id).locs.length ≤ 2 * (sources.flatMap Source.blocks).length := by
  obtain ⟨rest, hperm, -⟩ := range_split h.nodup h.lt
  have hmarks : ∀ ks : List Nat, (ks.flatMap (marks sources id)).length =
      (withId id (ks.flatMap (blocksAt sources))).length := by
    intro ks
    rw [withId_flatMap, List.length_flatMap, List.length_flatMap]
    refine congrArg List.sum (List.map_congr_left fun k _ => ?_)
    exact List.length_replicate
  have hall : ((List.range sources.length).flatMap (marks sources id)).length ≤
      (sources.flatMap Source.blocks).length := by
    rw [hmarks, flatMap_blocksAt]
    exact List.length_filter_le _ _
  have horder : (order.flatMap (marks sources id)).length ≤
      ((List.range sources.length).flatMap (marks sources id)).length := by
    rw [(hperm.flatMap_right _).length_eq, List.flatMap_append, List.length_append]
    exact Nat.le_add_right _ _
  rw [h.locs, List.length_append]
  omega

/-- With all files of an id loaded, its arrays are all of its blocks. -/
theorem contents_perm (h : Index sources files sources.length order s) {id : UInt64}
    (hall : ∀ k ∈ (s.ref id).locs, k ∈ order) :
    (s.contents (s.ref id).allocs).Perm (blocksOf sources id) := by
  obtain ⟨rest, hperm, hrest⟩ := range_split h.nodup h.lt
  have hnil : rest.flatMap (fun k => withId id (blocksAt sources k)) = [] := by
    rw [List.flatMap_eq_nil_iff]
    intro k hk
    by_contra hne
    exact (hrest k hk).2 (hall k (h.locs_iff.mpr ⟨.inl (hrest k hk).1, hne⟩))
  have hblocks : (order.flatMap fun k => withId id (blocksAt sources k)).Perm
      (withId id (sources.flatMap Source.blocks)) := by
    have hsplit := (hperm.flatMap_right fun k => withId id (blocksAt sources k)).symm
    rw [List.flatMap_append, hnil, List.append_nil, ← withId_flatMap, ← withId_flatMap,
      flatMap_blocksAt, withId_flatMap] at hsplit
    exact hsplit
  have hdata : (order.flatMap fun k => dataOf id (blocksAt sources k)) =
      (order.flatMap fun k => withId id (blocksAt sources k)).map AcefBlock.data := by
    rw [List.map_flatMap]
    rfl
  rw [h.contents, hdata]
  exact hblocks.map _

end Index

/-! ## Queries -/

theorem preloadFiles_spec (hfiles : Written lib sources files)
    (hloads : ∀ source ∈ sources, source.Loads) {count loc : Nat} {s : AcefData}
    (h : Index sources files loc [] s) (hcount : loc + count = sources.length) :
    ∃ s', preloadFiles lib count loc s = .ok () s' ∧
      Index sources files sources.length [] s' := by
  induction count generalizing loc s with
  | zero =>
    rw [Nat.add_zero] at hcount
    exact ⟨s, rfl, hcount ▸ h⟩
  | succ count ih =>
    have hlt : loc < sources.length := by omega
    obtain ⟨s₁, hrun, h₁⟩ := h.preload hfiles (List.getElem?_eq_getElem hlt)
      (hloads _ (List.getElem_mem hlt)).2
    obtain ⟨s₂, hrest, h₂⟩ := ih h₁ (by omega)
    refine ⟨s₂, ?_, h₂⟩
    rw [preloadFiles, bind_ok hrun]
    exact hrest

/-- Before the first query, or between two of them. -/
def Ready (sources : List Source) (files : List (List UInt8)) (s : AcefData) : Prop :=
  s = .empty ∨ ∃ order, Index sources files sources.length order s

theorem loadExtensionFiles_spec (hfiles : Written lib sources files)
    (hloads : ∀ source ∈ sources, source.Loads) {s : AcefData} (h : Ready sources files s) :
    ∃ s' order, loadExtensionFiles lib files s = .ok () s' ∧
      Index sources files sources.length order s' := by
  rcases h with rfl | ⟨order, h⟩
  · have hstart : Index sources files 0 []
        { AcefData.empty with called := true, locs := files.map fun file => ⟨file, false⟩ } := by
      refine ⟨rfl, ?_, List.nodup_nil, by simp, fun _ => rfl, fun _ => ⟨fun _ => rfl, fun _ => rfl⟩,
        fun _ => rfl, ?_⟩
      · intro k
        simp
      · intro id a ha
        cases ha
    obtain ⟨s', hrun, h'⟩ := preloadFiles_spec hfiles hloads hstart (Nat.zero_add _)
    refine ⟨s', [], ?_, h'⟩
    have hcalled : ¬AcefData.empty.called = true := Bool.false_ne_true
    unfold loadExtensionFiles
    rw [get_bind, if_neg hcalled, modify_bind, hfiles.length_eq]
    exact hrun
  · refine ⟨s, order, ?_, h⟩
    unfold loadExtensionFiles
    rw [get_bind, if_pos h.called]
    rfl

variable (hlib : lib.RoundTrips) (hfiles : Written lib sources files)
  (hloads : ∀ source ∈ sources, source.Loads)

include hlib hfiles hloads

/-- One iteration. -/
theorem loadExtensionFile_spec {k : Nat} {order : List Nat} {s : AcefData}
    (h : Index sources files sources.length order s) (hk : k < sources.length) :
    ∃ order' s', loadExtensionFile lib k false s = .ok () s' ∧
      Index sources files sources.length order' s' ∧ order <+: order' ∧ k ∈ order' := by
  by_cases hloaded : k ∈ order
  · obtain ⟨file, final, hfile, -⟩ := hfiles.get (List.getElem?_eq_getElem hk)
    have hloc : s.locs[k]? = some ⟨file, true⟩ := by
      rw [h.flags, hfile, decide_eq_true hloaded]
      rfl
    exact ⟨order, s, loadExtensionFile_loaded hloc, h, List.prefix_refl _, hloaded⟩
  · obtain ⟨s', hrun, h'⟩ := h.load hlib hfiles (List.getElem?_eq_getElem hk)
      (hloads _ (List.getElem_mem hk)) hloaded
    exact ⟨order ++ [k], s', hrun, h', List.prefix_append _ _, by simp⟩

/-- The loop ends with all files of the id loaded; the locations before `i` already are. -/
theorem queryLoop_spec {id : UInt64} {turns i : Nat} (out : Option (List AcefArray))
    {order : List Nat} {s : AcefData} (h : Index sources files sources.length order s)
    (hdone : ∀ k ∈ (s.ref id).locs.take i, k ∈ order)
    (hout : i < (s.ref id).locs.length ∨
      i = (s.ref id).locs.length ∧ out = some (s.ref id).allocs)
    (hturns : 2 * (sources.flatMap Source.blocks).length < turns + i) :
    ∃ order' s', queryLoop lib id turns i out s = .ok (some (s'.ref id).allocs) s' ∧
      Index sources files sources.length order' s' ∧ ∀ k ∈ (s'.ref id).locs, k ∈ order' := by
  induction turns generalizing i out order s with
  | zero =>
    have hlen := h.length_locs id
    omega
  | succ turns ih =>
    unfold queryLoop
    rw [get_bind]
    cases hloc : (s.ref id).locs[i]? with
    | none =>
      have hle := List.getElem?_eq_none_iff.mp hloc
      rcases hout with hlt | ⟨-, hout⟩
      · omega
      · rw [List.take_of_length_le hle] at hdone
        exact ⟨order, s, hout ▸ rfl, h, hdone⟩
    | some k =>
      have hi := (List.getElem?_eq_some_iff.mp hloc).1
      have hk : k < sources.length := by
        rcases (h.locs_iff.mp (List.mem_of_getElem? hloc)).1 with hlt | hmem
        · exact hlt
        · exact h.lt k hmem
      obtain ⟨order₁, s₁, hrun, h₁, hprefix, hmem⟩ := loadExtensionFile_spec hlib hfiles hloads h hk
      obtain ⟨more, rfl⟩ := hprefix
      have hlocs : (s₁.ref id).locs = (s.ref id).locs ++ more.flatMap (marks sources id) := by
        rw [h₁.locs, h.locs, List.flatMap_append, List.append_assoc]
      have htake : (s₁.ref id).locs.take (i + 1) = (s.ref id).locs.take i ++ [k] := by
        rw [hlocs, List.take_append_of_le_length hi, List.take_add_one, hloc]
        rfl
      have hdone₁ : ∀ j ∈ (s₁.ref id).locs.take (i + 1), j ∈ order ++ more := by
        intro j hj
        rw [htake] at hj
        rcases List.mem_append.mp hj with hj | hj
        · exact List.mem_append_left _ (hdone j hj)
        · exact List.mem_singleton.mp hj ▸ hmem
      have hlen : (s.ref id).locs.length ≤ (s₁.ref id).locs.length := by
        rw [hlocs, List.length_append]
        omega
      obtain ⟨order', s', hrest, h'⟩ := ih (some (s₁.ref id).allocs) h₁ hdone₁ (by
        by_cases hlast : i + 1 = (s₁.ref id).locs.length
        · exact .inr ⟨hlast, rfl⟩
        · exact .inl (by omega)) (by omega)
      refine ⟨order', s', ?_, h'⟩
      dsimp only
      rw [bind_ok hrun]
      exact hrest

/-- **A query returns every block with its id once.** -/
theorem query_spec {turns : Nat} (hturns : 2 * (sources.flatMap Source.blocks).length < turns)
    {s : AcefData} (h : Ready sources files s) (id : UInt64) :
    ∃ contents s', query lib files turns id s = .ok (some contents) s' ∧
      contents.Perm (blocksOf sources id) ∧ Ready sources files s' := by
  obtain ⟨s₁, order, hload, h₁⟩ := loadExtensionFiles_spec hfiles hloads h
  cases hfound : s₁.map id with
  | none =>
    have hlocs := (h₁.found id).mp hfound
    have hall : ∀ k ∈ (s₁.ref id).locs, k ∈ order := by
      rw [hlocs]
      intro k hk
      cases hk
    have hnone : (s₁.ref id).allocs = [] := by
      unfold AcefData.ref
      rw [hfound]
      rfl
    have hperm := h₁.contents_perm hall
    rw [hnone] at hperm
    have hdata : getExtensionData lib files turns id s = .ok (some []) s₁ := by
      unfold getExtensionData
      rw [bind_ok hload, get_bind, hfound]
      rfl
    refine ⟨[], s₁, ?_, hperm, .inr ⟨order, h₁⟩⟩
    unfold query
    rw [bind_ok hdata]
    rfl
  | some r =>
    have hne : (s₁.ref id).locs ≠ [] := by
      intro hnil
      rw [(h₁.found id).mpr hnil] at hfound
      cases hfound
    obtain ⟨order', s', hrun, h', hall⟩ := queryLoop_spec hlib hfiles hloads none h₁
      (by simp) (.inl (List.length_pos_iff.mpr hne)) hturns
    have hdata : getExtensionData lib files turns id s = .ok (some (s'.ref id).allocs) s' := by
      unfold getExtensionData
      rw [bind_ok hload, get_bind, hfound]
      exact hrun
    refine ⟨s'.contents (s'.ref id).allocs, s', ?_, h'.contents_perm hall, .inr ⟨order', h'⟩⟩
    unfold query
    rw [bind_ok hdata]
    rfl

theorem queries_spec {turns : Nat} (hturns : 2 * (sources.flatMap Source.blocks).length < turns)
    (ids : List UInt64) {s : AcefData} (h : Ready sources files s) :
    ∃ results s', queries lib files turns ids s = .ok results s' ∧
      List.Forall₂ (fun id out => ∃ contents, out = some contents ∧
        contents.Perm (blocksOf sources id)) ids results := by
  induction ids generalizing s with
  | nil => exact ⟨[], s, rfl, .nil⟩
  | cons id ids ih =>
    obtain ⟨contents, s₁, hquery, hperm, h₁⟩ := query_spec hlib hfiles hloads hturns h id
    obtain ⟨results, s', hrest, hall⟩ := ih h₁
    refine ⟨some contents :: results, s', ?_, .cons ⟨contents, rfl, hperm⟩ hall⟩
    unfold queries
    rw [bind_ok hquery, bind_ok hrest]
    rfl

theorem returnsAll_of_loads (ids : List UInt64) : ReturnsAll lib sources files ids :=
  ⟨_, queries_spec hlib hfiles hloads (Nat.lt_succ_self _) ids (.inl rfl)⟩

end Acts.Acef
