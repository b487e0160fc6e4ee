import Acts.Extension.AcefQueries

/-!
# ACEF blocks that no query returns

The length of a decompressed block comes back as an `int`, and the offset of a block is a 32-bit sum.

* `Loses` — a file has a block with an id that it does not register in full.
* `loadFile_adds` — what a file adds under an id, at most.
* `queries_return_all_iff` — **the sets of files whose queries return everything.**
* `two_gib_lost`, `two_files_returned` — a block of two GiB, and two files with a common id.
-/

set_option autoImplicit false

namespace Acts.Acef

variable {lib : Libraries} {alg : UInt64} {sources : List Source} {files : List (List UInt8)}

/-! ## Lost blocks -/

/-- The block at an offset is not registered in full: it is too long for an `int`, empty for a
decompressor that takes nothing for an error, or ends behind what an offset can reach. -/
def Lost (alg : UInt64) (offset : Nat) (block : AcefBlock) : Prop :=
  ¬(Sound alg block ∧ offset + block.data.length < 2 ^ 32)

def Loses (alg : UInt64) (id : UInt64) : Nat → List AcefBlock → Prop
  | _, [] => False
  | offset, block :: blocks =>
    block.name = id ∧ Lost alg offset block ∨
      offset + block.data.length < 2 ^ 32 ∧ Loses alg id (offset + block.data.length) blocks

theorem sound_of_not_loses {offset : Nat} {blocks : List AcefBlock} (hoffset : offset < 2 ^ 32)
    (h : ∀ id, ¬Loses alg id offset blocks) :
    (∀ block ∈ blocks, Sound alg block) ∧ offset + total blocks < 2 ^ 32 := by
  induction blocks generalizing offset with
  | nil => exact ⟨by simp, hoffset⟩
  | cons block blocks ih =>
    obtain ⟨hsound, hlt⟩ : Sound alg block ∧ offset + block.data.length < 2 ^ 32 := by
      by_contra hlost
      exact h block.name (.inl ⟨rfl, hlost⟩)
    obtain ⟨hrest, hsum⟩ := ih hlt fun id hloses => h id (.inr ⟨hlt, hloses⟩)
    refine ⟨?_, ?_⟩
    · intro b hb
      rcases List.mem_cons.mp hb with rfl | hb
      · exact hsound
      · exact hrest b hb
    · rw [total_cons]
      omega

/-- What arrays account for. -/
def weight (arrays : List AcefArray) : Nat := (arrays.map fun a => a.len + 1).sum

/-- What the blocks with an id account for. -/
def blockWeight (id : UInt64) (blocks : List AcefBlock) : Nat :=
  ((withId id blocks).map fun block => block.data.length + 1).sum

theorem weight_append (xs ys : List AcefArray) : weight (xs ++ ys) = weight xs + weight ys := by
  simp [weight]

theorem blockWeight_cons (id : UInt64) (block : AcefBlock) (blocks : List AcefBlock) :
    blockWeight id (block :: blocks) =
      (if id = block.name then block.data.length + 1 else 0) + blockWeight id blocks := by
  unfold blockWeight
  rw [withId_cons]
  split
  · simp
  · simp

theorem blockWeight_pos {id : UInt64} {offset : Nat} {blocks : List AcefBlock}
    (h : Loses alg id offset blocks) : 0 < blockWeight id blocks := by
  induction blocks generalizing offset with
  | nil => exact h.elim
  | cons block blocks ih =>
    rw [blockWeight_cons]
    rcases h with ⟨hname, -⟩ | ⟨-, h⟩
    · rw [if_pos hname.symm]
      omega
    · have := ih h
      omega

/-! ## Loading -/

/-- What the index has under `id` after the blocks. -/
def Adds (alg : UInt64) (id : UInt64) (offset : Nat) (blocks : List AcefBlock) (s s' : AcefData) :
    Prop :=
  s'.locs = s.locs ∧
    weight (s'.ref id).allocs ≤ weight (s.ref id).allocs + blockWeight id blocks ∧
    (Loses alg id offset blocks →
      weight (s'.ref id).allocs < weight (s.ref id).allocs + blockWeight id blocks)

/-- Nothing is added. -/
theorem Adds.same {id : UInt64} (offset : Nat) (blocks : List AcefBlock) {s s' : AcefData}
    (hlocs : s'.locs = s.locs) (hallocs : (s'.ref id).allocs = (s.ref id).allocs) :
    Adds alg id offset blocks s s' := by
  refine ⟨hlocs, ?_, ?_⟩
  · rw [hallocs]
    exact Nat.le_add_right _ _
  · intro h
    have := blockWeight_pos h
    rw [hallocs]
    omega

theorem write_fits {loc : Nat} {bytes : List UInt8} {s : AcefData}
    (h : loc + bytes.length ≤ s.heap.length) :
    ∃ heap, write loc bytes s = .ok () { s with heap } ∧ heap.length = s.heap.length := by
  refine ⟨s.heap.take loc ++ bytes ++ s.heap.drop (loc + bytes.length), if_pos h, ?_⟩
  simp only [List.length_append, List.length_take, List.length_drop]
  omega

section Load

variable {header : AcefHeader} {file : List UInt8} {block : AcefBlock} {blocks : List AcefBlock}
  {st st' : Building} {comp : List UInt8}

/-- A block that is registered as long as it is fits everything. -/
theorem loadBlock_ends (hlib : lib.RoundTrips)
    (h : Next lib alg header file block blocks st comp st') (hst : st.Fits)
    (hlt : header.decompressedSize < 2 ^ 32) (loc data : Nat) (buffer : List UInt8) (s : AcefData)
    (hheap : s.heap.length = data + header.decompressedSize) :
    Ends (loadBlock lib file header false loc data st.data.length buffer) s
      (fun p s' => p.2 = st'.data.length ∧ s'.locs = s.locs ∧
        s'.heap.length = data + header.decompressedSize ∧ ∃ a : AcefArray,
          a.len ≤ block.data.length ∧
          (Lost alg st.decompressedSize block → a.len < block.data.length) ∧
          ∀ id, (s'.ref id).allocs = (s.ref id).allocs ++ if id = block.name then [a] else [])
      (fun s' => s'.locs = s.locs ∧ ∀ id, (s'.ref id).allocs = (s.ref id).allocs) := by
  by_cases hdec : st'.decompressedSize > header.decompressedSize
  · exact .of_error (h.loadBlock_tooMany hst loc data buffer s false hdec) ⟨rfl, fun _ => rfl⟩
  · have hload := h.loadBlock_load hst loc data buffer s (Nat.le_of_not_lt hdec)
    cases hdecomp : decompress2 lib alg (block.data.length % 2 ^ 32) comp with
    | error e =>
      rw [hdecomp] at hload
      exact .of_error hload ⟨rfl, fun id => allocs_addLoc s block.name id loc⟩
    | ok result =>
      obtain ⟨r, out⟩ := result
      rw [hdecomp, ofExcept_bind] at hload
      dsimp only at hload
      by_cases hfits : data + st.decompressedSize + out.length ≤ s.heap.length
      · obtain ⟨heap, hwrite, hlen⟩ := write_fits (s := s.addLoc block.name loc) hfits
        rw [bind_ok hwrite] at hload
        by_cases hr : r < 0
        · rw [if_pos hr] at hload
          exact .of_error hload ⟨rfl, fun id => allocs_addLoc s block.name id loc⟩
        · rw [if_neg hr] at hload
          obtain ⟨hlen', hle, hint, hoodle⟩ := decompress2_le hlib hdecomp
            (Nat.mod_lt _ (by decide)) (Int.not_lt.mp hr)
          have hmod := Nat.mod_le block.data.length (2 ^ 32)
          refine .of_ok hload ⟨rfl, rfl, hlen.trans hheap,
            ⟨r.toNat, data + st.decompressedSize⟩, ?_, ?_, ?_⟩
          · show r.toNat ≤ block.data.length
            omega
          · intro hlost
            -- An array as long as its block would lie within the memory of the file.
            by_contra hge
            have hge : ¬r.toNat < block.data.length := hge
            refine hlost ⟨⟨by omega, ?_⟩, by omega⟩
            intro heq hnil
            have hpos := hoodle heq
            have hzero : block.data.length = 0 := congrArg List.length hnil
            omega
          · intro id
            rw [allocs_addAlloc]
            exact congrArg (· ++ _) (allocs_addLoc s block.name id loc)
      · have hwrite : write (data + st.decompressedSize) out (s.addLoc block.name loc) =
            .error .crashed (s.addLoc block.name loc) := if_neg hfits
        rw [bind_error hwrite] at hload
        exact .of_error hload ⟨rfl, fun id => allocs_addLoc s block.name id loc⟩

theorem loadBlocks_ends (hlib : lib.RoundTrips) (h : Between lib alg header file blocks st)
    (hlt : header.decompressedSize < 2 ^ 32) (loc data : Nat) (buffer : List UInt8) (s : AcefData)
    (hheap : s.heap.length = data + header.decompressedSize) (id : UInt64) :
    Ends (loadBlocks lib file header false loc data blocks.length st.data.length buffer) s
      (fun _ s' => Adds alg id st.decompressedSize blocks s s')
      (fun s' => Adds alg id st.decompressedSize blocks s s') := by
  induction blocks generalizing st buffer s with
  | nil => exact .of_ok rfl (.same _ [] rfl rfl)
  | cons block blocks ih =>
    obtain ⟨comp, st', hnext⟩ := h.next
    have hblock := loadBlock_ends hlib hnext h.fits hlt loc data buffer s hheap
    rw [List.length_cons, loadBlocks]
    refine Ends.bind (hblock.mono (fun _ _ hq => hq)
      (fun s' he => Adds.same _ (block :: blocks) he.1 (he.2 id))) ?_
    rintro ⟨buffer', pos⟩ s₁ ⟨hpos, hlocs, hheap₁, a, hle, hlost, hallocs⟩
    have hpos : pos = st'.data.length := hpos
    subst hpos
    have hsplit := blockWeight_cons id block blocks
    have hadded : weight (s₁.ref id).allocs =
        weight (s.ref id).allocs + if id = block.name then a.len + 1 else 0 := by
      rw [hallocs, weight_append]
      split
      · rfl
      · rfl
    have hcons : ∀ s', Adds alg id st'.decompressedSize blocks s₁ s' →
        Adds alg id st.decompressedSize (block :: blocks) s s' := by
      rintro s' ⟨hlocs', hweight, hstrict⟩
      refine ⟨hlocs'.trans hlocs, ?_, ?_⟩
      · split at hadded
        · rename_i hid
          rw [if_pos hid] at hsplit
          omega
        · rename_i hid
          rw [if_neg hid] at hsplit
          omega
      · rintro (⟨hname, hlost'⟩ | ⟨hlt', hloses⟩)
        · have := hlost hlost'
          rw [if_pos hname.symm] at hadded hsplit
          omega
        · rw [hnext.decompressedSize, Nat.mod_eq_of_lt hlt'] at hstrict
          have := hstrict hloses
          split at hadded
          · rename_i hid
            rw [if_pos hid] at hsplit
            omega
          · rename_i hid
            rw [if_neg hid] at hsplit
            omega
    exact (ih hnext.between buffer' s₁ hheap₁).mono (fun _ s' => hcons s') hcons

/-- No array is added. -/
def SameArrays (s s' : AcefData) : Prop :=
  s'.locs = s.locs ∧ ∀ id, (s'.ref id).allocs = (s.ref id).allocs

theorem SameArrays.rfl {s : AcefData} : SameArrays s s := ⟨Eq.refl _, fun _ => Eq.refl _⟩

theorem SameArrays.trans {s₁ s₂ s₃ : AcefData} (h : SameArrays s₁ s₂) (h' : SameArrays s₂ s₃) :
    SameArrays s₁ s₃ :=
  ⟨h'.1.trans h.1, fun id => (h'.2 id).trans (h.2 id)⟩

theorem ofExcept_ends {α : Type} (x : Except AcefError α) (s : AcefData) :
    Ends (ofExcept x) s (fun _ s' => s' = s) (fun s' => s' = s) := by
  cases x with
  | error e => exact .of_error rfl rfl
  | ok a => exact .of_ok rfl rfl

theorem loadBlock_preload_ends (loc data oloc : Nat) (buffer : List UInt8) (s : AcefData) :
    Ends (loadBlock lib file header true loc data oloc buffer) s (fun _ => SameArrays s)
      (SameArrays s) := by
  unfold loadBlock
  refine Ends.bind ((ofExcept_ends _ s).mono (fun _ _ h => h) fun s' h => h ▸ .rfl) ?_
  rintro ⟨buffer', pos⟩ s₁ rfl
  dsimp only
  refine Ends.modify ?_
  rw [if_pos rfl]
  have hadd : SameArrays s₁
      (s₁.addLoc (UInt64.ofNat (AcefBlockHeader.ofBytes buffer').blockId) loc) :=
    ⟨rfl, fun id => allocs_addLoc s₁ _ id loc⟩
  refine Ends.bind ((ofExcept_ends _ _).mono (fun _ _ h => h) fun s' h => h ▸ hadd) ?_
  rintro pos' s₂ rfl
  exact .of_ok rfl hadd

/-- Indexing adds no arrays, whatever the file is. -/
theorem loadBlocks_preload_ends (loc data count oloc : Nat) (buffer : List UInt8) (s : AcefData) :
    Ends (loadBlocks lib file header true loc data count oloc buffer) s (fun _ => SameArrays s)
      (SameArrays s) := by
  induction count generalizing oloc buffer s with
  | zero => exact .of_ok rfl .rfl
  | succ count ih =>
    rw [loadBlocks]
    refine Ends.bind (loadBlock_preload_ends loc data oloc buffer s) ?_
    rintro ⟨buffer', oloc'⟩ s₁ h₁
    exact (ih oloc' buffer' s₁).mono (fun _ _ => h₁.trans) fun _ => h₁.trans

/-- What is left of `Ends` when exceptions are caught. -/
theorem catchWarning_ends {body : M Unit} {s s' : AcefData} {Q : AcefData → Prop}
    (h : Ends body s (fun _ => Q) Q) (hrun : catchWarning body s = .ok () s') : Q s' := by
  unfold catchWarning at hrun
  cases hbody : body s with
  | ok a s₁ =>
    rw [hbody] at hrun
    cases hrun
    exact h.ok hbody
  | error e s₁ =>
    rw [hbody] at hrun
    cases e with
    | thrown error =>
      cases hrun
      exact h.error hbody
    | crashed => cases hrun
    | unfinished => cases hrun

theorem loadFile_preload_same {loc : Nat} {s s' : AcefData}
    (hrun : catchWarning (loadFile lib file loc true) s = .ok () s') : SameArrays s s' := by
  refine catchWarning_ends ?_ hrun
  unfold loadFile
  refine Ends.bind ((ofExcept_ends _ s).mono (fun _ _ h => h) fun s' h => h ▸ .rfl) ?_
  rintro header s₁ rfl
  rw [if_pos rfl]
  exact loadBlocks_preload_ends loc 0 _ _ _ s₁

/-- **What a file adds under an id, at most.** -/
theorem loadFile_adds (hlib : lib.RoundTrips) {final : Building}
    (h : IsFile lib alg blocks final file) {loc : Nat} {s s' : AcefData}
    (hrun : catchWarning (loadFile lib file loc false) s = .ok () s') (id : UInt64) :
    Adds alg id 0 blocks s s' := by
  cases blocks with
  | nil =>
    rw [loadFile_empty h] at hrun
    cases hrun
    exact .same 0 [] rfl rfl
  | cons block blocks =>
    refine catchWarning_ends ?_ hrun
    have hlt : final.decompressedSize < 2 ^ 32 := by
      rw [h.decompressedSize]
      exact Nat.mod_lt _ (by decide)
    have hblocks := loadBlocks_ends hlib h.between hlt loc s.heap.length
      (List.replicate AcefBlockHeader.size 0)
      { s with heap := s.heap ++ List.replicate final.decompressedSize 0 }
      (by rw [List.length_append, List.length_replicate]; rfl) id
    have hbody : loadFile lib file loc false s =
        loadBlocks lib file (finalHeader alg (block :: blocks).length final) false loc s.heap.length
          (block :: blocks).length AcefHeader.size (List.replicate AcefBlockHeader.size 0)
          { s with heap := s.heap ++ List.replicate final.decompressedSize 0 } := by
      have halloc : alloc final.decompressedSize s = .ok s.heap.length
          { s with heap := s.heap ++ List.replicate final.decompressedSize 0 } := rfl
      unfold loadFile
      rw [readHeader_written h, if_neg h.known, ofExcept_bind]
      show (alloc final.decompressedSize >>= fun data => loadBlocks lib file _ false loc data
        ((block :: blocks).length % 2 ^ 32) AcefHeader.size
        (List.replicate AcefBlockHeader.size 0)) s = _
      rw [bind_ok halloc, h.numObjects]
    unfold Ends at hblocks ⊢
    rw [hbody]
    exact hblocks

end Load

/-! ## Runs -/

/-- What a file accounts for under an id, less than its blocks for the file `bad`. -/
def bound (sources : List Source) (id : UInt64) (bad k : Nat) : Nat :=
  blockWeight id (blocksAt sources k) - if k = bad then 1 else 0

/-- The files of `order` are loaded, and the arrays of `id` are within their bounds. -/
structure Bounded (sources : List Source) (files : List (List UInt8)) (id : UInt64) (bad : Nat)
    (order : List Nat) (s : AcefData) : Prop where
  flags : Flags files order s
  nodup : order.Nodup
  lt : ∀ k ∈ order, k < sources.length
  weight_le : weight (s.ref id).allocs ≤ (order.map (bound sources id bad)).sum

/-- The file `bad` loses a block with the id. -/
def LosesAt (sources : List Source) (id : UInt64) (bad : Nat) : Prop :=
  ∃ source, sources[bad]? = some source ∧ Loses source.alg id 0 source.blocks

theorem blockWeight_append (id : UInt64) (xs ys : List AcefBlock) :
    blockWeight id (xs ++ ys) = blockWeight id xs + blockWeight id ys := by
  induction xs with
  | nil => exact (Nat.zero_add _).symm
  | cons block xs ih => rw [List.cons_append, blockWeight_cons, blockWeight_cons, ih, Nat.add_assoc]

theorem blockWeight_flatMap (id : UInt64) (ks : List Nat) (f : Nat → List AcefBlock) :
    blockWeight id (ks.flatMap f) = (ks.map fun k => blockWeight id (f k)).sum := by
  induction ks with
  | nil => rfl
  | cons k ks ih =>
    rw [List.flatMap_cons, blockWeight_append, ih, List.map_cons, List.sum_cons]

theorem sum_bound_lt {id : UInt64} {bad : Nat} {order : List Nat} (hnodup : order.Nodup)
    (hlt : ∀ k ∈ order, k < sources.length) (hbad : LosesAt sources id bad) :
    (order.map (bound sources id bad)).sum < blockWeight id (sources.flatMap Source.blocks) := by
  obtain ⟨source, hsource, hloses⟩ := hbad
  have hpos := blockWeight_pos hloses
  rw [← blocksAt_eq hsource] at hpos
  have hin := (List.getElem?_eq_some_iff.mp hsource).1
  obtain ⟨rest, hperm, -⟩ := range_split hnodup hlt
  obtain ⟨others, hothers, hne⟩ := range_split (List.nodup_singleton bad) (n := sources.length)
    (by simpa using hin)
  have horder : (order.map (bound sources id bad)).sum ≤
      ((List.range sources.length).map (bound sources id bad)).sum := by
    rw [(hperm.map _).sum_nat, List.map_append, List.sum_append]
    exact Nat.le_add_right _ _
  have hsame : (others.map (bound sources id bad)).sum =
      (others.map fun k => blockWeight id (blocksAt sources k)).sum := by
    refine congrArg List.sum (List.map_congr_left fun k hk => ?_)
    have hkbad : k ≠ bad := fun heq => (hne k hk).2 (List.mem_singleton.mpr heq)
    rw [bound, if_neg hkbad, Nat.sub_zero]
  have hhere : bound sources id bad bad = blockWeight id (blocksAt sources bad) - 1 := by
    rw [bound, if_pos rfl]
  rw [← flatMap_blocksAt, blockWeight_flatMap, (hothers.map _).sum_nat]
  rw [(hothers.map _).sum_nat] at horder
  simp only [List.singleton_append, List.map_cons, List.sum_cons, hsame, hhere] at horder ⊢
  omega

theorem contents_weight (s : AcefData) (arrays : List AcefArray) :
    ((s.contents arrays).map fun data => data.length + 1).sum ≤ weight arrays := by
  induction arrays with
  | nil => exact Nat.le_refl _
  | cons a arrays ih =>
    have hlen : ((s.heap.drop a.data).take a.len).length ≤ a.len := List.length_take_le _ _
    have hcons : s.contents (a :: arrays) =
        (s.heap.drop a.data).take a.len :: s.contents arrays := rfl
    rw [hcons, weight, List.map_cons, List.sum_cons, List.map_cons, List.sum_cons]
    exact Nat.add_le_add (Nat.succ_le_succ hlen) ih

section Runs

variable {id : UInt64} {bad : Nat} (hlib : lib.RoundTrips) (hfiles : Written lib sources files)
  (hbad : LosesAt sources id bad)

include hlib hfiles hbad

theorem loadExtensionFile_bounded {k : Nat} {preload : Bool} {order : List Nat} {s s' : AcefData}
    (h : Bounded sources files id bad order s)
    (hrun : loadExtensionFile lib k preload s = .ok () s') :
    ∃ order', Bounded sources files id bad order' s' := by
  unfold loadExtensionFile at hrun
  rw [get_bind] at hrun
  cases hloc : s.locs[k]? with
  | none =>
    rw [hloc] at hrun
    cases hrun
    exact ⟨order, h⟩
  | some l =>
    rw [hloc] at hrun
    dsimp only at hrun
    have hfile := h.flags k
    rw [hloc] at hfile
    cases hk : files[k]? with
    | none =>
      rw [hk] at hfile
      cases hfile
    | some file =>
      rw [hk] at hfile
      cases hfile
      by_cases hloaded : k ∈ order
      · rw [if_pos (decide_eq_true hloaded)] at hrun
        cases hrun
        exact ⟨order, h⟩
      · rw [if_neg (by simpa using hloaded)] at hrun
        obtain ⟨⟨⟩, s₁, hcatch, hset⟩ := returns_of_bind hrun
        cases hset
        have hlt : k < sources.length := by
          rw [← hfiles.length_eq]
          exact (List.getElem?_eq_some_iff.mp hk).1
        cases preload with
        | true =>
          obtain ⟨hlocs, hallocs⟩ := loadFile_preload_same hcatch
          refine ⟨order, h.flags.indexed hlocs hloaded, h.nodup, h.lt, ?_⟩
          show weight (s₁.ref id).allocs ≤ _
          rw [hallocs]
          exact h.weight_le
        | false =>
          obtain ⟨file', final, hfile', hisFile⟩ := hfiles.get (List.getElem?_eq_getElem hlt)
          rw [hk] at hfile'
          cases hfile'
          obtain ⟨hlocs, hle, hstrict⟩ := loadFile_adds hlib hisFile hcatch id
          refine ⟨order ++ [k], h.flags.loaded hlocs, nodup_snoc h.nodup hloaded,
            lt_snoc h.lt hlt, ?_⟩
          show weight (s₁.ref id).allocs ≤ _
          have hweight := h.weight_le
          rw [List.map_append, List.sum_append, List.map_singleton, List.sum_singleton, bound,
            blocksAt_eq (List.getElem?_eq_getElem hlt)]
          by_cases hkbad : k = bad
          · subst hkbad
            obtain ⟨source, hsource, hloses⟩ := hbad
            rw [List.getElem?_eq_getElem hlt] at hsource
            cases hsource
            have hless := hstrict hloses
            rw [if_pos rfl]
            omega
          · rw [if_neg hkbad]
            omega

theorem preloadFiles_bounded {count loc : Nat} {order : List Nat} {s s' : AcefData}
    (h : Bounded sources files id bad order s) (hrun : preloadFiles lib count loc s = .ok () s') :
    ∃ order', Bounded sources files id bad order' s' := by
  induction count generalizing loc order s with
  | zero =>
    cases hrun
    exact ⟨order, h⟩
  | succ count ih =>
    obtain ⟨⟨⟩, s₁, hfirst, hrest⟩ := returns_of_bind hrun
    obtain ⟨order₁, h₁⟩ := loadExtensionFile_bounded hlib hfiles hbad h hfirst
    exact ih h₁ hrest

theorem queryLoop_bounded {turns i : Nat} {out result : Option (List AcefArray)}
    {order : List Nat} {s s' : AcefData} (h : Bounded sources files id bad order s)
    (hout : ∀ arrays, out = some arrays → arrays = (s.ref id).allocs)
    (hrun : queryLoop lib id turns i out s = .ok result s') :
    ∃ order', Bounded sources files id bad order' s' ∧
      ∀ arrays, result = some arrays → arrays = (s'.ref id).allocs := by
  induction turns generalizing i out order s with
  | zero => cases hrun
  | succ turns ih =>
    unfold queryLoop at hrun
    rw [get_bind] at hrun
    cases hloc : (s.ref id).locs[i]? with
    | none =>
      rw [hloc] at hrun
      cases hrun
      exact ⟨order, h, hout⟩
    | some loc =>
      rw [hloc] at hrun
      obtain ⟨⟨⟩, s₁, hfirst, hrest⟩ := returns_of_bind hrun
      obtain ⟨order₁, h₁⟩ := loadExtensionFile_bounded hlib hfiles hbad h hfirst
      rw [get_bind] at hrest
      refine ih h₁ ?_ hrest
      intro arrays harrays
      cases harrays
      rfl

theorem loadExtensionFiles_bounded {s' : AcefData}
    (hrun : loadExtensionFiles lib files .empty = .ok () s') :
    ∃ order, Bounded sources files id bad order s' := by
  have hcalled : ¬AcefData.empty.called = true := Bool.false_ne_true
  unfold loadExtensionFiles at hrun
  rw [get_bind, if_neg hcalled, modify_bind] at hrun
  refine preloadFiles_bounded hlib hfiles hbad ⟨?_, List.nodup_nil, by simp, Nat.le_refl _⟩ hrun
  intro k
  simp

/-- The first query does not account for all blocks. -/
theorem query_bounded {turns : Nat} {contents : List (List UInt8)} {s' : AcefData}
    (hrun : query lib files turns id .empty = .ok (some contents) s') :
    (contents.map fun data => data.length + 1).sum <
      blockWeight id (sources.flatMap Source.blocks) := by
  obtain ⟨out, s₁, hdata, hread⟩ := returns_of_bind hrun
  obtain ⟨⟨⟩, s₀, hload, hquery⟩ := returns_of_bind hdata
  obtain ⟨order₀, h₀⟩ := loadExtensionFiles_bounded hlib hfiles hbad hload
  have hbound : ∃ order, Bounded sources files id bad order s₁ ∧
      ∀ arrays, out = some arrays → weight arrays ≤ weight (s₁.ref id).allocs := by
    rw [get_bind] at hquery
    cases hfound : s₀.map id with
    | none =>
      rw [hfound] at hquery
      cases hquery
      refine ⟨order₀, h₀, ?_⟩
      intro arrays harrays
      cases harrays
      exact Nat.zero_le _
    | some r =>
      rw [hfound] at hquery
      obtain ⟨order, h, hout⟩ := queryLoop_bounded hlib hfiles hbad h₀ (by simp) hquery
      exact ⟨order, h, fun arrays harrays => Nat.le_of_eq (congrArg weight (hout arrays harrays))⟩
  obtain ⟨order, h, hout⟩ := hbound
  cases out with
  | none => cases hread
  | some arrays =>
    cases hread
    refine Nat.lt_of_le_of_lt (contents_weight _ arrays) ?_
    refine Nat.lt_of_le_of_lt (hout arrays rfl) ?_
    exact Nat.lt_of_le_of_lt h.weight_le (sum_bound_lt h.nodup h.lt hbad)

/-- **A block that is lost is missed by the first query of its id.** -/
theorem not_returnsAll_of_loses : ¬ReturnsAll lib sources files [id] := by
  rintro ⟨turns, results, s', hrun, hall⟩
  obtain ⟨out, s₁, hquery, hrest⟩ := returns_of_bind hrun
  cases hrest
  cases hall with
  | cons hfirst _ =>
    obtain ⟨contents, rfl, hperm⟩ := hfirst
    have hlt := query_bounded hlib hfiles hbad hquery
    rw [(hperm.map _).sum_nat, blocksOf, dataOf, List.map_map] at hlt
    exact Nat.lt_irrefl _ hlt

end Runs

/-- **Every sequence of queries returns every block with the id of a query exactly once iff the
blocks of every file are shorter than two GiB and together than four GiB, and none is empty in a
file for Oodle.** -/
theorem queries_return_all_iff (hlib : lib.RoundTrips) (hfiles : Written lib sources files) :
    (∀ ids, ReturnsAll lib sources files ids) ↔ ∀ source ∈ sources, source.Loads := by
  constructor
  · intro hall source hsource
    obtain ⟨k, hk⟩ := List.getElem?_of_mem hsource
    have hnot : ∀ id, ¬Loses source.alg id 0 source.blocks := by
      intro id hloses
      exact not_returnsAll_of_loses hlib hfiles ⟨source, hk, hloses⟩ (hall [id])
    obtain ⟨hsound, hlt⟩ := sound_of_not_loses (by decide) hnot
    rw [Nat.zero_add] at hlt
    exact ⟨hsound, hlt⟩
  · intro hloads ids
    exact returnsAll_of_loads hlib hfiles hloads ids

/-! ## Examples -/

/-- LZ4 of fewer than thirteen bytes: one run of literals. -/
def lz4Literals : Libraries where
  compress alg data :=
    if getCompressionType alg = compLz4 ∧ data.length < 13 then
      some (UInt8.ofNat (16 * data.length) :: data)
    else none
  decompress alg size comp :=
    match comp with
    | [] => none
    | token :: data =>
      if getCompressionType alg = compLz4 ∧ token.toNat = 16 * data.length ∧ data.length ≤ size then
        some data
      else none

theorem lz4Literals_roundTrips : lz4Literals.RoundTrips where
  decompress_compress alg data comp _ h := by
    unfold lz4Literals at h ⊢
    dsimp only at h ⊢
    split at h
    · rename_i hcase
      cases h
      have htoken : (UInt8.ofNat (16 * data.length)).toNat = 16 * data.length := by
        rw [UInt8.toNat_ofNat']
        exact Nat.mod_eq_of_lt (by omega)
      exact if_pos ⟨hcase.1, htoken, Nat.le_refl _⟩
    · cases h
  length_le alg size comp data h := by
    cases comp with
    | nil => cases h
    | cons token rest =>
      unfold lz4Literals at h
      dsimp only at h
      split at h
      · rename_i hcase
        cases h
        exact hcase.2.2
      · cases h

/-- Two files with a common id, one compressed and one stored. -/
def twoSources : List Source :=
  [⟨4, [⟨1, [10, 20]⟩, ⟨2, [30]⟩]⟩, ⟨1, [⟨1, [40]⟩, ⟨2, []⟩, ⟨1, [50, 60, 70]⟩]⟩]

def fileOf (lib : Libraries) (source : Source) : List UInt8 :=
  (compressACEFBlock lib source.alg source.blocks).toOption.getD []

theorem two_files_returned :
    ReturnsAll lz4Literals twoSources (twoSources.map (fileOf lz4Literals)) [2, 1, 2] := by
  have hfiles : Written lz4Literals twoSources (twoSources.map (fileOf lz4Literals)) :=
    .cons ⟨rfl, by decide⟩ (.cons ⟨rfl, by decide⟩ .nil)
  refine (queries_return_all_iff lz4Literals_roundTrips hfiles).mpr ?_ [2, 1, 2]
  intro source hsource
  rcases List.mem_cons.mp hsource with rfl | hsource
  · exact ⟨by unfold Sound; decide, by decide⟩
  · rw [List.mem_singleton.mp hsource]
    exact ⟨by unfold Sound; decide, by decide⟩

/-- A stored file with one block. -/
theorem written_stored (lib : Libraries) (block : AcefBlock)
    (h : AcefHeader.size + (AcefBlockHeader.size + block.data.length) < 2 ^ 32) :
    Written lib [⟨1, [block]⟩] [fileOf lib ⟨1, [block]⟩] := by
  have hstored : compress lib 1 block.data = .ok block.data := if_pos rfl
  obtain ⟨final, hadd⟩ : ∃ final, addBlocks lib 1 [block] .start = .ok final := by
    cases hadd : addBlocks lib 1 [block] .start with
    | error e =>
      simp only [addBlocks, addBlock, hstored, bind, Except.bind] at hadd
      cases hadd
    | ok final => exact ⟨final, rfl⟩
  obtain ⟨comp, st, hcomp, -, hrest, hdata, -⟩ := addBlocks_cons hadd
  cases hrest
  rw [hstored] at hcomp
  cases hcomp
  have hfits : final.Fits := (addBlocks_extends hadd).fits fits_start
  have hstart : Building.start.data.length = AcefHeader.size := List.length_replicate
  have hfile : compressACEFBlock lib 1 [block] =
      .ok ((finalHeader 1 1 final).bytes ++ final.data.drop AcefHeader.size) := by
    unfold compressACEFBlock
    rw [hadd]
    rfl
  have hlen : ((finalHeader 1 1 final).bytes ++ final.data.drop AcefHeader.size).length =
      AcefHeader.size + (AcefBlockHeader.size + block.data.length) := by
    rw [List.length_append, length_finalHeader hfits, hdata, ← hstart, List.drop_left,
      List.length_append, length_headerOf fits_start]
  refine .cons ⟨?_, ?_⟩ .nil
  · rw [fileOf, hfile]
    rfl
  · rw [fileOf, hfile]
    exact hlen ▸ h

/-- A block of two GiB is stored, and no query returns it. -/
theorem two_gib_lost :
    Written lz4Literals [⟨1, [⟨1, List.replicate (2 ^ 31) 0⟩]⟩]
        [fileOf lz4Literals ⟨1, [⟨1, List.replicate (2 ^ 31) 0⟩]⟩] ∧
      ¬ReturnsAll lz4Literals [⟨1, [⟨1, List.replicate (2 ^ 31) 0⟩]⟩]
        [fileOf lz4Literals ⟨1, [⟨1, List.replicate (2 ^ 31) 0⟩]⟩] [1] := by
  have hfiles := written_stored lz4Literals ⟨1, List.replicate (2 ^ 31) 0⟩
    (by simp only [List.length_replicate]; decide)
  have hloses : LosesAt [⟨1, [⟨1, List.replicate (2 ^ 31) 0⟩]⟩] 1 0 := by
    refine ⟨_, rfl, .inl ⟨rfl, ?_⟩⟩
    rintro ⟨⟨hlt, -⟩, -⟩
    rw [List.length_replicate] at hlt
    exact Nat.lt_irrefl _ hlt
  exact ⟨hfiles, not_returnsAll_of_loses lz4Literals_roundTrips hfiles hloses⟩

end Acts.Acef
