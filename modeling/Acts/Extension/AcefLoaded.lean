import Acts.Extension.AcefFiles

/-!
# Loading written ACEF files

* `Registered` — what the blocks of a file add to the index.
* `loadFile_preload`, `loadFile_load` — a file whose blocks can all be loaded, indexed and loaded.
-/

set_option autoImplicit false

namespace Acts.Acef

variable {lib : Libraries} {alg : UInt64}

/-! ## Index -/

theorem ref_setRef (s : AcefData) (id id' : UInt64) (r : AcefDataRef) :
    (s.setRef id r).ref id' = if id' = id then r else s.ref id' := by
  unfold AcefData.ref AcefData.setRef
  dsimp only
  split
  · rfl
  · rfl

@[simp] theorem allocs_addLoc (s : AcefData) (id id' : UInt64) (loc : Nat) :
    ((s.addLoc id loc).ref id').allocs = (s.ref id').allocs := by
  rw [AcefData.addLoc, ref_setRef]
  split
  · rename_i h
    rw [h]
  · rfl

theorem locs_addLoc (s : AcefData) (id id' : UInt64) (loc : Nat) :
    ((s.addLoc id loc).ref id').locs =
      (s.ref id').locs ++ if id' = id then [loc] else [] := by
  rw [AcefData.addLoc, ref_setRef]
  split
  · rename_i h
    rw [h]
  · exact (List.append_nil _).symm

@[simp] theorem locs_addAlloc (s : AcefData) (id id' : UInt64) (a : AcefArray) :
    ((s.addAlloc id a).ref id').locs = (s.ref id').locs := by
  rw [AcefData.addAlloc, ref_setRef]
  split
  · rename_i h
    rw [h]
  · rfl

theorem allocs_addAlloc (s : AcefData) (id id' : UInt64) (a : AcefArray) :
    ((s.addAlloc id a).ref id').allocs =
      (s.ref id').allocs ++ if id' = id then [a] else [] := by
  rw [AcefData.addAlloc, ref_setRef]
  split
  · rename_i h
    rw [h]
  · exact (List.append_nil _).symm

theorem map_setRef (s : AcefData) (id id' : UInt64) (r : AcefDataRef) :
    (s.setRef id r).map id' = none ↔ s.map id' = none ∧ id' ≠ id := by
  unfold AcefData.setRef
  dsimp only
  by_cases h : id' = id
  · simp [h]
  · simp [h]

/-- The blocks with an id. -/
def withId (id : UInt64) (blocks : List AcefBlock) : List AcefBlock :=
  blocks.filter fun block => block.name = id

theorem withId_cons (id : UInt64) (block : AcefBlock) (blocks : List AcefBlock) :
    withId id (block :: blocks) =
      (if id = block.name then [block] else []) ++ withId id blocks := by
  unfold withId
  rw [List.filter_cons]
  by_cases h : id = block.name
  · subst h
    simp
  · have hne : ¬block.name = id := fun heq => h heq.symm
    simp [h, hne]

/-- `s'` has the blocks of the file `loc` in its index, with their arrays. -/
structure Registered (loc : Nat) (blocks : List AcefBlock) (arrays : UInt64 → List AcefArray)
    (s s' : AcefData) : Prop where
  files : s'.locs = s.locs
  called : s'.called = s.called
  locs : ∀ id, (s'.ref id).locs =
    (s.ref id).locs ++ List.replicate (withId id blocks).length loc
  allocs : ∀ id, (s'.ref id).allocs = (s.ref id).allocs ++ arrays id
  found : ∀ id, s'.map id = none ↔ s.map id = none ∧ withId id blocks = []

theorem Registered.nil (loc : Nat) (s : AcefData) (heap : List UInt8) :
    Registered loc [] (fun _ => []) s { s with heap } where
  files := rfl
  called := rfl
  locs _ := (List.append_nil _).symm
  allocs _ := (List.append_nil _).symm
  found _ := ⟨fun h => ⟨h, rfl⟩, And.left⟩

theorem Registered.setHeap {loc : Nat} {blocks : List AcefBlock}
    {arrays : UInt64 → List AcefArray} {s s' : AcefData} (h : Registered loc blocks arrays s s')
    (heap : List UInt8) : Registered loc blocks arrays s { s' with heap } :=
  ⟨h.files, h.called, h.locs, h.allocs, h.found⟩

/-- A block before others. -/
theorem Registered.cons {loc : Nat} {block : AcefBlock} {blocks : List AcefBlock}
    {first arrays : UInt64 → List AcefArray} {s s₁ s₂ : AcefData}
    (h₁ : Registered loc [block] first s s₁) (h₂ : Registered loc blocks arrays s₁ s₂) :
    Registered loc (block :: blocks) (fun id => first id ++ arrays id) s s₂ where
  files := h₂.files.trans h₁.files
  called := h₂.called.trans h₁.called
  locs id := by
    have hsplit : (withId id (block :: blocks)).length =
        (withId id [block]).length + (withId id blocks).length := by
      rw [withId_cons, withId_cons, List.length_append, List.length_append]
      rfl
    rw [h₂.locs, h₁.locs, List.append_assoc, List.replicate_append_replicate, hsplit]
  allocs id := by rw [h₂.allocs, h₁.allocs, List.append_assoc]
  found id := by
    have hsplit : withId id (block :: blocks) = withId id [block] ++ withId id blocks := by
      rw [withId_cons, withId_cons]
      exact congrArg (· ++ _) (List.append_nil _).symm
    rw [h₂.found, h₁.found, hsplit, List.append_eq_nil_iff, and_assoc]

theorem Registered.addLoc (s : AcefData) (block : AcefBlock) (loc : Nat) :
    Registered loc [block] (fun _ => []) s (s.addLoc block.name loc) where
  files := rfl
  called := rfl
  locs id := by
    rw [locs_addLoc, withId_cons]
    split
    · rfl
    · rfl
  allocs id := by rw [allocs_addLoc, List.append_nil]
  found id := by
    rw [AcefData.addLoc, map_setRef, withId_cons]
    by_cases h : id = block.name
    · simp [h]
    · simp [h, withId]

theorem Registered.addAlloc {loc : Nat} {block : AcefBlock} {s s' : AcefData}
    (h : Registered loc [block] (fun _ => []) s s') (a : AcefArray) :
    Registered loc [block] (fun id => if id = block.name then [a] else []) s
      (s'.addAlloc block.name a) where
  files := h.files
  called := h.called
  locs id := by rw [locs_addAlloc, h.locs]
  allocs id := by rw [allocs_addAlloc, h.allocs, List.append_nil]
  found id := by
    rw [AcefData.addAlloc, map_setRef, h.found, withId_cons]
    by_cases h : id = block.name
    · simp [h]
    · simp [h, withId]

/-! ## Arrays -/

/-- The arrays of blocks whose data lie behind each other from `addr` on. -/
def arraysOf : Nat → List AcefBlock → UInt64 → List AcefArray
  | _, [], _ => []
  | addr, block :: blocks, id =>
    (if id = block.name then [⟨block.data.length, addr⟩] else []) ++
      arraysOf (addr + block.data.length) blocks id

/-- The contents of the blocks with an id. -/
def dataOf (id : UInt64) (blocks : List AcefBlock) : List (List UInt8) :=
  (withId id blocks).map AcefBlock.data

theorem contents_arraysOf (id : UInt64) (blocks : List AcefBlock) (s : AcefData)
    {front : List UInt8} (h : front ++ blocks.flatMap AcefBlock.data <+: s.heap) :
    s.contents (arraysOf front.length blocks id) = dataOf id blocks := by
  induction blocks generalizing front with
  | nil => rfl
  | cons block blocks ih =>
    rw [List.flatMap_cons, ← List.append_assoc] at h
    have hrest := ih h
    obtain ⟨tail, htail⟩ := h
    rw [List.length_append] at hrest
    unfold arraysOf dataOf
    rw [withId_cons, AcefData.contents, List.map_append, List.map_append]
    refine congrArg₂ _ ?_ hrest
    split
    · simp only [List.map_cons, List.map_nil, ← htail, List.append_assoc]
      rw [List.drop_left, List.take_left]
    · rfl

theorem le_of_mem_arraysOf {id : UInt64} {blocks : List AcefBlock} {addr : Nat} {a : AcefArray}
    (h : a ∈ arraysOf addr blocks id) : a.data + a.len ≤ addr + total blocks := by
  induction blocks generalizing addr with
  | nil => cases h
  | cons block blocks ih =>
    rw [total_cons]
    unfold arraysOf at h
    rcases List.mem_append.mp h with h | h
    · split at h
      · rw [List.mem_singleton] at h
        subst h
        dsimp only
        omega
      · cases h
    · have := ih h
      omega

theorem length_flatMap_data (blocks : List AcefBlock) :
    (blocks.flatMap AcefBlock.data).length = total blocks := by
  induction blocks with
  | nil => rfl
  | cons block blocks ih => rw [List.flatMap_cons, List.length_append, ih, total_cons]

/-! ## Blocks -/

/-- A block whose data come back as a length that is no error. -/
def Sound (alg : UInt64) (block : AcefBlock) : Prop :=
  block.data.length < 2 ^ 31 ∧ (getCompressionType alg = compOodle → block.data ≠ [])

theorem write_eq {loc n : Nat} {front bytes : List UInt8} {s : AcefData}
    (hheap : s.heap = front ++ List.replicate (bytes.length + n) 0) (hloc : front.length = loc) :
    write loc bytes s =
      .ok () { s with heap := front ++ bytes ++ List.replicate n 0 } := by
  subst hloc
  have hle : front.length + bytes.length ≤ s.heap.length := by
    rw [hheap, List.length_append, List.length_replicate]
    omega
  have hrest : s.heap.drop (front.length + bytes.length) = List.replicate n 0 := by
    rw [hheap, ← List.drop_drop, List.drop_left, List.drop_replicate, Nat.add_sub_cancel_left]
  unfold write
  rw [if_pos hle, hrest, hheap, List.take_left]

theorem loadBlocks_preload {header : AcefHeader} {file : List UInt8} {blocks : List AcefBlock}
    {st : Building} (h : Between lib alg header file blocks st)
    (hle : st.decompressedSize + total blocks ≤ header.decompressedSize)
    (hlt : header.decompressedSize < 2 ^ 32) (loc data : Nat) (buffer : List UInt8)
    (s : AcefData) :
    ∃ s', loadBlocks lib file header true loc data blocks.length st.data.length buffer s =
        .ok () s' ∧ Registered loc blocks (fun _ => []) s s' ∧ s'.heap = s.heap := by
  induction blocks generalizing st buffer s with
  | nil => exact ⟨s, rfl, .nil loc s s.heap, rfl⟩
  | cons block blocks ih =>
    obtain ⟨comp, st', hnext⟩ := h.next
    rw [total_cons] at hle
    have hdec : st'.decompressedSize = st.decompressedSize + block.data.length := by
      rw [hnext.decompressedSize, Nat.mod_eq_of_lt (by omega)]
    have hblock := hnext.loadBlock_preload h.fits loc data buffer s (by omega)
    obtain ⟨s', hrun, hreg, hheap⟩ := ih hnext.between (by omega)
      (overlay (headerOf st block comp).bytes buffer) (s.addLoc block.name loc)
    refine ⟨s', ?_, (Registered.addLoc s block loc).cons hreg, hheap⟩
    rw [List.length_cons, loadBlocks, bind_ok hblock]
    exact hrun

theorem loadBlocks_load (hlib : lib.RoundTrips) {header : AcefHeader} {file : List UInt8}
    {blocks : List AcefBlock} {st : Building} (h : Between lib alg header file blocks st)
    (hsound : ∀ block ∈ blocks, Sound alg block)
    (hsum : st.decompressedSize + total blocks = header.decompressedSize)
    (hlt : header.decompressedSize < 2 ^ 32) (loc : Nat) {data : Nat} {front : List UInt8}
    (buffer : List UInt8) {s : AcefData}
    (hheap : s.heap = front ++ List.replicate (total blocks) 0)
    (hfront : front.length = data + st.decompressedSize) :
    ∃ s', loadBlocks lib file header false loc data blocks.length st.data.length buffer s =
        .ok () s' ∧ Registered loc blocks (arraysOf front.length blocks) s s' ∧
      s'.heap = front ++ blocks.flatMap AcefBlock.data := by
  induction blocks generalizing st buffer s front with
  | nil =>
    refine ⟨s, rfl, .nil loc s s.heap, ?_⟩
    rw [hheap]
    rfl
  | cons block blocks ih =>
    obtain ⟨comp, st', hnext⟩ := h.next
    rw [total_cons] at hsum hheap
    obtain ⟨hsize, hne⟩ := hsound block List.mem_cons_self
    have hdec : st'.decompressedSize = st.decompressedSize + block.data.length := by
      rw [hnext.decompressedSize, Nat.mod_eq_of_lt (by omega)]
    have hcast : block.data.length % 2 ^ 32 = block.data.length := Nat.mod_eq_of_lt (by omega)
    have hblock := hnext.loadBlock_load h.fits loc data buffer s (by omega)
    rw [hcast, decompress2_packed hlib hnext.compressed hsize hne, ofExcept_bind] at hblock
    dsimp only at hblock
    rw [bind_ok (write_eq (s := s.addLoc block.name loc) hheap hfront)] at hblock
    rw [if_neg (Int.not_lt.mpr (Int.natCast_nonneg _))] at hblock
    have hreg := ((Registered.addLoc s block loc).setHeap
      (front ++ block.data ++ List.replicate (total blocks) 0)).addAlloc
        ⟨block.data.length, data + st.decompressedSize⟩
    have hheap₁ : ({ s.addLoc block.name loc with
        heap := front ++ block.data ++ List.replicate (total blocks) 0 }.addAlloc block.name
          ⟨block.data.length, data + st.decompressedSize⟩ : AcefData).heap =
        front ++ block.data ++ List.replicate (total blocks) 0 := rfl
    obtain ⟨s', hrun, hrest, hheap'⟩ := ih hnext.between
      (fun b hb => hsound b (List.mem_cons_of_mem block hb)) (by omega)
      (overlay (headerOf st block comp).bytes buffer) hheap₁
      (by rw [List.length_append]; omega)
    refine ⟨s', ?_, ?_, ?_⟩
    · rw [List.length_cons, loadBlocks, bind_ok hblock]
      exact hrun
    · have hcons := hreg.cons hrest
      rw [← hfront, List.length_append] at hcons
      exact hcons
    · rw [hheap', List.flatMap_cons, List.append_assoc]

/-! ## Files -/

theorem Between.length_le {header : AcefHeader} {file : List UInt8} {blocks : List AcefBlock}
    {st : Building} (h : Between lib alg header file blocks st) :
    st.data.length + AcefBlockHeader.size * blocks.length ≤ file.length := by
  induction blocks generalizing st with
  | nil =>
    obtain ⟨final, front, hadd, -, -, hfront, hfile⟩ := h.rest
    have hstarted := h.started
    cases hadd
    rw [hfile, List.length_append, List.length_drop, List.length_nil]
    omega
  | cons block blocks ih =>
    obtain ⟨comp, st', hnext⟩ := h.next
    have hrest := ih hnext.between
    have hlen := hnext.length_eq
    rw [List.length_cons, Nat.mul_succ]
    omega

/-- The first block of a written file. -/
theorem IsFile.between {blocks : List AcefBlock} {final : Building} {file : List UInt8}
    (h : IsFile lib alg blocks final file) :
    Between lib alg (finalHeader alg blocks.length final) file blocks .start :=
  ⟨fits_start, Nat.le_of_eq (List.length_replicate).symm, rfl, rfl, h.length_lt, final, _, h.added,
    rfl, rfl, length_finalHeader ((addBlocks_extends h.added).fits fits_start) _, h.file_eq⟩

theorem known_of_compress {data comp : List UInt8} (h : compress lib alg data = .ok comp) :
    getCompressionType alg < compCount := by
  unfold compress at h
  split at h
  · rename_i hnone
    rw [hnone]
    decide
  · split at h
    · rename_i hknown
      simp only [List.mem_cons, List.not_mem_nil, or_false] at hknown
      rcases hknown with hknown | hknown | hknown | hknown
      all_goals
        rw [hknown]
        decide
    · cases h

/-- A file without blocks adds nothing, whether its header is accepted or not. -/
theorem loadFile_empty {final : Building} {file : List UInt8} (h : IsFile lib alg [] final file)
    (loc : Nat) (preload : Bool) (s : AcefData) :
    catchWarning (loadFile lib file loc preload) s = .ok () s := by
  have hread := readHeader_written h
  have hfinal : final = Building.start := (Except.ok.inj h.added).symm
  by_cases hknown : getCompressionType alg ≥ compCount
  · unfold catchWarning loadFile
    rw [hread, if_pos hknown]
    rfl
  · have hbody : loadFile lib file loc preload s = .ok () s := by
      unfold loadFile
      rw [hread, if_neg hknown, hfinal, ofExcept_bind]
      cases preload with
      | true => rfl
      | false =>
        have halloc : alloc 0 s = .ok s.heap.length s := by
          unfold alloc
          rw [List.replicate_zero, List.append_nil]
        exact bind_ok halloc
    unfold catchWarning
    rw [hbody]

theorem IsFile.known {block : AcefBlock} {blocks : List AcefBlock} {final : Building}
    {file : List UInt8} (h : IsFile lib alg (block :: blocks) final file) :
    ¬getCompressionType alg ≥ compCount := by
  obtain ⟨comp, st', hcomp, -⟩ := addBlocks_cons h.added
  exact Nat.not_le_of_lt (known_of_compress hcomp)

theorem IsFile.decompressedSize {blocks : List AcefBlock} {final : Building} {file : List UInt8}
    (h : IsFile lib alg blocks final file) :
    final.decompressedSize = total blocks % 2 ^ 32 := by
  rw [(addBlocks_extends h.added).decompressedSize (by decide)]
  exact congrArg (· % 2 ^ 32) (Nat.zero_add _)

theorem IsFile.numObjects {blocks : List AcefBlock} {final : Building} {file : List UInt8}
    (h : IsFile lib alg blocks final file) : blocks.length % 2 ^ 32 = blocks.length := by
  have hle := h.between.length_le
  have hlt := h.length_lt
  have hsize : AcefBlockHeader.size = 24 := rfl
  rw [hsize] at hle
  exact Nat.mod_eq_of_lt (by omega)

theorem loadFile_preload {blocks : List AcefBlock} {final : Building} {file : List UInt8}
    (h : IsFile lib alg blocks final file) (hlt : total blocks < 2 ^ 32) (loc : Nat)
    (s : AcefData) :
    ∃ s', catchWarning (loadFile lib file loc true) s = .ok () s' ∧
      Registered loc blocks (fun _ => []) s s' ∧ s'.heap = s.heap := by
  cases blocks with
  | nil => exact ⟨s, loadFile_empty h loc true s, .nil loc s s.heap, rfl⟩
  | cons block blocks =>
    have hdec := h.decompressedSize
    rw [Nat.mod_eq_of_lt hlt] at hdec
    obtain ⟨s', hrun, hreg, hheap⟩ := loadBlocks_preload h.between
      (Nat.le_of_eq ((Nat.zero_add _).trans hdec.symm)) (Nat.lt_of_le_of_lt (Nat.le_of_eq hdec) hlt)
      loc 0 (List.replicate AcefBlockHeader.size 0) s
    refine ⟨s', ?_, hreg, hheap⟩
    have hbody : loadFile lib file loc true s = .ok () s' := by
      unfold loadFile
      rw [readHeader_written h, if_neg h.known, ofExcept_bind]
      show loadBlocks lib file _ true loc 0 ((block :: blocks).length % 2 ^ 32) AcefHeader.size
        (List.replicate AcefBlockHeader.size 0) s = _
      rw [h.numObjects]
      exact hrun
    unfold catchWarning
    rw [hbody]

theorem loadFile_load (hlib : lib.RoundTrips) {blocks : List AcefBlock} {final : Building}
    {file : List UInt8} (h : IsFile lib alg blocks final file)
    (hsound : ∀ block ∈ blocks, Sound alg block) (hlt : total blocks < 2 ^ 32) (loc : Nat)
    (s : AcefData) :
    ∃ s', catchWarning (loadFile lib file loc false) s = .ok () s' ∧
      Registered loc blocks (arraysOf s.heap.length blocks) s s' ∧
      s'.heap = s.heap ++ blocks.flatMap AcefBlock.data := by
  cases blocks with
  | nil =>
    exact ⟨s, loadFile_empty h loc false s, .nil loc s s.heap, (List.append_nil _).symm⟩
  | cons block blocks =>
    have hdec := h.decompressedSize
    rw [Nat.mod_eq_of_lt hlt] at hdec
    have halloc : alloc final.decompressedSize s = .ok s.heap.length
        { s with heap := s.heap ++ List.replicate (total (block :: blocks)) 0 } := by
      rw [hdec]
      rfl
    obtain ⟨s', hrun, hreg, hheap⟩ := loadBlocks_load hlib h.between hsound
      ((Nat.zero_add _).trans hdec.symm) (Nat.lt_of_le_of_lt (Nat.le_of_eq hdec) hlt)
      loc (List.replicate AcefBlockHeader.size 0)
      (s := { s with heap := s.heap ++ List.replicate (total (block :: blocks)) 0 }) rfl
      (Nat.add_zero _).symm
    refine ⟨s', ?_, ⟨hreg.files, hreg.called, hreg.locs, hreg.allocs, hreg.found⟩, hheap⟩
    have hbody : loadFile lib file loc false s = .ok () s' := by
      unfold loadFile
      rw [readHeader_written h, if_neg h.known, ofExcept_bind]
      show (alloc final.decompressedSize >>= fun data => loadBlocks lib file _ false loc data
        ((block :: blocks).length % 2 ^ 32) AcefHeader.size
        (List.replicate AcefBlockHeader.size 0)) s = _
      rw [bind_ok halloc, h.numObjects]
      exact hrun
    unfold catchWarning
    rw [hbody]

end Acts.Acef
