import Acts.Extension.Acef

/-!
# Reading written ACEF files

* `decompress2_packed`, `decompress2_le` — a block that was compressed, and what any block gives.
* `Between` — the loader stands between two blocks of a written file.
* `loadBlock_tooMany`, `loadBlock_preload`, `loadBlock_load` — what it does with the next one.
-/

set_option autoImplicit false

namespace Acts.Acef

variable {lib : Libraries} {alg : UInt64}

/-! ## Compression -/

theorem toInt_of_lt {n : Nat} (h : n < 2 ^ 31) : toInt n = n := by
  unfold toInt
  rw [Int.bmod_def, if_pos (by omega)]
  omega

theorem lt_of_toInt {n : Nat} (hn : n < 2 ^ 32) (h : 0 ≤ toInt n) : n < 2 ^ 31 := by
  unfold toInt at h
  rw [Int.bmod_def] at h
  split at h
  · omega
  · omega

/-- A block of less than two GiB comes back. -/
theorem decompress2_packed (hlib : lib.RoundTrips) {data comp : List UInt8}
    (hcomp : compress lib alg data = .ok comp) (hlt : data.length < 2 ^ 31)
    (hne : getCompressionType alg = compOodle → data ≠ []) :
    decompress2 lib alg data.length comp = .ok (data.length, data) := by
  unfold compress at hcomp
  unfold decompress2
  by_cases hnone : getCompressionType alg = compNone
  · rw [if_pos hnone] at hcomp ⊢
    cases hcomp
    rw [if_neg (Nat.lt_irrefl _), toInt_of_lt hlt]
  · rw [if_neg hnone] at hcomp ⊢
    split at hcomp
    · rename_i hknown
      split at hcomp
      · cases hcomp
      · rename_i c hc
        cases hcomp
        rw [if_pos hknown, hlib.decompress_compress alg data _ hlt hc]
        dsimp only
        rw [toInt_of_lt hlt, if_neg]
        rintro ⟨hoodle, hle⟩
        have := List.length_pos_iff.mpr (hne hoodle)
        omega
    · cases hcomp

/-- What a result that is no error says of the bytes behind it. -/
theorem decompress2_le (hlib : lib.RoundTrips) {size : Nat} {src out : List UInt8} {r : Int}
    (h : decompress2 lib alg size src = .ok (r, out)) (hsize : size < 2 ^ 32) (hr : 0 ≤ r) :
    r.toNat = out.length ∧ out.length ≤ size ∧ out.length < 2 ^ 31 ∧
      (getCompressionType alg = compOodle → 0 < out.length) := by
  unfold decompress2 at h
  split at h
  · rename_i hnone
    split at h
    · cases h
      exact absurd hr (by decide)
    · rename_i hle
      simp only [Except.ok.injEq, Prod.mk.injEq] at h
      obtain ⟨rfl, rfl⟩ := h
      have hlt := lt_of_toInt (by omega) hr
      rw [toInt_of_lt hlt]
      refine ⟨Int.toNat_natCast _, by omega, hlt, ?_⟩
      intro hoodle
      rw [hnone] at hoodle
      exact absurd hoodle (by decide)
  · split at h
    · split at h
      · cases h
        exact absurd hr (by decide)
      · rename_i out' hout
        have hle := hlib.length_le alg size src _ hout
        split at h
        · cases h
          exact absurd hr (by decide)
        · rename_i hoodle
          simp only [Except.ok.injEq, Prod.mk.injEq] at h
          obtain ⟨rfl, rfl⟩ := h
          have hlt := lt_of_toInt (by omega) hr
          rw [toInt_of_lt hlt] at hoodle ⊢
          refine ⟨Int.toNat_natCast _, hle, hlt, ?_⟩
          intro heq
          have := fun h => hoodle ⟨heq, h⟩
          omega
    · cases h

/-! ## Written files -/

/-- The header of a block. -/
def headerOf (st : Building) (block : AcefBlock) (comp : List UInt8) : AcefBlockHeader where
  blockSize := comp.length % 2 ^ 32
  decompSize := block.data.length % 2 ^ 32
  checkLoc := st.data.length % 2 ^ 32
  dataOffset := st.decompressedSize
  blockId := block.name.toNat

theorem addBlocks_cons {block : AcefBlock} {blocks : List AcefBlock} {st final : Building}
    (h : addBlocks lib alg (block :: blocks) st = .ok final) :
    ∃ comp st', compress lib alg block.data = .ok comp ∧ addBlock lib alg st block = .ok st' ∧
      addBlocks lib alg blocks st' = .ok final ∧
      st'.data = st.data ++ ((headerOf st block comp).bytes ++ comp) ∧
      st'.decompressedSize = (st.decompressedSize + block.data.length) % 2 ^ 32 ∧
      st'.compressedSize < 2 ^ 32 ∧
      st'.windowSize = if st.windowSize < comp.length then comp.length % 2 ^ 32
        else st.windowSize := by
  simp only [addBlocks, addBlock] at h ⊢
  cases hcomp : compress lib alg block.data with
  | error e =>
    rw [hcomp] at h
    cases h
  | ok comp =>
    rw [hcomp] at h
    refine ⟨comp, _, rfl, rfl, h, rfl, ?_, Nat.mod_lt _ (by decide), rfl⟩
    exact Nat.add_mod_mod _ _ _

/-- The sizes of the data of blocks. -/
def total (blocks : List AcefBlock) : Nat := (blocks.map fun block => block.data.length).sum

@[simp] theorem total_nil : total [] = 0 := rfl

@[simp] theorem total_cons (block : AcefBlock) (blocks : List AcefBlock) :
    total (block :: blocks) = block.data.length + total blocks := by
  simp [total]

structure Building.Fits (st : Building) : Prop where
  compressedSize_lt : st.compressedSize < 2 ^ 32
  decompressedSize_lt : st.decompressedSize < 2 ^ 32
  windowSize_lt : st.windowSize < 2 ^ 32

/-- What writing further blocks leaves of the file, and what it adds. -/
structure Extends (st final : Building) (blocks : List AcefBlock) : Prop where
  isPrefix : st.data <+: final.data
  fits : st.Fits → final.Fits
  decompressedSize : st.decompressedSize < 2 ^ 32 →
    final.decompressedSize = (st.decompressedSize + total blocks) % 2 ^ 32
  windowSize : final.data.length < 2 ^ 32 → st.windowSize ≤ final.windowSize

theorem addBlocks_extends {blocks : List AcefBlock} {st final : Building}
    (h : addBlocks lib alg blocks st = .ok final) : Extends st final blocks := by
  induction blocks generalizing st with
  | nil =>
    cases h
    refine ⟨List.prefix_refl _, id, ?_, fun _ => Nat.le_refl _⟩
    intro hlt
    rw [total_nil, Nat.add_zero, Nat.mod_eq_of_lt hlt]
  | cons block blocks ih =>
    obtain ⟨comp, st', -, -, hrest, hdata, hdec, hcomp, hwindow⟩ := addBlocks_cons h
    obtain ⟨hstart, hfits, hdecompressed, hwindows⟩ := ih hrest
    have hlt' : st'.decompressedSize < 2 ^ 32 := hdec ▸ Nat.mod_lt _ (by decide)
    refine ⟨?_, ?_, ?_, ?_⟩
    · exact List.IsPrefix.trans (hdata ▸ List.prefix_append _ _) hstart
    · intro hst
      refine hfits ⟨hcomp, hlt', ?_⟩
      rw [hwindow]
      split
      · exact Nat.mod_lt _ (by decide)
      · exact hst.windowSize_lt
    · intro _
      rw [hdecompressed hlt', hdec, total_cons, Nat.mod_add_mod, Nat.add_assoc]
    · intro hlt
      have hlen := hstart.length_le
      rw [hdata] at hlen
      simp only [List.length_append] at hlen
      refine Nat.le_trans ?_ (hwindows hlt)
      rw [hwindow]
      split
      · rw [Nat.mod_eq_of_lt (by omega)]
        omega
      · exact Nat.le_refl _

/-- A written file. -/
structure IsFile (lib : Libraries) (alg : UInt64) (blocks : List AcefBlock) (final : Building)
    (file : List UInt8) : Prop where
  added : addBlocks lib alg blocks .start = .ok final
  file_eq : file = (finalHeader alg blocks.length final).bytes ++ final.data.drop AcefHeader.size
  length_lt : file.length < 2 ^ 32

theorem isFile_of_written {blocks : List AcefBlock} {file : List UInt8}
    (h : compressACEFBlock lib alg blocks = .ok file) (hlt : file.length < 2 ^ 32) :
    ∃ final, IsFile lib alg blocks final file := by
  unfold compressACEFBlock at h
  cases hadd : addBlocks lib alg blocks .start with
  | error e =>
    rw [hadd] at h
    cases h
  | ok final =>
    rw [hadd] at h
    cases h
    exact ⟨final, hadd, rfl, hlt⟩

/-! ## Reading -/

theorem readAt_append {before bytes rest file : List UInt8} {loc size : Nat}
    (hfile : file = before ++ (bytes ++ rest)) (hloc : before.length = loc)
    (hsize : bytes.length = size) : readAt file loc size = .ok bytes := by
  subst hfile hloc hsize
  unfold readAt
  rw [if_pos (by simp only [List.length_append]; omega), List.drop_left, List.take_left]

theorem readAt_start {bytes rest file : List UInt8} {size : Nat} (hfile : file = bytes ++ rest)
    (hsize : bytes.length = size) : readAt file 0 size = .ok bytes := by
  have hparts : file = [] ++ (bytes ++ rest) := hfile
  exact readAt_append hparts rfl hsize

theorem goto_le {file : List UInt8} {loc : Nat} (h : loc ≤ file.length) :
    goto file loc = .ok loc := by
  unfold goto
  rw [if_neg (by omega)]

theorem skip_le {file : List UInt8} {loc size : Nat} (h : loc + size ≤ file.length) :
    skip file loc size = .ok (loc + size) := by
  unfold skip
  rw [if_pos h]

theorem fits_start : Building.start.Fits := ⟨by decide, by decide, by decide⟩

theorem finalHeader_fits {final : Building} (h : final.Fits) (count : Nat) :
    FieldsFit AcefHeader.widths (finalHeader alg count final).fields := by
  have hsize : (256 : Nat) ^ 4 = 2 ^ 32 := by decide
  refine ⟨(by decide : acefMagic < 256 ^ 4), (by decide : acefVersionLatest < 256 ^ 2),
    (by decide : 0 < 256 ^ 2), (by decide : AcefHeader.size < 256 ^ 4),
    (by decide : AcefBlockHeader.size < 256 ^ 4), ?_, ?_, ?_, ?_, ?_, trivial⟩
  · exact hsize ▸ Nat.mod_lt _ (by decide)
  · exact hsize ▸ h.compressedSize_lt
  · exact hsize ▸ h.decompressedSize_lt
  · exact hsize ▸ h.windowSize_lt
  · exact alg.toNat_lt

theorem length_finalHeader {final : Building} (h : final.Fits) (count : Nat) :
    (finalHeader alg count final).bytes.length = AcefHeader.size :=
  length_writeFields (finalHeader_fits h count)

theorem headerOf_fits {st : Building} (h : st.Fits) (block : AcefBlock) (comp : List UInt8) :
    FieldsFit AcefBlockHeader.widths (headerOf st block comp).fields := by
  have hsize : (256 : Nat) ^ 4 = 2 ^ 32 := by decide
  refine ⟨?_, ?_, ?_, ?_, ?_, trivial⟩
  · exact hsize ▸ Nat.mod_lt _ (by decide)
  · exact hsize ▸ Nat.mod_lt _ (by decide)
  · exact hsize ▸ Nat.mod_lt _ (by decide)
  · exact hsize ▸ h.decompressedSize_lt
  · exact block.name.toNat_lt

theorem length_headerOf {st : Building} (h : st.Fits) (block : AcefBlock) (comp : List UInt8) :
    (headerOf st block comp).bytes.length = AcefBlockHeader.size :=
  length_writeFields (headerOf_fits h block comp)

theorem overlay_full {bytes buffer : List UInt8} (h : buffer.length ≤ bytes.length) :
    overlay bytes buffer = bytes := by
  unfold overlay
  rw [List.drop_eq_nil_of_le h, List.append_nil]

/-- The header of a written file is read back, unless no block was compressed with an algorithm
that does not exist. -/
theorem readHeader_written {blocks : List AcefBlock} {final : Building} {file : List UInt8}
    (h : IsFile lib alg blocks final file) :
    readHeader file = if getCompressionType alg ≥ compCount then .error .unknownCompression
      else .ok (finalHeader alg blocks.length final) := by
  have hfits : final.Fits := (addBlocks_extends h.added).fits fits_start
  have hlen : (finalHeader alg blocks.length final).bytes.length = AcefHeader.size :=
    length_finalHeader hfits blocks.length
  have hfile := h.file_eq
  let rest := writeFields [4, 4, 4, 4, 4, 8] [AcefBlockHeader.size, blocks.length % 2 ^ 32,
    final.compressedSize, final.decompressedSize, final.windowSize, alg.toNat] ++
      final.data.drop AcefHeader.size
  have hparts : file = leBytes 4 acefMagic ++ (leBytes 2 acefVersionLatest ++ (leBytes 2 0 ++
      (leBytes 4 AcefHeader.size ++ rest))) := by
    rw [hfile]
    simp only [AcefHeader.bytes, AcefHeader.widths, AcefHeader.fields, finalHeader, writeFields,
      List.append_assoc, rest]
  have hmagic : readAt file 0 4 = .ok (leBytes 4 acefMagic) :=
    readAt_start hparts (length_leBytes _ _)
  have hversion : readAt file 4 2 = .ok (leBytes 2 acefVersionLatest) :=
    readAt_append hparts (length_leBytes _ _) (length_leBytes _ _)
  rw [← List.append_assoc] at hparts
  have hflags : readAt file 6 2 = .ok (leBytes 2 0) :=
    readAt_append hparts (by simp) (length_leBytes _ _)
  rw [← List.append_assoc] at hparts
  have hsize : readAt file 8 4 = .ok (leBytes 4 AcefHeader.size) :=
    readAt_append hparts (by simp) (length_leBytes _ _)
  have hheader : readAt file 0 AcefHeader.size = .ok (finalHeader alg blocks.length final).bytes :=
    readAt_start hfile hlen
  have hread : ∀ n v, v < 256 ^ n → readLe n (leBytes n v) = v := by
    intro n v hv
    have := readLe_leBytes n v []
    rwa [List.append_nil, Nat.mod_eq_of_lt hv] at this
  have hgoto : goto file AcefHeader.size = .ok AcefHeader.size :=
    goto_le (by rw [hfile, List.length_append, hlen]; omega)
  have hof : AcefHeader.ofBytes (overlay (finalHeader alg blocks.length final).bytes
      (List.replicate AcefHeader.size 0)) = finalHeader alg blocks.length final := by
    unfold overlay
    exact AcefHeader.ofBytes_bytes (finalHeader_fits hfits _) _
  unfold readHeader
  simp only [hmagic, hversion, hflags, hsize, bind, Except.bind, hread 4 acefMagic (by decide),
    hread 2 acefVersionLatest (by decide), hread 2 0 (by decide),
    hread 4 AcefHeader.size (by decide), Nat.min_self, hheader, hof, hgoto]
  rw [if_neg (by decide), if_neg (by decide), if_neg (by decide)]
  rfl

theorem ofExcept_bind {α β : Type} (a : α) (f : α → M β) (s : AcefData) :
    (ofExcept (.ok a) >>= f) s = f a s := rfl

/-! ## Blocks -/

/-- The loader stands before `blocks` of a written file. -/
structure Between (lib : Libraries) (alg : UInt64) (header : AcefHeader) (file : List UInt8)
    (blocks : List AcefBlock) (st : Building) : Prop where
  fits : st.Fits
  started : AcefHeader.size ≤ st.data.length
  compress_eq : header.compress = alg.toNat
  sizeObjectHeader_eq : header.sizeObjectHeader = AcefBlockHeader.size
  length_lt : file.length < 2 ^ 32
  rest : ∃ final front, addBlocks lib alg blocks st = .ok final ∧
    header.decompressedSize = final.decompressedSize ∧ header.windowSize = final.windowSize ∧
    front.length = AcefHeader.size ∧ file = front ++ final.data.drop AcefHeader.size

/-- What the loader reads of the next block. -/
structure Next (lib : Libraries) (alg : UInt64) (header : AcefHeader) (file : List UInt8)
    (block : AcefBlock) (blocks : List AcefBlock) (st : Building) (comp : List UInt8)
    (st' : Building) : Prop where
  compressed : compress lib alg block.data = .ok comp
  between : Between lib alg header file blocks st'
  decompressedSize : st'.decompressedSize = (st.decompressedSize + block.data.length) % 2 ^ 32
  length_eq : st'.data.length = st.data.length + AcefBlockHeader.size + comp.length
  length_le : st'.data.length ≤ file.length
  block_eq : readAt file st.data.length AcefBlockHeader.size = .ok (headerOf st block comp).bytes
  comp_eq : readAt file (st.data.length + AcefBlockHeader.size) comp.length = .ok comp
  window : comp.length ≤ header.windowSize

theorem Between.next {header : AcefHeader} {file : List UInt8} {block : AcefBlock}
    {blocks : List AcefBlock} {st : Building}
    (h : Between lib alg header file (block :: blocks) st) :
    ∃ comp st', Next lib alg header file block blocks st comp st' := by
  obtain ⟨final, front, hadd, hdec, hwindow, hfront, hfile⟩ := h.rest
  obtain ⟨comp, st', hcomp, -, hrest, hdata, hdec', hcomp', hwindow'⟩ := addBlocks_cons hadd
  have hext' := addBlocks_extends hrest
  obtain ⟨tail, htail⟩ := hext'.isPrefix
  have hhead := length_headerOf h.fits block comp
  have hstarted := h.started
  have hlt := h.length_lt
  have hlen : st'.data.length = st.data.length + AcefBlockHeader.size + comp.length := by
    rw [hdata]
    simp only [List.length_append, hhead]
    omega
  have hfinal : final.data.length = st'.data.length + tail.length := by
    rw [← htail, List.length_append]
  have hparts : file = (front ++ st.data.drop AcefHeader.size) ++
      ((headerOf st block comp).bytes ++ (comp ++ tail)) := by
    rw [hfile, ← htail, hdata, List.append_assoc, List.drop_append_of_le_length hstarted]
    simp only [List.append_assoc]
  have hbefore : (front ++ st.data.drop AcefHeader.size).length = st.data.length := by
    rw [List.length_append, hfront, List.length_drop]
    omega
  have hfilelen : file.length = final.data.length := by
    rw [hparts, List.length_append, hbefore, List.length_append, List.length_append, hhead, hfinal]
    omega
  have hfits' : st'.Fits := by
    refine ⟨hcomp', hdec' ▸ Nat.mod_lt _ (by decide), ?_⟩
    rw [hwindow']
    split
    · exact Nat.mod_lt _ (by decide)
    · exact h.fits.windowSize_lt
  refine ⟨comp, st', hcomp, ⟨hfits', by omega, h.compress_eq, h.sizeObjectHeader_eq, hlt,
    final, front, hrest, hdec, hwindow, hfront, hfile⟩, hdec', hlen, by omega, ?_, ?_, ?_⟩
  · exact readAt_append hparts hbefore hhead
  · rw [← List.append_assoc] at hparts
    exact readAt_append hparts (by rw [List.length_append, hbefore, hhead]) rfl
  · have hle := hext'.windowSize (by omega)
    rw [hwindow]
    refine Nat.le_trans ?_ hle
    rw [hwindow']
    split
    · exact Nat.le_of_eq (Nat.mod_eq_of_lt (by omega)).symm
    · omega

namespace Next

variable {header : AcefHeader} {file : List UInt8} {block : AcefBlock} {blocks : List AcefBlock}
  {st st' : Building} {comp : List UInt8}

theorem comp_lt (h : Next lib alg header file block blocks st comp st') :
    comp.length < 2 ^ 32 := by
  have := h.length_eq
  have := h.length_le
  have := h.between.length_lt
  omega

/-- The bytes left in the buffer are the header of the block. -/
theorem ofBytes_eq (hst : st.Fits) (buffer : List UInt8) :
    AcefBlockHeader.ofBytes (overlay (headerOf st block comp).bytes buffer) =
      headerOf st block comp := by
  unfold overlay
  exact AcefBlockHeader.ofBytes_bytes (headerOf_fits hst block comp) _

/-- The checks before a block is registered: only the last one may fail. -/
theorem readBlockHeader_eq (h : Next lib alg header file block blocks st comp st')
    (hst : st.Fits) (buffer : List UInt8) :
    readBlockHeader file header st.data.length buffer =
      if st'.decompressedSize > header.decompressedSize then .error .tooManyData
      else .ok (overlay (headerOf st block comp).bytes buffer,
        st.data.length + AcefBlockHeader.size) := by
  have hlen := h.length_eq
  have hle := h.length_le
  have hlt := h.between.length_lt
  have hcheck : (headerOf st block comp).checkLoc = st.data.length :=
    Nat.mod_eq_of_lt (Nat.lt_of_le_of_lt (by omega) hlt)
  have hcomp : (headerOf st block comp).blockSize = comp.length := Nat.mod_eq_of_lt h.comp_lt
  have hsum : (st.data.length + AcefBlockHeader.size) % 2 ^ 32 =
      st.data.length + AcefBlockHeader.size := Nat.mod_eq_of_lt (by omega)
  have hgoto : goto file (st.data.length + AcefBlockHeader.size) =
      .ok (st.data.length + AcefBlockHeader.size) := goto_le (by omega)
  have hdec : ((headerOf st block comp).dataOffset + (headerOf st block comp).decompSize) % 2 ^ 32 =
      st'.decompressedSize := by
    rw [h.decompressedSize]
    exact Nat.add_mod_mod _ _ _
  unfold readBlockHeader
  rw [h.between.sizeObjectHeader_eq, Nat.min_self]
  simp only [h.block_eq, bind, Except.bind, ofBytes_eq hst, hcheck, hcomp, hsum, hgoto, hdec]
  rw [if_neg (fun hne => hne rfl), if_neg (Nat.not_lt_of_le h.window)]

variable (h : Next lib alg header file block blocks st comp st') (hst : st.Fits)
  (loc data : Nat) (buffer : List UInt8) (s : AcefData)

include h hst

theorem loadBlock_tooMany (preload : Bool) (hdec : st'.decompressedSize > header.decompressedSize) :
    loadBlock lib file header preload loc data st.data.length buffer s =
      .error (.thrown .tooManyData) s := by
  unfold loadBlock
  rw [h.readBlockHeader_eq hst, if_pos hdec]
  rfl

theorem loadBlock_preload (hdec : st'.decompressedSize ≤ header.decompressedSize) :
    loadBlock lib file header true loc data st.data.length buffer s =
      .ok (overlay (headerOf st block comp).bytes buffer, st'.data.length)
        (s.addLoc block.name loc) := by
  have hlen := h.length_eq
  have hle := h.length_le
  have hskip : skip file (st.data.length + AcefBlockHeader.size) comp.length =
      .ok st'.data.length := hlen ▸ skip_le (by omega)
  have hname : UInt64.ofNat (headerOf st block comp).blockId = block.name := UInt64.ofNat_toNat
  have hsize : (headerOf st block comp).blockSize = comp.length := Nat.mod_eq_of_lt h.comp_lt
  unfold loadBlock
  rw [h.readBlockHeader_eq hst, if_neg (by omega)]
  rw [ofExcept_bind]
  dsimp only
  rw [modify_bind, ofBytes_eq hst, hname, hsize, hskip]
  rfl

/-- What is left to do when a block is decompressed. -/
theorem loadBlock_load (hdec : st'.decompressedSize ≤ header.decompressedSize) :
    loadBlock lib file header false loc data st.data.length buffer s =
      (do
        let (r, out) ← ofExcept (decompress2 lib alg (block.data.length % 2 ^ 32) comp)
        write (data + st.decompressedSize) out
        if r < 0 then throw (.thrown (.cantDecompress r))
        else
          modify fun s => s.addAlloc block.name ⟨r.toNat, data + st.decompressedSize⟩
          pure (overlay (headerOf st block comp).bytes buffer, st'.data.length) : M _)
        (s.addLoc block.name loc) := by
  have hname : UInt64.ofNat (headerOf st block comp).blockId = block.name := UInt64.ofNat_toNat
  have hsize : (headerOf st block comp).blockSize = comp.length := Nat.mod_eq_of_lt h.comp_lt
  have halg : UInt64.ofNat header.compress = alg := by
    rw [h.between.compress_eq, UInt64.ofNat_toNat]
  unfold loadBlock
  rw [h.readBlockHeader_eq hst, if_neg (by omega)]
  rw [ofExcept_bind]
  dsimp only
  rw [modify_bind, ofBytes_eq hst, hname, hsize, halg, h.comp_eq, ← h.length_eq]
  rfl

end Next

end Acts.Acef
