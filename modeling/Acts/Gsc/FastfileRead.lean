import Acts.Fastfile.FlexibleRead
import Acts.Gsc.Fastfile
import Acts.Lib.Checked

/-!
# Reading fastfiles of the obfuscator back

* `readBlocks_block` — a block that stands in the buffer is decompressed to its place.
* `readBlocks_compressBlocks` — the blocks of the data give the data.
* `returns_iff` — **a file reads back to the header and the data it was made of exactly when the
  header is one that the reader takes as it is, and states the size of the data.**
-/

set_option autoImplicit false

namespace Acts.Gsc.ObfuscatorFastfile

open Acts.Core.Bytebuffer Acts.Fetch
open Acts.Fastfile.Flexible (slice overwrite slice_of_holds readPtr_fits)

variable {lib : Libraries} {b : ByteBuffer} {alg : CompressionAlgorithm}

/-! ## Codecs -/

/-- A block comes back, and the result counts its bytes. -/
theorem decompress2_compressBuffer {n : Nat} {data compressed : Data} (hlib : lib.RoundTrip n)
    (hne : data ≠ []) (hle : data.length ≤ n) (hlt : data.length < 2 ^ 32)
    (h : compressBuffer lib alg data = .ok (some compressed)) :
    ∃ r, decompress2 lib alg data.length compressed = .ok (r, data) ∧
      (r < 0 ↔ 2 ^ 31 ≤ data.length) := by
  have hpos : 0 < data.length := List.length_pos_iff.mpr hne
  have hint : toInt data.length < 0 ↔ 2 ^ 31 ≤ data.length := by
    unfold toInt
    rw [Nat.mod_eq_of_lt hlt]
    split <;> omega
  have hzero : toInt data.length ≠ 0 := by
    unfold toInt
    rw [Nat.mod_eq_of_lt hlt]
    split <;> omega
  unfold compressBuffer at h
  dsimp only at h
  unfold decompress2
  dsimp only
  split at h
  · rename_i hnone
    cases h
    rw [if_pos hnone, if_neg (Nat.lt_irrefl _)]
    exact ⟨_, rfl, hint⟩
  · rename_i hnone
    rw [if_neg hnone]
    split at h
    · rename_i htype
      have hdec := hlib alg data compressed hne hle (Except.ok.inj h)
      rw [hdec]
      by_cases hlz4 : getCompressionType alg = COMP_LZ4
      · rw [if_pos hlz4]
        exact ⟨_, rfl, hint⟩
      · rw [if_neg hlz4]
        by_cases hoodle : getCompressionType alg = COMP_OODLE
        · rw [if_pos hoodle]
          dsimp only
          by_cases hneg : toInt data.length ≤ 0
          · rw [if_pos hneg]
            refine ⟨_, rfl, ?_⟩
            rw [← hint]
            simp only [DCOMP_UNKNOWN_ERROR]
            omega
          · rw [if_neg hneg]
            exact ⟨_, rfl, hint⟩
        · rw [if_neg hoodle]
          by_cases hzlib : getCompressionType alg = COMP_ZLIB
          · rw [if_pos hzlib]
            exact ⟨_, rfl, hint⟩
          · rw [if_neg hzlib, if_pos (by tauto)]
            exact ⟨_, rfl, hint⟩
    · cases h

/-! ## Blocks -/

theorem length_blockBytes (block : DBStreamHeader) : block.bytes.length = 16 := by
  simp [DBStreamHeader.bytes]

/-- A header with words of 32 bits is read. -/
theorem blockAt_holds {block : DBStreamHeader} {p : Nat} (h : Holds b.memory p block.bytes)
    (hcompressed : block.compressedSize < 2 ^ 32) (huncompressed : block.uncompressedSize < 2 ^ 32)
    (haligned : block.alignedSize < 2 ^ 32) (hoffset : block.offset < 2 ^ 32) :
    blockAt b p = block := by
  unfold DBStreamHeader.bytes at h
  have h₀ := readLE_of_holds h.left.left.left
  have h₁ := h.left.left.right
  have h₂ := h.left.right
  have h₃ := h.right
  simp only [List.length_append, length_leBytes, Nat.reduceAdd] at h₁ h₂ h₃
  have hpow : 256 ^ 4 = 2 ^ 32 := by decide
  unfold blockAt
  rw [h₀, readLE_of_holds h₁, readLE_of_holds h₂, readLE_of_holds h₃, hpow,
    Nat.mod_eq_of_lt hcompressed, Nat.mod_eq_of_lt huncompressed, Nat.mod_eq_of_lt haligned,
    Nat.mod_eq_of_lt hoffset]

/-- A block that stands in the buffer is decompressed to its place. -/
theorem readBlocks_block {out compressed : Data} {n size fuel offset maxBlockSize : Nat}
    {buffer : Buffer} {acc : List (Nat × Nat)} (hlt : offset < size) (hn : 0 < n)
    (hn32 : n < 2 ^ 32) (hb : b.len < 2 ^ 32)
    (h : Holds b.memory out.length ((blockHeader out n compressed).bytes ++ padTo 4 compressed))
    (hend : out.length + 16 + (padTo 4 compressed).length ≤ b.len) :
    ∃ acc', readBlocks lib b alg size (fuel + 1) offset maxBlockSize buffer ⟨out.length, acc⟩ =
      (liftExcept (decompressBlock lib alg out.length n compressed offset buffer) >>= fun buffer =>
        readBlocks lib b alg size fuel (offset + n) (max maxBlockSize n) buffer)
        ⟨out.length + 16 + (padTo 4 compressed).length, acc'⟩ := by
  have hpad := length_padTo compressed (by decide : 0 < 4)
  have hle := le_aligned compressed.length (by decide : 0 < 4)
  have hmod : compressed.length % 2 ^ 32 = compressed.length := Nat.mod_eq_of_lt (by omega)
  have hblock : blockAt b out.length = blockHeader out n compressed := by
    refine blockAt_holds h.left ?_ hn32 ?_ ?_
    · show compressed.length < 2 ^ 32
      omega
    · show aligned (compressed.length % 2 ^ 32) 4 < 2 ^ 32
      rw [hmod]
      omega
    · show out.length < 2 ^ 32
      omega
  have halign : (blockHeader out n compressed).alignedSize = (padTo 4 compressed).length := by
    show aligned (compressed.length % 2 ^ 32) 4 = _
    rw [hmod, hpad]
  have hdata : slice b (out.length + 16) compressed.length = compressed := by
    have hright := h.right
    rw [length_blockBytes, padTo] at hright
    exact slice_of_holds hright.left
  have hread : ∀ (m k p : Nat) (acc : List (Nat × Nat)), p + m * k ≤ b.len →
      lift (readPtr b m k) ⟨p, acc⟩ = .ok p ⟨p + m * k, acc ++ [(p, m * k)]⟩ := by
    intro m k p acc hfit
    unfold lift
    rw [readPtr_fits hfit acc]
  refine ⟨acc ++ [(out.length, 16 * 1)] ++
    [(out.length + 16 * 1, 1 * (padTo 4 compressed).length)], ?_⟩
  rw [readBlocks, if_pos hlt]
  show (lift (readPtr b 16 1) >>= _) _ = _
  rw [bind_ok (hread 16 1 out.length acc (by omega))]
  dsimp only
  rw [hblock, halign]
  have hoffset : ¬(blockHeader out n compressed).offset ≠ out.length := not_not_intro rfl
  have hsize : ¬(blockHeader out n compressed).uncompressedSize = 0 := Nat.ne_of_gt hn
  rw [if_neg hoffset, if_neg hsize, bind_ok (hread 1 _ _ _ (by omega)), if_neg ?_]
  · show (liftExcept (decompressBlock lib alg out.length n (slice b (out.length + 16)
      compressed.length) offset buffer) >>= _) _ = _
    rw [hdata, Nat.one_mul]
    rfl
  · show ¬out.length + 16 * 1 + compressed.length > b.len
    omega

/-! ## Rows of blocks -/

theorem take_overwrite {data bytes : Data} {pos : Nat} (h : pos ≤ data.length) :
    (overwrite data pos bytes).take (pos + bytes.length) = data.take pos ++ bytes := by
  have hlen : (data.take pos ++ bytes).length = pos + bytes.length := by
    rw [List.length_append, List.length_take, Nat.min_eq_left h]
  rw [overwrite, ← hlen, List.take_left]

/-- The buffer holds a file, and nothing behind it. -/
structure Contains (b : ByteBuffer) (file : Data) : Prop where
  len : b.len = file.length
  holds : Holds b.memory 0 file

theorem Contains.start {file out : Data} (h : Contains b file) (hout : out <+: file) :
    Holds b.memory 0 out ∧ out.length ≤ b.len := by
  obtain ⟨tail, rfl⟩ := hout
  refine ⟨h.holds.left, ?_⟩
  rw [h.len, List.length_append]
  exact Nat.le_add_right _ _

/-- What a step of the writer left is a block in front of the reader. -/
theorem block_holds {file out compressed : Data} {n : Nat} (hb : Contains b file)
    (hout : 4 ∣ out.length)
    (hkept : padTo 4 (out ++ (blockHeader out n compressed).bytes ++ compressed) <+: file) :
    Holds b.memory out.length ((blockHeader out n compressed).bytes ++ padTo 4 compressed) ∧
      out.length + 16 + (padTo 4 compressed).length ≤ b.len := by
  have hstart : 4 ∣ (out ++ (blockHeader out n compressed).bytes).length := by
    rw [List.length_append, length_blockBytes]
    omega
  rw [padTo_append hstart, List.append_assoc] at hkept
  obtain ⟨hholds, hle⟩ := hb.start hkept
  have hright := hholds.right
  rw [Nat.zero_add] at hright
  refine ⟨hright, ?_⟩
  simp only [List.length_append, length_blockBytes] at hle
  omega

theorem decompressBlock_ok {n loc offset : Nat} {data compressed : Data} {buffer : Buffer}
    (hlib : lib.RoundTrip n) (hne : data ≠ []) (hle : data.length ≤ n)
    (hlt : data.length < 2 ^ 31) (hfit : offset + data.length ≤ buffer.data.length)
    (h : compressBuffer lib alg data = .ok (some compressed)) :
    ∃ buffer', decompressBlock lib alg loc data.length compressed offset buffer = .ok buffer' ∧
      buffer'.data = overwrite buffer.data offset data := by
  obtain ⟨r, hdec, hr⟩ := decompress2_compressBuffer hlib hne hle (by omega) h
  have hwrite : ∃ buffer', buffer.write offset data = .ok buffer' ∧
      buffer'.data = overwrite buffer.data offset data := by
    unfold Buffer.write
    rw [dif_pos hfit]
    exact ⟨_, rfl, rfl⟩
  obtain ⟨buffer', hwrite, hdata⟩ := hwrite
  refine ⟨buffer', ?_, hdata⟩
  have hnonneg : ¬r < 0 := fun hneg => by
    have := hr.mp hneg
    omega
  unfold decompressBlock
  rw [hdec]
  show (do
    let out ← buffer.write offset data
    if r < 0 then throw (Error.cantDecompressBlock loc) else return out) = _
  rw [hwrite]
  show (if r < 0 then _ else _) = _
  rw [if_neg hnonneg]
  rfl

/-- The blocks of the data give the data. -/
theorem readBlocks_compressBlocks {n : Nat} {file : Data} (hlib : lib.RoundTrip n) (hn : 0 < n)
    (hfile : file.length < 2 ^ 32) (hb : Contains b file) (fuel : Nat) :
    ∀ {blockId : Nat} {data out : Data},
      compressBlocks lib alg n fuel blockId data out = .ok file → 4 ∣ out.length →
      min n data.length < 2 ^ 31 →
      ∀ {fuel' size offset maxBlockSize : Nat} {buffer : Buffer} {acc : List (Nat × Nat)},
        b.len < out.length + fuel' → buffer.data.length = size → size = offset + data.length →
        ∃ maxBlockSize' buffer' s,
          readBlocks lib b alg size fuel' offset maxBlockSize buffer ⟨out.length, acc⟩ =
            .ok (maxBlockSize', buffer') s ∧
          buffer'.data = buffer.data.take offset ++ data := by
  have hnil : ∀ {fuel' size offset maxBlockSize : Nat} {buffer : Buffer} {s : State},
      buffer.data.length = size → size = offset →
      ∃ maxBlockSize' buffer' s',
        readBlocks lib b alg size fuel' offset maxBlockSize buffer s =
          .ok (maxBlockSize', buffer') s' ∧ buffer'.data = buffer.data.take offset ++ [] := by
    intro fuel' size offset maxBlockSize buffer s hbuffer hsize
    refine ⟨maxBlockSize, buffer, s, ?_, ?_⟩
    · cases fuel' with
      | zero =>
        rw [readBlocks, if_neg (by omega)]
        rfl
      | succ fuel' =>
        rw [readBlocks, if_neg (by omega)]
        rfl
    · rw [List.append_nil, List.take_of_length_le (by omega)]
  induction fuel with
  | zero =>
    intro blockId data out h _ _ fuel' size offset maxBlockSize buffer acc _ hbuffer hsize
    unfold compressBlocks at h
    split at h
    · rename_i hdata
      subst hdata
      exact hnil hbuffer hsize
    · cases h
  | succ fuel ih =>
    intro blockId data out h hout hsmall fuel' size offset maxBlockSize buffer acc hfuel hbuffer
      hsize
    by_cases hne : data = []
    · subst hne
      exact hnil hbuffer hsize
    · have hpos : 0 < data.length := List.length_pos_iff.mpr hne
      obtain ⟨compressed, hcompress, hrest⟩ := compressBlocks_succ h hne
      have hk : (data.take (min n data.length)).length = min n data.length := by
        rw [List.length_take]
        omega
      have hne' : data.take (min n data.length) ≠ [] := List.length_pos_iff.mp (by omega)
      obtain ⟨hholds, hend⟩ := block_holds hb hout (compressBlocks_keeps hrest)
      obtain ⟨fuel', rfl⟩ : ∃ f, fuel' = f + 1 := ⟨fuel' - 1, by omega⟩
      have hlen := hb.len
      obtain ⟨acc', hstep⟩ : ∃ acc', readBlocks lib b alg size (fuel' + 1) offset maxBlockSize
          buffer ⟨out.length, acc⟩ = _ :=
        readBlocks_block (by omega) (by omega) (by omega) (by omega) hholds hend
      obtain ⟨buffer', hblock, hdata⟩ : ∃ buffer', decompressBlock lib alg out.length
          (data.take (min n data.length)).length compressed offset buffer = .ok buffer' ∧ _ :=
        decompressBlock_ok hlib hne' (by omega) (by omega) (by omega) hcompress
      have hbuffer' : buffer'.data.length = size := by
        rw [hdata, length_overwrite (by omega), hbuffer]
      have hnext : (padTo 4 (out ++ (blockHeader out (min n data.length) compressed).bytes ++
          compressed)).length = out.length + 16 + (padTo 4 compressed).length := by
        rw [padTo_append (by rw [List.length_append, length_blockBytes]; omega),
          List.length_append, List.length_append, length_blockBytes]
      have hdrop : (data.drop (min n data.length)).length = data.length - min n data.length :=
        List.length_drop
      have hout' : 4 ∣ (padTo 4 (out ++ (blockHeader out (min n data.length) compressed).bytes ++
          compressed)).length := by
        rw [length_padTo _ (by decide : 0 < 4)]
        exact aligned_dvd _ _
      obtain ⟨maxBlockSize', buffer'', s, hreads, hresult⟩ := ih hrest hout' (by omega)
        (by rw [hnext]; omega : _ < _ + fuel') hbuffer'
        (by omega : size = offset + min n data.length + (data.drop (min n data.length)).length)
      refine ⟨maxBlockSize', buffer'', s, ?_, ?_⟩
      · rw [hk] at hblock
        rw [hstep, bind_ok (by unfold liftExcept; rw [hblock]), ← hnext]
        exact hreads
      · have htake : (overwrite buffer.data offset (data.take (min n data.length))).take
            (offset + (data.take (min n data.length)).length) = _ :=
          take_overwrite (by omega)
        rw [hk] at htake
        rw [hresult, hdata, htake, List.append_assoc, List.take_append_drop]

/-! ## Headers -/

theorem checkHeader_iff {header header' : XFileBO3} :
    checkHeader header = .ok header' ↔
      header.number .platform = XFILE_PC ∧ header.number .encrypted = 0 ∧
      ¬(header.number .compression ≥ XFILE_BDELTA_UNCOMP ∧
        header.number .compression ≤ XFILE_BDELTA_LZMA) ∧
      header' = if header.isUnsigned then header else header.eraseSignature := by
  unfold checkHeader
  by_cases hplatform : header.number .platform = XFILE_PC
  · by_cases hencrypted : header.number .encrypted = 0
    · by_cases hdelta : header.number .compression ≥ XFILE_BDELTA_UNCOMP ∧
          header.number .compression ≤ XFILE_BDELTA_LZMA
      · simp [hplatform, hencrypted, hdelta]
      · rw [if_neg (not_not_intro hplatform), if_neg (not_not_intro hencrypted), if_neg hdelta,
          ← apply_ite Except.ok, Except.ok.injEq]
        exact ⟨fun h => ⟨hplatform, hencrypted, hdelta, h.symm⟩, fun h => h.2.2.2.symm⟩
    · simp [hplatform, hencrypted]
  · simp [hplatform]

/-- Erasing a signature changes it. -/
theorem isUnsigned_of_eraseSignature {header : XFileBO3}
    (h : header.eraseSignature = header) : header.isUnsigned = true := by
  have hzeros : header.eraseSignature.member .signature = List.replicate 256 0 := by
    have hstart : ((header.bytes.take 312)).length = 312 := by
      rw [List.length_take, header.length_eq]
      rfl
    show ((header.bytes.take 312 ++ List.replicate 256 0 ++ _).drop 312).take 256 = _
    rw [List.append_assoc, List.drop_left' hstart]
    exact List.take_left' List.length_replicate
  rw [h] at hzeros
  unfold XFileBO3.isUnsigned
  rw [hzeros, List.all_replicate]
  decide

/-- The header in front of a buffer is checked. -/
theorem readHeader_holds {header : XFileBO3} (h : Holds b.memory 0 header.bytes)
    (hlen : headerSize ≤ b.len) :
    readHeader b ⟨0, []⟩ =
      if header.number .magic = FF_T7_MAGIC then
        liftExcept (checkHeader header) ⟨headerSize, [(0, headerSize)]⟩
      else .error (.invalidMagic (header.number .magic)) ⟨0, []⟩ := by
  have hb := b.len_lt
  have hcan : CanRead b 0 headerSize := (canRead_iff (by omega)).mpr (by omega)
  have hmagic : b.memory.readLE 0 8 = header.number .magic := by
    rw [readLE_eq_readLe h (by rw [header.length_eq]; decide)]
    show readLe 8 header.bytes = readLe 8 (header.bytes.take 8)
    rw [readLe_take]
  have hslice : ∀ hsize, (⟨slice b 0 headerSize, hsize⟩ : XFileBO3) = header := by
    intro hsize
    have heq := slice_of_holds h
    rw [header.length_eq] at heq
    cases header
    exact XFileBO3.mk.injEq .. ▸ heq
  have hread : lift (readImpl b headerSize) ⟨0, []⟩ =
      .ok () ⟨headerSize, [(0, headerSize)]⟩ := by
    have hword : word (0 + headerSize) = headerSize := by decide
    unfold lift readImpl
    rw [if_pos hcan, hword]
    rfl
  show (if ¬CanRead b 0 headerSize then _ else _ : Read XFileBO3) _ = _
  rw [if_neg (not_not_intro hcan), hmagic]
  by_cases hm : header.number .magic = FF_T7_MAGIC
  · rw [if_neg (not_not_intro hm), if_pos hm, bind_ok hread, hslice]
  · rw [if_pos hm, if_neg hm]
    rfl

/-! ## Files -/

/-- What the reader takes as it is: a file of the supported version and platform that is neither
encrypted nor signed. -/
structure Readable (header : XFileBO3) : Prop where
  magic : header.number .magic = FF_T7_MAGIC
  platform : header.number .platform = XFILE_PC
  encrypted : header.number .encrypted = 0
  unsigned : header.isUnsigned = true

/-- Decompression gives the header and the data. -/
def Returns (lib : Libraries) (info : FastfileInfo) (b : ByteBuffer) : Prop :=
  ∃ info' s, decompressFastfile lib b ⟨0, []⟩ = .ok info' s ∧ info'.header = info.header ∧
    info'.out.data = info.out.data

/-- No compression of a delta file is known. -/
theorem not_delta_of_algorithm {comp : Nat} {alg : CompressionAlgorithm}
    (h : getFastFileCompressionAlgorithm comp = .ok alg) :
    ¬(comp ≥ XFILE_BDELTA_UNCOMP ∧ comp ≤ XFILE_BDELTA_LZMA) := by
  rintro ⟨hge, hle⟩
  simp only [XFILE_BDELTA_UNCOMP, XFILE_BDELTA_LZMA] at hge hle
  have hcases : comp = 5 ∨ comp = 6 ∨ comp = 7 := by omega
  rcases hcases with rfl | rfl | rfl <;> cases h

theorem length_write {out out' : Buffer} {pos : Nat} {bytes : Data}
    (h : out.write pos bytes = .ok out') : out'.data.length = out.data.length := by
  unfold Buffer.write at h
  split at h
  · rename_i hfit
    cases h
    exact length_overwrite hfit
  · cases h

theorem length_decompressBlock {loc destSize offset : Nat} {src : Data} {out out' : Buffer}
    (h : decompressBlock lib alg loc destSize src offset out = .ok out') :
    out'.data.length = out.data.length := by
  unfold decompressBlock at h
  obtain ⟨⟨r, bytes⟩, -, h⟩ := ok_of_bind h
  obtain ⟨out₁, hwrite, h⟩ := ok_of_bind h
  split at h
  · cases h
  · cases h
    exact length_write hwrite

theorem ends_liftExcept {α : Type} (r : Except Error α) (s : State) :
    Ends (liftExcept r) s (fun a _ => r = .ok a) (fun _ => True) := by
  cases r with
  | ok a => exact .of_ok rfl rfl
  | error e => exact .of_error rfl trivial

/-- The vector keeps its size. -/
theorem ends_readBlocks (size fuel : Nat) : ∀ (offset maxBlockSize : Nat) (out : Buffer) (s : State),
    Ends (readBlocks lib b alg size fuel offset maxBlockSize out) s
      (fun r _ => r.2.data.length = out.data.length) (fun _ => True) := by
  induction fuel with
  | zero =>
    intro offset maxBlockSize out s
    rw [readBlocks]
    split
    · exact .of_error rfl trivial
    · exact .of_ok rfl rfl
  | succ fuel ih =>
    intro offset maxBlockSize out s
    rw [readBlocks]
    split
    · apply Ends.get
      apply Ends.bind (.trivial _ _)
      intro pos s₁ _
      dsimp only
      split
      · exact .of_error rfl trivial
      · split
        · apply Ends.bind (.trivial _ _)
          intro _ s₂ _
          exact ih _ _ _ _
        · apply Ends.bind (.trivial _ _)
          intro buff s₂ _
          split
          · exact .of_error rfl trivial
          · apply Ends.bind (ends_liftExcept _ _)
            intro out' s₃ hout
            have hlen := length_decompressBlock hout
            exact (ih _ _ out' _).mono (fun r s h => h.trans hlen) (fun _ h => h)
    · exact .of_ok rfl rfl

theorem length_resize {n : Nat} {out : Buffer} (h : Buffer.resize n = .ok out) :
    out.data.length = n := by
  unfold Buffer.resize at h
  split at h
  · cases h
    exact List.length_replicate
  · cases h

/-- What a result says of the header that was read. -/
theorem ends_decompressFastfile {header : XFileBO3} (h : Holds b.memory 0 header.bytes)
    (hlen : headerSize ≤ b.len) :
    Ends (decompressFastfile lib b) ⟨0, []⟩
      (fun info _ => header.number .magic = FF_T7_MAGIC ∧
        checkHeader header = .ok info.header ∧
        info.out.data.length = info.header.number .size) (fun _ => True) := by
  have hheader : Ends (readHeader b) ⟨0, []⟩
      (fun header' _ => header.number .magic = FF_T7_MAGIC ∧ checkHeader header = .ok header')
      (fun _ => True) := by
    have heq := readHeader_holds h hlen
    by_cases hmagic : header.number .magic = FF_T7_MAGIC
    · rw [if_pos hmagic] at heq
      have hcheck := ends_liftExcept (checkHeader header) ⟨headerSize, [(0, headerSize)]⟩
      unfold Ends at hcheck ⊢
      rw [heq]
      revert hcheck
      cases liftExcept (checkHeader header) ⟨headerSize, [(0, headerSize)]⟩ with
      | ok header' s => exact fun hcheck => ⟨hmagic, hcheck⟩
      | error e s => exact id
    · rw [if_neg hmagic] at heq
      exact .of_error heq trivial
  unfold decompressFastfile
  refine Ends.bind hheader ?_
  rintro header' s ⟨hmagic, hcheck⟩
  refine Ends.bind (ends_liftExcept _ _) ?_
  intro out s₁ hout
  refine Ends.bind (ends_liftExcept _ _) ?_
  intro alg s₂ _
  refine Ends.bind (ends_readBlocks _ _ _ _ _ _) ?_
  rintro ⟨maxBlockSize, out'⟩ s₃ hsize
  exact .of_ok rfl ⟨hmagic, hcheck, hsize.trans (length_resize hout)⟩

/-- Such a header is taken as it is. -/
theorem readHeader_readable {header : XFileBO3} (h : Holds b.memory 0 header.bytes)
    (hlen : headerSize ≤ b.len) (hreadable : Readable header)
    (halg : getFastFileCompressionAlgorithm (header.number .compression) = .ok alg) :
    readHeader b ⟨0, []⟩ = .ok header ⟨headerSize, [(0, headerSize)]⟩ := by
  have hcheck : checkHeader header = .ok header :=
    checkHeader_iff.mpr ⟨hreadable.platform, hreadable.encrypted, not_delta_of_algorithm halg, by
      rw [if_pos hreadable.unsigned]⟩
  rw [readHeader_holds h hlen, if_pos hreadable.magic, hcheck]
  rfl

/-- Behind a header that is taken as it is, the blocks are read to a vector of the stated size. -/
theorem decompressFastfile_readable {header : XFileBO3} (h : Holds b.memory 0 header.bytes)
    (hlen : headerSize ≤ b.len) (hreadable : Readable header)
    (halg : getFastFileCompressionAlgorithm (header.number .compression) = .ok alg)
    (hsize : header.number .size ≤ PTRDIFF_MAX) :
    ∃ out : Buffer, out.data.length = header.number .size ∧
      decompressFastfile lib b ⟨0, []⟩ =
        (readBlocks lib b alg (header.number .size) (b.len + 1) 0 0 out >>= fun r =>
          pure ⟨r.1, header, r.2⟩) ⟨header.bytes.length, [(0, headerSize)]⟩ := by
  have hread := readHeader_readable h hlen hreadable halg
  obtain ⟨out, hresize⟩ : ∃ out, Buffer.resize (header.number .size) = .ok out := by
    unfold Buffer.resize
    rw [dif_pos hsize]
    exact ⟨_, rfl⟩
  refine ⟨out, length_resize hresize, ?_⟩
  unfold decompressFastfile
  rw [bind_ok hread, bind_ok (by unfold liftExcept; rw [hresize]),
    bind_ok (by unfold liftExcept; rw [halg]), header.length_eq]

/-- The data of a file whose header is taken as it is. -/
theorem returns_of_readable {info : FastfileInfo} {file : Data}
    (hlib : lib.RoundTrip info.maxBlockSize) (hblock : 0 < info.maxBlockSize)
    (hsmall : min info.maxBlockSize info.out.data.length < 2 ^ 31)
    (hfile : compressFastfile lib info = .ok file) (hlen : file.length < 2 ^ 32)
    (hb : Contains b file) (hreadable : Readable info.header)
    (hsize : info.header.number .size = info.out.data.length) : Returns lib info b := by
  obtain ⟨alg, halg, hblocks⟩ := ok_of_bind hfile
  obtain ⟨hholds, hle⟩ := hb.start (compressBlocks_keeps hblocks)
  rw [info.header.length_eq] at hle
  obtain ⟨out, hout, hrun⟩ := decompressFastfile_readable hholds hle hreadable halg
    (by rw [hsize]; exact info.out.length_le)
  have hstart : 4 ∣ info.header.bytes.length := by
    rw [info.header.length_eq]
    decide
  obtain ⟨maxBlockSize, out', s, hreads, hdata⟩ :=
    readBlocks_compressBlocks hlib hblock hlen hb info.out.data.length hblocks hstart hsmall
      (by omega : b.len < info.header.bytes.length + (b.len + 1)) hout
      (by rw [hsize, Nat.zero_add] : info.header.number .size = 0 + info.out.data.length)
  refine ⟨⟨maxBlockSize, info.header, out'⟩, s, ?_, rfl, hdata⟩
  rw [hrun, bind_ok hreads]
  rfl

theorem readable_of_returns {info : FastfileInfo} {file : Data}
    (hfile : compressFastfile lib info = .ok file) (hb : Contains b file)
    (h : Returns lib info b) :
    Readable info.header ∧ info.header.number .size = info.out.data.length := by
  obtain ⟨info', s, hrun, hheader, hdata⟩ := h
  obtain ⟨alg, -, hblocks⟩ := ok_of_bind hfile
  obtain ⟨hholds, hle⟩ := hb.start (compressBlocks_keeps hblocks)
  rw [info.header.length_eq] at hle
  obtain ⟨hmagic, hcheck, hsize⟩ := (ends_decompressFastfile hholds hle).ok hrun
  obtain ⟨hplatform, hencrypted, -, herased⟩ := checkHeader_iff.mp hcheck
  rw [hheader] at herased hsize
  rw [hdata] at hsize
  refine ⟨⟨hmagic, hplatform, hencrypted, ?_⟩, hsize.symm⟩
  by_cases hunsigned : info.header.isUnsigned = true
  · exact hunsigned
  · rw [if_neg hunsigned] at herased
    exact isUnsigned_of_eraseSignature herased.symm

/-! ## Blocks of two gigabytes -/

theorem decompressBlock_large {n loc offset : Nat} {data compressed : Data} {buffer : Buffer}
    (hlib : lib.RoundTrip n) (hne : data ≠ []) (hle : data.length ≤ n)
    (hge : 2 ^ 31 ≤ data.length) (hlt : data.length < 2 ^ 32)
    (hfit : offset + data.length ≤ buffer.data.length)
    (h : compressBuffer lib alg data = .ok (some compressed)) :
    decompressBlock lib alg loc data.length compressed offset buffer =
      .error (.cantDecompressBlock loc) := by
  obtain ⟨r, hdec, hr⟩ := decompress2_compressBuffer hlib hne hle hlt h
  obtain ⟨buffer', hwrite⟩ : ∃ buffer', buffer.write offset data = .ok buffer' := by
    unfold Buffer.write
    rw [dif_pos hfit]
    exact ⟨_, rfl⟩
  unfold decompressBlock
  rw [hdec]
  show (do
    let out ← buffer.write offset data
    if r < 0 then throw (Error.cantDecompressBlock loc) else return out) = _
  rw [hwrite]
  show (if r < 0 then _ else _) = _
  rw [if_pos (hr.mpr hge)]
  rfl

/-- The size of such a block is not an `int`, so the reader takes the result for an error. -/
theorem not_returns_of_large {info : FastfileInfo} {file : Data}
    (hlib : lib.RoundTrip info.maxBlockSize)
    (hge : 2 ^ 31 ≤ min info.maxBlockSize info.out.data.length)
    (hlt : min info.maxBlockSize info.out.data.length < 2 ^ 32)
    (hfile : compressFastfile lib info = .ok file) (hlen : file.length < 2 ^ 32)
    (hb : Contains b file) : ¬Returns lib info b := by
  intro h
  obtain ⟨hreadable, hsize⟩ := readable_of_returns hfile hb h
  obtain ⟨info', s, hrun, -, -⟩ := h
  obtain ⟨alg, halg, hblocks⟩ := ok_of_bind hfile
  obtain ⟨hholds, hle⟩ := hb.start (compressBlocks_keeps hblocks)
  rw [info.header.length_eq] at hle
  obtain ⟨out, hout, heq⟩ := decompressFastfile_readable hholds hle hreadable halg
    (by rw [hsize]; exact info.out.length_le)
  have hne : info.out.data ≠ [] := List.length_pos_iff.mp (by omega)
  obtain ⟨fuel, hfuel⟩ : ∃ fuel, info.out.data.length = fuel + 1 :=
    ⟨info.out.data.length - 1, by omega⟩
  rw [hfuel] at hblocks
  obtain ⟨compressed, hcompress, hrest⟩ := compressBlocks_succ hblocks hne
  have hstart : 4 ∣ info.header.bytes.length := by
    rw [info.header.length_eq]
    decide
  obtain ⟨hfirst, hend⟩ := block_holds hb hstart (compressBlocks_keeps hrest)
  obtain ⟨acc, hstep⟩ : ∃ acc, readBlocks lib b alg (info.header.number .size) (b.len + 1) 0 0 out
      ⟨info.header.bytes.length, [(0, headerSize)]⟩ = _ :=
    readBlocks_block (by omega) (by omega) hlt (by rw [hb.len]; exact hlen) hfirst hend
  have hk : (info.out.data.take (min info.maxBlockSize info.out.data.length)).length =
      min info.maxBlockSize info.out.data.length := by
    rw [List.length_take]
    omega
  have hthrows : decompressBlock lib alg info.header.bytes.length
      (info.out.data.take (min info.maxBlockSize info.out.data.length)).length compressed 0 out =
      .error (.cantDecompressBlock info.header.bytes.length) :=
    decompressBlock_large hlib (List.length_pos_iff.mp (by omega)) (by omega) (by omega) (by omega)
      (by omega) hcompress
  rw [hk] at hthrows
  rw [heq, bind_error (by rw [hstep, bind_error (by unfold liftExcept; rw [hthrows])])] at hrun
  cases hrun

/-! ## Two files -/

/-- LZ4 blocks of literals, which is how short data is compressed. -/
def literals : Libraries where
  compress _ data :=
    if data.length < 15 then some (UInt8.ofNat (16 * data.length) :: data) else none
  decompress _ destSize src :=
    if destSize < (src.drop 1).length then .error .destTooSmall else .ok (src.drop 1)

theorem literals_roundTrip (n : Nat) : literals.RoundTrip n := by
  intro alg data c _ _ h
  simp only [literals] at h ⊢
  split at h
  · cases h
    simp
  · cases h

/-- A header of the supported version. -/
def exampleHeader (compression size : Nat) (signature : UInt8) : XFileBO3 where
  bytes := leBytes 8 FF_T7_MAGIC ++ leBytes 4 0x251 ++ leBytes 4 (256 * compression) ++
    List.replicate 128 0 ++ leBytes 8 size ++ List.replicate 160 0 ++
    List.replicate 256 signature ++ List.replicate 16 0
  length_eq := by
    simp only [List.length_append, length_leBytes, List.length_replicate]
    rfl

/-- Two bytes, in blocks of one. -/
def twoBlocks (signature : UInt8) : FastfileInfo where
  maxBlockSize := 1
  header := exampleHeader XFILE_LZ4 2 signature
  out := ⟨[7, 8], by decide⟩

/-- A buffer with nothing behind the file. -/
def bufferOf (file : Data) (h : file.length < 2 ^ 32) : ByteBuffer where
  memory i := file.getD i 0
  len := file.length
  len_lt := by omega

theorem contains_bufferOf {file : Data} (h : file.length < 2 ^ 32) :
    Contains (bufferOf file h) file where
  len := rfl
  holds i hi := by
    show file.getD (0 + i) 0 = file[i]
    simp [List.getD, hi]

theorem twoBlocks_file (signature : Fin 2) :
    ∃ file, compressFastfile literals (twoBlocks (UInt8.ofNat signature)) = .ok file ∧
      file.length < 2 ^ 32 := by
  have h : ∀ signature : Fin 2,
      (compressFastfile literals (twoBlocks (UInt8.ofNat signature))).toOption.any
        (fun file => decide (file.length < 2 ^ 32)) = true := by decide +kernel
  obtain ⟨file, hfile, hlen⟩ := Option.any_eq_true _ _ |>.mp (h signature)
  exact ⟨file, ok_of_toOption hfile, of_decide_eq_true hlen⟩

theorem compressBlocks_stored {n fuel blockId : Nat} {data out : Data} (hne : data ≠ [])
    (hle : data.length ≤ n) :
    compressBlocks lib COMP_NONE n (fuel + 1) blockId data out =
      .ok (padTo 4 (out ++ (blockHeader out data.length data).bytes ++ data)) := by
  have hnone : getCompressionType COMP_NONE = COMP_NONE := by decide
  have hlast : ∀ file, compressBlocks lib COMP_NONE n fuel (blockId + 1) [] file = .ok file := by
    intro file
    cases fuel with
    | zero => rfl
    | succ fuel => rfl
  unfold compressBlocks compressBuffer
  dsimp only
  rw [if_neg hne, if_pos hnone, Nat.min_eq_right hle, List.take_length, List.drop_length]
  exact hlast _

/-- Data that fits into one block, and is stored. -/
theorem compressFastfile_stored {info : FastfileInfo}
    (hcompression : info.header.number .compression = XFILE_UNCOMPRESSED)
    (hpos : 0 < info.out.data.length) (hle : info.out.data.length ≤ info.maxBlockSize)
    (hlt : info.out.data.length < 2 ^ 32 - 0x400) :
    ∃ file, compressFastfile lib info = .ok file ∧ file.length < 2 ^ 32 := by
  have hne : info.out.data ≠ [] := List.length_pos_iff.mp hpos
  obtain ⟨fuel, hfuel⟩ : ∃ fuel, info.out.data.length = fuel + 1 :=
    ⟨info.out.data.length - 1, by omega⟩
  refine ⟨padTo 4 (info.header.bytes ++ (blockHeader info.header.bytes info.out.data.length
    info.out.data).bytes ++ info.out.data), ?_, ?_⟩
  · unfold compressFastfile
    rw [hcompression]
    show compressBlocks lib COMP_NONE info.maxBlockSize info.out.data.length 0 info.out.data
      info.header.bytes = _
    rw [hfuel, compressBlocks_stored hne hle, hfuel]
  · have hheader := info.header.length_eq
    simp only [headerSize] at hheader
    rw [length_padTo _ (by decide)]
    refine Nat.lt_of_lt_of_le (aligned_lt _ (by decide)) ?_
    simp only [List.length_append, length_blockBytes]
    omega

/-- Two gigabytes in one block, which is stored. -/
def twoGigabytes : FastfileInfo where
  maxBlockSize := 2 ^ 31
  header := exampleHeader XFILE_UNCOMPRESSED (2 ^ 31) 0
  out := ⟨List.replicate (2 ^ 31) 0, by rw [List.length_replicate]; decide⟩

/-! ## Result -/

/-- **A file reads back exactly when the reader takes its header as it is, and the header states
the size of the data.** -/
theorem returns_iff {info : FastfileInfo} {file : Data}
    (hlib : lib.RoundTrip info.maxBlockSize) (hblock : 0 < info.maxBlockSize)
    (hsmall : min info.maxBlockSize info.out.data.length < 2 ^ 31)
    (hfile : compressFastfile lib info = .ok file) (hlen : file.length < 2 ^ 32)
    (hb : Contains b file) :
    Returns lib info b ↔
      Readable info.header ∧ info.header.number .size = info.out.data.length := by
  constructor
  · exact readable_of_returns hfile hb
  · rintro ⟨hreadable, hsize⟩
    exact returns_of_readable hlib hblock hsmall hfile hlen hb hreadable hsize

/-- The two bytes without a signature. -/
theorem twoBlocks_returned : ∃ (file : Data) (b : ByteBuffer),
    compressFastfile literals (twoBlocks 0) = .ok file ∧ file.length < 2 ^ 32 ∧
      Contains b file ∧ Returns literals (twoBlocks 0) b := by
  obtain ⟨file, hfile, hlen⟩ := twoBlocks_file 0
  refine ⟨file, bufferOf file hlen, hfile, hlen, contains_bufferOf hlen, ?_⟩
  refine (returns_iff (literals_roundTrip _) (by decide) (by decide) hfile hlen
    (contains_bufferOf hlen)).mpr ⟨⟨?_, ?_, ?_, ?_⟩, ?_⟩ <;> decide +kernel

/-- A signature is erased, and a block of two gigabytes is taken for an error. -/
theorem not_returned :
    (∃ (file : Data) (b : ByteBuffer), literals.RoundTrip (twoBlocks 1).maxBlockSize ∧
      0 < (twoBlocks 1).maxBlockSize ∧ compressFastfile literals (twoBlocks 1) = .ok file ∧
      file.length < 2 ^ 32 ∧ Contains b file ∧ ¬Returns literals (twoBlocks 1) b) ∧
    (∃ (file : Data) (b : ByteBuffer), literals.RoundTrip twoGigabytes.maxBlockSize ∧
      0 < twoGigabytes.maxBlockSize ∧ compressFastfile literals twoGigabytes = .ok file ∧
      file.length < 2 ^ 32 ∧ Contains b file ∧ ¬Returns literals twoGigabytes b) := by
  constructor
  · obtain ⟨file, hfile, hlen⟩ := twoBlocks_file 1
    refine ⟨file, bufferOf file hlen, literals_roundTrip _, by decide, hfile, hlen,
      contains_bufferOf hlen, ?_⟩
    intro h
    obtain ⟨hreadable, -⟩ := readable_of_returns hfile (contains_bufferOf hlen) h
    have hunsigned : (twoBlocks 1).header.isUnsigned = true := hreadable.unsigned
    exact absurd hunsigned (by decide +kernel)
  · have hdata : twoGigabytes.out.data.length = 2 ^ 31 := List.length_replicate
    have hblock : twoGigabytes.maxBlockSize = 2 ^ 31 := rfl
    obtain ⟨file, hfile, hlen⟩ : ∃ file, compressFastfile literals twoGigabytes = .ok file ∧ _ :=
      compressFastfile_stored (by decide +kernel) (by omega) (by omega) (by omega)
    refine ⟨file, bufferOf file hlen, literals_roundTrip _, by rw [hblock]; decide, hfile, hlen,
      contains_bufferOf hlen, ?_⟩
    exact not_returns_of_large (literals_roundTrip _) (by omega) (by omega) hfile hlen
      (contains_bufferOf hlen)

end Acts.Gsc.ObfuscatorFastfile
