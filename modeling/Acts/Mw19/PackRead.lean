import Acts.Fastfile.DecompressorIwFile
import Acts.Gsc.FastfileRead
import Acts.Mw19.Pack

/-!
# Reading the file of a replay zone

* `Packed.word`, `Packed.compression` — the fields that the decompressor reads.
* `gives_of_blockOf` — a block that was packed decompresses.
* `loadFastFile_packed` — what is loaded, for a handler that asks for at most eleven blocks.
* `load_of_pack` — **the body comes back, with the block sizes that the handler asks for.**
* `retail_sizes` — the handler of the retail game asks for eight.
-/

set_option autoImplicit false

namespace Acts.Mw19.Linker

open DecompressorIw
open Gsc.ObfuscatorFastfile (Libraries COMP_LZ4 COMP_NONE decompress2 toInt literals
  literals_roundTrip)

variable {lib : Libraries} {lz4 : Bool} {chunkSize : Nat} {zone : Zone} {file : Data}
  {blocks : List (Data × Data)} {handler : Option FFHandler} {flexible : ReadM Unit}

/-! ## The header -/

theorem readLe_add (m n : Nat) (bs : List UInt8) :
    readLe (m + n) bs = readLe m bs + 256 ^ m * readLe n (bs.drop m) := by
  induction m generalizing bs with
  | zero => simp [readLe]
  | succ m ih =>
    cases bs with
    | nil =>
      rw [List.drop_nil]
      cases n with
      | zero => rfl
      | succ n => rfl
    | cons b bs =>
      rw [Nat.succ_add, readLe, readLe, ih, List.drop_succ_cons, Nat.pow_succ', Nat.mul_add]
      rw [Nat.mul_assoc, Nat.add_assoc]

/-- A word of the header. -/
theorem Packed.word (h : Packed lib lz4 chunkSize zone file blocks) {pos n v : Nat}
    (hf : (pos, leBytes n v) ∈ packFields lz4 zone chunkSize) :
    readLe n (file.drop pos) = v % 256 ^ n := by
  have hfield := h.field _ hf
  rw [length_leBytes] at hfield
  rw [← readLe_take, hfield, ← List.append_nil (leBytes n v), readLe_leBytes]

/-- The size of a block of the zone. -/
theorem Packed.blockSize (h : Packed lib lz4 chunkSize zone file blocks)
    (hblocks : ∀ i, zone.blocks i < 2 ^ 64) (i : Fin 11) :
    readLe 8 (file.drop (48 + i.val * 8)) = zone.blocks i := by
  have hmem : (48 + i.val * 8, leBytes 8 (zone.blocks i)) ∈ packFields lz4 zone chunkSize := by
    refine List.mem_append_left _ (List.mem_append_right _ ?_)
    exact List.mem_map.mpr ⟨i, List.mem_finRange i, rfl⟩
  rw [h.word hmem]
  exact Nat.mod_eq_of_lt (hblocks i)

theorem Packed.blockSizes_take (h : Packed lib lz4 chunkSize zone file blocks)
    (hblocks : ∀ i, zone.blocks i < 2 ^ 64) {n : Nat} (hn : n ≤ 11) :
    (List.range n).map (fun i => readLe 8 (file.drop (48 + i * 8))) =
      ((List.finRange 11).map zone.blocks).take n := by
  have hsizes : (List.finRange 11).map zone.blocks =
      (List.range 11).map fun i => readLe 8 (file.drop (48 + i * 8)) := by
    rw [← List.map_coe_finRange_eq_range, List.map_map]
    exact List.map_congr_left fun i _ => (h.blockSize hblocks i).symm
  rw [hsizes, ← List.map_take, List.take_range, Nat.min_eq_left hn]

/-- The words that the decompressor reads. -/
theorem Packed.words (h : Packed lib lz4 chunkSize zone file blocks) :
    wordAt file 8 = 0x0B ∧ readLe 4 (file.drop 12) = 0xff7 ∧
      readLe 8 (file.drop 32) = zone.body.length ∧ wordAt file 0x88 = iwcMagic ∧
      readLe 4 (file.drop 0x90) = (chunkSize ||| ((if lz4 then 5 else 1) <<< 24)) % 256 ^ 4 := by
  have hversion : (8, leBytes 4 11) ∈ packFields lz4 zone chunkSize := by simp [packFields]
  have hrevision : (12, leBytes 4 0xff7) ∈ packFields lz4 zone chunkSize := by simp [packFields]
  have hsize : (32, leBytes 8 zone.body.length) ∈ packFields lz4 zone chunkSize := by
    simp [packFields]
  have hiwc : (0x88, leBytes 4 0x43574902) ∈ packFields lz4 zone chunkSize := by simp [packFields]
  have hlast : (0x90, leBytes 4 (chunkSize ||| ((if lz4 then 5 else 1) <<< 24))) ∈
      packFields lz4 zone chunkSize := by simp [packFields]
  have hle := h.body_le
  exact ⟨h.word hversion, h.word hrevision, (h.word hsize).trans (Nat.mod_eq_of_lt (by omega)),
    h.word hiwc, h.word hlast⟩

/-- The type of the compression is the last byte of its word. -/
theorem Packed.compression (h : Packed lib lz4 chunkSize zone file blocks) :
    readLe 1 (file.drop 0x93) = if lz4 then 5 else 1 := by
  obtain ⟨-, -, -, -, hword⟩ := h.words
  have hle := h.chunkSize_le
  have hlow := readLe_lt 3 (file.drop 0x90)
  have hsplit : readLe 4 (file.drop 0x90) =
      readLe 3 (file.drop 0x90) + 256 ^ 3 * readLe 1 (file.drop 0x93) := by
    have hadd := readLe_add 3 1 (file.drop 0x90)
    rwa [List.drop_drop] at hadd
  obtain ⟨k, hk, hk'⟩ : ∃ k, k = (if lz4 then 5 else 1) ∧ k ≤ 5 := ⟨_, rfl, by split <;> omega⟩
  rw [← hk] at hword ⊢
  have hor : chunkSize ||| (k <<< 24) = k * 2 ^ 24 + chunkSize := by
    rw [Nat.or_comm, ← Nat.shiftLeft_add_eq_or_of_lt (by omega), Nat.shiftLeft_eq]
  rw [hor] at hword
  omega

variable (handler) in
/-- The header of a file is accepted unless the handler asks for more blocks than it has. -/
theorem readHeader_packed (h : Packed lib lz4 chunkSize zone file blocks)
    (hblocks : ∀ i, zone.blocks i < 2 ^ 64) :
    readHeader handler ⟨file, 0⟩ =
      if countBlocks handler 0xff7 > 11 then .error .blockCount ⟨file, 0x88⟩
      else .ok ⟨0xff7, zone.body.length,
        ((List.finRange 11).map zone.blocks).take (countBlocks handler 0xff7)⟩ ⟨file, 0x88⟩ := by
  have hlen := h.length
  have hread : CanRead ⟨file, 0⟩ 0x38 := by
    show 0 + 0x38 ≤ file.length
    omega
  have hheader : readImpl 0x88 ⟨file, 0⟩ = .ok () ⟨file, 0x88⟩ :=
    if_pos (show 0 + 0x88 ≤ file.length by omega)
  obtain ⟨hversion, hrevision, hsize, -, -⟩ := h.words
  unfold readHeader
  rw [get_bind]
  dsimp only
  rw [if_neg (not_not_intro hread), Nat.zero_add, if_neg (not_not_intro hversion),
    bind_ok (lift_ok hheader), List.drop_zero, hrevision, hsize]
  by_cases hcount : countBlocks handler 0xff7 > 11
  · rw [if_pos hcount, if_pos hcount]
    rfl
  · rw [if_neg hcount, if_neg hcount, h.blockSizes_take hblocks (by omega)]
    rfl

/-! ## The data -/

/-- No flexible data are behind the header. -/
theorem readFlexible_packed (h : Packed lib lz4 chunkSize zone file blocks) :
    readFlexible flexible ⟨file, 0x88⟩ = .ok () ⟨file, 0x88⟩ := by
  have hlen := h.length
  have hread : CanRead ⟨file, 0x88⟩ 4 := by
    show 0x88 + 4 ≤ file.length
    omega
  obtain ⟨-, -, -, hiwc, -⟩ := h.words
  have hword : ptrWord ⟨file, 0x88⟩ = .ok iwcMagic ⟨file, 0x88⟩ := by
    unfold ptrWord
    rw [hiwc]
  unfold readFlexible
  rw [bind_ok (lift_ok (canRead_true hread)), if_pos rfl, bind_ok (lift_ok hword),
    if_neg (by decide)]
  rfl

/-- The data are not signed, and behind the magic is the type of their compression. -/
theorem secureMw19_packed (h : Packed lib lz4 chunkSize zone file blocks) (endSize : Nat) :
    ∃ header, secureMw19 endSize ⟨file, 0x88⟩ = .ok ⟨false, false, header⟩ ⟨file, 0x94⟩ ∧
      header.compression = if lz4 then 5 else 1 := by
  have hlen := h.length
  obtain ⟨-, -, -, hiwc, -⟩ := h.words
  have hleft : remaining ⟨file, 0x88⟩ = .ok (file.length - 0x88) ⟨file, 0x88⟩ := rfl
  have hfound : findIwc (fun iwc => iwc == storedMagic || iwc == iwcMagic)
      (file.length - 0x88 + 1) ⟨file, 0x88⟩ = .ok (some (wordAt file 0x88)) ⟨file, 0x88⟩ := by
    refine findIwc_eq (Nat.le_refl 0x88) (show 0x88 - 0x88 < file.length - 0x88 + 1 by omega)
      (show 0x88 + 4 ≤ file.length by omega) ?_ ?_
    · intro i hle hlt
      exact absurd hlt (Nat.not_lt.mpr hle)
    · show (wordAt file 0x88 == storedMagic || wordAt file 0x88 == iwcMagic) = true
      rw [hiwc]
      decide
  have hrsa : removeRsaBlocks 0x88 ⟨file, 0x88⟩ = .ok false ⟨file, 0x88⟩ := by
    unfold removeRsaBlocks
    rw [if_neg (by decide)]
    rfl
  have hgoto : goto (0x88 + 4) ⟨file, 0x88⟩ = .ok () ⟨file, 0x8c⟩ :=
    goto_eq (s := ⟨file, 0x88⟩) (show 0x88 + 4 ≤ file.length by omega)
  have hread : readImpl 8 ⟨file, 0x8c⟩ = .ok () ⟨file, 0x94⟩ :=
    if_pos (show 0x8c + 8 ≤ file.length by omega)
  have hloc : ∀ pos, loc ⟨file, pos⟩ = .ok pos ⟨file, pos⟩ := fun pos => rfl
  obtain ⟨header, hheader, hcompression⟩ : ∃ header,
      readCompressDataHeader ⟨file, 0x8c⟩ = .ok header ⟨file, 0x94⟩ ∧
        header.compression = readLe 1 (file.drop 0x93) := by
    unfold readCompressDataHeader
    rw [bind_ok (hloc 0x8c), bind_ok hread]
    exact ⟨_, rfl, rfl⟩
  unfold secureMw19
  rw [bind_ok hleft, bind_ok hfound, hiwc]
  dsimp only
  rw [bind_ok (hloc 0x88), if_neg (by decide), bind_ok hrsa, bind_ok hgoto,
    bind_ok hheader]
  exact ⟨header, rfl, hcompression.trans h.compression⟩

/-- A block that was packed decompresses. -/
theorem gives_of_blockOf (hlib : lib.RoundTrip 0x10000) {b : Data × Data}
    (hblock : blockOf lib lz4 b.2 = .ok b.1) (hpos : 0 < b.2.length) (hle : b.2.length ≤ 0x10000) :
    Gives lib (if lz4 then COMP_LZ4 else COMP_NONE) b := by
  have hint : toInt b.2.length = b.2.length := by
    unfold toInt
    rw [if_pos (by omega)]
    omega
  unfold blockOf at hblock
  cases lz4 with
  | true =>
    rw [if_pos rfl] at hblock
    split at hblock
    · rename_i block hcompress
      split at hblock
      · rename_i hsize
        cases hblock
        unfold lz4CompressBound at hsize
        have hdec := hlib COMP_LZ4 b.2 b.1 (List.length_pos_iff.mp hpos) hle hcompress
        refine ⟨hsize.1, by omega, hpos, by omega, b.2.length, ?_, by omega⟩
        unfold decompress2
        dsimp only
        rw [if_neg (by decide), if_pos (by decide), if_pos rfl, hdec]
        dsimp only
        rw [hint]
      · cases hblock
    · cases hblock
  | false =>
    rw [if_neg Bool.false_ne_true] at hblock
    have heq : b.2 = b.1 := Except.ok.inj hblock
    have hlen : b.1.length = b.2.length := by rw [heq]
    refine ⟨by omega, by omega, hpos, by omega, b.2.length, ?_, by omega⟩
    unfold decompress2
    dsimp only
    rw [if_neg Bool.false_ne_true, if_pos (by decide), ← heq, if_neg (Nat.lt_irrefl _), hint]

theorem length_le_frames (blocks : List (Data × Data)) :
    blocks.length ≤ (blocks.flatMap fun b => blockBytes b.1 b.2).length := by
  induction blocks with
  | nil => exact Nat.le_refl 0
  | cons b blocks ih =>
    rw [List.flatMap_cons, List.length_append, length_blockBytes, List.length_cons]
    omega

/-- The blocks of a file give the body. -/
theorem readData_packed {header : XBlockCompressDataHeader}
    (hp : Packed lib lz4 chunkSize zone file blocks)
    (hcompression : header.compression = if lz4 then 5 else 1)
    (hgives : ∀ b ∈ blocks, Gives lib (if lz4 then COMP_LZ4 else COMP_NONE) b) :
    ∃ s', readData lib zone.body.length ⟨false, false, header⟩ ⟨file, 0x94⟩ =
      .ok zone.body s' := by
  have hle : blocks.length ≤ (file.drop 0x94).length := by
    rw [hp.rest]
    exact length_le_frames blocks
  rw [List.length_drop] at hle
  have hleft : remaining ⟨file, 0x94⟩ = .ok (file.length - 0x94) ⟨file, 0x94⟩ := rfl
  have hall : ([] ++ (blocks.map Prod.snd).flatten).length = zone.body.length :=
    congrArg List.length hp.packs.body_eq
  obtain ⟨s', hrun⟩ := decompressBlocks_spec (s := ⟨file, 0x94⟩) hgives hp.rest hall
    (Nat.lt_succ_of_le hle)
  rw [List.nil_append, hp.packs.body_eq] at hrun
  refine ⟨s', ?_⟩
  unfold readData
  dsimp only
  rw [if_neg Bool.false_ne_true, hcompression]
  cases lz4 with
  | true =>
    rw [if_pos rfl, if_neg (by decide)]
    exact (bind_ok (lift_ok hleft)).trans hrun
  | false =>
    rw [if_neg Bool.false_ne_true, if_neg (by decide)]
    exact (bind_ok (lift_ok hleft)).trans hrun

variable (handler flexible) in
/-- What is loaded of a file. -/
theorem loadFastFile_packed (hlib : lib.RoundTrip 0x10000) (hblocks : ∀ i, zone.blocks i < 2 ^ 64)
    (h : pack lib lz4 zone chunkSize = .ok file) (hcount : countBlocks handler 0xff7 ≤ 11) :
    ∃ s', loadFastFile lib handler flexible ⟨file, 0⟩ =
      .ok ⟨zone.body, ((List.finRange 11).map zone.blocks).take (countBlocks handler 0xff7)⟩
        s' := by
  obtain ⟨blocks, hp⟩ := pack_spec h
  have hheader := readHeader_packed handler hp hblocks
  rw [if_neg (Nat.not_lt.mpr hcount)] at hheader
  obtain ⟨header, hsecure, hcompression⟩ := secureMw19_packed hp zone.body.length
  have hgives : ∀ b ∈ blocks, Gives lib (if lz4 then COMP_LZ4 else COMP_NONE) b := fun b hb =>
    gives_of_blockOf hlib (hp.packs.block b hb) (hp.packs.pos b hb)
      (Nat.le_trans (hp.packs.le b hb) hp.chunkSize_le)
  obtain ⟨s', hdata⟩ := readData_packed hp hcompression hgives
  have hrevision : isReplayFileVersion 0xff7 = true := by decide
  unfold loadFastFile
  rw [bind_ok hheader, bind_ok (readFlexible_packed hp), bind_ok (lift_ok hsecure), bind_ok hdata,
    hrevision, Bool.not_true, Bool.and_false, if_neg Bool.false_ne_true]
  exact ⟨s', rfl⟩

theorem loadFastFile_refused (hblocks : ∀ i, zone.blocks i < 2 ^ 64)
    (h : pack lib lz4 zone chunkSize = .ok file) (hcount : 11 < countBlocks handler 0xff7) :
    loadFastFile lib handler flexible ⟨file, 0⟩ = .error .blockCount ⟨file, 0x88⟩ := by
  obtain ⟨blocks, hp⟩ := pack_spec h
  have hheader := readHeader_packed handler hp hblocks
  rw [if_pos hcount] at hheader
  exact bind_error hheader

/-- **The body comes back, with all block sizes or, where the handler asks for fewer, the first
ones.** -/
theorem pack_loads (hlib : lib.RoundTrip 0x10000) (hblocks : ∀ i, zone.blocks i < 2 ^ 64)
    (h : pack lib lz4 zone chunkSize = .ok file) :
    (forced handler = 0 → ∃ s', loadFastFile lib handler flexible ⟨file, 0⟩ =
      .ok ⟨zone.body, (List.finRange 11).map zone.blocks⟩ s') ∧
    (0 < forced handler ∧ forced handler ≤ 11 →
      ∃ s', loadFastFile lib handler flexible ⟨file, 0⟩ =
        .ok ⟨zone.body, ((List.finRange 11).map zone.blocks).take (forced handler)⟩ s') ∧
    (11 < forced handler →
      loadFastFile lib handler flexible ⟨file, 0⟩ = .error .blockCount ⟨file, 0x88⟩) := by
  have hfew : forced handler = 0 → countBlocks handler 0xff7 = 11 := by
    intro hzero
    unfold countBlocks
    rw [if_neg (not_not_intro hzero), if_pos rfl, ite_self]
  have hmany : forced handler ≠ 0 → countBlocks handler 0xff7 = forced handler := fun hne => by
    unfold countBlocks
    rw [if_pos hne]
  refine ⟨?_, ?_, ?_⟩
  · intro hzero
    obtain ⟨s', hload⟩ := loadFastFile_packed handler flexible hlib hblocks h
      (Nat.le_of_eq (hfew hzero))
    rw [hfew hzero, List.take_of_length_le (by simp)] at hload
    exact ⟨s', hload⟩
  · rintro ⟨hpos, hle⟩
    have hcount := hmany (by omega)
    rw [← hcount] at hle ⊢
    exact loadFastFile_packed handler flexible hlib hblocks h hle
  · intro hlt
    exact loadFastFile_refused hblocks h (by rw [hmany (by omega)]; exact hlt)

/-- Five bytes, and eleven block sizes. -/
def exampleZone : Zone := ⟨[1, 2, 3, 4, 5], fun i => 256 + i.val⟩

theorem exampleZone_blocks (i : Fin 11) : exampleZone.blocks i < 2 ^ 64 := by
  show 256 + i.val < 2 ^ 64
  omega

theorem exampleZone_packs (lz4 : Bool) :
    ∃ file, pack literals lz4 exampleZone 2 = .ok file := by
  have h : ∀ lz4, (pack literals lz4 exampleZone 2).toOption.isSome = true := by decide +kernel
  obtain ⟨file, hfile⟩ := Option.isSome_iff_exists.mp (h lz4)
  exact ⟨file, ok_of_toOption hfile⟩

/-- Three blocks of LZ4, with no handler. -/
theorem example_loads : ∃ file s', pack literals true exampleZone 2 = .ok file ∧
    loadFastFile literals none (pure ()) ⟨file, 0⟩ =
      .ok ⟨[1, 2, 3, 4, 5], [256, 257, 258, 259, 260, 261, 262, 263, 264, 265, 266]⟩ s' := by
  obtain ⟨file, hfile⟩ := exampleZone_packs true
  obtain ⟨s', hload⟩ :=
    (pack_loads (literals_roundTrip _) exampleZone_blocks hfile).1 (rfl : forced none = 0)
  exact ⟨file, s', hfile, hload⟩

/-- The handler of the retail game asks for eight block sizes, and gets no more. -/
theorem retail_sizes : ∃ file s', pack literals false exampleZone 2 = .ok file ∧
    loadFastFile literals (some ⟨"mw19", 8⟩) (pure ()) ⟨file, 0⟩ =
      .ok ⟨[1, 2, 3, 4, 5], [256, 257, 258, 259, 260, 261, 262, 263]⟩ s' ∧
    (List.finRange 11).map exampleZone.blocks ≠ [256, 257, 258, 259, 260, 261, 262, 263] := by
  obtain ⟨file, hfile⟩ := exampleZone_packs false
  obtain ⟨s', hload⟩ := loadFastFile_packed (some ⟨"mw19", 8⟩) (pure ())
    (literals_roundTrip _) exampleZone_blocks hfile (by decide)
  exact ⟨file, s', hfile, hload, by decide⟩

end Acts.Mw19.Linker
