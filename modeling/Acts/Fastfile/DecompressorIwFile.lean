import Acts.Core.CompressUtils
import Acts.Fastfile.DecompressorIw

/-!
# Fastfiles of MW2019 (`LoadFastFile`, `decompressor_iw.cpp`)

The path of `LoadFastFile` for a file of the version `IWFV_MW19` with no patch beside it.

* `readHeader` — the sizes of the blocks of a zone, and that of its data.
* `decompressBlocks` — the loop over the compressed blocks, for a number of turns.
* `loadFastFile` — the data of a file, with the block sizes.
* `Gives`, `decompressBlocks_spec` — **blocks that decompress are appended one after the other.**

What `ReadHeader` of flexible data does is a parameter.
-/

set_option autoImplicit false

namespace Acts.DecompressorIw

open Core.CompressUtils (resize)
open Fastfile.Flexible (overwrite isFlexibleDataMagic)
open Gsc.ObfuscatorFastfile (Libraries CompressionAlgorithm decompress2 COMP_NONE COMP_ZLIB COMP_LZ4
  COMP_OODLE COMP_ZSTD COMP_HIGH_COMPRESSION COMP_OODLE_TYPE_KRAKEN COMP_OODLE_TYPE_MERMAID
  COMP_OODLE_TYPE_SELKIE)

/-! ## Compression -/

/-- `IWFFC_COUNT`. -/
def iwffcCount : Nat := 0x14

def COMP_OODLE_TYPE_LEVIATHAN : CompressionAlgorithm := 13 <<< 9

/-- `GetFastFileCompressionAlgorithm`; `none` is its exception. -/
def getFastFileCompressionAlgorithm : Nat → Option CompressionAlgorithm
  | 0x1 => some COMP_NONE
  | 0x5 => some COMP_LZ4
  | 0x4 => some (COMP_LZ4 ||| COMP_HIGH_COMPRESSION)
  | 0x2 | 0x8 | 0xA => some (COMP_ZLIB ||| COMP_HIGH_COMPRESSION)
  | 0x3 | 0x9 | 0xB => some COMP_ZLIB
  | 0x6 => some (COMP_OODLE ||| COMP_OODLE_TYPE_KRAKEN ||| COMP_HIGH_COMPRESSION)
  | 0x7 => some (COMP_OODLE ||| COMP_OODLE_TYPE_KRAKEN)
  | 0xC => some (COMP_OODLE ||| COMP_OODLE_TYPE_LEVIATHAN ||| COMP_HIGH_COMPRESSION)
  | 0xD => some (COMP_OODLE ||| COMP_OODLE_TYPE_LEVIATHAN)
  | 0xE => some (COMP_OODLE ||| COMP_OODLE_TYPE_MERMAID ||| COMP_HIGH_COMPRESSION)
  | 0xF => some (COMP_OODLE ||| COMP_OODLE_TYPE_MERMAID)
  | 0x10 => some (COMP_OODLE ||| COMP_OODLE_TYPE_SELKIE ||| COMP_HIGH_COMPRESSION)
  | 0x11 => some (COMP_OODLE ||| COMP_OODLE_TYPE_SELKIE)
  | 0x12 => some (COMP_ZSTD ||| COMP_HIGH_COMPRESSION)
  | 0x13 => some COMP_ZSTD
  | _ => none

/-! ## The loader -/

inductive LoadError
  | reader (f : Fault)
  /-- "Can't read XFile header" -/
  | header
  /-- Another version, which takes another path. -/
  | version (headerVersion : Nat)
  /-- "MW2019 block count exceeds header capacity" -/
  | blockCount
  /-- "Can't find compression type" -/
  | compression
  /-- "No fastfile decompressor for type {}" -/
  | decompressor (compression : Nat)
  /-- What `Decompress2` throws. -/
  | thrown (e : Gsc.ObfuscatorFastfile.Error)
  /-- "Can't decompress block 0x{:x}: {} ({})" -/
  | block (loc : Nat) (r : Int)
  /-- "mw19replay does not support this XFile revision" -/
  | revision

abbrev LoadM := EStateM LoadError Reader

/-- An operation of the reader. -/
def lift {α : Type} (op : ReadM α) : LoadM α := fun s =>
  match op s with
  | .ok a s => .ok a s
  | .error e s => .error (.reader e) s

/-- What an `FFHandler` is asked for. -/
structure FFHandler where
  name : String
  forceNumXBlocks : Nat

def isReplay (handler : Option FFHandler) : Bool := handler.any fun h => h.name == "mw19replay"

/-- `IsReplayFileVersion`. -/
def isReplayFileVersion (version : Nat) : Bool :=
  [0xfcd, 0xfcf, 0xfd0, 0xfd1, 0xfd5, 0xfda, 0xfe1, 0xfe3, 0xfee, 0xff3, 0xff5, 0xff7].contains
    version

/-- `forceNumXBlocks`, where there is a handler. -/
def forced (handler : Option FFHandler) : Nat := (handler.map FFHandler.forceNumXBlocks).getD 0

/-- `ctx.blocksCount`. -/
def countBlocks (handler : Option FFHandler) (xfileVersion : Nat) : Nat :=
  if forced handler ≠ 0 then forced handler
  else if isReplay handler then 11
  else if xfileVersion = 0xff7 then 11
  else 8

/-- What a header says. -/
structure Header where
  xfileVersion : Nat
  endSize : Nat
  blockSizes : List Nat
  deriving DecidableEq, Repr

/-- The case `IWFV_MW19` of the header. -/
def readHeader (handler : Option FFHandler) : LoadM Header := do
  let s ← get
  if ¬CanRead s 0x38 then throw .header
  else if wordAt s.buffer (s.pointer + 8) ≠ 0x0B then
    throw (.version (wordAt s.buffer (s.pointer + 8)))
  else do
    lift (readImpl 0x88)
    let file := s.buffer.drop s.pointer
    let blocksCount := countBlocks handler (readLe 4 (file.drop 12))
    if blocksCount > 11 then throw .blockCount
    else pure ⟨readLe 4 (file.drop 12), readLe 8 (file.drop 32),
      (List.range blocksCount).map fun i => readLe 8 (file.drop (48 + i * 8))⟩

/-- The flexible data behind the header, where there are any. -/
def readFlexible (flexible : ReadM Unit) : LoadM Unit := do
  if ← lift (canRead 4) then
    if isFlexibleDataMagic (← lift ptrWord) then lift flexible else pure ()
  else pure ()

variable (lib : Libraries)

/-- The loop over the compressed blocks; `offset` is where the next one goes. -/
def decompressBlocks (alg : CompressionAlgorithm) (endSize : Nat) :
    Nat → Nat → List UInt8 → LoadM (List UInt8)
  | 0, _, _ => throw (.reader .hang)
  | turns + 1, offset, ffdata => do
    if ← lift (canRead 12) then
      if endSize ≠ 2 ^ 64 - 1 ∧ endSize ≤ offset then pure ffdata
      else do
        let block ← lift (readPtr 12)
        let s ← get
        let compressedSize := wordAt s.buffer block
        let uncompressedSize := wordAt s.buffer (block + 4)
        if compressedSize = 0 then pure ffdata
        else do
          let blockBuff ← lift (readPtr (aligned compressedSize 4 % 2 ^ 32))
          let ffdata := resize ffdata (offset + uncompressedSize)
          let src := (s.buffer.drop blockBuff).take compressedSize
          match decompress2 lib alg uncompressedSize src with
          | .error e => throw (.thrown e)
          | .ok (r, bytes) =>
            if r < 0 then throw (.block block r)
            else
              decompressBlocks alg endSize turns (offset + uncompressedSize)
                (overwrite ffdata offset bytes)
    else pure ffdata

/-- The data behind the magic. -/
def readData (endSize : Nat) (data : Mw19Data) : LoadM (List UInt8) :=
  if data.storedIwc then do
    let begin ← lift (readPtr endSize)
    let s ← get
    pure ((s.buffer.drop begin).take endSize)
  else if data.compressDataHeader.compression ≥ iwffcCount then throw .compression
  else
    match getFastFileCompressionAlgorithm data.compressDataHeader.compression with
    | none => throw (.decompressor data.compressDataHeader.compression)
    | some alg => do
      let turns ← lift remaining
      decompressBlocks lib alg endSize (turns + 1) 0 []

/-- What is loaded: the data, and the sizes of the blocks of the zone. -/
structure Loaded where
  ffdata : List UInt8
  blockSizes : List Nat
  deriving DecidableEq, Repr

/-- `LoadFastFile`. -/
def loadFastFile (handler : Option FFHandler) (flexible : ReadM Unit) : LoadM Loaded := do
  let header ← readHeader handler
  readFlexible flexible
  let data ← lift (secureMw19 header.endSize)
  let ffdata ← readData lib header.endSize data
  if isReplay handler && !isReplayFileVersion header.xfileVersion then throw .revision
  else pure ⟨ffdata, header.blockSizes⟩

/-! ## Blocks -/

variable {lib} {alg : CompressionAlgorithm} {s s' : Reader}

theorem lift_ok {α : Type} {op : ReadM α} {a : α} (h : op s = .ok a s') :
    lift op s = .ok a s' := by
  unfold lift
  rw [h]

/-- A block, as it lies in a file. -/
def blockBytes (block data : List UInt8) : List UInt8 :=
  leBytes 4 block.length ++ leBytes 4 data.length ++ leBytes 4 0 ++ padTo 4 block

/-- A block that decompresses to data that are not empty. -/
structure Gives (lib : Libraries) (alg : CompressionAlgorithm) (b : List UInt8 × List UInt8) :
    Prop where
  block_pos : 0 < b.1.length
  block_lt : b.1.length + 3 < 2 ^ 32
  data_pos : 0 < b.2.length
  data_lt : b.2.length < 2 ^ 32
  decompress : ∃ r, decompress2 lib alg b.2.length b.1 = .ok (r, b.2) ∧ 0 ≤ r

/-- New data behind the old. -/
theorem overwrite_resize (ffdata bytes : List UInt8) :
    overwrite (resize ffdata (ffdata.length + bytes.length)) ffdata.length bytes =
      ffdata ++ bytes := by
  have hresize : resize ffdata (ffdata.length + bytes.length) =
      ffdata ++ List.replicate bytes.length 0 := by
    unfold resize
    rw [List.take_of_length_le (by omega), Nat.add_sub_cancel_left]
  unfold overwrite
  rw [hresize, List.take_left, List.drop_of_length_le (by simp), List.append_nil]

theorem length_blockBytes (block data : List UInt8) :
    (blockBytes block data).length = 12 + aligned block.length 4 := by
  unfold blockBytes
  rw [List.length_append, length_padTo _ (by decide)]
  simp only [List.length_append, length_leBytes]

/-- The parts of a block at the pointer. -/
theorem blockBytes_at {block data rest : List UInt8} (hblock : block.length + 3 < 2 ^ 32)
    (hdata : data.length < 2 ^ 32) (hs : s.buffer.drop s.pointer = blockBytes block data ++ rest) :
    wordAt s.buffer s.pointer = block.length ∧ wordAt s.buffer (s.pointer + 4) = data.length ∧
      (s.buffer.drop (s.pointer + 12)).take block.length = block ∧
      s.pointer + 12 + aligned block.length 4 ≤ s.buffer.length := by
  unfold wordAt
  have hlen := congrArg List.length hs
  rw [List.length_drop, List.length_append, length_blockBytes] at hlen
  unfold blockBytes padTo at hs
  simp only [List.append_assoc] at hs
  refine ⟨?_, ?_, ?_, by omega⟩
  · rw [hs, readLe_leBytes]
    exact Nat.mod_eq_of_lt (by omega)
  · rw [← List.drop_drop, hs, List.drop_left' (length_leBytes 4 _), readLe_leBytes]
    exact Nat.mod_eq_of_lt hdata
  · have hdrop : s.buffer.drop (s.pointer + 12) =
        (((s.buffer.drop s.pointer).drop 4).drop 4).drop 4 := by
      simp only [List.drop_drop]
    rw [hdrop, hs, List.drop_left' (length_leBytes 4 _), List.drop_left' (length_leBytes 4 _),
      List.drop_left' (length_leBytes 4 _), List.take_left]

/-- One turn. -/
theorem decompressBlocks_next {b : List UInt8 × List UInt8} {rest ffdata : List UInt8}
    {endSize turns : Nat} (hb : Gives lib alg b)
    (hs : s.buffer.drop s.pointer = blockBytes b.1 b.2 ++ rest) (hend : ffdata.length < endSize) :
    decompressBlocks lib alg endSize (turns + 1) ffdata.length ffdata s =
      decompressBlocks lib alg endSize turns (ffdata ++ b.2).length (ffdata ++ b.2)
        ⟨s.buffer, s.pointer + (blockBytes b.1 b.2).length⟩ := by
  obtain ⟨hcompressed, huncompressed, hblock, hfits⟩ := blockBytes_at hb.block_lt hb.data_lt hs
  obtain ⟨r, hdec, hr⟩ := hb.decompress
  have hpos := hb.block_pos
  have hlt := hb.block_lt
  have halign := aligned_lt b.1.length (by decide : 0 < 4)
  have hread : CanRead s 12 := by
    unfold CanRead
    omega
  have hptr : CanRead ⟨s.buffer, s.pointer + 12⟩ (aligned b.1.length 4) := hfits
  rw [decompressBlocks, bind_ok (lift_ok (canRead_true hread)), if_pos rfl, if_neg (by omega),
    bind_ok (lift_ok (readPtr_eq hread)), get_bind]
  dsimp only
  rw [hcompressed, huncompressed, if_neg (by omega), Nat.mod_eq_of_lt (by omega),
    bind_ok (lift_ok (readPtr_eq hptr))]
  dsimp only
  rw [hblock, hdec]
  dsimp only
  rw [if_neg (by omega), overwrite_resize, length_blockBytes, List.length_append, Nat.add_assoc]

/-- **Blocks that decompress are appended one after the other.** -/
theorem decompressBlocks_spec {blocks : List (List UInt8 × List UInt8)} {ffdata : List UInt8}
    {endSize turns : Nat} (hblocks : ∀ b ∈ blocks, Gives lib alg b)
    (hs : s.buffer.drop s.pointer = blocks.flatMap fun b => blockBytes b.1 b.2)
    (hend : (ffdata ++ (blocks.map Prod.snd).flatten).length = endSize)
    (hturns : blocks.length < turns) :
    ∃ s', decompressBlocks lib alg endSize turns ffdata.length ffdata s =
      .ok (ffdata ++ (blocks.map Prod.snd).flatten) s' := by
  induction blocks generalizing s ffdata turns with
  | nil =>
    obtain ⟨n, rfl⟩ : ∃ n, turns = n + 1 := ⟨turns - 1, by simp at hturns; omega⟩
    have hempty := congrArg List.length hs
    rw [List.length_drop, List.flatMap_nil, List.length_nil] at hempty
    have hread : ¬CanRead s 12 := by
      unfold CanRead
      omega
    rw [decompressBlocks, bind_ok (lift_ok (canRead_false hread)), if_neg Bool.false_ne_true]
    exact ⟨s, by rw [List.map_nil, List.flatten_nil, List.append_nil]; rfl⟩
  | cons b blocks ih =>
    obtain ⟨n, rfl⟩ : ∃ n, turns = n + 1 := ⟨turns - 1, by rw [List.length_cons] at hturns; omega⟩
    obtain ⟨hb, hrest⟩ := List.forall_mem_cons.mp hblocks
    rw [List.flatMap_cons] at hs
    rw [List.map_cons, List.flatten_cons, ← List.append_assoc] at hend ⊢
    have hlt : ffdata.length < endSize := by
      have hpos := hb.data_pos
      rw [List.length_append, List.length_append] at hend
      omega
    rw [decompressBlocks_next hb hs hlt]
    refine ih hrest ?_ hend (by rw [List.length_cons] at hturns; omega)
    show s.buffer.drop (s.pointer + (blockBytes b.1 b.2).length) = _
    rw [← List.drop_drop, hs, List.drop_left]

end Acts.DecompressorIw
