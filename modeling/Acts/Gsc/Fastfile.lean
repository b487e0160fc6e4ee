import Acts.Fastfile.Flexible
import Acts.Lib.Outcome

/-!
# Fastfiles of the obfuscator (`obfuscator/fastfile.cpp`, `compress_utils.cpp`)

* `compressFastfile` — the header, and the data in compressed blocks.
* `decompressFastfile` — the reader, over a byte buffer.
* `compressBlocks_keeps`, `compressBlocks_succ` — what the writer adds to a file.

The compression libraries are a parameter.  Memory is not exhausted.
-/

set_option autoImplicit false

namespace Acts.Gsc.ObfuscatorFastfile

open Acts.Core.Bytebuffer
open Acts.Fastfile.Flexible (slice overwrite)

abbrev Data := List UInt8

inductive Error where
  | buffer (e : Core.Bytebuffer.Error)
  | invalidFastfileSize
  | invalidMagic (magic : Nat)
  | platformNotSupported
  | encryptedNotSupported
  | deltaFastfile
  | noDecompressor (comp : Nat)
  | badBlockPosition (loc offset : Nat)
  | cantDecompressBlock (loc : Nat)
  | cantCompressChunk (blockId size : Nat)
  | badAlgorithm (alg : Nat)
  /-- A vector of more than `PTRDIFF_MAX` bytes. -/
  | length
  /-- An access outside of a vector or of the buffer. -/
  | outside
  /-- A loop that does not end. -/
  | endless

/-! ## Compression -/

/-- A type, with flags. -/
abbrev CompressionAlgorithm := Nat

def COMP_NONE : CompressionAlgorithm := 1
def COMP_ZLIB : CompressionAlgorithm := 2
def COMP_LZ4 : CompressionAlgorithm := 4
def COMP_OODLE : CompressionAlgorithm := 5
def COMP_ZSTD : CompressionAlgorithm := 6
def COMP_TYPE_MASK : CompressionAlgorithm := 0xFF
def COMP_HIGH_COMPRESSION : CompressionAlgorithm := 1 <<< 8
def COMP_OODLE_TYPE_KRAKEN : CompressionAlgorithm := 0 <<< 9
def COMP_OODLE_TYPE_LZNA : CompressionAlgorithm := 8 <<< 9
def COMP_OODLE_TYPE_MERMAID : CompressionAlgorithm := 9 <<< 9
def COMP_OODLE_TYPE_SELKIE : CompressionAlgorithm := 11 <<< 9

def getCompressionType (c : CompressionAlgorithm) : CompressionAlgorithm := c &&& COMP_TYPE_MASK

inductive LibraryError where
  | destTooSmall
  | unknown

/-- zlib, LZ4, Oodle and Zstandard; `decompress` is given the size of its destination. -/
structure Libraries where
  compress : CompressionAlgorithm → Data → Option Data
  decompress : CompressionAlgorithm → Nat → Data → Except LibraryError Data

/-- What the libraries compress, up to `n` bytes, they decompress again. -/
def Libraries.RoundTrip (lib : Libraries) (n : Nat) : Prop :=
  ∀ alg data c, data ≠ [] → data.length ≤ n → lib.compress alg data = some c →
    lib.decompress alg data.length c = .ok data

/-- A size, as an `int`. -/
def toInt (n : Nat) : Int := if n % 2 ^ 32 < 2 ^ 31 then n % 2 ^ 32 else n % 2 ^ 32 - 2 ^ 32

def DCOMP_DEST_TOO_SMALL : Int := -2
def DCOMP_UNKNOWN_ERROR : Int := -3

/-- `Decompress2`: the result, and the bytes at the destination. -/
def decompress2 (lib : Libraries) (alg : CompressionAlgorithm) (destSize : Nat) (src : Data) :
    Except Error (Int × Data) :=
  let type := getCompressionType alg
  if type = COMP_NONE then
    if destSize < src.length then .ok (DCOMP_DEST_TOO_SMALL, [])
    else .ok (toInt src.length, src)
  else if type = COMP_LZ4 then
    match lib.decompress alg destSize src with
    | .ok data => .ok (toInt data.length, data)
    | .error _ => .ok (DCOMP_UNKNOWN_ERROR, [])
  else if type = COMP_OODLE then
    match lib.decompress alg destSize src with
    | .ok data =>
      if toInt data.length ≤ 0 then .ok (DCOMP_UNKNOWN_ERROR, data)
      else .ok (toInt data.length, data)
    | .error _ => .ok (DCOMP_UNKNOWN_ERROR, [])
  else if type = COMP_ZLIB then
    match lib.decompress alg destSize src with
    | .ok data => .ok (toInt data.length, data)
    | .error .destTooSmall => .ok (DCOMP_DEST_TOO_SMALL, [])
    | .error .unknown => .ok (DCOMP_UNKNOWN_ERROR, [])
  else if type = COMP_ZSTD then
    match lib.decompress alg destSize src with
    | .ok data => .ok (toInt data.length, data)
    -- the switch compares the result, the negated code, with `ZSTD_error_dstSize_tooSmall`
    | .error _ => .ok (DCOMP_UNKNOWN_ERROR, [])
  else .error (.badAlgorithm alg)

/-- `CompressBuffer`; `none` if it fails. -/
def compressBuffer (lib : Libraries) (alg : CompressionAlgorithm) (src : Data) :
    Except Error (Option Data) :=
  let type := getCompressionType alg
  if type = COMP_NONE then .ok (some src)
  else if type = COMP_LZ4 ∨ type = COMP_OODLE ∨ type = COMP_ZLIB ∨ type = COMP_ZSTD then
    .ok (lib.compress alg src)
  else .error (.badAlgorithm alg)

/-! ## Headers -/

theorem length_overwrite {data bytes : Data} {pos : Nat} (h : pos + bytes.length ≤ data.length) :
    (overwrite data pos bytes).length = data.length := by
  simp only [overwrite, List.length_append, List.length_take, List.length_drop]
  omega

@[match_pattern] abbrev XFILE_UNCOMPRESSED : Nat := 0x0
@[match_pattern] abbrev XFILE_ZLIB : Nat := 0x1
@[match_pattern] abbrev XFILE_ZLIB_HC : Nat := 0x2
@[match_pattern] abbrev XFILE_LZ4 : Nat := 0x3
@[match_pattern] abbrev XFILE_LZ4_HC : Nat := 0x4
abbrev XFILE_BDELTA_UNCOMP : Nat := 0x5
abbrev XFILE_BDELTA_LZMA : Nat := 0x7
@[match_pattern] abbrev XFILE_OODLE_KRAKEN : Nat := 0x8
@[match_pattern] abbrev XFILE_OODLE_MERMAID : Nat := 0x9
@[match_pattern] abbrev XFILE_OODLE_SELKIE : Nat := 0xA
@[match_pattern] abbrev XFILE_OODLE_LZNA : Nat := 0xB

def XFILE_PC : Nat := 0x0

def FF_T7_MAGIC : Nat := 0x3030303066664154

/-- `GetFastFileCompressionAlgorithm`. -/
def getFastFileCompressionAlgorithm : Nat → Except Error CompressionAlgorithm
  | XFILE_UNCOMPRESSED => .ok COMP_NONE
  | XFILE_ZLIB => .ok COMP_ZLIB
  | XFILE_ZLIB_HC => .ok (COMP_ZLIB ||| COMP_HIGH_COMPRESSION)
  | XFILE_LZ4 => .ok COMP_LZ4
  | XFILE_LZ4_HC => .ok (COMP_LZ4 ||| COMP_HIGH_COMPRESSION)
  | XFILE_OODLE_KRAKEN => .ok (COMP_OODLE ||| COMP_OODLE_TYPE_KRAKEN)
  | XFILE_OODLE_MERMAID => .ok (COMP_OODLE ||| COMP_OODLE_TYPE_MERMAID)
  | XFILE_OODLE_SELKIE => .ok (COMP_OODLE ||| COMP_OODLE_TYPE_SELKIE)
  | XFILE_OODLE_LZNA => .ok (COMP_OODLE ||| COMP_OODLE_TYPE_LZNA)
  | comp => .error (.noDecompressor comp)

/-- The members of `XFileBO3`. -/
inductive Member where
  | magic | version | server | compression | platform | encrypted | timestamp | changelist
  | archiveChecksum | builder | metaVersion | mergeFastfile | size | externalSize
  | memMappedOffset | blockSize | fastfileName | signature | aesIV
  deriving DecidableEq

/-- The members in their order, with their sizes. -/
def members : List (Member × Nat) :=
  [(.magic, 8), (.version, 4), (.server, 1), (.compression, 1), (.platform, 1), (.encrypted, 1),
    (.timestamp, 8), (.changelist, 4), (.archiveChecksum, 16), (.builder, 32), (.metaVersion, 4),
    (.mergeFastfile, 64), (.size, 8), (.externalSize, 8), (.memMappedOffset, 8), (.blockSize, 80),
    (.fastfileName, 64), (.signature, 256), (.aesIV, 16)]

/-- Where a member starts, and its size. -/
def memberRange (m : Member) : Nat × Nat :=
  go members 0
where
  go : List (Member × Nat) → Nat → Nat × Nat
    | [], pos => (pos, 0)
    | (m', size) :: rest, pos => if m' = m then (pos, size) else go rest (pos + size)

/-- `sizeof(XFileBO3)`. -/
def headerSize : Nat := 0x248

example : (members.map Prod.snd).sum = headerSize := rfl

/-- `XFileBO3`. -/
structure XFileBO3 where
  bytes : Data
  length_eq : bytes.length = headerSize

namespace XFileBO3

variable (h : XFileBO3)

/-- The bytes of a member. -/
def member (m : Member) : Data := (h.bytes.drop (memberRange m).1).take (memberRange m).2

/-- A member that is a number. -/
def number (m : Member) : Nat := readLe (memberRange m).2 (h.member m)

/-- `utils::data::IsNulled` of the signature. -/
def isUnsigned : Bool := (h.member .signature).all (· = 0)

/-- `memset` of the signature. -/
def eraseSignature : XFileBO3 where
  bytes := overwrite h.bytes (memberRange .signature).1 (List.replicate (memberRange .signature).2 0)
  length_eq := by
    have hle : (memberRange .signature).1 + (memberRange .signature).2 ≤ headerSize := by decide
    rw [length_overwrite (by rw [List.length_replicate, h.length_eq]; exact hle), h.length_eq]

end XFileBO3

/-! ## Vectors -/

def PTRDIFF_MAX : Nat := 2 ^ 63 - 1

/-- `std::vector<byte>`. -/
structure Buffer where
  data : Data
  length_le : data.length ≤ PTRDIFF_MAX

/-- `resize`, of an empty vector. -/
def Buffer.resize (n : Nat) : Except Error Buffer :=
  if h : n ≤ PTRDIFF_MAX then .ok ⟨List.replicate n 0, by rw [List.length_replicate]; exact h⟩
  else .error .length

/-- A write through a pointer into the vector. -/
def Buffer.write (out : Buffer) (pos : Nat) (bytes : Data) : Except Error Buffer :=
  if h : pos + bytes.length ≤ out.data.length then
    .ok ⟨overwrite out.data pos bytes, by rw [length_overwrite h]; exact out.length_le⟩
  else .error .outside

structure FastfileInfo where
  maxBlockSize : Nat
  header : XFileBO3
  out : Buffer

/-! ## Writer -/

/-- `DBStreamHeader`. -/
structure DBStreamHeader where
  compressedSize : Nat
  uncompressedSize : Nat
  alignedSize : Nat
  offset : Nat

/-- The words of a header, each cut to 32 bits. -/
def DBStreamHeader.bytes (block : DBStreamHeader) : Data :=
  leBytes 4 block.compressedSize ++ leBytes 4 block.uncompressedSize ++
    leBytes 4 block.alignedSize ++ leBytes 4 block.offset

/-- The header of a block that is written behind `out`. -/
def blockHeader (out : Data) (blockDataLen : Nat) (compressed : Data) : DBStreamHeader where
  offset := out.length
  uncompressedSize := blockDataLen
  compressedSize := compressed.length
  alignedSize := aligned (compressed.length % 2 ^ 32) 4

/-- The loop of `CompressFastfile`.  A step takes something from the data unless the blocks are
empty, so as many steps as there are bytes are enough for any loop that ends. -/
def compressBlocks (lib : Libraries) (alg : CompressionAlgorithm) (maxBlockSize : Nat) :
    Nat → Nat → Data → Data → Except Error Data
  | 0, _, toCompress, out => if toCompress = [] then .ok out else .error .endless
  | fuel + 1, blockId, toCompress, out =>
    if toCompress = [] then .ok out
    else
      let blockDataLen := min maxBlockSize toCompress.length
      match compressBuffer lib alg (toCompress.take blockDataLen) with
      | .error e => .error e
      | .ok none => .error (.cantCompressChunk blockId blockDataLen)
      | .ok (some compressed) =>
        let block := blockHeader out blockDataLen compressed
        compressBlocks lib alg maxBlockSize fuel (blockId + 1) (toCompress.drop blockDataLen)
          (padTo 4 (out ++ block.bytes ++ compressed))

/-- `CompressFastfile`. -/
def compressFastfile (lib : Libraries) (info : FastfileInfo) : Except Error Data := do
  let alg ← getFastFileCompressionAlgorithm (info.header.number .compression)
  compressBlocks lib alg info.maxBlockSize info.out.data.length 0 info.out.data info.header.bytes

/-! ## Reader -/

abbrev Read := EStateM Error State

/-- An operation of the buffer. -/
def lift {α : Type} (op : Op α) : Read α := fun s =>
  match op s with
  | .ok a s' => .ok a s'
  | .error e s' => .error (.buffer e) s'

def liftExcept {α : Type} (r : Except Error α) : Read α := fun s =>
  match r with
  | .ok a => .ok a s
  | .error e => .error e s

variable (lib : Libraries) (b : ByteBuffer)

/-- The block header at a pointer. -/
def blockAt (pos : Nat) : DBStreamHeader where
  compressedSize := b.memory.readLE pos 4
  uncompressedSize := b.memory.readLE (pos + 4) 4
  alignedSize := b.memory.readLE (pos + 8) 4
  offset := b.memory.readLE (pos + 12) 4

/-- One block, decompressed to its place. -/
def decompressBlock (alg : CompressionAlgorithm) (loc destSize : Nat) (src : Data) (offset : Nat)
    (out : Buffer) : Except Error Buffer := do
  let (r, bytes) ← decompress2 lib alg destSize src
  let out ← out.write offset bytes
  if r < 0 then throw (.cantDecompressBlock loc) else return out

/-- The loop of `DecompressFastfile`.  Every step reads a header, so as many steps as the buffer
has bytes are enough. -/
def readBlocks (alg : CompressionAlgorithm) (decompressedSize : Nat) :
    Nat → Nat → Nat → Buffer → Read (Nat × Buffer)
  | 0, offset, maxBlockSize, out =>
    if offset < decompressedSize then throw .endless else return (maxBlockSize, out)
  | fuel + 1, offset, maxBlockSize, out =>
    if offset < decompressedSize then do
      let s ← get
      let loc := s.pointer
      let pos ← lift (readPtr b 16 1)
      let block := blockAt b pos
      if block.offset ≠ loc then throw (.badBlockPosition loc block.offset)
      else if block.uncompressedSize = 0 then do
        lift (align b 0x800000)
        readBlocks alg decompressedSize fuel offset maxBlockSize out
      else do
        let blockBuff ← lift (readPtr b 1 block.alignedSize)
        if blockBuff + block.compressedSize > b.len then throw .outside
        else do
          let out ← liftExcept (decompressBlock lib alg loc block.uncompressedSize
            (slice b blockBuff block.compressedSize) offset out)
          readBlocks alg decompressedSize fuel (offset + block.uncompressedSize)
            (max maxBlockSize block.uncompressedSize) out
    else return (maxBlockSize, out)

/-- The checks of a header; a signature is erased. -/
def checkHeader (header : XFileBO3) : Except Error XFileBO3 :=
  if header.number .platform ≠ XFILE_PC then .error .platformNotSupported
  else if header.number .encrypted ≠ 0 then .error .encryptedNotSupported
  else if header.number .compression ≥ XFILE_BDELTA_UNCOMP ∧
      header.number .compression ≤ XFILE_BDELTA_LZMA then .error .deltaFastfile
  else if header.isUnsigned then .ok header
  else .ok header.eraseSignature

/-- The header of a file, as `DecompressFastfile` takes it. -/
def readHeader : Read XFileBO3 := do
  let s ← get
  if ¬CanRead b s.pointer headerSize then throw .invalidFastfileSize
  else if b.memory.readLE s.pointer 8 ≠ FF_T7_MAGIC then
    throw (.invalidMagic (b.memory.readLE s.pointer 8))
  else do
    lift (readImpl b headerSize)
    liftExcept (checkHeader ⟨slice b s.pointer headerSize, by
      rw [slice, List.length_map, List.length_range]⟩)

/-- `DecompressFastfile`. -/
def decompressFastfile : Read FastfileInfo := do
  let header ← readHeader b
  let out ← liftExcept (Buffer.resize (header.number .size))
  let alg ← liftExcept (getFastFileCompressionAlgorithm (header.number .compression))
  let (maxBlockSize, out) ← readBlocks lib b alg (header.number .size) (b.len + 1) 0 0 out
  return ⟨maxBlockSize, header, out⟩

/-! ## What the writer adds -/

section Writer

variable {lib} {alg : CompressionAlgorithm} {n blockId fuel : Nat} {toCompress out file : Data}

/-- One step of the writer. -/
theorem compressBlocks_succ
    (h : compressBlocks lib alg n (fuel + 1) blockId toCompress out = .ok file)
    (hne : toCompress ≠ []) :
    ∃ compressed,
      compressBuffer lib alg (toCompress.take (min n toCompress.length)) = .ok (some compressed) ∧
      compressBlocks lib alg n fuel (blockId + 1) (toCompress.drop (min n toCompress.length))
        (padTo 4 (out ++ (blockHeader out (min n toCompress.length) compressed).bytes ++
          compressed)) = .ok file := by
  unfold compressBlocks at h
  rw [if_neg hne] at h
  dsimp only at h
  split at h
  · cases h
  · cases h
  · rename_i compressed hcompress
    exact ⟨compressed, hcompress, h⟩

theorem compressBlocks_nil (h : compressBlocks lib alg n fuel blockId [] out = .ok file) :
    file = out := by
  cases fuel with
  | zero =>
    cases h
    rfl
  | succ fuel =>
    cases h
    rfl

/-- What was written stays. -/
theorem compressBlocks_keeps
    (h : compressBlocks lib alg n fuel blockId toCompress out = .ok file) : out <+: file := by
  induction fuel generalizing blockId toCompress out with
  | zero =>
    unfold compressBlocks at h
    split at h
    · cases h
      exact List.prefix_refl _
    · cases h
  | succ fuel ih =>
    by_cases hne : toCompress = []
    · subst hne
      obtain rfl := compressBlocks_nil h
      exact List.prefix_refl _
    · obtain ⟨compressed, -, hrest⟩ := compressBlocks_succ h hne
      refine List.IsPrefix.trans ?_ (ih hrest)
      rw [padTo, List.append_assoc, List.append_assoc]
      exact List.prefix_append _ _

end Writer

end Acts.Gsc.ObfuscatorFastfile
