import Acts.Lib.Codec
import Acts.Lib.Outcome

/-!
# ACEF files (`acts_acef.cpp`, `acts_extension.cpp`)

An ACEF file holds compressed blocks of data, each under an id.  The files of a directory are
indexed by their ids once; the blocks of a file are decompressed when one of its ids is asked for.

* `compressACEFBlock` — the writer.
* `loadExtensionFile` — one file, indexed or loaded.
* `getExtensionData` — a query, and `queries`, a sequence of them.
* `readHeader_written`, `readBlockHeader_written` — what the loader reads of a written file.
-/

set_option autoImplicit false

namespace Acts.Acef

/-! ## Compression (`compress_utils.cpp`) -/

def compNone : Nat := 1
def compZlib : Nat := 2
def compLz4 : Nat := 4
def compOodle : Nat := 5
def compZstd : Nat := 6
def compCount : Nat := 7

/-- `GetCompressionType`. -/
def getCompressionType (alg : UInt64) : Nat := alg.toNat % 256

/-- The compression libraries; the decompressor is given the size of its buffer. -/
structure Libraries where
  compress : UInt64 → List UInt8 → Option (List UInt8)
  decompress : UInt64 → Nat → List UInt8 → Option (List UInt8)

/-- What is compressed comes back, and no more than the buffer holds. -/
structure Libraries.RoundTrips (lib : Libraries) : Prop where
  decompress_compress : ∀ alg data comp, data.length < 2 ^ 31 →
    lib.compress alg data = some comp → lib.decompress alg data.length comp = some data
  length_le : ∀ alg size comp data,
    lib.decompress alg size comp = some data → data.length ≤ size

inductive AcefError where
  | cantCompress
  | unknownAlgorithm
  | readingTooMuch
  | gotoAfterEnd
  | notAcef
  | tooOld (version : Nat)
  | nonNativeEndian
  | unknownCompression
  | invalidLocation
  | windowTooSmall
  | tooManyData
  | cantDecompress (r : Int)
  deriving DecidableEq, Repr

/-- `Compress` with a buffer of `GetCompressSize` bytes. -/
def compress (lib : Libraries) (alg : UInt64) (data : List UInt8) :
    Except AcefError (List UInt8) :=
  if getCompressionType alg = compNone then .ok data
  else if getCompressionType alg ∈ [compOodle, compZlib, compLz4, compZstd] then
    match lib.compress alg data with
    | none => .error .cantCompress
    | some comp => .ok comp
  else .error .unknownAlgorithm

def dcompDestTooSmall : Int := -2
def dcompUnknownError : Int := -3

/-- A length as an `int`. -/
def toInt (n : Nat) : Int := Int.bmod n (2 ^ 32)

/-- `Decompress2`: what it returns, and what is written behind `dest`. -/
def decompress2 (lib : Libraries) (alg : UInt64) (destSize : Nat) (src : List UInt8) :
    Except AcefError (Int × List UInt8) :=
  if getCompressionType alg = compNone then
    if destSize < src.length then .ok (dcompDestTooSmall, []) else .ok (toInt src.length, src)
  else if getCompressionType alg ∈ [compOodle, compZlib, compLz4, compZstd] then
    match lib.decompress alg destSize src with
    | none => .ok (dcompUnknownError, [])
    | some out =>
      if getCompressionType alg = compOodle ∧ toInt out.length ≤ 0 then .ok (dcompUnknownError, out)
      else .ok (toInt out.length, out)
  else .error .unknownAlgorithm

/-! ## Headers (`acts_extension.hpp`) -/

def acefMagic : Nat := 0x46454341
def acefVersionLatest : Nat := 0x31
def acefVersionMin : Nat := 0x31
def acefBigEndian : Nat := 1

structure AcefHeader where
  magic : Nat
  version : Nat
  flags : Nat
  headerSize : Nat
  sizeObjectHeader : Nat
  numObjects : Nat
  compressedSize : Nat
  decompressedSize : Nat
  windowSize : Nat
  compress : Nat
  deriving DecidableEq, Repr

namespace AcefHeader

def size : Nat := 40

def widths : List Nat := [4, 2, 2, 4, 4, 4, 4, 4, 4, 8]

def fields (h : AcefHeader) : List Nat :=
  [h.magic, h.version, h.flags, h.headerSize, h.sizeObjectHeader, h.numObjects, h.compressedSize,
    h.decompressedSize, h.windowSize, h.compress]

def bytes (h : AcefHeader) : List UInt8 := writeFields widths h.fields

def ofBytes (bytes : List UInt8) : AcefHeader where
  magic := readLe 4 bytes
  version := readLe 2 (bytes.drop 4)
  flags := readLe 2 (bytes.drop 6)
  headerSize := readLe 4 (bytes.drop 8)
  sizeObjectHeader := readLe 4 (bytes.drop 12)
  numObjects := readLe 4 (bytes.drop 16)
  compressedSize := readLe 4 (bytes.drop 20)
  decompressedSize := readLe 4 (bytes.drop 24)
  windowSize := readLe 4 (bytes.drop 28)
  compress := readLe 8 (bytes.drop 32)

theorem fields_ofBytes (bytes : List UInt8) : (ofBytes bytes).fields = readFields widths bytes := by
  simp [fields, ofBytes, widths, readFields]

theorem ofBytes_bytes {h : AcefHeader} (hfits : FieldsFit widths h.fields) (rest : List UInt8) :
    ofBytes (h.bytes ++ rest) = h := by
  have hfields : (ofBytes (h.bytes ++ rest)).fields = h.fields := by
    rw [fields_ofBytes]
    exact readFields_writeFields hfits rest
  cases h
  simp only [fields, List.cons.injEq] at hfields
  cases hread : ofBytes (bytes _ ++ rest)
  simp_all

end AcefHeader

structure AcefBlockHeader where
  blockSize : Nat
  decompSize : Nat
  checkLoc : Nat
  dataOffset : Nat
  blockId : Nat
  deriving DecidableEq, Repr

namespace AcefBlockHeader

def size : Nat := 24

def widths : List Nat := [4, 4, 4, 4, 8]

def fields (h : AcefBlockHeader) : List Nat :=
  [h.blockSize, h.decompSize, h.checkLoc, h.dataOffset, h.blockId]

def bytes (h : AcefBlockHeader) : List UInt8 := writeFields widths h.fields

def ofBytes (bytes : List UInt8) : AcefBlockHeader where
  blockSize := readLe 4 bytes
  decompSize := readLe 4 (bytes.drop 4)
  checkLoc := readLe 4 (bytes.drop 8)
  dataOffset := readLe 4 (bytes.drop 12)
  blockId := readLe 8 (bytes.drop 16)

theorem fields_ofBytes (bytes : List UInt8) : (ofBytes bytes).fields = readFields widths bytes := by
  simp [fields, ofBytes, widths, readFields]

theorem ofBytes_bytes {h : AcefBlockHeader} (hfits : FieldsFit widths h.fields)
    (rest : List UInt8) : ofBytes (h.bytes ++ rest) = h := by
  have hfields : (ofBytes (h.bytes ++ rest)).fields = h.fields := by
    rw [fields_ofBytes]
    exact readFields_writeFields hfits rest
  cases h
  simp only [fields, List.cons.injEq] at hfields
  cases hread : ofBytes (bytes _ ++ rest)
  simp_all

end AcefBlockHeader

/-! ## Writer -/

structure AcefBlock where
  name : UInt64
  data : List UInt8

/-- The file so far, and the fields of the header that are summed up on the way. -/
structure Building where
  data : List UInt8
  compressedSize : Nat
  decompressedSize : Nat
  windowSize : Nat

def addBlock (lib : Libraries) (alg : UInt64) (st : Building) (block : AcefBlock) :
    Except AcefError Building := do
  let comp ← compress lib alg block.data
  let blockHeader : AcefBlockHeader :=
    { blockSize := comp.length % 2 ^ 32, decompSize := block.data.length % 2 ^ 32,
      checkLoc := st.data.length % 2 ^ 32, dataOffset := st.decompressedSize,
      blockId := block.name.toNat }
  .ok
    { data := st.data ++ (blockHeader.bytes ++ comp)
      decompressedSize := (st.decompressedSize + block.data.length % 2 ^ 32) % 2 ^ 32
      compressedSize := (st.compressedSize + comp.length % 2 ^ 32) % 2 ^ 32
      windowSize := if st.windowSize < comp.length then comp.length % 2 ^ 32 else st.windowSize }

def addBlocks (lib : Libraries) (alg : UInt64) : List AcefBlock → Building →
    Except AcefError Building
  | [], st => .ok st
  | block :: blocks, st => do
    let st ← addBlock lib alg st block
    addBlocks lib alg blocks st

/-- The header behind all blocks. -/
def finalHeader (alg : UInt64) (count : Nat) (st : Building) : AcefHeader where
  magic := acefMagic
  version := acefVersionLatest
  flags := 0
  headerSize := AcefHeader.size
  sizeObjectHeader := AcefBlockHeader.size
  numObjects := count % 2 ^ 32
  compressedSize := st.compressedSize
  decompressedSize := st.decompressedSize
  windowSize := st.windowSize
  compress := alg.toNat

/-- The file before its first block, with room for the header. -/
def Building.start : Building := ⟨List.replicate AcefHeader.size 0, 0, 0, 0⟩

/-- `CompressACEFBlock` on a little-endian machine: the file it writes. -/
def compressACEFBlock (lib : Libraries) (alg : UInt64) (blocks : List AcefBlock) :
    Except AcefError (List UInt8) := do
  let st ← addBlocks lib alg blocks .start
  .ok ((finalHeader alg blocks.length st).bytes ++ st.data.drop AcefHeader.size)

/-! ## Files -/

/-- `FileReader::Read` of `size` bytes at a location. -/
def readAt (file : List UInt8) (loc size : Nat) : Except AcefError (List UInt8) :=
  if loc + size ≤ file.length then .ok ((file.drop loc).take size) else .error .readingTooMuch

/-- `FileReader::Goto`. -/
def goto (file : List UInt8) (loc : Nat) : Except AcefError Nat :=
  if loc > file.length then .error .gotoAfterEnd else .ok loc

/-- `FileReader::Skip`, which reads in pieces. -/
def skip (file : List UInt8) (loc size : Nat) : Except AcefError Nat :=
  if loc + size ≤ file.length then .ok (loc + size) else .error .readingTooMuch

/-- What was read into a buffer that may be larger. -/
def overlay (bytes buffer : List UInt8) : List UInt8 := bytes ++ buffer.drop bytes.length

/-- The start of `LoadExtensionFile`, up to the location of the first block. -/
def readHeader (file : List UInt8) : Except AcefError AcefHeader := do
  let magic ← readAt file 0 4
  if readLe 4 magic ≠ acefMagic then .error .notAcef
  else
    let version ← readAt file 4 2
    let flags ← readAt file 6 2
    if readLe 2 version < acefVersionMin then .error (.tooOld (readLe 2 version))
    else if readLe 2 flags &&& acefBigEndian ≠ 0 then .error .nonNativeEndian
    else
      let headerSize ← readAt file 8 4
      let bytes ← readAt file 0 (min AcefHeader.size (readLe 4 headerSize))
      let header := AcefHeader.ofBytes (overlay bytes (List.replicate AcefHeader.size 0))
      if header.compress % 256 ≥ compCount then .error .unknownCompression
      else
        let _ ← goto file (readLe 4 headerSize)
        .ok header

/-- The header of a block, with the location of its data. -/
def readBlockHeader (file : List UInt8) (header : AcefHeader) (oloc : Nat)
    (blockHeader : List UInt8) : Except AcefError (List UInt8 × Nat) := do
  let bytes ← readAt file oloc (min AcefBlockHeader.size header.sizeObjectHeader)
  let blockHeader := overlay bytes blockHeader
  let block := AcefBlockHeader.ofBytes blockHeader
  if oloc ≠ block.checkLoc then .error .invalidLocation
  else
    let loc ← goto file ((block.checkLoc + header.sizeObjectHeader) % 2 ^ 32)
    if block.blockSize > header.windowSize then .error .windowTooSmall
    else if (block.dataOffset + block.decompSize) % 2 ^ 32 > header.decompressedSize then
      .error .tooManyData
    else .ok (blockHeader, loc)

/-! ## Loader -/

structure AcefArray where
  len : Nat
  data : Nat
  deriving DecidableEq, Repr

structure AcefFileLoc where
  file : List UInt8
  loaded : Bool

structure AcefDataRef where
  allocs : List AcefArray
  locs : List Nat

/-- `acefdata`, with the memory of its allocator; a file is referred to by its index. -/
structure AcefData where
  heap : List UInt8
  map : UInt64 → Option AcefDataRef
  locs : List AcefFileLoc
  /-- The flag of `call_once`. -/
  called : Bool

namespace AcefData

def empty : AcefData := ⟨[], fun _ => none, [], false⟩

/-- `map[id]`, without adding it. -/
def ref (s : AcefData) (id : UInt64) : AcefDataRef := (s.map id).getD ⟨[], []⟩

def setRef (s : AcefData) (id : UInt64) (r : AcefDataRef) : AcefData :=
  { s with map := fun id' => if id' = id then some r else s.map id' }

def addLoc (s : AcefData) (id : UInt64) (loc : Nat) : AcefData :=
  s.setRef id { s.ref id with locs := (s.ref id).locs ++ [loc] }

def addAlloc (s : AcefData) (id : UInt64) (a : AcefArray) : AcefData :=
  s.setRef id { s.ref id with allocs := (s.ref id).allocs ++ [a] }

def setLoaded (s : AcefData) (loc : Nat) (loaded : Bool) : AcefData :=
  { s with locs := s.locs.modify loc fun l => { l with loaded } }

/-- The bytes behind arrays. -/
def contents (s : AcefData) (arrays : List AcefArray) : List (List UInt8) :=
  arrays.map fun a => (s.heap.drop a.data).take a.len

end AcefData

inductive Stop where
  | thrown (error : AcefError)
  /-- A write outside the allocated memory. -/
  | crashed
  /-- More iterations than were allowed for. -/
  | unfinished
  deriving DecidableEq, Repr

abbrev M := EStateM Stop AcefData

def ofExcept {α : Type} : Except AcefError α → M α
  | .ok a => pure a
  | .error e => throw (.thrown e)

/-- `acefAlloc.Alloc`; the memory is not initialised, and nobody reads it before it is written. -/
def alloc (size : Nat) : M Nat := fun s =>
  .ok s.heap.length { s with heap := s.heap ++ List.replicate size 0 }

def write (loc : Nat) (bytes : List UInt8) : M Unit := fun s =>
  if loc + bytes.length ≤ s.heap.length then
    .ok () { s with heap := s.heap.take loc ++ bytes ++ s.heap.drop (loc + bytes.length) }
  else .error .crashed s

/-- One block of a file: its header as it is left in the buffer, and the location behind it. -/
def loadBlock (lib : Libraries) (file : List UInt8) (header : AcefHeader) (preload : Bool)
    (loc data oloc : Nat) (blockHeader : List UInt8) : M (List UInt8 × Nat) := do
  let (blockHeader, pos) ← ofExcept (readBlockHeader file header oloc blockHeader)
  let block := AcefBlockHeader.ofBytes blockHeader
  modify fun s => s.addLoc (UInt64.ofNat block.blockId) loc
  if preload then
    let pos ← ofExcept (skip file pos block.blockSize)
    pure (blockHeader, pos)
  else
    let source ← ofExcept (readAt file pos block.blockSize)
    let (r, out) ← ofExcept (decompress2 lib (UInt64.ofNat header.compress) block.decompSize source)
    write (data + block.dataOffset) out
    if r < 0 then throw (.thrown (.cantDecompress r))
    else
      modify fun s => s.addAlloc (UInt64.ofNat block.blockId) ⟨r.toNat, data + block.dataOffset⟩
      pure (blockHeader, pos + block.blockSize)

/-- The loop over the blocks of a file. -/
def loadBlocks (lib : Libraries) (file : List UInt8) (header : AcefHeader) (preload : Bool)
    (loc data : Nat) : Nat → Nat → List UInt8 → M Unit
  | 0, _, _ => pure ()
  | numObjects + 1, oloc, blockHeader => do
    let (blockHeader, oloc) ← loadBlock lib file header preload loc data oloc blockHeader
    loadBlocks lib file header preload loc data numObjects oloc blockHeader

/-- The body of the `try` block. -/
def loadFile (lib : Libraries) (file : List UInt8) (loc : Nat) (preload : Bool) : M Unit := do
  let header ← ofExcept (readHeader file)
  let data ← if preload then pure 0 else alloc header.decompressedSize
  loadBlocks lib file header preload loc data header.numObjects header.headerSize
    (List.replicate AcefBlockHeader.size 0)

/-- `catch (std::runtime_error& e)`, with a warning. -/
def catchWarning (body : M Unit) : M Unit := fun s =>
  match body s with
  | .error (.thrown _) s => .ok () s
  | result => result

/-- `LoadExtensionFile`. -/
def loadExtensionFile (lib : Libraries) (loc : Nat) (preload : Bool) : M Unit := do
  let s ← get
  match s.locs[loc]? with
  | none => pure ()
  | some l =>
    if l.loaded then pure ()
    else
      catchWarning (loadFile lib l.file loc preload)
      modify fun s => s.setLoaded loc (!preload)

/-- `LoadExtensionFile` of the files from `loc` on. -/
def preloadFiles (lib : Libraries) : Nat → Nat → M Unit
  | 0, _ => pure ()
  | count + 1, loc => do
    loadExtensionFile lib loc true
    preloadFiles lib count (loc + 1)

/-- `LoadExtensionFiles` with the files of the directory. -/
def loadExtensionFiles (lib : Libraries) (files : List (List UInt8)) : M Unit := do
  let s ← get
  if s.called then pure ()
  else
    modify fun s => { s with called := true, locs := files.map fun file => ⟨file, false⟩ }
    preloadFiles lib files.length 0

/-- The loop of `GetExtensionData`, of at most `turns` iterations. -/
def queryLoop (lib : Libraries) (path : UInt64) : Nat → Nat → Option (List AcefArray) →
    M (Option (List AcefArray))
  | 0, _, _ => throw .unfinished
  | turns + 1, i, out => do
    let s ← get
    match (s.ref path).locs[i]? with
    | none => pure out
    | some loc =>
      loadExtensionFile lib loc false
      let s ← get
      queryLoop lib path turns (i + 1) (some (s.ref path).allocs)

/-- `GetExtensionData`: `*data` and `*count`, unless they are left as they were. -/
def getExtensionData (lib : Libraries) (files : List (List UInt8)) (turns : Nat)
    (path : UInt64) : M (Option (List AcefArray)) := do
  loadExtensionFiles lib files
  let s ← get
  match s.map path with
  | none => pure (some [])
  | some _ => queryLoop lib path turns 0 none

/-- A query, and the contents of what it returned. -/
def query (lib : Libraries) (files : List (List UInt8)) (turns : Nat) (path : UInt64) :
    M (Option (List (List UInt8))) := do
  let out ← getExtensionData lib files turns path
  let s ← get
  pure (out.map s.contents)

/-- A sequence of queries. -/
def queries (lib : Libraries) (files : List (List UInt8)) (turns : Nat) :
    List UInt64 → M (List (Option (List (List UInt8))))
  | [] => pure []
  | path :: paths => do
    let out ← query lib files turns path
    let outs ← queries lib files turns paths
    pure (out :: outs)

end Acts.Acef
