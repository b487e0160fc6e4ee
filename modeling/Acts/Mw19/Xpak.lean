import Mathlib.Data.List.Basic
import Acts.Lib.Bytes
import Acts.Lib.BinarySearch
import Acts.Lib.Tiling
import Acts.Lib.Traced

/-!
# Xpak archives (`mw19_xpak.cpp`)

* `decodeBlocks` — an entry decoded block by block into an output of a given size.
* `Archive.new`, `find`, `metadata`, `extract` — the index of an archive and its readers.

A `std::span` is a list; an access outside of it, which the source does not check itself, is the
error `outside`.  A span holds less than `2 ^ 63` bytes, so the positions of `decodeBlocks` do not
wrap.  The numbers of an archive come from the file and their sums wrap at `2 ^ 64`.
-/

set_option autoImplicit false

namespace Acts.Mw19

open Acts.Lib Acts.Lib.Tiling

inductive XpakError where
  | thrown (message : String)
  | decoderUnavailable (message : String)
  /-- An access outside of a span. -/
  | outside
  /-- A loop that does not end. -/
  | endless
  deriving DecidableEq, Repr

/-- `Number<T>`, with `size` for `sizeof(T)`. -/
def number (size : Nat) (bytes : List UInt8) (pos : Nat) : Except XpakError Nat :=
  if bytes.length < pos ∨ bytes.length - pos < size then
    .error (.thrown "Truncated XPak record")
  else .ok (readLe size (bytes.drop pos))

/-- `subspan`. -/
def subspan (bytes : List UInt8) (pos length : Nat) : Except XpakError (List UInt8) :=
  if bytes.length < pos ∨ bytes.length - pos < length then .error .outside
  else .ok ((bytes.drop pos).take length)

/-! ## Blocks -/

/-- The decoders: what they return, and the target after the call, which they do not leave. -/
structure Decoders where
  lz4 : List UInt8 → List UInt8 → Int × List UInt8
  oodle : Option (List UInt8 → List UInt8 → Bool × List UInt8)
  length_lz4 : ∀ source target, (lz4 source target).2.length = target.length
  length_oodle : ∀ f ∈ oodle, ∀ source target, (f source target).2.length = target.length

/-- The locals of `DecodeBlocks`; `pos` is its `at`. -/
structure BlockState where
  output : List UInt8
  ranges : List Range
  pos : Nat
  commands : Nat
  destination : Nat
  deriving DecidableEq, Repr

/-- `memcpy` of the whole source to the start of the target. -/
def memcpy (target source : List UInt8) : Except XpakError (List UInt8) :=
  if target.length < source.length then .error .outside
  else .ok (source ++ target.drop source.length)

/-- The target after decoding, and whether the decoder was content. -/
def decodeWith (d : Decoders) (codec : Nat) (source target : List UInt8) :
    Except XpakError (Bool × List UInt8) :=
  if codec = 0 then (memcpy target source).map (true, ·)
  else if codec = 4 ∨ codec = 5 then
    let (size, target') := d.lz4 source target
    .ok (decide (0 ≤ size ∧ size.toNat = target.length), target')
  else if codec = 6 ∨ codec = 7 then
    match d.oodle with
    | none => .error (.decoderUnavailable "XPak Oodle decoder is unavailable")
    | some f => .ok (f source target)
  else .error (.thrown ("Unsupported Replay XPak codec: " ++ toString codec))

/-- `target` at `pos` of the output it was taken from. -/
def putBack (output target : List UInt8) (pos : Nat) : List UInt8 :=
  output.take pos ++ target ++ output.drop (pos + target.length)

/-- A block that is not skipped. -/
def decodeBlock (d : Decoders) (input : List UInt8) (outputSize codec length : Nat)
    (s : BlockState) : Except XpakError BlockState :=
  let decoded := if codec = 0 then length else min (outputSize - s.destination) 0x3ffe0
  if length = 0 ∨ decoded = 0 ∨ outputSize - s.destination < decoded then
    .error (.thrown "XPak block exceeds output allocation")
  else do
    let source ← subspan input s.pos length
    let target ← subspan s.output s.destination decoded
    let (ok, target) ← decodeWith d codec source target
    if ok then
      .ok { s with
        output := putBack s.output target s.destination
        ranges := s.ranges ++ [(s.destination, s.destination + decoded)]
        destination := s.destination + decoded }
    else .error (.thrown "XPak decompression failed or returned an incorrect size")

/-- Codec 207 writes nothing. -/
def decodeOrSkip (d : Decoders) (input : List UInt8) (outputSize codec length : Nat)
    (s : BlockState) : Except XpakError BlockState :=
  if codec = 207 then .ok s else decodeBlock d input outputSize codec length s

/-- One turn of the inner loop: command `i` of the group whose header is at `header`. -/
def decodeCommand (d : Decoders) (input : List UInt8) (outputSize header count i : Nat)
    (s : BlockState) : Except XpakError BlockState :=
  if 65536 < s.commands + 1 then .error (.thrown "XPak command budget exceeded")
  else do
    let descriptor ← number 4 input (header + 8 + i * 4)
    let codec := descriptor / 2 ^ 24
    let length := descriptor % 2 ^ 24
    if input.length < s.pos ∨ input.length - s.pos < length then
      .error (.thrown "Truncated XPak compressed block")
    else do
      let s ← decodeOrSkip d input outputSize codec length { s with commands := s.commands + 1 }
      if input.length < s.pos + aligned length 4 ∧ i + 1 ≠ count then
        .error (.thrown "Truncated XPak inter-block alignment")
      else .ok { s with pos := s.pos + aligned length 4 }

/-- The inner loop, with the number of commands that are left. -/
def decodeCommands (d : Decoders) (input : List UInt8) (outputSize header count : Nat) :
    Nat → BlockState → Except XpakError BlockState
  | 0, s => .ok s
  | n + 1, s => do
    let s ← decodeCommand d input outputSize header count (count - (n + 1)) s
    decodeCommands d input outputSize header count n s

/-- One turn of the outer loop. -/
def decodeGroup (d : Decoders) (input : List UInt8) (outputSize : Nat) (s : BlockState) :
    Except XpakError BlockState :=
  if input.length - s.pos < 128 then .error (.thrown "Truncated XPak command header")
  else do
    let count ← number 4 input s.pos
    let destination ← number 4 input (s.pos + 4)
    if count = 0 ∨ 30 < count ∨ outputSize < destination then
      .error (.thrown "Invalid XPak command header")
    else do
      let s ← decodeCommands d input outputSize s.pos count count
        { s with pos := s.pos + 128, destination := destination }
      return { s with pos := aligned s.pos 128 }

/-- The outer loop, in at most `fuel` turns. -/
def decodeGroups (d : Decoders) (input : List UInt8) (outputSize : Nat) :
    Nat → BlockState → Except XpakError BlockState
  | 0, s => if s.pos < input.length then .error .endless else .ok s
  | fuel + 1, s =>
    if s.pos < input.length then do
      let s ← decodeGroup d input outputSize s
      decodeGroups d input outputSize fuel s
    else .ok s

/-- The loop of `DecodeBlocks`. -/
def decodeLoop (input : List UInt8) (outputSize : Nat) (d : Decoders) :
    Except XpakError BlockState :=
  decodeGroups d input outputSize input.length ⟨List.replicate outputSize 0, [], 0, 0, 0⟩

/-- The order of pairs. -/
def rangeLe (r r' : Range) : Bool := r.1 < r'.1 || (r.1 == r'.1 && r.2 ≤ r'.2)

/-- The check of the sorted ranges: the end of the last one. -/
def coveredEnd : Nat → List Range → Except XpakError Nat
  | covered, [] => .ok covered
  | covered, (first, last) :: rest =>
    if first ≠ covered then .error (.thrown "XPak output has a gap or overlapping blocks")
    else coveredEnd last rest

def decodeBlocks (input : List UInt8) (outputSize : Nat) (d : Decoders) (maxBytes : Nat) :
    Except XpakError (List UInt8) :=
  if maxBytes < input.length ∨ maxBytes < outputSize then
    .error (.thrown "XPak payload exceeds byte budget")
  else do
    let s ← decodeLoop input outputSize d
    let covered ← coveredEnd 0 (s.ranges.mergeSort rangeLe)
    if covered ≠ outputSize then .error (.thrown "XPak output is incomplete")
    else return s.output

/-! ## Archives -/

/-- The bytes that are read: the offset in the file, and how many. -/
abbrev Access := Nat × Nat

/-- Reads that record what they touch. -/
abbrev Reading := Traced XpakError Access

/-- The reader of an archive. -/
abbrev ReadAt := (offset length : Nat) → Option (Vector UInt8 length)

structure Entry where
  key : Nat
  offset : Nat
  size : Nat
  compressed : Bool
  deriving DecidableEq, Repr

structure Limits where
  maxIndexBytes : Nat
  maxPayloadBytes : Nat
  maxMetadataBytes : Nat
  deriving DecidableEq, Repr

/-- The default limits. -/
def Limits.default : Limits := ⟨64 * 1024 * 1024, 128 * 1024 * 1024, 65536⟩

structure Archive where
  read : ReadAt
  fileSize : Nat
  dataOffset : Nat
  dataSize : Nat
  metaOffset : Nat
  metaSize : Nat
  metaCount : Nat
  limits : Limits
  entries : List Entry

/-- A sum of two `uint64_t`. -/
def add64 (a b : Nat) : Nat := (a + b) % 2 ^ 64

/-- `Archive::Read`. -/
def readFile (read : ReadAt) (fileSize offset length : Nat) : Reading (List UInt8) :=
  if fileSize < offset ∨ fileSize - offset < length then
    .fail (.thrown "XPak read outside file")
  else if length = 0 then .lift (.ok [])
  else .access (offset, length) (match read offset length with
    | none => .error (.thrown "Cannot read XPak file")
    | some bytes => .ok bytes.toList)

/-- The check of a section. -/
def checkSection (fileSize offset length : Nat) : Except XpakError Unit :=
  if fileSize < offset ∨ fileSize - offset < length ∨ (length ≠ 0 ∧ offset < 800) then
    .error (.thrown "XPak section outside file or overlapping header")
  else .ok ()

/-- The loop over the index, with the number of entries that are left. -/
def loadEntries (index : List UInt8) (dataOffset dataSize count : Nat) :
    Nat → List Entry → Except XpakError (List Entry)
  | 0, entries => .ok entries
  | n + 1, entries => do
    let i := count - (n + 1)
    let key ← number 8 index (i * 24)
    let offset ← number 8 index (i * 24 + 8)
    let packed ← number 8 index (i * 24 + 16)
    let length := packed % 2 ^ 63
    if dataSize < offset ∨ dataSize - offset < length ∨
        (entries.getLast?.any fun last => decide (key ≤ last.key)) then
      .error (.thrown "Invalid or unsorted XPak entry")
    else
      loadEntries index dataOffset dataSize count n
        (entries ++ [⟨key, add64 dataOffset offset, length, decide (packed / 2 ^ 63 ≠ 0)⟩])

/-- The numbers of the header. -/
structure XpakHeader where
  dataOffset : Nat
  dataSize : Nat
  count : Nat
  indexOffset : Nat
  indexSize : Nat
  metaCount : Nat
  metaOffset : Nat
  metaSize : Nat
  deriving DecidableEq, Repr

/-- The constructor up to the index: the header and its checks. -/
def parseHeader (header : List UInt8) (fileSize : Nat) (limits : Limits) :
    Except XpakError XpakHeader := do
  let magic ← number 4 header 0
  let version ← number 2 header 6
  if magic ≠ 0x4950414b ∨ version ≠ 13 then .error (.thrown "Not a Replay version 13 XPak")
  else do
    let size ← number 8 header 16
    if size ≠ fileSize then .error (.thrown "XPak file size mismatch")
    else do
      let dataOffset ← number 8 header 0x140
      let dataSize ← number 8 header 0x148
      let count ← number 8 header 0x150
      let indexOffset ← number 8 header 0x158
      let indexSize ← number 8 header 0x160
      let metaCount ← number 8 header 0x180
      let metaOffset ← number 8 header 0x188
      let metaSize ← number 8 header 0x190
      checkSection fileSize dataOffset dataSize
      checkSection fileSize indexOffset indexSize
      checkSection fileSize metaOffset metaSize
      if limits.maxIndexBytes < indexSize ∨ limits.maxIndexBytes / 24 < count ∨
          indexSize ≠ count * 24 % 2 ^ 64 ∨ count < metaCount then
        .error (.thrown "Invalid XPak index or metadata count")
      else
        .ok ⟨dataOffset, dataSize, count, indexOffset, indexSize, metaCount, metaOffset, metaSize⟩

namespace Archive

/-- The constructor. -/
def new (read : ReadAt) (fileSize : Nat) (limits : Limits) : Reading Archive := do
  let header ← readFile read fileSize 0 800
  let h ← .lift (parseHeader header fileSize limits)
  let index ← readFile read fileSize h.indexOffset h.indexSize
  let entries ← .lift (loadEntries index h.dataOffset h.dataSize h.count h.count [])
  return ⟨read, fileSize, h.dataOffset, h.dataSize, h.metaOffset, h.metaSize, h.metaCount, limits,
    entries⟩

/-- The reader of `Open`, on the bytes of the file. -/
def fileReader (file : List UInt8) : ReadAt := fun offset length =>
  if h : offset < 2 ^ 63 ∧ length < 2 ^ 63 ∧ offset + length ≤ file.length then
    some ⟨((file.drop offset).take length).toArray, by
      rw [List.size_toArray, List.length_take, List.length_drop]
      omega⟩
  else none

def ofFile (file : List UInt8) (limits : Limits) : Reading Archive :=
  new (fileReader file) file.length limits

def readAt (a : Archive) (offset length : Nat) : Reading (List UInt8) :=
  readFile a.read a.fileSize offset length

def find (a : Archive) (key : Nat) : Option Entry :=
  BinarySearch.find Entry.key a.entries key

/-- The loop of `Metadata`, with the number of records that are left. -/
def metadataLoop (a : Archive) (key : Nat) : Nat → Nat → Reading (Option (List UInt8))
  | 0, _ => return none
  | n + 1, pos =>
    if a.metaSize < pos ∨ a.metaSize - pos < 16 then
      .fail (.thrown "Truncated XPak metadata record")
    else do
      let header ← a.readAt (add64 a.metaOffset pos) 16
      let recordKey ← .lift (number 8 header 0)
      let length ← .lift (number 8 header 8)
      let pos := add64 pos 16
      if a.metaSize - pos < length ∨ a.limits.maxMetadataBytes < length then
        .fail (.thrown "Invalid XPak metadata length")
      else if recordKey = key then do
        let value ← a.readAt (add64 a.metaOffset pos) length
        return some value
      else metadataLoop a key n (add64 pos length)

def metadata (a : Archive) (key : Nat) : Reading (Option (List UInt8)) :=
  a.metadataLoop key a.metaCount 0

/-- The bytes of an entry, as `Extract` reads them. -/
def readEntry (a : Archive) (e : Entry) : Reading (List UInt8) := a.readAt e.offset e.size

def extract (a : Archive) (key outputSize : Nat) (d : Decoders) : Reading (List UInt8) :=
  match a.find key with
  | none => .fail (.thrown "XPak key was not found")
  | some entry =>
    if a.limits.maxPayloadBytes < entry.size ∨ a.limits.maxPayloadBytes < outputSize then
      .fail (.thrown "XPak entry exceeds byte budget")
    else do
      let bytes ← a.readEntry entry
      if entry.compressed then .lift (decodeBlocks bytes outputSize d a.limits.maxPayloadBytes)
      else if bytes.length ≠ outputSize then .fail (.thrown "Raw XPak entry size mismatch")
      else return bytes

end Archive

end Acts.Mw19
