import Acts.Core.ByteBuffer
import Acts.Lib.Bytes
import Acts.Lib.Checked
import Acts.Lib.Fetch

/-!
# Flexible fastfile headers (`fastfile_flexible.cpp`)

* `Writer`, `write` — the header of a list of chunks: placeholders first, filled at the end.
* `readHeader` — the reader, over a byte buffer.
* `write_layout` — **what the writer produces**: the magic and the count, then the signature of a
  second version, then the chunks.

SHA-256 is a parameter.
-/

set_option autoImplicit false

namespace Acts.Fastfile.Flexible

open Core.Bytebuffer

abbrev Data := List UInt8

/-- A hash function with 32 bytes. -/
structure Sha256 where
  hash : Data → Data
  length_hash : ∀ data, (hash data).length = 32

/-- `TAFASecureInfo`, without the name of the key. -/
structure TAFASecureInfo where
  fastfileName : Data

def MAGIC : Nat := 0x46464154
def MAGIC_V2 : Nat := 0x41464154

def isFlexibleDataMagic (magic : Nat) : Bool := magic = MAGIC ∨ magic = MAGIC_V2

/-- The two versions of a header. -/
inductive Version where
  | v1
  | v2
  deriving DecidableEq

def Version.magic : Version → Nat
  | .v1 => MAGIC
  | .v2 => MAGIC_V2

/-- The size of `TAFASignature`. -/
def signatureSize : Nat := 0x124

/-- The size of the array of chunks. -/
def maxChunks : Nat := 0x10

/-- A chunk to write; its length is a `uint32_t`. -/
structure Chunk where
  type : UInt32
  data : Data
  length_lt : data.length < 2 ^ 32

/-! ## Writer -/

/-- `FlexibleFastFileWriter`; each chunk with its offset. -/
structure Writer where
  version : Version
  data : Data
  chunks : List (Nat × Chunk)
  hashOffset : Nat

/-- `utils::Allocate`. -/
def allocate (data : Data) (len : Nat) : Data := data ++ List.replicate len 0

/-- A copy into the vector. -/
def overwrite (data : Data) (pos : Nat) (value : Data) : Data :=
  data.take pos ++ value ++ data.drop (pos + value.length)

def Writer.new (version : Version) : Writer :=
  let data := allocate [] 8
  match version with
  | .v1 => ⟨version, data, [], 0⟩
  | .v2 => ⟨version, allocate data signatureSize, [], data.length⟩

/-- `AddBlock`. -/
def Writer.addBlock (w : Writer) (c : Chunk) : Except String Writer :=
  let data := w.data ++ leBytes 4 c.type.toNat ++ leBytes 4 c.data.length
  let off := data.length
  let data := allocate data c.data.length
  if w.chunks.length = maxChunks then .error "too many flexible chunks to write"
  else .ok { w with data := data, chunks := w.chunks ++ [(off, c)] }

/-- The magic and the count. -/
def header (version : Version) (count : Nat) : Data :=
  leBytes 4 version.magic ++ leBytes 4 count

/-- A chunk, as it is written and as it is hashed. -/
def record (type : Nat) (data : Data) : Data :=
  leBytes 4 type ++ leBytes 4 data.length ++ data

/-- `WriteEnd`. -/
def Writer.writeEnd (sha : Sha256) (w : Writer) (secureInfo : Option TAFASecureInfo) : Data :=
  let header := header w.version w.chunks.length
  let data := overwrite w.data 0 header
  let data := w.chunks.foldl (fun data c => overwrite data c.1 c.2.data) data
  if w.hashOffset ≠ 0 then
    match secureInfo with
    | some info =>
      let data := overwrite data w.hashOffset (leBytes 4 w.version.magic)
      let hash := sha.hash (info.fastfileName ++ header ++
        w.chunks.flatMap fun c => record c.2.type.toNat c.2.data)
      overwrite data (w.hashOffset + 4) hash
    | none => data
  else data

/-- A writer from its first to its last call. -/
def write (sha : Sha256) (version : Version) (chunks : List Chunk)
    (secureInfo : Option TAFASecureInfo) : Except String Data := do
  let w ← chunks.foldlM Writer.addBlock (.new version)
  return w.writeEnd sha secureInfo

/-! ## Reader -/

/-- What a read fails with. -/
inductive ReadError where
  | buffer (e : Core.Bytebuffer.Error)
  | invalidMagic (magic : Nat)
  | tooManyChunks (count : Nat)
  | invalidSignatureMagic (magic : Nat)
  | invalidHash

abbrev Read := EStateM ReadError State

/-- An operation of the buffer. -/
def lift {α : Type} (op : Op α) : Read α := fun s =>
  match op s with
  | .ok a s' => .ok a s'
  | .error e s' => .error (.buffer e) s'

/-- `FlexibleFastFileChunk`. -/
structure ReadChunk where
  type : Nat
  data : Data

/-- The bytes of the buffer at a pointer. -/
def slice (b : ByteBuffer) (pos len : Nat) : Data := (List.range len).map fun i => b.memory (pos + i)

/-- `std::string_view::find`. -/
def find (pat : Data) : Data → Option Nat
  | [] => if pat.isEmpty then some 0 else none
  | c :: cs => if pat.isPrefixOf (c :: cs) then some 0 else (find pat cs).map (· + 1)

def ffotd : Data := [0x66, 0x66, 0x6f, 0x74, 0x64]

/-- The part of the name that the reader hashes. -/
def hashedName (name : Data) : Data :=
  match find ffotd name with
  | some i => name.take (i + 5)
  | none => name

/-- The loop over the chunks. -/
def readChunks (b : ByteBuffer) : Nat → Read (List ReadChunk)
  | 0 => pure []
  | n + 1 => do
    let type ← lift (readValue b 4)
    let size ← lift (readValue b 4)
    let pos ← lift (readPtr b 1 size)
    let rest ← readChunks b n
    return ⟨type, slice b pos size⟩ :: rest

/-- The signature behind the chunks. -/
def readSignature (sha : Sha256) (b : ByteBuffer) (secureInfo : Option TAFASecureInfo)
    (magic count : Nat) (chunks : List ReadChunk) : Read Unit := do
  let pos ← lift (readPtr b signatureSize 1)
  let endMagic := readLe 4 (slice b pos 4)
  if endMagic ≠ MAGIC_V2 then throw (.invalidSignatureMagic endMagic)
  else match secureInfo with
    | none => pure ()
    | some info =>
      let hash := sha.hash (hashedName info.fastfileName ++ (leBytes 4 magic ++ leBytes 4 count) ++
        chunks.flatMap fun c => record c.type c.data)
      if hash ≠ slice b (pos + 4) 32 then throw .invalidHash else pure ()

/-- `ReadHeader`. -/
def readHeader (sha : Sha256) (b : ByteBuffer) (secureInfo : Option TAFASecureInfo) :
    Read (List ReadChunk) := do
  let magic ← lift (readValue b 4)
  if !isFlexibleDataMagic magic then throw (.invalidMagic magic)
  else do
    let count ← lift (readValue b 4)
    if count = 0 then return []
    else if count > maxChunks then throw (.tooManyChunks count)
    else do
      let chunks ← readChunks b count
      if magic = MAGIC_V2 then do
        readSignature sha b secureInfo magic count chunks
        return chunks
      else return chunks

/-! ## What the writer produces -/

def records (chunks : List Chunk) : Data := chunks.flatMap fun c => record c.type.toNat c.data

/-- The signature of a header. -/
def signature (sha : Sha256) (version : Version) (chunks : List Chunk) :
    Option TAFASecureInfo → Data
  | none => match version with
    | .v1 => []
    | .v2 => List.replicate signatureSize 0
  | some info => match version with
    | .v1 => []
    | .v2 => leBytes 4 MAGIC_V2 ++
        sha.hash (info.fastfileName ++ header .v2 chunks.length ++ records chunks) ++
        List.replicate 0x100 0

/-- A chunk before it is filled. -/
def frame (c : Chunk) : Data :=
  leBytes 4 c.type.toNat ++ leBytes 4 c.data.length ++ List.replicate c.data.length 0

/-- Where the data of each chunk goes. -/
def placed : Nat → List Chunk → List (Nat × Chunk)
  | _, [] => []
  | start, c :: cs => (start + 8, c) :: placed (start + 8 + c.data.length) cs

theorem length_frame (c : Chunk) : (frame c).length = 8 + c.data.length := by
  simp only [frame, List.length_append, length_leBytes, List.length_replicate]

theorem length_record (type : Nat) (data : Data) : (record type data).length = 8 + data.length := by
  simp only [record, List.length_append, length_leBytes]

/-- What the calls of `AddBlock` leave. -/
theorem addBlocks (chunks : List Chunk) : ∀ w : Writer, w.chunks.length ≤ maxChunks →
    chunks.foldlM Writer.addBlock w =
      if w.chunks.length + chunks.length ≤ maxChunks then
        .ok { w with
          data := w.data ++ chunks.flatMap frame
          chunks := w.chunks ++ placed w.data.length chunks }
      else .error "too many flexible chunks to write" := by
  induction chunks with
  | nil =>
    intro w hw
    rw [List.length_nil, Nat.add_zero, if_pos hw, List.flatMap_nil, List.append_nil, placed,
      List.append_nil]
    rfl
  | cons c cs ih =>
    intro w hw
    rw [List.foldlM_cons, List.length_cons]
    by_cases hfull : w.chunks.length = maxChunks
    · have hadd : w.addBlock c = .error "too many flexible chunks to write" := if_pos hfull
      rw [hadd, if_neg (by omega)]
      rfl
    · have hadd : w.addBlock c = .ok { w with
          data := w.data ++ frame c
          chunks := w.chunks ++ [(w.data.length + 8, c)] } := by
        refine (if_neg hfull).trans ?_
        simp only [allocate, frame, List.append_assoc, List.length_append, length_leBytes]
      have hstep := ih { w with
        data := w.data ++ frame c
        chunks := w.chunks ++ [(w.data.length + 8, c)] }
      simp only [List.length_append, List.length_singleton] at hstep
      have hsum : w.chunks.length + 1 + cs.length = w.chunks.length + (cs.length + 1) := by omega
      rw [hadd]
      refine (hstep (by omega)).trans ?_
      have hoff : w.data.length + (8 + c.data.length) = w.data.length + 8 + c.data.length := by
        omega
      rw [hsum, length_frame, List.flatMap_cons, placed, hoff, List.append_assoc,
        List.append_assoc]
      rfl

theorem overwrite_middle {front old new rest : Data} {pos : Nat} (hpos : pos = front.length)
    (hlen : new.length = old.length) :
    overwrite (front ++ old ++ rest) pos new = front ++ new ++ rest := by
  subst hpos
  have hold : (front ++ old).length = front.length + new.length := by
    rw [List.length_append, hlen]
  unfold overwrite
  rw [List.drop_left' hold, List.append_assoc front old rest, List.take_left]

/-- The chunks are copied to their places. -/
theorem fillChunks (chunks : List Chunk) : ∀ (front : Data) (start : Nat),
    start = front.length →
    (placed start chunks).foldl (fun data c => overwrite data c.1 c.2.data)
      (front ++ chunks.flatMap frame) = front ++ records chunks := by
  induction chunks with
  | nil =>
    intro front start hstart
    rfl
  | cons c cs ih =>
    intro front start hstart
    have hframe : front ++ (c :: cs).flatMap frame =
        (front ++ (leBytes 4 c.type.toNat ++ leBytes 4 c.data.length)) ++
          List.replicate c.data.length 0 ++ cs.flatMap frame := by
      simp only [List.flatMap_cons, frame, List.append_assoc]
    have hpos : start + 8 = (front ++ (leBytes 4 c.type.toNat ++ leBytes 4 c.data.length)).length := by
      simp only [List.length_append, length_leBytes]
      omega
    have hrecord : front ++ (leBytes 4 c.type.toNat ++ leBytes 4 c.data.length) ++ c.data =
        front ++ record c.type.toNat c.data := by
      simp only [record, List.append_assoc]
    have hnext : start + 8 + c.data.length = (front ++ record c.type.toNat c.data).length := by
      rw [List.length_append, length_record]
      omega
    rw [placed, List.foldl_cons, hframe, overwrite_middle hpos List.length_replicate.symm, hrecord,
      ih _ _ hnext, List.append_assoc]
    rfl

theorem length_header (version : Version) (count : Nat) : (header version count).length = 8 := by
  simp only [header, List.length_append, length_leBytes]

theorem length_placed (chunks : List Chunk) : ∀ start, (placed start chunks).length = chunks.length := by
  induction chunks with
  | nil => exact fun _ => rfl
  | cons c cs ih =>
    intro start
    rw [placed, List.length_cons, ih, List.length_cons]

theorem records_placed (chunks : List Chunk) : ∀ start,
    ((placed start chunks).flatMap fun c => record c.2.type.toNat c.2.data) = records chunks := by
  induction chunks with
  | nil => exact fun _ => rfl
  | cons c cs ih =>
    intro start
    rw [placed, List.flatMap_cons, ih]
    rfl

/-- The header and the chunks are filled; `sig` is what stands between them. -/
theorem fill (version : Version) (chunks : List Chunk) (sig : Data) :
    (placed (8 + sig.length) chunks).foldl (fun data c => overwrite data c.1 c.2.data)
      (overwrite (List.replicate 8 0 ++ sig ++ chunks.flatMap frame) 0
        (header version chunks.length)) =
      header version chunks.length ++ sig ++ records chunks := by
  have hheader : overwrite (List.replicate 8 0 ++ sig ++ chunks.flatMap frame) 0
      (header version chunks.length) =
        header version chunks.length ++ sig ++ chunks.flatMap frame := by
    have hnil : List.replicate 8 0 ++ sig ++ chunks.flatMap frame =
        [] ++ List.replicate 8 0 ++ (sig ++ chunks.flatMap frame) := by
      rw [List.nil_append, List.append_assoc]
    have hpos : 0 = ([] : Data).length := rfl
    have hlen : (header version chunks.length).length = (List.replicate 8 (0 : UInt8)).length :=
      length_header version _
    rw [hnil, overwrite_middle hpos hlen, List.nil_append, List.append_assoc]
  rw [hheader, fillChunks]
  rw [List.length_append, length_header]

/-- The room for the signature. -/
def signatureRoom : Version → Data
  | .v1 => []
  | .v2 => List.replicate signatureSize 0

theorem new_data (version : Version) :
    (Writer.new version).data = List.replicate 8 0 ++ signatureRoom version := by
  cases version with
  | v1 => rfl
  | v2 => exact congrArg (· ++ _) (List.nil_append _)

/-- The magic and the hash are put into the room for the signature. -/
theorem sign (sha : Sha256) (head tail data : Data) (hhead : head.length = 8) :
    overwrite (overwrite (head ++ signatureRoom .v2 ++ tail) 8 (leBytes 4 MAGIC_V2)) (8 + 4)
      (sha.hash data) =
      head ++ (leBytes 4 MAGIC_V2 ++ sha.hash data ++ List.replicate 0x100 0) ++ tail := by
  have hroom : head ++ signatureRoom .v2 ++ tail =
      head ++ List.replicate 4 0 ++ (List.replicate 0x120 0 ++ tail) := by
    have hsplit : signatureRoom .v2 = List.replicate 4 0 ++ List.replicate 0x120 0 := by
      rw [List.replicate_append_replicate]
      rfl
    rw [hsplit]
    simp only [List.append_assoc]
  have hmagic : head ++ leBytes 4 MAGIC_V2 ++ (List.replicate 0x120 0 ++ tail) =
      (head ++ leBytes 4 MAGIC_V2) ++ List.replicate 32 0 ++ (List.replicate 0x100 0 ++ tail) := by
    have hsplit : List.replicate 0x120 (0 : UInt8) =
        List.replicate 32 0 ++ List.replicate 0x100 0 := by
      rw [List.replicate_append_replicate]
    rw [hsplit]
    simp only [List.append_assoc]
  have hpos : 8 + 4 = (head ++ leBytes 4 MAGIC_V2).length := by
    rw [List.length_append, hhead, length_leBytes]
  have hlen : (leBytes 4 MAGIC_V2).length = (List.replicate 4 (0 : UInt8)).length := by
    rw [length_leBytes, List.length_replicate]
  have hhash : (sha.hash data).length = (List.replicate 32 (0 : UInt8)).length := by
    rw [sha.length_hash, List.length_replicate]
  rw [hroom, overwrite_middle hhead.symm hlen, hmagic, overwrite_middle hpos hhash]
  simp only [List.append_assoc]

/-- **The header**: the magic and the count, the signature of a second version, and the chunks. -/
theorem write_layout (sha : Sha256) (version : Version) (chunks : List Chunk)
    (secureInfo : Option TAFASecureInfo) :
    write sha version chunks secureInfo = if chunks.length ≤ maxChunks then
        .ok (header version chunks.length ++ signature sha version chunks secureInfo ++
          records chunks)
      else .error "too many flexible chunks to write" := by
  have hnone : (Writer.new version).chunks = [] := by cases version <;> rfl
  have hversion : (Writer.new version).version = version := by cases version <;> rfl
  have hadd := addBlocks chunks (Writer.new version) (by rw [hnone]; exact Nat.zero_le _)
  have hlen : (Writer.new version).data.length = 8 + (signatureRoom version).length := by
    rw [new_data, List.length_append, List.length_replicate]
  rw [hnone, List.length_nil, Nat.zero_add] at hadd
  unfold write
  rw [hadd]
  split
  · refine congrArg Except.ok ?_
    have hfill := fill version chunks (signatureRoom version)
    unfold Writer.writeEnd
    dsimp only
    rw [List.nil_append, length_placed, records_placed, hversion, hlen, new_data, hfill]
    cases version with
    | v1 => cases secureInfo <;> rfl
    | v2 =>
      cases secureInfo with
      | none => rfl
      | some info => exact sign sha _ _ _ (length_header .v2 _)
  · rfl

end Acts.Fastfile.Flexible
