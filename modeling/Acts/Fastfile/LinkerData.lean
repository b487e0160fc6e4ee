import Mathlib.Data.List.Basic
import Mathlib.Logic.Function.Basic
import Acts.Fastfile.LinkerMemory

/-!
# The linker data of a fastfile (`linker_data.cpp`)

`LinkerData` collects the bytes of a fastfile together with a list of chunks for each mode and
block.  `Link` computes the size of every block from its two lists.

* `LinkerDataChunkType` and `LinkerMode` are those of the memory linker; the source declares them
  again.
* `size_t` is `UInt64`.
* The two `ComputeChunkSize` functions take their list by reference: they return it as their loop
  leaves it.
* `Session` pairs the linker data with the commands of the calls, for the loader of `Lib/Streams`.
-/

set_option autoImplicit false

namespace Acts.Fastfile.Data

open Acts.Lib.Streams

/-! ## Data -/

structure LinkerDataChunk where
  type : LinkerDataChunkType
  align : UInt64
  start : UInt64
  size : UInt64
  deriving DecidableEq, Repr

structure AssetData where
  type : UInt64
  header : UInt64
  deriving DecidableEq, Repr

/-- `blockTypes` has the top of the stack in front. -/
structure LinkerData where
  fileData : LinkerMode → List UInt8
  chunks : LinkerMode → Nat → List LinkerDataChunk
  blockTypes : List Nat
  assets : List AssetData
  strings : List (List UInt8)
  tempBlocks : List Nat
  headerMode : LinkerMode
  numBlocks : Nat

namespace LinkerData

/-- The constructor; the pack may be empty. -/
def new (numBlocks : Nat) (tempBlocks : List Nat) : LinkerData :=
  ⟨fun _ => [], fun _ _ => [], [], [], [], tempBlocks, .header, numBlocks⟩

def setTempBlock (l : LinkerData) (block : Nat) : LinkerData :=
  { l with tempBlocks := block :: l.tempBlocks }

def isTemp (l : LinkerData) (block : Nat) : Bool := decide (block ∈ l.tempBlocks)

/-! ## Streams -/

def getCurrentStream (l : LinkerData) : Except LinkError Nat :=
  match l.blockTypes with
  | [] => .error (.thrown "No linker stream set")
  | b :: _ => .ok b

/-- `chunks[headerMode][b].emplace_back(chunk)`. -/
def emplace (l : LinkerData) (b : Nat) (chunk : LinkerDataChunk) : LinkerData :=
  { l with
    chunks := Function.update l.chunks l.headerMode
      (Function.update (l.chunks l.headerMode) b (l.chunks l.headerMode b ++ [chunk])) }

/-- The same for the current stream. -/
def emplaceCurrent (l : LinkerData) (chunk : LinkerDataChunk) : Except LinkError LinkerData := do
  let b ← l.getCurrentStream
  return l.emplace b chunk

def pushStream (l : LinkerData) (blockType : Nat) : Except LinkError LinkerData :=
  if l.numBlocks ≤ blockType then
    .error (.thrown ("Block type above limit: " ++ toString l.numBlocks ++ " >= " ++
      toString blockType))
  else .ok ({ l with blockTypes := blockType :: l.blockTypes }.emplace blockType ⟨.push, 0, 0, 0⟩)

def popStream (l : LinkerData) : Except LinkError LinkerData :=
  if l.blockTypes = [] then .error (.thrown "Can't pop linker with no stream set")
  else do
    let l ← l.emplaceCurrent ⟨.pop, 0, 0, 0⟩
    return { l with blockTypes := l.blockTypes.tail }

def align (l : LinkerData) (alignment : UInt64) : Except LinkError LinkerData :=
  l.emplaceCurrent ⟨.align, alignment, 0, 0⟩

/-- The chunk of `size` bytes at the end of the file data. -/
def dataChunk (l : LinkerData) (size : UInt64) : LinkerDataChunk :=
  ⟨.data, 0, UInt64.ofNat (l.fileData l.headerMode).length, size⟩

/-- `data` at the end of the file data. -/
def extend (l : LinkerData) (data : List UInt8) : LinkerData :=
  { l with
    fileData := Function.update l.fileData l.headerMode (l.fileData l.headerMode ++ data) }

def allocRuntimeData (l : LinkerData) (size : UInt64) : Except LinkError LinkerData :=
  l.emplaceCurrent (l.dataChunk size)

def allocData (l : LinkerData) (size : UInt64) : Except LinkError LinkerData := do
  let l ← l.emplaceCurrent (l.dataChunk size)
  return l.extend (List.replicate size.toNat 0)

def writeData (l : LinkerData) (data : List UInt8) : Except LinkError LinkerData := do
  let l ← l.emplaceCurrent (l.dataChunk (UInt64.ofNat data.length))
  return l.extend data

def setMode (l : LinkerData) (mode : LinkerMode) : Except LinkError LinkerData :=
  if mode = l.headerMode then .ok l
  else if l.blockTypes ≠ [] then
    .error (.thrown "Can't set linker mode with non empty chunks, missing PopStream()?")
  else .ok { l with headerMode := mode }

def addString (l : LinkerData) (str : List UInt8) : LinkerData :=
  { l with strings := l.strings ++ [str] }

def addAsset (l : LinkerData) (type header : UInt64) : LinkerData :=
  { l with assets := l.assets ++ [⟨type, header⟩] }

end LinkerData

/-! ## Sizes -/

/-- `ComputeChunkSize`: an alignment takes as much as it may need. -/
def computeChunkSize : List LinkerDataChunk → UInt64 → UInt64 × List LinkerDataChunk
  | [], size => (size, [])
  | chunk :: rest, size =>
    let next := match chunk.type with
      | .data => size + chunk.size
      | .align => size + (chunk.align - 1)
      | .pop => size
      | .push => size
    let (final, rest) := computeChunkSize rest next
    (final, chunk :: rest)

/-- The loop of `ComputeChunkSizeTemp`; `lens` has the top of the stack in front. -/
def computeChunkSizeTempLoop : List LinkerDataChunk → UInt64 → List UInt64 → UInt64 →
    Except LinkError (UInt64 × List LinkerDataChunk)
  | [], size, _, maxSize => .ok (if maxSize < size then size else maxSize, [])
  | chunk :: rest, size, lens, maxSize => do
    let (final, rest) ← match chunk.type with
      | .data => computeChunkSizeTempLoop rest (size + chunk.size) lens maxSize
      | .align => computeChunkSizeTempLoop rest (aligned size chunk.align) lens maxSize
      | .pop =>
        match lens with
        | [] => .error .emptyTop
        | top :: lens =>
          computeChunkSizeTempLoop rest top lens (if maxSize < size then size else maxSize)
      | .push => computeChunkSizeTempLoop rest size (size :: lens) maxSize
    return (final, chunk :: rest)

def computeChunkSizeTemp (chunks : List LinkerDataChunk) (startSize maxSize : UInt64) :
    Except LinkError (UInt64 × List LinkerDataChunk) :=
  computeChunkSizeTempLoop chunks startSize [] maxSize

/-- A block after a turn of the loop of `Link`. -/
structure LinkedBlock where
  size : UInt64
  header : List LinkerDataChunk
  data : List LinkerDataChunk
  deriving DecidableEq, Repr

namespace LinkerData

def linkBlock (l : LinkerData) (i : Nat) : Except LinkError LinkedBlock :=
  if l.isTemp i then do
    let (size, header) ← computeChunkSizeTemp (l.chunks .header i) 0 0
    let (size, data) ← computeChunkSizeTemp (l.chunks .data i) 0 size
    return ⟨size, header, data⟩
  else
    let (size, header) := computeChunkSize (l.chunks .header i) 0
    let (size, data) := computeChunkSize (l.chunks .data i) size
    .ok ⟨size, header, data⟩

def linkBlocks (l : LinkerData) : Except LinkError (List LinkedBlock) :=
  (List.range l.numBlocks).mapM l.linkBlock

/-- The linker data with the lists that the loop leaves behind. -/
def withBlocks (l : LinkerData) (blocks : List LinkedBlock) : LinkerData :=
  { l with
    chunks := fun m i =>
      match blocks[i]? with
      | none => l.chunks m i
      | some b =>
        match m with
        | .header => b.header
        | .data => b.data }

/-- What `Link` leaves behind: the linker data, the output and the sizes of the blocks. -/
structure Linked where
  linker : LinkerData
  data : List UInt8
  blocks : List UInt64

def link (l : LinkerData) (data : List UInt8) : Except LinkError Linked :=
  if l.blockTypes ≠ [] then .error (.thrown "Can't link sizes with non empty chunks")
  else do
    let blocks ← l.linkBlocks
    return ⟨l.withBlocks blocks, data ++ l.fileData .header ++ l.fileData .data,
      blocks.map (·.size)⟩

end LinkerData

/-! ## Runs -/

/-- The operations; `writeString` is `WriteData` of a string. -/
inductive LinkerDataOp where
  | setTempBlock (block : Nat)
  | setMode (mode : LinkerMode)
  | pushStream (blockType : Nat)
  | popStream
  | align (alignment : UInt64)
  | allocData (size : UInt64)
  | allocRuntimeData (size : UInt64)
  | writeData (data : List UInt8)
  | writeString (str : List UInt8)
  | addString (str : List UInt8)
  | addAsset (type header : UInt64)
  | link (data : List UInt8)
  deriving DecidableEq, Repr

def LinkerData.exec (l : LinkerData) : LinkerDataOp → Except LinkError LinkerData
  | .setTempBlock block => .ok (l.setTempBlock block)
  | .setMode mode => l.setMode mode
  | .pushStream blockType => l.pushStream blockType
  | .popStream => l.popStream
  | .align alignment => l.align alignment
  | .allocData size => l.allocData size
  | .allocRuntimeData size => l.allocRuntimeData size
  | .writeData data => l.writeData data
  | .writeString str => l.writeData (str ++ [0])
  | .addString str => .ok (l.addString str)
  | .addAsset type header => .ok (l.addAsset type header)
  | .link data => (l.link data).map (·.linker)

/-- The command of an operation. -/
def LinkerDataOp.command : LinkerDataOp → Option (Command Nat Item)
  | .pushStream blockType => some (.push blockType)
  | .popStream => some .pop
  | .align alignment => some (.put (.align alignment))
  | .allocData size => some (.put (.data size))
  | .allocRuntimeData size => some (.put (.data size))
  | .writeData data => some (.put (.data (UInt64.ofNat data.length)))
  | .writeString str => some (.put (.data (UInt64.ofNat (str ++ [0]).length)))
  | _ => none

/-- Linker data with the commands of the calls in each mode, in their order. -/
structure Session where
  linker : LinkerData
  tape : LinkerMode → List (Command Nat Item)

def Session.new (numBlocks : Nat) (tempBlocks : List Nat) : Session :=
  ⟨.new numBlocks tempBlocks, fun _ => []⟩

/-- An operation that throws leaves the linker data as it was. -/
def Session.step (s : Session) (op : LinkerDataOp) : Session :=
  match s.linker.exec op with
  | .error _ => s
  | .ok l =>
    let mode := s.linker.headerMode
    ⟨l, match op.command with
      | none => s.tape
      | some c => Function.update s.tape mode (s.tape mode ++ [c])⟩

def Session.run (s : Session) (ops : List LinkerDataOp) : Session := ops.foldl Session.step s

/-- The loader on everything that was called for, the header first. -/
def Session.replay (s : Session) : Option (Loader Nat) :=
  Loader.run Item.place s.linker.isTemp .start (s.tape .header ++ s.tape .data)

end Acts.Fastfile.Data
