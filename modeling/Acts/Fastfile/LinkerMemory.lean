import Mathlib.Data.List.Basic
import Mathlib.Logic.Function.Basic
import Acts.Lib.Streams

/-!
# The memory linker (`linker_memory.cpp`)

`XBlockLinker` collects the data of a fastfile block by block.  A block is a list of chunks for
each of the two modes; `PushStream` and `PopStream` select the block that takes the next chunk.
`Link` computes the size of every block and patches the references that point to chunks.

* A `LinkerDataChunk*` is the place of the chunk in the lists of its block (`ChunkPtr`).
* `size_t` is `UInt64`, so sizes and offsets wrap as they do in the source.
* A patch is one `*ref = loc` of `ApplyRefs`, in the order in which they are made.
* `dbGetOffsetData` is the reader of the patched references (`handler_game_bo4.cpp`).
-/

set_option autoImplicit false

namespace Acts.Fastfile

open Acts.Lib.Streams

/-! ## Data -/

inductive LinkerBlockType where
  | unknown
  | temp
  | runtime
  | virtual
  deriving DecidableEq, Repr

inductive LinkerDataChunkType where
  | data
  | align
  | pop
  | push
  deriving DecidableEq, Repr

inductive LinkerMode where
  | header
  | data
  deriving DecidableEq, Repr

structure LinkerDataChunk where
  type : LinkerDataChunkType
  align : UInt64
  data : Option (List UInt8)
  size : UInt64
  refs : List UInt64
  deriving DecidableEq, Repr

structure LinkerBlock where
  data : LinkerMode → List LinkerDataChunk
  type : LinkerBlockType
  finalSize : UInt64

/-- A `LinkerDataChunk*`: chunks are only added at the end of a list. -/
structure ChunkPtr where
  mode : LinkerMode
  block : Nat
  index : Nat
  deriving DecidableEq, Repr

def linkerMaxBlocks : Nat := 20
def linkerStackSize : Nat := 64

/-- The linker; `blockStack` has the block pushed last in front. -/
structure XBlockLinker where
  blocks : Nat → LinkerBlock
  zone : LinkerMode → List ChunkPtr
  linkerMode : LinkerMode
  blockStack : List Nat
  scrStrings : List (List UInt8)
  numblocks : Nat

/-- A `std::runtime_error`, or `lens.top()` on an empty stack. -/
inductive LinkError where
  | thrown (message : String)
  | emptyTop
  deriving DecidableEq, Repr

namespace XBlockLinker

/-! ## Blocks and chunks -/

def setBlock (l : XBlockLinker) (b : Nat) (block : LinkerBlock) : XBlockLinker :=
  { l with blocks := Function.update l.blocks b block }

def assertBlock (l : XBlockLinker) (b : Nat) : Except LinkError Unit :=
  if l.numblocks ≤ b then
    .error (.thrown ("XBlockLinker::AssertBlock: Invalid linker block " ++ toString b ++
      ": Too high"))
  else .ok ()

def setBlockType (l : XBlockLinker) (b : Nat) (type : LinkerBlockType) :
    Except LinkError XBlockLinker := do
  l.assertBlock b
  return l.setBlock b { l.blocks b with type := type }

/-- The constructor. -/
def new (numblocks virtualBlock : Nat) : Except LinkError XBlockLinker :=
  if linkerMaxBlocks < numblocks then
    .error (.thrown ("numblocks=" ++ toString numblocks ++ " > LINKER_MAX_BLOCKS=" ++
      toString linkerMaxBlocks))
  else
    setBlockType ⟨fun _ => ⟨fun _ => [], .unknown, 0⟩, fun _ => [], .header, [], [], numblocks⟩
      virtualBlock .virtual

def setMode (l : XBlockLinker) (mode : LinkerMode) : Except LinkError XBlockLinker :=
  if mode = l.linkerMode then .ok l
  else if l.blockStack ≠ [] then
    .error (.thrown ("XBlockLinker::SetMode: Can't set linker mode with non empty chunks, " ++
      "missing PopStream()?"))
  else .ok { l with linkerMode := mode }

def getBlock (l : XBlockLinker) : Except LinkError Nat :=
  match l.blockStack with
  | [] => .error (.thrown "XBlockLinker::GetBlock: No block set")
  | b :: _ => .ok b

/-- The chunk goes to the end of the current block. -/
def append (l : XBlockLinker) (b : Nat) (chunk : LinkerDataChunk) : XBlockLinker :=
  let block := l.blocks b
  l.setBlock b { block with
    data := Function.update block.data l.linkerMode (block.data l.linkerMode ++ [chunk]) }

def addChunk (l : XBlockLinker) (type : LinkerDataChunkType) (align size : UInt64) :
    Except LinkError (XBlockLinker × ChunkPtr) := do
  let b ← l.getBlock
  return (l.append b ⟨type, align, none, size, []⟩,
    ⟨l.linkerMode, b, ((l.blocks b).data l.linkerMode).length⟩)

/-- A write through a `LinkerDataChunk*`. -/
def modifyChunk (l : XBlockLinker) (p : ChunkPtr) (f : LinkerDataChunk → LinkerDataChunk) :
    XBlockLinker :=
  let block := l.blocks p.block
  l.setBlock p.block { block with
    data := Function.update block.data p.mode ((block.data p.mode).modify p.index f) }

/-! ## Streams -/

def pushStream (l : XBlockLinker) (b : Nat) : Except LinkError XBlockLinker := do
  l.assertBlock b
  if l.blockStack.length + 1 = linkerStackSize then
    .error (.thrown "XBlockLinker::PushStreamPos: Stack overflow")
  else do
    let (l, _) ← { l with blockStack := b :: l.blockStack }.addChunk .push 0 0
    return l

def popStream (l : XBlockLinker) : Except LinkError XBlockLinker :=
  if l.blockStack = [] then .error (.thrown "XBlockLinker::PopStreamPos: Stack underflow")
  else do
    let (l, _) ← l.addChunk .pop 0 0
    return { l with blockStack := l.blockStack.tail }

def align (l : XBlockLinker) (len : UInt64) : Except LinkError (XBlockLinker × ChunkPtr) :=
  l.addChunk .align len 0

def allocRuntime (l : XBlockLinker) (size : UInt64) : Except LinkError (XBlockLinker × ChunkPtr) :=
  l.addChunk .data 0 size

def allocStream (l : XBlockLinker) (size : UInt64) :
    Except LinkError (XBlockLinker × ChunkPtr) := do
  let b ← l.getBlock
  if (l.blocks b).type = .runtime then
    .error (.thrown "XBlockLinker::AllocStream: Can't alloc data for a runtime xblock")
  else do
    let (l, chunk) ← l.allocRuntime size
    let l := { l with zone := Function.update l.zone l.linkerMode (l.zone l.linkerMode ++ [chunk]) }
    return (l.modifyChunk chunk fun c => { c with data := some (List.replicate size.toNat 0) },
      chunk)

def writeStream (l : XBlockLinker) (data : List UInt8) :
    Except LinkError (XBlockLinker × ChunkPtr) := do
  let (l, chunk) ← l.allocStream (UInt64.ofNat data.length)
  return (l.modifyChunk chunk fun c => { c with data := some data }, chunk)

/-- `value` is `POINTER_NEXT` afterwards; the terminator of the string is written with it. -/
def addXString (l : XBlockLinker) (val : List UInt8) : Except LinkError (XBlockLinker × ChunkPtr) :=
  l.writeStream (val ++ [0])

/-- The number of a script string, 0 for the null and the empty string. -/
def addScrString (l : XBlockLinker) (value : Option (List UInt8)) : XBlockLinker × UInt32 :=
  match value with
  | none => (l, 0)
  | some [] => (l, 0)
  | some str =>
    if str ∈ l.scrStrings then (l, UInt32.ofNat (l.scrStrings.idxOf str + 1))
    else ({ l with scrStrings := l.scrStrings ++ [str] },
      UInt32.ofNat (l.scrStrings.length + 1))

/-- `chunk->refs.push_back(ref)` of the code that fills the linker. -/
def addRef (l : XBlockLinker) (chunk : ChunkPtr) (ref : UInt64) : XBlockLinker :=
  l.modifyChunk chunk fun c => { c with refs := c.refs ++ [ref] }

end XBlockLinker

/-! ## Sizes and references -/

/-- A reference and the value stored there. -/
abbrev Patch := UInt64 × UInt64

/-- `utils::Aligned<size_t>`. -/
def aligned (ptr len : UInt64) : UInt64 := (ptr + (len - 1)) &&& ~~~(len - 1)

/-- `(size | (blockIndex << 60)) + 1`. -/
def packRef (blockIndex : Nat) (size : UInt64) : UInt64 :=
  (size ||| (UInt64.ofNat blockIndex <<< 60)) + 1

def applyRefs (chunk : LinkerDataChunk) (blockIndex : Nat) (size : UInt64) : List Patch :=
  chunk.refs.map fun ref => (ref, packRef blockIndex size)

/-- `LoadChunkSize`: the size after the chunks, and the patches made on the way. -/
def loadChunkSize (blockIndex : Nat) : List LinkerDataChunk → UInt64 → UInt64 × List Patch
  | [], size => (size, [])
  | chunk :: rest, size =>
    let next := match chunk.type with
      | .data => size + chunk.size
      | .align => aligned size chunk.align
      | .pop => size
      | .push => size
    let (final, patches) := loadChunkSize blockIndex rest next
    (final, applyRefs chunk blockIndex size ++ patches)

/-- The loop of `LoadChunkSizeTemp`; `lens` has the top of the stack in front. -/
def loadChunkSizeTempLoop (blockIndex : Nat) : List LinkerDataChunk → UInt64 → List UInt64 →
    UInt64 → Except LinkError (UInt64 × List Patch)
  | [], size, _, maxSize => .ok (if maxSize < size then size else maxSize, [])
  | chunk :: rest, size, lens, maxSize => do
    let (final, patches) ← match chunk.type with
      | .data => loadChunkSizeTempLoop blockIndex rest (size + chunk.size) lens maxSize
      | .align => loadChunkSizeTempLoop blockIndex rest (aligned size chunk.align) lens maxSize
      | .pop =>
        match lens with
        | [] => .error .emptyTop
        | top :: lens =>
          loadChunkSizeTempLoop blockIndex rest top lens (if maxSize < size then size else maxSize)
      | .push => loadChunkSizeTempLoop blockIndex rest size (size :: lens) maxSize
    return (final, applyRefs chunk blockIndex size ++ patches)

def loadChunkSizeTemp (blockIndex : Nat) (chunks : List LinkerDataChunk) (maxSize : UInt64) :
    Except LinkError (UInt64 × List Patch) :=
  loadChunkSizeTempLoop blockIndex chunks 0 [] maxSize

namespace XBlockLinker

/-- One turn of the loop of `Link`: the final size of block `i`. -/
def linkBlock (l : XBlockLinker) (i : Nat) : Except LinkError (UInt64 × List Patch) :=
  let block := l.blocks i
  match block.type with
  | .temp => do
    let (header, patches) ← loadChunkSizeTemp i (block.data .header) 0
    let (final, patches') ← loadChunkSizeTemp i (block.data .data) header
    return (final, patches ++ patches')
  | .runtime | .virtual =>
    let (header, patches) := loadChunkSize i (block.data .header) 0
    let (final, patches') := loadChunkSize i (block.data .data) header
    .ok (final, patches ++ patches')
  | .unknown =>
    if block.data .header ≠ [] ∨ block.data .data ≠ [] then
      .error (.thrown ("XBlockLinker::Link: block " ++ toString i ++
        " was used, but the type isn't known"))
    else .ok (block.finalSize, [])

/-- The final size and the patches of every block; a turn of the loop touches its block only. -/
def linkBlocks (l : XBlockLinker) : Except LinkError (List (UInt64 × List Patch)) :=
  (List.range l.numblocks).mapM l.linkBlock

structure Linked where
  linker : XBlockLinker
  sizes : List UInt64
  patches : List Patch

def link (l : XBlockLinker) : Except LinkError Linked :=
  if l.blockStack ≠ [] then
    .error (.thrown ("XBlockLinker::Link: block stack not empty " ++
      toString l.blockStack.length))
  else do
    let results ← l.linkBlocks
    let sizes := results.map (·.1)
    let blocks := fun i => { l.blocks i with finalSize := sizes.getD i (l.blocks i).finalSize }
    return ⟨{ l with blocks := blocks }, sizes, results.flatMap (·.2)⟩

end XBlockLinker

/-- `DB_GetOffsetData`: the block and the offset a reference stands for. -/
def dbGetOffsetData (ref : UInt64) : Nat × Nat :=
  (((ref - 1) >>> 60).toNat, ((ref - 1) &&& ~~~0xF000000000000000).toNat)

/-! ## Runs -/

/-- The operations of the linker and of the code that fills it. -/
inductive LinkerOp where
  | setMode (mode : LinkerMode)
  | setBlockType (block : Nat) (type : LinkerBlockType)
  | pushStream (block : Nat)
  | popStream
  | align (len : UInt64)
  | writeStream (data : List UInt8)
  | allocStream (size : UInt64)
  | allocRuntime (size : UInt64)
  | addXString (val : List UInt8)
  | addScrString (value : Option (List UInt8))
  | addRef (chunk : ChunkPtr) (ref : UInt64)
  | link
  deriving DecidableEq, Repr

def XBlockLinker.exec (l : XBlockLinker) : LinkerOp → Except LinkError XBlockLinker
  | .setMode mode => l.setMode mode
  | .setBlockType block type => l.setBlockType block type
  | .pushStream block => l.pushStream block
  | .popStream => l.popStream
  | .align len => (l.align len).map (·.1)
  | .writeStream data => (l.writeStream data).map (·.1)
  | .allocStream size => (l.allocStream size).map (·.1)
  | .allocRuntime size => (l.allocRuntime size).map (·.1)
  | .addXString val => (l.addXString val).map (·.1)
  | .addScrString value => .ok (l.addScrString value).1
  | .addRef chunk ref => .ok (l.addRef chunk ref)
  | .link => l.link.map (·.linker)

/-! ## The stream loader -/

/-- What a chunk asks of the loader. -/
inductive Item where
  | data (size : UInt64)
  | align (len : UInt64)
  deriving DecidableEq, Repr

/-- The next position without a bit of `len - 1`. -/
def alignUp (len : UInt64) (p : Nat) : Nat :=
  p + (len - 1).toNat - ((p + (len - 1).toNat) &&& (len - 1).toNat)

def Item.place : Item → Nat → Nat
  | .data size, p => p + size.toNat
  | .align len, p => alignUp len p

/-- The command that an operation emits. -/
def LinkerOp.command : LinkerOp → Option (Command Nat Item)
  | .pushStream block => some (.push block)
  | .popStream => some .pop
  | .align len => some (.put (.align len))
  | .writeStream data => some (.put (.data (UInt64.ofNat data.length)))
  | .allocStream size => some (.put (.data size))
  | .allocRuntime size => some (.put (.data size))
  | .addXString val => some (.put (.data (UInt64.ofNat (val ++ [0]).length)))
  | _ => none

/-- A linker with the commands it emitted in each mode, in the order of the calls. -/
structure Session where
  linker : XBlockLinker
  tape : LinkerMode → List (Command Nat Item)

/-- An operation that throws leaves the linker as it was. -/
def Session.step (s : Session) (op : LinkerOp) : Session :=
  match s.linker.exec op with
  | .error _ => s
  | .ok l =>
    let mode := s.linker.linkerMode
    ⟨l, match op.command with
      | none => s.tape
      | some c => Function.update s.tape mode (s.tape mode ++ [c])⟩

def Session.run (s : Session) (ops : List LinkerOp) : Session := ops.foldl Session.step s

/-- The loader on everything that was emitted, the header first. -/
def Session.replay (s : Session) : Option (Loader Nat) :=
  Loader.run Item.place (fun b => (s.linker.blocks b).type = .temp) .start
    (s.tape .header ++ s.tape .data)

/-- The references of the chunks, block by block, each with the block and the position at which
the loader meets its chunk. -/
def Session.references (s : Session) (loader : Loader Nat) : List (UInt64 × (Nat × Nat)) :=
  (List.range s.linker.numblocks).flatMap fun b =>
    let block := s.linker.blocks b
    ((block.data .header ++ block.data .data).zip (loader.starts b)).flatMap fun (chunk, start) =>
      chunk.refs.map (·, (b, start))

end Acts.Fastfile
