import Mathlib.Data.List.Basic
import Mathlib.Logic.Function.Basic
import Acts.Lib.Checked
import Acts.Lib.Memory

/-!
# The streams of a replay fastfile (`mw19_ff_stream.hpp`)

Eight blocks of reserved memory are filled from one input.  The active block is filled at the
cursor, which the native loaders share; a stack remembers the blocks that were active before.

* Addresses are natural numbers; a reservation is an address with a size.
* `stack` has the frame pushed last in front, `assets` the asset begun first.
* `bytes` is the memory that `Load` and `Insert` write and that an alias is read from.
-/

set_option autoImplicit false

namespace Acts.Mw19

/-- A `std::span` of memory. -/
structure Reservation where
  base : Nat
  size : Nat
  deriving DecidableEq, Repr

structure Frame where
  block : Fin 8
  start : Nat
  deriving DecidableEq, Repr

structure Streams where
  memory : Fin 8 → Reservation
  offsets : Fin 8 → Nat
  stack : List Frame
  assets : List (Fin 8 → Nat)
  input : List UInt8
  cursor : Nat
  block : Fin 8
  consumed : Nat
  shared : Nat
  bytes : Mem

namespace Streams

/-- Memory with a list of bytes written at an address. -/
def writeBytes (m : Mem) (a : Nat) (data : List UInt8) : Mem := fun x =>
  if a ≤ x ∧ x < a + data.length then data.getD (x - a) 0 else m x

/-! ## Cursor -/

def setOffset (s : Streams) (i : Fin 8) (offset : Nat) : Streams :=
  { s with offsets := Function.update s.offsets i offset }

def sync (s : Streams) : Except String Streams :=
  let m := s.memory s.block
  if s.cursor < m.base ∨ m.size < s.cursor - m.base then
    .error "Replay native stream cursor escaped its reservation"
  else .ok (s.setOffset s.block (s.cursor - m.base))

def publish (s : Streams) : Streams :=
  { s with cursor := (s.memory s.block).base + s.offsets s.block }

/-- The constructor. -/
def new (memory : Fin 8 → Reservation) (input : List UInt8) (bytes : Mem) : Streams :=
  publish ⟨memory, fun _ => 0, [], [], input, 0, 0, 0, 0, bytes⟩

def remaining (s : Streams) : Nat := s.input.length - s.consumed

def take (s : Streams) (size : Nat) : Except String Streams :=
  if s.remaining < size then .error "Truncated Replay file header"
  else .ok { s with consumed := s.consumed + size }

def check (s : Streams) (size : Nat) : Except String Streams := do
  let s ← s.sync
  if (s.memory s.block).size - s.offsets s.block < size then
    .error ("Replay stream reservation exhausted (block " ++ toString s.block.val ++ ", offset " ++
      toString (s.offsets s.block) ++ ", requested " ++ toString size ++ ", reserved " ++
      toString (s.memory s.block).size ++ ")")
  else .ok s

def advance (s : Streams) (size : Nat) : Except String Streams := do
  let s ← s.check size
  return (s.setOffset s.block (s.offsets s.block + size)).publish

/-- `(0 - cursor) & mask`. -/
def padding (cursor mask : Nat) : Nat := ((2 ^ 64 - cursor % 2 ^ 64) % 2 ^ 64) &&& mask

def align (s : Streams) (mask : Nat) : Except String Streams :=
  if 0xfffff < mask ∨ mask &&& (mask + 1) ≠ 0 then .error "Invalid Replay stream alignment"
  else do
    let s ← s.sync
    s.advance (padding s.cursor mask)

/-! ## Scopes -/

def push (s : Streams) (next : Nat) : Except String Streams :=
  if h : next < 8 ∧ s.stack.length < 64 then do
    let s ← s.sync
    return publish { s with
      stack := ⟨s.block, s.offsets ⟨next, h.1⟩⟩ :: s.stack, block := ⟨next, h.1⟩ }
  else .error "Invalid Replay stream push"

/-- The end of the active block: the temporary block rewinds, block 2 is aligned. -/
def leave (s : Streams) (previous : Frame) : Except String Streams :=
  if s.block = 1 then .ok (s.setOffset s.block previous.start)
  else if s.block = 2 then s.align 31
  else .ok s

def pop (s : Streams) : Except String Streams :=
  match s.stack with
  | [] => .error "Replay stream stack underflow"
  | previous :: rest => do
    let s ← s.sync
    let s ← s.leave previous
    return publish { s with stack := rest, block := previous.block }

def contains (s : Streams) (address size : Nat) : Bool :=
  decide (∃ i, (s.memory i).base ≤ address ∧ address - (s.memory i).base ≤ (s.memory i).size ∧
    size ≤ (s.memory i).size - (address - (s.memory i).base))

/-! ## Data -/

/-- What `Load` puts at the cursor: zeros in a runtime block, else the next bytes of the input. -/
def fill (s : Streams) (size : Nat) : Except String Streams :=
  if s.block = 4 then
    .ok { s with bytes := writeBytes s.bytes s.cursor (List.replicate size 0) }
  else if s.remaining < size then .error "Truncated Replay serialized stream"
  else .ok { s with
    bytes := writeBytes s.bytes s.cursor ((s.input.drop s.consumed).take size),
    consumed := s.consumed + size }

def load (s : Streams) (atStart : Bool) (destination size : Nat) : Except String Streams :=
  if atStart = false ∨ size = 0 then .ok s
  else do
    let s ← s.check size
    if destination ≠ s.cursor then .error "Replay Load_Stream destination differs from cursor"
    else do
      let s ← s.fill size
      s.advance size

/-- `String`, with the value of `*value`. -/
def string (s : Streams) (value : Nat) : Except String Streams :=
  if s.block = 4 then .error "Replay string in runtime stream"
  else
    match ((s.input.drop s.consumed).take 65536).findIdx? (· = 0) with
    | none => .error "Unterminated Replay string"
    | some last => do
      let s ← s.sync
      s.load true value (last + 1)

def beginAsset (s : Streams) : Except String Streams :=
  if 64 ≤ s.assets.length then .error "Replay asset nesting limit exceeded"
  else do
    let s ← s.sync
    return { s with assets := s.assets ++ [s.offsets] }

def endAsset (s : Streams) : Except String Streams :=
  if s.assets = [] then .error "Replay asset stack underflow"
  else do
    let s ← s.sync
    return { s with assets := s.assets.dropLast }

def sharedPush (s : Streams) : Except String Streams :=
  if 256 < s.shared + 1 then .error "Replay shared data nesting limit exceeded"
  else .ok { s with shared := s.shared + 1 }

def sharedPop (s : Streams) : Except String Streams :=
  if s.shared = 0 then .error "Replay shared data stack underflow"
  else .ok { s with shared := s.shared - 1 }

/-! ## Pointers -/

/-- The offset that a packed pointer stands for, relative offsets included. -/
def packedOffset (s : Streams) (packed : UInt64) (index : Fin 8) : Except String Nat :=
  let offset := (packed - 1).toNat % 2 ^ 32
  if packed &&& 0x1000000000 = 0 then .ok offset
  else
    match s.assets with
    | [] => .error "Replay relative offset outside an asset"
    | first :: _ => .ok ((offset + first index) % 2 ^ 64)

def resolve (s : Streams) (packed : UInt64) (isAlias : Bool) : Except String (Streams × Nat) := do
  let s ← s.sync
  let index := ((packed >>> 32) &&& 15).toNat
  if packed &&& ~~~0x1fffffffff ≠ 0 then .error "Invalid Replay packed pointer bits"
  else if h : index < 8 then do
    let offset ← s.packedOffset packed ⟨index, h⟩
    let m := s.memory ⟨index, h⟩
    if m.size ≤ offset ∨ (isAlias = true ∧ m.size - offset < 8) then
      .error ("Replay packed pointer outside stream reservation: block " ++ toString index ++
        ", offset " ++ toString offset ++ ", reserved " ++ toString m.size)
    else .ok (s, if isAlias then s.bytes.readLE (m.base + offset) 8 else m.base + offset)
  else .error "Invalid Replay packed stream index"

/-- A null pointer in block 5, and its address. -/
def insert (s : Streams) : Except String (Streams × Nat) := do
  let s ← s.push 5
  let s ← s.align 7
  let s ← s.check 8
  let result := s.cursor
  let s ← advance { s with bytes := s.bytes.writeLE result 0 8 } 8
  let s ← s.pop
  return (s, result)

/-- Data in the temporary block, and its address. -/
def temporary (s : Streams) (size alignment : Nat) : Except String (Streams × Nat) :=
  if alignment = 0 then .error "Zero temporary alignment"
  else do
    let s ← s.sync
    let s ← s.push 1
    let s ← s.align (alignment - 1)
    let result := s.cursor
    let s ← s.load true result size
    let s ← s.pop
    return (s, result)

def finish (s : Streams) : Except String Streams := do
  let s ← s.sync
  if s.stack ≠ [] ∨ s.assets ≠ [] ∨ s.shared ≠ 0 then .error "Unbalanced Replay loader stacks"
  else if s.remaining ≠ 0 then
    .error ("Replay loader left unread serialized bytes: " ++ toString s.remaining)
  else .ok s

end Streams

/-! ## Runs -/

inductive StreamOp where
  | take (size : Nat)
  | check (size : Nat)
  | advance (size : Nat)
  | align (mask : Nat)
  | push (next : Nat)
  | pop
  | load (atStart : Bool) (destination size : Nat)
  | string (value : Nat)
  | beginAsset
  | endAsset
  | sharedPush
  | sharedPop
  | resolve (packed : UInt64) (isAlias : Bool)
  | insert
  | temporary (size alignment : Nat)
  | finish
  deriving DecidableEq, Repr

namespace Streams

def exec (s : Streams) : StreamOp → Except String Streams
  | .take size => s.take size
  | .check size => s.check size
  | .advance size => s.advance size
  | .align mask => s.align mask
  | .push next => s.push next
  | .pop => s.pop
  | .load atStart destination size => s.load atStart destination size
  | .string value => s.string value
  | .beginAsset => s.beginAsset
  | .endAsset => s.endAsset
  | .sharedPush => s.sharedPush
  | .sharedPop => s.sharedPop
  | .resolve packed isAlias => (s.resolve packed isAlias).map (·.1)
  | .insert => s.insert.map (·.1)
  | .temporary size alignment => (s.temporary size alignment).map (·.1)
  | .finish => s.finish

/-- The operations one after the other, none of which throws. -/
def execAll (s : Streams) (ops : List StreamOp) : Except String Streams :=
  ops.foldlM exec s

end Streams

/-- Every block pushed is popped again. -/
inductive Balanced : List StreamOp → Prop where
  | nil : Balanced []
  | op {op : StreamOp} {rest : List StreamOp} (hpush : ∀ next, op ≠ .push next) (hpop : op ≠ .pop)
      (h : Balanced rest) : Balanced (op :: rest)
  | scope {next : Nat} {inner rest : List StreamOp} (hinner : Balanced inner)
      (hrest : Balanced rest) : Balanced (.push next :: (inner ++ .pop :: rest))

end Acts.Mw19
