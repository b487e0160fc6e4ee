import Acts.Fastfile.Vcdiff

/-!
# The bdiff decoder

The patch decoder of the fastfile tool, window by window, over explicit memory:

* `Buf` — a buffer at an address.  A pointer into it is an absolute address, so that pointer
  arithmetic on declared lengths wraps as `size_t` does; a read outside the buffer is `fault`.
* `readULEB128`, `addressDecode`, `memmove2` — the helpers of the window decoder.
* `instructions` — the code table, as listed.
* `execInstruction`, `execOpcode`, `execLoop` — the instruction loop.
* `DiffState` — the callbacks of the driver: source data, patch data, destination window.
* `bdiff` — one call: the file header the first time, then one window.

The two xxHash functions are a parameter (`Xxh`).
-/

set_option autoImplicit false

namespace Acts.Bdiff

/-- `%x`. -/
def hex (n : Nat) : String := String.ofList (Nat.toDigits 16 n)

/-! ## Memory -/

/-- Why a window is not decoded: `bdiff` returned false with `state->error`, a callback threw, or
the decoder touched memory outside its buffers. -/
inductive BdiffErr where
  | error (msg : String)
  | throw (msg : String)
  | fault
  deriving DecidableEq, Repr

/-- A buffer of the process. -/
structure Buf where
  base : Nat
  bytes : List UInt8
  fits : base + bytes.length < 2 ^ 64

/-- The bytes from pointer `p` to the end of the buffer. -/
def Buf.at (b : Buf) (p : Nat) : List UInt8 :=
  if b.base ≤ p then b.bytes.drop (p - b.base) else []

/-- Address arithmetic of the target machine. -/
def ptrAdd (p n : Nat) : Nat := (p + n) % 2 ^ 64

def ptrSub (p q : Nat) : Nat := (p + (2 ^ 64 - q)) % 2 ^ 64

/-- `*p`. -/
def readByte (b : Buf) (p : Nat) : Except BdiffErr UInt8 :=
  match b.at p with
  | c :: _ => .ok c
  | [] => .error .fault

/-- The `n` bytes at the start of a region. -/
def readN (region : List UInt8) (n : Nat) : Except BdiffErr (List UInt8) :=
  if n ≤ region.length then .ok (region.take n) else .error .fault

/-- Write `bytes` at offset `d` of a region. -/
def writeN (region : List UInt8) (d : Nat) (bytes : List UInt8) : Except BdiffErr (List UInt8) :=
  if d + bytes.length ≤ region.length
  then .ok (region.take d ++ bytes ++ region.drop (d + bytes.length)) else .error .fault

/-! ## Window helpers -/

structure VcdState where
  nextSlot : Nat
  anear : List Nat
  asame : List Nat
  pAddr : Nat

/-- `VcdState vcd{}`. -/
def VcdState.init (pAddr : Nat) : VcdState := ⟨0, List.replicate 4 0, List.replicate 768 0, pAddr⟩

def VCD_SELF : Nat := 0
def VCD_HERE : Nat := 1

/-- The loop of `ReadULEB128` at pointer `p`, over the bytes from there on. -/
def readULEB128From (output p : Nat) : List UInt8 → Except BdiffErr (Nat × Nat)
  | [] => .error .fault
  | c :: data =>
    let output := (output <<< 7) % 2 ^ 64 ||| (c.toNat &&& 0x7F)
    if c.toNat &&& 0x80 ≠ 0 then readULEB128From output (p + 1) data else .ok (output, p + 1)

/-- The value and the pointer after it. -/
def readULEB128 (b : Buf) (p : Nat) : Except BdiffErr (Nat × Nat) :=
  readULEB128From 0 p (b.at p)

/-- The address of a COPY before the caches are updated, and the pointer after it. -/
def decodeAddress (b : Buf) (vcd : VcdState) (here mode : Nat) : Except BdiffErr (Nat × Nat) :=
  if mode = VCD_SELF then readULEB128 b vcd.pAddr
  else if mode = VCD_HERE then do
    let (v, p) ← readULEB128 b vcd.pAddr
    pure (ptrSub here v, p)
  else if 6 ≤ mode then do
    let c ← readByte b vcd.pAddr
    pure (vcd.asame.getD ((mode - 6) <<< 8 + c.toNat) 0, vcd.pAddr + 1)
  else do
    let (v, p) ← readULEB128 b vcd.pAddr
    pure (ptrAdd (vcd.anear.getD (mode - 2) 0) v, p)

def addressDecode (b : Buf) (vcd : VcdState) (here mode : Nat) :
    Except BdiffErr (Nat × VcdState) := do
  let (address, pAddr) ← decodeAddress b vcd here mode
  pure (address,
    { nextSlot := (vcd.nextSlot + 1) &&& 3
      anear := vcd.anear.set vcd.nextSlot address
      asame := vcd.asame.set (address % 0x300) address
      pAddr })

/-- The byte loop of `memmove2` inside the destination window. -/
def moveForward (dest : List UInt8) (d src : Nat) : Nat → Except BdiffErr (List UInt8)
  | 0 => .ok dest
  | n + 1 =>
    match dest[src]? with
    | none => .error .fault
    | some c => if d < dest.length then moveForward (dest.set d c) (d + 1) (src + 1) n
        else .error .fault

/-- `memmove2` when both pointers are in the destination window. -/
def memmove2 (dest : List UInt8) (d src n : Nat) : Except BdiffErr (List UInt8) :=
  if d + n ≤ src ∨ src + n ≤ d then do
    let bytes ← readN (dest.drop src) n
    writeN dest d bytes
  else moveForward dest d src n

/-- `memmove2` from another buffer, which never overlaps. -/
def memmove2From (dest : List UInt8) (d : Nat) (src : List UInt8) (n : Nat) :
    Except BdiffErr (List UInt8) := do
  let bytes ← readN src n
  writeN dest d bytes

/-! ## The code table -/

inductive VCDInstructionCode where
  | noop | add | run | copy
  deriving DecidableEq, Repr

structure Instruction where
  op : VCDInstructionCode
  mode : Nat
  size : Nat
  deriving DecidableEq, Repr

structure DoubleInstruction where
  first : Instruction
  second : Instruction
  deriving DecidableEq, Repr

def instructions : List DoubleInstruction :=
  [⟨⟨.run, 0, 0⟩, ⟨.noop, 0, 0⟩⟩, ⟨⟨.add, 0, 0⟩, ⟨.noop, 0, 0⟩⟩, ⟨⟨.add, 0, 1⟩, ⟨.noop, 0, 0⟩⟩,
   ⟨⟨.add, 0, 2⟩, ⟨.noop, 0, 0⟩⟩, ⟨⟨.add, 0, 3⟩, ⟨.noop, 0, 0⟩⟩, ⟨⟨.add, 0, 4⟩, ⟨.noop, 0, 0⟩⟩,
   ⟨⟨.add, 0, 5⟩, ⟨.noop, 0, 0⟩⟩, ⟨⟨.add, 0, 6⟩, ⟨.noop, 0, 0⟩⟩, ⟨⟨.add, 0, 7⟩, ⟨.noop, 0, 0⟩⟩,
   ⟨⟨.add, 0, 8⟩, ⟨.noop, 0, 0⟩⟩, ⟨⟨.add, 0, 9⟩, ⟨.noop, 0, 0⟩⟩, ⟨⟨.add, 0, 10⟩, ⟨.noop, 0, 0⟩⟩,
   ⟨⟨.add, 0, 11⟩, ⟨.noop, 0, 0⟩⟩, ⟨⟨.add, 0, 12⟩, ⟨.noop, 0, 0⟩⟩,
   ⟨⟨.add, 0, 13⟩, ⟨.noop, 0, 0⟩⟩, ⟨⟨.add, 0, 14⟩, ⟨.noop, 0, 0⟩⟩,
   ⟨⟨.add, 0, 15⟩, ⟨.noop, 0, 0⟩⟩, ⟨⟨.add, 0, 16⟩, ⟨.noop, 0, 0⟩⟩,
   ⟨⟨.add, 0, 17⟩, ⟨.noop, 0, 0⟩⟩, ⟨⟨.copy, 0, 0⟩, ⟨.noop, 0, 0⟩⟩,
   ⟨⟨.copy, 0, 4⟩, ⟨.noop, 0, 0⟩⟩, ⟨⟨.copy, 0, 5⟩, ⟨.noop, 0, 0⟩⟩,
   ⟨⟨.copy, 0, 6⟩, ⟨.noop, 0, 0⟩⟩, ⟨⟨.copy, 0, 7⟩, ⟨.noop, 0, 0⟩⟩,
   ⟨⟨.copy, 0, 8⟩, ⟨.noop, 0, 0⟩⟩, ⟨⟨.copy, 0, 9⟩, ⟨.noop, 0, 0⟩⟩,
   ⟨⟨.copy, 0, 10⟩, ⟨.noop, 0, 0⟩⟩, ⟨⟨.copy, 0, 11⟩, ⟨.noop, 0, 0⟩⟩,
   ⟨⟨.copy, 0, 12⟩, ⟨.noop, 0, 0⟩⟩, ⟨⟨.copy, 0, 13⟩, ⟨.noop, 0, 0⟩⟩,
   ⟨⟨.copy, 0, 14⟩, ⟨.noop, 0, 0⟩⟩, ⟨⟨.copy, 0, 15⟩, ⟨.noop, 0, 0⟩⟩,
   ⟨⟨.copy, 0, 16⟩, ⟨.noop, 0, 0⟩⟩, ⟨⟨.copy, 0, 17⟩, ⟨.noop, 0, 0⟩⟩,
   ⟨⟨.copy, 0, 18⟩, ⟨.noop, 0, 0⟩⟩, ⟨⟨.copy, 1, 0⟩, ⟨.noop, 0, 0⟩⟩,
   ⟨⟨.copy, 1, 4⟩, ⟨.noop, 0, 0⟩⟩, ⟨⟨.copy, 1, 5⟩, ⟨.noop, 0, 0⟩⟩,
   ⟨⟨.copy, 1, 6⟩, ⟨.noop, 0, 0⟩⟩, ⟨⟨.copy, 1, 7⟩, ⟨.noop, 0, 0⟩⟩,
   ⟨⟨.copy, 1, 8⟩, ⟨.noop, 0, 0⟩⟩, ⟨⟨.copy, 1, 9⟩, ⟨.noop, 0, 0⟩⟩,
   ⟨⟨.copy, 1, 10⟩, ⟨.noop, 0, 0⟩⟩, ⟨⟨.copy, 1, 11⟩, ⟨.noop, 0, 0⟩⟩,
   ⟨⟨.copy, 1, 12⟩, ⟨.noop, 0, 0⟩⟩, ⟨⟨.copy, 1, 13⟩, ⟨.noop, 0, 0⟩⟩,
   ⟨⟨.copy, 1, 14⟩, ⟨.noop, 0, 0⟩⟩, ⟨⟨.copy, 1, 15⟩, ⟨.noop, 0, 0⟩⟩,
   ⟨⟨.copy, 1, 16⟩, ⟨.noop, 0, 0⟩⟩, ⟨⟨.copy, 1, 17⟩, ⟨.noop, 0, 0⟩⟩,
   ⟨⟨.copy, 1, 18⟩, ⟨.noop, 0, 0⟩⟩, ⟨⟨.copy, 2, 0⟩, ⟨.noop, 0, 0⟩⟩,
   ⟨⟨.copy, 2, 4⟩, ⟨.noop, 0, 0⟩⟩, ⟨⟨.copy, 2, 5⟩, ⟨.noop, 0, 0⟩⟩,
   ⟨⟨.copy, 2, 6⟩, ⟨.noop, 0, 0⟩⟩, ⟨⟨.copy, 2, 7⟩, ⟨.noop, 0, 0⟩⟩,
   ⟨⟨.copy, 2, 8⟩, ⟨.noop, 0, 0⟩⟩, ⟨⟨.copy, 2, 9⟩, ⟨.noop, 0, 0⟩⟩,
   ⟨⟨.copy, 2, 10⟩, ⟨.noop, 0, 0⟩⟩, ⟨⟨.copy, 2, 11⟩, ⟨.noop, 0, 0⟩⟩,
   ⟨⟨.copy, 2, 12⟩, ⟨.noop, 0, 0⟩⟩, ⟨⟨.copy, 2, 13⟩, ⟨.noop, 0, 0⟩⟩,
   ⟨⟨.copy, 2, 14⟩, ⟨.noop, 0, 0⟩⟩, ⟨⟨.copy, 2, 15⟩, ⟨.noop, 0, 0⟩⟩,
   ⟨⟨.copy, 2, 16⟩, ⟨.noop, 0, 0⟩⟩, ⟨⟨.copy, 2, 17⟩, ⟨.noop, 0, 0⟩⟩,
   ⟨⟨.copy, 2, 18⟩, ⟨.noop, 0, 0⟩⟩, ⟨⟨.copy, 3, 0⟩, ⟨.noop, 0, 0⟩⟩,
   ⟨⟨.copy, 3, 4⟩, ⟨.noop, 0, 0⟩⟩, ⟨⟨.copy, 3, 5⟩, ⟨.noop, 0, 0⟩⟩,
   ⟨⟨.copy, 3, 6⟩, ⟨.noop, 0, 0⟩⟩, ⟨⟨.copy, 3, 7⟩, ⟨.noop, 0, 0⟩⟩,
   ⟨⟨.copy, 3, 8⟩, ⟨.noop, 0, 0⟩⟩, ⟨⟨.copy, 3, 9⟩, ⟨.noop, 0, 0⟩⟩,
   ⟨⟨.copy, 3, 10⟩, ⟨.noop, 0, 0⟩⟩, ⟨⟨.copy, 3, 11⟩, ⟨.noop, 0, 0⟩⟩,
   ⟨⟨.copy, 3, 12⟩, ⟨.noop, 0, 0⟩⟩, ⟨⟨.copy, 3, 13⟩, ⟨.noop, 0, 0⟩⟩,
   ⟨⟨.copy, 3, 14⟩, ⟨.noop, 0, 0⟩⟩, ⟨⟨.copy, 3, 15⟩, ⟨.noop, 0, 0⟩⟩,
   ⟨⟨.copy, 3, 16⟩, ⟨.noop, 0, 0⟩⟩, ⟨⟨.copy, 3, 17⟩, ⟨.noop, 0, 0⟩⟩,
   ⟨⟨.copy, 3, 18⟩, ⟨.noop, 0, 0⟩⟩, ⟨⟨.copy, 4, 0⟩, ⟨.noop, 0, 0⟩⟩,
   ⟨⟨.copy, 4, 4⟩, ⟨.noop, 0, 0⟩⟩, ⟨⟨.copy, 4, 5⟩, ⟨.noop, 0, 0⟩⟩,
   ⟨⟨.copy, 4, 6⟩, ⟨.noop, 0, 0⟩⟩, ⟨⟨.copy, 4, 7⟩, ⟨.noop, 0, 0⟩⟩,
   ⟨⟨.copy, 4, 8⟩, ⟨.noop, 0, 0⟩⟩, ⟨⟨.copy, 4, 9⟩, ⟨.noop, 0, 0⟩⟩,
   ⟨⟨.copy, 4, 10⟩, ⟨.noop, 0, 0⟩⟩, ⟨⟨.copy, 4, 11⟩, ⟨.noop, 0, 0⟩⟩,
   ⟨⟨.copy, 4, 12⟩, ⟨.noop, 0, 0⟩⟩, ⟨⟨.copy, 4, 13⟩, ⟨.noop, 0, 0⟩⟩,
   ⟨⟨.copy, 4, 14⟩, ⟨.noop, 0, 0⟩⟩, ⟨⟨.copy, 4, 15⟩, ⟨.noop, 0, 0⟩⟩,
   ⟨⟨.copy, 4, 16⟩, ⟨.noop, 0, 0⟩⟩, ⟨⟨.copy, 4, 17⟩, ⟨.noop, 0, 0⟩⟩,
   ⟨⟨.copy, 4, 18⟩, ⟨.noop, 0, 0⟩⟩, ⟨⟨.copy, 5, 0⟩, ⟨.noop, 0, 0⟩⟩,
   ⟨⟨.copy, 5, 4⟩, ⟨.noop, 0, 0⟩⟩, ⟨⟨.copy, 5, 5⟩, ⟨.noop, 0, 0⟩⟩,
   ⟨⟨.copy, 5, 6⟩, ⟨.noop, 0, 0⟩⟩, ⟨⟨.copy, 5, 7⟩, ⟨.noop, 0, 0⟩⟩,
   ⟨⟨.copy, 5, 8⟩, ⟨.noop, 0, 0⟩⟩, ⟨⟨.copy, 5, 9⟩, ⟨.noop, 0, 0⟩⟩,
   ⟨⟨.copy, 5, 10⟩, ⟨.noop, 0, 0⟩⟩, ⟨⟨.copy, 5, 11⟩, ⟨.noop, 0, 0⟩⟩,
   ⟨⟨.copy, 5, 12⟩, ⟨.noop, 0, 0⟩⟩, ⟨⟨.copy, 5, 13⟩, ⟨.noop, 0, 0⟩⟩,
   ⟨⟨.copy, 5, 14⟩, ⟨.noop, 0, 0⟩⟩, ⟨⟨.copy, 5, 15⟩, ⟨.noop, 0, 0⟩⟩,
   ⟨⟨.copy, 5, 16⟩, ⟨.noop, 0, 0⟩⟩, ⟨⟨.copy, 5, 17⟩, ⟨.noop, 0, 0⟩⟩,
   ⟨⟨.copy, 5, 18⟩, ⟨.noop, 0, 0⟩⟩, ⟨⟨.copy, 6, 0⟩, ⟨.noop, 0, 0⟩⟩,
   ⟨⟨.copy, 6, 4⟩, ⟨.noop, 0, 0⟩⟩, ⟨⟨.copy, 6, 5⟩, ⟨.noop, 0, 0⟩⟩,
   ⟨⟨.copy, 6, 6⟩, ⟨.noop, 0, 0⟩⟩, ⟨⟨.copy, 6, 7⟩, ⟨.noop, 0, 0⟩⟩,
   ⟨⟨.copy, 6, 8⟩, ⟨.noop, 0, 0⟩⟩, ⟨⟨.copy, 6, 9⟩, ⟨.noop, 0, 0⟩⟩,
   ⟨⟨.copy, 6, 10⟩, ⟨.noop, 0, 0⟩⟩, ⟨⟨.copy, 6, 11⟩, ⟨.noop, 0, 0⟩⟩,
   ⟨⟨.copy, 6, 12⟩, ⟨.noop, 0, 0⟩⟩, ⟨⟨.copy, 6, 13⟩, ⟨.noop, 0, 0⟩⟩,
   ⟨⟨.copy, 6, 14⟩, ⟨.noop, 0, 0⟩⟩, ⟨⟨.copy, 6, 15⟩, ⟨.noop, 0, 0⟩⟩,
   ⟨⟨.copy, 6, 16⟩, ⟨.noop, 0, 0⟩⟩, ⟨⟨.copy, 6, 17⟩, ⟨.noop, 0, 0⟩⟩,
   ⟨⟨.copy, 6, 18⟩, ⟨.noop, 0, 0⟩⟩, ⟨⟨.copy, 7, 0⟩, ⟨.noop, 0, 0⟩⟩,
   ⟨⟨.copy, 7, 4⟩, ⟨.noop, 0, 0⟩⟩, ⟨⟨.copy, 7, 5⟩, ⟨.noop, 0, 0⟩⟩,
   ⟨⟨.copy, 7, 6⟩, ⟨.noop, 0, 0⟩⟩, ⟨⟨.copy, 7, 7⟩, ⟨.noop, 0, 0⟩⟩,
   ⟨⟨.copy, 7, 8⟩, ⟨.noop, 0, 0⟩⟩, ⟨⟨.copy, 7, 9⟩, ⟨.noop, 0, 0⟩⟩,
   ⟨⟨.copy, 7, 10⟩, ⟨.noop, 0, 0⟩⟩, ⟨⟨.copy, 7, 11⟩, ⟨.noop, 0, 0⟩⟩,
   ⟨⟨.copy, 7, 12⟩, ⟨.noop, 0, 0⟩⟩, ⟨⟨.copy, 7, 13⟩, ⟨.noop, 0, 0⟩⟩,
   ⟨⟨.copy, 7, 14⟩, ⟨.noop, 0, 0⟩⟩, ⟨⟨.copy, 7, 15⟩, ⟨.noop, 0, 0⟩⟩,
   ⟨⟨.copy, 7, 16⟩, ⟨.noop, 0, 0⟩⟩, ⟨⟨.copy, 7, 17⟩, ⟨.noop, 0, 0⟩⟩,
   ⟨⟨.copy, 7, 18⟩, ⟨.noop, 0, 0⟩⟩, ⟨⟨.copy, 8, 0⟩, ⟨.noop, 0, 0⟩⟩,
   ⟨⟨.copy, 8, 4⟩, ⟨.noop, 0, 0⟩⟩, ⟨⟨.copy, 8, 5⟩, ⟨.noop, 0, 0⟩⟩,
   ⟨⟨.copy, 8, 6⟩, ⟨.noop, 0, 0⟩⟩, ⟨⟨.copy, 8, 7⟩, ⟨.noop, 0, 0⟩⟩,
   ⟨⟨.copy, 8, 8⟩, ⟨.noop, 0, 0⟩⟩, ⟨⟨.copy, 8, 9⟩, ⟨.noop, 0, 0⟩⟩,
   ⟨⟨.copy, 8, 10⟩, ⟨.noop, 0, 0⟩⟩, ⟨⟨.copy, 8, 11⟩, ⟨.noop, 0, 0⟩⟩,
   ⟨⟨.copy, 8, 12⟩, ⟨.noop, 0, 0⟩⟩, ⟨⟨.copy, 8, 13⟩, ⟨.noop, 0, 0⟩⟩,
   ⟨⟨.copy, 8, 14⟩, ⟨.noop, 0, 0⟩⟩, ⟨⟨.copy, 8, 15⟩, ⟨.noop, 0, 0⟩⟩,
   ⟨⟨.copy, 8, 16⟩, ⟨.noop, 0, 0⟩⟩, ⟨⟨.copy, 8, 17⟩, ⟨.noop, 0, 0⟩⟩,
   ⟨⟨.copy, 8, 18⟩, ⟨.noop, 0, 0⟩⟩, ⟨⟨.add, 0, 1⟩, ⟨.copy, 0, 4⟩⟩, ⟨⟨.add, 0, 1⟩, ⟨.copy, 0, 5⟩⟩,
   ⟨⟨.add, 0, 1⟩, ⟨.copy, 0, 6⟩⟩, ⟨⟨.add, 0, 2⟩, ⟨.copy, 0, 4⟩⟩, ⟨⟨.add, 0, 2⟩, ⟨.copy, 0, 5⟩⟩,
   ⟨⟨.add, 0, 2⟩, ⟨.copy, 0, 6⟩⟩, ⟨⟨.add, 0, 3⟩, ⟨.copy, 0, 4⟩⟩, ⟨⟨.add, 0, 3⟩, ⟨.copy, 0, 5⟩⟩,
   ⟨⟨.add, 0, 3⟩, ⟨.copy, 0, 6⟩⟩, ⟨⟨.add, 0, 4⟩, ⟨.copy, 0, 4⟩⟩, ⟨⟨.add, 0, 4⟩, ⟨.copy, 0, 5⟩⟩,
   ⟨⟨.add, 0, 4⟩, ⟨.copy, 0, 6⟩⟩, ⟨⟨.add, 0, 1⟩, ⟨.copy, 1, 4⟩⟩, ⟨⟨.add, 0, 1⟩, ⟨.copy, 1, 5⟩⟩,
   ⟨⟨.add, 0, 1⟩, ⟨.copy, 1, 6⟩⟩, ⟨⟨.add, 0, 2⟩, ⟨.copy, 1, 4⟩⟩, ⟨⟨.add, 0, 2⟩, ⟨.copy, 1, 5⟩⟩,
   ⟨⟨.add, 0, 2⟩, ⟨.copy, 1, 6⟩⟩, ⟨⟨.add, 0, 3⟩, ⟨.copy, 1, 4⟩⟩, ⟨⟨.add, 0, 3⟩, ⟨.copy, 1, 5⟩⟩,
   ⟨⟨.add, 0, 3⟩, ⟨.copy, 1, 6⟩⟩, ⟨⟨.add, 0, 4⟩, ⟨.copy, 1, 4⟩⟩, ⟨⟨.add, 0, 4⟩, ⟨.copy, 1, 5⟩⟩,
   ⟨⟨.add, 0, 4⟩, ⟨.copy, 1, 6⟩⟩, ⟨⟨.add, 0, 1⟩, ⟨.copy, 2, 4⟩⟩, ⟨⟨.add, 0, 1⟩, ⟨.copy, 2, 5⟩⟩,
   ⟨⟨.add, 0, 1⟩, ⟨.copy, 2, 6⟩⟩, ⟨⟨.add, 0, 2⟩, ⟨.copy, 2, 4⟩⟩, ⟨⟨.add, 0, 2⟩, ⟨.copy, 2, 5⟩⟩,
   ⟨⟨.add, 0, 2⟩, ⟨.copy, 2, 6⟩⟩, ⟨⟨.add, 0, 3⟩, ⟨.copy, 2, 4⟩⟩, ⟨⟨.add, 0, 3⟩, ⟨.copy, 2, 5⟩⟩,
   ⟨⟨.add, 0, 3⟩, ⟨.copy, 2, 6⟩⟩, ⟨⟨.add, 0, 4⟩, ⟨.copy, 2, 4⟩⟩, ⟨⟨.add, 0, 4⟩, ⟨.copy, 2, 5⟩⟩,
   ⟨⟨.add, 0, 4⟩, ⟨.copy, 2, 6⟩⟩, ⟨⟨.add, 0, 1⟩, ⟨.copy, 3, 4⟩⟩, ⟨⟨.add, 0, 1⟩, ⟨.copy, 3, 5⟩⟩,
   ⟨⟨.add, 0, 1⟩, ⟨.copy, 3, 6⟩⟩, ⟨⟨.add, 0, 2⟩, ⟨.copy, 3, 4⟩⟩, ⟨⟨.add, 0, 2⟩, ⟨.copy, 3, 5⟩⟩,
   ⟨⟨.add, 0, 2⟩, ⟨.copy, 3, 6⟩⟩, ⟨⟨.add, 0, 3⟩, ⟨.copy, 3, 4⟩⟩, ⟨⟨.add, 0, 3⟩, ⟨.copy, 3, 5⟩⟩,
   ⟨⟨.add, 0, 3⟩, ⟨.copy, 3, 6⟩⟩, ⟨⟨.add, 0, 4⟩, ⟨.copy, 3, 4⟩⟩, ⟨⟨.add, 0, 4⟩, ⟨.copy, 3, 5⟩⟩,
   ⟨⟨.add, 0, 4⟩, ⟨.copy, 3, 6⟩⟩, ⟨⟨.add, 0, 1⟩, ⟨.copy, 4, 4⟩⟩, ⟨⟨.add, 0, 1⟩, ⟨.copy, 4, 5⟩⟩,
   ⟨⟨.add, 0, 1⟩, ⟨.copy, 4, 6⟩⟩, ⟨⟨.add, 0, 2⟩, ⟨.copy, 4, 4⟩⟩, ⟨⟨.add, 0, 2⟩, ⟨.copy, 4, 5⟩⟩,
   ⟨⟨.add, 0, 2⟩, ⟨.copy, 4, 6⟩⟩, ⟨⟨.add, 0, 3⟩, ⟨.copy, 4, 4⟩⟩, ⟨⟨.add, 0, 3⟩, ⟨.copy, 4, 5⟩⟩,
   ⟨⟨.add, 0, 3⟩, ⟨.copy, 4, 6⟩⟩, ⟨⟨.add, 0, 4⟩, ⟨.copy, 4, 4⟩⟩, ⟨⟨.add, 0, 4⟩, ⟨.copy, 4, 5⟩⟩,
   ⟨⟨.add, 0, 4⟩, ⟨.copy, 4, 6⟩⟩, ⟨⟨.add, 0, 1⟩, ⟨.copy, 5, 4⟩⟩, ⟨⟨.add, 0, 1⟩, ⟨.copy, 5, 5⟩⟩,
   ⟨⟨.add, 0, 1⟩, ⟨.copy, 5, 6⟩⟩, ⟨⟨.add, 0, 2⟩, ⟨.copy, 5, 4⟩⟩, ⟨⟨.add, 0, 2⟩, ⟨.copy, 5, 5⟩⟩,
   ⟨⟨.add, 0, 2⟩, ⟨.copy, 5, 6⟩⟩, ⟨⟨.add, 0, 3⟩, ⟨.copy, 5, 4⟩⟩, ⟨⟨.add, 0, 3⟩, ⟨.copy, 5, 5⟩⟩,
   ⟨⟨.add, 0, 3⟩, ⟨.copy, 5, 6⟩⟩, ⟨⟨.add, 0, 4⟩, ⟨.copy, 5, 4⟩⟩, ⟨⟨.add, 0, 4⟩, ⟨.copy, 5, 5⟩⟩,
   ⟨⟨.add, 0, 4⟩, ⟨.copy, 5, 6⟩⟩, ⟨⟨.add, 0, 1⟩, ⟨.copy, 6, 4⟩⟩, ⟨⟨.add, 0, 2⟩, ⟨.copy, 6, 4⟩⟩,
   ⟨⟨.add, 0, 3⟩, ⟨.copy, 6, 4⟩⟩, ⟨⟨.add, 0, 4⟩, ⟨.copy, 6, 4⟩⟩, ⟨⟨.add, 0, 1⟩, ⟨.copy, 7, 4⟩⟩,
   ⟨⟨.add, 0, 2⟩, ⟨.copy, 7, 4⟩⟩, ⟨⟨.add, 0, 3⟩, ⟨.copy, 7, 4⟩⟩, ⟨⟨.add, 0, 4⟩, ⟨.copy, 7, 4⟩⟩,
   ⟨⟨.add, 0, 1⟩, ⟨.copy, 8, 4⟩⟩, ⟨⟨.add, 0, 2⟩, ⟨.copy, 8, 4⟩⟩, ⟨⟨.add, 0, 3⟩, ⟨.copy, 8, 4⟩⟩,
   ⟨⟨.add, 0, 4⟩, ⟨.copy, 8, 4⟩⟩, ⟨⟨.copy, 0, 4⟩, ⟨.add, 0, 1⟩⟩, ⟨⟨.copy, 1, 4⟩, ⟨.add, 0, 1⟩⟩,
   ⟨⟨.copy, 2, 4⟩, ⟨.add, 0, 1⟩⟩, ⟨⟨.copy, 3, 4⟩, ⟨.add, 0, 1⟩⟩, ⟨⟨.copy, 4, 4⟩, ⟨.add, 0, 1⟩⟩,
   ⟨⟨.copy, 5, 4⟩, ⟨.add, 0, 1⟩⟩, ⟨⟨.copy, 6, 4⟩, ⟨.add, 0, 1⟩⟩, ⟨⟨.copy, 7, 4⟩, ⟨.add, 0, 1⟩⟩,
   ⟨⟨.copy, 8, 4⟩, ⟨.add, 0, 1⟩⟩]

/-! ## The instruction loop -/

/-- What the loop does not change: the patch buffer, the source buffer, the segment in it (its
offset, when a segment was loaded) and the segment's length. -/
structure WindowEnv where
  patch : Buf
  source : List UInt8
  sourceSegment : Option Nat
  sourceSegmentOffset : Nat

/-- The variables of the loop; `dest` is the destination window and `patchDest` an offset in it. -/
structure WindowState where
  vcd : VcdState
  instructionData : Nat
  patchData : Nat
  dest : List UInt8
  patchDest : Nat

/-- `ilen`: the size in the table, or the one in the stream. -/
def instructionLength (env : WindowEnv) (s : WindowState) (inst : Instruction) :
    Except BdiffErr (Nat × Nat) :=
  if inst.size = 0 ∧ inst.op ≠ .noop then readULEB128 env.patch s.instructionData
  else .ok (inst.size, s.instructionData)

/-- The bytes a COPY of `ilen` bytes from `address` is moved from. -/
def execCopy (env : WindowEnv) (dest : List UInt8) (patchDest address ilen : Nat) :
    Except BdiffErr (List UInt8) :=
  if address < env.sourceSegmentOffset then
    match env.sourceSegment with
    | none => .error (.error "Missing source segment")
    | some seg => memmove2From dest patchDest (env.source.drop (seg + address)) ilen
  else memmove2 dest patchDest (address - env.sourceSegmentOffset) ilen

def execInstruction (env : WindowEnv) (s : WindowState) (inst : Instruction) :
    Except BdiffErr WindowState := do
  let (ilen, instructionData) ← instructionLength env s inst
  match inst.op with
  | .noop => pure { s with instructionData }
  | .add =>
    let bytes ← readN (env.patch.at s.patchData) ilen
    let dest ← writeN s.dest s.patchDest bytes
    pure { s with instructionData, dest, patchData := s.patchData + ilen,
                  patchDest := s.patchDest + ilen }
  | .run =>
    let runchar ← readByte env.patch s.patchData
    let dest ← writeN s.dest s.patchDest (List.replicate ilen runchar)
    pure { s with instructionData, dest, patchData := s.patchData + 1,
                  patchDest := s.patchDest + ilen }
  | .copy =>
    let (address, vcd) ← addressDecode env.patch s.vcd
      (ptrAdd env.sourceSegmentOffset s.patchDest) inst.mode
    let dest ← execCopy env s.dest s.patchDest address ilen
    pure { s with instructionData, vcd, dest, patchDest := s.patchDest + ilen }

/-- One opcode of the stream. -/
def execOpcode (env : WindowEnv) (s : WindowState) : Except BdiffErr WindowState := do
  let opcode ← readByte env.patch s.instructionData
  match instructions[opcode.toNat]? with
  | none => .error .fault
  | some dinst =>
    let s ← execInstruction env { s with instructionData := s.instructionData + 1 } dinst.first
    execInstruction env s dinst.second

/-- `while (instructionData < instructionDataEnd)`; every opcode reads at least one byte of the
patch buffer, so its length bounds the number of turns. -/
def execLoop (env : WindowEnv) (instructionDataEnd : Nat) (s : WindowState) :
    Nat → Except BdiffErr WindowState
  | 0 => if s.instructionData < instructionDataEnd then .error .fault else .ok s
  | fuel + 1 =>
    if s.instructionData < instructionDataEnd then do
      let s ← execOpcode env s
      execLoop env instructionDataEnd s fuel
    else .ok s

/-! ## The callbacks of the driver -/

/-- `DiffState`: the file buffers, the destination window and what was produced so far. -/
structure DiffState where
  sourceData : Buf
  patchData : Buf
  tmpPatch : Nat
  tmpFits : tmpPatch + 0x405 < 2 ^ 64
  outwindow : List UInt8
  patchWindowOffsetLast : Nat
  destWindowLastSize : Nat
  destdata : List UInt8

/-- `ByteBuffer::CanRead` at position `pointer`. -/
def canRead (len pointer size : Nat) : Bool := decide ((pointer + size) % 2 ^ 64 ≤ len)

/-- `ByteBuffer::Goto`. -/
def goto (len loc : Nat) : Except BdiffErr Unit :=
  if len < loc then .error (.throw s!"Goto after end 0x{hex loc} > 0x{hex len}") else .ok ()

/-- The offset in the source data the returned pointer stands at. -/
def loadSourceData (d : DiffState) (offset size : Nat) : Except BdiffErr Nat := do
  goto d.sourceData.bytes.length offset
  if canRead d.sourceData.bytes.length offset size then pure offset
  else .error (.throw s!"vcSourceCB_t: read too much at 0x{hex offset}/0x{hex size}")

/-- The temporary patch buffer after the rest of the patch from `offset` was read into it. -/
def tmpPatchBuf (d : DiffState) (offset : Nat) : Buf where
  base := d.tmpPatch
  bytes := (d.patchData.bytes.drop offset ++ List.replicate 0x405 0).take 0x405
  fits := by
    have h := d.tmpFits
    simp only [List.length_take, List.length_append, List.length_replicate]
    omega

/-- The returned pointer with the buffer it points into, `*pOffset` and the new state. -/
def loadPatchData (d : DiffState) (offset size : Nat) :
    Except BdiffErr (Buf × Nat × Nat × DiffState) := do
  let offset := if offset ≠ 0 then offset else d.patchWindowOffsetLast
  let d := { d with patchWindowOffsetLast := offset }
  goto d.patchData.bytes.length offset
  if canRead d.patchData.bytes.length offset size then
    pure (d.patchData, d.patchData.base + offset, offset, d)
  else if size ≤ 0x405 then pure (tmpPatchBuf d offset, d.tmpPatch, offset, d)
  else .error (.throw s!"vcDiffCB_t: read too much at 0x{hex offset}/0x{hex size}")

def syncData (d : DiffState) : DiffState :=
  if d.destWindowLastSize = 0 then d
  else { d with destdata := d.destdata ++ d.outwindow.take d.destWindowLastSize,
                destWindowLastSize := 0 }

/-- The destination window is `outwindow` of the new state; growing a vector past its maximal
size throws. -/
def loadDestData (d : DiffState) (size : Nat) : Except BdiffErr DiffState :=
  let d := { syncData d with destWindowLastSize := size }
  if d.outwindow.length < size then
    if size < 2 ^ 63 then
      .ok { d with outwindow := d.outwindow ++ List.replicate (size - d.outwindow.length) 0 }
    else .error (.throw "vector too long")
  else .ok d

/-! ## One window -/

/-- `BDiffType`. -/
inductive BDiffType where
  | unknown | treyarch | iw
  deriving DecidableEq, Repr

structure BDiffState where
  headerRead : Bool
  type : BDiffType
  lastChecksum : UInt32

/-- The hash functions of the checksums. -/
structure Xxh where
  xxh32 : List UInt8 → UInt32 → UInt32
  xxh64 : List UInt8 → UInt64 → UInt64

def VCDF_MASK12 : Nat := 3
def VCDF_SOURCE_SEGMENT_RELATIVE : Nat := 4
def VCDF_CHECKSUM : Nat := 8

/-- The file header, read before the first window. -/
def readFileHeader (state : BDiffState) (d : DiffState) :
    Except BdiffErr (BDiffState × DiffState) :=
  if state.headerRead then .ok (state, d) else do
    let (b, header, _, d) ← loadPatchData d 0 0x405
    let h0 ← readByte b header
    let h1 ← readByte b (header + 1)
    let h2 ← readByte b (header + 2)
    if h0 ≠ 0xD6 ∨ h1 ≠ 0xC3 ∨ h2 ≠ 0xC4 then .error (.error "Invalid magic")
    let h4 ← readByte b (header + 4)
    if h4.toNat &&& 0xF3 ≠ 0 then .error (.error "Invalid header")
    let (_, _, _, d) ← loadPatchData d 5 0
    pure ({ state with headerRead := true }, d)

/-- The source segment a window names: its offset in the source data (when it names one), its
length, and the pointer after its description. -/
def readSourceSegment (d : DiffState) (b : Buf) (flags bdiffData : Nat) :
    Except BdiffErr (Option Nat × Nat × Nat) :=
  if flags &&& VCDF_MASK12 = 0 then .ok (none, 0, bdiffData) else do
    let (sourceSegmentOffset, p) ← readULEB128 b bdiffData
    let (sourceSegmentLocationEx, p) ← readULEB128 b p
    let (sourceSegmentLocation, p) ←
      if flags &&& VCDF_SOURCE_SEGMENT_RELATIVE ≠ 0 then readULEB128 b p
      else .ok (sourceSegmentLocationEx, p)
    let sourceSegmentStart := ptrSub sourceSegmentLocationEx sourceSegmentLocation
    let loc ← loadSourceData d sourceSegmentLocation
      (ptrAdd sourceSegmentStart sourceSegmentOffset)
    pure (some (ptrAdd loc sourceSegmentStart), sourceSegmentOffset, p)

/-- `*(uint32_t*)p`. -/
def readU32 (b : Buf) (p : Nat) : Except BdiffErr UInt32 := do
  let bytes ← readN (b.at p) 4
  pure (bytes.foldr (fun c v => v * 256 + c.toUInt32) 0)

def corrupt (realChecksum calculatedChecksum : UInt32) (last : String) : BdiffErr :=
  .error ("Data is corrupt. " ++ hex realChecksum.toNat ++ " != " ++
    hex calculatedChecksum.toNat ++ last)

/-- The checksum after the window, when the flag asks for it: the new state and the pointer after
it. -/
def checkChecksum (xxh : Xxh) (state : BDiffState) (b : Buf) (flags instructionCheck : Nat)
    (target : List UInt8) : Except BdiffErr (BDiffState × Nat) :=
  if flags &&& VCDF_CHECKSUM = 0 then .ok (state, instructionCheck) else do
    let realChecksum ← readU32 b instructionCheck
    match state.type with
    | .treyarch =>
      let calculatedChecksum := xxh.xxh32 target 0
      if calculatedChecksum ≠ realChecksum then
        .error (corrupt realChecksum calculatedChecksum "")
    | .iw =>
      let xxh64 := xxh.xxh64 target state.lastChecksum.toUInt64
      let calculatedChecksum := (xxh64 ^^^ (xxh64 >>> 32)).toUInt32
      if calculatedChecksum ≠ realChecksum then
        .error (corrupt realChecksum calculatedChecksum
          (" (last=" ++ hex state.lastChecksum.toNat ++ ")"))
    | .unknown => pure ()
    pure ({ state with lastChecksum := realChecksum }, ptrAdd instructionCheck 4)

/-- What the header of the delta encoding says: the length of the target window and where the
data, instruction and address sections are. -/
structure DeltaHeader where
  patchDestLen : Nat
  patchData : Nat
  instructionOffset : Nat
  instructionSize : Nat
  instructionCheckOffset : Nat

/-- The header after the target length, which `bdiff` reads before it asks for the window. -/
def readDeltaHeader (b : Buf) (patchDestLen p : Nat) : Except BdiffErr DeltaHeader := do
  let indicator ← readByte b p
  if indicator ≠ 0 then .error (.error "Invalid patch data")
  let (instructionOffset, p) ← readULEB128 b (p + 1)
  let (instructionSize, p) ← readULEB128 b p
  let (instructionCheckOffset, p) ← readULEB128 b p
  pure ⟨patchDestLen, p, instructionOffset, instructionSize, instructionCheckOffset⟩

/-- The delta encoding of a window, at `patchDataStart` of buffer `b` (offset `offset` of the
patch). -/
def bdiffDelta (xxh : Xxh) (state : BDiffState) (d : DiffState) (b : Buf)
    (flags patchDataStart offset : Nat) (sourceSegment : Option Nat) (sourceSegmentOffset : Nat) :
    Except BdiffErr (BDiffState × DiffState) := do
  let (patchDestLen, p) ← readULEB128 b patchDataStart
  let d ← loadDestData d patchDestLen
  if d.outwindow = [] then .error (.error "No patch data destination")
  let h ← readDeltaHeader b patchDestLen p
  let instructionData := ptrAdd h.patchData h.instructionOffset
  let instructionDataEnd := ptrAdd h.patchData (ptrAdd h.instructionOffset h.instructionSize)
  let instructionCheck := ptrAdd instructionDataEnd h.instructionCheckOffset
  let w ← execLoop ⟨b, d.sourceData.bytes, sourceSegment, sourceSegmentOffset⟩ instructionDataEnd
    ⟨VcdState.init instructionDataEnd, instructionData, h.patchData, d.outwindow, 0⟩
    b.bytes.length
  let d := { d with outwindow := w.dest }
  let (state, instructionCheck) ← checkChecksum xxh state b flags instructionCheck
    (w.dest.take patchDestLen)
  let (_, _, _, d) ← loadPatchData d (ptrAdd (ptrSub instructionCheck patchDataStart) offset) 0
  pure (state, d)

/-- One window, from the state after the file header. -/
def bdiffWindow (xxh : Xxh) (state : BDiffState) (d : DiffState) :
    Except BdiffErr (BDiffState × DiffState) := do
  let (b, bdiffDataStart, offset, d) ← loadPatchData d 0 0x400
  let flags ← readByte b bdiffDataStart
  let flags := flags.toNat
  if flags &&& VCDF_MASK12 = VCDF_MASK12 then .error (.error "Invalid flag")
  let (sourceSegment, sourceSegmentOffset, p) ← readSourceSegment d b flags (bdiffDataStart + 1)
  let (patchDataLen, p) ← readULEB128 b p
  let (b, patchDataStart, offset, d) ← loadPatchData d (ptrAdd offset (ptrSub p bdiffDataStart))
    (ptrAdd patchDataLen (if flags &&& VCDF_CHECKSUM ≠ 0 then 4 else 0))
  bdiffDelta xxh state d b flags patchDataStart offset sourceSegment sourceSegmentOffset

/-- One call: the file header when it was not read yet, then one window. -/
def bdiff (xxh : Xxh) (state : BDiffState) (d : DiffState) :
    Except BdiffErr (BDiffState × DiffState) := do
  let (state, d) ← readFileHeader state d
  bdiffWindow xxh state d

/-- The bytes of the window decoded last. -/
def DiffState.target (d : DiffState) : List UInt8 := d.outwindow.take d.destWindowLastSize

end Acts.Bdiff
