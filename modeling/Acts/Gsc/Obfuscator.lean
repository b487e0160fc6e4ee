import Acts.Lib.Bytes
import Acts.Lib.Memory

/-!
# Dev blocks of the obfuscator (`gsc_obfuscator_handler.cpp`)

* `patchOpcodes` — `PatchOpcodes`: dev blocks become jumps and free data, locals lose their names.
* `createTrampolines` — `CreateTrampolines`: exports are moved behind jumps in the free data.
* `jumpTarget` — where a jump at a position leads.

Positions are counted from the start of the script.  The export table is kept apart from the byte
code.  The random choices of the VM tables and the hash of a number are parameters.
-/

set_option autoImplicit false

namespace Acts.Gsc.Obfuscator

/-- The opcodes that the obfuscator knows. -/
inductive OpCode where
  | devblockBegin
  | jump
  | safeCreateLocalVariables
  | iwRegisterVariable
  | iwRegisterMultipleVariables
  | other
  deriving DecidableEq

/-- `VmInfo`, for one platform: the flags, the table of the opcodes, and the values of a jump. -/
structure VmInfo where
  u16OpCodes : Bool
  alignedCode : Bool
  varId : Bool
  hash64 : Bool
  noParamFlags : Bool
  hashVarArg : Nat
  hashVarArgCount : Nat
  lookupOpCode : Nat → OpCode
  jumpIds : List Nat
  lookup_jump : ∀ id ∈ jumpIds, lookupOpCode id = .jump
  jump_lt : ∀ id ∈ jumpIds, id < if u16OpCodes then 2 ^ 16 else 2 ^ 8

/-- A script and the options it is patched with. -/
structure Context where
  vm : VmInfo
  scriptLen : Nat
  noDevOpCodeReplace : Bool
  noRemoveLocals : Bool
  /-- `Hash64A` of the name of a number. -/
  hashVal : Nat → Nat
  /-- What the calls of `Rand` return. -/
  rand : Nat → Nat

/-- `FreeDataChunk`.  `start` is where its dev block starts, which the code does not keep. -/
structure FreeDataChunk where
  start : Nat
  rva : Nat
  len : Nat
  deriving DecidableEq

inductive Error where
  | invalid (descr : String)
  | cantFindOpcode

/-- What the passes work on, with the trampolines as they are logged. -/
structure State where
  mem : Mem
  freeData : List FreeDataChunk
  draws : Nat
  trampolines : List (Nat × Nat)

variable (c : Context)

/-! ## Access -/

/-- Where a value of `size` bytes stands. -/
def alignedLoc (loc size : Nat) : Nat :=
  if size ≠ 1 ∧ c.vm.alignedCode then aligned loc size else loc

/-- `ReadAlignedRef`: where the value stands, and the position behind it. -/
def readAlignedRef (loc size : Nat) (name : String) : Except Error (Nat × Nat) :=
  let loc := alignedLoc c loc size
  if loc + (size - 1) > c.scriptLen then .error (.invalid name) else .ok (loc, loc + size)

/-- `GetAndPassOpCode`. -/
def getAndPassOpCode (m : Mem) (loc : Nat) : Except Error (Nat × Nat) :=
  if c.vm.u16OpCodes then do
    let (pos, loc) ← readAlignedRef c loc 2 "opcode u16"
    return (m.readLE pos 2, loc)
  else do
    let (pos, loc) ← readAlignedRef c loc 1 "opcode u8"
    return (m.readLE pos 1, loc)

/-- `GetOpCodeId` of a jump. -/
def getJumpId (draw : Nat) : Option Nat := c.vm.jumpIds[c.rand draw % c.vm.jumpIds.length]?

/-- `SetAndPassOpCode` of a jump. -/
def setAndPassJump (s : State) (loc : Nat) : Except Error (State × Nat) :=
  match getJumpId c s.draws with
  | none => .error .cantFindOpcode
  | some vl =>
    let s := { s with draws := s.draws + 1 }
    if c.vm.u16OpCodes then do
      let (pos, loc) ← readAlignedRef c loc 2 "set opcode u16"
      return ({ s with mem := s.mem.writeLE pos vl 2 }, loc)
    else do
      let (pos, loc) ← readAlignedRef c loc 1 "set opcode u8"
      return ({ s with mem := s.mem.writeLE pos vl 1 }, loc)

/-- The value of an `int16_t`. -/
def int16 (v : Nat) : Int := if v < 2 ^ 15 then v else v - 2 ^ 16

/-- Where a jump at `loc` leads; `none` if no jump stands there. -/
def jumpTarget (m : Mem) (loc : Nat) : Option Int :=
  match getAndPassOpCode c m loc with
  | .error _ => none
  | .ok (val, loc) =>
    if c.vm.lookupOpCode val = .jump then
      match readAlignedRef c loc 2 "jump" with
      | .error _ => none
      | .ok (pos, loc) => some (loc + int16 (m.readLE pos 2))
    else none

/-! ## `PatchOpcodes` -/

/-- `EncodeValNumber`. -/
def encodeValNumber (size n : Nat) : Nat :=
  let v := c.hashVal n
  if size ≤ 4 then v ^^^ (v >>> 32) else v

/-- The names of `SafeCreateLocalVariables`. -/
def createNames : Nat → Mem → Nat → Nat → Except Error (Mem × Nat)
  | 0, m, _, varCount => .ok (m, varCount)
  | count + 1, m, loc, varCount => do
    let size := if c.vm.hash64 then 8 else 4
    let (pos, loc) ← readAlignedRef c loc size
      (if c.vm.hash64 then "SafeCreateLocalVariables::name64"
      else "SafeCreateLocalVariables::name32")
    let n := m.readLE pos size
    let (m, varCount) :=
      if n ≠ c.vm.hashVarArg ∧ n ≠ c.vm.hashVarArgCount then
        (m.writeLE pos (encodeValNumber c size varCount) size, varCount + 1)
      else (m, varCount)
    if c.vm.noParamFlags then createNames count m loc varCount
    else do
      let (_, loc) ← readAlignedRef c loc 1 "SafeCreateLocalVariables::flags"
      createNames count m loc varCount

/-- The names of the opcodes that register variables. -/
def registerNames (name : String) : Nat → Mem → Nat → Nat → Except Error (Mem × Nat)
  | 0, m, _, varCount => .ok (m, varCount)
  | count + 1, m, loc, varCount => do
    let (pos, loc) ← readAlignedRef c loc 8 name
    registerNames name count (m.writeLE pos (encodeValNumber c 8 varCount) 8) loc (varCount + 1)

/-- The locals of an instruction, behind its opcode. -/
def removeLocals (op : OpCode) (m : Mem) (loc varCount : Nat) : Except Error (Mem × Nat) :=
  match op with
  | .safeCreateLocalVariables =>
    if c.vm.varId then .ok (m, varCount)
    else do
      let (pos, loc) ← readAlignedRef c loc 1 "SafeCreateLocalVariables::count"
      createNames c (m.readLE pos 1) m loc varCount
  | .iwRegisterVariable =>
    if c.vm.varId then .ok (m, varCount)
    else registerNames c "IW_RegisterVariable::name" 1 m loc varCount
  | .iwRegisterMultipleVariables =>
    if c.vm.varId then .ok (m, varCount)
    else do
      let (pos, loc) ← readAlignedRef c loc 1 "IW_RegisterMultipleVariables::count"
      registerNames c "IW_RegisterMultipleVariables::name" (m.readLE pos 1) m loc varCount
  | _ => .ok (m, varCount)

/-- The body of the dev block whose opcode was read; `none` if its jump goes back. -/
def devBlock (m : Mem) (loc : Nat) : Except Error (Option FreeDataChunk) := do
  let (pos, loc) ← readAlignedRef c loc 2 "DevblockBegin::delta"
  let delta := int16 (m.readLE pos 2)
  if delta ≤ 0 then return none
  else if loc + delta.toNat > c.scriptLen then throw (.invalid "DevblockBegin::end")
  else return some ⟨loc, loc, delta.toNat⟩

/-- One step of `PatchOpcodes`. -/
def patchOpcode (s : State) (varCount rva : Nat) : Except Error (State × Nat) := do
  let (val, loc) ← getAndPassOpCode c s.mem rva
  let op := c.vm.lookupOpCode val
  if op = .devblockBegin then do
    match ← devBlock c s.mem loc with
    | none => return (s, varCount)
    | some chunk =>
      if c.noDevOpCodeReplace then
        return ({ s with freeData := s.freeData ++ [chunk] }, varCount)
      else do
        let (s, _) ← setAndPassJump c s rva
        return ({ s with freeData := s.freeData ++ [chunk] }, varCount)
  else if c.noRemoveLocals then return (s, varCount)
  else do
    let (m, varCount) ← removeLocals c op s.mem loc varCount
    return ({ s with mem := m }, varCount)

/-- `PatchOpcodes`, in the order of the set. -/
def patchOpcodes : List Nat → State → Nat → Except Error (State × Nat)
  | [], s, varCount => .ok (s, varCount)
  | rva :: opcodesLocs, s, varCount => do
    let (s, varCount) ← patchOpcode c s varCount rva
    patchOpcodes opcodesLocs s varCount

/-! ## `CreateTrampolines` -/

/-- `GscExportData`, with the address in the table. -/
structure GscExportData where
  address : Nat
  bc : Nat
  len : Nat
  deriving DecidableEq

/-- An export as it is read. -/
def exportAt (address : UInt32) (len : Nat) : GscExportData := ⟨address.toNat, address.toNat, len⟩

/-- What a trampoline takes: a jump and its delta. -/
def trampolineSize : Nat := if !c.vm.alignedCode && !c.vm.u16OpCodes then 3 else 4

/-- How many bytes are skipped in front of a chunk. -/
def skipedSize (chunk : FreeDataChunk) : Nat :=
  if c.vm.alignedCode then aligned chunk.rva 2 - chunk.rva else 0

/-- A chunk is large enough and near enough. -/
def Fits (loc : Nat) (chunk : FreeDataChunk) : Prop :=
  ¬chunk.len < trampolineSize c + skipedSize c chunk ∧
    ¬(((chunk.rva : Int) - loc + chunk.len > 32767) ∨
      (-((chunk.rva : Int) - loc + chunk.len) > 32767))

instance (loc : Nat) (chunk : FreeDataChunk) : Decidable (Fits c loc chunk) :=
  inferInstanceAs (Decidable (_ ∧ _))

/-- `FetchNearFreeDataChunk`: the first chunk that fits, between those in front of it and those
behind it. -/
def fetchNearFreeDataChunk (loc : Nat) :
    List FreeDataChunk → Option (List FreeDataChunk × FreeDataChunk × List FreeDataChunk)
  | [] => none
  | chunk :: chunks =>
    if Fits c loc chunk then
      some ([], { chunk with
        rva := chunk.rva + skipedSize c chunk, len := chunk.len - skipedSize c chunk }, chunks)
    else (fetchNearFreeDataChunk loc chunks).map fun t => (chunk :: t.1, t.2.1, t.2.2)

/-- One step of `CreateTrampolines`. -/
def createTrampoline (s : State) (exp : GscExportData) : Except Error (State × GscExportData) :=
  match fetchNearFreeDataChunk c exp.bc s.freeData with
  | none => .ok (s, exp)
  | some (before, chunk, after) => do
    let exportLoc := chunk.rva % 2 ^ 32
    let (s, base) ← setAndPassJump c s exportLoc
    let delta := (exp.bc + 2 ^ 64 - (base + 2)) % 2 ^ 16
    let (pos, base) ← readAlignedRef c base 2 "trampoline jump"
    let newChunkRva := base % 2 ^ 32
    let usedSpace := (newChunkRva + 2 ^ 64 - chunk.rva) % 2 ^ 64
    let chunk := { chunk with rva := newChunkRva, len := (chunk.len + 2 ^ 64 - usedSpace) % 2 ^ 64 }
    return ({ s with
      mem := s.mem.writeLE pos delta 2
      freeData := before ++ chunk :: after
      trampolines := s.trampolines ++ [(exportLoc, base)] }, ⟨exportLoc, base, usedSpace⟩)

/-- `CreateTrampolines`, behind the sort. -/
def createTrampolines : List GscExportData → State → Except Error (State × List GscExportData)
  | [], s => .ok (s, [])
  | exp :: exports, s =>
    if s.freeData = [] then .ok (s, exp :: exports)
    else do
      let (s, exp) ← createTrampoline c s exp
      let (s, exports) ← createTrampolines exports s
      return (s, exp :: exports)

end Acts.Gsc.Obfuscator
