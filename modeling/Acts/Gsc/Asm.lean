import Acts.Lib.Bytes

/-!
# The assembler of the script compiler

The nodes of a compiled function, with their two independent size computations:

* `VmInfo`, `registeredVms` — the virtual machines, with the flags the assembler looks at.
* `AscmNode` — the node classes; `FunctionObject` — the nodes of a function.
* `AscmNode.shiftSize`, `computeRelativeLocations` — the layout pass.
* `AscmNode.write`, `writeNodes` — the emission pass.

Numbers are natural numbers: a `uint32_t` is reduced where a node's size is returned, and a negative
`int32_t` is one from `2 ^ 31` on.  A thrown exception and a `false` are both `none`.
-/

set_option autoImplicit false

namespace Acts.Gsc

/-! ## Opcodes -/

/-- The operation codes that the modelled code names; the others are numbered. -/
inductive OPCode where
  | nop | abort | checkClearParams | end_ | return_ | safeCreateLocalVariables | isDefined | decTop
  | preScriptCall | iwRegisterVariable | iwRegisterMultipleVariables
  | getFunction | getResolveFunction | iwGetBuiltinFunction | iwGetBuiltinMethod
  | scriptFunctionCall | scriptThreadCall | scriptThreadCallEndOn
  | scriptMethodCall | scriptMethodThreadCall | scriptMethodThreadCallEndOn
  | callBuiltinFunction | callBuiltinMethod
  | scriptFunctionCallPointer | scriptThreadCallPointer | scriptThreadCallPointerEndOn
  | scriptMethodCallPointer | scriptMethodThreadCallPointer | scriptMethodThreadCallPointerEndOn
  | iwBuiltinFunctionCallPointer | iwBuiltinMethodCallPointer
  | classFunctionCall | classFunctionThreadCall | classFunctionThreadCallEndOn
  | t8cGetLazyFunction
  | getFloat | getInteger | getHash | getUndefined | getString
  | evalLocalVariableCached | evalLocalVariableRefCached | setVariableField
  | jump | devblockBegin | jumpOnDefinedExpr | jumpOnFalse | jumpOnFalseExpr | jumpOnTrue
  | jumpOnTrueExpr
  | plus | minus | boolNot | multiply | divide | modulus | bitXor | bitOr | bitAnd
  | boolComplement | shiftLeft | shiftRight | lessThan | greaterThan | lessThanOrEqualTo
  | greaterThanOrEqualTo | t10LowerThanOrSuperEqualTo | t10GreaterThanOrSuperEqualTo
  | equal | notEqual | superEqual | superNotEqual
  | other (id : Nat)
  deriving DecidableEq, Repr

/-! ## Virtual machines -/

/-- The flags of a virtual machine that the assembler looks at. -/
inductive VmFlag where
  | align | hash64 | noParamFlags | opcodeU16 | iwCalls
  deriving DecidableEq, Repr

/-- `name` is the internal name; the other two say whether a platform of the machine has the
opcodes `IW_RegisterVariable` and `IW_RegisterMultipleVariables`. -/
structure VmInfo where
  name : String
  flags : List VmFlag
  registerVariable : Bool
  registerMultiple : Bool
  deriving DecidableEq, Repr

def VmInfo.hasFlag (vm : VmInfo) (f : VmFlag) : Bool := vm.flags.contains f

/-- The calls of `RegisterVM`. -/
def registeredVms : List VmInfo := [
  ⟨"acts", [.noParamFlags, .hash64], false, true⟩,
  ⟨"gscbin", [], false, false⟩,
  ⟨"mw19", [.noParamFlags, .iwCalls], false, false⟩,
  ⟨"mw22", [.noParamFlags], false, false⟩,
  ⟨"mwiiia", [.hash64, .noParamFlags, .iwCalls], true, false⟩,
  ⟨"mwiii", [.hash64, .noParamFlags, .iwCalls], false, true⟩,
  ⟨"bo7_15", [.hash64], false, false⟩,
  ⟨"bo7_16", [.hash64], false, true⟩,
  ⟨"bo7_17", [.hash64], false, false⟩,
  ⟨"bo7_18", [.hash64], false, true⟩,
  ⟨"bo7_19", [.hash64], false, true⟩,
  ⟨"bo7", [.hash64], false, true⟩,
  ⟨"bo6_6", [.hash64], false, true⟩,
  ⟨"bo6_7", [.hash64], false, true⟩,
  ⟨"bo6_b", [.hash64], false, true⟩,
  ⟨"bo6_c", [.hash64], false, true⟩,
  ⟨"bo6_d", [.hash64], false, true⟩,
  ⟨"bo6_e", [.hash64], false, true⟩,
  ⟨"bo6_f", [.hash64], false, false⟩,
  ⟨"bo6_10", [.hash64], false, true⟩,
  ⟨"bo6_11", [.hash64], false, true⟩,
  ⟨"bo6_12", [.hash64], false, true⟩,
  ⟨"bo6_13", [.hash64], false, false⟩,
  ⟨"bo6", [.hash64], false, true⟩,
  ⟨"bo2_01", [.align], false, false⟩,
  ⟨"bo3_1a", [.align, .opcodeU16], false, false⟩,
  ⟨"bo3_1b", [.align], false, false⟩,
  ⟨"bo3", [.opcodeU16, .align], false, false⟩,
  ⟨"bo4_31", [.opcodeU16, .align], false, false⟩,
  ⟨"bo4_34", [.opcodeU16, .align], false, false⟩,
  ⟨"bo4_35", [.opcodeU16, .align], false, false⟩,
  ⟨"bo4", [.opcodeU16, .align], false, false⟩,
  ⟨"cw37", [.opcodeU16, .align], false, false⟩,
  ⟨"cw", [.opcodeU16, .align], false, false⟩]

/-! ## The compiler context -/

/-- `AscmCompilerContext` without its output.  `opCodes` are the ids of an opcode on the platform,
of which each write draws one; `rand` is the draw at an output size. -/
structure Ctx where
  vm : VmInfo
  opCodes : OPCode → List UInt16
  rand : Nat → Nat
  lvars : Nat
  hregisterVariable : opCodes .iwRegisterVariable ≠ [] → vm.registerVariable = true
  hregisterMultiple : opCodes .iwRegisterMultipleVariables ≠ [] → vm.registerMultiple = true

def Ctx.hasAlign (c : Ctx) : Bool := c.vm.hasFlag .align

def Ctx.hasOpCode (c : Ctx) (op : OPCode) : Bool := c.opCodes op != []

/-- The id for a write at output size `pos`. -/
def Ctx.getOpCodeId (c : Ctx) (pos : Nat) (op : OPCode) : Option UInt16 :=
  (c.opCodes op)[c.rand pos % (c.opCodes op).length]?

/-- The width of a field hash. -/
def Ctx.hashSize (c : Ctx) : Nat := if c.vm.hasFlag .hash64 then 8 else 4

/-- `Align`. -/
def Ctx.pad (c : Ctx) (len : Nat) (data : List UInt8) : List UInt8 :=
  if c.hasAlign then padTo len data else data

/-- `Write` of a value of `w` bytes. -/
def put (w v : Nat) (data : List UInt8) : List UInt8 := data ++ leBytes w v

/-! ## The nodes -/

/-- The size of a value type. -/
inductive Width where
  | w1 | w2 | w4 | w8
  deriving DecidableEq, Repr

def Width.bytes : Width → Nat
  | .w1 => 1
  | .w2 => 2
  | .w4 => 4
  | .w8 => 8

/-- `FuncCallFlags`. -/
structure FuncCallFlags where
  thread : Bool
  childthread : Bool
  method : Bool
  pointer : Bool
  pointerClass : Bool
  builtin : Bool
  getter : Bool
  deriving DecidableEq, Repr

/-- The opcode that the parser gives to a call. -/
def callOpcode (f : FuncCallFlags) : Option OPCode :=
  if f.pointer then
    if f.pointerClass then
      if f.thread then some .classFunctionThreadCall
      else if f.childthread then some .classFunctionThreadCallEndOn
      else if f.builtin then none
      else some .classFunctionCall
    else if f.method then
      if f.thread then some .scriptMethodThreadCallPointer
      else if f.childthread then some .scriptMethodThreadCallPointerEndOn
      else if f.builtin then some .iwBuiltinMethodCallPointer
      else some .scriptMethodCallPointer
    else
      if f.thread then some .scriptThreadCallPointer
      else if f.childthread then some .scriptThreadCallPointerEndOn
      else if f.builtin then some .iwBuiltinFunctionCallPointer
      else some .scriptFunctionCallPointer
  else if f.method then
    if f.thread then some .scriptMethodThreadCall
    else if f.childthread then some .scriptMethodThreadCallEndOn
    else if f.builtin then none
    else some .scriptMethodCall
  else
    if f.thread then some .scriptThreadCall
    else if f.childthread then some .scriptThreadCallEndOn
    else if f.builtin then none
    else some .scriptFunctionCall

/-- `AscmNodeFunctionCall`.  A pointer call keeps the opcode of the parser (the linker sets the
others), and a class pointer is a pointer. -/
structure FunctionCall where
  opcode : OPCode
  flags : FuncCallFlags
  params : UInt8
  clsName : Nat
  nameSpace : Nat
  pointer_opcode : flags.pointer = true → callOpcode flags = some opcode
  class_pointer : flags.pointerClass = true → flags.pointer = true

/-- `FunctionVar`, with the hash of its name. -/
structure FunctionVar where
  field : Nat
  id : Nat
  flags : UInt8
  deriving DecidableEq, Repr

/-- `AscmNodeCreateLocalVariables`: the first variables are the parameters, which a byte counts. -/
structure LocalVariables where
  vars : List FunctionVar
  params : Nat
  obfuscate : Bool
  params_le : params ≤ vars.length
  params_lt : params < 256

theorem noParams_le : 0 ≤ ([] : List FunctionVar).length := Nat.le_refl 0

theorem noParams_lt : 0 < 256 := Nat.zero_lt_succ 255

/-- The node classes.  The location of a jump is the index of a node. -/
inductive AscmNode where
  | label
  | raw (align : Width) (data : List UInt8)
  | opCode (op : OPCode)
  | rawOpCode (id : UInt16)
  | data (w : Width) (val : Nat) (op : OPCode)
  | hash (val : Nat) (op : OPCode) (hashSize : Width)
  | stringData (string : List UInt8) (op : OPCode)
  | functionCall (call : FunctionCall)
  | var (varId : Nat) (op : OPCode)
  | createLocalVariables (vars : LocalVariables)
  | globalVariable (op : OPCode)
  | lazyLink (path nsp func : Nat)
  | jump (location : Nat) (op : OPCode)

/-! ## Layout -/

/-- `AscmNodeOpCode::ShiftSize`. -/
def shiftOpCode (align : Bool) (start : Nat) : Nat :=
  if align then aligned start 2 + 2 else start + 1

/-- An operand of `w` bytes. -/
def shiftData (align : Bool) (len w : Nat) (start : Nat) : Nat :=
  if align then aligned start len + w else start + w

/-- `count` hashes, each with a flag byte if there is one. -/
def shiftVars (align : Bool) (hashSize : Nat) (hasFlag : Bool) : Nat → Nat → Nat
  | 0, e => e
  | count + 1, e =>
    shiftVars align hashSize hasFlag count
      (shiftData align hashSize hashSize e + if hasFlag then 1 else 0)

/-- `count` variables, each with its own opcode. -/
def shiftRegister (align : Bool) (hashSize : Nat) : Nat → Nat → Nat
  | 0, e => e
  | count + 1, e =>
    shiftRegister align hashSize count (shiftData align hashSize hashSize (shiftOpCode align e))

/-- `LoadData`: whether the call writes its parameter count, and the size of its operand. -/
def loadData (c : Ctx) (n : FunctionCall) : Option (Bool × Nat) :=
  if c.vm.hasFlag .align then
    let useParams := match n.opcode with
      | .getFunction | .iwGetBuiltinFunction | .iwGetBuiltinMethod | .getResolveFunction => false
      | _ => true
    some (useParams, if n.flags.pointer then 0 else 8)
  else
    match n.opcode with
    | .scriptThreadCallPointerEndOn | .scriptThreadCallPointer | .scriptMethodThreadCallPointer
    | .scriptMethodThreadCallPointerEndOn | .iwBuiltinFunctionCallPointer
    | .iwBuiltinMethodCallPointer => some (true, 0)
    | .scriptFunctionCallPointer | .scriptMethodCallPointer => some (false, 0)
    | .scriptThreadCallEndOn | .scriptThreadCall | .scriptMethodThreadCallEndOn
    | .scriptMethodThreadCall => some (true, 4)
    | .scriptFunctionCall | .scriptMethodCall => some (false, 4)
    | .callBuiltinFunction | .callBuiltinMethod => some (true, 2)
    | .getFunction | .iwGetBuiltinFunction | .iwGetBuiltinMethod => some (false, 2)
    | .getResolveFunction => some (false, 4)
    | _ => none

/-- Whether the parameter count is written. -/
def writesParams (c : Ctx) (useParams : Bool) : Bool :=
  (c.vm.hasFlag .align && useParams) || (useParams && c.vm.hasFlag .iwCalls)

def shiftCall (c : Ctx) (align : Bool) (n : FunctionCall) (start : Nat) : Option Nat :=
  (loadData c n).map fun (useParams, dataSize) =>
    let afterOp := shiftOpCode align start
    if align then
      let e := afterOp + if useParams then 1 else 0
      if n.flags.pointerClass then aligned e 4 + c.hashSize
      else if n.flags.pointer then e
      else aligned e 8 + dataSize
    else
      afterOp + (if writesParams c useParams then 1 else 0) + dataSize

def Ctx.hasFlag (c : Ctx) : Bool := !c.vm.hasFlag .noParamFlags

def shiftLocalVariables (c : Ctx) (align : Bool) (n : LocalVariables) (start : Nat) : Nat :=
  let e := shiftOpCode align start
  let hasRegister := c.hasOpCode .iwRegisterVariable
  let hasRegisters := c.hasOpCode .iwRegisterMultipleVariables
  let count := n.vars.length - n.params
  if hasRegister || hasRegisters then
    let e := if n.params = 0 then e else shiftVars align c.hashSize c.hasFlag n.params (e + 1)
    if hasRegister then shiftRegister align c.hashSize count e
    else if count = 0 then e
    else shiftData align c.hashSize (c.hashSize * count) (shiftOpCode align e + 1)
  else if n.vars = [] then e
  else shiftVars align c.hashSize c.hasFlag n.vars.length (e + 1)

/-- The size computation of a node, before it is reduced. -/
def AscmNode.shift (c : Ctx) (align : Bool) (start : Nat) : AscmNode → Option Nat
  | .label => some start
  | .raw len bytes => some (shiftData align len.bytes bytes.length start)
  | .opCode _ => some (shiftOpCode align start)
  | .rawOpCode _ => some (shiftOpCode align start)
  | .data w _ _ => some (shiftData align w.bytes w.bytes (shiftOpCode align start))
  | .hash _ _ w => some (shiftData align w.bytes w.bytes (shiftOpCode align start))
  | .stringData string _ => some (shiftOpCode align start + string.length + 1)
  | .functionCall n => shiftCall c align n start
  | .var _ _ => some (shiftOpCode align start + 1)
  | .createLocalVariables n => some (shiftLocalVariables c align n start)
  | .globalVariable _ => some (shiftData align 2 2 (shiftOpCode align start))
  | .lazyLink _ _ _ => some (shiftData align 4 16 (shiftOpCode align start))
  | .jump _ _ => some (shiftData align 2 2 (shiftOpCode align start))

/-- `ShiftSize`. -/
def AscmNode.shiftSize (c : Ctx) (align : Bool) (start : Nat) (n : AscmNode) : Option Nat :=
  (n.shift c align start).map (· % 2 ^ 32)

structure Loc where
  rloc : Nat
  floc : Nat
  deriving DecidableEq, Repr

/-- The alignment that the layout pass works with. -/
def Ctx.layoutAlign (c : Ctx) : Bool := c.vm.hasFlag .align && c.vm.hasFlag .opcodeU16

/-- The loop of `ComputeRelativeLocations`. -/
def relativeLocations (c : Ctx) (floc : Nat) : List AscmNode → Nat → Option (List Loc)
  | [], _ => some []
  | n :: ns, rloc => do
    let current ← n.shiftSize c c.layoutAlign rloc
    -- `rloc > current`, where a size from `2 ^ 31` on is a negative number
    if 2 ^ 31 ≤ current ∨ current < rloc then none
    else
      let locs ← relativeLocations c floc ns current
      some (⟨rloc, if c.layoutAlign then aligned (floc + rloc) 2 else floc + rloc⟩ :: locs)

def computeRelativeLocations (c : Ctx) (floc : Nat) (nodes : List AscmNode) : Option (List Loc) :=
  relativeLocations c floc nodes 0

/-! ## Emission -/

/-- `AscmNodeOpCode::Write`. -/
def writeOpCode (c : Ctx) (op : OPCode) (data : List UInt8) : Option (List UInt8) :=
  (c.getOpCodeId data.length op).map fun id =>
    if c.hasAlign then put 2 id.toNat (c.pad 2 data) else put 1 id.toNat (c.pad 2 data)

/-- An operand. -/
def writeData (c : Ctx) (w v : Nat) (data : List UInt8) : List UInt8 := put w v (c.pad w data)

/-- Hashes of variables; `key` is what the obfuscation writes in place of the hash. -/
def writeVars (c : Ctx) (hasFlag : Bool) (obfuscate : Bool) :
    List (FunctionVar × Nat) → List UInt8 → List UInt8
  | [], data => data
  | (var, key) :: vars, data =>
    let data := writeData c c.hashSize (if obfuscate then key else var.field) data
    writeVars c hasFlag obfuscate vars (if hasFlag then put 1 var.flags.toNat data else data)

/-- The `IW_RegisterVariable` of each variable. -/
def writeRegister (c : Ctx) (obfuscate : Bool) :
    List (FunctionVar × Nat) → List UInt8 → Option (List UInt8)
  | [], data => some data
  | (var, key) :: vars, data => do
    let data ← writeOpCode c .iwRegisterVariable data
    let data := writeData c c.hashSize (if obfuscate then key else var.field) data
    writeRegister c obfuscate vars (if c.hasFlag then put 1 var.flags.toNat data else data)

/-- The variables with the numbers the obfuscation gives them. -/
def LocalVariables.numbered (n : LocalVariables) : List (FunctionVar × Nat) :=
  n.vars.zip ((List.range n.vars.length).map (· + 1))

/-- The parameters, when variables have opcodes of their own. -/
def writeParams (c : Ctx) (n : LocalVariables) (data : List UInt8) : Option (List UInt8) :=
  if n.params = 0 then writeOpCode c .checkClearParams data
  else
    (writeOpCode c .safeCreateLocalVariables data).map fun data =>
      writeVars c c.hasFlag n.obfuscate (n.numbered.take n.params) (put 1 n.params data)

def writeLocalVariables (c : Ctx) (n : LocalVariables) (data : List UInt8) :
    Option (List UInt8) :=
  let hasRegister := c.hasOpCode .iwRegisterVariable
  let hasRegisters := c.hasOpCode .iwRegisterMultipleVariables
  if hasRegister || hasRegisters then
    (writeParams c n data).bind fun data =>
      if hasRegister then writeRegister c n.obfuscate (n.numbered.drop n.params) data
      else if n.vars.length - n.params = 0 then some data
      else
        (writeOpCode c .iwRegisterMultipleVariables data).map fun data =>
          writeVars c false n.obfuscate (n.numbered.drop n.params)
            (put 1 (n.vars.length - n.params) data)
  else if n.vars = [] then writeOpCode c .checkClearParams data
  else
    (writeOpCode c .safeCreateLocalVariables data).map fun data =>
      writeVars c c.hasFlag n.obfuscate (n.vars.map fun v => (v, v.id + 1))
        (put 1 n.vars.length data)

def writeCall (c : Ctx) (n : FunctionCall) (data : List UInt8) : Option (List UInt8) := do
  let data ← writeOpCode c n.opcode data
  let (useParams, dataSize) ← loadData c n
  let data := if writesParams c useParams then put 1 n.params.toNat data else data
  if n.flags.pointerClass then some (writeData c c.hashSize n.clsName data)
  else if n.flags.pointer then some data
  else
    -- replaced by the linker
    let data := c.pad dataSize data
    if dataSize = 8 then some (put 8 (n.nameSpace % 2 ^ 32 * 2 ^ 32 + n.clsName % 2 ^ 32) data)
    else some (data ++ (List.range dataSize).map UInt8.ofNat)

/-- The operand of a jump: the distance from its end to the location, if it is small enough. -/
def jumpDelta (location next : Nat) : Option Nat :=
  let delta : Int := location - next
  if (2 ^ 16 : Int) ≤ delta ∨ delta ≤ -(2 ^ 16 : Int) then none
  else some (delta % 2 ^ 16).toNat

/-- `Write`; `rlocs` are the relative locations of the nodes of the function. -/
def AscmNode.write (c : Ctx) (rlocs : Nat → Nat) (rloc : Nat) (data : List UInt8) :
    AscmNode → Option (List UInt8)
  | .label => some data
  | .raw len bytes => some (c.pad len.bytes data ++ bytes)
  | .opCode op => writeOpCode c op data
  | .rawOpCode id =>
    some (if c.hasAlign then put 2 id.toNat (c.pad 2 data) else put 1 id.toNat (c.pad 2 data))
  | .data w val op => (writeOpCode c op data).map (writeData c w.bytes val)
  | .hash val op w => do
    let data ← writeOpCode c op data
    match w with
    | .w4 | .w8 => some (writeData c w.bytes val data)
    | _ => none
  | .stringData string op => (writeOpCode c op data).map fun data => data ++ string ++ [0]
  | .functionCall n => writeCall c n data
  | .var varId op =>
    (writeOpCode c op data).map (put 1 ((c.lvars + 2 ^ 64 - varId - 1) % 2 ^ 64))
  | .createLocalVariables n => writeLocalVariables c n data
  | .globalVariable op => (writeOpCode c op data).map (writeData c 2 0)
  | .lazyLink path nsp func =>
    (writeOpCode c .t8cGetLazyFunction data).map fun data =>
      put 8 path (put 4 func (put 4 nsp (c.pad 4 data)))
  | .jump location op => do
    let data ← writeOpCode c op data
    let next ← (AscmNode.jump location op).shiftSize c c.hasAlign rloc
    let delta ← jumpDelta (rlocs location) next
    some (writeData c 2 delta data)

/-- The nodes of a function in a row. -/
def writeNodes (c : Ctx) (rlocs : Nat → Nat) :
    List AscmNode → List Loc → List UInt8 → Option (List UInt8)
  | n :: ns, l :: ls, data => do writeNodes c rlocs ns ls (← n.write c rlocs l.rloc data)
  | _, _, data => some data

/-- A compiled function: its nodes start with the one of `CreateParamNode`. -/
structure FunctionObject where
  params : LocalVariables
  body : List AscmNode

def FunctionObject.nodes (f : FunctionObject) : List AscmNode :=
  .createLocalVariables f.params :: f.body

/-- The relative location of a node; it stays 0 for a node outside the function. -/
def rlocOf (locs : List Loc) (i : Nat) : Nat := (locs[i]?.map Loc.rloc).getD 0

/-- The part of `writeExport` that makes the code of a function. -/
def FunctionObject.emit (f : FunctionObject) (c : Ctx) (data : List UInt8) :
    Option (List Loc × List UInt8) := do
  let locs ← computeRelativeLocations c data.length f.nodes
  let out ← writeNodes c (rlocOf locs) f.nodes locs data
  some (locs, out)

end Acts.Gsc
