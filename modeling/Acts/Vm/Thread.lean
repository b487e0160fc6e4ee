import Acts.Lib.Checked
import Acts.Lib.RefHeap

/-!
# A thread of the ACTS virtual machine

* `VmVar`, `VmField`, `VmState` — values, variables, and a thread with the part of the machine that
  its opcodes work on.
* `VmState.push`, `VmState.castToBool`, `VmState.setRefValue` … — what the handlers share.
* `Instr.handle` — the handlers; `step`, `run` — the loop of `Execute`.

`VmState.top` is the index of `top` in the stack.  A read or write outside of an array and an access to
a freed object are faults.
-/

set_option autoImplicit false

namespace Acts.Vm

open RefHeap

/-! ## Values -/

/-- What a `VmRef` of a value refers to. -/
inductive VmObject where
  | array (ref : Nat)
  | vector (ref : Nat)
  | string (ref : Nat)
  deriving DecidableEq, Repr

/-- `VmVar`: a type with the member of the union that goes with it. -/
inductive VmVar where
  | undefined
  | thread (id : Nat)
  | integer (i : BitVec 64)
  | float (f : BitVec 32)
  | hash (h : BitVec 64)
  | precall (loc : Int)
  | location (loc : Option Int)
  | scriptFunction (f : BitVec 32)
  | builtinFunction (f : BitVec 16)
  | object (o : VmObject)
  deriving DecidableEq, Repr

/-- `VmVarTypeName`. -/
def VmVar.typeName : VmVar → String
  | .undefined => "UNDEFINED"
  | .thread _ => "THREAD"
  | .integer _ => "INTEGER"
  | .float _ => "FLOAT"
  | .hash _ => "HASH"
  | .precall _ => "PRECALL"
  | .location _ => "LOCATION"
  | .scriptFunction _ => "SCRIPT_FUNCTION"
  | .builtinFunction _ => "BUILTIN_FUNCTION"
  | .object (.array _) => "ARRAY"
  | .object (.vector _) => "VECTOR"
  | .object (.string _) => "STRING"

/-- The object that a value refers to, whose count `IncRef` and `DecRef` change. -/
def VmVar.ref : VmVar → Option VmObject
  | .object o => some o
  | _ => none

def ofBool (b : Bool) : VmVar := .integer (if b then 1 else 0)

/-- A `float` that is not zero. -/
def floatNonzero (f : BitVec 32) : Bool := f.toNat % 2 ^ 31 != 0

/-- The value of a condition, if it has one. -/
def VmVar.toBool : VmVar → Option Bool
  | .integer i => some (i != 0)
  | .float f => some (floatNonzero f)
  | _ => none

/-! ## The state -/

inductive VmFault where
  | outOfBounds
  | freed
  | error (msg : String)
  deriving DecidableEq, Repr

/-- `VmField`; `next` is its `data.field`. -/
structure VmField where
  var : VmVar
  next : Nat
  deriving DecidableEq, Repr

/-- `INVALID_FIELD_REF`. -/
def invalidFieldRef : Nat := 2 ^ 32 - 1

/-- The running thread with its frame, and the fields and the heap of the machine.  `code` are the
references that the linker wrote into the code, and `log` the errors that do not end the thread. -/
structure VmState where
  stack : List VmVar
  top : Nat
  field : Nat
  codePos : Int
  varFields : List Nat
  numVars : Nat
  fields : List VmField
  fieldFree : Nat
  heap : Heap VmObject VmVar
  code : List VmVar
  enabledDevBlocks : Bool
  log : List String

namespace VmState

variable (s : VmState)

/-- `Error`, without `terminate`. -/
def error (msg : String) : VmState := { s with log := s.log ++ [msg] }

def jump (delta : Int) : VmState := { s with codePos := s.codePos + delta }

/-! ## Slots -/

def slot (i : Nat) : Except VmFault VmVar :=
  match s.stack[i]? with
  | some v => .ok v
  | none => .error .outOfBounds

def setSlot (i : Nat) (v : VmVar) : Except VmFault VmState :=
  if i < s.stack.length then .ok { s with stack := s.stack.set i v } else .error .outOfBounds

/-- `thread->top--`. -/
def decTop : Except VmFault VmState :=
  match s.top with
  | 0 => .error .outOfBounds
  | n + 1 => .ok { s with top := n }

/-- A value to the slot of `thread->top++`. -/
def push (v : VmVar) : Except VmFault VmState := do
  let s ← s.setSlot s.top v
  .ok { s with top := s.top + 1 }

/-! ## References -/

/-- `IncRef`. -/
def incRef (v : VmVar) : Except VmFault VmState :=
  match retain VmVar.ref s.heap v with
  | some heap => .ok { s with heap := heap }
  | none => .error .freed

/-- `DecRef`. -/
def decRef (v : VmVar) : Except VmFault VmState :=
  match release VmVar.ref s.heap v with
  | some heap => .ok { s with heap := heap }
  | none => .error .freed

/-- `ReleaseVariable` of a slot. -/
def releaseVariable (i : Nat) : Except VmFault VmState := do
  let v ← s.slot i
  let s ← s.decRef v
  s.setSlot i .undefined

/-- `CastToBool` of a slot. -/
def castToBool (i : Nat) : Except VmFault (Bool × VmState) := do
  let v ← s.slot i
  match v.toBool with
  | some b =>
    let s ← s.setSlot i (ofBool b)
    .ok (b, s)
  | none =>
    let s ← (s.error ("Can't cast var to bool: type " ++ v.typeName)).releaseVariable i
    .ok (false, s)

/-! ## Variables -/

def fieldAt (ref : Nat) : Except VmFault VmField :=
  match s.fields[ref]? with
  | some f => .ok f
  | none => .error .outOfBounds

def setField (ref : Nat) (f : VmField) : VmState := { s with fields := s.fields.set ref f }

/-- `SetRefValue` with the value of a slot. -/
def setRefValue (ref i : Nat) : Except VmFault VmState :=
  if ref = invalidFieldRef then .ok (s.error "Invalid field ref")
  else do
    let f ← s.fieldAt ref
    let s ← s.decRef f.var
    let v ← s.slot i
    (s.setField ref { f with var := v }).setSlot i .undefined

/-- `GetRefValue` to a slot. -/
def getRefValue (ref i : Nat) : Except VmFault VmState :=
  if ref = invalidFieldRef then .ok (s.error "Invalid field ref")
  else do
    let f ← s.fieldAt ref
    s.setSlot i f.var

/-- `CreateField` with the value of a slot, or without a value. -/
def createField (value : Option Nat) : Except VmFault (Nat × VmState) :=
  if s.fieldFree = invalidFieldRef then .error (.error "Can't allocate field")
  else do
    let r := s.fieldFree
    let f ← s.fieldAt r
    let s := { s with fieldFree := f.next }
    match value with
    | some i =>
      let v ← s.slot i
      let s ← (s.setField r { f with var := v }).setSlot i .undefined
      .ok (r, s)
    | none => .ok (r, s.setField r ⟨.undefined, 0⟩)

/-- `varFields[numVars++] = ref`. -/
def addVar (ref : Nat) : Except VmFault VmState :=
  if s.numVars < s.varFields.length then
    .ok { s with varFields := s.varFields.set s.numVars ref, numVars := s.numVars + 1 }
  else .error .outOfBounds

def isLocation : VmVar → Bool
  | .location _ => true
  | _ => false

/-- `CreateVar`. -/
def createVar (val : Option Nat) : Except VmFault VmState :=
  match val with
  | none => do
    let (ref, s) ← s.createField none
    s.addVar ref
  | some i => do
    let v ← s.slot i
    let (ref, s) ← s.createField (if isLocation v then none else some i)
    s.addVar ref

/-- `ReleaseField`. -/
def releaseField (field : Nat) : Except VmFault VmState :=
  if field = invalidFieldRef then .ok s
  else do
    let f ← s.fieldAt field
    let s ← s.decRef f.var
    .ok { s.setField field ⟨.undefined, s.fieldFree⟩ with fieldFree := field }

/-- The loop of `CleanupFrame`, over the fields of the variables. -/
def releaseFields : List Nat → VmState → Except VmFault VmState
  | [], s => .ok s
  | field :: fields, s => do releaseFields fields (← s.releaseField field)

/-- `CleanupFrame`. -/
def cleanupFrame : Except VmFault VmState := do
  let s ← releaseFields (s.varFields.take s.numVars) s
  .ok { s with numVars := 0 }

/-- A thread of a new machine.  The constructor gives every free field itself as the next one. -/
def init : VmState where
  stack := List.replicate 0x1000 .undefined
  top := 0
  field := 0
  codePos := 0
  varFields := List.replicate 0x100 0
  numVars := 0
  fields := (List.range 0x3fff).map (VmField.mk .undefined) ++ [⟨.undefined, invalidFieldRef⟩]
  fieldFree := 0
  heap := ∅
  code := []
  enabledDevBlocks := false
  log := []

/-- `AllocThread`, of a thread that is not running. -/
def allocThread (id : Nat) (codePos : Int) : VmState :=
  { s with
    stack := (s.stack.set 0 (.thread id)).set 1 (.location none)
    top := 2
    codePos := codePos }

end VmState

/-! ## The handlers -/

section Handlers

variable (s : VmState)

/-- Releases the values above the location of the function; `fuel` is one more than `top`. -/
def releaseParams : Nat → VmState → Except VmFault VmState
  | 0, _ => .error .outOfBounds
  | fuel + 1, s => do
    let v ← s.slot s.top
    if VmState.isLocation v then .ok s
    else
      let s ← s.releaseVariable s.top
      releaseParams fuel (← s.decTop)

def exportNoParamsHandler : Except VmFault VmState := do
  let v ← s.slot s.top
  if VmState.isLocation v then .ok s
  else
    let s ← releaseParams (s.top + 1) s
    .ok (s.error "Called function with too many parameters")

/-- The variables of the parameters, from the stack while there are values. -/
def exportVars : Nat → VmState → Except VmFault VmState
  | 0, s => .ok s
  | vars + 1, s => do
    let v ← s.slot s.top
    if VmState.isLocation v then exportVars vars (← s.createVar none)
    else
      let i := s.top
      let s ← s.decTop
      exportVars vars (← s.createVar (some i))

def exportParamsHandler (vars : Nat) : Except VmFault VmState := do
  exportNoParamsHandler (← exportVars vars s)

def registerVarsHandler : Nat → VmState → Except VmFault VmState
  | 0, s => .ok s
  | vars + 1, s => do registerVarsHandler vars (← s.createVar none)

def getStringHandler (ref : Nat) : Except VmFault VmState := do
  let s ← s.push (.object (.string ref))
  s.incRef (.object (.string ref))

/-- The type is read after the release. -/
def isDefinedHandler : Except VmFault VmState := do
  let s ← s.releaseVariable s.top
  let v ← s.slot s.top
  s.setSlot s.top (ofBool (v != .undefined))

def decTopHandler : Except VmFault VmState := do
  let i := s.top
  let s ← s.decTop
  s.releaseVariable i

def devBlockHandler (delta : Int) : Except VmFault VmState :=
  .ok (if s.enabledDevBlocks then s else s.jump delta)

def jumpIfDefinedHandler (delta : Int) : Except VmFault VmState := do
  let v ← s.slot s.top
  if v != .undefined then .ok (s.jump delta) else s.decTop

/-- The jumps that take a value. -/
def jumpIfHandler (cond : Bool) (delta : Int) : Except VmFault VmState := do
  let i := s.top
  let s ← s.decTop
  let (b, s) ← s.castToBool i
  .ok (if b = cond then s.jump delta else s)

def jumpIfTrueHandler (delta : Int) : Except VmFault VmState := jumpIfHandler s true delta

def jumpIfFalseHandler (delta : Int) : Except VmFault VmState := jumpIfHandler s false delta

/-- The jumps that take a value when they do not jump. -/
def jumpIfExprHandler (cond : Bool) (delta : Int) : Except VmFault VmState := do
  let (b, s) ← s.castToBool s.top
  if b = cond then .ok (s.jump delta) else s.decTop

def jumpIfTrueExprHandler (delta : Int) : Except VmFault VmState := jumpIfExprHandler s true delta

def jumpIfFalseExprHandler (delta : Int) : Except VmFault VmState :=
  jumpIfExprHandler s false delta

def getVarRefHandler (id : Nat) : Except VmFault VmState :=
  match s.varFields[id]? with
  | some ref => .ok { s with field := ref }
  | none => .error .outOfBounds

def getVarHandler (id : Nat) : Except VmFault VmState := do
  let s ← getVarRefHandler s id
  let i := s.top
  let s ← s.push .undefined
  s.getRefValue s.field i

def setRefValueHandler : Except VmFault VmState := do
  let i := s.top
  let s ← s.decTop
  s.setRefValue s.field i

def notHandler : Except VmFault VmState := do
  let v ← s.slot s.top
  match v.toBool with
  | some b => s.setSlot s.top (ofBool (!b))
  | none =>
    let s ← (s.error ("NotHandler: Invalid type, expected float or int, got " ++
      v.typeName)).releaseVariable s.top
    s.setSlot s.top (.integer 0)

def bitNotHandler : Except VmFault VmState := do
  let v ← s.slot s.top
  match v with
  | .integer i => s.setSlot s.top (.integer (~~~i))
  | _ =>
    let s ← (s.error ("BitNotHandler: Invalid type, expected int, got " ++
      v.typeName)).releaseVariable s.top
    s.setSlot s.top (.integer 0)

/-- The operators of two integers: what they compute, if the second one is no `0` where that
matters. -/
inductive BinOp where
  | bitXor | bitOr | bitAnd | bitShiftLeft | bitShiftRight | modulus
  deriving DecidableEq, Repr

def BinOp.name : BinOp → String
  | .bitXor => "BitXorHandler"
  | .bitOr => "BitOrHandler"
  | .bitAnd => "BitAndHandler"
  | .bitShiftLeft => "BitShiftLeftHandler"
  | .bitShiftRight => "BitShiftRightHandler"
  | .modulus => "ModulusHandler"

/-- A shift takes the low 6 bits of its count. -/
def BinOp.compute : BinOp → BitVec 64 → BitVec 64 → Option (BitVec 64)
  | .bitXor, a, b => some (a ^^^ b)
  | .bitOr, a, b => some (a ||| b)
  | .bitAnd, a, b => some (a &&& b)
  | .bitShiftLeft, a, b => some (a <<< (b.toNat % 64))
  | .bitShiftRight, a, b => some (a.sshiftRight (b.toNat % 64))
  | .modulus, a, b => if b = 0 then none else some (a.srem b)

/-- The result of an operator, or its error. -/
def BinOp.apply (op : BinOp) (a b : VmVar) : Except String VmVar :=
  match a, b with
  | .integer x, .integer y =>
    match op.compute x y with
    | some r => .ok (.integer r)
    | none => .error (op.name ++ ": Divide by 0")
  | _, _ => .error (op.name ++ ": Invalid type, expected int, got " ++ a.typeName ++ "/" ++
      b.typeName)

def binaryHandler (op : BinOp) : Except VmFault VmState := do
  let i := s.top
  let s ← s.decTop
  let a ← s.slot s.top
  let b ← s.slot i
  match op.apply a b with
  | .ok r => s.setSlot s.top r
  | .error msg =>
    let s ← (s.error msg).releaseVariable s.top
    let s ← s.releaseVariable i
    let s ← s.setSlot s.top (.integer 0)
    s.setSlot i (.integer 0)

end Handlers

/-! ## Instructions -/

/-- The opcodes that have a handler, with their operands. -/
inductive Instr where
  | nop
  | exportNoParams
  | exportParams (vars : Nat)
  | registerVars (vars : Nat)
  | getInt (i : BitVec 64)
  | getFloat (f : BitVec 32)
  | getHash (h : BitVec 64)
  | getUndefined
  | getString (ref : Nat)
  | getBuiltinFunction (f : BitVec 16)
  | getFunction (f : BitVec 32)
  | isDefined
  | decTop
  | preCall
  | jump (delta : Int)
  | devBlock (delta : Int)
  | jumpIfTrue (delta : Int)
  | jumpIfFalse (delta : Int)
  | jumpIfTrueExpr (delta : Int)
  | jumpIfFalseExpr (delta : Int)
  | jumpIfDefined (delta : Int)
  | getVar (id : Nat)
  | getVarRef (id : Nat)
  | setRefValue
  | opNot
  | opBitNot
  | binary (op : BinOp)
  deriving DecidableEq, Repr

/-- `HandleOpCode`, when the code position is behind the operand. -/
def Instr.handle (s : VmState) : Instr → Except VmFault VmState
  | .nop => .ok s
  | .exportNoParams => exportNoParamsHandler s
  | .exportParams vars => exportParamsHandler s vars
  | .registerVars vars => registerVarsHandler vars s
  | .getInt i => s.push (.integer i)
  | .getFloat f => s.push (.float f)
  | .getHash h => s.push (.hash h)
  | .getUndefined => s.push .undefined
  | .getString ref => getStringHandler s ref
  | .getBuiltinFunction f => s.push (.builtinFunction f)
  | .getFunction f => s.push (.scriptFunction f)
  | .isDefined => isDefinedHandler s
  | .decTop => decTopHandler s
  | .preCall => s.push (.precall s.codePos)
  | .jump delta => .ok (s.jump delta)
  | .devBlock delta => devBlockHandler s delta
  | .jumpIfTrue delta => jumpIfTrueHandler s delta
  | .jumpIfFalse delta => jumpIfFalseHandler s delta
  | .jumpIfTrueExpr delta => jumpIfTrueExprHandler s delta
  | .jumpIfFalseExpr delta => jumpIfFalseExprHandler s delta
  | .jumpIfDefined delta => jumpIfDefinedHandler s delta
  | .getVar id => getVarHandler s id
  | .getVarRef id => getVarRefHandler s id
  | .setRefValue => setRefValueHandler s
  | .opNot => notHandler s
  | .opBitNot => bitNotHandler s
  | .binary op => binaryHandler s op

/-- The instruction at a code position, and the position behind its operand. -/
abbrev Program := Int → Option (Instr × Int)

/-- One turn of `Execute`. -/
def step (p : Program) (s : VmState) : Except VmFault VmState :=
  match p s.codePos with
  | some (i, next) => i.handle { s with codePos := next }
  | none => .error (.error "Invalid opcode")

def run (p : Program) : Nat → VmState → Except VmFault VmState
  | 0, s => .ok s
  | n + 1, s => do step p (← run p n s)

end Acts.Vm
