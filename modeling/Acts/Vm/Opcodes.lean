import Acts.Gsc.AsmLayout
import Acts.Lib.Fetch

/-!
# The opcodes of the ACTS virtual machine

* `OpCodeId` — the opcodes with their bytes; `OpCodeId.operands` — what each handler reads.
* `actsOpCodes`, `actsCtx` — the same machine as a target of the compiler.
* `AscmNode.Handled` — the nodes that the compiler builds for it, where the opcode has a handler.
* `AscmNode.instrs` — the instructions of such a node, with the operands stored in it.
-/

set_option autoImplicit false

namespace Acts.Vm

open Acts.Gsc Acts.Fetch

/-! ## The machine -/

inductive OpCodeId where
  | abort | nop | exportNoParams | exportParams | end_ | return_ | isDefined | decTop
  | getFunction | getBuiltinFunction | callFunction | callMethod | callBuiltinFunction
  | callBuiltinMethod | preCall | registerVars | jump | devBlock | jumpIfTrue | jumpIfFalse
  | jumpIfTrueExpr | jumpIfFalseExpr | jumpIfDefined | getInt | getFloat | getHash
  | getUndefined | getString | getVar | getVarRef | setRefValue | opPlus | opMinus | opNot
  | opMultiply | opDivide | opModulus | opBitXor | opBitOr | opBitAnd | opBitNot
  | opBitShiftLeft | opBitShiftRight | opLowerThan | opGreaterThan | opLowerOrEqualThan
  | opGreaterOrEqualThan | opLowerOrSuperEqualThan | opGreaterOrSuperEqualThan | opEqual
  | opNotEqual | opSuperEqual | opSuperNotEqual
  deriving DecidableEq, Repr

/-- The value of the enumeration. -/
def OpCodeId.code : OpCodeId → UInt8
  | .abort => 0
  | .nop => 1
  | .exportNoParams => 0x10
  | .exportParams => 0x11
  | .end_ => 0x12
  | .return_ => 0x13
  | .isDefined => 0x14
  | .decTop => 0x15
  | .getFunction => 0x16
  | .getBuiltinFunction => 0x17
  | .callFunction => 0x18
  | .callMethod => 0x19
  | .callBuiltinFunction => 0x1a
  | .callBuiltinMethod => 0x1b
  | .preCall => 0x1c
  | .registerVars => 0x1d
  | .jump => 0x20
  | .devBlock => 0x21
  | .jumpIfTrue => 0x22
  | .jumpIfFalse => 0x23
  | .jumpIfTrueExpr => 0x24
  | .jumpIfFalseExpr => 0x25
  | .jumpIfDefined => 0x26
  | .getInt => 0x30
  | .getFloat => 0x31
  | .getHash => 0x32
  | .getUndefined => 0x33
  | .getString => 0x35
  | .getVar => 0x36
  | .getVarRef => 0x37
  | .setRefValue => 0x38
  | .opPlus => 0x50
  | .opMinus => 0x51
  | .opNot => 0x52
  | .opMultiply => 0x53
  | .opDivide => 0x54
  | .opModulus => 0x55
  | .opBitXor => 0x56
  | .opBitOr => 0x57
  | .opBitAnd => 0x58
  | .opBitNot => 0x59
  | .opBitShiftLeft => 0x5a
  | .opBitShiftRight => 0x5b
  | .opLowerThan => 0x5c
  | .opGreaterThan => 0x5d
  | .opLowerOrEqualThan => 0x5e
  | .opGreaterOrEqualThan => 0x5f
  | .opLowerOrSuperEqualThan => 0x60
  | .opGreaterOrSuperEqualThan => 0x61
  | .opEqual => 0x62
  | .opNotEqual => 0x63
  | .opSuperEqual => 0x64
  | .opSuperNotEqual => 0x65

def OpCodeId.all : List OpCodeId := [
  .abort, .nop, .exportNoParams, .exportParams, .end_, .return_, .isDefined, .decTop,
  .getFunction, .getBuiltinFunction, .callFunction, .callMethod, .callBuiltinFunction,
  .callBuiltinMethod, .preCall, .registerVars, .jump, .devBlock, .jumpIfTrue, .jumpIfFalse,
  .jumpIfTrueExpr, .jumpIfFalseExpr, .jumpIfDefined, .getInt, .getFloat, .getHash, .getUndefined,
  .getString, .getVar, .getVarRef, .setRefValue, .opPlus, .opMinus, .opNot, .opMultiply,
  .opDivide, .opModulus, .opBitXor, .opBitOr, .opBitAnd, .opBitNot, .opBitShiftLeft,
  .opBitShiftRight, .opLowerThan, .opGreaterThan, .opLowerOrEqualThan, .opGreaterOrEqualThan,
  .opLowerOrSuperEqualThan, .opGreaterOrSuperEqualThan, .opEqual, .opNotEqual, .opSuperEqual,
  .opSuperNotEqual]

/-- What the handler of an opcode reads, if `HandleOpCode` has one. -/
def OpCodeId.operands : OpCodeId → Option Operands
  | .nop => some .none
  | .exportNoParams => some .none
  | .exportParams => some (.counted 8)
  | .registerVars => some (.counted 8)
  | .getInt => some (.word 8)
  | .getFloat => some (.word 4)
  | .getHash => some (.word 8)
  | .getUndefined => some .none
  | .getString => some (.word 4)
  | .getBuiltinFunction => some (.word 2)
  | .getFunction => some (.word 4)
  | .isDefined => some .none
  | .decTop => some .none
  | .preCall => some .none
  | .jump => some (.word 2)
  | .devBlock => some (.word 2)
  | .jumpIfTrue => some (.word 2)
  | .jumpIfFalse => some (.word 2)
  | .jumpIfTrueExpr => some (.word 2)
  | .jumpIfFalseExpr => some (.word 2)
  | .jumpIfDefined => some (.word 2)
  | .getVar => some (.word 1)
  | .getVarRef => some (.word 1)
  | .setRefValue => some .none
  | .opNot => some .none
  | .opBitXor => some .none
  | .opBitOr => some .none
  | .opBitAnd => some .none
  | .opBitNot => some .none
  | .opBitShiftLeft => some .none
  | .opBitShiftRight => some .none
  | .opModulus => some .none
  | _ => none

/-- The switch of `HandleOpCode`. -/
def handler (op : UInt8) : Option Operands :=
  (OpCodeId.all.find? (fun id => id.code == op)).bind OpCodeId.operands

/-! ## The machine as a target -/

/-- The opcodes that the compiler has for the machine. -/
def actsOpCodes : OPCode → Option OpCodeId
  | .nop => some .nop
  | .abort => some .abort
  | .checkClearParams => some .exportNoParams
  | .end_ => some .end_
  | .return_ => some .return_
  | .safeCreateLocalVariables => some .exportParams
  | .isDefined => some .isDefined
  | .decTop => some .decTop
  | .getResolveFunction => some .getFunction
  | .getFunction => some .getBuiltinFunction
  | .scriptFunctionCall => some .callFunction
  | .callBuiltinFunction => some .callBuiltinFunction
  | .scriptMethodCall => some .callMethod
  | .callBuiltinMethod => some .callBuiltinMethod
  | .preScriptCall => some .preCall
  | .iwRegisterMultipleVariables => some .registerVars
  | .getFloat => some .getFloat
  | .getInteger => some .getInt
  | .getHash => some .getHash
  | .getUndefined => some .getUndefined
  | .getString => some .getString
  | .evalLocalVariableCached => some .getVar
  | .evalLocalVariableRefCached => some .getVarRef
  | .setVariableField => some .setRefValue
  | .jump => some .jump
  | .devblockBegin => some .devBlock
  | .jumpOnDefinedExpr => some .jumpIfDefined
  | .jumpOnFalse => some .jumpIfFalse
  | .jumpOnFalseExpr => some .jumpIfFalseExpr
  | .jumpOnTrue => some .jumpIfTrue
  | .jumpOnTrueExpr => some .jumpIfTrueExpr
  | .plus => some .opPlus
  | .minus => some .opMinus
  | .boolNot => some .opNot
  | .multiply => some .opMultiply
  | .divide => some .opDivide
  | .modulus => some .opModulus
  | .bitXor => some .opBitXor
  | .bitOr => some .opBitOr
  | .bitAnd => some .opBitAnd
  | .boolComplement => some .opBitNot
  | .shiftLeft => some .opBitShiftLeft
  | .shiftRight => some .opBitShiftRight
  | .lessThan => some .opLowerThan
  | .greaterThan => some .opGreaterThan
  | .lessThanOrEqualTo => some .opLowerOrEqualThan
  | .greaterThanOrEqualTo => some .opGreaterOrEqualThan
  | .t10LowerThanOrSuperEqualTo => some .opLowerOrSuperEqualThan
  | .t10GreaterThanOrSuperEqualTo => some .opGreaterOrSuperEqualThan
  | .equal => some .opEqual
  | .notEqual => some .opNotEqual
  | .superEqual => some .opSuperEqual
  | .superNotEqual => some .opSuperNotEqual
  | _ => none

def actsVm : VmInfo := ⟨"acts", [.noParamFlags, .hash64], false, true⟩

/-- The compiler for the machine; every opcode has one id. -/
def actsCtx (lvars : Nat) : Ctx where
  vm := actsVm
  opCodes op := (actsOpCodes op).toList.map fun id => id.code.toUInt16
  rand _ := 0
  lvars := lvars
  hregisterVariable h := absurd rfl h
  hregisterMultiple _ := rfl

/-! ## Nodes -/

/-- The byte of an opcode. -/
def opByte (op : OPCode) : UInt8 := ((actsOpCodes op).map OpCodeId.code).getD 0

/-- The nodes that the compiler builds for the machine, where the opcode has a handler. -/
def handled : AscmNode → Bool
  | .label => true
  | .opCode op => (actsOpCodes op).bind OpCodeId.operands == some .none
  | .rawOpCode id => (handler (UInt8.ofNat id.toNat)).isSome
  | .data w _ op =>
    [(Width.w4, OPCode.getInteger), (.w4, .getFloat), (.w8, .getHash), (.w4, .getString)].contains
      (w, op)
  | .functionCall n => [OPCode.getFunction, .getResolveFunction].contains n.opcode &&
      !n.flags.pointer
  | .var _ op => [OPCode.evalLocalVariableCached, .evalLocalVariableRefCached].contains op
  | .createLocalVariables _ => true
  | .jump _ op =>
    [OPCode.jump, .devblockBegin, .jumpOnDefinedExpr, .jumpOnFalse, .jumpOnFalseExpr, .jumpOnTrue,
      .jumpOnTrueExpr].contains op
  | _ => false

/-- What stands for the import in a call until the linker replaces it. -/
def placeholder (dataSize : Nat) : Nat :=
  readLe dataSize ((List.range dataSize).map UInt8.ofNat)

/-- The size of an import. -/
def importSize (op : OPCode) : Nat := if op = .getFunction then 2 else 4

/-- The values that name variables. -/
def varNames (n : LocalVariables) (vars : List (FunctionVar × Nat)) : List Nat :=
  vars.map fun v => if n.obfuscate then v.2 else v.1.field

/-- The instructions of a node with the operands that the compiler stored. -/
def instrs (c : Ctx) (rlocs : Nat → Nat) (rloc : Nat) : AscmNode → List Instr
  | .opCode op => [.plain (opByte op)]
  | .rawOpCode id => [.plain (UInt8.ofNat id.toNat)]
  | .data w val op => [.word (opByte op) w.bytes val]
  | .functionCall n =>
    [.word (opByte n.opcode) (importSize n.opcode) (placeholder (importSize n.opcode))]
  | .var varId op => [.word (opByte op) 1 ((c.lvars + 2 ^ 64 - varId - 1) % 2 ^ 64)]
  | .createLocalVariables n =>
    (if n.params = 0 then .plain (opByte .checkClearParams)
      else .counted (opByte .safeCreateLocalVariables) 8 (varNames n (n.numbered.take n.params))) ::
    if n.vars.length - n.params = 0 then []
    else [.counted (opByte .iwRegisterMultipleVariables) 8
      (varNames n (n.numbered.drop n.params))]
  | .jump location op =>
    [.word (opByte op) 2 ((jumpDelta (rlocs location) ((rloc + 3) % 2 ^ 32)).getD 0)]
  | _ => []

/-- The node can be fetched at `pos`: it is not an integer (stored in 4 bytes and read in 8) nor a
raw opcode that has operands, there are at most 255 local variables, and the operands lie at
multiples of their widths. -/
def Fetchable (pos : Nat) : AscmNode → Prop
  | .rawOpCode id => handler (UInt8.ofNat id.toNat) = some .none
  | .data w _ op => op ≠ .getInteger ∧ w.bytes ∣ pos + 1
  | .functionCall n => importSize n.opcode ∣ pos + 1
  | .createLocalVariables n =>
    (n.params ≠ 0 → 8 ∣ pos + 2) ∧
      (n.vars.length - n.params ≠ 0 → n.vars.length - n.params < 256 ∧
        8 ∣ (pos + if n.params = 0 then 1 else 8 * n.params + 2) + 2)
  | .jump _ _ => 2 ∣ pos + 1
  | _ => True

instance (pos : Nat) (n : AscmNode) : Decidable (Fetchable pos n) :=
  match n with
  | .label => inferInstanceAs (Decidable True)
  | .raw _ _ => inferInstanceAs (Decidable True)
  | .opCode _ => inferInstanceAs (Decidable True)
  | .rawOpCode id =>
    inferInstanceAs (Decidable (handler (UInt8.ofNat id.toNat) = some .none))
  | .data w _ op => inferInstanceAs (Decidable (op ≠ .getInteger ∧ w.bytes ∣ pos + 1))
  | .hash _ _ _ => inferInstanceAs (Decidable True)
  | .stringData _ _ => inferInstanceAs (Decidable True)
  | .functionCall n => inferInstanceAs (Decidable (importSize n.opcode ∣ pos + 1))
  | .var _ _ => inferInstanceAs (Decidable True)
  | .createLocalVariables n => inferInstanceAs (Decidable ((n.params ≠ 0 → 8 ∣ pos + 2) ∧
      (n.vars.length - n.params ≠ 0 → n.vars.length - n.params < 256 ∧
        8 ∣ (pos + if n.params = 0 then 1 else 8 * n.params + 2) + 2)))
  | .globalVariable _ => inferInstanceAs (Decidable True)
  | .lazyLink _ _ _ => inferInstanceAs (Decidable True)
  | .jump _ _ => inferInstanceAs (Decidable (2 ∣ pos + 1))

end Acts.Vm
