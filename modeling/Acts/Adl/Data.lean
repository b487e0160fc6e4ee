import Acts.Gsc.ConstExpr

/-!
# The data of ADL definitions (`adl.hpp`)

* `ADLDataTypeId` — the types, by kind and number; `0` is `none`.
* `ADLData.idOfName`, `ADLData.sizeOf` — looking up a type and its size through type definitions.
-/

set_option autoImplicit false

namespace Acts.Adl

/-! ## Types -/

inductive ADLDataTypeDefault where
  | padding
  | float
  | double
  | string
  | hash
  | int8
  | int16
  | int32
  | int64
  | uint8
  | uint16
  | uint32
  | uint64
  deriving DecidableEq, Repr

namespace ADLDataTypeDefault

/-- `IsUnsignedType`. -/
def isUnsignedType : ADLDataTypeDefault → Bool
  | uint8 | uint16 | uint32 | uint64 => true
  | _ => false

/-- `IsIntType`. -/
def isIntType : ADLDataTypeDefault → Bool
  | int8 | int16 | int32 | int64 | uint8 | uint16 | uint32 | uint64 => true
  | _ => false

/-- The table `defaults`; a padding has no entry. -/
def size : ADLDataTypeDefault → Nat
  | padding => 0
  | int8 | uint8 => 1
  | int16 | uint16 => 2
  | int32 | uint32 | float => 4
  | int64 | uint64 | double | string | hash => 8

end ADLDataTypeDefault

/-- The flags of `ADF_MASK` as constructors, with the number in `ADF_ID`. -/
inductive ADLDataTypeId where
  | default (type : ADLDataTypeDefault)
  | struct (n : Nat)
  | enum (n : Nat)
  | typedef (n : Nat)
  | flag (n : Nat)
  | customDef (n : Nat)
  deriving DecidableEq, Repr

structure ADLStructField where
  name : UInt64
  offset : Nat
  type : ADLDataTypeId
  pointer : Bool
  arraySize : Nat
  elemSize : Nat
  deriving DecidableEq, Repr

structure ADLStruct where
  id : ADLDataTypeId
  name : UInt64
  align : Nat
  size : Nat
  forcedSize : Nat
  fields : List ADLStructField
  deriving DecidableEq, Repr

structure ADLEnumField where
  name : UInt64
  value : BitVec 64
  deriving DecidableEq, Repr

/-- An `ADLEnum` or `ADLFlag`; both are created with a default type only. -/
structure ADLEnum where
  name : UInt64
  typeSize : ADLDataTypeDefault
  fields : List ADLEnumField
  deriving DecidableEq, Repr

structure ADLCustomType where
  name : UInt64
  size : Nat
  deriving DecidableEq, Repr

structure ADLData where
  align : Nat
  names : List (UInt64 × ADLDataTypeId)
  customtypes : List (Nat × ADLCustomType)
  typedefs : List (Nat × ADLDataTypeId)
  structs : List (Nat × ADLStruct)
  enums : List (Nat × ADLEnum)
  flags : List (Nat × ADLEnum)
  deriving DecidableEq

namespace ADLData

/-- The names that `ADLData()` enters. -/
def defaultNames : List (String × ADLDataTypeDefault) :=
  [("bool", .uint8), ("byte", .uint8), ("uint8", .uint8), ("uint8_t", .uint8),
    ("uint16", .uint16), ("uint16_t", .uint16), ("uint32", .uint32), ("uint32_t", .uint32),
    ("uint64", .uint64), ("uint64_t", .uint64), ("char", .int8), ("int8", .int8),
    ("int8_t", .int8), ("int16", .int16), ("int16_t", .int16), ("int32", .int32),
    ("int32_t", .int32), ("int64", .int64), ("int64_t", .int64), ("float", .float),
    ("double", .double), ("string", .string), ("hash", .hash), ("int", .int32),
    ("uint", .uint32), ("long", .int64), ("ulong", .uint64)]

/-- `ADLData()`. -/
def new : ADLData where
  align := 0
  names := defaultNames.map fun entry => (Gsc.Parser.hash64 entry.1, .default entry.2)
  customtypes := []
  typedefs := []
  structs := []
  enums := []
  flags := []

/-- The loop of `GetBaseType`, with the turns that are left. -/
def baseTypeLoop (data : ADLData) : Nat → ADLDataTypeId → Option ADLDataTypeId
  | 0, .typedef _ => none
  | turns + 1, .typedef n => (data.typedefs.lookup n).bind (baseTypeLoop data turns)
  | _, id => some id

/-- `GetBaseType`; a chain of type definitions is not longer than their table. -/
def getBaseType (data : ADLData) (id : ADLDataTypeId) : Option ADLDataTypeId :=
  baseTypeLoop data (data.typedefs.length + 1) id

/-- `IdOfName`. -/
def idOfName (data : ADLData) (name : String) : Option ADLDataTypeId :=
  (data.names.lookup (Gsc.Parser.hash64 name)).bind data.getBaseType

/-- `SizeOf`. -/
def sizeOf (data : ADLData) (type : ADLDataTypeId) : Nat :=
  match data.getBaseType type with
  | some (.enum n) => ((data.enums.lookup n).map fun e => e.typeSize.size).getD 0
  | some (.flag n) => ((data.flags.lookup n).map fun e => e.typeSize.size).getD 0
  | some (.struct n) => ((data.structs.lookup n).map ADLStruct.size).getD 0
  | some (.default d) => d.size
  | some (.customDef n) => ((data.customtypes.lookup n).map ADLCustomType.size).getD 0
  | some (.typedef _) | none => 0

end ADLData

end Acts.Adl
