import Acts.Gsc.Asm
import Acts.Lib.Codec

/-!
# The script formats of the virtual machines

What the compiler and the linker take from the `GSCOBJHandler` of a machine:

* `StringItem`, `ImportItem`, … — the entries of the tables, with the codecs of their structures.
* `GSCOBJHandler` — the handler classes: the entry sizes, the counts that a header keeps, and the
  numbers that a class gives to the kinds of an import.
* `Target`, `registeredTargets` — the machines that a handler is registered for.
* `Target.patchOffset` — where `PatchCode` writes the reference of an import.
-/

set_option autoImplicit false

namespace Acts.Gsc

/-! ## Entries -/

/-- `T8GSCString`; a `ScriptString` is the same bytes, with `type` in its padding. -/
structure StringItem where
  string : Nat
  numAddress : Nat
  type : Nat
  deriving DecidableEq, Repr

/-- `GSC_USEANIMTREE_ITEM`. -/
structure UseAnimTreeItem where
  numAddress : Nat
  address : Nat
  deriving DecidableEq, Repr

/-- `GSC_ANIMTREE_ITEM`. -/
structure AnimTreeItem where
  numAddress : Nat
  addressStr1 : Nat
  addressStr2 : Nat
  deriving DecidableEq, Repr

/-- `T7GscAnimTree`. -/
structure T7AnimTreeItem where
  name : Nat
  numTreeAddress : Nat
  numNodeAddress : Nat
  deriving DecidableEq, Repr

/-- `T8GSCGlobalVar`. -/
structure GVarItem where
  name : Nat
  numAddress : Nat
  deriving DecidableEq, Repr

/-- `IW23GSCImport`. -/
structure ImportItem where
  name : UInt64
  nameSpace : UInt64
  numAddress : Nat
  paramCount : UInt8
  flags : UInt8
  deriving DecidableEq, Repr

def stringCodec : Codec StringItem :=
  .record [4, 1, 1, 2] (fun s => [s.string, s.numAddress, s.type, 0])
    (fun vs => ⟨vs.getD 0 0, vs.getD 1 0, vs.getD 2 0⟩) (fun _ => rfl)

def useAnimTreeCodec : Codec UseAnimTreeItem :=
  .record [4, 4] (fun a => [a.numAddress, a.address])
    (fun vs => ⟨vs.getD 0 0, vs.getD 1 0⟩) (fun _ => rfl)

def animTreeCodec : Codec AnimTreeItem :=
  .record [4, 4, 4] (fun a => [a.numAddress, a.addressStr1, a.addressStr2])
    (fun vs => ⟨vs.getD 0 0, vs.getD 1 0, vs.getD 2 0⟩) (fun _ => rfl)

def t7AnimTreeCodec : Codec T7AnimTreeItem :=
  .record [4, 2, 2] (fun a => [a.name, a.numTreeAddress, a.numNodeAddress])
    (fun vs => ⟨vs.getD 0 0, vs.getD 1 0, vs.getD 2 0⟩) (fun _ => rfl)

def gvarCodec : Codec GVarItem :=
  .record [4, 4] (fun g => [g.name, g.numAddress])
    (fun vs => ⟨vs.getD 0 0, vs.getD 1 0⟩) (fun _ => rfl)

def ImportItem.fields (i : ImportItem) : List Nat :=
  [i.name.toNat, i.nameSpace.toNat, i.numAddress, i.paramCount.toNat, i.flags.toNat, 0]

def ImportItem.ofFields (vs : List Nat) : ImportItem :=
  ⟨.ofNat (vs.getD 0 0), .ofNat (vs.getD 1 0), vs.getD 2 0, .ofNat (vs.getD 3 0),
    .ofNat (vs.getD 4 0)⟩

theorem ImportItem.ofFields_fields (i : ImportItem) : ofFields i.fields = i := by
  cases i
  simp [ofFields, fields]

/-- `IW23GSCImport` ends in padding; the names of a `T8GSCImport` have four bytes. -/
def importCodec (wide : Bool) : Codec ImportItem :=
  .record (if wide then [8, 8, 2, 1, 1, 4] else [4, 4, 2, 1, 1, 0]) ImportItem.fields
    ImportItem.ofFields ImportItem.ofFields_fields

/-! ## Handlers -/

/-- The handler classes.  `T71B` and `T71A` are `t7`, `T835` and `T834` are `t8`, and the classes of
`T10` are `t10`. -/
inductive GSCOBJHandler where
  | actsF1 | mw23 | mw23b | t7 | t8 | t831 | t937 | t9 | t10 | t1116
  deriving DecidableEq, Repr

namespace GSCOBJHandler

/-- `GOHF_GLOBAL`. -/
def global : GSCOBJHandler → Bool
  | .t8 | .t831 | .t937 | .t9 => true
  | _ => false

/-- `GOHF_SUPPORT_GET_API_SCRIPT`. -/
def supportGetApiScript : GSCOBJHandler → Bool
  | .t7 | .t8 | .t831 | .t937 | .t9 => true
  | _ => false

/-- `GOHF_STRING_NAMES`. -/
def stringNames : GSCOBJHandler → Bool
  | .actsF1 | .t7 | .t831 => true
  | _ => false

/-- Whether an import is an `IW23GSCImport`. -/
def wideImports : GSCOBJHandler → Bool
  | .actsF1 | .mw23 | .mw23b | .t10 | .t1116 => true
  | _ => false

/-- `GetStringHeader`. -/
def stringHeader (h : GSCOBJHandler) (len : Nat) : List UInt8 :=
  match h with
  | .t937 | .t9 => [0x8b, UInt8.ofNat (len + 1), 0]
  | _ => []

/-- `WriteImport` keeps the low half of the names in a `T8GSCImport`. -/
def importItem (h : GSCOBJHandler) (i : ImportItem) : ImportItem :=
  if h.wideImports then i
  else { i with name := i.name.toUInt32.toUInt64, nameSpace := i.nameSpace.toUInt32.toUInt64 }

/-- A flag under another number. -/
def flagAs (flags flag as : UInt8) : UInt8 := if flags &&& flag != 0 then as else 0

/-- `MapFlagsImportToInt`. -/
def mapFlagsImportToInt (h : GSCOBJHandler) (flags : UInt8) : UInt8 :=
  let low := flags &&& 0xF
  match h with
  | .actsF1 =>
    match low.toNat with
    | 1 => 1
    | 2 => 3
    | 3 => 5
    | 4 => 6
    | 5 => 7
    | 6 => 9
    | 7 => 0xa
    | 9 => 4
    | 0xb => 8
    | 8 | 0xa => 2
    | _ => low
  | .mw23 =>
    let kind : UInt8 := match low.toNat with
      | 1 => 5
      | 2 => 4
      | 3 => 6
      | 4 => 1
      | 5 => 7
      | 6 => 2
      -- `METHOD_CHILDTHREAD` falls through to the builtin calls
      | 7 | 9 => 8
      | 0xb => 9
      | 8 => 0xa
      | 0xa => 0xb
      | _ => low
    kind ||| flagAs flags 0x10 0x10 ||| flagAs flags 0x40 0x20
  | .mw23b | .t10 | .t1116 =>
    let kind : UInt8 := match low.toNat with
      | 1 => 5
      | 2 => 4
      | 5 => 7
      | 7 | 4 => 1
      | 3 | 6 => 2
      | 9 => 8
      | 0xb => 9
      | 8 => 0xa
      | 0xa => 0xb
      | _ => low
    kind ||| flagAs flags 0x10 0x10 ||| flagAs flags 0x40 0x20
  | .t7 =>
    let kind : UInt8 := match low.toNat with
      | 5 => 4
      | 6 => 5
      | _ => low
    kind ||| flagAs flags 0x10 0x10 ||| flagAs flags 0x20 0x20
  | .t9 =>
    let kind : UInt8 := match low.toNat with
      | 7 => 1
      | 6 => 2
      | 4 => 3
      | 2 => 4
      | 1 => 5
      | 3 => 6
      | 5 => 7
      | _ => low
    kind ||| flagAs flags 0x10 0x20 ||| flagAs flags 0x20 0x10
  | .t8 | .t831 | .t937 => flags

/-- `RemapFlagsImport`. -/
def remapFlagsImport (h : GSCOBJHandler) (flags : UInt8) : UInt8 :=
  let low := flags &&& 0xF
  match h with
  | .actsF1 =>
    match low.toNat with
    | 1 => 1
    | 3 => 2
    | 5 => 3
    | 6 => 4
    | 7 => 5
    | 9 => 6
    | 0xa => 7
    | 4 => 9
    | 8 => 0xb
    | 2 => 8
    | _ => low
  | .mw23 | .mw23b | .t10 | .t1116 =>
    let kind : UInt8 := match low.toNat with
      | 1 | 3 => 4
      | 2 => 6
      | 6 => 3
      | 4 | 7 | 8 | 0xA => 2
      | 5 => 1
      | 9 | 0xB => 5
      | _ => low
    kind ||| flagAs flags 0x10 0x10 ||| flagAs flags 0x20 0x40
  | .t7 =>
    let kind : UInt8 := match low.toNat with
      | 4 => 5
      | 5 => 6
      | _ => low
    kind ||| flagAs flags 0x10 0x10 ||| flagAs flags 0x20 0x20
  | .t9 =>
    let kind : UInt8 := match low.toNat with
      | 1 => 7
      | 2 => 6
      | 3 => 4
      | 4 => 2
      | 5 => 1
      | 6 => 3
      | 7 => 5
      | _ => low
    kind ||| flagAs flags 0x20 0x10 ||| flagAs flags 0x10 0x20
  | .t8 | .t831 | .t937 => flags

/-! ### The counts of the header

The setters take a `uint16_t`; some classes keep less of it, or nothing. -/

def setCount (n : Nat) : Nat := n % 2 ^ 16

/-- `SetDevStringsCount`. -/
def setDevStringsCount (h : GSCOBJHandler) (n : Nat) : Nat :=
  match h with
  | .actsF1 => 0
  | _ => setCount n

/-- `SetGVarsCount`. -/
def setGVarsCount (h : GSCOBJHandler) (n : Nat) : Nat :=
  if h.global then setCount n else 0

/-- `SetAnimTreeSingleCount`. -/
def setAnimTreeSingleCount (h : GSCOBJHandler) (n : Nat) : Nat :=
  match h with
  | .mw23 | .mw23b | .t10 | .t1116 => setCount n
  | _ => 0

/-- `SetAnimTreeDoubleCount`; `none` is its exception. -/
def setAnimTreeDoubleCount (h : GSCOBJHandler) (n : Nat) : Option Nat :=
  match h with
  | .mw23 | .mw23b | .t10 | .t1116 => some (setCount n)
  | .t7 => some (setCount n % 2 ^ 8)
  | .t831 => if setCount n > 255 then none else some (setCount n)
  | _ => some 0

end GSCOBJHandler

/-! ## Targets -/

/-- A machine with its handler; the other fields are `VMF_IW_LIKE`, `VMF_CALL_NO_PARAMS` and
`VMF_ANIMTREE_T7`. -/
structure Target where
  vm : VmInfo
  handler : GSCOBJHandler
  iwLike : Bool
  callNoParams : Bool
  animtreeT7 : Bool
  deriving DecidableEq, Repr

/-- The calls of `RegisterGSCOBJHandler` with the flags of the machines, by internal name.  The
setters of `IWGSCOBJHandler` all throw. -/
def targetOf (vm : VmInfo) : Option Target :=
  match vm.name with
  | "acts" => some ⟨vm, .actsF1, true, true, false⟩
  | "mwiiia" => some ⟨vm, .mw23, true, true, false⟩
  | "mwiii" => some ⟨vm, .mw23b, true, true, false⟩
  | "bo3" | "bo3_1b" | "bo3_1a" => some ⟨vm, .t7, false, false, true⟩
  | "bo4" | "bo4_35" | "bo4_34" => some ⟨vm, .t8, false, false, false⟩
  | "bo4_31" => some ⟨vm, .t831, false, false, true⟩
  | "cw" => some ⟨vm, .t9, false, false, false⟩
  | "cw37" => some ⟨vm, .t937, false, false, false⟩
  | "bo6_6" | "bo6_7" | "bo6_b" | "bo6_c" | "bo6_d" | "bo6_e" | "bo6_f" | "bo6_10" | "bo6_11"
  | "bo6_12" | "bo6_13" | "bo6" => some ⟨vm, .t10, true, true, false⟩
  | "bo7_15" | "bo7_16" | "bo7_17" | "bo7_18" | "bo7_19" | "bo7" =>
    some ⟨vm, .t1116, true, true, false⟩
  | _ => none

def registeredTargets : List Target := registeredVms.filterMap targetOf

theorem vm_of_registered {t : Target} (h : t ∈ registeredTargets) : t.vm ∈ registeredVms := by
  obtain ⟨vm, hvm, ht⟩ := List.mem_filterMap.mp h
  have heq : t.vm = vm := by
    unfold targetOf at ht
    split at ht
    all_goals first
      | cases ht
        rfl
      | cases ht
  rwa [heq]

/-! ## Linking -/

namespace Target

variable (t : Target)

/-- The byte of parameters that a call of `VMF_IW_CALLS` has before its reference. -/
def importDelta (flags : UInt8) : Nat :=
  if t.vm.hasFlag .iwCalls then
    match (t.handler.remapFlagsImport flags &&& 0xF).toNat with
    | 3 | 4 | 9 | 6 | 7 | 0xb => 1
    | _ => 0
  else 0

def opcodeSize : Nat := if t.vm.hasFlag .opcodeU16 then 2 else 1

/-- Where `PatchCode` writes the reference for an address of an import with these flags. -/
def patchOffset (flags : UInt8) (address : Nat) : Option Nat :=
  if t.iwLike then some (address + t.importDelta flags)
  else
    match (t.handler.remapFlagsImport flags &&& 0xF).toNat with
    | 1 => some (aligned (address + t.opcodeSize) 8)
    | 2 | 3 | 4 | 5 | 6 | 7 =>
      some (aligned (address + t.opcodeSize + if t.callNoParams then 0 else 1) 8)
    | _ => none

end Target

/-- The kind of import that a call is registered with, once the calls are linked; a machine without
`GOHF_SUPPORT_GET_API_SCRIPT` tells the builtin calls from the others. -/
def callType (h : GSCOBJHandler) : OPCode → Option UInt8
  | .getResolveFunction => some 1
  | .scriptFunctionCall => some 2
  | .scriptThreadCall => some 3
  | .scriptThreadCallEndOn => some 4
  | .scriptMethodCall => some 5
  | .scriptMethodThreadCall => some 6
  | .scriptMethodThreadCallEndOn => some 7
  | .callBuiltinFunction => some (if h.supportGetApiScript then 2 else 9)
  | .callBuiltinMethod => if h.supportGetApiScript then none else some 0xb
  | _ => none

end Acts.Gsc
