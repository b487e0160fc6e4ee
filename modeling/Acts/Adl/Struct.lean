import Acts.Adl.Enums
import Acts.Lib.MaskUp

/-!
# Structures (`adl.cpp`)

* `compileStruct` — a structure definition; `compileAdl` — the definitions of a file.
* `Own` — the size that a type has of its own; `sizeOf_own` — `SizeOf` finds it.
* `valid_compileAdl` — names stand for types that exist, with sizes that fit in 64 bits.
-/

set_option autoImplicit false

namespace Acts.Adl

/-! ## The definitions -/

/-- `other` is not in the grammar. -/
inductive DataOperator where
  | padding
  | assertOffset
  | other (oper : String)
  deriving DecidableEq, Repr

/-- A member, with the values that `NumberNodeValue` gives for its numbers. -/
inductive StructMember where
  | data (typeName : String) (pointer : Bool) (fieldName : String) (array : Option (BitVec 64))
  | operator (oper : DataOperator) (number : BitVec 64)
  deriving DecidableEq, Repr

structure StructDef where
  align : Option (BitVec 64)
  size : Option (BitVec 64)
  name : String
  members : List StructMember
  deriving Repr

inductive StructError where
  /-- "Invalid align: 0x{:x}" -/
  | invalidAlign (align : Int)
  /-- "Invalid size: 0x{:x}" -/
  | invalidSize (size : Int)
  /-- "Type '{}' already defined" -/
  | typeDefined (name : String)
  /-- "Invalid struct type: {}" -/
  | invalidType (typeName : String)
  /-- "Recursive type definition isn't available: {}" -/
  | recursive (typeName : String)
  /-- "Field already defined for this structure {}" -/
  | fieldDefined (fieldName : String)
  /-- "Can't have negative array size {}" -/
  | negativeArray (arraySize : Int)
  /-- "Padding to a negative size {}" -/
  | negativePadding (arraySize : Int)
  /-- "Padding to a size after the current size 0x{:x} < 0x{:x}" -/
  | paddingBefore (arraySize : Int) (size : Nat)
  /-- "$assert_offset invalid: 0x{:x} != 0x{:x}" -/
  | assertOffset (arraySize : Int) (size : Nat)
  /-- "Operator not handler : {}" -/
  | notHandled (oper : String)
  /-- "Can't force the size for the type '{}' too large 0x{:x} >= 0x{:x}" -/
  | forcedSize (name : String) (size forcedSize : Nat)
  deriving DecidableEq, Repr

structure StructState where
  size : UInt64
  fields : List ADLStructField
  errors : List StructError

/-- `alignLen` -/
def alignLen (align : Nat) (frsize : UInt64) : UInt64 :=
  if align < frsize.toNat then .ofNat align else frsize

/-- A data member of the structure `id`.  A member without a type leaves a field without one in a
definition that is not accepted any more; it is left out here.  The name of the new field is still
zero when it is compared. -/
def addData (output : ADLData) (id : ADLDataTypeId) (align : Nat) (s : StructState)
    (typeName : String) (pointer : Bool) (fieldName : String) (array : Option (BitVec 64)) :
    StructState :=
  match output.idOfName typeName with
  | none => { s with errors := s.errors ++ [.invalidType typeName] }
  | some type =>
    if ¬ pointer ∧ type = id then { s with errors := s.errors ++ [.recursive typeName] }
    else
      let fieldHash := Gsc.Parser.hash64 fieldName
      let defined :=
        if fieldHash = 0 ∨ s.fields.any fun field => field.name == fieldHash then
          [StructError.fieldDefined fieldName]
        else []
      let arraySize :=
        match array with
        | none => 1
        | some v => if v.toInt < 0 then 0 else v.toNat
      let negative :=
        match array with
        | none => []
        | some v => if v.toInt < 0 then [StructError.negativeArray v.toInt] else []
      let frsize : UInt64 := if pointer then 8 else .ofNat (output.sizeOf type)
      let offset := if align > 1 then maskUp s.size (alignLen align frsize) else s.size
      let fsize := frsize * .ofNat arraySize
      { size := offset + fsize
        fields := s.fields ++ [⟨fieldHash, offset.toNat, type, pointer, arraySize, fsize.toNat⟩]
        errors := s.errors ++ defined ++ negative }

/-- An operator; an error of one ends the loop. -/
def addOperator (s : StructState) (oper : DataOperator) (number : BitVec 64) :
    ForInStep StructState :=
  match oper with
  | .padding =>
    if number.toInt < 0 then .done { s with errors := s.errors ++ [.negativePadding number.toInt] }
    else if number.toNat < s.size.toNat then
      .done { s with errors := s.errors ++ [.paddingBefore number.toInt s.size.toNat] }
    else
      .yield { s with
        size := .ofBitVec number
        fields := s.fields ++
          [⟨Gsc.Parser.hash64 "$$padding", number.toNat, .default .padding, false, 1, 0⟩] }
  | .assertOffset =>
    if number.toNat ≠ s.size.toNat then
      .done { s with errors := s.errors ++ [.assertOffset number.toInt s.size.toNat] }
    else .yield s
  | .other oper => .yield { s with errors := s.errors ++ [.notHandled oper] }

/-- One turn of the loop over the members. -/
def addStructMember (output : ADLData) (id : ADLDataTypeId) (align : Nat) (s : StructState) :
    StructMember → ForInStep StructState
  | .data typeName pointer fieldName array =>
    .yield (addData output id align s typeName pointer fieldName array)
  | .operator oper number => addOperator s oper number

def addStructMembers (output : ADLData) (id : ADLDataTypeId) (align : Nat) :
    List StructMember → StructState → StructState
  | [], s => s
  | m :: ms, s =>
    match addStructMember output id align s m with
    | .done s => s
    | .yield s => addStructMembers output id align ms s

/-- `CreateStruct`, with what the structure holds in the end. -/
def createStruct (output : ADLData) (str : ADLStruct) : ADLData :=
  let id := output.structs.length + 1
  { output with
    names := (str.name, .struct id) :: output.names
    structs := (id, str) :: output.structs }

/-- The data while the members of `str` are read. -/
def opened (output : ADLData) (str : ADLStruct) : ADLData :=
  createStruct output { str with size := 0, fields := [] }

def StructDef.alignVal (d : StructDef) (align : Nat) : Except StructError Nat :=
  match d.align with
  | none => .ok align
  | some v =>
    if v ≠ 0 ∧ v ≠ 1 ∧ v ≠ 2 ∧ v ≠ 4 ∧ v ≠ 8 ∧ v ≠ 0x10 then .error (.invalidAlign v.toInt)
    else .ok v.toNat

def StructDef.sizeVal (d : StructDef) : Except StructError Nat :=
  match d.size with
  | none => .ok 0
  | some v => if v.toInt < 0 then .error (.invalidSize v.toInt) else .ok v.toNat

/-- `CompileAdl` at a `RuleStruct_def`. -/
def compileStruct (output : ADLData) (d : StructDef) : List StructError × ADLData :=
  match d.alignVal output.align, d.sizeVal with
  | .error e, _ => ([e], output)
  | .ok _, .error e => ([e], output)
  | .ok align, .ok forcedSize =>
    if (output.idOfName d.name).isSome then ([.typeDefined d.name], output)
    else
      let str : ADLStruct :=
        ⟨.struct (output.structs.length + 1), Gsc.Parser.hash64 d.name, align, 0, forcedSize, []⟩
      let s := addStructMembers (opened output str) str.id align d.members ⟨0, [], []⟩
      if forcedSize = 0 then
        (s.errors, createStruct output { str with size := s.size.toNat, fields := s.fields })
      else if s.size.toNat > forcedSize then
        (s.errors ++ [.forcedSize d.name s.size.toNat forcedSize],
          createStruct output { str with size := s.size.toNat, fields := s.fields })
      else (s.errors, createStruct output { str with size := forcedSize, fields := s.fields })

/-- `CompileAdl` at a `RuleCustomtype_def`: whether it has no error, and the data. -/
def compileCustomType (output : ADLData) (lenDef : BitVec 64) (name : String) :
    Bool × ADLData :=
  if lenDef.toInt < 0 then (false, output)
  else if (output.idOfName name).isSome then (false, output)
  else
    let id := output.customtypes.length + 1
    (true, { output with
      names := (Gsc.Parser.hash64 name, .customDef id) :: output.names
      customtypes := (id, ⟨Gsc.Parser.hash64 name, lenDef.toNat⟩) :: output.customtypes })

/-- `CompileAdl` at a `RuleType_def`. -/
def compileTypeDef (output : ADLData) (origin dest : String) : Bool × ADLData :=
  match output.idOfName origin with
  | none => (false, output)
  | some target =>
    if (output.idOfName dest).isSome then (false, output)
    else
      let id := output.typedefs.length + 1
      (true, { output with
        names := (Gsc.Parser.hash64 dest, .typedef id) :: output.names
        typedefs := (id, target) :: output.typedefs })

/-- `CompileAdl` at a `RuleAlign_def`. -/
def compileAlign (output : ADLData) (align : BitVec 64) : Bool × ADLData :=
  if output.align ≠ 0 then (false, output)
  else if align ≠ 0 ∧ align ≠ 1 ∧ align ≠ 2 ∧ align ≠ 4 ∧ align ≠ 8 ∧ align ≠ 0x10 then
    (false, output)
  else (true, { output with align := align.toNat })

/-- A definition; those of an included file stand in its place. -/
inductive AdlDef where
  | struct (d : StructDef)
  | flag (d : EnumDef)
  | enum (d : EnumDef)
  | customType (lenDef : BitVec 64) (name : String)
  | typeDef (origin dest : String)
  | align (align : BitVec 64)

def compileDef (output : ADLData) : AdlDef → Bool × ADLData
  | .struct d => ((compileStruct output d).1.isEmpty, (compileStruct output d).2)
  | .flag d => ((compileFlag output d).1.isEmpty, (compileFlag output d).2)
  | .enum d => ((compileEnum output d).1.isEmpty, (compileEnum output d).2)
  | .customType lenDef name => compileCustomType output lenDef name
  | .typeDef origin dest => compileTypeDef output origin dest
  | .align align => compileAlign output align

/-- `CompileAdl`: whether there is no error, and the data. -/
def compileAdl (defs : List AdlDef) : Bool × ADLData :=
  defs.foldl (fun r d => (r.1 && (compileDef r.2 d).1, (compileDef r.2 d).2)) (true, .new)

/-! ## Sizes of types -/

/-- The size that a type has of its own. -/
inductive Own (data : ADLData) : ADLDataTypeId → Nat → Prop where
  | default (type : ADLDataTypeDefault) : Own data (.default type) type.size
  | struct {n : Nat} {str : ADLStruct} (h : data.structs.lookup n = some str) :
    Own data (.struct n) str.size
  | enum {n : Nat} {e : ADLEnum} (h : data.enums.lookup n = some e) :
    Own data (.enum n) e.typeSize.size
  | flag {n : Nat} {e : ADLEnum} (h : data.flags.lookup n = some e) :
    Own data (.flag n) e.typeSize.size
  | customDef {n : Nat} {c : ADLCustomType} (h : data.customtypes.lookup n = some c) :
    Own data (.customDef n) c.size
  | typedef {n k : Nat} {target : ADLDataTypeId} (h : data.typedefs.lookup n = some target)
    (ht : Own data target k) : Own data (.typedef n) k

/-- The type stands in its table. -/
def Known (data : ADLData) : ADLDataTypeId → Prop
  | .default _ => True
  | .struct n => (data.structs.lookup n).isSome
  | .enum n => (data.enums.lookup n).isSome
  | .flag n => (data.flags.lookup n).isSome
  | .customDef n => (data.customtypes.lookup n).isSome
  | .typedef n => (data.typedefs.lookup n).isSome

/-- Names and type definitions stand for types that exist, and sizes fit in 64 bits. -/
structure Valid (data : ADLData) : Prop where
  named : ∀ p ∈ data.names, Known data p.2
  aliased : ∀ p ∈ data.typedefs, Known data p.2 ∧ ∀ n, p.2 ≠ .typedef n
  structs : ∀ p ∈ data.structs, p.2.size < 2 ^ 64
  custom : ∀ p ∈ data.customtypes, p.2.size < 2 ^ 64

section Sizes

variable {data : ADLData} {id type : ADLDataTypeId} {n k : Nat}

theorem snd_mem_of_lookup {κ β : Type} [BEq κ] {a : κ} {b : β} {l : List (κ × β)}
    (h : l.lookup a = some b) : ∃ p ∈ l, p.2 = b := by
  induction l with
  | nil => cases h
  | cons p l ih =>
    rw [List.lookup_cons] at h
    split at h
    · cases h
      exact ⟨p, List.mem_cons_self, rfl⟩
    · obtain ⟨q, hq, hb⟩ := ih h
      exact ⟨q, List.mem_cons_of_mem p hq, hb⟩

theorem getBaseType_of_ne (data : ADLData) (h : ∀ n, id ≠ .typedef n) :
    data.getBaseType id = some id := by
  unfold ADLData.getBaseType
  cases id with
  | typedef n => exact absurd rfl (h n)
  | default _ | struct _ | enum _ | flag _ | customDef _ => rfl

theorem getBaseType_typedef {target : ADLDataTypeId}
    (h : data.typedefs.lookup n = some target) (hne : ∀ n, target ≠ .typedef n) :
    data.getBaseType (.typedef n) = some target := by
  unfold ADLData.getBaseType ADLData.baseTypeLoop
  rw [h, Option.bind_some]
  cases target with
  | typedef n => exact absurd rfl (hne n)
  | default _ | struct _ | enum _ | flag _ | customDef _ =>
    unfold ADLData.baseTypeLoop
    cases data.typedefs.length <;> rfl

theorem baseTypeLoop_ne {turns : Nat} (h : data.baseTypeLoop turns id = some type) :
    ∀ n, type ≠ .typedef n := by
  induction turns generalizing id with
  | zero =>
    cases id with
    | typedef n => cases h
    | default _ | struct _ | enum _ | flag _ | customDef _ =>
      cases h
      intro n heq
      cases heq
  | succ turns ih =>
    cases id with
    | typedef n =>
      unfold ADLData.baseTypeLoop at h
      obtain ⟨target, -, hloop⟩ := Option.bind_eq_some_iff.1 h
      exact ih hloop
    | default _ | struct _ | enum _ | flag _ | customDef _ =>
      cases h
      intro n heq
      cases heq

theorem sizeOf_of_base (h : data.getBaseType id = some type)
    (hne : ∀ n, type ≠ .typedef n) : data.sizeOf id = data.sizeOf type := by
  unfold ADLData.sizeOf
  rw [h, getBaseType_of_ne data hne]

/-- A type definition has the size of its type. -/
theorem sizeOf_typedef {target : ADLDataTypeId} (h : data.typedefs.lookup n = some target)
    (hne : ∀ n, target ≠ .typedef n) : data.sizeOf (.typedef n) = data.sizeOf target :=
  sizeOf_of_base (getBaseType_typedef h hne) hne

theorem Valid.ne_typedef (hv : Valid data) {target : ADLDataTypeId}
    (h : data.typedefs.lookup n = some target) : ∀ m, target ≠ .typedef m := by
  obtain ⟨p, hp, rfl⟩ := snd_mem_of_lookup h
  exact (hv.aliased p hp).2

/-- **`SizeOf` finds the size that a type has of its own.** -/
theorem sizeOf_own (hv : Valid data) (h : Own data id k) : data.sizeOf id = k := by
  induction h with
  | default type => rfl
  | struct h =>
    unfold ADLData.sizeOf
    rw [getBaseType_of_ne data fun n => by intro heq; cases heq]
    dsimp only
    rw [h]
    rfl
  | enum h =>
    unfold ADLData.sizeOf
    rw [getBaseType_of_ne data fun n => by intro heq; cases heq]
    dsimp only
    rw [h]
    rfl
  | flag h =>
    unfold ADLData.sizeOf
    rw [getBaseType_of_ne data fun n => by intro heq; cases heq]
    dsimp only
    rw [h]
    rfl
  | customDef h =>
    unfold ADLData.sizeOf
    rw [getBaseType_of_ne data fun n => by intro heq; cases heq]
    dsimp only
    rw [h]
    rfl
  | typedef h _ ih => rw [sizeOf_typedef h (hv.ne_typedef h), ih]

theorem exists_own_of_known (hne : ∀ n, id ≠ .typedef n) (h : Known data id) :
    ∃ k, Own data id k := by
  cases id with
  | default type => exact ⟨_, .default type⟩
  | struct n =>
    obtain ⟨str, hstr⟩ := Option.isSome_iff_exists.1 h
    exact ⟨_, .struct hstr⟩
  | enum n =>
    obtain ⟨e, he⟩ := Option.isSome_iff_exists.1 h
    exact ⟨_, .enum he⟩
  | flag n =>
    obtain ⟨e, he⟩ := Option.isSome_iff_exists.1 h
    exact ⟨_, .flag he⟩
  | customDef n =>
    obtain ⟨c, hc⟩ := Option.isSome_iff_exists.1 h
    exact ⟨_, .customDef hc⟩
  | typedef n => exact absurd rfl (hne n)

/-- Every type that stands in its table has a size of its own. -/
theorem exists_own (hv : Valid data) (h : Known data id) : ∃ k, Own data id k := by
  cases id with
  | typedef n =>
    obtain ⟨target, htarget⟩ := Option.isSome_iff_exists.1 h
    obtain ⟨p, hp, rfl⟩ := snd_mem_of_lookup htarget
    obtain ⟨hknown, hne⟩ := hv.aliased p hp
    obtain ⟨k, hk⟩ := exists_own_of_known hne hknown
    exact ⟨k, .typedef htarget hk⟩
  | default _ | struct _ | enum _ | flag _ | customDef _ =>
    exact exists_own_of_known (fun n heq => by cases heq) h

theorem size_default_le (type : ADLDataTypeDefault) : type.size ≤ 8 := by
  cases type <;> decide

theorem own_lt (hv : Valid data) (h : Own data id k) : k < 2 ^ 64 := by
  induction h with
  | default type => exact Nat.lt_of_le_of_lt (size_default_le type) (by decide)
  | struct h =>
    obtain ⟨p, hp, rfl⟩ := snd_mem_of_lookup h
    exact hv.structs p hp
  | enum h => exact Nat.lt_of_le_of_lt (size_default_le _) (by decide)
  | flag h => exact Nat.lt_of_le_of_lt (size_default_le _) (by decide)
  | customDef h =>
    obtain ⟨p, hp, rfl⟩ := snd_mem_of_lookup h
    exact hv.custom p hp
  | typedef _ _ ih => exact ih

/-- A name stands for a type that has a size, which is that of its base type. -/
theorem own_of_idOfName (hv : Valid data) {name : String} (h : data.idOfName name = some type) :
    ∃ id k, data.names.lookup (Gsc.Parser.hash64 name) = some id ∧ Own data id k ∧
      data.sizeOf type = k := by
  unfold ADLData.idOfName at h
  obtain ⟨id, hid, hbase⟩ := Option.bind_eq_some_iff.1 h
  obtain ⟨p, hp, heq⟩ := snd_mem_of_lookup hid
  obtain ⟨k, hk⟩ := exists_own hv (hv.named p hp)
  rw [heq] at hk
  exact ⟨id, k, hid, hk,
    (sizeOf_of_base hbase (baseTypeLoop_ne hbase)).symm.trans (sizeOf_own hv hk)⟩

theorem known_of_idOfName (hv : Valid data) {name : String}
    (h : data.idOfName name = some type) : Known data type ∧ ∀ n, type ≠ .typedef n := by
  unfold ADLData.idOfName at h
  obtain ⟨id, hid, hbase⟩ := Option.bind_eq_some_iff.1 h
  obtain ⟨p, hp, rfl⟩ := snd_mem_of_lookup hid
  have hknown := hv.named p hp
  refine ⟨?_, baseTypeLoop_ne hbase⟩
  by_cases htypedef : ∃ n, p.2 = .typedef n
  · obtain ⟨n, hn⟩ := htypedef
    rw [hn] at hknown hbase
    obtain ⟨target, htarget⟩ := Option.isSome_iff_exists.1 hknown
    rw [getBaseType_typedef htarget (hv.ne_typedef htarget)] at hbase
    cases hbase
    obtain ⟨q, hq, rfl⟩ := snd_mem_of_lookup htarget
    exact (hv.aliased q hq).1
  · rw [getBaseType_of_ne data fun n hn => htypedef ⟨n, hn⟩] at hbase
    cases hbase
    exact hknown

/-! ## Every file -/

/-- Tables only grow. -/
structure Grows (data data' : ADLData) : Prop where
  structs : ∀ n, (data.structs.lookup n).isSome → (data'.structs.lookup n).isSome
  enums : ∀ n, (data.enums.lookup n).isSome → (data'.enums.lookup n).isSome
  flags : ∀ n, (data.flags.lookup n).isSome → (data'.flags.lookup n).isSome
  custom : ∀ n, (data.customtypes.lookup n).isSome → (data'.customtypes.lookup n).isSome
  typedefs : ∀ n, (data.typedefs.lookup n).isSome → (data'.typedefs.lookup n).isSome

variable {data' : ADLData}

theorem isSome_lookup_cons {β : Type} {l : List (Nat × β)} (p : Nat × β)
    (h : (l.lookup n).isSome) : ((p :: l).lookup n).isSome := by
  rw [List.lookup_cons]
  split
  · rfl
  · exact h

theorem isSome_lookup_self {β : Type} (l : List (Nat × β)) (n : Nat) (b : β) :
    (((n, b) :: l).lookup n).isSome := by
  rw [List.lookup_cons_self]
  rfl

theorem Known.grow (hg : Grows data data') (h : Known data id) : Known data' id := by
  cases id with
  | default _ => trivial
  | struct n => exact hg.structs n h
  | enum n => exact hg.enums n h
  | flag n => exact hg.flags n h
  | customDef n => exact hg.custom n h
  | typedef n => exact hg.typedefs n h

/-- What is entered has to be valid, what is there stays so. -/
theorem Valid.grow (hv : Valid data) (hg : Grows data data')
    (hnames : ∀ p ∈ data'.names, p ∈ data.names ∨ Known data' p.2)
    (htypedefs : ∀ p ∈ data'.typedefs,
      p ∈ data.typedefs ∨ Known data' p.2 ∧ ∀ n, p.2 ≠ .typedef n)
    (hstructs : ∀ p ∈ data'.structs, p ∈ data.structs ∨ p.2.size < 2 ^ 64)
    (hcustom : ∀ p ∈ data'.customtypes, p ∈ data.customtypes ∨ p.2.size < 2 ^ 64) :
    Valid data' where
  named p hp := by
    rcases hnames p hp with hold | hnew
    · exact (hv.named p hold).grow hg
    · exact hnew
  aliased p hp := by
    rcases htypedefs p hp with hold | hnew
    · exact ⟨(hv.aliased p hold).1.grow hg, (hv.aliased p hold).2⟩
    · exact hnew
  structs p hp := by
    rcases hstructs p hp with hold | hnew
    · exact hv.structs p hold
    · exact hnew
  custom p hp := by
    rcases hcustom p hp with hold | hnew
    · exact hv.custom p hold
    · exact hnew

theorem valid_createStruct (hv : Valid data) {str : ADLStruct} (hsize : str.size < 2 ^ 64) :
    Valid (createStruct data str) := by
  refine hv.grow ⟨fun n => isSome_lookup_cons _, fun _ h => h, fun _ h => h, fun _ h => h,
    fun _ h => h⟩ (fun p hp => ?_) (fun _ hp => .inl hp) (fun p hp => ?_) fun _ hp => .inl hp
  · rcases List.mem_cons.1 hp with rfl | hp
    · exact .inr (isSome_lookup_self data.structs _ str)
    · exact .inl hp
  · rcases List.mem_cons.1 hp with rfl | hp
    · exact .inr hsize
    · exact .inl hp

theorem valid_createFlag (hv : Valid data) (e : ADLEnum) : Valid (createFlag data e) := by
  refine hv.grow ⟨fun _ h => h, fun _ h => h, fun n => isSome_lookup_cons _, fun _ h => h,
    fun _ h => h⟩ (fun p hp => ?_) (fun _ hp => .inl hp) (fun _ hp => .inl hp)
    fun _ hp => .inl hp
  rcases List.mem_cons.1 hp with rfl | hp
  · exact .inr (isSome_lookup_self data.flags _ e)
  · exact .inl hp

theorem valid_createEnum (hv : Valid data) (e : ADLEnum) : Valid (createEnum data e) := by
  refine hv.grow ⟨fun _ h => h, fun n => isSome_lookup_cons _, fun _ h => h, fun _ h => h,
    fun _ h => h⟩ (fun p hp => ?_) (fun _ hp => .inl hp) (fun _ hp => .inl hp)
    fun _ hp => .inl hp
  rcases List.mem_cons.1 hp with rfl | hp
  · exact .inr (isSome_lookup_self data.enums _ e)
  · exact .inl hp

theorem valid_compileValues (hv : Valid data) {bounds : ADLDataTypeDefault → Bounds}
    {create : ADLData → ADLEnum → ADLData} (hcreate : ∀ e, Valid (create data e)) (d : EnumDef) :
    Valid (compileValues bounds create data d).2 := by
  unfold compileValues
  split
  · split
    · split
      · exact hv
      · exact hcreate _
    · exact hv
  · exact hv

theorem sizeVal_lt {d : StructDef} {size : Nat} (h : d.sizeVal = .ok size) : size < 2 ^ 64 := by
  unfold StructDef.sizeVal at h
  split at h
  · cases h
    decide
  · rename_i v hsome
    split at h
    · cases h
    · cases h
      exact v.isLt

theorem valid_compileStruct (hv : Valid data) (d : StructDef) :
    Valid (compileStruct data d).2 := by
  unfold compileStruct
  split
  · exact hv
  · exact hv
  · rename_i align forcedSize halign hsize
    split
    · exact hv
    · dsimp only
      split
      · exact valid_createStruct hv (UInt64.toNat_lt _)
      · split
        · exact valid_createStruct hv (UInt64.toNat_lt _)
        · exact valid_createStruct hv (sizeVal_lt hsize)

theorem valid_compileDef (hv : Valid data) (d : AdlDef) : Valid (compileDef data d).2 := by
  cases d with
  | struct d => exact valid_compileStruct hv d
  | flag d => exact valid_compileValues hv (valid_createFlag hv) d
  | enum d => exact valid_compileValues hv (valid_createEnum hv) d
  | customType lenDef name =>
    unfold compileDef compileCustomType
    dsimp only
    split
    · exact hv
    · split
      · exact hv
      · refine hv.grow ⟨fun _ h => h, fun _ h => h, fun _ h => h, fun n => isSome_lookup_cons _,
          fun _ h => h⟩ (fun p hp => ?_) (fun _ hp => .inl hp) (fun _ hp => .inl hp)
          fun p hp => ?_
        · rcases List.mem_cons.1 hp with rfl | hp
          · exact .inr (isSome_lookup_self data.customtypes _ _)
          · exact .inl hp
        · rcases List.mem_cons.1 hp with rfl | hp
          · exact .inr lenDef.isLt
          · exact .inl hp
  | typeDef origin dest =>
    unfold compileDef compileTypeDef
    dsimp only
    split
    · exact hv
    · rename_i target htarget
      split
      · exact hv
      · have hknown := known_of_idOfName hv htarget
        refine hv.grow ⟨fun _ h => h, fun _ h => h, fun _ h => h, fun _ h => h,
          fun n => isSome_lookup_cons _⟩ (fun p hp => ?_) (fun p hp => ?_)
          (fun _ hp => .inl hp) fun _ hp => .inl hp
        · rcases List.mem_cons.1 hp with rfl | hp
          · exact .inr (isSome_lookup_self data.typedefs _ target)
          · exact .inl hp
        · rcases List.mem_cons.1 hp with rfl | hp
          · refine .inr ⟨hknown.1.grow ?_, hknown.2⟩
            exact ⟨fun _ h => h, fun _ h => h, fun _ h => h, fun _ h => h,
              fun n => isSome_lookup_cons _⟩
          · exact .inl hp
  | align align =>
    unfold compileDef compileAlign
    dsimp only
    split
    · exact hv
    · split
      · exact hv
      · exact hv.grow ⟨fun _ h => h, fun _ h => h, fun _ h => h, fun _ h => h, fun _ h => h⟩
          (fun _ hp => .inl hp) (fun _ hp => .inl hp) (fun _ hp => .inl hp) fun _ hp => .inl hp

theorem valid_new : Valid .new where
  named p hp := by
    obtain ⟨entry, -, rfl⟩ := List.mem_map.1 hp
    trivial
  aliased p hp := by cases hp
  structs p hp := by cases hp
  custom p hp := by cases hp

/-- **In every file, names stand for types that exist, and sizes fit in 64 bits.** -/
theorem valid_compileAdl (defs : List AdlDef) : Valid (compileAdl defs).2 := by
  unfold compileAdl
  suffices hall : ∀ r : Bool × ADLData, Valid r.2 →
      Valid (defs.foldl (fun r d => (r.1 && (compileDef r.2 d).1, (compileDef r.2 d).2)) r).2 from
    hall (true, .new) valid_new
  induction defs with
  | nil => exact fun r hr => hr
  | cons d defs ih => exact fun r hr => ih _ (valid_compileDef hr d)

end Sizes

end Acts.Adl
