import Acts.Adl.Data

/-!
# Enums and flags (`adl.cpp`)

* `compileFlag`, `compileEnum` — the two definitions, as `compileValues` with their bounds.
* `memberValues` — the values that the members have by counting, without wrapping.
* `flag_iff`, `enum_iff` — **which definitions are accepted with representable values only.**
-/

set_option autoImplicit false

namespace Acts.Adl

/-! ## The definitions -/

/-- The first child of a member: a string (as `GetTreeString` reads it), an identifier, or another
tree. -/
inductive EnumVal where
  | string (text : String)
  | idf (text : String)
  | other (text : String)
  deriving DecidableEq, Repr

/-- A member, with the value that `NumberNodeValue` gives for its number. -/
structure EnumMember where
  val : EnumVal
  number : Option (BitVec 64)
  deriving DecidableEq, Repr

structure EnumDef where
  name : String
  type : String
  members : List EnumMember
  deriving Repr

inductive AdlError where
  /-- "Type '{}' doesn't exist or isn't an int type" -/
  | notAnInt (type : String)
  /-- "Type '{}' already defined" -/
  | typeDefined (name : String)
  /-- "Out of bounds value for '{}', {} not in [{},{}[", or "[{},{}]" for an enum -/
  | outOfBounds (name : String) (value minValue maxValue : Int)
  /-- "Unhandled flag val {}" -/
  | unhandledVal (text : String)
  /-- "Field already defined for this structure {}" -/
  | fieldDefined (name : String)
  deriving DecidableEq, Repr

/-- `minValue` and `maxValue`, and whether the upper bound itself is allowed. -/
structure Bounds where
  minValue : Int
  maxValue : Int
  inclusive : Bool

/-- The bounds test of a member. -/
def Bounds.outside (b : Bounds) (value : Int) : Bool :=
  (if b.inclusive then decide (value > b.maxValue) else decide (value ≥ b.maxValue)) ||
    decide (value < b.minValue)

/-- The bounds of a flag; the integer types have 1, 2, 4 or 8 bytes. -/
def flagBounds (type : ADLDataTypeDefault) : Bounds :=
  let sizeOf := type.size
  if type.isUnsignedType then
    ⟨0, if sizeOf = 8 then 2 ^ 63 - 1 else 2 ^ (8 * sizeOf), false⟩
  else if sizeOf = 8 then ⟨-2 ^ 63, 2 ^ 63 - 1, false⟩
  else ⟨-2 ^ (8 * sizeOf), 2 ^ (8 * sizeOf) - 1, false⟩

/-- The bounds of an enum. -/
def enumBounds (type : ADLDataTypeDefault) : Bounds :=
  let sizeOf := type.size
  if type.isUnsignedType then
    ⟨0, if sizeOf = 8 then 2 ^ 63 - 1 else 2 ^ (8 * sizeOf) - 1, true⟩
  else if sizeOf = 8 then ⟨-2 ^ 63, 2 ^ 63 - 1, true⟩
  else
    let maxValue := 2 ^ (8 * sizeOf - 1) - 1
    ⟨-(maxValue + 1), maxValue, true⟩

structure MemberState where
  currId : BitVec 64
  fields : List ADLEnumField
  errors : List AdlError

/-- `value = ++currId`, or the number of the member; a sum past `INT64_MAX` wraps. -/
def EnumMember.value (m : EnumMember) (currId : BitVec 64) : BitVec 64 :=
  match m.number with
  | none => currId + 1
  | some v => v

def EnumMember.fieldName (m : EnumMember) : String :=
  match m.val with
  | .string text => text
  | .idf text => text
  | .other _ => ""

/-- The errors of one member. -/
def memberErrors (name : String) (b : Bounds) (s : MemberState) (m : EnumMember) :
    List AdlError :=
  let value := (m.value s.currId).toInt
  (if b.outside value then [.outOfBounds name value b.minValue b.maxValue] else []) ++
  (match m.val with
    | .other text => [.unhandledVal text]
    | _ => []) ++
  (if s.fields.any fun field => field.name == Gsc.Parser.hash64 m.fieldName then
    [.fieldDefined m.fieldName] else [])

/-- One turn of the loop over the members. -/
def addMember (name : String) (b : Bounds) (s : MemberState) (m : EnumMember) : MemberState where
  currId := m.value s.currId
  fields := s.fields ++ [⟨Gsc.Parser.hash64 m.fieldName, m.value s.currId⟩]
  errors := s.errors ++ memberErrors name b s m

def compileMembers (name : String) (b : Bounds) (members : List EnumMember) : MemberState :=
  members.foldl (addMember name b) ⟨-1, [], []⟩

/-- What both definitions do: the type and name are checked, `create` enters the fields. -/
def compileValues (bounds : ADLDataTypeDefault → Bounds)
    (create : ADLData → ADLEnum → ADLData) (output : ADLData) (d : EnumDef) :
    List AdlError × ADLData :=
  match output.idOfName d.type with
  | some (.default type) =>
    if type.isIntType then
      if (output.idOfName d.name).isSome then ([.typeDefined d.name], output)
      else
        let s := compileMembers d.name (bounds type) d.members
        (s.errors, create output ⟨Gsc.Parser.hash64 d.name, type, s.fields⟩)
    else ([.notAnInt d.type], output)
  | _ => ([.notAnInt d.type], output)

/-- `CreateFlag`, with the fields of the flag. -/
def createFlag (output : ADLData) (e : ADLEnum) : ADLData :=
  let id := output.flags.length + 1
  { output with
    names := (e.name, .flag id) :: output.names
    flags := (id, e) :: output.flags }

/-- `CreateEnum`, with the fields of the enum. -/
def createEnum (output : ADLData) (e : ADLEnum) : ADLData :=
  let id := output.enums.length + 1
  { output with
    names := (e.name, .enum id) :: output.names
    enums := (id, e) :: output.enums }

/-- `CompileAdl` at a `RuleFlag_def`. -/
def compileFlag : ADLData → EnumDef → List AdlError × ADLData := compileValues flagBounds createFlag

/-- `CompileAdl` at a `RuleEnum_def`. -/
def compileEnum : ADLData → EnumDef → List AdlError × ADLData := compileValues enumBounds createEnum

/-! ## Values of members -/

/-- The value of a member by counting from the previous one. -/
def EnumMember.counted (m : EnumMember) (curr : Int) : Int :=
  match m.number with
  | none => curr + 1
  | some v => v.toInt

def memberValues : Int → List EnumMember → List Int
  | _, [] => []
  | curr, m :: ms => m.counted curr :: memberValues (m.counted curr) ms

/-- The values that the loop gives to the members. -/
def codeValues : BitVec 64 → List EnumMember → List (BitVec 64)
  | _, [] => []
  | curr, m :: ms => m.value curr :: codeValues (m.value curr) ms

/-- The value is one of the declared integer type. -/
def Representable (type : ADLDataTypeDefault) (v : Int) : Prop :=
  if type.isUnsignedType then 0 ≤ v ∧ v < 2 ^ (8 * type.size)
  else -2 ^ (8 * type.size - 1) ≤ v ∧ v < 2 ^ (8 * type.size - 1)

section Values

variable {curr : BitVec 64} {ms : List EnumMember}

theorem toInt_succ (curr : BitVec 64) :
    (curr + 1).toInt = if curr.toInt = 2 ^ 63 - 1 then -2 ^ 63 else curr.toInt + 1 := by
  have hlt := BitVec.toInt_lt (x := curr)
  have hge := BitVec.le_toInt (x := curr)
  rw [BitVec.toInt_add, show BitVec.toInt (1 : BitVec 64) = 1 from rfl, Int.bmod_def]
  split
  · split <;> omega
  · split <;> omega

/-- Values that an `int64_t` holds are what the loop computes. -/
theorem codeValues_eq (h : ∀ v ∈ memberValues curr.toInt ms, v < 2 ^ 63) :
    (codeValues curr ms).map BitVec.toInt = memberValues curr.toInt ms := by
  induction ms generalizing curr with
  | nil => rfl
  | cons m ms ih =>
    have hvalue : (m.value curr).toInt = m.counted curr.toInt := by
      have hfirst := h _ (List.mem_cons_self ..)
      unfold EnumMember.counted at hfirst ⊢
      unfold EnumMember.value
      cases hn : m.number with
      | none =>
        simp only [hn] at hfirst ⊢
        rw [toInt_succ, if_neg (by omega)]
      | some v => rfl
    simp only [codeValues, memberValues, List.map_cons]
    rw [← hvalue, ih]
    intro v hv
    refine h v (List.mem_cons_of_mem _ ?_)
    rwa [hvalue] at hv

/-- No value falls below the range of an `int64_t`. -/
theorem le_memberValues {curr : Int} (hcurr : -2 ^ 63 ≤ curr) {v : Int}
    (hv : v ∈ memberValues curr ms) : -2 ^ 63 ≤ v := by
  induction ms generalizing curr with
  | nil => cases hv
  | cons m ms ih =>
    have hvalue : -2 ^ 63 ≤ m.counted curr := by
      unfold EnumMember.counted
      split
      · omega
      · exact BitVec.le_toInt _
    rcases List.mem_cons.1 hv with rfl | hv
    · exact hvalue
    · exact ih hvalue hv

end Values

/-! ## Accepted definitions -/

/-- Nothing but a bound rejects the definition. -/
structure Clean (output : ADLData) (d : EnumDef) : Prop where
  free : output.idOfName d.name = none
  handled : ∀ m ∈ d.members, ∀ text, m.val ≠ .other text
  distinct : (d.members.map fun m => Gsc.Parser.hash64 m.fieldName).Nodup

section Members

variable {name : String} {b : Bounds} {s : MemberState} {ms : List EnumMember}

theorem memberErrors_eq_nil {m : EnumMember} :
    memberErrors name b s m = [] ↔
      b.outside (m.value s.currId).toInt = false ∧ (∀ text, m.val ≠ .other text) ∧
        ∀ field ∈ s.fields, field.name ≠ Gsc.Parser.hash64 m.fieldName := by
  unfold memberErrors
  rw [List.append_eq_nil_iff, List.append_eq_nil_iff, and_assoc]
  refine and_congr ?_ (and_congr ?_ ?_)
  · cases b.outside (m.value s.currId).toInt <;> simp
  · cases m.val <;> simp
  · simp

/-- What the loop over the members requires. -/
theorem errors_foldl :
    (ms.foldl (addMember name b) s).errors = [] ↔
      s.errors = [] ∧ (∀ v ∈ codeValues s.currId ms, b.outside v.toInt = false) ∧
        (∀ m ∈ ms, ∀ text, m.val ≠ .other text) ∧
        (ms.map fun m => Gsc.Parser.hash64 m.fieldName).Nodup ∧
        ∀ m ∈ ms, ∀ field ∈ s.fields, field.name ≠ Gsc.Parser.hash64 m.fieldName := by
  induction ms generalizing s with
  | nil => simp [codeValues]
  | cons m ms ih =>
    rw [List.foldl_cons, ih]
    simp only [addMember, List.append_eq_nil_iff, memberErrors_eq_nil, codeValues,
      List.forall_mem_cons, List.map_cons, List.nodup_cons]
    constructor
    · rintro ⟨⟨hs, hout, htext, hfields⟩, hvalues, hhandled, hnodup, hfresh⟩
      refine ⟨hs, ⟨hout, hvalues⟩, ⟨htext, hhandled⟩, ⟨fun hmem => ?_, hnodup⟩, hfields,
        fun m' hm' field hfield => hfresh m' hm' field (List.mem_append_left _ hfield)⟩
      obtain ⟨m', hm', heq⟩ := List.mem_map.1 hmem
      exact hfresh m' hm' ⟨_, _⟩ (List.mem_append_right _ (List.mem_singleton_self _)) heq.symm
    · rintro ⟨hs, ⟨hout, hvalues⟩, ⟨htext, hhandled⟩, ⟨hnew, hnodup⟩, hfields, hfresh⟩
      refine ⟨⟨hs, hout, htext, hfields⟩, hvalues, hhandled, hnodup, fun m' hm' field hfield => ?_⟩
      rcases List.mem_append.1 hfield with hfield | hfield
      · exact hfresh m' hm' field hfield
      · rw [List.mem_singleton.1 hfield]
        exact fun heq => hnew (List.mem_map.2 ⟨m', hm', heq.symm⟩)

/-- Only a value outside of the bounds is reported as such. -/
theorem outOfBounds_mem {name' : String} {v minValue maxValue : Int}
    (h : AdlError.outOfBounds name' v minValue maxValue ∈ (ms.foldl (addMember name b) s).errors)
    (hs : AdlError.outOfBounds name' v minValue maxValue ∉ s.errors) : b.outside v = true := by
  induction ms generalizing s with
  | nil => exact absurd h hs
  | cons m ms ih =>
    by_cases hm : AdlError.outOfBounds name' v minValue maxValue ∈ memberErrors name b s m
    · unfold memberErrors at hm
      rw [List.mem_append, List.mem_append] at hm
      rcases hm with (hm | hm) | hm
      · split at hm
        · rename_i hout
          rw [List.mem_singleton, AdlError.outOfBounds.injEq] at hm
          rw [hm.2.1]
          exact hout
        · cases hm
      · split at hm
        · cases List.mem_singleton.1 hm
        · cases hm
      · split at hm
        · cases List.mem_singleton.1 hm
        · cases hm
    · exact ih h fun hmem => (List.mem_append.1 hmem).elim hs hm

end Members

section Definitions

variable {bounds : ADLDataTypeDefault → Bounds} {create : ADLData → ADLEnum → ADLData}
  {output : ADLData} {d : EnumDef} {type : ADLDataTypeDefault}

theorem accepted_iff (htype : output.idOfName d.type = some (.default type))
    (hint : type.isIntType = true) :
    (compileValues bounds create output d).1 = [] ↔
      Clean output d ∧
        ∀ v ∈ codeValues (-1) d.members, (bounds type).outside v.toInt = false := by
  unfold compileValues
  simp only [htype, hint, if_true]
  cases hname : output.idOfName d.name with
  | some id =>
    simp only [Option.isSome_some, if_true, List.cons_ne_nil, false_iff]
    intro h
    cases hname.symm.trans h.1.free
  | none =>
    simp only [Option.isSome_none, Bool.false_eq_true, if_false, compileMembers]
    rw [errors_foldl]
    constructor
    · rintro ⟨-, hvalues, hhandled, hnodup, -⟩
      exact ⟨⟨hname, hhandled, hnodup⟩, hvalues⟩
    · rintro ⟨hclean, hvalues⟩
      exact ⟨rfl, hvalues, hclean.handled, hclean.distinct, fun _ _ _ h => absurd h List.not_mem_nil⟩

/-- The values of an accepted definition are of its type, and in a type of at most 4 bytes a
value of the type is not out of bounds. -/
structure BoundsRight (compile : ADLData → EnumDef → List AdlError × ADLData) (output : ADLData)
    (d : EnumDef) (type : ADLDataTypeDefault) : Prop where
  representable : (compile output d).1 = [] → ∀ v ∈ memberValues (-1) d.members,
    Representable type v
  complete : type.size ≤ 4 → ∀ v minValue maxValue, Representable type v →
    AdlError.outOfBounds d.name v minValue maxValue ∉ (compile output d).1

/-- No value of a small type is outside of the bounds that contain it. -/
theorem complete_of_bounds (htype : output.idOfName d.type = some (.default type))
    (hint : type.isIntType = true)
    (hb : ∀ v, Representable type v → (bounds type).outside v = false) {v minValue maxValue : Int}
    (hv : Representable type v) :
    AdlError.outOfBounds d.name v minValue maxValue ∉ (compileValues bounds create output d).1 := by
  intro hmem
  unfold compileValues at hmem
  simp only [htype, hint, if_true] at hmem
  split at hmem
  · cases List.mem_singleton.1 hmem
  · have hout := outOfBounds_mem hmem List.not_mem_nil
    rw [hb v hv] at hout
    cases hout

/-! ## Which definitions are right -/

/-- The values count on without wrapping as long as they stay inside of bounds that an `int64_t`
cannot leave upwards. -/
theorem memberValues_lt {b : Bounds} {curr : BitVec 64} {ms : List EnumMember}
    (hb : ∀ v : BitVec 64, b.outside v.toInt = false → v.toInt + 1 < 2 ^ 63 ∨
      b.outside (-2 ^ 63) = true)
    (hcurr : b.outside curr.toInt = false ∨ curr.toInt = -1)
    (h : ∀ v ∈ codeValues curr ms, b.outside v.toInt = false) :
    ∀ v ∈ memberValues curr.toInt ms, v < 2 ^ 63 := by
  induction ms generalizing curr with
  | nil => intro v hv; cases hv
  | cons m ms ih =>
    simp only [codeValues, List.forall_mem_cons] at h
    obtain ⟨hfirst, hrest⟩ := h
    have hvalue : (m.value curr).toInt = m.counted curr.toInt := by
      unfold EnumMember.counted
      unfold EnumMember.value at hfirst ⊢
      cases hn : m.number with
      | none =>
        simp only [hn] at hfirst ⊢
        rw [toInt_succ] at hfirst ⊢
        split at hfirst
        · rename_i hmax
          rcases hcurr with hcurr | hcurr
          · rcases hb curr hcurr with hlt | hout
            · omega
            · rw [hfirst] at hout
              cases hout
          · omega
        · rename_i hmax
          rw [if_neg hmax]
      | some v => rfl
    intro v hv
    rcases List.mem_cons.1 hv with rfl | hv
    · rw [← hvalue]
      exact BitVec.toInt_lt
    · refine ih (.inl hfirst) hrest v ?_
      rwa [hvalue]

/-- The values of an accepted definition are inside of such bounds. -/
theorem inside_of_accepted (htype : output.idOfName d.type = some (.default type))
    (hint : type.isIntType = true)
    (hb : ∀ v : BitVec 64, (bounds type).outside v.toInt = false → v.toInt + 1 < 2 ^ 63 ∨
      (bounds type).outside (-2 ^ 63) = true)
    (hacc : (compileValues bounds create output d).1 = []) :
    Clean output d ∧ ∀ v ∈ memberValues (-1) d.members, (bounds type).outside v = false := by
  obtain ⟨hclean, hvalues⟩ := (accepted_iff htype hint).mp hacc
  have hlt := memberValues_lt hb (.inr rfl) hvalues
  refine ⟨hclean, fun v hv => ?_⟩
  have hmap := codeValues_eq hlt
  rw [show (-1 : Int) = (-1 : BitVec 64).toInt from rfl, ← hmap] at hv
  obtain ⟨c, hc, rfl⟩ := List.mem_map.1 hv
  exact hvalues c hc

/-- A definition whose counted values are inside of the bounds is accepted. -/
theorem accepted_of_inside (htype : output.idOfName d.type = some (.default type))
    (hint : type.isIntType = true) (hclean : Clean output d)
    (h : ∀ v ∈ memberValues (-1) d.members, v < 2 ^ 63 ∧ (bounds type).outside v = false) :
    (compileValues bounds create output d).1 = [] := by
  refine (accepted_iff htype hint).mpr ⟨hclean, fun c hc => ?_⟩
  have hmap := @codeValues_eq (-1) _ fun v hv => (h v hv).1
  have hmem : c.toInt ∈ memberValues (-1) d.members := by
    rw [show (-1 : Int) = (-1 : BitVec 64).toInt from rfl, ← hmap]
    exact List.mem_map_of_mem hc
  exact (h _ hmem).2

end Definitions

section Exact

variable {output : ADLData} {d : EnumDef} {type : ADLDataTypeDefault}

theorem outside_eq_false (b : Bounds) (v : Int) :
    b.outside v = false ↔
      b.minValue ≤ v ∧ if b.inclusive then v ≤ b.maxValue else v < b.maxValue := by
  unfold Bounds.outside
  cases b.inclusive
  · simp
    omega
  · simp
    omega

/-- What a flag accepts: one bit more than a signed type has. -/
theorem flagBounds_spec (hint : type.isIntType = true) (v : Int) :
    (flagBounds type).outside v = false ↔
      if type.size = 8 then
        (if type.isUnsignedType then 0 else -2 ^ 63) ≤ v ∧ v < 2 ^ 63 - 1
      else if type.isUnsignedType then Representable type v
      else -2 ^ (8 * type.size) ≤ v ∧ v < 2 ^ (8 * type.size) - 1 := by
  rw [outside_eq_false]
  cases type <;> cases hint <;>
    simp [flagBounds, Representable, ADLDataTypeDefault.size, ADLDataTypeDefault.isUnsignedType]

/-- What an enum accepts: the values of its type, without the upper half of a `uint64_t`. -/
theorem enumBounds_spec (hint : type.isIntType = true) (v : Int) :
    (enumBounds type).outside v = false ↔
      Representable type v ∧ (type = .uint64 → v < 2 ^ 63) := by
  rw [outside_eq_false]
  cases type <;> cases hint <;>
    simp [enumBounds, Representable, ADLDataTypeDefault.size, ADLDataTypeDefault.isUnsignedType] <;>
    omega

theorem size_of_int (hint : type.isIntType = true) :
    type.size = 1 ∨ type.size = 2 ∨ type.size = 4 ∨ type.size = 8 := by
  cases type <;> cases hint <;> decide

theorem wide_types (hint : type.isIntType = true) (h : type.size = 8) :
    type = .int64 ∨ type = .uint64 := by
  cases type <;> cases hint <;> first | exact .inl rfl | exact .inr rfl | cases h

theorem flag_representable (hint : type.isIntType = true) {v : Int}
    (hv : (flagBounds type).outside v = false)
    (h : type.isUnsignedType = true ∨ type.size = 8) : Representable type v := by
  rw [flagBounds_spec hint] at hv
  by_cases h8 : type.size = 8
  · rw [if_pos h8] at hv
    unfold Representable
    rw [h8]
    split
    · rename_i hu
      rw [if_pos hu] at hv
      omega
    · rename_i hu
      rw [if_neg hu] at hv
      omega
  · rw [if_neg h8, if_pos (h.resolve_right h8)] at hv
    exact hv

/-- The bounds of a flag contain its type when that is short. -/
theorem flag_complete (hint : type.isIntType = true) (hshort : type.size ≤ 4) {v : Int}
    (hv : Representable type v) : (flagBounds type).outside v = false := by
  rw [flagBounds_spec hint, if_neg (by omega)]
  split
  · exact hv
  · rename_i hu
    unfold Representable at hv
    rw [if_neg hu] at hv
    rcases size_of_int hint with h | h | h | h <;> rw [h] at hv ⊢ <;> omega

/-- A flag over a short signed type whose values stay below the next power of two, one of them
not of the type. -/
structure Overreaching (output : ADLData) (d : EnumDef) (type : ADLDataTypeDefault) : Prop where
  clean : Clean output d
  signed : type.isUnsignedType = false
  short : type.size ≤ 4
  inside : ∀ v ∈ memberValues (-1) d.members,
    -2 ^ (8 * type.size) ≤ v ∧ v < 2 ^ (8 * type.size) - 1
  unrepresentable : ∃ v ∈ memberValues (-1) d.members, ¬ Representable type v

theorem flag_iff (htype : output.idOfName d.type = some (.default type))
    (hint : type.isIntType = true) :
    BoundsRight compileFlag output d type ↔ ¬ Overreaching output d type := by
  have hb : ∀ v : BitVec 64, (flagBounds type).outside v.toInt = false → v.toInt + 1 < 2 ^ 63 ∨
      (flagBounds type).outside (-2 ^ 63) = true := by
    intro v hv
    left
    rw [flagBounds_spec hint] at hv
    cases type <;> cases hint <;>
      simp [Representable, ADLDataTypeDefault.size, ADLDataTypeDefault.isUnsignedType] at hv <;>
      omega
  constructor
  · intro h hover
    obtain ⟨v, hv, hnot⟩ := hover.unrepresentable
    have hshort := hover.short
    have hlt : ∀ v ∈ memberValues (-1) d.members,
        v < 2 ^ 63 ∧ (flagBounds type).outside v = false := by
      intro v hv
      obtain ⟨hge, hle⟩ := hover.inside v hv
      refine ⟨?_, ?_⟩
      · rcases size_of_int hint with h | h | h | h <;> rw [h] at hle <;> omega
      · rw [flagBounds_spec hint, if_neg (by omega), hover.signed]
        exact ⟨hge, hle⟩
    exact hnot (h.representable (accepted_of_inside htype hint hover.clean hlt) v hv)
  · intro hover
    refine ⟨fun hacc v hv => ?_, fun hshort v _ _ hv =>
      complete_of_bounds htype hint (fun v => flag_complete hint hshort) hv⟩
    obtain ⟨hclean, hinside⟩ := inside_of_accepted htype hint hb hacc
    by_cases hgood : type.isUnsignedType = true ∨ type.size = 8
    · exact flag_representable hint (hinside v hv) hgood
    · rw [not_or, Bool.not_eq_true] at hgood
      by_contra hnot
      have hshort : type.size ≤ 4 := by
        have := size_of_int hint
        omega
      refine hover ⟨hclean, hgood.1, hshort, fun v hv => ?_, v, hv, hnot⟩
      have hv' := (flagBounds_spec hint v).mp (hinside v hv)
      rwa [if_neg hgood.2, hgood.1] at hv'

/-- An `int64` enum in which a member counts on from `INT64_MAX`. -/
structure CountsPast (output : ADLData) (d : EnumDef) (type : ADLDataTypeDefault) : Prop where
  clean : Clean output d
  wide : type = .int64
  past : ∃ v ∈ memberValues (-1) d.members, 2 ^ 63 ≤ v

theorem enum_iff (htype : output.idOfName d.type = some (.default type))
    (hint : type.isIntType = true) :
    BoundsRight compileEnum output d type ↔ ¬ CountsPast output d type := by
  constructor
  · rintro h ⟨hclean, rfl, v, hv, hpast⟩
    have hacc : (compileEnum output d).1 = [] := by
      refine (accepted_iff htype hint).mpr ⟨hclean, fun c _ => ?_⟩
      have hlt := BitVec.toInt_lt (x := c)
      have hge := BitVec.le_toInt (x := c)
      exact (enumBounds_spec hint _).mpr ⟨⟨hge, hlt⟩, fun h => by cases h⟩
    have hrep : Representable .int64 v := h.representable hacc v hv
    have hlt : v < 2 ^ 63 := hrep.2
    omega
  · intro hpast
    refine ⟨fun hacc v hv => ?_, fun hshort v _ _ hv =>
      complete_of_bounds htype hint (fun v hv => (enumBounds_spec hint v).mpr ⟨hv, ?_⟩) hv⟩
    · by_cases hwide : type = .int64
      · have hclean := ((accepted_iff htype hint).mp hacc).1
        have hge := le_memberValues (by omega) hv
        have hlt : v < 2 ^ 63 := by
          by_contra hnot
          exact hpast ⟨hclean, hwide, v, hv, by omega⟩
        subst hwide
        exact ⟨hge, hlt⟩
      · have hb : ∀ v : BitVec 64, (enumBounds type).outside v.toInt = false →
            v.toInt + 1 < 2 ^ 63 ∨ (enumBounds type).outside (-2 ^ 63) = true := by
          intro v hv
          obtain ⟨hrep, hu⟩ := (enumBounds_spec hint _).mp hv
          by_cases h64 : type = .uint64
          · subst h64
            right
            decide
          · left
            have hsmall : type.size ≠ 8 := fun h8 => (wide_types hint h8).elim hwide h64
            unfold Representable at hrep
            split at hrep <;> rcases size_of_int hint with h | h | h | h <;> rw [h] at hrep <;>
              omega
        have hinside := (inside_of_accepted htype hint hb hacc).2 v hv
        exact ((enumBounds_spec hint v).mp hinside).1
    · rintro rfl
      exact absurd hshort (by decide)

/-- **The bounds of a definition are right unless it is a flag that uses the values between its
short signed type and the next power of two, or an `int64` enum that counts past `INT64_MAX`.** -/
theorem values_right_iff (htype : output.idOfName d.type = some (.default type))
    (hint : type.isIntType = true) :
    (BoundsRight compileFlag output d type ↔ ¬ Overreaching output d type) ∧
      (BoundsRight compileEnum output d type ↔ ¬ CountsPast output d type) :=
  ⟨flag_iff htype hint, enum_iff htype hint⟩

/-- A flag of bits in a `uint8`, with a member that counts on. -/
def maskDef : EnumDef := ⟨"mask", "uint8", [⟨.idf "low", some 1⟩, ⟨.idf "next", none⟩]⟩

theorem type_of_mask : ADLData.new.idOfName maskDef.type = some (.default .uint8) := by
  decide +kernel

theorem mask_right :
    BoundsRight compileFlag .new maskDef .uint8 ∧ BoundsRight compileEnum .new maskDef .uint8 := by
  obtain ⟨hflag, henum⟩ := values_right_iff type_of_mask rfl
  refine ⟨hflag.mpr fun h => ?_, henum.mpr fun h => ?_⟩
  · cases h.signed
  · cases h.wide

/-- A flag over an `int8` with a member of value 200. -/
def signDef : EnumDef := ⟨"sign", "int8", [⟨.idf "big", some 200⟩]⟩

theorem signDef_accepted :
    ADLData.new.idOfName signDef.type = some (.default .int8) ∧
      (compileFlag .new signDef).1 = [] := by
  decide +kernel

theorem big_flag_accepted :
    ¬ ∀ (output : ADLData) (d : EnumDef) (type : ADLDataTypeDefault),
      output.idOfName d.type = some (.default type) → type.isIntType = true →
        BoundsRight compileFlag output d type ∧ BoundsRight compileEnum output d type := by
  intro h
  obtain ⟨htype, hacc⟩ := signDef_accepted
  have hrep : Representable .int8 200 :=
    (h .new signDef .int8 htype rfl).1.representable hacc 200 (List.mem_singleton_self _)
  exact absurd hrep.2 (by decide)

end Exact

end Acts.Adl
