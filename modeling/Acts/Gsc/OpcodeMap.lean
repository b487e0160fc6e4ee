import Acts.Gsc.Asm
import Mathlib.Data.Fintype.Card
import Mathlib.Data.Fintype.Basic
import Mathlib.Tactic

/-!
# The opcode tables of a VM

A VM keeps its opcodes in four maps: from a value to the opcode (`opcodemap`, for the
disassembler), from an opcode to its values (`opcodemaplookup` and `opcodemaplookupModTool`, for
the assembler) and from a platform to both (`opcodemappltlookup`, for dumps).

* `rootOf_ends` — the chain of same-code platforms always ends.
* `Consistent` — the maps agree.
* `Allowed` — the calls that keep them so.
* **`reachable_consistent`** — after any run of allowed calls the values of the assembler are
  those of the disassembler.
-/

set_option autoImplicit false

namespace Acts.Gsc.OpcodeMap

/-! ## Platforms -/

inductive Platform
  | unknown | pc | playstation | xbox | pcAlpha | actsTest | bo6V1 | bo6 | bo7
  deriving DecidableEq, Repr

instance : Fintype Platform where
  elems := {.unknown, .pc, .playstation, .xbox, .pcAlpha, .actsTest, .bo6V1, .bo6, .bo7}
  complete p := by cases p <;> decide

/-- The value of the enumeration. -/
def Platform.index : Platform → Nat
  | unknown => 0
  | pc => 1
  | playstation => 2
  | xbox => 3
  | pcAlpha => 4
  | actsTest => 5
  | bo6V1 => 6
  | bo6 => 7
  | bo7 => 8

/-! ## The calls -/

variable {OPCode OPCodeInfo : Type}

/-- The members of `VmInfo` about opcodes.  A missing entry of a nested map is `none` or empty. -/
structure VmInfo (OPCode : Type) where
  platforms : UInt8
  modToolFlag : UInt16
  opcodemap : UInt16 → Platform → Option OPCode
  opcodemaplookup : OPCode → Platform → List UInt16
  opcodemaplookupModTool : OPCode → Platform → List UInt16
  opcodemappltlookup : Platform → OPCode → Finset UInt16
  sameVmMap : Platform → Option Platform

/-- A VM before its first call. -/
def initial : VmInfo OPCode where
  platforms := 0
  modToolFlag := 0
  opcodemap _ _ := none
  opcodemaplookup _ _ := []
  opcodemaplookupModTool _ _ := []
  opcodemappltlookup _ _ := ∅
  sameVmMap _ := none

def addPlatform (info : VmInfo OPCode) (plt : Platform) : VmInfo OPCode :=
  if plt ≠ .unknown then
    { info with platforms := info.platforms ||| UInt8.ofNat (1 <<< (plt.index - 1)) }
  else
    info

def setModToolFlag (info : VmInfo OPCode) (flag : UInt16) : VmInfo OPCode :=
  { info with modToolFlag := flag }

/-- `map[key][platform].push_back(op)`. -/
def pushBack [DecidableEq OPCode] (map : OPCode → Platform → List UInt16) (key : OPCode) (platform : Platform)
    (op : UInt16) : OPCode → Platform → List UInt16 :=
  fun e p => if e = key ∧ p = platform then map e p ++ [op] else map e p

def registerOpCode [DecidableEq OPCode] (info : VmInfo OPCode) (platform : Platform) (enumValue : OPCode)
    (op : UInt16) : VmInfo OPCode :=
  let info := { info with
    opcodemap := fun v p =>
      if v = op ∧ p = platform then some enumValue else info.opcodemap v p
    opcodemappltlookup := fun p e =>
      if p = platform ∧ e = enumValue then insert op (info.opcodemappltlookup p e)
      else info.opcodemappltlookup p e }
  if op &&& info.modToolFlag ≠ 0 then
    { info with
      opcodemaplookupModTool := pushBack info.opcodemaplookupModTool enumValue platform op }
  else
    { info with opcodemaplookup := pushBack info.opcodemaplookup enumValue platform op }

def clearPlatformOpCode (info : VmInfo OPCode) (platform : Platform) : VmInfo OPCode :=
  { info with
    opcodemap := fun v p => if p = platform then none else info.opcodemap v p
    opcodemaplookup := fun e p => if p = platform then [] else info.opcodemaplookup e p
    opcodemappltlookup := fun p e => if p = platform then ∅ else info.opcodemappltlookup p e }

/-- The loop that follows the same-code platforms, for a number of turns. -/
def rootOf (sameVmMap : Platform → Option Platform) : Nat → Platform → Option Platform
  | 0, _ => none
  | fuel + 1, plt =>
    match sameVmMap plt with
    | none => some plt
    | some next => rootOf sameVmMap fuel next

/-- The loop gets as many turns as there are platforms. -/
def registerSameCodePlatform (info : VmInfo OPCode) (main sub : Platform) :
    Option (VmInfo OPCode) :=
  let info := addPlatform info sub
  (rootOf info.sameVmMap (Fintype.card Platform) main).map fun root =>
    if root = sub then info
    else { info with
      sameVmMap := fun p => if p = sub then some root else info.sameVmMap p }

def remapSamePlatform (info : VmInfo OPCode) (origin : Platform) : Platform :=
  (info.sameVmMap origin).getD origin

/-- `rand n` is drawn below `n`. -/
def getOpCodeId (info : VmInfo OPCode) (rand : Nat → Nat) (platform : Platform) (opcode : OPCode)
    (modTool : Bool) : Option UInt16 :=
  if modTool ∧ info.modToolFlag = 0 then none
  else
    let map := if modTool then info.opcodemaplookupModTool else info.opcodemaplookup
    let ops := map opcode (remapSamePlatform info platform)
    ops[rand ops.length]?

def hasOpCode (info : VmInfo OPCode) (rand : Nat → Nat) (plt : Platform) (opcode : OPCode)
    (modTool : Bool) : Bool :=
  (getOpCodeId info rand plt opcode modTool).isSome

/-- The entry of the opcode map in `LookupOpCode`. -/
def mappedOpCode (info : VmInfo OPCode) (platform : Platform) (opcode : UInt16) : Option OPCode :=
  info.opcodemap opcode (remapSamePlatform info platform)

def lookupOpCode (handlerMap : OPCode → Option OPCodeInfo) (opUndefined : OPCodeInfo)
    (info : VmInfo OPCode) (platform : Platform) (opcode : UInt16) : OPCodeInfo :=
  ((mappedOpCode info platform opcode).bind handlerMap).getD opUndefined

/-! ## Runs -/

inductive Call (OPCode : Type)
  | registerOpCode (platform : Platform) (enumValue : OPCode) (op : UInt16)
  | clearPlatformOpCode (platform : Platform)
  | setModToolFlag (flag : UInt16)
  | registerSameCodePlatform (main sub : Platform)

def step [DecidableEq OPCode] (info : VmInfo OPCode) : Call OPCode → Option (VmInfo OPCode)
  | .registerOpCode platform enumValue op => some (registerOpCode info platform enumValue op)
  | .clearPlatformOpCode platform => some (clearPlatformOpCode info platform)
  | .setModToolFlag flag => some (setModToolFlag info flag)
  | .registerSameCodePlatform main sub => registerSameCodePlatform info main sub

/-- The calls after which no map keeps a value that another one has lost: a value is not registered
again for another opcode of the platform, no platform with mod-tool values is cleared, and a new
flag is carried by the mod-tool values that are there. -/
def Allowed (info : VmInfo OPCode) : Call OPCode → Prop
  | .registerOpCode platform enumValue op =>
    ∀ e, info.opcodemap op platform = some e → e = enumValue
  | .clearPlatformOpCode platform => ∀ e, info.opcodemaplookupModTool e platform = []
  | .setModToolFlag flag =>
    flag = 0 ∨ ∀ e p, ∀ op ∈ info.opcodemaplookupModTool e p, op &&& flag ≠ 0
  | .registerSameCodePlatform _ _ => True

/-- The states of the runs whose calls are all allowed. -/
inductive Reachable [DecidableEq OPCode] : VmInfo OPCode → Prop
  | initial : Reachable initial
  | step {info info' : VmInfo OPCode} {call : Call OPCode} (h : Reachable info)
      (hallowed : Allowed info call) (hstep : step info call = some info') : Reachable info'

/-! ## The chain of same-code platforms -/

/-- No chain of same-code platforms comes back to its start. -/
def Acyclic (sameVmMap : Platform → Option Platform) : Prop :=
  ∃ rank : Platform → Nat, ∀ p q, sameVmMap p = some q → rank q < rank p

/-- The platforms below a rank bound the length of a chain. -/
theorem rootOf_isSome {sameVmMap : Platform → Option Platform} {rank : Platform → Nat}
    (hrank : ∀ p q, sameVmMap p = some q → rank q < rank p) (fuel : Nat) (p : Platform)
    (hfuel : (Finset.univ.filter fun q => rank q < rank p).card < fuel) :
    ∃ root, rootOf sameVmMap fuel p = some root ∧ sameVmMap root = none := by
  induction fuel generalizing p with
  | zero => omega
  | succ fuel ih =>
    unfold rootOf
    cases hp : sameVmMap p with
    | none => exact ⟨p, rfl, hp⟩
    | some q =>
      have hqp := hrank p q hp
      apply ih q
      have hsub : (Finset.univ.filter fun r => rank r < rank q) ⊂
          Finset.univ.filter fun r => rank r < rank p := by
        refine (Finset.ssubset_iff_of_subset ?_).2 ⟨q, by simpa using hqp, by simp⟩
        intro r hr
        simp only [Finset.mem_filter, Finset.mem_univ, true_and] at hr ⊢
        omega
      have hcard := Finset.card_lt_card hsub
      omega

/-- **The loop of `RegisterSameCodePlatform` ends**, at a platform with its own code. -/
theorem rootOf_ends {sameVmMap : Platform → Option Platform} (h : Acyclic sameVmMap)
    (p : Platform) :
    ∃ root, rootOf sameVmMap (Fintype.card Platform) p = some root ∧ sameVmMap root = none := by
  obtain ⟨rank, hrank⟩ := h
  apply rootOf_isSome hrank
  apply Finset.card_lt_card
  exact (Finset.ssubset_iff_of_subset (Finset.filter_subset _ _)).2 ⟨p, by simp, by simp⟩

/-- A new edge to a platform with its own code closes no cycle. -/
theorem Acyclic.insert {sameVmMap : Platform → Option Platform} (h : Acyclic sameVmMap)
    {root sub : Platform} (hroot : sameVmMap root = none) (hne : root ≠ sub) :
    Acyclic fun p => if p = sub then some root else sameVmMap p := by
  obtain ⟨rank, hrank⟩ := h
  refine ⟨fun p => if p = root then 0 else rank p + 1, ?_⟩
  intro p q hpq
  dsimp only at hpq ⊢
  have hp : p ≠ root := by
    rintro rfl
    rw [if_neg hne, hroot] at hpq
    cases hpq
  rw [if_neg hp]
  split
  · omega
  · rename_i hq
    split at hpq
    · cases hpq
      exact absurd rfl hq
    · have := hrank p q hpq
      omega

/-! ## The maps agree -/

/-- The values of an opcode are mapped to it, and mod-tool values carry the flag. -/
structure Consistent (info : VmInfo OPCode) : Prop where
  lookup : ∀ e p, ∀ op ∈ info.opcodemaplookup e p, info.opcodemap op p = some e
  modTool : ∀ e p, ∀ op ∈ info.opcodemaplookupModTool e p, info.opcodemap op p = some e
  platform : ∀ e p, ∀ op ∈ info.opcodemappltlookup p e, info.opcodemap op p = some e
  flag : info.modToolFlag = 0 ∨
    ∀ e p, ∀ op ∈ info.opcodemaplookupModTool e p, op &&& info.modToolFlag ≠ 0
  acyclic : Acyclic info.sameVmMap

theorem consistent_initial : Consistent (initial : VmInfo OPCode) where
  lookup e p op h := by cases h
  modTool e p op h := by cases h
  platform e p op h := absurd h (Finset.notMem_empty op)
  flag := .inl rfl
  acyclic := ⟨fun _ => 0, fun p q h => by cases h⟩

theorem mem_pushBack [DecidableEq OPCode] {map : OPCode → Platform → List UInt16} {key e : OPCode}
    {platform p : Platform} {op v : UInt16} (h : v ∈ pushBack map key platform op e p) :
    v ∈ map e p ∨ (v = op ∧ e = key ∧ p = platform) := by
  unfold pushBack at h
  split at h
  · rename_i hkey
    rcases List.mem_append.1 h with h | h
    · exact .inl h
    · exact .inr ⟨List.mem_singleton.1 h, hkey⟩
  · exact .inl h

section Step

variable {info : VmInfo OPCode}

/-- A mapped value keeps its opcode when the same opcode or a new value is registered. -/
theorem opcodemap_registerOpCode {platform p : Platform} {enumValue e : OPCode} {op v : UInt16}
    (hop : ∀ e, info.opcodemap op platform = some e → e = enumValue)
    (hv : info.opcodemap v p = some e) :
    (if v = op ∧ p = platform then some enumValue else info.opcodemap v p) = some e := by
  split
  · rename_i h
    obtain ⟨rfl, rfl⟩ := h
    rw [hop e hv]
  · exact hv

theorem Consistent.registerOpCode [DecidableEq OPCode] (h : Consistent info) {platform : Platform}
    {enumValue : OPCode} {op : UInt16}
    (hop : ∀ e, info.opcodemap op platform = some e → e = enumValue) :
    Consistent (registerOpCode info platform enumValue op) := by
  have hplatform : ∀ e p, ∀ v ∈ (if p = platform ∧ e = enumValue then
        insert op (info.opcodemappltlookup p e) else info.opcodemappltlookup p e),
      (if v = op ∧ p = platform then some enumValue else info.opcodemap v p) = some e := by
    intro e p v hv
    split at hv
    · rename_i hkey
      rcases Finset.mem_insert.1 hv with rfl | hv
      · rw [if_pos ⟨rfl, hkey.1⟩, hkey.2]
      · exact opcodemap_registerOpCode hop (h.platform e p v hv)
    · exact opcodemap_registerOpCode hop (h.platform e p v hv)
  have hpush : ∀ map : OPCode → Platform → List UInt16,
      (∀ e p, ∀ v ∈ map e p, info.opcodemap v p = some e) →
      ∀ e p, ∀ v ∈ pushBack map enumValue platform op e p,
        (if v = op ∧ p = platform then some enumValue else info.opcodemap v p) = some e := by
    intro map hmap e p v hv
    rcases mem_pushBack hv with hv | ⟨rfl, rfl, rfl⟩
    · exact opcodemap_registerOpCode hop (hmap e p v hv)
    · exact if_pos ⟨rfl, rfl⟩
  unfold OpcodeMap.registerOpCode
  dsimp only
  split
  · rename_i hflag
    refine ⟨?_, hpush _ h.modTool, hplatform, ?_, h.acyclic⟩
    · intro e p v hv
      exact opcodemap_registerOpCode hop (h.lookup e p v hv)
    · rcases h.flag with hzero | hcarry
      · exact .inl hzero
      · refine .inr fun e p v hv => ?_
        rcases mem_pushBack hv with hv | ⟨rfl, rfl, rfl⟩
        · exact hcarry e p v hv
        · exact hflag
  · refine ⟨hpush _ h.lookup, ?_, hplatform, h.flag, h.acyclic⟩
    intro e p v hv
    exact opcodemap_registerOpCode hop (h.modTool e p v hv)

theorem Consistent.clearPlatformOpCode (h : Consistent info) {platform : Platform}
    (hnone : ∀ e, info.opcodemaplookupModTool e platform = []) :
    Consistent (clearPlatformOpCode info platform) where
  lookup e p op hop := by
    unfold OpcodeMap.clearPlatformOpCode at hop ⊢
    dsimp only at hop ⊢
    split at hop
    · cases hop
    · rename_i hp
      rw [if_neg hp]
      exact h.lookup e p op hop
  modTool e p op hop := by
    unfold OpcodeMap.clearPlatformOpCode at hop ⊢
    dsimp only at hop ⊢
    have hp : p ≠ platform := by
      rintro rfl
      rw [hnone e] at hop
      cases hop
    rw [if_neg hp]
    exact h.modTool e p op hop
  platform e p op hop := by
    unfold OpcodeMap.clearPlatformOpCode at hop ⊢
    dsimp only at hop ⊢
    split at hop
    · exact absurd hop (Finset.notMem_empty op)
    · rename_i hp
      rw [if_neg hp]
      exact h.platform e p op hop
  flag := h.flag
  acyclic := h.acyclic

theorem Consistent.setModToolFlag (h : Consistent info) {flag : UInt16}
    (hflag : flag = 0 ∨ ∀ e p, ∀ op ∈ info.opcodemaplookupModTool e p, op &&& flag ≠ 0) :
    Consistent (setModToolFlag info flag) :=
  ⟨h.lookup, h.modTool, h.platform, hflag, h.acyclic⟩

theorem Consistent.addPlatform (h : Consistent info) (plt : Platform) :
    Consistent (addPlatform info plt) := by
  unfold OpcodeMap.addPlatform
  split
  · exact ⟨h.lookup, h.modTool, h.platform, h.flag, h.acyclic⟩
  · exact h

/-- Aliases are always registered, or refused. -/
theorem Consistent.registerSameCodePlatform (h : Consistent info) (main sub : Platform) :
    ∃ info', registerSameCodePlatform info main sub = some info' ∧ Consistent info' := by
  have hadd := h.addPlatform sub
  obtain ⟨root, hroot, hown⟩ := rootOf_ends hadd.acyclic main
  unfold OpcodeMap.registerSameCodePlatform
  dsimp only
  rw [hroot]
  refine ⟨_, rfl, ?_⟩
  dsimp only
  split
  · exact hadd
  · rename_i hne
    exact ⟨hadd.lookup, hadd.modTool, hadd.platform, hadd.flag, hadd.acyclic.insert hown hne⟩

/-- An allowed call is performed, and keeps the maps consistent. -/
theorem Consistent.step [DecidableEq OPCode] (h : Consistent info) {call : Call OPCode}
    (hallowed : Allowed info call) :
    ∃ info', step info call = some info' ∧ Consistent info' := by
  cases call with
  | registerOpCode platform enumValue op => exact ⟨_, rfl, h.registerOpCode hallowed⟩
  | clearPlatformOpCode platform => exact ⟨_, rfl, h.clearPlatformOpCode hallowed⟩
  | setModToolFlag flag => exact ⟨_, rfl, h.setModToolFlag hallowed⟩
  | registerSameCodePlatform main sub => exact h.registerSameCodePlatform main sub

theorem Reachable.consistent [DecidableEq OPCode] (h : Reachable info) : Consistent info := by
  induction h with
  | initial => exact consistent_initial
  | step h hallowed hstep ih =>
    obtain ⟨info'', hstep', hinfo⟩ := ih.step hallowed
    rw [hstep] at hstep'
    cases hstep'
    exact hinfo

/-- What the assembler gets was registered for the opcode. -/
theorem Consistent.getOpCodeId (h : Consistent info) {rand : Nat → Nat} {platform : Platform}
    {opcode : OPCode} {modTool : Bool} {op : UInt16}
    (hop : getOpCodeId info rand platform opcode modTool = some op) :
    mappedOpCode info platform op = some opcode ∧
      (modTool = true → op &&& info.modToolFlag ≠ 0) := by
  unfold OpcodeMap.getOpCodeId at hop
  dsimp only at hop
  unfold mappedOpCode
  cases modTool with
  | false =>
    have hmem := List.mem_of_getElem? hop
    exact ⟨h.lookup _ _ _ hmem, fun hfalse => by cases hfalse⟩
  | true =>
    split at hop
    · cases hop
    · rename_i hflag
      have hmem := List.mem_of_getElem? hop
      refine ⟨h.modTool _ _ _ hmem, fun _ => ?_⟩
      rcases h.flag with hzero | hcarry
      · exact absurd ⟨rfl, hzero⟩ hflag
      · exact hcarry _ _ _ hmem

/-- **The directions agree.**  After any run of allowed calls every value that the assembler gets
for an opcode is mapped back to it, mod-tool values carry the flag, and every further allowed call
is performed. -/
theorem reachable_consistent [DecidableEq OPCode] (h : Reachable info) :
    (∀ rand platform opcode modTool op,
      OpcodeMap.getOpCodeId info rand platform opcode modTool = some op →
      mappedOpCode info platform op = some opcode ∧
        (modTool = true → op &&& info.modToolFlag ≠ 0)) ∧
    ∀ call, Allowed info call → ∃ info', OpcodeMap.step info call = some info' := by
  have hinv := h.consistent
  refine ⟨fun rand platform opcode modTool op hop => hinv.getOpCodeId hop, ?_⟩
  intro call hallowed
  obtain ⟨info', hstep, -⟩ := hinv.step hallowed
  exact ⟨info', hstep⟩

end Step

/-- One value of a VM on PC. -/
def oneValue : VmInfo Gsc.OPCode :=
  registerOpCode initial .pc .getInteger 5

theorem oneValue_reachable : Reachable oneValue := by
  have hallowed : Allowed (initial : VmInfo Gsc.OPCode) (.registerOpCode .pc .getInteger 5) :=
    fun _ h => by cases h
  exact .step .initial hallowed rfl

theorem oneValue_consistent : Reachable oneValue ∧
    getOpCodeId oneValue (fun _ => 0) .pc .getInteger false = some 5 ∧
    mappedOpCode oneValue .pc 5 = some .getInteger := by
  refine ⟨oneValue_reachable, by decide, ?_⟩
  apply ((reachable_consistent oneValue_reachable).1 (fun _ => 0) .pc .getInteger false 5 _).1
  decide

/-- The three ways to lose the agreement: a value registered again for another opcode stays in the
list of the first one, a cleared platform keeps its mod-tool values, and a new flag is not carried
by the old ones. -/
theorem maps_disagree :
    let again := registerOpCode oneValue .pc .getFloat 5
    let modTool := registerOpCode (setModToolFlag oneValue 0x1000) .pc .getInteger 0x1005
    let cleared := clearPlatformOpCode modTool .pc
    let reflagged := setModToolFlag modTool 0x2000
    (getOpCodeId again (fun _ => 0) .pc .getInteger false = some 5 ∧
      mappedOpCode again .pc 5 = some .getFloat) ∧
    (getOpCodeId cleared (fun _ => 0) .pc .getInteger true = some 0x1005 ∧
      mappedOpCode cleared .pc 0x1005 = none) ∧
    (getOpCodeId reflagged (fun _ => 0) .pc .getInteger true = some 0x1005 ∧
      0x1005 &&& reflagged.modToolFlag = 0) := by
  decide

end Acts.Gsc.OpcodeMap
