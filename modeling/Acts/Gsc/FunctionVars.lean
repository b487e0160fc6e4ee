import Acts.Gsc.Asm
import Mathlib.Data.List.Nodup

/-!
# The variables of a compiled function

* `registerVar`, `registerVarRnd`, `getSpecialTmpVar`, `registerParam` — the ways to a variable: a
  declaration or a use, a temporary, the shared temporary and a parameter.
* `Registered` — what holds of the table: variables are numbered in the order of their registration,
  and their names are distinct.
* `registered_of_reachable` — **whatever the order of the calls**.
-/

set_option autoImplicit false

namespace Acts.Gsc.FunctionVars

/-- `FunctionVar`, with its name. -/
structure Variable where
  name : String
  id : Nat
  flags : UInt8
  deriving DecidableEq, Repr

/-- The members of `FunctionObject` about variables; `vars` is the allocated part of `m_vars`. -/
structure Function where
  vars : List Variable
  params : Nat
  rndVarStart : Nat
  specialTempVar : Option Variable
  deriving DecidableEq, Repr

def newFunction : Function := ⟨[], 0, 0, none⟩

/-- The size of `m_vars`. -/
def maxVars : Nat := 256

/-- A call that gives a variable or a message. -/
abbrev Outcome := Except String Variable × Function

def findVar (f : Function) (name : String) : Option Variable :=
  f.vars.find? fun var => name == var.name

def registerVar (f : Function) (name : String) (allowExisting : Bool) (flags : UInt8) : Outcome :=
  match findVar f name with
  | some var =>
    if allowExisting then (.ok var, f)
    else (.error ("The var '" ++ name ++ "' already exists"), f)
  | none =>
    if f.vars.length ≥ maxVars then
      (.error ("Can't create var '" ++ name ++ "': too much variable for function"), f)
    else
      let var := ⟨name, f.vars.length, flags⟩
      (.ok var, { f with vars := f.vars ++ [var] })

/-- `{:x}`. -/
def hexString (n : Nat) : String := String.ofList (Nat.toDigits 16 n)

def registerVarRnd (f : Function) : Outcome :=
  registerVar { f with rndVarStart := f.rndVarStart + 1 } ("$$v" ++ hexString f.rndVarStart) false 0

def getSpecialTmpVar (f : Function) : Outcome :=
  match f.specialTempVar with
  | some var => (.ok var, f)
  | none =>
    match registerVar f "$$tmp" false 0 with
    | (.ok var, f) => (.ok var, { f with specialTempVar := some var })
    | (.error msg, f) => (.error msg, f)

/-- A parameter of `ParseFunction`; `m_params` is a byte. -/
def registerParam (f : Function) (name : String) (flags : UInt8) : Outcome :=
  if f.params = 256 then (.error ("Can't register param '" ++ name ++ "': too many params"), f)
  else registerVar { f with params := (f.params + 1) % 256 } name false flags

/-! ## Runs -/

inductive Call
  | registerVar (name : String) (allowExisting : Bool) (flags : UInt8)
  | registerVarRnd
  | getSpecialTmpVar
  | registerParam (name : String) (flags : UInt8)

def step (f : Function) : Call → Outcome
  | .registerVar name allowExisting flags => registerVar f name allowExisting flags
  | .registerVarRnd => registerVarRnd f
  | .getSpecialTmpVar => getSpecialTmpVar f
  | .registerParam name flags => registerParam f name flags

/-- The tables of functions that are compiled; a message ends the compilation. -/
inductive Reachable : Function → Prop
  | new : Reachable newFunction
  | step {f f' : Function} {call : Call} {var : Variable} (h : Reachable f)
      (hstep : step f call = (.ok var, f')) : Reachable f'

/-! ## The invariant -/

structure Registered (f : Function) : Prop where
  names : (f.vars.map (·.name)).Nodup
  ids : f.vars.map (·.id) = List.range f.vars.length
  size : f.vars.length ≤ maxVars
  params_le : f.params ≤ f.vars.length
  params_lt : f.params < 256

section Step

variable {f f' : Function} {var : Variable} {name : String} {flags : UInt8}

theorem findVar_none (h : findVar f name = none) : name ∉ f.vars.map (·.name) := by
  intro hname
  obtain ⟨var, hvar, rfl⟩ := List.mem_map.1 hname
  have hfind := List.find?_eq_none.1 h var hvar
  simp at hfind

/-- A variable is found, or added behind the others. -/
theorem registerVar_ok {allowExisting : Bool}
    (h : registerVar f name allowExisting flags = (.ok var, f')) :
    (f' = f ∧ var ∈ f.vars) ∨
      (name ∉ f.vars.map (·.name) ∧ f.vars.length < maxVars ∧ var = ⟨name, f.vars.length, flags⟩ ∧
        f' = { f with vars := f.vars ++ [var] }) := by
  unfold registerVar at h
  split at h
  · rename_i found hfind
    split at h
    · cases h
      exact .inl ⟨rfl, List.mem_of_find?_eq_some hfind⟩
    · cases h
  · rename_i hfind
    split at h
    · cases h
    · rename_i hsize
      cases h
      exact .inr ⟨findVar_none hfind, by omega, rfl, rfl⟩

/-- The table with one variable more. -/
theorem Registered.add (h : Registered f) (hname : name ∉ f.vars.map (·.name))
    (hsize : f.vars.length < maxVars) {params : Nat} (hle : params ≤ f.vars.length + 1)
    (hlt : params < 256) :
    Registered { f with
      vars := f.vars ++ [⟨name, f.vars.length, flags⟩], params := params } where
  names := by
    rw [List.map_append]
    refine List.nodup_append.2 ⟨h.names, List.nodup_singleton _, ?_⟩
    rintro n hn m hm rfl
    rw [List.mem_singleton.1 hm] at hn
    exact hname hn
  ids := by
    rw [List.map_append, h.ids, List.length_append, List.length_singleton, List.range_succ]
    rfl
  size := by
    rw [List.length_append, List.length_singleton]
    exact hsize
  params_le := by
    rw [List.length_append, List.length_singleton]
    exact hle
  params_lt := hlt

theorem Registered.registerVar (h : Registered f) {allowExisting : Bool}
    (hrun : registerVar f name allowExisting flags = (.ok var, f')) : Registered f' := by
  rcases registerVar_ok hrun with ⟨rfl, -⟩ | ⟨hname, hsize, rfl, rfl⟩
  · exact h
  · have hle := h.params_le
    exact h.add hname hsize (by omega) h.params_lt

theorem Registered.registerVarRnd (h : Registered f)
    (hrun : registerVarRnd f = (.ok var, f')) : Registered f' := by
  have hnext : Registered { f with rndVarStart := f.rndVarStart + 1 } :=
    ⟨h.names, h.ids, h.size, h.params_le, h.params_lt⟩
  exact hnext.registerVar hrun

theorem Registered.getSpecialTmpVar (h : Registered f)
    (hrun : getSpecialTmpVar f = (.ok var, f')) : Registered f' := by
  unfold FunctionVars.getSpecialTmpVar at hrun
  split at hrun
  · cases hrun
    exact h
  · split at hrun
    · rename_i heq
      cases hrun
      have h₁ := h.registerVar heq
      exact ⟨h₁.names, h₁.ids, h₁.size, h₁.params_le, h₁.params_lt⟩
    · cases hrun

/-- A parameter always adds a variable, and counts it in a byte. -/
theorem Registered.registerParam (h : Registered f)
    (hrun : registerParam f name flags = (.ok var, f')) : Registered f' := by
  have hle := h.params_le
  unfold FunctionVars.registerParam at hrun
  rw [if_neg (Nat.ne_of_lt h.params_lt)] at hrun
  unfold FunctionVars.registerVar at hrun
  split at hrun
  · cases hrun
  · rename_i hfind
    split at hrun
    · cases hrun
    · rename_i hsize
      cases hrun
      have hname : name ∉ f.vars.map (·.name) := findVar_none hfind
      have hsize : f.vars.length < maxVars := Nat.lt_of_not_le hsize
      have hmod : (f.params + 1) % 256 ≤ f.params + 1 := Nat.mod_le _ _
      exact h.add hname hsize (Nat.le_trans hmod (Nat.succ_le_succ hle)) (Nat.mod_lt _ (by decide))

theorem registered_new : Registered newFunction :=
  ⟨List.nodup_nil, rfl, Nat.zero_le _, Nat.le_refl _, by decide⟩

theorem registered_of_reachable (h : Reachable f) : Registered f := by
  induction h with
  | new => exact registered_new
  | @step f f' call var _ hstep ih =>
    cases call with
    | registerVar name allowExisting flags => exact ih.registerVar hstep
    | registerVarRnd => exact ih.registerVarRnd hstep
    | getSpecialTmpVar => exact ih.getSpecialTmpVar hstep
    | registerParam name flags => exact ih.registerParam hstep

/-- A variable is at the place of its number. -/
theorem Registered.getElem?_id (h : Registered f) (hvar : var ∈ f.vars) :
    f.vars[var.id]? = some var := by
  obtain ⟨i, hi, rfl⟩ := List.getElem_of_mem hvar
  have hid : (f.vars.map (·.id))[i]? = some f.vars[i].id := by
    rw [List.getElem?_map, List.getElem?_eq_getElem hi]
    rfl
  rw [h.ids, List.getElem?_range hi, Option.some.injEq] at hid
  rw [← hid]
  exact List.getElem?_eq_getElem hi

end Step

/-! ## The node of the variables -/

/-- `CreateParamNode`; `hashField` hashes names. -/
def createParamNode (hashField : String → Nat) (obfuscate : Bool) (f : Function)
    (h : Registered f) : LocalVariables where
  vars := f.vars.map fun var => ⟨hashField var.name, var.id, var.flags⟩
  params := f.params
  obfuscate := obfuscate
  params_le := by
    rw [List.length_map]
    exact h.params_le
  params_lt := h.params_lt

end Acts.Gsc.FunctionVars
