import Acts.Gsc.FunctionVars
import Acts.Lib.Checked
import Acts.Vm.Opcodes
import Acts.Vm.Thread

/-!
# Local variables, from the compiler to the machine

* `prologue` — what the machine performs for the node of the variables; `slotByte` — the operand of
  a use of a variable.
* `Creates` — a run with a number of calls of `CreateVar`; they fill `varFields` in a row.
* `Selects` — a slot is the place that `CreateVar` has filled for a variable.
* **`agrees_iff`** — the compiler numbers the slots from the last variable on, the machine from the
  first one.
-/

set_option autoImplicit false

namespace Acts.Vm.LocalVars

open Acts.Gsc Acts.Gsc.FunctionVars Acts.Fetch

/-! ## The emitted code -/

/-- The instructions of a prologue, as the machine reads them. -/
def prologueInstr (visit : Visit) : Option Instr :=
  if visit.op = OpCodeId.exportNoParams.code then some .exportNoParams
  else if visit.op = OpCodeId.exportParams.code then visit.operands.head?.map .exportParams
  else if visit.op = OpCodeId.registerVars.code then visit.operands.head?.map .registerVars
  else none

/-- What is read for the node of the variables. -/
def prologueVisits (n : LocalVariables) : List Visit :=
  visits 0 (instrs (actsCtx n.vars.length) (fun _ => 0) 0 (.createLocalVariables n))

def prologue (n : LocalVariables) : List Instr :=
  (prologueVisits n).filterMap prologueInstr

/-- The counts of the prologue. -/
def countBytes (n : LocalVariables) : List Nat :=
  (prologueVisits n).filterMap (·.operands.head?)

/-- The operand of a use of the variable `id`. -/
def slotByte (lvars id : Nat) : Nat := (lvars + 2 ^ 64 - id - 1) % 2 ^ 64 % 256

theorem visits_var (lvars id pos : Nat) (op : OPCode) (rlocs : Nat → Nat) (rloc : Nat) :
    visits pos (instrs (actsCtx lvars) rlocs rloc (.var id op)) =
      [⟨pos, opByte op, [slotByte lvars id]⟩] := rfl

def perform : List Instr → VmState → Except VmFault VmState
  | [], s => .ok s
  | i :: is, s => do perform is (← i.handle s)

/-! ## Runs with new variables -/

/-- The variables are as before. -/
def SameVars (s s' : VmState) : Prop := s'.varFields = s.varFields ∧ s'.numVars = s.numVars

/-- A run in which `CreateVar` is called a number of times. -/
inductive Creates : Nat → VmState → VmState → Prop
  | keep {s s' : VmState} (h : SameVars s s') : Creates 0 s s'
  | create {n : Nat} {s s₁ s₂ s' : VmState} {val : Option Nat} (hsame : SameVars s s₁)
      (hcreate : s₁.createVar val = .ok s₂) (h : Creates n s₂ s') : Creates (n + 1) s s'

/-- `slot` is the place that `CreateVar` has filled for the variable `id`, whose turn comes after
`id` others. -/
def Selects (s s' : VmState) (id slot : Nat) : Prop :=
  ∃ s₁ s₂ val rest, Creates id s s₁ ∧ s₁.createVar val = .ok s₂ ∧ s₁.numVars = slot ∧
    Creates rest s₂ s'

section Creates

variable {s s' s'' : VmState} {n m id : Nat}

theorem SameVars.refl (s : VmState) : SameVars s s := ⟨rfl, rfl⟩

theorem SameVars.trans (h : SameVars s s') (h' : SameVars s' s'') : SameVars s s'' :=
  ⟨h'.1.trans h.1, h'.2.trans h.2⟩

theorem setSlot_sameVars {i : Nat} {v : VmVar} (h : s.setSlot i v = .ok s') : SameVars s s' := by
  unfold VmState.setSlot at h
  split at h
  · cases h
    exact ⟨rfl, rfl⟩
  · cases h

theorem decTop_sameVars (h : s.decTop = .ok s') : SameVars s s' := by
  unfold VmState.decTop at h
  split at h
  · cases h
  · cases h
    exact ⟨rfl, rfl⟩

theorem releaseVariable_sameVars {i : Nat} (h : s.releaseVariable i = .ok s') :
    SameVars s s' := by
  unfold VmState.releaseVariable at h
  obtain ⟨v, -, h⟩ := ok_of_bind h
  obtain ⟨s₁, hdec, h⟩ := ok_of_bind h
  have hsame : SameVars s s₁ := by
    unfold VmState.decRef at hdec
    split at hdec
    · cases hdec
      exact ⟨rfl, rfl⟩
    · cases hdec
  exact hsame.trans (setSlot_sameVars h)

theorem releaseParams_sameVars {fuel : Nat} (h : releaseParams fuel s = .ok s') :
    SameVars s s' := by
  induction fuel generalizing s with
  | zero => cases h
  | succ fuel ih =>
    unfold releaseParams at h
    obtain ⟨v, -, h⟩ := ok_of_bind h
    split at h
    · cases h
      exact .refl _
    · obtain ⟨s₁, hrelease, h⟩ := ok_of_bind h
      obtain ⟨s₂, htop, h⟩ := ok_of_bind h
      exact (releaseVariable_sameVars hrelease).trans ((decTop_sameVars htop).trans (ih h))

theorem exportNoParams_sameVars (h : exportNoParamsHandler s = .ok s') : SameVars s s' := by
  unfold exportNoParamsHandler at h
  obtain ⟨v, -, h⟩ := ok_of_bind h
  split at h
  · cases h
    exact .refl s
  · obtain ⟨s₁, hrelease, h⟩ := ok_of_bind h
    have hsame : SameVars s s₁ := releaseParams_sameVars hrelease
    cases h
    exact hsame

theorem createField_sameVars {value : Option Nat} {ref : Nat}
    (h : s.createField value = .ok (ref, s')) : SameVars s s' := by
  unfold VmState.createField at h
  split at h
  · cases h
  · obtain ⟨f, -, h⟩ := ok_of_bind h
    split at h
    · obtain ⟨v, -, h⟩ := ok_of_bind h
      obtain ⟨s₁, hset, h⟩ := ok_of_bind h
      cases h
      exact (setSlot_sameVars hset : SameVars _ _)
    · cases h
      exact ⟨rfl, rfl⟩

theorem addVar_numVars {ref : Nat} (h : s.addVar ref = .ok s') : s'.numVars = s.numVars + 1 := by
  unfold VmState.addVar at h
  split at h
  · cases h
    rfl
  · cases h

theorem createVar_numVars {val : Option Nat} (h : s.createVar val = .ok s') :
    s'.numVars = s.numVars + 1 := by
  unfold VmState.createVar at h
  split at h
  · obtain ⟨⟨ref, s₁⟩, hfield, h⟩ := ok_of_bind h
    rw [addVar_numVars h, (createField_sameVars hfield).2]
  · obtain ⟨v, -, h⟩ := ok_of_bind h
    obtain ⟨⟨ref, s₁⟩, hfield, h⟩ := ok_of_bind h
    rw [addVar_numVars h, (createField_sameVars hfield).2]

theorem Creates.numVars (h : Creates n s s') : s'.numVars = s.numVars + n := by
  induction h with
  | keep h => exact h.2
  | create hsame hcreate _ ih =>
    rw [ih, createVar_numVars hcreate, hsame.2]
    omega

theorem Creates.of_same (hsame : SameVars s s') (h : Creates n s' s'') : Creates n s s'' := by
  cases h with
  | keep h => exact .keep (hsame.trans h)
  | create hsame' hcreate h => exact .create (hsame.trans hsame') hcreate h

theorem Creates.trans (h : Creates n s s') (h' : Creates m s' s'') :
    Creates (n + m) s s'' := by
  induction h with
  | keep h =>
    rw [Nat.zero_add]
    exact h'.of_same h
  | create hsame hcreate _ ih =>
    rw [Nat.succ_add_eq_add_succ, Nat.add_succ]
    exact .create hsame hcreate (ih h')

/-- The turn of the variable `id`. -/
theorem Creates.split (h : Creates n s s') (hid : id < n) :
    ∃ s₁ s₂ val rest, Creates id s s₁ ∧ s₁.createVar val = .ok s₂ ∧ Creates rest s₂ s' := by
  induction h generalizing id with
  | keep h => exact absurd hid (Nat.not_lt_zero id)
  | @create n s s₁ s₂ s' val hsame hcreate hrest ih =>
    cases id with
    | zero => exact ⟨s₁, s₂, val, n, .keep hsame, hcreate, hrest⟩
    | succ id =>
      obtain ⟨s₃, s₄, val', rest, hbefore, hturn, hafter⟩ := ih (Nat.lt_of_succ_lt_succ hid)
      exact ⟨s₃, s₄, val', rest, .create hsame hcreate hbefore, hturn, hafter⟩

/-- The places are taken in a row. -/
theorem Creates.selects_iff (h : Creates n s s') {slot : Nat} :
    Selects s s' id slot ↔ id < n ∧ slot = s.numVars + id := by
  constructor
  · rintro ⟨s₁, s₂, val, rest, hbefore, hturn, hslot, hafter⟩
    have h₁ := hbefore.numVars
    have h₂ := createVar_numVars hturn
    have h₃ := hafter.numVars
    have h₄ := h.numVars
    omega
  · rintro ⟨hid, rfl⟩
    obtain ⟨s₁, s₂, val, rest, hbefore, hturn, hafter⟩ := h.split hid
    exact ⟨s₁, s₂, val, rest, hbefore, hturn, hbefore.numVars, hafter⟩

/-! ## The prologue -/

theorem exportVars_creates (vars : Nat) (h : exportVars vars s = .ok s') : Creates vars s s' := by
  induction vars generalizing s with
  | zero =>
    cases h
    exact .keep (.refl _)
  | succ vars ih =>
    unfold exportVars at h
    obtain ⟨v, -, h⟩ := ok_of_bind h
    split at h
    · obtain ⟨s₁, hcreate, h⟩ := ok_of_bind h
      exact .create (.refl s) hcreate (ih h)
    · obtain ⟨s₁, htop, h⟩ := ok_of_bind h
      obtain ⟨s₂, hcreate, h⟩ := ok_of_bind h
      exact .create (decTop_sameVars htop) hcreate (ih h)

theorem exportParams_creates {vars : Nat} (h : exportParamsHandler s vars = .ok s') :
    Creates vars s s' := by
  unfold exportParamsHandler at h
  obtain ⟨s₁, hexport, h⟩ := ok_of_bind h
  exact (exportVars_creates vars hexport).trans (.keep (exportNoParams_sameVars h))

theorem registerVars_creates (vars : Nat) (h : registerVarsHandler vars s = .ok s') :
    Creates vars s s' := by
  induction vars generalizing s with
  | zero =>
    cases h
    exact .keep (.refl _)
  | succ vars ih =>
    unfold registerVarsHandler at h
    obtain ⟨s₁, hcreate, h⟩ := ok_of_bind h
    exact .create (.refl s) hcreate (ih h)

end Creates

section Prologue

variable {n : LocalVariables}

/-- The instruction for the parameters. -/
def paramsInstr (n : LocalVariables) : Instr :=
  if n.params = 0 then .exportNoParams else .exportParams n.params

/-- The count of the instruction for the other variables. -/
def otherCount (n : LocalVariables) : Nat := (n.vars.length - n.params) % 256

theorem length_varNames_take (n : LocalVariables) :
    (varNames n (n.numbered.take n.params)).length = n.params := by
  have hle := n.params_le
  simp only [varNames, LocalVariables.numbered, List.length_map, List.length_take, List.length_zip,
    List.length_range]
  omega

theorem length_varNames_drop (n : LocalVariables) :
    (varNames n (n.numbered.drop n.params)).length = n.vars.length - n.params := by
  simp only [varNames, LocalVariables.numbered, List.length_map, List.length_drop, List.length_zip,
    List.length_range]
  omega

/-- The code for the parameters. -/
def paramsCode (n : LocalVariables) : Fetch.Instr :=
  if n.params = 0 then .plain (opByte .checkClearParams)
  else .counted (opByte .safeCreateLocalVariables) 8 (varNames n (n.numbered.take n.params))

/-- The code for the other variables. -/
def othersCode (n : LocalVariables) : List Fetch.Instr :=
  if n.vars.length - n.params = 0 then []
  else [.counted (opByte .iwRegisterMultipleVariables) 8 (varNames n (n.numbered.drop n.params))]

theorem prologueVisits_eq (n : LocalVariables) :
    prologueVisits n = (paramsCode n).visit 0 :: visits (0 + (paramsCode n).size) (othersCode n) :=
  rfl

theorem visit_params (n : LocalVariables) (pos : Nat) :
    prologueInstr ((paramsCode n).visit pos) = some (paramsInstr n) ∧
      ((paramsCode n).visit pos).operands.head?.getD 0 = n.params := by
  have hlen := length_varNames_take n
  have hmod : n.params % 256 = n.params := Nat.mod_eq_of_lt n.params_lt
  unfold paramsCode paramsInstr
  by_cases hparams : n.params = 0
  · rw [if_pos hparams, if_pos hparams]
    exact ⟨rfl, hparams.symm⟩
  · rw [if_neg hparams, if_neg hparams]
    have hvisit : (Fetch.Instr.counted (opByte .safeCreateLocalVariables) 8
        (varNames n (n.numbered.take n.params))).visit pos =
          ⟨pos, 0x11, n.params :: (varNames n (n.numbered.take n.params)).map (· % 256 ^ 8)⟩ := by
      show (⟨pos, 0x11, _ % 256 :: _⟩ : Visit) = _
      rw [hlen, hmod]
    rw [hvisit]
    exact ⟨rfl, rfl⟩

theorem visits_others (n : LocalVariables) (pos : Nat) :
    (visits pos (othersCode n)).filterMap prologueInstr =
        (if n.vars.length - n.params = 0 then [] else [.registerVars (otherCount n)]) ∧
      ((visits pos (othersCode n)).filterMap (·.operands.head?)).sum = otherCount n := by
  have hlen := length_varNames_drop n
  unfold othersCode otherCount
  by_cases hothers : n.vars.length - n.params = 0
  · rw [if_pos hothers, if_pos hothers, hothers]
    exact ⟨rfl, rfl⟩
  · rw [if_neg hothers, if_neg hothers, ← hlen]
    exact ⟨rfl, Nat.add_zero _⟩

theorem prologue_eq (n : LocalVariables) :
    prologue n = paramsInstr n ::
      if n.vars.length - n.params = 0 then [] else [.registerVars (otherCount n)] := by
  unfold prologue
  rw [prologueVisits_eq, List.filterMap_cons_some (visit_params n 0).1, (visits_others n _).1]

theorem countBytes_sum (n : LocalVariables) : (countBytes n).sum = n.params + otherCount n := by
  have hparams := (visit_params n 0).2
  unfold countBytes
  rw [prologueVisits_eq]
  cases hhead : ((paramsCode n).visit 0).operands.head? with
  | none =>
    rw [hhead] at hparams
    simp only [List.filterMap_cons, hhead]
    rw [(visits_others n _).2, ← hparams]
    exact (Nat.zero_add _).symm
  | some count =>
    rw [hhead] at hparams
    simp only [List.filterMap_cons, hhead]
    rw [List.sum_cons, (visits_others n _).2, ← hparams]
    rfl

/-- The prologue creates as many variables as its bytes count. -/
theorem prologue_creates {s s' : VmState} (h : perform (prologue n) s = .ok s') :
    Creates (n.params + otherCount n) s s' := by
  rw [prologue_eq] at h
  unfold perform at h
  obtain ⟨s₁, hparams, h⟩ := ok_of_bind h
  have hfirst : Creates n.params s s₁ := by
    unfold paramsInstr at hparams
    split at hparams
    · rename_i h0
      rw [h0]
      exact .keep (exportNoParams_sameVars hparams)
    · exact exportParams_creates hparams
  refine hfirst.trans ?_
  split at h
  · rename_i h0
    cases h
    unfold otherCount
    rw [h0]
    exact .keep (.refl _)
  · unfold perform at h
    obtain ⟨s₂, hothers, h⟩ := ok_of_bind h
    cases h
    exact registerVars_creates _ hothers

end Prologue

/-! ## When compiler and machine agree -/

/-- The counts tell the number of variables, variables are numbered and named apart, and the operand
of a use of `var` selects what the prologue has created for it. -/
structure Agrees (f : Function) (n : LocalVariables) (var : Variable) (s s' : VmState) : Prop where
  counts : (countBytes n).sum = f.vars.length
  names : (f.vars.map (·.name)).Nodup
  ids : f.vars.map (·.id) = List.range f.vars.length
  selects : Selects s s' var.id (slotByte f.vars.length var.id)

theorem slotByte_eq {lvars id : Nat} (hid : id < lvars) (hmax : lvars ≤ maxVars) :
    slotByte lvars id = lvars - id - 1 := by
  unfold maxVars at hmax
  unfold slotByte
  omega

/-- **When they agree.**  For every function, whatever the order in which its variables were
registered: names and numbers are always right, the counts are unless 256 variables are counted
together, and the operand of a use is right for the variable in the middle. -/
theorem agrees_iff {f : Function} (h : Reachable f) (hashField : String → Nat) (obfuscate : Bool)
    {var : Variable} (hvar : var ∈ f.vars) {s s' : VmState} (hframe : s.numVars = 0)
    (hrun : perform (prologue
      (createParamNode hashField obfuscate f (registered_of_reachable h))) s = .ok s') :
    (Agrees f (createParamNode hashField obfuscate f (registered_of_reachable h)) var s s' ↔
      f.vars.length = 2 * var.id + 1) ∧
    ((countBytes (createParamNode hashField obfuscate f (registered_of_reachable h))).sum =
      f.vars.length ↔ ¬ (f.vars.length = 256 ∧ f.params = 0)) ∧
    (f.vars.map (·.name)).Nodup ∧ f.vars.map (·.id) = List.range f.vars.length := by
  have hreg := registered_of_reachable h
  have hmax := hreg.size
  have hle := hreg.params_le
  have hid : var.id < f.vars.length := (List.getElem?_eq_some_iff.1 (hreg.getElem?_id hvar)).1
  have hslot := slotByte_eq hid hmax
  have hcreates := prologue_creates hrun
  have hothers : otherCount (createParamNode hashField obfuscate f (registered_of_reachable h)) =
      (f.vars.length - f.params) % 256 := by
    unfold otherCount createParamNode
    rw [List.length_map]
  have hcount : (countBytes (createParamNode hashField obfuscate f
      (registered_of_reachable h))).sum = f.params + (f.vars.length - f.params) % 256 := by
    rw [countBytes_sum, hothers]
    rfl
  have hselects : Selects s s' var.id (slotByte f.vars.length var.id) ↔
      var.id < f.params + (f.vars.length - f.params) % 256 ∧ f.vars.length - var.id - 1 = var.id := by
    rw [hcreates.selects_iff, hothers, hframe, hslot, Nat.zero_add]
    rfl
  unfold maxVars at hmax
  refine ⟨⟨?_, ?_⟩, ?_, hreg.names, hreg.ids⟩
  · intro hagrees
    have := hselects.1 hagrees.selects
    omega
  · intro hmiddle
    refine ⟨?_, hreg.names, hreg.ids, hselects.2 ?_⟩
    · rw [hcount]
      omega
    · omega
  · rw [hcount]
    omega

/-! ## Functions with one and with two variables -/

/-- `function f(a) { }`. -/
def oneVar : Function := ⟨[⟨"a", 0, 0⟩], 1, 0, none⟩

theorem oneVar_reachable : Reachable oneVar := by
  have hstep : FunctionVars.step newFunction (.registerParam "a" 0) = (.ok ⟨"a", 0, 0⟩, oneVar) :=
    rfl
  exact .step .new hstep

/-- `function f(a) { b = a; }`. -/
def twoVars : Function := ⟨[⟨"a", 0, 0⟩, ⟨"b", 1, 0⟩], 1, 0, none⟩

theorem twoVars_reachable : Reachable twoVars := by
  have hstep : FunctionVars.step oneVar (.registerVar "b" true 0) = (.ok ⟨"b", 1, 0⟩, twoVars) :=
    rfl
  exact .step oneVar_reachable hstep

/-- A new machine with a thread and one value. -/
def called : VmState :=
  { VmState.init.allocThread 0 0 with
    stack := (VmState.init.allocThread 0 0).stack.set 2 (.integer 5) }

/-- The hashes of names are not looked at. -/
def noHash (_ : String) : Nat := 0

theorem oneVar_agrees : ∃ s', Agrees oneVar
    (createParamNode noHash false oneVar (registered_of_reachable oneVar_reachable)) ⟨"a", 0, 0⟩
    called s' := by
  have hsome : (perform (prologue (createParamNode noHash false oneVar
      (registered_of_reachable oneVar_reachable))) called).toOption.isSome = true := by decide +kernel
  obtain ⟨s', hopt⟩ := Option.isSome_iff_exists.1 hsome
  have hrun := ok_of_toOption hopt
  have hiff := (agrees_iff oneVar_reachable noHash false (List.mem_singleton_self _) rfl hrun).1
  exact ⟨s', hiff.2 rfl⟩

/-- The use of `a` selects the variable `b`. -/
theorem twoVars_reversed : ∃ s', perform (prologue (createParamNode noHash false twoVars
      (registered_of_reachable twoVars_reachable))) called = .ok s' ∧
    ¬ Selects called s' 0 (slotByte 2 0) ∧ Selects called s' 1 (slotByte 2 0) := by
  have hsome : (perform (prologue (createParamNode noHash false twoVars
      (registered_of_reachable twoVars_reachable))) called).toOption.isSome = true := by decide +kernel
  obtain ⟨s', hopt⟩ := Option.isSome_iff_exists.1 hsome
  have hrun := ok_of_toOption hopt
  have hcreates := prologue_creates hrun
  refine ⟨s', hrun, ?_, ?_⟩
  · rw [hcreates.selects_iff]
    rintro ⟨-, hslot⟩
    cases hslot
  · rw [hcreates.selects_iff]
    exact ⟨by decide, rfl⟩

end Acts.Vm.LocalVars
