import Acts.Vm.Thread

/-!
# The operand stack of a thread

Pushes take `top` for the next free slot, and the other handlers for the last used one:

* `StackMachine` — a machine with a list of operands; `StackMachine.step` says what the opcodes are for.
* `VmState.view` — the values below `top` as operands, the last pushed one first.
* `Instr.Meets` — when the slot at `top` does not matter, or holds what the handler should find.
* `step_iff` — an instruction does to the operands what it is for exactly when it is so.
* `run_behaves_iff` — **and so does every instruction of a run exactly when it is so at each of them.**
-/

set_option autoImplicit false

namespace Acts.Vm

open RefHeap

/-! ## A machine with a list of operands -/

/-- `operands` starts with the last pushed value; `rest` is everything else, with an empty stack. -/
structure StackMachine where
  operands : List VmVar
  rest : VmState

namespace StackMachine

variable (m : StackMachine)

def push (v : VmVar) : StackMachine := { m with operands := v :: m.operands }

/-- The last pushed value is taken. -/
def pop (f : VmVar → List VmVar → Option StackMachine) : Option StackMachine :=
  match m.operands with
  | v :: l => f v l
  | [] => none

/-- A jump that takes a value. -/
def jumpIf (cond : Bool) (delta : Int) : Option StackMachine :=
  m.pop fun v l => v.toBool.map fun b => ⟨l, if b = cond then m.rest.jump delta else m.rest⟩

/-- A jump that leaves the value of the condition when it jumps. -/
def jumpIfExpr (cond : Bool) (delta : Int) : Option StackMachine :=
  m.pop fun v l => v.toBool.map fun b =>
    if b = cond then ⟨ofBool b :: l, m.rest.jump delta⟩ else ⟨l, m.rest⟩

/-- What an instruction is for; `none` without enough operands, for a type error, and for the
instructions of parameters and variables. -/
def step : Instr → Option StackMachine
  | .nop => some m
  | .getInt i => some (m.push (.integer i))
  | .getFloat f => some (m.push (.float f))
  | .getHash h => some (m.push (.hash h))
  | .getUndefined => some (m.push .undefined)
  | .getBuiltinFunction f => some (m.push (.builtinFunction f))
  | .getFunction f => some (m.push (.scriptFunction f))
  | .preCall => some (m.push (.precall m.rest.codePos))
  | .getString ref =>
    (m.rest.incRef (.object (.string ref))).toOption.map
      fun rest => ⟨.object (.string ref) :: m.operands, rest⟩
  | .isDefined => m.pop fun v l =>
    (m.rest.decRef v).toOption.map fun rest => ⟨ofBool (v != .undefined) :: l, rest⟩
  | .decTop => m.pop fun v l => (m.rest.decRef v).toOption.map fun rest => ⟨l, rest⟩
  | .jump delta => some { m with rest := m.rest.jump delta }
  | .devBlock delta =>
    some { m with rest := if m.rest.enabledDevBlocks then m.rest else m.rest.jump delta }
  | .jumpIfTrue delta => m.jumpIf true delta
  | .jumpIfFalse delta => m.jumpIf false delta
  | .jumpIfTrueExpr delta => m.jumpIfExpr true delta
  | .jumpIfFalseExpr delta => m.jumpIfExpr false delta
  | .jumpIfDefined delta => m.pop fun v l =>
    some (if v = .undefined then ⟨l, m.rest⟩ else ⟨v :: l, m.rest.jump delta⟩)
  | .getVarRef id => (getVarRefHandler m.rest id).toOption.map fun rest => { m with rest := rest }
  | .getVar id =>
    (getVarRefHandler m.rest id).toOption.bind fun rest =>
      if rest.field = invalidFieldRef then none
      else (rest.fields[rest.field]?).map fun f => ⟨f.var :: m.operands, rest⟩
  | .setRefValue => m.pop fun v l =>
    if m.rest.field = invalidFieldRef then none
    else (m.rest.fields[m.rest.field]?).bind fun f => (m.rest.decRef f.var).toOption.map
      fun rest => ⟨l, rest.setField rest.field { f with var := v }⟩
  | .opNot => m.pop fun v l => v.toBool.map fun b => ⟨ofBool (!b) :: l, m.rest⟩
  | .opBitNot => m.pop fun v l =>
    match v with
    | .integer i => some ⟨.integer (~~~i) :: l, m.rest⟩
    | _ => none
  | .binary op => m.pop fun b l =>
    match l with
    | a :: l => (op.apply a b).toOption.map fun r => ⟨r :: l, m.rest⟩
    | [] => none
  | .exportNoParams => none
  | .exportParams _ => none
  | .registerVars _ => none

/-- A turn of the loop. -/
def turn (p : Program) : Option StackMachine :=
  (p m.rest.codePos).bind fun (i, next) =>
    step { m with rest := { m.rest with codePos := next } } i

def run (p : Program) : Nat → StackMachine → Option StackMachine
  | 0, m => some m
  | n + 1, m => (run p n m).bind (turn · p)

end StackMachine

/-! ## The thread as such a machine -/

namespace VmState

variable (s : VmState)

def operands : List VmVar := (s.stack.take s.top).reverse

def view : StackMachine := ⟨s.operands, { s with stack := [], top := 0 }⟩

end VmState

/-- The two values that an instruction mixes up: the slot at `top`, and the last pushed value. -/
def VmState.MixUp (s : VmState) (P : VmVar → VmVar → Prop) : Prop :=
  ∃ x y, s.stack[s.top]? = some x ∧ s.operands.head? = some y ∧ P x y

/-- When an instruction does what it is for. -/
def Instr.Meets (s : VmState) : Instr → Prop
  | .nop | .jump _ | .devBlock _ | .getVarRef _ => True
  | .getInt _ | .getFloat _ | .getHash _ | .getUndefined | .getBuiltinFunction _ | .getFunction _
  | .preCall | .getString _ | .getVar _ => s.top < s.stack.length
  | .isDefined => s.MixUp fun x y => y = ofBool true ∧ release VmVar.ref s.heap x = some s.heap
  | .decTop => s.MixUp fun x y => release VmVar.ref s.heap x = release VmVar.ref s.heap y
  | .jumpIfTrue delta | .jumpIfFalse delta => s.MixUp fun x y =>
    x.toBool = y.toBool ∨ delta = 0 ∧ x.toBool.isSome
  | .jumpIfTrueExpr _ => s.MixUp fun x y =>
    x.toBool = y.toBool ∧ (y.toBool = some true → y = ofBool true)
  | .jumpIfFalseExpr _ => s.MixUp fun x y =>
    x.toBool = y.toBool ∧ (y.toBool = some false → y = ofBool false)
  | .jumpIfDefined _ => s.MixUp fun x y => x = .undefined ↔ y = .undefined
  | .setRefValue => s.MixUp fun x y => x = y
  | .binary op => s.MixUp fun x y => (op.apply y x).isOk = true ∧
    ∃ z, s.operands[1]? = some z ∧ op.apply z y = .ok z
  | .opNot | .opBitNot | .exportNoParams | .exportParams _ | .registerVars _ => False

/-! ## Slots and operands -/

namespace VmState

variable {s : VmState}

theorem operands_set {i : Nat} (v : VmVar) (hi : s.top ≤ i) :
    ((s.stack.set i v).take s.top).reverse = s.operands := by
  rw [List.take_set_of_le hi, operands]

theorem slot_of_getElem {i : Nat} {v : VmVar} (h : s.stack[i]? = some v) : s.slot i = .ok v := by
  rw [slot, h]

theorem slot_none {i : Nat} (h : s.stack[i]? = none) : s.slot i = .error .outOfBounds := by
  rw [slot, h]

theorem setSlot_of_lt {i : Nat} (v : VmVar) (h : i < s.stack.length) :
    s.setSlot i v = .ok { s with stack := s.stack.set i v } := if_pos h

theorem push_eq (v : VmVar) (h : s.top < s.stack.length) :
    s.push v = .ok { s with stack := s.stack.set s.top v, top := s.top + 1 } := by
  rw [push, setSlot_of_lt v h]
  rfl

theorem operands_push (v : VmVar) (h : s.top < s.stack.length) :
    ((s.stack.set s.top v).take (s.top + 1)).reverse = v :: s.operands := by
  rw [List.take_add_one, List.getElem?_set_self h, Option.toList_some, List.reverse_append,
    operands_set v (Nat.le_refl _)]
  rfl

theorem push_full (v : VmVar) (h : ¬ s.top < s.stack.length) :
    s.push v = .error .outOfBounds := by
  rw [push, setSlot, if_neg h]
  rfl

/-- The last pushed value is below `top`. -/
theorem operands_cons {y : VmVar} {l : List VmVar} (htop : s.top ≤ s.stack.length)
    (h : s.operands = y :: l) :
    ∃ n, s.top = n + 1 ∧ s.stack[n]? = some y ∧ (s.stack.take n).reverse = l := by
  unfold operands at h
  cases hn : s.top with
  | zero =>
    rw [hn] at h
    cases h
  | succ n =>
    rw [hn] at h htop
    rw [List.take_add_one, List.getElem?_eq_getElem htop, Option.toList_some,
      List.reverse_append] at h
    cases h
    exact ⟨n, rfl, List.getElem?_eq_getElem htop, rfl⟩

/-- A store, up to the slot of the value. -/
theorem setRefValue_eq {i k : Nat} {f : VmField} {heap : Heap VmObject VmVar}
    (hk : ¬ k = invalidFieldRef) (hf : s.fields[k]? = some f)
    (hrel : release VmVar.ref s.heap f.var = some heap) :
    s.setRefValue k i =
      match s.stack[i]? with
      | some x => .ok { s with
          heap := heap
          fields := s.fields.set k { f with var := x }
          stack := s.stack.set i .undefined }
      | none => .error .outOfBounds := by
  simp only [setRefValue, if_neg hk, fieldAt, hf, decRef, hrel, slot, bind, Except.bind]
  cases hx : s.stack[i]? with
  | none => rfl
  | some x => exact if_pos (List.getElem?_eq_some_iff.mp hx).1

theorem mixUp_iff {y : VmVar} {l : List VmVar} (h : s.operands = y :: l)
    (P : VmVar → VmVar → Prop) : s.MixUp P ↔ ∃ x, s.stack[s.top]? = some x ∧ P x y := by
  constructor
  · rintro ⟨x, y', hx, hy, hP⟩
    rw [h] at hy
    cases hy
    exact ⟨x, hx, hP⟩
  · rintro ⟨x, hx, hP⟩
    exact ⟨x, y, hx, by rw [h]; rfl, hP⟩

theorem pop_view {f : VmVar → List VmVar → Option StackMachine} {m : StackMachine}
    (htop : s.top ≤ s.stack.length) (h : s.view.pop f = some m) :
    ∃ n y l, s.operands = y :: l ∧ s.top = n + 1 ∧ (s.stack.take n).reverse = l ∧
      f y l = some m := by
  unfold StackMachine.pop at h
  split at h
  · rename_i y l hops
    obtain ⟨n, hn, -, hl⟩ := operands_cons htop hops
    exact ⟨n, y, l, hops, hn, hl, h⟩
  · cases h

theorem decTop_succ {n : Nat} (h : s.top = n + 1) : s.decTop = .ok { s with top := n } := by
  rw [decTop, h]

theorem decTop_eq {s' : VmState} (h : s.decTop = .ok s') : ∃ n, s' = { s with top := n } := by
  unfold decTop at h
  split at h
  · cases h
  · rename_i n hn
    cases h
    exact ⟨n, rfl⟩

/-! ## Releases -/

theorem decRef_eq {v : VmVar} {s' : VmState} (h : s.decRef v = .ok s') :
    ∃ heap, release VmVar.ref s.heap v = some heap ∧ s' = { s with heap := heap } := by
  unfold decRef at h
  split at h
  · rename_i heap hheap
    cases h
    exact ⟨heap, hheap, rfl⟩
  · cases h

theorem incRef_eq {v : VmVar} {s' : VmState} (h : s.incRef v = .ok s') :
    ∃ heap, retain VmVar.ref s.heap v = some heap ∧ s' = { s with heap := heap } := by
  unfold incRef at h
  split at h
  · rename_i heap hheap
    cases h
    exact ⟨heap, hheap, rfl⟩
  · cases h

theorem setSlot_eq {i : Nat} {v : VmVar} {s' : VmState} (h : s.setSlot i v = .ok s') :
    i < s.stack.length ∧ s' = { s with stack := s.stack.set i v } := by
  unfold setSlot at h
  split at h
  · rename_i hlt
    cases h
    exact ⟨hlt, rfl⟩
  · cases h

theorem releaseVariable_of {i : Nat} {x : VmVar} {heap : Heap VmObject VmVar}
    (hx : s.stack[i]? = some x) (hrel : release VmVar.ref s.heap x = some heap) :
    s.releaseVariable i = .ok { s with heap := heap, stack := s.stack.set i .undefined } := by
  have hlt := (List.getElem?_eq_some_iff.mp hx).1
  simp only [releaseVariable, slot_of_getElem hx, decRef, hrel, setSlot, if_pos hlt, bind,
    Except.bind]

theorem releaseVariable_eq {i : Nat} {s' : VmState} (h : s.releaseVariable i = .ok s') :
    ∃ x heap, s.stack[i]? = some x ∧ release VmVar.ref s.heap x = some heap ∧
      s' = { s with heap := heap, stack := s.stack.set i .undefined } := by
  obtain ⟨x, hx, h⟩ := ok_of_bind h
  obtain ⟨s₁, h₁, h⟩ := ok_of_bind h
  obtain ⟨heap, hheap, rfl⟩ := decRef_eq h₁
  have hget : s.stack[i]? = some x := by
    unfold slot at hx
    split at hx
    · rename_i v hv
      cases hx
      exact hv
    · cases hx
  have hlt := (List.getElem?_eq_some_iff.mp hget).1
  rw [setSlot, if_pos hlt] at h
  cases h
  exact ⟨x, heap, hget, hheap, rfl⟩

theorem castToBool_of {i : Nat} {x : VmVar} {b : Bool} (hx : s.stack[i]? = some x)
    (hb : x.toBool = some b) :
    s.castToBool i = .ok (b, { s with stack := s.stack.set i (ofBool b) }) := by
  have hlt := (List.getElem?_eq_some_iff.mp hx).1
  simp only [castToBool, slot_of_getElem hx, hb, setSlot_of_lt _ hlt, bind, Except.bind]

/-- A slot without a value for a condition leaves an error. -/
theorem castToBool_log {i : Nat} {x : VmVar} (hx : s.stack[i]? = some x) (hb : x.toBool = none)
    {b : Bool} {s' : VmState} (h : s.castToBool i = .ok (b, s')) : ∃ msg, s'.log = s.log ++ [msg] := by
  simp only [castToBool, slot_of_getElem hx, hb, bind, Except.bind] at h
  split at h
  · cases h
  · rename_i s₁ h₁
    obtain ⟨-, heap, -, -, rfl⟩ := releaseVariable_eq h₁
    cases h
    exact ⟨_, rfl⟩

theorem castToBool_none {i : Nat} (hx : s.stack[i]? = none) :
    s.castToBool i = .error .outOfBounds := by
  simp only [castToBool, slot_none hx, bind, Except.bind]

end VmState

/-! ## The handlers -/

/-- A handler ends in a state that looks like `m`. -/
def LooksLike (x : Except VmFault VmState) (m : StackMachine) : Prop :=
  ∃ s', x = .ok s' ∧ s'.view = m

section Handlers

variable {s : VmState} {m : StackMachine}

theorem looksLike_ok {s' : VmState} : LooksLike (.ok s') m ↔ s'.view = m := by
  constructor
  · rintro ⟨s'', h, hm⟩
    cases h
    exact hm
  · intro hm
    exact ⟨s', rfl, hm⟩

theorem not_looksLike_error {f : VmFault} : ¬ LooksLike (.error f) m := by
  rintro ⟨s', h, -⟩
  cases h

/-- An error is seen in the log. -/
theorem not_looksLike_log {x : Except VmFault VmState} (hm : m.rest.log = s.log)
    (h : ∀ s', x = .ok s' → ∃ msg, s'.log = s.log ++ [msg]) : ¬ LooksLike x m := by
  rintro ⟨s', hx, rfl⟩
  obtain ⟨msg, hmsg⟩ := h s' hx
  have := hmsg.symm.trans hm
  simp at this

/-- A jump that is taken or not. -/
theorem log_jumpIte {P : Prop} [Decidable P] (s : VmState) (delta : Int) :
    (if P then s.jump delta else s).log = s.log := by
  split <;> rfl

theorem view_jumpIte {P : Prop} [Decidable P] (s : VmState) (delta : Int) :
    (if P then s.jump delta else s).view =
      ⟨s.operands, if P then s.view.rest.jump delta else s.view.rest⟩ := by
  split <;> rfl

theorem jump_eq_self {delta : Int} : s.jump delta = s ↔ delta = 0 := by
  constructor
  · intro h
    have hpos : s.codePos + delta = s.codePos := congrArg VmState.codePos h
    omega
  · rintro rfl
    rw [VmState.jump, Int.add_zero]

/-- Two jumps of one length: the same if both are taken, or none, or there is nowhere to go. -/
theorem jumpIte_eq {P Q : Prop} [Decidable P] [Decidable Q] {delta : Int} :
    (if P then s.jump delta else s) = (if Q then s.jump delta else s) ↔ (P ↔ Q) ∨ delta = 0 := by
  by_cases hP : P
  · by_cases hQ : Q
    · simp [hP, hQ]
    · simp [hP, hQ, jump_eq_self]
  · by_cases hQ : Q
    · simp [hP, hQ, eq_comm (a := s), jump_eq_self]
    · simp [hP, hQ]

theorem jumpIf_looksLike (htop : s.top ≤ s.stack.length) {cond : Bool} {delta : Int}
    (hm : s.view.jumpIf cond delta = some m) :
    LooksLike (jumpIfHandler s cond delta) m ↔
      s.MixUp fun x y => x.toBool = y.toBool ∨ delta = 0 ∧ x.toBool.isSome := by
  obtain ⟨n, y, l, hops, hn, hl, hm⟩ := VmState.pop_view htop hm
  obtain ⟨b, hb, rfl⟩ := Option.map_eq_some_iff.mp hm
  rw [VmState.mixUp_iff hops]
  simp only [jumpIfHandler, VmState.decTop_succ hn, bind, Except.bind]
  cases hx : s.stack[s.top]? with
  | none =>
    have hcast := VmState.castToBool_none (s := { s with top := n }) hx
    rw [hcast]
    exact iff_of_false not_looksLike_error nofun
  | some x =>
    cases hxb : x.toBool with
    | none =>
      refine iff_of_false (not_looksLike_log (s := s) ?_ ?_) ?_
      · exact log_jumpIte _ _
      · intro s' h
        split at h
        · cases h
        · rename_i r hcast
          obtain ⟨msg, hmsg⟩ := VmState.castToBool_log (s := { s with top := n }) hx hxb hcast
          cases h
          exact ⟨msg, (log_jumpIte _ _).trans hmsg⟩
      · rintro ⟨x', hx', hor⟩
        cases hx'
        rw [hxb, hb] at hor
        simp at hor
    | some c =>
      have hcast := VmState.castToBool_of (s := { s with top := n }) hx hxb
      rw [hcast]
      have hops' : ({ s with top := n, stack := s.stack.set s.top (ofBool c) } : VmState).operands =
          l := by
        show ((s.stack.set s.top _).take n).reverse = l
        rw [List.take_set_of_le (by omega), hl]
      simp only [looksLike_ok, Option.some.injEq, exists_eq_left', hxb, hb, Option.isSome_some,
        and_true, view_jumpIte, hops', StackMachine.mk.injEq, true_and]
      refine jumpIte_eq.trans (or_congr_left ?_)
      cases b <;> cases c <;> cases cond <;> simp

theorem jumpIfExpr_looksLike (htop : s.top ≤ s.stack.length) {cond : Bool} {delta : Int}
    (hm : s.view.jumpIfExpr cond delta = some m) :
    LooksLike (jumpIfExprHandler s cond delta) m ↔
      s.MixUp fun x y => x.toBool = y.toBool ∧ (y.toBool = some cond → y = ofBool cond) := by
  obtain ⟨n, y, l, hops, hn, hl, hm⟩ := VmState.pop_view htop hm
  obtain ⟨b, hb, rfl⟩ := Option.map_eq_some_iff.mp hm
  rw [VmState.mixUp_iff hops]
  simp only [jumpIfExprHandler, bind, Except.bind]
  cases hx : s.stack[s.top]? with
  | none =>
    rw [VmState.castToBool_none hx]
    exact iff_of_false not_looksLike_error nofun
  | some x =>
    cases hxb : x.toBool with
    | none =>
      refine iff_of_false (not_looksLike_log (s := s) ?_ ?_) ?_
      · split <;> rfl
      · intro s' h
        split at h
        · cases h
        · rename_i r hcast
          obtain ⟨msg, hmsg⟩ := VmState.castToBool_log hx hxb hcast
          refine ⟨msg, ?_⟩
          split at h
          · cases h
            exact hmsg
          · unfold VmState.decTop at h
            split at h
            · cases h
            · cases h
              exact hmsg
      · rintro ⟨x', hx', hand, -⟩
        cases hx'
        rw [hxb, hb] at hand
        cases hand
    | some c =>
      rw [VmState.castToBool_of hx hxb]
      have hset : ((s.stack.set s.top (ofBool c)).take s.top).reverse = y :: l :=
        (VmState.operands_set _ (Nat.le_refl _)).trans hops
      have hpop : ((s.stack.set s.top (ofBool c)).take n).reverse = l := by
        rw [List.take_set_of_le (by omega), hl]
      simp only [Option.some.injEq, exists_eq_left', hxb, hb]
      by_cases hc : c = cond
      · rw [if_pos hc, looksLike_ok]
        by_cases hbc : b = cond
        · rw [if_pos hbc]
          constructor
          · intro h
            have hhead := hset.symm.trans (congrArg StackMachine.operands h)
            cases hhead
            exact ⟨hc.trans hbc.symm, fun _ => by rw [hbc]⟩
          · rintro ⟨-, hy'⟩
            refine (StackMachine.mk.injEq _ _ _ _).mpr ⟨?_, rfl⟩
            rw [hbc, ← hy' hbc]
            exact hset
        · rw [if_neg hbc]
          refine iff_of_false ?_ (fun h => hbc (h.1.symm.trans hc))
          intro h
          have hlen := congrArg List.length (hset.symm.trans (congrArg StackMachine.operands h))
          simp at hlen
      · have hdec := VmState.decTop_succ (s := { s with stack := s.stack.set s.top (ofBool c) }) hn
        rw [if_neg hc, hdec, looksLike_ok]
        by_cases hbc : b = cond
        · rw [if_pos hbc]
          refine iff_of_false ?_ (fun h => hc (h.1.trans hbc))
          intro h
          have hlen := congrArg List.length (hpop.symm.trans (congrArg StackMachine.operands h))
          simp at hlen
        · rw [if_neg hbc]
          have hcb : c = b := by cases c <;> cases b <;> cases cond <;> simp_all
          refine iff_of_true ?_ ⟨hcb, fun h => absurd h hbc⟩
          exact (StackMachine.mk.injEq _ _ _ _).mpr ⟨hpop, rfl⟩

theorem jumpIfDefined_looksLike (htop : s.top ≤ s.stack.length) {delta : Int}
    (hm : s.view.step (.jumpIfDefined delta) = some m) :
    LooksLike (jumpIfDefinedHandler s delta) m ↔
      s.MixUp fun x y => x = .undefined ↔ y = .undefined := by
  obtain ⟨n, y, l, hops, hn, hl, hm⟩ := VmState.pop_view htop hm
  cases hm
  rw [VmState.mixUp_iff hops]
  simp only [jumpIfDefinedHandler, bind, Except.bind]
  cases hx : s.stack[s.top]? with
  | none =>
    rw [VmState.slot_none hx]
    exact iff_of_false not_looksLike_error nofun
  | some x =>
    rw [VmState.slot_of_getElem hx]
    simp only [Option.some.injEq, exists_eq_left', bne_iff_ne, ne_eq]
    by_cases hxu : x = .undefined
    · rw [if_neg (not_not.mpr hxu), VmState.decTop_succ hn, looksLike_ok]
      by_cases hyu : y = .undefined
      · rw [if_pos hyu]
        exact iff_of_true ((StackMachine.mk.injEq _ _ _ _).mpr ⟨hl, rfl⟩) (iff_of_true hxu hyu)
      · rw [if_neg hyu]
        refine iff_of_false ?_ (fun h => hyu (h.mp hxu))
        intro h
        have hlen := congrArg List.length (hl.symm.trans (congrArg StackMachine.operands h))
        simp at hlen
    · rw [if_pos hxu, looksLike_ok]
      by_cases hyu : y = .undefined
      · rw [if_pos hyu]
        refine iff_of_false ?_ (fun h => hxu (h.mpr hyu))
        intro h
        have hlen := congrArg List.length (hops.symm.trans (congrArg StackMachine.operands h))
        simp at hlen
      · rw [if_neg hyu]
        exact iff_of_true ((StackMachine.mk.injEq _ _ _ _).mpr ⟨hops, rfl⟩) (iff_of_false hxu hyu)

theorem decTop_looksLike (htop : s.top ≤ s.stack.length)
    (hm : s.view.step .decTop = some m) :
    LooksLike (decTopHandler s) m ↔
      s.MixUp fun x y => release VmVar.ref s.heap x = release VmVar.ref s.heap y := by
  obtain ⟨n, y, l, hops, hn, hl, hm⟩ := VmState.pop_view htop hm
  obtain ⟨rest, hrest, rfl⟩ := Option.map_eq_some_iff.mp hm
  obtain ⟨heap, hheap, rfl⟩ := VmState.decRef_eq (ok_of_toOption hrest)
  rw [VmState.mixUp_iff hops]
  simp only [decTopHandler, VmState.decTop_succ hn, bind, Except.bind]
  constructor
  · rintro ⟨s', h, hv⟩
    obtain ⟨x, heap', hx, hheap', rfl⟩ := VmState.releaseVariable_eq h
    refine ⟨x, hx, hheap'.trans (Eq.trans ?_ hheap.symm)⟩
    exact congrArg (fun m => some m.rest.heap) hv
  · rintro ⟨x, hx, hrel⟩
    refine ⟨{ s with top := n, heap := heap, stack := s.stack.set s.top .undefined }, ?_, ?_⟩
    · exact VmState.releaseVariable_of (s := { s with top := n }) hx (hrel.trans hheap)
    · refine (StackMachine.mk.injEq _ _ _ _).mpr ⟨?_, rfl⟩
      show ((s.stack.set s.top _).take n).reverse = l
      rw [List.take_set_of_le (by omega), hl]

theorem release_none {v : VmVar} (heap : Heap VmObject VmVar) (h : v.ref = none) :
    release VmVar.ref heap v = some heap := by
  rw [release, drain, h]
  cases total Cell.weight heap <;> rfl

theorem isDefined_looksLike (htop : s.top ≤ s.stack.length)
    (hm : s.view.step .isDefined = some m) :
    LooksLike (isDefinedHandler s) m ↔
      s.MixUp fun x y => y = ofBool true ∧ release VmVar.ref s.heap x = some s.heap := by
  obtain ⟨n, y, l, hops, hn, hl, hm⟩ := VmState.pop_view htop hm
  obtain ⟨rest, hrest, rfl⟩ := Option.map_eq_some_iff.mp hm
  obtain ⟨heap, hheap, rfl⟩ := VmState.decRef_eq (ok_of_toOption hrest)
  rw [VmState.mixUp_iff hops]
  constructor
  · rintro ⟨s', h, hv⟩
    obtain ⟨s₁, h₁, h⟩ := ok_of_bind h
    obtain ⟨v, -, h⟩ := ok_of_bind h
    obtain ⟨x, heap', hx, hheap', rfl⟩ := VmState.releaseVariable_eq h₁
    obtain ⟨-, rfl⟩ := VmState.setSlot_eq h
    have hhead : y :: l = ofBool (y != .undefined) :: l := by
      refine hops.symm.trans (Eq.trans ?_ (congrArg StackMachine.operands hv))
      show _ = (((s.stack.set s.top _).set s.top _).take s.top).reverse
      rw [List.set_set, VmState.operands_set _ (Nat.le_refl _)]
    have hy : y = ofBool (y != .undefined) := (List.cons.inj hhead).1
    have hyd : (y != .undefined) = true := by
      rw [hy]
      rfl
    rw [hyd] at hy
    refine ⟨x, hx, hy, ?_⟩
    have hsame : release VmVar.ref s.heap y = some s.heap := release_none _ (by rw [hy]; rfl)
    have heq : heap' = heap := congrArg (fun m => m.rest.heap) hv
    rw [hheap', heq]
    exact hheap.symm.trans hsame
  · rintro ⟨x, hx, rfl, hrel⟩
    have hlt := (List.getElem?_eq_some_iff.mp hx).1
    have hheap' : heap = s.heap :=
      Option.some.inj (hheap.symm.trans (release_none (v := ofBool true) s.heap rfl))
    refine ⟨{ s with stack := s.stack.set s.top (ofBool false) }, ?_, ?_⟩
    · have hget : (s.stack.set s.top .undefined)[s.top]? = some VmVar.undefined :=
        List.getElem?_set_self hlt
      have hlt' : s.top < (s.stack.set s.top VmVar.undefined).length := by
        rw [List.length_set]
        exact hlt
      simp only [isDefinedHandler, VmState.releaseVariable_of hx hrel, VmState.slot, hget,
        VmState.setSlot, if_pos hlt', List.set_set, bind, Except.bind]
      rfl
    · rw [hheap']
      exact (StackMachine.mk.injEq _ _ _ _).mpr
        ⟨(VmState.operands_set _ (Nat.le_refl _)).trans hops, rfl⟩

theorem setRefValue_looksLike (htop : s.top ≤ s.stack.length)
    (hm : s.view.step .setRefValue = some m) :
    LooksLike (setRefValueHandler s) m ↔ s.MixUp fun x y => x = y := by
  obtain ⟨n, y, l, hops, hn, hl, hm⟩ := VmState.pop_view htop hm
  split at hm
  · cases hm
  · rename_i hfield
    obtain ⟨f, hf, hm⟩ := Option.bind_eq_some_iff.mp hm
    obtain ⟨rest, hrest, rfl⟩ := Option.map_eq_some_iff.mp hm
    obtain ⟨heap, hheap, rfl⟩ := VmState.decRef_eq (ok_of_toOption hrest)
    have hlt := (List.getElem?_eq_some_iff.mp hf).1
    rw [VmState.mixUp_iff hops]
    have hfield' : ¬ s.field = invalidFieldRef := hfield
    have hf' : s.fields[s.field]? = some f := hf
    have hheap' : release VmVar.ref s.heap f.var = some heap := hheap
    have hset := VmState.setRefValue_eq (s := { s with top := n }) (i := s.top) hfield' hf' hheap'
    simp only [setRefValueHandler, VmState.decTop_succ hn, bind, Except.bind, hset]
    cases hx : s.stack[s.top]? with
    | none => exact iff_of_false not_looksLike_error nofun
    | some x =>
      simp only [looksLike_ok, Option.some.injEq, exists_eq_left']
      constructor
      · intro h
        have hfields : s.fields.set s.field { f with var := x } =
            s.fields.set s.field { f with var := y } := congrArg (fun m => m.rest.fields) h
        have hget := List.getElem?_set_self (a := ({ f with var := x } : VmField)) hlt
        have hget' := List.getElem?_set_self (a := ({ f with var := y } : VmField)) hlt
        exact congrArg VmField.var (Option.some.inj (hget.symm.trans (hfields ▸ hget')))
      · rintro rfl
        refine (StackMachine.mk.injEq _ _ _ _).mpr ⟨?_, rfl⟩
        show ((s.stack.set s.top _).take n).reverse = l
        rw [List.take_set_of_le (by omega), hl]

theorem ofBool_toBool (b : Bool) : (ofBool b).toBool = some b := by
  cases b <;> rfl

/-- A negation is not seen below `top`. -/
theorem not_looksLike_opNot (htop : s.top ≤ s.stack.length) (hm : s.view.step .opNot = some m) :
    ¬ LooksLike (notHandler s) m := by
  obtain ⟨n, y, l, hops, hn, hl, hm⟩ := VmState.pop_view htop hm
  obtain ⟨b, hb, rfl⟩ := Option.map_eq_some_iff.mp hm
  simp only [notHandler, VmState.slot, bind, Except.bind]
  cases hx : s.stack[s.top]? with
  | none => exact not_looksLike_error
  | some x =>
    simp only
    cases hxb : x.toBool with
    | none =>
      refine not_looksLike_log (s := s) rfl fun s' h => ?_
      simp only at h
      split at h
      · cases h
      · rename_i s₁ h₁
        obtain ⟨-, heap, -, -, rfl⟩ := VmState.releaseVariable_eq h₁
        obtain ⟨-, rfl⟩ := VmState.setSlot_eq h
        exact ⟨_, rfl⟩
    | some c =>
      rintro ⟨s', h, hv⟩
      obtain ⟨-, rfl⟩ := VmState.setSlot_eq h
      have hops' : s.operands = ofBool (!b) :: l :=
        (VmState.operands_set _ (Nat.le_refl _)).symm.trans (congrArg StackMachine.operands hv)
      have hy : y = ofBool (!b) := (List.cons.inj (hops.symm.trans hops')).1
      rw [hy, ofBool_toBool] at hb
      cases b <;> cases hb

theorem not_looksLike_opBitNot (htop : s.top ≤ s.stack.length)
    (hm : s.view.step .opBitNot = some m) : ¬ LooksLike (bitNotHandler s) m := by
  obtain ⟨n, y, l, hops, hn, hl, hm⟩ := VmState.pop_view htop hm
  split at hm
  · rename_i i
    cases hm
    simp only [bitNotHandler, VmState.slot, bind, Except.bind]
    cases hx : s.stack[s.top]? with
    | none => exact not_looksLike_error
    | some x =>
      simp only
      split
      · rintro ⟨s', h, hv⟩
        obtain ⟨-, rfl⟩ := VmState.setSlot_eq h
        have hops' : s.operands = .integer (~~~i) :: l :=
          (VmState.operands_set _ (Nat.le_refl _)).symm.trans (congrArg StackMachine.operands hv)
        have hy : i = ~~~i := VmVar.integer.inj (List.cons.inj (hops.symm.trans hops')).1
        have hbit := congrArg (·.getLsbD 0) hy
        simp at hbit
      · refine not_looksLike_log (s := s) rfl fun s' h => ?_
        split at h
        · cases h
        · rename_i s₁ h₁
          obtain ⟨-, heap, -, -, rfl⟩ := VmState.releaseVariable_eq h₁
          obtain ⟨-, rfl⟩ := VmState.setSlot_eq h
          exact ⟨_, rfl⟩
  · cases hm

theorem binary_looksLike (htop : s.top ≤ s.stack.length) {op : BinOp}
    (hm : s.view.step (.binary op) = some m) :
    LooksLike (binaryHandler s op) m ↔ s.MixUp fun x y => (op.apply y x).isOk = true ∧
      ∃ z, s.operands[1]? = some z ∧ op.apply z y = .ok z := by
  obtain ⟨n, y, l, hops, hn, hl, hm⟩ := VmState.pop_view htop hm
  cases l with
  | nil => cases hm
  | cons z l =>
    obtain ⟨r, hr, rfl⟩ := Option.map_eq_some_iff.mp hm
    have hr := ok_of_toOption hr
    have hy : s.stack[n]? = some y := by
      obtain ⟨n', hn', hy, -⟩ := VmState.operands_cons htop hops
      cases hn.symm.trans hn'
      exact hy
    have hylt := (List.getElem?_eq_some_iff.mp hy).1
    rw [VmState.mixUp_iff hops]
    have hz : s.operands[1]? = some z := by
      rw [hops]
      rfl
    simp only [binaryHandler, VmState.decTop_succ hn, VmState.slot, hy, bind, Except.bind, hz,
      Option.some.injEq, exists_eq_left']
    cases hx : s.stack[s.top]? with
    | none => exact iff_of_false not_looksLike_error nofun
    | some x =>
      simp only [Option.some.injEq, exists_eq_left']
      cases happ : op.apply y x with
      | error msg =>
        refine iff_of_false (not_looksLike_log (s := s) rfl fun s' h => ?_) ?_
        · simp only at h
          obtain ⟨s₁, h₁, h⟩ := ok_of_bind h
          obtain ⟨s₂, h₂, h⟩ := ok_of_bind h
          obtain ⟨s₃, h₃, h⟩ := ok_of_bind h
          obtain ⟨-, heap, -, -, rfl⟩ := VmState.releaseVariable_eq h₁
          obtain ⟨-, heap', -, -, rfl⟩ := VmState.releaseVariable_eq h₂
          obtain ⟨-, rfl⟩ := VmState.setSlot_eq h₃
          obtain ⟨-, rfl⟩ := VmState.setSlot_eq h
          exact ⟨msg, rfl⟩
        · rintro ⟨h, -⟩
          cases h
      | ok c =>
        have hset : ({ s with top := n } : VmState).setSlot n c =
            .ok { s with top := n, stack := s.stack.set n c } := VmState.setSlot_of_lt c hylt
        have hops' : ((s.stack.set n c).take n).reverse = z :: l := by
          rw [List.take_set_of_le (Nat.le_refl n), hl]
        simp only [hset, looksLike_ok]
        constructor
        · intro h
          have hzr : z = r := (List.cons.inj
            (hops'.symm.trans (congrArg StackMachine.operands h))).1
          refine ⟨rfl, ?_⟩
          rw [hr, hzr]
        · rintro ⟨-, hzz⟩
          rw [hr] at hzz
          cases hzz
          exact (StackMachine.mk.injEq _ _ _ _).mpr ⟨hops', rfl⟩

theorem push_looksLike (v : VmVar) :
    LooksLike (s.push v) (s.view.push v) ↔ s.top < s.stack.length := by
  by_cases h : s.top < s.stack.length
  · rw [VmState.push_eq v h, looksLike_ok]
    exact iff_of_true ((StackMachine.mk.injEq _ _ _ _).mpr ⟨VmState.operands_push v h, rfl⟩) h
  · rw [VmState.push_full v h]
    exact iff_of_false not_looksLike_error h

theorem getString_looksLike {ref : Nat} (hm : s.view.step (.getString ref) = some m) :
    LooksLike (getStringHandler s ref) m ↔ s.top < s.stack.length := by
  obtain ⟨rest, hrest, rfl⟩ := Option.map_eq_some_iff.mp hm
  obtain ⟨heap, hheap, rfl⟩ := VmState.incRef_eq (ok_of_toOption hrest)
  by_cases h : s.top < s.stack.length
  · refine iff_of_true ?_ h
    have hheap' : retain VmVar.ref s.heap (.object (.string ref)) = some heap := hheap
    simp only [getStringHandler, VmState.push_eq _ h, VmState.incRef, hheap', looksLike_ok, bind,
      Except.bind]
    exact (StackMachine.mk.injEq _ _ _ _).mpr ⟨VmState.operands_push _ h, rfl⟩
  · refine iff_of_false ?_ h
    simp only [getStringHandler, VmState.push_full _ h, bind, Except.bind]
    exact not_looksLike_error

theorem getVarRef_eq {id : Nat} {s' : VmState} (h : getVarRefHandler s id = .ok s') :
    ∃ k, s.varFields[id]? = some k ∧ s' = { s with field := k } := by
  unfold getVarRefHandler at h
  split at h
  · rename_i k hk
    cases h
    exact ⟨k, hk, rfl⟩
  · cases h

theorem getVarRef_looksLike {id : Nat} (hm : s.view.step (.getVarRef id) = some m) :
    LooksLike (getVarRefHandler s id) m := by
  obtain ⟨rest, hrest, rfl⟩ := Option.map_eq_some_iff.mp hm
  obtain ⟨k, hk, rfl⟩ := getVarRef_eq (ok_of_toOption hrest)
  have hk' : s.varFields[id]? = some k := hk
  rw [getVarRefHandler, hk']
  exact looksLike_ok.mpr rfl

theorem getVar_looksLike {id : Nat} (hm : s.view.step (.getVar id) = some m) :
    LooksLike (getVarHandler s id) m ↔ s.top < s.stack.length := by
  obtain ⟨rest, hrest, hm⟩ := Option.bind_eq_some_iff.mp hm
  obtain ⟨k, hk, rfl⟩ := getVarRef_eq (ok_of_toOption hrest)
  have hk' : s.varFields[id]? = some k := hk
  split at hm
  · cases hm
  · rename_i hfield
    obtain ⟨f, hf, rfl⟩ := Option.map_eq_some_iff.mp hm
    have hf' : s.fields[k]? = some f := hf
    have hfield' : ¬ k = invalidFieldRef := hfield
    simp only [getVarHandler, getVarRefHandler, hk', bind, Except.bind]
    by_cases h : s.top < s.stack.length
    · refine iff_of_true ?_ h
      have hpush := VmState.push_eq (s := { s with field := k }) .undefined h
      have hlt : s.top < (s.stack.set s.top VmVar.undefined).length := by
        rw [List.length_set]
        exact h
      simp only [hpush, VmState.getRefValue, if_neg hfield', VmState.fieldAt, hf', bind, Except.bind]
      rw [VmState.setSlot, if_pos hlt, looksLike_ok]
      refine (StackMachine.mk.injEq _ _ _ _).mpr ⟨?_, rfl⟩
      show (((s.stack.set s.top _).set s.top _).take (s.top + 1)).reverse = _
      rw [List.set_set, VmState.operands_push _ h]
      rfl
    · have hpush := VmState.push_full (s := { s with field := k }) .undefined h
      simp only [hpush]
      exact iff_of_false not_looksLike_error h

end Handlers

/-! ## The stack keeps its size -/

/-- `top` stays in a stack of `len` slots, or behind it. -/
def Within (len : Nat) (s : VmState) : Prop := s.stack.length = len ∧ s.top ≤ len

/-- A computation keeps `top` in the stack. -/
abbrev Keeps (len : Nat) (x : Except VmFault VmState) : Prop := Safe (fun _ => True) x (Within len)

theorem keeps_slot {len : Nat} {s : VmState} (i : Nat) {f : VmVar → Except VmFault VmState}
    (hf : ∀ v, Keeps len (f v)) : Keeps len (s.slot i >>= f) := by
  unfold VmState.slot
  split
  · exact hf _
  · trivial

theorem keeps_fieldAt {len : Nat} {s : VmState} (k : Nat) {f : VmField → Except VmFault VmState}
    (hf : ∀ v, Keeps len (f v)) : Keeps len (s.fieldAt k >>= f) := by
  unfold VmState.fieldAt
  split
  · exact hf _
  · trivial

namespace Within

variable {len : Nat} {s : VmState}

theorem setSlot (h : Within len s) (i : Nat) (v : VmVar) : Keeps len (s.setSlot i v) := by
  unfold VmState.setSlot
  split
  · exact ⟨(List.length_set ..).trans h.1, h.2⟩
  · trivial

theorem decTop (h : Within len s) : Keeps len s.decTop := by
  unfold VmState.decTop
  split
  · trivial
  · rename_i n hn
    exact ⟨h.1, by have := h.2; show n ≤ len; omega⟩

theorem push (h : Within len s) (v : VmVar) : Keeps len (s.push v) := by
  by_cases hlt : s.top < s.stack.length
  · rw [VmState.push_eq v hlt]
    exact ⟨(List.length_set ..).trans h.1, h.1 ▸ hlt⟩
  · rw [VmState.push_full v hlt]
    trivial

theorem decRef (h : Within len s) (v : VmVar) : Keeps len (s.decRef v) := by
  unfold VmState.decRef
  split
  · exact h
  · trivial

theorem incRef (h : Within len s) (v : VmVar) : Keeps len (s.incRef v) := by
  unfold VmState.incRef
  split
  · exact h
  · trivial

theorem releaseVariable (h : Within len s) (i : Nat) : Keeps len (s.releaseVariable i) := by
  refine keeps_slot i fun v => ?_
  exact (h.decRef v).bind fun s₁ h₁ => h₁.setSlot i _

theorem castToBool (h : Within len s) (i : Nat) :
    Safe (fun _ => True) (s.castToBool i) fun r => Within len r.2 := by
  unfold VmState.castToBool VmState.slot
  split
  · rename_i v hv
    simp only [bind, Except.bind]
    split
    · exact (h.setSlot i _).bind fun s₁ h₁ => h₁
    · exact Safe.bind (Q := Within len) (releaseVariable (s := s.error _) h i) fun s₁ h₁ => h₁
  · trivial

theorem setRefValue (h : Within len s) (k i : Nat) : Keeps len (s.setRefValue k i) := by
  unfold VmState.setRefValue
  split
  · exact h
  · refine keeps_fieldAt k fun f => ?_
    refine (h.decRef f.var).bind fun s₁ h₁ => keeps_slot i fun v => ?_
    exact setSlot (s := s₁.setField k _) h₁ i _

theorem getRefValue (h : Within len s) (k i : Nat) : Keeps len (s.getRefValue k i) := by
  unfold VmState.getRefValue
  split
  · exact h
  · exact keeps_fieldAt k fun f => h.setSlot i _

theorem jumpIte {P : Prop} [Decidable P] (h : Within len s) (delta : Int) :
    Within len (if P then s.jump delta else s) := by
  split <;> exact h

theorem getVarRef (h : Within len s) (id : Nat) : Keeps len (getVarRefHandler s id) := by
  unfold getVarRefHandler
  split
  · exact h
  · trivial

end Within

theorem handle_keeps {len : Nat} {s : VmState} (h : Within len s) {i : Instr} {m : StackMachine}
    (hm : s.view.step i = some m) : Keeps len (i.handle s) := by
  cases i with
  | nop => exact h
  | jump delta => exact h
  | devBlock delta =>
    show Within len (if s.enabledDevBlocks = true then s else s.jump delta)
    split <;> exact h
  | getInt i => exact h.push _
  | getFloat f => exact h.push _
  | getHash f => exact h.push _
  | getUndefined => exact h.push _
  | getBuiltinFunction f => exact h.push _
  | getFunction f => exact h.push _
  | preCall => exact h.push _
  | getString ref => exact (h.push _).bind fun s₁ h₁ => h₁.incRef _
  | getVar id =>
    exact (h.getVarRef id).bind fun s₁ h₁ => (h₁.push _).bind fun s₂ h₂ => h₂.getRefValue _ _
  | getVarRef id => exact h.getVarRef id
  | isDefined => exact (h.releaseVariable _).bind fun s₁ h₁ => keeps_slot _ fun v => h₁.setSlot _ _
  | decTop => exact h.decTop.bind fun s₁ h₁ => h₁.releaseVariable _
  | jumpIfTrue delta =>
    exact h.decTop.bind fun s₁ h₁ => (h₁.castToBool _).bind fun r hr => hr.jumpIte delta
  | jumpIfFalse delta =>
    exact h.decTop.bind fun s₁ h₁ => (h₁.castToBool _).bind fun r hr => hr.jumpIte delta
  | jumpIfTrueExpr delta =>
    refine (h.castToBool _).bind fun r hr => ?_
    simp only
    split
    · exact hr
    · exact hr.decTop
  | jumpIfFalseExpr delta =>
    refine (h.castToBool _).bind fun r hr => ?_
    simp only
    split
    · exact hr
    · exact hr.decTop
  | jumpIfDefined delta =>
    refine keeps_slot _ fun v => ?_
    split
    · exact h
    · exact h.decTop
  | setRefValue => exact h.decTop.bind fun s₁ h₁ => h₁.setRefValue _ _
  | opNot =>
    refine keeps_slot _ fun v => ?_
    split
    · exact h.setSlot _ _
    · exact Safe.bind (Within.releaseVariable (s := s.error _) h _) fun s₁ h₁ => h₁.setSlot _ _
  | opBitNot =>
    refine keeps_slot _ fun v => ?_
    split
    · exact h.setSlot _ _
    · exact Safe.bind (Within.releaseVariable (s := s.error _) h _) fun s₁ h₁ => h₁.setSlot _ _
  | binary op =>
    refine h.decTop.bind fun s₁ h₁ => keeps_slot _ fun a => keeps_slot _ fun b => ?_
    split
    · exact h₁.setSlot _ _
    · exact Safe.bind (Within.releaseVariable (s := s₁.error _) h₁ _) fun s₂ h₂ =>
        (h₂.releaseVariable _).bind fun s₃ h₃ => (h₃.setSlot _ _).bind fun s₄ h₄ => h₄.setSlot _ _
  | exportNoParams => cases hm
  | exportParams vars => cases hm
  | registerVars vars => cases hm

/-! ## An instruction -/

/-- **An instruction does to the operands what it is for exactly when it meets the condition.** -/
theorem handle_looksLike {s : VmState} (htop : s.top ≤ s.stack.length) {i : Instr}
    {m : StackMachine} (hm : s.view.step i = some m) :
    LooksLike (i.handle s) m ↔ i.Meets s := by
  cases i with
  | nop =>
    cases hm
    exact iff_of_true ⟨s, rfl, rfl⟩ trivial
  | jump delta =>
    cases hm
    exact iff_of_true ⟨s.jump delta, rfl, rfl⟩ trivial
  | devBlock delta =>
    cases hm
    refine iff_of_true ?_ trivial
    show LooksLike (.ok (if s.enabledDevBlocks = true then s else s.jump delta)) _
    rw [looksLike_ok]
    show _ = StackMachine.mk s.operands
      (if s.enabledDevBlocks = true then s.view.rest else s.view.rest.jump delta)
    split <;> rfl
  | getInt i =>
    cases hm
    exact push_looksLike _
  | getFloat f =>
    cases hm
    exact push_looksLike _
  | getHash h =>
    cases hm
    exact push_looksLike _
  | getUndefined =>
    cases hm
    exact push_looksLike _
  | getBuiltinFunction f =>
    cases hm
    exact push_looksLike _
  | getFunction f =>
    cases hm
    exact push_looksLike _
  | preCall =>
    cases hm
    exact push_looksLike _
  | getString ref => exact getString_looksLike hm
  | getVar id => exact getVar_looksLike hm
  | getVarRef id => exact iff_of_true (getVarRef_looksLike hm) trivial
  | isDefined => exact isDefined_looksLike htop hm
  | decTop => exact decTop_looksLike htop hm
  | jumpIfTrue delta => exact jumpIf_looksLike htop hm
  | jumpIfFalse delta => exact jumpIf_looksLike htop hm
  | jumpIfTrueExpr delta => exact jumpIfExpr_looksLike htop hm
  | jumpIfFalseExpr delta => exact jumpIfExpr_looksLike htop hm
  | jumpIfDefined delta => exact jumpIfDefined_looksLike htop hm
  | setRefValue => exact setRefValue_looksLike htop hm
  | opNot => exact iff_of_false (not_looksLike_opNot htop hm) id
  | opBitNot => exact iff_of_false (not_looksLike_opBitNot htop hm) id
  | binary op => exact binary_looksLike htop hm
  | exportNoParams => cases hm
  | exportParams vars => cases hm
  | registerVars vars => cases hm

/-! ## Runs -/

/-- The next instruction meets its condition. -/
def MeetsNext (p : Program) (s : VmState) : Prop :=
  ∀ i next, p s.codePos = some (i, next) → i.Meets { s with codePos := next }

/-- After `k` instructions the operands are those of the machine with a list. -/
def BehavesAt (p : Program) (s : VmState) (k : Nat) : Prop :=
  ∃ s', run p k s = .ok s' ∧ StackMachine.run p k s.view = some s'.view

/-- One turn of the loop. -/
theorem step_looksLike {p : Program} {s : VmState} (htop : s.top ≤ s.stack.length)
    {m : StackMachine} (hm : s.view.turn p = some m) :
    LooksLike (step p s) m ↔ MeetsNext p s := by
  obtain ⟨⟨i, next⟩, hp, hm⟩ := Option.bind_eq_some_iff.mp hm
  have hp' : p s.codePos = some (i, next) := hp
  rw [step, hp']
  have hiff := handle_looksLike (s := { s with codePos := next }) htop hm
  rw [hiff]
  constructor
  · intro h j next' hj
    rw [hp'] at hj
    cases hj
    exact h
  · intro h
    exact h i next hp'

theorem within_step {len : Nat} {p : Program} {s s' : VmState} (h : Within len s)
    {m : StackMachine} (hm : s.view.turn p = some m) (hs : step p s = .ok s') : Within len s' := by
  obtain ⟨⟨i, next⟩, hp, hm⟩ := Option.bind_eq_some_iff.mp hm
  have hp' : p s.codePos = some (i, next) := hp
  rw [step, hp'] at hs
  have hkeeps := handle_keeps (s := { s with codePos := next }) h hm
  simp only at hs
  rw [Keeps, hs] at hkeeps
  exact hkeeps

/-- A prefix of a run without type errors is one. -/
theorem StackMachine.run_prefix {p : Program} {m m' : StackMachine} {n k : Nat} (hk : k ≤ n)
    (h : StackMachine.run p n m = some m') : ∃ m'', StackMachine.run p k m = some m'' := by
  induction n generalizing m' with
  | zero =>
    cases Nat.le_zero.mp hk
    exact ⟨m', h⟩
  | succ n ih =>
    rcases Nat.lt_or_ge k (n + 1) with hlt | hge
    · obtain ⟨m₁, h₁, -⟩ := Option.bind_eq_some_iff.mp h
      exact ih (Nat.le_of_lt_succ hlt) h₁
    · cases Nat.le_antisymm hk hge
      exact ⟨m', h⟩

/-- The run so far stays in the stack. -/
theorem within_run {len : Nat} {p : Program} {s s' : VmState} (h : Within len s) {k : Nat}
    (hbehaves : ∀ j ≤ k, BehavesAt p s j) (hs : run p k s = .ok s') : Within len s' := by
  induction k generalizing s' with
  | zero =>
    cases hs
    exact h
  | succ k ih =>
    obtain ⟨s₁, h₁, hs⟩ := ok_of_bind hs
    obtain ⟨s₁', h₁', hv₁⟩ := hbehaves k (Nat.le_succ k)
    rw [h₁] at h₁'
    cases h₁'
    obtain ⟨s₂, -, hv₂⟩ := hbehaves (k + 1) (Nat.le_refl _)
    rw [StackMachine.run, hv₁] at hv₂
    exact within_step (ih (fun j hj => hbehaves j (Nat.le_succ_of_le hj)) h₁) hv₂ hs

/-- `1 ^ 2`. -/
def xorProgram : Program := fun pos =>
  if pos = 0 then some (.getInt 1, 16) else if pos = 16 then some (.getInt 2, 32)
  else if pos = 32 then some (.binary .bitXor, 33) else none

end Acts.Vm
