import Acts.Gsc.Parser

/-!
# A rejected part rejects the function

* `Propagates` — the code of a construct does not accept once a call it made was rejected.
* `propagates_of_not_vector` — so it is for every construct but one.
* `HidesComponent` — a vector literal written part by part looks at its first component only.
* `rejected_iff` — **a rejected part rejects the function exactly when no vector literal of an
  accepted function hides a rejected component.**
* `plainCompiler`, `hidingFunction` — a script that is compiled without one of its parts.
-/

set_option autoImplicit false

namespace Acts.Gsc.Parser

open Acts.Lib.Calls

variable {σ : Type} (c : Compiler σ)

abbrev Propagates (b : Parse σ Bool) : Prop := b.Guards accepted (fun r => r = false)

attribute [local simp] accepted value field function number float emit emitIf check asks

/-! ## Sequences -/

theorem Propagates.bind {α : Type} {p : α → Prop} {b : Parse σ Bool} {f : Bool → Parse σ α}
    (hb : Propagates b) (hfalse : (f false).Yields p) (hf : ∀ ok, (f ok).Guards accepted p) :
    (b.bind f).Guards accepted p :=
  Body.Guards.bind accepted (hb.imp accepted (fun ok hok => by rw [hok]; exact hfalse)) hf

theorem each_propagates {ι : Type} {p : ι → Parse σ Bool} (hp : ∀ a, Propagates (p a))
    (l : List ι) : Propagates (each p l) := by
  induction l with
  | nil => trivial
  | cons a l ih =>
    refine (hp a).bind ?_ (fun ok => ?_)
    · simp [Body.yields_bind]
    · refine ih.bind ?_ (fun rest => trivial)
      simp

theorem eachUntil_propagates {ι : Type} {p : ι → Parse σ Bool} (hp : ∀ a, Propagates (p a))
    (l : List ι) : Propagates (eachUntil p l) := by
  induction l with
  | nil => trivial
  | cons a l ih =>
    refine (hp a).bind (by simp) (fun ok => ?_)
    cases ok with
    | false => trivial
    | true => exact ih

theorem value_propagates (n : Node) (expressVal : Bool) :
    Propagates (value n expressVal : Parse σ Bool) := by
  simp

theorem valueIfAny_propagates (n : Option Node) (expressVal : Bool) :
    Propagates (valueIfAny n expressVal : Parse σ Bool) := by
  cases n with
  | none => trivial
  | some n => exact value_propagates n expressVal

/-- Looking for a constant rejects nothing. -/
theorem guards_number {α : Type} {p : α → Prop} {n : Node} {f : Option Int64 → Parse σ α}
    (h : ∀ v, (f v).Guards accepted p) : ((number n).bind f).Guards accepted p := by
  intro v
  rw [if_pos (by rfl)]
  exact h v

theorem guards_emit {α : Type} {p : α → Prop} {k : Nat} {n : Node} {f : Unit → Parse σ α}
    (h : (f ()).Guards accepted p) : ((emit c k n).bind f).Guards accepted p :=
  fun _ => h

theorem check_propagates (k : Check) (n : Node) : Propagates (check c k n) := fun _ => trivial

/-- Code that reports an error stops here. -/
theorem guards_check {α : Type} {p : α → Prop} {k : Check} {n : Node} {f : Bool → Parse σ α}
    (h : ∀ ok, (f ok).Guards accepted p) : ((check c k n).bind f).Guards accepted p :=
  fun _ => h _

/-! ## Statements -/

theorem statement_propagates (n : Node) (cs : List Node) (expressVal : Bool) :
    Propagates (statement c n cs expressVal) := by
  simp [statement]

theorem statementIf_propagates (n : Node) (cs : List Node) : Propagates (statementIf c n cs) := by
  refine guards_number (fun v => ?_)
  cases v with
  | none => simp
  | some v => simp

theorem statementWhile_propagates (n : Node) (cs : List Node) :
    Propagates (statementWhile c n cs) := by
  refine guards_number (fun v => ?_)
  cases v with
  | none => simp
  | some v => simp

theorem statementDowhile_propagates (n : Node) (cs : List Node) :
    Propagates (statementDowhile c n cs) := by
  intro s
  refine (value_propagates (child cs 1) false).bind ?_ (fun body s' => ?_)
  · intro s' v
    cases v with
    | none => simp
    | some v => simp
  · refine guards_number (fun v => ?_)
    cases v with
    | none => simp
    | some v => simp

theorem statementFor_propagates (n : Node) (cs : List Node) :
    Propagates (statementFor c n cs) := by
  refine (valueIfAny_propagates _ false).bind ?_ (fun initOk => ?_)
  · simp [Body.yields_bind]
  · intro s
    refine (valueIfAny_propagates _ true).bind ?_ (fun condOk => ?_)
    · simp [Body.yields_bind]
    · intro s' s''
      refine (value_propagates (lastChild cs) false).bind ?_ (fun body s₃ => ?_)
      · simp [Body.yields_bind]
      · refine (valueIfAny_propagates _ false).bind ?_ (fun deltaOk => ?_)
        · simp
        · simp

theorem switchLabels_guards (n : Node) (fuel : Nat) (hasDefault : Bool) (cs : List Node) :
    (switchLabels c n fuel hasDefault cs).Guards accepted (fun r => r.1 = false) := by
  induction fuel generalizing hasDefault cs with
  | zero => trivial
  | succ fuel ih =>
    cases cs with
    | nil => trivial
    | cons label rest =>
      rw [switchLabels]
      split
      · refine (value_propagates (child rest 0) true).bind ?_ (fun ok => guards_emit c ?_)
        · simp [Body.yields_bind]
        · refine Body.Guards.bind accepted ((ih _ _).imp accepted ?_) (fun more => trivial)
          rintro ⟨ok', stmts⟩ rfl
          simp
      · split
        · refine Body.Guards.bind accepted ((ih _ _).imp accepted ?_) (fun more => trivial)
          rintro ⟨ok', stmts⟩ rfl
          simp
        · refine Body.Guards.bind accepted ((ih _ _).imp accepted ?_) (fun more => trivial)
          rintro ⟨ok', stmts⟩ rfl
          simp

theorem statementSwitch_propagates (n : Node) (cs : List Node) :
    Propagates (statementSwitch c n cs) := by
  refine guards_check c (fun ok => ?_)
  cases ok with
  | false => trivial
  | true =>
    refine (value_propagates (child cs 2) true).bind ?_ (fun cond => guards_emit c ?_)
    · simp [Body.yields_bind]
    · refine Body.Guards.bind accepted ((switchLabels_guards c n _ _ _).imp accepted ?_)
        (fun labels => guards_emit c ?_)
      · rintro ⟨ok, blocks⟩ rfl
        simp [Body.yields_bind]
      · refine (each_propagates (fun block => ?_) labels.2).bind ?_ (fun stmts => ?_)
        · exact guards_emit c (each_propagates (fun stmt => value_propagates stmt false) block)
        · simp
        · simp

theorem foreachBody_propagates (n : Node) (cs : List Node) (ok : Bool) :
    Propagates (foreachBody c n cs ok) := by
  unfold foreachBody
  cases c.foreachType with
  | other => trivial
  | _ => simp

theorem foreachBody_false (n : Node) (cs : List Node) :
    (foreachBody c n cs false).Yields (fun r => r = false) := by
  unfold foreachBody
  cases c.foreachType with
  | other => rfl
  | _ => simp

theorem statementForeach_propagates (n : Node) (cs : List Node) :
    Propagates (statementForeach c n cs) := by
  simp [statementForeach, foreachBody_false, foreachBody_propagates]

theorem nopDef_propagates (n : Node) (cs : List Node) (expressVal : Bool) :
    Propagates (nopDef c n cs expressVal) := by
  simp [nopDef]

theorem arrayUnpack_propagates (n : Node) (cs : List Node) :
    Propagates (arrayUnpack c n cs) := by
  refine guards_check c (fun ok => ?_)
  cases ok with
  | false => trivial
  | true =>
    refine (value_propagates (lastChild cs) true).bind (by simp) (fun ok => ?_)
    cases ok with
    | false => trivial
    | true => exact guards_emit c (eachUntil_propagates (check_propagates c .unpackEntry) _)

theorem devopDef_propagates (n : Node) (cs : List Node) (expressVal : Bool) :
    Propagates (devopDef c n cs expressVal) := by
  simp [devopDef]

theorem statementInst_propagates (cs : List Node) (expressVal : Bool) :
    Propagates (statementInst cs expressVal : Parse σ Bool) := by
  simp [statementInst]

theorem statementBlock_propagates (cs : List Node) (expressVal : Bool) :
    Propagates (statementBlock cs expressVal : Parse σ Bool) := by
  unfold statementBlock
  split
  · trivial
  · exact each_propagates (fun stmt => value_propagates stmt false) (inner cs)

theorem statementDevBlock_propagates (n : Node) (cs : List Node) (expressVal : Bool) :
    Propagates (statementDevBlock c n cs expressVal) := by
  unfold statementDevBlock
  split
  · trivial
  · intro s
    refine (each_propagates (fun stmt => value_propagates stmt false) (inner cs)).bind ?_
      (fun ok => ?_)
    · simp
    · simp

theorem operatorInst_propagates (n : Node) (cs : List Node) (expressVal : Bool) :
    Propagates (operatorInst c n cs expressVal) := by
  simp [operatorInst]

/-! ## Calls in the script -/

/-- The parameters of an operator are rejected at once, or noted. -/
def ParamsRejected (r : Option (Bool × Nat)) : Prop :=
  r = none ∨ ∃ count, r = some (false, count)

theorem leadingParam_propagates (n : Node) (site : CallSite) (isUsed : Bool) (k : Check) :
    Propagates (leadingParam c n site isUsed k) := by
  simp [leadingParam]

theorem operatorParams_guards (n : Node) (f : FunctionOperator) (site : CallSite)
    (expressVal : Bool) :
    (operatorParams c n f site expressVal).Guards accepted ParamsRejected := by
  unfold operatorParams
  cases f.unpack with
  | true =>
    simp only [if_true]
    split
    · trivial
    · split
      · trivial
      · refine (value_propagates (child site.params 0) true).bind ?_ (fun ok => ?_)
        · split
          · exact .inr ⟨_, rfl⟩
          · exact .inl rfl
        · split <;> trivial
  | false =>
    simp only [Bool.false_eq_true, if_false]
    refine (leadingParam_propagates c n site _ _).bind (.inl rfl) (fun ok => ?_)
    cases ok with
    | false => trivial
    | true =>
      refine (leadingParam_propagates c n site _ _).bind (.inl rfl) (fun ok => ?_)
      cases ok with
      | false => trivial
      | true =>
        exact (each_propagates (fun e => value_propagates e true) _).bind (.inr ⟨_, rfl⟩)
          (fun ok => trivial)

theorem unpackVariables_propagates (f : FunctionOperator) (site : CallSite) :
    Propagates (unpackVariables c f site) := by
  unfold unpackVariables
  split
  · exact eachUntil_propagates (check_propagates c .unpackVariable) _
  · trivial

/-- What stops where a part is rejected. -/
theorem Propagates.stop {b k : Parse σ Bool} (hb : Propagates b) (hk : Propagates k) :
    Propagates (b.bind (fun ok => if !ok then .ret false else k)) := by
  refine hb.bind rfl (fun ok => ?_)
  cases ok with
  | false => trivial
  | true => exact hk

theorem Propagates.unless {p : Prop} [Decidable p] {k : Parse σ Bool} (hk : Propagates k) :
    Propagates (if p then .ret false else k) := by
  split
  · trivial
  · exact hk

theorem operatorCall_propagates (n : Node) (f : FunctionOperator) (site : CallSite)
    (expressVal : Bool) : Propagates (operatorCall c n f site expressVal) := by
  refine .unless (.unless (.unless (guards_emit c ?_)))
  refine (Body.Guards.bind accepted
    ((operatorParams_guards c n f site expressVal).imp accepted ?_) (fun r => ?_))
  · -- the caller is read before the parameters are looked at
    rintro _ (rfl | ⟨count, rfl⟩)
    · rfl
    · simp [Body.yields_bind]
  · cases r with
    | none => trivial
    | some r =>
      refine (valueIfAny_propagates site.self true).stop (.unless (.unless (.unless ?_)))
      refine guards_emit c ((unpackVariables_propagates c f site).stop ?_)
      simp

theorem scriptCall_propagates (n : Node) (site : CallSite) (ptr : Option Node)
    (isClass compilerCall : Bool) :
    Propagates (scriptCall c n site ptr isClass compilerCall) := by
  refine guards_emit c ((each_propagates (fun e => value_propagates e true) _).bind ?_
    (fun ok => guards_emit c ?_))
  · simp [Body.yields_bind]
  · refine (valueIfAny_propagates site.self true).stop ((valueIfAny_propagates ptr true).stop ?_)
    simp

theorem functionCall_propagates (n : Node) (cs : List Node) (expressVal : Bool) :
    Propagates (functionCall c n cs expressVal) := by
  unfold functionCall
  split
  · simp
  · cases callSite cs with
    | none => trivial
    | some site =>
      simp only
      split
      · split
        · exact operatorCall_propagates c n _ site expressVal
        · exact guards_emit c (scriptCall_propagates c n site none false false)
      · exact (check_propagates c .nameSpace n).stop (scriptCall_propagates c n site none false _)
      · exact scriptCall_propagates c n site _ false false
      · split
        · trivial
        · exact scriptCall_propagates c n site _ true false
      · trivial

/-! ## Expressions -/

theorem operatorExpression_propagates (n : Node) (cs : List Node) (expressVal : Bool) :
    Propagates (operatorExpression c n cs expressVal) := by
  have hunary : Propagates (unaryExpression c n cs expressVal) := by
    simp [unaryExpression]
  have hbinary : Propagates (binaryExpression c n cs) := by
    simp [binaryExpression]
  simp [operatorExpression, hunary, hbinary]

theorem isExpression_propagates (n : Node) (cs : List Node) (expressVal : Bool) :
    Propagates (isExpression c n cs expressVal) := by
  simp [isExpression]

theorem classInit_propagates (n : Node) (cs : List Node) : Propagates (classInit c n cs) := by
  simp [classInit]

theorem arrayItems_propagates (n : Node) (cs : List Node) : Propagates (arrayItems c n cs) := by
  induction cs using arrayItems.induct with
  | case1 key mark hmark e sep rest ih =>
    simp only [arrayItems, hmark, if_true]
    refine (value_propagates e true).bind ?_ (fun ok => ?_)
    · simp [Body.yields_bind]
    · refine (value_propagates key true).bind ?_ (fun keyOk => guards_emit c (ih.bind ?_ ?_))
      · simp [Body.yields_bind]
      · simp
      · simp
  | case2 key mark rest hmark hrest =>
    rw [arrayItems.eq_def]
    simp only [hmark, if_true]
    trivial
  | case3 key mark rest hmark ih =>
    rw [arrayItems.eq_def]
    simp only [hmark, if_false]
    refine (value_propagates key true).bind ?_ (fun ok => guards_emit c (ih.bind ?_ ?_))
    · simp [Body.yields_bind]
    · simp
    · simp
  | case4 cs hcs =>
    rw [arrayItems.eq_def]
    split
    · exact absurd rfl (hcs _ _ _)
    · trivial

theorem arrayDef_propagates (n : Node) (cs : List Node) (expressVal : Bool) :
    Propagates (arrayDef c n cs expressVal) := by
  unfold arrayDef
  split
  · trivial
  · exact guards_emit c (arrayItems_propagates c n _)

theorem structKey_propagates (n term : Node) : Propagates (structKey c n term) := by
  simp [structKey]

theorem structItems_propagates (n : Node) (cs : List Node) :
    Propagates (structItems c n cs) := by
  induction cs using structItems.induct with
  | case1 term colon e sep rest ih =>
    rw [structItems]
    refine (value_propagates e true).bind ?_ (fun ok => ?_)
    · simp [Body.yields_bind]
    · refine (structKey_propagates c n term).bind ?_ (fun keyOk => ih.bind ?_ ?_)
      · simp [Body.yields_bind]
      · simp
      · simp
  | case2 cs hcs =>
    rw [structItems.eq_def]
    split
    · exact absurd rfl (hcs _ _ _ _ _)
    · trivial

theorem structDef_propagates (n : Node) (cs : List Node) (expressVal : Bool) :
    Propagates (structDef c n cs expressVal) := by
  unfold structDef
  split
  · trivial
  · exact guards_emit c (structItems_propagates c n _)

theorem functionValue_propagates (n : Node) : Propagates (functionValue c n) := by
  simp [functionValue]

theorem setExpression_propagates (n : Node) (cs : List Node) (expressVal : Bool) :
    Propagates (setExpression c n cs expressVal) := by
  simp [setExpression]

theorem functionRef_propagates (n : Node) (cs : List Node) (expressVal : Bool) :
    Propagates (functionRef c n cs expressVal) := by
  simp [functionRef]

theorem animRef_propagates (n : Node) (cs : List Node) : Propagates (animRef c n cs) := by
  simp [animRef]

theorem leftValue_propagates (n : Node) (cs : List Node) (expressVal : Bool) :
    Propagates (leftValue c n cs expressVal) := by
  simp [leftValue, member]

theorem leftValueField_propagates (n : Node) (cs : List Node) :
    Propagates (leftValueField c n cs) := by
  simp [leftValueField, member]

/-! ## The walk -/

theorem terminalNode_propagates (n : Node) (t : Token) (expressVal : Bool) :
    Propagates (terminalNode c n t expressVal) := by
  unfold terminalNode
  split
  · split
    · exact value_propagates _ expressVal
    · simp
  · split
    · trivial
    · split <;> simp

/-- The literal is written out part by part or folded, where its value is asked for. -/
def IsVector (n : Node) (expressVal : Bool) : Prop :=
  expressVal = true ∧ ∃ cs, n = .rule .vectorValue cs

theorem parseExpressionNode_propagates {n : Node} {expressVal : Bool}
    (h : ¬ IsVector n expressVal) : Propagates (parseExpressionNode c n expressVal) := by
  cases n with
  | error => trivial
  | terminal t text => exact terminalNode_propagates c _ t expressVal
  | rule r cs =>
    unfold parseExpressionNode
    simp only
    split
    · trivial
    · cases r with
      | statement => exact statement_propagates c _ cs expressVal
      | statementIf => exact statementIf_propagates c _ cs
      | statementWhile => exact statementWhile_propagates c _ cs
      | statementDowhile => exact statementDowhile_propagates c _ cs
      | statementFor => exact statementFor_propagates c _ cs
      | statementSwitch => exact statementSwitch_propagates c _ cs
      | statementForeach => exact statementForeach_propagates c _ cs
      | nopDef => exact nopDef_propagates c _ cs expressVal
      | arrayUnpack => exact arrayUnpack_propagates c _ cs
      | devopDef => exact devopDef_propagates c _ cs expressVal
      | statementInst => exact statementInst_propagates cs expressVal
      | statementBlock => exact statementBlock_propagates cs expressVal
      | statementDevBlock => exact statementDevBlock_propagates c _ cs expressVal
      | operatorInst => exact operatorInst_propagates c _ cs expressVal
      | functionCall => exact functionCall_propagates c _ cs expressVal
      | functionCallExp => exact functionCall_propagates c _ cs expressVal
      | expression => exact operatorExpression_propagates c _ cs expressVal
      | idf => exact operatorExpression_propagates c _ cs expressVal
      | expressionN k =>
        simp only
        split
        · exact operatorExpression_propagates c _ cs expressVal
        · exact value_propagates _ expressVal
      | isExpression => exact isExpression_propagates c _ cs expressVal
      | constExpr => exact value_propagates _ expressVal
      | constExprStatic => exact value_propagates _ expressVal
      | number => exact value_propagates _ expressVal
      | vectorValue =>
        cases expressVal with
        | false => trivial
        | true => exact absurd ⟨rfl, cs, rfl⟩ h
      | classInit => exact classInit_propagates c _ cs
      | arrayDef => exact arrayDef_propagates c _ cs expressVal
      | structDef => exact structDef_propagates c _ cs expressVal
      | function => exact functionValue_propagates c _
      | setExpression => exact setExpression_propagates c _ cs expressVal
      | functionRef => exact functionRef_propagates c _ cs expressVal
      | animRef => exact animRef_propagates c _ cs
      | leftValue => exact leftValue_propagates c _ cs expressVal
      | _ => trivial

theorem parseFieldNode_propagates (n : Node) : Propagates (parseFieldNode c n) := by
  cases n with
  | error => trivial
  | terminal t text =>
    unfold parseFieldNode
    simp only
    split
    · split
      · simp
      · exact check_propagates c .leftVariable _
    · trivial
  | rule r cs =>
    unfold parseFieldNode
    simp only
    split
    · trivial
    · cases r with
      | leftValue => exact leftValueField_propagates c _ cs
      | expression => simp
      | idf => simp
      | expressionN k => simp
      | _ => trivial

/-! ## Functions -/

theorem modifiers_propagates (n : Node) (fuel left : Nat) (cs : List Node) :
    Propagates (modifiers c n fuel left cs) := by
  induction fuel generalizing left cs with
  | zero => trivial
  | succ fuel ih =>
    cases cs with
    | nil => trivial
    | cons mod rest =>
      rw [modifiers]
      split
      · trivial
      split
      · exact guards_emit c (ih _ _)
      split
      · trivial
      split
      · split
        · exact guards_number (fun _ => guards_emit c (ih _ _))
        · exact guards_emit c (ih _ _)
      split
      · refine (check_propagates c .eventHandler n).stop ?_
        split
        · trivial
        · exact guards_emit c (ih _ _)
      · exact fun _ => ih _ _

theorem functionParam_propagates (param : Node) : Propagates (functionParam c param) := by
  simp [functionParam]

theorem parseFunction_propagates (n : Node) : Propagates (parseFunction c n) := by
  refine (check_propagates c .exportName n).stop (.unless (.unless ?_))
  refine (modifiers_propagates c n _ _ _).stop
    ((eachUntil_propagates (functionParam_propagates c) _).stop (guards_emit c ?_))
  simp

/-! ## Constants -/

theorem numberNodeValue_guards (n : Node) (p : Option Int64 → Prop) :
    (numberNodeValue c n).Guards accepted p := by
  unfold numberNodeValue
  cases namedConstant c n with
  | some e => simp
  | none =>
    cases n with
    | error => trivial
    | terminal t text => trivial
    | rule r cs =>
      simp only
      split
      · simp
      split
      · trivial
      split
      · simp
      split
      · refine guards_number (fun v1 => ?_)
        cases v1 with
        | none => trivial
        | some v1 =>
          refine guards_number (fun v2 => ?_)
          cases v2 <;> trivial
      split
      · refine guards_number (fun v => ?_)
        cases v <;> trivial
      · trivial

theorem floatNumberNodeValue_guards (n : Node) (p : Bool → Prop) :
    (floatNumberNodeValue c n).Guards accepted p := by
  unfold floatNumberNodeValue
  cases namedConstant c n with
  | some e => simp
  | none =>
    cases n with
    | error => trivial
    | terminal t text => trivial
    | rule r cs => simp

/-! ## Vector literals -/

/-- Only the second and third components of a vector literal can be rejected in vain. -/
theorem vectorValue_parts {n : Node} {cs : List Node}
    {callee : (q : Query) → σ → Option (Outcome σ Query q.Result)} {s : σ}
    {o : Outcome σ Query Bool}
    (h : (vectorValue c n cs true).run accepted callee s = some o) (hacc : o.value = true) :
    ∀ p ∈ o.parts,
      p.2 = true ∨ p.1 = .value (child cs 3) true ∨ p.1 = .value (child cs 5) true := by
  simp only [vectorValue, Bool.not_true, Bool.false_eq_true, if_false] at h
  obtain ⟨x, o₁, -, h₁, rfl⟩ := (Body.run_call accepted).mp h
  obtain ⟨y, o₂, -, h₂, rfl⟩ := (Body.run_call accepted).mp h₁
  obtain ⟨z, o₃, -, h₃, rfl⟩ := (Body.run_call accepted).mp h₂
  have hrest : ∀ p ∈ o₃.parts,
      p.2 = true ∨ p.1 = .value (child cs 3) true ∨ p.1 = .value (child cs 5) true := by
    simp only [asks, Body.bind_eq, Body.bind, Body.run] at h₃
    split at h₃
    · simp only [emit, Body.bind, Body.pure_eq, Body.run, Option.some.injEq] at h₃
      subst h₃
      simp
    · obtain ⟨bz, o₄, -, h₄, rfl⟩ := (Body.run_call accepted).mp h₃
      obtain ⟨by', o₅, -, h₅, rfl⟩ := (Body.run_call accepted).mp h₄
      obtain ⟨bx, o₆, -, h₆, rfl⟩ := (Body.run_call accepted).mp h₅
      have hx : bx.value = true ∧ o₆.parts = [] := by
        cases hbx : bx.value with
        | false =>
          simp only [hbx, Body.bind, Bool.not_false, if_true, Body.pure_eq, Body.run,
            Option.some.injEq] at h₆
          subst h₆
          cases hacc
        | true =>
          simp only [hbx, Body.bind, Bool.not_true, Bool.false_eq_true, if_false,
            emit, Body.pure_eq, Body.run, Option.some.injEq] at h₆
          subst h₆
          exact ⟨rfl, rfl⟩
      intro p hp
      rcases List.mem_cons.mp hp with rfl | hp
      · exact .inr (.inr rfl)
      rcases List.mem_cons.mp hp with rfl | hp
      · exact .inr (.inl rfl)
      rcases List.mem_cons.mp hp with rfl | hp
      · exact .inl hx.1
      rw [hx.2] at hp
      exact absurd hp List.not_mem_nil
  intro p hp
  rcases List.mem_cons.mp hp with rfl | hp
  · exact .inl rfl
  rcases List.mem_cons.mp hp with rfl | hp
  · exact .inl rfl
  rcases List.mem_cons.mp hp with rfl | hp
  · exact .inl rfl
  exact hrest p hp

/-- An accepted vector literal with a rejected second or third component. -/
def HidesComponent (r : Record Query) : Prop :=
  r.accepted = true ∧ ∃ cs, r.query = .value (.rule .vectorValue cs) true ∧
    ((.value (child cs 3) true, false) ∈ r.parts ∨ (.value (child cs 5) true, false) ∈ r.parts)

theorem HidesComponent.not_sound {r : Record Query} (h : HidesComponent r) : ¬ r.Sound := by
  obtain ⟨hacc, cs, -, hpart⟩ := h
  intro hsound
  rcases hpart with hpart | hpart
  · exact absurd (hsound hacc _ hpart) Bool.false_ne_true
  · exact absurd (hsound hacc _ hpart) Bool.false_ne_true

/-- **Every construct rejects what has a rejected part, but for the vector literals that hide
one.** -/
theorem record_sound {callee : (q : Query) → σ → Option (Outcome σ Query q.Result)} {q : Query}
    {s : σ} {o : Outcome σ Query q.Result} (h : (bodyOf c q).run accepted callee s = some o) :
    let r : Record Query := ⟨q, accepted q o.value, o.parts⟩
    r.Sound ∨ HidesComponent r := by
  intro r
  cases q with
  | value n expressVal =>
    by_cases hv : IsVector n expressVal
    · obtain ⟨rfl, cs, rfl⟩ := hv
      by_cases hacc : o.value = true
      · by_cases hparts : ∀ p ∈ o.parts, p.2 = true
        · exact .inl (fun _ => hparts)
        · refine .inr ⟨hacc, cs, rfl, ?_⟩
          simp only [bodyOf, parseExpressionNode] at h
          split at h
          · cases h
            cases hacc
          · have hcomponents := vectorValue_parts c h hacc
            push Not at hparts
            obtain ⟨⟨q, b⟩, hmem, hb⟩ := hparts
            rw [ne_eq, Bool.not_eq_true] at hb
            subst hb
            rcases hcomponents _ hmem with hb | rfl | rfl
            · cases hb
            · exact .inl hmem
            · exact .inr hmem
      · exact .inl (fun hr => absurd hr hacc)
    · exact .inl (sound_of_guards accepted (bodyOf c) (q := .value n expressVal)
        (parseExpressionNode_propagates c hv) h)
  | field n =>
    exact .inl (sound_of_guards accepted (bodyOf c) (q := .field n)
      (parseFieldNode_propagates c n) h)
  | function n =>
    exact .inl (sound_of_guards accepted (bodyOf c) (q := .function n)
      (parseFunction_propagates c n) h)
  | number n =>
    exact .inl (sound_of_guards accepted (bodyOf c) (q := .number n)
      (numberNodeValue_guards c n _) h)
  | float n =>
    exact .inl (sound_of_guards accepted (bodyOf c) (q := .float n)
      (floatNumberNodeValue_guards c n _) h)

/-- **A rejected part rejects the function exactly when no vector literal hides one.** -/
theorem rejected_iff {fuel : Nat} {f : Node} {s : σ} {o : Outcome σ Query Bool}
    (h : invoke accepted (bodyOf c) fuel (.function f) s = some o) :
    (∀ r ∈ o.log, r.Sound ↔ ¬ HidesComponent r) ∧
      (((∃ r ∈ o.log, r.accepted = false) → o.value = false) ↔
        (o.value = true → ∀ r ∈ o.log, ¬ HidesComponent r)) := by
  have hrecords : ∀ r ∈ o.log, r.Sound ∨ HidesComponent r :=
    log_forall accepted (bodyOf c) (fun n q s o hrun => record_sound c hrun) h
  refine ⟨fun r hr => ⟨fun hs hh => hh.not_sound hs, fun hno => ?_⟩, ⟨fun hp hacc r hr hh => ?_,
    fun hno ⟨r, hr, hrej⟩ => ?_⟩⟩
  · exact (hrecords r hr).resolve_right hno
  · -- the hidden component has a record of its own
    obtain ⟨-, cs, -, hpart⟩ := hh
    have hrejected : ∃ r ∈ o.log, r.accepted = false := by
      rcases hpart with hpart | hpart
      · obtain ⟨x, hx, -, hacc'⟩ := log_parts accepted (bodyOf c) h r hr _ hpart
        exact ⟨x, hx, hacc'⟩
      · obtain ⟨x, hx, -, hacc'⟩ := log_parts accepted (bodyOf c) h r hr _ hpart
        exact ⟨x, hx, hacc'⟩
    rw [hp hrejected] at hacc
    cases hacc
  · by_contra hacc
    rw [Bool.not_eq_false] at hacc
    have hall := all_accepted accepted (bodyOf c) h
      (fun r hr => (hrecords r hr).resolve_right (hno hacc r hr)) hacc r hr
    rw [hrej] at hall
    cases hall

/-! ## A script -/

/-- A compiler without operators or constants, whose state is the variables. -/
def plainCompiler : Compiler (List String) where
  constexprs := fun _ => none
  opFuncs := fun _ => none
  hasOpCode := fun _ => false
  foreachType := .t8
  opcodeU16 := false
  compilerNamespace := fun _ => false
  integer := fun _ => 0
  operator := fun _ _ _ => none
  constantVector := fun _ _ => true
  isVar := fun n s => s.contains n.text
  emit := fun _ _ s => s
  check := fun k n s =>
    match k with
    | .variable => (s.contains n.text, s)
    | .leftVariable | .param => (true, n.text :: s)
    | _ => (true, s)

/-- A chain of single children. -/
def chain (rs : List Rule) (n : Node) : Node := rs.foldr (fun r n => .rule r [n]) n

def keyword (text : String) : Node := .terminal .keyword text

/-- The rules between an expression and an operand. -/
def operandRules : List Rule := .expression :: ((List.finRange 16).take 15).map .expressionN

def integerOperand (text : String) : Node :=
  chain (operandRules ++ [.constExpr, .constExprStatic, .number]) (.terminal .integer10 text)

def nameOperand (text : String) : Node :=
  chain (operandRules ++ [.constExpr, .constExprStatic, .number]) (.terminal .identifier text)

def vectorOperand (x y z : Node) : Node :=
  chain (operandRules ++ [.constExpr, .constExprStatic])
    (.rule .vectorValue [keyword "(", x, keyword ",", y, keyword ",", z, keyword ")"])

def assignment (name : String) (e : Node) : Node :=
  .rule .statement [.rule .statementInst [
    .rule .expression [.rule .setExpression [
      .rule .leftValue [.rule .idf [.terminal .identifier name]], keyword "=", e]], keyword ";"]]

def functionOf (stmts : List Node) : Node :=
  .rule .function [keyword "function", .terminal .identifier "f", keyword "(", .rule .paramList [],
    keyword ")", .rule .statementBlock (keyword "\x7b" :: (stmts ++ [keyword "\x7d"]))]

/-- `function f() { a = (1, b, 2); }` -/
def hidingFunction : Node :=
  functionOf [assignment "a" (vectorOperand (integerOperand "1") (nameOperand "b")
    (integerOperand "2"))]

/-- The function is accepted, without its second component. -/
theorem hidingFunction_accepted :
    ∃ o, invoke accepted (bodyOf plainCompiler) 60 (.function hidingFunction) [] = some o ∧
      o.value = true ∧ ∃ r ∈ o.log, r.accepted = false := by
  have hrun : (invoke accepted (bodyOf plainCompiler) 60 (.function hidingFunction) []).map
      (fun o => (o.value, o.log.any (fun r => !r.accepted))) = some (true, true) := by
    decide +kernel
  rw [Option.map_eq_some_iff] at hrun
  obtain ⟨o, ho, heq⟩ := hrun
  rw [Prod.mk.injEq, List.any_eq_true] at heq
  obtain ⟨hval, r, hr, hrej⟩ := heq
  exact ⟨o, ho, hval, r, hr, by simpa using hrej⟩

/-- `function f() { a = b; }` -/
theorem unknown_variable_rejected :
    ∃ o, invoke accepted (bodyOf plainCompiler) 60
        (.function (functionOf [assignment "a" (nameOperand "b")])) [] = some o ∧
      o.value = false ∧ ∀ r ∈ o.log, r.Sound ↔ ¬ HidesComponent r := by
  have hrun : (invoke accepted (bodyOf plainCompiler) 60
      (.function (functionOf [assignment "a" (nameOperand "b")])) []).map Outcome.value =
        some false := by
    decide +kernel
  rw [Option.map_eq_some_iff] at hrun
  obtain ⟨o, ho, hval⟩ := hrun
  exact ⟨o, ho, hval, (rejected_iff plainCompiler ho).1⟩

end Acts.Gsc.Parser
