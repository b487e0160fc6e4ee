import Acts.Gsc.Parser

/-!
# What the code generator calls

* `Node.parts`, `Under` — the nodes of a tree, and the calls on nodes below some children.
* `bodyOf_asks` — **a call is on a node below, or on the tree of a named constant**, or compiles a
  function in an expression.
-/

set_option autoImplicit false

namespace Acts.Gsc.Parser

open Acts.Lib.Calls

/-! ## Parts -/

mutual

/-- The node and all the nodes below it. -/
def Node.parts : Node → List Node
  | .error => [.error]
  | .terminal t text => [.terminal t text]
  | .rule r cs => .rule r cs :: partsAll cs

def partsAll : List Node → List Node
  | [] => []
  | n :: ns => n.parts ++ partsAll ns

end

@[simp] theorem Node.isError_rule (r : Rule) (cs : List Node) : (Node.rule r cs).isError = false :=
  rfl

@[simp] theorem Node.isError_terminal (t : Token) (text : String) :
    (Node.terminal t text).isError = false :=
  rfl

theorem Node.mem_parts (n : Node) : n ∈ n.parts := by
  cases n <;> simp [Node.parts]

theorem mem_partsAll {n p : Node} {cs : List Node} (hn : n ∈ cs) (hp : p ∈ n.parts) :
    p ∈ partsAll cs := by
  induction cs with
  | nil => cases hn
  | cons m cs ih =>
    rw [partsAll]
    rcases List.mem_cons.mp hn with rfl | hn
    · exact List.mem_append_left _ hp
    · exact List.mem_append_right _ (ih hn)

mutual

theorem Node.parts_trans {m p : Node} : (n : Node) → m ∈ n.parts → p ∈ m.parts → p ∈ n.parts
  | .error, hm, hp => by
    rw [Node.parts, List.mem_singleton] at hm
    rw [hm] at hp
    exact hp
  | .terminal t text, hm, hp => by
    rw [Node.parts, List.mem_singleton] at hm
    rw [hm] at hp
    exact hp
  | .rule r cs, hm, hp => by
    rw [Node.parts] at hm
    rcases List.mem_cons.mp hm with rfl | hm
    · exact hp
    · rw [Node.parts]
      exact List.mem_cons_of_mem _ (partsAll_trans cs hm hp)

theorem partsAll_trans {m p : Node} : (cs : List Node) → m ∈ partsAll cs → p ∈ m.parts →
    p ∈ partsAll cs
  | [], hm, _ => absurd hm List.not_mem_nil
  | n :: ns, hm, hp => by
    rw [partsAll] at hm ⊢
    rcases List.mem_append.mp hm with hm | hm
    · exact List.mem_append_left _ (Node.parts_trans n hm hp)
    · exact List.mem_append_right _ (partsAll_trans ns hm hp)

end

/-- The node is below the children, or is what is read for a missing one. -/
def Below (cs : List Node) (n : Node) : Prop := n = .error ∨ n ∈ partsAll cs

theorem below_mem {cs : List Node} {n : Node} (h : n ∈ cs) : Below cs n :=
  .inr (mem_partsAll h n.mem_parts)

theorem child_cases (cs : List Node) (i : Nat) : child cs i = .error ∨ child cs i ∈ cs := by
  unfold child
  by_cases hi : i < cs.length
  · rw [List.getD_eq_getElem?_getD, List.getElem?_eq_getElem hi, Option.getD_some]
    exact .inr (List.getElem_mem hi)
  · rw [List.getD_eq_getElem?_getD, List.getElem?_eq_none (by omega), Option.getD_none]
    exact .inl rfl

theorem lastChild_cases (cs : List Node) : lastChild cs = .error ∨ lastChild cs ∈ cs := by
  unfold lastChild
  cases h : cs.getLast? with
  | none =>
    rw [List.getLast?_eq_none_iff] at h
    rw [h]
    exact .inl rfl
  | some n =>
    rw [List.getLastD_eq_getLast?, h]
    exact .inr (List.mem_of_getLast? h)

theorem below_child_of {cs l : List Node} (h : ∀ m ∈ l, m ∈ cs) (i : Nat) :
    Below cs (child l i) := by
  rcases child_cases l i with hi | hi
  · exact .inl hi
  · exact below_mem (h _ hi)

theorem below_child (cs : List Node) (i : Nat) : Below cs (child cs i) :=
  below_child_of (fun _ hm => hm) i

theorem below_lastChild (cs : List Node) : Below cs (lastChild cs) := by
  rcases lastChild_cases cs with h | h
  · exact .inl h
  · exact below_mem h

theorem Below.trans {cs : List Node} {n m : Node} (h : Below cs n) (hm : Below n.children m) :
    Below cs m := by
  rcases hm with rfl | hm
  · exact .inl rfl
  rcases h with rfl | h
  · exact absurd hm List.not_mem_nil
  · cases n with
    | error => exact absurd hm List.not_mem_nil
    | terminal t text => exact absurd hm List.not_mem_nil
    | rule r ns =>
      refine .inr (partsAll_trans cs h ?_)
      rw [Node.parts]
      exact List.mem_cons_of_mem _ hm

/-- The children of a node that is below. -/
theorem Below.children {cs : List Node} {n m : Node} (h : Below cs n) (hm : m ∈ n.children) :
    Below cs m :=
  h.trans (below_mem hm)

theorem Below.child {cs : List Node} {n : Node} (h : Below cs n) (i : Nat) :
    Below cs (child n.children i) := by
  rcases child_cases n.children i with hi | hi
  · exact .inl hi
  · exact h.children hi

theorem Below.lastChild {cs : List Node} {n : Node} (h : Below cs n) :
    Below cs (lastChild n.children) := by
  rcases lastChild_cases n.children with hl | hl
  · exact .inl hl
  · exact h.children hl

theorem mem_everyOther {n : Node} {l : List Node} (h : n ∈ everyOther l) : n ∈ l := by
  induction l using everyOther.induct with
  | case1 => exact h
  | case2 m => exact h
  | case3 m m' ns ih =>
    rw [everyOther] at h
    rcases List.mem_cons.mp h with rfl | h
    · exact List.mem_cons_self
    · exact List.mem_cons_of_mem _ (List.mem_cons_of_mem _ (ih h))

theorem mem_paramsDown {n : Node} {cs : List Node} {start : Nat} (h : n ∈ paramsDown cs start) :
    n ∈ cs :=
  List.mem_of_mem_drop (List.mem_reverse.mp (mem_everyOther h))

/-! ## Sequences -/

variable {σ : Type} (c : Compiler σ)

/-- The calls are on nodes below the children. -/
abbrev Under (cs : List Node) (q : Query) : Prop := Below cs q.node

attribute [local simp] value field function number float emit emitIf check asks Query.node
  Under below_child below_lastChild

theorem each_asks {ι : Type} {P : Query → Prop} {p : ι → Parse σ Bool} {l : List ι}
    (hp : ∀ a ∈ l, (p a).Asks P) : (each p l).Asks P := by
  induction l with
  | nil => trivial
  | cons a l ih =>
    refine (hp a List.mem_cons_self).bind (fun ok => ?_)
    exact (ih (fun b hb => hp b (List.mem_cons_of_mem _ hb))).bind (fun rest => trivial)

theorem eachUntil_asks {ι : Type} {P : Query → Prop} {p : ι → Parse σ Bool} {l : List ι}
    (hp : ∀ a ∈ l, (p a).Asks P) : (eachUntil p l).Asks P := by
  induction l with
  | nil => trivial
  | cons a l ih =>
    refine (hp a List.mem_cons_self).bind (fun ok => ?_)
    cases ok with
    | false => trivial
    | true => exact ih (fun b hb => hp b (List.mem_cons_of_mem _ hb))

theorem asks_emit {α : Type} {P : Query → Prop} {k : Nat} {n : Node} {f : Unit → Parse σ α}
    (h : (f ()).Asks P) : ((emit c k n).bind f).Asks P :=
  fun _ => h

theorem check_asks {P : Query → Prop} (k : Check) (n : Node) : (check c k n).Asks P :=
  fun _ => trivial

theorem asks_check {α : Type} {P : Query → Prop} {k : Check} {n : Node} {f : Bool → Parse σ α}
    (h : ∀ ok, (f ok).Asks P) : ((check c k n).bind f).Asks P :=
  fun _ => h _

theorem valueIfAny_asks {P : Query → Prop} {n : Option Node} {expressVal : Bool}
    (h : ∀ m, n = some m → P (.value m expressVal)) :
    (valueIfAny n expressVal : Parse σ Bool).Asks P := by
  cases n with
  | none => trivial
  | some m => exact ⟨h m rfl, fun _ => trivial⟩

/-! ## Statements -/

theorem statement_asks (n : Node) (cs : List Node) (expressVal : Bool) :
    (statement c n cs expressVal).Asks (Under cs) := by
  simp [statement]

theorem statementIf_asks (n : Node) (cs : List Node) : (statementIf c n cs).Asks (Under cs) := by
  refine ⟨below_child cs 2, fun v => ?_⟩
  cases v with
  | none => simp
  | some v => simp

theorem statementWhile_asks (n : Node) (cs : List Node) :
    (statementWhile c n cs).Asks (Under cs) := by
  refine ⟨below_child cs 2, fun v => ?_⟩
  cases v with
  | none => simp
  | some v => simp

theorem statementDowhile_asks (n : Node) (cs : List Node) :
    (statementDowhile c n cs).Asks (Under cs) := by
  refine fun s => ⟨below_child cs 1, fun body s' => ⟨below_child cs 4, fun v => ?_⟩⟩
  cases v with
  | none => simp
  | some v => simp

theorem takeExpression_mem {l : List Node} :
    (∀ m, (takeExpression l).1 = some m → m ∈ l) ∧ ∀ m ∈ (takeExpression l).2, m ∈ l := by
  cases l with
  | nil => simp [takeExpression]
  | cons n l =>
    by_cases h : n.isRule .expression = true
    · simp only [takeExpression, h, if_true]
      refine ⟨fun m hm => ?_, fun m hm => List.mem_cons_of_mem n hm⟩
      cases hm
      exact List.mem_cons_self
    · simp [takeExpression, h]

theorem statementFor_asks (n : Node) (cs : List Node) :
    (statementFor c n cs).Asks (Under cs) := by
  have hdrop : ∀ (k : Nat) (l : List Node), (∀ m ∈ l, m ∈ cs) → ∀ m ∈ l.drop k, m ∈ cs :=
    fun k l h m hm => h m (List.mem_of_mem_drop hm)
  have hinit := takeExpression_mem (l := cs.drop 2)
  have hcond := takeExpression_mem (l := (takeExpression (cs.drop 2)).2.drop 1)
  have hrest : ∀ m ∈ (takeExpression (cs.drop 2)).2.drop 1, m ∈ cs :=
    hdrop 1 _ (fun m hm => List.mem_of_mem_drop (hinit.2 m hm))
  have hdelta := takeExpression_mem
    (l := (takeExpression ((takeExpression (cs.drop 2)).2.drop 1)).2.drop 1)
  have hrest' := hdrop 1 _ (fun m hm => hrest m (hcond.2 m hm))
  refine (valueIfAny_asks (fun m hm => ?_)).bind (fun _ _ =>
    (valueIfAny_asks (fun m hm => ?_)).bind (fun _ _ _ => ⟨below_lastChild cs, fun _ _ =>
      (valueIfAny_asks (fun m hm => ?_)).bind (fun _ _ => trivial)⟩))
  · exact below_mem (List.mem_of_mem_drop (hinit.1 m hm))
  · exact below_mem (hrest m (hcond.1 m hm))
  · exact below_mem (hrest' m (hdelta.1 m hm))

theorem switchLabels_asks (n : Node) (cs : List Node) (fuel : Nat) (hasDefault : Bool)
    (l : List Node) (hl : ∀ m ∈ l, m ∈ cs) :
    (switchLabels c n fuel hasDefault l).Asks (Under cs) ∧
      (switchLabels c n fuel hasDefault l).Yields
        (fun r => ∀ block ∈ r.2, ∀ m ∈ block, m ∈ cs) := by
  induction fuel generalizing hasDefault l with
  | zero => exact ⟨trivial, fun _ hmem => absurd hmem List.not_mem_nil⟩
  | succ fuel ih =>
    cases l with
    | nil => exact ⟨trivial, fun _ hmem => absurd hmem List.not_mem_nil⟩
    | cons label rest =>
      have hrest : ∀ m ∈ rest, m ∈ cs := fun m hm => hl m (List.mem_cons_of_mem _ hm)
      have hfirst : Below cs (child rest 0) := below_child_of hrest 0
      have hblock : ∀ k, ∀ m ∈ (rest.drop k).takeWhile (Node.isRule .statement), m ∈ cs :=
        fun k m hm => hrest m (List.mem_of_mem_drop ((List.takeWhile_sublist _).subset hm))
      have hmore : ∀ k j b, _ ∧ _ := fun k j b => ih b ((rest.drop k).drop j)
        (fun m hm => hrest m (List.mem_of_mem_drop (List.mem_of_mem_drop hm)))
      have hcons : ∀ {stmts : List Node} {blocks : List (List Node)}, (∀ m ∈ stmts, m ∈ cs) →
          (∀ block ∈ blocks, ∀ m ∈ block, m ∈ cs) →
          ∀ block ∈ stmts :: blocks, ∀ m ∈ block, m ∈ cs := by
        intro stmts blocks hstmts hblocks block hmem
        rcases List.mem_cons.mp hmem with rfl | hmem
        · exact hstmts
        · exact hblocks block hmem
      rw [switchLabels]
      split
      · refine ⟨⟨hfirst, fun ok s => (hmore 2 _ hasDefault).1.bind (fun more => trivial)⟩, ?_⟩
        intro ok s
        have hbehind := (hmore 2 ((rest.drop 2).takeWhile (Node.isRule .statement)).length
          hasDefault).2
        exact (Body.yields_bind (switchLabels c n fuel hasDefault _) _).mpr
          (hbehind.imp (fun more h => hcons (hblock 2) h))
      · split
        · refine ⟨(hmore 1 _ true).1.bind (fun more => trivial), ?_⟩
          refine (Body.yields_bind _ _).mpr ((hmore 1 _ true).2.imp ?_)
          exact fun more h => hcons (hblock 1) h
        · exact ⟨(ih _ _ hrest).1.bind (fun more => trivial),
            (Body.yields_bind _ _).mpr ((ih _ _ hrest).2.imp (fun more h => h))⟩

theorem statementSwitch_asks (n : Node) (cs : List Node) :
    (statementSwitch c n cs).Asks (Under cs) := by
  refine asks_check c (fun ok => ?_)
  cases ok with
  | false => trivial
  | true =>
    have hlabels := switchLabels_asks c n cs cs.length false (cs.drop 5).dropLast
      (fun m hm => List.mem_of_mem_drop ((List.dropLast_subset _) hm))
    refine ⟨below_child cs 2, fun cond => asks_emit c ?_⟩
    refine hlabels.1.bind_yields hlabels.2 (fun labels hmem => asks_emit c ?_)
    refine (each_asks (fun block hblock => asks_emit c ?_)).bind (fun stmts => asks_emit c trivial)
    exact each_asks (fun stmt hstmt => ⟨below_mem (hmem block hblock stmt hstmt), fun _ => trivial⟩)

theorem foreachBody_asks (n : Node) (cs : List Node) (ok : Bool) :
    (foreachBody c n cs ok).Asks (Under cs) := by
  unfold foreachBody
  cases c.foreachType with
  | other => trivial
  | _ => simp

theorem statementForeach_asks (n : Node) (cs : List Node) :
    (statementForeach c n cs).Asks (Under cs) := by
  simp [statementForeach, foreachBody_asks]

theorem nopDef_asks (n : Node) (cs : List Node) (expressVal : Bool) :
    (nopDef c n cs expressVal).Asks (Under cs) := by
  simp [nopDef]

theorem arrayUnpack_asks (n : Node) (cs : List Node) :
    (arrayUnpack c n cs).Asks (Under cs) := by
  refine asks_check c (fun ok => ?_)
  cases ok with
  | false => trivial
  | true =>
    refine ⟨below_lastChild cs, fun ok => ?_⟩
    cases ok with
    | false => trivial
    | true => exact asks_emit c (eachUntil_asks (fun e _ => check_asks c .unpackEntry e))

theorem devopDef_asks (n : Node) (cs : List Node) (expressVal : Bool) :
    (devopDef c n cs expressVal).Asks (Under cs) := by
  simp [devopDef]

theorem statementInst_asks (cs : List Node) (expressVal : Bool) :
    (statementInst cs expressVal : Parse σ Bool).Asks (Under cs) := by
  simp [statementInst]

theorem inner_asks (cs : List Node) :
    (each (fun stmt => value stmt false) (inner cs) : Parse σ Bool).Asks (Under cs) :=
  each_asks (fun _ hmem =>
    ⟨below_mem (List.mem_of_mem_drop (List.dropLast_subset _ hmem)), fun _ => trivial⟩)

theorem statementBlock_asks (cs : List Node) (expressVal : Bool) :
    (statementBlock cs expressVal : Parse σ Bool).Asks (Under cs) := by
  unfold statementBlock
  split
  · trivial
  · exact inner_asks cs

theorem statementDevBlock_asks (n : Node) (cs : List Node) (expressVal : Bool) :
    (statementDevBlock c n cs expressVal).Asks (Under cs) := by
  unfold statementDevBlock
  split
  · trivial
  · exact asks_emit c ((inner_asks cs).bind (fun ok => asks_emit c trivial))

theorem operatorInst_asks (n : Node) (cs : List Node) (expressVal : Bool) :
    (operatorInst c n cs expressVal).Asks (Under cs) := by
  simp [operatorInst]

/-! ## Calls in the script -/

/-- The nodes of a call site are below the call. -/
structure SiteBelow (cs : List Node) (site : CallSite) : Prop where
  self : ∀ m, site.self = some m → Below cs m
  functionComp : Below cs site.functionComp
  params : ∀ m ∈ site.params, Below cs m

theorem callSite_below {cs : List Node} {site : CallSite} (h : callSite cs = some site) :
    SiteBelow cs site := by
  unfold callSite at h
  simp only at h
  generalize ((child cs 0).isTree && !(child cs 0).isRule .functionComponent) = hasSelf at h
  generalize hr : (if hasSelf = true then cs.drop 1 else cs) = rest at h
  have hrest : ∀ m ∈ rest, m ∈ cs := by
    intro m hm
    rw [← hr] at hm
    split at hm
    · exact List.mem_of_mem_drop hm
    · exact hm
  generalize (!(child rest 0).isTree && !(child rest 0).isError) = isTerminal at h
  cases hmod : if isTerminal = true then callModifier (child rest 0).text else some .none with
  | none =>
    rw [hmod] at h
    cases h
  | some modifier =>
    rw [hmod] at h
    simp only [Option.ite_none_right_eq_some, Option.some.injEq] at h
    obtain ⟨-, rfl⟩ := h
    refine ⟨fun m hm => ?_, below_child_of hrest _, fun m hm => (below_child cs _).children hm⟩
    cases hasSelf with
    | false => cases hm
    | true =>
      cases hm
      exact below_child cs 0

theorem leadingParam_asks {P : Query → Prop} (n : Node) (site : CallSite) (isUsed : Bool)
    (k : Check) : (leadingParam c n site isUsed k).Asks P := by
  simp [leadingParam]

theorem Asks.stop {P : Query → Prop} {b k : Parse σ Bool} (hb : b.Asks P) (hk : k.Asks P) :
    (b.bind (fun ok => if !ok then .ret false else k)).Asks P := by
  refine hb.bind (fun ok => ?_)
  cases ok with
  | false => trivial
  | true => exact hk

theorem Asks.unless {P : Query → Prop} {p : Prop} [Decidable p] {k : Parse σ Bool}
    (hk : k.Asks P) : (if p then .ret false else k : Parse σ Bool).Asks P := by
  split
  · trivial
  · exact hk

theorem params_asks {cs : List Node} {site : CallSite} (h : SiteBelow cs site) (start : Nat) :
    (each (fun e => value e true) (paramsDown site.params start) : Parse σ Bool).Asks
      (Under cs) :=
  each_asks (fun e he => ⟨h.params e (mem_paramsDown he), fun _ => trivial⟩)

theorem operatorParams_asks (n : Node) (f : FunctionOperator) {cs : List Node} {site : CallSite}
    (h : SiteBelow cs site) (expressVal : Bool) :
    (operatorParams c n f site expressVal).Asks (Under cs) := by
  have hfirst : Below cs (child site.params 0) := by
    rcases child_cases site.params 0 with h0 | h0
    · exact .inl h0
    · exact h.params _ h0
  unfold operatorParams
  cases f.unpack with
  | true => simp [hfirst]
  | false =>
    simp only [Bool.false_eq_true, if_false]
    refine (leadingParam_asks c n site _ _).bind (fun ok => ?_)
    cases ok with
    | false => trivial
    | true =>
      refine (leadingParam_asks c n site _ _).bind (fun ok => ?_)
      cases ok with
      | false => trivial
      | true => exact (params_asks h _).bind (fun ok => trivial)

theorem unpackVariables_asks {P : Query → Prop} (f : FunctionOperator) (site : CallSite) :
    (unpackVariables c f site).Asks P := by
  unfold unpackVariables
  split
  · exact eachUntil_asks (fun e _ => check_asks c .unpackVariable e)
  · trivial

theorem operatorCall_asks (n : Node) (f : FunctionOperator) {cs : List Node} {site : CallSite}
    (h : SiteBelow cs site) (expressVal : Bool) :
    (operatorCall c n f site expressVal).Asks (Under cs) := by
  refine Asks.unless (Asks.unless (Asks.unless (asks_emit c ?_)))
  refine (operatorParams_asks c n f h expressVal).bind (fun r => ?_)
  cases r with
  | none => trivial
  | some r =>
    refine Asks.stop (valueIfAny_asks (fun m hm => h.self m hm))
      (Asks.unless (Asks.unless (Asks.unless ?_)))
    refine asks_emit c (Asks.stop (unpackVariables_asks c f site) ?_)
    simp

theorem scriptCall_asks (n : Node) {cs : List Node} {site : CallSite} (h : SiteBelow cs site)
    {ptr : Option Node} (hptr : ∀ m, ptr = some m → Below cs m) (isClass compilerCall : Bool) :
    (scriptCall c n site ptr isClass compilerCall).Asks (Under cs) := by
  refine asks_emit c ((params_asks h 0).bind (fun ok => asks_emit c ?_))
  refine Asks.stop (valueIfAny_asks (fun m hm => h.self m hm)) (Asks.stop (valueIfAny_asks hptr) ?_)
  simp

theorem functionCall_asks (n : Node) (cs : List Node) (expressVal : Bool) :
    (functionCall c n cs expressVal).Asks (Under cs) := by
  unfold functionCall
  split
  · simp
  · cases hs : callSite cs with
    | none => trivial
    | some site =>
      have h := callSite_below hs
      have hptr : ∀ p ∈ site.functionComp.children, ∀ m, some p = some m → Below cs m := by
        rintro p hp m ⟨⟩
        exact h.functionComp.children hp
      have hnone : ∀ m, (none : Option Node) = some m → Below cs m := fun m hm => by cases hm
      simp only
      split
      · split
        · exact operatorCall_asks c n _ h expressVal
        · exact asks_emit c (scriptCall_asks c n h hnone false false)
      · exact Asks.stop (check_asks c .nameSpace n) (scriptCall_asks c n h hnone false _)
      · rename_i ptr _ _ hcomp
        exact scriptCall_asks c n h (hptr ptr (by simp [hcomp])) false false
      · rename_i ptr _ _ _ _ hcomp
        split
        · trivial
        · exact scriptCall_asks c n h (hptr ptr (by simp [hcomp])) true false
      · trivial

/-! ## Expressions -/

theorem operatorExpression_asks (n : Node) (cs : List Node) (expressVal : Bool) :
    (operatorExpression c n cs expressVal).Asks (Under cs) := by
  have hunary : (unaryExpression c n cs expressVal).Asks (Under cs) := by
    simp [unaryExpression]
  have hbinary : (binaryExpression c n cs).Asks (Under cs) := by
    simp [binaryExpression]
  simp [operatorExpression, hunary, hbinary]

theorem isExpression_asks (n : Node) (cs : List Node) (expressVal : Bool) :
    (isExpression c n cs expressVal).Asks (Under cs) := by
  simp [isExpression]

theorem vectorValue_asks (n : Node) (cs : List Node) (expressVal : Bool) :
    (vectorValue c n cs expressVal).Asks (Under cs) := by
  simp [vectorValue]

theorem classInit_asks {P : Query → Prop} (n : Node) (cs : List Node) :
    (classInit c n cs).Asks P := by
  simp [classInit]

theorem arrayItems_asks (n : Node) (cs l : List Node) (hl : ∀ m ∈ l, m ∈ cs) :
    (arrayItems c n l).Asks (Under cs) := by
  induction l using arrayItems.induct with
  | case1 key mark hmark e sep rest ih =>
    simp only [arrayItems, hmark, if_true]
    refine ⟨below_mem (hl e (by simp)), fun ok => ⟨below_mem (hl key (by simp)), fun keyOk =>
      asks_emit c ((ih (fun m hm => hl m (by simp [hm]))).bind (fun more => trivial))⟩⟩
  | case2 key mark rest hmark hrest =>
    rw [arrayItems.eq_def]
    simp only [hmark, if_true]
    trivial
  | case3 key mark rest hmark ih =>
    rw [arrayItems.eq_def]
    simp only [hmark, if_false]
    exact ⟨below_mem (hl key (by simp)), fun ok =>
      asks_emit c ((ih (fun m hm => hl m (by simp [hm]))).bind (fun more => trivial))⟩
  | case4 l hno =>
    rw [arrayItems.eq_def]
    split
    · exact absurd rfl (hno _ _ _)
    · trivial

theorem arrayDef_asks (n : Node) (cs : List Node) (expressVal : Bool) :
    (arrayDef c n cs expressVal).Asks (Under cs) := by
  unfold arrayDef
  split
  · trivial
  · exact asks_emit c (arrayItems_asks c n cs _ (fun m hm => List.mem_of_mem_drop hm))

theorem structKey_asks {cs : List Node} (n term : Node) (hterm : Below cs term) :
    (structKey c n term).Asks (Under cs) := by
  simp [structKey, hterm]

theorem structItems_asks (n : Node) (cs l : List Node) (hl : ∀ m ∈ l, m ∈ cs) :
    (structItems c n l).Asks (Under cs) := by
  induction l using structItems.induct with
  | case1 term colon e sep rest ih =>
    rw [structItems]
    refine ⟨below_mem (hl e (by simp)), fun ok => ?_⟩
    refine (structKey_asks c n term (below_mem (hl term (by simp)))).bind (fun keyOk => ?_)
    exact (ih (fun m hm => hl m (by simp [hm]))).bind (fun more => trivial)
  | case2 l hno =>
    rw [structItems.eq_def]
    split
    · exact absurd rfl (hno _ _ _ _ _)
    · trivial

theorem structDef_asks (n : Node) (cs : List Node) (expressVal : Bool) :
    (structDef c n cs expressVal).Asks (Under cs) := by
  unfold structDef
  split
  · trivial
  · exact asks_emit c (structItems_asks c n cs _ (fun m hm => List.mem_of_mem_drop hm))

theorem setExpression_asks (n : Node) (cs : List Node) (expressVal : Bool) :
    (setExpression c n cs expressVal).Asks (Under cs) := by
  simp [setExpression]

theorem functionRef_asks (n : Node) (cs : List Node) (expressVal : Bool) :
    (functionRef c n cs expressVal).Asks (Under cs) := by
  simp [functionRef]

theorem animRef_asks {P : Query → Prop} (n : Node) (cs : List Node) : (animRef c n cs).Asks P := by
  simp [animRef]

theorem leftValue_asks (n : Node) (cs : List Node) (expressVal : Bool) :
    (leftValue c n cs expressVal).Asks (Under cs) := by
  simp [leftValue, member]

theorem leftValueField_asks (n : Node) (cs : List Node) :
    (leftValueField c n cs).Asks (Under cs) := by
  simp [leftValueField, member]

/-! ## Functions -/

theorem modifiers_asks (n : Node) (fuel left : Nat) (cs l : List Node) (hl : ∀ m ∈ l, m ∈ cs) :
    (modifiers c n fuel left l).Asks (Under cs) := by
  induction fuel generalizing left l with
  | zero => trivial
  | succ fuel ih =>
    cases l with
    | nil => trivial
    | cons mod rest =>
      have hrest : ∀ m ∈ rest, m ∈ cs := fun m hm => hl m (List.mem_cons_of_mem _ hm)
      have hdrop : ∀ m ∈ rest.drop 3, m ∈ cs := fun m hm => hrest m (List.mem_of_mem_drop hm)
      rw [modifiers]
      split
      · trivial
      split
      · exact asks_emit c (ih _ _ hrest)
      split
      · trivial
      split
      · split
        · exact ⟨below_child_of hrest 1, fun _ => asks_emit c (ih _ _ hdrop)⟩
        · exact asks_emit c (ih _ _ hrest)
      split
      · refine Asks.stop (check_asks c .eventHandler n) ?_
        split
        · trivial
        · exact asks_emit c (ih _ _ hdrop)
      · exact fun _ => ih _ _ hrest

theorem functionParam_asks {cs : List Node} {param : Node} (h : Below cs param) :
    (functionParam c param).Asks (Under cs) := by
  simp [functionParam, h.lastChild]

theorem parseFunction_asks (n : Node) : (parseFunction c n).Asks (Under n.children) := by
  refine Asks.stop (check_asks c .exportName n) (Asks.unless (Asks.unless ?_))
  refine Asks.stop (modifiers_asks c n _ _ n.children _ (fun m hm => hm))
    (Asks.stop (eachUntil_asks (fun param hparam => functionParam_asks c ?_)) (asks_emit c ?_))
  · exact (below_child n.children _).children (mem_everyOther hparam)
  · simp

/-! ## The walk -/

/-- A function in an expression is compiled where its value is asked for. -/
def Compiles (q q' : Query) : Prop := (∃ expressVal, q = .value q.node expressVal) ∧
  q' = .function q.node

/-- What a call can lead to next. -/
inductive Reaches (q q' : Query) : Prop where
  | below (hq : q.node ≠ .error) (h : Below q.node.children q'.node)
  | constant (h : namedConstant c q.node = some q'.node)
  | function (h : Compiles q q')

theorem under_reaches {q : Query} (hq : q.node ≠ .error) {α : Type} {b : Parse σ α}
    (h : b.Asks (Under q.node.children)) : b.Asks (Reaches c q) :=
  h.imp (fun _ h => .below hq h)

theorem functionValue_asks (n : Node) (expressVal : Bool) :
    (functionValue c n).Asks (Reaches c (.value n expressVal)) := by
  have h : Reaches c (.value n expressVal) (.function n) := .function ⟨⟨expressVal, rfl⟩, rfl⟩
  simp [functionValue, h]

theorem namedConstant_identifier {text : String} {e : Node}
    (h : c.constexprs (Node.terminal .identifier text).text = some e) :
    namedConstant c (.terminal .identifier text) = some e := by
  simp [namedConstant, Node.isIdf, Node.isTerminal, h]

theorem terminalNode_asks (t : Token) (text : String) (expressVal : Bool) :
    (terminalNode c (.terminal t text) t expressVal).Asks
      (Reaches c (.value (.terminal t text) expressVal)) := by
  unfold terminalNode
  split
  · rename_i ht
    split
    · rename_i e he
      subst ht
      exact ⟨.constant (namedConstant_identifier c he), fun _ => trivial⟩
    · simp
  · split
    · trivial
    · split <;> simp

theorem parseExpressionNode_asks (n : Node) (expressVal : Bool) :
    (parseExpressionNode c n expressVal).Asks (Reaches c (.value n expressVal)) := by
  cases n with
  | error => trivial
  | terminal t text => exact terminalNode_asks c t text expressVal
  | rule r cs =>
    have hunder : ∀ {b : Parse σ Bool}, b.Asks (Under cs) →
        b.Asks (Reaches c (.value (.rule r cs) expressVal)) :=
      fun h => under_reaches c (q := .value (.rule r cs) expressVal) (fun h => by cases h) h
    unfold parseExpressionNode
    simp only
    split
    · trivial
    · cases r with
      | statement => exact hunder (statement_asks c _ cs expressVal)
      | statementIf => exact hunder (statementIf_asks c _ cs)
      | statementWhile => exact hunder (statementWhile_asks c _ cs)
      | statementDowhile => exact hunder (statementDowhile_asks c _ cs)
      | statementFor => exact hunder (statementFor_asks c _ cs)
      | statementSwitch => exact hunder (statementSwitch_asks c _ cs)
      | statementForeach => exact hunder (statementForeach_asks c _ cs)
      | nopDef => exact hunder (nopDef_asks c _ cs expressVal)
      | arrayUnpack => exact hunder (arrayUnpack_asks c _ cs)
      | devopDef => exact hunder (devopDef_asks c _ cs expressVal)
      | statementInst => exact hunder (statementInst_asks cs expressVal)
      | statementBlock => exact hunder (statementBlock_asks cs expressVal)
      | statementDevBlock => exact hunder (statementDevBlock_asks c _ cs expressVal)
      | operatorInst => exact hunder (operatorInst_asks c _ cs expressVal)
      | functionCall => exact hunder (functionCall_asks c _ cs expressVal)
      | functionCallExp => exact hunder (functionCall_asks c _ cs expressVal)
      | expression => exact hunder (operatorExpression_asks c _ cs expressVal)
      | idf => exact hunder (operatorExpression_asks c _ cs expressVal)
      | expressionN k =>
        simp only
        split
        · exact hunder (operatorExpression_asks c _ cs expressVal)
        · exact hunder ⟨below_child cs _, fun _ => trivial⟩
      | isExpression => exact hunder (isExpression_asks c _ cs expressVal)
      | constExpr => exact hunder ⟨below_child cs _, fun _ => trivial⟩
      | constExprStatic => exact hunder ⟨below_child cs _, fun _ => trivial⟩
      | number => exact hunder ⟨below_child cs _, fun _ => trivial⟩
      | vectorValue => exact hunder (vectorValue_asks c _ cs expressVal)
      | classInit => exact hunder (classInit_asks c _ cs)
      | arrayDef => exact hunder (arrayDef_asks c _ cs expressVal)
      | structDef => exact hunder (structDef_asks c _ cs expressVal)
      | function => exact functionValue_asks c _ expressVal
      | setExpression => exact hunder (setExpression_asks c _ cs expressVal)
      | functionRef => exact hunder (functionRef_asks c _ cs expressVal)
      | animRef => exact hunder (animRef_asks c _ cs)
      | leftValue => exact hunder (leftValue_asks c _ cs expressVal)
      | _ => trivial

theorem parseFieldNode_asks (n : Node) :
    (parseFieldNode c n).Asks (Reaches c (.field n)) := by
  cases n with
  | error => trivial
  | terminal t text =>
    unfold parseFieldNode
    simp only
    split
    · rename_i ht
      split
      · rename_i e he
        subst ht
        exact ⟨.constant (namedConstant_identifier c he), fun _ => trivial⟩
      · exact check_asks c .leftVariable _
    · trivial
  | rule r cs =>
    refine under_reaches c (fun h => by cases h) ?_
    unfold parseFieldNode
    simp only
    split
    · trivial
    · cases r with
      | leftValue => exact leftValueField_asks c _ cs
      | expression => simp [Node.children]
      | idf => simp [Node.children]
      | expressionN k => simp [Node.children]
      | _ => trivial

theorem numberNodeValue_asks (n : Node) :
    (numberNodeValue c n).Asks (Reaches c (.number n)) := by
  unfold numberNodeValue
  cases hn : namedConstant c n with
  | some e => exact ⟨.constant hn, fun _ => trivial⟩
  | none =>
    cases n with
    | error => trivial
    | terminal t text => trivial
    | rule r cs =>
      refine under_reaches c (fun h => by cases h) ?_
      simp only [Query.node, Node.children]
      split
      · simp
      split
      · trivial
      split
      · simp
      split
      · refine ⟨below_child cs 0, fun v1 => ?_⟩
        cases v1 with
        | none => trivial
        | some v1 =>
          refine ⟨below_child cs 2, fun v2 => ?_⟩
          cases v2 <;> trivial
      split
      · refine ⟨below_child cs 0, fun v => ?_⟩
        cases v <;> trivial
      · trivial

theorem floatNumberNodeValue_asks (n : Node) :
    (floatNumberNodeValue c n).Asks (Reaches c (.float n)) := by
  unfold floatNumberNodeValue
  cases hn : namedConstant c n with
  | some e => exact ⟨.constant hn, fun _ => trivial⟩
  | none =>
    cases n with
    | error => trivial
    | terminal t text => trivial
    | rule r cs =>
      refine under_reaches c (fun h => by cases h) ?_
      simp [Node.children]

/-- **A call is on a node below, on the tree of a named constant, or compiles a function in an
expression.** -/
theorem bodyOf_asks (q : Query) : (bodyOf c q).Asks (Reaches c q) := by
  cases q with
  | value n expressVal => exact parseExpressionNode_asks c n expressVal
  | field n => exact parseFieldNode_asks c n
  | function n =>
    cases n with
    | error => simp [bodyOf, parseFunction, Node.children, child, Node.isRule]
    | terminal t text => exact under_reaches c (fun h => by cases h) (parseFunction_asks c _)
    | rule r cs => exact under_reaches c (fun h => by cases h) (parseFunction_asks c _)
  | number n => exact numberNodeValue_asks c n
  | float n => exact floatNumberNodeValue_asks c n

end Acts.Gsc.Parser
