import Acts.Gsc.ConstExpr
import Acts.Gsc.ParserRejects

/-!
# Programs with named constants

* `NoLoops` — in no function of a program a name leads back to itself, with the definitions made
  before the function.
* `parseProg_returns` — such a program is compiled, or rejected, at some depth.
* `constants_return` — **programs without loops return, and loops on every way do not.**
* `constants_loop` — a name defined as itself is expanded for ever.
-/

set_option autoImplicit false

namespace Acts.Gsc.Parser

open Acts.Lib.Calls Relation

variable {σ : Type} (c : Compiler σ)

/-! ## Returning -/

/-- The definitions behind a part of a program. -/
def defsBehind (n : Node) (defs : Defs) : Defs :=
  if n.isRule .constexpr then (parseConstExpr n defs).getD defs else defs

/-- In no function a name leads back to itself. -/
def NoLoops : List Node → Defs → Prop
  | [], _ => True
  | n :: ns, defs =>
    (n.isRule .function = true → NoLoop (c.withConstexprs defs) (.function n)) ∧
      NoLoops ns (defsBehind n defs)

theorem parseItem_mono {fuel fuel' : Nat} (hf : fuel ≤ fuel') {n : Node} {defs : Defs} {s : σ}
    {r : Bool × Defs × σ} (h : parseItem c fuel n defs s = some r) :
    parseItem c fuel' n defs s = some r := by
  unfold parseItem at h ⊢
  split
  · rename_i hdef
    rw [if_pos hdef] at h
    exact h
  · rename_i hdef
    rw [if_neg hdef] at h
    split
    · rename_i hfun
      rw [if_pos hfun, Option.map_eq_some_iff] at h
      obtain ⟨o, ho, rfl⟩ := h
      rw [invoke_mono accepted _ hf ho]
      rfl
    · rename_i hfun
      rw [if_neg hfun] at h
      exact h

theorem parseItems_mono {fuel fuel' : Nat} (hf : fuel ≤ fuel') {ns : List Node} {defs : Defs}
    {s : σ} {r : Bool × Defs × σ} (h : parseItems c fuel ns defs s = some r) :
    parseItems c fuel' ns defs s = some r := by
  induction ns generalizing defs s with
  | nil => exact h
  | cons n ns ih =>
    unfold parseItems at h ⊢
    cases hitem : parseItem c fuel n defs s with
    | none =>
      rw [hitem] at h
      cases h
    | some r' =>
      rw [hitem] at h
      rw [parseItem_mono c hf hitem]
      obtain ⟨ok, defs', s'⟩ := r'
      cases ok with
      | false => exact h
      | true => exact ih h

/-- A part of a program returns, with the definitions behind it. -/
theorem parseItem_returns {n : Node} {defs : Defs}
    (h : n.isRule .function = true → NoLoop (c.withConstexprs defs) (.function n)) (s : σ) :
    ∃ fuel ok s' defs', parseItem c fuel n defs s = some (ok, defs', s') ∧
      (ok = true → defs' = defsBehind n defs) := by
  unfold parseItem defsBehind
  split
  · cases parseConstExpr n defs with
    | none => exact ⟨0, false, s, defs, rfl, fun h => by cases h⟩
    | some defs' => exact ⟨0, true, s, defs', rfl, fun _ => rfl⟩
  · split
    · rename_i hfun
      obtain ⟨fuel, o, ho⟩ := returns_of_noLoop (definedIn_withConstexprs c defs) (h hfun) s
      refine ⟨fuel, o.value, o.state, defs, ?_, fun _ => rfl⟩
      rw [ho]
      rfl
    · split
      · exact ⟨0, _, _, defs, rfl, fun _ => rfl⟩
      · exact ⟨0, false, s, defs, rfl, fun _ => rfl⟩

theorem parseItems_returns {ns : List Node} {defs : Defs} (h : NoLoops c ns defs) (s : σ) :
    ∃ fuel r, parseItems c fuel ns defs s = some r := by
  induction ns generalizing defs s with
  | nil => exact ⟨0, _, rfl⟩
  | cons n ns ih =>
    obtain ⟨fuel, ok, s', defs', hitem, hdefs⟩ := parseItem_returns c h.1 s
    cases ok with
    | false =>
      refine ⟨fuel, (false, defs', s'), ?_⟩
      rw [parseItems, hitem]
    | true =>
      obtain ⟨fuel', r, hr⟩ := ih h.2 s'
      rw [← hdefs rfl] at hr
      refine ⟨max fuel fuel', r, ?_⟩
      rw [parseItems, parseItem_mono c (Nat.le_max_left fuel fuel') hitem]
      exact parseItems_mono c (Nat.le_max_right fuel fuel') hr

/-- **A program without loops is compiled or rejected.** -/
theorem parseProg_returns {prog : Node} (h : NoLoops c prog.children []) (s : σ) :
    ∃ fuel r, parseProg c fuel prog s = some r := by
  unfold parseProg
  split
  · exact ⟨0, _, rfl⟩
  · rcases parseNamespaces c prog.children s with ⟨_ | _, s'⟩
    · exact ⟨0, _, rfl⟩
    · obtain ⟨fuel, ⟨ok, defs, s''⟩, hr⟩ := parseItems_returns c h s'
      refine ⟨fuel, ?_⟩
      simp only [hr]
      cases ok with
      | false => exact ⟨_, rfl⟩
      | true => exact ⟨_, rfl⟩

/-! ## Not returning -/

theorem parseItems_append {fuel : Nat} {before after : List Node} {defs defs' : Defs} {s s' : σ}
    (h : parseItems c fuel before defs s = some (true, defs', s')) :
    parseItems c fuel (before ++ after) defs s = parseItems c fuel after defs' s' := by
  induction before generalizing defs s with
  | nil =>
    rw [parseItems, Option.some.injEq, Prod.mk.injEq, Prod.mk.injEq] at h
    obtain ⟨-, rfl, rfl⟩ := h
    rfl
  | cons n ns ih =>
    rw [List.cons_append, parseItems]
    rw [parseItems] at h
    rcases hitem : parseItem c fuel n defs s with _ | ⟨_ | _, defs₁, s₁⟩
    · rw [hitem] at h
      cases h
    · rw [hitem] at h
      cases h
    · rw [hitem] at h
      exact ih h

theorem parseItems_none {fuel : Nat} {before after : List Node} {defs : Defs} {s : σ}
    (h : parseItems c fuel before defs s = none) :
    parseItems c fuel (before ++ after) defs s = none := by
  induction before generalizing defs s with
  | nil => cases h
  | cons n ns ih =>
    rw [List.cons_append]
    unfold parseItems at h ⊢
    rcases hitem : parseItem c fuel n defs s with _ | ⟨_ | _, defs₁, s₁⟩
    · rfl
    · rw [hitem] at h
      cases h
    · rw [hitem] at h
      exact ih h

/-- The function is reached, with the definitions in front of it. -/
structure Reached (prog f : Node) (defs : Defs) (s : σ) : Prop where
  isError : prog.isError = false
  isFunction : f.isRule .function = true
  isConstexpr : f.isRule .constexpr = false
  reached : ∃ before after s₁ s₂ fuel, prog.children = before ++ f :: after ∧
    parseNamespaces c prog.children s = (true, s₁) ∧
    parseItems c fuel before [] s₁ = some (true, defs, s₂)

/-- **Where a function loops on every way, the program never returns.** -/
theorem parseProg_never {prog f : Node} {defs : Defs} {s : σ} (h : Reached c prog f defs s)
    (hloops : Loops (c.withConstexprs defs) (.function f)) (fuel : Nat) :
    parseProg c fuel prog s = none := by
  obtain ⟨before, after, s₁, s₂, fuel₀, hprog, hnames, hbefore⟩ := h.reached
  have hitems : parseItems c fuel prog.children [] s₁ = none := by
    rw [hprog]
    cases hb : parseItems c fuel before [] s₁ with
    | none => exact parseItems_none c hb
    | some r =>
      have hmax := parseItems_mono c (Nat.le_max_left fuel fuel₀) hb
      rw [parseItems_mono c (Nat.le_max_right fuel fuel₀) hbefore, Option.some.injEq] at hmax
      subst hmax
      rw [parseItems_append c hb, parseItems, parseItem, if_neg (by simp [h.isConstexpr]),
        if_pos h.isFunction, not_returns_of_loops hloops]
      rfl
  rw [parseProg, if_neg (by simp [h.isError]), hnames]
  simp only [hitems]

/-! ## Scripts -/

/-- The rules of one child that pass its value on. -/
def Rule.passesOn : Rule → Bool
  | .expression | .idf | .expressionN _ | .constExpr | .constExprStatic | .number
  | .leftValue => true
  | _ => false

theorem chain_isError {n : Node} (hn : n.isError = false) (rs : List Rule) :
    (chain rs n).isError = false := by
  cases rs with
  | nil => exact hn
  | cons r rs => rfl

theorem value_wrapper {r : Rule} (hr : r.passesOn = true) {n : Node} (hn : n.isError = false) :
    MustCalls c (.value n true) (.value (.rule r [n]) true) := by
  have hbody : bodyOf c (.value (.rule r [n]) true) = value n true := by
    have hcs : ([n] : List Node).any Node.isError = false := by simp [hn]
    cases r with
    | expressionN k =>
      simp only [bodyOf, parseExpressionNode, hcs, Bool.false_eq_true, if_false]
      split <;> rfl
    | expression | idf | constExpr | constExprStatic | number | leftValue =>
      simp only [bodyOf, parseExpressionNode, hcs, Bool.false_eq_true, if_false]
      rfl
    | _ => exact absurd hr Bool.false_ne_true
  rw [MustCalls, hbody]
  exact .inl rfl

theorem constant_wrapper {r : Rule} (hr : r.isWrapper = true) (hidf : r ≠ .idf) (n : Node) :
    MustCalls c (.number n) (.number (.rule r [n])) ∧
      MustCalls c (.float n) (.float (.rule r [n])) := by
  have hnamed : namedConstant c (.rule r [n]) = none := by
    simp [namedConstant, Node.isIdf, Node.isRule, Node.isTerminal, hidf]
  have h15 : r ≠ .expressionN 15 := by
    rintro rfl
    cases hr
  constructor
  · have hbody : bodyOf c (.number (.rule r [n])) = number n := by
      simp only [bodyOf, numberNodeValue, hnamed, if_neg h15, hr]
      rfl
    rw [MustCalls, hbody]
    exact .inl rfl
  · have hbody : bodyOf c (.float (.rule r [n])) = float n := by
      simp only [bodyOf, floatNumberNodeValue, hnamed, if_neg h15, hr]
      rfl
    rw [MustCalls, hbody]
    exact .inl rfl

/-- The rules of one child that pass an assigned value on. -/
def Rule.passesField : Rule → Bool
  | .expression | .idf | .leftValue => true
  | .expressionN k => k.val ≠ 15
  | _ => false

theorem field_wrapper {r : Rule} (hr : r.passesField = true) {n : Node}
    (hn : n.isError = false) : MustCalls c (.field n) (.field (.rule r [n])) := by
  have hbody : bodyOf c (.field (.rule r [n])) = field n := by
    have hcs : ([n] : List Node).any Node.isError = false := by simp [hn]
    cases r with
    | expressionN k =>
      have hk : k ≠ 15 := fun h => by simp [Rule.passesField, h] at hr
      simp only [bodyOf, parseFieldNode, hcs, Bool.false_eq_true, if_false, if_neg hk]
      rfl
    | expression | idf | leftValue =>
      simp only [bodyOf, parseFieldNode, hcs, Bool.false_eq_true, if_false]
      rfl
    | _ => exact absurd hr Bool.false_ne_true
  rw [MustCalls, hbody]
  exact .inl rfl

/-- What each rule passes on goes through a chain of single children. -/
theorem chain_calls (mk : Node → Query) {rs : List Rule}
    (hrs : ∀ r ∈ rs, ∀ m : Node, m.isError = false → MustCalls c (mk m) (mk (.rule r [m])))
    {n : Node} (hn : n.isError = false) :
    ReflTransGen (MustCalls c) (mk n) (mk (chain rs n)) := by
  induction rs with
  | nil => exact .refl
  | cons r rs ih =>
    refine (ih (fun r' hr' => hrs r' (List.mem_cons_of_mem _ hr'))).tail ?_
    exact hrs r List.mem_cons_self _ (chain_isError hn rs)

theorem value_chain {rs : List Rule} (hrs : ∀ r ∈ rs, r.passesOn = true) {n : Node}
    (hn : n.isError = false) :
    ReflTransGen (MustCalls c) (.value n true) (.value (chain rs n) true) :=
  chain_calls c (fun n => .value n true) (fun r hr _ hm => value_wrapper c (hrs r hr) hm) hn

theorem field_chain {rs : List Rule} (hrs : ∀ r ∈ rs, r.passesField = true) {n : Node}
    (hn : n.isError = false) :
    ReflTransGen (MustCalls c) (.field n) (.field (chain rs n)) :=
  chain_calls c .field (fun r hr _ hm => field_wrapper c (hrs r hr) hm) hn

/-! ## Loops -/

def definition (name : String) (e : Node) : Node :=
  .rule .constexpr [keyword "#constexpr", .terminal .identifier name, keyword "=", e, keyword ";"]

def objectOf (name : String) : Node := chain [.leftValue, .idf] (.terminal .identifier name)

/-- `name.member` -/
def memberOf (name member : String) : Node :=
  .rule .leftValue [objectOf name, keyword ".", .rule .idf [.terminal .identifier member]]

def memberOperand (name member : String) : Node := chain operandRules (memberOf name member)

section

variable {c : Compiler σ} {name : String} {e : Node}

theorem expand_value (h : namedConstant c (.terminal .identifier name) = some e)
    (expressVal : Bool) :
    MustCalls c (.value e expressVal) (.value (.terminal .identifier name) expressVal) := by
  simp [namedConstant, Node.isIdf, Node.isTerminal] at h
  simp [MustCalls, bodyOf, parseExpressionNode, terminalNode, h, value, Body.MustCall]

theorem expand_field (h : namedConstant c (.terminal .identifier name) = some e) :
    MustCalls c (.field e) (.field (.terminal .identifier name)) := by
  simp [namedConstant, Node.isIdf, Node.isTerminal] at h
  simp [MustCalls, bodyOf, parseFieldNode, h, field, Body.MustCall]

theorem expand_number (h : namedConstant c (.terminal .identifier name) = some e) :
    MustCalls c (.number e) (.number (.terminal .identifier name)) := by
  simp [MustCalls, bodyOf, numberNodeValue, h, number, Body.MustCall]

theorem expand_float (h : namedConstant c (.terminal .identifier name) = some e) :
    MustCalls c (.float e) (.float (.terminal .identifier name)) := by
  simp [MustCalls, bodyOf, floatNumberNodeValue, h, float, Body.MustCall]

/-- A name that is defined as itself. -/
theorem self_loops (h : namedConstant c (.terminal .identifier name) = some (nameOperand name)) :
    Loops c (.value (.terminal .identifier name) true) ∧
      Loops c (.number (.terminal .identifier name)) ∧
      Loops c (.float (.terminal .identifier name)) := by
  have hn : (Node.terminal .identifier name).isError = false := rfl
  have hwraps : ∀ r ∈ operandRules ++ [Rule.constExpr, .constExprStatic, .number],
      r.passesOn = true ∧ r.isWrapper = true ∧ r ≠ .idf := by decide
  refine ⟨⟨_, .refl, .tail' ?_ (expand_value h true)⟩, ⟨_, .refl, .tail' ?_ (expand_number h)⟩,
    ⟨_, .refl, .tail' ?_ (expand_float h)⟩⟩
  · exact value_chain c (fun r hr => (hwraps r hr).1) hn
  · exact chain_calls c .number
      (fun r hr m _ => (constant_wrapper c (hwraps r hr).2.1 (hwraps r hr).2.2 m).1) hn
  · exact chain_calls c .float
      (fun r hr m _ => (constant_wrapper c (hwraps r hr).2.1 (hwraps r hr).2.2 m).2) hn

/-- The object of a member is called for the value of the member, and to assign to it. -/
theorem member_calls (c : Compiler σ) (name member : String) :
    MustCalls c (.value (objectOf name) true) (.value (memberOf name member) true) ∧
      MustCalls c (.value (objectOf name) true) (.field (memberOf name member)) := by
  constructor
  · simp [MustCalls, bodyOf, parseExpressionNode, leftValue, memberOf, objectOf, chain, keyword,
      child, value, Node.isError, Node.isTree, Node.text, Node.isIdf, Node.isRule, Body.MustCall]
  · simp [MustCalls, bodyOf, parseFieldNode, leftValueField, memberOf, objectOf, chain, keyword,
      child, value, Node.isError, Node.isTree, Node.text, Node.isIdf, Node.isRule, Body.MustCall]

/-- A name that is defined as a member of itself. -/
theorem member_loops {member : String}
    (h : namedConstant c (.terminal .identifier name) = some (memberOperand name member)) :
    Loops c (.value (.terminal .identifier name) true) ∧
      Loops c (.field (.terminal .identifier name)) := by
  obtain ⟨hvalue, hfield⟩ := member_calls c name member
  have hobject : ReflTransGen (MustCalls c) (.value (.terminal .identifier name) true)
      (.value (objectOf name) true) := value_chain c (by decide) rfl
  have hvalues : ReflTransGen (MustCalls c) (.value (memberOf name member) true)
      (.value (memberOperand name member) true) := value_chain c (by decide) rfl
  have hfields : ReflTransGen (MustCalls c) (.field (memberOf name member))
      (.field (memberOperand name member)) := field_chain c (by decide) rfl
  have hcycle : TransGen (MustCalls c) (.value (.terminal .identifier name) true)
      (.value (.terminal .identifier name) true) :=
    .tail' ((hobject.tail hvalue).trans hvalues) (expand_value h true)
  refine ⟨⟨_, .refl, hcycle⟩, ⟨_, ?_, hcycle⟩⟩
  exact ((hobject.tail hfield).trans hfields).tail (expand_field h)

end

theorem function_block (defs : Defs) (stmt : Node) :
    MustCalls (plainCompiler.withConstexprs defs)
      (.value (.rule .statementBlock [keyword "\x7b", stmt, keyword "\x7d"]) false)
      (.function (functionOf [stmt])) := by
  simp [MustCalls, bodyOf, parseFunction, functionOf, Node.children, child, keyword, check, emit,
    emitIf, modifiers, everyOther, eachUntil, Body.MustCall, Compiler.withConstexprs, plainCompiler,
    Node.isRule, Node.text, Node.isIdf, Node.isTerminal, Node.isTree, Node.isError, value]

theorem block_statement (c : Compiler σ) {stmt : Node} (hstmt : stmt.isError = false) :
    MustCalls c (.value stmt false)
      (.value (.rule .statementBlock [keyword "\x7b", stmt, keyword "\x7d"]) false) := by
  simp [MustCalls, bodyOf, parseExpressionNode, hstmt, keyword, statementBlock, inner, each, value,
    Body.MustCall]

/-- The value and the target of an assignment. -/
theorem assignment_calls (c : Compiler σ) (name : String) {e : Node} (he : e.isError = false) :
    ReflTransGen (MustCalls c) (.value e true) (.value (assignment name e) false) ∧
      ReflTransGen (MustCalls c) (.field (.terminal .identifier name))
        (.value (assignment name e) false) := by
  let target := objectOf name
  let set := Node.rule .setExpression [target, keyword "=", e]
  have hset : MustCalls c (.value e true) (.value set false) ∧
      MustCalls c (.field target) (.value set false) := by
    constructor <;>
      simp [MustCalls, bodyOf, parseExpressionNode, setExpression, set, target, objectOf, chain,
        keyword, child, he, Node.text, value, field, emit, Body.MustCall]
  have hstmt : ReflTransGen (MustCalls c) (.value set false)
      (.value (assignment name e) false) := by
    let exp := Node.rule .expression [set]
    let inst := Node.rule .statementInst [exp, keyword ";"]
    have h₁ : MustCalls c (.value set false) (.value exp false) := by
      simp [MustCalls, bodyOf, parseExpressionNode, operatorExpression, exp, set, child,
        Node.isError, value, Body.MustCall]
    have h₂ : MustCalls c (.value exp false) (.value inst false) := by
      simp [MustCalls, bodyOf, parseExpressionNode, statementInst, inst, exp, keyword, child,
        Node.isError, value, Body.MustCall]
    have h₃ : MustCalls c (.value inst false) (.value (.rule .statement [inst]) false) := by
      simp [MustCalls, bodyOf, parseExpressionNode, statement, inst, lastChild, Node.isError, value,
        Body.MustCall]
    exact ((ReflTransGen.single h₁).tail h₂).tail h₃
  have htarget : ReflTransGen (MustCalls c) (.field (.terminal .identifier name))
      (.field target) := field_chain c (by decide) rfl
  exact ⟨hstmt.head hset.1, (htarget.tail hset.2).trans hstmt⟩

/-- What a function with one assignment calls. -/
theorem function_calls (defs : Defs) (name : String) {e : Node} (he : e.isError = false) :
    ReflTransGen (MustCalls (plainCompiler.withConstexprs defs)) (.value e true)
        (.function (functionOf [assignment name e])) ∧
      ReflTransGen (MustCalls (plainCompiler.withConstexprs defs))
        (.field (.terminal .identifier name)) (.function (functionOf [assignment name e])) := by
  obtain ⟨hvalue, hfield⟩ := assignment_calls (plainCompiler.withConstexprs defs) name he
  have hf : ReflTransGen (MustCalls (plainCompiler.withConstexprs defs))
      (.value (assignment name e) false) (.function (functionOf [assignment name e])) :=
    (ReflTransGen.single (block_statement _ rfl)).tail (function_block defs _)
  exact ⟨hvalue.trans hf, hfield.trans hf⟩

/-- `#constexpr name = e; function f() { target = v; }` -/
def programOf (name : String) (e : Node) (target : String) (v : Node) : Node :=
  .rule .prog [definition name e, functionOf [assignment target v]]

theorem programOf_reached (name : String) {e : Node} (he : e.isTree = true) (target : String)
    (v : Node) (s : List String) :
    Reached plainCompiler (programOf name e target v) (functionOf [assignment target v])
      [(hash64 name, e)] s where
  isError := rfl
  isFunction := rfl
  isConstexpr := rfl
  reached := by
    refine ⟨[definition name e], [], s, s, 0, rfl, rfl, ?_⟩
    simp [parseItems, parseItem, definition, parseConstExpr, Node.isRule, Node.children, child, he,
      Node.text]

theorem namedConstant_defined (c : Compiler σ) (name : String) (e : Node) :
    namedConstant (c.withConstexprs [(hash64 name, e)]) (.terminal .identifier name) = some e := by
  simp [namedConstant, Compiler.withConstexprs, Node.isIdf, Node.isTerminal, Node.text]

theorem Loops.calledBy {c : Compiler σ} {q q' : Query} (h : Loops c q)
    (hcall : ReflTransGen (MustCalls c) q q') : Loops c q' := by
  obtain ⟨q₀, hreach, hcycle⟩ := h
  exact ⟨q₀, hreach.trans hcall, hcycle⟩

/-- `#constexpr name = name; function f() { target = name; }` -/
theorem self_function_loops (name target : String) :
    Loops (plainCompiler.withConstexprs [(hash64 name, nameOperand name)])
      (.function (functionOf [assignment target (nameOperand name)])) := by
  have hname := self_loops (namedConstant_defined plainCompiler name (nameOperand name))
  refine (hname.1.calledBy ?_).calledBy (function_calls _ target rfl).1
  exact value_chain _ (by decide) rfl

/-- `#constexpr name = name.member; function f() { name = v; }` -/
theorem member_function_loops (name member : String) {v : Node} (hv : v.isError = false) :
    Loops (plainCompiler.withConstexprs [(hash64 name, memberOperand name member)])
      (.function (functionOf [assignment name v])) := by
  have hname := member_loops (namedConstant_defined plainCompiler name (memberOperand name member))
  exact hname.2.calledBy (function_calls _ name hv).2

/-- `#constexpr A = 1; #constexpr B = A; function f() { x = B; }` -/
def orderedProgram : Node :=
  .rule .prog [definition "A" (integerOperand "1"), definition "B" (nameOperand "A"),
    functionOf [assignment "x" (nameOperand "B")]]

end Acts.Gsc.Parser
