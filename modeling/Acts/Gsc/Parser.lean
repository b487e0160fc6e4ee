import Acts.Lib.Calls

/-!
# The code generator of the script compiler

`ParseExpressionNode`, `ParseFieldNode` and `ParseFunction` walk the parse tree of a function, and
`NumberNodeValue` and `FloatNumberNodeValue` look for constants in it:

* `Node` — parse trees; `Query` — the calls of the five functions.
* `Compiler` — what the functions are given: the constants and operators by name, what the VM has,
  and the code between two calls, which changes the state and may report an error.
* one definition for each construct, and `bodyOf`, which has them all.

An operand that is missing in the tree reads as a tree error.
-/

set_option autoImplicit false

namespace Acts.Gsc.Parser

open Acts.Lib.Calls

/-! ## Parse trees -/

inductive Token where
  | identifier | undefinedValue | boolValue | floatval | integer10 | integer16 | integer8
  | integer2 | hashstring | string | istring | scrHash | animtreeIdentifier | path | builtin
  | keyword
  deriving DecidableEq, Repr

inductive Rule where
  | statement | statementIf | statementWhile | statementDowhile | statementFor | statementSwitch
  | statementForeach | nopDef | arrayUnpack | devopDef | statementInst | statementBlock
  | statementDevBlock | operatorInst | functionCall | functionCallExp | functionComponent
  | expressionList | expression | expressionN (n : Fin 16) | idf | isExpression | constExpr
  | constExprStatic | number | vectorValue | classInit | arrayDef | structDef | function
  | setExpression | functionRef | animRef | dataRef | leftValue | paramList | paramVal
  | detourInfo | constexpr | includeFile | precache | usingAnimtree | namespaceName
  | filenamespace | classDef | prog
  deriving DecidableEq, Repr

inductive Node where
  | error
  | terminal (token : Token) (text : String)
  | rule (r : Rule) (children : List Node)

mutual

/-- `getText`. -/
def Node.text : Node → String
  | .error => ""
  | .terminal _ text => text
  | .rule _ children => textAll children

def textAll : List Node → String
  | [] => ""
  | n :: ns => n.text ++ textAll ns

end

def Node.children : Node → List Node
  | .rule _ children => children
  | _ => []

def Node.isError : Node → Bool
  | .error => true
  | _ => false

def Node.isTree : Node → Bool
  | .rule _ _ => true
  | _ => false

/-- `IS_RULE_TYPE`. -/
def Node.isRule (r : Rule) : Node → Bool
  | .rule r' _ => r' = r
  | _ => false

/-- `IS_TERMINAL_TYPE`. -/
def Node.isTerminal (t : Token) : Node → Bool
  | .terminal t' _ => t' = t
  | _ => false

/-- `IS_IDF`. -/
def Node.isIdf (n : Node) : Bool := n.isRule .idf || n.isTerminal .identifier

def child (cs : List Node) (i : Nat) : Node := cs.getD i .error

def lastChild (cs : List Node) : Node := cs.getLastD .error

/-- Every other node, from the first one on. -/
def everyOther : List Node → List Node
  | [] => []
  | [n] => [n]
  | n :: _ :: ns => n :: everyOther ns

/-- The parameters from the last one down to the one at `start`, past the commas. -/
def paramsDown (cs : List Node) (start : Nat) : List Node := everyOther (cs.drop start).reverse

/-- `GetUniqueNode`. -/
def getUniqueNode : Node → Option Node
  | .error => none
  | .terminal t text => some (.terminal t text)
  | .rule r cs =>
    match cs with
    | [n] => if r = .expressionN 15 then none else getUniqueNode n
    | [_, n, _] => if r = .expressionN 15 then getUniqueNode n else none
    | _ => none

/-- The node at the end of a chain of single children. -/
def unwrap : Node → Node
  | .error => .error
  | .terminal t text => .terminal t text
  | .rule r cs =>
    match cs with
    | [n] => unwrap n
    | _ => .rule r cs

/-! ## Calls -/

inductive Query where
  | value (n : Node) (expressVal : Bool)
  | field (n : Node)
  | function (n : Node)
  | number (n : Node)
  | float (n : Node)

/-- A number is one that was extracted; a float is there or not a number. -/
abbrev Query.Result : Query → Type
  | .value _ _ => Bool
  | .field _ => Bool
  | .function _ => Bool
  | .number _ => Option Int64
  | .float _ => Bool

def Query.node : Query → Node
  | .value n _ => n
  | .field n => n
  | .function n => n
  | .number n => n
  | .float n => n

/-- Constants are looked for, and are no error when they are not there. -/
def accepted : (q : Query) → q.Result → Bool
  | .value _ _, r => r
  | .field _, r => r
  | .function _, r => r
  | .number _, _ => true
  | .float _, _ => true

/-- The places where code between two calls may report an error. -/
inductive Check where
  | location | switchVariable | foreachArray | foreachKey | foreachValue | foreachNext
  | foreachIterator | unpackArray | unpackEntry | breakContext | continueContext | hashParam
  | stringParam | unpackVariable | nameSpace | nullishVariable | optionalVariable | isType
  | animTree | variable | terminal | leftVariable | exportName | eventHandler | vararg | param
  | locations | directive | devBlocks
  deriving DecidableEq, Repr

inductive OpCode where
  | jumpOnDefinedExpr | addToStruct | getVarRef
  deriving DecidableEq, Repr

inductive ForeachType where
  | t8 | t9 | jup | other
  deriving DecidableEq, Repr

structure FunctionOperator where
  selfParam : Bool
  returnValue : Bool
  unpack : Bool
  hashParam : Bool
  stringParam : Bool
  minParam : Nat
  maxParam : Nat

/-- What the functions are given. -/
structure Compiler (σ : Type) where
  constexprs : String → Option Node
  opFuncs : String → Option FunctionOperator
  hasOpCode : OpCode → Bool
  foreachType : ForeachType
  opcodeU16 : Bool
  /-- The name of a namespace that stands for the compiler. -/
  compilerNamespace : String → Bool
  /-- The value of an integer or a Boolean. -/
  integer : Node → Int64
  /-- The value of an operator on two numbers, if it has one. -/
  operator : String → Int64 → Int64 → Option Int64
  /-- The VM has an operation for the constant vector. -/
  constantVector : Node → σ → Bool
  /-- The name is a variable of the function. -/
  isVar : Node → σ → Bool
  /-- The code of a construct between two calls. -/
  emit : Nat → Node → σ → σ
  check : Check → Node → σ → Bool × σ

abbrev Parse (σ α : Type) := Body σ Query Query.Result α

section

variable {σ : Type}

def value (n : Node) (expressVal : Bool) : Parse σ Bool := .call (.value n expressVal) .ret

def field (n : Node) : Parse σ Bool := .call (.field n) .ret

def function (n : Node) : Parse σ Bool := .call (.function n) .ret

def number (n : Node) : Parse σ (Option Int64) := .call (.number n) .ret

def float (n : Node) : Parse σ Bool := .call (.float n) .ret

variable (c : Compiler σ)

def emit (k : Nat) (n : Node) : Parse σ Unit := .get (fun s => .put (c.emit k n s) (.ret ()))

def emitIf (p : Bool) (k : Nat) (n : Node) : Parse σ Unit :=
  .get (fun s => .put (if p then c.emit k n s else s) (.ret ()))

def check (k : Check) (n : Node) : Parse σ Bool :=
  .get (fun s => .put (c.check k n s).2 (.ret (c.check k n s).1))

def asks (p : σ → Bool) : Parse σ Bool := .get (fun s => .ret (p s))

/-- All of them, also behind one that is rejected. -/
def each {ι : Type} (p : ι → Parse σ Bool) : List ι → Parse σ Bool
  | [] => return true
  | n :: ns => do
    let ok ← p n
    let rest ← each p ns
    return ok && rest

/-- All of them up to the first one that is rejected. -/
def eachUntil {ι : Type} (p : ι → Parse σ Bool) : List ι → Parse σ Bool
  | [] => return true
  | n :: ns => do
    if !(← p n) then return false
    eachUntil p ns

def valueIfAny (n : Option Node) (expressVal : Bool) : Parse σ Bool :=
  match n with
  | none => return true
  | some n => value n expressVal

end

/-! ## Constants -/

/-- The rules that both look through. -/
def Rule.isWrapper : Rule → Bool
  | .expression | .number | .constExpr | .constExprStatic | .idf => true
  | .expressionN n => n ≠ 15
  | _ => false

def Token.isInteger : Token → Bool
  | .integer10 | .integer16 | .integer8 | .integer2 => true
  | _ => false

section

variable {σ : Type} (c : Compiler σ)

def namedConstant (n : Node) : Option Node := if n.isIdf then c.constexprs n.text else none

def floatNumberNodeValue (n : Node) : Parse σ Bool :=
  match namedConstant c n with
  | some e => float e
  | none =>
    match n with
    | .error => return false
    | .terminal t _ => return t.isInteger || t = .floatval
    | .rule r cs =>
      if r = .expressionN 15 then float (child cs 1)
      else if r.isWrapper && cs.length == 1 then float (child cs 0)
      else return false

def numberNodeValue (n : Node) : Parse σ (Option Int64) :=
  match namedConstant c n with
  | some e => number e
  | none =>
    match n with
    | .error => return none
    | .terminal t _ => return if t.isInteger || t = .boolValue then some (c.integer n) else none
    | .rule r cs =>
      if r = .expressionN 15 then number (child cs 1)
      else if !r.isWrapper then return none
      else if cs.length = 1 then number (child cs 0)
      else if cs.length = 3 then do
        match ← number (child cs 0) with
        | none => return none
        | some v1 =>
          match ← number (child cs 2) with
          | none => return none
          | some v2 => return c.operator (child cs 1).text v1 v2
      else if cs.length = 2 && !(child cs 0).isTree && !(child cs 0).isError then do
        -- the operand is not looked at
        match ← number (child cs 0) with
        | none => return none
        | some v =>
          let op := (child cs 0).text
          return if op = "!" then some (if v = 0 then 1 else 0) else if op = "~" then some (~~~v)
            else none
      else return none

/-! ## Statements -/

def statement (n : Node) (cs : List Node) (expressVal : Bool) : Parse σ Bool := do
  if expressVal then return false
  if cs.length > 1 then
    if !(← check c .location n) then return false
  value (lastChild cs) expressVal

def statementIf (n : Node) (cs : List Node) : Parse σ Bool := do
  match ← number (child cs 2) with
  | some v =>
    if v ≠ 0 then value (child cs 4) false
    else if cs.length ≤ 5 then return true
    else value (child cs 6) false
  | none =>
    let cond ← value (child cs 2) true
    emit c 0 n
    let yes ← value (child cs 4) false
    if cs.length > 5 then
      emit c 1 n
      let no ← value (child cs 6) false
      emit c 2 n
      return cond && yes && no
    else
      emit c 3 n
      return cond && yes

def statementWhile (n : Node) (cs : List Node) : Parse σ Bool := do
  match ← number (child cs 2) with
  | some v =>
    if v ≠ 0 then
      emit c 0 n
      let body ← value (child cs 4) false
      emit c 1 n
      return body
    else return true
  | none =>
    emit c 0 n
    let cond ← value (child cs 2) true
    emit c 2 n
    let body ← value (child cs 4) false
    emit c 1 n
    return cond && body

def statementDowhile (n : Node) (cs : List Node) : Parse σ Bool := do
  emit c 0 n
  let body ← value (child cs 1) false
  emit c 1 n
  match ← number (child cs 4) with
  | some _ =>
    emit c 2 n
    return body
  | none =>
    let cond ← value (child cs 4) true
    emit c 3 n
    return body && cond

/-- An expression that may be missing, and what follows it. -/
def takeExpression : List Node → Option Node × List Node
  | [] => (none, [])
  | n :: ns => if n.isRule .expression then (some n, ns) else (none, n :: ns)

def statementFor (n : Node) (cs : List Node) : Parse σ Bool := do
  let init := takeExpression (cs.drop 2)
  let cond := takeExpression (init.2.drop 1)
  let delta := takeExpression (cond.2.drop 1)
  let initOk ← valueIfAny init.1 false
  emit c 0 n
  let condOk ← valueIfAny cond.1 true
  emitIf c (cond.1.isSome && condOk) 1 n
  emit c 2 n
  let body ← value (lastChild cs) false
  emit c 3 n
  let deltaOk ← valueIfAny delta.1 false
  emit c 4 n
  return initOk && condOk && body && deltaOk

/-- The labels of a `switch`: the values of the cases are read, and the statements behind each
label are put aside.  Each turn reads at least one node. -/
def switchLabels (n : Node) : Nat → Bool → List Node → Parse σ (Bool × List (List Node))
  | 0, _, _ => return (true, [])
  | _, _, [] => return (true, [])
  | fuel + 1, hasDefault, label :: rest => do
    if label.text = "case" then
      let ok ← value (child rest 0) true
      emit c 1 n
      let behind := rest.drop 2
      let stmts := behind.takeWhile (Node.isRule .statement)
      let more ← switchLabels n fuel hasDefault (behind.drop stmts.length)
      return (ok && more.1, stmts :: more.2)
    else if label.text = "default" then
      let behind := rest.drop 1
      let stmts := behind.takeWhile (Node.isRule .statement)
      let more ← switchLabels n fuel true (behind.drop stmts.length)
      return (!hasDefault && more.1, stmts :: more.2)
    else
      let more ← switchLabels n fuel hasDefault rest
      return (false, more.2)

def statementSwitch (n : Node) (cs : List Node) : Parse σ Bool := do
  if !(← check c .switchVariable n) then return false
  let cond ← value (child cs 2) true
  emit c 0 n
  let labels ← switchLabels c n cs.length false (cs.drop 5).dropLast
  emit c 2 n
  let stmts ← each (fun block => do
    emit c 3 n
    each (fun stmt => value stmt false) block) labels.2
  emit c 4 n
  return cond && labels.1 && stmts

def foreachBody (n : Node) (cs : List Node) (ok : Bool) : Parse σ Bool := do
  match c.foreachType with
  | .t8 =>
    if !(← check c .foreachIterator n) then return false
    emit c 0 n
    let body ← value (lastChild cs) false
    emit c 1 n
    return ok && body
  | .t9 =>
    let next ← check c .foreachNext n
    if !(← check c .foreachIterator n) then return false
    emit c 0 n
    let body ← value (lastChild cs) false
    emit c 1 n
    return ok && next && body
  | .jup =>
    emit c 0 n
    let body ← value (lastChild cs) false
    emit c 1 n
    return ok && body
  | .other => return false

def statementForeach (n : Node) (cs : List Node) : Parse σ Bool := do
  if !(← check c .foreachArray n) then return false
  let key ← check c .foreachKey (if (child cs 4).isIdf then child cs 2 else n)
  let val ← check c .foreachValue (child cs (if (child cs 4).isIdf then 4 else 2))
  if !key then return false
  if !val then return false
  let ok ← value (child cs (cs.length - 3)) true
  foreachBody c n cs ok

def nopDef (n : Node) (cs : List Node) (expressVal : Bool) : Parse σ Bool := do
  if expressVal then return false
  if cs.length > 1 then
    let val ← number (child cs 2)
    if val.getD 0 < 0 then return false
  emit c 0 n
  return true

def arrayUnpack (n : Node) (cs : List Node) : Parse σ Bool := do
  if !(← check c .unpackArray n) then return false
  if !(← value (lastChild cs) true) then return false
  emit c 0 n
  let names := everyOther (cs.dropLast.dropLast.dropLast.drop 1)
  eachUntil (fun e => check c .unpackEntry e) names.reverse

def devopDef (n : Node) (cs : List Node) (expressVal : Bool) : Parse σ Bool := do
  if expressVal then return false
  let val := (← number (child cs 2)).getD 0
  if val < 0 then return false
  if val > (if c.opcodeU16 then 0xFFFF else 0xFF) then return false
  emit c 0 n
  return true

def statementInst (cs : List Node) (expressVal : Bool) : Parse σ Bool :=
  if cs.length = 1 then return !expressVal
  else value (child cs 0) expressVal

/-- The statements between two brackets. -/
def inner (cs : List Node) : List Node := (cs.drop 1).dropLast

def statementBlock (cs : List Node) (expressVal : Bool) : Parse σ Bool :=
  if expressVal then return false
  else each (fun stmt => value stmt false) (inner cs)

def statementDevBlock (n : Node) (cs : List Node) (expressVal : Bool) : Parse σ Bool := do
  if expressVal then return false
  emit c 0 n
  let ok ← each (fun stmt => value stmt false) (inner cs)
  emit c 1 n
  return ok

def operatorInst (n : Node) (cs : List Node) (expressVal : Bool) : Parse σ Bool := do
  if expressVal then return false
  let idf := (child cs 0).text
  if idf = "break" then
    if cs.length > 1 then return false
    check c .breakContext n
  else if idf = "continue" then
    if cs.length > 1 then return false
    check c .continueContext n
  else if idf = "goto" ∨ idf = "jumpdev" then
    if cs.length ≤ 1 && !(child cs 1).isIdf then return false
    emit c (if idf = "goto" then 0 else 1) n
    return true
  else if idf = "return" then
    if cs.length ≤ 1 then
      emit c 2 n
      return true
    if !(← value (child cs 1) true) then return false
    emit c 3 n
    return true
  else if idf = "wait" then
    if cs.length ≤ 1 then return false
    if !(← value (child cs 1) true) then return false
    emit c 4 n
    return true
  else return false

/-! ## Calls in the script -/

inductive CallModifier where
  | none | thread | childthread | builtin
  deriving DecidableEq, Repr

def callModifier (text : String) : Option CallModifier :=
  if text = "thread" then some .thread
  else if text = "childthread" ∨ text = "threadendon" then some .childthread
  else if text = "builtin" then some .builtin
  else none

/-- What a call is on: its caller, its modifier, and its parameters. -/
structure CallSite where
  self : Option Node
  modifier : CallModifier
  functionComp : Node
  params : List Node

/-- The parts of a call, when they are of their kinds. -/
def callSite (cs : List Node) : Option CallSite :=
  let first := child cs 0
  let hasSelf := first.isTree && !first.isRule .functionComponent
  let rest := if hasSelf then cs.drop 1 else cs
  let isTerminal := !(child rest 0).isTree && !(child rest 0).isError
  match if isTerminal then callModifier (child rest 0).text else some .none with
  | none => none
  | some modifier =>
    let functionComp := child rest (if isTerminal then 1 else 0)
    let paramsList := child cs (cs.length - 2)
    if functionComp.isRule .functionComponent && paramsList.isRule .expressionList then
      some ⟨if hasSelf then some first else none, modifier, functionComp, paramsList.children⟩
    else none

/-- A constant that an operator takes as its first parameter. -/
def leadingParam (n : Node) (site : CallSite) (isUsed : Bool) (k : Check) : Parse σ Bool :=
  if !isUsed then return true
  else if site.params = [] then return false
  else check c k n

/-- The parameters of an operator, with their number; `none` is an error reported at once. -/
def operatorParams (n : Node) (f : FunctionOperator) (site : CallSite) (expressVal : Bool) :
    Parse σ (Option (Bool × Nat)) := do
  if f.unpack then
    if expressVal then return some (false, 0)
    if site.params = [] then return some (false, 0)
    let ok ← value (child site.params 0) true
    let names := (paramsDown site.params 2).map unwrap
    if names.all Node.isIdf then return some (ok, names.length + 1)
    return none
  else
    if !(← leadingParam c n site f.hashParam .hashParam) then return none
    if !(← leadingParam c n site f.stringParam .stringParam) then return none
    let start := (if f.hashParam then 2 else 0) + (if f.stringParam then 2 else 0)
    let params := paramsDown site.params start
    let ok ← each (fun e => value e true) params
    return some (ok, params.length)

/-- The variables that an operator unpacks into. -/
def unpackVariables (f : FunctionOperator) (site : CallSite) : Parse σ Bool :=
  if f.unpack then
    eachUntil (fun e => check c .unpackVariable e) ((everyOther site.params).drop 1)
  else return true

/-- An operator of the VM. -/
def operatorCall (n : Node) (f : FunctionOperator) (site : CallSite) (expressVal : Bool) :
    Parse σ Bool := do
  if f.selfParam && site.self.isNone then return false
  if expressVal && !f.returnValue then return false
  if site.modifier ≠ .none then return false
  emit c 0 n
  match ← operatorParams c n f site expressVal with
  | none => return false
  | some (ok, count) =>
    if !(← valueIfAny site.self true) then return false
    if !ok then return false
    if count < f.minParam then return false
    if count > f.maxParam then return false
    emit c 1 n
    if !(← unpackVariables c f site) then return false
    emit c 2 n
    return true

/-- Another call: of a function, or through a pointer. -/
def scriptCall (n : Node) (site : CallSite) (ptr : Option Node) (isClass : Bool)
    (compilerCall : Bool) : Parse σ Bool := do
  emit c 3 n
  let params := paramsDown site.params 0
  let ok ← each (fun e => value e true) params
  emit c 4 n
  if !(← valueIfAny site.self true) then return false
  if !(← valueIfAny ptr true) then return false
  if !ok then return false
  if params.length + (if compilerCall then 1 else 0) ≥ 256 then return false
  if site.modifier = .builtin && (isClass || ptr.isNone) then return false
  emit c 5 n
  return true

def functionCall (n : Node) (cs : List Node) (expressVal : Bool) : Parse σ Bool := do
  if cs.length = 1 then return ← value (child cs 0) expressVal
  match callSite cs with
  | none => return false
  | some site =>
    match site.functionComp.children with
    | [name] =>
      match c.opFuncs name.text with
      | some f => operatorCall c n f site expressVal
      | none =>
        emit c 6 n
        scriptCall c n site none false false
    | [nsp, _, _] =>
      let isCompiler := !nsp.isTerminal .path && c.compilerNamespace nsp.text
      if !(← check c .nameSpace n) then return false
      scriptCall c n site none false isCompiler
    | [_, _, ptr, _, _] => scriptCall c n site (some ptr) false false
    | [_, _, ptr, _, _, _, _] =>
      if site.self.isSome then return false
      scriptCall c n site (some ptr) true false
    | _ => return false

/-! ## Expressions -/

/-- The operators on two values. -/
def isBinaryOperator (op : String) : Bool :=
  ["|", "^", "&", "!=", "!==", "==", "===", "<", "<=", "<==", ">", ">=", ">==", "+", "-", "*", "/",
    "%", "<<", ">>"].contains op

def unaryExpression (n : Node) (cs : List Node) (expressVal : Bool) : Parse σ Bool := do
  if !(child cs 0).isTree then
    let op := (child cs 0).text
    if op = "!" ∨ op = "~" then
      if !(← value (child cs 1) true) then return false
      emit c (if op = "!" then 0 else 1) n
      return true
    else if op = "++" ∨ op = "--" then
      if !(← field (child cs 1)) then return false
      emit c (if op = "++" then 2 else 3) n
      if expressVal then
        if !(← value (child cs 1) true) then return false
      return true
    else return false
  else
    let op := (child cs 1).text
    if op = "++" ∨ op = "--" then
      if expressVal then
        if !(← value (child cs 0) true) then return false
      if !(← field (child cs 0)) then return false
      emit c (if op = "++" then 2 else 3) n
      return true
    else return false

def binaryExpression (n : Node) (cs : List Node) : Parse σ Bool := do
  let op := (child cs 1).text
  if op = "||" ∨ op = "&&" then
    let left ← value (child cs 0) true
    emit c (if op = "||" then 0 else 1) n
    let right ← value (child cs 2) true
    emit c 2 n
    return left && right
  else if op = "??" then
    if c.hasOpCode .jumpOnDefinedExpr then
      let left ← value (child cs 0) true
      emit c 3 n
      let right ← value (child cs 2) true
      emit c 4 n
      return left && right
    else
      if !(← check c .nullishVariable n) then return false
      let left ← value (child cs 0) true
      emit c 5 n
      let right ← value (child cs 2) true
      emit c 6 n
      return left && right
  else
    let left ← value (child cs 0) true
    let right ← value (child cs 2) true
    emit c 7 n
    return left && right && isBinaryOperator op

def operatorExpression (n : Node) (cs : List Node) (expressVal : Bool) : Parse σ Bool := do
  if cs.length = 1 then value (child cs 0) expressVal
  else if cs.length = 2 then unaryExpression c n cs expressVal
  else if cs.length = 5 then
    let cond ← value (child cs 0) true
    emit c 8 n
    let yes ← value (child cs 2) true
    emit c 9 n
    let no ← value (child cs 4) true
    emit c 10 n
    return cond && yes && no
  else if cs.length ≠ 3 then return false
  else binaryExpression c n cs

def isExpression (n : Node) (cs : List Node) (expressVal : Bool) : Parse σ Bool := do
  if !(← value (child cs 0) expressVal) then return false
  check c .isType n

def vectorValue (n : Node) (cs : List Node) (expressVal : Bool) : Parse σ Bool := do
  if !expressVal then return true
  let x ← float (child cs 1)
  let y ← float (child cs 3)
  let z ← float (child cs 5)
  let known ← asks (c.constantVector n)
  if x && y && z && known then
    emit c 0 n
    return true
  -- the comma operator: the last one decides
  let _ ← value (child cs 5) true
  let _ ← value (child cs 3) true
  if !(← value (child cs 1) true) then return false
  emit c 1 n
  return true

def classInit (n : Node) (cs : List Node) : Parse σ Bool := do
  if cs.length > 4 then return false
  emit c 0 n
  return true

/-- The elements of an array. -/
def arrayItems (n : Node) : List Node → Parse σ Bool
  | key :: mark :: rest =>
    if mark.text = ":" then
      match rest with
      | e :: _ :: rest => do
        let ok ← value e true
        let keyOk ← value key true
        emit c 1 n
        let more ← arrayItems n rest
        return ok && keyOk && more
      | _ => return false
    else do
      let ok ← value key true
      emit c 2 n
      let more ← arrayItems n rest
      return ok && more
  | _ => return true

def arrayDef (n : Node) (cs : List Node) (expressVal : Bool) : Parse σ Bool := do
  if !expressVal then return true
  emit c 0 n
  arrayItems c n (cs.drop 1)

/-- The name of a field, behind its value. -/
def structKey (n term : Node) : Parse σ Bool :=
  let isHash := (getUniqueNode term).any (Node.isTerminal .scrHash)
  if c.hasOpCode .addToStruct then do
    emitIf c isHash 1 n
    return isHash
  else if isHash then do
    emit c 2 n
    return true
  else do
    let ok ← value term true
    emit c 3 n
    return ok

/-- The fields of a structure. -/
def structItems (n : Node) : List Node → Parse σ Bool
  | term :: _ :: e :: _ :: rest => do
    let ok ← value e true
    let keyOk ← structKey c n term
    let more ← structItems n rest
    return ok && keyOk && more
  | _ => return true

def structDef (n : Node) (cs : List Node) (expressVal : Bool) : Parse σ Bool := do
  if !expressVal then return true
  emit c 0 n
  structItems c n (cs.drop 1)

/-- A function in an expression; the code behind it is in the enclosing function again. -/
def functionValue (n : Node) : Parse σ Bool := do
  emit c 0 n
  let ok ← function n
  emit c 1 n
  if !ok then return false
  emit c 2 n
  return true

def isSetOperator (op : String) : Bool :=
  ["+=", "-=", "/=", "*=", "%=", "&=", "|=", "^=", "<<=", ">>=", "~="].contains op

def setExpression (n : Node) (cs : List Node) (expressVal : Bool) : Parse σ Bool := do
  let opVal := (child cs 1).text
  if opVal = "=" then
    let right ← value (child cs 2) true
    let left ← field (child cs 0)
    emit c 0 n
    if expressVal then
      let again ← value (child cs 0) true
      return right && left && again
    return right && left
  else
    let old ← value (child cs 0) true
    let right ← value (child cs 2) true
    emit c 1 n
    let left ← field (child cs 0)
    emit c 2 n
    if expressVal then
      let again ← value (child cs 0) true
      return old && right && isSetOperator opVal && left && again
    return old && right && isSetOperator opVal && left

def functionRef (n : Node) (cs : List Node) (expressVal : Bool) : Parse σ Bool := do
  if !expressVal then return true
  let target := child cs 1
  let isName := target.isIdf || (target.isRule .leftValue && (child target.children 0).isIdf)
  if cs.length = 2 && !isName && target.isRule .leftValue then
    if !(← field target) then return false
    emit c 0 n
    return true
  let known ← asks (c.isVar target)
  emit c (if cs.length = 2 && isName && c.hasOpCode .getVarRef && known then 1 else 2) n
  return true

def animRef (n : Node) (cs : List Node) : Parse σ Bool := do
  if cs.length > 2 then
    emit c 0 n
    return true
  check c .animTree n

/-- The field of an object, by name or by a value; the code is at `k` and behind. -/
def member (k : Nat) (n : Node) (first : Node) (cs : List Node) (stop : Bool) : Parse σ Bool := do
  let key ← value (child cs 3) true
  if stop && !key then return false
  emit c k n
  let object ← value first true
  if stop && !object then return false
  emit c (k + 1) n
  return key && object

def leftValue (n : Node) (cs : List Node) (expressVal : Bool) : Parse σ Bool := do
  if !expressVal then return true
  if cs.length = 1 then return ← value (child cs 0) expressVal
  let first := child cs 0
  if !first.isTree then return false
  let second := (child cs 1).text
  if second = "." then
    if (child cs 2).isIdf then
      if !(← value first true) then return false
      emit c 0 n
      return true
    else member c 1 n first cs true
  else if second = "?." then
    if !(← check c .optionalVariable n) then return false
    if !(← value first true) then return false
    emit c 3 n
    if (child cs 2).isIdf then
      emit c 4 n
      return true
    else
      let ok ← member c 5 n first cs false
      emit c 7 n
      return ok
  else if second = "[" then
    if !(← value (child cs 2) true) then return false
    if !(← value first true) then return false
    emit c 8 n
    return true
  else return false

/-! ## The walk -/

def terminalNode (n : Node) (t : Token) (expressVal : Bool) : Parse σ Bool :=
  if t = .identifier then
    match c.constexprs n.text with
    | some pt => value pt expressVal
    | none => if !expressVal then return true else check c .variable n
  else if !expressVal then return true
  else
    match t with
    | .undefinedValue | .boolValue | .floatval | .integer10 | .integer16 | .integer8 | .integer2
    | .animtreeIdentifier => do
      emit c 0 n
      return true
    | .hashstring | .scrHash | .string | .istring => check c .terminal n
    | _ => return false

def parseExpressionNode (n : Node) (expressVal : Bool) : Parse σ Bool :=
  match n with
  | .error => return false
  | .terminal t _ => terminalNode c n t expressVal
  | .rule r cs =>
    if cs.any Node.isError then return false
    else
      match r with
      | .statement => statement c n cs expressVal
      | .statementIf => statementIf c n cs
      | .statementWhile => statementWhile c n cs
      | .statementDowhile => statementDowhile c n cs
      | .statementFor => statementFor c n cs
      | .statementSwitch => statementSwitch c n cs
      | .statementForeach => statementForeach c n cs
      | .nopDef => nopDef c n cs expressVal
      | .arrayUnpack => arrayUnpack c n cs
      | .devopDef => devopDef c n cs expressVal
      | .statementInst => statementInst cs expressVal
      | .statementBlock => statementBlock cs expressVal
      | .statementDevBlock => statementDevBlock c n cs expressVal
      | .operatorInst => operatorInst c n cs expressVal
      | .functionCall | .functionCallExp => functionCall c n cs expressVal
      | .expression | .idf => operatorExpression c n cs expressVal
      | .expressionN k =>
        if k ≤ 12 then operatorExpression c n cs expressVal
        else value (child cs (if cs.length = 3 then 1 else 0)) expressVal
      | .isExpression => isExpression c n cs expressVal
      | .constExpr | .constExprStatic | .number =>
        value (child cs (if cs.length = 3 then 1 else 0)) expressVal
      | .vectorValue => vectorValue c n cs expressVal
      | .classInit => classInit c n cs
      | .arrayDef => arrayDef c n cs expressVal
      | .structDef => structDef c n cs expressVal
      | .function => functionValue c n
      | .setExpression => setExpression c n cs expressVal
      | .functionRef => functionRef c n cs expressVal
      | .animRef => animRef c n cs
      | .leftValue => leftValue c n cs expressVal
      | _ => return false

def leftValueField (n : Node) (cs : List Node) : Parse σ Bool := do
  if cs.length = 1 then return ← field (child cs 0)
  let first := child cs 0
  if !first.isTree then return false
  let second := (child cs 1).text
  if second = "." ∨ second = "?." then
    if (child cs 2).isIdf then
      if !(← value first true) then return false
      if (child cs 2).text = "size" then return false
      emit c 10 n
      return true
    else member c 11 n first cs true
  else if second = "[" then
    if !(← value (child cs 2) true) then return false
    if !(← field first) then return false
    emit c 13 n
    return true
  else return false

def parseFieldNode (n : Node) : Parse σ Bool :=
  match n with
  | .error => return false
  | .terminal t _ =>
    if t = .identifier then
      match c.constexprs n.text with
      | some pt => field pt
      | none => check c .leftVariable n
    else return false
  | .rule r cs =>
    if cs.any Node.isError then return false
    else
      match r with
      | .expression | .idf => if cs.length = 1 then field (child cs 0) else return false
      | .expressionN k =>
        if k = 15 then field (child cs 1)
        else if cs.length = 1 then field (child cs 0) else return false
      | .leftValue => leftValueField c n cs
      | _ => return false

/-! ## Functions -/

/-- The modifiers in front of a function, `left` of them; the number of an `autoexec` and the name
of an event are read with them. -/
def modifiers (n : Node) : Nat → Nat → List Node → Parse σ Bool
  | 0, _, _ => return true
  | _, _, [] => return true
  | fuel + 1, left, mod :: rest =>
    if left = 0 then return true
    else if mod.isRule .detourInfo then do
      emit c 0 mod
      modifiers n fuel (left - 1) rest
    else if mod.isTree || mod.isError then return false
    else if mod.text = "autoexec" then
      if (child rest 1).isRule .number then do
        let _ ← number (child rest 1)
        emit c 1 n
        modifiers n fuel (left - 4) (rest.drop 3)
      else do
        emit c 2 n
        modifiers n fuel (left - 1) rest
    else if mod.text = "event_handler" then do
      if !(← check c .eventHandler n) then return false
      if (child rest 1).isTree || (child rest 1).isError then return false
      emit c 3 n
      modifiers n fuel (left - 4) (rest.drop 3)
    else do
      emitIf c (mod.text = "private") 4 n
      modifiers n fuel (left - 1) rest

/-- A parameter, with its default value. -/
def functionParam (param : Node) : Parse σ Bool := do
  let cs := param.children
  if !(child cs 0).isIdf && cs.length = 1 then return ← check c .vararg param
  if !(← check c .param param) then return false
  if cs.length ≥ 3 then
    emit c 0 param
    if !(← value (lastChild cs) true) then return false
    emit c 1 param
  return true

def parseFunction (n : Node) : Parse σ Bool := do
  let cs := n.children
  let deltaArrow := if cs.length > 2 && (child cs (cs.length - 2)).text = "=>" then 1 else 0
  let hasName := cs.length > 4 + deltaArrow && (child cs (cs.length - 5 - deltaArrow)).isIdf
  let paramsRule := child cs (cs.length - 3 - deltaArrow)
  let blockRule := child cs (cs.length - 1)
  if !(← check c .exportName n) then return false
  if !paramsRule.isRule .paramList then return false
  if !blockRule.isRule .statementBlock then return false
  let left := cs.length - ((if hasName then 5 else 4) + deltaArrow)
  if !(← modifiers c n left left cs) then return false
  if !(← eachUntil (functionParam c) (everyOther paramsRule.children)) then return false
  emit c 5 n
  let block ← value blockRule false
  emit c 6 n
  let declared ← check c .locations n
  emit c 7 n
  return block && declared

/-- The five functions. -/
def bodyOf : (q : Query) → Parse σ q.Result
  | .value n expressVal => parseExpressionNode c n expressVal
  | .field n => parseFieldNode c n
  | .function n => parseFunction c n
  | .number n => numberNodeValue c n
  | .float n => floatNumberNodeValue c n

end

end Acts.Gsc.Parser
