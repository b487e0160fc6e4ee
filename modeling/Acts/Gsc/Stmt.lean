import Acts.Lib.Machine

/-!
# Statements of the script language

* `Stmt` — the statements; the nodes of a condition and of a simple statement are opaque.
* `Stmt.run` — what they mean, with the events they perform.
* `Node`, `step` — the nodes of a function as a machine runs them.
* `parseStmt`, `parseFunction` — the parser: the nodes it emits, with its two stacks of jump
  locations.

A parse error is `none`: the parser goes on after one to report more, and the function is rejected.
-/

set_option autoImplicit false

namespace Acts.Gsc

/-! ## Statements -/

section Syntax

variable (E S : Type)

mutual
/-- `E` are the expressions used as conditions, subjects, case labels and returned values; `S` are
the simple statements. -/
inductive Stmt where
  | empty
  | inst (s : S)
  | block (ss : Stmts)
  | ifThen (c : E) (t : Stmt)
  | ifElse (c : E) (t e : Stmt)
  | whileLoop (c : E) (body : Stmt)
  | doWhile (body : Stmt) (c : E)
  | forLoop (init : Option S) (c : Option E) (delta : Option S) (body : Stmt)
  | switch (subject : E) (cases : Cases)
  | breakStmt
  | continueStmt
  | returnStmt (e : Option E)

inductive Stmts where
  | nil
  | cons (s : Stmt) (ss : Stmts)

/-- The blocks of a switch; a block without a label is the default. -/
inductive Cases where
  | nil
  | cons (label : Option E) (ss : Stmts) (rest : Cases)
end

inductive Event where
  | eval (e : E)
  | exec (s : S)

end Syntax

/-! ## What they mean -/

variable {E S σ V : Type}

/-- The opaque parts: evaluating an expression, a simple statement, a value as a condition and the
comparison of a switch. -/
structure Sem (E S σ V : Type) where
  eval : E → σ → V × σ
  exec : S → σ → σ
  truthy : V → Bool
  equal : V → V → V

/-- How a statement ends; `timeout` is a loop that ran out of fuel. -/
inductive Outcome (V : Type) where
  | normal
  | brk
  | cont
  | ret (v : Option V)
  | timeout

structure Result (E S σ V : Type) where
  trace : List (Event E S)
  store : σ
  outcome : Outcome V

section Meaning

def done (s : σ) : Result E S σ V := ⟨[], s, .normal⟩

def Result.prepend (tr : List (Event E S)) (r : Result E S σ V) : Result E S σ V :=
  { r with trace := tr ++ r.trace }

/-- `f` after `r`, if `r` ends normally. -/
def Result.andThen (r : Result E S σ V) (f : σ → Result E S σ V) : Result E S σ V :=
  match r.outcome with
  | .normal => (f r.store).prepend r.trace
  | _ => r

def Result.catchBreak (r : Result E S σ V) : Result E S σ V :=
  match r.outcome with
  | .brk => { r with outcome := .normal }
  | _ => r

def Result.catchContinue (r : Result E S σ V) : Result E S σ V :=
  match r.outcome with
  | .cont => { r with outcome := .normal }
  | _ => r

variable (sem : Sem E S σ V)

def Sem.cond (c : E) (s : σ) (t f : σ → Result E S σ V) : Result E S σ V :=
  (if sem.truthy (sem.eval c s).1 then t (sem.eval c s).2 else f (sem.eval c s).2).prepend
    [.eval c]

def Sem.simple (i : S) (s : σ) : Result E S σ V := ⟨[.exec i], sem.exec i s, .normal⟩

def Sem.simple? (i : Option S) (s : σ) : Result E S σ V :=
  match i with
  | none => done s
  | some i => sem.simple i s

/-- A loop with its condition in front and a statement after its body. -/
def Sem.loop (c : Option E) (delta : Option S) (body : σ → Result E S σ V) :
    Nat → σ → Result E S σ V
  | 0, s => ⟨[], s, .timeout⟩
  | n + 1, s =>
    let turn := fun s =>
      ((body s).catchContinue.andThen (sem.simple? delta)).andThen (Sem.loop c delta body n)
    match c with
    | none => turn s
    | some c => sem.cond c s turn done

/-- A loop with its condition behind. -/
def Sem.doLoop (c : E) (body : σ → Result E S σ V) : Nat → σ → Result E S σ V
  | 0, s => ⟨[], s, .timeout⟩
  | n + 1, s =>
    (body s).catchContinue.andThen fun s => sem.cond c s (Sem.doLoop c body n) done

/-- The index of the default block. -/
def Cases.default? : Cases E S → Option Nat
  | .nil => none
  | .cons none _ _ => some 0
  | .cons (some _) _ rest => rest.default?.map (· + 1)

/-- The labels are evaluated in order up to the first that equals the subject: the events, the
store after them, and the index of that block. -/
def Cases.select (v : V) : Cases E S → σ → List (Event E S) × σ × Option Nat
  | .nil, s => ([], s, none)
  | .cons none _ rest, s =>
    let r := rest.select v s
    (r.1, r.2.1, r.2.2.map (· + 1))
  | .cons (some e) _ rest, s =>
    let w := sem.eval e s
    if sem.truthy (sem.equal w.1 v) then ([.eval e], w.2, some 0)
    else
      let r := rest.select v w.2
      (.eval e :: r.1, r.2.1, r.2.2.map (· + 1))

mutual
/-- A statement, where every loop may take `fuel` turns each time it is entered. -/
def Stmt.run (fuel : Nat) : Stmt E S → σ → Result E S σ V
  | .empty, s => done s
  | .inst i, s => sem.simple i s
  | .block ss, s => ss.run fuel s
  | .ifThen c t, s => sem.cond c s (t.run fuel) done
  | .ifElse c t e, s => sem.cond c s (t.run fuel) (e.run fuel)
  | .whileLoop c body, s => (sem.loop (some c) none (body.run fuel) fuel s).catchBreak
  | .doWhile body c, s => (sem.doLoop c (body.run fuel) fuel s).catchBreak
  | .forLoop init c delta body, s =>
    (sem.simple? init s).andThen fun s => (sem.loop c delta (body.run fuel) fuel s).catchBreak
  | .switch subject cases, s =>
    let v := sem.eval subject s
    let chosen := cases.select sem v.1 v.2
    let r := match chosen.2.2 with
      | some k => cases.run fuel k chosen.2.1
      | none =>
        match cases.default? with
        | some k => cases.run fuel k chosen.2.1
        | none => done chosen.2.1
    (r.catchBreak).prepend (.eval subject :: chosen.1)
  | .breakStmt, s => ⟨[], s, .brk⟩
  | .continueStmt, s => ⟨[], s, .cont⟩
  | .returnStmt none, s => ⟨[], s, .ret none⟩
  | .returnStmt (some e), s => ⟨[.eval e], (sem.eval e s).2, .ret (some (sem.eval e s).1)⟩

def Stmts.run (fuel : Nat) : Stmts E S → σ → Result E S σ V
  | .nil, s => done s
  | .cons t ss, s => (t.run fuel s).andThen (ss.run fuel)

/-- The blocks from index `k` on. -/
def Cases.run (fuel : Nat) : Cases E S → Nat → σ → Result E S σ V
  | .nil, _, s => done s
  | .cons _ ss rest, 0, s => (ss.run fuel s).andThen (rest.run fuel 0)
  | .cons _ _ rest, k + 1, s => rest.run fuel k s
end

/-- A function body; a `break` outside of loops and switches ends the function. -/
def Stmt.runFunction (body : Stmt E S) (s : σ) (fuel : Nat) :
    List (Event E S) × Option (σ × Option V) :=
  let r := body.run sem fuel s
  (r.trace, match r.outcome with
    | .normal | .brk => some (r.store, none)
    | .ret v => some (r.store, v)
    | .cont | .timeout => none)

end Meaning

/-! ## Nodes -/

/-- When a jump is taken. -/
inductive JumpOp where
  | jump | jumpOnFalse | jumpOnTrue
  deriving DecidableEq, Repr

/-- The nodes of a function.  A node that may be a jump location has an identity. -/
inductive Node (E S : Type) where
  | createLocalVariables
  | label (id : Nat)
  | end_ (id : Nat)
  | return_
  | expr (e : E)
  | inst (s : S)
  | evalLocalVariableRefCached (var : Nat)
  | setVariableField
  | evalLocalVariableCached (var : Nat)
  | equal
  | jump (location : Nat) (op : JumpOp)

def Node.id? : Node E S → Option Nat
  | .label id => some id
  | .end_ id => some id
  | _ => none

/-- The state of a thread in a function.  `temps` are the variables that the compiler registers for
itself, which no expression names; `field` is the last reference. -/
structure Config (σ V : Type) where
  pc : Nat
  store : σ
  temps : Nat → Option V
  field : Nat
  stack : List V
  halted : Option (Option V)

/-- The index of a jump location. -/
def target (code : List (Node E S)) (id : Nat) : Nat :=
  code.findIdx (fun n => n.id? == some id)

def jumpTo (code : List (Node E S)) (c : Config σ V) (taken : Bool) (id : Nat) (stack : List V) :
    Config σ V :=
  { c with pc := if taken then target code id else c.pc + 1, stack := stack }

/-- One node. -/
def execNode (sem : Sem E S σ V) (code : List (Node E S)) (c : Config σ V) :
    Node E S → Option (List (Event E S) × Config σ V)
  | .createLocalVariables => some ([], { c with pc := c.pc + 1 })
  | .label _ => some ([], { c with pc := c.pc + 1 })
  | .end_ _ => some ([], { c with halted := some none })
  | .return_ =>
    match c.stack with
    | [] => none
    | v :: stack => some ([], { c with stack := stack, halted := some (some v) })
  | .expr e =>
    let v := sem.eval e c.store
    some ([.eval e], { c with pc := c.pc + 1, store := v.2, stack := v.1 :: c.stack })
  | .inst s => some ([.exec s], { c with pc := c.pc + 1, store := sem.exec s c.store })
  | .evalLocalVariableRefCached var => some ([], { c with pc := c.pc + 1, field := var })
  | .setVariableField =>
    match c.stack with
    | [] => none
    | v :: stack =>
      some ([], { c with
        pc := c.pc + 1
        stack := stack
        temps := fun i => if i = c.field then some v else c.temps i })
  | .evalLocalVariableCached var =>
    (c.temps var).map fun v => ([], { c with pc := c.pc + 1, stack := v :: c.stack })
  | .equal =>
    match c.stack with
    | b :: a :: stack =>
      some ([], { c with pc := c.pc + 1, stack := sem.equal a b :: stack })
    | _ => none
  | .jump id .jump => some ([], jumpTo code c true id c.stack)
  | .jump id .jumpOnFalse =>
    match c.stack with
    | [] => none
    | v :: stack => some ([], jumpTo code c (!sem.truthy v) id stack)
  | .jump id .jumpOnTrue =>
    match c.stack with
    | [] => none
    | v :: stack => some ([], jumpTo code c (sem.truthy v) id stack)

/-- A step of the machine; it stops when it has halted. -/
def step (sem : Sem E S σ V) (code : List (Node E S)) (c : Config σ V) :
    Option (List (Event E S) × Config σ V) :=
  if c.halted.isSome then none else code[c.pc]?.bind (execNode sem code c)

/-! ## The parser -/

/-- The part of `FunctionObject` that statements use; `next` is the identity of the next node. -/
structure FunctionState (E S : Type) where
  nodes : List (Node E S)
  next : Nat
  rndVarStart : Nat
  jumpBreak : List Nat
  jumpContinue : List Nat

namespace FunctionState

variable (f : FunctionState E S)

def newNode : Nat × FunctionState E S := (f.next, { f with next := f.next + 1 })

def registerVarRnd : Nat × FunctionState E S :=
  (f.rndVarStart, { f with rndVarStart := f.rndVarStart + 1 })

def addNode (n : Node E S) : FunctionState E S := { f with nodes := f.nodes ++ [n] }

def peekBreakNode : Option Nat := f.jumpBreak.head?

def peekContinueNode : Option Nat := f.jumpContinue.head?

def pushBreakNode (n : Nat) : FunctionState E S := { f with jumpBreak := n :: f.jumpBreak }

def popBreakNode : FunctionState E S := { f with jumpBreak := f.jumpBreak.tail }

def pushContinueNode (n : Nat) : FunctionState E S :=
  { f with jumpContinue := n :: f.jumpContinue }

def popContinueNode : FunctionState E S := { f with jumpContinue := f.jumpContinue.tail }

/-- An optional expression of a `for`. -/
def addInst? (i : Option S) : FunctionState E S :=
  match i with
  | none => f
  | some i => f.addNode (.inst i)

/-- An optional condition of a `for`. -/
def addCond? (c : Option E) (loopBreak : Nat) : FunctionState E S :=
  match c with
  | none => f
  | some c => (f.addNode (.expr c)).addNode (.jump loopBreak .jumpOnFalse)

end FunctionState

/-- The tests of a switch: the jump location of each block, and the one of the default. -/
def parseTests (var : Nat) : Cases E S → Option Nat → FunctionState E S →
    Option (List Nat × Option Nat × FunctionState E S)
  | .nil, defaultCase, f => some ([], defaultCase, f)
  | .cons (some e) _ rest, defaultCase, f => do
    let (jmpNode, f) := f.newNode
    let f := f.addNode (.expr e)
    let f := f.addNode (.evalLocalVariableCached var)
    let f := f.addNode .equal
    let f := f.addNode (.jump jmpNode .jumpOnTrue)
    let (jmpTable, defaultCase, f) ← parseTests var rest defaultCase f
    some (jmpNode :: jmpTable, defaultCase, f)
  | .cons none _ rest, defaultCase, f =>
    match defaultCase with
    | some _ => none
    | none => do
      let (jmpNode, f) := f.newNode
      let (jmpTable, defaultCase, f) ← parseTests var rest (some jmpNode) f
      some (jmpNode :: jmpTable, defaultCase, f)

mutual
/-- `ParseExpressionNode` on statements. -/
def parseStmt : Stmt E S → FunctionState E S → Option (FunctionState E S)
  | .empty, f => some f
  | .inst s, f => some (f.addNode (.inst s))
  | .block ss, f => parseStmts ss f
  | .ifThen c t, f => do
    let (elseStart, f) := f.newNode
    let f := f.addNode (.expr c)
    let f := f.addNode (.jump elseStart .jumpOnFalse)
    let f ← parseStmt t f
    some (f.addNode (.label elseStart))
  | .ifElse c t e, f => do
    let (elseStart, f) := f.newNode
    let f := f.addNode (.expr c)
    let f := f.addNode (.jump elseStart .jumpOnFalse)
    let f ← parseStmt t f
    let (endElse, f) := f.newNode
    let f := f.addNode (.jump endElse .jump)
    let f := f.addNode (.label elseStart)
    let f ← parseStmt e f
    some (f.addNode (.label endElse))
  | .whileLoop c body, f => do
    let (loopBreak, f) := f.newNode
    let (loopContinue, f) := f.newNode
    let f := f.pushContinueNode loopContinue
    let f := f.pushBreakNode loopBreak
    let f := f.addNode (.label loopContinue)
    let f := f.addNode (.expr c)
    let f := f.addNode (.jump loopBreak .jumpOnFalse)
    let f ← parseStmt body f
    let f := f.addNode (.jump loopContinue .jump)
    let f := f.addNode (.label loopBreak)
    some f.popContinueNode.popBreakNode
  | .doWhile body c, f => do
    let (loopStart, f) := f.newNode
    let (loopBreak, f) := f.newNode
    let (loopContinue, f) := f.newNode
    let f := f.pushContinueNode loopContinue
    let f := f.pushBreakNode loopBreak
    let f := f.addNode (.label loopStart)
    let f ← parseStmt body f
    let f := f.addNode (.label loopContinue)
    let f := f.addNode (.expr c)
    let f := f.addNode (.jump loopStart .jumpOnTrue)
    let f := f.addNode (.label loopBreak)
    some f.popContinueNode.popBreakNode
  | .forLoop init c delta body, f => do
    let f := f.addInst? init
    let (loopStart, f) := f.newNode
    let (loopBreak, f) := f.newNode
    let (loopContinue, f) := f.newNode
    let f := f.addNode (.label loopStart)
    let f := f.addCond? c loopBreak
    let f := f.pushContinueNode loopContinue
    let f := f.pushBreakNode loopBreak
    let f ← parseStmt body f
    let f := f.popContinueNode.popBreakNode
    let f := f.addNode (.label loopContinue)
    let f := f.addInst? delta
    let f := f.addNode (.jump loopStart .jump)
    some (f.addNode (.label loopBreak))
  | .switch subject cases, f => do
    let (var, f) := f.registerVarRnd
    let f := f.addNode (.expr subject)
    let f := f.addNode (.evalLocalVariableRefCached var)
    let f := f.addNode .setVariableField
    let (jmpTable, defaultCase, f) ← parseTests var cases none f
    let (endSwitchNode, f) := f.newNode
    let f := f.pushBreakNode endSwitchNode
    let f := f.addNode (.jump (defaultCase.getD endSwitchNode) .jump)
    let f ← parseCases cases jmpTable f
    let f := f.addNode (.label endSwitchNode)
    some f.popBreakNode
  | .breakStmt, f => f.peekBreakNode.map fun loc => f.addNode (.jump loc .jump)
  | .continueStmt, f => f.peekContinueNode.map fun loc => f.addNode (.jump loc .jump)
  | .returnStmt none, f => some (f.newNode.2.addNode (.end_ f.newNode.1))
  | .returnStmt (some e), f => some ((f.addNode (.expr e)).addNode .return_)

def parseStmts : Stmts E S → FunctionState E S → Option (FunctionState E S)
  | .nil, f => some f
  | .cons s ss, f => do parseStmts ss (← parseStmt s f)

/-- The blocks of a switch, each after its jump location. -/
def parseCases : Cases E S → List Nat → FunctionState E S → Option (FunctionState E S)
  | .cons _ ss rest, jmpNode :: jmpTable, f => do
    let f := f.addNode (.label jmpNode)
    let f ← parseStmts ss f
    parseCases rest jmpTable f
  | _, _, f => some f
end

/-- The end of `ParseFunction`: the nodes of a function with the given body. -/
def parseFunction (body : Stmt E S) : Option (List (Node E S)) := do
  let f : FunctionState E S := ⟨[], 0, 0, [], []⟩
  let (endNode, f) := f.newNode
  let f := f.pushBreakNode endNode
  let f ← parseStmt body f
  let f := f.popBreakNode
  let f := f.addNode (.end_ endNode)
  some (.createLocalVariables :: f.nodes)

end Acts.Gsc
