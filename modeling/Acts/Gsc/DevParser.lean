import Acts.Gsc.AsmLayout
import Acts.Lib.Distinct

/-!
# Dev blocks in the parser

What the parser of the script compiler does about dev blocks, in every rule:

* `Code` — the rules that add a `DevblockBegin` or a string, and calls and functions; the nodes of all
  other rules are opaque, in the order in which they are added.
* `Parser` — the part of `CompileObject` and `FunctionObject` that they use; a node that is pointed
  to has an identity.
* `parseCode`, `parseProg`, `addNotifyCrc` — the parser and the function that `Compile` adds.
* `Grows` — **a rule adds fresh nodes, records the dev blocks among them in the table but for the
  inlined calls, and registers its strings with the nesting it is in.**

An error ends the compilation, so only texts without one are here.
-/

set_option autoImplicit false

namespace Acts.Gsc.Dev

/-! ## Scripts -/

def isDevblockBegin : AscmNode → Bool
  | .jump _ .devblockBegin => true
  | _ => false

mutual
/-- `node` is any other node, `istring` tells the two string literals apart.  A call is one whose
component is a name; `args` are all its nodes, and `expressVal` asks for its value. -/
inductive Code where
  | node (n : AscmNode) (h : isDevblockBegin n = false)
  | string (key : List UInt8) (istring : Bool)
  | devBlock (body : Codes)
  | jumpdev (location : Nat)
  | call (funcHash : UInt64) (expressVal : Bool) (args : Codes)
  | function (params : LocalVariables) (body : Codes)

inductive Codes where
  | nil
  | cons (c : Code) (cs : Codes)
end

/-- An item of a script; the nodes of a class are those of its table. -/
inductive Item where
  | devOpen
  | devClose
  | function (params : LocalVariables) (body : Codes)
  | classDef (params : LocalVariables) (body : Codes)
  | other

/-- The settings: `devCallsNames` are those of the machine. -/
structure Config where
  noDevCallInline : Bool
  devCallsNames : List UInt64

def iwGetIString : OPCode := .other 173

def iwGetLevel : OPCode := .other 208

def iwNotify : OPCode := .other 216

/-! ## The parser -/

/-- A node with its identity. -/
structure Placed where
  id : Nat
  node : AscmNode

/-- `StringObject`. -/
structure StringEntry where
  key : List UInt8
  devString : Bool
  nodes : List Nat
  deriving DecidableEq, Repr

/-- `nodes` are those of the function that is parsed. -/
structure Parser where
  next : Nat
  devBlockDepth : Nat
  devBlocks : List Nat
  strings : List StringEntry
  exports : List (List Placed)
  nodes : List Placed

/-- An object with one more node, whose flag is set as `RegisterString` does. -/
def StringEntry.register (dev : Bool) (node : Nat) (s : StringEntry) : StringEntry :=
  { s with
    devString := if s.nodes = [] then dev else if s.devString then dev else s.devString
    nodes := s.nodes ++ [node] }

/-- `RegisterString` with the node that each caller adds to the object. -/
def registerString (strings : List StringEntry) (key : List UInt8) (dev : Bool) (node : Nat) :
    List StringEntry :=
  fileInto (fun s => s.key = key) ⟨key, dev, [node]⟩ (StringEntry.register dev node) strings

namespace Parser

variable (p : Parser)

def newNode : Nat × Parser := (p.next, { p with next := p.next + 1 })

def addNode (id : Nat) (n : AscmNode) : Parser := { p with nodes := p.nodes ++ [⟨id, n⟩] }

/-- `AddNode` at the beginning. -/
def addFirst (id : Nat) (n : AscmNode) : Parser := { p with nodes := ⟨id, n⟩ :: p.nodes }

def pushDevBlock (id : Nat) : Parser := { p with devBlocks := p.devBlocks ++ [id] }

def enterDev : Parser := { p with devBlockDepth := p.devBlockDepth + 1 }

def leaveDev : Parser := { p with devBlockDepth := p.devBlockDepth - 1 }

/-- `devBlockDepth > 0`. -/
def inDev : Bool := p.devBlockDepth != 0

def addString (key : List UInt8) (op : OPCode) : Parser :=
  let (asmc, p) := p.newNode
  let p := p.addNode asmc (.data .w4 0x12345678 op)
  { p with strings := registerString p.strings key p.inDev asmc }

end Parser

/-- `hash::MASK60`. -/
def mask60 : UInt64 := 0xFFFFFFFFFFFFFFF

/-- The test for a dev call that is inlined. -/
def Config.inlines (cfg : Config) (inDev : Bool) (funcHash : UInt64) (expressVal : Bool) : Bool :=
  !cfg.noDevCallInline && !inDev && cfg.devCallsNames.contains (funcHash &&& mask60) && !expressVal

/-- The end of `ParseFunction`, where `outer` are the nodes of the function around it. -/
def endFunction (params : LocalVariables) (endNode : Nat) (outer : List Placed) (p : Parser) :
    Parser :=
  let p :=
    if p.inDev then
      let (djmp, p) := p.newNode
      (p.pushDevBlock djmp).addFirst djmp (.jump endNode .devblockBegin)
    else p
  let p := p.addNode endNode (.opCode .end_)
  let (paramNode, p) := p.newNode
  let p := p.addFirst paramNode (.createLocalVariables params)
  { p with exports := p.exports ++ [p.nodes], nodes := outer }

mutual
/-- `ParseExpressionNode`. -/
def parseCode (cfg : Config) : Code → Parser → Parser
  | .node n _, p =>
    let (id, p) := p.newNode
    p.addNode id n
  | .string key istring, p => p.addString key (if istring then iwGetIString else .getString)
  | .devBlock body, p =>
    let (endBlock, p) := p.newNode
    let (djmp, p) := p.newNode
    let p := p.pushDevBlock djmp
    let p := p.addNode djmp (.jump endBlock .devblockBegin)
    let p := (parseCodes cfg body p.enterDev).leaveDev
    p.addNode endBlock .label
  | .jumpdev location, p =>
    let (djmp, p) := p.newNode
    (p.pushDevBlock djmp).addNode djmp (.jump location .devblockBegin)
  | .call funcHash expressVal args, p =>
    if cfg.inlines p.inDev funcHash expressVal then
      let (devCallInlineEnd, p) := p.newNode
      let (djmp, p) := p.newNode
      -- the node is not recorded
      let p := p.addNode djmp (.jump devCallInlineEnd .devblockBegin)
      let p := (parseCodes cfg args p.enterDev).leaveDev
      p.addNode devCallInlineEnd .label
    else parseCodes cfg args p
  | .function params body, p =>
    let (endNode, q) := { p with nodes := [] }.newNode
    endFunction params endNode p.nodes (parseCodes cfg body q)

def parseCodes (cfg : Config) : Codes → Parser → Parser
  | .nil, p => p
  | .cons c cs, p => parseCodes cfg cs (parseCode cfg c p)
end

/-- `ParseClassDef`: the table of a class. -/
def parseClassDef (cfg : Config) (params : LocalVariables) (body : Codes) (p : Parser) : Parser :=
  let (paramNode, q) := { p with nodes := [] }.newNode
  let q := parseCodes cfg body (q.addNode paramNode (.createLocalVariables params))
  let (endNode, q) := q.newNode
  let q := q.addNode endNode (.opCode .end_)
  { q with exports := q.exports ++ [q.nodes], nodes := p.nodes }

/-- The loop of `ParseProg`; a `#/` without a `/#` is an error. -/
def parseItems (cfg : Config) : List Item → Parser → Option Parser
  | [], p => some p
  | .devOpen :: items, p => parseItems cfg items p.enterDev
  | .devClose :: items, p =>
    if p.inDev then parseItems cfg items p.leaveDev else none
  | .function params body :: items, p => parseItems cfg items (parseCode cfg (.function params body) p)
  | .classDef params body :: items, p => parseItems cfg items (parseClassDef cfg params body p)
  | .other :: items, p => parseItems cfg items p

def startParser : Parser := ⟨0, 0, [], [], [], []⟩

/-- `ParseProg`; a `/#` without a `#/` is an error. -/
def parseProg (cfg : Config) (items : List Item) : Option Parser :=
  (parseItems cfg items startParser).bind fun p => if p.inDev then none else some p

/-- The function that `Compile` adds for `GOHF_NOTIFY_CRC_STRING`, with the text of the checksum. -/
def addNotifyCrc (crcStr : List UInt8) (p : Parser) : Parser :=
  let q := { p with nodes := [] }
  let (a, q) := q.newNode
  let q := q.addNode a (.opCode .checkClearParams)
  let (b, q) := q.newNode
  let q := q.addNode b (.opCode .preScriptCall)
  let q := q.addString crcStr .getString
  let (d, q) := q.newNode
  let q := q.addNode d (.opCode iwGetLevel)
  let (e, q) := q.newNode
  let q := q.addNode e (.opCode iwNotify)
  let (f, q) := q.newNode
  let q := q.addNode f (.opCode .end_)
  { q with exports := q.exports ++ [q.nodes], nodes := p.nodes }

/-! ## What the text says -/

mutual
/-- The string literals in the order of the text, each with whether it stands in a dev block. -/
def Code.uses (cfg : Config) (inDev : Bool) : Code → List (List UInt8 × Bool)
  | .node _ _ => []
  | .string key _ => [(key, inDev)]
  | .devBlock body => body.uses cfg true
  | .jumpdev _ => []
  | .call funcHash expressVal args =>
    args.uses cfg (inDev || cfg.inlines inDev funcHash expressVal)
  | .function _ body => body.uses cfg inDev

def Codes.uses (cfg : Config) (inDev : Bool) : Codes → List (List UInt8 × Bool)
  | .nil => []
  | .cons c cs => c.uses cfg inDev ++ cs.uses cfg inDev
end

mutual
/-- The number of inlined dev calls. -/
def Code.inlined (cfg : Config) (inDev : Bool) : Code → Nat
  | .node _ _ => 0
  | .string _ _ => 0
  | .devBlock body => body.inlined cfg true
  | .jumpdev _ => 0
  | .call funcHash expressVal args =>
    if cfg.inlines inDev funcHash expressVal then args.inlined cfg true + 1
    else args.inlined cfg inDev
  | .function _ body => body.inlined cfg inDev

def Codes.inlined (cfg : Config) (inDev : Bool) : Codes → Nat
  | .nil => 0
  | .cons c cs => c.inlined cfg inDev + cs.inlined cfg inDev
end

/-- The literals of the items, inside of `depth` blocks. -/
def itemUses (cfg : Config) : Nat → List Item → List (List UInt8 × Bool)
  | _, [] => []
  | depth, .devOpen :: items => itemUses cfg (depth + 1) items
  | depth, .devClose :: items => itemUses cfg (depth - 1) items
  | depth, .function _ body :: items => body.uses cfg (depth != 0) ++ itemUses cfg depth items
  | depth, .classDef _ body :: items => body.uses cfg (depth != 0) ++ itemUses cfg depth items
  | depth, .other :: items => itemUses cfg depth items

/-- The number of inlined dev calls in the items. -/
def itemInlined (cfg : Config) : Nat → List Item → Nat
  | _, [] => 0
  | depth, .devOpen :: items => itemInlined cfg (depth + 1) items
  | depth, .devClose :: items => itemInlined cfg (depth - 1) items
  | depth, .function _ body :: items => body.inlined cfg (depth != 0) + itemInlined cfg depth items
  | depth, .classDef _ body :: items => body.inlined cfg (depth != 0) + itemInlined cfg depth items
  | depth, .other :: items => itemInlined cfg depth items

/-! ## What a rule does -/

/-- Every node so far. -/
def Parser.all (p : Parser) : List Placed := p.exports.flatten ++ p.nodes

/-- The identities of the `DevblockBegin` nodes. -/
def devNodes (nodes : List Placed) : List Nat :=
  (nodes.filter fun x => isDevblockBegin x.node).map Placed.id

/-- A registered literal with its node. -/
structure Use where
  key : List UInt8
  dev : Bool
  node : Nat
  deriving DecidableEq, Repr

/-- The registrations of literals. -/
def registerAll (uses : List Use) (strings : List StringEntry) : List StringEntry :=
  uses.foldl (fun strings u => registerString strings u.key u.dev u.node) strings

/-- From `p` to `q` the nodes `new` are added; of the `DevblockBegin` among them `recorded` go to the
table and `forgotten` do not; `uses` are registered. -/
structure Adds (p q : Parser) (new : List Placed) (recorded forgotten : List Nat)
    (uses : List Use) : Prop where
  next : p.next ≤ q.next
  depth : q.devBlockDepth = p.devBlockDepth
  nodes : q.all.Perm (p.all ++ new)
  fresh : ∀ x ∈ new, p.next ≤ x.id ∧ x.id < q.next
  nodup : (new.map Placed.id).Nodup
  devBlocks : q.devBlocks = p.devBlocks ++ recorded
  dev : (devNodes new).Perm (recorded ++ forgotten)
  strings : q.strings = registerAll uses p.strings
  placed : ∀ u ∈ uses, ∃ op, ⟨u.node, .data .w4 0x12345678 op⟩ ∈ new
  usesNodup : (uses.map Use.node).Nodup

section Adds

variable {p q r : Parser} {new new' : List Placed} {recorded recorded' forgotten forgotten' : List Nat}
variable {uses uses' : List Use}

theorem Adds.refl (p : Parser) : Adds p p [] [] [] [] where
  next := Nat.le_refl _
  depth := rfl
  nodes := by rw [List.append_nil]
  fresh := by simp
  nodup := List.nodup_nil
  devBlocks := (List.append_nil _).symm
  dev := List.Perm.refl _
  strings := rfl
  placed := by simp
  usesNodup := List.nodup_nil

theorem devNodes_append (a b : List Placed) : devNodes (a ++ b) = devNodes a ++ devNodes b := by
  simp [devNodes]

/-- Identities that lie below a bound and at or above it differ. -/
theorem nodup_of_below {a b : List Nat} {k : Nat} (ha : a.Nodup) (hb : b.Nodup)
    (hlow : ∀ i ∈ a, i < k) (hhigh : ∀ i ∈ b, k ≤ i) : (a ++ b).Nodup := by
  refine List.nodup_append.mpr ⟨ha, hb, ?_⟩
  intro i hi j hj heq
  have := hlow i hi
  have := hhigh j hj
  omega

theorem Adds.trans (h : Adds p q new recorded forgotten uses)
    (h' : Adds q r new' recorded' forgotten' uses') :
    Adds p r (new ++ new') (recorded ++ recorded') (forgotten ++ forgotten') (uses ++ uses') where
  next := Nat.le_trans h.next h'.next
  depth := h'.depth.trans h.depth
  nodes := by
    refine h'.nodes.trans ?_
    rw [← List.append_assoc]
    exact h.nodes.append_right _
  fresh := by
    intro x hx
    have hnext := h.next
    have hnext' := h'.next
    rcases List.mem_append.mp hx with hx | hx
    · have := h.fresh x hx
      omega
    · have := h'.fresh x hx
      omega
  nodup := by
    rw [List.map_append]
    refine nodup_of_below h.nodup h'.nodup (k := q.next) ?_ ?_
    · intro i hi
      obtain ⟨x, hx, rfl⟩ := List.mem_map.mp hi
      exact (h.fresh x hx).2
    · intro i hi
      obtain ⟨x, hx, rfl⟩ := List.mem_map.mp hi
      exact (h'.fresh x hx).1
  devBlocks := by rw [h'.devBlocks, h.devBlocks, List.append_assoc]
  dev := by
    rw [devNodes_append]
    refine (h.dev.append h'.dev).trans ?_
    rw [List.append_assoc, List.append_assoc]
    refine List.Perm.append_left _ ?_
    rw [← List.append_assoc, ← List.append_assoc]
    exact List.perm_append_comm.append_right _
  strings := by rw [h'.strings, h.strings, registerAll, registerAll, registerAll, List.foldl_append]
  placed := by
    intro u hu
    rcases List.mem_append.mp hu with hu | hu
    · obtain ⟨op, hmem⟩ := h.placed u hu
      exact ⟨op, List.mem_append_left _ hmem⟩
    · obtain ⟨op, hmem⟩ := h'.placed u hu
      exact ⟨op, List.mem_append_right _ hmem⟩
  usesNodup := by
    rw [List.map_append]
    refine nodup_of_below h.usesNodup h'.usesNodup (k := q.next) ?_ ?_
    · intro i hi
      obtain ⟨u, hu, rfl⟩ := List.mem_map.mp hi
      obtain ⟨op, hmem⟩ := h.placed u hu
      exact (h.fresh _ hmem).2
    · intro i hi
      obtain ⟨u, hu, rfl⟩ := List.mem_map.mp hi
      obtain ⟨op, hmem⟩ := h'.placed u hu
      exact (h'.fresh _ hmem).1

/-! ### Single nodes -/

variable {n : AscmNode}

/-- A node in front of or behind the others. -/
theorem Adds.fresh_node (hnext : q.next = p.next + 1) (hdepth : q.devBlockDepth = p.devBlockDepth)
    (hall : q.all.Perm (p.all ++ [⟨p.next, n⟩])) (hblocks : q.devBlocks = p.devBlocks ++ recorded)
    (hdev : (devNodes [⟨p.next, n⟩]).Perm (recorded ++ forgotten))
    (hstrings : q.strings = p.strings) : Adds p q [⟨p.next, n⟩] recorded forgotten [] where
  next := by omega
  depth := hdepth
  nodes := hall
  fresh := by
    intro x hx
    obtain rfl := List.mem_singleton.mp hx
    exact ⟨Nat.le_refl _, by rw [hnext]; exact Nat.lt_succ_self _⟩
  nodup := by simp
  devBlocks := hblocks
  dev := hdev
  strings := hstrings
  placed := by simp
  usesNodup := List.nodup_nil

theorem all_addNode (p : Parser) (id : Nat) (n : AscmNode) :
    (p.addNode id n).all = p.all ++ [⟨id, n⟩] := by
  simp [Parser.all, Parser.addNode]

theorem all_addFirst (p : Parser) (id : Nat) (n : AscmNode) :
    (p.addFirst id n).all.Perm (p.all ++ [⟨id, n⟩]) := by
  simp only [Parser.all, Parser.addFirst, List.append_assoc]
  exact List.Perm.append_left _ (List.perm_append_singleton _ _).symm

theorem devNodes_plain (id : Nat) (h : isDevblockBegin n = false) : devNodes [⟨id, n⟩] = [] := by
  simp [devNodes, h]

theorem devNodes_begin (id location : Nat) :
    devNodes [⟨id, .jump location .devblockBegin⟩] = [id] := rfl

theorem adds_node (p : Parser) (h : isDevblockBegin n = false) :
    Adds p (p.newNode.2.addNode p.newNode.1 n) [⟨p.next, n⟩] [] [] [] := by
  refine Adds.fresh_node rfl rfl ?_ (List.append_nil _).symm ?_ rfl
  · rw [all_addNode]
    rfl
  · rw [devNodes_plain _ h]
    rfl

theorem adds_first (p : Parser) (h : isDevblockBegin n = false) :
    Adds p (p.newNode.2.addFirst p.newNode.1 n) [⟨p.next, n⟩] [] [] [] := by
  refine Adds.fresh_node rfl rfl (all_addFirst _ _ _) (List.append_nil _).symm ?_ rfl
  rw [devNodes_plain _ h]
  rfl

/-- A `DevblockBegin` that is recorded. -/
theorem adds_recorded (p : Parser) (location : Nat) :
    Adds p ((p.newNode.2.pushDevBlock p.newNode.1).addNode p.newNode.1
      (.jump location .devblockBegin)) [⟨p.next, .jump location .devblockBegin⟩] [p.next] [] [] := by
  refine Adds.fresh_node rfl rfl ?_ rfl (List.Perm.refl _) rfl
  rw [all_addNode]
  rfl

theorem adds_recorded_first (p : Parser) (location : Nat) :
    Adds p ((p.newNode.2.pushDevBlock p.newNode.1).addFirst p.newNode.1
      (.jump location .devblockBegin)) [⟨p.next, .jump location .devblockBegin⟩] [p.next] [] [] :=
  Adds.fresh_node rfl rfl (all_addFirst _ _ _) rfl (List.Perm.refl _) rfl

/-- A `DevblockBegin` that is not. -/
theorem adds_forgotten (p : Parser) (location : Nat) :
    Adds p (p.newNode.2.addNode p.newNode.1 (.jump location .devblockBegin))
      [⟨p.next, .jump location .devblockBegin⟩] [] [p.next] [] := by
  refine Adds.fresh_node rfl rfl ?_ (List.append_nil _).symm (List.Perm.refl _) rfl
  rw [all_addNode]
  rfl

theorem adds_string (p : Parser) (key : List UInt8) (op : OPCode) :
    Adds p (p.addString key op) [⟨p.next, .data .w4 0x12345678 op⟩] [] []
      [⟨key, p.inDev, p.next⟩] where
  next := Nat.le_succ _
  depth := rfl
  nodes := by
    refine List.Perm.of_eq ?_
    simp [Parser.all, Parser.addString, Parser.newNode, Parser.addNode]
  fresh := by
    intro x hx
    obtain rfl := List.mem_singleton.mp hx
    exact ⟨Nat.le_refl _, Nat.lt_succ_self _⟩
  nodup := by simp
  devBlocks := (List.append_nil _).symm
  dev := List.Perm.refl _
  strings := rfl
  placed := by
    intro u hu
    obtain rfl := List.mem_singleton.mp hu
    exact ⟨op, List.mem_singleton.mpr rfl⟩
  usesNodup := by simp

/-! ### Blocks and functions -/

/-- A node whose identity is taken before the others and that is added after them. -/
theorem Adds.label (h : Adds p.newNode.2 q new recorded forgotten uses)
    (hn : isDevblockBegin n = false) :
    Adds p (q.addNode p.newNode.1 n) (new ++ [⟨p.next, n⟩]) recorded forgotten uses where
  next := Nat.le_trans (Nat.le_succ _) h.next
  depth := h.depth
  nodes := by
    rw [all_addNode, ← List.append_assoc]
    exact h.nodes.append_right _
  fresh := by
    intro x hx
    have hnext : p.next + 1 ≤ q.next := h.next
    have hfresh : ∀ y ∈ new, p.next + 1 ≤ y.id ∧ y.id < q.next := h.fresh
    rcases List.mem_append.mp hx with hx | hx
    · have := hfresh x hx
      exact ⟨by omega, this.2⟩
    · obtain rfl := List.mem_singleton.mp hx
      exact ⟨Nat.le_refl _, hnext⟩
  nodup := by
    have hfresh : ∀ y ∈ new, p.next + 1 ≤ y.id ∧ y.id < q.next := h.fresh
    rw [List.map_append]
    refine (List.perm_append_comm.nodup_iff).mpr ?_
    refine nodup_of_below (by simp) h.nodup (k := p.next + 1) ?_ ?_
    · intro i hi
      obtain rfl := List.mem_singleton.mp hi
      exact Nat.lt_succ_self _
    · intro i hi
      obtain ⟨x, hx, rfl⟩ := List.mem_map.mp hi
      exact (hfresh x hx).1
  devBlocks := h.devBlocks
  dev := by
    rw [devNodes_append, devNodes_plain _ hn, List.append_nil]
    exact h.dev
  strings := h.strings
  placed := by
    intro u hu
    obtain ⟨op, hmem⟩ := h.placed u hu
    exact ⟨op, List.mem_append_left _ hmem⟩
  usesNodup := h.usesNodup

theorem Adds.withDepth (h : Adds p q new recorded forgotten uses) (depth : Nat) :
    Adds { p with devBlockDepth := depth } { q with devBlockDepth := depth } new recorded forgotten
      uses where
  next := h.next
  depth := rfl
  nodes := h.nodes
  fresh := h.fresh
  nodup := h.nodup
  devBlocks := h.devBlocks
  dev := h.dev
  strings := h.strings
  placed := h.placed
  usesNodup := h.usesNodup

/-- The inside of a dev block. -/
theorem Adds.inside (h : Adds p.enterDev q new recorded forgotten uses) :
    Adds p q.leaveDev new recorded forgotten uses := by
  have hleave : q.leaveDev = { q with devBlockDepth := p.devBlockDepth } := by
    have hdepth : q.devBlockDepth = p.devBlockDepth + 1 := h.depth
    rw [Parser.leaveDev, hdepth, Nat.add_sub_cancel]
  rw [hleave]
  exact h.withDepth p.devBlockDepth

/-- The nodes of a function that is done are an export, and the function around it goes on. -/
theorem Adds.close (h : Adds { p with nodes := [] } q new recorded forgotten uses) :
    Adds p { q with exports := q.exports ++ [q.nodes], nodes := p.nodes } new recorded forgotten
      uses where
  next := h.next
  depth := h.depth
  nodes := by
    have hall : (q.exports.flatten ++ q.nodes).Perm (p.exports.flatten ++ [] ++ new) := h.nodes
    rw [List.append_nil] at hall
    have hflat : (q.exports ++ [q.nodes]).flatten = q.exports.flatten ++ q.nodes := by simp
    simp only [Parser.all, hflat]
    refine (hall.append_right _).trans ?_
    rw [List.append_assoc, List.append_assoc]
    exact List.Perm.append_left _ List.perm_append_comm
  fresh := h.fresh
  nodup := h.nodup
  devBlocks := h.devBlocks
  dev := h.dev
  strings := h.strings
  placed := h.placed
  usesNodup := h.usesNodup

end Adds

/-! ### Rules -/

/-- From `p` to `q` the literals `literals` are registered, and `inlined` dev blocks are forgotten. -/
def Grows (p q : Parser) (literals : List (List UInt8 × Bool)) (inlined : Nat) : Prop :=
  ∃ new recorded forgotten uses, Adds p q new recorded forgotten uses ∧
    uses.map (fun u => (u.key, u.dev)) = literals ∧ forgotten.length = inlined

section Grows

variable {p q r : Parser} {literals literals' : List (List UInt8 × Bool)} {k k' : Nat}

theorem Grows.trans (h : Grows p q literals k) (h' : Grows q r literals' k') :
    Grows p r (literals ++ literals') (k + k') := by
  obtain ⟨_, _, _, _, h, rfl, rfl⟩ := h
  obtain ⟨_, _, _, _, h', rfl, rfl⟩ := h'
  exact ⟨_, _, _, _, h.trans h', List.map_append, List.length_append⟩

theorem Adds.grows {new : List Placed} {recorded forgotten : List Nat}
    (h : Adds p q new recorded forgotten []) : Grows p q [] forgotten.length :=
  ⟨_, _, _, _, h, rfl, rfl⟩

/-- The start of a rule, which adds nodes only. -/
theorem Adds.andThen {new : List Placed} {recorded forgotten : List Nat}
    (h : Adds p q new recorded forgotten []) (h' : Grows q r literals k) :
    Grows p r literals (k + forgotten.length) := by
  have hall := h.grows.trans h'
  rwa [List.nil_append, Nat.add_comm] at hall

/-- The rest of a rule, which adds nodes only. -/
theorem Grows.then {new : List Placed} {recorded : List Nat} (h : Grows p q literals k)
    (h' : Adds q r new recorded [] []) : Grows p r literals k := by
  have hall := h.trans h'.grows
  rwa [List.append_nil] at hall

theorem Grows.label {n : AscmNode} (h : Grows p.newNode.2 q literals k)
    (hn : isDevblockBegin n = false) : Grows p (q.addNode p.newNode.1 n) literals k := by
  obtain ⟨_, _, _, _, h, huses, hk⟩ := h
  exact ⟨_, _, _, _, h.label hn, huses, hk⟩

theorem Grows.withDepth (h : Grows p q literals k) (depth : Nat) :
    Grows { p with devBlockDepth := depth } { q with devBlockDepth := depth } literals k := by
  obtain ⟨_, _, _, _, h, huses, hk⟩ := h
  exact ⟨_, _, _, _, h.withDepth depth, huses, hk⟩

theorem Grows.depth_eq (h : Grows p q literals k) : q.devBlockDepth = p.devBlockDepth := by
  obtain ⟨_, _, _, _, h, -, -⟩ := h
  exact h.depth

theorem Grows.inDev_eq (h : Grows p q literals k) : q.inDev = p.inDev := by
  rw [Parser.inDev, Parser.inDev, h.depth_eq]

theorem Grows.inside (h : Grows p.enterDev q literals k) : Grows p q.leaveDev literals k := by
  obtain ⟨_, _, _, _, h, huses, hk⟩ := h
  exact ⟨_, _, _, _, h.inside, huses, hk⟩

theorem Grows.close (h : Grows { p with nodes := [] } q literals k) :
    Grows p { q with exports := q.exports ++ [q.nodes], nodes := p.nodes } literals k := by
  obtain ⟨_, _, _, _, h, huses, hk⟩ := h
  exact ⟨_, _, _, _, h.close, huses, hk⟩

end Grows

theorem inDev_enterDev (p : Parser) : p.enterDev.inDev = true := by
  simp [Parser.inDev, Parser.enterDev]

/-- The end of a function records its dev block. -/
theorem endFunction_grows {p q : Parser} {params : LocalVariables}
    {literals : List (List UInt8 × Bool)} {k : Nat}
    (h : Grows ({ p with nodes := [] } : Parser).newNode.2 q literals k) :
    Grows p (endFunction params ({ p with nodes := [] } : Parser).newNode.1 p.nodes q) literals
      k := by
  unfold endFunction
  refine Grows.close ?_
  by_cases hdev : q.inDev = true
  · simp only [hdev, if_true]
    exact ((h.then (adds_recorded_first q _)).label rfl).then (adds_first _ rfl)
  · simp only [hdev, if_false, Bool.false_eq_true]
    exact (h.label rfl).then (adds_first _ rfl)

mutual
theorem parseCode_grows (cfg : Config) : (c : Code) → (p : Parser) →
    Grows p (parseCode cfg c p) (c.uses cfg p.inDev) (c.inlined cfg p.inDev)
  | .node n h, p => ⟨_, _, _, _, adds_node p h, rfl, rfl⟩
  | .string key istring, p => ⟨_, _, _, _, adds_string p key _, rfl, rfl⟩
  | .jumpdev location, p => ⟨_, _, _, _, adds_recorded p location, rfl, rfl⟩
  | .devBlock body, p => by
    rw [parseCode, Code.uses, Code.inlined]
    refine Grows.label ?_ rfl
    have hbegin := adds_recorded p.newNode.2 p.newNode.1
    have hbody := parseCodes_grows cfg body
      ((p.newNode.2.newNode.2.pushDevBlock p.newNode.2.newNode.1).addNode p.newNode.2.newNode.1
        (.jump p.newNode.1 .devblockBegin)).enterDev
    rw [inDev_enterDev] at hbody
    exact hbegin.andThen hbody.inside
  | .call funcHash expressVal args, p => by
    rw [parseCode, Code.uses, Code.inlined]
    by_cases hin : cfg.inlines p.inDev funcHash expressVal = true
    · rw [if_pos hin, if_pos hin, hin, Bool.or_true]
      refine Grows.label ?_ rfl
      have hbegin := adds_forgotten p.newNode.2 p.newNode.1
      have hbody := parseCodes_grows cfg args
        (p.newNode.2.newNode.2.addNode p.newNode.2.newNode.1
          (.jump p.newNode.1 .devblockBegin)).enterDev
      rw [inDev_enterDev] at hbody
      exact hbegin.andThen hbody.inside
    · rw [if_neg hin, if_neg hin, Bool.eq_false_iff.mpr hin, Bool.or_false]
      exact parseCodes_grows cfg args p
  | .function params body, p => by
    rw [parseCode, Code.uses, Code.inlined]
    exact endFunction_grows (parseCodes_grows cfg body ({ p with nodes := [] } : Parser).newNode.2)

theorem parseCodes_grows (cfg : Config) : (cs : Codes) → (p : Parser) →
    Grows p (parseCodes cfg cs p) (cs.uses cfg p.inDev) (cs.inlined cfg p.inDev)
  | .nil, p => ⟨_, _, _, _, Adds.refl p, rfl, rfl⟩
  | .cons c cs, p => by
    rw [parseCodes, Codes.uses, Codes.inlined]
    have hc := parseCode_grows cfg c p
    have hcs := parseCodes_grows cfg cs (parseCode cfg c p)
    rw [hc.inDev_eq] at hcs
    exact hc.trans hcs
end

theorem parseClassDef_grows (cfg : Config) (params : LocalVariables) (body : Codes) (p : Parser) :
    Grows p (parseClassDef cfg params body p) (body.uses cfg p.inDev)
      (body.inlined cfg p.inDev) := by
  have hparams := adds_node (n := .createLocalVariables params) ({ p with nodes := [] } : Parser) rfl
  have hbody := parseCodes_grows cfg body
    (({ p with nodes := [] } : Parser).newNode.2.addNode ({ p with nodes := [] } : Parser).newNode.1
      (.createLocalVariables params))
  exact ((hparams.andThen hbody).then (adds_node _ rfl)).close

/-! ### Scripts -/

/-- The parser between two items; the blocks that are open at the end are those of the items. -/
theorem parseItems_grows {cfg : Config} {items : List Item} {p q : Parser}
    (h : parseItems cfg items p = some q) :
    Grows p { q with devBlockDepth := p.devBlockDepth } (itemUses cfg p.devBlockDepth items)
      (itemInlined cfg p.devBlockDepth items) := by
  induction items generalizing p with
  | nil =>
    rw [parseItems, Option.some.injEq] at h
    subst h
    exact (Adds.refl p).grows
  | cons item items ih =>
    cases item with
    | devOpen => exact (ih h).withDepth p.devBlockDepth
    | devClose =>
      rw [parseItems] at h
      split at h
      · exact (ih h).withDepth p.devBlockDepth
      · cases h
    | function params body =>
      have hfun := parseCode_grows cfg (.function params body) p
      have hrest := ih h
      rw [hfun.depth_eq] at hrest
      exact hfun.trans hrest
    | classDef params body =>
      have hclass := parseClassDef_grows cfg params body p
      have hrest := ih h
      rw [hclass.depth_eq] at hrest
      exact hclass.trans hrest
    | other => exact ih h

/-- **The parser adds the nodes of a script, and forgets as many dev blocks as it inlines.** -/
theorem parseProg_grows {cfg : Config} {items : List Item} {q : Parser}
    (h : parseProg cfg items = some q) :
    Grows startParser q (itemUses cfg 0 items) (itemInlined cfg 0 items) := by
  obtain ⟨p, hp, h⟩ := Option.bind_eq_some_iff.mp h
  split at h
  · cases h
  · rename_i hdev
    rw [Option.some.injEq] at h
    subst h
    have hdepth : p.devBlockDepth = 0 := by simpa [Parser.inDev] using hdev
    have hgrows := parseItems_grows hp
    have hp0 : { p with devBlockDepth := startParser.devBlockDepth } = p :=
      congrArg (fun d => { p with devBlockDepth := d }) hdepth.symm
    rwa [hp0] at hgrows

/-- The function of the checksum adds one literal. -/
theorem addNotifyCrc_grows (crcStr : List UInt8) (p : Parser) :
    Grows p (addNotifyCrc crcStr p) [(crcStr, p.inDev)] 0 := by
  refine Grows.close (p := p) ?_
  have hstart := (adds_node (n := .opCode .checkClearParams) ({ p with nodes := [] } : Parser)
    rfl).trans (adds_node (n := .opCode .preScriptCall) _ rfl)
  have hstring := hstart.trans (adds_string _ crcStr .getString)
  have hgrows : Grows _ _ [(crcStr, p.inDev)] 0 := ⟨_, _, _, _, hstring, rfl, rfl⟩
  exact ((hgrows.then (adds_node _ rfl)).then (adds_node _ rfl)).then (adds_node _ rfl)

end Acts.Gsc.Dev
