import Acts.Gsc.Handler

/-!
# The link tables of a compiled script

`CompileObject::Compile` from the exports to the header:

* `Script` — what the parser and the link of the calls leave: the functions, and the nodes that are
  registered under each string, anim tree, anim, global variable and import.
* `AscmNode.getDataFLoc`, `FunctionCall.getFLoc` — the address that a table lists for a node.
* `writeEntries` — the loop that all tables share; `compile` — the emission.
* `readTable`, `uses` — the tables, read back from the counts of the header.

The header is kept apart from the output.  `base` is the output before the exports, `detours` what is
written between the imports and the dev strings.
-/

set_option autoImplicit false

namespace Acts.Gsc

/-! ## Scripts -/

/-- `OPCODE_IW_GetAnimation`. -/
def OPCode.iwGetAnimation : OPCode := .other 169

/-- `OPCODE_IW_GetAnimationTree`. -/
def OPCode.iwGetAnimationTree : OPCode := .other 170

/-- A node: the function, in the order of emission, and its place there. -/
structure NodeRef where
  fn : Nat
  idx : Nat
  deriving DecidableEq, Repr

/-- `debugLocation` is where the debug file has the text of a dev string. -/
structure StringObject where
  key : List UInt8
  devString : Bool
  forceLen : Nat
  debugLocation : Nat
  nodes : List NodeRef

structure AnimObject where
  name : List UInt8
  anim : List NodeRef

structure AnimTreeObject where
  name : List UInt8
  animtree : List NodeRef
  anims : List AnimObject

/-- The nodes of a tree, in the order of a `T7GscAnimTree`. -/
def AnimTreeObject.nodes (t : AnimTreeObject) : List NodeRef :=
  t.animtree ++ t.anims.flatMap AnimObject.anim

/-- `name` is the field hash of the variable. -/
structure GlobalVarObject where
  name : Nat
  nodes : List NodeRef

/-- `ImportObject`, with its key. -/
structure ImportObject where
  nameSpace : UInt64
  name : UInt64
  flags : UInt8
  params : UInt8
  nodes : List NodeRef

/-- A function with `m_allocatedVar`. -/
structure Export where
  function : FunctionObject
  allocatedVar : Nat

/-- A target with the opcodes of a platform. -/
structure Compiler where
  target : Target
  ctx : Ctx
  registered : target ∈ registeredTargets
  vm_eq : ctx.vm = target.vm

def Compiler.ctxOf (k : Compiler) (e : Export) : Ctx := { k.ctx with lvars := e.allocatedVar }

def nodeOf (exports : List Export) (r : NodeRef) : Option AscmNode := do
  (← exports[r.fn]?).function.nodes[r.idx]?

/-- A parsed and linked script.  The fields after the maps say which nodes the parser registers. -/
structure Script (k : Compiler) where
  exports : List Export
  strings : List StringObject
  animtrees : List AnimTreeObject
  globals : List GlobalVarObject
  imports : List ImportObject
  string_node : ∀ o ∈ strings, ∀ r ∈ o.nodes, ∃ val op, nodeOf exports r = some (.data .w4 val op)
  animtree_node : ∀ t ∈ animtrees, ∀ r ∈ t.animtree, ∃ val,
    nodeOf exports r = some (if k.target.animtreeT7 then .data .w4 val .getInteger
      else .data .w1 val .iwGetAnimationTree)
  anim_node : ∀ t ∈ animtrees, ∀ a ∈ t.anims, ∀ r ∈ a.anim, ∃ val,
    nodeOf exports r = some (.data .w8 val .iwGetAnimation)
  global_node : ∀ g ∈ globals, k.target.handler.global = true ∧
    ∀ r ∈ g.nodes, ∃ op, nodeOf exports r = some (.globalVariable op)
  import_node : ∀ i ∈ imports, ∀ r ∈ i.nodes, ∃ call,
    nodeOf exports r = some (.functionCall call) ∧ call.flags.pointer = false ∧
      callType k.target.handler call.opcode = some (i.flags &&& 0xF)

/-! ## Addresses -/

/-- `GetDataFLoc`; the classes without an operand throw. -/
def AscmNode.getDataFLoc (c : Ctx) (floc : Nat) (n : AscmNode) : Option Nat :=
  let before (w : Nat) : Option Nat :=
    (n.shiftSize c c.hasAlign floc).map fun next => (next + 2 ^ 32 - w) % 2 ^ 32
  match n with
  | .data w _ _ => before w.bytes
  | .hash _ _ w => before w.bytes
  | .globalVariable _ => before 2
  | _ => none

/-- `AscmNodeFunctionCall::GetFLoc`. -/
def FunctionCall.getFLoc (c : Ctx) (floc : Nat) (n : FunctionCall) : Nat :=
  if c.vm.hasFlag .align then floc % 2 ^ 32
  else if (n.opcode = .callBuiltinFunction ∨ n.opcode = .callBuiltinMethod) ∧
      c.vm.hasFlag .iwCalls then (floc + 2) % 2 ^ 32
  else (floc + 1) % 2 ^ 32

/-- A function in the output: the bytes before it, and the locations of its nodes. -/
structure Emitted where
  data : List UInt8
  locs : List Loc

/-- `writeExport` for each function. -/
def writeExports (k : Compiler) : List Export → List UInt8 →
    Option (List Emitted × List UInt8)
  | [], data => some ([], data)
  | e :: es, data => do
    let data := padTo 16 data ++ List.replicate 8 0
    let (locs, out) ← e.function.emit (k.ctxOf e) data
    let (emitted, out) ← writeExports k es out
    some (⟨data, locs⟩ :: emitted, out)

/-- `floc`. -/
def flocOf (emitted : List Emitted) (r : NodeRef) : Option Nat := do
  some (← (← emitted[r.fn]?).locs[r.idx]?).floc

namespace Script

variable {k : Compiler} (s : Script k)

def dataFLoc (emitted : List Emitted) (r : NodeRef) : Option Nat := do
  let n ← nodeOf s.exports r
  n.getDataFLoc k.ctx (← flocOf emitted r)

def importFLoc (emitted : List Emitted) (r : NodeRef) : Option Nat := do
  match ← nodeOf s.exports r with
  | .functionCall call => some (call.getFLoc k.ctx (← flocOf emitted r))
  | _ => none

end Script

/-! ## Writing a table -/

/-- The loop over the nodes of one object: an entry before every `limit` addresses.  `w` counts the
written addresses, and the state is the output with the number of entries. -/
def writeEntries (limit : Nat) (entry : Nat → List UInt8) :
    Nat → List Nat → List UInt8 × Nat → List UInt8 × Nat
  | _, [], s => s
  | w, x :: xs, (data, count) =>
    let left := (x :: xs).length
    let (data, count) :=
      if w % limit = 0 then (data ++ entry (if left > limit then limit else left), count + 1)
      else (data, count)
    writeEntries limit entry (w + 1) xs (data ++ leBytes 4 x, count)

/-- The objects of a table. -/
def writeObjects {ι : Type} (limit : Nat) (entry : ι → Nat → List UInt8) :
    List (ι × List Nat) → List UInt8 × Nat → List UInt8 × Nat
  | [], s => s
  | (i, xs) :: objects, s => writeObjects limit entry objects (writeEntries limit (entry i) 0 xs s)

/-- Where a header has a table. -/
structure TableRef where
  offset : Nat
  count : Nat
  deriving DecidableEq, Repr

/-- A table at the end of the output; `setCount` is the setter of the header. -/
def writeTable {ι : Type} (limit : Nat) (entry : ι → Nat → List UInt8) (setCount : Nat → Nat)
    (objects : List (ι × List Nat)) (data : List UInt8) : TableRef × List UInt8 :=
  let (out, count) := writeObjects limit entry objects (data, 0)
  (⟨data.length % 2 ^ 32, setCount count⟩, out)

def addressCodec : Codec Nat := .word 4

def stringTable : Codec (StringItem × List Nat) :=
  .counted stringCodec StringItem.numAddress addressCodec

def useAnimTreeTable : Codec (UseAnimTreeItem × List Nat) :=
  .counted useAnimTreeCodec UseAnimTreeItem.numAddress addressCodec

def animTreeTable : Codec (AnimTreeItem × List Nat) :=
  .counted animTreeCodec AnimTreeItem.numAddress addressCodec

def gvarTable : Codec (GVarItem × List Nat) :=
  .counted gvarCodec GVarItem.numAddress addressCodec

def importTable (wide : Bool) : Codec (ImportItem × List Nat) :=
  .counted (importCodec wide) ImportItem.numAddress addressCodec

/-- The location of an anim with the address that uses it. -/
def t7NodeCodec : Codec (Nat × Nat) :=
  .record [8, 8] (fun p => [p.1, p.2]) (fun vs => (vs.getD 0 0, vs.getD 1 0)) (fun _ => rfl)

def t7AnimTable : Codec ((T7AnimTreeItem × List Nat) × List (Nat × Nat)) :=
  .counted (.counted t7AnimTreeCodec T7AnimTreeItem.numTreeAddress addressCodec)
    (fun t => t.1.numNodeAddress) t7NodeCodec

/-! ## The texts -/

/-- A text with its header, and `forceLen` bytes at least. -/
def stringText (h : GSCOBJHandler) (key : List UInt8) (forceLen : Nat) : List UInt8 :=
  h.stringHeader key.length ++ key ++ [0] ++ List.replicate (forceLen - key.length) 0

/-- Texts with their locations. -/
def writeTexts : List (List UInt8) → List UInt8 → List Nat × List UInt8
  | [], data => ([], data)
  | t :: ts, data =>
    let (locs, out) := writeTexts ts (data ++ t)
    (data.length % 2 ^ 32 :: locs, out)

/-- The names of the anim trees with those of their anims. -/
def writeAnimTexts (h : GSCOBJHandler) :
    List AnimTreeObject → List UInt8 → List (Nat × List Nat) × List UInt8
  | [], data => ([], data)
  | t :: ts, data =>
    let (locs, out) := writeTexts (t.anims.map fun a => stringText h a.name 0)
      (data ++ stringText h t.name 0)
    let (rest, out) := writeAnimTexts h ts out
    ((data.length % 2 ^ 32, locs) :: rest, out)

/-! ## Compilation -/

/-- The addresses of a tree: its own, and those of each of its anims. -/
structure TreeAddresses where
  animtree : List Nat
  anims : List (List Nat)

/-- The addresses that the tables list. -/
structure Addresses where
  strings : List (List Nat)
  devStrings : List (List Nat)
  animtrees : List TreeAddresses
  globals : List (List Nat)
  imports : List (List Nat)

namespace Script

variable {k : Compiler} (s : Script k)

def plainStrings : List StringObject := s.strings.filter fun o => !o.devString

def devStrings : List StringObject := s.strings.filter fun o => o.devString

def treeAddresses (emitted : List Emitted) (t : AnimTreeObject) : Option TreeAddresses := do
  let animtree ← t.animtree.mapM (s.dataFLoc emitted)
  let anims ← t.anims.mapM fun a => a.anim.mapM (s.dataFLoc emitted)
  some ⟨animtree, anims⟩

def addresses (emitted : List Emitted) : Option Addresses := do
  let strings ← s.plainStrings.mapM fun o => o.nodes.mapM (s.dataFLoc emitted)
  let devStrings ← s.devStrings.mapM fun o => o.nodes.mapM (s.dataFLoc emitted)
  let animtrees ← s.animtrees.mapM (s.treeAddresses emitted)
  let globals ← s.globals.mapM fun g => g.nodes.mapM (s.dataFLoc emitted)
  let imports ← s.imports.mapM fun i => i.nodes.mapM (s.importFLoc emitted)
  some ⟨strings, devStrings, animtrees, globals, imports⟩

end Script

def stringEntry (location n : Nat) : List UInt8 := stringCodec.write ⟨location, n, 0⟩

/-- The classes without the anim tables of the `IW` machines write no entry. -/
def GSCOBJHandler.writesAnimTrees : GSCOBJHandler → Bool
  | .actsF1 | .mw23 | .mw23b | .t10 | .t1116 => true
  | _ => false

def useAnimTreeEntry (h : GSCOBJHandler) (location n : Nat) : List UInt8 :=
  if h.writesAnimTrees then useAnimTreeCodec.write ⟨n, location⟩ else []

def animTreeEntry (h : GSCOBJHandler) (locations : Nat × Nat) (n : Nat) : List UInt8 :=
  if h.writesAnimTrees then animTreeCodec.write ⟨n, locations.1, locations.2⟩ else []

def gvarEntry (g : GlobalVarObject) (n : Nat) : List UInt8 := gvarCodec.write ⟨g.name % 2 ^ 32, n⟩

/-- The entry of an import, as the handler writes it. -/
def ImportObject.item (h : GSCOBJHandler) (i : ImportObject) (n : Nat) : ImportItem :=
  h.importItem ⟨i.name, i.nameSpace, n, i.params, h.mapFlagsImportToInt i.flags⟩

def importEntry (h : GSCOBJHandler) (i : ImportObject) (n : Nat) : List UInt8 :=
  (importCodec h.wideImports).write (i.item h n)

/-- A tree of the `VMF_ANIMTREE_T7` machines, with the locations of its names. -/
def t7Tree (locs : Nat × List Nat) (t : TreeAddresses) :
    (T7AnimTreeItem × List Nat) × List (Nat × Nat) :=
  let nodes := (locs.2.zip t.anims).flatMap fun (loc, xs) => xs.map fun x => (loc, x)
  ((⟨locs.1, t.animtree.length, nodes.length⟩, t.animtree), nodes)

/-- The trees of the `VMF_ANIMTREE_T7` machines; too many nodes of one tree are an error. -/
def writeT7Trees : List ((Nat × List Nat) × TreeAddresses) → List UInt8 → Option (List UInt8)
  | [], data => some data
  | (locs, t) :: trees, data =>
    let tree := t7Tree locs t
    if tree.1.2.length > 0x7FFF ∨ tree.2.length > 0x7FFF then none
    else writeT7Trees trees (data ++ t7AnimTable.write tree)

/-- The tables of a header. -/
structure ObjHeader where
  strings : TableRef
  devStrings : TableRef
  gvars : TableRef
  imports : TableRef
  animSingle : TableRef
  animDouble : TableRef
  deriving DecidableEq, Repr

/-- The two anim tables. -/
def writeAnims (k : Compiler) (trees : List ((Nat × List Nat) × TreeAddresses))
    (data : List UInt8) : Option ((TableRef × TableRef) × List UInt8) :=
  let h := k.target.handler
  if k.target.animtreeT7 then do
    let out ← writeT7Trees trees data
    let count ← h.setAnimTreeDoubleCount trees.length
    some ((⟨0, h.setAnimTreeSingleCount 0⟩, ⟨data.length % 2 ^ 32, count⟩), out)
  else do
    let (single, out) := writeTable 0xFF (useAnimTreeEntry h) h.setAnimTreeSingleCount
      (trees.map fun p => (p.1.1, p.2.animtree)) data
    let (final, count) := writeObjects 0xFF (animTreeEntry h)
      (trees.flatMap fun p => (p.1.2.zip p.2.anims).map fun q => ((p.1.1, q.1), q.2)) (out, 0)
    let count ← h.setAnimTreeDoubleCount count
    some ((single, ⟨out.length % 2 ^ 32, count⟩), final)

structure Compiled where
  header : ObjHeader
  data : List UInt8
  emitted : List Emitted

/-- The tables behind the exports. -/
def writeTables (k : Compiler) (s : Script k) (a : Addresses) (detours name : List UInt8)
    (data : List UInt8) : Option (ObjHeader × List UInt8) := do
  let h := k.target.handler
  let (locs, data) := writeTexts (s.plainStrings.map fun o => stringText h o.key o.forceLen) data
  let (strings, data) := writeTable 0xFF stringEntry GSCOBJHandler.setCount (locs.zip a.strings) data
  let (treeLocs, data) := writeAnimTexts h s.animtrees data
  let ((animSingle, animDouble), data) ← writeAnims k (treeLocs.zip a.animtrees) data
  let (gvars, data) := writeTable 0xFF gvarEntry h.setGVarsCount (s.globals.zip a.globals) data
  let (imports, data) := writeTable 0xFFFF (importEntry h) GSCOBJHandler.setCount
    (s.imports.zip a.imports) data
  let data := data ++ detours ++ if h.stringNames then name ++ [0] else []
  let (devStrings, data) := writeTable 0xFF stringEntry h.setDevStringsCount
    ((s.devStrings.map fun o => o.debugLocation % 2 ^ 32).zip a.devStrings) data
  some (⟨strings, devStrings, gvars, imports, animSingle, animDouble⟩, data)

/-- `CompileObject::Compile`. -/
def compile (k : Compiler) (s : Script k) (base detours name : List UInt8) : Option Compiled := do
  let (emitted, data) ← writeExports k s.exports base
  let a ← s.addresses emitted
  let (header, data) ← writeTables k s a detours name data
  some ⟨header, data, emitted⟩

/-! ## Reading the tables back -/

/-- The entries of a table, following the count of each. -/
def readTable {α : Type} (c : Codec α) (t : TableRef) (data : List UInt8) : Option (List α) :=
  (c.readMany t.count (data.drop t.offset)).map Prod.fst

/-- Every address of an entry, with the header of the entry. -/
def uses {ι : Type} (entries : List (ι × List Nat)) : List (ι × Nat) :=
  entries.flatMap fun e => e.2.map fun x => (e.1, x)

/-- Every address of the trees. -/
def t7Uses (trees : List ((T7AnimTreeItem × List Nat) × List (Nat × Nat))) : List Nat :=
  trees.flatMap fun t => t.1.2 ++ t.2.map Prod.snd

end Acts.Gsc
