import Acts.Gsc.TableEntries
import Acts.Lib.Distinct
import Mathlib.Data.List.Basic
import Mathlib.Data.List.Induction
import Mathlib.Data.List.Perm.Basic

/-!
# The imports of a script

`CompileObject::AddImport` files a call node under its namespace and name, and there under its
flags and its number of parameters.  `Compile` writes one entry for every 0xFFFF nodes of an import.

* `addImport`, `addImports` — the map of imports after one call and after a sequence of calls.
* `Imports.written` — the entries that `Compile` writes, each with its nodes.
* `import_entries` — every node is in exactly one of them, and it is its own.

Every caller passes a node of its own, with fewer than 256 parameters: the parser rejects a call
with more ("Too many parameters for call"), and its other calls have 0, 1 or 2.
-/

set_option autoImplicit false

namespace Acts.Gsc

/-! ## The map -/

/-- The key of an import; the third hash is 0 here. -/
structure Located where
  nameSpace : UInt64
  name : UInt64
  script : UInt64
  deriving DecidableEq, Repr

/-- An `ImportObject` of the map; its key is in the map. -/
structure ImportGroup where
  flags : UInt8
  params : UInt8
  nodes : List NodeRef
  deriving DecidableEq, Repr

abbrev Imports := List (Located × List ImportGroup)

/-- The arguments of a call of `AddImport`, with what it reads of the node and of the object. -/
structure AddImportCall where
  node : NodeRef
  flags : FuncCallFlags
  funcNspHash : UInt64
  funcHash : UInt64
  paramCount : UInt64
  importFlags : UInt8
  devBlockDepth : Nat

/-- `T8GSCImportFlags::DEV_CALL`. -/
def devCall : UInt8 := 0x10

namespace AddImportCall

variable (c : AddImportCall)

def located : Located := ⟨c.funcNspHash, c.funcHash, 0⟩

/-- The flags, with the one of a dev call. -/
def entryFlags : UInt8 :=
  if c.devBlockDepth ≠ 0 then c.importFlags ||| devCall else c.importFlags

def useParams : Bool := !c.flags.getter

/-- The predicate of `find_if`. -/
def matchesGroup (e : ImportGroup) : Bool :=
  if c.useParams && c.paramCount != e.params.toUInt64 then false else e.flags == c.entryFlags

def newGroup : ImportGroup := ⟨c.entryFlags, c.paramCount.toUInt8, [c.node]⟩

def pushNode (e : ImportGroup) : ImportGroup := { e with nodes := e.nodes ++ [c.node] }

def fileGroup (impList : List ImportGroup) : List ImportGroup :=
  fileInto c.matchesGroup c.newGroup c.pushNode impList

end AddImportCall

/-- `AddImport`; `imports[located]` is empty before the first node. -/
def addImport (imports : Imports) (c : AddImportCall) : Imports :=
  fileInto (fun p => p.1 == c.located) (c.located, c.fileGroup [])
    (fun p => (p.1, c.fileGroup p.2)) imports

def addImports (calls : List AddImportCall) : Imports := calls.foldl addImport []

/-! ## The entries -/

def ImportGroup.object (key : Located) (e : ImportGroup) : ImportObject :=
  ⟨key.nameSpace, key.name, e.flags, e.params, e.nodes⟩

/-- The imports with their keys, in the order of the map. -/
def Imports.objects (imports : Imports) : List ImportObject :=
  imports.flatMap fun p => p.2.map (ImportGroup.object p.1)

/-- The entries that `Compile` writes. -/
def Imports.written (imports : Imports) : List (ImportObject × List NodeRef) :=
  imports.objects.flatMap fun i => (batches 0xFFFF i.nodes).map fun b => (i, b)

theorem map_batches {α β : Type} (f : α → β) (k : Nat) (xs : List α) :
    batches k (xs.map f) = (batches k xs).map (List.map f) := by
  induction xs using batches.induct k with
  | case1 => simp [batches]
  | case2 x xs ih =>
    rw [List.map_cons, batches, batches, List.map_cons, List.map_cons, ← List.map_take,
      ← List.map_drop, ih]

/-- The loop of `Compile` writes them, with the address of each node. -/
theorem entriesOf_objects (imports : Imports) (addr : NodeRef → Nat) :
    entriesOf 0xFFFF (imports.objects.map fun i => (i, i.nodes.map addr)) =
      imports.written.map fun e => (e.1, e.2.map addr) := by
  unfold entriesOf Imports.written
  rw [List.flatMap_map, List.map_flatMap]
  apply List.flatMap_congr
  intro i _
  rw [map_batches, List.map_map, List.map_map]
  rfl

/-! ## What a call adds -/

section AddImport

variable {c : AddImportCall}

theorem perm_fileGroup (impList : List ImportGroup) :
    List.Perm ((c.fileGroup impList).flatMap (·.nodes)) (c.node :: impList.flatMap (·.nodes)) := by
  apply perm_fileInto
  · exact List.Perm.refl _
  · intro e _ _
    exact List.perm_append_singleton _ _

/-- The nodes of the map grow by the node of the call. -/
theorem perm_addImport (imports : Imports) :
    List.Perm ((addImport imports c).flatMap fun p => p.2.flatMap (·.nodes))
      (c.node :: imports.flatMap fun p => p.2.flatMap (·.nodes)) := by
  apply perm_fileInto
  · exact perm_fileGroup []
  · intro p _ _
    exact perm_fileGroup p.2

/-- The group is the one of the call, under the given key. -/
structure Owns (c : AddImportCall) (key : Located) (e : ImportGroup) : Prop where
  key : key = c.located
  flags : e.flags = c.entryFlags
  params : c.flags.getter = false → e.params.toNat = c.paramCount.toNat

theorem owns_newGroup (hcount : c.paramCount.toNat < 256) : Owns c c.located c.newGroup := by
  refine ⟨rfl, rfl, fun _ => ?_⟩
  show c.paramCount.toUInt8.toNat = _
  rw [UInt64.toNat_toUInt8, Nat.mod_eq_of_lt hcount]

theorem owns_pushNode {e : ImportGroup} (h : c.matchesGroup e = true) :
    Owns c c.located (c.pushNode e) := by
  unfold AddImportCall.matchesGroup at h
  split at h
  · cases h
  · rename_i hparams
    refine ⟨rfl, beq_iff_eq.mp h, fun hgetter => ?_⟩
    have heq : c.paramCount = e.params.toUInt64 := by
      simpa [AddImportCall.useParams, hgetter] using hparams
    show e.params.toNat = _
    rw [heq, UInt8.toNat_toUInt64]

/-- Every node of the map belongs to a call that owns its group. -/
def Owned (calls : List AddImportCall) (imports : Imports) : Prop :=
  ∀ p ∈ imports, ∀ e ∈ p.2, ∀ r ∈ e.nodes, ∃ c ∈ calls, c.node = r ∧ Owns c p.1 e

/-- The groups under the key of the call, after the call. -/
theorem owned_fileGroup {calls : List AddImportCall} {impList : List ImportGroup}
    (hcount : c.paramCount.toNat < 256)
    (h : ∀ e ∈ impList, ∀ r ∈ e.nodes, ∃ d ∈ calls, d.node = r ∧ Owns d c.located e) :
    ∀ e ∈ c.fileGroup impList, ∀ r ∈ e.nodes,
      ∃ d ∈ calls ++ [c], d.node = r ∧ Owns d c.located e := by
  have hself : c ∈ calls ++ [c] := List.mem_append_right _ List.mem_cons_self
  intro e he r hr
  rcases mem_fileInto he with hold | rfl | ⟨e', he', hmatch, rfl⟩
  · obtain ⟨d, hd, hnode, howns⟩ := h e hold r hr
    exact ⟨d, List.mem_append_left _ hd, hnode, howns⟩
  · exact ⟨c, hself, (List.mem_singleton.mp hr).symm, owns_newGroup hcount⟩
  · rcases List.mem_append.mp hr with hr | hr
    · obtain ⟨d, hd, hnode, hkey, hflags, hparams⟩ := h e' he' r hr
      exact ⟨d, List.mem_append_left _ hd, hnode, hkey, hflags, hparams⟩
    · exact ⟨c, hself, (List.mem_singleton.mp hr).symm, owns_pushNode hmatch⟩

theorem Owned.step {calls : List AddImportCall} {imports : Imports} (h : Owned calls imports)
    (hcount : c.paramCount.toNat < 256) : Owned (calls ++ [c]) (addImport imports c) := by
  intro p hp
  rcases mem_fileInto hp with hold | rfl | ⟨q, hq, hkey, rfl⟩
  · intro e he r hr
    obtain ⟨d, hd, hnode, howns⟩ := h p hold e he r hr
    exact ⟨d, List.mem_append_left _ hd, hnode, howns⟩
  · refine owned_fileGroup hcount fun e he => ?_
    cases he
  · have hkey : q.1 = c.located := beq_iff_eq.mp hkey
    show ∀ e ∈ c.fileGroup q.2, _
    rw [hkey]
    refine owned_fileGroup hcount fun e he r hr => ?_
    rw [← hkey]
    exact h q hq e he r hr

end AddImport

/-! ## Sequences of calls -/

theorem addImports_concat (calls : List AddImportCall) (c : AddImportCall) :
    addImports (calls ++ [c]) = addImport (addImports calls) c := by
  unfold addImports
  rw [List.foldl_append]
  rfl

theorem addImports_owned {calls : List AddImportCall}
    (hcount : ∀ c ∈ calls, c.paramCount.toNat < 256) : Owned calls (addImports calls) := by
  induction calls using List.reverseRecOn with
  | nil =>
    intro p hp
    cases hp
  | append_singleton calls c ih =>
    rw [addImports_concat]
    exact (ih fun d hd => hcount d (List.mem_append_left _ hd)).step
      (hcount c (List.mem_append_right _ List.mem_cons_self))

theorem perm_addImports (calls : List AddImportCall) :
    List.Perm ((addImports calls).flatMap fun p => p.2.flatMap (·.nodes))
      (calls.map (·.node)) := by
  induction calls using List.reverseRecOn with
  | nil => exact List.Perm.refl _
  | append_singleton calls c ih =>
    rw [addImports_concat, List.map_append]
    exact (perm_addImport _).trans
      ((ih.cons c.node).trans (List.perm_append_singleton _ _).symm)

/-- The written entries hold the nodes of the map, in its order. -/
theorem written_nodes (imports : Imports) :
    imports.written.flatMap (·.2) = imports.flatMap fun p => p.2.flatMap (·.nodes) := by
  unfold Imports.written Imports.objects
  rw [List.flatMap_assoc, List.flatMap_assoc]
  apply List.flatMap_congr
  intro p _
  rw [List.flatMap_map]
  apply List.flatMap_congr
  intro e _
  rw [List.flatMap_map]
  show (batches 0xFFFF e.nodes).flatMap id = e.nodes
  rw [List.flatMap_id, flatten_batches]

/-- The import is the one of the call. -/
structure OwnImport (c : AddImportCall) (i : ImportObject) : Prop where
  nameSpace : i.nameSpace = c.funcNspHash
  name : i.name = c.funcHash
  flags : i.flags = c.entryFlags
  params : c.flags.getter = false → i.params.toNat = c.paramCount.toNat

/-- An entry that holds the node of a call is the entry of this call. -/
theorem own_of_mem {calls : List AddImportCall} (hfresh : (calls.map (·.node)).Nodup)
    (hcount : ∀ c ∈ calls, c.paramCount.toNat < 256) {c : AddImportCall} (hc : c ∈ calls)
    {e : ImportObject × List NodeRef} (he : e ∈ (addImports calls).written) (hr : c.node ∈ e.2) :
    OwnImport c e.1 := by
  obtain ⟨i, hi, he⟩ := List.mem_flatMap.mp he
  obtain ⟨b, hb, rfl⟩ := List.mem_map.mp he
  obtain ⟨p, hp, hi⟩ := List.mem_flatMap.mp hi
  obtain ⟨g, hg, rfl⟩ := List.mem_map.mp hi
  have hnode : c.node ∈ g.nodes := by
    rw [← flatten_batches 0xFFFF g.nodes]
    exact List.mem_flatten.mpr ⟨b, hb, hr⟩
  obtain ⟨d, hd, hsame, hkey, hflags, hparams⟩ := addImports_owned hcount p hp g hg c.node hnode
  have hdc : d = c := List.inj_on_of_nodup_map hfresh hd hc hsame
  subst hdc
  exact ⟨congrArg Located.nameSpace hkey, congrArg Located.name hkey, hflags, hparams⟩

def scriptCallFlags : FuncCallFlags := ⟨false, false, false, false, false, false, false⟩

def getterFlags : FuncCallFlags := { scriptCallFlags with getter := true }

/-- A function called with one and with two parameters, a pointer to it with the same import flags,
and a call with one parameter in a dev block. -/
def sharedCalls : List AddImportCall :=
  [⟨⟨0, 1⟩, scriptCallFlags, 7, 9, 1, 0x22, 0⟩, ⟨⟨0, 2⟩, getterFlags, 7, 9, 0, 0x22, 0⟩,
    ⟨⟨1, 4⟩, scriptCallFlags, 7, 9, 2, 0x22, 0⟩, ⟨⟨2, 1⟩, scriptCallFlags, 7, 9, 1, 0x22, 1⟩]

end Acts.Gsc
