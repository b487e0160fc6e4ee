import Acts.Gsc.TablesWritten

/-!
# The tables of a compiled script

* `TablesListed` — reading the tables back gives one address for each registered node, the offset of
  its operand, or, for an import, an address from which the linker reaches it.
* `Listable` — the scripts whose tables do: the header keeps the counts, and the layout and the
  numbers of the imports agree with the linker.
* `lists_iff` — one table; `tables_listed_iff` — **a compiled script is listed exactly when it is
  listable.**
* `listable_iff_of_layout` — what remains of the condition on most machines.
-/

set_option autoImplicit false

namespace Acts.Gsc

/-! ## The tables that are expected -/

section Expected

variable {k : Compiler} (s : Script k) (out : Compiled)

/-- Reading a table gives one address for each node, the offset of its operand. -/
def Lists {κ : Type} (c : Codec (κ × List Nat)) (t : TableRef) (refs : List NodeRef) : Prop :=
  ∃ es, readTable c t out.data = some es ∧
    List.Forall₂ (fun u r => OperandAt k s.exports out.emitted r u.2) (uses es) refs

/-- Reading the imports gives one address for each node, from which the linker patches the operand. -/
def ListsImports : Prop :=
  ∃ es, readTable (importTable k.target.handler.wideImports) out.header.imports out.data = some es ∧
    List.Forall₂ (fun u r => ∃ offset, k.target.patchOffset u.1.flags u.2 = some offset ∧
      OperandAt k s.exports out.emitted r offset) (uses es) (s.imports.flatMap ImportObject.nodes)

/-- Reading the trees gives one address for each of their nodes. -/
def ListsTrees : Prop :=
  ∃ ts, readTable t7AnimTable out.header.animDouble out.data = some ts ∧
    List.Forall₂ (fun x r => OperandAt k s.exports out.emitted r x) (t7Uses ts)
      (s.animtrees.flatMap AnimTreeObject.nodes)

structure TablesListed : Prop where
  strings : Lists s out stringTable out.header.strings (s.plainStrings.flatMap StringObject.nodes)
  devStrings :
    Lists s out stringTable out.header.devStrings (s.devStrings.flatMap StringObject.nodes)
  anims :
    if k.target.animtreeT7 then ListsTrees s out
    else
      Lists s out useAnimTreeTable out.header.animSingle
          (s.animtrees.flatMap AnimTreeObject.animtree) ∧
        Lists s out animTreeTable out.header.animDouble
          (s.animtrees.flatMap fun t => t.anims.flatMap AnimObject.anim)
  gvars : Lists s out gvarTable out.header.gvars (s.globals.flatMap GlobalVarObject.nodes)
  imports : ListsImports s out

end Expected

/-! ## The condition -/

namespace Script

variable {k : Compiler} (s : Script k)

/-- The nodes of all tables but the imports. -/
def dataNodes : List NodeRef :=
  s.plainStrings.flatMap StringObject.nodes ++ s.devStrings.flatMap StringObject.nodes ++
    s.animtrees.flatMap AnimTreeObject.nodes ++ s.globals.flatMap GlobalVarObject.nodes

def stringEntries : Nat := entryCount 0xFF (s.plainStrings.map StringObject.nodes)

def devStringEntries : Nat := entryCount 0xFF (s.devStrings.map StringObject.nodes)

def useAnimTreeEntries : Nat := entryCount 0xFF (s.animtrees.map AnimTreeObject.animtree)

def animTreeEntries : Nat :=
  entryCount 0xFF (s.animtrees.flatMap fun t => t.anims.map AnimObject.anim)

def gvarEntries : Nat := entryCount 0xFF (s.globals.map GlobalVarObject.nodes)

def importEntries : Nat := entryCount 0xFFFF (s.imports.map ImportObject.nodes)

/-- A count that the header keeps as it is, or the trees behind it have no nodes. -/
def keepsAnims : Prop :=
  if k.target.animtreeT7 then
    ∀ count, k.target.handler.setAnimTreeDoubleCount s.animtrees.length = some count →
      ∀ t ∈ s.animtrees.drop count, t.nodes = []
  else
    k.target.handler.setAnimTreeSingleCount s.useAnimTreeEntries = s.useAnimTreeEntries ∧
      k.target.handler.setAnimTreeDoubleCount s.animTreeEntries = some s.animTreeEntries

/-- The header keeps the number of entries of each table. -/
structure KeepsCounts : Prop where
  strings : GSCOBJHandler.setCount s.stringEntries = s.stringEntries
  devStrings : k.target.handler.setDevStringsCount s.devStringEntries = s.devStringEntries
  anims : s.keepsAnims
  gvars : k.target.handler.setGVarsCount s.gvarEntries = s.gvarEntries
  imports : GSCOBJHandler.setCount s.importEntries = s.importEntries

/-- The scripts whose tables are right. -/
structure Listable : Prop where
  counts : s.KeepsCounts
  lands : ∀ r ∈ s.dataNodes, Lands k s.exports r
  patches : ∀ i ∈ s.imports, ∀ r ∈ i.nodes, Patches k s.exports i.flags r

end Script

/-! ## Reading the tables -/

section Reading

variable {k : Compiler} {s : Script k} {base final : List UInt8} {out : Compiled}

theorem dataFLoc_lands (hw : writeExports k s.exports base = some (out.emitted, final))
    (hlen : final.length < 2 ^ 31) {r : NodeRef} {n : AscmNode} {w : Nat}
    (hn : nodeOf s.exports r = some n) (hd : ∀ c, DataNode c n w) {x : Nat}
    (hx : s.dataFLoc out.emitted r = some x) :
    OperandAt k s.exports out.emitted r x ↔ Lands k s.exports r := by
  obtain ⟨e, em, l, u, a, before, after, h⟩ := emittedNode hw hlen hn
  have haddr : n.getDataFLoc k.ctx l.floc = some x := by
    unfold Script.dataFLoc at hx
    rw [hn, Option.bind_eq_bind, Option.bind_some] at hx
    have hfloc : flocOf out.emitted r = some l.floc := by
      simp [flocOf, h.emitted, h.loc]
    rw [hfloc] at hx
    exact hx
  exact getDataFLoc_lands h hd hlen haddr

theorem importFLoc_patches (hw : writeExports k s.exports base = some (out.emitted, final))
    (hlen : final.length < 2 ^ 31) {i : ImportObject} (hi : i ∈ s.imports) {r : NodeRef}
    (hr : r ∈ i.nodes) {x : Nat} (hx : s.importFLoc out.emitted r = some x) :
    (∃ offset, k.target.patchOffset (k.target.handler.mapFlagsImportToInt i.flags) x =
        some offset ∧ OperandAt k s.exports out.emitted r offset) ↔
      Patches k s.exports i.flags r := by
  obtain ⟨call, hn, hp, hk⟩ := s.import_node i hi r hr
  obtain ⟨e, em, l, u, a, before, after, h⟩ := emittedNode hw hlen hn
  have haddr : call.getFLoc k.ctx l.floc = x := by
    unfold Script.importFLoc at hx
    rw [hn, Option.bind_eq_bind, Option.bind_some] at hx
    have hfloc : flocOf out.emitted r = some l.floc := by
      simp [flocOf, h.emitted, h.loc]
    simp only [hfloc] at hx
    exact Option.some.inj hx
  rw [← haddr]
  exact getFLoc_patches h hp hk hlen

/-- The nodes of a table of data. -/
def DataNodes {k : Compiler} (s : Script k) (refs : List NodeRef) : Prop :=
  ∀ r ∈ refs, ∃ n w, nodeOf s.exports r = some n ∧ ∀ c, DataNode c n w

/-- **One table of data.** -/
theorem lists_iff (hw : writeExports k s.exports base = some (out.emitted, final))
    (hfinal : final <+: out.data) (hlen : out.data.length < 2 ^ 31) {ι κ : Type} {limit : Nat}
    {entry : ι → Nat → List UInt8} {setCount : Nat → Nat} {objects : List (ι × List Nat)}
    {t : TableRef} {header : Codec κ} {count : κ → Nat} {refs : List (List NodeRef)}
    (item : ι → Nat → κ) (hl : 0 < limit)
    (ht : TableAt limit entry setCount objects t out.data) (hset : ∀ n, setCount n ≤ n)
    (hentry : (∀ n, setCount n = 0) ∨ ∀ i n, entry i n = header.write (item i n))
    (hfits : ∀ o ∈ objects, ∀ n ≤ limit, header.Fits (item o.1 n))
    (hcount : ∀ i n, count (item i n) = n)
    (hS : List.Forall₂ (fun o rs => AddressesOf s out.emitted o.2 rs) objects refs)
    (hnodes : DataNodes s refs.flatten) :
    Lists s out (.counted header count addressCodec) t refs.flatten ↔
      setCount (entryCount limit refs) = entryCount limit refs ∧
        ∀ r ∈ refs.flatten, Lands k s.exports r := by
  have hle := hfinal.length_le
  have haddr : ∀ o ∈ objects, ∀ x ∈ o.2, x < 2 ^ 32 := by
    clear ht hfits hnodes
    induction hS with
    | nil =>
      intro o ho
      cases ho
    | cons h _ ih =>
      intro o ho
      rcases List.mem_cons.mp ho with rfl | ho
      · exact h.lt
      · exact ih o ho
  rw [← length_entriesOf hl (hS.imp fun _ _ h => h.length_eq)]
  refine table_iff (S := fun u r => s.dataFLoc out.emitted r = some u.2) hl ht hlen hset hentry
    ⟨hfits, hcount, haddr⟩ (hS.imp fun _ _ h _ => h) ?_
  intro u r hr hx
  obtain ⟨n, w, hn, hd⟩ := hnodes r hr
  exact dataFLoc_lands hw (by omega) hn hd hx

end Reading

/-! ### The counts of the header -/

theorem setCount_le (n : Nat) : GSCOBJHandler.setCount n ≤ n := Nat.mod_le _ _

theorem setDevStringsCount_le (h : GSCOBJHandler) (n : Nat) : h.setDevStringsCount n ≤ n := by
  cases h with
  | actsF1 => exact Nat.zero_le n
  | _ => exact setCount_le n

theorem setGVarsCount_le (h : GSCOBJHandler) (n : Nat) : h.setGVarsCount n ≤ n := by
  unfold GSCOBJHandler.setGVarsCount
  split
  · exact setCount_le n
  · exact Nat.zero_le n

theorem setAnimTreeSingleCount_le (h : GSCOBJHandler) (n : Nat) :
    h.setAnimTreeSingleCount n ≤ n := by
  unfold GSCOBJHandler.setAnimTreeSingleCount
  split
  all_goals first
    | exact setCount_le n
    | exact Nat.zero_le n

theorem setAnimTreeDoubleCount_le {h : GSCOBJHandler} {n count : Nat}
    (hcount : h.setAnimTreeDoubleCount n = some count) : count ≤ n := by
  have hle := setCount_le n
  unfold GSCOBJHandler.setAnimTreeDoubleCount at hcount
  split at hcount
  all_goals first
    | cases hcount
      exact Nat.zero_le n
    | cases hcount
      exact hle
    | cases hcount
      exact Nat.le_trans (Nat.mod_le _ _) hle
    | split at hcount
      · cases hcount
      · cases hcount
        exact hle

/-- The classes without anim tables keep no count of them. -/
theorem registered_trees : ∀ t ∈ registeredTargets, t.animtreeT7 = false →
    t.handler.writesAnimTrees = false →
      t.handler = .t8 ∨ t.handler = .t937 ∨ t.handler = .t9 := by
  decide +kernel

/-! ### Each table -/

section Each

variable {k : Compiler} {s : Script k} {base final : List UInt8} {out : Compiled}
  {a : Addresses} {locs : List Nat} {treeLocs : List (Nat × List Nat)}

theorem dataNodes_strings {os : List StringObject} (hos : ∀ o ∈ os, o ∈ s.strings) :
    DataNodes s (os.map StringObject.nodes).flatten := by
  intro r hr
  obtain ⟨rs, hrs, hr⟩ := List.mem_flatten.mp hr
  obtain ⟨o, ho, rfl⟩ := List.mem_map.mp hrs
  obtain ⟨val, op, hn⟩ := s.string_node o (hos o ho) r hr
  exact ⟨_, 4, hn, fun c => dataNode_data c .w4 val op⟩

theorem dataNodes_globals : DataNodes s (s.globals.map GlobalVarObject.nodes).flatten := by
  intro r hr
  obtain ⟨rs, hrs, hr⟩ := List.mem_flatten.mp hr
  obtain ⟨g, hg, rfl⟩ := List.mem_map.mp hrs
  obtain ⟨-, hnodes⟩ := s.global_node g hg
  obtain ⟨op, hn⟩ := hnodes r hr
  exact ⟨_, 2, hn, fun c => dataNode_global c op⟩

theorem dataNode_animtree {t : AnimTreeObject} (ht : t ∈ s.animtrees) {r : NodeRef}
    (hr : r ∈ t.nodes) : ∃ n w, nodeOf s.exports r = some n ∧ ∀ c, DataNode c n w := by
  rcases List.mem_append.mp hr with hr | hr
  · obtain ⟨val, hn⟩ := s.animtree_node t ht r hr
    split at hn
    · exact ⟨_, 4, hn, fun c => dataNode_data c .w4 val _⟩
    · exact ⟨_, 1, hn, fun c => dataNode_data c .w1 val _⟩
  · obtain ⟨m, hm, hr⟩ := List.mem_flatMap.mp hr
    obtain ⟨val, hn⟩ := s.anim_node t ht m hm r hr
    exact ⟨_, 8, hn, fun c => dataNode_data c .w8 val _⟩

theorem dataNodes_trees {refs : List NodeRef}
    (h : ∀ r ∈ refs, r ∈ s.animtrees.flatMap AnimTreeObject.nodes) : DataNodes s refs := by
  intro r hr
  obtain ⟨t, ht, hr⟩ := List.mem_flatMap.mp (h r hr)
  exact dataNode_animtree ht hr

/-- Strings and dev strings. -/
theorem lists_strings (hw : writeExports k s.exports base = some (out.emitted, final))
    (hfinal : final <+: out.data) (hlen : out.data.length < 2 ^ 31) {os : List StringObject}
    (hos : ∀ o ∈ os, o ∈ s.strings) {names : List Nat} (hnames : names.length = os.length)
    (hlt : ∀ l ∈ names, l < 2 ^ 32) {xss : List (List Nat)}
    (haddr : List.Forall₂ (fun xs o => AddressesOf s out.emitted xs o.nodes) xss os)
    {setCount : Nat → Nat} (hset : ∀ n, setCount n ≤ n) {t : TableRef}
    (ht : TableAt 0xFF stringEntry setCount (names.zip xss) t out.data) :
    Lists s out stringTable t (os.flatMap StringObject.nodes) ↔
      setCount (entryCount 0xFF (os.map StringObject.nodes)) =
          entryCount 0xFF (os.map StringObject.nodes) ∧
        ∀ r ∈ os.flatMap StringObject.nodes, Lands k s.exports r := by
  have hzip : names.length = xss.length := hnames.trans haddr.length_eq.symm
  have hS : List.Forall₂ (fun o rs => AddressesOf s out.emitted o.2 rs) (names.zip xss)
      (os.map StringObject.nodes) :=
    List.forall₂_map_right_iff.mpr (forall₂_zip_right hzip haddr)
  refine lists_iff hw hfinal hlen (fun l n => ⟨l, n, 0⟩) (by decide) ht hset
    (.inr fun _ _ => rfl) ?_ (fun _ _ => rfl) hS (dataNodes_strings hos)
  intro o ho n hn
  refine ⟨hlt _ (List.of_mem_zip ho).1, ?_, Nat.zero_lt_succ _, Nat.zero_lt_succ _, trivial⟩
  show n < 256
  omega

theorem lists_gvars (hw : writeExports k s.exports base = some (out.emitted, final))
    (hfinal : final <+: out.data) (hlen : out.data.length < 2 ^ 31)
    (haddr : Addressed s out.emitted a)
    (ht : Written k s a out.header out.data locs treeLocs) :
    Lists s out gvarTable out.header.gvars (s.globals.flatMap GlobalVarObject.nodes) ↔
      k.target.handler.setGVarsCount s.gvarEntries = s.gvarEntries ∧
        ∀ r ∈ s.globals.flatMap GlobalVarObject.nodes, Lands k s.exports r := by
  have hS : List.Forall₂ (fun o rs => AddressesOf s out.emitted o.2 rs)
      (s.globals.zip a.globals) (s.globals.map GlobalVarObject.nodes) :=
    List.forall₂_map_right_iff.mpr ((forall₂_zip_self haddr.globals).imp fun _ _ h => h.2)
  refine lists_iff hw hfinal hlen (fun (g : GlobalVarObject) n => ⟨g.name % 2 ^ 32, n⟩)
    (by decide) ht.gvars (setGVarsCount_le _) (.inr fun _ _ => rfl) ?_ (fun _ _ => rfl) hS
    dataNodes_globals
  intro o _ n hn
  refine ⟨Nat.mod_lt _ (by decide), ?_, trivial⟩
  show n < 256 ^ 4
  omega

end Each

/-! ### Anim trees -/

section Trees

variable {k : Compiler} {s : Script k} {base final : List UInt8} {out : Compiled}
  {a : Addresses} {locs : List Nat} {treeLocs : List (Nat × List Nat)}

/-- A tree with the locations of its names and its addresses. -/
structure TreeWritten (s : Script k) (emitted : List Emitted)
    (p : (Nat × List Nat) × TreeAddresses) (t : AnimTreeObject) : Prop where
  locs : TreeLocs p.1 t
  addresses : TreeAddressesOf s emitted p.2 t

theorem treeWritten (haddr : Addressed s out.emitted a)
    (ht : List.Forall₂ TreeLocs treeLocs s.animtrees) :
    List.Forall₂ (TreeWritten s out.emitted) (treeLocs.zip a.animtrees) s.animtrees := by
  have hall := haddr.animtrees
  generalize a.animtrees = as at hall
  generalize s.animtrees = ts at ht hall
  induction ht generalizing as with
  | nil =>
    cases hall
    exact .nil
  | cons hloc _ ih =>
    cases hall with
    | cons h hs => exact .cons ⟨hloc, h⟩ (ih _ hs)

theorem singleObjects_spec {trees : List ((Nat × List Nat) × TreeAddresses)}
    {ts : List AnimTreeObject} (h : List.Forall₂ (TreeWritten s out.emitted) trees ts) :
    List.Forall₂ (fun o rs => AddressesOf s out.emitted o.2 rs) (singleObjects trees)
        (ts.map AnimTreeObject.animtree) ∧
      ∀ o ∈ singleObjects trees, o.1 < 2 ^ 32 := by
  induction h with
  | nil =>
    refine ⟨.nil, ?_⟩
    intro o ho
    cases ho
  | cons hp _ ih =>
    refine ⟨.cons hp.addresses.animtree ih.1, ?_⟩
    intro o ho
    rcases List.mem_cons.mp ho with rfl | ho
    · exact hp.locs.name
    · exact ih.2 o ho

theorem doubleObjects_spec {trees : List ((Nat × List Nat) × TreeAddresses)}
    {ts : List AnimTreeObject} (h : List.Forall₂ (TreeWritten s out.emitted) trees ts) :
    List.Forall₂ (fun o rs => AddressesOf s out.emitted o.2 rs) (doubleObjects trees)
        (ts.flatMap fun t => t.anims.map AnimObject.anim) ∧
      ∀ o ∈ doubleObjects trees, o.1.1 < 2 ^ 32 ∧ o.1.2 < 2 ^ 32 := by
  induction h with
  | nil =>
    refine ⟨.nil, ?_⟩
    intro o ho
    cases ho
  | @cons p t ps ts hp _ ih =>
    have hzip : p.1.2.length = p.2.anims.length :=
      hp.locs.length.trans hp.addresses.anims.length_eq.symm
    have hone : List.Forall₂ (fun o rs => AddressesOf s out.emitted o.2 rs)
        ((p.1.2.zip p.2.anims).map fun q => ((p.1.1, q.1), q.2)) (t.anims.map AnimObject.anim) :=
      List.forall₂_map_left_iff.mpr
        (List.forall₂_map_right_iff.mpr (forall₂_zip_right hzip hp.addresses.anims))
    refine ⟨List.rel_append hone ih.1, ?_⟩
    intro o ho
    rcases List.mem_append.mp ho with ho | ho
    · obtain ⟨q, hq, rfl⟩ := List.mem_map.mp ho
      exact ⟨hp.locs.name, hp.locs.anims _ (List.of_mem_zip hq).1⟩
    · exact ih.2 o ho

theorem lists_single (hw : writeExports k s.exports base = some (out.emitted, final))
    (hfinal : final <+: out.data) (hlen : out.data.length < 2 ^ 31)
    (haddr : Addressed s out.emitted a) (ht : Written k s a out.header out.data locs treeLocs)
    (ht7 : k.target.animtreeT7 = false) :
    Lists s out useAnimTreeTable out.header.animSingle
        (s.animtrees.flatMap AnimTreeObject.animtree) ↔
      k.target.handler.setAnimTreeSingleCount s.useAnimTreeEntries = s.useAnimTreeEntries ∧
        ∀ r ∈ s.animtrees.flatMap AnimTreeObject.animtree, Lands k s.exports r := by
  obtain ⟨hS, hlt⟩ := singleObjects_spec (treeWritten haddr ht.trees)
  have hentry : (∀ n, k.target.handler.setAnimTreeSingleCount n = 0) ∨
      ∀ i n, useAnimTreeEntry k.target.handler i n = useAnimTreeCodec.write ⟨n, i⟩ := by
    cases hwrites : k.target.handler.writesAnimTrees with
    | true =>
      right
      intro i n
      rw [useAnimTreeEntry, hwrites, if_pos rfl]
    | false =>
      left
      intro n
      rcases registered_trees k.target k.registered ht7 hwrites with h | h | h <;> rw [h] <;> rfl
  refine lists_iff hw hfinal hlen (fun i n => ⟨n, i⟩) (by decide) (ht.anims.single ht7)
    (setAnimTreeSingleCount_le _) hentry ?_ (fun _ _ => rfl) hS (dataNodes_trees ?_)
  · intro o ho n hn
    refine ⟨?_, hlt o ho, trivial⟩
    show n < 256 ^ 4
    omega
  · intro r hr
    obtain ⟨t, ht, hr⟩ := List.mem_flatMap.mp hr
    exact List.mem_flatMap.mpr ⟨t, ht, List.mem_append_left _ hr⟩

theorem lists_double (hw : writeExports k s.exports base = some (out.emitted, final))
    (hfinal : final <+: out.data) (hlen : out.data.length < 2 ^ 31)
    (haddr : Addressed s out.emitted a) (ht : Written k s a out.header out.data locs treeLocs)
    (ht7 : k.target.animtreeT7 = false) :
    Lists s out animTreeTable out.header.animDouble
        (s.animtrees.flatMap fun t => t.anims.flatMap AnimObject.anim) ↔
      k.target.handler.setAnimTreeDoubleCount s.animTreeEntries = some s.animTreeEntries ∧
        ∀ r ∈ s.animtrees.flatMap (fun t => t.anims.flatMap AnimObject.anim),
          Lands k s.exports r := by
  obtain ⟨hS, hlt⟩ := doubleObjects_spec (treeWritten haddr ht.trees)
  have hentry : (∀ n, (k.target.handler.setAnimTreeDoubleCount n).getD 0 = 0) ∨
      ∀ i n, animTreeEntry k.target.handler i n = animTreeCodec.write ⟨n, i.1, i.2⟩ := by
    cases hwrites : k.target.handler.writesAnimTrees with
    | true =>
      right
      intro i n
      rw [animTreeEntry, hwrites, if_pos rfl]
    | false =>
      left
      intro n
      rcases registered_trees k.target k.registered ht7 hwrites with h | h | h <;> rw [h] <;> rfl
  have hset : ∀ n, (k.target.handler.setAnimTreeDoubleCount n).getD 0 ≤ n := by
    intro n
    cases hcount : k.target.handler.setAnimTreeDoubleCount n with
    | none => exact Nat.zero_le n
    | some count => exact setAnimTreeDoubleCount_le hcount
  have hrefs : s.animtrees.flatMap (fun t => t.anims.flatMap AnimObject.anim) =
      (s.animtrees.flatMap fun t => t.anims.map AnimObject.anim).flatten := by
    rw [List.flatMap_def, List.flatMap_def, List.flatten_flatten, List.map_map]
    rfl
  have hentries := length_entriesOf (show 0 < 0xFF by decide) (hS.imp fun _ _ h => h.length_eq)
  have hcount := ht.anims.count
  rw [if_neg (by rw [ht7]; decide), hentries] at hcount
  rw [hrefs]
  refine (lists_iff hw hfinal hlen (fun i n => ⟨n, i.1, i.2⟩) (by decide) (ht.anims.double ht7)
    hset hentry ?_ (fun _ _ => rfl) hS (dataNodes_trees ?_)).trans (and_congr_left' ?_)
  · intro o ho n hn
    refine ⟨?_, (hlt o ho).1, (hlt o ho).2, trivial⟩
    show n < 256 ^ 4
    omega
  · intro r hr
    rw [← hrefs] at hr
    obtain ⟨t, ht, hr⟩ := List.mem_flatMap.mp hr
    exact List.mem_flatMap.mpr ⟨t, ht, List.mem_append_right _ hr⟩
  · rw [hcount, Script.animTreeEntries, hcount, Option.getD_some, Option.some.injEq]

/-- The addresses of a tree, in the order of its nodes. -/
theorem t7Tree_addresses {p : (Nat × List Nat) × TreeAddresses} {t : AnimTreeObject}
    (h : TreeWritten s out.emitted p t) :
    AddressesOf s out.emitted ((t7Tree p.1 p.2).1.2 ++ (t7Tree p.1 p.2).2.map Prod.snd) t.nodes := by
  have hzip : p.1.2.length = p.2.anims.length :=
    h.locs.length.trans h.addresses.anims.length_eq.symm
  have hsnd : (t7Tree p.1 p.2).2.map Prod.snd = p.2.anims.flatten := by
    show ((p.1.2.zip p.2.anims).flatMap fun q => q.2.map fun x => (q.1, x)).map Prod.snd = _
    rw [List.map_flatMap]
    have hmap : (p.1.2.zip p.2.anims).map Prod.snd = p.2.anims :=
      List.map_snd_zip (Nat.le_of_eq hzip.symm)
    conv_rhs => rw [← hmap]
    rw [List.flatMap_def]
    congr 1
    apply List.map_congr_left
    intro q _
    rw [List.map_map]
    exact List.map_id _
  refine List.rel_append h.addresses.animtree ?_
  rw [hsnd]
  exact List.rel_flatten (List.forall₂_map_right_iff.mpr h.addresses.anims)

theorem t7Tree_fits {p : (Nat × List Nat) × TreeAddresses} {t : AnimTreeObject}
    (h : TreeWritten s out.emitted p t) (hle : (t7Tree p.1 p.2).1.2.length ≤ 0x7FFF ∧
      (t7Tree p.1 p.2).2.length ≤ 0x7FFF) : t7AnimTable.Fits (t7Tree p.1 p.2) := by
  have hlt := (t7Tree_addresses h).lt
  refine ⟨⟨⟨h.locs.name, ?_, ?_, trivial⟩, rfl, ?_⟩, rfl, ?_⟩
  · show (t7Tree p.1 p.2).1.2.length < 256 ^ 2
    omega
  · show (t7Tree p.1 p.2).2.length < 256 ^ 2
    omega
  · intro x hx
    exact hlt x (List.mem_append_left _ hx)
  · intro q hq
    have hsnd := hlt q.2 (List.mem_append_right _ (List.mem_map_of_mem hq))
    obtain ⟨⟨loc, xs⟩, hzip, hq⟩ := List.mem_flatMap.mp hq
    obtain ⟨x, hx, rfl⟩ := List.mem_map.mp hq
    have hfst := h.locs.anims loc (List.of_mem_zip hzip).1
    refine ⟨?_, ?_, trivial⟩
    · show loc < 256 ^ 8
      omega
    · show x < 256 ^ 8
      omega

theorem lists_trees (hw : writeExports k s.exports base = some (out.emitted, final))
    (hfinal : final <+: out.data) (hlen : out.data.length < 2 ^ 31)
    (haddr : Addressed s out.emitted a) (ht : Written k s a out.header out.data locs treeLocs)
    (ht7 : k.target.animtreeT7 = true) :
    ListsTrees s out ↔
      (∀ count, k.target.handler.setAnimTreeDoubleCount s.animtrees.length = some count →
        ∀ t ∈ s.animtrees.drop count, t.nodes = []) ∧
        ∀ r ∈ s.animtrees.flatMap AnimTreeObject.nodes, Lands k s.exports r := by
  have hall := treeWritten haddr ht.trees
  have hcount := ht.anims.count
  obtain ⟨⟨before, rest, hoff, hdata⟩, hle⟩ := ht.anims.t7 ht7
  rw [if_pos ht7] at hcount
  generalize treeLocs.zip a.animtrees = trees at hall hcount hdata hle
  rw [hall.length_eq] at hcount
  have hstored := setAnimTreeDoubleCount_le hcount
  have hfle := hfinal.length_le
  have hread : readTable t7AnimTable out.header.animDouble out.data =
      some ((trees.map fun p => t7Tree p.1 p.2).take out.header.animDouble.count) := by
    have hbefore : before.length < 2 ^ 32 := by
      rw [hdata, List.length_append, List.length_append] at hlen
      omega
    unfold readTable
    rw [hoff, Nat.mod_eq_of_lt hbefore, hdata, List.append_assoc, List.drop_left]
    apply Codec.readMany_take
    · intro q hq
      obtain ⟨p, hp, rfl⟩ := List.mem_map.mp hq
      obtain ⟨t, -, htree⟩ := exists_of_forall₂ hall hp
      exact t7Tree_fits htree (hle p hp)
    · rw [List.length_map, hall.length_eq]
      exact hstored
  have haddresses : List.Forall₂ (fun x r => s.dataFLoc out.emitted r = some x)
      (t7Uses (trees.map fun p => t7Tree p.1 p.2)) (s.animtrees.flatMap AnimTreeObject.nodes) := by
    unfold t7Uses
    rw [List.flatMap_map]
    exact List.rel_flatten (List.forall₂_map_left_iff.mpr (List.forall₂_map_right_iff.mpr
      (hall.imp fun _ _ => t7Tree_addresses)))
  have hlist := listing_iff (n := out.header.animDouble.count) haddresses
    (R := fun x r => OperandAt k s.exports out.emitted r x) (Q := Lands k s.exports) (by
      intro x r hr hx
      obtain ⟨t, ht, hr⟩ := List.mem_flatMap.mp hr
      obtain ⟨n, w, hn, hd⟩ := dataNode_animtree ht hr
      exact dataFLoc_lands hw (by omega) hn hd hx)
  have hdrop : (∀ q ∈ (trees.map fun p => t7Tree p.1 p.2).drop out.header.animDouble.count,
        q.1.2 ++ q.2.map Prod.snd = []) ↔
      ∀ t ∈ s.animtrees.drop out.header.animDouble.count, t.nodes = [] := by
    rw [← List.map_drop, List.forall_mem_map]
    apply forall_mem_congr_of_forall₂ (List.forall₂_drop _ hall)
    intro p t htree
    have hlength := (t7Tree_addresses htree).length_eq
    rw [← List.length_eq_zero_iff, hlength, List.length_eq_zero_iff]
  unfold ListsTrees
  rw [hread]
  constructor
  · rintro ⟨ts, heq, h⟩
    cases heq
    obtain ⟨hnil, hlands⟩ := hlist.mp h
    refine ⟨?_, hlands⟩
    intro count hcount'
    rw [hcount] at hcount'
    cases hcount'
    exact hdrop.mp hnil
  · rintro ⟨hkept, hlands⟩
    exact ⟨_, rfl, hlist.mpr ⟨hdrop.mpr (hkept _ hcount), hlands⟩⟩

end Trees

/-! ### Imports -/

section Imports

variable {k : Compiler} {s : Script k} {base final : List UInt8} {out : Compiled}
  {a : Addresses} {locs : List Nat} {treeLocs : List (Nat × List Nat)}

theorem importItem_flags (h : GSCOBJHandler) (i : ImportObject) (n : Nat) :
    (i.item h n).flags = h.mapFlagsImportToInt i.flags := by
  unfold ImportObject.item GSCOBJHandler.importItem
  split <;> rfl

theorem importItem_numAddress (h : GSCOBJHandler) (i : ImportObject) (n : Nat) :
    (i.item h n).numAddress = n := by
  unfold ImportObject.item GSCOBJHandler.importItem
  split <;> rfl

theorem importItem_fits (h : GSCOBJHandler) (i : ImportObject) {n : Nat} (hn : n ≤ 0xFFFF) :
    (importCodec h.wideImports).Fits (i.item h n) := by
  have hn' : n < 256 ^ 2 := by omega
  unfold ImportObject.item GSCOBJHandler.importItem
  cases h.wideImports with
  | true =>
    exact ⟨UInt64.toNat_lt _, UInt64.toNat_lt _, hn', UInt8.toNat_lt _, UInt8.toNat_lt _,
      by decide, trivial⟩
  | false =>
    have hlow : ∀ v : UInt64, v.toUInt32.toUInt64.toNat < 256 ^ 4 := by
      intro v
      rw [UInt32.toNat_toUInt64]
      exact UInt32.toNat_lt _
    exact ⟨hlow _, hlow _, hn', UInt8.toNat_lt _, UInt8.toNat_lt _, by decide, trivial⟩

/-- The nodes of the imports, each with its import. -/
def importRefs (s : Script k) : List (List (ImportObject × NodeRef)) :=
  s.imports.map fun i => i.nodes.map fun r => (i, r)

theorem importRefs_snd (s : Script k) :
    (importRefs s).flatten.map Prod.snd = s.imports.flatMap ImportObject.nodes := by
  unfold importRefs
  rw [List.map_flatten, List.map_map, List.flatMap_def]
  congr 1
  apply List.map_congr_left
  intro i _
  show (i.nodes.map fun r => (i, r)).map Prod.snd = _
  rw [List.map_map]
  exact List.map_id _

theorem mem_importRefs {s : Script k} {p : ImportObject × NodeRef} :
    p ∈ (importRefs s).flatten ↔ p.1 ∈ s.imports ∧ p.2 ∈ p.1.nodes := by
  unfold importRefs
  rw [← List.flatMap_def, List.mem_flatMap]
  constructor
  · rintro ⟨i, hi, hp⟩
    obtain ⟨r, hr, rfl⟩ := List.mem_map.mp hp
    exact ⟨hi, hr⟩
  · rintro ⟨hi, hr⟩
    exact ⟨p.1, hi, List.mem_map.mpr ⟨p.2, hr, rfl⟩⟩

theorem lists_imports (hw : writeExports k s.exports base = some (out.emitted, final))
    (hfinal : final <+: out.data) (hlen : out.data.length < 2 ^ 31)
    (haddr : Addressed s out.emitted a)
    (ht : Written k s a out.header out.data locs treeLocs) :
    ListsImports s out ↔
      GSCOBJHandler.setCount s.importEntries = s.importEntries ∧
        ∀ i ∈ s.imports, ∀ r ∈ i.nodes, Patches k s.exports i.flags r := by
  have hfle := hfinal.length_le
  have hzip := forall₂_zip_self haddr.imports
  have hS : List.Forall₂ (fun o rs => ∀ n, List.Forall₂ (fun x (p : ImportObject × NodeRef) =>
      (o.1.item k.target.handler n).flags = k.target.handler.mapFlagsImportToInt p.1.flags ∧
        s.importFLoc out.emitted p.2 = some x) o.2 rs)
      (s.imports.zip a.imports) (importRefs s) := by
    refine List.forall₂_map_right_iff.mpr (hzip.imp ?_)
    rintro o i ⟨rfl, h⟩ n
    exact List.forall₂_map_right_iff.mpr (h.imp fun _ _ hx => ⟨importItem_flags _ _ _, hx⟩)
  have hentries : (entriesOf 0xFFFF (s.imports.zip a.imports)).length = s.importEntries := by
    refine length_entriesOf (by decide) (List.forall₂_map_right_iff.mpr (hzip.imp ?_))
    rintro o i ⟨-, h⟩
    exact h.length_eq
  have hformat : EntryFormat 0xFFFF (importCodec k.target.handler.wideImports)
      ImportItem.numAddress (ImportObject.item k.target.handler) (s.imports.zip a.imports) := by
    refine ⟨fun o _ n hn => importItem_fits _ _ hn, importItem_numAddress _, ?_⟩
    intro o ho x hx
    obtain ⟨i, -, -, h⟩ := exists_of_forall₂ hzip ho
    obtain ⟨r, -, hr⟩ := exists_of_forall₂ h hx
    exact importFLoc_lt hr
  have htable := table_iff (t := out.header.imports)
    (S := fun (u : ImportItem × Nat) (p : ImportObject × NodeRef) =>
      u.1.flags = k.target.handler.mapFlagsImportToInt p.1.flags ∧
        s.importFLoc out.emitted p.2 = some u.2)
    (R := fun u p => ∃ offset, k.target.patchOffset u.1.flags u.2 = some offset ∧
      OperandAt k s.exports out.emitted p.2 offset)
    (Q := fun p => Patches k s.exports p.1.flags p.2) (by decide) ht.imports hlen setCount_le
    (.inr fun _ _ => rfl) hformat hS (by
      rintro u p hp ⟨hflags, hx⟩
      obtain ⟨hi, hr⟩ := mem_importRefs.mp hp
      rw [hflags]
      exact importFLoc_patches hw (by omega) hi hr hx)
  unfold ListsImports
  rw [hentries] at htable
  rw [← importRefs_snd]
  simp only [List.forall₂_map_right_iff]
  refine htable.trans (and_congr_right' ?_)
  constructor
  · intro h i hi r hr
    exact h (i, r) (mem_importRefs.mpr ⟨hi, hr⟩)
  · intro h p hp
    obtain ⟨hi, hr⟩ := mem_importRefs.mp hp
    exact h p.1 hi p.2 hr

end Imports

/-! ## All tables -/

theorem Script.mem_dataNodes {k : Compiler} (s : Script k) {r : NodeRef} :
    r ∈ s.dataNodes ↔ r ∈ s.plainStrings.flatMap StringObject.nodes ∨
      r ∈ s.devStrings.flatMap StringObject.nodes ∨
      r ∈ s.animtrees.flatMap AnimTreeObject.nodes ∨
      r ∈ s.globals.flatMap GlobalVarObject.nodes := by
  unfold Script.dataNodes
  rw [List.mem_append, List.mem_append, List.mem_append, or_assoc, or_assoc]

theorem Script.mem_treeNodes {k : Compiler} (s : Script k) {r : NodeRef} :
    r ∈ s.animtrees.flatMap AnimTreeObject.nodes ↔
      r ∈ s.animtrees.flatMap AnimTreeObject.animtree ∨
        r ∈ s.animtrees.flatMap fun t => t.anims.flatMap AnimObject.anim := by
  simp only [List.mem_flatMap, AnimTreeObject.nodes, List.mem_append, and_or_left, exists_or]

theorem compile_spec {k : Compiler} {s : Script k} {base detours name : List UInt8}
    {out : Compiled} (h : compile k s base detours name = some out) :
    ∃ final a locs treeLocs, writeExports k s.exports base = some (out.emitted, final) ∧
      final <+: out.data ∧ Addressed s out.emitted a ∧
        Written k s a out.header out.data locs treeLocs := by
  obtain ⟨⟨emitted, final⟩, hw, h⟩ := Option.bind_eq_some_iff.mp h
  obtain ⟨a, ha, h⟩ := Option.bind_eq_some_iff.mp h
  obtain ⟨⟨header, data⟩, ht, h⟩ := Option.bind_eq_some_iff.mp h
  cases h
  obtain ⟨hpre, locs, treeLocs, hwritten⟩ := writeTables_spec ht
  exact ⟨final, a, locs, treeLocs, hw, hpre, addresses_spec ha, hwritten⟩

/-- **The tables of a compiled script list every registered node once, at its operand, exactly when
the script is listable.** -/
theorem tables_listed_iff {k : Compiler} {s : Script k} {base detours name : List UInt8}
    {out : Compiled} (h : compile k s base detours name = some out)
    (hlen : out.data.length < 2 ^ 31) : TablesListed s out ↔ s.Listable := by
  obtain ⟨final, a, locs, treeLocs, hw, hfinal, haddr, ht⟩ := compile_spec h
  have hstrings := lists_strings hw hfinal hlen
    (fun (o : StringObject) (ho : o ∈ s.plainStrings) => List.mem_of_mem_filter ho) ht.locs_length ht.locs_lt haddr.strings setCount_le
    ht.strings
  have hdev := lists_strings hw hfinal hlen
    (fun (o : StringObject) (ho : o ∈ s.devStrings) => List.mem_of_mem_filter ho) (by rw [List.length_map])
    (by
      intro l hl
      obtain ⟨o, -, rfl⟩ := List.mem_map.mp hl
      exact Nat.mod_lt _ (by decide))
    haddr.devStrings (setDevStringsCount_le _) ht.devStrings
  have hgvars := lists_gvars hw hfinal hlen haddr ht
  have himports := lists_imports hw hfinal hlen haddr ht
  have hanims : (if k.target.animtreeT7 then ListsTrees s out
      else Lists s out useAnimTreeTable out.header.animSingle
          (s.animtrees.flatMap AnimTreeObject.animtree) ∧
        Lists s out animTreeTable out.header.animDouble
          (s.animtrees.flatMap fun t => t.anims.flatMap AnimObject.anim)) ↔
      s.keepsAnims ∧ ∀ r ∈ s.animtrees.flatMap AnimTreeObject.nodes, Lands k s.exports r := by
    unfold Script.keepsAnims
    cases ht7 : k.target.animtreeT7 with
    | true =>
      rw [if_pos rfl, if_pos rfl]
      exact lists_trees hw hfinal hlen haddr ht ht7
    | false =>
      rw [if_neg Bool.false_ne_true, if_neg Bool.false_ne_true,
        lists_single hw hfinal hlen haddr ht ht7, lists_double hw hfinal hlen haddr ht ht7]
      constructor
      · rintro ⟨⟨h₁, l₁⟩, h₂, l₂⟩
        refine ⟨⟨h₁, h₂⟩, ?_⟩
        intro r hr
        rcases s.mem_treeNodes.mp hr with hr | hr
        · exact l₁ r hr
        · exact l₂ r hr
      · rintro ⟨⟨h₁, h₂⟩, l⟩
        refine ⟨⟨h₁, ?_⟩, h₂, ?_⟩
        · intro r hr
          exact l r (s.mem_treeNodes.mpr (.inl hr))
        · intro r hr
          exact l r (s.mem_treeNodes.mpr (.inr hr))
  constructor
  · intro hl
    obtain ⟨h₁, l₁⟩ := hstrings.mp hl.strings
    obtain ⟨h₂, l₂⟩ := hdev.mp hl.devStrings
    obtain ⟨h₃, l₃⟩ := hanims.mp hl.anims
    obtain ⟨h₄, l₄⟩ := hgvars.mp hl.gvars
    obtain ⟨h₅, hpatches⟩ := himports.mp hl.imports
    refine ⟨⟨h₁, h₂, h₃, h₄, h₅⟩, ?_, hpatches⟩
    intro r hr
    rcases s.mem_dataNodes.mp hr with hr | hr | hr | hr
    · exact l₁ r hr
    · exact l₂ r hr
    · exact l₃ r hr
    · exact l₄ r hr
  · intro hs
    obtain ⟨h₁, h₂, h₃, h₄, h₅⟩ := hs.counts
    refine ⟨hstrings.mpr ⟨h₁, ?_⟩, hdev.mpr ⟨h₂, ?_⟩, hanims.mpr ⟨h₃, ?_⟩, hgvars.mpr ⟨h₄, ?_⟩,
      himports.mpr ⟨h₅, hs.patches⟩⟩
    · intro r hr
      exact hs.lands r (s.mem_dataNodes.mpr (.inl hr))
    · intro r hr
      exact hs.lands r (s.mem_dataNodes.mpr (.inr (.inl hr)))
    · intro r hr
      exact hs.lands r (s.mem_dataNodes.mpr (.inr (.inr (.inl hr))))
    · intro r hr
      exact hs.lands r (s.mem_dataNodes.mpr (.inr (.inr (.inr hr))))

theorem dataNode_of_mem {k : Compiler} {s : Script k} {r : NodeRef} (hr : r ∈ s.dataNodes) :
    ∃ n w, nodeOf s.exports r = some n ∧ ∀ c, DataNode c n w := by
  rcases s.mem_dataNodes.mp hr with hr | hr | hr | hr
  · exact dataNodes_strings (fun o ho => List.mem_of_mem_filter ho) r hr
  · exact dataNodes_strings (fun o ho => List.mem_of_mem_filter ho) r hr
  · exact dataNodes_trees (fun _ h => h) r hr
  · exact dataNodes_globals r hr

/-- When the layout counts as the output does, the counts and one number of an import decide. -/
theorem listable_iff_of_layout {k : Compiler} {s : Script k} {base detours name : List UInt8}
    {out : Compiled} (h : compile k s base detours name = some out)
    (hlen : out.data.length < 2 ^ 31) (hal : k.ctx.layoutAlign = k.ctx.hasAlign) :
    s.Listable ↔ s.KeepsCounts ∧
      ∀ i ∈ s.imports, i.nodes ≠ [] → ¬ (k.target.handler = .mw23 ∧ i.flags &&& 0xF = 7) := by
  obtain ⟨final, a, locs, treeLocs, hw, hfinal, -, -⟩ := compile_spec h
  have hle := hfinal.length_le
  have hpatches : ∀ i ∈ s.imports, ∀ r ∈ i.nodes, Patches k s.exports i.flags r ↔
      ¬ (k.target.handler = .mw23 ∧ i.flags &&& 0xF = 7) := by
    intro i hi r hr
    obtain ⟨call, hn, -, -⟩ := s.import_node i hi r hr
    obtain ⟨e, em, l, u, a, before, after, hnode⟩ := emittedNode hw (by omega) hn
    exact hnode.patches hal
  constructor
  · intro hs
    refine ⟨hs.counts, ?_⟩
    intro i hi hne
    obtain ⟨r, hr⟩ := List.exists_mem_of_ne_nil _ hne
    exact (hpatches i hi r hr).mp (hs.patches i hi r hr)
  · rintro ⟨hcounts, himports⟩
    refine ⟨hcounts, ?_, ?_⟩
    · intro r hr
      obtain ⟨n, w, hn, -⟩ := dataNode_of_mem hr
      obtain ⟨e, em, l, u, a, before, after, hnode⟩ := emittedNode hw (by omega) hn
      exact hnode.lands hal
    · intro i hi r hr
      exact (hpatches i hi r hr).mpr (himports i hi (List.ne_nil_of_mem hr))

/-! ## A child thread on a method -/

/-- `self childthread "worker"()` as `MW23GSCOBJHandler` and `MW23BGSCOBJHandler` compile it. -/
def jupA : Compiler where
  target := ⟨⟨"mwiiia", [.hash64, .noParamFlags, .iwCalls], true, false⟩, .mw23, true, true, false⟩
  ctx :=
    { vm := ⟨"mwiiia", [.hash64, .noParamFlags, .iwCalls], true, false⟩
      opCodes := fun op => match op with
        | .checkClearParams => [0x43]
        | .getString => [0x70]
        | .scriptMethodThreadCallEndOn => [0x06]
        | .end_ => [0x34]
        | _ => []
      rand := fun _ => 0
      lvars := 0
      hregisterVariable := fun _ => rfl
      hregisterMultiple := fun h => absurd rfl h }
  registered := by decide +kernel
  vm_eq := rfl

def jupB : Compiler where
  target := ⟨⟨"mwiii", [.hash64, .noParamFlags, .iwCalls], false, true⟩, .mw23b, true, true, false⟩
  ctx :=
    { vm := ⟨"mwiii", [.hash64, .noParamFlags, .iwCalls], false, true⟩
      opCodes := fun op => match op with
        | .checkClearParams => [0x39]
        | .getString => [0x38]
        | .scriptMethodThreadCallEndOn => [0x7d]
        | .end_ => [0x63]
        | _ => []
      rand := fun _ => 0
      lvars := 0
      hregisterVariable := fun h => absurd rfl h
      hregisterMultiple := fun _ => rfl }
  registered := by decide +kernel
  vm_eq := rfl

def workerCall : FunctionCall where
  opcode := .scriptMethodThreadCallEndOn
  flags := ⟨false, true, true, false, false, false, false⟩
  params := 0
  clsName := 0
  nameSpace := 0
  pointer_opcode h := Bool.noConfusion h
  class_pointer h := Bool.noConfusion h

/-- A function that pushes the string `a` and starts a child thread. -/
def worker : Export :=
  ⟨⟨⟨[], 0, false, noParams_le, noParams_lt⟩,
    [.data .w4 0 .getString, .functionCall workerCall, .opCode .end_]⟩, 0⟩

def childThread (k : Compiler) : Script k where
  exports := [worker]
  strings := [⟨[0x61], false, 0, 0, [⟨0, 1⟩]⟩]
  animtrees := []
  globals := []
  imports := [⟨0x1234, 0x5678, 7, 0, [⟨0, 2⟩]⟩]
  string_node o ho r hr := by
    cases List.mem_singleton.mp ho
    cases List.mem_singleton.mp hr
    exact ⟨0, .getString, rfl⟩
  animtree_node t ht := by cases ht
  anim_node t ht := by cases ht
  global_node g hg := by cases hg
  import_node i hi r hr := by
    cases List.mem_singleton.mp hi
    cases List.mem_singleton.mp hr
    exact ⟨workerCall, rfl, rfl, rfl⟩

/-- `MW23GSCOBJHandler` gives the import the number of a builtin call, and the linker does not skip
the parameter count at 143. -/
theorem childThread_not_listed :
    ∃ out, compile jupA (childThread jupA) (List.replicate 128 0) [] [] = some out ∧
      readTable (importTable true) out.header.imports out.data =
        some [(⟨0x5678, 0x1234, 1, 0, 8⟩, [143])] ∧
      jupA.target.patchOffset 8 143 = some 143 ∧ out.data[143]? = some 0 ∧
      ¬ TablesListed (childThread jupA) out := by
  have hrun : (compile jupA (childThread jupA) (List.replicate 128 0) [] []).map
      (fun out => out.data.length) = some 191 := by decide +kernel
  have htable : (compile jupA (childThread jupA) (List.replicate 128 0) [] []).bind (fun out =>
      readTable (importTable true) out.header.imports out.data) =
        some [(⟨0x5678, 0x1234, 1, 0, 8⟩, [143])] := by decide +kernel
  have hparams : (compile jupA (childThread jupA) (List.replicate 128 0) [] []).bind (fun out =>
      out.data[143]?) = some 0 := by decide +kernel
  obtain ⟨out, hout, hlen⟩ := Option.map_eq_some_iff.mp hrun
  rw [hout, Option.bind_some] at htable hparams
  refine ⟨out, hout, htable, by decide +kernel, hparams, ?_⟩
  intro hlisted
  obtain ⟨final, a, locs, treeLocs, hw, hfinal, haddr, ht⟩ := compile_spec hout
  obtain ⟨-, hpatches⟩ := (lists_imports hw hfinal (by omega) haddr ht).mp hlisted.imports
  have hpatch := hpatches _ List.mem_cons_self ⟨0, 2⟩ List.mem_cons_self
  rw [Patches, if_pos (by rfl)] at hpatch
  exact hpatch ⟨rfl, rfl⟩

theorem childThread_listed :
    ∃ out, compile jupB (childThread jupB) (List.replicate 128 0) [] [] = some out ∧
      TablesListed (childThread jupB) out := by
  have hrun : (compile jupB (childThread jupB) (List.replicate 128 0) [] []).map
      (fun out => out.data.length) = some 191 := by decide +kernel
  obtain ⟨out, hout, hlen⟩ := Option.map_eq_some_iff.mp hrun
  refine ⟨out, hout, (tables_listed_iff hout (by omega)).mpr
    ⟨⟨by decide +kernel, by decide +kernel, ⟨by decide +kernel, by decide +kernel⟩,
      by decide +kernel, by decide +kernel⟩, ?_, ?_⟩⟩
  · intro r hr e n he hn
    cases List.mem_singleton.mp hr
    cases he
    cases hn
    decide +kernel
  · intro i hi r hr
    rw [Patches, if_pos (by rfl)]
    rintro ⟨h, -⟩
    cases h

end Acts.Gsc
