import Acts.Gsc.TableNodes

/-!
# What the emission of the tables leaves

* `TreeLocs`, `AnimsWritten` — the texts and the tables of the anim trees.
* `Written` — every table in the output; `writeTables_spec` — the emission gets there.
* `Addressed` — the addresses of the tables, object by object.
-/

set_option autoImplicit false

namespace Acts.Gsc

/-! ## The emission -/

theorem writeTexts_spec {ts : List (List UInt8)} {data out : List UInt8} {locs : List Nat}
    (h : writeTexts ts data = (locs, out)) :
    data <+: out ∧ locs.length = ts.length ∧ ∀ l ∈ locs, l < 2 ^ 32 := by
  induction ts generalizing data locs with
  | nil =>
    cases h
    refine ⟨List.prefix_refl _, rfl, ?_⟩
    intro l hl
    cases hl
  | cons t ts ih =>
    obtain ⟨⟨rest, out'⟩, hrest⟩ : ∃ p, writeTexts ts (data ++ t) = p := ⟨_, rfl⟩
    rw [writeTexts, hrest] at h
    cases h
    obtain ⟨hpfx, hlen, hlocs⟩ := ih hrest
    refine ⟨(List.prefix_append data t).trans hpfx, congrArg (· + 1) hlen, ?_⟩
    intro l hl
    rcases List.mem_cons.mp hl with rfl | hl
    · exact Nat.mod_lt _ (by decide)
    · exact hlocs l hl

/-- The locations of the names of a tree and of its anims. -/
structure TreeLocs (p : Nat × List Nat) (t : AnimTreeObject) : Prop where
  name : p.1 < 2 ^ 32
  length : p.2.length = t.anims.length
  anims : ∀ l ∈ p.2, l < 2 ^ 32

theorem writeAnimTexts_spec {h : GSCOBJHandler} {ts : List AnimTreeObject}
    {data out : List UInt8} {locs : List (Nat × List Nat)}
    (hw : writeAnimTexts h ts data = (locs, out)) :
    data <+: out ∧ List.Forall₂ TreeLocs locs ts := by
  induction ts generalizing data locs with
  | nil =>
    cases hw
    exact ⟨List.prefix_refl _, .nil⟩
  | cons t ts ih =>
    obtain ⟨⟨names, data₁⟩, hnames⟩ : ∃ p, writeTexts (t.anims.map fun a => stringText h a.name 0)
      (data ++ stringText h t.name 0) = p := ⟨_, rfl⟩
    obtain ⟨⟨rest, out'⟩, hrest⟩ : ∃ p, writeAnimTexts h ts data₁ = p := ⟨_, rfl⟩
    rw [writeAnimTexts, hnames] at hw
    simp only at hw
    rw [hrest] at hw
    cases hw
    obtain ⟨hpfx, hlen, hlocs⟩ := writeTexts_spec hnames
    obtain ⟨hpfx', hall⟩ := ih hrest
    rw [List.length_map] at hlen
    refine ⟨((List.prefix_append _ _).trans hpfx).trans hpfx', ?_⟩
    exact .cons ⟨Nat.mod_lt _ (by decide), hlen, hlocs⟩ hall

theorem writeT7Trees_spec {trees : List ((Nat × List Nat) × TreeAddresses)}
    {data out : List UInt8} (h : writeT7Trees trees data = some out) :
    out = data ++ (trees.map fun p => t7Tree p.1 p.2).flatMap t7AnimTable.write ∧
      ∀ p ∈ trees, (t7Tree p.1 p.2).1.2.length ≤ 0x7FFF ∧ (t7Tree p.1 p.2).2.length ≤ 0x7FFF := by
  induction trees generalizing data with
  | nil =>
    cases h
    refine ⟨(List.append_nil _).symm, ?_⟩
    intro p hp
    cases hp
  | cons p trees ih =>
    obtain ⟨locs, t⟩ := p
    rw [writeT7Trees] at h
    split at h
    · cases h
    · rename_i hle
      obtain ⟨rfl, hall⟩ := ih h
      refine ⟨?_, ?_⟩
      · rw [List.map_cons, List.flatMap_cons, List.append_assoc]
      · intro p hp
        rcases List.mem_cons.mp hp with rfl | hp
        · exact ⟨Nat.le_of_not_lt fun hlt => hle (.inl hlt), Nat.le_of_not_lt fun hlt => hle (.inr hlt)⟩
        · exact hall p hp

/-- The objects of the two tables of the machines without `VMF_ANIMTREE_T7`. -/
def singleObjects (trees : List ((Nat × List Nat) × TreeAddresses)) : List (Nat × List Nat) :=
  trees.map fun p => (p.1.1, p.2.animtree)

def doubleObjects (trees : List ((Nat × List Nat) × TreeAddresses)) :
    List ((Nat × Nat) × List Nat) :=
  trees.flatMap fun p => (p.1.2.zip p.2.anims).map fun q => ((p.1.1, q.1), q.2)

/-- The anim tables that `writeAnims` leaves. -/
structure AnimsWritten (k : Compiler) (trees : List ((Nat × List Nat) × TreeAddresses))
    (single double : TableRef) (out : List UInt8) : Prop where
  count : k.target.handler.setAnimTreeDoubleCount (if k.target.animtreeT7 then trees.length
    else (entriesOf 0xFF (doubleObjects trees)).length) = some double.count
  t7 : k.target.animtreeT7 = true → (∃ before rest, double.offset = before.length % 2 ^ 32 ∧
    out = before ++ (trees.map fun p => t7Tree p.1 p.2).flatMap t7AnimTable.write ++ rest) ∧
      ∀ p ∈ trees, (t7Tree p.1 p.2).1.2.length ≤ 0x7FFF ∧ (t7Tree p.1 p.2).2.length ≤ 0x7FFF
  single : k.target.animtreeT7 = false → TableAt 0xFF (useAnimTreeEntry k.target.handler)
    k.target.handler.setAnimTreeSingleCount (singleObjects trees) single out
  double : k.target.animtreeT7 = false → TableAt 0xFF (animTreeEntry k.target.handler)
    (fun n => (k.target.handler.setAnimTreeDoubleCount n).getD 0) (doubleObjects trees) double out

theorem writeAnims_spec {k : Compiler} {trees : List ((Nat × List Nat) × TreeAddresses)}
    {data out : List UInt8} {single double : TableRef}
    (h : writeAnims k trees data = some ((single, double), out)) :
    data <+: out ∧ AnimsWritten k trees single double out := by
  unfold writeAnims at h
  simp only at h
  split at h
  · rename_i ht7
    obtain ⟨out', hout, h⟩ := Option.bind_eq_some_iff.mp h
    obtain ⟨count, hcount, h⟩ := Option.bind_eq_some_iff.mp h
    cases h
    obtain ⟨rfl, hall⟩ := writeT7Trees_spec hout
    refine ⟨List.prefix_append _ _, ?_, ?_, ?_, ?_⟩
    · rw [if_pos ht7]
      exact hcount
    · intro _
      exact ⟨⟨data, [], rfl, (List.append_nil _).symm⟩, hall⟩
    · intro hcontra
      rw [ht7] at hcontra
      cases hcontra
    · intro hcontra
      rw [ht7] at hcontra
      cases hcontra
  · rename_i ht7
    obtain ⟨⟨t, out₁⟩, hsingle⟩ : ∃ p, writeTable 0xFF (useAnimTreeEntry k.target.handler)
      k.target.handler.setAnimTreeSingleCount (singleObjects trees) data = p := ⟨_, rfl⟩
    have hdouble : writeObjects 0xFF (animTreeEntry k.target.handler) (doubleObjects trees)
        (out₁, 0) = (out₁ ++ (entriesOf 0xFF (doubleObjects trees)).flatMap
          (entryBytes (animTreeEntry k.target.handler)),
        (entriesOf 0xFF (doubleObjects trees)).length) := by
      rw [writeObjects_entries (by decide), Nat.zero_add]
    unfold singleObjects at hsingle
    unfold doubleObjects at hdouble
    rw [hsingle] at h
    simp only at h
    rw [hdouble] at h
    obtain ⟨count, hcount, h⟩ := Option.bind_eq_some_iff.mp h
    cases h
    obtain ⟨hpre, htable⟩ := tableAt_writeTable (by decide) hsingle
    refine ⟨hpre.trans (List.prefix_append _ _), ?_, ?_, ?_, ?_⟩
    · rw [if_neg ht7]
      exact hcount
    · intro hcontra
      exact absurd hcontra ht7
    · intro _
      exact htable.mono (List.prefix_append _ _)
    · intro _
      have hcount' : k.target.handler.setAnimTreeDoubleCount
          (entriesOf 0xFF (doubleObjects trees)).length = some count := hcount
      refine ⟨out₁, [], ?_, List.append_nil _⟩
      exact congrArg (TableRef.mk _) (congrArg (Option.getD · 0) hcount'.symm)

/-- What is written behind the exports. -/
structure Written (k : Compiler) (s : Script k) (a : Addresses) (header : ObjHeader)
    (out : List UInt8) (locs : List Nat) (treeLocs : List (Nat × List Nat)) : Prop where
  locs_length : locs.length = s.plainStrings.length
  locs_lt : ∀ l ∈ locs, l < 2 ^ 32
  strings : TableAt 0xFF stringEntry GSCOBJHandler.setCount (locs.zip a.strings) header.strings out
  trees : List.Forall₂ TreeLocs treeLocs s.animtrees
  anims : AnimsWritten k (treeLocs.zip a.animtrees) header.animSingle header.animDouble out
  gvars : TableAt 0xFF gvarEntry k.target.handler.setGVarsCount (s.globals.zip a.globals)
    header.gvars out
  imports : TableAt 0xFFFF (importEntry k.target.handler) GSCOBJHandler.setCount
    (s.imports.zip a.imports) header.imports out
  devStrings : TableAt 0xFF stringEntry k.target.handler.setDevStringsCount
    ((s.devStrings.map fun o => o.debugLocation % 2 ^ 32).zip a.devStrings) header.devStrings out

theorem AnimsWritten.mono {k : Compiler} {trees : List ((Nat × List Nat) × TreeAddresses)}
    {single double : TableRef} {out out' : List UInt8} (h : AnimsWritten k trees single double out)
    (hout : out <+: out') : AnimsWritten k trees single double out' where
  count := h.count
  t7 ht7 := by
    obtain ⟨⟨before, rest, hoff, rfl⟩, hall⟩ := h.t7 ht7
    obtain ⟨more, rfl⟩ := hout
    exact ⟨⟨before, rest ++ more, hoff, List.append_assoc _ _ _⟩, hall⟩
  single ht7 := (h.single ht7).mono hout
  double ht7 := (h.double ht7).mono hout

theorem writeTables_spec {k : Compiler} {s : Script k} {a : Addresses}
    {detours name data out : List UInt8} {header : ObjHeader}
    (h : writeTables k s a detours name data = some (header, out)) :
    data <+: out ∧ ∃ locs treeLocs, Written k s a header out locs treeLocs := by
  unfold writeTables at h
  obtain ⟨⟨locs, d₁⟩, htexts⟩ : ∃ p, writeTexts (s.plainStrings.map fun o =>
    stringText k.target.handler o.key o.forceLen) data = p := ⟨_, rfl⟩
  obtain ⟨⟨strings, d₂⟩, hstrings⟩ : ∃ p, writeTable 0xFF stringEntry GSCOBJHandler.setCount
    (locs.zip a.strings) d₁ = p := ⟨_, rfl⟩
  obtain ⟨⟨treeLocs, d₃⟩, htrees⟩ : ∃ p, writeAnimTexts k.target.handler s.animtrees d₂ = p :=
    ⟨_, rfl⟩
  simp only [htexts, hstrings, htrees] at h
  obtain ⟨⟨⟨single, double⟩, d₄⟩, hanims, h⟩ := Option.bind_eq_some_iff.mp h
  obtain ⟨⟨gvars, d₅⟩, hgvars⟩ : ∃ p, writeTable 0xFF gvarEntry k.target.handler.setGVarsCount
    (s.globals.zip a.globals) d₄ = p := ⟨_, rfl⟩
  obtain ⟨⟨imports, d₆⟩, himports⟩ : ∃ p, writeTable 0xFFFF (importEntry k.target.handler)
    GSCOBJHandler.setCount (s.imports.zip a.imports) d₅ = p := ⟨_, rfl⟩
  simp only [hgvars, himports] at h
  obtain ⟨⟨devStrings, d₇⟩, hdev⟩ : ∃ p, writeTable 0xFF stringEntry
    k.target.handler.setDevStringsCount
    ((s.devStrings.map fun o => o.debugLocation % 2 ^ 32).zip a.devStrings)
    (d₆ ++ detours ++ if k.target.handler.stringNames then name ++ [0] else []) = p := ⟨_, rfl⟩
  simp only [hdev] at h
  cases h
  obtain ⟨h₁, hlen, hlt⟩ := writeTexts_spec htexts
  obtain ⟨h₂, hs⟩ := tableAt_writeTable (by decide) hstrings
  obtain ⟨h₃, ht⟩ := writeAnimTexts_spec htrees
  obtain ⟨h₄, han⟩ := writeAnims_spec hanims
  obtain ⟨h₅, hg⟩ := tableAt_writeTable (by decide) hgvars
  obtain ⟨h₆, hi⟩ := tableAt_writeTable (by decide) himports
  obtain ⟨h₇, hd⟩ := tableAt_writeTable (by decide) hdev
  rw [List.append_assoc] at h₇
  have p₆ : d₆ <+: out := (List.prefix_append _ _).trans h₇
  have p₅ := h₆.trans p₆
  have p₄ := h₅.trans p₅
  have p₂ := (h₃.trans h₄).trans p₄
  refine ⟨(h₁.trans h₂).trans p₂, locs, treeLocs, ?_, hlt, hs.mono p₂, ht, han.mono p₄, hg.mono p₅,
    hi.mono p₆, hd⟩
  rw [hlen, List.length_map]

/-! ## The addresses -/

/-- The addresses of some nodes. -/
def AddressesOf {k : Compiler} (s : Script k) (emitted : List Emitted) (xs : List Nat)
    (refs : List NodeRef) : Prop :=
  List.Forall₂ (fun x r => s.dataFLoc emitted r = some x) xs refs

/-- The addresses of a tree. -/
structure TreeAddressesOf {k : Compiler} (s : Script k) (emitted : List Emitted)
    (a : TreeAddresses) (t : AnimTreeObject) : Prop where
  animtree : AddressesOf s emitted a.animtree t.animtree
  anims : List.Forall₂ (fun xs m => AddressesOf s emitted xs m.anim) a.anims t.anims

/-- What the tables list, object by object. -/
structure Addressed {k : Compiler} (s : Script k) (emitted : List Emitted) (a : Addresses) :
    Prop where
  strings : List.Forall₂ (fun xs o => AddressesOf s emitted xs o.nodes) a.strings s.plainStrings
  devStrings :
    List.Forall₂ (fun xs o => AddressesOf s emitted xs o.nodes) a.devStrings s.devStrings
  animtrees : List.Forall₂ (TreeAddressesOf s emitted) a.animtrees s.animtrees
  globals : List.Forall₂ (fun xs g => AddressesOf s emitted xs g.nodes) a.globals s.globals
  imports : List.Forall₂ (fun xs i =>
    List.Forall₂ (fun x r => s.importFLoc emitted r = some x) xs i.nodes) a.imports s.imports

theorem addresses_spec {k : Compiler} {s : Script k} {emitted : List Emitted} {a : Addresses}
    (h : s.addresses emitted = some a) : Addressed s emitted a := by
  obtain ⟨strings, hs, h⟩ := Option.bind_eq_some_iff.mp h
  obtain ⟨devStrings, hd, h⟩ := Option.bind_eq_some_iff.mp h
  obtain ⟨animtrees, ht, h⟩ := Option.bind_eq_some_iff.mp h
  obtain ⟨globals, hg, h⟩ := Option.bind_eq_some_iff.mp h
  obtain ⟨imports, hi, h⟩ := Option.bind_eq_some_iff.mp h
  cases h
  refine ⟨?_, ?_, ?_, ?_, ?_⟩
  · exact (forall₂_of_mapM hs).imp fun _ _ => forall₂_of_mapM
  · exact (forall₂_of_mapM hd).imp fun _ _ => forall₂_of_mapM
  · apply (forall₂_of_mapM ht).imp
    intro x t hx
    obtain ⟨animtree, h₁, hx⟩ := Option.bind_eq_some_iff.mp hx
    obtain ⟨anims, h₂, hx⟩ := Option.bind_eq_some_iff.mp hx
    cases hx
    exact ⟨forall₂_of_mapM h₁, (forall₂_of_mapM h₂).imp fun _ _ => forall₂_of_mapM⟩
  · exact (forall₂_of_mapM hg).imp fun _ _ => forall₂_of_mapM
  · exact (forall₂_of_mapM hi).imp fun _ _ => forall₂_of_mapM

theorem dataFLoc_lt {k : Compiler} {s : Script k} {emitted : List Emitted} {r : NodeRef} {x : Nat}
    (h : s.dataFLoc emitted r = some x) : x < 2 ^ 32 := by
  obtain ⟨n, -, h⟩ := Option.bind_eq_some_iff.mp h
  obtain ⟨floc, -, h⟩ := Option.bind_eq_some_iff.mp h
  have hbefore : ∀ {w : Nat}, (n.shiftSize k.ctx k.ctx.hasAlign floc).map
      (fun next => (next + 2 ^ 32 - w) % 2 ^ 32) = some x → x < 2 ^ 32 := by
    intro w h
    obtain ⟨next, -, rfl⟩ := Option.map_eq_some_iff.mp h
    exact Nat.mod_lt _ (by decide)
  cases n with
  | data w val op => exact hbefore h
  | hash val op w => exact hbefore h
  | globalVariable op => exact hbefore h
  | _ => cases h

theorem getFLoc_lt (c : Ctx) (floc : Nat) (n : FunctionCall) : n.getFLoc c floc < 2 ^ 32 := by
  unfold FunctionCall.getFLoc
  split
  · exact Nat.mod_lt _ (by decide)
  · split <;> exact Nat.mod_lt _ (by decide)

theorem importFLoc_lt {k : Compiler} {s : Script k} {emitted : List Emitted} {r : NodeRef}
    {x : Nat} (h : s.importFLoc emitted r = some x) : x < 2 ^ 32 := by
  obtain ⟨n, -, h⟩ := Option.bind_eq_some_iff.mp h
  split at h
  · obtain ⟨floc, -, h⟩ := Option.bind_eq_some_iff.mp h
    cases h
    exact getFLoc_lt _ _ _
  · cases h

theorem AddressesOf.lt {k : Compiler} {s : Script k} {emitted : List Emitted} {xs : List Nat}
    {refs : List NodeRef} (h : AddressesOf s emitted xs refs) : ∀ x ∈ xs, x < 2 ^ 32 := by
  unfold AddressesOf at h
  induction h with
  | nil =>
    intro x hx
    cases hx
  | cons hxr _ ih =>
    intro x hx
    rcases List.mem_cons.mp hx with rfl | hx
    · exact dataFLoc_lt hxr
    · exact ih x hx

end Acts.Gsc
