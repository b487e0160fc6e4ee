import Acts.Gsc.RewriteImports
import Mathlib.Data.List.Nodup
import Mathlib.Data.Nat.Digits.Defs

/-!
# Private exports (`gsc_obfuscator_handler.cpp`, `gsc_obfuscator_private_file.cpp`)

* `encodeVal` — `EncodeVal`: a number as a name.
* `killPrivateExports` — `KillPrivateExports`: the private exports and the imports of them get
  generated names.
* `killLoop_eq` — the two loops apply one renaming to both tables.
* `KeepsLinks` — what is expected of the tables behind it.
* `killPrivateExports_keepsLinks_iff` — **it is so exactly when no name that is kept is generated.**

A handle is the index of its entry.  The hash of a name is a parameter.
-/

set_option autoImplicit false

namespace Acts.Gsc.Obfuscator.PrivateExports

/-! ## Names -/

/-- `PRIVATE_FILE_UID_DICT`. -/
def uidDict : List Char :=
  ['a', 'b', 'c', 'd', 'e', 'f', 'g', 'h', 'i', 'j', 'k', 'l', 'm', 'n', 'o', 'p', 'q', 'r', 's',
    't', 'u', 'v', 'w', 'x', 'y', 'z', '0', '1', '2', '3', '4', '5', '6', '7', '8', '9', '_', '.']

/-- `PRIVATE_FILE_UID_DICT_LEN`. -/
def uidDictLen : Nat := 38

def uidChar (i : Nat) : Char := uidDict.getD i 'a'

/-- The loop of `EncodeVal`, with room for so many characters in front of the NUL. -/
def encodeLoop : Nat → Nat → List Char
  | 0, _ => []
  | room + 1, val =>
    if val = 0 then [] else uidChar (val % uidDictLen) :: encodeLoop room (val / uidDictLen)

/-- `EncodeNumber<size_t>`. -/
def encodeNumber (uidVal val : UInt64) : UInt64 := val ^^^ uidVal

/-- `EncodeVal` into a buffer that is not empty. -/
def encodeVal (uidVal val : UInt64) (buffSize : Nat) : List Char :=
  encodeLoop (buffSize - 1) (encodeNumber uidVal val).toNat

/-- `EncodeValTmp`. -/
def encodeValTmp (uidVal val : UInt64) : List Char := encodeVal uidVal val 16

theorem uidChar_injOn {i j : Nat} (hi : i < uidDictLen) (hj : j < uidDictLen)
    (h : uidChar i = uidChar j) : i = j := by
  have hall : ∀ i < uidDictLen, ∀ j < uidDictLen, uidChar i = uidChar j → i = j := by
    decide +kernel
  exact hall i hi j hj h

/-- With enough room the loop writes the digits. -/
theorem encodeLoop_eq {room val : Nat} (h : val < uidDictLen ^ room) :
    encodeLoop room val = (Nat.digits uidDictLen val).map uidChar := by
  induction room generalizing val with
  | zero =>
    rw [Nat.pow_zero, Nat.lt_one_iff] at h
    rw [h, Nat.digits_zero]
    rfl
  | succ room ih =>
    unfold encodeLoop
    by_cases hval : val = 0
    · rw [if_pos hval, hval, Nat.digits_zero]
      rfl
    · have hrest : val / uidDictLen < uidDictLen ^ room :=
        Nat.div_lt_of_lt_mul (by rw [Nat.mul_comm, ← Nat.pow_succ]; exact h)
      rw [if_neg hval, Nat.digits_def' (by decide) (Nat.pos_of_ne_zero hval), List.map_cons,
        ih hrest]

theorem map_uidChar_inj {l l' : List Nat} (hl : ∀ d ∈ l, d < uidDictLen)
    (hl' : ∀ d ∈ l', d < uidDictLen) (h : l.map uidChar = l'.map uidChar) : l = l' := by
  induction l generalizing l' with
  | nil => exact (List.map_eq_nil_iff.mp h.symm).symm
  | cons d l ih =>
    cases l' with
    | nil => cases h
    | cons d' l' =>
      rw [List.map_cons, List.map_cons, List.cons.injEq] at h
      rw [uidChar_injOn (hl d List.mem_cons_self) (hl' d' List.mem_cons_self) h.1,
        ih (fun x hx => hl x (List.mem_cons_of_mem d hx))
          (fun x hx => hl' x (List.mem_cons_of_mem d' hx)) h.2]

/-- **The names of different numbers differ.** -/
theorem encodeValTmp_injective (uidVal : UInt64) : Function.Injective (encodeValTmp uidVal) := by
  intro v v' h
  have hroom : ∀ n : UInt64, n.toNat < uidDictLen ^ 15 := fun n =>
    Nat.lt_trans n.toNat_lt (by decide)
  have hdigit : ∀ n : Nat, ∀ d ∈ Nat.digits uidDictLen n, d < uidDictLen := fun n d hd =>
    Nat.digits_lt_base (by decide) hd
  unfold encodeValTmp encodeVal at h
  rw [encodeLoop_eq (hroom _), encodeLoop_eq (hroom _)] at h
  have hdigits := map_uidChar_inj (hdigit _) (hdigit _) h
  have hxor := UInt64.toNat_inj.mp (Nat.digits_inj_iff.mp hdigits)
  exact (UInt64.xor_left_inj uidVal).mp hxor

/-! ## Tables -/

/-- `NameLocated`, without its script, which is 0 in both maps. -/
structure NameLocated where
  nameSpace : Nat
  name : Nat
  deriving DecidableEq

/-- What the readers of both tables get and set: an export, or an import. -/
structure Entry where
  nameSpace : Nat
  name : Nat
  flags : Nat
  deriving DecidableEq

def Entry.located (e : Entry) : NameLocated := ⟨e.nameSpace, e.name⟩

/-- The counts of both tables are of 16 bits. -/
structure Tables where
  exports : List Entry
  imports : List Entry
  exportsCount : exports.length < 2 ^ 16

/-- `GscExportData`: the handle, and the flags as they are remapped. -/
structure GscExportData where
  ref : Nat
  flags : Nat

/-- `T8GSCExportFlags::PRIVATE`. -/
def PRIVATE : Nat := 0x04

def GscExportData.isPrivate (exp : GscExportData) : Bool := exp.flags &&& PRIVATE != 0

/-- The script, its VM and its private file. -/
structure Setup where
  reader : GSCImportReader
  remapFlagsExport : Nat → Nat
  hashField : List Char → UInt64
  uidVal : UInt64

variable (c : Setup)

/-- `exportsMap[nl]`. -/
def exportsMap (t : Tables) (nl : NameLocated) : List GscExportData :=
  (t.exports.zipIdx.filter fun x => x.1.located = nl).map fun x =>
    ⟨x.2, c.remapFlagsExport x.1.flags⟩

/-- The handles of `importsMap[nl]`; none where the name is not found. -/
def importsMap (t : Tables) (nl : NameLocated) : List Nat :=
  (t.imports.zipIdx.filter fun x => x.1.located = nl).map (·.2)

/-- The order in which `exportsMap` is walked. -/
structure Walk (t : Tables) where
  order : List NameLocated
  nodup : order.Nodup
  mem_order : ∀ nl, nl ∈ order ↔ ∃ exp ∈ t.exports, exp.located = nl

/-! ## `KillPrivateExports` -/

/-- `SetName`: the field has the size of a hash. -/
def setName (newName : UInt64) (e : Entry) : Entry :=
  { e with name := newName.toNat % 256 ^ c.reader.hashSize }

def setNameAt (table : List Entry) (newName : UInt64) (handle : Nat) : List Entry :=
  table.modify handle (setName c newName)

/-- The variables of the loop. -/
structure Kill where
  exports : List Entry
  imports : List Entry
  privateCount : Nat

/-- `vmInfo->HashField(EncodeValTmp(privateCount))`. -/
def newName (privateCount : Nat) : UInt64 :=
  c.hashField (encodeValTmp c.uidVal (UInt64.ofNat privateCount))

/-- The export under a name is private, and the only one. -/
def renames (t : Tables) (nl : NameLocated) : Bool :=
  match exportsMap c t nl with
  | [exp] => exp.isPrivate
  | _ => false

def killExport (t : Tables) (k : Kill) (nl : NameLocated) : Kill :=
  match exportsMap c t nl with
  | [exp] =>
    if exp.isPrivate then
      let privateCount := k.privateCount + 1
      let newName := newName c privateCount
      { exports := setNameAt c k.exports newName exp.ref
        imports := (importsMap t nl).foldl (fun imports ref => setNameAt c imports newName ref)
          k.imports
        privateCount := privateCount }
    else k
  | _ => k

def killLoop (t : Tables) (order : List NameLocated) : Kill :=
  order.foldl (killExport c t) ⟨t.exports, t.imports, 0⟩

/-! ## One renaming -/

/-- The handles of the entries under a name. -/
def handlesOf (table : List Entry) (nl : NameLocated) : List Nat :=
  (table.zipIdx.filter fun x => x.1.located = nl).map (·.2)

/-- The generated name that a field holds. -/
def storedName (k : Nat) : Nat := (newName c (k + 1)).toNat % 256 ^ c.reader.hashSize

/-- The entry under the new name of its name, if that is one of those that are done. -/
def rename (done : List NameLocated) (e : Entry) : Entry :=
  if e.located ∈ done then setName c (newName c (done.idxOf e.located + 1)) e else e

section Loop

variable {c} {t : Tables} {table : List Entry} {done : List NameLocated} {nl : NameLocated}

theorem mem_handlesOf {i : Nat} :
    i ∈ handlesOf table nl ↔ ∃ e, table[i]? = some e ∧ e.located = nl := by
  unfold handlesOf
  simp only [List.mem_map, List.mem_filter, decide_eq_true_eq, Prod.exists]
  constructor
  · rintro ⟨e, i, ⟨hmem, hloc⟩, rfl⟩
    exact ⟨e, List.mk_mem_zipIdx_iff_getElem?.mp hmem, hloc⟩
  · rintro ⟨e, hget, hloc⟩
    exact ⟨e, i, ⟨List.mk_mem_zipIdx_iff_getElem?.mpr hget, hloc⟩, rfl⟩

theorem nodup_handlesOf : (handlesOf table nl).Nodup := by
  have hsub : (handlesOf table nl).Sublist (table.zipIdx.map (·.2)) :=
    (List.filter_sublist).map _
  rw [List.zipIdx_map_snd] at hsub
  exact hsub.nodup List.nodup_range'

theorem exportsMap_refs (c : Setup) (t : Tables) (nl : NameLocated) :
    (exportsMap c t nl).map (·.ref) = handlesOf t.exports nl := by
  unfold exportsMap handlesOf
  rw [List.map_map]
  rfl

/-- Setting names at different handles. -/
theorem getElem?_setNames (n : UInt64) {handles : List Nat} (h : handles.Nodup) (j : Nat) :
    (handles.foldl (fun table handle => setNameAt c table n handle) table)[j]? =
      if j ∈ handles then table[j]?.map (setName c n) else table[j]? := by
  induction handles generalizing table with
  | nil => rw [if_neg List.not_mem_nil]; rfl
  | cons handle handles ih =>
    obtain ⟨hnot, hnodup⟩ := List.nodup_cons.mp h
    rw [List.foldl_cons, ih hnodup]
    unfold setNameAt
    rw [List.getElem?_modify]
    by_cases hj : j = handle
    · subst hj
      rw [if_neg hnot, if_pos List.mem_cons_self]
      simp
    · have hcons : j ∈ handle :: handles ↔ j ∈ handles := by simp [hj]
      have hkeep : (fun e => if handle = j then setName c n e else e) <$> table[j]? =
          table[j]? := by
        simp [Ne.symm hj]
      simp only [hcons, hkeep]

theorem rename_snoc (hnl : nl ∉ done) (e : Entry) :
    rename c (done ++ [nl]) e =
      if e.located = nl then setName c (newName c (done.length + 1)) e else rename c done e := by
  unfold rename
  by_cases hloc : e.located = nl
  · rw [if_pos hloc, if_pos (by simp [hloc]), hloc, List.idxOf_append_of_notMem hnl]
    simp
  · rw [if_neg hloc]
    by_cases hdone : e.located ∈ done
    · rw [if_pos (List.mem_append_left _ hdone), if_pos hdone, List.idxOf_append_of_mem hdone]
    · rw [if_neg (by simp [hdone, hloc]), if_neg hdone]

/-- **One name more**: the entries under it are renamed. -/
theorem setNames_rename (c : Setup) (table : List Entry) (hnl : nl ∉ done) :
    (handlesOf table nl).foldl
        (fun table handle => setNameAt c table (newName c (done.length + 1)) handle)
        (table.map (rename c done)) =
      table.map (rename c (done ++ [nl])) := by
  apply List.ext_getElem?
  intro j
  rw [getElem?_setNames _ nodup_handlesOf, List.getElem?_map, List.getElem?_map]
  cases hget : table[j]? with
  | none =>
    split
    · rfl
    · rfl
  | some e =>
    have hmem : j ∈ handlesOf table nl ↔ e.located = nl := by
      rw [mem_handlesOf]
      constructor
      · rintro ⟨e', he', hloc⟩
        rw [hget] at he'
        cases he'
        exact hloc
      · exact fun hloc => ⟨e, hget, hloc⟩
    simp only [hmem, Option.map_some, rename_snoc hnl]
    by_cases hloc : e.located = nl
    · have hkept : rename c done e = e := if_neg (by rw [hloc]; exact hnl)
      rw [if_pos hloc, if_pos hloc, hkept]
    · rw [if_neg hloc, if_neg hloc]

/-- The variables of the loop when the names in front are done. -/
def killed (c : Setup) (t : Tables) (done : List NameLocated) : Kill :=
  ⟨t.exports.map (rename c done), t.imports.map (rename c done), done.length⟩

theorem killExport_killed (hnl : nl ∉ done) :
    killExport c t (killed c t done) nl =
      killed c t (if renames c t nl then done ++ [nl] else done) := by
  have hrefs := exportsMap_refs c t nl
  unfold killExport renames
  cases hmap : exportsMap c t nl with
  | nil => rfl
  | cons exp rest =>
    cases rest with
    | cons exp' rest => rfl
    | nil =>
      dsimp only
      by_cases hprivate : exp.isPrivate = true
      · rw [if_pos hprivate, if_pos hprivate]
        rw [hmap, List.map_cons, List.map_nil] at hrefs
        have hexports := setNames_rename c t.exports hnl
        rw [← hrefs, List.foldl_cons, List.foldl_nil] at hexports
        have himports := setNames_rename c t.imports hnl
        unfold killed
        rw [Kill.mk.injEq]
        refine ⟨hexports, himports, ?_⟩
        rw [List.length_append]
        rfl
      · rw [if_neg hprivate, if_neg hprivate]

theorem foldl_killExport {order : List NameLocated} (h : (done ++ order).Nodup) :
    order.foldl (killExport c t) (killed c t done) =
      killed c t (done ++ order.filter (renames c t)) := by
  induction order generalizing done with
  | nil => rw [List.filter_nil, List.append_nil]; rfl
  | cons nl order ih =>
    have hnl : nl ∉ done := by
      rw [List.nodup_append] at h
      exact fun hmem => h.2.2 nl hmem nl List.mem_cons_self rfl
    rw [List.foldl_cons, killExport_killed hnl]
    by_cases hren : renames c t nl = true
    · rw [if_pos hren, List.filter_cons_of_pos hren, ih (by simpa using h)]
      simp
    · rw [if_neg hren, List.filter_cons_of_neg hren, ih]
      exact h.sublist (List.Sublist.append (List.Sublist.refl _) (List.sublist_cons_self nl order))

/-- **The two loops apply one renaming to both tables.** -/
theorem killLoop_eq {order : List NameLocated} (h : order.Nodup) :
    killLoop c t order = killed c t (order.filter (renames c t)) := by
  have hstart : (⟨t.exports, t.imports, 0⟩ : Kill) = killed c t [] := by
    have hnone : rename c [] = id := funext fun e => if_neg List.not_mem_nil
    unfold killed
    rw [hnone, List.map_id, List.map_id]
    rfl
  unfold killLoop
  have hloop := foldl_killExport (c := c) (t := t) (show ([] ++ order).Nodup from h)
  rw [hstart]
  exact hloop

end Loop

/-- `KillPrivateExports`. -/
def killPrivateExports (t : Tables) (walk : Walk t) : Tables where
  exports := (killLoop c t walk.order).exports
  imports := (killLoop c t walk.order).imports
  exportsCount := by
    rw [killLoop_eq walk.nodup]
    exact lt_of_eq_of_lt (List.length_map _) t.exportsCount

/-! ## What is kept -/

/-- An import resolves to an export of its namespace and name. -/
def Tables.Resolves (t : Tables) (i e : Nat) : Prop :=
  ∃ imp exp, t.imports[i]? = some imp ∧ t.exports[e]? = some exp ∧ imp.located = exp.located

/-- The export is private, and the only one of its namespace and name. -/
def Renamed (t : Tables) (e : Nat) : Prop :=
  ∃ exp, t.exports[e]? = some exp ∧ renames c t exp.located = true

def Tables.exportName (t : Tables) (e : Nat) : Option Nat := t.exports[e]?.map (·.name)

/-- What is expected of the tables behind the pass. -/
structure KeepsLinks (t t' : Tables) : Prop where
  resolves : ∀ i, (∃ e, t.Resolves i e) → ∀ e, t'.Resolves i e ↔ t.Resolves i e
  distinct : ∀ e e', Renamed c t e → Renamed c t e' → e ≠ e' → t'.exportName e ≠ t'.exportName e'
  fresh : ∀ e e', Renamed c t e → e' < t.exports.length → ¬Renamed c t e' →
    t'.exportName e ≠ t.exportName e'
  keeps : ∀ (e : Nat) (exp : Entry), t.exports[e]? = some exp →
    (c.remapFlagsExport exp.flags &&& PRIVATE) = 0 → t'.exports[e]? = some exp

/-- How many names are generated. -/
def renamedCount (t : Tables) : Nat := (t.exports.filter fun exp => renames c t exp.located).length

/-- No export that keeps its name has a name that is generated. -/
def NoneGenerated (t : Tables) : Prop :=
  ∀ exp ∈ t.exports, renames c t exp.located = false →
    ∀ k < renamedCount c t, exp.name ≠ storedName c k

/-- The hash tells the generated names apart. -/
def HashInjective (t : Tables) : Prop :=
  ∀ j < renamedCount c t, ∀ k < renamedCount c t, storedName c j = storedName c k →
    encodeValTmp c.uidVal (UInt64.ofNat (j + 1)) = encodeValTmp c.uidVal (UInt64.ofNat (k + 1))

section Kept

variable {c} {t : Tables} (walk : Walk t)

/-- The names that are renamed, in the order of the walk. -/
def Walk.done (c : Setup) (walk : Walk t) : List NameLocated := walk.order.filter (renames c t)

theorem Walk.nodup_done : (walk.done c).Nodup := walk.nodup.filter _

/-- An export that is renamed is the only one under its name. -/
theorem unique_of_renames {nl : NameLocated} (h : renames c t nl = true) :
    ∃ d, exportsMap c t nl = [d] ∧ d.isPrivate = true := by
  unfold renames at h
  split at h
  · rename_i d hmap
    exact ⟨d, hmap, h⟩
  · cases h

theorem handle_unique {nl : NameLocated} (h : renames c t nl = true) {e e' : Nat}
    {exp exp' : Entry} (he : t.exports[e]? = some exp) (he' : t.exports[e']? = some exp')
    (hloc : exp.located = nl) (hloc' : exp'.located = nl) : e = e' := by
  obtain ⟨d, hmap, -⟩ := unique_of_renames h
  have hrefs := exportsMap_refs c t nl
  rw [hmap, List.map_cons, List.map_nil] at hrefs
  have hmem : e ∈ handlesOf t.exports nl := mem_handlesOf.mpr ⟨exp, he, hloc⟩
  have hmem' : e' ∈ handlesOf t.exports nl := mem_handlesOf.mpr ⟨exp', he', hloc'⟩
  rw [← hrefs, List.mem_singleton] at hmem hmem'
  exact hmem.trans hmem'.symm

/-- Only private exports are renamed. -/
theorem private_of_renames {exp : Entry} {e : Nat} (he : t.exports[e]? = some exp)
    (h : renames c t exp.located = true) : (c.remapFlagsExport exp.flags &&& PRIVATE) ≠ 0 := by
  obtain ⟨d, hmap, hprivate⟩ := unique_of_renames h
  have hmem : (⟨e, c.remapFlagsExport exp.flags⟩ : GscExportData) ∈ exportsMap c t exp.located := by
    unfold exportsMap
    refine List.mem_map.mpr ⟨(exp, e), List.mem_filter.mpr ⟨?_, decide_eq_true rfl⟩, rfl⟩
    exact List.mk_mem_zipIdx_iff_getElem?.mpr he
  rw [hmap, List.mem_singleton] at hmem
  rw [← hmem] at hprivate
  exact bne_iff_ne.mp hprivate

theorem Walk.mem_done {e : Nat} {exp : Entry} (he : t.exports[e]? = some exp) :
    exp.located ∈ walk.done c ↔ renames c t exp.located = true := by
  unfold Walk.done
  rw [List.mem_filter, walk.mem_order]
  exact ⟨And.right, fun h => ⟨⟨exp, List.mem_of_getElem? he, rfl⟩, h⟩⟩

/-- As many names are generated as exports are renamed. -/
theorem Walk.length_done : (walk.done c).length = renamedCount c t := by
  -- the renamed exports with their handles
  let handled := t.exports.zipIdx.filter fun x => renames c t x.1.located
  have hmem : ∀ x ∈ handled, t.exports[x.2]? = some x.1 ∧ renames c t x.1.located = true := by
    rintro ⟨exp, e⟩ hx
    obtain ⟨hzip, hren⟩ := List.mem_filter.mp hx
    exact ⟨List.mk_mem_zipIdx_iff_getElem?.mp hzip, hren⟩
  have hnodup : (handled.map (·.1.located)).Nodup := by
    refine List.Nodup.map_on ?_ (List.Nodup.filter _ ?_)
    · rintro ⟨exp, e⟩ hx ⟨exp', e'⟩ hx' hloc
      obtain ⟨he, hren⟩ := hmem _ hx
      obtain ⟨he', -⟩ := hmem _ hx'
      obtain rfl : e = e' := handle_unique hren he he' rfl hloc.symm
      rw [he] at he'
      cases he'
      rfl
    · refine List.Nodup.of_map (·.2) ?_
      rw [List.zipIdx_map_snd]
      exact List.nodup_range'
  have hperm : (walk.done c).Perm (handled.map (·.1.located)) := by
    rw [List.perm_ext_iff_of_nodup walk.nodup_done hnodup]
    intro nl
    rw [List.mem_map]
    constructor
    · intro hdone
      obtain ⟨horder, hren⟩ := List.mem_filter.mp hdone
      obtain ⟨exp, hexp, rfl⟩ := (walk.mem_order nl).mp horder
      obtain ⟨e, he⟩ := List.getElem?_of_mem hexp
      exact ⟨(exp, e), List.mem_filter.mpr ⟨List.mk_mem_zipIdx_iff_getElem?.mpr he, hren⟩, rfl⟩
    · rintro ⟨x, hx, rfl⟩
      obtain ⟨he, hren⟩ := hmem x hx
      exact (walk.mem_done he).mpr hren
  have hcount : (t.exports.filter fun exp => renames c t exp.located) = handled.map (·.1) := by
    conv_lhs => rw [← List.zipIdx_map_fst 0 t.exports, List.filter_map]
    rfl
  unfold renamedCount
  rw [hperm.length_eq, hcount, List.length_map, List.length_map]

/-- Where the names under an old one stand now. -/
def relocate (c : Setup) (done : List NameLocated) (nl : NameLocated) : NameLocated :=
  if nl ∈ done then { nl with name := storedName c (done.idxOf nl) } else nl

theorem located_rename (done : List NameLocated) (e : Entry) :
    (rename c done e).located = relocate c done e.located := by
  unfold rename relocate
  split
  · rfl
  · rfl

theorem killPrivateExports_exports :
    (killPrivateExports c t walk).exports = t.exports.map (rename c (walk.done c)) :=
  congrArg Kill.exports (killLoop_eq walk.nodup)

theorem killPrivateExports_imports :
    (killPrivateExports c t walk).imports = t.imports.map (rename c (walk.done c)) :=
  congrArg Kill.imports (killLoop_eq walk.nodup)

theorem resolves_iff {i e : Nat} :
    (killPrivateExports c t walk).Resolves i e ↔
      ∃ imp exp, t.imports[i]? = some imp ∧ t.exports[e]? = some exp ∧
        relocate c (walk.done c) imp.located = relocate c (walk.done c) exp.located := by
  unfold Tables.Resolves
  rw [killPrivateExports_exports, killPrivateExports_imports]
  simp only [List.getElem?_map, Option.map_eq_some_iff]
  constructor
  · rintro ⟨_, _, ⟨imp, himp, rfl⟩, ⟨exp, hexp, rfl⟩, hloc⟩
    rw [located_rename, located_rename] at hloc
    exact ⟨imp, exp, himp, hexp, hloc⟩
  · rintro ⟨imp, exp, himp, hexp, hloc⟩
    refine ⟨_, _, ⟨imp, himp, rfl⟩, ⟨exp, hexp, rfl⟩, ?_⟩
    rw [located_rename, located_rename]
    exact hloc

/-- The generated names differ. -/
theorem storedName_injOn (hinj : HashInjective c t) {j k : Nat} (hj : j < renamedCount c t)
    (hk : k < renamedCount c t) (h : storedName c j = storedName c k) : j = k := by
  have hcount : renamedCount c t < 2 ^ 16 :=
    Nat.lt_of_le_of_lt (List.length_filter_le _ _) t.exportsCount
  have hval := congrArg UInt64.toNat (encodeValTmp_injective c.uidVal (hinj j hj k hk h))
  rw [UInt64.toNat_ofNat_of_lt', UInt64.toNat_ofNat_of_lt'] at hval
  · omega
  · show k + 1 < 2 ^ 64
    omega
  · show j + 1 < 2 ^ 64
    omega

/-- **The names of the exports stay apart**, as long as no name that is kept is generated. -/
theorem relocate_injOn (hinj : HashInjective c t) (hnone : NoneGenerated c t) {exp exp' : Entry}
    (hexp : exp ∈ t.exports) (hexp' : exp' ∈ t.exports)
    (h : relocate c (walk.done c) exp.located = relocate c (walk.done c) exp'.located) :
    exp.located = exp'.located := by
  obtain ⟨e, he⟩ := List.getElem?_of_mem hexp
  obtain ⟨e', he'⟩ := List.getElem?_of_mem hexp'
  have hlt : ∀ nl ∈ walk.done c, (walk.done c).idxOf nl < renamedCount c t := by
    intro nl hnl
    rw [← walk.length_done]
    exact List.idxOf_lt_length_of_mem hnl
  have hkept : ∀ exp₁ ∈ t.exports, exp₁.located ∉ walk.done c → ∀ nl ∈ walk.done c,
      exp₁.name ≠ storedName c ((walk.done c).idxOf nl) := by
    intro exp₁ hexp₁ hnot nl hnl
    obtain ⟨e₁, he₁⟩ := List.getElem?_of_mem hexp₁
    rw [walk.mem_done he₁, Bool.not_eq_true] at hnot
    exact hnone exp₁ hexp₁ hnot _ (hlt nl hnl)
  unfold relocate at h
  by_cases hdone : exp.located ∈ walk.done c
  · by_cases hdone' : exp'.located ∈ walk.done c
    · rw [if_pos hdone, if_pos hdone', NameLocated.mk.injEq] at h
      have hidx := storedName_injOn hinj (hlt _ hdone) (hlt _ hdone') h.2
      exact (List.idxOf_inj hdone).mp hidx
    · rw [if_pos hdone, if_neg hdone'] at h
      exact absurd (congrArg NameLocated.name h).symm (hkept exp' hexp' hdone' _ hdone)
  · by_cases hdone' : exp'.located ∈ walk.done c
    · rw [if_neg hdone, if_pos hdone'] at h
      exact absurd (congrArg NameLocated.name h) (hkept exp hexp hdone _ hdone')
    · rw [if_neg hdone, if_neg hdone'] at h
      exact h

/-- The name of a renamed export is generated. -/
theorem exportName_renamed {e : Nat} {exp : Entry} (he : t.exports[e]? = some exp)
    (hren : renames c t exp.located = true) :
    (walk.done c).idxOf exp.located < renamedCount c t ∧
      (killPrivateExports c t walk).exportName e =
        some (storedName c ((walk.done c).idxOf exp.located)) := by
  have hdone := (walk.mem_done he).mpr hren
  refine ⟨by rw [← walk.length_done]; exact List.idxOf_lt_length_of_mem hdone, ?_⟩
  unfold Tables.exportName
  rw [killPrivateExports_exports, List.getElem?_map, he, Option.map_some, Option.map_some, rename,
    if_pos hdone]
  rfl

/-- **The links are kept exactly when no name that is kept is generated.** -/
theorem killPrivateExports_keepsLinks_iff (c : Setup) (t : Tables) (walk : Walk t)
    (hinj : HashInjective c t) :
    KeepsLinks c t (killPrivateExports c t walk) ↔ NoneGenerated c t := by
  constructor
  · intro h exp hexp hkept k hk hname
    -- the export that gets the name
    rw [← walk.length_done] at hk
    have hdone : (walk.done c)[k] ∈ walk.done c := List.getElem_mem hk
    obtain ⟨horder, hren⟩ := List.mem_filter.mp hdone
    obtain ⟨exp', hexp', hloc⟩ := (walk.mem_order _).mp horder
    obtain ⟨e', he'⟩ := List.getElem?_of_mem hexp'
    obtain ⟨e, he⟩ := List.getElem?_of_mem hexp
    rw [← hloc] at hren
    obtain ⟨-, hgen⟩ := exportName_renamed walk he' hren
    rw [hloc, walk.nodup_done.idxOf_getElem] at hgen
    refine h.fresh e' e ⟨exp', he', hren⟩ (List.getElem?_eq_some_iff.mp he).1 ?_ ?_
    · rintro ⟨exp₁, he₁, hren₁⟩
      rw [he] at he₁
      cases he₁
      rw [hkept] at hren₁
      cases hren₁
    · rw [hgen, Tables.exportName, he, Option.map_some, hname]
  · intro hnone
    refine ⟨?_, ?_, ?_, ?_⟩
    · -- resolution
      rintro i ⟨e₀, imp, exp₀, himp, he₀, hloc₀⟩ e
      rw [resolves_iff]
      constructor
      · rintro ⟨imp', exp, himp', he, hloc⟩
        rw [himp] at himp'
        cases himp'
        refine ⟨imp, exp, himp, he, ?_⟩
        rw [hloc₀] at hloc ⊢
        exact relocate_injOn walk hinj hnone (List.mem_of_getElem? he₀) (List.mem_of_getElem? he)
          hloc
      · rintro ⟨imp', exp, himp', he, hloc⟩
        exact ⟨imp', exp, himp', he, by rw [hloc]⟩
    · rintro e e' ⟨exp, he, hren⟩ ⟨exp', he', hren'⟩ hne hname
      obtain ⟨hlt, hgen⟩ := exportName_renamed walk he hren
      obtain ⟨hlt', hgen'⟩ := exportName_renamed walk he' hren'
      rw [hgen, hgen', Option.some.injEq] at hname
      have hidx := storedName_injOn hinj hlt hlt' hname
      have hloc := (List.idxOf_inj ((walk.mem_done he).mpr hren)).mp hidx
      exact hne (handle_unique hren he he' rfl hloc.symm)
    · rintro e e' ⟨exp, he, hren⟩ hlen hkept hname
      obtain ⟨hlt, hgen⟩ := exportName_renamed walk he hren
      have he' := List.getElem?_eq_getElem hlen
      rw [hgen, Tables.exportName, he', Option.map_some, Option.some.injEq] at hname
      refine hnone _ (List.getElem_mem hlen) ?_ _ hlt hname.symm
      rw [Bool.eq_false_iff]
      exact fun hren' => hkept ⟨_, he', hren'⟩
    · intro e exp he hpublic
      have hnot : exp.located ∉ walk.done c := by
        rw [walk.mem_done he]
        exact fun hren => private_of_renames he hren hpublic
      rw [killPrivateExports_exports, List.getElem?_map, he, Option.map_some, rename, if_neg hnot]

end Kept

/-! ## Two scripts -/

/-- `HashField` of the VM `acts`, for names in lower case. -/
def hashFieldActs : List Char → UInt64
  | [] => 0
  | str => str.foldl (fun hash ch => (hash ^^^ UInt64.ofNat ch.toNat) * 0x100000001b3)
    0xcbf29ce484222325

/-- Scripts of 64-bit hashes without a private file. -/
def setupActs : Setup where
  reader := .h64
  remapFlagsExport flags := flags
  hashField := hashFieldActs
  uidVal := 0

/-- Two private exports and a public one, with an import of each and one of another script. -/
def twoPrivate : Tables where
  exports := [⟨1, 100, 4⟩, ⟨1, 200, 4⟩, ⟨1, 300, 0⟩]
  imports := [⟨1, 100, 0⟩, ⟨1, 200, 0⟩, ⟨1, 300, 0⟩, ⟨2, 100, 0⟩]
  exportsCount := by decide

/-- An order for exports of different names. -/
def walkInOrder (t : Tables) (h : (t.exports.map (·.located)).Nodup) : Walk t where
  order := t.exports.map (·.located)
  nodup := h
  mem_order _ := List.mem_map

theorem twoPrivate_keepsLinks :
    KeepsLinks setupActs twoPrivate
      (killPrivateExports setupActs twoPrivate (walkInOrder twoPrivate (by decide))) :=
  (killPrivateExports_keepsLinks_iff setupActs twoPrivate _
    (by unfold HashInjective; decide +kernel)).mpr (by unfold NoneGenerated; decide +kernel)

/-- A private export next to a public one with the name `b`. -/
def publicB : Tables where
  exports := [⟨1, 100, 4⟩, ⟨1, (hashFieldActs ['b']).toNat, 0⟩]
  imports := [⟨1, 100, 0⟩, ⟨1, (hashFieldActs ['b']).toNat, 0⟩]
  exportsCount := by decide

/-- The first generated name is `b`, too: both exports have it. -/
theorem publicB_not_keepsLinks :
    HashInjective setupActs publicB ∧
      ¬KeepsLinks setupActs publicB
        (killPrivateExports setupActs publicB (walkInOrder publicB (by decide +kernel))) := by
  refine ⟨by unfold HashInjective; decide +kernel, fun h => ?_⟩
  have hsame : (killPrivateExports setupActs publicB
      (walkInOrder publicB (by decide +kernel))).exportName 0 = publicB.exportName 1 := by
    decide +kernel
  refine h.fresh 0 1 ⟨⟨1, 100, 4⟩, rfl, by decide +kernel⟩ (by decide) ?_ hsame
  rintro ⟨exp, hexp, hren⟩
  have hpublic : ∀ exp ∈ publicB.exports[1]?, renames setupActs publicB exp.located = false := by
    decide +kernel
  exact Bool.false_ne_true ((hpublic exp hexp).symm.trans hren)

end Acts.Gsc.Obfuscator.PrivateExports
