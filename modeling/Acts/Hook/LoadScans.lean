import Acts.Hook.ScanContainer

/-!
# Scans of many patterns (`hook/generated_scan_runtime.cpp`)

`LoadScansMulti` finds all patterns that are not cached in one walk over the memory: patterns
with a full first byte are looked up by that byte, the others are tried at every offset.

* `compile` — cached patterns are answered, the others are packed and indexed.
* `searchRegions` — the walk; its offsets stop before the end of a region by the longest pattern.
* `useScans` — the results of the walk are read back from the container.

Principal results: `compile_ends` — what the first loop packs; `Compiled.Indexes` — the index.
-/

set_option autoImplicit false

namespace Acts.Hook

/-! ## Model -/

inductive ScanType where
  | relative
  | absolute
  | offset
  | getOffset32
  deriving DecidableEq, Repr

/-- `ref` names the variable that is written. -/
structure ScanInformation where
  scan : Pattern
  type : ScanType
  offset : Int
  postOffset : Int
  single : Bool
  multiple : Bool
  ref : Nat
  deriving DecidableEq, Repr

/-- `res` is the value under `key`. -/
structure CompiledScan where
  scan : ScanInformation
  packed : PackedScan
  deriving DecidableEq, Repr

def ScanInformation.key (si : ScanInformation) : UInt64 := hash64 si.scan

def CompiledScan.key (cs : CompiledScan) : UInt64 := cs.scan.key

/-- The local variables of `LoadScansMulti`: `scindex` and `maskedSc` are chained through
`CompiledScan::next`, the last one first. -/
structure Compiled where
  cscans : List CompiledScan := []
  scindex : UInt8 → List CompiledScan := fun _ => []
  maskedSc : List CompiledScan := []
  maxSize : Nat := 0
  anyMissing : Bool := false

def digit (base : Nat) (c : UInt8) : Option Nat :=
  match ctob c with
  | .ok b => if b.toNat < base then some b.toNat else none
  | .error _ => none

/-- `std::strtoull` -/
def strtoull (str : Pattern) (base : Nat) : Nat :=
  let str := str.dropWhile isspace
  let negative := str.head? == some 0x2D
  let str := if negative || str.head? == some 0x2B then str.tail else str
  let hex := base == 16 && str.head? == some 0x30 && (str.tail.head? == some 0x78 ||
    str.tail.head? == some 0x58) && (str.tail.tail.head?.bind (digit base)).isSome
  let str := if hex then str.tail.tail else str
  let digits := (str.takeWhile fun c => (digit base c).isSome).filterMap (digit base)
  let n := digits.foldl (fun n d => n * base + d) 0
  if 2 ^ 64 ≤ n then 2 ^ 64 - 1
  else if negative then (2 ^ 64 - n) % 2 ^ 64
  else n

variable (p : Platform)

/-- `*ref = value`, or `ref->push_back(value)`. -/
def World.store (w : World) (si : ScanInformation) (ref : Int) : World :=
  { w with
    value := fun r => if r = si.ref && !si.multiple then ref else w.value r
    values := fun r => if r = si.ref && si.multiple then w.values r ++ [ref] else w.values r }

def storeValue (si : ScanInformation) (ref : Int) : M Unit := modify fun w => w.store si ref

/-- `LoadScanOffset` -/
def loadScanOffset (si : ScanInformation) : M Unit := do
  let lib := (← get).container.lib
  let offset :=
    match si.scan with
    | 0x30 :: 0x78 :: str => strtoull str 16
    | str => strtoull str 10
  storeValue si (lib + offset)

/-- `ScanResult::Get<uint32_t>` -/
def get32 (address : Int) : M Nat :=
  match p.peek32 address with
  | some v => pure v
  | none => throw .accessViolation

/-- `GetScanResult` -/
def getScanResult (si : ScanInformation) (res : Int) : M Int := do
  match si.type with
  | .relative =>
    if res = 0 then return 0
    else
      let v ← get32 p (res + si.offset)
      return res + (si.offset + 4) + (v : Int).bmod (2 ^ 32) + si.postOffset
  | .absolute => return res + si.offset + si.postOffset
  | .getOffset32 =>
    let lib := (← get).container.lib
    let v ← get32 p (res + si.offset)
    return lib + (v + si.postOffset) % 2 ^ 32
  | .offset => throw .invalidScanType

/-- `LoadScanResultAll` -/
def loadScanResultAll (si : ScanInformation) : List Int → M Unit
  | [] => pure ()
  | res :: ress => do
    let v ← getScanResult p si res
    storeValue si v
    loadScanResultAll si ress

/-- A cached pattern is answered; `true` where it is missing. -/
def loadCached (si : ScanInformation) (res : List Int) : M Bool := do
  if si.multiple then
    loadScanResultAll p si res
    return false
  else
    match res with
    | [] => return true
    | first :: rest =>
      if si.single && !rest.isEmpty then return true
      else
        let v ← getScanResult p si first
        storeValue si v
        return false

/-- A packed pattern is indexed. -/
def Compiled.add (comp : Compiled) (cs : CompiledScan) : Compiled :=
  { comp with
    cscans := comp.cscans ++ [cs]
    maskedSc := if cs.packed.first.mask ≠ 0xFF then cs :: comp.maskedSc else comp.maskedSc
    scindex := fun b =>
      if cs.packed.first.mask = 0xFF ∧ b = cs.packed.first.searched then cs :: comp.scindex b
      else comp.scindex b
    maxSize := if cs.packed.size > comp.maxSize then cs.packed.size else comp.maxSize }

/-- The first loop of `LoadScansMulti`. -/
def compile : List ScanInformation → Compiled → M Compiled
  | [], comp => pure comp
  | si :: list, comp => do
    if si.type = .offset then
      loadScanOffset si
      compile list comp
    else
      let cached ← getCached si.scan
      if cached.loaded then
        let w ← get
        let isMissing ← loadCached p si (scanCached w.container.lib cached)
        compile list { comp with anyMissing := comp.anyMissing || isMissing }
      else
        match packScan si.scan with
        | .error e => throw e
        | .ok packed => compile list (comp.add ⟨si, packed⟩)

/-- A result is kept once. -/
def addRva (rva : Nat) (value : ResultValue) : ResultValue :=
  { value with res := pushNew value.res rva }

section Search

variable (comp : Compiled) (lib : Int)

def searchScan (region : MemoryRegion) (off : Nat) (results : Results) (msc : CompiledScan) :
    Results :=
  if msc.packed.matchesAt region off then
    upsert {} addRva results (msc.key, rloc lib (msc.packed.location region off))
  else results

def searchOffset (region : MemoryRegion) (results : Results) (off : Nat) : Results :=
  (comp.scindex (region.data.getD off 0)).foldl (searchScan lib region off)
    (comp.maskedSc.foldl (searchScan lib region off) results)

/-- `for (off = 0; off + maxSize <= regionSize; off++)` -/
def searchRegion (results : Results) (region : MemoryRegion) : Results :=
  (List.range (region.data.length + 1 - comp.maxSize)).foldl (searchOffset comp lib region) results

def searchRegions (regions : List MemoryRegion) (results : Results) : Results :=
  regions.foldl (searchRegion comp lib) results

end Search

/-- `res->loaded = true` -/
def World.markLoaded (w : World) (k : UInt64) : World :=
  w.setResults (w.container.results.insert k { w.valueAt k with loaded := true })

/-- `ScanSingle` or `ScanAny` -/
def scanAs (single : Bool) (path : Pattern) : M Int :=
  if single then scanSingle p path else scanAny p path

/-- A compiled pattern is loaded, and its results are used. -/
def useScan (cs : CompiledScan) : M Unit := do
  modify fun w => w.markLoaded cs.key
  if cs.scan.multiple then
    let ress ← scan p cs.scan.scan
    loadScanResultAll p cs.scan ress
  else
    let res ← scanAs p cs.scan.single cs.scan.scan
    let v ← getScanResult p cs.scan res
    storeValue cs.scan v

/-- The last loop of `LoadScansMulti`. -/
def useScans : List CompiledScan → M Unit
  | [] => pure ()
  | cs :: cscans => do
    useScan p cs
    useScans cscans

def setIgnoreMissing (b : Bool) : M Unit :=
  modify fun w => { w with container := { w.container with ignoreMissing := b } }

/-- `LoadScansMulti` -/
def loadScansMulti (list : List ScanInformation) : M Unit := do
  let oldIgnoreMissing := (← get).container.ignoreMissing
  setIgnoreMissing true
  let comp ← compile p list {}
  modify fun w => { w with container := { w.container with foundMissing := comp.anyMissing } }
  if comp.cscans = [] then
    if comp.anyMissing && !oldIgnoreMissing then throw .missingScans
    else setIgnoreMissing oldIgnoreMissing
  else
    modify fun w => w.setResults (searchRegions comp w.container.lib
      (readableRegions p w.container.lib) w.container.results)
    useScans p comp.cscans
    setIgnoreMissing oldIgnoreMissing
    let w ← get
    if w.container.foundMissing && !oldIgnoreMissing then throw .missingScans

/-! ## Frames -/

/-- Only the table, the references and `foundMissing` differ. -/
structure Frame (w w' : World) : Prop where
  lib : w'.container.lib = w.container.lib
  uid : w'.container.uid = w.container.uid
  scanPath : w'.container.scanPath = w.container.scanPath
  savePost : w'.container.savePost = w.container.savePost
  sync : w'.container.sync = w.container.sync
  anyUpdate : w'.container.anyUpdate = w.container.anyUpdate
  ignoreMissing : w'.container.ignoreMissing = w.container.ignoreMissing
  files : w'.files = w.files

/-- No value differs either. -/
structure Touched (w w' : World) : Prop extends Frame w w' where
  valueAt : ∀ k, w'.valueAt k = w.valueAt k

section Frames

variable {p} {w w' w'' : World} {si : ScanInformation}

theorem Frame.refl (w : World) : Frame w w := ⟨rfl, rfl, rfl, rfl, rfl, rfl, rfl, rfl⟩

theorem Frame.trans (h : Frame w w') (h' : Frame w' w'') : Frame w w'' where
  lib := h'.lib.trans h.lib
  uid := h'.uid.trans h.uid
  scanPath := h'.scanPath.trans h.scanPath
  savePost := h'.savePost.trans h.savePost
  sync := h'.sync.trans h.sync
  anyUpdate := h'.anyUpdate.trans h.anyUpdate
  ignoreMissing := h'.ignoreMissing.trans h.ignoreMissing
  files := h'.files.trans h.files

theorem Frame.synced (h : Frame w w') (hs : Synced w) : Synced w' := by
  unfold Synced at hs ⊢
  rw [h.lib, h.sync]
  exact hs

theorem Touched.refl (w : World) : Touched w w := ⟨.refl w, fun _ => rfl⟩

theorem Touched.trans (h : Touched w w') (h' : Touched w' w'') : Touched w w'' :=
  ⟨h.toFrame.trans h'.toFrame, fun k => (h'.valueAt k).trans (h.valueAt k)⟩

theorem frame_setResults (w : World) (results : Results) : Frame w (w.setResults results) :=
  ⟨rfl, rfl, rfl, rfl, rfl, rfl, rfl, rfl⟩

theorem touched_touch (w : World) (k : UInt64) : Touched w (w.touch k) := by
  obtain ⟨results, htouch⟩ := touch_eq w k
  refine ⟨htouch ▸ frame_setResults w results, fun k' => ?_⟩
  unfold World.valueAt
  rw [lookup_touch]
  by_cases hk : k' = k
  · rw [if_pos hk, hk]
    rfl
  · rw [if_neg hk]

theorem storeValue_touched (si : ScanInformation) (ref : Int) (w : World) :
    ∃ w', storeValue si ref w = .ok ⟨⟩ w' ∧ Touched w w' :=
  ⟨w.store si ref, rfl, ⟨rfl, rfl, rfl, rfl, rfl, rfl, rfl, rfl⟩, fun _ => rfl⟩

theorem loadScanOffset_touched (si : ScanInformation) (w : World) :
    ∃ w', loadScanOffset si w = .ok ⟨⟩ w' ∧ Touched w w' := by
  unfold loadScanOffset
  rw [get_bind]
  exact storeValue_touched _ _ w

/-- A result is read, or the read faults. -/
theorem getScanResult_ends (hsi : si.type ≠ .offset) (res : Int) :
    EndsIn (getScanResult p si res) w (fun _ w' => w' = w)
      (fun e w' => e = .accessViolation ∧ w' = w) := by
  have hget : ∀ address, EndsIn (get32 p address) w (fun _ w' => w' = w)
      (fun e w' => e = .accessViolation ∧ w' = w) := by
    intro address
    unfold get32
    split
    · exact .of_ok rfl rfl
    · exact .of_error rfl ⟨rfl, rfl⟩
  unfold getScanResult
  split
  · split
    · exact .of_ok rfl rfl
    · apply (hget _).bind (fun _ _ h => h)
      rintro v w' rfl
      exact .of_ok rfl rfl
  · exact .of_ok rfl rfl
  · apply EndsIn.get
    dsimp only
    apply (hget _).bind (fun _ _ h => h)
    rintro v w' rfl
    exact .of_ok rfl rfl
  · rename_i hoffset
    exact absurd hoffset hsi

/-- A result is read and stored. -/
theorem storeResult_ends {α : Type} {f : PUnit → M α} {R : α → World → Prop}
    {E : Failure → World → Prop} (hsi : si.type ≠ .offset) (res : Int)
    (hE : ∀ w', Touched w w' → E .accessViolation w')
    (hf : ∀ w', Touched w w' → EndsIn (f ⟨⟩) w' R E) :
    EndsIn (do let v ← getScanResult p si res; storeValue si v >>= f) w R E := by
  apply (getScanResult_ends hsi res).bind
  · rintro e w' ⟨rfl, rfl⟩
    exact hE w' (.refl w')
  · rintro v w' rfl
    obtain ⟨w₁, hstore, htouched⟩ := storeValue_touched si v w'
    exact .after hstore (hf w₁ htouched)

theorem loadScanResultAll_ends (hsi : si.type ≠ .offset) (ress : List Int) (w : World) :
    EndsIn (loadScanResultAll p si ress) w (fun _ w' => Touched w w')
      (fun e w' => e = .accessViolation ∧ Touched w w') := by
  induction ress generalizing w with
  | nil => exact .of_ok rfl (.refl w)
  | cons res ress ih =>
    unfold loadScanResultAll
    apply storeResult_ends hsi res
    · exact fun w' h => ⟨rfl, h⟩
    · intro w' h
      exact (ih w').mono (fun _ _ h' => h.trans h') fun _ _ h' => ⟨h'.1, h.trans h'.2⟩

theorem loadCached_ends (hsi : si.type ≠ .offset) (res : List Int) (w : World) :
    EndsIn (loadCached p si res) w (fun _ w' => Touched w w')
      (fun e w' => e = .accessViolation ∧ Touched w w') := by
  unfold loadCached
  split
  · apply (loadScanResultAll_ends hsi res w).bind fun _ _ h => h
    intro _ w' h
    exact .of_ok rfl h
  · split
    · exact .of_ok rfl (.refl w)
    · split
      · exact .of_ok rfl (.refl w)
      · apply storeResult_ends hsi
        · exact fun w' h => ⟨rfl, h⟩
        · exact fun w' h => .of_ok rfl h

end Frames

/-! ## The first loop -/

/-- The pattern has to be searched. -/
def pending (w : World) (si : ScanInformation) : Bool :=
  si.type ≠ .offset && !(w.valueAt si.key).loaded

/-- The length of the longest pattern. -/
def longest (scans : List PackedScan) : Nat := scans.foldl (fun n scan => max n scan.size) 0

/-- The index holds the compiled patterns, each where its first byte leads. -/
structure Compiled.Indexes (comp : Compiled) : Prop where
  index : ∀ cs ∈ comp.cscans, ∀ b,
    (cs.packed.first.mask = 0xFF → b = cs.packed.first.searched) →
    cs ∈ comp.maskedSc ++ comp.scindex b
  of_index : ∀ b, ∀ cs ∈ comp.maskedSc ++ comp.scindex b, cs ∈ comp.cscans
  maxSize : comp.maxSize = longest (comp.cscans.map (·.packed))
  packed : ∀ cs ∈ comp.cscans, packScan cs.scan.scan = .ok cs.packed

theorem Compiled.Indexes.empty : ({} : Compiled).Indexes where
  index cs hcs := by cases hcs
  of_index b cs hcs := by cases hcs
  maxSize := rfl
  packed cs hcs := by cases hcs

theorem Compiled.Indexes.add {comp : Compiled} (h : comp.Indexes) {cs : CompiledScan}
    (hpack : packScan cs.scan.scan = .ok cs.packed) : (comp.add cs).Indexes where
  index cs' hcs' b hb := by
    rcases List.mem_append.mp hcs' with hcs' | hcs'
    · have hold := h.index cs' hcs' b hb
      rcases List.mem_append.mp hold with hold | hold
      · apply List.mem_append_left
        show cs' ∈ if _ then _ else _
        split
        · exact List.mem_cons_of_mem _ hold
        · exact hold
      · apply List.mem_append_right
        show cs' ∈ if _ then _ else _
        split
        · exact List.mem_cons_of_mem _ hold
        · exact hold
    · rw [List.mem_singleton.mp hcs'] at hb ⊢
      by_cases hmask : cs.packed.first.mask = 0xFF
      · apply List.mem_append_right
        show cs ∈ if _ then _ else _
        rw [if_pos ⟨hmask, hb hmask⟩]
        exact List.mem_cons_self
      · apply List.mem_append_left
        show cs ∈ if _ then _ else _
        rw [if_pos hmask]
        exact List.mem_cons_self
  of_index b cs' hcs' := by
    have hcases : cs' = cs ∨ cs' ∈ comp.maskedSc ++ comp.scindex b := by
      rcases List.mem_append.mp hcs' with hcs' | hcs'
      · have hcs' : cs' ∈ if cs.packed.first.mask ≠ 0xFF then cs :: comp.maskedSc
          else comp.maskedSc := hcs'
        split at hcs'
        · rcases List.mem_cons.mp hcs' with hcs' | hcs'
          · exact .inl hcs'
          · exact .inr (List.mem_append_left _ hcs')
        · exact .inr (List.mem_append_left _ hcs')
      · have hcs' : cs' ∈ if cs.packed.first.mask = 0xFF ∧ b = cs.packed.first.searched
          then cs :: comp.scindex b else comp.scindex b := hcs'
        split at hcs'
        · rcases List.mem_cons.mp hcs' with hcs' | hcs'
          · exact .inl hcs'
          · exact .inr (List.mem_append_right _ hcs')
        · exact .inr (List.mem_append_right _ hcs')
    rcases hcases with rfl | hold
    · exact List.mem_append_right _ List.mem_cons_self
    · exact List.mem_append_left _ (h.of_index b cs' hold)
  maxSize := by
    show (if cs.packed.size > comp.maxSize then cs.packed.size else comp.maxSize) =
      longest ((comp.cscans ++ [cs]).map (·.packed))
    rw [List.map_append, longest, List.foldl_append, ← longest, ← h.maxSize]
    show _ = max comp.maxSize cs.packed.size
    split
    · omega
    · omega
  packed cs' hcs' := by
    rcases List.mem_append.mp hcs' with hcs' | hcs'
    · exact h.packed cs' hcs'
    · rw [List.mem_singleton.mp hcs']
      exact hpack

theorem Compiled.Indexes.anyMissing {comp : Compiled} (h : comp.Indexes) (b : Bool) :
    ({ comp with anyMissing := b } : Compiled).Indexes :=
  ⟨h.index, h.of_index, h.maxSize, h.packed⟩

section Compile

variable {p} {w w' : World}

theorem pending_congr (h : Touched w w') : pending w' = pending w := by
  funext si
  unfold pending
  rw [h.valueAt]

/-- **The first loop packs what is not cached**, and throws where a pattern is malformed or the
result of a cached one cannot be read. -/
theorem compile_ends (list : List ScanInformation) (comp : Compiled) (w : World)
    (hs : Synced w) (hcomp : comp.Indexes) :
    EndsIn (compile p list comp) w
      (fun comp' w' => Touched w w' ∧ comp'.Indexes ∧
        comp'.cscans.map (·.scan) = comp.cscans.map (·.scan) ++ list.filter (pending w))
      (fun e w' => Touched w w' ∧
        ((∃ si ∈ list, pending w si = true ∧ packScan si.scan = .error e) ∨
          e = .accessViolation ∧
            ∃ si ∈ list, si.type ≠ .offset ∧ (w.valueAt si.key).loaded = true)) := by
  induction list generalizing comp w with
  | nil => exact .of_ok rfl ⟨.refl w, hcomp, by simp⟩
  | cons si list ih =>
    -- the rest of the list, from a state in which the same patterns are cached
    have hrest : ∀ comp' w₁, Touched w w₁ → comp'.Indexes →
        comp'.cscans.map (·.scan) ++ list.filter (pending w) =
          comp.cscans.map (·.scan) ++ (si :: list).filter (pending w) →
        EndsIn (compile p list comp') w₁
          (fun comp' w' => Touched w w' ∧ comp'.Indexes ∧ comp'.cscans.map (·.scan) =
            comp.cscans.map (·.scan) ++ (si :: list).filter (pending w))
          (fun e w' => Touched w w' ∧
            ((∃ si' ∈ si :: list, pending w si' = true ∧ packScan si'.scan = .error e) ∨
              e = .accessViolation ∧ ∃ si' ∈ si :: list, si'.type ≠ .offset ∧
                (w.valueAt si'.key).loaded = true)) := by
      intro comp' w₁ h₁ hindexes heq
      apply (ih comp' w₁ (h₁.toFrame.synced hs) hindexes).mono
      · rintro comp'' w' ⟨h', hindexes', hcscans⟩
        refine ⟨h₁.trans h', hindexes', ?_⟩
        rw [hcscans, pending_congr h₁, heq]
      · rintro e w' ⟨h', hcases⟩
        refine ⟨h₁.trans h', ?_⟩
        rcases hcases with ⟨si', hmem, hpending, hpack⟩ | ⟨he, si', hmem, htype, hloaded⟩
        · rw [pending_congr h₁] at hpending
          exact .inl ⟨si', List.mem_cons_of_mem si hmem, hpending, hpack⟩
        · rw [h₁.valueAt] at hloaded
          exact .inr ⟨he, si', List.mem_cons_of_mem si hmem, htype, hloaded⟩
    unfold compile
    by_cases htype : si.type = .offset
    · rw [if_pos htype]
      obtain ⟨w₁, hload, h₁⟩ := loadScanOffset_touched si w
      have hnot : ¬pending w si = true := by simp [pending, htype]
      exact .after hload (hrest comp w₁ h₁ hcomp (by rw [List.filter_cons_of_neg hnot]))
    · rw [if_neg htype]
      have htouch := touched_touch w si.key
      apply EndsIn.after (getCached_eq hs)
      cases hloaded : (w.valueAt si.key).loaded with
      | true =>
        have hnot : ¬pending w si = true := by simp [pending, hloaded]
        have hif : (w.valueAt (hash64 si.scan)).loaded = true := hloaded
        rw [if_pos hif]
        apply EndsIn.get
        apply (loadCached_ends htype _ _).bind
        · rintro e w' ⟨rfl, h'⟩
          exact ⟨htouch.trans h', .inr ⟨rfl, si, List.mem_cons_self, htype, hloaded⟩⟩
        · intro isMissing w' h'
          apply hrest _ w' (htouch.trans h') (hcomp.anyMissing _)
          rw [List.filter_cons_of_neg hnot]
      | false =>
        have hpending : pending w si = true := by simp [pending, htype, hloaded]
        have hif : ¬(w.valueAt (hash64 si.scan)).loaded = true :=
          fun h => Bool.false_ne_true (hloaded.symm.trans h)
        rw [if_neg hif]
        cases hpack : packScan si.scan with
        | error e =>
          exact .of_error rfl ⟨htouch, .inl ⟨si, List.mem_cons_self, hpending, hpack⟩⟩
        | ok packed =>
          apply hrest _ _ htouch (hcomp.add hpack)
          rw [List.filter_cons_of_pos hpending]
          simp [Compiled.add]

end Compile

end Acts.Hook
