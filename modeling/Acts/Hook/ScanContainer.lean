import Acts.Hook.Scan
import Acts.Lib.Codec
import Acts.Lib.Distinct
import Acts.Lib.Outcome

/-!
# The scan container (`hook/scan_container.cpp`)

A cache of scan results by the hash of the pattern, with one store file per library.

* `load`, `sync`, `save` — `ScanContainer::Load`, `Sync` and `Save`.
* `getCached`, `scan`, `scanSingle`, `scanAny` — the lookup, and a scan where it misses.

Principal results: `readStore_storeBytes` — a store file is read back; `scan_spec`.
-/

set_option autoImplicit false

namespace Acts.Hook

/-! ## State -/

structure ResultValue where
  loaded : Bool := false
  res : List Nat := []
  deriving DecidableEq, Repr

/-- `std::unordered_map<uint64_t, ResultValue>` -/
abbrev Results := AList fun _ : UInt64 => ResultValue

/-- `scanPath` is kept as the `uid` in the file name; `none` is the empty path. -/
structure ScanContainer where
  lib : Int
  uid : Nat
  scanPath : Option Nat
  results : Results
  savePost : Bool
  sync : Bool
  anyUpdate : Bool
  ignoreMissing : Bool
  foundMissing : Bool

/-- The container, the store files by `uid`, and the variables behind `ScanInformation::ref`:
pointers and vectors of pointers. -/
structure World where
  container : ScanContainer
  files : Nat → Option (List UInt8)
  value : Nat → Int
  values : Nat → List Int

abbrev M := EStateM Failure World

def World.setResults (w : World) (results : Results) : World :=
  { w with container := { w.container with results := results } }

@[simp] theorem World.results_setResults (w : World) (results : Results) :
    (w.setResults results).container.results = results := rfl

@[simp] theorem World.setResults_setResults (w : World) (r r' : Results) :
    (w.setResults r).setResults r' = w.setResults r' := rfl

/-! ## Hashes -/

/-- `hash::lowerc` -/
def lowerc (c : UInt8) : UInt8 :=
  if 0x41 ≤ c && c ≤ 0x5A then 0x61 + (c - 0x41)
  else if c = 0x5C then 0x2F
  else c

/-- A signed character, widened. -/
def signExtend (c : UInt8) : UInt64 :=
  if c < 0x80 then c.toUInt64 else c.toUInt64 ||| 0xFFFFFFFFFFFFFF00

/-- `hash::Hash64` -/
def hash64 (str : Pattern) : UInt64 :=
  str.foldl (fun hash c => (hash ^^^ signExtend (lowerc c)) * 0x100000001b3) 0xcbf29ce484222325 &&&
    0x7FFFFFFFFFFFFFFF

/-! ## Store files -/

def CONTAINER_MAGIC : Nat := 0x30435341

def entryBytes (entry : Sigma fun _ : UInt64 => ResultValue) : List UInt8 :=
  leBytes 8 entry.1.toNat ++ leBytes 4 entry.2.res.length ++ entry.2.res.flatMap (leBytes 4)

/-- What `Save` writes. -/
def storeBytes (c : ScanContainer) : List UInt8 :=
  leBytes 4 CONTAINER_MAGIC ++ leBytes 4 c.uid ++ leBytes 4 c.results.entries.length ++
    c.results.entries.flatMap entryBytes

/-- The inner read loop of `Sync`; `none` where the file ends before it does. -/
def readRvas : Nat → ResultValue → List UInt8 → ResultValue × Option (List UInt8)
  | 0, value, bytes => (value, some bytes)
  | n + 1, value, bytes =>
    match (Codec.word 4).read bytes with
    | none => (value, none)
    | some (rva, bytes) => readRvas n { value with res := value.res ++ [rva] } bytes

/-- The outer read loop. -/
def readEntries : Nat → Results → List UInt8 → Results × Option (List UInt8)
  | 0, results, bytes => (results, some bytes)
  | n + 1, results, bytes =>
    match (Codec.word 8).read bytes with
    | none => (results, none)
    | some (hash, bytes) =>
      match (Codec.word 4).read bytes with
      | none => (results, none)
      | some (scans, bytes) =>
        let hash := UInt64.ofNat hash
        let value := { (results.lookup hash).getD {} with loaded := true }
        match readRvas scans value bytes with
        | (value, none) => (results.insert hash value, none)
        | (value, some bytes) => readEntries n (results.insert hash value) bytes

/-- What `Sync` reads into the empty table, and whether it comes to the end. -/
def readStore (uid : Nat) (bytes : List UInt8) : Results × Bool :=
  match (Codec.word 4).read bytes with
  | none => (∅, false)
  | some (magic, bytes) =>
    if magic ≠ CONTAINER_MAGIC then (∅, true)
    else
      match (Codec.word 4).read bytes with
      | none => (∅, false)
      | some (uid', bytes) =>
        if uid' ≠ uid then (∅, true)
        else
          match (Codec.word 4).read bytes with
          | none => (∅, false)
          | some (scans, bytes) =>
            let (results, rest) := readEntries scans ∅ bytes
            (results, rest.isSome)

section Store

variable {value : ResultValue} {results : Results} {rest : List UInt8}

theorem readWord {n v : Nat} (h : v < 256 ^ n) (rest : List UInt8) :
    (Codec.word n).read (leBytes n v ++ rest) = some (v, rest) := (Codec.word n).read_write v h rest

theorem readRvas_eq {rvas : List Nat} (h : ∀ rva ∈ rvas, rva < 256 ^ 4) :
    readRvas rvas.length value (rvas.flatMap (leBytes 4) ++ rest) =
      ({ value with res := value.res ++ rvas }, some rest) := by
  induction rvas generalizing value with
  | nil => simp [readRvas]
  | cons rva rvas ih =>
    rw [List.flatMap_cons, List.append_assoc, List.length_cons, readRvas,
      readWord (h rva List.mem_cons_self)]
    dsimp only
    rw [ih fun r hr => h r (List.mem_cons_of_mem rva hr)]
    simp

/-- The counts and the results fit their words. -/
def EntryFits (entry : Sigma fun _ : UInt64 => ResultValue) : Prop :=
  entry.2.res.length < 256 ^ 4 ∧ ∀ rva ∈ entry.2.res, rva < 256 ^ 4

/-- What reading an entry makes of the value under its hash. -/
def readInto (stored value : ResultValue) : ResultValue where
  loaded := true
  res := value.res ++ stored.res

theorem readEntries_eq (results : Results) (rest : List UInt8)
    {entries : List (Sigma fun _ : UInt64 => ResultValue)} (h : ∀ entry ∈ entries, EntryFits entry) :
    readEntries entries.length results (entries.flatMap entryBytes ++ rest) =
      ((entries.map fun entry => (entry.1, entry.2)).foldl (upsert {} readInto) results,
        some rest) := by
  induction entries generalizing results with
  | nil => rfl
  | cons entry entries ih =>
    obtain ⟨hlen, hrvas⟩ := h entry List.mem_cons_self
    have hhash : entry.1.toNat < 256 ^ 8 := entry.1.toNat_lt
    rw [List.flatMap_cons, List.length_cons, entryBytes]
    simp only [List.append_assoc]
    rw [readEntries, readWord hhash]
    dsimp only
    rw [readWord hlen]
    dsimp only
    rw [readRvas_eq hrvas]
    dsimp only
    rw [ih _ fun e he => h e (List.mem_cons_of_mem entry he), UInt64.ofNat_toNat]
    rfl

theorem lookup_stored {entries : List (Sigma fun _ : UInt64 => ResultValue)}
    (h : entries.NodupKeys) (k : UInt64) :
    ((entries.map fun entry => (entry.1, entry.2)).foldl (upsert {} readInto)
        (∅ : Results)).lookup k =
      (entries.dlookup k).map fun value => { value with loaded := true } := by
  cases hk : entries.dlookup k with
  | none =>
    rw [lookup_foldl_upsert_other]
    · rfl
    · intro hit hhit
      obtain ⟨entry, hentry, rfl⟩ := List.mem_map.mp hhit
      rintro rfl
      exact List.dlookup_eq_none.mp hk (List.mem_keys_of_mem hentry)
  | some value =>
    obtain ⟨before, after, rfl⟩ := List.append_of_mem (List.of_mem_dlookup hk)
    have hother : ∀ entry ∈ before ++ after, entry.1 ≠ k := by
      intro entry hentry hkey
      have hnodup := List.nodupKeys_middle.mp h
      have hnot := (List.nodupKeys_cons.mp hnodup).1
      have hmem : entry.1 ∈ (before ++ after).keys := List.mem_keys_of_mem hentry
      rw [hkey] at hmem
      exact hnot hmem
    rw [List.map_append, List.foldl_append, List.map_cons, List.foldl_cons,
      lookup_foldl_upsert_other, upsert, AList.lookup_insert, lookup_foldl_upsert_other]
    · simp [readInto]
    · intro hit hhit
      obtain ⟨entry, hentry, rfl⟩ := List.mem_map.mp hhit
      exact hother entry (List.mem_append_left _ hentry)
    · intro hit hhit
      obtain ⟨entry, hentry, rfl⟩ := List.mem_map.mp hhit
      exact hother entry (List.mem_append_right _ hentry)

/-- **A store file is read back**: under each hash the results that were saved, as loaded. -/
theorem readStore_storeBytes {c : ScanContainer} (huid : c.uid < 256 ^ 4)
    (hcount : c.results.entries.length < 256 ^ 4)
    (hentries : ∀ entry ∈ c.results.entries, EntryFits entry) :
    ∃ results, readStore c.uid (storeBytes c) = (results, true) ∧
      ∀ k, results.lookup k =
        (c.results.lookup k).map fun value => { value with loaded := true } := by
  have hmagic : CONTAINER_MAGIC < 256 ^ 4 := by decide
  have hread := readEntries_eq ∅ [] hentries
  rw [List.append_nil] at hread
  unfold readStore storeBytes
  simp only [List.append_assoc]
  rw [readWord hmagic]
  dsimp only
  rw [if_neg (not_not_intro rfl), readWord huid]
  dsimp only
  rw [if_neg (not_not_intro rfl), readWord hcount]
  dsimp only
  rw [hread]
  exact ⟨_, rfl, lookup_stored c.results.nodupKeys⟩

end Store

/-! ## Operations -/

variable (p : Platform)

/-- `GetContainerPath` -/
def getContainerPath (uid : Nat) : Option Nat := if uid = 0 then none else some uid

/-- `Library::GetUID` -/
def libraryUID (lib : Int) : Nat := if lib = 0 then 0 else (p.getUID lib).toNat

/-- `Save`: no directory is made for the empty path. -/
def save : M Unit := fun w =>
  if w.container.lib = 0 || !w.container.anyUpdate then .ok () w
  else
    match w.container.scanPath with
    | none => .error .cannotOpen w
    | some path =>
      .ok () { w with
        container := { w.container with anyUpdate := false }
        files := fun path' => if path' = path then some (storeBytes w.container) else w.files path' }

/-- The end of `Load`. -/
def World.setLibrary (w : World) (lib : Int) : World :=
  { w with
    container := { w.container with
      lib := lib
      uid := libraryUID p lib
      scanPath := getContainerPath (libraryUID p lib) } }

/-- `Load` -/
def load (lib : Int) : M Unit := do
  let w ← get
  if lib ≠ w.container.lib ∧ w.container.lib ≠ 0 ∧ w.container.savePost = true then
    save
  modify fun w => w.setLibrary p lib

/-- `Sync` -/
def sync (force : Bool) : M Unit := fun w =>
  if w.container.lib = 0 || (w.container.sync && !force) then .ok () w
  else
    let w := { w with container := { w.container with results := ∅, sync := true } }
    match w.container.scanPath.bind w.files with
    | none => .ok () w
    | some bytes =>
      let (results, complete) := readStore w.container.uid bytes
      if complete then .ok () (w.setResults results)
      else .error .readTooMuch (w.setResults results)

/-- `results[hash]` -/
def World.touch (w : World) (hash : UInt64) : World :=
  match w.container.results.lookup hash with
  | some _ => w
  | none => w.setResults (w.container.results.insert hash {})

def World.valueAt (w : World) (hash : UInt64) : ResultValue :=
  (w.container.results.lookup hash).getD {}

/-- `GetCached` -/
def getCached (path : Pattern) : M ResultValue := do
  sync false
  modify fun w => w.touch (hash64 path)
  return (← get).valueAt (hash64 path)

/-- `lib[rva]` for each result; `ScanCached` returns none where the value is not loaded. -/
def scanCached (lib : Int) (val : ResultValue) : List Int :=
  if val.loaded then val.res.map fun (rva : Nat) => lib + (rva : Int) else []

/-- `(uint32_t)lib.Rloc(location)` -/
def rloc (lib location : Int) : Nat := ((location - lib) % 2 ^ 32).toNat

/-- `Scan` -/
def scan (path : Pattern) : M (List Int) := do
  let val ← getCached path
  let w ← get
  if val.loaded then
    return scanCached w.container.lib val
  else
    match scanLibrary p w.container.lib path false with
    | .error e => throw e
    | .ok r =>
      modify fun w => w.setResults (w.container.results.insert (hash64 path)
        { loaded := true, res := val.res ++ r.map (rloc w.container.lib) })
      modify fun w => { w with container := { w.container with anyUpdate := true } }
      return r

/-- A result that is missing, or not unique: the null result, or an exception. -/
def missing (failure : Failure) : M Int := do
  let w ← get
  if w.container.ignoreMissing then
    modify fun w => { w with container := { w.container with foundMissing := true } }
    return 0
  else throw failure

/-- `ScanSingle` -/
def scanSingle (path : Pattern) : M Int := do
  match ← scan p path with
  | [] => missing .cannotFind
  | [location] => return location
  | _ => missing .tooManyFinds

/-- `ScanAny` -/
def scanAny (path : Pattern) : M Int := do
  match ← scan p path with
  | [] => missing .cannotFind
  | location :: _ => return location

/-- `ScanContainer(lib, savePost)`, where the store files are these. -/
def newContainer (lib : Int) (savePost : Bool) (files : Nat → Option (List UInt8)) : World where
  container :=
    { lib := lib
      uid := libraryUID p lib
      scanPath := getContainerPath (libraryUID p lib)
      results := ∅
      savePost := savePost
      sync := false
      anyUpdate := false
      ignoreMissing := false
      foundMissing := false }
  files := files
  value := fun _ => 0
  values := fun _ => []

/-! ## What the lookup and the scan do -/

/-- `Sync()` has nothing to do. -/
def Synced (w : World) : Prop := w.container.lib = 0 ∨ w.container.sync = true

section Spec

variable {p} {w : World} {k : UInt64} {path : Pattern}

theorem sync_of_synced (h : Synced w) : sync false w = .ok () w := by
  unfold sync
  rw [if_pos]
  rcases h with h | h
  · simp [h]
  · simp [h]

theorem lookup_touch (w : World) (k k' : UInt64) :
    (w.touch k).container.results.lookup k' =
      if k' = k then some (w.valueAt k) else w.container.results.lookup k' := by
  unfold World.touch World.valueAt
  cases h : w.container.results.lookup k with
  | some value =>
    by_cases hk : k' = k
    · rw [if_pos hk, hk, h]
      rfl
    · rw [if_neg hk]
  | none =>
    by_cases hk : k' = k
    · rw [if_pos hk, hk]
      simp
    · rw [if_neg hk]
      simp [AList.lookup_insert_ne hk]

theorem touch_eq (w : World) (k : UInt64) :
    ∃ results, w.touch k = w.setResults results := by
  unfold World.touch
  cases h : w.container.results.lookup k with
  | some value => exact ⟨w.container.results, rfl⟩
  | none => exact ⟨_, rfl⟩

theorem getCached_eq (h : Synced w) :
    getCached path w = .ok (w.valueAt (hash64 path)) (w.touch (hash64 path)) := by
  unfold getCached
  rw [bind_ok (sync_of_synced h), modify_bind, get_bind]
  show EStateM.Result.ok _ _ = _
  congr 1
  unfold World.valueAt
  rw [lookup_touch, if_pos rfl]
  rfl

/-- The lookup starts with a `Sync()`. -/
theorem getCached_presync {w₁ : World} (h : sync false w = .ok ⟨⟩ w₁) (h₁ : Synced w₁) :
    getCached path w = getCached path w₁ :=
  bind_of_eq (h.trans (sync_of_synced h₁).symm)

theorem scan_presync {w₁ : World} (h : sync false w = .ok ⟨⟩ w₁) (h₁ : Synced w₁) :
    scan p path w = scan p path w₁ := bind_of_eq (getCached_presync h h₁)

/-- `Sync` changes the table and `sync`, and what it does depends on the container and its file. -/
theorem sync_frame {w₁ : World} {force : Bool} (h : sync force w = .ok ⟨⟩ w₁) (b : Bool)
    (value : Nat → Int) (values : Nat → List Int) :
    w₁.container.lib = w.container.lib ∧ w₁.container.ignoreMissing = w.container.ignoreMissing ∧
      w₁.value = w.value ∧ w₁.values = w.values ∧
      sync force { w with
        container := { w.container with ignoreMissing := b }, value := value, values := values } =
      .ok ⟨⟩ { w₁ with
        container := { w₁.container with ignoreMissing := b }, value := value, values := values } := by
  unfold sync at h ⊢
  dsimp only at h ⊢
  split at h
  · rename_i hguard
    cases h
    rw [if_pos hguard]
    exact ⟨rfl, rfl, rfl, rfl, rfl⟩
  · rename_i hguard
    rw [if_neg hguard]
    cases hfile : w.container.scanPath.bind w.files with
    | none =>
      rw [hfile] at h
      cases h
      exact ⟨rfl, rfl, rfl, rfl, rfl⟩
    | some bytes =>
      rw [hfile] at h
      dsimp only at h ⊢
      split at h
      · rename_i hcomplete
        cases h
        rw [if_pos hcomplete]
        exact ⟨rfl, rfl, rfl, rfl, rfl⟩
      · cases h

theorem touch_of_loaded (h : (w.valueAt k).loaded = true) : w.touch k = w := by
  unfold World.valueAt at h
  unfold World.touch
  cases hk : w.container.results.lookup k with
  | some value => rfl
  | none =>
    rw [hk] at h
    cases h

/-- A cached result. -/
theorem scan_of_loaded (h : Synced w) (hloaded : (w.valueAt (hash64 path)).loaded = true) :
    scan p path w = .ok (scanCached w.container.lib (w.valueAt (hash64 path))) w := by
  unfold scan
  rw [bind_ok (getCached_eq h), touch_of_loaded hloaded, get_bind]
  dsimp only
  rw [if_pos hloaded]
  rfl

/-- A pattern that cannot be scanned leaves an entry that is not loaded. -/
theorem scan_of_error (h : Synced w) (hloaded : (w.valueAt (hash64 path)).loaded = false)
    {e : Failure} (he : scanLibrary p w.container.lib path false = .error e) :
    scan p path w = .error e (w.touch (hash64 path)) := by
  obtain ⟨results, htouch⟩ := touch_eq w (hash64 path)
  unfold scan
  rw [bind_ok (getCached_eq h), get_bind]
  dsimp only
  have hlib : (w.touch (hash64 path)).container.lib = w.container.lib := by rw [htouch]; rfl
  rw [hloaded, if_neg Bool.false_ne_true, hlib, he]
  rfl

/-- A scan records what it finds. -/
theorem scan_of_ok (h : Synced w) (hloaded : (w.valueAt (hash64 path)).loaded = false)
    {r : List Int} (hr : scanLibrary p w.container.lib path false = .ok r) :
    ∃ results, scan p path w = .ok r
        { w with container := { w.container with results := results, anyUpdate := true } } ∧
      ∀ k, results.lookup k = if k = hash64 path then
          some ⟨true, (w.valueAt (hash64 path)).res ++ r.map (rloc w.container.lib)⟩
        else w.container.results.lookup k := by
  obtain ⟨results, htouch⟩ := touch_eq w (hash64 path)
  have hlib : (w.touch (hash64 path)).container.lib = w.container.lib := by rw [htouch]; rfl
  refine ⟨(w.touch (hash64 path)).container.results.insert (hash64 path)
    ⟨true, (w.valueAt (hash64 path)).res ++ r.map (rloc w.container.lib)⟩, ?_, ?_⟩
  · unfold scan
    rw [bind_ok (getCached_eq h), get_bind]
    dsimp only
    rw [hloaded, if_neg Bool.false_ne_true, hlib, hr]
    dsimp only
    rw [modify_bind, modify_bind, hlib, htouch]
    rfl
  · intro k
    by_cases hk : k = hash64 path
    · rw [if_pos hk, hk, AList.lookup_insert]
    · rw [if_neg hk, AList.lookup_insert_ne hk, lookup_touch, if_neg hk]

end Spec

end Acts.Hook
