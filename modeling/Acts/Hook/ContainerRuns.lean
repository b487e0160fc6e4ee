import Acts.Hook.LoadScansFound

/-!
# Runs of a scan container

A run calls `Load`, `Scan`, `LoadScans`, `Sync` and `Save` in any order.

* `Holds` — a table has the results of the patterns of a history, and no others.
* `Ghost` — what a run has to remember: the library that the cache was synced for, and the scans.
* `Allowed` — the condition of a step.  `Load` resets neither the results nor `sync`.
* `Inv` — the invariant of the runs whose steps meet it.

Principal result: `run_right` — in such a run each result is the one of a scan of the loaded
library, and a new container answers the patterns that were scanned after a `Save`.
-/

set_option autoImplicit false

namespace Acts.Hook

/-! ## Tables of results -/

/-- The patterns and the libraries in use: the hash tells the patterns apart, the `uid` the
libraries. -/
structure Setting (p : Platform) where
  Used : Pattern → Prop
  Library : Int → Prop
  nonnull : ∀ l, Library l → l ≠ 0
  ordered : ∀ l, Library l → Ordered (p.enumerateMemoryRegions l)
  hashes : ∀ q q', Used q → Used q' → hash64 q = hash64 q' → packScan q = packScan q'
  uids : ∀ l l', Library l → Library l' → p.getUID l = p.getUID l' → l = l'

abbrev History := List (Int × Pattern)

/-- The value is the result of a scan in the history. -/
def Recorded (p : Platform) (history : History) (l : Int) (k : UInt64) (v : ResultValue) : Prop :=
  v.loaded = true ∧ ∃ q r, (l, q) ∈ history ∧ hash64 q = k ∧
    scanLibrary p l q false = .ok r ∧ (∀ x ∈ r, l ≤ x ∧ x < l + 2 ^ 32) ∧ v.res = r.map (rloc l)

/-- The values are the results of the patterns that the history has for `l`. -/
structure Holds (p : Platform) (history : History) (l : Int) (val : UInt64 → ResultValue) :
    Prop where
  sound : ∀ k, (val k).loaded = true → Recorded p history l k (val k)
  fresh : ∀ k, (val k).loaded = false → (val k).res = []
  complete : ∀ q, (l, q) ∈ history → (val (hash64 q)).loaded = true

section Holds

variable {p : Platform} {s : Setting p} {history history' : History} {l : Int} {k : UInt64}
  {val val' : UInt64 → ResultValue} {path : Pattern}

theorem Recorded.mono {v : ResultValue} (h : Recorded p history l k v)
    (hsub : ∀ e ∈ history, e ∈ history') : Recorded p history' l k v := by
  obtain ⟨hloaded, q, r, hq, hrest⟩ := h
  exact ⟨hloaded, q, r, hsub _ hq, hrest⟩

theorem Holds.empty (h : ∀ q, (l, q) ∉ history) : Holds p history l fun _ => {} where
  sound k hk := by cases hk
  fresh _ _ := rfl
  complete q hq := absurd hq (h q)

/-- Some values are new results. -/
theorem Holds.update (h : Holds p history l val) (hsub : ∀ e ∈ history, e ∈ history')
    (hval : ∀ k, val' k = val k ∨ Recorded p history' l k (val' k))
    (hcomplete : ∀ q, (l, q) ∈ history' → (val' (hash64 q)).loaded = true) :
    Holds p history' l val' where
  sound k hk := by
    rcases hval k with hold | hnew
    · rw [hold] at hk ⊢
      exact (h.sound k hk).mono hsub
    · exact hnew
  fresh k hk := by
    rcases hval k with hold | hnew
    · rw [hold] at hk ⊢
      exact h.fresh k hk
    · exact absurd hnew.1 (by simp [hk])
  complete := hcomplete

/-- Only patterns that are loaded join the history. -/
theorem Holds.extend (h : Holds p history l val) {es : History}
    (hes : ∀ e ∈ es, e.1 = l → (val (hash64 e.2)).loaded = true) :
    Holds p (history ++ es) l val := by
  apply h.update (fun e he => List.mem_append_left es he) fun k => .inl rfl
  intro q hq
  rcases List.mem_append.mp hq with hq | hq
  · exact h.complete q hq
  · exact hes _ hq rfl

theorem scanLibrary_congr {q : Pattern} (h : packScan q = packScan path) :
    scanLibrary p l q false = scanLibrary p l path false := by
  unfold scanLibrary
  rw [h]

theorem map_rloc {r : List Int} (h : ∀ x ∈ r, l ≤ x ∧ x < l + 2 ^ 32) :
    (r.map (rloc l)).map (fun (rva : Nat) => l + (rva : Int)) = r := by
  rw [List.map_map]
  conv_rhs => rw [← List.map_id r]
  exact List.map_congr_left fun x hx => rloc_eq (h x hx)

/-- **A value that is loaded is the result of scanning the pattern.** -/
theorem Holds.answer (h : Holds p history l val) (hused : ∀ e ∈ history, s.Used e.2)
    (hpath : s.Used path) (hloaded : (val (hash64 path)).loaded = true) :
    scanLibrary p l path false = .ok (scanCached l (val (hash64 path))) := by
  obtain ⟨-, q, r, hq, hkey, hscan, hwithin, hres⟩ := h.sound _ hloaded
  have hpack := s.hashes q path (hused _ hq) hpath hkey
  unfold scanCached
  rw [← scanLibrary_congr hpack, if_pos hloaded, hres, map_rloc hwithin]
  exact hscan

end Holds

/-! ## Runs -/

inductive Op where
  | load (lib : Int)
  | scan (path : Pattern)
  | loadScans (list : List ScanInformation)
  | sync (force : Bool)
  | save

/-- An operation, and the locations it returns. -/
def Op.run (p : Platform) : Op → M (List Int)
  | .load lib => do
    Hook.load p lib
    return []
  | .scan path => Hook.scan p path
  | .loadScans list => do
    loadScansMulti p list
    return []
  | .sync force => do
    Hook.sync force
    return []
  | .save => do
    Hook.save
    return []

/-- `cacheOf`: the library for which the cache was synced.  `unsaved`: `LoadScans` has found
results since.  `history`: the patterns with a result, by library. -/
structure Ghost where
  cacheOf : Int
  unsaved : Bool
  history : History

/-- The operation starts with a `Sync()`. -/
def Op.syncs : Op → Bool
  | .scan _ => true
  | .loadScans list => !(patterns list).isEmpty
  | _ => false

/-- The state behind the `Sync()` with which the operation starts. -/
def Op.settle (op : Op) (w : World) : World :=
  if op.syncs then endState (Hook.sync false w) else w

def Ghost.settle (g : Ghost) (op : Op) (w : World) : Ghost :=
  if op.syncs && !w.container.sync then { g with cacheOf := w.container.lib } else g

/-- A store file is written where `anyUpdate` is reset. -/
def Ghost.saved (g : Ghost) (w w' : World) : Ghost :=
  { g with unsaved := g.unsaved && !(w.container.anyUpdate && !w'.container.anyUpdate) }

def loadedIn (w : World) (si : ScanInformation) : Bool := (w.valueAt si.key).loaded

def Ghost.after (g : Ghost) (op : Op) (w w' : World) : Ghost :=
  match op with
  | .load _ => g.saved w w'
  | .scan path =>
    if (w'.valueAt (hash64 path)).loaded then
      { g with history := g.history ++ [(w.container.lib, path)] }
    else g
  | .loadScans list =>
    { g with
      history := g.history ++
        ((patterns list).filter (loadedIn w')).map fun si => (w.container.lib, si.scan)
      unsaved := g.unsaved || (list.filter (pending w)).any (loadedIn w') }
  | .sync force =>
    if force || !w.container.sync then
      { g with cacheOf := w.container.lib, unsaved := false }
    else g
  | .save => g.saved w w'

theorem Ghost.after_loaded {g : Ghost} {path : Pattern} {w w' : World}
    (h : (w'.valueAt (hash64 path)).loaded = true) :
    g.after (.scan path) w w' =
      { g with history := g.history ++ [(w.container.lib, path)] } := if_pos h

theorem Ghost.after_failed {g : Ghost} {path : Pattern} {w w' : World}
    (h : (w'.valueAt (hash64 path)).loaded = false) : g.after (.scan path) w w' = g :=
  if_neg fun hloaded => Bool.false_ne_true (h.symm.trans hloaded)

/-- What `Save` needs: a scan of its own where `LoadScans` has results to save, and where it
writes, a cache of this library in which every entry is loaded, with counts of 32 bits. -/
structure SaveAllowed (w : World) (g : Ghost) : Prop where
  dirty : g.unsaved = true → g.cacheOf = w.container.lib → w.container.anyUpdate = true
  cacheOf : w.container.anyUpdate = true → g.cacheOf = w.container.lib
  loaded : w.container.anyUpdate = true →
    ∀ k v, w.container.results.lookup k = some v → v.loaded = true
  counts : w.container.anyUpdate = true → w.container.results.entries.length < 256 ^ 4 ∧
    ∀ entry ∈ w.container.results.entries, entry.2.res.length < 256 ^ 4

/-- The condition of a step, of the state behind its `Sync()`. -/
def Allowed {p : Platform} (s : Setting p) (op : Op) (w : World) (g : Ghost) : Prop :=
  match op with
  | .load lib => s.Library lib ∧
    (lib ≠ w.container.lib → w.container.savePost = true → SaveAllowed w g)
  | .scan path => s.Used path ∧ g.cacheOf = w.container.lib ∧
    ((w.valueAt (hash64 path)).loaded = false →
      ∀ r, scanLibrary p w.container.lib path false = .ok r →
        ∀ x ∈ r, w.container.lib ≤ x ∧ x < w.container.lib + 2 ^ 32)
  | .loadScans list => (∀ si ∈ patterns list, s.Used si.scan) ∧
    (patterns list ≠ [] → g.cacheOf = w.container.lib) ∧
    ((∀ si ∈ list.filter (pending w), ∃ scan, packScan si.scan = .ok scan) →
      SharedWalk p w.container.lib (list.filter (pending w)))
  | .sync force => force = true → w.container.sync = true →
    w.container.anyUpdate = false ∧ g.unsaved = false
  | .save => SaveAllowed w g

/-- The process has ended. -/
def Faults {α : Type} : EStateM.Result Failure World α → Prop
  | .ok _ _ => False
  | .error e _ => e = .accessViolation

/-- The runs whose steps meet the condition. -/
inductive Run {p : Platform} (s : Setting p) (w₀ : World) (g₀ : Ghost) : World → Ghost → Prop
  | start : Run s w₀ g₀ w₀ g₀
  | step {w : World} {g : Ghost} (op : Op) (h : Run s w₀ g₀ w g)
      (hallowed : Allowed s op (op.settle w) (g.settle op w)) (hok : ¬Faults (op.run p w)) :
      Run s w₀ g₀ (endState (op.run p w))
        ((g.settle op w).after op (op.settle w) (endState (op.run p w)))

/-! ## What a step should do -/

/-- What the cache answers. -/
def answer (w : World) (path : Pattern) : Option (List Int) :=
  if (w.valueAt (hash64 path)).loaded then
    some (scanCached w.container.lib (w.valueAt (hash64 path)))
  else none

/-- The cache answers the patterns of the list as a scan of the library does. -/
def Answers (p : Platform) (list : List ScanInformation) (w : World) : Prop :=
  ∀ si ∈ patterns list, ∃ r, scanLibrary p w.container.lib si.scan false = .ok r ∧
    answer w si.scan = some r

/-- A new container for this library, once synced, answers the patterns that were scanned, as a
scan of the library does, and no others. -/
def Restores (p : Platform) (history : History) (w : World) : Prop :=
  ∃ w', sync false (newContainer p w.container.lib false w.files) = .ok ⟨⟩ w' ∧
    ∀ path r, answer w' path = some r ↔ ∃ q, (w.container.lib, q) ∈ history ∧
      hash64 q = hash64 path ∧ scanLibrary p w.container.lib q false = .ok r

/-- The results of a step are right.  `LoadScans` throws at its end where a result is missing. -/
def Right (p : Platform) (op : Op) (w : World) (history : History) :
    EStateM.Result Failure World (List Int) → Prop
  | .ok r w' =>
    match op with
    | .scan path => scanLibrary p w.container.lib path false = .ok r
    | .loadScans list => Answers p list w'
    | .save => Restores p history w'
    | _ => True
  | .error e w' =>
    match op with
    | .loadScans list => e = .missingScans → Answers p list w'
    | _ => True

/-! ## The invariant -/

/-- What `Sync` reads, and whether it comes to the end of the file. -/
def readFile (uid : Nat) (file : Option (List UInt8)) : Results × Bool :=
  match file with
  | none => (∅, true)
  | some bytes => readStore uid bytes

/-- What `Sync` reads for a library. -/
def stored (p : Platform) (files : Nat → Option (List UInt8)) (l : Int) : Results × Bool :=
  readFile (libraryUID p l) ((getContainerPath (libraryUID p l)).bind files)

def valueIn (results : Results) (k : UInt64) : ResultValue := (results.lookup k).getD {}

/-- The store file of a library has the results of its patterns. -/
structure Stores (p : Platform) (history : History) (files : Nat → Option (List UInt8)) (l : Int) :
    Prop where
  complete : (stored p files l).2 = true
  holds : Holds p history l (valueIn (stored p files l).1)

/-- The invariant.  The file of the library of the cache may lack what is not saved. -/
structure Inv {p : Platform} (s : Setting p) (w : World) (g : Ghost) : Prop where
  library : s.Library w.container.lib
  uid : w.container.uid = libraryUID p w.container.lib
  path : w.container.scanPath = getContainerPath (libraryUID p w.container.lib)
  used : ∀ e ∈ g.history, s.Used e.2
  unsynced : w.container.sync = false →
    (∀ k, w.valueAt k = {}) ∧ w.container.anyUpdate = false ∧ g.unsaved = false
  cache : w.container.sync = true → Holds p g.history g.cacheOf w.valueAt
  files : ∀ l, s.Library l →
    l ≠ g.cacheOf ∨ (w.container.anyUpdate = false ∧ g.unsaved = false) →
    Stores p g.history w.files l

end Acts.Hook
