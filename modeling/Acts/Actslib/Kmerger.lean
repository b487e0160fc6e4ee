import Acts.Lib.Pool

/-!
# The chunk merger (`kmerger.hpp`)

* `KMerger` — the number of units and workers, and how many chunks `CreateChunk` can make.
* `findChunksToMerge` — which chunks are merged next.
* `Phase`, `Act` — where a worker stands between two accesses to shared data, and what its next
  access does.
* `Step`, `Reachable` — the steps of `PushAndJoin` and of the workers, in any order.
* `findChunksToMerge_spec` — chunks are moved, never copied or lost, and at least two of them.

The bodies of critical sections are single steps; `taskCondMutex`, which one task holds over
several of them, is held by the workers in the phases that `Phase.holds` names.  `completed` is
read and written as one memory cell.
-/

set_option autoImplicit false

namespace Acts.Actslib.Kmerger

open Acts.Pool

/-- The constructor refuses other numbers. -/
structure KMerger where
  units : Nat
  workersCount : Nat
  /-- How often `CreateChunk` returns true before it returns false. -/
  chunkCount : Nat
  units_ge : 2 ≤ units
  workers_pos : 0 < workersCount

/-- A chunk; a file is known by the id in its name. -/
structure KMergerChunk where
  layer : Nat
  file : Nat
deriving DecidableEq

inductive KMergerTask
  | create
  | merge (ch : List KMergerChunk)

/-! ## The choice of chunks -/

/-- The loop that takes `n` chunks of a layer out of the list. -/
def takeLayer (layer : Nat) : Nat → List KMergerChunk → List KMergerChunk × List KMergerChunk
  | 0, chunks => ([], chunks)
  | _, [] => ([], [])
  | n + 1, c :: chunks =>
    if c.layer = layer then
      let (ch, rest) := takeLayer layer n chunks
      (c :: ch, rest)
    else
      let (ch, rest) := takeLayer layer (n + 1) chunks
      (ch, c :: rest)

/-- The loop over the layers. -/
def findLayer (units : Nat) (chunks : List KMergerChunk) :
    List Nat → Option (List KMergerChunk × List KMergerChunk)
  | [] => none
  | layer :: layers =>
    if chunks.countP (·.layer = layer) ≥ units then some (takeLayer layer units chunks)
    else findLayer units chunks layers

/-- `FindChunksToMerge`, with the chunks that stay. -/
def findChunksToMerge (units : Nat) (completed : Bool) (maxLayer : Nat)
    (chunks : List KMergerChunk) : Option (List KMergerChunk × List KMergerChunk) :=
  if completed then
    if chunks.length > 1 then
      if units > chunks.length then some (chunks, [])
      else some (chunks.drop (chunks.length - units), chunks.take (chunks.length - units))
    else none
  else findLayer units chunks (List.range (maxLayer + 1))

theorem takeLayer_perm (layer n : Nat) (chunks : List KMergerChunk) :
    chunks.Perm ((takeLayer layer n chunks).1 ++ (takeLayer layer n chunks).2) := by
  fun_induction takeLayer layer n chunks with
  | case1 chunks => exact .refl _
  | case2 n => exact .refl _
  | case3 n c chunks hc ch rest heq ih =>
    rw [heq] at ih
    exact ih.cons c
  | case4 n c chunks hc ch rest heq ih =>
    rw [heq] at ih
    exact (ih.cons c).trans List.perm_middle.symm

theorem takeLayer_length (layer n : Nat) (chunks : List KMergerChunk)
    (h : n ≤ chunks.countP (·.layer = layer)) : (takeLayer layer n chunks).1.length = n := by
  fun_induction takeLayer layer n chunks with
  | case1 chunks => rfl
  | case2 n hn =>
    have : n = 0 := by simpa using h
    exact absurd this hn
  | case3 n c chunks hc ch rest heq ih =>
    rw [heq] at ih
    rw [List.countP_cons_of_pos (by simpa using hc)] at h
    exact congrArg (· + 1) (ih (by omega))
  | case4 n c chunks hc ch rest heq ih =>
    rw [heq] at ih
    rw [List.countP_cons_of_neg (by simpa using hc)] at h
    exact ih h

theorem findLayer_spec {units : Nat} {chunks ch rest : List KMergerChunk} {layers : List Nat}
    (h : findLayer units chunks layers = some (ch, rest)) :
    chunks.Perm (ch ++ rest) ∧ ch.length = units := by
  induction layers with
  | nil => cases h
  | cons layer layers ih =>
    rw [findLayer] at h
    split at h
    · rename_i hcount
      have hperm := takeLayer_perm layer units chunks
      have hlen := takeLayer_length layer units chunks hcount
      rw [Option.some.inj h] at hperm hlen
      exact ⟨hperm, hlen⟩
    · exact ih h

/-- **Chunks are moved, never copied or lost, and at least two of them.** -/
theorem findChunksToMerge_spec {units maxLayer : Nat} {completed : Bool}
    {chunks ch rest : List KMergerChunk} (hunits : 2 ≤ units)
    (h : findChunksToMerge units completed maxLayer chunks = some (ch, rest)) :
    chunks.Perm (ch ++ rest) ∧ 2 ≤ ch.length := by
  unfold findChunksToMerge at h
  split at h
  · split at h
    · split at h
      · cases h
        rw [List.append_nil]
        exact ⟨.refl _, by omega⟩
      · cases h
        refine ⟨?_, by rw [List.length_drop]; omega⟩
        have hperm : (chunks.take (chunks.length - units) ++
            chunks.drop (chunks.length - units)).Perm _ := List.perm_append_comm
        rwa [List.take_append_drop] at hperm
    · cases h
  · obtain ⟨hperm, hlen⟩ := findLayer_spec h
    exact ⟨hperm, by omega⟩

/-- After completion only one chunk is left alone. -/
theorem findChunksToMerge_none {units maxLayer : Nat} {chunks : List KMergerChunk}
    (h : findChunksToMerge units true maxLayer chunks = none) : chunks.length ≤ 1 := by
  unfold findChunksToMerge at h
  rw [if_pos rfl] at h
  split at h
  · split at h <;> cases h
  · omega

/-! ## Workers -/

/-- What a worker does next. -/
inductive Phase
  /-- `PopTask`, or its condition again after a wakeup. -/
  | pop
  /-- In `taskCondVar.wait`. -/
  | waiting
  | ended
  /-- The task "create", up to its new chunk location. -/
  | create
  /-- `CreateChunk`. -/
  | createAt (file : Nat)
  /-- The insertion of the new chunk. -/
  | insertNew (file : Nat)
  /-- `PushCreateChunkTask(true)`. -/
  | pushCreate
  /-- The last "create": up to `completed = true`, with the mutex from here on. -/
  | finish
  /-- `PushMergeTaskIfRequired(false)`. -/
  | finishFind
  | finishPush (ch : List KMergerChunk)
  /-- `notify_all`, and the end of the lock. -/
  | finishNotify
  /-- `PushMergeTaskIfRequired(true)`. -/
  | find
  | pushMerge (ch : List KMergerChunk)
  /-- The task "merge", up to its new chunk location. -/
  | merge (ch : List KMergerChunk)
  /-- `MergeChunks`. -/
  | mergeAt (ch : List KMergerChunk) (file : Nat)
  /-- The insertion of the merged chunk. -/
  | insertMerged (layer file : Nat)

/-- The phases in which `taskCondMutex` is held. -/
def Phase.holds : Phase → Bool
  | .finishFind | .finishPush _ | .finishNotify => true
  | _ => false

/-- The first phase of a task. -/
def KMergerTask.phase : KMergerTask → Phase
  | .create => .create
  | .merge ch => .merge ch

/-- The data that the workers share. -/
structure Shared where
  completed : Bool
  chunks : List KMergerChunk
  maxLayer : Nat
  /-- The last task is the head. -/
  tasks : List KMergerTask
  idGen : Nat
  /-- For each file the created chunks whose contents it holds. -/
  store : Nat → List Nat
  /-- How many chunks `CreateChunk` has made. -/
  created : Nat

/-- A file is written. -/
def writeFile (store : Nat → List Nat) (file : Nat) (content : List Nat) : Nat → List Nat :=
  fun f => if f = file then content else store f

/-- The layer of a merge task. -/
def maxLayerOf (ch : List KMergerChunk) : Nat := ch.foldl (fun layer c => max layer c.layer) 0

/-- What the next access of a worker does to the shared data and its phase, and whom it notifies;
`free` says that `taskCondMutex` is. -/
inductive Act (k : KMerger) (free : Prop) : Shared → Phase → Shared → Phase → Notify → Prop
  | popTask {s t tasks} (hfree : free) (h : s.tasks = t :: tasks) :
    Act k free s .pop { s with tasks } t.phase .none
  | popWait {s} (hfree : free) (h : s.tasks = []) (hc : s.completed = false) :
    Act k free s .pop s .waiting .none
  | popEnd {s} (hfree : free) (h : s.tasks = []) (hc : s.completed = true) :
    Act k free s .pop s .ended .none
  | newId {s} : Act k free s .create { s with idGen := s.idGen + 1 } (.createAt (s.idGen + 1)) .none
  | createChunk {s file} (h : s.created < k.chunkCount) : Act k free s (.createAt file)
    { s with store := writeFile s.store file [s.created], created := s.created + 1 }
    (.insertNew file) .none
  | noChunk {s file} (h : ¬s.created < k.chunkCount) :
    Act k free s (.createAt file) s .finish .none
  | insertNew {s file} : Act k free s (.insertNew file)
    { s with chunks := s.chunks ++ [⟨0, file⟩] } .pushCreate .none
  | pushCreate {s} (hfree : free) :
    Act k free s .pushCreate { s with tasks := .create :: s.tasks } .find .one
  | complete {s} (hfree : free) :
    Act k free s .finish { s with completed := true } .finishFind .none
  | finishNone {s} (h : findChunksToMerge k.units s.completed s.maxLayer s.chunks = none) :
    Act k free s .finishFind s .finishNotify .none
  | finishFind {s ch chunks}
    (h : findChunksToMerge k.units s.completed s.maxLayer s.chunks = some (ch, chunks)) :
    Act k free s .finishFind { s with chunks } (.finishPush ch) .none
  | finishPush {s ch} :
    Act k free s (.finishPush ch) { s with tasks := .merge ch :: s.tasks } .finishNotify .one
  | finishNotify {s} : Act k free s .finishNotify s .pop .all
  | findNone {s} (h : findChunksToMerge k.units s.completed s.maxLayer s.chunks = none) :
    Act k free s .find s .pop .none
  | find {s ch chunks}
    (h : findChunksToMerge k.units s.completed s.maxLayer s.chunks = some (ch, chunks)) :
    Act k free s .find { s with chunks } (.pushMerge ch) .none
  | pushMerge {s ch} (hfree : free) :
    Act k free s (.pushMerge ch) { s with tasks := .merge ch :: s.tasks } .pop .one
  | mergeId {s ch} : Act k free s (.merge ch) { s with idGen := s.idGen + 1 }
    (.mergeAt ch (s.idGen + 1)) .none
  | mergeChunks {s ch file} : Act k free s (.mergeAt ch file)
    { s with store := writeFile s.store file (ch.flatMap fun c => s.store c.file) }
    (.insertMerged (maxLayerOf ch) file) .none
  | insertMerged {s layer file} : Act k free s (.insertMerged layer file)
    { s with chunks := s.chunks ++ [⟨layer + 1, file⟩], maxLayer := max s.maxLayer (layer + 1) }
    .find .none

/-! ## Runs -/

structure MergerState where
  shared : Shared
  workers : List Phase
  /-- `PushAndJoin` has pushed the first task. -/
  started : Bool

/-- No worker holds `taskCondMutex`. -/
def Free (ws : List Phase) : Prop := ∀ p ∈ ws, p.holds = false

/-- A step of `PushAndJoin` or of a worker. -/
inductive Step (k : KMerger) : MergerState → MergerState → Prop
  | start {s ws} (h : s.started = false) (hfree : Free s.workers)
    (hwakes : Wakes .waiting .pop .one s.workers ws) :
    Step k s ⟨{ s.shared with tasks := .create :: s.shared.tasks }, ws, true⟩
  | work {s p shared q n ws} (hact : Act k (Free s.workers) s.shared p shared q n)
    (hmove : Move Phase.waiting .pop p q n s.workers ws) :
    Step k s ⟨shared, ws, s.started⟩

/-- A worker wakes up without a notification. -/
def Spurious (s t : MergerState) : Prop :=
  ∃ i, s.workers[i]? = some .waiting ∧ t = { s with workers := s.workers.set i .pop }

/-- After `Init`. -/
def MergerState.init (k : KMerger) : MergerState where
  shared := ⟨false, [], 0, [], 0, fun _ => [], 0⟩
  workers := List.replicate k.workersCount .pop
  started := false

/-- The state is reached with `steps` steps and `wakeups` spurious wakeups, in any order. -/
inductive Reachable (k : KMerger) : Nat → Nat → MergerState → Prop
  | init : Reachable k 0 0 (.init k)
  | step {steps wakeups s t} (h : Reachable k steps wakeups s) (hstep : Step k s t) :
    Reachable k (steps + 1) wakeups t
  | spurious {steps wakeups s t} (h : Reachable k steps wakeups s) (hwake : Spurious s t) :
    Reachable k steps (wakeups + 1) t

/-- All workers can be joined. -/
def Joined (s : MergerState) : Prop := ∀ p ∈ s.workers, p = .ended

/-- What `PushAndJoin` returns behind its joins: a file and the created chunks in it. -/
def result (s : MergerState) : Option (Nat × List Nat) :=
  match s.shared.chunks with
  | [] => some (s.shared.idGen + 1, [])
  | [c] => some (c.file, s.shared.store c.file)
  | _ => none

end Acts.Actslib.Kmerger
