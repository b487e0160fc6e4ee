import Acts.Actslib.Kmerger

/-!
# Runs of the chunk merger

* `Inv` — the invariant: one task creates chunks until completion, each created chunk is in one
  file, and whoever may still have to merge has not finished.
* `reachable_inv` — it holds in every state, however the steps are interleaved.
* `progress` — a worker can always go on, until all have ended.
* `pushAndJoin_sound` — **the steps of a run are bounded, it only stops when all workers have
  ended, and then there is one chunk with every created chunk in it once.**
-/

set_option autoImplicit false

namespace Acts.Actslib.Kmerger

open Acts.Pool

/-! ## Numbers and lists over all workers -/

/-- The workers that run the task "create", until it is pushed again or completes. -/
def Phase.token : Phase → Nat
  | .create | .createAt _ | .insertNew _ | .pushCreate | .finish => 1
  | _ => 0

/-- The workers that will look for chunks to merge. -/
def Phase.pending : Phase → Nat
  | .finishFind | .finishPush _ | .find | .pushMerge _ | .merge _ | .mergeAt _ _
  | .insertMerged _ _ => 1
  | _ => 0

def Phase.isEnded : Phase → Nat
  | .ended => 1
  | _ => 0

def Phase.isWaiting : Phase → Nat
  | .waiting => 1
  | _ => 0

def Phase.isFinish : Phase → Nat
  | .finish => 1
  | _ => 0

def Phase.isHolder (p : Phase) : Nat := if p.holds then 1 else 0

/-- The workers that go on without a notification. -/
def Phase.isAwake : Phase → Nat
  | .ended | .waiting => 0
  | _ => 1

/-- The chunks that a worker has. -/
def Phase.held : Phase → List KMergerChunk
  | .insertNew file => [⟨0, file⟩]
  | .finishPush ch | .pushMerge ch | .merge ch | .mergeAt ch _ => ch
  | .insertMerged layer file => [⟨layer + 1, file⟩]
  | _ => []

/-- The files that a worker will write. -/
def Phase.reserved : Phase → List Nat
  | .createAt file | .mergeAt _ file => [file]
  | _ => []

def KMergerTask.token : KMergerTask → Nat
  | .create => 1
  | .merge _ => 0

/-- The tasks that will look for chunks to merge. -/
def KMergerTask.pending : KMergerTask → Nat
  | .create => 0
  | .merge _ => 1

def KMergerTask.chunks : KMergerTask → List KMergerChunk
  | .create => []
  | .merge ch => ch

/-- All chunks that have been made and not been merged. -/
def allChunks (s : MergerState) : List KMergerChunk :=
  s.shared.chunks ++ (gather KMergerTask.chunks s.shared.tasks ++ gather Phase.held s.workers)

/-- All files that have a chunk, or will have one. -/
def allFiles (s : MergerState) : List Nat :=
  (allChunks s).map KMergerChunk.file ++ gather Phase.reserved s.workers

/-- The created chunks in the contents of some chunks. -/
def contents (store : Nat → List Nat) (ch : List KMergerChunk) : List Nat :=
  ch.flatMap fun c => store c.file

/-! ## The invariant -/

/-- Who creates chunks, who may still merge, and who waits. -/
structure Control (k : KMerger) (s : MergerState) : Prop where
  workers : s.workers.length = k.workersCount
  token : total KMergerTask.token s.shared.tasks + total Phase.token s.workers +
    (!s.started).toNat + s.shared.completed.toNat = 1
  merged : s.shared.completed.toNat = 0 ∨ s.shared.chunks.length ≤ 1 ∨
    0 < total Phase.pending s.workers + total KMergerTask.pending s.shared.tasks
  ended : total Phase.isEnded s.workers = 0 ∨ s.shared.completed.toNat = 1
  holder : total Phase.isHolder s.workers = 0 ∨ s.shared.completed.toNat = 1
  waiting : s.shared.completed.toNat = 0 ∨ total Phase.isWaiting s.workers = 0 ∨
    0 < total Phase.isHolder s.workers
  awake : s.shared.tasks.length = 0 ∨ 0 < total Phase.isAwake s.workers
  created_le : s.shared.created ≤ k.chunkCount
  created : s.shared.created = k.chunkCount ∨
    total Phase.isFinish s.workers + s.shared.completed.toNat = 0

theorem total_cons {α : Type} (f : α → Nat) (a : α) (as : List α) :
    total f (a :: as) = f a + total f as := List.sum_cons

theorem total_replicate {α : Type} (f : α → Nat) (n : Nat) (a : α) :
    total f (List.replicate n a) = n * f a := by
  simp [total]

theorem control_init (k : KMerger) : Control k (.init k) where
  workers := List.length_replicate
  token := by
    unfold MergerState.init
    rw [total_replicate]
    rfl
  merged := .inl rfl
  ended := .inl (by unfold MergerState.init; rw [total_replicate]; rfl)
  holder := .inl (by unfold MergerState.init; rw [total_replicate]; rfl)
  waiting := .inl rfl
  awake := .inl rfl
  created_le := Nat.zero_le _
  created := .inr (by unfold MergerState.init; rw [total_replicate]; rfl)

theorem phases_total (ws : List Phase) :
    total Phase.isAwake ws + total Phase.isEnded ws + total Phase.isWaiting ws = ws.length := by
  induction ws with
  | nil => rfl
  | cons w ws ih =>
    rw [total_cons, total_cons, total_cons, List.length_cons]
    have hw : w.isAwake + w.isEnded + w.isWaiting = 1 := by cases w <;> rfl
    omega

theorem waiting_eq_zero {ws : List Phase} :
    total Phase.isWaiting ws = 0 ↔ Phase.waiting ∉ ws := by
  have hpos := total_pos_iff Phase.isWaiting ws
  constructor
  · intro h hmem
    have := hpos.mpr ⟨_, hmem, Nat.one_pos⟩
    omega
  · intro h
    by_contra hne
    obtain ⟨p, hp, hpw⟩ := hpos.mp (Nat.pos_of_ne_zero hne)
    cases p <;> simp [Phase.isWaiting] at hpw
    exact h hp

section Step

variable {k : KMerger} {s t : MergerState}

theorem Control.start {ws : List Phase} (h : Control k s) (hstart : s.started = false)
    (hwakes : Wakes .waiting .pop .one s.workers ws) :
    Control k ⟨{ s.shared with tasks := .create :: s.shared.tasks }, ws, true⟩ := by
  have htoken := h.token
  rw [hstart] at htoken
  have hcompleted : s.shared.completed.toNat = 0 := by simp at htoken; omega
  constructor
  · exact hwakes.length.trans h.workers
  · dsimp only
    rw [total_cons, hwakes.total rfl]
    simp [KMergerTask.token] at htoken ⊢
    omega
  · exact .inl hcompleted
  · left
    dsimp only
    rw [hwakes.total rfl]
    exact h.ended.resolve_right (by omega)
  · left
    dsimp only
    rw [hwakes.total rfl]
    exact h.holder.resolve_right (by omega)
  · exact .inl hcompleted
  · -- nobody has ended, so there is somebody to wake up, or awake
    right
    have hended : total Phase.isEnded s.workers = 0 := h.ended.resolve_right (by omega)
    have hpos := k.workers_pos
    have hall := phases_total s.workers
    have hlen := h.workers
    dsimp only
    cases hwakes with
    | nobody _ hnone =>
      have hwaiting : total Phase.isWaiting s.workers = 0 := waiting_eq_zero.mpr hnone
      omega
    | one _ j hj =>
      have hset : total Phase.isAwake (s.workers.set j .pop) + Phase.isAwake .waiting =
        total Phase.isAwake s.workers + Phase.isAwake .pop := total_set _ hj
      simp only [Phase.isAwake] at hset
      omega
  · exact h.created_le
  · dsimp only
    rw [hwakes.total rfl]
    exact h.created

/-- A step of a worker, in numbers. -/
theorem Control.work {p q : Phase} {n : Notify} {shared : Shared} {ws : List Phase}
    (h : Control k s) (hact : Act k (Free s.workers) s.shared p shared q n)
    (hmove : Move Phase.waiting .pop p q n s.workers ws) : Control k ⟨shared, ws, s.started⟩ := by
  have hlen := hmove.length
  have htoken : total Phase.token ws + p.token = total Phase.token s.workers + q.token :=
    hmove.total rfl
  have hpending : total Phase.pending ws + p.pending = total Phase.pending s.workers + q.pending :=
    hmove.total rfl
  have hended : total Phase.isEnded ws + p.isEnded = total Phase.isEnded s.workers + q.isEnded :=
    hmove.total rfl
  have hholder : total Phase.isHolder ws + p.isHolder =
    total Phase.isHolder s.workers + q.isHolder := hmove.total rfl
  have hwaiting : total Phase.isWaiting ws + p.isWaiting ≤
    total Phase.isWaiting s.workers + q.isWaiting := hmove.total_le (Nat.zero_le 1)
  have hfinish : total Phase.isFinish ws + p.isFinish =
    total Phase.isFinish s.workers + q.isFinish := hmove.total rfl
  have hawake : total Phase.isAwake s.workers + q.isAwake ≤ total Phase.isAwake ws + p.isAwake :=
    hmove.le_total (Nat.zero_le 1)
  have hnobody : n = .all → total Phase.isWaiting ws = 0 := by
    rintro rfl
    obtain ⟨i, -, hw⟩ := hmove
    exact waiting_eq_zero.mpr (hw.nobody_asleep (by simp))
  have htoken' := hmove.le_source Phase.token
  have hpending' := hmove.le_source Phase.pending
  have hholder' := hmove.le_source Phase.isHolder
  have hawake' := hmove.le_source Phase.isAwake
  have hfinish' := hmove.le_source Phase.isFinish
  obtain ⟨hworkers, h₁, h₂, h₃, h₄, h₅, h₆, h₇, h₈⟩ := h
  have hbool : s.shared.completed.toNat ≤ 1 := Bool.toNat_le _
  -- after completion `FindChunksToMerge` only stops at one chunk
  have hnone : findChunksToMerge k.units s.shared.completed s.shared.maxLayer s.shared.chunks = none
      → s.shared.completed.toNat = 0 ∨ s.shared.chunks.length ≤ 1 := by
    intro hfind
    cases hc : s.shared.completed with
    | false => exact .inl rfl
    | true =>
      rw [hc] at hfind
      exact .inr (findChunksToMerge_none hfind)
  cases hact
  case popTask task tasks hfree ht =>
    rw [ht, total_cons] at h₁ h₂
    cases task
    all_goals
      simp only [KMergerTask.token, KMergerTask.pending, KMergerTask.phase, Phase.token,
        Phase.pending, Phase.isEnded, Phase.isHolder, Phase.holds, Phase.isWaiting, Phase.isFinish,
        Phase.isAwake, Bool.false_eq_true, if_false] at *
      refine ⟨hlen.trans hworkers, ?_, ?_, ?_, ?_, ?_, ?_, ?_, ?_⟩ <;> dsimp only <;> omega
  case popWait hfree ht hc =>
    have hc' : s.shared.completed.toNat = 0 := by rw [hc]; rfl
    have ht' : s.shared.tasks.length = 0 := by rw [ht]; rfl
    simp only [Phase.token, Phase.pending, Phase.isEnded, Phase.isHolder, Phase.holds,
      Phase.isWaiting, Phase.isFinish, Phase.isAwake, Bool.false_eq_true, if_false] at *
    refine ⟨hlen.trans hworkers, ?_, ?_, ?_, ?_, ?_, ?_, ?_, ?_⟩ <;> dsimp only <;> omega
  case popEnd hfree ht hc =>
    have hc' : s.shared.completed.toNat = 1 := by rw [hc]; rfl
    have ht' : s.shared.tasks.length = 0 := by rw [ht]; rfl
    simp only [Phase.token, Phase.pending, Phase.isEnded, Phase.isHolder, Phase.holds,
      Phase.isWaiting, Phase.isFinish, Phase.isAwake, Bool.false_eq_true, if_false] at *
    refine ⟨hlen.trans hworkers, ?_, ?_, ?_, ?_, ?_, ?_, ?_, ?_⟩ <;> dsimp only <;> omega
  case complete hfree =>
    -- this worker has the token, so nobody has completed before
    simp only [Phase.token, Phase.pending, Phase.isEnded, Phase.isHolder, Phase.holds,
      Phase.isWaiting, Phase.isFinish, Phase.isAwake, Bool.false_eq_true, if_true, if_false] at *
    have htrue : true.toNat = 1 := rfl
    refine ⟨hlen.trans hworkers, ?_, ?_, ?_, ?_, ?_, ?_, ?_, ?_⟩ <;> dsimp only <;> omega
  case finishNotify =>
    have hnobody' := hnobody rfl
    simp only [Phase.token, Phase.pending, Phase.isEnded, Phase.isHolder, Phase.holds,
      Phase.isWaiting, Phase.isFinish, Phase.isAwake, Bool.false_eq_true, if_true, if_false] at *
    refine ⟨hlen.trans hworkers, ?_, ?_, ?_, ?_, ?_, ?_, ?_, ?_⟩ <;> dsimp only <;> omega
  case' finishNone hfind => replace hnone := hnone hfind
  case' findNone hfind => replace hnone := hnone hfind
  all_goals
    simp only [Phase.token, Phase.pending, Phase.isEnded, Phase.isHolder, Phase.holds,
      Phase.isWaiting, Phase.isFinish, Phase.isAwake, Bool.false_eq_true, if_true, if_false] at *
    refine ⟨hlen.trans hworkers, ?_, ?_, ?_, ?_, ?_, ?_, ?_, ?_⟩ <;>
      simp only [total_cons, KMergerTask.token, KMergerTask.pending] <;> omega

end Step

/-! ## The chunks and their contents -/

/-- Each file belongs to one chunk, or to one worker that will write it. -/
structure Items (s : MergerState) : Prop where
  files : (allFiles s).Nodup
  ids : ∀ f ∈ allFiles s, f ≤ s.shared.idGen
  used : (contents s.shared.store (allChunks s)).Perm (List.range s.shared.created)

theorem contents_append (store : Nat → List Nat) (as bs : List KMergerChunk) :
    contents store (as ++ bs) = contents store as ++ contents store bs := List.flatMap_append

theorem contents_perm (store : Nat → List Nat) {as bs : List KMergerChunk} (h : as.Perm bs) :
    (contents store as).Perm (contents store bs) := h.flatMap_right _

/-- A file that no chunk has can be written. -/
theorem contents_writeFile {store : Nat → List Nat} {file : Nat} {ch : List KMergerChunk}
    (h : file ∉ ch.map KMergerChunk.file) (content : List Nat) :
    contents (writeFile store file content) ch = contents store ch := by
  induction ch with
  | nil => rfl
  | cons c ch ih =>
    rw [List.map_cons, List.mem_cons, not_or] at h
    simp only [contents, List.flatMap_cons] at ih ⊢
    rw [ih h.2, writeFile, if_neg (Ne.symm h.1)]

theorem contents_new (store : Nat → List Nat) (layer file : Nat) (content : List Nat) :
    contents (writeFile store file content) [⟨layer, file⟩] = content := by
  simp [contents, writeFile]

section Move

variable {s t : MergerState} {p q : Phase} {n : Notify}

/-- What a step does to all chunks, from what it does to those it touches. -/
theorem allChunks_move (hmove : Move Phase.waiting .pop p q n s.workers t.workers)
    (minus plus : List KMergerChunk)
    (h : (t.shared.chunks ++ gather KMergerTask.chunks t.shared.tasks ++ q.held ++ minus).Perm
      (s.shared.chunks ++ gather KMergerTask.chunks s.shared.tasks ++ p.held ++ plus)) :
    (allChunks t ++ minus).Perm (allChunks s ++ plus) := by
  have hheld := hmove.gather (g := Phase.held) rfl
  rw [List.perm_iff_count] at h hheld ⊢
  intro c
  have h := h c
  have hheld := hheld c
  simp only [allChunks, List.count_append] at h hheld ⊢
  omega

theorem allFiles_move (hmove : Move Phase.waiting .pop p q n s.workers t.workers)
    {cminus cplus : List KMergerChunk} (hch : (allChunks t ++ cminus).Perm (allChunks s ++ cplus))
    (minus plus : List Nat)
    (h : (q.reserved ++ cplus.map KMergerChunk.file ++ minus).Perm
      (p.reserved ++ cminus.map KMergerChunk.file ++ plus)) :
    (allFiles t ++ minus).Perm (allFiles s ++ plus) := by
  have hres := hmove.gather (g := Phase.reserved) rfl
  have hfiles := hch.map KMergerChunk.file
  rw [List.perm_iff_count] at h hres hfiles ⊢
  intro f
  have h := h f
  have hres := hres f
  have hfiles := hfiles f
  simp only [allFiles, List.map_append, List.count_append] at h hres hfiles ⊢
  omega

/-- The file that a worker will write belongs to no chunk. -/
theorem Items.reserved_fresh (h : Items s) {file : Nat} (hp : p ∈ s.workers)
    (hfile : file ∈ p.reserved) : file ∉ (allChunks s).map KMergerChunk.file := by
  have hdisjoint := (List.nodup_append.mp h.files).2.2
  exact fun hmem => hdisjoint _ hmem _ (List.mem_flatMap.mpr ⟨p, hp, hfile⟩) rfl

theorem held_subset (hp : p ∈ s.workers) : p.held ⊆ allChunks s := by
  intro c hc
  exact List.mem_append_right _ (List.mem_append_right _ (List.mem_flatMap.mpr ⟨p, hp, hc⟩))

/-- Files go, or come with new ids. -/
theorem Items.of_perm (h : Items s) (minus plus : List Nat)
    (hfiles : (allFiles t ++ minus).Perm (allFiles s ++ plus)) (hplus : plus.Nodup)
    (hnew : ∀ f ∈ plus, s.shared.idGen < f ∧ f ≤ t.shared.idGen)
    (hid : s.shared.idGen ≤ t.shared.idGen)
    (hused : (contents t.shared.store (allChunks t)).Perm
      (List.range t.shared.created)) : Items t := by
  have hall : (allFiles s ++ plus).Nodup := by
    refine List.nodup_append.mpr ⟨h.files, hplus, ?_⟩
    intro f hf f' hf'
    have := h.ids f hf
    have := (hnew f' hf').1
    omega
  refine ⟨(List.nodup_append.mp (hfiles.nodup_iff.mpr hall)).1, ?_, hused⟩
  intro f hf
  rcases List.mem_append.mp (hfiles.mem_iff.mp (List.mem_append_left _ hf)) with hold | hold
  · exact Nat.le_trans (h.ids f hold) hid
  · exact (hnew f hold).2

/-- The chunks stay, and their contents. -/
theorem Items.of_keep (h : Items s) (hmove : Move Phase.waiting .pop p q n s.workers t.workers)
    (hch : (allChunks t).Perm (allChunks s)) {minus plus : List Nat}
    (hres : (q.reserved ++ minus).Perm (p.reserved ++ plus)) (hplus : plus.Nodup)
    (hnew : ∀ f ∈ plus, s.shared.idGen < f ∧ f ≤ t.shared.idGen)
    (hid : s.shared.idGen ≤ t.shared.idGen) (hstore : t.shared.store = s.shared.store)
    (hcreated : t.shared.created = s.shared.created) : Items t := by
  have hch' : (allChunks t ++ []).Perm (allChunks s ++ []) := by simpa using hch
  have hfiles := allFiles_move hmove hch' minus plus (by simpa using hres)
  refine h.of_perm minus plus hfiles hplus hnew hid ?_
  rw [hstore, hcreated]
  exact (contents_perm _ hch).trans h.used

end Move

/-- A step of a worker, in chunks and files. -/
theorem Items.work {k : KMerger} {s : MergerState} {p q : Phase} {n : Notify} {shared : Shared}
    {ws : List Phase} (h : Items s) (hact : Act k (Free s.workers) s.shared p shared q n)
    (hmove : Move Phase.waiting .pop p q n s.workers ws) : Items ⟨shared, ws, s.started⟩ := by
  have hunits := k.units_ge
  have keep : ∀ plus : List Nat, (shared.chunks ++ gather KMergerTask.chunks shared.tasks ++
      q.held).Perm (s.shared.chunks ++ gather KMergerTask.chunks s.shared.tasks ++ p.held) →
      (∃ minus, (q.reserved ++ minus).Perm (p.reserved ++ plus)) → plus.Nodup →
      (∀ f ∈ plus, s.shared.idGen < f ∧ f ≤ shared.idGen) → s.shared.idGen ≤ shared.idGen →
      shared.store = s.shared.store → shared.created = s.shared.created →
      Items ⟨shared, ws, s.started⟩ := by
    intro plus hch ⟨minus, hres⟩
    have hch' := allChunks_move (t := ⟨shared, ws, s.started⟩) hmove [] [] (by simpa using hch)
    exact h.of_keep (t := ⟨shared, ws, s.started⟩) hmove (by simpa using hch') hres
  cases hact with
  | newId =>
    refine keep [s.shared.idGen + 1] (.refl _) ⟨[], ?_⟩ ?_ ?_ ?_ rfl rfl
    all_goals simp [Phase.reserved]
  | @createChunk file hcount =>
    have hfresh : file ∉ (allChunks s).map KMergerChunk.file :=
      h.reserved_fresh hmove.mem List.mem_cons_self
    have hch := allChunks_move (t := ⟨{ s.shared with
        store := writeFile s.shared.store file [s.shared.created]
        created := s.shared.created + 1 }, ws, s.started⟩) hmove [] [⟨0, file⟩]
      (by simp [Phase.held])
    refine h.of_perm [] [] (allFiles_move hmove hch [] [] ?_) .nil (by simp)
      (Nat.le_refl _) ?_
    · simp [Phase.reserved]
    · rw [List.append_nil] at hch
      refine (contents_perm _ hch).trans ?_
      rw [contents_append, contents_writeFile hfresh, contents_new, List.range_succ]
      exact h.used.append_right _
  | @noChunk file =>
    refine keep [] (.refl _) ⟨[file], ?_⟩ ?_ ?_ ?_ rfl rfl
    all_goals simp [Phase.reserved]
  | mergeId =>
    refine keep [s.shared.idGen + 1] (.refl _) ⟨[], ?_⟩ ?_ ?_ ?_ rfl rfl
    all_goals simp [Phase.reserved]
  | @mergeChunks ch file =>
    have hfresh : file ∉ (allChunks s).map KMergerChunk.file :=
      h.reserved_fresh hmove.mem List.mem_cons_self
    have hsub : ch ⊆ allChunks s := held_subset hmove.mem
    have hch := allChunks_move (t := ⟨{ s.shared with
        store := writeFile s.shared.store file (contents s.shared.store ch) }, ws, s.started⟩) hmove
      ch [⟨maxLayerOf ch + 1, file⟩] (by
        simp only [Phase.held, List.append_assoc]
        exact List.Perm.append_left _ (List.Perm.append_left _ List.perm_append_comm))
    refine h.of_perm (ch.map KMergerChunk.file) []
      (allFiles_move hmove hch _ [] ?_) .nil (by simp) (Nat.le_refl _) ?_
    · simp [Phase.reserved]
    · -- the contents of the merged chunks are in the new file instead
      have hold : file ∉ ch.map KMergerChunk.file :=
        fun hmem => hfresh (List.map_subset _ hsub hmem)
      have hall := contents_perm (writeFile s.shared.store file (contents s.shared.store ch)) hch
      rw [contents_append, contents_append, contents_writeFile hold, contents_writeFile hfresh,
        contents_new] at hall
      exact ((List.perm_append_right_iff _).mp hall).trans h.used
  | finishFind hfind | find hfind =>
    have hperm := (findChunksToMerge_spec hunits hfind).1
    refine keep [] ?_ ⟨[], .refl _⟩ .nil (by simp) (Nat.le_refl _) rfl rfl
    rw [List.perm_iff_count] at hperm ⊢
    intro c
    have := hperm c
    simp [Phase.held] at this ⊢
    omega
  | @popTask task _ _ htasks =>
    refine keep [] ?_ ⟨[], by cases task <;> exact .refl _⟩ .nil (by simp)
      (Nat.le_refl _) rfl rfl
    rw [htasks, List.perm_iff_count]
    intro c
    cases task <;> simp only [gather, List.flatMap_cons, Phase.held, KMergerTask.phase,
      KMergerTask.chunks, List.count_append, List.count_nil] <;> omega
  | _ =>
    refine keep [] ?_ ⟨[], .refl _⟩ .nil (by simp) (Nat.le_refl _) rfl rfl
    rw [List.perm_iff_count]
    intro c
    simp only [gather, List.flatMap_cons, Phase.held, KMergerTask.chunks, List.count_append,
      List.count_nil] <;> omega

/-! ## How many steps are left -/

def KMergerTask.weight (workers : Nat) : KMergerTask → Nat
  | .create => workers + 6
  | .merge _ => 12

/-- More than all steps that a worker makes until it waits, those of the tasks it pushes
included; `workers` is what a notification of all costs. -/
def Phase.weight (workers : Nat) : Phase → Nat
  | .waiting | .ended => 0
  | .pop => 1
  | .create => workers + 6
  | .createAt _ => workers + 5
  | .insertNew _ => workers + 18
  | .pushCreate => workers + 10
  | .finish => workers + 4
  | .finishFind => workers + 3
  | .finishPush _ => workers + 16
  | .finishNotify => workers + 2
  | .find => 2
  | .pushMerge _ => 15
  | .merge _ => 12
  | .mergeAt _ _ => 11
  | .insertMerged _ _ => 10

/-- Bounds the steps that are left. -/
def stepsLeft (k : KMerger) (s : MergerState) : Nat :=
  14 * (k.chunkCount - s.shared.created) + 7 * s.shared.chunks.length +
    total (KMergerTask.weight k.workersCount) s.shared.tasks +
    total (Phase.weight k.workersCount) s.workers +
    (!s.started).toNat * (k.workersCount + 8)

theorem stepsLeft_init (k : KMerger) :
    stepsLeft k (.init k) = 14 * k.chunkCount + 2 * k.workersCount + 8 := by
  have hws : total (Phase.weight k.workersCount) (List.replicate k.workersCount .pop) =
    k.workersCount * 1 := total_replicate ..
  simp only [stepsLeft, MergerState.init, hws]
  simp [total]
  omega

theorem stepsLeft_step {k : KMerger} {s t : MergerState} (h : Control k s) (hstep : Step k s t) :
    stepsLeft k t + 1 ≤ stepsLeft k s := by
  have hunits := k.units_ge
  have hworkers := h.workers
  cases hstep with
  | start hstart hfree hwakes =>
    have hgrow := hwakes.total_grows (f := Phase.weight k.workersCount) (Nat.le_refl 1)
    simp only [stepsLeft, total_cons, KMergerTask.weight, hstart, Notify.size] at hgrow ⊢
    simp
    omega
  | work hact hmove =>
    have hgrow := hmove.total_grows (f := Phase.weight k.workersCount) (Nat.le_refl 1)
    have hle := hmove.le_source (Phase.weight k.workersCount)
    cases hact
    case popTask task _ _ htasks =>
      simp only [stepsLeft, htasks, total_cons]
      cases task <;>
        simp only [KMergerTask.phase, KMergerTask.weight, Phase.weight, Notify.size] at * <;> omega
    case finishFind hfind =>
      obtain ⟨hperm, hlen⟩ := findChunksToMerge_spec hunits hfind
      have hchunks := hperm.length_eq
      rw [List.length_append] at hchunks
      simp only [stepsLeft, Phase.weight, Notify.size] at *
      omega
    case find hfind =>
      obtain ⟨hperm, hlen⟩ := findChunksToMerge_spec hunits hfind
      have hchunks := hperm.length_eq
      rw [List.length_append] at hchunks
      simp only [stepsLeft, Phase.weight, Notify.size] at *
      omega
    all_goals
      simp only [stepsLeft, total_cons, KMergerTask.weight, Phase.weight, Notify.size,
        List.length_append, List.length_singleton] at *
      omega

theorem stepsLeft_spurious {k : KMerger} {s t : MergerState} (hwake : Spurious s t) :
    stepsLeft k t = stepsLeft k s + 1 := by
  obtain ⟨i, hi, rfl⟩ := hwake
  have hset : total (Phase.weight k.workersCount) (s.workers.set i .pop) + 0 =
    total (Phase.weight k.workersCount) s.workers + 1 := total_set _ hi
  simp only [stepsLeft]
  omega

/-! ## All runs -/

structure Inv (k : KMerger) (s : MergerState) : Prop where
  control : Control k s
  items : Items s

theorem items_init (k : KMerger) : Items (.init k) := by
  have hheld : gather Phase.held (List.replicate k.workersCount .pop) = [] := by
    simp [gather, Phase.held]
  have hres : gather Phase.reserved (List.replicate k.workersCount .pop) = [] := by
    simp [gather, Phase.reserved]
  have hchunks : allChunks (.init k) = [] := by
    simp only [allChunks, MergerState.init, hheld]
    rfl
  have hfiles : allFiles (.init k) = [] := by
    unfold allFiles
    rw [hchunks]
    exact hres
  constructor
  · rw [hfiles]
    exact .nil
  · rw [hfiles]
    exact fun f hf => absurd hf List.not_mem_nil
  · rw [hchunks]
    exact .refl _

/-- A notification, and a task without chunks, change no chunk and no file. -/
theorem Items.of_gather {s t : MergerState} (h : Items s)
    (hheld : (gather Phase.held t.workers).Perm (gather Phase.held s.workers))
    (hres : (gather Phase.reserved t.workers).Perm (gather Phase.reserved s.workers))
    (hshared : t.shared = s.shared ∨
      t.shared = { s.shared with tasks := .create :: s.shared.tasks }) : Items t := by
  have htasks : gather KMergerTask.chunks t.shared.tasks =
      gather KMergerTask.chunks s.shared.tasks := by
    rcases hshared with hs | hs <;> rw [hs]
    rfl
  have hchunks : t.shared.chunks = s.shared.chunks := by rcases hshared with hs | hs <;> rw [hs]
  have hstore : t.shared.store = s.shared.store := by rcases hshared with hs | hs <;> rw [hs]
  have hcreated : t.shared.created = s.shared.created := by
    rcases hshared with hs | hs <;> rw [hs]
  have hid : t.shared.idGen = s.shared.idGen := by rcases hshared with hs | hs <;> rw [hs]
  have hall : (allChunks t).Perm (allChunks s) := by
    unfold allChunks
    rw [htasks, hchunks]
    exact (hheld.append_left _).append_left _
  have hfiles : (allFiles t).Perm (allFiles s) := (hall.map _).append hres
  refine h.of_perm [] [] (by simpa using hfiles) .nil (by simp)
    (Nat.le_of_eq hid.symm) ?_
  rw [hstore, hcreated]
  exact (contents_perm _ hall).trans h.used

/-- A wakeup, in numbers. -/
theorem Control.spurious {k : KMerger} {s t : MergerState} (h : Control k s)
    (hwake : Spurious s t) : Control k t := by
  obtain ⟨i, hi, rfl⟩ := hwake
  obtain ⟨hworkers, h₁, h₂, h₃, h₄, h₅, h₆, h₇, h₈⟩ := h
  have hset : ∀ f : Phase → Nat, total f (s.workers.set i .pop) + f .waiting =
    total f s.workers + f .pop := fun f => total_set f hi
  have htoken := hset Phase.token
  have hpending := hset Phase.pending
  have hended := hset Phase.isEnded
  have hholder := hset Phase.isHolder
  have hwaiting := hset Phase.isWaiting
  have hawake := hset Phase.isAwake
  have hfinish := hset Phase.isFinish
  simp only [Phase.token, Phase.pending, Phase.isEnded, Phase.isHolder, Phase.holds,
    Phase.isWaiting, Phase.isFinish, Phase.isAwake, Bool.false_eq_true, if_false] at *
  refine ⟨List.length_set.trans hworkers, ?_, ?_, ?_, ?_, ?_, ?_, ?_, ?_⟩ <;> dsimp only <;> omega

theorem reachable_inv {k : KMerger} {steps wakeups : Nat} {s : MergerState}
    (h : Reachable k steps wakeups s) : Inv k s := by
  induction h with
  | init => exact ⟨control_init k, items_init k⟩
  | step _ hstep ih =>
    cases hstep with
    | start hstart hfree hwakes =>
      exact ⟨ih.control.start hstart hwakes,
        ih.items.of_gather (hwakes.gather rfl) (hwakes.gather rfl) (.inr rfl)⟩
    | work hact hmove => exact ⟨ih.control.work hact hmove, ih.items.work hact hmove⟩
  | spurious _ hwake ih =>
    refine ⟨ih.control.spurious hwake, ?_⟩
    obtain ⟨i, hi, rfl⟩ := hwake
    exact ih.items.of_gather (gather_set_of_eq _ hi rfl) (gather_set_of_eq _ hi rfl) (.inl rfl)

theorem reachable_steps {k : KMerger} {steps wakeups : Nat} {s : MergerState}
    (h : Reachable k steps wakeups s) :
    steps + stepsLeft k s ≤ 14 * k.chunkCount + 2 * k.workersCount + 8 + wakeups := by
  induction h with
  | init => rw [stepsLeft_init]; omega
  | step hs hstep ih =>
    have := stepsLeft_step (reachable_inv hs).control hstep
    omega
  | spurious _ hwake ih =>
    have := stepsLeft_spurious (k := k) hwake
    omega

/-! ## Somebody can go on -/

theorem wakes_exists (n : Notify) (ws : List Phase) : ∃ ws', Wakes .waiting .pop n ws ws' := by
  cases n with
  | none => exact ⟨ws, .none ws⟩
  | one =>
    by_cases h : Phase.waiting ∈ ws
    · obtain ⟨j, hj⟩ := List.mem_iff_getElem?.mp h
      exact ⟨_, .one ws j hj⟩
    · exact ⟨ws, .nobody ws h⟩
  | all =>
    refine ⟨ws.map fun p => if p.isWaiting = 1 then .pop else p, .all ws _ ?_⟩
    induction ws with
    | nil => exact .nil
    | cons p ws ih =>
      refine .cons ?_ ih
      cases p <;> simp [Phase.isWaiting]

theorem step_of_act {k : KMerger} {s : MergerState} {p q : Phase} {n : Notify} {shared : Shared}
    (hp : p ∈ s.workers) (hact : Act k (Free s.workers) s.shared p shared q n) :
    ∃ t, Step k s t := by
  obtain ⟨i, hi⟩ := List.mem_iff_getElem?.mp hp
  obtain ⟨ws, hws⟩ := wakes_exists n (s.workers.set i q)
  exact ⟨_, .work hact ⟨i, hi, hws⟩⟩

/-- A worker that is awake has a next access, if the mutex is free or its own. -/
theorem act_exists (k : KMerger) {free : Prop} (s : Shared) {p : Phase} (hawake : 0 < p.isAwake)
    (hfree : free ∨ p.holds = true) : ∃ shared q n, Act k free s p shared q n := by
  cases p with
  | pop =>
    have hfree := hfree.resolve_right Bool.false_ne_true
    cases htasks : s.tasks with
    | cons t tasks => exact ⟨_, _, _, .popTask hfree htasks⟩
    | nil =>
      cases hc : s.completed with
      | false => exact ⟨_, _, _, .popWait hfree htasks hc⟩
      | true => exact ⟨_, _, _, .popEnd hfree htasks hc⟩
  | waiting => exact absurd hawake (Nat.lt_irrefl 0)
  | ended => exact absurd hawake (Nat.lt_irrefl 0)
  | create => exact ⟨_, _, _, .newId⟩
  | createAt file =>
    by_cases h : s.created < k.chunkCount
    · exact ⟨_, _, _, .createChunk h⟩
    · exact ⟨_, _, _, .noChunk h⟩
  | insertNew file => exact ⟨_, _, _, .insertNew⟩
  | pushCreate => exact ⟨_, _, _, .pushCreate (hfree.resolve_right Bool.false_ne_true)⟩
  | finish => exact ⟨_, _, _, .complete (hfree.resolve_right Bool.false_ne_true)⟩
  | finishFind =>
    cases h : findChunksToMerge k.units s.completed s.maxLayer s.chunks with
    | none => exact ⟨_, _, _, .finishNone h⟩
    | some found => exact ⟨_, _, _, .finishFind h⟩
  | finishPush ch => exact ⟨_, _, _, .finishPush⟩
  | finishNotify => exact ⟨_, _, _, .finishNotify⟩
  | find =>
    cases h : findChunksToMerge k.units s.completed s.maxLayer s.chunks with
    | none => exact ⟨_, _, _, .findNone h⟩
    | some found => exact ⟨_, _, _, .find h⟩
  | pushMerge ch => exact ⟨_, _, _, .pushMerge (hfree.resolve_right Bool.false_ne_true)⟩
  | merge ch => exact ⟨_, _, _, .mergeId⟩
  | mergeAt ch file => exact ⟨_, _, _, .mergeChunks⟩
  | insertMerged layer file => exact ⟨_, _, _, .insertMerged⟩

theorem total_le_awake {f : Phase → Nat} (hf : ∀ p, f p ≤ p.isAwake) (ws : List Phase) :
    total f ws ≤ total Phase.isAwake ws := by
  induction ws with
  | nil => exact Nat.le_refl _
  | cons w ws ih =>
    have := hf w
    rw [total_cons, total_cons]
    omega

theorem joined_iff {s : MergerState} :
    Joined s ↔ total Phase.isAwake s.workers = 0 ∧ total Phase.isWaiting s.workers = 0 := by
  have hawake := total_pos_iff Phase.isAwake s.workers
  have hwaiting := total_pos_iff Phase.isWaiting s.workers
  constructor
  · intro h
    refine ⟨?_, ?_⟩ <;> by_contra hne
    · obtain ⟨p, hp, hpos⟩ := hawake.mp (Nat.pos_of_ne_zero hne)
      rw [h p hp] at hpos
      exact Nat.lt_irrefl 0 hpos
    · obtain ⟨p, hp, hpos⟩ := hwaiting.mp (Nat.pos_of_ne_zero hne)
      rw [h p hp] at hpos
      exact Nat.lt_irrefl 0 hpos
  · intro ⟨h₁, h₂⟩ p hp
    have hp₁ : ¬0 < p.isAwake := fun hpos => by
      have := hawake.mpr ⟨p, hp, hpos⟩
      omega
    have hp₂ : ¬0 < p.isWaiting := fun hpos => by
      have := hwaiting.mpr ⟨p, hp, hpos⟩
      omega
    cases p <;> simp [Phase.isAwake, Phase.isWaiting] at hp₁ hp₂ ⊢

/-- Nobody is awake: the last "create" has completed, and nothing is left to do. -/
theorem Control.asleep {k : KMerger} {s : MergerState} (h : Control k s)
    (hstart : s.started = true) (hasleep : total Phase.isAwake s.workers = 0) :
    s.shared.tasks = [] ∧ s.shared.completed.toNat = 1 ∧ total Phase.isHolder s.workers = 0 ∧
      total Phase.pending s.workers = 0 := by
  have htoken := total_le_awake (f := Phase.token)
    (fun p => by cases p <;> simp [Phase.token, Phase.isAwake]) s.workers
  have hpending := total_le_awake (f := Phase.pending)
    (fun p => by cases p <;> simp [Phase.pending, Phase.isAwake]) s.workers
  have hholder := total_le_awake (f := Phase.isHolder)
    (fun p => by cases p <;> simp [Phase.isHolder, Phase.holds, Phase.isAwake]) s.workers
  have htasks : s.shared.tasks = [] :=
    List.eq_nil_of_length_eq_zero (h.awake.resolve_right (by omega))
  have hone := h.token
  rw [htasks, hstart] at hone
  refine ⟨htasks, ?_, by omega, by omega⟩
  simp [total] at hone htoken hasleep
  omega

/-- **Until all workers have ended, somebody can go on.** -/
theorem progress {k : KMerger} {s : MergerState} (h : Control k s) (hjoin : ¬Joined s) :
    ∃ t, Step k s t := by
  have hholders := total_pos_iff Phase.isHolder s.workers
  by_cases hholder : 0 < total Phase.isHolder s.workers
  · -- who has the mutex is not blocked
    obtain ⟨p, hp, hpos⟩ := hholders.mp hholder
    have hholds : p.holds = true := by
      by_contra hno
      rw [Phase.isHolder, if_neg hno] at hpos
      exact Nat.lt_irrefl 0 hpos
    have hawake : 0 < p.isAwake := by cases p <;> simp [Phase.holds, Phase.isAwake] at hholds ⊢
    obtain ⟨shared, q, n, hact⟩ := act_exists k s.shared hawake (.inr hholds)
    exact step_of_act hp hact
  · have hfree : Free s.workers := by
      intro p hp
      by_contra hno
      have hholds : p.holds = true := by simpa using hno
      exact hholder (hholders.mpr ⟨p, hp, by rw [Phase.isHolder, if_pos hholds]; exact Nat.one_pos⟩)
    cases hstart : s.started with
    | false =>
      obtain ⟨ws, hws⟩ := wakes_exists .one s.workers
      exact ⟨_, .start hstart hfree hws⟩
    | true =>
      by_cases hawake : 0 < total Phase.isAwake s.workers
      · obtain ⟨p, hp, hpos⟩ := (total_pos_iff Phase.isAwake s.workers).mp hawake
        obtain ⟨shared, q, n, hact⟩ := act_exists k s.shared hpos (.inl hfree)
        exact step_of_act hp hact
      · obtain ⟨-, hc, hnone, -⟩ := h.asleep hstart (by omega)
        have hwaiting := h.waiting
        exact absurd (joined_iff.mpr ⟨by omega, by omega⟩) hjoin

/-- **When all workers have ended, there is one chunk, with every created chunk in it.** -/
theorem result_of_joined {k : KMerger} {s : MergerState} (h : Inv k s) (hjoin : Joined s) :
    ∃ file content, result s = some (file, content) ∧
      content.Perm (List.range k.chunkCount) := by
  obtain ⟨hawake, hwaiting⟩ := joined_iff.mp hjoin
  have hended : total Phase.isEnded s.workers = s.workers.length := by
    have := phases_total s.workers
    omega
  have hpos := k.workers_pos
  have hlen := h.control.workers
  have hcompleted : s.shared.completed.toNat = 1 := h.control.ended.resolve_left (by omega)
  have hstart : s.started = true := by
    have htoken := h.control.token
    cases hs : s.started with
    | true => rfl
    | false =>
      rw [hs] at htoken
      simp at htoken
      omega
  obtain ⟨htasks, -, -, hpending⟩ := h.control.asleep hstart hawake
  have hcreated : s.shared.created = k.chunkCount := h.control.created.resolve_right (by omega)
  have hchunks : s.shared.chunks.length ≤ 1 := by
    rcases h.control.merged with hm | hm | hm
    · omega
    · exact hm
    · rw [htasks] at hm
      exact absurd hm (by simp [total] at hpending ⊢; omega)
  -- the ended workers hold no chunk, so all chunks are in the list
  have hheld : gather Phase.held s.workers = [] :=
    List.flatMap_eq_nil_iff.mpr fun p hp => by rw [hjoin p hp]; rfl
  have hall : allChunks s = s.shared.chunks := by
    unfold allChunks
    rw [htasks, hheld]
    simp [gather]
  have hused := h.items.used
  rw [hall, hcreated] at hused
  unfold result
  cases hs : s.shared.chunks with
  | nil =>
    rw [hs] at hused
    exact ⟨_, _, rfl, hused⟩
  | cons c chunks =>
    rw [hs, List.length_cons] at hchunks
    have hnil : chunks = [] := List.eq_nil_of_length_eq_zero (by omega)
    rw [hs, hnil] at hused
    rw [hnil]
    exact ⟨_, _, rfl, by simpa [contents] using hused⟩

/-- Every run can be brought to its end. -/
theorem exists_joined (k : KMerger) {steps : Nat} {s : MergerState} (h : Reachable k steps 0 s) :
    ∃ steps' s', Reachable k steps' 0 s' ∧ Joined s' := by
  by_cases hjoin : Joined s
  · exact ⟨steps, s, h, hjoin⟩
  · obtain ⟨t, ht⟩ := progress (reachable_inv h).control hjoin
    exact exists_joined k (.step h ht)
termination_by 14 * k.chunkCount + 2 * k.workersCount + 8 - steps
decreasing_by
  have := reachable_steps (.step h ht)
  omega

/-- **The steps of a run of `PushAndJoin` are bounded, apart from wakeups without notification; it
only stops when all workers have ended; and then there is one chunk that is merged from every
created chunk, each used once.** -/
theorem pushAndJoin_sound (k : KMerger) {steps wakeups : Nat} {s : MergerState}
    (h : Reachable k steps wakeups s) :
    steps ≤ 14 * k.chunkCount + 2 * k.workersCount + 8 + wakeups ∧
      (¬Joined s → ∃ t, Step k s t) ∧
      (Joined s → ∃ file content, result s = some (file, content) ∧
        content.Perm (List.range k.chunkCount)) := by
  have hinv := reachable_inv h
  have hsteps := reachable_steps h
  exact ⟨by omega, progress hinv.control, result_of_joined hinv⟩

/-- Three workers merge seven chunks, two at a time. -/
def threeWorkers : KMerger := ⟨2, 3, 7, by decide, by decide⟩

theorem threeWorkers_sound : ∃ steps s, Reachable threeWorkers steps 0 s ∧ steps ≤ 112 ∧ Joined s ∧
    ∃ file content, result s = some (file, content) ∧ content.Perm [0, 1, 2, 3, 4, 5, 6] := by
  obtain ⟨steps, s, hreach, hjoin⟩ := exists_joined threeWorkers .init
  obtain ⟨hsteps, -, hresult⟩ := pushAndJoin_sound threeWorkers hreach
  exact ⟨steps, s, hreach, hsteps, hjoin, hresult hjoin⟩

end Acts.Actslib.Kmerger
