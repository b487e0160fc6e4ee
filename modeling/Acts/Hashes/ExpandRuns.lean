import Acts.Hashes.TextExpand
import Acts.Lib.Pool
import Acts.Lib.Stride

/-!
# Expanding a dictionary with a pool of workers

`GetDynamicAsyncPtr` and `GetDynamicAsyncDictPtr`.

* `Step` — the steps of the caller and of the tasks, in any order.
* `Inv`, `reachable_inv` — what is visited and what is left to the tasks are all indices.
* `expansion_right_iff` — **the tasks visit the words that the loop visits, without any access that
  is out of bounds, exactly when the stop handle is not a null pointer.**
-/

set_option autoImplicit false

namespace Acts.Hashes.TextExpand

open Acts.Pool Acts.Stride

variable {α : Type}

/-- The stop handle of a call. -/
inductive StopHandle where
  /-- `GetDynamicAsyncPtr` has none. -/
  | unused
  | null
  | handle (stopTrigger : Bool)
  deriving DecidableEq

/-- A call; `running` is what the handle has before it. -/
structure Call (α : Type) where
  dict : List (Option α)
  max : Nat
  threads : Nat
  stop : StopHandle
  running : Nat

/-- Where a task stands. -/
inductive Task (α : Type) where
  /-- In front of the test of `i`. -/
  | loop (i : Nat) (buffer : Buffer α)
  /-- Behind the loop. -/
  | leaving
  | finished

structure State (α : Type) where
  /-- The tasks that are detached. -/
  tasks : List (Task α)
  running : Nat
  visited : List (List α)
  /-- An access was out of bounds, or an exception left a task. -/
  crashed : Bool

def initial (c : Call α) : State α := ⟨[], c.running, [], false⟩

/-- `if ((i & 0xFFFFFF) == 0) if (stop && stop->IsStop()) break;` -/
def StopHandle.breaks (stop : StopHandle) (i : Nat) : Bool :=
  match stop with
  | .handle stopTrigger => i % 0x1000000 == 0 && stopTrigger
  | _ => false

section Step

variable (c : Call α)

/-- `if (stop) stop->IncRun(); pool->detach_task(…)`; a buffer belongs to a thread of the pool, so
what is in it is not known. -/
def detach (s : State α) (buffer : Buffer α) : State α :=
  { s with
    running := match c.stop with
      | .handle _ => s.running + 1
      | _ => s.running
    tasks := s.tasks ++ [.loop (1 + s.tasks.length) buffer] }

/-- One turn of the loop of a task. -/
def turn (s : State α) (k i : Nat) (buffer : Buffer α) : State α :=
  if i < c.max then
    match expand c.dict i buffer with
    | .error _ => { s with crashed := true }
    | .ok buffer =>
      { s with
        visited := s.visited ++ [text buffer]
        tasks := s.tasks.set k (if c.stop.breaks i then .leaving
          else .loop ((i + c.threads) % 2 ^ 64) buffer) }
  else { s with tasks := s.tasks.set k .leaving }

/-- `stop->DecRun();`, which is not in `GetDynamicAsyncPtr`. -/
def leave (s : State α) (k : Nat) : State α :=
  match c.stop with
  | .unused => { s with tasks := s.tasks.set k .finished }
  | .null => { s with crashed := true }
  | .handle _ =>
    if s.running = 0 then { s with crashed := true }
    else { s with running := s.running - 1, tasks := s.tasks.set k .finished }

inductive Step : State α → State α → Prop where
  | detach {s : State α} (buffer : Buffer α) (hbuffer : buffer.length = 0x100)
    (hcrashed : s.crashed = false) (hlt : s.tasks.length < c.threads) : Step s (detach c s buffer)
  | turn {s : State α} {k i : Nat} {buffer : Buffer α} (hcrashed : s.crashed = false)
    (htask : s.tasks[k]? = some (.loop i buffer)) : Step s (turn c s k i buffer)
  | leave {s : State α} {k : Nat} (hcrashed : s.crashed = false)
    (htask : s.tasks[k]? = some .leaving) : Step s (leave c s k)

/-- The states that `n` steps lead to. -/
inductive Run : Nat → State α → Prop where
  | initial : Run 0 (initial c)
  | step {n : Nat} {s s' : State α} (hrun : Run n s) (hstep : Step c s s') : Run (n + 1) s'

/-- No step is left. -/
def Stopped (s : State α) : Prop := ∀ s', ¬ Step c s s'

end Step

/-! ## The invariant -/

/-- A call as the source makes it, whose handle is not triggered. -/
structure Call.Valid (c : Call α) (entries : List α) : Prop where
  dict : c.dict = dictOf entries
  entries_pos : 0 < entries.length
  max_lt : c.max < 2 ^ 64
  threads_pos : 0 < c.threads
  /-- The index of a task does not wrap around. -/
  no_wrap : c.max + c.threads ≤ 2 ^ 64
  not_triggered : c.stop ≠ .handle true

section Inv

variable (c : Call α)

/-- The indices that are left to a task. -/
def pending : Task α → List Nat
  | .loop i _ => strided c.threads c.max i
  | _ => []

/-- The indices of the tasks that are not detached. -/
def undetached (s : State α) : List Nat :=
  (List.range' s.tasks.length (c.threads - s.tasks.length)).flatMap
    fun t => strided c.threads c.max (1 + t)

def isRunning : Task α → Nat
  | .finished => 0
  | _ => 1

structure Inv (entries : List α) (s : State α) : Prop where
  indices : ∃ seen, s.visited = seen.map (wordOf entries) ∧
    (seen ++ (gather (pending c) s.tasks ++ undetached c s)).Perm (List.range' 1 (c.max - 1))
  length_le : s.tasks.length ≤ c.threads
  buffer : ∀ (i : Nat) (buffer : Buffer α), Task.loop i buffer ∈ s.tasks → buffer.length = 0x100
  null_of_crashed : s.crashed = true → c.stop = .null
  notFinished : c.stop = .null → Task.finished ∉ s.tasks
  running : ∀ b, c.stop = .handle b → s.running = c.running + total isRunning s.tasks

/-- The steps that a task still takes, at most. -/
def weight : Task α → Nat
  | .loop i _ => (strided c.threads c.max i).length + 2
  | .leaving => 1
  | .finished => 0

def left (s : State α) : Nat :=
  total (weight c) s.tasks +
    ((List.range' s.tasks.length (c.threads - s.tasks.length)).map
      fun t => (strided c.threads c.max (1 + t)).length + 3).sum +
    if s.crashed then 0 else 1

variable {c} {entries : List α} {s s' : State α} {k : Nat}

theorem inv_initial (hc : c.Valid entries) : Inv c entries (initial c) where
  indices := ⟨[], rfl, strided_perm hc.threads_pos⟩
  length_le := Nat.zero_le _
  buffer i buffer h := by cases h
  null_of_crashed h := by cases h
  notFinished _ h := by cases h
  running _ _ := rfl

/-- The tasks that are not detached, before and behind a detachment. -/
theorem range'_undetached (h : s.tasks.length < c.threads) :
    List.range' s.tasks.length (c.threads - s.tasks.length) =
      s.tasks.length :: List.range' (s.tasks.length + 1) (c.threads - (s.tasks.length + 1)) := by
  rw [show c.threads - s.tasks.length = c.threads - (s.tasks.length + 1) + 1 by omega,
    List.range'_succ]

theorem inv_detach (hinv : Inv c entries s) (hlt : s.tasks.length < c.threads)
    {buffer : Buffer α} (hbuffer : buffer.length = 0x100) :
    Inv c entries (detach c s buffer) where
  indices := by
    obtain ⟨seen, hvisited, hperm⟩ := hinv.indices
    refine ⟨seen, hvisited, ?_⟩
    unfold undetached at hperm
    rw [range'_undetached hlt, List.flatMap_cons] at hperm
    unfold undetached detach
    dsimp only
    rw [List.length_append, List.length_singleton]
    simpa [gather, pending] using hperm
  length_le := by
    unfold detach
    rw [List.length_append, List.length_singleton]
    omega
  buffer i b h := by
    rcases List.mem_append.1 h with h | h
    · exact hinv.buffer i b h
    · cases List.mem_singleton.1 h
      exact hbuffer
  null_of_crashed h := hinv.null_of_crashed h
  notFinished hnull h := by
    rcases List.mem_append.1 h with h | h
    · exact hinv.notFinished hnull h
    · cases List.mem_singleton.1 h
  running b hb := by
    have hrunning := hinv.running b hb
    unfold detach
    rw [hb]
    simp [total, isRunning] at hrunning ⊢
    omega

/-- A task that goes on, and has visited some of its indices. -/
theorem inv_set (hinv : Inv c entries s) {t : Task α} (t' : Task α) (seen : List Nat)
    (htask : s.tasks[k]? = some t) (hpending : pending c t = seen ++ pending c t')
    (hrunning : isRunning t = isRunning t')
    (hbuffer : ∀ (i : Nat) (buffer : Buffer α), t' = .loop i buffer → buffer.length = 0x100)
    (hfinished : t' ≠ .finished) :
    Inv c entries { s with
      visited := s.visited ++ seen.map (wordOf entries), tasks := s.tasks.set k t' } where
  indices := by
    obtain ⟨before, hvisited, hperm⟩ := hinv.indices
    refine ⟨before ++ seen, by rw [hvisited, List.map_append], List.Perm.trans ?_ hperm⟩
    have hgather := gather_set (q := t') (pending c) htask
    rw [hpending, ← List.append_assoc, List.perm_append_right_iff] at hgather
    unfold undetached
    dsimp only
    rw [List.length_set, List.append_assoc, ← List.append_assoc seen]
    exact ((List.perm_append_comm.trans hgather).append_right _).append_left _
  length_le := by
    dsimp only
    rw [List.length_set]
    exact hinv.length_le
  buffer i b h := by
    rcases List.mem_or_eq_of_mem_set h with h | h
    · exact hinv.buffer i b h
    · exact hbuffer i b h.symm
  null_of_crashed h := hinv.null_of_crashed h
  notFinished hnull h := by
    rcases List.mem_or_eq_of_mem_set h with h | h
    · exact hinv.notFinished hnull h
    · exact hfinished h.symm
  running b hb := by
    have hset := total_set (q := t') isRunning htask
    rw [hrunning] at hset
    rw [show total isRunning (s.tasks.set k t') = total isRunning s.tasks by omega]
    exact hinv.running b hb

/-- A task that ends. -/
theorem inv_finish (hinv : Inv c entries s) (htask : s.tasks[k]? = some .leaving)
    (hstop : c.stop ≠ .null) {running : Nat}
    (hrunning : ∀ b, c.stop = .handle b → running + 1 = s.running) :
    Inv c entries { s with running := running, tasks := s.tasks.set k .finished } where
  indices := by
    obtain ⟨seen, hvisited, hperm⟩ := hinv.indices
    refine ⟨seen, hvisited, List.Perm.trans ?_ hperm⟩
    have hgather := gather_set_of_eq (q := .finished) (pending c) htask rfl
    unfold undetached
    dsimp only
    rw [List.length_set]
    exact (hgather.append_right _).append_left _
  length_le := by
    dsimp only
    rw [List.length_set]
    exact hinv.length_le
  buffer i b h := by
    rcases List.mem_or_eq_of_mem_set h with h | h
    · exact hinv.buffer i b h
    · cases h
  null_of_crashed h := hinv.null_of_crashed h
  notFinished hnull := absurd hnull hstop
  running b hb := by
    have hset := total_set (q := .finished) isRunning htask
    have hbefore := hinv.running b hb
    have hafter := hrunning b hb
    unfold isRunning at hset hbefore ⊢
    dsimp only at hset ⊢
    omega

theorem inv_turn (hc : c.Valid entries) (hinv : Inv c entries s) {i : Nat} {buffer : Buffer α}
    (htask : s.tasks[k]? = some (.loop i buffer)) :
    Inv c entries (turn c s k i buffer) ∧ left c (turn c s k i buffer) < left c s := by
  have hk := hc.threads_pos
  have hmax := hc.max_lt
  have hwrap := hc.no_wrap
  have hcontinues : c.stop.breaks i = false := by
    unfold StopHandle.breaks
    split
    · rename_i b hb
      cases b with
      | true => exact absurd hb hc.not_triggered
      | false => exact Bool.and_false _
    · rfl
  unfold turn
  split
  · rename_i hlt
    have hbuffer := hinv.buffer i buffer (List.mem_of_getElem? htask)
    obtain ⟨buffer', hexpand, hbuffer', htext⟩ :=
      expand_eq hc.entries_pos (show i < 2 ^ 64 by omega) hbuffer
    rw [hc.dict, hexpand]
    dsimp only
    rw [hcontinues, Nat.mod_eq_of_lt (by omega), htext]
    simp only [Bool.false_eq_true, if_false]
    refine ⟨inv_set hinv _ [i] htask (strided_of_lt hk hlt) rfl
      (fun j b hb => by cases hb; exact hbuffer') (fun h => by cases h), ?_⟩
    have hset := total_set (q := .loop (i + c.threads) buffer') (weight c) htask
    have hlen : (strided c.threads c.max i).length =
        (strided c.threads c.max (i + c.threads)).length + 1 := by
      rw [strided_of_lt hk hlt, List.length_cons]
    unfold left
    dsimp only
    rw [List.length_set]
    unfold weight at hset ⊢
    dsimp only at hset
    omega
  · rename_i hge
    refine ⟨?_, ?_⟩
    · have hset := inv_set hinv .leaving [] htask
        (strided_of_le hk (by omega)) rfl (fun j b hb => by cases hb) (fun h => by cases h)
      rwa [List.map_nil, List.append_nil] at hset
    · have hset := total_set (q := .leaving) (weight c) htask
      unfold left
      dsimp only
      rw [List.length_set]
      unfold weight at hset ⊢
      dsimp only at hset
      omega

theorem left_crash (hcrashed : s.crashed = false) :
    left c { s with crashed := true } < left c s := by
  unfold left
  rw [hcrashed]
  simp

theorem inv_crash (hinv : Inv c entries s) (hstop : c.stop = .null) :
    Inv c entries { s with crashed := true } :=
  { hinv with null_of_crashed := fun _ => hstop }

theorem left_finish (htask : s.tasks[k]? = some .leaving) (running : Nat) :
    left c { s with running := running, tasks := s.tasks.set k .finished } < left c s := by
  have hset := total_set (q := .finished) (weight c) htask
  unfold left
  dsimp only
  rw [List.length_set]
  unfold weight at hset ⊢
  dsimp only at hset
  omega

theorem inv_leave (hinv : Inv c entries s) (hcrashed : s.crashed = false)
    (htask : s.tasks[k]? = some .leaving) :
    Inv c entries (leave c s k) ∧ left c (leave c s k) < left c s := by
  unfold leave
  split
  · rename_i hstop
    have hnull : c.stop ≠ .null := by simp [hstop]
    have hhandle : ∀ b, c.stop ≠ .handle b := by simp [hstop]
    exact ⟨inv_finish hinv htask hnull fun b hb => absurd hb (hhandle b),
      left_finish htask s.running⟩
  · rename_i hstop
    exact ⟨inv_crash hinv hstop, left_crash hcrashed⟩
  · rename_i b hstop
    have hrunning := hinv.running b hstop
    have hle := le_total isRunning htask
    unfold isRunning at hle hrunning
    dsimp only at hle
    rw [if_neg (by omega)]
    have hnull : c.stop ≠ .null := by simp [hstop]
    exact ⟨inv_finish hinv htask hnull fun _ _ => Nat.sub_add_cancel (by omega),
      left_finish htask _⟩

/-- **Each step keeps the invariant, and there are only so many of them.** -/
theorem inv_step (hc : c.Valid entries) (hinv : Inv c entries s) (hstep : Step c s s') :
    Inv c entries s' ∧ left c s' < left c s := by
  cases hstep with
  | detach buffer hbuffer hcrashed hlt =>
    refine ⟨inv_detach hinv hlt hbuffer, ?_⟩
    unfold left
    rw [range'_undetached hlt]
    unfold detach
    dsimp only
    rw [List.length_append, List.length_singleton, List.map_cons, List.sum_cons]
    simp [total, weight]
    omega
  | turn hcrashed htask => exact inv_turn hc hinv htask
  | leave hcrashed htask => exact inv_leave hinv hcrashed htask

/-- **Behind any steps, in any order, the invariant holds.** -/
theorem run_inv (hc : c.Valid entries) {n : Nat} (hrun : Run c n s) :
    Inv c entries s ∧ n + left c s ≤ left c (initial c) := by
  induction hrun with
  | initial => exact ⟨inv_initial hc, by omega⟩
  | step _ hstep ih =>
    obtain ⟨hinv, hle⟩ := ih
    obtain ⟨hinv', hlt⟩ := inv_step hc hinv hstep
    exact ⟨hinv', by omega⟩

/-- **A run goes on until all tasks have ended**, or an access was out of bounds. -/
theorem stopped_spec (hinv : Inv c entries s) (hstopped : Stopped c s)
    (hcrashed : s.crashed = false) :
    (∀ t ∈ s.tasks, t = .finished) ∧ s.tasks.length = c.threads ∧
      s.visited.Perm ((List.range' 1 (c.max - 1)).map (wordOf entries)) := by
  have hall : ∀ t ∈ s.tasks, t = .finished := fun t ht => by
    obtain ⟨k, hk, rfl⟩ := List.getElem_of_mem ht
    have htask := List.getElem?_eq_getElem hk
    generalize s.tasks[k] = t at htask
    cases t with
    | loop i buffer => exact absurd (.turn hcrashed htask) (hstopped _)
    | leaving => exact absurd (.leave hcrashed htask) (hstopped _)
    | finished => rfl
  have hlen : s.tasks.length = c.threads := by
    have hle := hinv.length_le
    rcases Nat.lt_or_ge s.tasks.length c.threads with hlt | hge
    · exact absurd (.detach emptyBuffer List.length_replicate hcrashed hlt) (hstopped _)
    · omega
  refine ⟨hall, hlen, ?_⟩
  obtain ⟨seen, hvisited, hperm⟩ := hinv.indices
  have hgather : gather (pending c) s.tasks = [] := by
    unfold gather
    rw [List.flatMap_eq_nil_iff]
    intro t ht
    rw [hall t ht]
    rfl
  unfold undetached at hperm
  rw [hgather, hlen, Nat.sub_self, List.range'_zero, List.flatMap_nil, List.append_nil,
    List.append_nil] at hperm
  rw [hvisited]
  exact hperm.map _

/-- Some run goes as far as it can. -/
theorem exists_stopped (hc : c.Valid entries) {n : Nat} (hrun : Run c n s) :
    ∃ n s, Run c n s ∧ Stopped c s := by
  induction hleft : left c s using Nat.strong_induction_on generalizing n s with
  | _ m ih =>
    by_cases hstopped : Stopped c s
    · exact ⟨n, s, hrun, hstopped⟩
    · unfold Stopped at hstopped
      push Not at hstopped
      obtain ⟨s', hstep⟩ := hstopped
      have hlt := (inv_step hc (run_inv hc hrun).1 hstep).2
      exact ih (left c s') (by omega) (.step hrun hstep) rfl

/-- **Without a handle some task leaves through a null pointer.** -/
theorem null_crashes (hc : c.Valid entries) (hstop : c.stop = .null) :
    ∃ n s, Run c n s ∧ s.crashed = true := by
  obtain ⟨n, s, hrun, hstopped⟩ := exists_stopped hc .initial
  have hinv := (run_inv hc hrun).1
  refine ⟨n, s, hrun, ?_⟩
  cases hcrashed : s.crashed with
  | true => rfl
  | false =>
    obtain ⟨hall, hlen, -⟩ := stopped_spec hinv hstopped hcrashed
    have hthreads := hc.threads_pos
    obtain ⟨t, ht⟩ := List.exists_mem_of_length_pos (show 0 < s.tasks.length by omega)
    exact absurd (hall t ht ▸ ht) (hinv.notFinished hstop)

end Inv

/-! ## All versions -/

/-- The largest `n` whose power has 64 bits, for the exponents from 2 on. -/
def maxBase : List Nat :=
  [4294967295, 2642245, 65535, 7131, 1625, 565, 255, 138, 84, 56, 40, 30, 23, 19, 15, 13, 11, 10, 9,
    8, 7, 6, 6, 5, 5, 5, 4, 4, 4, 4, 3, 3, 3, 3, 3, 3, 3, 3, 3, 2, 2, 2, 2, 2, 2, 2, 2, 2, 2, 2, 2,
    2, 2, 2, 2, 2, 2, 2, 2, 2, 2, 2]

theorem maxBase_spec : ∀ k, k < 62 → 2 ^ 64 ≤ (maxBase.getD k 0 + 1) ^ (k + 2) ∧
    maxBase.getD k 0 ^ (k + 2) + 2 ^ 32 ≤ 2 ^ 64 := by
  decide +kernel

/-- **A power of 64 bits is not so large that an index wraps around.** -/
theorem pow_add_le {n L : Nat} (hn : 2 ≤ n) (hn' : n ≤ 2 ^ 63) (h : n ^ L < 2 ^ 64) :
    n ^ L + 2 ^ 32 ≤ 2 ^ 64 := by
  have hL : L < 64 := by
    rcases Nat.lt_or_ge L 64 with hlt | hge
    · exact hlt
    · have h₁ : 2 ^ 64 ≤ 2 ^ L := Nat.pow_le_pow_right (by omega) hge
      have h₂ : 2 ^ L ≤ n ^ L := Nat.pow_le_pow_left hn L
      omega
  rcases Nat.lt_or_ge L 2 with hlt | hge
  · have hle : n ^ L ≤ n ^ 1 := Nat.pow_le_pow_right (by omega) (by omega)
    rw [Nat.pow_one] at hle
    omega
  · obtain ⟨k, rfl⟩ := Nat.exists_eq_add_of_le' hge
    obtain ⟨hlarge, hsmall⟩ := maxBase_spec k (by omega)
    have hbase : n ≤ maxBase.getD k 0 := by
      rcases Nat.lt_or_ge (maxBase.getD k 0) n with hlt | hge
      · have := Nat.pow_le_pow_left (show maxBase.getD k 0 + 1 ≤ n from hlt) (k + 2)
        omega
      · exact hge
    have := Nat.pow_le_pow_left hbase (k + 2)
    omega

/-- What an expansion does for all words of at most `L` entries, alone and with a pool. -/
structure ExpansionRight (entries : List α) (L : Nat) (c : Call α) : Prop where
  visits : ∃ words, getDynamicPtr c.dict c.max = .ok words ∧
    ∀ w, w ≠ [] → (w ∈ words ↔ w.length ≤ L ∧ ∀ x ∈ w, x ∈ entries)
  inBounds : ∀ n s, Run c n s → s.crashed = false
  ends : ∃ bound, ∀ n s, Run c n s → n ≤ bound
  same : ∀ n s, Run c n s → Stopped c s → (∀ t ∈ s.tasks, t = .finished) ∧
    ∃ words, getDynamicPtr c.dict c.max = .ok words ∧ s.visited.Perm words

/-- The call that expands a dictionary to all words of at most `L` entries. -/
def expansion (entries : List α) (L threads running : Nat) (stop : StopHandle) : Call α :=
  ⟨dictOf entries, (entries.length + 1) ^ L, threads, stop, running⟩

/-- **An expansion is right exactly when its stop handle is not a null pointer.** -/
theorem expansion_right_iff {entries : List α} (hentries : entries ≠ [])
    (haddressable : entries.length < 2 ^ 63) {L threads : Nat}
    (hmax : (entries.length + 1) ^ L < 2 ^ 64) (hthreads : 0 < threads ∧ threads ≤ 2 ^ 32)
    (running : Nat) {stop : StopHandle} (hstop : stop ≠ .handle true) :
    ExpansionRight entries L (expansion entries L threads running stop) ↔ stop ≠ .null := by
  have hpos := List.length_pos_iff.2 hentries
  have hgap := pow_add_le (show 2 ≤ entries.length + 1 by omega) haddressable hmax
  have hc : (expansion entries L threads running stop).Valid entries :=
    ⟨rfl, hpos, hmax, hthreads.1, show (entries.length + 1) ^ L + threads ≤ 2 ^ 64 by omega, hstop⟩
  have hwords := getDynamicPtr_eq hpos hmax
  constructor
  · rintro hright rfl
    obtain ⟨n, s, hrun, hcrashed⟩ := null_crashes hc rfl
    rw [hright.inBounds n s hrun] at hcrashed
    cases hcrashed
  · intro hnull
    have hbounds : ∀ n s, Run (expansion entries L threads running stop) n s →
        s.crashed = false := fun n s hrun => by
      have hcrash := (run_inv hc hrun).1.null_of_crashed
      exact Bool.eq_false_iff.2 fun h => hnull (hcrash h)
    refine ⟨⟨_, hwords, fun w hw => ?_⟩, hbounds,
      ⟨left (expansion entries L threads running stop)
        (initial (expansion entries L threads running stop)),
      fun n s hrun => ?_⟩,
      fun n s hrun hstopped => ?_⟩
    · rw [← wordOf_visits hw L, List.mem_map]
      constructor
      · rintro ⟨i, hi, rfl⟩
        rw [List.mem_range'_1] at hi
        exact ⟨i, hi.1, by omega, rfl⟩
      · rintro ⟨i, hi, hlt, rfl⟩
        exact ⟨i, List.mem_range'_1.2 ⟨hi, by omega⟩, rfl⟩
    · have := (run_inv hc hrun).2
      exact Nat.le_trans (Nat.le_add_right n _) this
    · obtain ⟨hall, -, hperm⟩ :=
        stopped_spec (run_inv hc hrun).1 hstopped (hbounds n s hrun)
      exact ⟨hall, _, hwords, hperm⟩

/-- Two words, up to three of them, with four workers and a handle. -/
theorem two_entries_expanded :
    ExpansionRight ["a", "b"] 3 (expansion ["a", "b"] 3 4 0 (.handle false)) :=
  (expansion_right_iff (by decide) (by decide) (by decide) (by decide) 0 (by decide)).2 (by decide)

/-- A call without a handle ends with an access to a null pointer. -/
theorem no_handle_crashes : ¬ ExpansionRight ["a"] 1 (expansion ["a"] 1 1 0 .null) := by
  intro hright
  have hc : (expansion ["a"] 1 1 0 .null).Valid ["a"] :=
    ⟨rfl, by decide, by decide, by decide, by decide, by decide⟩
  obtain ⟨n, s, hrun, hcrashed⟩ := null_crashes hc rfl
  rw [hright.inBounds n s hrun] at hcrashed
  cases hcrashed

end Acts.Hashes.TextExpand
