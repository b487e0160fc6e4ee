import Mathlib.Algebra.Group.Int.Defs
import Mathlib.Algebra.Group.Nat.Defs
import Mathlib.Algebra.GroupWithZero.Nat
import Mathlib.Data.List.Basic
import Mathlib.Logic.Function.Basic
import Mathlib.Order.Lattice
import Mathlib.Order.Basic

/-!
# Loaders with several streams

A loader puts items into several streams.  Commands open a scope on a stream, close the
innermost scope, or put an item into the stream of the innermost scope.  A temporary stream
gets its position back when a scope on it is closed, any other stream only grows.

* `Loader` runs the commands as one sequence, with one stack of scopes for all streams.
* `Cursor` is one stream alone: it sees only the marks that the commands leave on it.
* `sort` hands every command to its stream.
* `run_cursors`: the loader is its streams, run one by one.
* `Recorded` — commands recorded on several tapes, one at a time; `Recorded.replay` runs two of
  them in a row.
* `Cursor.position_le` — how far the items can move a stream.

Positions are unbounded; how an item moves a position is the parameter `place`.
-/

set_option autoImplicit false

namespace Acts.Lib.Streams

/-! ## Commands -/

/-- A command to a loader with streams `β` and items `κ`. -/
inductive Command (β κ : Type) where
  | push (b : β)
  | pop
  | put (k : κ)
  deriving DecidableEq, Repr

/-- What a command leaves on its stream. -/
inductive Mark (κ : Type) where
  | opened
  | closed
  | put (k : κ)
  deriving DecidableEq, Repr

variable {β κ : Type}

def Command.mark : Command β κ → Mark κ
  | .push _ => .opened
  | .pop => .closed
  | .put k => .put k

/-! ## One stream -/

/-- A stream: where it is, the highest position it has been at, the positions saved by its open
scopes (innermost first) and the position before each mark. -/
structure Cursor where
  position : Nat
  peak : Nat
  saved : List Nat
  starts : List Nat
  deriving DecidableEq, Repr

def Cursor.start : Cursor := ⟨0, 0, [], []⟩

section
variable (place : κ → Nat → Nat) (temp : Bool)

def Cursor.step (c : Cursor) : Mark κ → Option Cursor
  | .opened => some ⟨c.position, c.peak, c.position :: c.saved, c.starts ++ [c.position]⟩
  | .closed =>
    match c.saved with
    | [] => none
    | p :: rest =>
      some ⟨if temp then p else c.position, c.peak, rest, c.starts ++ [c.position]⟩
  | .put k =>
    if c.saved = [] then none
    else some ⟨place k c.position, max c.peak (place k c.position), c.saved,
      c.starts ++ [c.position]⟩

def Cursor.run (c : Cursor) (marks : List (Mark κ)) : Option Cursor :=
  marks.foldlM (Cursor.step place temp) c

end

/-! ## All streams -/

/-- The loader: its open scopes, innermost first, each with the position its stream had when it
was opened. -/
structure Loader (β : Type) where
  position : β → Nat
  peak : β → Nat
  frames : List (β × Nat)
  starts : β → List Nat

def Loader.start : Loader β := ⟨fun _ => 0, fun _ => 0, [], fun _ => []⟩

variable [DecidableEq β]

/-- The stream `b` takes note of the position it is at. -/
def Loader.note (l : Loader β) (b : β) : β → List Nat :=
  Function.update l.starts b (l.starts b ++ [l.position b])

section
variable (place : κ → Nat → Nat) (temp : β → Bool)

def Loader.step (l : Loader β) : Command β κ → Option (Loader β)
  | .push b => some { l with frames := (b, l.position b) :: l.frames, starts := l.note b }
  | .pop =>
    match l.frames with
    | [] => none
    | (b, p) :: rest =>
      some { l with
        position := if temp b then Function.update l.position b p else l.position,
        frames := rest, starts := l.note b }
  | .put k =>
    match l.frames with
    | [] => none
    | (b, _) :: _ =>
      some { l with
        position := Function.update l.position b (place k (l.position b)),
        peak := Function.update l.peak b (max (l.peak b) (place k (l.position b))),
        starts := l.note b }

def Loader.run (l : Loader β) (tape : List (Command β κ)) : Option (Loader β) :=
  tape.foldlM (Loader.step place temp) l

end

/-! ## Sorting the commands -/

/-- The commands handed out so far, and the streams of the scopes that are still open. -/
structure Sorted (β κ : Type) where
  active : List β
  marks : β → List (Mark κ)

def Sorted.start : Sorted β κ := ⟨[], fun _ => []⟩

/-- The stream that takes a command. -/
def Command.stream (active : List β) : Command β κ → Option β
  | .push b => some b
  | .pop => active.head?
  | .put _ => active.head?

/-- The open scopes after a command. -/
def Command.scopes (active : List β) : Command β κ → List β
  | .push b => b :: active
  | .pop => active.tail
  | .put _ => active

def Sorted.step (s : Sorted β κ) (c : Command β κ) : Option (Sorted β κ) :=
  (c.stream s.active).map fun b =>
    ⟨c.scopes s.active, Function.update s.marks b (s.marks b ++ [c.mark])⟩

def Sorted.run (s : Sorted β κ) (tape : List (Command β κ)) : Option (Sorted β κ) :=
  tape.foldlM Sorted.step s

theorem Sorted.run_append (s : Sorted β κ) (t₁ t₂ : List (Command β κ)) :
    s.run (t₁ ++ t₂) = (s.run t₁).bind fun s' => s'.run t₂ := by
  unfold Sorted.run
  rw [List.foldlM_append]
  rfl

/-- Marks that are there already stay in front. -/
theorem Sorted.run_after {s s' : Sorted β κ} {tape : List (Command β κ)} (h : s.run tape = some s')
    (before : β → List (Mark κ)) :
    Sorted.run ⟨s.active, fun b => before b ++ s.marks b⟩ tape =
      some ⟨s'.active, fun b => before b ++ s'.marks b⟩ := by
  induction tape generalizing s with
  | nil =>
    cases h
    rfl
  | cons c tape ih =>
    obtain ⟨s₁, hs₁, hrest⟩ := Option.bind_eq_some_iff.mp h
    obtain ⟨b, hb, rfl⟩ := Option.map_eq_some_iff.mp hs₁
    have hmarks : Function.update (fun b' => before b' ++ s.marks b') b
        (before b ++ s.marks b ++ [c.mark]) =
        fun b' => before b' ++ Function.update s.marks b (s.marks b ++ [c.mark]) b' := by
      funext b'
      by_cases heq : b' = b
      · subst heq
        simp only [Function.update_self, List.append_assoc]
      · simp only [Function.update_of_ne heq]
    have hnext := ih hrest
    unfold Sorted.run at hnext ⊢
    rw [List.foldlM_cons]
    simp only [Sorted.step, hb, Option.map_some, hmarks]
    exact hnext

/-! ## The loader is its streams -/

/-- What the loader knows about the stream `b`. -/
def Loader.cursor (l : Loader β) (b : β) : Cursor :=
  ⟨l.position b, l.peak b, (l.frames.filter (·.1 = b)).map (·.2), l.starts b⟩

section
variable (place : κ → Nat → Nat) (temp : β → Bool)

/-- The loader agrees with every stream run alone on the marks handed to it. -/
structure Agrees (s : Sorted β κ) (l : Loader β) : Prop where
  scopes : l.frames.map (·.1) = s.active
  cursors : ∀ b, Cursor.run place (temp b) .start (s.marks b) = some (l.cursor b)

variable {place temp}

theorem Cursor.run_concat {t : Bool} {c c' : Cursor} {marks : List (Mark κ)} {m : Mark κ}
    (h : Cursor.run place t c marks = some c') :
    Cursor.run place t c (marks ++ [m]) = Cursor.step place t c' m := by
  unfold Cursor.run at h ⊢
  rw [List.foldlM_append, h]
  exact Option.bind_fun_some _

/-- A command changes its own stream as the mark says, and no other stream. -/
theorem Agrees.update {s : Sorted β κ} {l l' : Loader β} {b : β} {m : Mark κ}
    (h : Agrees place temp s l) {active : List β} (hactive : l'.frames.map (·.1) = active)
    (hself : Cursor.step place (temp b) (l.cursor b) m = some (l'.cursor b))
    (hother : ∀ b', b' ≠ b → l'.cursor b' = l.cursor b') :
    Agrees place temp ⟨active, Function.update s.marks b (s.marks b ++ [m])⟩ l' := by
  refine ⟨hactive, fun b' => ?_⟩
  show Cursor.run place (temp b') .start (Function.update s.marks b _ b') = _
  by_cases heq : b' = b
  · subst heq
    rw [Function.update_self, Cursor.run_concat (h.cursors _)]
    exact hself
  · rw [Function.update_of_ne heq, hother b' heq]
    exact h.cursors b'

theorem Agrees.step {s s' : Sorted β κ} {l : Loader β} {c : Command β κ}
    (h : Agrees place temp s l) (hs : s.step c = some s') :
    ∃ l', l.step place temp c = some l' ∧ Agrees place temp s' l' := by
  obtain ⟨b, hb, rfl⟩ := Option.map_eq_some_iff.mp hs
  obtain ⟨position, peak, frames, starts⟩ := l
  have hscopes := h.scopes
  cases c with
  | push b' =>
    cases hb
    refine ⟨_, rfl, h.update ?_ ?_ ?_⟩
    · show b :: frames.map (·.1) = b :: s.active
      rw [← hscopes]
    · simp [Cursor.step, Command.mark, Loader.cursor, Loader.note]
    · intro b' hne
      simp [Loader.cursor, Loader.note, hne, Ne.symm hne]
  | pop =>
    cases frames with
    | nil =>
      rw [← hscopes] at hb
      cases hb
    | cons frame rest =>
      obtain ⟨b', p⟩ := frame
      rw [← hscopes] at hb
      cases hb
      refine ⟨_, rfl, h.update ?_ ?_ ?_⟩
      · show rest.map (·.1) = s.active.tail
        rw [← hscopes]
        rfl
      · by_cases ht : temp b' <;> simp [Cursor.step, Command.mark, Loader.cursor, Loader.note, ht]
      · intro b hne
        by_cases ht : temp b' <;> simp [Loader.cursor, Loader.note, ht, hne, Ne.symm hne]
  | put k =>
    cases frames with
    | nil =>
      rw [← hscopes] at hb
      cases hb
    | cons frame rest =>
      obtain ⟨b', p⟩ := frame
      rw [← hscopes] at hb
      cases hb
      refine ⟨_, rfl, h.update hscopes ?_ ?_⟩
      · simp [Cursor.step, Command.mark, Loader.cursor, Loader.note]
      · intro b hne
        simp [Loader.cursor, Loader.note, hne]

/-- **The loader does to every stream what that stream does alone.** -/
theorem run_cursors {s s' : Sorted β κ} {l : Loader β} {tape : List (Command β κ)}
    (h : Agrees place temp s l) (hs : s.run tape = some s') :
    ∃ l', l.run place temp tape = some l' ∧ Agrees place temp s' l' := by
  induction tape generalizing s l with
  | nil =>
    cases hs
    exact ⟨l, rfl, h⟩
  | cons c tape ih =>
    obtain ⟨s₁, hs₁, hrest⟩ := Option.bind_eq_some_iff.mp hs
    obtain ⟨l₁, hl₁, h₁⟩ := h.step hs₁
    obtain ⟨l', hl', h'⟩ := ih h₁ hrest
    refine ⟨l', ?_, h'⟩
    unfold Loader.run
    rw [List.foldlM_cons, hl₁]
    exact hl'

theorem agrees_start (place : κ → Nat → Nat) (temp : β → Bool) :
    Agrees place temp (.start : Sorted β κ) .start :=
  ⟨rfl, fun _ => rfl⟩

end

/-! ## Facts about one stream -/

section
variable {place : κ → Nat → Nat} {t : Bool} {c c' : Cursor} {m : Mark κ} {marks : List (Mark κ)}

/-- What holds of a cursor and is kept by every mark holds after every run. -/
theorem Cursor.run_induction {P : Cursor → Prop}
    (hstep : ∀ {c c'} {m : Mark κ}, P c → Cursor.step place t c m = some c' → P c') (h : P c)
    (hrun : Cursor.run place t c marks = some c') : P c' := by
  induction marks generalizing c with
  | nil =>
    cases hrun
    exact h
  | cons m marks ih =>
    obtain ⟨c₁, hc₁, hrest⟩ := Option.bind_eq_some_iff.mp hrun
    exact ih (hstep h hc₁) hrest

theorem Cursor.step_opened (h : Cursor.step place t c .opened = some c') :
    c' = ⟨c.position, c.peak, c.position :: c.saved, c.starts ++ [c.position]⟩ :=
  (Option.some.inj h).symm

theorem Cursor.step_closed (h : Cursor.step place t c .closed = some c') :
    ∃ p rest, c.saved = p :: rest ∧
      c' = ⟨if t then p else c.position, c.peak, rest, c.starts ++ [c.position]⟩ := by
  unfold Cursor.step at h
  cases hsaved : c.saved with
  | nil => simp [hsaved] at h
  | cons p rest =>
    simp only [hsaved] at h
    exact ⟨p, rest, rfl, (Option.some.inj h).symm⟩

theorem Cursor.step_put {k : κ} (h : Cursor.step place t c (.put k) = some c') :
    c.saved ≠ [] ∧ c' = ⟨place k c.position, max c.peak (place k c.position), c.saved,
      c.starts ++ [c.position]⟩ := by
  simp only [Cursor.step] at h
  split at h
  · cases h
  · rename_i hne
    exact ⟨hne, (Option.some.inj h).symm⟩

/-- One mark: a scope opened, a scope closed or an item put into an open scope. -/
theorem Cursor.step_cases (h : Cursor.step place t c m = some c') :
    (m = .opened ∧ c' = ⟨c.position, c.peak, c.position :: c.saved, c.starts ++ [c.position]⟩) ∨
    (∃ p rest, m = .closed ∧ c.saved = p :: rest ∧
      c' = ⟨if t then p else c.position, c.peak, rest, c.starts ++ [c.position]⟩) ∨
    (∃ k, m = .put k ∧ c.saved ≠ [] ∧
      c' = ⟨place k c.position, max c.peak (place k c.position), c.saved,
        c.starts ++ [c.position]⟩) := by
  cases m with
  | opened => exact Or.inl ⟨rfl, Cursor.step_opened h⟩
  | closed =>
    obtain ⟨p, rest, hsaved, hc'⟩ := Cursor.step_closed h
    exact Or.inr (Or.inl ⟨p, rest, rfl, hsaved, hc'⟩)
  | put k => exact Or.inr (Or.inr ⟨k, rfl, Cursor.step_put h⟩)

theorem Cursor.peak_le (hrun : Cursor.run place t c marks = some c') : c.peak ≤ c'.peak := by
  refine Cursor.run_induction (P := fun d => c.peak ≤ d.peak) ?_ le_rfl hrun
  intro d d' m hd hstep
  rcases Cursor.step_cases hstep with ⟨-, rfl⟩ | ⟨p, rest, -, -, rfl⟩ | ⟨k, -, -, rfl⟩
  · exact hd
  · exact hd
  · exact hd.trans (le_max_left _ _)

/-- No position, saved ones included, is above the peak. -/
structure Cursor.Bounded (c : Cursor) : Prop where
  position : c.position ≤ c.peak
  saved : ∀ p ∈ c.saved, p ≤ c.peak
  starts : ∀ p ∈ c.starts, p ≤ c.peak

theorem Cursor.bounded_start : Cursor.start.Bounded := ⟨le_rfl, nofun, nofun⟩

theorem Cursor.Bounded.step (h : c.Bounded) (hstep : Cursor.step place t c m = some c') :
    c'.Bounded := by
  have hstarts : ∀ p ∈ c.starts ++ [c.position], p ≤ c.peak := by
    intro p hp
    rcases List.mem_append.mp hp with hp | hp
    · exact h.starts p hp
    · rw [List.mem_singleton.mp hp]
      exact h.position
  rcases Cursor.step_cases hstep with ⟨-, rfl⟩ | ⟨p, rest, -, hsaved, rfl⟩ | ⟨k, -, -, rfl⟩
  · exact ⟨h.position, List.forall_mem_cons.mpr ⟨h.position, h.saved⟩, hstarts⟩
  · have hsaved' := h.saved
    rw [hsaved] at hsaved'
    obtain ⟨hp, hrest⟩ := List.forall_mem_cons.mp hsaved'
    refine ⟨?_, hrest, hstarts⟩
    cases t with
    | true => exact hp
    | false => exact h.position
  · exact ⟨le_max_right _ _, fun p hp => (h.saved p hp).trans (le_max_left _ _),
      fun p hp => (hstarts p hp).trans (le_max_left _ _)⟩

theorem Cursor.Bounded.run (h : c.Bounded) (hrun : Cursor.run place t c marks = some c') :
    c'.Bounded :=
  Cursor.run_induction (fun hc hstep => Cursor.Bounded.step hc hstep) h hrun

/-- A temporary stream is back where it started when its last scope is closed. -/
theorem Cursor.temp_position (hrun : Cursor.run place true .start marks = some c)
    (hsaved : c.saved = []) : c.position = 0 := by
  have hlast : (c.position :: c.saved).getLast? = some 0 := by
    refine Cursor.run_induction (P := fun d => (d.position :: d.saved).getLast? = some 0)
      ?_ rfl hrun
    intro d d' m hd hstep
    rcases Cursor.step_cases hstep with ⟨-, rfl⟩ | ⟨p, rest, -, hd', rfl⟩ | ⟨k, -, hne, rfl⟩
    · exact hd
    · rw [hd'] at hd
      exact hd
    · cases hd' : d.saved with
      | nil => exact absurd hd' hne
      | cons p rest =>
        rw [hd'] at hd
        exact hd
  rw [hsaved] at hlast
  exact Option.some.inj hlast

/-- A stream that is not temporary is at its highest position, if no item moves it back. -/
theorem Cursor.position_peak (hplace : ∀ k p, p ≤ place k p) (hpeak : c.position = c.peak)
    (hrun : Cursor.run place false c marks = some c') : c'.position = c'.peak := by
  refine Cursor.run_induction (P := fun d => d.position = d.peak) ?_ hpeak hrun
  intro d d' m hd hstep
  rcases Cursor.step_cases hstep with ⟨-, rfl⟩ | ⟨p, rest, -, -, rfl⟩ | ⟨k, -, -, rfl⟩
  · exact hd
  · exact hd
  · show place k d.position = max d.peak (place k d.position)
    rw [← hd, max_eq_right (hplace k d.position)]

theorem Cursor.step_defined {d : Cursor} (hlen : c.saved.length = d.saved.length)
    (h : Cursor.step place t c m = some c') :
    ∃ d', Cursor.step place t d m = some d' ∧ c'.saved.length = d'.saved.length := by
  rcases Cursor.step_cases h with ⟨rfl, rfl⟩ | ⟨p, rest, rfl, hsaved, rfl⟩ | ⟨k, rfl, hne, rfl⟩
  · exact ⟨_, rfl, congrArg (· + 1) hlen⟩
  · rw [hsaved] at hlen
    cases hd : d.saved with
    | nil =>
      rw [hd] at hlen
      cases hlen
    | cons q rest' =>
      rw [hd] at hlen
      refine ⟨_, by simp only [Cursor.step, hd]; rfl, Nat.succ.inj hlen⟩
  · have hd : d.saved ≠ [] := by
      intro hd
      rw [hd] at hlen
      exact hne (List.length_eq_zero_iff.mp hlen)
    exact ⟨_, if_neg hd, hlen⟩

/-- Whether the marks can be followed does not depend on the positions. -/
theorem Cursor.run_defined {d : Cursor} (hlen : c.saved.length = d.saved.length)
    (hrun : Cursor.run place t c marks = some c') :
    ∃ d', Cursor.run place t d marks = some d' := by
  induction marks generalizing c d with
  | nil => exact ⟨d, rfl⟩
  | cons m marks ih =>
    obtain ⟨c₁, hc₁, hrest⟩ := Option.bind_eq_some_iff.mp hrun
    obtain ⟨d₁, hd₁, hlen₁⟩ := Cursor.step_defined hlen hc₁
    obtain ⟨d', hd'⟩ := ih hlen₁ hrest
    refine ⟨d', ?_⟩
    unfold Cursor.run
    rw [List.foldlM_cons, hd₁]
    exact hd'

theorem Cursor.run_append {marks' : List (Mark κ)} {c'' : Cursor}
    (h : Cursor.run place t c marks = some c') (h' : Cursor.run place t c' marks' = some c'') :
    Cursor.run place t c (marks ++ marks') = some c'' := by
  unfold Cursor.run at h h' ⊢
  rw [List.foldlM_append, h]
  exact h'

/-- An upper bound of what a mark moves its stream by. -/
def Mark.weight (bound : κ → Nat) : Mark κ → Nat
  | .put k => bound k
  | .opened => 0
  | .closed => 0

/-- The items move a stream by no more than the sum of their bounds, wherever it starts. -/
theorem Cursor.position_le {bound : κ → Nat} (hplace : ∀ k p, place k p ≤ p + bound k)
    (hrun : Cursor.run place false c marks = some c') :
    c'.position ≤ c.position + (marks.map (Mark.weight bound)).sum := by
  induction marks generalizing c with
  | nil =>
    cases hrun
    simp
  | cons m marks ih =>
    obtain ⟨c₁, hc₁, hrest⟩ := Option.bind_eq_some_iff.mp hrun
    have hle := ih hrest
    have hstep : c₁.position ≤ c.position + Mark.weight bound m := by
      rcases Cursor.step_cases hc₁ with ⟨rfl, rfl⟩ | ⟨p, rest, rfl, -, rfl⟩ | ⟨k, rfl, -, rfl⟩
      · exact Nat.le_add_right _ _
      · exact Nat.le_add_right _ _
      · exact hplace k _
    rw [List.map_cons, List.sum_cons]
    omega

end

/-! ## Several tapes -/

section
variable {μ : Type} [DecidableEq μ] {tape : μ → List (Command β κ)} {mode : μ} {active : List β}
  {marks : μ → β → List (Mark κ)}

/-- One tape for each mode, sorted into the marks of that mode.  Scopes are open on the tape of the
current mode only. -/
def Recorded (tape : μ → List (Command β κ)) (mode : μ) (active : List β)
    (marks : μ → β → List (Mark κ)) : Prop :=
  ∀ m, Sorted.run .start (tape m) = some ⟨if m = mode then active else [], marks m⟩

theorem Recorded.start (mode : μ) :
    Recorded (fun _ => ([] : List (Command β κ))) mode [] fun _ _ => [] := by
  intro m
  rw [ite_self]
  rfl

/-- The mode changes only between scopes. -/
theorem Recorded.switch (h : Recorded tape mode active marks) {mode' : μ}
    (hmode : mode' = mode ∨ active = []) : Recorded tape mode' active marks := by
  rcases hmode with rfl | rfl
  · exact h
  · intro m
    have hm := h m
    rw [ite_self] at hm ⊢
    exact hm

/-- A command on the current tape. -/
theorem Recorded.emit (h : Recorded tape mode active marks) {c : Command β κ} {b : β}
    (hb : c.stream active = some b) :
    Recorded (Function.update tape mode (tape mode ++ [c])) mode (c.scopes active)
      (Function.update marks mode
        (Function.update (marks mode) b (marks mode b ++ [c.mark]))) := by
  intro m
  have hm := h m
  by_cases heq : m = mode
  · subst heq
    rw [if_pos rfl] at hm
    rw [if_pos rfl, Function.update_self, Function.update_self, Sorted.run_append, hm]
    show (Sorted.step _ c).bind some = _
    simp [Sorted.step, hb]
  · rw [if_neg heq] at hm
    rw [if_neg heq, Function.update_of_ne heq, Function.update_of_ne heq, hm]

/-- **Two tapes in a row**: the loader runs through, and does to every stream what the stream does
alone on its marks, with no scope open between the tapes. -/
theorem Recorded.replay (h : Recorded tape mode [] marks) (place : κ → Nat → Nat)
    (temp : β → Bool) (m₁ m₂ : μ) :
    ∃ loader, Loader.run place temp .start (tape m₁ ++ tape m₂) = some loader ∧ ∀ b, ∃ c,
      Cursor.run place (temp b) .start (marks m₁ b) = some c ∧ c.saved = [] ∧
      Cursor.run place (temp b) c (marks m₂ b) = some (loader.cursor b) := by
  have hsorted : ∀ m, Sorted.run .start (tape m) = some ⟨[], marks m⟩ := by
    intro m
    rw [h m, ite_self]
  obtain ⟨first, -, hfirst⟩ := run_cursors (agrees_start place temp) (hsorted m₁)
  have hboth : Sorted.run .start (tape m₁ ++ tape m₂) =
      some ⟨[], fun b => marks m₁ b ++ marks m₂ b⟩ := by
    rw [Sorted.run_append, hsorted]
    have hafter := Sorted.run_after (hsorted m₂) (marks m₁)
    simpa [Sorted.start] using hafter
  obtain ⟨loader, hloader, hall⟩ := run_cursors (agrees_start place temp) hboth
  refine ⟨loader, hloader, fun b => ⟨first.cursor b, hfirst.cursors b, ?_, ?_⟩⟩
  · have hframes : first.frames = [] := List.map_eq_nil_iff.mp hfirst.scopes
    simp [Loader.cursor, hframes]
  · have hrun := hall.cursors b
    have hhead := hfirst.cursors b
    unfold Cursor.run at hrun hhead ⊢
    rw [List.foldlM_append, hhead] at hrun
    exact hrun

end

end Acts.Lib.Streams
