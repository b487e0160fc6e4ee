import Mathlib.Algebra.Group.Int.Defs
import Mathlib.Algebra.Group.Nat.Defs
import Mathlib.Algebra.GroupWithZero.Nat
import Mathlib.Data.List.Basic
import Mathlib.Order.Basic
import Mathlib.Order.Defs.LinearOrder
import Mathlib.Order.Lattice

/-!
# Marks and segments

Marks say which label holds from a point on, or that none does.  Runs of marks with one label are
collapsed to half-open segments.

* `segments` — the segments of the marks, with the segment that is open.
* `segments_sorted` — in ascending marks the segments are in order and do not overlap.
* `lookup_mark` — **a point between a mark and the next one finds the label of the mark.**
* `flush_mem` — where the label changes a segment ends, whatever the order of the marks.
-/

set_option autoImplicit false

namespace Acts.Lib.Segments

variable {α β : Type}

/-! ## Segments -/

structure Segment (α β : Type) where
  start : α
  stop : α
  label : β
  deriving DecidableEq, Repr

/-- A point, and the label from there on. -/
abbrev Mark (α β : Type) := α × Option β

/-- The start of the open segment, and its label. -/
abbrev Open (α β : Type) := Option (α × β)

def Open.label (cur : Open α β) : Option β := cur.map Prod.snd

def flush (cur : Open α β) (stop : α) : List (Segment α β) :=
  cur.toList.map fun c => ⟨c.1, stop, c.2⟩

/-- What a mark opens. -/
def Mark.opens (m : Mark α β) : Open α β := m.2.map fun l => (m.1, l)

@[simp] theorem label_opens (m : Mark α β) : m.opens.label = m.2 := by
  obtain ⟨a, _ | l⟩ := m
  · rfl
  · rfl

/-! ## Ascending marks -/

section Order

variable [LinearOrder α] {final a x : α} {cur : Open α β} {marks : List (Mark α β)}

/-- The marks do not go back, from `a` up to `final`. -/
def Ascending (final : α) : α → List (Mark α β) → Prop
  | a, [] => a ≤ final
  | a, m :: marks => a ≤ m.1 ∧ Ascending final m.1 marks

/-- The first point behind a mark. -/
def next (final : α) (marks : List (Mark α β)) : α := (marks.head?.map Prod.fst).getD final

/-- The label of the first segment with the point. -/
def lookup (x : α) (segs : List (Segment α β)) : Option β :=
  (segs.find? fun s => decide (s.start ≤ x ∧ x < s.stop)).map Segment.label

structure Sorted (segs : List (Segment α β)) : Prop where
  valid : ∀ s ∈ segs, s.start ≤ s.stop
  order : segs.Pairwise fun s t => s.stop ≤ t.start

theorem Ascending.le (h : Ascending final a marks) : a ≤ next final marks := by
  cases marks with
  | nil => exact h
  | cons m marks => exact h.1

theorem Ascending.le_mark {marks' : List (Mark α β)} {m : Mark α β}
    (h : Ascending final a (marks ++ m :: marks')) : a ≤ m.1 := by
  induction marks generalizing a with
  | nil => exact h.1
  | cons m' marks ih => exact h.1.trans (ih h.2)

theorem Ascending.le_marks (h : Ascending final a marks) : ∀ x ∈ marks.map Prod.fst, a ≤ x := by
  intro x hx
  obtain ⟨m, hm, rfl⟩ := List.mem_map.mp hx
  obtain ⟨pre, post, rfl⟩ := List.append_of_mem hm
  exact h.le_mark

theorem Ascending.mono {final' b : α} (h : Ascending final a marks) (hb : b ≤ a)
    (hfinal : final ≤ final') : Ascending final' b marks := by
  induction marks generalizing a b with
  | nil => exact hb.trans (h.trans hfinal)
  | cons m marks ih => exact ⟨hb.trans h.1, ih h.2 (le_refl m.1)⟩

theorem Ascending.append {marks' : List (Mark α β)} {b : α}
    (h : Ascending (next final marks') a marks) (h' : Ascending final b marks') :
    Ascending final a (marks ++ marks') := by
  induction marks generalizing a with
  | nil =>
    cases marks' with
    | nil => exact h
    | cons m marks' => exact ⟨h, h'.2⟩
  | cons m marks ih => exact ⟨h.1, ih h.2⟩

/-- The open segment starts at `a` or before. -/
def Open.upTo (cur : Open α β) (a : α) : Prop := ∀ c ∈ cur, c.1 ≤ a

theorem upTo_opens {m : Mark α β} (h : m.1 ≤ a) : m.opens.upTo a := by
  intro c hc
  obtain ⟨l, -, rfl⟩ := Option.map_eq_some_iff.mp hc
  exact h

theorem le_opens (m : Mark α β) : ∀ c ∈ m.opens, m.1 ≤ c.1 := by
  intro c hc
  obtain ⟨l, -, rfl⟩ := Option.map_eq_some_iff.mp hc
  exact le_refl m.1

theorem Open.upTo.trans {b : α} (h : cur.upTo a) (hab : a ≤ b) : cur.upTo b :=
  fun c hc => (h c hc).trans hab

theorem lookup_flush {c : α × β} {stop : α} (segs : List (Segment α β)) (hs : c.1 ≤ x) :
    lookup x (flush (some c) stop ++ segs) = if x < stop then some c.2 else lookup x segs := by
  unfold lookup
  split
  · rename_i h
    simp [flush, hs, h]
  · rename_i h
    simp [flush, hs, h]

/-- A point behind a mark does not see what was closed there. -/
theorem lookup_closed {stop : α} (segs : List (Segment α β)) (h : stop ≤ x) :
    lookup x (flush cur stop ++ segs) = lookup x segs := by
  cases cur with
  | none => rfl
  | some c =>
    unfold lookup
    have hx : ¬ x < stop := not_lt.mpr h
    simp [flush, hx]

end Order

/-! ## The segments of marks -/

variable [DecidableEq β]

def segments (final : α) : Open α β → List (Mark α β) → List (Segment α β)
  | cur, [] => flush cur final
  | cur, m :: marks =>
    if cur.label = m.2 then segments final cur marks
    else flush cur m.1 ++ segments final m.opens marks

/-- The open segment after the marks. -/
def after : Open α β → List (Mark α β) → Open α β
  | cur, [] => cur
  | cur, m :: marks => if cur.label = m.2 then after cur marks else after m.opens marks

/-- The segments that the marks close. -/
def closed : Open α β → List (Mark α β) → List (Segment α β)
  | _, [] => []
  | cur, m :: marks =>
    if cur.label = m.2 then closed cur marks else flush cur m.1 ++ closed m.opens marks

theorem closed_single (cur : Open α β) (m : Mark α β) :
    closed cur [m] = if cur.label = m.2 then [] else flush cur m.1 := by
  rw [closed, closed, closed, List.append_nil]

theorem after_single (cur : Open α β) (m : Mark α β) :
    after cur [m] = if cur.label = m.2 then cur else m.opens := rfl

theorem segments_append (final : α) (cur : Open α β) (marks rest : List (Mark α β)) :
    segments final cur (marks ++ rest) = closed cur marks ++ segments final (after cur marks) rest := by
  induction marks generalizing cur with
  | nil => rfl
  | cons m marks ih =>
    rw [List.cons_append, segments, closed, after]
    split
    · exact ih cur
    · rw [ih, List.append_assoc]

theorem segments_eq (final : α) (cur : Open α β) (marks : List (Mark α β)) :
    segments final cur marks = closed cur marks ++ flush (after cur marks) final := by
  have h := segments_append final cur marks []
  rw [List.append_nil] at h
  exact h

theorem after_append (cur : Open α β) (marks rest : List (Mark α β)) :
    after cur (marks ++ rest) = after (after cur marks) rest := by
  induction marks generalizing cur with
  | nil => rfl
  | cons m marks ih =>
    rw [List.cons_append, after, after]
    split
    · exact ih cur
    · exact ih m.opens

theorem closed_append (cur : Open α β) (marks rest : List (Mark α β)) :
    closed cur (marks ++ rest) = closed cur marks ++ closed (after cur marks) rest := by
  induction marks generalizing cur with
  | nil => rfl
  | cons m marks ih =>
    rw [List.cons_append, closed, closed, after]
    split
    · exact ih cur
    · rw [ih, List.append_assoc]

/-- The open segment has the label of the last mark. -/
theorem label_after (cur : Open α β) (marks : List (Mark α β)) :
    (after cur marks).label = (marks.getLast?.map Prod.snd).getD cur.label := by
  induction marks generalizing cur with
  | nil => rfl
  | cons m marks ih =>
    rw [after]
    split
    · rename_i h
      rw [ih, h]
      cases marks with
      | nil => rfl
      | cons m' marks => rfl
    · rw [ih, label_opens]
      cases marks with
      | nil => rfl
      | cons m' marks => rfl

/-- The open segment starts at one of the marks, or is the one from before. -/
theorem start_after {cur : Open α β} {marks : List (Mark α β)} {c : α × β}
    (h : after cur marks = some c) : cur = some c ∨ c.1 ∈ marks.map Prod.fst := by
  induction marks generalizing cur with
  | nil => exact .inl h
  | cons m marks ih =>
    rw [after] at h
    split at h
    · rcases ih h with hcur | hmem
      · exact .inl hcur
      · exact .inr (List.mem_cons_of_mem _ hmem)
    · rcases ih h with hcur | hmem
      · obtain ⟨l, -, rfl⟩ := Option.map_eq_some_iff.mp hcur
        exact .inr List.mem_cons_self
      · exact .inr (List.mem_cons_of_mem _ hmem)

/-- Where the label changes behind marks that begin a segment, one of them starts a segment that
ends there. -/
theorem flush_mem (final : α) {cur : Open α β} {m : Mark α β} {marks : List (Mark α β)}
    (hfirst : cur.label ≠ m.2) {next : Mark α β} {l : β}
    (hlast : (after cur (m :: marks)).label = some l) (hnext : next.2 ≠ some l)
    (rest : List (Mark α β)) :
    ∃ a ∈ (m :: marks).map Prod.fst,
      ⟨a, next.1, l⟩ ∈ segments final cur (m :: marks ++ next :: rest) := by
  obtain ⟨c, hc, rfl⟩ := Option.map_eq_some_iff.mp hlast
  refine ⟨c.1, ?_, ?_⟩
  · have hstart := hc
    rw [after, if_neg hfirst] at hstart
    rcases start_after hstart with hopens | hmem
    · obtain ⟨l, -, rfl⟩ := Option.map_eq_some_iff.mp hopens
      exact List.mem_cons_self
    · exact List.mem_cons_of_mem _ hmem
  · rw [segments_append, segments, hlast, if_neg (Ne.symm hnext), hc]
    exact List.mem_append_right _ List.mem_cons_self

section Order

variable [LinearOrder α] {final a x : α} {cur : Open α β} {marks : List (Mark α β)}

theorem le_start {low : α} (h : Ascending final a marks) (hlow : low ≤ a)
    (hcur : ∀ c ∈ cur, low ≤ c.1) : ∀ s ∈ segments final cur marks, low ≤ s.start := by
  induction marks generalizing a cur with
  | nil =>
    intro s hs
    obtain ⟨c, hc, rfl⟩ := List.mem_map.mp hs
    exact hcur c (Option.mem_toList.mp hc)
  | cons m marks ih =>
    have hm := hlow.trans h.1
    rw [segments]
    split
    · exact ih h.2 hm hcur
    · intro s hs
      rcases List.mem_append.mp hs with hs | hs
      · obtain ⟨c, hc, rfl⟩ := List.mem_map.mp hs
        exact hcur c (Option.mem_toList.mp hc)
      · exact ih h.2 hm (fun c hc => hm.trans (le_opens m c hc)) s hs

theorem segments_sorted (h : Ascending final a marks) (hcur : cur.upTo a) :
    Sorted (segments final cur marks) := by
  induction marks generalizing a cur with
  | nil =>
    rw [segments]
    cases cur with
    | none => exact ⟨by simp [flush], by simp [flush]⟩
    | some c =>
      have hc := (hcur c rfl).trans h
      exact ⟨by simpa [flush] using hc, by simp [flush]⟩
  | cons m marks ih =>
    rw [segments]
    split
    · exact ih h.2 (hcur.trans h.1)
    · have hrest := ih h.2 (upTo_opens (le_refl m.1))
      cases cur with
      | none => exact hrest
      | some c =>
        constructor
        · intro s hs
          rcases List.mem_cons.mp hs with rfl | hs
          · exact (hcur c rfl).trans h.1
          · exact hrest.valid s hs
        · refine List.pairwise_cons.mpr ⟨?_, hrest.order⟩
          exact le_start h.2 (le_refl m.1) (le_opens m)

/-! ## Looking a point up -/

/-- A point before the next mark finds the open segment. -/
theorem lookup_open (h : Ascending final a marks) (hcur : cur.upTo x) (hx : x < next final marks) :
    lookup x (segments final cur marks) = cur.label := by
  induction marks generalizing a cur with
  | nil =>
    cases cur with
    | none => rfl
    | some c =>
      have hfinal : x < final := hx
      rw [segments, ← List.append_nil (flush (some c) final), lookup_flush _ (hcur c rfl),
        if_pos hfinal]
      rfl
  | cons m marks ih =>
    have hm : x < m.1 := hx
    rw [segments]
    split
    · exact ih h.2 hcur (lt_of_lt_of_le hm h.2.le)
    · cases cur with
      | none =>
        -- every segment starts at the mark or behind it
        have hstart : ∀ s ∈ segments final m.opens marks, m.1 ≤ s.start :=
          le_start h.2 (le_refl m.1) (le_opens m)
        show lookup x (segments final m.opens marks) = none
        unfold lookup
        rw [List.find?_eq_none.mpr]
        · rfl
        · intro s hs
          have hlt := lt_of_lt_of_le hm (hstart s hs)
          simp [not_le.mpr hlt]
      | some c =>
        rw [lookup_flush _ (hcur c rfl), if_pos hm]
        rfl

/-- Where the open segment starts does not matter to a point behind. -/
theorem lookup_start {c c' : α × β} (hc : c.1 ≤ x) (hc' : c'.1 ≤ x) (hl : c.2 = c'.2) :
    lookup x (segments final (some c) marks) = lookup x (segments final (some c') marks) := by
  induction marks with
  | nil =>
    rw [segments, segments, ← List.append_nil (flush (some c) final), lookup_flush _ hc,
      ← List.append_nil (flush (some c') final), lookup_flush _ hc', hl]
  | cons m marks ih =>
    have hlabel : Open.label (some c) = Open.label (some c') := congrArg some hl
    rw [segments, segments, hlabel]
    split
    · exact ih
    · rw [lookup_flush _ hc, lookup_flush _ hc', hl]

theorem lookup_behind {m : Mark α β} (hcur : cur.upTo m.1) (hx : m.1 ≤ x) :
    lookup x (segments final cur (m :: marks)) = lookup x (segments final m.opens marks) := by
  rw [segments]
  split
  · rename_i h
    obtain ⟨b, label⟩ := m
    cases cur with
    | none =>
      have hlabel : label = none := h.symm
      subst hlabel
      rfl
    | some c =>
      have hlabel : label = some c.2 := h.symm
      subst hlabel
      exact lookup_start ((hcur c rfl).trans hx) hx rfl
  · exact lookup_closed _ hx

/-- **A point between a mark and the next one finds the label of the mark.** -/
theorem lookup_mark {marks' : List (Mark α β)} {m : Mark α β}
    (h : Ascending final a (marks ++ m :: marks')) (hcur : cur.upTo a) (hle : m.1 ≤ x)
    (hlt : x < next final marks') :
    lookup x (segments final cur (marks ++ m :: marks')) = m.2 := by
  induction marks generalizing a cur with
  | nil =>
    rw [List.nil_append, lookup_behind (hcur.trans h.1) hle,
      lookup_open h.2 (upTo_opens hle) hlt, label_opens]
  | cons m₀ marks ih =>
    rw [List.cons_append, lookup_behind (hcur.trans h.1)]
    · exact ih h.2 (upTo_opens (le_refl m₀.1))
    · exact h.2.le_mark.trans hle

end Order

end Acts.Lib.Segments
