import Acts.Actslib.Raio
import Acts.Lib.WeakOrder
import Mathlib.Data.List.Forall2

/-!
# Merging iterators (`data/iterator.hpp`)

* `AIterator`, `Source` — the methods of an iterator, and an iterator object.
* `mergeIterator`, `allocatedMergeAIterator` — the two-way merge, and the tree of them.
* `Lawful` — what a class of iterators keeps to: `++` moves on only behind an element that was asked
  for, and what a reference refers to stays until the next element is asked for.
* `emptyAIterator_lawful`, `handleAIterator_lawful`, `reader_lawful`, `mergeIterator_lawful` — the
  classes of the repository do.
* `allocatedMerge_sorted` — **merging sorted iterators yields their elements in order.**
-/

set_option autoImplicit false

namespace Acts.Actslib.Merge

open Acts.WeakOrder Io

inductive IteratorError (ε : Type) where
  /-- "Empty iterator" -/
  | emptyIterator
  | source (error : ε)

/-- A class of iterators: its fields, the references it gives out, and its methods. -/
structure AIterator (ε α : Type) : Type 1 where
  σ : Type
  ρ : Type
  toBool : σ → Except (IteratorError ε) (Bool × σ)
  deref : σ → Except (IteratorError ε) (ρ × σ)
  incr : σ → σ
  /-- What a reference refers to. -/
  load : σ → ρ → α

variable {ε α : Type}

def emptyAIterator : AIterator ε α where
  σ := Unit
  ρ := Empty
  toBool s := .ok (false, s)
  deref _ := .error .emptyIterator
  incr s := s
  load _ r := r.elim

/-- `HandleAIterator` of two pointers. -/
structure Handle where
  it : Nat
  stop : Nat

/-- The elements are in a memory. -/
def handleAIterator (memory : Nat → α) : AIterator ε α where
  σ := Handle
  ρ := Nat
  toBool s := .ok (s.it != s.stop, s)
  deref s := .ok (s.it, s)
  incr s := { s with it := s.it + 1 }
  load _ r := memory r

/-- `CompressComponentReader`, which has one element at a time. -/
def reader (debug : Bool) : AIterator Raio.RaioError (Nat × List UInt8) where
  σ := Raio.Reader
  ρ := Unit
  toBool s := (s.hasNode debug).mapError .source
  deref s := (s.node debug).mapError .source |>.map fun n => ((), n.2)
  incr := Raio.Reader.advance
  load s _ := (s.next.id, s.next.comp.strbuf)

/-! ## The two-way merge -/

section Merge

variable (lt : α → α → Bool) (left right : AIterator ε α)

/-- The fields of the two sources stand in those of the merge. -/
structure MergeState where
  l : left.σ
  r : right.σ
  next : Option (left.ρ ⊕ right.ρ)

variable {left right} in
def MergeState.load (s : MergeState left right) : left.ρ ⊕ right.ρ → α
  | .inl next => left.load s.l next
  | .inr next => right.load s.r next

/-- `next = &*left; ++left; return true;` -/
def takeLeft (l : left.σ) (r : right.σ) :
    Except (IteratorError ε) (Bool × MergeState left right) := do
  let (next, l) ← left.deref l
  .ok (true, ⟨left.incr l, r, some (.inl next)⟩)

def takeRight (l : left.σ) (r : right.σ) :
    Except (IteratorError ε) (Bool × MergeState left right) := do
  let (next, r) ← right.deref r
  .ok (true, ⟨l, right.incr r, some (.inr next)⟩)

def mergeToBool (s : MergeState left right) :
    Except (IteratorError ε) (Bool × MergeState left right) :=
  match s.next with
  | some _ => .ok (true, s)
  | none => do
    let (hasLeft, l) ← left.toBool s.l
    let (hasRight, r) ← right.toBool s.r
    if !hasLeft then
      if !hasRight then .ok (false, ⟨l, r, none⟩) else takeRight left right l r
    else if !hasRight then takeLeft left right l r
    else do
      let (a, l) ← left.deref l
      let (b, r) ← right.deref r
      if lt (left.load l a) (right.load r b) then takeLeft left right l r
      else takeRight left right l r

def mergeIterator : AIterator ε α where
  σ := MergeState left right
  ρ := left.ρ ⊕ right.ρ
  toBool := mergeToBool lt left right
  deref s := do
    let (more, s) ← mergeToBool lt left right s
    if more then
      match s.next with
      | some next => .ok (next, s)
      | none => .error .emptyIterator
    else .error .emptyIterator
  incr s := { s with next := none }
  load := MergeState.load

end Merge

/-! ## The tree of merges -/

/-- An iterator object. -/
structure Source (ε α : Type) : Type 1 where
  it : AIterator ε α
  state : it.σ

def Source.empty : Source ε α := ⟨emptyAIterator, ()⟩

section Tree

variable (lt : α → α → Bool)

def Source.merge (left right : Source ε α) : Source ε α :=
  ⟨mergeIterator lt left.it right.it, ⟨left.state, right.state, none⟩⟩

/-- The pairs of a level are merged; the last one of an odd level is added as it is. -/
def mergeLevel : List (Source ε α) → List (Source ε α)
  | a :: b :: rest => a.merge lt b :: mergeLevel rest
  | rest => rest

/-- The loop over the levels: `start` is where the last one begins in `its`. -/
def mergeLevels : Nat → List (Source ε α) → Nat → List (Source ε α)
  | 0, its, _ => its
  | fuel + 1, its, start =>
    let start' := its.length
    let its := its ++ mergeLevel lt (its.drop start)
    if its.length - start' > 1 then mergeLevels fuel its start' else its

/-- `main` of an `AllocatedMergeAIterator`, whose methods are those of `main`. -/
def allocatedMergeAIterator {Input : Type} (input : List Input) (map : Input → Source ε α) :
    Source ε α :=
  let its := input.map map
  if its.isEmpty then .empty
  else if its.length > 1 then ((mergeLevels lt its.length its 0).getLast?).getD .empty
  else (its.getLast?).getD .empty

end Tree

/-- `for (; it; ++it) use(*it);`; `none` when `fuel` elements did not end it. -/
def collect (it : AIterator ε α) : Nat → it.σ → Except (IteratorError ε) (Option (List α))
  | 0, _ => .ok none
  | fuel + 1, s => do
    let (more, s) ← it.toBool s
    if more then do
      let (r, s) ← it.deref s
      let rest ← collect it fuel (it.incr s)
      .ok (rest.map (it.load s r :: ·))
    else .ok (some [])

/-! ## What iterators keep to -/

/-- The elements that are left; the flag says that the first of them was asked for. -/
abbrev View (it : AIterator ε α) := Bool → it.σ → List α → Prop

structure Lawful (it : AIterator ε α) (V : View it) : Prop where
  asked : ∀ {s xs}, V true s xs → V false s xs
  toBool_nil : ∀ {s}, V false s [] → ∃ s', it.toBool s = .ok (false, s') ∧ V false s' []
  toBool_cons : ∀ {s x xs}, V false s (x :: xs) →
    ∃ s', it.toBool s = .ok (true, s') ∧ V true s' (x :: xs)
  deref : ∀ {s x xs}, V false s (x :: xs) →
    ∃ r s', it.deref s = .ok (r, s') ∧ V true s' (x :: xs) ∧ it.load s' r = x
  incr : ∀ {s x xs}, V true s (x :: xs) → V false (it.incr s) xs
  load : ∀ s r, it.load (it.incr s) r = it.load s r

/-- An object that yields a list. -/
def Source.Yields (o : Source ε α) (xs : List α) : Prop :=
  ∃ V : View o.it, Lawful o.it V ∧ V false o.state xs

/-- **The loop over an iterator collects its elements.** -/
theorem collect_eq {it : AIterator ε α} {V : View it} (h : Lawful it V) {s : it.σ} {xs : List α}
    (hV : V false s xs) {fuel : Nat} (hfuel : xs.length < fuel) :
    collect it fuel s = .ok (some xs) := by
  induction xs generalizing s fuel with
  | nil =>
    obtain ⟨fuel, rfl⟩ := Nat.exists_eq_succ_of_ne_zero (Nat.ne_of_gt hfuel)
    obtain ⟨s', hbool, -⟩ := h.toBool_nil hV
    unfold collect
    rw [hbool]
    rfl
  | cons x xs ih =>
    obtain ⟨fuel, rfl⟩ := Nat.exists_eq_succ_of_ne_zero (Nat.ne_of_gt (Nat.zero_lt_of_lt hfuel))
    obtain ⟨s₁, hbool, hV₁⟩ := h.toBool_cons hV
    obtain ⟨r, s₂, hderef, hV₂, hload⟩ := h.deref (h.asked hV₁)
    have hrest : collect it fuel (it.incr s₂) = .ok (some xs) :=
      ih (h.incr hV₂) (Nat.lt_of_succ_lt_succ hfuel)
    unfold collect
    rw [hbool]
    show (it.deref s₁ >>= fun _ => _) = _
    rw [hderef]
    show (collect it fuel (it.incr s₂) >>= fun _ => _) = _
    rw [hrest, ← hload]
    rfl

/-! ## The classes of the repository -/

theorem emptyAIterator_lawful :
    Lawful (emptyAIterator : AIterator ε α) fun _ _ xs => xs = [] where
  asked h := h
  toBool_nil _ := ⟨(), rfl, rfl⟩
  toBool_cons h := by cases h
  deref h := by cases h
  incr h := by cases h
  load _ r := r.elim

/-- The elements between the two pointers. -/
def Handle.View (memory : Nat → α) (s : Handle) (xs : List α) : Prop :=
  s.it ≤ s.stop ∧ xs = (List.range' s.it (s.stop - s.it)).map memory

theorem Handle.view_cons {memory : Nat → α} {s : Handle} {x : α} {xs : List α}
    (h : s.View memory (x :: xs)) :
    s.it ≠ s.stop ∧ memory s.it = x ∧ Handle.View memory ⟨s.it + 1, s.stop⟩ xs := by
  obtain ⟨hle, heq⟩ := h
  obtain ⟨n, hn⟩ : ∃ n, s.stop - s.it = n + 1 := by
    cases hn : s.stop - s.it with
    | zero =>
      rw [hn] at heq
      cases heq
    | succ n => exact ⟨n, rfl⟩
  rw [hn, List.range'_succ, List.map_cons] at heq
  have hinj := List.cons.inj heq
  refine ⟨by omega, hinj.1.symm, show s.it + 1 ≤ s.stop by omega, ?_⟩
  rw [hinj.2, show s.stop - (s.it + 1) = n by omega]

theorem handleAIterator_lawful (memory : Nat → α) :
    Lawful (handleAIterator memory : AIterator ε α) fun _ s xs => Handle.View memory s xs where
  asked h := h
  toBool_nil {s} h := by
    refine ⟨s, ?_, h⟩
    have hempty : s.it = s.stop := by
      have hlen := congrArg List.length h.2
      rw [List.length_map, List.length_range'] at hlen
      have := h.1
      simp at hlen
      omega
    show Except.ok (s.it != s.stop, s) = _
    rw [hempty]
    simp
  toBool_cons {s x xs} h := by
    refine ⟨s, ?_, h⟩
    show Except.ok (s.it != s.stop, s) = _
    rw [bne_iff_ne.2 (Handle.view_cons h).1]
  deref {s x xs} h := ⟨s.it, s, rfl, h, (Handle.view_cons h).2.1⟩
  incr h := (Handle.view_cons h).2.2
  load _ _ := rfl

section Reader

open Raio

variable (debug : Bool)

/-- What a node of a file is read as. -/
def nodeText (n : Nat × Component) : Nat × List UInt8 := (n.1, n.2.text)

/-- The rest of a file of nodes, in front of which the last string is known. -/
def Unread (s : Reader) (nodes : List (Nat × Component)) : Prop :=
  ∃ last rest, (∀ n ∈ nodes, 0 < n.1 ∧ n.1 < 2 ^ 63 ∧ 0 ∉ n.2.text) ∧
    s.Ready (nodesBytes last nodes ++ (endBytes ++ rest)) ∧ s.next.comp.strbuf = last.text

/-- A reader of nodes: between two nodes, with a node, or behind its end. -/
def readerView (asked : Bool) (s : Reader) (xs : List (Nat × List UInt8)) : Prop :=
  (asked = false ∧ ∃ nodes, Unread s nodes ∧ xs = nodes.map nodeText) ∨
    (s.nextWait = true ∧ ∃ nodes, Unread s.advance nodes ∧
      xs = (s.next.id, s.next.comp.strbuf) :: nodes.map nodeText) ∨
    (asked = false ∧ s.nextWait = false ∧ s.remaining = false ∧ xs = [])

/-- A node of a file is read. -/
theorem hasNode_unread {s : Reader} {n : Nat × Component} {nodes : List (Nat × Component)}
    (h : Unread s (n :: nodes)) :
    ∃ s', s.hasNode debug = .ok (true, s') ∧
      readerView true s' (nodeText n :: nodes.map nodeText) := by
  obtain ⟨last, rest, hnodes, hready, hlast⟩ := h
  obtain ⟨linebuf, hnode⟩ := hasNode_nodes debug (hnodes n List.mem_cons_self) hready hlast
  refine ⟨_, hnode, .inr (.inl ⟨rfl, nodes, ⟨last.replaceString n.2, rest,
    fun n hn => hnodes n (List.mem_cons_of_mem _ hn), ⟨rfl, rfl, rfl⟩, ?_⟩, rfl⟩)⟩
  exact (text_replaceString last n.2).symm

/-- **A reader has its next node when it is asked**, and the end of a file once. -/
theorem hasNode_view {s : Reader} {xs : List (Nat × List UInt8)} (h : readerView false s xs) :
    ∃ s', s.hasNode debug = .ok (!xs.isEmpty, s') ∧ readerView (!xs.isEmpty) s' xs := by
  rcases h with ⟨-, nodes, hunread, rfl⟩ | ⟨hwait, nodes, hunread, rfl⟩ | ⟨-, hwait, hend, rfl⟩
  · cases nodes with
    | nil =>
      obtain ⟨last, rest, _, hready, _⟩ := hunread
      exact ⟨_, hasNode_end debug hready, .inr (.inr ⟨rfl, hready.nextWait, rfl, rfl⟩)⟩
    | cons n nodes => exact hasNode_unread debug hunread
  · refine ⟨s, ?_, .inr (.inl ⟨hwait, nodes, hunread, rfl⟩)⟩
    unfold Reader.hasNode
    rw [hwait]
    rfl
  · refine ⟨s, ?_, .inr (.inr ⟨rfl, hwait, hend, rfl⟩)⟩
    unfold Reader.hasNode
    rw [hwait, hend]
    rfl

theorem readerView_asked {s : Reader} {xs : List (Nat × List UInt8)} (h : readerView true s xs) :
    s.nextWait = true ∧ ∃ nodes, Unread s.advance nodes ∧
      xs = (s.next.id, s.next.comp.strbuf) :: nodes.map nodeText := by
  rcases h with ⟨h, _⟩ | h | ⟨h, _⟩
  · cases h
  · exact h
  · cases h

theorem reader_lawful : Lawful (reader debug) readerView where
  asked h := .inr (.inl (readerView_asked h))
  toBool_nil {s} h := by
    obtain ⟨s', hbool, hs'⟩ := hasNode_view debug h
    refine ⟨s', ?_, hs'⟩
    show (s.hasNode debug).mapError _ = _
    rw [hbool]
    rfl
  toBool_cons {s x xs} h := by
    obtain ⟨s', hbool, hs'⟩ := hasNode_view debug h
    refine ⟨s', ?_, hs'⟩
    show (s.hasNode debug).mapError _ = _
    rw [hbool]
    rfl
  deref {s x xs} h := by
    obtain ⟨s', hbool, hs'⟩ := hasNode_view debug h
    obtain ⟨-, nodes, -, hxs⟩ := readerView_asked hs'
    refine ⟨(), s', ?_, hs', (List.cons.inj hxs).1.symm⟩
    show ((s.node debug).mapError _).map _ = _
    unfold Reader.node
    rw [hbool]
    rfl
  incr {s x xs} h := by
    obtain ⟨-, nodes, hunread, hxs⟩ := readerView_asked h
    exact .inl ⟨rfl, nodes, hunread, (List.cons.inj hxs).2⟩
  load _ _ := rfl

/-- A file of nodes that was written is a source of them. -/
theorem reader_yields {nodes : List (Nat × Component)}
    (hnodes : ∀ n ∈ nodes, 0 < n.1 ∧ n.1 < 2 ^ 63 ∧ 0 ∉ n.2.text) (rest : List UInt8) :
    (Source.mk (reader debug) (.new ⟨written nodes ++ rest, false⟩)).Yields
      (nodes.map nodeText) := by
  refine ⟨readerView, reader_lawful debug, .inl ⟨rfl, nodes, ⟨.new, rest, hnodes, ⟨?_, rfl, rfl⟩,
    rfl⟩, rfl⟩⟩
  rw [written_eq, List.append_assoc]
  rfl

end Reader

section MergeLawful

variable {lt : α → α → Bool} {left right : AIterator ε α} {V : View left} {W : View right}

/-- A merge that was asked for its element holds it; its sources have gone on. -/
def mergeView (lt : α → α → Bool) (V : View left) (W : View right)
    (asked : Bool) (s : MergeState left right) (zs : List α) : Prop :=
  ∃ xs ys, V false s.l xs ∧ W false s.r ys ∧
    match s.next with
    | none => asked = false ∧ zs = xs.merge ys lt
    | some next => zs = s.load next :: xs.merge ys lt

variable (lt) in
theorem takeLeft_eq (hV : Lawful left V) {l : left.σ} {r : right.σ} {x : α} {xs ys : List α}
    (hl : V false l (x :: xs)) (hr : W false r ys) :
    ∃ s, takeLeft left right l r = .ok (true, s) ∧
      mergeView lt V W true s (x :: xs.merge ys lt) := by
  obtain ⟨next, l', hderef, hl', hload⟩ := hV.deref hl
  refine ⟨⟨left.incr l', r, some (.inl next)⟩, ?_, xs, ys, hV.incr hl', hr, ?_⟩
  · unfold takeLeft
    rw [hderef]
    rfl
  · show x :: _ = left.load (left.incr l') next :: _
    rw [hV.load, hload]

variable (lt) in
theorem takeRight_eq (hW : Lawful right W) {l : left.σ} {r : right.σ} {y : α} {xs ys : List α}
    (hl : V false l xs) (hr : W false r (y :: ys)) :
    ∃ s, takeRight left right l r = .ok (true, s) ∧
      mergeView lt V W true s (y :: xs.merge ys lt) := by
  obtain ⟨next, r', hderef, hr', hload⟩ := hW.deref hr
  refine ⟨⟨l, right.incr r', some (.inr next)⟩, ?_, xs, ys, hl, hW.incr hr', ?_⟩
  · unfold takeRight
    rw [hderef]
    rfl
  · show y :: _ = right.load (right.incr r') next :: _
    rw [hW.load, hload]

/-- **An element is lost by none of the cases**: sources may be empty. -/
theorem mergeToBool_eq (hV : Lawful left V) (hW : Lawful right W) {s : MergeState left right}
    {zs : List α} (h : mergeView lt V W false s zs) :
    ∃ s', mergeToBool lt left right s = .ok (!zs.isEmpty, s') ∧
      mergeView lt V W (!zs.isEmpty) s' zs := by
  obtain ⟨l, r, next⟩ := s
  obtain ⟨xs, ys, hl, hr, hzs⟩ := h
  cases next with
  | some next =>
    subst hzs
    exact ⟨_, rfl, xs, ys, hl, hr, rfl⟩
  | none =>
    obtain ⟨-, rfl⟩ := hzs
    unfold mergeToBool
    cases xs with
    | nil =>
      obtain ⟨l', hleft, hl'⟩ := hV.toBool_nil hl
      cases ys with
      | nil =>
        obtain ⟨r', hright, hr'⟩ := hW.toBool_nil hr
        rw [List.nil_merge]
        refine ⟨⟨l', r', none⟩, ?_, [], [], hl', hr', rfl, (List.nil_merge []).symm⟩
        dsimp only
        rw [hleft, hright]
        rfl
      | cons y ys =>
        obtain ⟨r', hright, hr'⟩ := hW.toBool_cons hr
        obtain ⟨s', htake, hs'⟩ := takeRight_eq lt hW hl' (hW.asked hr')
        rw [List.nil_merge] at hs' ⊢
        refine ⟨s', ?_, hs'⟩
        dsimp only
        rw [hleft, hright]
        exact htake
    | cons x xs =>
      obtain ⟨l', hleft, hl'⟩ := hV.toBool_cons hl
      cases ys with
      | nil =>
        obtain ⟨r', hright, hr'⟩ := hW.toBool_nil hr
        obtain ⟨s', htake, hs'⟩ := takeLeft_eq lt hV (hV.asked hl') hr'
        rw [List.merge_right] at hs' ⊢
        refine ⟨s', ?_, hs'⟩
        dsimp only
        rw [hleft, hright]
        exact htake
      | cons y ys =>
        obtain ⟨r', hright, hr'⟩ := hW.toBool_cons hr
        obtain ⟨a, l₂, hderef, hl₂, hload⟩ := hV.deref (hV.asked hl')
        obtain ⟨b, r₂, hderef', hr₂, hload'⟩ := hW.deref (hW.asked hr')
        dsimp only
        rw [hleft, hright]
        show ∃ s', (left.deref l' >>= fun _ => _) = _ ∧ _
        rw [hderef]
        show ∃ s', (right.deref r' >>= fun _ => _) = _ ∧ _
        rw [hderef']
        show ∃ s', (if lt (left.load l₂ a) (right.load r₂ b) = true then takeLeft left right l₂ r₂
          else takeRight left right l₂ r₂) = _ ∧ _
        rw [hload, hload']
        by_cases hlt : lt x y = true
        · rw [if_pos hlt, List.cons_merge_cons_pos _ _ _ hlt]
          exact takeLeft_eq lt hV (hV.asked hl₂) (hW.asked hr₂)
        · rw [if_neg hlt, List.cons_merge_cons_neg _ _ _ hlt]
          exact takeRight_eq lt hW (hV.asked hl₂) (hW.asked hr₂)

theorem mergeView_asked {s : MergeState left right} {zs : List α}
    (h : mergeView lt V W true s zs) :
    mergeView lt V W false s zs ∧
      ∃ next xs ys, s.next = some next ∧ V false s.l xs ∧ W false s.r ys ∧
        zs = s.load next :: xs.merge ys lt := by
  obtain ⟨l, r, next⟩ := s
  obtain ⟨xs, ys, hl, hr, hzs⟩ := h
  cases next with
  | none => cases hzs.1
  | some next => exact ⟨⟨xs, ys, hl, hr, hzs⟩, next, xs, ys, rfl, hl, hr, hzs⟩

/-- **A merge keeps to what its sources keep to.** -/
theorem mergeIterator_lawful (hV : Lawful left V) (hW : Lawful right W) :
    Lawful (mergeIterator lt left right) (mergeView lt V W) where
  asked h := (mergeView_asked h).1
  toBool_nil h := mergeToBool_eq hV hW h
  toBool_cons h := mergeToBool_eq hV hW h
  deref {s x xs} h := by
    obtain ⟨s', hbool, hs'⟩ := mergeToBool_eq hV hW h
    obtain ⟨-, next, _, _, hnext, _, _, hzs⟩ := mergeView_asked hs'
    refine ⟨next, s', ?_, hs', (List.cons.inj hzs).1.symm⟩
    show (mergeToBool lt left right s >>= fun _ => _) = _
    rw [hbool]
    obtain ⟨l, r, n⟩ := s'
    cases hnext
    rfl
  incr {s x xs} h := by
    obtain ⟨-, next, _, _, -, hl, hr, hzs⟩ := mergeView_asked h
    exact ⟨_, _, hl, hr, rfl, (List.cons.inj hzs).2⟩
  load s r := by
    cases r with
    | inl r => rfl
    | inr r => rfl

theorem Source.Yields.merge {a b : Source ε α} {xs ys : List α} (ha : a.Yields xs)
    (hb : b.Yields ys) : (a.merge lt b).Yields (xs.merge ys lt) := by
  obtain ⟨V, hV, hxs⟩ := ha
  obtain ⟨W, hW, hys⟩ := hb
  exact ⟨mergeView lt V W, mergeIterator_lawful hV hW, xs, ys, hxs, hys, rfl, rfl⟩

end MergeLawful

/-! ## The tree -/

section Levels

variable {lt : α → α → Bool}

/-- A level whose objects yield sorted lists, with all elements of `zs`. -/
def Level (lt : α → α → Bool) (its : List (Source ε α)) (zs : List α) : Prop :=
  ∃ xss, List.Forall₂ Source.Yields its xss ∧ (∀ xs ∈ xss, Sorted lt xs) ∧ xss.flatten.Perm zs

theorem mergeLevel_level (hlt : StrictWeak lt) (its : List (Source ε α)) {zs : List α}
    (h : Level lt its zs) : Level lt (mergeLevel lt its) zs := by
  induction its using mergeLevel.induct generalizing zs with
  | case1 a b rest ih =>
    obtain ⟨xss, hall, hsorted, hperm⟩ := h
    obtain ⟨xs, yss', ha, hall', rfl⟩ := List.forall₂_cons_left_iff.1 hall
    obtain ⟨ys, rest', hb, hrest, rfl⟩ := List.forall₂_cons_left_iff.1 hall'
    have hx := hsorted xs (by simp)
    have hy := hsorted ys (by simp)
    obtain ⟨yss, hyss, hysorted, hyperm⟩ :=
      ih ⟨rest', hrest, fun l hl => hsorted l (by simp [hl]), List.Perm.refl _⟩
    refine ⟨xs.merge ys lt :: yss, .cons (ha.merge hb) hyss, fun l hl => ?_, ?_⟩
    · rcases List.mem_cons.1 hl with rfl | hl
      · exact sorted_merge hlt hx hy
      · exact hysorted l hl
    · refine List.Perm.trans ?_ hperm
      simp only [List.flatten_cons]
      rw [← List.append_assoc]
      exact (List.merge_perm_append _).append hyperm
  | case2 rest hne =>
    unfold mergeLevel
    split
    · exact absurd rfl (hne _ _ _)
    · exact h

theorem length_mergeLevel (its : List (Source ε α)) :
    (mergeLevel lt its).length = (its.length + 1) / 2 := by
  induction its using mergeLevel.induct with
  | case1 a b rest ih =>
    simp only [mergeLevel, List.length_cons, ih]
    omega
  | case2 rest hne =>
    cases rest with
    | nil => simp [mergeLevel]
    | cons a rest =>
      cases rest with
      | nil => simp [mergeLevel]
      | cons b rest => exact absurd rfl (hne a b rest)

/-- **The levels end with one object**, which yields all elements in order. -/
theorem mergeLevels_last (hlt : StrictWeak lt) {zs : List α} {fuel : Nat}
    {its : List (Source ε α)} {start : Nat} (hlevel : Level lt (its.drop start) zs)
    (htwo : start + 2 ≤ its.length) (hfuel : its.length - start ≤ fuel) :
    ∃ o xs, (mergeLevels lt fuel its start).getLast? = some o ∧ o.Yields xs ∧ Sorted lt xs ∧
      xs.Perm zs := by
  induction fuel generalizing its start with
  | zero => omega
  | succ fuel ih =>
    have hnext := mergeLevel_level hlt _ hlevel
    have hlen : (mergeLevel lt (its.drop start)).length = ((its.drop start).length + 1) / 2 :=
      length_mergeLevel _
    rw [List.length_drop] at hlen
    unfold mergeLevels
    dsimp only
    rw [List.length_append, Nat.add_sub_cancel_left, hlen]
    split
    · refine ih ?_ ?_ ?_
      · rw [List.drop_left]
        exact hnext
      · rw [List.length_append, hlen]
        omega
      · rw [List.length_append, hlen]
        omega
    · have hone : (mergeLevel lt (its.drop start)).length = 1 := by omega
      obtain ⟨o, ho⟩ := List.length_eq_one_iff.1 hone
      rw [ho] at hnext ⊢
      obtain ⟨xss, hall, hsorted, hperm⟩ := hnext
      cases hall with
      | cons hyields hall =>
        cases hall
        rename_i xs
        refine ⟨o, xs, List.getLast?_concat, hyields, hsorted xs (by simp), ?_⟩
        simpa using hperm

end Levels

/-- **Merging sorted iterators, of any number, yields all of their elements in order.** -/
theorem allocatedMerge_sorted {Input : Type} {lt : α → α → Bool} (hlt : StrictWeak lt)
    {input : List Input} {map : Input → Source ε α} {elements : Input → List α}
    (hyields : ∀ i ∈ input, (map i).Yields (elements i))
    (hsorted : ∀ i ∈ input, Sorted lt (elements i)) :
    ∃ xs, Sorted lt xs ∧ xs.Perm (input.flatMap elements) ∧
      ∀ fuel, xs.length < fuel →
        collect (allocatedMergeAIterator lt input map).it fuel
          (allocatedMergeAIterator lt input map).state = .ok (some xs) := by
  have hone : ∃ xs, (allocatedMergeAIterator lt input map).Yields xs ∧ Sorted lt xs ∧
      xs.Perm (input.flatMap elements) := by
    unfold allocatedMergeAIterator
    dsimp only
    split
    · rename_i hempty
      rw [List.isEmpty_iff, List.map_eq_nil_iff] at hempty
      subst hempty
      exact ⟨[], ⟨_, emptyAIterator_lawful, rfl⟩, List.Pairwise.nil, List.Perm.refl _⟩
    · rename_i hempty
      split
      · rename_i htwo
        have hlevel : Level lt ((input.map map).drop 0) (input.flatMap elements) := by
          refine ⟨input.map elements, ?_, fun xs hxs => ?_, ?_⟩
          · rw [List.drop_zero, List.forall₂_map_left_iff, List.forall₂_map_right_iff]
            exact List.forall₂_same.2 hyields
          · obtain ⟨i, hi, rfl⟩ := List.mem_map.1 hxs
            exact hsorted i hi
          · rw [List.flatMap_def]
        obtain ⟨o, xs, hlast, hxs, hsort, hperm⟩ :=
          mergeLevels_last hlt hlevel (by omega) (Nat.le_refl _)
        rw [Nat.sub_zero] at hlast
        rw [hlast]
        exact ⟨xs, hxs, hsort, hperm⟩
      · rename_i htwo
        cases input with
        | nil => exact absurd rfl hempty
        | cons i rest =>
          cases rest with
          | nil =>
            refine ⟨elements i, hyields i List.mem_cons_self, hsorted i List.mem_cons_self, ?_⟩
            simp
          | cons j rest => simp at htwo
  obtain ⟨xs, ⟨V, hV, hxs⟩, hsort, hperm⟩ := hone
  exact ⟨xs, hsort, hperm, fun fuel hfuel => collect_eq hV hxs hfuel⟩

/-- `MergeNumbers`, with an empty array. -/
def numbers : List Handle := [⟨0, 4⟩, ⟨4, 4⟩, ⟨4, 10⟩]

def numberAt (i : Nat) : Nat := [1, 4, 7, 9, 2, 3, 5, 6, 8, 10].getD i 0

theorem numbers_merged :
    ∃ xs, Sorted (fun a b : Nat => decide (a < b)) xs ∧
      xs.Perm (numbers.flatMap fun h => (List.range' h.it (h.stop - h.it)).map numberAt) ∧
      ∀ fuel, xs.length < fuel →
        collect (allocatedMergeAIterator (fun a b => decide (a < b)) numbers
            fun h => (⟨handleAIterator numberAt, h⟩ : Source Empty Nat)).it fuel
          (allocatedMergeAIterator (fun a b => decide (a < b)) numbers
            fun h => (⟨handleAIterator numberAt, h⟩ : Source Empty Nat)).state = .ok (some xs) := by
  apply allocatedMerge_sorted strictWeak_nat
  · intro h hh
    refine ⟨_, handleAIterator_lawful numberAt, ?_, rfl⟩
    simp only [numbers, List.mem_cons, List.not_mem_nil, or_false] at hh
    rcases hh with rfl | rfl | rfl
    · decide
    · decide
    · decide
  · intro h hh
    simp only [numbers, List.mem_cons, List.not_mem_nil, or_false] at hh
    unfold Sorted
    rcases hh with rfl | rfl | rfl
    · decide
    · decide
    · decide

end Acts.Actslib.Merge
