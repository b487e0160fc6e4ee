import Acts.Core.MemoryAllocatorStatic
import Mathlib.Data.List.GetD

/-!
# Runs of the static memory allocator

* `Block`, `Layout`, `Chain` — the abstract block list of an arena: contiguous blocks from 0 to
  the end of the arena, whose headers say so.
* `State`, `Action`, `step` — the allocator with its live regions; a client may also write bytes
  of a live region.
* `Good` — the invariants of the allocator, in terms of live regions and headers only.
* `Safe` — a step that neither splits a block before another one or over a stale flag, nor frees
  a block next to a free one, nor leaves two free blocks and nothing else.
* `reachable_good` — **in every run whose steps are safe every reached state is good, and every
  enabled safe step succeeds and leaves the live regions alone.**
-/

set_option autoImplicit false

namespace Acts.MemoryAllocatorStatic

/-! ## Block lists -/

structure Block where
  ref : Nat
  len : Nat
  allocated : Bool
  deriving DecidableEq

/-- The blocks are contiguous from `ref` to `stop`. -/
def Layout : Nat → List Block → Nat → Prop
  | ref, [], stop => ref = stop
  | ref, b :: bs, stop => b.ref = ref ∧ Layout (ref + headerSize + b.len) bs stop

/-- The `prev` link of block `i`; the first block has none. -/
def prevRef (refs : List Nat) (i : Nat) : Nat := if i = 0 then 0 else refs.getD (i - 1) 0

/-- The `next` link of block `i`; the last block has none. -/
def nextRef (refs : List Nat) (i : Nat) : Nat := refs.getD (i + 1) 0

/-- The arena holds the doubly linked list of the blocks, which cover it. -/
structure Chain (Len : Nat) (m : Mem) (bs : List Block) : Prop where
  layout : Layout 0 bs (Len + headerSize)
  headers : ∀ i b, bs[i]? = some b → header m b.ref =
    ⟨prevRef (bs.map Block.ref) i, nextRef (bs.map Block.ref) i, b.len, b.allocated⟩

section Layout

variable {bs : List Block} {ref stop i j : Nat} {b c : Block}

theorem layout_le (h : Layout ref bs stop) : ref ≤ stop := by
  induction bs generalizing ref with
  | nil => exact Nat.le_of_eq h
  | cons d bs ih =>
    have := ih h.2
    omega

theorem layout_append {xs ys : List Block} (h : Layout ref (xs ++ ys) stop) :
    ∃ mid, Layout ref xs mid ∧ Layout mid ys stop := by
  induction xs generalizing ref with
  | nil => exact ⟨ref, rfl, h⟩
  | cons d xs ih =>
    obtain ⟨mid, h1, h2⟩ := ih h.2
    exact ⟨mid, ⟨h.1, h1⟩, h2⟩

theorem layout_join {xs ys : List Block} {mid : Nat} (h1 : Layout ref xs mid)
    (h2 : Layout mid ys stop) : Layout ref (xs ++ ys) stop := by
  induction xs generalizing ref with
  | nil => rw [show ref = mid from h1]; exact h2
  | cons d xs ih => exact ⟨h1.1, ih h1.2⟩

theorem layout_bounds (h : Layout ref bs stop) (hb : bs[i]? = some b) :
    ref ≤ b.ref ∧ b.ref + headerSize + b.len ≤ stop := by
  induction bs generalizing ref i with
  | nil => cases hb
  | cons d bs ih =>
    obtain ⟨hd, hl⟩ := h
    cases i with
    | zero =>
      cases hb
      have := layout_le hl
      omega
    | succ i =>
      have := ih hl (by simpa using hb)
      omega

theorem layout_order (h : Layout ref bs stop) (hb : bs[i]? = some b) (hc : bs[j]? = some c)
    (hij : i < j) : b.ref + headerSize + b.len ≤ c.ref := by
  induction bs generalizing ref i j with
  | nil => cases hb
  | cons d bs ih =>
    obtain ⟨hd, hl⟩ := h
    obtain ⟨j, rfl⟩ : ∃ k, j = k + 1 := ⟨j - 1, by omega⟩
    rw [List.getElem?_cons_succ] at hc
    cases i with
    | zero =>
      cases hb
      have := layout_bounds hl hc
      omega
    | succ i =>
      rw [List.getElem?_cons_succ] at hb
      exact ih hl hb hc (by omega)

theorem layout_length (h : Layout ref bs stop) : ref + headerSize * bs.length ≤ stop := by
  induction bs generalizing ref with
  | nil => simp only [Layout] at h; simp [h]
  | cons d bs ih =>
    have := ih h.2
    simp only [List.length_cons, Nat.mul_add, headerSize] at this ⊢
    omega

/-- Blocks of the same list with the same reference are the same. -/
theorem layout_inj (h : Layout ref bs stop) (hb : bs[i]? = some b) (hc : bs[j]? = some c)
    (he : b.ref = c.ref) : i = j := by
  have hs : headerSize = 16 := rfl
  rcases Nat.lt_trichotomy i j with hij | hij | hij
  · have := layout_order h hb hc hij; omega
  · exact hij
  · have := layout_order h hc hb hij; omega

/-- Distinct blocks do not overlap. -/
theorem layout_disjoint (h : Layout ref bs stop) (hb : bs[i]? = some b) (hc : bs[j]? = some c)
    (hij : i ≠ j) : b.ref + headerSize + b.len ≤ c.ref ∨ c.ref + headerSize + c.len ≤ b.ref := by
  rcases Nat.lt_or_gt_of_ne hij with hij | hij
  · exact .inl (layout_order h hb hc hij)
  · exact .inr (layout_order h hc hb hij)

theorem layout_set (h : Layout ref bs stop) (hb : bs[i]? = some b) (a : Bool) :
    Layout ref (bs.set i { b with allocated := a }) stop := by
  induction bs generalizing ref i with
  | nil => cases hb
  | cons d bs ih =>
    obtain ⟨hd, hl⟩ := h
    cases i with
    | zero => cases hb; exact ⟨hd, hl⟩
    | succ i =>
      rw [List.getElem?_cons_succ] at hb
      exact ⟨hd, ih hl hb⟩

theorem refs_set (hb : bs[i]? = some b) (a : Bool) :
    (bs.set i { b with allocated := a }).map Block.ref = bs.map Block.ref := by
  obtain ⟨hi, rfl⟩ := List.getElem?_eq_some_iff.mp hb
  refine List.ext_getElem (by simp) (fun k h1 h2 => ?_)
  simp only [List.getElem_map, List.getElem_set]
  split
  · rename_i hk
    subst hk
    rfl
  · rfl

end Layout

section Chain

variable {Len : Nat} {m m' : Mem} {bs : List Block} {i : Nat} {b : Block}

/-- Two memories with the same headers hold the same list. -/
theorem Chain.congr (h : Chain Len m bs)
    (hm : ∀ b ∈ bs, ∀ x, b.ref ≤ x → x < b.ref + headerSize → m' x = m x) : Chain Len m' bs := by
  refine ⟨h.layout, fun i b hb => ?_⟩
  rw [header_congr m (fun x h1 h2 => hm b (List.mem_of_getElem? hb) x h1 h2)]
  exact h.headers i b hb

/-- A write to one header that only changes its flag. -/
theorem Chain.setBlock (h : Chain Len m bs) (hb : bs[i]? = some b) (a : Bool) :
    Chain Len (setAllocated m b.ref a) (bs.set i { b with allocated := a }) := by
  refine ⟨layout_set h.layout hb a, fun j c hc => ?_⟩
  rw [refs_set hb a]
  rw [List.getElem?_set] at hc
  split at hc
  · rename_i hij
    rw [if_pos (List.getElem?_eq_some_iff.mp hb).1] at hc
    cases hc
    subst hij
    rw [header_setAllocated, h.headers i b hb]
  · rename_i hij
    have hd := layout_disjoint h.layout hb hc hij
    rw [header_congr m (fun x h1 h2 => setAllocated_outside m a (by omega))]
    exact h.headers j c hc

/-- A block list ends where its `next` link is 0. -/
theorem Chain.last_of_next (h : Chain Len m bs) (hb : bs[i]? = some b)
    (hn : (header m b.ref).next = 0) : i + 1 = bs.length := by
  rw [h.headers i b hb] at hn
  have hi : i < bs.length := (List.getElem?_eq_some_iff.mp hb).1
  by_contra hne
  have hlt : i + 1 < bs.length := by omega
  have hc : bs[i + 1]? = some bs[i + 1] := List.getElem?_eq_getElem hlt
  have ho := layout_order h.layout hb hc (by omega)
  simp only [nextRef, List.getD_eq_getElem?_getD, List.getElem?_map, hc, Option.map_some,
    Option.getD_some] at hn
  have hs : headerSize = 16 := rfl
  omega

theorem Chain.next_of_last (h : Chain Len m bs) (hb : bs[i]? = some b)
    (hi : i + 1 = bs.length) : (header m b.ref).next = 0 := by
  rw [h.headers i b hb]
  simp [nextRef, hi]

/-- The links lead to the neighbouring blocks. -/
theorem Chain.next_block {c : Block} (h : Chain Len m bs) (hb : bs[i]? = some b)
    (hc : bs[i + 1]? = some c) : (header m b.ref).next = c.ref := by
  rw [h.headers i b hb]
  simp [nextRef, hc]

theorem prevRef_append {refs refs' : List Nat} (h : i ≤ refs.length) :
    prevRef (refs ++ refs') i = prevRef refs i := by
  unfold prevRef
  split
  · rfl
  · rw [List.getD_append _ _ _ _ (by omega)]

theorem nextRef_append {refs refs' : List Nat} (h : i + 1 < refs.length) :
    nextRef (refs ++ refs') i = nextRef refs i := by
  rw [nextRef, List.getD_append _ _ _ _ h, nextRef]

/-- A split of the last block over a clear flag. -/
theorem Chain.split {len : Nat} {xs : List Block} (h : Chain Len m (xs ++ [b]))
    (hLen : Len + headerSize ≤ 2 ^ 32) (hlen : len + headerSize < b.len)
    (hclear : m (b.ref + headerSize + len + 12) = 0) :
    Chain Len (splitBlock m b.ref len) (xs ++ [{ b with len },
      ⟨b.ref + headerSize + len, b.len - len - headerSize, false⟩]) := by
  have hs : headerSize = 16 := rfl
  have hb : (xs ++ [b])[xs.length]? = some b := by simp
  have hbounds := layout_bounds h.layout hb
  obtain ⟨mid, hxs, hmid, hstop⟩ := layout_append h.layout
  simp only [Layout] at hstop
  obtain ⟨h1, h2⟩ := splitBlock_spec m b.ref len (by omega)
  have hheader := h.headers _ b hb
  have hnext := h.next_of_last hb (by simp)
  have hrefs : (xs ++ [{ b with len }, ⟨b.ref + headerSize + len, b.len - len - headerSize,
      false⟩]).map Block.ref = (xs ++ [b]).map Block.ref ++ [b.ref + headerSize + len] := by
    simp
  have hlast : ((xs ++ [b]).map Block.ref).getD xs.length 0 = b.ref := by simp
  refine ⟨layout_join hxs ⟨hmid, by rw [hmid], ?_⟩, fun j c hc => ?_⟩
  · simp only [Layout]; omega
  · rw [hrefs]
    rcases Nat.lt_trichotomy j xs.length with hj | hj | hj
    · -- a block before the split one
      rw [List.getElem?_append_left hj] at hc
      have hc' : (xs ++ [b])[j]? = some c := by rw [List.getElem?_append_left hj]; exact hc
      have ho := layout_order h.layout hc' hb hj
      rw [header_congr m (fun x _ hx => splitBlock_outside m len (by omega) (by omega)),
        h.headers j c hc', prevRef_append (by simp; omega), nextRef_append (by simp; omega)]
    · subst hj
      simp only [List.getElem?_append_right (Nat.le_refl _), Nat.sub_self,
        List.getElem?_cons_zero, Option.some.injEq] at hc
      subst hc
      rw [h1, hheader, prevRef_append (by simp)]
      simp [nextRef]
    · rw [List.getElem?_append_right (by omega)] at hc
      obtain ⟨k, hk⟩ : ∃ k, j - xs.length = k + 1 := ⟨j - xs.length - 1, by omega⟩
      rw [hk, List.getElem?_cons_succ] at hc
      have hk0 : k = 0 := by
        by_contra hne
        obtain ⟨k', rfl⟩ : ∃ k', k = k' + 1 := ⟨k - 1, by omega⟩
        simp at hc
      subst hk0
      have hj' : j = xs.length + 1 := by omega
      subst hj'
      simp only [List.getElem?_cons_zero, Option.some.injEq] at hc
      subst hc
      simp only [h2, Header.mk.injEq]
      refine ⟨?_, ?_, ?_, ?_⟩
      · rw [prevRef, if_neg (by omega), Nat.add_sub_cancel, List.getD_append _ _ _ _ (by simp),
          hlast]
      · rw [hnext]
        simp [nextRef]
      · rw [hheader]
        exact Nat.mod_eq_of_lt (by simp only; omega)
      · simp [header, hclear]

/-- The first-fit walk over a consistent list finds a free block that is large enough, or there
is none. -/
theorem findBlock_spec {fuel : Nat} (len : Nat) (h : Chain Len m bs) (hb : bs[i]? = some b)
    (hfuel : bs.length ≤ fuel + i) :
    (∃ (j : Nat) (c : Block), bs[j]? = some c ∧ c.allocated = false ∧ len ≤ c.len ∧
      findBlock m len fuel b.ref = .ok c.ref) ∨
    findBlock m len fuel b.ref = .error (.throw "Not enough data in the allocator") := by
  induction fuel generalizing i b with
  | zero =>
    have := (List.getElem?_eq_some_iff.mp hb).1
    omega
  | succ fuel ih =>
    have hheader := h.headers i b hb
    simp only [findBlock]
    split
    · split
      · exact .inr rfl
      · rename_i hnext
        have hi : i + 1 < bs.length := by
          have := (List.getElem?_eq_some_iff.mp hb).1
          by_contra hne
          exact hnext (h.next_of_last hb (by omega))
        have hc : bs[i + 1]? = some bs[i + 1] := List.getElem?_eq_getElem hi
        rw [h.next_block hb hc]
        exact ih hc (by omega)
    · rename_i hfit
      rw [hheader] at hfit
      simp only [not_or, Bool.not_eq_true, Nat.not_lt] at hfit
      exact .inl ⟨i, b, hb, hfit.1, hfit.2, rfl⟩

end Chain

/-! ## States and steps -/

/-- A region handed out by `AllocRef`: its reference and the size asked for. -/
structure Region where
  ref : Nat
  len : Nat
  deriving DecidableEq

def Region.Disjoint (r r' : Region) : Prop := r.ref + r.len ≤ r'.ref ∨ r'.ref + r'.len ≤ r.ref

/-- The arena and the live regions. -/
structure State where
  mem : Mem
  live : List Region

/-- An allocator call, or a client writing a byte. -/
inductive Action where
  | alloc (len : Nat)
  | free (ref : Nat)
  | write (a : Nat) (v : UInt8)

/-- Only live references are freed, and clients write only into live regions. -/
def Enabled (s : State) : Action → Prop
  | .alloc _ => True
  | .free ref => ∃ r ∈ s.live, r.ref = ref
  | .write a _ => ∃ r ∈ s.live, r.ref ≤ a ∧ a < r.ref + r.len

/-- A call that throws changes nothing; `none` is a call that does not return. -/
def step (Len : Nat) (s : State) : Action → Option State
  | .alloc len =>
    match allocRef Len s.mem len with
    | .ok (ref, mem) => some ⟨mem, ⟨ref, len⟩ :: s.live⟩
    | .error (.throw _) => some s
    | .error .hang => none
  | .free ref => some ⟨freeRef s.mem ref, s.live.filter (fun r => r.ref ≠ ref)⟩
  | .write a v => some ⟨s.mem.setByte a v, s.live⟩

def initial (Len : Nat) : State := ⟨init Len, []⟩

/-- The step takes no branch that loses a link, a size or a flag. -/
def Safe (Len : Nat) (s : State) : Action → Prop
  | .alloc len => ∀ ref, findBlock s.mem len (Len + headerSize) 0 = .ok ref →
      len + headerSize < (header s.mem ref).len →
      (header s.mem ref).next = 0 ∧ s.mem (ref + headerSize + len + 12) = 0
  | .free ref =>
      let h := header s.mem (ref - headerSize)
      (h.next ≠ 0 → (header s.mem h.next).allocated = true) ∧
      (h.prev ≠ 0 → (header s.mem h.prev).allocated = true) ∧
      ((∀ r ∈ s.live, r.ref = ref) → ref = headerSize ∧ h.next = 0)
  | .write _ _ => True

/-- The states of the runs whose steps are all safe. -/
inductive Reachable (Len : Nat) : State → Prop
  | initial : Reachable Len (initial Len)
  | step {s s' : State} {a : Action} : Reachable Len s → Enabled s a → Safe Len s a →
      step Len s a = some s' → Reachable Len s'

/-- The invariants of the allocator. -/
structure Good (Len : Nat) (s : State) : Prop where
  disjoint : s.live.Pairwise Region.Disjoint
  inArena : ∀ r ∈ s.live, r.ref + r.len ≤ Len + headerSize
  chain : ∃ bs, Chain Len s.mem bs ∧ ∀ r ∈ s.live, ∀ b ∈ bs,
    r.Disjoint ⟨b.ref, headerSize⟩
  allFree : s.live = [] → ∃ r, allocRef Len s.mem Len = .ok r

/-- The allocator writes no byte of a region that is live before and after the step. -/
def Frame (s s' : State) : Action → Prop
  | .write _ _ => True
  | _ => ∀ r ∈ s.live, r ∈ s'.live → ∀ x, r.ref ≤ x → x < r.ref + r.len → s'.mem x = s.mem x

/-! ## The invariant -/

/-- The live regions are the data of the allocated blocks. -/
structure Inv (Len : Nat) (s : State) (bs : List Block) : Prop where
  chain : Chain Len s.mem bs
  nonempty : bs ≠ []
  live_block : ∀ r ∈ s.live, ∃ (i : Nat) (b : Block), bs[i]? = some b ∧ b.allocated = true ∧
    b.ref + headerSize = r.ref ∧ r.len ≤ b.len
  block_live : ∀ b ∈ bs, b.allocated = true → ∃ r ∈ s.live, r.ref = b.ref + headerSize
  nodup : (s.live.map Region.ref).Nodup
  single : (∀ b ∈ bs, b.allocated = false) → bs.length = 1

section Inv

variable {Len : Nat} {s s' : State} {bs : List Block}

theorem inv_initial (hLen : Len + headerSize ≤ 2 ^ 32) :
    Inv Len (initial Len) [⟨0, Len, false⟩] := by
  have hs : headerSize = 16 := rfl
  have hheader : header (init Len) 0 = ⟨0, 0, Len, false⟩ := by
    rw [init, header_setAllocated, header_setLen, header_setNext, header_setPrev]
    simp only [Header.mk.injEq, Nat.zero_mod, true_and, and_true]
    omega
  refine ⟨⟨⟨rfl, ?_⟩, fun i b hb => ?_⟩, by simp, by simp [initial], by simp, by simp [initial],
    by simp⟩
  · simp only [Layout]; omega
  · cases i with
    | zero =>
      simp only [List.getElem?_cons_zero, Option.some.injEq] at hb
      subst hb
      rw [show (initial Len).mem = init Len from rfl, hheader]
      rfl
    | succ i => simp at hb

theorem Inv.disjoint (h : Inv Len s bs) : s.live.Pairwise Region.Disjoint := by
  refine (List.pairwise_map.mp h.nodup).imp_of_mem (fun {r r'} hr hr' hne => ?_)
  obtain ⟨i, b, hb, -, hbr, hbl⟩ := h.live_block r hr
  obtain ⟨j, c, hc, -, hcr, hcl⟩ := h.live_block r' hr'
  have hij : i ≠ j := by
    intro hij
    subst hij
    rw [hb] at hc
    cases hc
    omega
  have := layout_disjoint h.chain.layout hb hc hij
  unfold Region.Disjoint
  omega

theorem Inv.good (h : Inv Len s bs) (hLen : Len + headerSize ≤ 2 ^ 32) : Good Len s := by
  refine ⟨h.disjoint, ?_, ⟨bs, h.chain, ?_⟩, ?_⟩
  · intro r hr
    obtain ⟨i, b, hb, -, hbr, hbl⟩ := h.live_block r hr
    have := layout_bounds h.chain.layout hb
    omega
  · intro r hr c hc
    obtain ⟨i, b, hb, -, hbr, hbl⟩ := h.live_block r hr
    obtain ⟨j, hc⟩ := List.mem_iff_getElem?.mp hc
    unfold Region.Disjoint
    by_cases hij : i = j
    · subst hij
      rw [hb] at hc
      cases hc
      simp only; omega
    · have := layout_disjoint h.chain.layout hb hc hij
      simp only; omega
  · intro hnil
    have hfree : ∀ b ∈ bs, b.allocated = false := by
      intro b hb
      by_contra hne
      obtain ⟨r, hr, -⟩ := h.block_live b hb (by simpa using hne)
      rw [hnil] at hr
      cases hr
    obtain ⟨b, rfl⟩ := List.length_eq_one_iff.mp (h.single hfree)
    have hb : [b][0]? = some b := rfl
    have hheader := h.chain.headers 0 b hb
    obtain ⟨href, hstop⟩ := h.chain.layout
    simp only [Layout] at hstop
    have halloc := hfree b (List.mem_singleton_self b)
    have hfind : findBlock s.mem Len (Len + headerSize) 0 = .ok 0 := by
      rw [show Len + headerSize = Len + 15 + 1 from rfl, findBlock]
      rw [href] at hheader
      simp only [hheader, halloc]
      rw [if_neg]
      simp only [Bool.false_eq_true, false_or]
      omega
    unfold allocRef
    simp only [hfind]
    split <;> exact ⟨_, rfl⟩

variable {i : Nat} {b : Block} {len ref : Nat}

/-- A live region lies in the data of its block, so a free block has none. -/
theorem Inv.live_outside (h : Inv Len s bs) (hb : bs[i]? = some b) (hfree : b.allocated = false)
    {r : Region} (hr : r ∈ s.live) :
    r.ref + r.len ≤ b.ref ∨ b.ref + headerSize + b.len ≤ r.ref := by
  obtain ⟨j, c, hc, halloc, hcr, hcl⟩ := h.live_block r hr
  have hij : i ≠ j := by
    intro hij
    subst hij
    rw [hb] at hc
    cases hc
    rw [hfree] at halloc
    cases halloc
  have := layout_disjoint h.chain.layout hb hc hij
  omega

/-- A free block is handed out whole. -/
theorem Inv.alloc_whole (h : Inv Len s bs) (hb : bs[i]? = some b) (hfree : b.allocated = false)
    (hlen : len ≤ b.len) :
    Inv Len ⟨setAllocated s.mem b.ref true, ⟨b.ref + headerSize, len⟩ :: s.live⟩
      (bs.set i { b with allocated := true }) := by
  have hi : i < bs.length := (List.getElem?_eq_some_iff.mp hb).1
  have hself : (bs.set i { b with allocated := true })[i]? = some { b with allocated := true } :=
    List.getElem?_set_self hi
  refine ⟨h.chain.setBlock hb true, ?_, ?_, ?_, ?_, ?_⟩
  · rw [ne_eq, List.set_eq_nil_iff]; exact h.nonempty
  · intro r hr
    rcases List.mem_cons.mp hr with rfl | hr
    · exact ⟨i, _, hself, rfl, rfl, hlen⟩
    · obtain ⟨j, c, hc, halloc, hcr, hcl⟩ := h.live_block r hr
      have hij : i ≠ j := by
        rintro rfl
        rw [hb] at hc
        cases hc
        rw [hfree] at halloc
        cases halloc
      exact ⟨j, c, by rw [List.getElem?_set_ne hij]; exact hc, halloc, hcr, hcl⟩
  · intro c hc halloc
    rcases List.mem_or_eq_of_mem_set hc with hc | rfl
    · obtain ⟨r, hr, hrc⟩ := h.block_live c hc halloc
      exact ⟨r, List.mem_cons_of_mem _ hr, hrc⟩
    · exact ⟨_, List.mem_cons_self .., rfl⟩
  · refine List.nodup_cons.mpr ⟨?_, h.nodup⟩
    intro hmem
    obtain ⟨r, hr, hrr⟩ := List.mem_map.mp hmem
    have hs : headerSize = 16 := rfl
    obtain ⟨j, c, hc, halloc, hcr, -⟩ := h.live_block r hr
    simp only at hrr
    have hij := layout_inj h.chain.layout hb hc (by omega)
    subst hij
    rw [hb] at hc
    cases hc
    rw [hfree] at halloc
    cases halloc
  · intro hall
    have := hall _ (List.mem_of_getElem? hself)
    cases this

/-- The last block is split after the region it was just handed out for. -/
theorem Inv.split {xs : List Block} (h : Inv Len s (xs ++ [b])) (hLen : Len + headerSize ≤ 2 ^ 32)
    (halloc : b.allocated = true) (hlen : len + headerSize < b.len)
    (hclear : s.mem (b.ref + headerSize + len + 12) = 0)
    (hreg : ∀ r ∈ s.live, r.ref = b.ref + headerSize → r.len ≤ len) :
    Inv Len ⟨splitBlock s.mem b.ref len, s.live⟩ (xs ++ [{ b with len },
      ⟨b.ref + headerSize + len, b.len - len - headerSize, false⟩]) := by
  refine ⟨h.chain.split hLen hlen hclear, by simp, ?_, ?_, h.nodup, ?_⟩
  · intro r hr
    obtain ⟨j, c, hc, hca, hcr, hcl⟩ := h.live_block r hr
    rcases Nat.lt_trichotomy j xs.length with hj | hj | hj
    · rw [List.getElem?_append_left hj] at hc
      exact ⟨j, c, by rw [List.getElem?_append_left hj]; exact hc, hca, hcr, hcl⟩
    · subst hj
      simp only [List.getElem?_append_right (Nat.le_refl _), Nat.sub_self,
        List.getElem?_cons_zero, Option.some.injEq] at hc
      subst hc
      exact ⟨xs.length, { b with len }, by simp, halloc, hcr, hreg r hr hcr.symm⟩
    · have := (List.getElem?_eq_some_iff.mp hc).1
      simp only [List.length_append, List.length_singleton] at this
      omega
  · intro c hc hca
    simp only [List.mem_append, List.mem_cons, List.not_mem_nil, or_false] at hc
    rcases hc with hc | rfl | rfl
    · exact h.block_live c (by simp [hc]) hca
    · exact h.block_live b (by simp) halloc
    · cases hca
  · intro hall
    have := hall { b with len } (by simp)
    simp only [halloc] at this
    cases this

/-- **An allocation.** -/
theorem Inv.alloc (h : Inv Len s bs) (hLen : Len + headerSize ≤ 2 ^ 32)
    (hsafe : Safe Len s (.alloc len)) :
    ∃ s' bs', step Len s (.alloc len) = some s' ∧ Inv Len s' bs' ∧ Frame s s' (.alloc len) := by
  have hs : headerSize = 16 := rfl
  obtain ⟨b0, hb0⟩ : ∃ b0, bs[0]? = some b0 := by
    cases bs with
    | nil => exact absurd rfl h.nonempty
    | cons b0 bs => exact ⟨b0, rfl⟩
  have href0 : b0.ref = 0 := by
    cases bs with
    | nil => cases hb0
    | cons c bs => cases hb0; exact h.chain.layout.1
  have hcount : bs.length ≤ Len + headerSize + 0 := by
    have := layout_length h.chain.layout
    rw [hs] at this
    omega
  have hfind := findBlock_spec len h.chain hb0 hcount
  rw [href0] at hfind
  rcases hfind with ⟨i, b, hb, hfree, hlen, hfind⟩ | hfind
  · have hheader := h.chain.headers i b hb
    have hwhole := h.alloc_whole hb hfree hlen
    have hnew : header (setAllocated s.mem b.ref true) b.ref =
        { header s.mem b.ref with allocated := true } := header_setAllocated s.mem b.ref true
    by_cases hsplit : len + headerSize < b.len
    · -- the rest of the block becomes a new last block
      obtain ⟨hnext, hclear⟩ := hsafe b.ref hfind (by rw [hheader]; exact hsplit)
      have hi := h.chain.last_of_next hb hnext
      have hbs : bs.set i { b with allocated := true } =
          bs.take i ++ [{ b with allocated := true }] := by
        rw [List.set_eq_take_append_cons_drop, if_pos (by omega), List.drop_of_length_le (by omega)]
      rw [hbs] at hwhole
      have hclear' : setAllocated s.mem b.ref true (b.ref + headerSize + len + 12) = 0 := by
        rw [setAllocated_outside _ _ (by omega), hclear]
      have hsp := hwhole.split hLen rfl hsplit hclear' (by
        intro r hr hrr
        rcases List.mem_cons.mp hr with rfl | hr
        · exact Nat.le_refl _
        · have := h.live_outside hb hfree hr
          simp only at hrr
          omega)
      refine ⟨_, _, ?_, hsp, ?_⟩
      · simp only [step, allocRef, hfind, hnew, hheader, if_pos hsplit]
      · intro r hr _ x hx1 hx2
        have := h.live_outside hb hfree hr
        simp only
        rw [splitBlock_outside _ _ (by omega) (by omega), setAllocated_outside _ _ (by omega)]
    · refine ⟨_, _, ?_, hwhole, ?_⟩
      · simp only [step, allocRef, hfind, hnew, hheader, if_neg hsplit]
      · intro r hr _ x hx1 hx2
        have := h.live_outside hb hfree hr
        simp only
        rw [setAllocated_outside _ _ (by omega)]
  · exact ⟨s, bs, by simp only [step, allocRef, hfind], h, fun _ _ _ _ _ _ => rfl⟩

/-- A block no neighbour of which is free is only marked free. -/
theorem freeRef_alone {m m' : Mem} (hm : m' = setAllocated m (ref - headerSize) false)
    (hnext : (header m (ref - headerSize)).next ≠ 0 →
      (header m' (header m (ref - headerSize)).next).allocated = true)
    (hprev : (header m (ref - headerSize)).prev ≠ 0 →
      (header m' (header m (ref - headerSize)).prev).allocated = true) :
    freeRef m ref = m' := by
  have hheader := header_setAllocated m (ref - headerSize) false
  have hmerge : mergeNext m' (ref - headerSize) = m' := by
    simp only [mergeNext, hm, hheader]
    split
    · rfl
    · rename_i hn
      rw [← hm, if_pos (hnext hn)]
  simp only [freeRef, ← hm, hmerge]
  simp only [mergePrev, hm, hheader]
  split
  · rfl
  · rename_i hp
    rw [← hm, if_pos (hprev hp)]

/-- **A free of a live reference.** -/
theorem Inv.free (h : Inv Len s bs) (hen : Enabled s (.free ref))
    (hsafe : Safe Len s (.free ref)) :
    ∃ s' bs', step Len s (.free ref) = some s' ∧ Inv Len s' bs' ∧ Frame s s' (.free ref) := by
  have hs : headerSize = 16 := rfl
  obtain ⟨r0, hr0, hrr0⟩ := hen
  obtain ⟨i, b, hb, halloc, hbr, hbl⟩ := h.live_block r0 hr0
  have href : ref - headerSize = b.ref := by omega
  have hi : i < bs.length := (List.getElem?_eq_some_iff.mp hb).1
  have hheader := h.chain.headers i b hb
  obtain ⟨hnext, hprev, honly⟩ := hsafe
  rw [href] at hnext hprev honly
  -- the header of any other block is the one before the flag was cleared
  have hother {j : Nat} {c : Block} (hc : bs[j]? = some c) (hij : i ≠ j) :
      header (setAllocated s.mem b.ref false) c.ref = header s.mem c.ref := by
    have := layout_disjoint h.chain.layout hb hc hij
    exact header_congr _ (fun x h1 h2 => setAllocated_outside _ _ (by omega))
  have hfree : freeRef s.mem ref = setAllocated s.mem b.ref false := by
    refine freeRef_alone (by rw [href]) ?_ ?_
    · rw [href]
      intro hn
      have hlt : i + 1 < bs.length := by
        by_contra hne
        exact hn (h.chain.next_of_last hb (by omega))
      have hc : bs[i + 1]? = some bs[i + 1] := List.getElem?_eq_getElem hlt
      have hnc := h.chain.next_block hb hc
      have := hnext hn
      rw [hnc] at this ⊢
      rw [hother hc (by omega)]
      exact this
    · rw [href]
      intro hp
      have hi0 : i ≠ 0 := by
        rintro rfl
        rw [hheader] at hp
        exact hp rfl
      have hc : bs[i - 1]? = some bs[i - 1] := List.getElem?_eq_getElem (by omega)
      have hpc : (header s.mem b.ref).prev = bs[i - 1].ref := by
        rw [hheader]
        simp [prevRef, hi0, hc]
      have := hprev hp
      rw [hpc] at this ⊢
      rw [hother hc (by omega)]
      exact this
  have hself : (bs.set i { b with allocated := false })[i]? = some { b with allocated := false } :=
    List.getElem?_set_self hi
  refine ⟨_, bs.set i { b with allocated := false }, rfl, ⟨?_, ?_, ?_, ?_, ?_, ?_⟩, ?_⟩
  · simp only [hfree]
    exact h.chain.setBlock hb false
  · rw [ne_eq, List.set_eq_nil_iff]; exact h.nonempty
  · intro r hr
    simp only [List.mem_filter, decide_eq_true_eq] at hr
    obtain ⟨j, c, hc, hca, hcr, hcl⟩ := h.live_block r hr.1
    have hij : i ≠ j := by
      rintro rfl
      rw [hb] at hc
      cases hc
      exact hr.2 (by omega)
    exact ⟨j, c, by rw [List.getElem?_set_ne hij]; exact hc, hca, hcr, hcl⟩
  · intro c hc hca
    obtain ⟨j, hc⟩ := List.mem_iff_getElem?.mp hc
    have hij : i ≠ j := by
      rintro rfl
      rw [hself] at hc
      cases hc
      cases hca
    rw [List.getElem?_set_ne hij] at hc
    obtain ⟨r, hr, hrc⟩ := h.block_live c (List.mem_of_getElem? hc) hca
    refine ⟨r, ?_, hrc⟩
    simp only [List.mem_filter, decide_eq_true_eq]
    refine ⟨hr, fun hre => hij ?_⟩
    exact layout_inj h.chain.layout hb hc (by omega)
  · exact h.nodup.sublist (List.filter_sublist.map _)
  · intro hall
    have honly := honly (fun r hr => by
      obtain ⟨j, c, hc, hca, hcr, -⟩ := h.live_block r hr
      by_cases hij : i = j
      · subst hij
        rw [hb] at hc
        cases hc
        omega
      · have := hall c (List.mem_of_getElem? (by rw [List.getElem?_set_ne hij]; exact hc))
        rw [hca] at this
        cases this)
    have hlast := h.chain.last_of_next hb honly.2
    have hi0 : i = 0 := by
      by_contra hne
      have hc : bs[0]? = some bs[0] := List.getElem?_eq_getElem (by omega)
      have := layout_order h.chain.layout hc hb (by omega)
      omega
    rw [List.length_set]
    omega
  · intro r hr hr' x hx1 hx2
    simp only [List.mem_filter, decide_eq_true_eq] at hr'
    obtain ⟨j, c, hc, hca, hcr, hcl⟩ := h.live_block r hr
    simp only [hfree]
    refine setAllocated_outside _ _ ?_
    by_cases hij : i = j
    · subst hij
      rw [hb] at hc
      cases hc
      omega
    · have := layout_disjoint h.chain.layout hb hc hij
      omega

/-- **A write of a client.** -/
theorem Inv.write {a : Nat} {v : UInt8} (h : Inv Len s bs) (hen : Enabled s (.write a v)) :
    ∃ s' bs', step Len s (.write a v) = some s' ∧ Inv Len s' bs' ∧ Frame s s' (.write a v) := by
  obtain ⟨r, hr, ha1, ha2⟩ := hen
  obtain ⟨i, b, hb, -, hbr, hbl⟩ := h.live_block r hr
  refine ⟨_, bs, rfl, ⟨h.chain.congr ?_, h.nonempty, h.live_block, h.block_live, h.nodup,
    h.single⟩, trivial⟩
  intro c hc x hx1 hx2
  obtain ⟨j, hc⟩ := List.mem_iff_getElem?.mp hc
  have hne : x ≠ a := by
    by_cases hij : i = j
    · subst hij
      rw [hb] at hc
      cases hc
      omega
    · have := layout_disjoint h.chain.layout hb hc hij
      omega
  exact Mem.setByte_other v hne

end Inv

/-! ## Runs -/

/-- **One safe step.** -/
theorem Inv.step {Len : Nat} {s : State} {bs : List Block} {a : Action} (h : Inv Len s bs)
    (hLen : Len + headerSize ≤ 2 ^ 32) (hen : Enabled s a) (hsafe : Safe Len s a) :
    ∃ s' bs', step Len s a = some s' ∧ Inv Len s' bs' ∧ Frame s s' a := by
  cases a with
  | alloc len => exact h.alloc hLen hsafe
  | free ref => exact h.free hen hsafe
  | write a v => exact h.write hen

theorem reachable_inv {Len : Nat} {s : State} (hLen : Len + headerSize ≤ 2 ^ 32)
    (h : Reachable Len s) : ∃ bs, Inv Len s bs := by
  induction h with
  | initial => exact ⟨_, inv_initial hLen⟩
  | step _ hen hsafe hstep ih =>
    obtain ⟨bs, hinv⟩ := ih
    obtain ⟨s', bs', hs', hinv', -⟩ := hinv.step hLen hen hsafe
    rw [hstep] at hs'
    cases hs'
    exact ⟨bs', hinv'⟩

/-- **Every state of a run of safe steps is good, and every enabled safe step from it returns and
leaves the live regions alone.** -/
theorem reachable_good {Len : Nat} {s : State} (hLen : Len + headerSize ≤ 2 ^ 32)
    (h : Reachable Len s) :
    Good Len s ∧ ∀ a, Enabled s a → Safe Len s a → ∃ s', step Len s a = some s' ∧ Frame s s' a := by
  obtain ⟨bs, hinv⟩ := reachable_inv hLen h
  refine ⟨hinv.good hLen, fun a hen hsafe => ?_⟩
  obtain ⟨s', bs', hs', -, hframe⟩ := hinv.step hLen hen hsafe
  exact ⟨s', hs', hframe⟩

/-- The arena of the script VM after one allocation. -/
def afterAlloc : State := ⟨splitBlock (setAllocated (init 0x20000) 0 true) 0 10, [⟨16, 10⟩]⟩

theorem step_alloc : step 0x20000 (initial 0x20000) (.alloc 10) = some afterAlloc := by
  have hfind : findBlock (init 0x20000) 10 (0x20000 + headerSize) 0 = .ok 0 := by decide +kernel
  have hlen : (header (setAllocated (init 0x20000) 0 true) 0).len = 0x20000 := by decide +kernel
  simp only [step, allocRef, initial, hfind, hlen]
  rfl

theorem safe_alloc : Safe 0x20000 (initial 0x20000) (.alloc 10) := by
  intro ref hfind _
  have hfind' : findBlock (init 0x20000) 10 (0x20000 + headerSize) 0 = .ok 0 := by decide +kernel
  rw [show (initial 0x20000).mem = init 0x20000 from rfl, hfind'] at hfind
  cases hfind
  decide +kernel

theorem afterAlloc_good : Good 0x20000 afterAlloc ∧ ∀ a, Enabled afterAlloc a →
    Safe 0x20000 afterAlloc a → ∃ s', step 0x20000 afterAlloc a = some s' ∧ Frame afterAlloc s' a :=
  reachable_good (by decide) (.step (a := .alloc 10) .initial trivial safe_alloc step_alloc)

/-- Allocating ten bytes and freeing them leaves a block of `Len - 16` bytes: the merge adds the
data of the next block but not its header, and the maximal size is never available again. -/
theorem free_loses_header : ∃ s, Enabled afterAlloc (.free 16) ∧
    step 0x20000 (initial 0x20000) (.alloc 10) = some afterAlloc ∧
    step 0x20000 afterAlloc (.free 16) = some s ∧ s.live = [] ∧
    allocRef 0x20000 s.mem 0x20000 = .error (.throw "Not enough data in the allocator") ∧
    ¬ Good 0x20000 s := by
  have hthrow : findBlock (freeRef afterAlloc.mem 16) 0x20000 (0x20000 + headerSize) 0 =
      .error (.throw "Not enough data in the allocator") := by decide +kernel
  have halloc : allocRef 0x20000 (freeRef afterAlloc.mem 16) 0x20000 =
      .error (.throw "Not enough data in the allocator") := by
    unfold allocRef
    simp only [hthrow]
  refine ⟨⟨freeRef afterAlloc.mem 16, []⟩, ⟨⟨16, 10⟩, List.mem_singleton_self _, rfl⟩, step_alloc,
    rfl, rfl, halloc, fun hgood => ?_⟩
  obtain ⟨r, hr⟩ := hgood.allFree rfl
  rw [halloc] at hr
  cases hr

end Acts.MemoryAllocatorStatic
