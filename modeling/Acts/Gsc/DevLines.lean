import Acts.Gsc.TablesSound
import Acts.Lib.Segments
import Mathlib.Data.List.Chain
import Mathlib.Data.List.Nodup
import Mathlib.Data.Nat.Basic

/-!
# The table of the source lines

The debug file of a script maps its addresses to source lines:

* `WrittenIn`, `writeInOrder` — the exports are written with the autoexecs first.
* `devLines` — the table is made in the order of the map of the exports.
* `getLine` — how an address is looked up.
* `Right` — the intervals are in order, and every address finds the line of its node.
* `line_table_right` — **the table is right when the two orders are the same, and where no interval
  spans two functions only then.**
-/

set_option autoImplicit false

namespace Acts.Gsc.DevLines

open Acts.Lib.Segments

/-! ## Exports -/

/-- A function of the map of the exports with the line of each node, 0 for none.  `autoexec` is
`autoexecOrder` where the flag is set. -/
structure LinedExport where
  name : UInt64
  exp : Export
  lines : List Nat
  autoexec : Option Int
  lines_length : lines.length = exp.function.nodes.length
  ends : exp.function.body.getLast? = some (.opCode .end_)

/-- The map of the exports, in the order it is walked in. -/
structure ExportMap where
  exports : List LinedExport
  nodup : (exports.map LinedExport.name).Nodup

/-- The order of the output: the autoexecs, sorted, and the others.  Equal orders are sorted in any
way. -/
def WrittenIn (m : ExportMap) (order : List LinedExport) : Prop :=
  ∃ autoexecs, autoexecs.Perm (m.exports.filter fun e => e.autoexec.isSome) ∧
    autoexecs.Pairwise (fun e e' => ∀ o ∈ e.autoexec, ∀ o' ∈ e'.autoexec, o ≤ o') ∧
    order = autoexecs ++ m.exports.filter fun e => !e.autoexec.isSome

/-- A written export. -/
structure Laid where
  exp : LinedExport
  location : Nat
  size : Nat
  locs : List Loc

def writeExport (k : Compiler) (e : LinedExport) (data : List UInt8) :
    Option (Laid × List UInt8) := do
  let data := padTo 16 data ++ List.replicate 8 0
  let (locs, out) ← e.exp.function.emit (k.ctxOf e.exp) data
  some (⟨e, data.length, out.length - data.length, locs⟩, out)

def writeInOrder (k : Compiler) : List LinedExport → List UInt8 →
    Option (List Laid × List UInt8)
  | [], data => some ([], data)
  | e :: es, data => do
    let (x, data) ← writeExport k e data
    let (laid, data) ← writeInOrder k es data
    some (x :: laid, data)

/-- The written exports, in the order of the map. -/
def walk (laid : List Laid) (m : ExportMap) : List Laid :=
  m.exports.filterMap fun e => laid.find? fun x => x.exp.name == e.name

/-! ## The table -/

/-- `GSC_ACTS_LINES`; `stop` is its `end`. -/
structure Lines where
  start : Nat
  stop : Nat
  lineNum : Nat
  deriving DecidableEq, Repr

structure LineState where
  lines : List Lines
  curr : Lines
  deriving DecidableEq, Repr

/-- One node. -/
def lineNode (st : LineState) (n : Loc × Nat) : LineState :=
  let curr := { st.curr with stop := n.1.floc }
  let flushed := if curr.lineNum ≠ 0 then st.lines ++ [curr] else st.lines
  if n.2 = 0 then ⟨flushed, { curr with lineNum := 0 }⟩
  else if curr.lineNum = n.2 then ⟨st.lines, curr⟩
  else ⟨flushed, ⟨n.1.floc, curr.stop, n.2⟩⟩

/-- One export; the end of its last node is kept. -/
def lineExport (st : LineState) (x : Laid) : LineState :=
  let st := (x.locs.zip x.exp.lines).foldl lineNode st
  ⟨st.lines, { st.curr with stop := (x.location + x.size) % 2 ^ 32 }⟩

def devLines (exports : List Laid) : List Lines :=
  let st := exports.foldl lineExport ⟨[], ⟨0, 0, 0⟩⟩
  if st.curr.lineNum ≠ 0 then st.lines ++ [st.curr] else st.lines

/-- `GetGDBInfo`, the line before it is made relative to a file. -/
def getLine (lines : List Lines) (rloc : Nat) : Option Nat :=
  (lines.find? fun l => !(decide (rloc < l.start) || decide (rloc ≥ l.stop))).map Lines.lineNum

/-! ## What it is for -/

/-- The node behind: the next one of the function, or its end. -/
def Laid.nodeEnd (x : Laid) (i : Nat) : Nat :=
  ((x.locs[i + 1]?).map Loc.floc).getD (x.location + x.size)

/-- A line, if there is one. -/
def lineOf (line : Nat) : Option Nat := if line = 0 then none else some line

structure Right (laid : List Laid) (lines : List Lines) : Prop where
  valid : ∀ l ∈ lines, l.start ≤ l.stop
  order : lines.Pairwise fun l l' => l.stop ≤ l'.start
  found : ∀ x ∈ laid, ∀ i l line, x.locs[i]? = some l → x.exp.lines[i]? = some line →
    ∀ a, l.floc ≤ a → a < x.nodeEnd i → getLine lines a = lineOf line

/-! ## The loops as segments -/

def nodeMark (n : Loc × Nat) : Mark Nat Nat := (n.1.floc, lineOf n.2)

def Laid.marks (x : Laid) : List (Mark Nat Nat) := (x.locs.zip x.exp.lines).map nodeMark

def linesOf (s : Segment Nat Nat) : Lines := ⟨s.start, s.stop, s.label⟩

/-- The loop has closed `done` and has `cur` open. -/
structure Tracks (st : LineState) (done : List (Segment Nat Nat)) (cur : Open Nat Nat) : Prop where
  lines : st.lines = done.map linesOf
  label : lineOf st.curr.lineNum = cur.label
  start : ∀ c ∈ cur, st.curr.start = c.1

section Loop

variable {st : LineState} {done : List (Segment Nat Nat)} {cur : Open Nat Nat}

theorem lineOf_eq_some {line l : Nat} : lineOf line = some l ↔ line = l ∧ l ≠ 0 := by
  unfold lineOf
  split
  · simp
    omega
  · simp
    omega

/-- What is flushed at `stop`. -/
theorem Tracks.flush (h : Tracks st done cur) (stop : Nat) :
    (if st.curr.lineNum ≠ 0 then st.lines ++ [{ st.curr with stop := stop }] else st.lines) =
      (done ++ Acts.Lib.Segments.flush cur stop).map linesOf := by
  have hlabel := h.label
  cases cur with
  | none =>
    have hzero : st.curr.lineNum = 0 := by
      by_contra hne
      rw [lineOf, if_neg hne] at hlabel
      cases hlabel
    rw [if_neg (by simpa using hzero), h.lines, Acts.Lib.Segments.flush]
    simp
  | some c =>
    obtain ⟨hline, hne⟩ := lineOf_eq_some.mp hlabel
    have hstart := h.start c rfl
    rw [if_pos (by omega), h.lines, List.map_append]
    simp [Acts.Lib.Segments.flush, linesOf, ← hstart, ← hline]

theorem Tracks.node (h : Tracks st done cur) (n : Loc × Nat) :
    Tracks (lineNode st n) (done ++ closed cur [nodeMark n]) (after cur [nodeMark n]) := by
  have hflush := h.flush n.1.floc
  have hlabel := h.label
  rw [closed_single, after_single]
  unfold lineNode
  simp only at hflush ⊢
  split
  · rename_i hzero
    -- no line: the open interval is flushed
    have hmark : (nodeMark n).2 = none := by rw [nodeMark, lineOf, if_pos hzero]
    have hopens : (nodeMark n).opens = none := by rw [Mark.opens, hmark]; rfl
    rw [hflush, hmark]
    split
    · rename_i hnone
      cases cur with
      | none =>
        refine ⟨?_, rfl, by simp⟩
        rw [Acts.Lib.Segments.flush]
        simp
      | some c => cases hnone
    · refine ⟨rfl, ?_, ?_⟩
      · rw [hopens]
        rfl
      · rw [hopens]
        simp
  · rename_i hline
    have hmark : (nodeMark n).2 = some n.2 := by rw [nodeMark, lineOf, if_neg hline]
    rw [hmark, ← hlabel]
    split
    · rename_i heq
      have hsame : lineOf st.curr.lineNum = some n.2 := lineOf_eq_some.mpr ⟨heq, hline⟩
      rw [if_pos hsame, if_pos hsame, List.append_nil]
      exact ⟨h.lines, h.label, h.start⟩
    · rename_i hne
      have hother : ¬ lineOf st.curr.lineNum = some n.2 := fun heq =>
        hne (lineOf_eq_some.mp heq).1
      rw [if_neg hother, if_neg hother]
      refine ⟨hflush, ?_, ?_⟩
      · rw [label_opens]
        rfl
      · intro c hc
        obtain ⟨l, -, rfl⟩ := Option.map_eq_some_iff.mp hc
        rfl

theorem Tracks.nodes (h : Tracks st done cur) (ns : List (Loc × Nat)) :
    Tracks (ns.foldl lineNode st) (done ++ closed cur (ns.map nodeMark))
      (after cur (ns.map nodeMark)) := by
  induction ns generalizing st done cur with
  | nil => simpa [closed, after] using h
  | cons n ns ih =>
    have hnext := ih (h.node n)
    rw [List.append_assoc, ← closed_append, ← after_append] at hnext
    exact hnext

theorem Tracks.exports (h : Tracks st done cur) (w : List Laid) :
    Tracks (w.foldl lineExport st) (done ++ closed cur (w.flatMap Laid.marks))
      (after cur (w.flatMap Laid.marks)) := by
  induction w generalizing st done cur with
  | nil => simpa [closed, after] using h
  | cons x w ih =>
    have hx := h.nodes (x.locs.zip x.exp.lines)
    have hlaid : Tracks (lineExport st x) (done ++ closed cur x.marks) (after cur x.marks) :=
      ⟨hx.lines, hx.label, hx.start⟩
    have hnext := ih hlaid
    rw [List.append_assoc, ← closed_append, ← after_append] at hnext
    exact hnext

end Loop

/-- Where the last export ends. -/
def tableEnd (w : List Laid) : Nat :=
  ((w.getLast?).map fun x => (x.location + x.size) % 2 ^ 32).getD 0

theorem stop_exports (w : List Laid) (st : LineState) :
    (w.foldl lineExport st).curr.stop =
      ((w.getLast?).map fun x => (x.location + x.size) % 2 ^ 32).getD st.curr.stop := by
  induction w generalizing st with
  | nil => rfl
  | cons x w ih =>
    rw [List.foldl_cons, ih]
    cases w with
    | nil => rfl
    | cons y w => rfl

/-- **The table is the segments of the marks of the nodes.** -/
theorem devLines_eq (w : List Laid) :
    devLines w = (segments (tableEnd w) none (w.flatMap Laid.marks)).map linesOf := by
  have h : Tracks ⟨[], ⟨0, 0, 0⟩⟩ [] none := ⟨rfl, rfl, by simp⟩
  have hw := h.exports w
  rw [List.nil_append] at hw
  have hflush := hw.flush (tableEnd w)
  have hstop : (w.foldl lineExport ⟨[], ⟨0, 0, 0⟩⟩).curr.stop = tableEnd w := stop_exports w _
  rw [segments_eq, ← hflush, ← hstop]
  rfl

theorem getLine_map (segs : List (Segment Nat Nat)) (a : Nat) :
    getLine (segs.map linesOf) a = lookup a segs := by
  unfold getLine lookup
  rw [List.find?_map, Option.map_map]
  have hpred : ((fun l : Lines => !(decide (a < l.start) || decide (a ≥ l.stop))) ∘ linesOf) =
      fun s : Segment Nat Nat => decide (s.start ≤ a ∧ a < s.stop) := by
    funext s
    show (!(decide (a < s.start) || decide (a ≥ s.stop))) = decide (s.start ≤ a ∧ a < s.stop)
    rw [Bool.eq_iff_iff]
    simp
  rw [hpred]
  rfl

/-! ## The layout of an export -/

/-- What the table relies on of an export. -/
structure Laid.Ok (x : Laid) (end_ : Nat) : Prop where
  length : x.locs.length = x.exp.lines.length
  ascending : Ascending (x.location + x.size) x.location x.marks
  first : x.marks.head?.map Prod.fst = some x.location
  pos : 0 < x.size
  inside : x.location + x.size ≤ end_

section Layout

variable {c : Ctx} {base u : Nat} {nodes : List AscmNode} {locs : List Loc} {lines : List Nat}

/-- The address of what starts at `u`. -/
def flocAt (c : Ctx) (base u : Nat) : Nat :=
  if c.layoutAlign then aligned (base + u) 2 else base + u

theorem flocAt_mono (c : Ctx) (base : Nat) {u u' : Nat} (h : u ≤ u') :
    flocAt c base u ≤ flocAt c base u' := by
  unfold flocAt
  split
  · exact aligned_mono 2 (Nat.add_le_add_left h base)
  · exact Nat.add_le_add_left h base

/-- The layout does not go back. -/
theorem relativeLocations_ascending (h : relativeLocations c base nodes u = some locs)
    (hlines : lines.length = nodes.length) :
    Ascending ((locs.getLast?.map Loc.floc).getD (flocAt c base u)) (flocAt c base u)
      ((locs.zip lines).map nodeMark) := by
  induction nodes generalizing u locs lines with
  | nil =>
    cases h
    exact Nat.le_refl _
  | cons n ns ih =>
    rw [relativeLocations] at h
    obtain ⟨current, -, h⟩ := Option.bind_eq_some_iff.mp h
    split at h
    · cases h
    · rename_i hbound
      obtain ⟨ls, hls, h⟩ := Option.bind_eq_some_iff.mp h
      cases h
      cases lines with
      | nil => cases hlines
      | cons line lines =>
        have hrest := ih hls (Nat.succ.inj hlines)
        refine ⟨Nat.le_refl _, ?_⟩
        cases ls with
        | nil => exact Nat.le_refl _
        | cons l ls => exact hrest.mono (flocAt_mono c base (by omega)) (Nat.le_refl _)

theorem relativeLocations_first {n : AscmNode} {ns : List AscmNode}
    (h : relativeLocations c base (n :: ns) u = some locs) :
    locs.head?.map Loc.floc = some (flocAt c base u) := by
  rw [relativeLocations] at h
  obtain ⟨current, -, h⟩ := Option.bind_eq_some_iff.mp h
  split at h
  · cases h
  · obtain ⟨ls, -, h⟩ := Option.bind_eq_some_iff.mp h
    cases h
    rfl

/-- The last node of an export is in its code. -/
theorem last_inside (hc : c.Regular) (hb : 8 ∣ base) {data out : List UInt8} {rlocs : Nat → Nat}
    (hloc : relativeLocations c base nodes 0 = some locs) (hdata : data.length = base)
    (hw : writeNodes c rlocs nodes locs data = some out) (hlen : out.length < 2 ^ 31)
    (hends : nodes.getLast? = some (.opCode .end_)) :
    base < out.length ∧ ∀ l ∈ locs.getLast?, l.floc ≤ out.length := by
  have hn : nodes[nodes.length - 1]? = some (.opCode .end_) := by
    rw [← List.getLast?_eq_getElem?]
    exact hends
  obtain ⟨l, u, a, before, after, hl, -, -, hplaced, hout, -⟩ :=
    node_placed hc hb hloc (Nat.add_zero base ▸ hdata) (behind_refl c 0) hw hlen hn
  have hafter : after.length = shiftOpCode c.hasAlign before.length :=
    length_writeOpCode hplaced.write
  have hle := hout.length_le
  have hbehind := hplaced.behind.le
  have hstart := hplaced.length
  have hshift : before.length < shiftOpCode c.hasAlign before.length ∧
      l.floc ≤ shiftOpCode c.hasAlign before.length := by
    rw [hplaced.floc, hstart]
    unfold shiftOpCode
    have h2 := le_aligned (base + a) (show 0 < 2 by decide)
    have hmono := aligned_mono 2 (Nat.add_le_add_left hbehind base)
    cases ha : c.hasAlign with
    | true =>
      simp only [if_true]
      split
      · omega
      · omega
    | false =>
      have hlayout : c.layoutAlign = false := by
        unfold Ctx.hasAlign at ha
        rw [Ctx.layoutAlign, ha, Bool.false_and]
      rw [hlayout]
      simp only [Bool.false_eq_true, if_false]
      omega
  refine ⟨by omega, ?_⟩
  intro l' hl'
  rw [List.getLast?_eq_getElem?, length_relativeLocations hloc, hl] at hl'
  cases hl'
  omega

end Layout

section Written

variable {k : Compiler}

/-- The code of an export from `start` on. -/
theorem emit_ok {e : LinedExport} {start out : List UInt8} {locs : List Loc}
    (h : e.exp.function.emit (k.ctxOf e.exp) start = some (locs, out)) (hb : 8 ∣ start.length)
    (hlen : out.length < 2 ^ 31) :
    Laid.Ok ⟨e, start.length, out.length - start.length, locs⟩ out.length := by
  obtain ⟨locs', hlocs, h⟩ := Option.bind_eq_some_iff.mp h
  obtain ⟨out', hw, h⟩ := Option.bind_eq_some_iff.mp h
  rw [Option.some.injEq, Prod.mk.injEq] at h
  obtain ⟨rfl, rfl⟩ := h
  have hvm : (k.ctxOf e.exp).vm ∈ registeredVms := by
    show k.ctx.vm ∈ registeredVms
    rw [k.vm_eq]
    exact vm_of_registered k.registered
  have hends : e.exp.function.nodes.getLast? = some (.opCode .end_) := by
    rw [FunctionObject.nodes, List.getLast?_cons, e.ends]
    rfl
  obtain ⟨hpos, hlast⟩ := last_inside (regular_of_registered hvm) hb hlocs rfl hw hlen hends
  have hsize : start.length + (out'.length - start.length) = out'.length := by omega
  have hfirst : flocAt (k.ctxOf e.exp) start.length 0 = start.length := by
    unfold flocAt
    rw [Nat.add_zero, aligned_of_dvd (Nat.dvd_trans (by decide) hb), ite_self]
  have hascending := relativeLocations_ascending hlocs e.lines_length
  have hlength := length_relativeLocations hlocs
  rw [hfirst] at hascending
  constructor
  · exact hlength.trans e.lines_length.symm
  · rw [hsize]
    refine hascending.mono (Nat.le_refl _) ?_
    cases hl : locs'.getLast? with
    | none => exact Nat.le_of_lt hpos
    | some l => exact hlast l hl
  · have hhead := relativeLocations_first hlocs
    rw [hfirst] at hhead
    cases hlines : e.lines with
    | nil =>
      have hnil := e.lines_length
      rw [hlines] at hnil
      cases hnil
    | cons line lines =>
      cases locs' with
      | nil => cases hhead
      | cons l ls => simpa [Laid.marks, nodeMark, hlines] using hhead
  · exact Nat.sub_pos_of_lt hpos
  · exact Nat.le_of_eq hsize

theorem writeExport_ok {e : LinedExport} {data out : List UInt8} {x : Laid}
    (h : writeExport k e data = some (x, out)) (hlen : out.length < 2 ^ 31) :
    x.exp = e ∧ x.Ok out.length ∧ data.length ≤ x.location ∧
      x.location + x.size = out.length := by
  obtain ⟨⟨locs, written⟩, hemit, h⟩ := Option.bind_eq_some_iff.mp h
  rw [Option.some.injEq, Prod.mk.injEq] at h
  obtain ⟨rfl, rfl⟩ := h
  have hlength : (padTo 16 data ++ List.replicate 8 0).length = aligned data.length 16 + 8 := by
    rw [List.length_append, length_padTo _ (by decide), List.length_replicate]
  have hb : 8 ∣ (padTo 16 data ++ List.replicate 8 0).length := by
    rw [hlength]
    exact Nat.dvd_add (dvd_aligned_of_dvd (by decide) _) (Nat.dvd_refl 8)
  have hok := emit_ok hemit hb hlen
  have hpos : 0 < written.length - (padTo 16 data ++ List.replicate 8 0).length := hok.pos
  refine ⟨rfl, hok, ?_, ?_⟩
  · show data.length ≤ (padTo 16 data ++ List.replicate 8 0).length
    rw [hlength]
    exact (le_aligned data.length (by decide)).trans (Nat.le_add_right _ 8)
  · show (padTo 16 data ++ List.replicate 8 0).length + (written.length - _) = _
    omega

theorem writeInOrder_ok {order : List LinedExport} {data out : List UInt8} {laid : List Laid}
    (h : writeInOrder k order data = some (laid, out)) (hlen : out.length < 2 ^ 31) :
    laid.map Laid.exp = order ∧ data.length ≤ out.length ∧
      (laid.Pairwise fun x y => x.location + x.size ≤ y.location) ∧
      ∀ x ∈ laid, x.Ok out.length ∧ data.length ≤ x.location := by
  induction order generalizing data laid with
  | nil =>
    cases h
    exact ⟨rfl, Nat.le_refl _, List.Pairwise.nil, by simp⟩
  | cons e es ih =>
    obtain ⟨⟨x, data'⟩, hx, h⟩ := Option.bind_eq_some_iff.mp h
    obtain ⟨⟨rest, out'⟩, hrest, h⟩ := Option.bind_eq_some_iff.mp h
    rw [Option.some.injEq, Prod.mk.injEq] at h
    obtain ⟨rfl, rfl⟩ := h
    obtain ⟨hexp, hle, hpairwise, hall⟩ := ih hrest
    obtain ⟨hxe, hok, hstart, hend⟩ := writeExport_ok hx (by omega)
    refine ⟨by rw [List.map_cons, hxe, hexp], by omega, ?_, ?_⟩
    · refine List.pairwise_cons.mpr ⟨?_, hpairwise⟩
      intro y hy
      exact Nat.le_trans (Nat.le_of_eq hend) (hall y hy).2
    · intro y hy
      rcases List.mem_cons.mp hy with rfl | hy
      · exact ⟨⟨hok.length, hok.ascending, hok.first, hok.pos, Nat.le_trans hok.inside hle⟩, hstart⟩
      · obtain ⟨hyok, hyle⟩ := hall y hy
        exact ⟨hyok, by omega⟩

end Written

/-! ## The table in the order of the output -/

section Order

variable {w : List Laid} {end_ : Nat}

/-- Exports one behind the other. -/
structure Row (w : List Laid) (end_ : Nat) : Prop where
  ok : ∀ x ∈ w, x.Ok end_
  apart : w.Pairwise fun x y => x.location + x.size ≤ y.location

theorem Row.tail {x : Laid} (h : Row (x :: w) end_) : Row w end_ :=
  ⟨fun y hy => h.ok y (List.mem_cons_of_mem _ hy), (List.pairwise_cons.mp h.apart).2⟩

/-- The first mark behind an export. -/
theorem Row.next_le {x : Laid} (h : Row (x :: w) end_) {final : Nat}
    (hfinal : ∀ y ∈ x :: w, y.location + y.size ≤ final) :
    x.location + x.size ≤ next final (w.flatMap Laid.marks) := by
  cases w with
  | nil => exact hfinal x List.mem_cons_self
  | cons y w =>
    have hy := (h.tail.ok y List.mem_cons_self).first
    have hle := (List.pairwise_cons.mp h.apart).1 y List.mem_cons_self
    unfold next
    rw [List.flatMap_cons, List.head?_append]
    cases hm : y.marks.head? with
    | none =>
      rw [hm] at hy
      cases hy
    | some m =>
      rw [hm] at hy
      rw [Option.some_or, hy]
      exact hle

theorem Row.ascending (h : Row w end_) {a final : Nat} (ha : ∀ x ∈ w, a ≤ x.location)
    (hle : a ≤ final) (hfinal : ∀ x ∈ w, x.location + x.size ≤ final) :
    Ascending final a (w.flatMap Laid.marks) := by
  induction w generalizing a with
  | nil => exact hle
  | cons x w ih =>
    have hx := h.ok x List.mem_cons_self
    have hend := hfinal x List.mem_cons_self
    have hrest := ih h.tail (List.pairwise_cons.mp h.apart).1 hend
      (fun y hy => hfinal y (List.mem_cons_of_mem _ hy))
    rw [List.flatMap_cons]
    exact (hx.ascending.mono (ha x List.mem_cons_self) (h.next_le hfinal)).append hrest

theorem Row.append {w' : List Laid} (h : Row (w ++ w') end_) : Row w' end_ :=
  ⟨fun y hy => h.ok y (List.mem_append_right _ hy), (List.pairwise_append.mp h.apart).2.1⟩

theorem Row.le_tableEnd (h : Row w end_) (hend : end_ < 2 ^ 31) :
    ∀ x ∈ w, x.location + x.size ≤ tableEnd w := by
  induction w with
  | nil => simp
  | cons x w ih =>
    have hx := (h.ok x List.mem_cons_self).inside
    cases w with
    | nil =>
      intro y hy
      cases List.mem_singleton.mp hy
      have hmod := Nat.mod_eq_of_lt (show x.location + x.size < 2 ^ 32 by omega)
      exact Nat.le_of_eq hmod.symm
    | cons y w =>
      have hrest : ∀ z ∈ y :: w, z.location + z.size ≤ tableEnd (x :: y :: w) := ih h.tail
      intro z hz
      rcases List.mem_cons.mp hz with rfl | hz
      · have hy := hrest y List.mem_cons_self
        have hle := (List.pairwise_cons.mp h.apart).1 y List.mem_cons_self
        omega
      · exact hrest z hz

theorem length_marks {x : Laid} (h : x.locs.length = x.exp.lines.length) :
    x.marks.length = x.locs.length := by
  rw [Laid.marks, List.length_map, List.length_zip, h, Nat.min_self]

theorem marks_split {x : Laid} {i line : Nat} {l : Loc} (hl : x.locs[i]? = some l)
    (hline : x.exp.lines[i]? = some line) :
    x.marks = x.marks.take i ++ (l.floc, lineOf line) :: x.marks.drop (i + 1) := by
  have hm : x.marks[i]? = some (l.floc, lineOf line) := by
    have hzip : (x.locs.zip x.exp.lines)[i]? = some (l, line) :=
      List.getElem?_zip_eq_some.mpr ⟨hl, hline⟩
    rw [Laid.marks, List.getElem?_map, hzip]
    rfl
  obtain ⟨hi, hm⟩ := List.getElem?_eq_some_iff.mp hm
  rw [← hm, ← List.drop_eq_getElem_cons hi, List.take_append_drop]

/-- The addresses of a node end at the next mark, or before. -/
theorem nodeEnd_le {x : Laid} {final i : Nat} (hlength : x.locs.length = x.exp.lines.length)
    (rest : List (Mark Nat Nat)) (hnext : x.location + x.size ≤ next final rest) :
    x.nodeEnd i ≤ next final (x.marks.drop (i + 1) ++ rest) := by
  unfold Laid.nodeEnd
  by_cases hi : i + 1 < x.locs.length
  · have hl := List.getElem?_eq_getElem hi
    have hline := List.getElem?_eq_getElem (hlength ▸ hi)
    rw [hl, marks_split hl hline, List.drop_append_of_le_length, List.drop_take, Nat.sub_self,
      List.take_zero]
    · exact Nat.le_refl _
    · rw [List.length_take, length_marks hlength]
      omega
  · rw [List.getElem?_eq_none (by omega), List.drop_of_length_le]
    · exact hnext
    · rw [length_marks hlength]
      omega

/-- **In the order of the output the table is right.** -/
theorem Row.right (h : Row w end_) (hend : end_ < 2 ^ 31) : Right w (devLines w) := by
  have hfinal := h.le_tableEnd hend
  have hascending := h.ascending (a := 0) (fun _ _ => Nat.zero_le _) (Nat.zero_le _) hfinal
  have hopen : Open.upTo (none : Open Nat Nat) 0 := by simp [Open.upTo]
  have hsorted := segments_sorted hascending hopen
  rw [devLines_eq]
  constructor
  · intro l hl
    obtain ⟨s, hs, rfl⟩ := List.mem_map.mp hl
    exact hsorted.valid s hs
  · exact List.pairwise_map.mpr hsorted.order
  · intro x hx i l line hl hline a ha hlt
    rw [getLine_map]
    obtain ⟨pre, post, rfl⟩ := List.append_of_mem hx
    have hnext := h.append.next_le fun y hy => hfinal y (List.mem_append_right _ hy)
    have hmarks : (pre ++ x :: post).flatMap Laid.marks =
        (pre.flatMap Laid.marks ++ x.marks.take i) ++ (l.floc, lineOf line) ::
          (x.marks.drop (i + 1) ++ post.flatMap Laid.marks) := by
      rw [List.flatMap_append, List.flatMap_cons, List.append_assoc, ← List.cons_append,
        ← List.append_assoc (x.marks.take i), ← marks_split hl hline]
    rw [hmarks] at hascending ⊢
    have hlength := (h.ok x hx).length
    exact lookup_mark hascending hopen ha (Nat.lt_of_lt_of_le hlt (nodeEnd_le hlength _ hnext))

end Order

/-! ## The table in another order -/

/-- Every node of an export has a line. -/
def LinedExport.Lined (e : LinedExport) : Prop := ∀ line ∈ e.lines, line ≠ 0

/-- No two neighbours meet in one line. -/
def Joinless (exports : List LinedExport) : Prop :=
  exports.IsChain fun e e' => e.lines.getLast? ≠ e'.lines.head?

theorem LinedExport.lines_ne (e : LinedExport) : e.lines ≠ [] := by
  intro h
  have hlength := e.lines_length
  rw [h] at hlength
  cases hlength

theorem marks_labels {x : Laid} (h : x.locs.length = x.exp.lines.length) :
    x.marks.map Prod.snd = x.exp.lines.map lineOf := by
  have hsnd : x.marks.map Prod.snd = ((x.locs.zip x.exp.lines).map Prod.snd).map lineOf := by
    rw [Laid.marks, List.map_map, List.map_map]
    rfl
  rw [hsnd, List.map_snd_zip (Nat.le_of_eq h.symm)]

section Neighbours

variable {x : Laid} {end_ : Nat}

theorem first_mark (h : x.Ok end_) (hlined : x.exp.Lined) :
    ∃ m marks, x.marks = m :: marks ∧ m.1 = x.location ∧ m.2 = x.exp.lines.head? := by
  have hfirst := h.first
  have hlabels := marks_labels h.length
  cases hm : x.marks with
  | nil =>
    rw [hm] at hfirst
    cases hfirst
  | cons m marks =>
    rw [hm] at hfirst hlabels
    cases hl : x.exp.lines with
    | nil =>
      rw [hl] at hlabels
      cases hlabels
    | cons line lines =>
      rw [hl, List.map_cons, List.map_cons, List.cons.injEq] at hlabels
      refine ⟨m, marks, rfl, Option.some.inj hfirst, ?_⟩
      rw [hlabels.1, lineOf, if_neg (hlined line (by rw [hl]; exact List.mem_cons_self))]
      rfl

/-- Behind an export the line of its last node is open. -/
theorem last_label (h : x.Ok end_) (hlined : x.exp.Lined) (cur : Open Nat Nat)
    (marks : List (Mark Nat Nat)) :
    (after cur (marks ++ x.marks)).label = x.exp.lines.getLast? := by
  obtain ⟨m, rest, hm, -, -⟩ := first_mark h hlined
  have hlabels := congrArg List.getLast? (marks_labels h.length)
  rw [List.getLast?_map, List.getLast?_map] at hlabels
  rw [label_after, List.getLast?_append]
  cases hlast : x.marks.getLast? with
  | none =>
    rw [List.getLast?_eq_none_iff, hm] at hlast
    cases hlast
  | some m' =>
    rw [hlast] at hlabels
    obtain ⟨line, hline, heq⟩ := Option.map_eq_some_iff.mp hlabels.symm
    rw [hline, Option.some_or, Option.map_some, Option.getD_some, ← heq, lineOf,
      if_neg (hlined line (List.mem_of_getLast? hline))]

/-- Where two neighbours do not meet in a line, an interval ends at the second one. -/
theorem neighbours_le {pre post : List Laid} {y : Laid}
    (hok : ∀ z ∈ pre ++ x :: y :: post, z.Ok end_)
    (hlined : ∀ z ∈ pre ++ x :: y :: post, z.exp.Lined)
    (hjoinless : Joinless ((pre ++ x :: y :: post).map Laid.exp))
    (hvalid : ∀ l ∈ devLines (pre ++ x :: y :: post), l.start ≤ l.stop) :
    x.location ≤ y.location := by
  have hx : x ∈ pre ++ x :: y :: post := by simp
  have hy : y ∈ pre ++ x :: y :: post := by simp
  obtain ⟨m, marks, hm, -, hfirst⟩ := first_mark (hok x hx) (hlined x hx)
  obtain ⟨m', marks', hm', hloc, hhead⟩ := first_mark (hok y hy) (hlined y hy)
  rw [Joinless, List.isChain_iff_forall_rel_of_append_cons_cons] at hjoinless
  have hsplit : (pre ++ x :: y :: post).map Laid.exp =
      pre.map Laid.exp ++ x.exp :: y.exp :: post.map Laid.exp := by simp
  have hmeet := hjoinless hsplit
  have hcur : (after none (pre.flatMap Laid.marks)).label ≠ m.2 := by
    rw [hfirst]
    rcases List.eq_nil_or_concat pre with rfl | ⟨pre', z, hconcat⟩
    · intro hnone
      exact x.exp.lines_ne (List.head?_eq_none_iff.mp hnone.symm)
    · rw [List.concat_eq_append] at hconcat
      subst hconcat
      have hz : z ∈ pre' ++ [z] ++ x :: y :: post := by simp
      rw [List.flatMap_append, List.flatMap_singleton, last_label (hok z hz) (hlined z hz)]
      have hbefore : (pre' ++ [z] ++ x :: y :: post).map Laid.exp =
          pre'.map Laid.exp ++ z.exp :: x.exp :: (y :: post).map Laid.exp := by simp
      exact hjoinless hbefore
  cases hlast : x.exp.lines.getLast? with
  | none => exact absurd (List.getLast?_eq_none_iff.mp hlast) x.exp.lines_ne
  | some l =>
    have hopen : (after (after none (pre.flatMap Laid.marks)) (m :: marks)).label = some l := by
      rw [← hm, ← after_append, last_label (hok x hx) (hlined x hx), hlast]
    have hchange : m'.2 ≠ some l := by
      rw [hhead, ← hlast]
      exact Ne.symm hmeet
    obtain ⟨a, ha, hmem⟩ := flush_mem (tableEnd (pre ++ x :: y :: post)) hcur hopen hchange
      (marks' ++ post.flatMap Laid.marks)
    have hle : a ≤ m'.1 := by
      refine hvalid ⟨a, m'.1, l⟩ ?_
      rw [devLines_eq, List.flatMap_append, segments_append, List.flatMap_cons, List.flatMap_cons,
        hm, hm']
      exact List.mem_map_of_mem (List.mem_append_right _ hmem)
    rw [← hm] at ha
    have hstart := (hok x hx).ascending.le_marks a ha
    omega

end Neighbours

/-! ## The walk -/

section Walk

variable {m : ExportMap} {order : List LinedExport} {laid : List Laid}

theorem WrittenIn.perm (h : WrittenIn m order) : order.Perm m.exports := by
  obtain ⟨autoexecs, hperm, -, rfl⟩ := h
  exact (hperm.append_right _).trans (List.filter_append_perm _ _)

/-- The walk finds every export of the map. -/
theorem find_exp (hexp : laid.map Laid.exp = order) (hperm : order.Perm m.exports)
    {e : LinedExport} (he : e ∈ m.exports) :
    ∃ x ∈ laid, (laid.find? fun x => x.exp.name == e.name) = some x ∧ x.exp = e := by
  have hmem : e ∈ laid.map Laid.exp := by
    rw [hexp]
    exact hperm.mem_iff.mpr he
  obtain ⟨y, hy, rfl⟩ := List.mem_map.mp hmem
  cases hfind : laid.find? fun x => x.exp.name == y.exp.name with
  | none => exact absurd (List.find?_eq_none.mp hfind y hy) (by simp)
  | some x =>
    have hx := List.mem_of_find?_eq_some hfind
    have hname : x.exp.name = y.exp.name := by simpa using List.find?_some hfind
    have hxe : x.exp ∈ m.exports :=
      hperm.mem_iff.mp (hexp ▸ List.mem_map_of_mem hx)
    exact ⟨x, hx, rfl, List.inj_on_of_nodup_map m.nodup hxe he hname⟩

theorem walk_exp (hexp : laid.map Laid.exp = order) (hperm : order.Perm m.exports) :
    (walk laid m).map Laid.exp = m.exports ∧ ∀ x ∈ walk laid m, x ∈ laid := by
  constructor
  · rw [walk, List.map_filterMap]
    refine (List.filterMap_congr fun e he => ?_).trans List.filterMap_some
    obtain ⟨x, -, hx, hxe⟩ := find_exp hexp hperm he
    rw [hx, Option.map_some, hxe]
  · intro x hx
    obtain ⟨e, he, hfind⟩ := List.mem_filterMap.mp hx
    exact List.mem_of_find?_eq_some hfind

/-- In the order of the map the exports are a permutation of those of the output. -/
theorem walk_perm (hexp : laid.map Laid.exp = order) (hperm : order.Perm m.exports) :
    (walk laid m).Perm laid := by
  obtain ⟨hwalk, hmem⟩ := walk_exp hexp hperm
  have hnodup : m.exports.Nodup := List.Nodup.of_map _ m.nodup
  have hlaid : (laid.map Laid.exp).Nodup := hexp ▸ hperm.nodup_iff.mpr hnodup
  refine (List.perm_ext_iff_of_nodup (List.Nodup.of_map _ (hwalk ▸ hnodup))
    (List.Nodup.of_map _ hlaid)).mpr fun x => ⟨hmem x, fun hx => ?_⟩
  have he : x.exp ∈ (walk laid m).map Laid.exp := by
    rw [hwalk]
    exact hperm.mem_iff.mp (hexp ▸ List.mem_map_of_mem hx)
  obtain ⟨y, hy, hyx⟩ := List.mem_map.mp he
  rw [← List.inj_on_of_nodup_map hlaid (hmem y hy) hx hyx]
  exact hy

/-- In the order of the output the walk is the output. -/
theorem walk_eq (hexp : laid.map Laid.exp = order) (hperm : order.Perm m.exports)
    (heq : m.exports = order) : walk laid m = laid := by
  have hnodup : (laid.map Laid.exp).Nodup := by
    rw [hexp]
    exact hperm.nodup_iff.mpr (List.Nodup.of_map _ m.nodup)
  rw [walk, heq, ← hexp, List.filterMap_map]
  refine (List.filterMap_congr fun x hx => ?_).trans List.filterMap_some
  have he : x.exp ∈ m.exports := by
    rw [heq, ← hexp]
    exact List.mem_map_of_mem hx
  obtain ⟨y, hy, hfind, hyx⟩ := find_exp hexp hperm he
  rw [← List.inj_on_of_nodup_map hnodup hy hx hyx]
  rw [← hyx] at hfind
  exact hfind

/-- In ascending order the walk is the output. -/
theorem walk_eq_of_ascending {end_ : Nat} (hrow : Row laid end_)
    (hperm : (walk laid m).Perm laid)
    (h : (walk laid m).Pairwise fun x y => x.location ≤ y.location) : walk laid m = laid := by
  have hlt : laid.Pairwise fun x y => x.location < y.location :=
    hrow.apart.imp_of_mem fun hx _ hle => by
      have hpos := (hrow.ok _ hx).pos
      omega
  have hnodup : (laid.map Laid.location).Nodup :=
    List.pairwise_map.mpr (hlt.imp Nat.ne_of_lt)
  refine hperm.eq_of_pairwise ?_ h (hlt.imp Nat.le_of_lt)
  intro x y hx hy hxy hyx
  exact List.inj_on_of_nodup_map hnodup (hperm.mem_iff.mp hx) hy (Nat.le_antisymm hxy hyx)

end Walk

/-! ## The two orders -/

/-- **The table is right when the map hands out the exports in the order of the output.  Where all
nodes have a line and no two neighbours meet in one, it is right only then.** -/
theorem line_table_right (k : Compiler) (m : ExportMap) (order : List LinedExport)
    (hw : WrittenIn m order) (base final : List UInt8) (laid : List Laid)
    (h : writeInOrder k order base = some (laid, final)) (hlen : final.length < 2 ^ 31) :
    (m.exports = order → Right laid (devLines (walk laid m))) ∧
      ((∀ e ∈ m.exports, e.Lined) → Joinless m.exports → Right laid (devLines (walk laid m)) →
        m.exports = order) := by
  obtain ⟨hexp, -, hapart, hall⟩ := writeInOrder_ok h hlen
  have hrow : Row laid final.length := ⟨fun x hx => (hall x hx).1, hapart⟩
  have hperm := walk_perm hexp hw.perm
  obtain ⟨hwalk, hmem⟩ := walk_exp hexp hw.perm
  constructor
  · intro heq
    rw [walk_eq hexp hw.perm heq]
    exact hrow.right hlen
  · intro hlined hjoinless hright
    have hchain : (walk laid m).IsChain fun x y => x.location ≤ y.location := by
      rw [List.isChain_iff_forall_rel_of_append_cons_cons]
      intro x y pre post hsplit
      rw [hsplit] at hright
      have hok : ∀ z ∈ pre ++ x :: y :: post, z.Ok final.length := fun z hz =>
        (hall z (hmem z (hsplit ▸ hz))).1
      have hlines : ∀ z ∈ pre ++ x :: y :: post, z.exp.Lined := fun z hz =>
        hlined z.exp (hwalk ▸ List.mem_map_of_mem (hsplit ▸ hz))
      rw [← hwalk, hsplit] at hjoinless
      exact neighbours_le hok hlines hjoinless hright.valid
    rw [← hwalk, walk_eq_of_ascending hrow hperm hchain.pairwise, hexp]

/-! ## An autoexec behind a function -/

/-- `main() {}` on line 3. -/
def mainExport : LinedExport := ⟨1, ⟨emptyFunction, 0⟩, [3, 3], none, rfl, rfl⟩

/-- `autoexec init() {}` on line 7. -/
def initExport : LinedExport := ⟨2, ⟨emptyFunction, 0⟩, [7, 7], some 0, rfl, rfl⟩

def mainFirst : ExportMap := ⟨[mainExport, initExport], by decide⟩

def initFirst : ExportMap := ⟨[initExport, mainExport], by decide⟩

theorem written_initFirst (m : ExportMap) (h : m = mainFirst ∨ m = initFirst) :
    WrittenIn m [initExport, mainExport] := by
  refine ⟨[initExport], ?_, List.pairwise_singleton _ _, ?_⟩
  · rcases h with rfl | rfl
    · exact List.Perm.refl _
    · exact List.Perm.refl _
  · rcases h with rfl | rfl
    · rfl
    · rfl

/-- The table of a map, and the size of the output. -/
def tableOf (m : ExportMap) : Option (List Lines × Nat) :=
  (writeInOrder jupA [initExport, mainExport] []).map fun r => (devLines (walk r.1 m), r.2.length)

/-- The interval of `main` ends where `init` starts, which is before it. -/
theorem mainFirst_wrong :
    ¬ ∀ (k : Compiler) (m : ExportMap) (order : List LinedExport), WrittenIn m order →
      ∀ (base final : List UInt8) (laid : List Laid),
      writeInOrder k order base = some (laid, final) → final.length < 2 ^ 31 →
      Right laid (devLines (walk laid m)) := by
  intro h
  have htable : tableOf mainFirst = some ([⟨24, 8, 3⟩, ⟨8, 10, 7⟩], 26) := by decide +kernel
  obtain ⟨⟨laid, final⟩, hrun, htable⟩ := Option.map_eq_some_iff.mp htable
  rw [Prod.mk.injEq] at htable
  have hright := h jupA mainFirst _ (written_initFirst _ (.inl rfl)) [] final laid hrun
    (by rw [htable.2]; decide)
  rw [htable.1] at hright
  exact absurd (hright.valid ⟨24, 8, 3⟩ List.mem_cons_self) (by decide)

theorem initFirst_right :
    ∃ laid final, writeInOrder jupA [initExport, mainExport] [] = some (laid, final) ∧
      Right laid (devLines (walk laid initFirst)) := by
  have htable : tableOf initFirst = some ([⟨8, 24, 7⟩, ⟨24, 26, 3⟩], 26) := by decide +kernel
  obtain ⟨⟨laid, final⟩, hrun, htable⟩ := Option.map_eq_some_iff.mp htable
  rw [Prod.mk.injEq] at htable
  refine ⟨laid, final, hrun, ?_⟩
  exact (line_table_right jupA initFirst _ (written_initFirst _ (.inr rfl)) [] final laid hrun
    (by rw [htable.2]; decide)).1 rfl

end Acts.Gsc.DevLines
