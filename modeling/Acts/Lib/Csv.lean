import Mathlib.Algebra.Group.Int.Defs
import Mathlib.Algebra.Group.Nat.Defs
import Mathlib.Algebra.GroupWithZero.Nat
import Mathlib.Tactic.Common

/-!
# Quoted CSV

A table of cells, each written between quotes:

* `Csv.cell`, `Csv.text` — quotes inside a cell are doubled, cells end in commas and rows in line
  feeds.
* `Csv.step`, `Csv.read` — a machine that reads one byte after another.
* `Csv.read_text` — **reading a written table gives the table.**
-/

set_option autoImplicit false

namespace Acts.Csv

abbrev Cell := List UInt8

/-! ## Writing -/

/-- A cell with its quotes doubled. -/
def escape (s : Cell) : List UInt8 := s.flatMap fun c => if c = 0x22 then [0x22, 0x22] else [c]

def cell (s : Cell) : List UInt8 := 0x22 :: escape s ++ [0x22]

/-- The cells of a row behind its first one, each behind a comma. -/
def cells (ss : List Cell) : List UInt8 := ss.flatMap fun s => 0x2c :: cell s

def row : List Cell → List UInt8
  | [] => [0x0a]
  | s :: ss => cell s ++ cells ss ++ [0x0a]

def text (rows : List (List Cell)) : List UInt8 := rows.flatMap row

/-! ## Reading -/

/-- Where a reader is: at the start of a row, behind a comma, inside of a cell, or behind a quote
that ends a cell or is the first of two. -/
inductive Mode where
  | rowStart
  | cellStart
  | inside (s : Cell)
  | quote (s : Cell)

/-- The finished rows and cells. -/
structure State where
  rows : List (List Cell)
  cells : List Cell
  mode : Mode

def step (st : State) (c : UInt8) : Option State :=
  match st.mode with
  | .rowStart =>
    if c = 0x22 then some { st with mode := .inside [] }
    else if c = 0x0a then some { st with rows := st.rows ++ [[]] }
    else none
  | .cellStart => if c = 0x22 then some { st with mode := .inside [] } else none
  | .inside s =>
    some { st with mode := if c = 0x22 then .quote s else .inside (s ++ [c]) }
  | .quote s =>
    if c = 0x22 then some { st with mode := .inside (s ++ [c]) }
    else if c = 0x2c then some { st with cells := st.cells ++ [s], mode := .cellStart }
    else if c = 0x0a then some ⟨st.rows ++ [st.cells ++ [s]], [], .rowStart⟩
    else none

/-- The rows of a text that ends with a row. -/
def read (data : List UInt8) : Option (List (List Cell)) := do
  match ← data.foldlM step ⟨[], [], .rowStart⟩ with
  | ⟨rows, _, .rowStart⟩ => some rows
  | _ => none

/-! ## Reading what was written -/

theorem read_escape (rows : List (List Cell)) (cs : List Cell) (s t : Cell) :
    (escape s).foldlM step ⟨rows, cs, .inside t⟩ = some ⟨rows, cs, .inside (t ++ s)⟩ := by
  induction s generalizing t with
  | nil => simp [escape]
  | cons c s ih =>
    have hcons : escape (c :: s) = (if c = 0x22 then [0x22, 0x22] else [c]) ++ escape s := rfl
    have hc : (if c = 0x22 then [0x22, 0x22] else [c]).foldlM step ⟨rows, cs, .inside t⟩ =
        some ⟨rows, cs, .inside (t ++ [c])⟩ := by
      by_cases hq : c = 0x22
      · subst hq
        simp [step]
      · simp [step, hq]
    rw [hcons, List.foldlM_append, hc]
    show (escape s).foldlM step _ = _
    rw [ih, List.append_assoc, List.singleton_append]

/-- A cell is read up to its closing quote. -/
theorem read_cell (st : State) (s : Cell) (hm : st.mode = .rowStart ∨ st.mode = .cellStart) :
    (cell s).foldlM step st = some ⟨st.rows, st.cells, .quote s⟩ := by
  have hopen : step st 0x22 = some ⟨st.rows, st.cells, .inside []⟩ := by
    unfold step
    rcases hm with hm | hm <;> rw [hm] <;> rfl
  have hclose : step ⟨st.rows, st.cells, .inside s⟩ 0x22 =
      some ⟨st.rows, st.cells, .quote s⟩ := rfl
  unfold cell
  rw [List.cons_append, List.foldlM_cons, hopen]
  show (escape s ++ [0x22]).foldlM step _ = _
  rw [List.foldlM_append, read_escape]
  show ([0x22] : List UInt8).foldlM step ⟨st.rows, st.cells, .inside s⟩ = _
  rw [List.foldlM_cons, hclose]
  rfl

theorem read_cells (rows : List (List Cell)) (cs ss : List Cell) (s : Cell) :
    (cells ss ++ [0x0a]).foldlM step ⟨rows, cs, .quote s⟩ =
      some ⟨rows ++ [cs ++ s :: ss], [], .rowStart⟩ := by
  induction ss generalizing cs s with
  | nil => rfl
  | cons s' ss ih =>
    have hcons : cells (s' :: ss) ++ [0x0a] = 0x2c :: (cell s' ++ (cells ss ++ [0x0a])) := by
      simp [cells]
    have hcomma : step ⟨rows, cs, .quote s⟩ 0x2c = some ⟨rows, cs ++ [s], .cellStart⟩ := rfl
    rw [hcons, List.foldlM_cons, hcomma, Option.bind_eq_bind, Option.bind_some,
      List.foldlM_append, read_cell _ _ (.inr rfl), Option.bind_eq_bind, Option.bind_some, ih,
      List.append_assoc, List.singleton_append]

theorem read_row (rows : List (List Cell)) (r : List Cell) :
    (row r).foldlM step ⟨rows, [], .rowStart⟩ = some ⟨rows ++ [r], [], .rowStart⟩ := by
  cases r with
  | nil => rfl
  | cons s ss =>
    rw [row, List.append_assoc, List.foldlM_append, read_cell _ _ (.inl rfl)]
    exact read_cells rows [] ss s

theorem read_rows (rows more : List (List Cell)) :
    (text more).foldlM step ⟨rows, [], .rowStart⟩ = some ⟨rows ++ more, [], .rowStart⟩ := by
  induction more generalizing rows with
  | nil =>
    rw [List.append_nil]
    rfl
  | cons r more ih =>
    have hcons : text (r :: more) = row r ++ text more := rfl
    rw [hcons, List.foldlM_append, read_row]
    show (text more).foldlM step _ = _
    rw [ih, List.append_assoc, List.singleton_append]

/-- **Reading a written table gives the table.** -/
theorem read_text (rows : List (List Cell)) : read (text rows) = some rows := by
  unfold read
  rw [read_rows]
  rfl

theorem length_cell_le (s : Cell) : s.length + 2 ≤ (cell s).length := by
  have hescape : s.length ≤ (escape s).length := by
    induction s with
    | nil => exact Nat.zero_le _
    | cons c s ih =>
      have hcons : escape (c :: s) = (if c = 0x22 then [0x22, 0x22] else [c]) ++ escape s := rfl
      rw [hcons, List.length_append, List.length_cons]
      split
      · simp only [List.length_cons, List.length_nil]
        omega
      · simp only [List.length_cons, List.length_nil]
        omega
  unfold cell
  rw [List.length_append, List.length_cons]
  simp only [List.length_cons, List.length_nil]
  omega

theorem length_text_empty {rows : List (List Cell)} (h : ∀ r ∈ rows, r.length = 0) :
    (text rows).length = rows.length := by
  induction rows with
  | nil => rfl
  | cons r rows ih =>
    have hr : r = [] := List.eq_nil_of_length_eq_zero (h r List.mem_cons_self)
    have hrows := ih fun r' hr' => h r' (List.mem_cons_of_mem r hr')
    subst hr
    show ([0x0a] ++ text rows).length = _
    rw [List.length_append, hrows, List.length_cons, List.length_cons, List.length_nil,
      Nat.add_comm]

end Acts.Csv
