import Acts.Mw19.Stringtable

/-!
# Exporting a linked string table

* `TableOf` — the records of a table; `prepareStringtable_spec` — **the linker's records are such.**
* `Loaded` — the records in the memory of the game; `image` — a memory that holds given records.
* `export_loaded` — **the exporter gives the text of the table, or exceeds its budget.**
-/

set_option autoImplicit false

namespace Acts.Mw19.Stringtable

open Linker
open Payload hiding Data number bytes

/-! ## The records of a table -/

/-- The texts of a table. -/
def RowsOf (a : Json) (table : List (List Data)) : Prop :=
  ∃ items, a.get "rows" = .ok (.array items) ∧ List.Forall₂ RowOf items table

structure TableOf (p : Parts) (table : List (List Data)) (cols : Nat) : Prop where
  width : ∀ ts ∈ table, ts.length = cols
  rows_le : table.length ≤ 65535
  cols_le : cols ≤ 65535
  cells_le : table.length * cols ≤ 65535
  header_le : 20 ≤ p.header.length
  pointers_le : p.indices ≠ [] → 48 ≤ p.header.length
  columns : readLe 4 (p.header.drop 8) = cols
  rows : readLe 4 (p.header.drop 12) = table.length
  unique : readLe 4 (p.header.drop 16) = p.strings.length
  indices : p.indices.length = table.length * cols * 2
  shows : ∀ (i : Nat) ts (k : Nat) t, table[i]? = some ts → ts[k]? = some t →
    Shows table.length i k p.indices p.strings t
  nodup : p.strings.Nodup
  mem : ∀ t, t ∈ p.strings ↔ t ∈ table.flatten
  strings_le : p.strings.length ≤ 65535
  valid : ∀ t ∈ p.strings, (0 : UInt8) ∉ t ∧ t.length ≤ 65535

theorem string_valid {cell : Json} {t : Data} (h : string cell = .ok t) :
    (0 : UInt8) ∉ t ∧ t.length ≤ 65535 := by
  obtain ⟨s, -, h⟩ := ok_of_bind h
  split at h
  · cases h
  · rename_i hvalid
    cases h
    exact ⟨fun h0 => hvalid (.inr h0), by omega⟩

/-- The cells of a row that was linked are texts. -/
theorem linkCells_texts {rows row col : Nat} {s s' : TableState} {cells : List Json}
    (h : linkCells rows row col s cells = .ok s') :
    ∃ ts, List.Forall₂ (fun c t => string c = .ok t) cells ts := by
  induction cells generalizing col s with
  | nil => exact ⟨[], .nil⟩
  | cons cell cells ih =>
    obtain ⟨s₁, hcell, h⟩ := ok_of_bind h
    obtain ⟨t, ht, -⟩ := ok_of_bind hcell
    obtain ⟨ts, hts⟩ := ih h
    exact ⟨t :: ts, .cons ht hts⟩

theorem linkRows_texts {rows cols row : Nat} {s s' : TableState} {items : List Json}
    (h : linkRows rows cols row s items = .ok s') :
    ∃ table, List.Forall₂ RowOf items table ∧ ∀ ts ∈ table, ts.length = cols := by
  induction items generalizing row s with
  | nil => exact ⟨[], .nil, fun ts hts => absurd hts List.not_mem_nil⟩
  | cons item items ih =>
    cases item with
    | array cells =>
      rw [linkRows] at h
      split at h
      · cases h
      · rename_i hcols
        obtain ⟨s₁, hcells, h⟩ := ok_of_bind h
        obtain ⟨ts, hts⟩ := linkCells_texts hcells
        obtain ⟨table, hrows, hwidth⟩ := ih h
        refine ⟨ts :: table, .cons ⟨cells, rfl, hts⟩ hrows, ?_⟩
        intro us hus
        rcases List.mem_cons.mp hus with rfl | hus
        · rw [← hts.length_eq]
          omega
        · exact hwidth us hus
    | null | bool | int | float | string | binary | object => cases h

theorem length_flatten_of_width {table : List (List Data)} {cols : Nat}
    (h : ∀ ts ∈ table, ts.length = cols) : table.flatten.length = table.length * cols := by
  induction table with
  | nil => simp
  | cons ts table ih =>
    rw [List.flatten_cons, List.length_append, ih fun u hu => h u (List.mem_cons_of_mem ts hu),
      h ts List.mem_cons_self, List.length_cons, Nat.add_mul, Nat.one_mul, Nat.add_comm]

theorem forall₂_mem_right {α β : Type} {R : α → β → Prop} {xs : List α} {ys : List β}
    (h : List.Forall₂ R xs ys) {y : β} (hy : y ∈ ys) : ∃ x ∈ xs, R x y := by
  obtain ⟨i, hi, rfl⟩ := List.getElem_of_mem hy
  have hi' : i < xs.length := h.length_eq ▸ hi
  exact ⟨xs[i], List.getElem_mem hi', h.get hi' hi⟩

/-- The texts of a table are strings that the linker accepts. -/
theorem rows_valid {items : List Json} {table : List (List Data)}
    (h : List.Forall₂ RowOf items table) :
    ∀ t ∈ table.flatten, (0 : UInt8) ∉ t ∧ t.length ≤ 65535 := by
  intro t ht
  obtain ⟨ts, hts, ht⟩ := List.mem_flatten.mp ht
  obtain ⟨item, -, cells, -, hcells⟩ := forall₂_mem_right h hts
  obtain ⟨cell, -, hcell⟩ := forall₂_mem_right hcells ht
  exact string_valid hcell

/-- The fields of a header behind the first ones. -/
theorem putAll_pointers {header header' indices : Data}
    (h : putAll header (if indices.isEmpty then []
      else [(24, leBytes 8 follows), (32, leBytes 8 follows), (40, leBytes 8 follows)]) =
        .ok header') :
    header'.length = header.length ∧ (indices ≠ [] → 48 ≤ header'.length) ∧
      ∀ pos, pos + 4 ≤ 24 → readLe 4 (header'.drop pos) = readLe 4 (header.drop pos) := by
  cases indices with
  | nil =>
    cases h
    exact ⟨rfl, fun h => absurd rfl h, fun pos _ => rfl⟩
  | cons b bs =>
    obtain ⟨h₁, hput₁, h⟩ := ok_of_bind h
    obtain ⟨h₂, hput₂, h⟩ := ok_of_bind h
    obtain ⟨h₃, hput₃, h⟩ := ok_of_bind h
    cases h
    have hle := (put_inv hput₃).1
    rw [length_leBytes] at hle
    have hlen := length_put hput₃
    refine ⟨hlen.trans ((length_put hput₂).trans (length_put hput₁)), fun _ => by omega, ?_⟩
    intro pos hpos
    rw [readLe_put_other hput₃ (.inl (by omega)), readLe_put_other hput₂ (.inl (by omega)),
      readLe_put_other hput₁ (.inl (by omega))]

theorem putAll_sizes {header header' : Data} {cols rows unique : Nat} (hcols : cols < 2 ^ 32)
    (hrows : rows < 2 ^ 32) (hunique : unique < 2 ^ 32)
    (h : putAll header [(8, leBytes 4 cols), (12, leBytes 4 rows), (16, leBytes 4 unique)] =
      .ok header') :
    20 ≤ header'.length ∧ header'.length = header.length ∧
      readLe 4 (header'.drop 8) = cols ∧ readLe 4 (header'.drop 12) = rows ∧
      readLe 4 (header'.drop 16) = unique := by
  obtain ⟨h₁, hput₁, h⟩ := ok_of_bind h
  obtain ⟨h₂, hput₂, h⟩ := ok_of_bind h
  obtain ⟨h₃, hput₃, h⟩ := ok_of_bind h
  cases h
  have hle := (put_inv hput₃).1
  rw [length_leBytes] at hle
  have hlen := length_put hput₃
  refine ⟨by omega, hlen.trans ((length_put hput₂).trans (length_put hput₁)), ?_, ?_, ?_⟩
  · rw [readLe_put_other hput₃ (.inl (by omega)), readLe_put_other hput₂ (.inl (by omega)),
      readLe_put hput₁]
    exact Nat.mod_eq_of_lt hcols
  · rw [readLe_put_other hput₃ (.inl (by omega)), readLe_put hput₂]
    exact Nat.mod_eq_of_lt hrows
  · rw [readLe_put hput₃]
    exact Nat.mod_eq_of_lt hunique

theorem interned_empty (indices : Data) : Interned ⟨[], [], indices⟩ :=
  ⟨fun _ _ h => absurd h (Option.some_ne_none _).symm, fun _ h => absurd h List.not_mem_nil,
    List.nodup_nil⟩

/-- The records of `items`, when the table has `cols` columns. -/
theorem linkTable_spec {a : Json} {header : Data} {p : Parts} {items : List Json} {cols : Nat}
    (hget : a.get "rows" = .ok (.array items)) (hrows : items.length ≤ 65535)
    (h : (if cols > 65535 ∨ items.length * cols > 65535 then
        .error "Stringtable exceeds cell budget"
      else do
        let s ← linkRows items.length cols 0
          ⟨[], [], List.replicate (items.length * cols * 2) 0⟩ items
        let hashes ← linkHashes (← a.value "hashes" .null) s.strings
        let header ← putAll header [(8, leBytes 4 cols), (12, leBytes 4 items.length),
          (16, leBytes 4 s.strings.length)]
        let header ← putAll header (if s.indices.isEmpty then []
          else [(24, leBytes 8 follows), (32, leBytes 8 follows), (40, leBytes 8 follows)])
        .ok ⟨header, [], [], s.indices, hashes, s.strings⟩ : Except String Parts) = .ok p) :
    ∃ table, RowsOf a table ∧ TableOf p table cols := by
  split at h
  · cases h
  · rename_i hcells
    obtain ⟨s, hlink, h⟩ := ok_of_bind h
    obtain ⟨supplied, -, h⟩ := ok_of_bind h
    obtain ⟨hashes, -, h⟩ := ok_of_bind h
    obtain ⟨header₁, hsizes, h⟩ := ok_of_bind h
    obtain ⟨header₂, hpointers, h⟩ := ok_of_bind h
    cases h
    obtain ⟨table, htable, hwidth⟩ := linkRows_texts hlink
    have hlen : table.length = items.length := htable.length_eq.symm
    have hflat := length_flatten_of_width hwidth
    rw [← hlen] at hlink hsizes hrows hcells
    have hbudget : ([] : List Data).length + table.flatten.length ≤ 65535 := by
      rw [hflat, List.length_nil]
      omega
    obtain ⟨s', hlink', hgrows, hshows, -⟩ := linkRows_ok htable hwidth
      (interned_empty (List.replicate (table.length * cols * 2) 0)) hbudget (Nat.zero_add _)
      List.length_replicate
    rw [hlink] at hlink'
    cases hlink'
    have hstrings : s.strings.length ≤ table.flatten.length := by
      have h := hgrows.length
      rw [List.length_nil, Nat.zero_add] at h
      exact h
    obtain ⟨hle, -, hc, hr, hu⟩ := putAll_sizes (by omega) (by omega) (by omega) hsizes
    obtain ⟨hlen₂, hlong, hkeep⟩ := putAll_pointers hpointers
    have hmem : ∀ t, t ∈ s.strings ↔ t ∈ table.flatten := by
      intro t
      rw [hgrows.mem]
      simp
    have hle₂ : 20 ≤ header₂.length := by omega
    have hcount : s.strings.length ≤ 65535 := by omega
    refine ⟨table, ⟨items, hget, htable⟩, hwidth, by omega, by omega, by omega, hle₂,
      hlong, ?_, ?_, ?_, hgrows.indices.trans List.length_replicate, ?_, hgrows.interned.nodup,
      hmem, hcount, fun t ht => rows_valid htable t ((hmem t).mp ht)⟩
    · exact (hkeep 8 (by omega)).trans hc
    · exact (hkeep 12 (by omega)).trans hr
    · exact (hkeep 16 (by omega)).trans hu
    · intro i ts k t hi hk
      have h := hshows i ts k t hi hk
      rwa [Nat.zero_add] at h

/-- **The records of a string table.** -/
theorem prepareStringtable_spec {a : Json} {header : Data} {p : Parts}
    (h : prepareStringtable a header = .ok p) :
    ∃ table cols, RowsOf a table ∧ TableOf p table cols := by
  obtain ⟨rowsJson, hget, h⟩ := ok_of_bind h
  cases rowsJson with
  | array items =>
    dsimp only at h
    split at h
    · cases h
    · rename_i hrows
      cases items with
      | nil =>
        obtain ⟨table, htable⟩ := linkTable_spec hget (Nat.le_of_not_lt hrows) h
        exact ⟨table, 0, htable⟩
      | cons row items =>
        obtain ⟨table, htable⟩ := linkTable_spec hget (Nat.le_of_not_lt hrows) h
        exact ⟨table, row.size, htable⟩
  | null | bool | int | float | string | binary | object => cases h

/-! ## The text of a table -/

section Text

variable {maxBytes rows row : Nat} {indices : Data} {strings : List Data}

/-- The cells behind the first one. -/
theorem exportCells_rest {ts : List Data} :
    ∀ {col : Nat} {text : Data}, 0 < col → text.length ≤ maxBytes →
      (∀ k t, ts[k]? = some t → Shows rows row (col + k) indices strings t) →
      exportCells maxBytes rows row indices strings ts.length col text =
        if (text ++ Csv.cells ts).length ≤ maxBytes then .ok (text ++ Csv.cells ts)
        else .error "CSV exceeds output budget" := by
  induction ts with
  | nil =>
    intro col text _ htext _
    have hnil : text ++ Csv.cells [] = text := List.append_nil text
    rw [hnil, if_pos htext]
    rfl
  | cons t ts ih =>
    intro col text hcol htext hshows
    have hcell : Shows rows row col indices strings t := hshows 0 t rfl
    unfold Shows at hcell
    have hcons : text ++ Csv.cells (t :: ts) =
        text ++ [0x2c] ++ Csv.cell t ++ Csv.cells ts := by
      simp [Csv.cells]
    rw [hcons, List.length_cons, exportCells, hcell, if_neg (by omega)]
    dsimp only
    by_cases hle : (text ++ [0x2c] ++ Csv.cell t).length ≤ maxBytes
    · rw [if_neg (by omega)]
      apply ih (by omega) hle
      intro k u hk
      rw [show col + 1 + k = col + (k + 1) by omega]
      exact hshows (k + 1) u hk
    · rw [if_pos (by omega), if_neg]
      intro hlen
      rw [List.length_append] at hlen
      omega

/-- A row that is not empty. -/
theorem exportCells_row {t : Data} {ts : List Data} {text : Data}
    (hshows : ∀ k u, (t :: ts)[k]? = some u → Shows rows row k indices strings u) :
    exportCells maxBytes rows row indices strings (t :: ts).length 0 text =
      if (text ++ (Csv.cell t ++ Csv.cells ts)).length ≤ maxBytes then
        .ok (text ++ (Csv.cell t ++ Csv.cells ts))
      else .error "CSV exceeds output budget" := by
  have hcell : Shows rows row 0 indices strings t := hshows 0 t rfl
  unfold Shows at hcell
  rw [List.length_cons, exportCells, hcell, if_pos rfl, List.append_nil, ← List.append_assoc]
  dsimp only
  by_cases hle : (text ++ Csv.cell t).length ≤ maxBytes
  · rw [if_neg (by omega)]
    apply exportCells_rest Nat.one_pos hle
    intro k u hk
    rw [Nat.add_comm]
    exact hshows (k + 1) u hk
  · rw [if_pos (by omega), if_neg]
    intro hlen
    rw [List.length_append] at hlen
    omega

/-- A table with columns. -/
theorem exportRows_columns {cols : Nat} {table : List (List Data)} (hcols : 0 < cols)
    (hwidth : ∀ ts ∈ table, ts.length = cols) :
    ∀ {row : Nat} {text : Data}, text.length ≤ maxBytes + 1 →
      (∀ i ts k t, table[i]? = some ts → ts[k]? = some t →
        Shows rows (row + i) k indices strings t) →
      exportRows maxBytes rows cols indices strings table.length row text =
        if (text ++ Csv.text table).length ≤ maxBytes + 1 then .ok (text ++ Csv.text table)
        else .error "CSV exceeds output budget" := by
  induction table with
  | nil =>
    intro row text htext _
    have hnil : text ++ Csv.text [] = text := List.append_nil text
    rw [hnil, if_pos htext]
    rfl
  | cons ts table ih =>
    intro row text htext hshows
    have hts := hwidth ts List.mem_cons_self
    cases ts with
    | nil =>
      rw [List.length_nil] at hts
      omega
    | cons t ts =>
      have hcons : text ++ Csv.text ((t :: ts) :: table) =
          text ++ (Csv.cell t ++ Csv.cells ts) ++ [0x0a] ++ Csv.text table := by
        simp [Csv.text, Csv.row]
      have hrow : ∀ k u, (t :: ts)[k]? = some u → Shows rows row k indices strings u :=
        fun k u hk => hshows 0 (t :: ts) k u rfl hk
      rw [hcons, List.length_cons, exportRows, ← hts, exportCells_row hrow, hts]
      by_cases hle : (text ++ (Csv.cell t ++ Csv.cells ts)).length ≤ maxBytes
      · rw [if_pos hle]
        have hline : (text ++ (Csv.cell t ++ Csv.cells ts) ++ [0x0a]).length ≤ maxBytes + 1 := by
          rw [List.length_append]
          exact Nat.add_le_add_right hle 1
        apply ih (fun us hus => hwidth us (List.mem_cons_of_mem _ hus)) hline
        intro i us k u hi hk
        rw [show row + 1 + i = row + (i + 1) by omega]
        exact hshows (i + 1) us k u hi hk
      · rw [if_neg hle, if_neg]
        · rfl
        · intro hlen
          rw [List.length_append, List.length_append, List.length_singleton] at hlen
          omega

/-- A table without columns has empty rows. -/
theorem exportRows_empty {table : List (List Data)} (hwidth : ∀ ts ∈ table, ts.length = 0) :
    ∀ {row : Nat} {text : Data},
      exportRows maxBytes rows 0 indices strings table.length row text =
        .ok (text ++ Csv.text table) := by
  induction table with
  | nil =>
    intro row text
    exact congrArg Except.ok (List.append_nil text).symm
  | cons ts table ih =>
    intro row text
    have hts : ts = [] := List.eq_nil_of_length_eq_zero (hwidth ts List.mem_cons_self)
    subst hts
    have hcons : text ++ Csv.text ([] :: table) = text ++ [0x0a] ++ Csv.text table := by
      simp [Csv.text, Csv.row]
    rw [hcons]
    exact ih fun us hus => hwidth us (List.mem_cons_of_mem _ hus)

end Text

/-! ## The table in memory -/

/-- The pointer in a field leads to `data`; it matters only where there is any. -/
def PointsTo (read : MemoryReader) (field : Nat) (data : Data) : Prop :=
  ∃ address, address + data.length ≤ uint64Max ∧ read field 8 = some (leBytes 8 address) ∧
    (data ≠ [] → address ≠ 0 ∧ read address data.length = some data)

/-- The records of a table in the memory of the game: its header, with pointers to its indices and
to pointers to its strings. -/
structure Loaded (read : MemoryReader) (address : Nat) (p : Parts) : Prop where
  address_ne : address ≠ 0
  address_le : address ≤ uint64Max - 48
  header : ∀ pos, pos + 4 ≤ 20 → read (address + pos) 4 = some ((p.header.drop pos).take 4)
  indices : PointsTo read (address + 24) p.indices
  strings : ∃ ptrs, List.Forall₂ (StringAt read) ptrs p.strings ∧
    PointsTo read (address + 40) (ptrs.flatMap (leBytes 8))

theorem run_field {read : MemoryReader} {address pos remaining v : Nat} {p : Parts}
    (h : Loaded read address p) (hpos : pos + 4 ≤ 20) (hheader : 20 ≤ p.header.length)
    (hv : readLe 4 (p.header.drop pos) = v) (hr : 4 ≤ remaining) :
    Payload.number read 4 (address + pos) remaining = .ok (v, remaining - 4) := by
  have hne := h.address_ne
  have hle := h.address_le
  have hlen : ((p.header.drop pos).take 4).length = 4 := by
    rw [List.length_take, List.length_drop]
    omega
  refine run_number hlen ?_ (by omega) hr (by unfold uint64Max at hle ⊢; omega) (by omega)
    (h.header pos hpos)
  rw [readLe_take, hv]

theorem run_pointer {read : MemoryReader} {field remaining : Nat} {data : Data}
    (h : PointsTo read field data) (hne : field ≠ 0) (hle : field ≤ uint64Max - 8)
    (hr : 8 + data.length ≤ remaining) :
    ∃ address, Payload.number read 8 field remaining = .ok (address, remaining - 8) ∧
      Payload.bytes read address data.length (remaining - 8) =
        .ok (data, remaining - 8 - data.length) := by
  obtain ⟨address, hend, hfield, hdata⟩ := h
  have hnum : Payload.number read 8 field remaining = .ok (address, remaining - 8) := by
    refine run_number (length_leBytes 8 address) ?_ (by omega) (by omega)
      (by unfold uint64Max at hle ⊢; omega) hne hfield
    have hread := readLe_leBytes 8 address []
    rw [List.append_nil] at hread
    rw [hread]
    apply Nat.mod_eq_of_lt
    unfold uint64Max at hend
    omega
  exact ⟨address, hnum, run_bytes (by omega) (by omega) hdata⟩

theorem length_flatMap_pointers (ptrs : List Nat) :
    (ptrs.flatMap (leBytes 8)).length = ptrs.length * 8 := by
  induction ptrs with
  | nil => rfl
  | cons ptr ptrs ih =>
    rw [List.flatMap_cons, List.length_append, length_leBytes, ih, List.length_cons]
    omega

/-- What the exporter reads of a table. -/
def readCost (p : Parts) : Nat := 28 + p.indices.length + p.strings.length * 8 + cost p.strings

theorem readTable_ok {read : MemoryReader} {address maxBytes cols : Nat} {p : Parts}
    {table : List (List Data)} (ht : TableOf p table cols) (h : Loaded read address p)
    (hcost : readCost p ≤ maxBytes) (hmax : 2 ^ 20 ≤ maxBytes) :
    ∃ r, readTable read address maxBytes maxBytes =
      .ok (⟨cols, table.length, p.indices, p.strings⟩, r) := by
  have hne := h.address_ne
  have hle := h.address_le
  have hcells := ht.cells_le
  have hcols := ht.cols_le
  have hrows := ht.rows_le
  have hstrings := ht.strings_le
  obtain ⟨ptrs, hptrs, hpointers⟩ := h.strings
  have hlen : (ptrs.flatMap (leBytes 8)).length = p.strings.length * 8 := by
    rw [length_flatMap_pointers, hptrs.length_eq]
  have hindices := ht.indices
  unfold readCost at hcost
  have hc : Payload.number read 4 (address + 8) maxBytes = .ok (cols, maxBytes - 4) :=
    run_field h (by omega) ht.header_le ht.columns (by omega)
  have hr : Payload.number read 4 (address + 12) (maxBytes - 4) =
      .ok (table.length, maxBytes - 4 - 4) :=
    run_field h (by omega) ht.header_le ht.rows (by omega)
  have hu : Payload.number read 4 (address + 16) (maxBytes - 4 - 4) =
      .ok (p.strings.length, maxBytes - 4 - 4 - 4) :=
    run_field h (by omega) ht.header_le ht.unique (by omega)
  have hdims : ¬(cols ≠ 0 ∧ table.length > maxBytes / 2 / cols) := by
    rintro ⟨hpos, hgt⟩
    have hdiv : table.length ≤ maxBytes / 2 / cols :=
      (Nat.le_div_iff_mul_le (Nat.pos_of_ne_zero hpos)).mpr (by omega)
    omega
  obtain ⟨at₁, hi₁, hi⟩ := run_pointer h.indices (by omega) (by unfold uint64Max at hle ⊢; omega)
    (by omega : 8 + p.indices.length ≤ maxBytes - 4 - 4 - 4)
  rw [hindices] at hi
  obtain ⟨at₂, hp₁, hp⟩ := run_pointer hpointers (by omega) (by unfold uint64Max at hle ⊢; omega)
    (by omega : 8 + (ptrs.flatMap (leBytes 8)).length ≤
      maxBytes - 4 - 4 - 4 - 8 - table.length * cols * 2)
  rw [hlen] at hp
  have hs := run_readStrings hptrs
    (fun s hs => ⟨(ht.valid s hs).1, Nat.lt_succ_of_le (ht.valid s hs).2⟩)
    (maxBytes - 4 - 4 - 4 - 8 - table.length * cols * 2 - 8 - p.strings.length * 8) (by omega)
  unfold readTable
  rw [run_bind hc, run_bind (run_count (by omega) (by omega)), run_bind hr,
    run_bind (run_count (by omega) (by omega)), run_bind hu,
    run_bind (run_count (by omega) (by omega)), if_neg hdims, run_bind hi₁, run_bind hi,
    if_neg (by omega), run_bind hp₁, run_bind hp, run_bind hs]
  exact ⟨_, rfl⟩

/-- **The exporter** gives the text of the table, or exceeds its budget. -/
theorem export_loaded {read : MemoryReader} {address maxBytes cols : Nat} {p : Parts}
    {table : List (List Data)} (ht : TableOf p table cols) (h : Loaded read address p)
    (hcost : readCost p ≤ maxBytes) (hmax : 2 ^ 20 ≤ maxBytes) :
    exportStringtable read address maxBytes =
      if (Csv.text table).length ≤ maxBytes + 1 then .ok (Csv.text table)
      else .error "CSV exceeds output budget" := by
  obtain ⟨r, hread⟩ := readTable_ok ht h hcost hmax
  have haddress : ¬(address = 0 ∨ address > uint64Max - 48) := by
    rintro (h0 | hgt)
    · exact h.address_ne h0
    · exact absurd h.address_le (Nat.not_le_of_gt hgt)
  unfold exportStringtable
  rw [if_neg haddress, hread]
  show exportRows maxBytes table.length cols p.indices p.strings table.length 0 [] = _
  rcases Nat.eq_zero_or_pos cols with rfl | hcols
  · have hlen := Csv.length_text_empty ht.width
    have hrows := ht.rows_le
    rw [exportRows_empty ht.width, List.nil_append, if_pos (by omega)]
  · have hshows : ∀ i ts k t, table[i]? = some ts → ts[k]? = some t →
        Shows table.length (0 + i) k p.indices p.strings t := by
      intro i ts k t hi hk
      rw [Nat.zero_add]
      exact ht.shows i ts k t hi hk
    rw [exportRows_columns hcols ht.width (Nat.zero_le _) hshows, List.nil_append]

end Acts.Mw19.Stringtable
