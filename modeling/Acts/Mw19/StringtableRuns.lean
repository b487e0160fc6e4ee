import Acts.Mw19.StringtableExport

/-!
# String tables, there and back

* `image` — a memory that holds given records.
* `stringtable_exported` — **what the exporter makes of a table that the linker built.**
* `bigAsset` — a table whose text is larger than the exporter's budget.
-/

set_option autoImplicit false

namespace Acts.Mw19.Stringtable

open Linker
open Payload hiding Data number bytes

/-! ## A memory with a table -/

/-- The header of a table, with its pointers. -/
def loadedHeader (p : Parts) : Data :=
  (p.header ++ List.replicate 24 0).take 24 ++ leBytes 8 (2 ^ 20) ++ leBytes 8 (2 ^ 23) ++
    leBytes 8 (2 ^ 24)

def stringAddress (i : Nat) : Nat := 2 ^ 32 + i * 2 ^ 17

/-- A range of a region that starts at `base`. -/
def region (base : Nat) (data : Data) (address length : Nat) : Option Data :=
  if base ≤ address ∧ address + length ≤ base + data.length then
    some ((data.drop (address - base)).take length)
  else none

/-- A memory with the records of a table. -/
def image (p : Parts) : MemoryReader := fun address length =>
  if address < 2 ^ 20 then region (2 ^ 12) (loadedHeader p) address length
  else if address < 2 ^ 24 then region (2 ^ 20) p.indices address length
  else if address < 2 ^ 32 then
    region (2 ^ 24) (((List.range p.strings.length).map stringAddress).flatMap (leBytes 8)) address
      length
  else
    let i := (address - 2 ^ 32) / 2 ^ 17
    region (stringAddress i) (p.strings.getD i [] ++ [0]) address length

theorem region_all (base : Nat) (data : Data) :
    region base data base data.length = some data := by
  unfold region
  rw [if_pos ⟨Nat.le_refl _, Nat.le_refl _⟩, Nat.sub_self, List.drop_zero, List.take_length]

theorem region_part {base pos length : Nat} {data : Data} (h : pos + length ≤ data.length) :
    region base data (base + pos) length = some ((data.drop pos).take length) := by
  unfold region
  rw [if_pos ⟨Nat.le_add_right _ _, by omega⟩, Nat.add_sub_cancel_left]

theorem image_string {p : Parts} {i : Nat} {s : Data} (hs : p.strings[i]? = some s)
    (hi : i < 2 ^ 16) (hlen : s.length ≤ 65535) :
    StringAt (image p) (stringAddress i) s := by
  have hread : ∀ k, k ≤ s.length →
      image p (stringAddress i + k) 1 = some (((s ++ [0]).drop k).take 1) := by
    intro k hk
    have hdiv : (stringAddress i + k - 2 ^ 32) / 2 ^ 17 = i := by
      unfold stringAddress
      omega
    have hget : p.strings.getD i [] = s := by
      rw [List.getD_eq_getElem?_getD, hs]
      rfl
    unfold image
    rw [if_neg (by unfold stringAddress; omega), if_neg (by unfold stringAddress; omega),
      if_neg (by unfold stringAddress; omega)]
    dsimp only
    rw [hdiv, hget]
    apply region_part
    rw [List.length_append, List.length_singleton]
    omega
  refine ⟨by unfold stringAddress; omega, by unfold stringAddress uint64Max; omega, ?_, ?_⟩
  · intro k hk
    rw [hread k (by omega), List.drop_append_of_le_length (by omega),
      List.take_append_of_le_length (by rw [List.length_drop]; omega)]
  · rw [hread s.length (Nat.le_refl _), List.drop_left]
    rfl

/-- A memory with the records of a table exists. -/
theorem image_loaded {p : Parts} {table : List (List Data)} {cols : Nat}
    (ht : TableOf p table cols) : Loaded (image p) (2 ^ 12) p := by
  have hheader := ht.header_le
  have hcells := ht.cells_le
  have hindices := ht.indices
  have hstrings := ht.strings_le
  have htake : ((p.header ++ List.replicate 24 0).take 24).length = 24 := by
    rw [List.length_take, List.length_append, List.length_replicate]
    omega
  have hlen : (loadedHeader p).length = 48 := by
    unfold loadedHeader
    simp only [List.length_append, htake, length_leBytes]
  have hfield : ∀ pos n, pos + n ≤ 48 →
      image p (2 ^ 12 + pos) n = some (((loadedHeader p).drop pos).take n) := by
    intro pos n hpos
    unfold image
    rw [if_pos (by omega)]
    exact region_part (by omega)
  refine ⟨by decide, by decide, ?_, ?_, ?_⟩
  · intro pos hpos
    rw [hfield pos 4 (by omega)]
    unfold loadedHeader
    rw [List.append_assoc, List.append_assoc, List.drop_append_of_le_length (by omega),
      List.take_append_of_le_length (by rw [List.length_drop]; omega), List.drop_take,
      List.take_take, Nat.min_eq_left (by omega), List.drop_append_of_le_length (by omega),
      List.take_append_of_le_length (by rw [List.length_drop]; omega)]
  · refine ⟨2 ^ 20, by unfold uint64Max; omega, ?_, ?_⟩
    · rw [hfield 24 8 (by omega)]
      unfold loadedHeader
      rw [List.append_assoc, List.append_assoc, List.drop_left' htake,
        List.take_left' (length_leBytes 8 _)]
    · intro _
      refine ⟨by decide, ?_⟩
      unfold image
      rw [if_neg (by omega), if_pos (by omega)]
      exact region_all _ _
  · refine ⟨(List.range p.strings.length).map stringAddress, ?_, 2 ^ 24, ?_, ?_, ?_⟩
    · refine List.forall₂_iff_get.mpr ⟨by rw [List.length_map, List.length_range], ?_⟩
      intro i h₁ h₂
      have hvalid := ht.valid p.strings[i] (List.getElem_mem h₂)
      have hget : ((List.range p.strings.length).map stringAddress).get ⟨i, h₁⟩ =
          stringAddress i := by
        simp
      rw [hget]
      exact image_string (List.getElem?_eq_getElem h₂) (by omega) hvalid.2
    · rw [length_flatMap_pointers, List.length_map, List.length_range]
      unfold uint64Max
      omega
    · rw [hfield 40 8 (by omega)]
      have hfront : ((p.header ++ List.replicate 24 0).take 24 ++ leBytes 8 (2 ^ 20) ++
          leBytes 8 (2 ^ 23)).length = 40 := by
        simp only [List.length_append, htake, length_leBytes]
      unfold loadedHeader
      rw [List.drop_left' hfront, List.take_of_length_le (Nat.le_of_eq (length_leBytes 8 _))]
    · intro _
      refine ⟨by decide, ?_⟩
      unfold image
      rw [if_neg (by omega), if_neg (by omega), if_pos (by omega)]
      exact region_all _ _

/-! ## Linked tables -/

/-- What is written for an asset is a part of the body, behind the list. -/
theorem length_asset_le {assets : List Asset} {parts : List Parts} {body : Data} {a : Asset}
    {p : Parts} (hbody : body = [] ++ (linkOps assets parts).flatMap Op.bytes)
    (hap : (a, p) ∈ assets.zip parts) :
    32 + ((assetOps a p).flatMap Op.bytes).length ≤ body.length := by
  have hsub : ((assetOps a p).flatMap Op.bytes).length ≤
      (((assets.zip parts).flatMap fun ap => assetOps ap.1 ap.2).flatMap Op.bytes).length := by
    rw [List.flatMap_assoc]
    apply List.Sublist.length_le
    apply List.sublist_flatten_of_mem
    exact List.mem_map.mpr ⟨(a, p), hap, rfl⟩
  have hroot := length_rootOps assets
  rw [hbody, List.nil_append, linkOps, List.flatMap_append, List.length_append]
  omega

/-- What is written for a table is no less than what the exporter reads of it. -/
theorem readCost_le {asset : Asset} (p : Parts) (htype : asset.type = .stringtable) :
    readCost p ≤ 28 + ((assetOps asset p).flatMap Op.bytes).length := by
  have htexts : ∀ ss : List Data, ((ss.map (Op.text 5)).flatMap Op.bytes).length = cost ss := by
    intro ss
    induction ss with
    | nil => rfl
    | cons s ss ih =>
      have hcost : cost (s :: ss) = s.length + 1 + cost ss := rfl
      rw [List.map_cons, List.flatMap_cons, List.length_append, ih, hcost]
      show (s ++ [0]).length + cost ss = _
      rw [List.length_append]
      rfl
  have hptrs : ∀ ss : List Data, (ss.flatMap fun _ => leBytes 8 follows).length = ss.length * 8 := by
    intro ss
    induction ss with
    | nil => rfl
    | cons s ss ih =>
      rw [List.flatMap_cons, List.length_append, length_leBytes, ih, List.length_cons]
      omega
  have hindices : p.indices.length ≤ (((if p.indices.isEmpty then [] else
      [Op.align 5 2, .write 5 p.indices, .align 5 4, .write 5 p.hashes]) : List Op).flatMap
        Op.bytes).length := by
    cases hi : p.indices with
    | nil => exact Nat.zero_le _
    | cons b bs =>
      simp only [List.isEmpty_cons, Bool.false_eq_true, if_false, List.flatMap_cons, Op.bytes,
        List.length_append, List.length_nil]
      omega
  have hstrings : p.strings.length * 8 + cost p.strings ≤ (((if p.strings.isEmpty then [] else
      [Op.align 5 8, .write 5 (p.strings.flatMap fun _ => leBytes 8 follows)] ++
        p.strings.map (.text 5)) : List Op).flatMap Op.bytes).length := by
    cases hs : p.strings with
    | nil => exact Nat.le_refl 0
    | cons s ss =>
      have hwrite := hptrs (s :: ss)
      have htext := htexts (s :: ss)
      rw [List.isEmpty_cons, if_neg Bool.false_ne_true, List.flatMap_append, List.length_append,
        htext]
      simp only [List.flatMap_cons, List.flatMap_nil, Op.bytes, List.length_append,
        List.length_nil] at hwrite ⊢
      omega
  unfold readCost assetOps
  rw [htype]
  dsimp only
  rw [List.flatMap_append, List.length_append, List.flatMap_append, List.length_append]
  omega

theorem prepare_table {deflate : Data → Except String Data} {limit : Nat} {asset : Asset}
    {p : Parts} (htype : asset.type = .stringtable) (h : prepare deflate limit asset = .ok p) :
    ∃ table cols, RowsOf asset.json table ∧ TableOf p table cols := by
  obtain ⟨header, -, h⟩ := ok_of_bind h
  rw [htype] at h
  exact prepareStringtable_spec h

/-- **Linked string tables**: each cell selects its own text in a dictionary without repetitions;
the exporter gives the text of the table, which reads as the same rows and columns, whenever the
text up to its last cell is within the budget, and reports an error otherwise. -/
theorem stringtable_exported {deflate : Data → Except String Data} {profile : Profile}
    {items : List Json} {limit : Nat} {zone : Zone} {ranges : List AssetRange}
    (h : link deflate profile (.array items) limit = .ok (zone, ranges)) :
    ∃ assets parts, checkAssets profile [] items = .ok assets ∧
      List.Forall₂ (fun a p => prepare deflate limit a = .ok p) assets parts ∧
      List.Forall₂ (fun r ap => AssetRange.Of r ap zone.body) ranges (assets.zip parts) ∧
      ∀ a p, (a, p) ∈ assets.zip parts → a.type = .stringtable →
        ∃ table, RowsOf a.json table ∧ p.strings.Nodup ∧
          (∀ (i : Nat) ts (k : Nat) t, table[i]? = some ts → ts[k]? = some t →
            Shows table.length i k p.indices p.strings t) ∧
          Csv.read (Csv.text table) = some table ∧
          ∀ read address, Loaded read address p →
            exportStringtable read address defaultMaxBytes =
              if (Csv.text table).length ≤ defaultMaxBytes + 1 then .ok (Csv.text table)
              else .error "CSV exceeds output budget" := by
  obtain ⟨assets, parts, w, hlimit, hassets, hparts, hrun, rfl, -, hranges⟩ := link_run h
  obtain ⟨hlimit', hbody, -, hwithin⟩ := Writer.run_grows (valid_linkOps assets parts) hrun
  have hw := (hwithin ⟨Nat.zero_le _, fun b => Nat.zero_le _⟩).body
  refine ⟨assets, parts, hassets, hparts, hranges, ?_⟩
  intro a p hap htype
  have hprepare : prepare deflate limit a = .ok p := by
    obtain ⟨i, hi, hget⟩ := List.getElem_of_mem hap
    rw [List.getElem_zip] at hget
    cases hget
    rw [List.length_zip] at hi
    exact hparts.get (by omega) (by omega)
  obtain ⟨table, cols, hrows, ht⟩ := prepare_table htype hprepare
  have hbytes := length_asset_le hbody hap
  have hcost := readCost_le p htype
  refine ⟨table, hrows, ht.nodup, ht.shows, Csv.read_text table, ?_⟩
  intro read address hloaded
  have hmax : w.limit ≤ defaultMaxBytes := by
    rw [hlimit']
    exact hlimit
  exact export_loaded ht hloaded (by omega) (by decide)

/-! ## Two by two -/

def tableProfile : Profile := ⟨"replay-1.20", [⟨ascii "stringtable", 50, 48⟩]⟩

def tableAsset (rows : List Json) : Json :=
  .object [("pool", .string (ascii "stringtable")), ("name", .string (ascii "t")),
    ("rows", .array rows)]

def linkedAsset (rows : List Json) : Asset :=
  ⟨tableAsset rows, ⟨ascii "stringtable", 50, 48⟩, .stringtable, ascii "t"⟩

theorem checkAssets_tableAsset (rows : List Json) :
    checkAssets tableProfile [] [tableAsset rows] = .ok [linkedAsset rows] := rfl

def swapRows : List Json :=
  [.array [.string (ascii "a"), .string (ascii "b")],
    .array [.string (ascii "b"), .string (ascii "a")]]

theorem swapRows_exported :
    ∃ zone ranges p table,
      link .ok tableProfile (.array [tableAsset swapRows]) 4096 = .ok (zone, ranges) ∧
        prepare .ok 4096 (linkedAsset swapRows) = .ok p ∧ RowsOf (tableAsset swapRows) table ∧
        exportStringtable (image p) (2 ^ 12) defaultMaxBytes =
          if (Csv.text table).length ≤ defaultMaxBytes + 1 then .ok (Csv.text table)
          else .error "CSV exceeds output budget" := by
  have hrun : (link .ok tableProfile (.array [tableAsset swapRows]) 4096).toOption.isSome =
      true := by
    decide +kernel
  obtain ⟨⟨zone, ranges⟩, hlink⟩ := Option.isSome_iff_exists.mp hrun
  obtain ⟨assets, parts, hassets, hparts, -, hall⟩ := stringtable_exported (ok_of_toOption hlink)
  rw [checkAssets_tableAsset] at hassets
  cases hassets
  cases hparts with
  | cons hp hnil =>
    cases hnil
    obtain ⟨table, hrows, -, -, -, hexport⟩ := hall _ _ List.mem_cons_self rfl
    obtain ⟨table', cols, -, ht⟩ := prepare_table rfl hp
    exact ⟨zone, ranges, _, table, ok_of_toOption hlink, hp, hrows, hexport _ _ (image_loaded ht)⟩

/-! ## A text beyond the budget -/

theorem putAll_ok {header : Data} {fields : List (Nat × Data)}
    (h : ∀ f ∈ fields, f.1 + f.2.length ≤ header.length) :
    ∃ header', putAll header fields = .ok header' ∧ header'.length = header.length := by
  induction fields generalizing header with
  | nil => exact ⟨header, rfl, rfl⟩
  | cons f fields ih =>
    obtain ⟨header₁, hput⟩ : ∃ header₁, put header f.1 f.2 = .ok header₁ :=
      ⟨_, put_ok (h f List.mem_cons_self)⟩
    have hlen := length_put hput
    have hfields : ∀ g ∈ fields, g.1 + g.2.length ≤ header₁.length := by
      intro g hg
      rw [hlen]
      exact h g (List.mem_cons_of_mem f hg)
    obtain ⟨header', hall, hlen'⟩ := ih hfields
    refine ⟨header', ?_, hlen'.trans hlen⟩
    rw [putAll, hput]
    exact hall

theorem length_flatMap_words {α : Type} (w : Nat) (f : α → Nat) (xs : List α) :
    (xs.flatMap fun x => leBytes w (f x)).length = xs.length * w := by
  induction xs with
  | nil => exact (Nat.zero_mul w).symm
  | cons x xs ih =>
    rw [List.flatMap_cons, List.length_append, length_leBytes, ih, List.length_cons, Nat.add_mul]
    omega

/-- The linker accepts a table of texts within its budget of cells. -/
theorem prepareStringtable_ok {rows : List Json} {row : Json} {header : Data}
    {table : List (List Data)} (htable : List.Forall₂ RowOf (row :: rows) table)
    (hwidth : ∀ ts ∈ table, ts.length = row.size) (hrows : (row :: rows).length ≤ 65535)
    (hcells : (row :: rows).length * row.size ≤ 65535) (hheader : 48 ≤ header.length) :
    ∃ p, prepareStringtable (tableAsset (row :: rows)) header = .ok p ∧
      p.header.length = header.length ∧ p.hashes.length = p.strings.length * 4 := by
  have hlen : table.length = (row :: rows).length := htable.length_eq.symm
  have hflat := length_flatten_of_width hwidth
  have hcols : row.size ≤ 65535 := by
    rw [List.length_cons, Nat.add_mul] at hcells
    omega
  rw [← hlen] at hcells
  have hbudget : ([] : List Data).length + table.flatten.length ≤ 65535 := by
    rw [hflat, List.length_nil]
    omega
  obtain ⟨s, hlink, -⟩ := linkRows_ok htable hwidth
    (interned_empty (List.replicate (table.length * row.size * 2) 0)) hbudget (Nat.zero_add _)
    List.length_replicate
  have hfields : ∀ f ∈ [(8, leBytes 4 row.size), (12, leBytes 4 table.length),
      (16, leBytes 4 s.strings.length)], f.1 + f.2.length ≤ header.length := by
    intro f hf
    simp only [List.mem_cons, List.not_mem_nil, or_false] at hf
    rcases hf with rfl | rfl | rfl
    all_goals
      rw [length_leBytes]
      omega
  obtain ⟨header₁, hsizes, hlen₁⟩ := putAll_ok hfields
  have hfields₁ : ∀ f ∈ (if s.indices.isEmpty then []
      else [(24, leBytes 8 follows), (32, leBytes 8 follows), (40, leBytes 8 follows)]),
      f.1 + f.2.length ≤ header₁.length := by
    intro f hf
    split at hf
    · cases hf
    · simp only [List.mem_cons, List.not_mem_nil, or_false] at hf
      rcases hf with rfl | rfl | rfl
      all_goals
        rw [length_leBytes]
        omega
  obtain ⟨header₂, hpointers, hlen₂⟩ := putAll_ok hfields₁
  have hget : (tableAsset (row :: rows)).get "rows" = .ok (.array (row :: rows)) := rfl
  have hvalue : (tableAsset (row :: rows)).value "hashes" .null = .ok .null := rfl
  refine ⟨⟨header₂, [], [], s.indices, s.strings.flatMap fun t => leBytes 4 (cellHash t),
    s.strings⟩, ?_, hlen₂.trans hlen₁, ?_⟩
  · unfold prepareStringtable
    rw [hget]
    dsimp only [bind, Except.bind]
    rw [if_neg (by omega), ← hlen, if_neg (by omega), hlink]
    dsimp only
    rw [hvalue]
    dsimp only [linkHashes]
    rw [hsizes]
    dsimp only
    rw [hpointers]
  · exact length_flatMap_words 4 cellHash s.strings

/-- The rows of a table with one column, and one text in all of them. -/
def columnRows (t : Data) (n : Nat) : List Json := List.replicate n (.array [.string t])

section Column

variable {t : Data} {n : Nat}

theorem string_ok (h0 : (0 : UInt8) ∉ t) (hlen : t.length ≤ 65535) : string (.string t) = .ok t := by
  have hvalid : ¬(t.length > 65535 ∨ (0 : UInt8) ∈ t) := by
    rintro (h | h)
    · omega
    · exact h0 h
  exact if_neg hvalid

theorem forall₂_columnRows (ht : string (.string t) = .ok t) :
    List.Forall₂ RowOf (columnRows t n) (List.replicate n [t]) := by
  induction n with
  | zero => exact .nil
  | succ n ih => exact .cons ⟨_, rfl, .cons ht .nil⟩ ih

theorem rowOf_column (ht : string (.string t) = .ok t) {ts : List Data}
    (h : RowOf (.array [.string t]) ts) : ts = [t] := by
  obtain ⟨cells, hcells, h⟩ := h
  cases hcells
  cases h with
  | cons hcell hnil =>
    cases hnil
    rw [ht] at hcell
    cases hcell
    rfl

theorem rows_column (ht : string (.string t) = .ok t) {table : List (List Data)}
    (h : List.Forall₂ RowOf (columnRows t n) table) : table = List.replicate n [t] := by
  have hlen : table.length = n := h.length_eq.symm.trans List.length_replicate
  refine List.eq_replicate_iff.mpr ⟨hlen, ?_⟩
  intro ts hts
  obtain ⟨row, hrow, hts⟩ := forall₂_mem_right h hts
  rw [List.eq_of_mem_replicate hrow] at hts
  exact rowOf_column ht hts

/-- The dictionary of a column has its text only. -/
theorem strings_column (ht : string (.string t) = .ok t) {p : Parts} {table : List (List Data)}
    {cols : Nat} (hrows : RowsOf (tableAsset (columnRows t n)) table) (h : TableOf p table cols) :
    p.strings.length ≤ 1 ∧ ∀ s ∈ p.strings, s = t := by
  obtain ⟨items, hitems, hrows⟩ := hrows
  cases hitems
  have htable := rows_column ht hrows
  have hall : ∀ s ∈ p.strings, s = t := by
    intro s hs
    have hmem := (h.mem s).mp hs
    rw [htable] at hmem
    obtain ⟨ts, hts, hmem⟩ := List.mem_flatten.mp hmem
    rw [List.eq_of_mem_replicate hts] at hmem
    exact List.mem_singleton.mp hmem
  refine ⟨?_, hall⟩
  have hnodup := h.nodup
  rw [List.eq_replicate_iff.mpr ⟨rfl, hall⟩] at hnodup
  exact List.nodup_replicate.mp hnodup

/-- What its calls cost. -/
theorem cost_column {p : Parts} (hone : p.strings.length ≤ 1) (hall : ∀ s ∈ p.strings, s = t)
    (hhashes : p.hashes.length = p.strings.length * 4) :
    ((assetOps (linkedAsset (columnRows t n)) p).map Op.cost).sum ≤
      p.header.length + p.indices.length + t.length + 64 := by
  have hindices : (((if p.indices.isEmpty then [] else
      [Op.align 5 2, .write 5 p.indices, .align 5 4, .write 5 p.hashes]) : List Op).map
        Op.cost).sum ≤ p.indices.length + 10 := by
    split
    · exact Nat.zero_le _
    · simp only [List.map_cons, List.map_nil, List.sum_cons, List.sum_nil, Op.cost]
      omega
  have hstrings : (((if p.strings.isEmpty then [] else
      [Op.align 5 8, .write 5 (p.strings.flatMap fun _ => leBytes 8 follows)] ++
        p.strings.map (.text 5)) : List Op).map Op.cost).sum ≤ t.length + 17 := by
    cases hs : p.strings with
    | nil => exact Nat.zero_le _
    | cons s ss =>
      rw [hs, List.length_cons] at hone
      have hss : ss = [] := List.eq_nil_of_length_eq_zero (by omega)
      have hst : s = t := hall s (hs ▸ List.mem_cons_self)
      subst hss hst
      simp [Op.cost, Op.text]
      omega
  unfold assetOps
  rw [List.map_append, List.sum_append]
  show _ + (List.map Op.cost (_ ++ _)).sum ≤ _
  rw [List.map_append, List.sum_append]
  have hfront : ([Op.align 1 8, .align 5 8, .reserve 5 8, .write 1 p.header,
      .text 5 (linkedAsset (columnRows t n)).name].map Op.cost).sum = p.header.length + 26 := by
    show 8 + (8 + (8 + (p.header.length + (2 + 0)))) = _
    omega
  rw [hfront]
  omega

/-- The linker builds such a table. -/
theorem column_linked (h0 : (0 : UInt8) ∉ t) (hlen : t.length ≤ 65535) (hn : 0 < n)
    (hn' : n ≤ 65535) :
    ∃ zone ranges p, link .ok tableProfile (.array [tableAsset (columnRows t n)]) (2 ^ 20) =
        .ok (zone, ranges) ∧
      prepare .ok (2 ^ 20) (linkedAsset (columnRows t n)) = .ok p := by
  obtain ⟨n, rfl⟩ := Nat.exists_eq_succ_of_ne_zero (Nat.pos_iff_ne_zero.mp hn)
  have ht := string_ok h0 hlen
  have htable : List.Forall₂ RowOf (columnRows t (n + 1)) (List.replicate (n + 1) [t]) :=
    forall₂_columnRows ht
  have hwidth : ∀ ts ∈ List.replicate (n + 1) [t], ts.length = 1 := by
    intro ts hts
    rw [List.eq_of_mem_replicate hts]
    rfl
  have hcount : (columnRows t (n + 1)).length = n + 1 := List.length_replicate
  have hheader : put (List.replicate 48 0) 0 (leBytes 8 follows) =
      .ok (leBytes 8 follows ++ List.replicate 40 0) := rfl
  have hheader_le : 48 ≤ (leBytes 8 follows ++ List.replicate 40 0).length := by decide
  have hrows : (Json.array [.string t] :: List.replicate n (.array [.string t])).length ≤ 65535 := by
    rw [List.length_cons, List.length_replicate]
    omega
  have hcells : (Json.array [.string t] :: List.replicate n (.array [.string t])).length *
      (Json.array [.string t]).size ≤ 65535 := by
    rw [show (Json.array [.string t]).size = 1 from rfl]
    omega
  obtain ⟨p, hp, hlen₁, hhashes⟩ := prepareStringtable_ok htable hwidth hrows hcells hheader_le
  have hprepare : prepare .ok (2 ^ 20) (linkedAsset (columnRows t (n + 1))) = .ok p := by
    show (put (List.replicate 48 0) 0 (leBytes 8 follows) >>= fun header =>
      prepareStringtable (tableAsset (columnRows t (n + 1))) header) = _
    rw [hheader]
    exact hp
  have hp' : prepareStringtable (tableAsset (columnRows t (n + 1)))
      (leBytes 8 follows ++ List.replicate 40 0) = .ok p := hp
  have hlen₂ : p.header.length = 48 := hlen₁.trans (by decide)
  obtain ⟨table, cols, htexts, htable⟩ := prepareStringtable_spec hp'
  obtain ⟨hone, hall⟩ := strings_column ht htexts htable
  have hindices := htable.indices
  have hcells := htable.cells_le
  have hcost : ((assetOps (linkedAsset (columnRows t (n + 1))) p).map Op.cost).sum ≤
      p.header.length + p.indices.length + t.length + 64 := cost_column hone hall hhashes
  have hvalid : ∀ op ∈ rootOps [linkedAsset (columnRows t (n + 1))] ++
      assetOps (linkedAsset (columnRows t (n + 1))) p, op.Valid := by
    intro op hop
    rcases List.mem_append.mp hop with hop | hop
    · exact valid_rootOps _ op hop
    · exact valid_assetOps _ p op hop
  have hroot : ((rootOps [linkedAsset (columnRows t (n + 1))]).map Op.cost).sum = 56 := rfl
  have hbudget : ((rootOps [linkedAsset (columnRows t (n + 1))] ++
      assetOps (linkedAsset (columnRows t (n + 1))) p).map Op.cost).sum ≤ 2 ^ 20 := by
    rw [List.map_append, List.sum_append, hroot]
    omega
  obtain ⟨w, hrun⟩ : ∃ w, (Writer.mk (2 ^ 20) ⟨[], fun _ => 0⟩).run
      (rootOps [linkedAsset (columnRows t (n + 1))] ++
        assetOps (linkedAsset (columnRows t (n + 1))) p) = .ok w := by
    apply Writer.run_ok hvalid
    · rw [List.length_nil, Nat.zero_add]
      exact hbudget
    · intro b
      rw [Nat.zero_add]
      exact hbudget
  rw [run_append] at hrun
  obtain ⟨w₁, hroot, hrun⟩ := ok_of_bind hrun
  have hlimit := (Writer.run_grows (valid_rootOps _) hroot).1
  have hassets : linkAssets .ok w₁ [linkedAsset (columnRows t (n + 1))] =
      .ok (w, [⟨.stringtable, ascii "t", w₁.zone.body.length,
        w.zone.body.length - w₁.zone.body.length⟩]) := by
    rw [linkAssets, hlimit, hprepare]
    show (w₁.run (assetOps (linkedAsset (columnRows t (n + 1))) p) >>= _) = _
    rw [hrun]
    rfl
  refine ⟨w.zone, [⟨.stringtable, ascii "t", w₁.zone.body.length,
    w.zone.body.length - w₁.zone.body.length⟩], p, ?_, hprepare⟩
  show ((Writer.mk (2 ^ 20) ⟨[], fun _ => 0⟩).run
    (rootOps [linkedAsset (columnRows t (n + 1))]) >>= fun w =>
      linkAssets .ok w [linkedAsset (columnRows t (n + 1))] >>= fun wr =>
        .ok (wr.1.zone, wr.2)) = _
  rw [hroot]
  show (linkAssets .ok w₁ [linkedAsset (columnRows t (n + 1))] >>= _) = _
  rw [hassets]
  rfl

end Column

theorem length_text_column (t : Data) (n : Nat) :
    n * (t.length + 3) ≤ (Csv.text (List.replicate n [t])).length := by
  induction n with
  | zero => exact Nat.le_of_eq (Nat.zero_mul _)
  | succ n ih =>
    have hcell := Csv.length_cell_le t
    have hcons : Csv.text (List.replicate (n + 1) [t]) =
        Csv.cell t ++ [0x0a] ++ Csv.text (List.replicate n [t]) := by
      simp [List.replicate_succ, Csv.text, Csv.row, Csv.cells]
    rw [hcons, List.length_append, List.length_append, List.length_singleton, Nat.add_mul]
    omega

/-- The text of such a table may be larger than the exporter's budget. -/
theorem column_exceeds {t : Data} {n : Nat} (h0 : (0 : UInt8) ∉ t) (hlen : t.length ≤ 65535)
    (hn : n ≤ 65535) (hlong : defaultMaxBytes + 1 < n * (t.length + 3)) :
    ∃ zone ranges p table read address,
      link .ok tableProfile (.array [tableAsset (columnRows t n)]) (2 ^ 20) = .ok (zone, ranges) ∧
        prepare .ok (2 ^ 20) (linkedAsset (columnRows t n)) = .ok p ∧
        RowsOf (tableAsset (columnRows t n)) table ∧ Loaded read address p ∧
        exportStringtable read address defaultMaxBytes = .error "CSV exceeds output budget" := by
  have hpos : 0 < n := by
    apply Nat.pos_of_ne_zero
    rintro rfl
    omega
  obtain ⟨zone, ranges, p, hlink, hp⟩ := column_linked h0 hlen hpos hn
  obtain ⟨table, cols, hrows, ht⟩ := prepare_table rfl hp
  have htext := string_ok h0 hlen
  obtain ⟨hone, hall⟩ := strings_column htext hrows ht
  have hstrings : cost p.strings ≤ t.length + 1 := by
    cases hs : p.strings with
    | nil => exact Nat.zero_le _
    | cons s ss =>
      rw [hs, List.length_cons] at hone
      have hss : ss = [] := List.eq_nil_of_length_eq_zero (by omega)
      have hst : s = t := hall s (hs ▸ List.mem_cons_self)
      subst hss hst
      exact Nat.le_refl _
  have hindices := ht.indices
  have hcells := ht.cells_le
  have hcost : readCost p ≤ defaultMaxBytes := by
    unfold readCost defaultMaxBytes
    omega
  have htable : table = List.replicate n [t] := by
    obtain ⟨items, hitems, hrows⟩ := hrows
    cases hitems
    exact rows_column htext hrows
  have hsize := length_text_column t n
  refine ⟨zone, ranges, p, table, image p, 2 ^ 12, hlink, hp, hrows, image_loaded ht, ?_⟩
  rw [export_loaded ht (image_loaded ht) hcost (by decide), htable, if_neg (by omega)]

/-- 2048 rows of a text of 65535 bytes: a table of less than a megabyte that is not exported. -/
theorem longTable_exceeds :
    ∃ zone ranges p table read address,
      link .ok tableProfile (.array [tableAsset (columnRows (List.replicate 65535 0x61) 2048)])
          (2 ^ 20) = .ok (zone, ranges) ∧
        prepare .ok (2 ^ 20) (linkedAsset (columnRows (List.replicate 65535 0x61) 2048)) = .ok p ∧
        RowsOf (tableAsset (columnRows (List.replicate 65535 0x61) 2048)) table ∧
        Loaded read address p ∧
        exportStringtable read address defaultMaxBytes = .error "CSV exceeds output budget" := by
  have hlen : (List.replicate 65535 (0x61 : UInt8)).length = 65535 := List.length_replicate
  refine column_exceeds ?_ (Nat.le_of_eq hlen) (by decide) ?_
  · intro h
    exact absurd (List.eq_of_mem_replicate h) (by decide)
  · rw [hlen]
    decide

end Acts.Mw19.Stringtable
