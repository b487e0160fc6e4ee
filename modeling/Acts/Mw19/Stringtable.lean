import Acts.Mw19.LinkerRuns
import Acts.Mw19.Payload

/-!
# String tables, from the linker to the exporter

* `Interned` — a dictionary: each string once, under its own index.
* `Shows` — the index of a cell selects a text.
* `linkCell_ok`, `linkCells_ok`, `linkRows_ok` — what linking a cell, a row and a table does.
-/

set_option autoImplicit false

namespace Acts.Mw19.Stringtable

open Linker

/-! ## Fields -/

theorem put_ok {data value : Data} {pos : Nat} (h : pos + value.length ≤ data.length) :
    put data pos value = .ok (data.take pos ++ value ++ data.drop (pos + value.length)) := by
  unfold put
  rw [if_neg (by omega)]

theorem put_inv {data value data' : Data} {pos : Nat} (h : put data pos value = .ok data') :
    pos + value.length ≤ data.length ∧
      data' = data.take pos ++ value ++ data.drop (pos + value.length) := by
  unfold put at h
  split at h
  · cases h
  · cases h
    exact ⟨by omega, rfl⟩

section Put

variable {data value data' : Data} {pos : Nat}

theorem length_put (h : put data pos value = .ok data') : data'.length = data.length := by
  obtain ⟨hle, rfl⟩ := put_inv h
  simp only [List.length_append, List.length_take, List.length_drop]
  omega

/-- What was put can be read. -/
theorem readLe_put {n v : Nat} (h : put data pos (leBytes n v) = .ok data') :
    readLe n (data'.drop pos) = v % 256 ^ n := by
  obtain ⟨hle, rfl⟩ := put_inv h
  have hlen : (data.take pos).length = pos := List.length_take_of_le (by omega)
  rw [List.append_assoc, List.drop_left' hlen, readLe_leBytes]

/-- Bytes outside of a field are kept. -/
theorem take_drop_put {at_ n : Nat} (h : put data pos value = .ok data')
    (hat : at_ + n ≤ pos ∨ pos + value.length ≤ at_) :
    (data'.drop at_).take n = (data.drop at_).take n := by
  obtain ⟨hle, rfl⟩ := put_inv h
  have hlen : (data.take pos).length = pos := List.length_take_of_le (by omega)
  rcases hat with hat | hat
  · rw [List.append_assoc, List.drop_append_of_le_length (by omega),
      List.take_append_of_le_length (by rw [List.length_drop]; omega), List.drop_take,
      List.take_take, Nat.min_eq_left (by omega)]
  · have hlen' : (data.take pos ++ value).length = pos + value.length := by
      rw [List.length_append, hlen]
    obtain ⟨k, rfl⟩ := Nat.exists_eq_add_of_le hat
    rw [List.drop_append, List.drop_of_length_le (by omega), List.nil_append, List.drop_drop,
      hlen']
    congr 2
    omega

theorem readLe_put_other {at_ n : Nat} (h : put data pos value = .ok data')
    (hat : at_ + n ≤ pos ∨ pos + value.length ≤ at_) :
    readLe n (data'.drop at_) = readLe n (data.drop at_) := by
  rw [← readLe_take n (data'.drop at_), take_drop_put h hat, readLe_take]

end Put

/-! ## The dictionary -/

/-- Each string is in the dictionary once, under the index of its place. -/
structure Interned (s : TableState) : Prop where
  sound : ∀ t i, s.dict.lookup t = some i → s.strings[i]? = some t
  complete : ∀ t ∈ s.strings, s.dict.lookup t ≠ none
  nodup : s.strings.Nodup

/-- The index of a cell selects `t`. -/
def Shows (rows row col : Nat) (indices : Data) (strings : List Data) (t : Data) : Prop :=
  strings[readLe 2 (indices.drop ((col * rows + row) * 2))]? = some t

/-- What linking the texts `ts` does to the dictionary. -/
structure Grows (s : TableState) (ts : List Data) (s' : TableState) : Prop where
  interned : Interned s'
  strings : s.strings <+: s'.strings
  length : s'.strings.length ≤ s.strings.length + ts.length
  indices : s'.indices.length = s.indices.length
  mem : ∀ t, t ∈ s'.strings ↔ t ∈ s.strings ∨ t ∈ ts

theorem Grows.trans {s s' s'' : TableState} {ts ts' : List Data} (h : Grows s ts s')
    (h' : Grows s' ts' s'') : Grows s (ts ++ ts') s'' := by
  refine ⟨h'.interned, h.strings.trans h'.strings, ?_, h'.indices.trans h.indices, ?_⟩
  · have := h.length
    have := h'.length
    rw [List.length_append]
    omega
  · intro t
    rw [h'.mem, h.mem, List.mem_append, or_assoc]

/-- The index of a text, which is already there or is new. -/
def intern (s : TableState) (t : Data) : Nat × TableState :=
  match s.dict.lookup t with
  | some index => (index, s)
  | none => (s.strings.length % 2 ^ 16,
    { s with dict := (t, s.strings.length % 2 ^ 16) :: s.dict, strings := s.strings ++ [t] })

theorem linkCell_eq (rows row col : Nat) (s : TableState) {cell : Json} {t : Data}
    (hcell : string cell = .ok t) :
    linkCell rows row col s cell =
      (put s.indices ((col * rows + row) * 2) (leBytes 2 (intern s t).1)).map
        fun indices => { (intern s t).2 with indices := indices } := by
  unfold linkCell intern
  rw [hcell]
  dsimp only [bind, Except.bind]
  cases s.dict.lookup t with
  | some index =>
    dsimp only
    cases put s.indices ((col * rows + row) * 2) (leBytes 2 index) with
    | ok indices => rfl
    | error e => rfl
  | none =>
    dsimp only
    cases put s.indices ((col * rows + row) * 2) (leBytes 2 (s.strings.length % 2 ^ 16)) with
    | ok indices => rfl
    | error e => rfl

theorem intern_spec {s : TableState} (hs : Interned s) (t : Data)
    (hlen : s.strings.length < 2 ^ 16) :
    (intern s t).1 < 2 ^ 16 ∧ (intern s t).2.strings[(intern s t).1]? = some t ∧
      (intern s t).2.indices = s.indices ∧ Grows s [t] (intern s t).2 := by
  unfold intern
  cases hlookup : s.dict.lookup t with
  | some index =>
    have hget := hs.sound t index hlookup
    obtain ⟨hindex, -⟩ := List.getElem?_eq_some_iff.mp hget
    have hmem : t ∈ s.strings := List.mem_of_getElem? hget
    dsimp only
    refine ⟨by omega, hget, rfl, hs, List.prefix_refl _, ?_, rfl, ?_⟩
    · exact Nat.le_add_right _ _
    · intro u
      rw [List.mem_singleton]
      constructor
      · exact .inl
      · rintro (hu | rfl)
        · exact hu
        · exact hmem
  | none =>
    have hmod : s.strings.length % 2 ^ 16 = s.strings.length := Nat.mod_eq_of_lt hlen
    have hnew : t ∉ s.strings := fun ht => hs.complete t ht hlookup
    dsimp only
    rw [hmod]
    refine ⟨hlen, ?_, rfl, ⟨?_, ?_, ?_⟩, List.prefix_append _ _, ?_, rfl, ?_⟩
    · rw [List.getElem?_append_right (Nat.le_refl _), Nat.sub_self]
      rfl
    · intro u i hu
      by_cases htu : u = t
      · subst htu
        rw [List.lookup_cons_self] at hu
        cases hu
        rw [List.getElem?_append_right (Nat.le_refl _), Nat.sub_self]
        rfl
      · have hbeq : (u == t) = false := beq_false_of_ne htu
        simp only [List.lookup_cons, hbeq] at hu
        have hget := hs.sound u i hu
        obtain ⟨hi, -⟩ := List.getElem?_eq_some_iff.mp hget
        rwa [List.getElem?_append_left hi]
    · intro u hu
      by_cases htu : u = t
      · subst htu
        rw [List.lookup_cons_self]
        exact Option.some_ne_none _
      · have hbeq : (u == t) = false := beq_false_of_ne htu
        simp only [List.lookup_cons, hbeq]
        rcases List.mem_append.mp hu with hu | hu
        · exact hs.complete u hu
        · exact absurd (List.mem_singleton.mp hu) htu
    · refine List.nodup_append.mpr ⟨hs.nodup, List.nodup_cons.mpr ⟨List.not_mem_nil, List.nodup_nil⟩, ?_⟩
      intro a ha b hb hab
      rw [List.mem_singleton] at hb
      exact hnew (hb ▸ hab ▸ ha)
    · exact Nat.le_of_eq List.length_append
    · intro u
      exact List.mem_append

/-! ## Cells -/

theorem cell_disjoint {rows row col row' col' : Nat} (hrow : row < rows) (hrow' : row' < rows)
    (hne : ¬(row' = row ∧ col' = col)) :
    (col' * rows + row') * 2 + 2 ≤ (col * rows + row) * 2 ∨
      (col * rows + row) * 2 + 2 ≤ (col' * rows + row') * 2 := by
  rcases Nat.lt_trichotomy col' col with hlt | heq | hgt
  · have hmul : (col' + 1) * rows ≤ col * rows := Nat.mul_le_mul_right rows hlt
    rw [Nat.add_mul] at hmul
    omega
  · subst heq
    omega
  · have hmul : (col + 1) * rows ≤ col' * rows := Nat.mul_le_mul_right rows hgt
    rw [Nat.add_mul] at hmul
    omega

/-- A cell that is shown, in a larger dictionary with the same index. -/
theorem Shows.mono {rows row col : Nat} {indices indices' : Data} {strings strings' : List Data}
    {t : Data} (h : Shows rows row col indices strings t) (hs : strings <+: strings')
    (hi : readLe 2 (indices'.drop ((col * rows + row) * 2)) =
      readLe 2 (indices.drop ((col * rows + row) * 2))) :
    Shows rows row col indices' strings' t := by
  obtain ⟨more, rfl⟩ := hs
  unfold Shows at h ⊢
  obtain ⟨hlt, -⟩ := List.getElem?_eq_some_iff.mp h
  rw [hi, List.getElem?_append_left hlt, h]

theorem linkCell_ok {rows row col : Nat} {s : TableState} {cell : Json} {t : Data}
    (hs : Interned s) (hlen : s.strings.length < 2 ^ 16) (hcell : string cell = .ok t)
    (hrow : row < rows) (hpos : (col * rows + row) * 2 + 2 ≤ s.indices.length) :
    ∃ s', linkCell rows row col s cell = .ok s' ∧ Grows s [t] s' ∧
      Shows rows row col s'.indices s'.strings t ∧
      ∀ row' col' t', row' < rows → ¬(row' = row ∧ col' = col) →
        Shows rows row' col' s.indices s.strings t' →
          Shows rows row' col' s'.indices s'.strings t' := by
  obtain ⟨hindex, hget, hkeep, hgrows⟩ := intern_spec hs t hlen
  have hle : (col * rows + row) * 2 + (leBytes 2 (intern s t).1).length ≤ s.indices.length := by
    rwa [length_leBytes]
  obtain ⟨indices, hput⟩ : ∃ indices,
      put s.indices ((col * rows + row) * 2) (leBytes 2 (intern s t).1) = .ok indices :=
    ⟨_, put_ok hle⟩
  refine ⟨{ (intern s t).2 with indices := indices }, ?_, ?_, ?_, ?_⟩
  · rw [linkCell_eq rows row col s hcell, hput]
    rfl
  · exact ⟨⟨hgrows.interned.sound, hgrows.interned.complete, hgrows.interned.nodup⟩,
      hgrows.strings, hgrows.length, length_put hput, hgrows.mem⟩
  · unfold Shows
    rw [readLe_put hput, Nat.mod_eq_of_lt (by omega)]
    exact hget
  · intro row' col' t' hrow' hne hshows
    apply hshows.mono hgrows.strings
    apply readLe_put_other hput
    rw [length_leBytes]
    exact cell_disjoint hrow hrow' hne

theorem linkCells_ok {rows row cols : Nat} (hrow : row < rows) {cells : List Json}
    {ts : List Data} (hcells : List.Forall₂ (fun c t => string c = .ok t) cells ts) :
    ∀ {col : Nat} {s : TableState}, Interned s → s.strings.length + ts.length ≤ 65535 →
      col + ts.length = cols → s.indices.length = rows * cols * 2 →
      ∃ s', linkCells rows row col s cells = .ok s' ∧ Grows s ts s' ∧
        (∀ k t, ts[k]? = some t → Shows rows row (col + k) s'.indices s'.strings t) ∧
        ∀ row' col' t', row' < rows → (row' ≠ row ∨ col' < col) →
          Shows rows row' col' s.indices s.strings t' →
            Shows rows row' col' s'.indices s'.strings t' := by
  induction hcells with
  | nil =>
    intro col s hs _ _ _
    refine ⟨s, rfl, ⟨hs, List.prefix_refl _, Nat.le_refl _, rfl, ?_⟩, ?_, ?_⟩
    · intro t
      simp
    · intro k t ht
      cases ht
    · intro row' col' t' _ _ h
      exact h
  | @cons cell t cells ts hcell _ ih =>
    intro col s hs hlen hcols hindices
    rw [List.length_cons] at hlen hcols
    have hpos : (col * rows + row) * 2 + 2 ≤ s.indices.length := by
      have hmul : (col + 1) * rows ≤ cols * rows := Nat.mul_le_mul_right rows (by omega)
      rw [hindices, Nat.mul_comm rows cols]
      rw [Nat.add_mul] at hmul
      omega
    obtain ⟨s₁, hlink, hgrows, hshows, hframe⟩ :=
      linkCell_ok hs (by omega) hcell hrow hpos
    have hlen₁ := hgrows.length
    rw [List.length_singleton] at hlen₁
    have hcols₁ : col + 1 + ts.length = cols := by omega
    obtain ⟨s', hrest, hgrows', hshows', hframe'⟩ :=
      ih hgrows.interned (by omega) hcols₁ (hgrows.indices.trans hindices)
    refine ⟨s', ?_, hgrows.trans hgrows', ?_, ?_⟩
    · rw [linkCells, hlink]
      exact hrest
    · intro k u hk
      cases k with
      | zero =>
        cases hk
        exact hframe' row col t hrow (.inr (by omega)) hshows
      | succ k =>
        rw [show col + (k + 1) = col + 1 + k by omega]
        exact hshows' k u hk
    · intro row' col' t' hrow' hne h
      refine hframe' row' col' t' hrow' (by omega) (hframe row' col' t' hrow' ?_ h)
      omega

/-- The texts of a row. -/
def RowOf (row : Json) (ts : List Data) : Prop :=
  ∃ cells, row = .array cells ∧ List.Forall₂ (fun c t => string c = .ok t) cells ts

theorem linkRows_ok {rows cols : Nat} {items : List Json} {table : List (List Data)}
    (hrows : List.Forall₂ RowOf items table) (hcols : ∀ ts ∈ table, ts.length = cols) :
    ∀ {row : Nat} {s : TableState}, Interned s →
      s.strings.length + table.flatten.length ≤ 65535 → row + table.length = rows →
      s.indices.length = rows * cols * 2 →
      ∃ s', linkRows rows cols row s items = .ok s' ∧ Grows s table.flatten s' ∧
        (∀ i ts k t, table[i]? = some ts → ts[k]? = some t →
          Shows rows (row + i) k s'.indices s'.strings t) ∧
        ∀ row' col' t', row' < row → Shows rows row' col' s.indices s.strings t' →
          Shows rows row' col' s'.indices s'.strings t' := by
  induction hrows with
  | nil =>
    intro row s hs _ _ _
    refine ⟨s, rfl, ⟨hs, List.prefix_refl _, Nat.le_refl _, rfl, ?_⟩, ?_, ?_⟩
    · intro t
      simp
    · intro i ts k t hi
      cases hi
    · intro row' col' t' _ h
      exact h
  | @cons item ts items table hitem _ ih =>
    intro row s hs hlen hrow hindices
    obtain ⟨cells, rfl, hcells⟩ := hitem
    rw [List.flatten_cons, List.length_append] at hlen
    rw [List.length_cons] at hrow
    have hts₀ : 0 + ts.length = cols := by rw [hcols ts List.mem_cons_self, Nat.zero_add]
    have hlt : row < rows := by omega
    have hrow₁ : row + 1 + table.length = rows := by omega
    obtain ⟨s₁, hlink, hgrows, hshows, hframe⟩ :=
      linkCells_ok hlt hcells hs (by omega) hts₀ hindices
    have hlen₁ := hgrows.length
    obtain ⟨s', hrest, hgrows', hshows', hframe'⟩ :=
      ih (fun u hu => hcols u (List.mem_cons_of_mem ts hu)) hgrows.interned (by omega) hrow₁
        (hgrows.indices.trans hindices)
    refine ⟨s', ?_, hgrows.trans hgrows', ?_, ?_⟩
    · rw [linkRows, if_neg (by rw [hcells.length_eq]; omega), hlink]
      exact hrest
    · intro i us k t hi hk
      cases i with
      | zero =>
        cases hi
        have h := hshows k t hk
        rw [Nat.zero_add] at h
        exact hframe' row k t (by omega) h
      | succ i =>
        rw [show row + (i + 1) = row + 1 + i by omega]
        exact hshows' i us k t hi hk
    · intro row' col' t' hrow' h
      exact hframe' row' col' t' (by omega) (hframe row' col' t' (by omega) (.inl (by omega)) h)

end Acts.Mw19.Stringtable
