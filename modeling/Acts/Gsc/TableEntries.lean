import Acts.Gsc.Tables
import Mathlib.Data.List.Basic
import Mathlib.Data.List.Forall2

/-!
# The entries of a table

* `writeEntries_batches`, `writeTable_spec` — the loop writes the batches of each object.
* `readTable_entries` — reading back a count that the header kept gives that many entries.
* `uses_entries` — the entries list the addresses of every object, in order.
* `listing_iff` — a list is read in full exactly when what a smaller count leaves out is empty.
-/

set_option autoImplicit false

namespace Acts.Gsc

/-! ## The loop -/

/-- The addresses up to the next entry. -/
theorem writeEntries_plain {limit : Nat} {entry : Nat → List UInt8} (m : Nat) {w : Nat}
    (hw : ∀ j < m, (w + j) % limit ≠ 0) (xs : List Nat) (data : List UInt8) (count : Nat) :
    writeEntries limit entry w xs (data, count) =
      writeEntries limit entry (w + m) (xs.drop m)
        (data ++ (xs.take m).flatMap (leBytes 4), count) := by
  induction m generalizing w xs data with
  | zero => simp
  | succ m ih =>
    cases xs with
    | nil => simp [writeEntries]
    | cons x xs =>
      have h0 := hw 0 (Nat.succ_pos m)
      have hnext : ∀ j < m, (w + 1 + j) % limit ≠ 0 := by
        intro j hj
        have := hw (j + 1) (Nat.succ_lt_succ hj)
        rwa [Nat.add_comm j 1, ← Nat.add_assoc] at this
      rw [Nat.add_zero] at h0
      rw [writeEntries]
      simp only [if_neg h0]
      rw [ih hnext, List.drop_succ_cons, List.take_succ_cons, List.flatMap_cons, List.append_assoc,
        Nat.add_assoc w 1 m, Nat.add_comm 1 m]

/-- The bytes of one batch. -/
def batchBytes (entry : Nat → List UInt8) (b : List Nat) : List UInt8 :=
  entry b.length ++ b.flatMap (leBytes 4)

theorem writeEntries_batches {limit : Nat} (hl : 0 < limit) (entry : Nat → List UInt8)
    (xs : List Nat) {w : Nat} (hw : limit ∣ w) (data : List UInt8) (count : Nat) :
    writeEntries limit entry w xs (data, count) =
      (data ++ (batches limit xs).flatMap (batchBytes entry),
        count + (batches limit xs).length) := by
  induction xs using batches.induct limit generalizing w data count with
  | case1 => simp [writeEntries, batches]
  | case2 x xs ih =>
    have h0 : w % limit = 0 := Nat.mod_eq_zero_of_dvd hw
    have hplain : ∀ j < limit - 1, (w + 1 + j) % limit ≠ 0 := by
      intro j hj
      rw [Nat.add_assoc, Nat.add_mod, h0, Nat.zero_add, Nat.mod_mod, Nat.mod_eq_of_lt (by omega)]
      omega
    have hnext : limit ∣ w + 1 + (limit - 1) := by
      have hsum : w + 1 + (limit - 1) = w + limit := by omega
      rw [hsum]
      exact Nat.dvd_add hw (Nat.dvd_refl limit)
    have hlen : (if (x :: xs).length > limit then limit else (x :: xs).length) =
        (x :: xs.take (limit - 1)).length := by
      simp only [List.length_cons, List.length_take]
      split <;> omega
    rw [writeEntries]
    simp only [if_pos h0]
    rw [writeEntries_plain (limit - 1) hplain, ih hnext, hlen, batches, List.flatMap_cons,
      batchBytes, List.flatMap_cons]
    simp only [List.append_assoc, List.length_cons, Prod.mk.injEq, true_and]
    omega

section Objects

variable {ι : Type} {limit : Nat} {entry : ι → Nat → List UInt8}

/-- The batches of all objects, each with its object. -/
def entriesOf (limit : Nat) (objects : List (ι × List Nat)) : List (ι × List Nat) :=
  objects.flatMap fun o => (batches limit o.2).map fun b => (o.1, b)

def entryBytes (entry : ι → Nat → List UInt8) (e : ι × List Nat) : List UInt8 :=
  batchBytes (entry e.1) e.2

theorem writeObjects_entries (hl : 0 < limit) (objects : List (ι × List Nat)) (data : List UInt8)
    (count : Nat) :
    writeObjects limit entry objects (data, count) =
      (data ++ (entriesOf limit objects).flatMap (entryBytes entry),
        count + (entriesOf limit objects).length) := by
  induction objects generalizing data count with
  | nil => simp [writeObjects, entriesOf]
  | cons o objects ih =>
    have hbytes : ((batches limit o.2).map fun b => (o.1, b)).flatMap (entryBytes entry) =
        (batches limit o.2).flatMap (batchBytes (entry o.1)) := by
      rw [List.flatMap_map]
      rfl
    rw [writeObjects, writeEntries_batches hl _ _ (Nat.dvd_zero limit), ih]
    unfold entriesOf
    rw [List.flatMap_cons, List.flatMap_append, hbytes, List.length_append, List.length_map]
    simp only [List.append_assoc, Nat.add_assoc]

theorem writeTable_spec (hl : 0 < limit) (setCount : Nat → Nat) (objects : List (ι × List Nat))
    (data : List UInt8) :
    writeTable limit entry setCount objects data =
      (⟨data.length % 2 ^ 32, setCount (entriesOf limit objects).length⟩,
        data ++ (entriesOf limit objects).flatMap (entryBytes entry)) := by
  unfold writeTable
  rw [writeObjects_entries hl, Nat.zero_add]

theorem mem_entriesOf (hl : 0 < limit) {objects : List (ι × List Nat)} {e : ι × List Nat}
    (h : e ∈ entriesOf limit objects) :
    e.2 ≠ [] ∧ e.2.length ≤ limit ∧ ∃ xs, (e.1, xs) ∈ objects ∧ ∀ x ∈ e.2, x ∈ xs := by
  obtain ⟨o, ho, he⟩ := List.mem_flatMap.mp h
  obtain ⟨b, hb, rfl⟩ := List.mem_map.mp he
  refine ⟨ne_nil_of_mem_batches hb, length_le_of_mem_batches hl hb, o.2, ho, ?_⟩
  intro x hx
  rw [← flatten_batches limit o.2]
  exact List.mem_flatten.mpr ⟨b, hb, hx⟩

/-- The number of entries for so many nodes of each object. -/
def entryCount {ρ : Type} (limit : Nat) (objects : List (List ρ)) : Nat :=
  (objects.map fun rs => (rs.length + (limit - 1)) / limit).sum

theorem length_entriesOf {ρ : Type} {objects : List (ι × List Nat)} {refs : List (List ρ)}
    (hl : 0 < limit) (h : List.Forall₂ (fun o rs => o.2.length = rs.length) objects refs) :
    (entriesOf limit objects).length = entryCount limit refs := by
  induction h with
  | nil => rfl
  | @cons o rs objects refs ho _ ih =>
    have hcons : entriesOf limit (o :: objects) =
        ((batches limit o.2).map fun b => (o.1, b)) ++ entriesOf limit objects := by
      unfold entriesOf
      rw [List.flatMap_cons]
    rw [hcons, List.length_append, List.length_map, length_batches hl, ih, ho]
    unfold entryCount
    rw [List.map_cons, List.sum_cons]

/-! ## Reading -/

/-- The entries under the headers they are written with. -/
def headed {κ : Type} (item : ι → Nat → κ) (e : ι × List Nat) : κ × List Nat :=
  (item e.1 e.2.length, e.2)

/-- `t` stands at the end of `data`; `rest` is written behind it. -/
theorem readTable_entries {κ : Type} {header : Codec κ} {count : κ → Nat} {item : ι → Nat → κ}
    {entries : List (ι × List Nat)} (hentry : ∀ i n, entry i n = header.write (item i n))
    (hfits : ∀ e ∈ entries, header.Fits (item e.1 e.2.length))
    (hcount : ∀ e ∈ entries, count (item e.1 e.2.length) = e.2.length)
    (haddr : ∀ e ∈ entries, ∀ x ∈ e.2, x < 2 ^ 32)
    {data rest : List UInt8} (hdata : data.length < 2 ^ 32) {stored : Nat}
    (hstored : stored ≤ entries.length) :
    readTable (.counted header count addressCodec) ⟨data.length % 2 ^ 32, stored⟩
        (data ++ entries.flatMap (entryBytes entry) ++ rest) =
      some ((entries.map (headed item)).take stored) := by
  have hbytes : entries.flatMap (entryBytes entry) =
      (entries.map (headed item)).flatMap (Codec.counted header count addressCodec).write := by
    rw [List.flatMap_map]
    apply List.flatMap_congr
    intro e _
    exact congrArg (· ++ e.2.flatMap (leBytes 4)) (hentry e.1 e.2.length)
  have hfit : ∀ p ∈ entries.map (headed item),
      (Codec.counted header count addressCodec).Fits p := by
    intro p hp
    obtain ⟨e, he, rfl⟩ := List.mem_map.mp hp
    exact ⟨hfits e he, hcount e he, haddr e he⟩
  unfold readTable
  rw [Nat.mod_eq_of_lt hdata, List.append_assoc, List.drop_left, hbytes]
  exact Codec.readMany_take _ hfit (by rwa [List.length_map]) rest

/-- The addresses of the entries are those of the objects, and their headers those of the objects. -/
theorem uses_entries {κ ρ : Type} {item : ι → Nat → κ} {S : κ × Nat → ρ → Prop}
    {objects : List (ι × List Nat)} {refs : List (List ρ)}
    (h : List.Forall₂ (fun o rs => ∀ n, List.Forall₂ (fun x r => S (item o.1 n, x) r) o.2 rs)
      objects refs) :
    List.Forall₂ S (uses ((entriesOf limit objects).map (headed item))) refs.flatten := by
  induction h with
  | nil => exact .nil
  | @cons o rs objects refs ho _ ih =>
    have hone : ∀ (bs : List (List Nat)) (rs : List ρ),
        (∀ n, List.Forall₂ (fun x r => S (item o.1 n, x) r) bs.flatten rs) →
          List.Forall₂ S (uses ((bs.map fun b => (o.1, b)).map (headed item))) rs := by
      intro bs
      induction bs with
      | nil =>
        intro rs h
        cases h 0
        exact .nil
      | cons b bs ihb =>
        intro rs h
        have hsplit : ∀ n, List.Forall₂ (fun x r => S (item o.1 n, x) r) b (rs.take b.length) ∧
            List.Forall₂ (fun x r => S (item o.1 n, x) r) bs.flatten (rs.drop b.length) := by
          intro n
          have hn := h n
          rw [List.flatten_cons] at hn
          exact ⟨by simpa using List.forall₂_take b.length hn, by
            simpa using List.forall₂_drop b.length hn⟩
        have hhead := (hsplit b.length).1
        have htail := ihb (rs.drop b.length) fun n => (hsplit n).2
        rw [← List.take_append_drop b.length rs]
        exact List.rel_append (List.forall₂_map_left_iff.mpr hhead) htail
    have hflat : uses ((entriesOf limit (o :: objects)).map (headed item)) =
        uses (((batches limit o.2).map fun b => (o.1, b)).map (headed item)) ++
          uses ((entriesOf limit objects).map (headed item)) := by
      unfold uses entriesOf
      rw [List.flatMap_cons, List.map_append, List.flatMap_append]
    rw [hflat, List.flatten_cons]
    refine List.rel_append (hone _ _ ?_) ih
    intro n
    rw [flatten_batches]
    exact ho n

end Objects

/-! ## Counts that a header does not keep -/

theorem forall_mem_drop_iff {α : Type} {p : α → Prop} {l : List α} {n : Nat}
    (hp : ∀ e ∈ l, ¬ p e) (hn : n ≤ l.length) : (∀ e ∈ l.drop n, p e) ↔ n = l.length := by
  constructor
  · intro h
    by_contra hne
    have hdrop := List.drop_eq_getElem_cons (Nat.lt_of_le_of_ne hn hne)
    apply hp _ (List.getElem_mem (Nat.lt_of_le_of_ne hn hne))
    apply h
    rw [hdrop]
    exact List.mem_cons_self
  · intro h e he
    rw [List.drop_eq_nil_of_le (Nat.le_of_eq h.symm)] at he
    cases he

/-- The first `n` entries list everything exactly when the others list nothing. -/
theorem listing_iff {α β ρ : Type} {f : α → List β} {S R : β → ρ → Prop} {Q : ρ → Prop}
    {entries : List α} {refs : List ρ} {n : Nat}
    (hS : List.Forall₂ S (entries.flatMap f) refs) (hR : ∀ u r, r ∈ refs → S u r → (R u r ↔ Q r)) :
    List.Forall₂ R ((entries.take n).flatMap f) refs ↔
      (∀ e ∈ entries.drop n, f e = []) ∧ ∀ r ∈ refs, Q r := by
  have hlen := hS.length_eq
  have happ : entries.flatMap f =
      (entries.take n).flatMap f ++ (entries.drop n).flatMap f := by
    rw [← List.flatMap_append, List.take_append_drop]
  have hfull : List.Forall₂ R (entries.flatMap f) refs ↔ ∀ r ∈ refs, Q r := by
    clear hlen happ
    generalize entries.flatMap f = us at hS
    induction hS with
    | nil => simp
    | @cons u r us rs hu _ ih =>
      rw [List.forall₂_cons, hR u r List.mem_cons_self hu,
        ih fun u r hr => hR u r (List.mem_cons_of_mem _ hr), List.forall_mem_cons]
  constructor
  · intro h
    have hnil : (entries.drop n).flatMap f = [] := by
      have := h.length_eq
      rw [← List.length_eq_zero_iff]
      rw [happ, List.length_append] at hlen
      omega
    rw [happ, hnil, List.append_nil] at hfull
    exact ⟨fun e he => List.flatMap_eq_nil_iff.mp hnil e he, hfull.mp h⟩
  · rintro ⟨hrest, hq⟩
    have hnil : (entries.drop n).flatMap f = [] := List.flatMap_eq_nil_iff.mpr hrest
    rw [happ, hnil, List.append_nil] at hfull
    exact hfull.mpr hq

/-! ## Tables of an output -/

section Tables

variable {ι : Type} {limit : Nat} {entry : ι → Nat → List UInt8} {setCount : Nat → Nat}
  {objects : List (ι × List Nat)} {t : TableRef} {data out out' : List UInt8}

/-- The entries stand in the output, and a header has their place and what it keeps of the count. -/
def TableAt (limit : Nat) (entry : ι → Nat → List UInt8) (setCount : Nat → Nat)
    (objects : List (ι × List Nat)) (t : TableRef) (out : List UInt8) : Prop :=
  ∃ before rest, t = ⟨before.length % 2 ^ 32, setCount (entriesOf limit objects).length⟩ ∧
    before ++ (entriesOf limit objects).flatMap (entryBytes entry) ++ rest = out

theorem TableAt.mono (h : TableAt limit entry setCount objects t out) (hout : out <+: out') :
    TableAt limit entry setCount objects t out' := by
  obtain ⟨before, rest, ht, rfl⟩ := h
  obtain ⟨more, rfl⟩ := hout
  exact ⟨before, rest ++ more, ht, (List.append_assoc _ _ _).symm⟩

theorem tableAt_writeTable (hl : 0 < limit)
    (h : writeTable limit entry setCount objects data = (t, out)) :
    data <+: out ∧ TableAt limit entry setCount objects t out := by
  rw [writeTable_spec hl] at h
  cases h
  exact ⟨List.prefix_append _ _, data, [], rfl, List.append_nil _⟩

/-- The header of an entry: how it is written, and that it counts its addresses. -/
structure EntryFormat {κ : Type} (limit : Nat) (header : Codec κ) (count : κ → Nat)
    (item : ι → Nat → κ) (objects : List (ι × List Nat)) : Prop where
  fits : ∀ o ∈ objects, ∀ n ≤ limit, header.Fits (item o.1 n)
  count : ∀ i n, count (item i n) = n
  address : ∀ o ∈ objects, ∀ x ∈ o.2, x < 2 ^ 32

/-- **A table lists every address as it should exactly when the header keeps the count.** -/
theorem table_iff {κ ρ : Type} {header : Codec κ} {count : κ → Nat} {item : ι → Nat → κ}
    {S R : κ × Nat → ρ → Prop} {Q : ρ → Prop} {refs : List (List ρ)} (hl : 0 < limit)
    (ht : TableAt limit entry setCount objects t out) (hout : out.length < 2 ^ 31)
    (hset : ∀ n, setCount n ≤ n)
    (hentry : (∀ n, setCount n = 0) ∨ ∀ i n, entry i n = header.write (item i n))
    (hf : EntryFormat limit header count item objects)
    (hS : List.Forall₂ (fun o rs => ∀ n, List.Forall₂ (fun x r => S (item o.1 n, x) r) o.2 rs)
      objects refs)
    (hR : ∀ u r, r ∈ refs.flatten → S u r → (R u r ↔ Q r)) :
    (∃ es, readTable (.counted header count addressCodec) t out = some es ∧
        List.Forall₂ R (uses es) refs.flatten) ↔
      setCount (entriesOf limit objects).length = (entriesOf limit objects).length ∧
        ∀ r ∈ refs.flatten, Q r := by
  obtain ⟨before, rest, rfl, rfl⟩ := ht
  have hread : readTable (.counted header count addressCodec)
      ⟨before.length % 2 ^ 32, setCount (entriesOf limit objects).length⟩
        (before ++ (entriesOf limit objects).flatMap (entryBytes entry) ++ rest) =
      some (((entriesOf limit objects).map (headed item)).take
        (setCount (entriesOf limit objects).length)) := by
    rcases hentry with hzero | hentry
    · rw [hzero]
      rfl
    · refine readTable_entries hentry ?_ (fun e _ => hf.count _ _) ?_ ?_ (hset _)
      · intro e he
        obtain ⟨-, hle, xs, ho, -⟩ := mem_entriesOf hl he
        exact hf.fits _ ho _ hle
      · intro e he x hx
        obtain ⟨-, -, xs, ho, hxs⟩ := mem_entriesOf hl he
        exact hf.address _ ho x (hxs x hx)
      · rw [List.length_append, List.length_append] at hout
        omega
  have huses : List.Forall₂ S (uses ((entriesOf limit objects).map (headed item))) refs.flatten :=
    uses_entries hS
  have hlist := listing_iff (n := setCount (entriesOf limit objects).length) huses hR
  have hdrop := forall_mem_drop_iff (l := (entriesOf limit objects).map (headed item))
    (p := fun e => (e.2.map fun x => (e.1, x)) = []) (n := setCount (entriesOf limit objects).length)
    (by
      intro e he hnil
      obtain ⟨e', he', rfl⟩ := List.mem_map.mp he
      exact (mem_entriesOf hl he').1 (List.map_eq_nil_iff.mp hnil))
    (by
      rw [List.length_map]
      exact hset _)
  rw [List.length_map] at hdrop
  rw [hread]
  constructor
  · rintro ⟨es, heq, h⟩
    cases heq
    obtain ⟨hnil, hq⟩ := hlist.mp h
    exact ⟨hdrop.mp hnil, hq⟩
  · rintro ⟨heq, hq⟩
    exact ⟨_, rfl, hlist.mpr ⟨hdrop.mpr heq, hq⟩⟩

end Tables

/-! ## Lists that are computed together -/

theorem forall₂_of_mapM {α β : Type} {f : α → Option β} {as : List α} {bs : List β}
    (h : as.mapM f = some bs) : List.Forall₂ (fun b a => f a = some b) bs as := by
  induction as generalizing bs with
  | nil =>
    cases h
    exact .nil
  | cons a as ih =>
    rw [List.mapM_cons] at h
    obtain ⟨b, hb, h⟩ := Option.bind_eq_some_iff.mp h
    obtain ⟨rest, hrest, h⟩ := Option.bind_eq_some_iff.mp h
    cases h
    exact .cons hb (ih hrest)

theorem forall₂_zip_right {α β γ : Type} {R : β → γ → Prop} {as : List α} {bs : List β}
    {cs : List γ} (hlen : as.length = bs.length) (h : List.Forall₂ R bs cs) :
    List.Forall₂ (fun p c => R p.2 c) (as.zip bs) cs := by
  induction h generalizing as with
  | nil =>
    rw [List.zip_nil_right]
    exact .nil
  | cons hbc _ ih =>
    cases as with
    | nil => cases hlen
    | cons a as => exact .cons hbc (ih (Nat.succ.inj hlen))

theorem forall₂_zip_self {α β : Type} {R : β → α → Prop} {as : List α} {bs : List β}
    (h : List.Forall₂ R bs as) : List.Forall₂ (fun p a => p.1 = a ∧ R p.2 a) (as.zip bs) as := by
  induction h with
  | nil => exact .nil
  | cons hba _ ih => exact .cons ⟨rfl, hba⟩ ih

theorem exists_of_forall₂ {α β : Type} {R : α → β → Prop} {as : List α} {bs : List β}
    (h : List.Forall₂ R as bs) {a : α} (ha : a ∈ as) : ∃ b ∈ bs, R a b := by
  induction h with
  | nil => cases ha
  | cons hab _ ih =>
    rcases List.mem_cons.mp ha with rfl | ha
    · exact ⟨_, List.mem_cons_self, hab⟩
    · obtain ⟨b, hb, hr⟩ := ih ha
      exact ⟨b, List.mem_cons_of_mem _ hb, hr⟩

theorem forall_mem_congr_of_forall₂ {α β : Type} {R : α → β → Prop} {as : List α} {bs : List β}
    {p : α → Prop} {q : β → Prop} (h : List.Forall₂ R as bs) (hpq : ∀ a b, R a b → (p a ↔ q b)) :
    (∀ a ∈ as, p a) ↔ ∀ b ∈ bs, q b := by
  induction h with
  | nil => simp
  | cons hab _ ih => rw [List.forall_mem_cons, List.forall_mem_cons, hpq _ _ hab, ih]

end Acts.Gsc
