import Acts.Lib.Bytes

/-!
# Codecs

Formats that are read back in one pass:

* `Codec` — a writer and a reader that inverts it on the values that fit.
* `Codec.record` — a structure of little-endian fields.
* `Codec.counted` — a header that counts the items behind it.
* `Codec.readMany` — a table: entries in a row, whose number is kept elsewhere.
* `batches` — a list cut into batches, for entries with a narrow count.
-/

set_option autoImplicit false

namespace Acts

/-- A format of `α`.  A value that does not fit is written, but not read back. -/
structure Codec (α : Type) where
  Fits : α → Prop
  write : α → List UInt8
  read : List UInt8 → Option (α × List UInt8)
  read_write : ∀ a, Fits a → ∀ rest, read (write a ++ rest) = some (a, rest)

/-! ## Structures of fields -/

/-- Values, each with its width. -/
def writeFields : List Nat → List Nat → List UInt8
  | w :: ws, v :: vs => leBytes w v ++ writeFields ws vs
  | _, _ => []

def readFields : List Nat → List UInt8 → List Nat
  | [], _ => []
  | w :: ws, bytes => readLe w bytes :: readFields ws (bytes.drop w)

def FieldsFit : List Nat → List Nat → Prop
  | [], [] => True
  | w :: ws, v :: vs => v < 256 ^ w ∧ FieldsFit ws vs
  | _, _ => False

theorem length_writeFields {ws vs : List Nat} (h : FieldsFit ws vs) :
    (writeFields ws vs).length = ws.sum := by
  induction ws generalizing vs with
  | nil =>
    cases vs with
    | nil => rfl
    | cons v vs => exact h.elim
  | cons w ws ih =>
    cases vs with
    | nil => exact h.elim
    | cons v vs => simp [writeFields, ih h.2]

theorem readFields_writeFields {ws vs : List Nat} (h : FieldsFit ws vs) (rest : List UInt8) :
    readFields ws (writeFields ws vs ++ rest) = vs := by
  induction ws generalizing vs with
  | nil =>
    cases vs with
    | nil => rfl
    | cons v vs => exact h.elim
  | cons w ws ih =>
    cases vs with
    | nil => exact h.elim
    | cons v vs =>
      obtain ⟨hv, hvs⟩ := h
      have hdrop : (leBytes w v ++ (writeFields ws vs ++ rest)).drop w =
          writeFields ws vs ++ rest := List.drop_left' (length_leBytes w v)
      rw [writeFields, List.append_assoc, readFields, hdrop, ih hvs, readLe_leBytes,
        Nat.mod_eq_of_lt hv]

/-- A structure, through the values of its fields. -/
def Codec.record {α : Type} (widths : List Nat) (toFields : α → List Nat)
    (ofFields : List Nat → α) (of_to : ∀ a, ofFields (toFields a) = a) : Codec α where
  Fits a := FieldsFit widths (toFields a)
  write a := writeFields widths (toFields a)
  read bytes :=
    if bytes.length < widths.sum then none
    else some (ofFields (readFields widths bytes), bytes.drop widths.sum)
  read_write a h rest := by
    have hlen := length_writeFields h
    rw [if_neg (by rw [List.length_append]; omega), readFields_writeFields h, of_to,
      List.drop_left' hlen]

/-- A word of `n` bytes. -/
def Codec.word (n : Nat) : Codec Nat where
  Fits v := v < 256 ^ n
  write := leBytes n
  read bytes := if bytes.length < n then none else some (readLe n bytes, bytes.drop n)
  read_write v h rest := by
    rw [if_neg (by rw [List.length_append, length_leBytes]; omega), readLe_leBytes,
      Nat.mod_eq_of_lt h, List.drop_left' (length_leBytes n v)]

/-! ## Tables -/

namespace Codec

variable {α β : Type} (c : Codec α)

/-- `n` entries in a row. -/
def readMany : Nat → List UInt8 → Option (List α × List UInt8)
  | 0, bytes => some ([], bytes)
  | n + 1, bytes => do
    let (a, bytes) ← c.read bytes
    let (as, bytes) ← readMany n bytes
    some (a :: as, bytes)

theorem readMany_write {l : List α} (h : ∀ a ∈ l, c.Fits a) (rest : List UInt8) :
    c.readMany l.length (l.flatMap c.write ++ rest) = some (l, rest) := by
  induction l with
  | nil => rfl
  | cons a as ih =>
    have ha := c.read_write a (h a List.mem_cons_self) (as.flatMap c.write ++ rest)
    have has := ih fun b hb => h b (List.mem_cons_of_mem a hb)
    simp [readMany, List.append_assoc, ha, has]

/-- A smaller number reads the first entries. -/
theorem readMany_take {as : List α} (h : ∀ a ∈ as, c.Fits a) {n : Nat} (hn : n ≤ as.length)
    (rest : List UInt8) :
    (c.readMany n (as.flatMap c.write ++ rest)).map Prod.fst = some (as.take n) := by
  have hread := c.readMany_write (l := as.take n)
    (fun a ha => h a (List.mem_of_mem_take ha)) ((as.drop n).flatMap c.write ++ rest)
  rw [List.length_take, Nat.min_eq_left hn] at hread
  rw [← List.append_assoc, ← List.flatMap_append, List.take_append_drop] at hread
  rw [hread]
  rfl

/-- A header with the number of the items behind it. -/
def counted (header : Codec α) (count : α → Nat) (item : Codec β) : Codec (α × List β) where
  Fits p := header.Fits p.1 ∧ count p.1 = p.2.length ∧ ∀ b ∈ p.2, item.Fits b
  write p := header.write p.1 ++ p.2.flatMap item.write
  read bytes := do
    let (a, bytes) ← header.read bytes
    let (bs, bytes) ← item.readMany (count a) bytes
    some ((a, bs), bytes)
  read_write p h rest := by
    obtain ⟨ha, hcount, hbs⟩ := h
    have hitems := item.readMany_write hbs rest
    rw [← hcount] at hitems
    simp [List.append_assoc, header.read_write p.1 ha, hitems]

end Codec

/-! ## Batches -/

section Batches

variable {α : Type}

/-- `xs` in batches of `k`, the last of which may be shorter. -/
def batches (k : Nat) : List α → List (List α)
  | [] => []
  | x :: xs => (x :: xs.take (k - 1)) :: batches k (xs.drop (k - 1))
termination_by xs => xs.length
decreasing_by simp only [List.length_drop, List.length_cons]; omega

theorem flatten_batches (k : Nat) (xs : List α) : (batches k xs).flatten = xs := by
  induction xs using batches.induct k with
  | case1 => rw [batches, List.flatten_nil]
  | case2 x xs ih =>
    rw [batches, List.flatten_cons, ih, List.cons_append, List.take_append_drop]

theorem ne_nil_of_mem_batches {k : Nat} {xs b : List α} (h : b ∈ batches k xs) : b ≠ [] := by
  induction xs using batches.induct k with
  | case1 =>
    rw [batches] at h
    cases h
  | case2 x xs ih =>
    rw [batches] at h
    rcases List.mem_cons.mp h with rfl | h
    · simp
    · exact ih h

theorem length_le_of_mem_batches {k : Nat} (hk : 0 < k) {xs b : List α}
    (h : b ∈ batches k xs) : b.length ≤ k := by
  induction xs using batches.induct k with
  | case1 =>
    rw [batches] at h
    cases h
  | case2 x xs ih =>
    rw [batches] at h
    rcases List.mem_cons.mp h with rfl | h
    · rw [List.length_cons, List.length_take]
      omega
    · exact ih h

theorem length_batches {k : Nat} (hk : 0 < k) (xs : List α) :
    (batches k xs).length = (xs.length + (k - 1)) / k := by
  induction xs using batches.induct k with
  | case1 =>
    rw [batches, List.length_nil, List.length_nil, Nat.zero_add,
      Nat.div_eq_of_lt (Nat.sub_lt hk Nat.one_pos)]
  | case2 x xs ih =>
    rw [batches, List.length_cons, ih, List.length_drop, List.length_cons]
    by_cases hle : k - 1 ≤ xs.length
    · have hsum : xs.length + 1 + (k - 1) = xs.length - (k - 1) + (k - 1) + k := by omega
      rw [hsum, Nat.add_div_right _ hk]
    · rw [Nat.sub_eq_zero_of_le (by omega), Nat.zero_add,
        Nat.div_eq_of_lt (Nat.sub_lt hk Nat.one_pos)]
      exact (Nat.div_eq_of_lt_le (by omega) (by omega)).symm

end Batches

end Acts
