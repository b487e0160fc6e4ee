import Acts.Core.ByteBuffer

/-!
# Searching a byte buffer (`bytebuffer.hpp`)

`Find`, `FindAll`, `FindMasked` and `FindAllMasked` of a buffer with a position:

* `sameAt`, `maskedAt` — the two comparisons, at a place of the buffer; outside of the buffer there
  is nothing to compare.
* `findLoop`, `findAllLoop` — the two loops, over either comparison.
* `positions` — the places that fit in the buffer and pass a test, in order.
* `exact_iff` — **when the four searches find the occurrences, and only these.**
-/

set_option autoImplicit false

namespace Acts.Core.Bytebuffer

/-! ## Operations -/

section Operations

variable (b : ByteBuffer)

/-- `std::string::npos`. -/
def npos : Nat := 2 ^ 64 - 1

def bytesAt (pos n : Nat) : List UInt8 := (List.range n).map fun i => b.memory (pos + i)

/-- `memcmp(ptr, &buffer[pos], ptrSize) == 0`; `none` when not all of these bytes are in the
buffer. -/
def sameAt (needle : List UInt8) (pos : Nat) : Option Bool :=
  if needle = [] ∨ pos + needle.length ≤ b.len then
    some (decide (bytesAt b pos needle.length = needle))
  else none

/-- The inner loop of the masked searches, over the bytes of the needle with their masks. -/
def maskedAt : List (UInt8 × UInt8) → Nat → Option Bool
  | [], _ => some true
  | (c, mask) :: needle, pos =>
    if pos < b.len then
      if b.memory pos &&& mask ≠ c then some false else maskedAt needle (word (pos + 1))
    else none

/-- `curr++` makes the sum with the size one larger. -/
theorem next_word {b : ByteBuffer} {n curr : Nat} (h : word (curr + n) ≤ b.len) :
    word (word (curr + 1) + n) = word (curr + n) + 1 := by
  have hlen := b.len_lt
  unfold word at h ⊢
  omega

/-- The loop of the searches for one place. -/
def findLoop (test : Nat → Option Bool) (ptrSize curr : Nat) : Option Nat :=
  if word (curr + ptrSize) ≤ b.len then
    match test curr with
    | none => none
    | some true => some curr
    | some false => findLoop test ptrSize (word (curr + 1))
  else some npos
termination_by b.len + 1 - word (curr + ptrSize)
decreasing_by
  rw [next_word (by assumption)]
  omega

/-- The loop of the searches for all places. -/
def findAllLoop (test : Nat → Option Bool) (ptrSize curr : Nat) : Option (List Nat) :=
  if word (curr + ptrSize) ≤ b.len then
    match test curr with
    | none => none
    | some hit =>
      (findAllLoop test ptrSize (word (curr + 1))).map fun r => if hit then curr :: r else r
  else some []
termination_by b.len + 1 - word (curr + ptrSize)
decreasing_by
  rw [next_word (by assumption)]
  omega

variable (pointer : Nat)

/-- `Find`: `Ptr(curr)` counts from the position. -/
def find (needle : List UInt8) (offset : Nat) : Option Nat :=
  findLoop b (fun curr => sameAt b needle (word (pointer + curr))) needle.length
    (word (pointer + offset))

/-- `FindAll`. -/
def findAll (needle : List UInt8) : Option (List Nat) :=
  findAllLoop b (fun curr => sameAt b needle (word (pointer + curr))) needle.length pointer

/-- `FindMasked`. -/
def findMasked (needle : List (UInt8 × UInt8)) (offset : Nat) : Option Nat :=
  findLoop b (maskedAt b needle) needle.length (word (pointer + offset))

/-- `FindAllMasked`. -/
def findAllMasked (needle : List (UInt8 × UInt8)) : Option (List Nat) :=
  findAllLoop b (maskedAt b needle) needle.length pointer

end Operations

/-! ## What is to be found -/

/-- The needle with a mask of ones. -/
def allOnes (needle : List UInt8) : List (UInt8 × UInt8) := needle.map fun c => (c, 0xFF)

variable {b : ByteBuffer} {needle : List UInt8} {n curr q : Nat}

/-- The places from `curr` on where `n` bytes fit in the buffer and the test holds, in order. -/
def positions (b : ByteBuffer) (n : Nat) (test : Nat → Bool) (curr : Nat) : List Nat :=
  (List.range' curr (b.len + 1 - (curr + n))).filter test

theorem mem_positions {test : Nat → Bool} :
    q ∈ positions b n test curr ↔ curr ≤ q ∧ q + n ≤ b.len ∧ test q = true := by
  rw [positions, List.mem_filter, List.mem_range'_1]
  constructor
  · rintro ⟨hq, htest⟩
    exact ⟨hq.1, by omega, htest⟩
  · rintro ⟨hle, hfit, htest⟩
    exact ⟨by omega, htest⟩

theorem positions_nil {test : Nat → Bool} (h : b.len < curr + n) :
    positions b n test curr = [] := by
  rw [positions, show b.len + 1 - (curr + n) = 0 by omega]
  rfl

theorem positions_cons {test : Nat → Bool} (h : curr + n ≤ b.len) :
    positions b n test curr =
      if test curr then curr :: positions b n test (curr + 1)
      else positions b n test (curr + 1) := by
  rw [positions, show b.len + 1 - (curr + n) = (b.len + 1 - (curr + 1 + n)) + 1 by omega,
    List.range'_succ, List.filter_cons]
  rfl

/-- The needle is at a place. -/
def isAt (b : ByteBuffer) (needle : List UInt8) (q : Nat) : Bool :=
  decide (bytesAt b q needle.length = needle)

/-- The places from `curr` on where the needle is. -/
def occurrences (b : ByteBuffer) (needle : List UInt8) (curr : Nat) : List Nat :=
  positions b needle.length (isAt b needle) curr

/-- The four searches of a buffer at a position find the occurrences. -/
structure Exact (b : ByteBuffer) (pointer : Nat) (needle : List UInt8) (offset : Nat) : Prop where
  all : findAll b pointer needle = some (occurrences b needle pointer)
  allMasked : findAllMasked b pointer (allOnes needle) = some (occurrences b needle pointer)
  one : find b pointer needle offset =
    some ((occurrences b needle (pointer + offset)).headD npos)
  oneMasked : findMasked b pointer (allOnes needle) offset =
    some ((occurrences b needle (pointer + offset)).headD npos)

/-! ## The comparisons -/

theorem bytesAt_succ (b : ByteBuffer) (pos n : Nat) :
    bytesAt b pos (n + 1) = b.memory pos :: bytesAt b (pos + 1) n := by
  rw [bytesAt, List.range_succ_eq_map, List.map_cons, List.map_map]
  congr 1
  apply List.map_congr_left
  intro i _
  rw [Function.comp, Nat.add_assoc, Nat.add_comm 1]

theorem sameAt_inside (h : q + needle.length ≤ b.len) :
    sameAt b needle q = some (isAt b needle q) := by
  rw [sameAt, if_pos (.inr h)]
  rfl

theorem sameAt_outside (hne : needle ≠ []) (h : b.len < q + needle.length) :
    sameAt b needle q = none := by
  rw [sameAt, if_neg]
  rintro (hnil | hle)
  · exact hne hnil
  · omega

/-- With a mask of ones the masked comparison is the other one. -/
theorem maskedAt_inside (h : q + needle.length ≤ b.len) :
    maskedAt b (allOnes needle) q = some (isAt b needle q) := by
  have hlen := b.len_lt
  have hand : ∀ c : UInt8, c &&& 0xFF = c := by
    intro c
    rw [show (0xFF : UInt8) = -1 from rfl]
    exact UInt8.and_neg_one
  induction needle generalizing q with
  | nil => rfl
  | cons c needle ih =>
    rw [List.length_cons] at h
    have hword : word (q + 1) = q + 1 := Nat.mod_eq_of_lt (by omega)
    rw [allOnes, List.map_cons, maskedAt, if_pos (by omega), hand, hword, isAt, List.length_cons,
      bytesAt_succ]
    by_cases hc : b.memory q = c
    · rw [if_neg (not_not.mpr hc), ← allOnes, ih (by omega), isAt, hc]
      simp only [List.cons.injEq, true_and]
    · rw [if_pos hc]
      simp only [List.cons.injEq, hc, false_and, decide_false]

theorem maskedAt_outside {needle : List (UInt8 × UInt8)} (hne : needle ≠ []) (h : b.len ≤ q) :
    maskedAt b needle q = none := by
  cases needle with
  | nil => exact absurd rfl hne
  | cons c needle => rw [maskedAt, if_neg (by omega)]

/-! ## The loops -/

section Loops

variable {test : Nat → Option Bool} {p : Nat → Bool}

theorem findLoop_stop (h : b.len < word (curr + n)) : findLoop b test n curr = some npos := by
  rw [findLoop, if_neg (by omega)]

theorem findAllLoop_stop (h : b.len < word (curr + n)) : findAllLoop b test n curr = some [] := by
  rw [findAllLoop, if_neg (by omega)]

/-- A sum that is in the buffer, and the next one. -/
theorem fits_word (h : curr + n ≤ b.len) :
    word (curr + n) ≤ b.len ∧ word (curr + 1) = curr + 1 := by
  have hlen := b.len_lt
  unfold word
  omega

/-- A loop that starts in front of the end finds what its test finds. -/
theorem findLoop_eq (hn : curr + n < 2 ^ 64)
    (htest : ∀ q, curr ≤ q → q + n ≤ b.len → test q = some (p q)) :
    findLoop b test n curr = some ((positions b n p curr).headD npos) := by
  induction hk : b.len + 1 - (curr + n) generalizing curr with
  | zero =>
    rw [findLoop_stop (by rw [word, Nat.mod_eq_of_lt hn]; omega), positions_nil (by omega)]
    rfl
  | succ k ih =>
    have hlen := b.len_lt
    have hfit : curr + n ≤ b.len := by omega
    obtain ⟨hword, hnext⟩ := fits_word hfit
    rw [findLoop, if_pos hword, htest curr (Nat.le_refl _) hfit, positions_cons hfit]
    cases hp : p curr with
    | true => simp only [if_true, List.headD_cons]
    | false =>
      simp only [hnext, Bool.false_eq_true, if_false]
      exact ih (by omega) (fun q hq => htest q (by omega)) (by omega)

theorem findAllLoop_eq (hn : curr + n < 2 ^ 64)
    (htest : ∀ q, curr ≤ q → q + n ≤ b.len → test q = some (p q)) :
    findAllLoop b test n curr = some (positions b n p curr) := by
  induction hk : b.len + 1 - (curr + n) generalizing curr with
  | zero =>
    rw [findAllLoop_stop (by rw [word, Nat.mod_eq_of_lt hn]; omega), positions_nil (by omega)]
  | succ k ih =>
    have hlen := b.len_lt
    have hfit : curr + n ≤ b.len := by omega
    obtain ⟨hword, hnext⟩ := fits_word hfit
    rw [findAllLoop, if_pos hword, htest curr (Nat.le_refl _) hfit, positions_cons hfit]
    simp only [hnext]
    rw [ih (by omega) (fun q hq => htest q (by omega)) (by omega), Option.map_some]

/-- A search for all places makes all of its comparisons. -/
theorem findAllLoop_compares {r : List Nat} (h : findAllLoop b test n curr = some r)
    (hle : curr ≤ q) (hq : q + n ≤ b.len) : test q ≠ none := by
  induction hk : q - curr generalizing curr r with
  | zero =>
    obtain ⟨hword, -⟩ := fits_word (show curr + n ≤ b.len by omega)
    obtain rfl : q = curr := by omega
    rw [findAllLoop, if_pos hword] at h
    intro hnone
    rw [hnone] at h
    cases h
  | succ k ih =>
    obtain ⟨hword, hnext⟩ := fits_word (show curr + n ≤ b.len by omega)
    rw [findAllLoop, if_pos hword] at h
    cases htest : test curr with
    | none =>
      rw [htest] at h
      cases h
    | some hit =>
      simp only [htest, hnext] at h
      obtain ⟨r', hr', -⟩ := Option.map_eq_some_iff.mp h
      exact ih hr' (by omega) (by omega)

/-- A search for one place that finds none has made all of its comparisons. -/
theorem findLoop_compares (h : findLoop b test n curr = some npos) (hle : curr ≤ q)
    (hq : q + n ≤ b.len) : test q = some false := by
  have hlen := b.len_lt
  induction hk : q - curr generalizing curr with
  | zero =>
    obtain ⟨hword, -⟩ := fits_word (show curr + n ≤ b.len by omega)
    obtain rfl : q = curr := by omega
    rw [findLoop, if_pos hword] at h
    cases htest : test q with
    | none =>
      rw [htest] at h
      cases h
    | some hit =>
      cases hit with
      | false => rfl
      | true =>
        simp only [htest, Option.some.injEq] at h
        unfold npos at h
        omega
  | succ k ih =>
    obtain ⟨hword, hnext⟩ := fits_word (show curr + n ≤ b.len by omega)
    rw [findLoop, if_pos hword] at h
    cases htest : test curr with
    | none =>
      rw [htest] at h
      cases h
    | some hit =>
      cases hit with
      | true =>
        simp only [htest, Option.some.injEq] at h
        unfold npos at h
        omega
      | false =>
        simp only [htest, hnext] at h
        exact ih h (by omega) (by omega)

end Loops

/-! ## When the searches are exact -/

/-- The sum of the position and the offset wraps around, but from there on the needle is neither at
a place nor where `Find` looks for it. -/
def HarmlessWrap (b : ByteBuffer) (pointer : Nat) (needle : List UInt8) (offset : Nat) : Prop :=
  word (pointer + offset) + needle.length ≤ b.len ∧
    ∀ q, word (pointer + offset) ≤ q → q + needle.length ≤ b.len → isAt b needle q = false ∧
      word (pointer + q) + needle.length ≤ b.len ∧ isAt b needle (word (pointer + q)) = false

/-- The buffer is at its start, or there is nothing to compare; and no end of a comparison wraps
around into the buffer. -/
structure Searchable (b : ByteBuffer) (pointer : Nat) (needle : List UInt8) (offset : Nat) :
    Prop where
  start : pointer = 0 ∨ needle = [] ∨ b.len < pointer + needle.length
  noWrap : NoWrap b pointer needle.length
  harmless : NoWrap b (pointer + offset) needle.length ∨ HarmlessWrap b pointer needle offset

section Exact

variable {pointer offset : Nat}

theorem length_allOnes (needle : List UInt8) : (allOnes needle).length = needle.length :=
  List.length_map _

theorem allOnes_ne (h : needle ≠ []) : allOnes needle ≠ [] := by
  intro hnil
  exact h (List.map_eq_nil_iff.mp hnil)

/-- What `Find` compares, where the buffer is at its start or there is nothing to compare. -/
theorem sameAt_start (hstart : pointer = 0 ∨ needle = [] ∨ b.len < pointer + needle.length)
    (hle : pointer ≤ q) (hfit : q + needle.length ≤ b.len) :
    sameAt b needle (word (pointer + q)) = some (isAt b needle q) := by
  have hlen := b.len_lt
  rcases hstart with rfl | rfl | hend
  · rw [Nat.zero_add, word, Nat.mod_eq_of_lt (by omega)]
    exact sameAt_inside hfit
  · rfl
  · omega

/-- The searches for all places, in front of the end. -/
theorem searches_all (h : Searchable b pointer needle offset) :
    findAll b pointer needle = some (occurrences b needle pointer) ∧
      findAllMasked b pointer (allOnes needle) = some (occurrences b needle pointer) := by
  have hlen := b.len_lt
  unfold findAll findAllMasked occurrences
  rw [length_allOnes]
  rcases h.noWrap with hlt | hend
  · exact ⟨findAllLoop_eq hlt fun q hle hfit => sameAt_start h.start hle hfit,
      findAllLoop_eq hlt fun q _ hfit => maskedAt_inside hfit⟩
  · have hout : b.len < pointer + needle.length :=
      Nat.lt_of_lt_of_le hend (Nat.mod_le _ _)
    rw [findAllLoop_stop hend, findAllLoop_stop hend, positions_nil hout]
    exact ⟨rfl, rfl⟩

/-- The searches for one place. -/
theorem searches_one (h : Searchable b pointer needle offset) :
    find b pointer needle offset =
        some ((occurrences b needle (pointer + offset)).headD npos) ∧
      findMasked b pointer (allOnes needle) offset =
        some ((occurrences b needle (pointer + offset)).headD npos) := by
  have hlen := b.len_lt
  unfold find findMasked occurrences
  rw [length_allOnes]
  by_cases hno : NoWrap b (pointer + offset) needle.length
  · rcases hno with hlt | hend
    · have hword : word (pointer + offset) = pointer + offset := Nat.mod_eq_of_lt (by omega)
      rw [hword]
      refine ⟨findLoop_eq hlt fun q hle hfit => sameAt_start h.start (by omega) hfit,
        findLoop_eq hlt fun q _ hfit => maskedAt_inside hfit⟩
    · have hstop : b.len < word (word (pointer + offset) + needle.length) := by
        rw [Nat.add_comm, word_add_word, Nat.add_comm]
        exact hend
      have hout : b.len < pointer + offset + needle.length :=
        Nat.lt_of_lt_of_le hend (Nat.mod_le _ _)
      rw [findLoop_stop hstop, findLoop_stop hstop, positions_nil hout]
      exact ⟨rfl, rfl⟩
  · obtain ⟨hfit, hnone⟩ := h.harmless.resolve_left hno
    have hout : b.len < pointer + offset + needle.length := by
      unfold NoWrap at hno
      omega
    have hempty : positions b needle.length (fun _ => false) (word (pointer + offset)) = [] :=
      List.filter_eq_nil_iff.mpr fun _ _ => Bool.false_ne_true
    rw [positions_nil hout]
    constructor
    · rw [findLoop_eq (p := fun _ => false) (by omega), hempty]
      intro q hle hq
      obtain ⟨-, hinside, hat⟩ := hnone q hle hq
      rw [sameAt_inside hinside, hat]
    · rw [findLoop_eq (p := fun _ => false) (by omega), hempty]
      intro q hle hq
      rw [maskedAt_inside hq, (hnone q hle hq).1]

/-- Where the searches are exact, `FindAll` makes no comparison outside of the buffer. -/
theorem Exact.start (h : Exact b pointer needle offset) (hlen : b.len < 2 ^ 63) :
    pointer = 0 ∨ needle = [] ∨ b.len < pointer + needle.length := by
  by_contra hno
  push Not at hno
  obtain ⟨h0, hne, hle⟩ := hno
  have hpos := List.length_pos_iff.mpr hne
  -- the last place
  have hlast := findAllLoop_compares h.all (q := b.len - needle.length) (by omega) (by omega)
  apply hlast
  apply sameAt_outside hne
  rw [word, Nat.mod_eq_of_lt (by omega)]
  omega

theorem Exact.noWrap (h : Exact b pointer needle offset) (hlen : b.len < 2 ^ 63)
    (hn : needle.length < 2 ^ 63) (hp : pointer < 2 ^ 64) : NoWrap b pointer needle.length := by
  by_contra hno
  obtain ⟨hbig, hword⟩ := not_or.mp hno
  have hne : needle ≠ [] := by
    rintro rfl
    rw [List.length_nil] at hbig
    omega
  have hmasked := h.allMasked
  rw [findAllMasked, findAllLoop, length_allOnes, if_pos (Nat.le_of_not_lt hword),
    maskedAt_outside (allOnes_ne hne) (by omega)] at hmasked
  cases hmasked

theorem Exact.harmless (h : Exact b pointer needle offset) (hlen : b.len < 2 ^ 63)
    (hn : needle.length < 2 ^ 63) (hno : ¬NoWrap b (pointer + offset) needle.length) :
    HarmlessWrap b pointer needle offset := by
  obtain ⟨hbig, hword⟩ := not_or.mp hno
  have hcurr : word (word (pointer + offset) + needle.length) ≤ b.len := by
    rw [Nat.add_comm, word_add_word, Nat.add_comm]
    exact Nat.le_of_not_lt hword
  have hlt : word (pointer + offset) < 2 ^ 64 := Nat.mod_lt _ (by decide)
  have hmasked := h.oneMasked
  have hfind := h.one
  rw [occurrences, positions_nil (by omega), List.headD_nil] at hmasked hfind
  rw [findMasked, length_allOnes] at hmasked
  rw [find] at hfind
  -- otherwise the first comparison is outside of the buffer
  have hfit : word (pointer + offset) + needle.length ≤ b.len := by
    by_contra hout
    have hne : needle ≠ [] := by
      rintro rfl
      rw [List.length_nil, Nat.add_zero] at hcurr hout
      rw [word, Nat.mod_eq_of_lt hlt] at hcurr
      omega
    have hfar : b.len ≤ word (pointer + offset) := by
      rw [word] at hcurr
      omega
    rw [findLoop, if_pos hcurr, maskedAt_outside (allOnes_ne hne) hfar] at hmasked
    cases hmasked
  refine ⟨hfit, ?_⟩
  intro q hle hq
  have hm := findLoop_compares hmasked hle hq
  have hs := findLoop_compares hfind hle hq
  rw [maskedAt_inside hq] at hm
  rw [sameAt] at hs
  split at hs
  · rename_i hin
    have hfalse := Option.some.inj hs
    refine ⟨Option.some.inj hm, ?_, hfalse⟩
    rcases hin with rfl | hin
    · exact absurd hfalse Bool.true_eq_false.mp
    · exact hin
  · cases hs

end Exact

/-- **The four searches find the occurrences of the needle, and only these, exactly when the buffer
is at its start or there is nothing to compare, and no end wraps around into the buffer.** -/
theorem exact_iff (b : ByteBuffer) (pointer : Nat) (needle : List UInt8) (offset : Nat)
    (hlen : b.len < 2 ^ 63) (hn : needle.length < 2 ^ 63) (hp : pointer < 2 ^ 64) :
    Exact b pointer needle offset ↔ Searchable b pointer needle offset := by
  constructor
  · intro h
    refine ⟨h.start hlen, h.noWrap hlen hn hp, ?_⟩
    by_cases hno : NoWrap b (pointer + offset) needle.length
    · exact .inl hno
    · exact .inr (h.harmless hlen hn hno)
  · intro h
    exact ⟨(searches_all h).1, (searches_all h).2, (searches_one h).1, (searches_one h).2⟩

/-- The buffer of the bytes 0, 1, 2 and so on. -/
def counting (len : Nat) (h : len + 1 < 2 ^ 64) : ByteBuffer := ⟨fun i => UInt8.ofNat i, len, h⟩

/-- A buffer at its start. -/
theorem exact_counting :
    Exact (counting 8 (by decide)) 0 [2, 3] 1 ↔ Searchable (counting 8 (by decide)) 0 [2, 3] 1 :=
  exact_iff (counting 8 (by decide)) 0 [2, 3] 1 (by decide) (by decide) (by decide)

/-- At position 2 the bytes 4, 5 are at 4, but `Find` says 2; `FindAll` reads behind the buffer. -/
theorem find_doubles_position :
    let b := counting 8 (by decide)
    find b 2 [4, 5] 0 = some 2 ∧ findMasked b 2 (allOnes [4, 5]) 0 = some 4 ∧
      findAll b 2 [4, 5] = none ∧ findAllMasked b 2 (allOnes [4, 5]) = some [4] := by
  decide +kernel

end Acts.Core.Bytebuffer
