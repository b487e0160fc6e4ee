import Acts.Lib.Cells
import Acts.Lib.Outcome

/-!
# Compact data (`data/compact.hpp`)

* `Bitmap64` — one bit for an index.
* `Sequence` — `numbits` bits for an index, in words of 64.
* `bitAt_setData` — the bits of a sequence behind a `Set`.
* `compact_reads_iff` — **the runs of `Set` whose last values are read back.**
-/

set_option autoImplicit false

namespace Acts.Actslib.Compact

open Cells

/-! ## Bitmaps -/

/-- The words are bytes; `datalen` is their number. -/
structure Bitmap64 where
  data : List (BitVec 8)
  datalen : Nat
  deriving DecidableEq, Repr

inductive CompactError where
  /-- "Trying to add in a bitmap an element outside the words! …" -/
  | outsideWords (id word datalen : Nat)
  /-- A write outside the buffer, which nothing checks. -/
  | invalidWrite (word : Nat)
  /-- "empty data" -/
  | emptyData
  /-- "numbits can't be above …" -/
  | tooWide (numbits : Nat)
  /-- "value is above limit for this structure …" -/
  | aboveLimit (value maxValue : BitVec 64)
  deriving DecidableEq, Repr

namespace Bitmap64

def wordOfId (id : Nat) : Nat := id >>> 3

/-- `operator[]`. -/
def get (bitmap : Bitmap64) (id : Nat) : Bool :=
  let word := wordOfId id
  if word ≥ bitmap.datalen then false
  else bitmap.data.getD word 0 &&& (1#8 <<< (id &&& 7)) != 0

def set (id : Nat) (value : Bool) : EStateM CompactError Bitmap64 Unit := fun bitmap =>
  let word := wordOfId id
  if value then
    if word ≥ bitmap.datalen then .error (.outsideWords id word bitmap.datalen) bitmap
    else
      .ok () { bitmap with
        data := bitmap.data.set word (bitmap.data.getD word 0 ||| (1#8 <<< (id &&& 7))) }
  else if word ≥ bitmap.data.length then .error (.invalidWrite word) bitmap
  else
    .ok () { bitmap with
      data := bitmap.data.set word (bitmap.data.getD word 0 &&& ~~~(1#8 <<< (id &&& 7))) }

end Bitmap64

/-! ## Sequences -/

/-- A shift takes its count modulo 64, as x86-64 does; C++ leaves it undefined from 64 on. -/
def shl (x : BitVec 64) (count : Nat) : BitVec 64 := x <<< (count % 64)

def shr (x : BitVec 64) (count : Nat) : BitVec 64 := x >>> (count % 64)

structure Sequence where
  data : List (BitVec 64)
  datalen : Nat
  numbits : Nat
  maxValue : BitVec 64
  deriving DecidableEq, Repr

namespace Sequence

/-- The constructor; a null pointer is `none`. -/
def new (data : Option (List (BitVec 64))) (datalen numbits : Nat) :
    Except CompactError Sequence :=
  let maxValue := if numbits = 8 <<< 3 then ~~~0 else shl 1 numbits - 1
  if datalen ≠ 0 ∧ numbits ≠ 0 ∧ data = none then .error .emptyData
  else if numbits > 64 then .error (.tooWide numbits)
  else .ok ⟨data.getD [], datalen, numbits, maxValue⟩

/-- `operator[]`. -/
def get (s : Sequence) (id : Nat) : BitVec 64 :=
  let offset := id * s.numbits % 2 ^ 64
  let word := offset / 64
  let wordOff := offset % 64
  if wordOff + s.numbits > 64 then
    shr (s.data.getD word 0) wordOff |||
      shr (shl (s.data.getD (word + 1) 0) ((64 <<< 1) - wordOff - s.numbits)) (64 - s.numbits)
  else shr (shl (s.data.getD word 0) (64 - wordOff - s.numbits)) (64 - s.numbits)

/-- The words behind `Set`. -/
def setData (s : Sequence) (id : Nat) (value : BitVec 64) : List (BitVec 64) :=
  let offset := id * s.numbits % 2 ^ 64
  let word := offset / 64
  let wordOff := offset % 64
  let mask := shl (~~~(shl (~~~0) s.numbits)) wordOff
  let data := s.data.set word ((s.data.getD word 0 &&& ~~~mask) ||| shl value wordOff)
  if wordOff + s.numbits > 64 then
    let mask := shl (~~~0) (s.numbits + wordOff - 64)
    data.set (word + 1) ((data.getD (word + 1) 0 &&& mask) ||| shr value (64 - wordOff))
  else data

def set (id : Nat) (value : BitVec 64) : EStateM CompactError Sequence Unit := fun s =>
  if value > s.maxValue then .error (.aboveLimit value s.maxValue) s
  else .ok () { s with data := s.setData id value }

end Sequence

/-! ## Bits of a sequence -/

namespace Sequence

/-- What the constructor leaves, over a buffer of less than `2 ^ 61` bytes: x86-64 addresses have
no more. -/
structure WellFormed (s : Sequence) : Prop where
  pos : 1 ≤ s.numbits
  le : s.numbits ≤ 64
  size : 64 * s.data.length ≤ 2 ^ 64
  maxValue : s.maxValue.toNat = 2 ^ s.numbits - 1

/-- The bits of `id` are in the buffer. -/
def InRange (s : Sequence) (id : Nat) : Prop :=
  id * s.numbits + s.numbits ≤ 64 * s.data.length

variable {s : Sequence} {id : Nat}

theorem getLsbD_shl (x : BitVec 64) {count : Nat} (h : count < 64) (j : Nat) :
    (shl x count).getLsbD j = (decide (j < 64) && !decide (j < count) && x.getLsbD (j - count)) := by
  rw [shl, Nat.mod_eq_of_lt h, BitVec.getLsbD_shiftLeft]

theorem getLsbD_shr (x : BitVec 64) {count : Nat} (h : count < 64) (j : Nat) :
    (shr x count).getLsbD j = x.getLsbD (count + j) := by
  rw [shr, Nat.mod_eq_of_lt h, BitVec.getLsbD_ushiftRight]

theorem offset_eq (hs : s.WellFormed) (hid : s.InRange id) :
    id * s.numbits % 2 ^ 64 = id * s.numbits := by
  have hpos := hs.pos
  have hsize := hs.size
  unfold InRange at hid
  exact Nat.mod_eq_of_lt (by omega)

/-- A bit at most 128 behind an offset is in the same word or in the next. -/
theorem bitAt_offset (words : List (BitVec 64)) {offset k : Nat} (h : offset % 64 + k < 128) :
    bitAt words (offset + k) =
      if offset % 64 + k < 64 then (words.getD (offset / 64) 0).getLsbD (offset % 64 + k)
      else (words.getD (offset / 64 + 1) 0).getLsbD (offset % 64 + k - 64) := by
  unfold bitAt
  split
  · rw [show (offset + k) / 64 = offset / 64 by omega,
      show (offset + k) % 64 = offset % 64 + k by omega]
  · rw [show (offset + k) / 64 = offset / 64 + 1 by omega,
      show (offset + k) % 64 = offset % 64 + k - 64 by omega]

/-- A field taken out by two shifts. -/
theorem getLsbD_field (x : BitVec 64) {left right : Nat} (hleft : left < 64) (hright : right < 64)
    (j : Nat) :
    (shr (shl x left) right).getLsbD j =
      if right + j < 64 ∧ left ≤ right + j then x.getLsbD (right + j - left) else false := by
  rw [getLsbD_shr _ hright, getLsbD_shl _ hleft]
  split
  · rename_i h
    simp [h]
  · rename_i h
    by_cases hlt : right + j < 64
    · have : right + j < left := by omega
      simp [this]
    · simp [hlt]

/-- `operator[]` reads the bits of its index. -/
theorem getLsbD_get (hs : s.WellFormed) (hid : s.InRange id) {j : Nat} (hj : j < s.numbits) :
    (s.get id).getLsbD j = bitAt s.data (id * s.numbits + j) := by
  have hle := hs.le
  rw [bitAt_offset s.data (by omega)]
  unfold get
  rw [offset_eq hs hid]
  by_cases htwo : id * s.numbits % 64 + s.numbits > 64
  · simp only [htwo, if_true, BitVec.getLsbD_or]
    rw [show (64 <<< 1 : Nat) = 128 from rfl, getLsbD_shr _ (by omega),
      getLsbD_field _ (by omega) (by omega)]
    by_cases hfirst : id * s.numbits % 64 + j < 64
    · rw [if_pos hfirst, if_neg (by omega), Bool.or_false]
    · rw [if_neg hfirst, if_pos (by omega), BitVec.getLsbD_of_ge _ _ (by omega), Bool.false_or]
      congr 1
      omega
  · simp only [htwo, if_false]
    rw [getLsbD_field _ (by omega) (by omega), if_pos (by omega), if_pos (by omega)]
    congr 1
    omega

/-- There are no bits above the width. -/
theorem getLsbD_get_of_ge (hs : s.WellFormed) (hid : s.InRange id) {j : Nat}
    (hj : s.numbits ≤ j) : (s.get id).getLsbD j = false := by
  have hpos := hs.pos
  have hle := hs.le
  unfold get
  rw [offset_eq hs hid]
  by_cases htwo : id * s.numbits % 64 + s.numbits > 64
  · simp only [htwo, if_true, BitVec.getLsbD_or]
    rw [show (64 <<< 1 : Nat) = 128 from rfl, getLsbD_shr _ (by omega),
      getLsbD_field _ (by omega) (by omega), if_neg (by omega), BitVec.getLsbD_of_ge _ _ (by omega)]
    rfl
  · simp only [htwo, if_false]
    rw [getLsbD_field _ (by omega) (by omega), if_neg (by omega)]

theorem getLsbD_shl_ones {count : Nat} (h : count < 64) (j : Nat) :
    (shl (~~~0) count).getLsbD j = decide (count ≤ j ∧ j < 64) := by
  rw [getLsbD_shl _ h, BitVec.getLsbD_not, Bool.eq_iff_iff]
  simp
  omega

/-- The mask of `Set` covers the bits of its index; with 64 bits it is empty. -/
theorem getLsbD_mask (hs : s.WellFormed) {wordOff : Nat} (hoff : wordOff < 64) (j : Nat) :
    (shl (~~~(shl (~~~0) s.numbits)) wordOff).getLsbD j =
      decide (s.numbits < 64 ∧ wordOff ≤ j ∧ j < wordOff + s.numbits ∧ j < 64) := by
  by_cases hfull : s.numbits < 64
  · rw [getLsbD_shl _ hoff, BitVec.getLsbD_not, getLsbD_shl_ones hfull, Bool.eq_iff_iff]
    simp
    omega
  · have h64 : s.numbits = 64 := Nat.le_antisymm hs.le (Nat.le_of_not_lt hfull)
    have hempty : ~~~(shl (~~~0) 64) = 0 := by decide
    rw [h64, hempty, shl]
    simp

/-- The word that `Set` writes first. -/
def firstWord (old value : BitVec 64) (numbits wordOff : Nat) : BitVec 64 :=
  (old &&& ~~~(shl (~~~(shl (~~~0) numbits)) wordOff)) ||| shl value wordOff

/-- The word that it writes behind it if the bits do not fit. -/
def secondWord (old value : BitVec 64) (numbits wordOff : Nat) : BitVec 64 :=
  (old &&& shl (~~~0) (numbits + wordOff - 64)) ||| shr value (64 - wordOff)

theorem getLsbD_of_fits {value : BitVec 64} {n j : Nat} (h : value.toNat < 2 ^ n) (hj : n ≤ j) :
    value.getLsbD j = false :=
  Nat.testBit_lt_two_pow (Nat.lt_of_lt_of_le h (Nat.pow_le_pow_right (by decide) hj))

theorem getLsbD_firstWord (hs : s.WellFormed) {old value : BitVec 64} {wordOff j : Nat}
    (hfits : value.toNat < 2 ^ s.numbits) (hoff : wordOff < 64) (hj : j < 64) :
    (firstWord old value s.numbits wordOff).getLsbD j =
      if wordOff ≤ j ∧ j < wordOff + s.numbits then
        value.getLsbD (j - wordOff) || (decide (s.numbits = 64) && old.getLsbD j)
      else old.getLsbD j := by
  have hle := hs.le
  unfold firstWord
  rw [BitVec.getLsbD_or, BitVec.getLsbD_and, BitVec.getLsbD_not, getLsbD_mask hs hoff,
    getLsbD_shl _ hoff]
  split
  · rename_i h
    have hge : ¬ j < wordOff := by omega
    by_cases hfull : s.numbits = 64
    · simp [hfull, hj, hge, Bool.or_comm]
    · have hnarrow : s.numbits < 64 := by omega
      simp [hfull, hj, h, hge, hnarrow]
  · rename_i h
    by_cases hlt : j < wordOff
    · simp [hlt, hj]
    · rw [getLsbD_of_fits hfits (by omega)]
      simp [hj]
      omega

theorem getLsbD_secondWord (hs : s.WellFormed) {old value : BitVec 64} {wordOff j : Nat}
    (hfits : value.toNat < 2 ^ s.numbits) (hoff : wordOff < 64)
    (htwo : wordOff + s.numbits > 64) (hj : j < 64) :
    (secondWord old value s.numbits wordOff).getLsbD j =
      if j < wordOff + s.numbits - 64 then value.getLsbD (64 - wordOff + j) else old.getLsbD j := by
  have hle := hs.le
  unfold secondWord
  rw [BitVec.getLsbD_or, BitVec.getLsbD_and, getLsbD_shl_ones (by omega), getLsbD_shr _ (by omega)]
  split
  · simp
    omega
  · rw [getLsbD_of_fits hfits (by omega)]
    simp
    omega

theorem setData_eq (hs : s.WellFormed) (hid : s.InRange id) (value : BitVec 64) :
    s.setData id value =
      let word := id * s.numbits / 64
      let wordOff := id * s.numbits % 64
      let data := s.data.set word (firstWord (s.data.getD word 0) value s.numbits wordOff)
      if wordOff + s.numbits > 64 then
        data.set (word + 1) (secondWord (s.data.getD (word + 1) 0) value s.numbits wordOff)
      else data := by
  unfold setData
  rw [offset_eq hs hid]
  simp [firstWord, secondWord]

/-- **`Set` writes the bits of its index and no others**; with 64 bits it only adds them. -/
theorem bitAt_setData (hs : s.WellFormed) (hid : s.InRange id) {value : BitVec 64}
    (hfits : value.toNat < 2 ^ s.numbits) (i : Nat) :
    bitAt (s.setData id value) i =
      if id * s.numbits ≤ i ∧ i < id * s.numbits + s.numbits then
        value.getLsbD (i - id * s.numbits) || (decide (s.numbits = 64) && bitAt s.data i)
      else bitAt s.data i := by
  have hpos := hs.pos
  have hle := hs.le
  unfold InRange at hid
  rw [setData_eq hs hid]
  dsimp only
  have hword : id * s.numbits / 64 < s.data.length := by omega
  have hi : i % 64 < 64 := Nat.mod_lt i (by decide)
  have hold {k : Nat} (h : i / 64 = k) :
      (s.data.getD k 0).getLsbD (i % 64) = bitAt s.data i := by
    rw [← h]
    rfl
  have hoff : id * s.numbits % 64 < 64 := Nat.mod_lt _ (by decide)
  by_cases htwo : id * s.numbits % 64 + s.numbits > 64
  · have hnarrow : s.numbits ≠ 64 := by
      intro h64
      rw [h64] at htwo
      omega
    rw [if_pos htwo, bitAt_set (by rw [List.length_set]; omega), bitAt_set hword]
    by_cases hsecond : i / 64 = id * s.numbits / 64 + 1
    · rw [if_pos hsecond, getLsbD_secondWord hs hfits hoff htwo hi, hold hsecond]
      by_cases hin : i % 64 < id * s.numbits % 64 + s.numbits - 64
      · rw [if_pos hin, if_pos (by omega)]
        simp only [hnarrow, decide_false, Bool.false_and, Bool.or_false]
        congr 1
        omega
      · rw [if_neg hin, if_neg (by omega)]
    · rw [if_neg hsecond]
      by_cases hfirst : i / 64 = id * s.numbits / 64
      · rw [if_pos hfirst, getLsbD_firstWord hs hfits hoff hi, hold hfirst]
        by_cases hin : id * s.numbits % 64 ≤ i % 64
        · rw [if_pos (by omega), if_pos (by omega)]
          congr 2
          omega
        · rw [if_neg (by omega), if_neg (by omega)]
      · rw [if_neg hfirst, if_neg (by omega)]
  · rw [if_neg htwo, bitAt_set hword, getLsbD_firstWord hs hfits hoff hi]
    by_cases hfirst : i / 64 = id * s.numbits / 64
    · rw [if_pos hfirst, hold hfirst]
      by_cases hin : id * s.numbits ≤ i ∧ i < id * s.numbits + s.numbits
      · rw [if_pos (by omega), if_pos hin]
        congr 2
        omega
      · rw [if_neg (by omega), if_neg hin]
    · rw [if_neg hfirst, if_neg (by omega)]

/-! ## Runs of a sequence -/

theorem length_setData (s : Sequence) (id : Nat) (value : BitVec 64) :
    (s.setData id value).length = s.data.length := by
  unfold setData
  dsimp only
  split
  · simp
  · simp

/-- The state behind a call of `Set`, which may throw. -/
def call (s : Sequence) (c : Nat × BitVec 64) : Sequence :=
  match set c.1 c.2 s with
  | .ok _ s => s
  | .error _ s => s

/-- The value has at most `numbits` bits. -/
def fits (numbits : Nat) (value : BitVec 64) : Bool := decide (value.toNat < 2 ^ numbits)

/-- In every state of the run an index reads as the last value set at it. -/
def Reads (s : Sequence) (calls : List (Nat × BitVec 64)) : Prop :=
  ∀ done, done <+: calls → ∀ id, s.InRange id →
    (done.foldl call s).get id = (lastSet (fits s.numbits) done id).getD (s.get id)

theorem fits_iff (hs : s.WellFormed) (value : BitVec 64) :
    value > s.maxValue ↔ fits s.numbits value = false := by
  have hmax := hs.maxValue
  have hpow : 0 < 2 ^ s.numbits := Nat.two_pow_pos _
  show s.maxValue.toNat < value.toNat ↔ _
  simp [fits]
  omega

/-- A value that does not fit is rejected. -/
theorem set_rejects (hs : s.WellFormed) (id : Nat) {value : BitVec 64}
    (h : 2 ^ s.numbits ≤ value.toNat) :
    set id value s = .error (.aboveLimit value s.maxValue) s := by
  unfold set
  rw [if_pos ((fits_iff hs value).mpr (decide_eq_false (Nat.not_lt.mpr h)))]

theorem call_eq (hs : s.WellFormed) (id : Nat) (value : BitVec 64) :
    s.call (id, value) =
      if fits s.numbits value then { s with data := s.setData id value } else s := by
  unfold call set
  by_cases h : fits s.numbits value
  · rw [if_pos h, if_neg (by rw [fits_iff hs, h]; decide)]
  · rw [if_neg h, if_pos ((fits_iff hs value).mpr (Bool.eq_false_iff.mpr h))]

/-- Bits of different indexes are different bits. -/
theorem disjoint_ids {id id' n j : Nat} (hne : id ≠ id') (hj : j < n) :
    ¬ (id * n ≤ id' * n + j ∧ id' * n + j < id * n + n) := by
  rcases Nat.lt_or_gt_of_ne hne with hlt | hgt
  · have hle : (id + 1) * n ≤ id' * n := Nat.mul_le_mul_right n hlt
    rw [Nat.succ_mul] at hle
    omega
  · have hle : (id' + 1) * n ≤ id * n := Nat.mul_le_mul_right n hgt
    rw [Nat.succ_mul] at hle
    omega

theorem WellFormed.setData (hs : s.WellFormed) (id : Nat) (value : BitVec 64) :
    WellFormed { s with data := s.setData id value } where
  pos := hs.pos
  le := hs.le
  size := by
    rw [length_setData]
    exact hs.size
  maxValue := hs.maxValue

/-- What is read behind an accepted call. -/
theorem get_setData (hs : s.WellFormed) (hid : s.InRange id) {id' : Nat} (hid' : s.InRange id')
    {value : BitVec 64} (hfits : value.toNat < 2 ^ s.numbits) :
    Sequence.get { s with data := s.setData id value } id' =
      if id = id' then (if s.numbits = 64 then value ||| s.get id else value) else s.get id' := by
  have hs' := hs.setData id value
  have hid'' : InRange { s with data := s.setData id value } id' := by
    unfold InRange
    rw [length_setData]
    exact hid'
  apply BitVec.eq_of_getLsbD_eq
  intro j hj64
  by_cases hj : j < s.numbits
  · refine (getLsbD_get hs' hid'' hj).trans ?_
    show bitAt (s.setData id value) (id' * s.numbits + j) = _
    rw [bitAt_setData hs hid hfits]
    by_cases hsame : id = id'
    · subst hsame
      rw [if_pos (by omega), if_pos rfl, Nat.add_sub_cancel_left, ← getLsbD_get hs hid hj]
      by_cases hfull : s.numbits = 64
      · simp [hfull]
      · simp [hfull]
    · rw [if_neg hsame, if_neg (disjoint_ids hsame hj), getLsbD_get hs hid' hj]
  · have hnarrow : s.numbits ≠ 64 := by omega
    rw [getLsbD_get_of_ge hs' hid'' (Nat.le_of_not_lt hj), if_neg hnarrow]
    split
    · rw [getLsbD_of_fits hfits (Nat.le_of_not_lt hj)]
    · rw [getLsbD_get_of_ge hs hid' (Nat.le_of_not_lt hj)]

/-- With 64 bits an index is a word. -/
theorem get_wide (hs : s.WellFormed) (hid : s.InRange id) (hfull : s.numbits = 64) :
    s.get id = s.data.getD id 0 := by
  have hoffset : id * s.numbits / 64 = id ∧ id * s.numbits % 64 = 0 := by
    rw [hfull]
    omega
  unfold get
  rw [offset_eq hs hid]
  dsimp only
  rw [hoffset.1, hoffset.2, hfull]
  simp [shr, shl]

/-- What a run of calls keeps of the sequence. -/
structure SameShape (s t : Sequence) : Prop where
  wellFormed : t.WellFormed
  numbits : t.numbits = s.numbits
  length : t.data.length = s.data.length

theorem SameShape.inRange {t : Sequence} (h : SameShape s t) :
    t.InRange id ↔ s.InRange id := by
  unfold InRange
  rw [h.numbits, h.length]

theorem SameShape.call {t : Sequence} (h : SameShape s t) (c : Nat × BitVec 64) :
    SameShape s (t.call c) := by
  obtain ⟨id, value⟩ := c
  rw [call_eq h.wellFormed]
  split
  · exact ⟨h.wellFormed.setData id value, h.numbits, (length_setData t id value).trans h.length⟩
  · exact h

theorem SameShape.run {t : Sequence} (h : SameShape s t) (calls : List (Nat × BitVec 64)) :
    SameShape s (calls.foldl Sequence.call t) := by
  induction calls generalizing t with
  | nil => exact h
  | cons c calls ih => exact ih (h.call c)

/-- An accepted call sets its index; with 64 bits it only adds to it. -/
theorem get_call {t : Sequence} (h : SameShape s t) {c : Nat × BitVec 64} (hc : s.InRange c.1)
    (hid : s.InRange id) :
    (t.call c).get id =
      if fits s.numbits c.2 = true ∧ c.1 = id then
        (if s.numbits = 64 then c.2 ||| t.data.getD c.1 0 else c.2)
      else t.get id := by
  obtain ⟨id', value⟩ := c
  rw [call_eq h.wellFormed, ← h.numbits]
  dsimp only
  by_cases hfits : fits t.numbits value
  · rw [if_pos hfits, get_setData h.wellFormed (h.inRange.mpr hc) (h.inRange.mpr hid)
      (of_decide_eq_true hfits)]
    by_cases hsame : id' = id
    · have hset : fits t.numbits value = true ∧ id' = id := ⟨hfits, hsame⟩
      rw [if_pos hsame, if_pos hset]
      split
      · rename_i hfull
        rw [get_wide h.wellFormed (h.inRange.mpr hc) hfull]
      · rfl
    · rw [if_neg hsame, if_neg (fun hand => hsame hand.2)]
  · rw [if_neg hfits, if_neg (fun hand => hfits hand.1)]

/-- With 64 bits, no bit of the old word is missing in the value. -/
def KeepsBits (s : Sequence) (c : Nat × BitVec 64) : Prop :=
  s.numbits < 64 ∨ c.2 ||| s.data.getD c.1 0 = c.2

/-- **The last values are read back iff no call of the run drops a bit of a full word.** -/
theorem calls_read_iff (hs : s.WellFormed) {calls : List (Nat × BitVec 64)}
    (hcalls : ∀ c ∈ calls, s.InRange c.1) :
    s.Reads calls ↔ ∀ done c, done ++ [c] <+: calls → KeepsBits (done.foldl call s) c := by
  have hshape : SameShape s s := ⟨hs, rfl, rfl⟩
  constructor
  · intro hreads done c hprefix
    have hc : s.InRange c.1 := hcalls c ( hprefix.subset (by simp))
    have hdone : SameShape s (done.foldl call s) := hshape.run done
    by_cases hnarrow : s.numbits < 64
    · exact .inl (hdone.numbits ▸ hnarrow)
    · have hfull : s.numbits = 64 := Nat.le_antisymm hs.le (Nat.le_of_not_lt hnarrow)
      have hfits : fits s.numbits c.2 = true := by
        rw [hfull]
        exact decide_eq_true c.2.isLt
      have hread := hreads (done ++ [c]) hprefix c.1 hc
      have hset : fits s.numbits c.2 = true ∧ c.1 = c.1 := ⟨hfits, rfl⟩
      rw [lastSet_concat, if_pos hset, List.foldl_append] at hread
      have hcall := get_call hdone hc hc
      rw [if_pos hset, if_pos hfull] at hcall
      exact .inr (hcall.symm.trans hread)
  · intro hkeeps done hdone
    have hstep : ∀ t c, SameShape s t → s.InRange c.1 ∧ KeepsBits t c → SameShape s (t.call c) ∧
        ∀ id, s.InRange id → (t.call c).get id =
          if fits s.numbits c.2 = true ∧ c.1 = id then c.2 else t.get id := by
      rintro t c ht ⟨hc, hkeep⟩
      refine ⟨ht.call c, fun id hid => (get_call ht hc hid).trans ?_⟩
      split
      · rcases hkeep with hnarrow | hkeep
        · rw [ht.numbits] at hnarrow
          exact if_neg (Nat.ne_of_lt hnarrow)
        · rw [hkeep]
          split
          · rfl
          · rfl
      · rfl
    refine (run_reads hstep hshape fun done' c h => ⟨?_, ?_⟩).2
    · exact hcalls c ((h.trans hdone).subset (by simp))
    · exact hkeeps done' c (h.trans hdone)

end Sequence

/-! ## Runs of a bitmap -/

namespace Bitmap64

variable {bitmap : Bitmap64} {id : Nat}

/-- The bit of `id` is in the buffer. -/
def InRange (bitmap : Bitmap64) (id : Nat) : Prop := id / 8 < bitmap.datalen

/-- The state behind a call of `Set`, which may throw. -/
def call (bitmap : Bitmap64) (c : Nat × Bool) : Bitmap64 :=
  match set c.1 c.2 bitmap with
  | .ok _ bitmap => bitmap
  | .error _ bitmap => bitmap

/-- In every state of the run an index reads as the last value set at it. -/
def Reads (bitmap : Bitmap64) (calls : List (Nat × Bool)) : Prop :=
  ∀ done, done <+: calls → ∀ id, bitmap.InRange id →
    (done.foldl call bitmap).get id = (lastSet (fun _ => true) done id).getD (bitmap.get id)

theorem inRange_congr {t : Bitmap64} (h : t.datalen = bitmap.datalen) :
    t.InRange id ↔ bitmap.InRange id := by
  unfold InRange
  rw [h]

theorem wordOfId_eq (id : Nat) : wordOfId id = id / 8 ∧ id &&& 7 = id % 8 :=
  ⟨Nat.shiftRight_eq_div_pow id 3, Nat.and_two_pow_sub_one_eq_mod id 3⟩

theorem get_eq (hid : bitmap.InRange id) : bitmap.get id = bitAt bitmap.data id := by
  unfold InRange at hid
  unfold get bitAt
  rw [(wordOfId_eq id).1, (wordOfId_eq id).2, ← BitVec.twoPow_eq]
  dsimp only
  rw [if_neg (Nat.not_le.mpr hid), BitVec.and_twoPow]
  split
  · rename_i h
    rw [h]
    have hbit : ∀ k : Fin 8, (BitVec.twoPow 8 k != 0) = true := by decide
    exact hbit ⟨id % 8, Nat.mod_lt id (by decide)⟩
  · rename_i h
    rw [Bool.eq_false_iff.mpr h]
    rfl

/-- A bit outside the words is not set. -/
theorem set_rejects (hid : ¬ bitmap.InRange id) :
    set id true bitmap = .error (.outsideWords id (id / 8) bitmap.datalen) bitmap := by
  unfold InRange at hid
  unfold set
  rw [(wordOfId_eq id).1]
  exact if_pos (Nat.le_of_not_lt hid)

/-- One bit is set or cleared. -/
theorem getLsbD_bit (x : BitVec 8) (k : Nat) {j : Nat} (hj : j < 8) :
    (x ||| 1#8 <<< k).getLsbD j = (if j = k then true else x.getLsbD j) ∧
      (x &&& ~~~(1#8 <<< k)).getLsbD j = (if j = k then false else x.getLsbD j) := by
  rw [← BitVec.twoPow_eq]
  by_cases h : j = k
  · subst h
    simp [hj]
  · simp [hj, h]

theorem call_eq (hlen : bitmap.data.length = bitmap.datalen) {c : Nat × Bool}
    (hc : bitmap.InRange c.1) :
    bitmap.call c = { bitmap with
      data := bitmap.data.set (c.1 / 8) (
        if c.2 then bitmap.data.getD (c.1 / 8) 0 ||| 1#8 <<< (c.1 % 8)
        else bitmap.data.getD (c.1 / 8) 0 &&& ~~~(1#8 <<< (c.1 % 8))) } := by
  obtain ⟨id, value⟩ := c
  unfold InRange at hc
  unfold call set
  rw [(wordOfId_eq id).1, (wordOfId_eq id).2]
  dsimp only
  cases value with
  | true =>
    rw [if_pos rfl, if_neg (Nat.not_le.mpr hc)]
    rfl
  | false =>
    rw [if_neg (by decide), if_neg (Nat.not_le.mpr (hlen ▸ hc))]
    rfl

/-- A call changes the bit of its index and no other. -/
theorem bitAt_call (hlen : bitmap.data.length = bitmap.datalen) {c : Nat × Bool}
    (hc : bitmap.InRange c.1) (i : Nat) :
    bitAt (bitmap.call c).data i = if c.1 = i then c.2 else bitAt bitmap.data i := by
  have hword : c.1 / 8 < bitmap.data.length := hlen ▸ hc
  have hbit : i % 8 < 8 := Nat.mod_lt i (by decide)
  rw [call_eq hlen hc]
  dsimp only
  rw [bitAt_set hword]
  split
  · rename_i hsame
    have hold : (bitmap.data.getD (c.1 / 8) 0).getLsbD (i % 8) = bitAt bitmap.data i := by
      rw [← hsame]
      rfl
    have hid : c.1 = i ↔ i % 8 = c.1 % 8 := by omega
    obtain ⟨hset, hclear⟩ := getLsbD_bit (bitmap.data.getD (c.1 / 8) 0) (c.1 % 8) hbit
    rw [hold] at hset hclear
    cases hvalue : c.2 with
    | true =>
      rw [if_pos rfl, hset]
      simp [hid]
    | false =>
      rw [if_neg (by decide), hclear]
      simp [hid]
  · rename_i hother
    rw [if_neg (by omega)]

/-- **The last values of a bitmap are read back.** -/
theorem reads (hlen : bitmap.data.length = bitmap.datalen) {calls : List (Nat × Bool)}
    (hcalls : ∀ c ∈ calls, bitmap.InRange c.1) : bitmap.Reads calls := by
  intro done hdone
  have hstep : ∀ (t : Bitmap64) (c : Nat × Bool),
      (t.data.length = t.datalen ∧ t.datalen = bitmap.datalen) → bitmap.InRange c.1 →
        ((t.call c).data.length = (t.call c).datalen ∧ (t.call c).datalen = bitmap.datalen) ∧
          ∀ id, bitmap.InRange id → (t.call c).get id =
            if (fun _ => true) c.2 = true ∧ c.1 = id then c.2 else t.get id := by
    rintro t c ⟨ht, hsame⟩ hc
    have hct : t.InRange c.1 := (inRange_congr hsame).mpr hc
    have hlen' : (t.call c).data.length = t.data.length := by
      rw [call_eq ht hct, List.length_set]
    have hdatalen : (t.call c).datalen = t.datalen := by rw [call_eq ht hct]
    refine ⟨⟨hlen'.trans (ht.trans hdatalen.symm), hdatalen.trans hsame⟩, fun id hid => ?_⟩
    have hidt : t.InRange id := (inRange_congr hsame).mpr hid
    have hidt' : (t.call c).InRange id := (inRange_congr hdatalen).mpr hidt
    rw [get_eq hidt', get_eq hidt, bitAt_call ht hct]
    simp
  exact (run_reads hstep ⟨hlen, rfl⟩ fun done' c h => hcalls c ((h.trans hdone).subset (by simp))).2

end Bitmap64

/-! ## Both -/

/-- Zeroed words have no bit. -/
theorem bitAt_zero {w : Nat} {words : List (BitVec w)} (h : ∀ word ∈ words, word = 0) (i : Nat) :
    bitAt words i = false := by
  unfold bitAt
  rw [List.getD_eq_getElem?_getD]
  cases hword : words[i / w]? with
  | none => simp
  | some word => simp [h word (List.mem_of_getElem? hword)]

theorem toNat_maxValue {numbits : Nat} (hle : numbits ≤ 64) :
    (if numbits = 8 <<< 3 then ~~~0 else shl 1 numbits - 1 : BitVec 64).toNat =
      2 ^ numbits - 1 := by
  rw [show (8 <<< 3 : Nat) = 64 from rfl]
  split
  · rename_i h
    subst h
    decide
  · have hlt : numbits < 64 := by omega
    have hpow : (shl 1 numbits).toNat = 2 ^ numbits := by
      rw [shl, Nat.mod_eq_of_lt hlt, BitVec.toNat_shiftLeft, Nat.shiftLeft_eq]
      show 1 * 2 ^ numbits % 2 ^ 64 = 2 ^ numbits
      rw [Nat.one_mul, Nat.mod_eq_of_lt (Nat.pow_lt_pow_right (by decide) hlt)]
    have hone : (1 : BitVec 64) ≤ shl 1 numbits := by
      show 1 ≤ (shl 1 numbits).toNat
      rw [hpow]
      exact Nat.two_pow_pos _
    rw [BitVec.toNat_sub_of_le hone, hpow]
    rfl

theorem Sequence.new_wellFormed {data : List (BitVec 64)} {datalen numbits : Nat} {s : Sequence}
    (hnew : Sequence.new (some data) datalen numbits = .ok s) (hpos : 1 ≤ numbits)
    (hsize : 64 * data.length ≤ 2 ^ 64) :
    s.WellFormed ∧ s.data = data ∧ s.numbits = numbits := by
  unfold Sequence.new at hnew
  dsimp only at hnew
  rw [if_neg (fun h => by cases h.2.2)] at hnew
  split at hnew
  · cases hnew
  · rename_i hle
    cases hnew
    refine ⟨⟨hpos, Nat.le_of_not_lt hle, hsize, ?_⟩, rfl, rfl⟩
    exact toNat_maxValue (Nat.le_of_not_lt hle)

/-- **Of a run of `Set` calls on a sequence over `data`, every state reads as the last values set
iff the width is below 64 or no call drops a bit of its word.** A value that does not fit is
rejected in every state, and zeroed data reads as 0. A bitmap keeps the last values of every
run. -/
theorem compact_reads_iff {data : List (BitVec 64)} {datalen numbits : Nat} {s : Sequence}
    (hnew : Sequence.new (some data) datalen numbits = .ok s) (hpos : 1 ≤ numbits)
    (hsize : 64 * data.length ≤ 2 ^ 64) {calls : List (Nat × BitVec 64)}
    (hcalls : ∀ c ∈ calls, s.InRange c.1) {bitmap : Bitmap64}
    (hlen : bitmap.data.length = bitmap.datalen) {bits : List (Nat × Bool)}
    (hbits : ∀ c ∈ bits, bitmap.InRange c.1) :
    (s.Reads calls ↔
      ∀ done c, done ++ [c] <+: calls → (done.foldl Sequence.call s).KeepsBits c) ∧
    (∀ done, done <+: calls → ∀ id value, 2 ^ numbits ≤ value.toNat →
      Sequence.set id value (done.foldl Sequence.call s) =
        .error (.aboveLimit value s.maxValue) (done.foldl Sequence.call s)) ∧
    ((∀ word ∈ data, word = 0) → ∀ id, s.InRange id → s.get id = 0) ∧
    bitmap.Reads bits ∧
    (∀ id, ¬ bitmap.InRange id →
      Bitmap64.set id true bitmap = .error (.outsideWords id (id / 8) bitmap.datalen) bitmap) ∧
    ((∀ word ∈ bitmap.data, word = 0) → ∀ id, bitmap.InRange id → bitmap.get id = false) := by
  obtain ⟨hs, hdata, hnumbits⟩ := Sequence.new_wellFormed hnew hpos hsize
  have hshape : Sequence.SameShape s s := ⟨hs, rfl, rfl⟩
  refine ⟨Sequence.calls_read_iff hs hcalls, fun done hdone id value hvalue => ?_, fun hzero id hid => ?_,
    Bitmap64.reads hlen hbits, fun id hid => Bitmap64.set_rejects hid, fun hzero id hid => ?_⟩
  · have hrun := hshape.run done
    have hmax : (done.foldl Sequence.call s).maxValue = s.maxValue := by
      apply BitVec.eq_of_toNat_eq
      rw [hrun.wellFormed.maxValue, hs.maxValue, hrun.numbits]
    have hlarge : 2 ^ (done.foldl Sequence.call s).numbits ≤ value.toNat := by
      rw [hrun.numbits, hnumbits]
      exact hvalue
    rw [Sequence.set_rejects hrun.wellFormed id hlarge, hmax]
  · apply BitVec.eq_of_getLsbD_eq
    intro j _
    by_cases hj : j < s.numbits
    · rw [Sequence.getLsbD_get hs hid hj, bitAt_zero (hdata ▸ hzero)]
      simp
    · rw [Sequence.getLsbD_get_of_ge hs hid (Nat.le_of_not_lt hj)]
      simp
  · rw [Bitmap64.get_eq hid, bitAt_zero hzero]

/-- A sequence of two 42-bit values. -/
theorem two_values_read :
    Sequence.Reads ⟨[0, 0], 2, 42, 0x3FFFFFFFFFF⟩ [(0, 5), (1, 0x3FFFFFFFFFF), (0, 4)] ↔
      ∀ done c, done ++ [c] <+: [(0, 5), (1, 0x3FFFFFFFFFF), (0, 4)] →
        (done.foldl Sequence.call ⟨[0, 0], 2, 42, 0x3FFFFFFFFFF⟩).KeepsBits c := by
  have hnew : Sequence.new (some [0, 0]) 2 42 = .ok ⟨[0, 0], 2, 42, 0x3FFFFFFFFFF⟩ := by decide
  have hsize : 64 * [(0 : BitVec 64), 0].length ≤ 2 ^ 64 := by decide
  have hcalls : ∀ c ∈ [((0 : Nat), (5 : BitVec 64)), (1, 0x3FFFFFFFFFF), (0, 4)],
      c.1 * 42 + 42 ≤ 64 * 2 := by decide
  have hlen : (⟨[0], 1⟩ : Bitmap64).data.length = (⟨[0], 1⟩ : Bitmap64).datalen := rfl
  have hbits : ∀ c ∈ [((3 : Nat), true)], c.1 / 8 < 1 := by decide
  exact (compact_reads_iff hnew (by decide) hsize hcalls hlen hbits).1

/-- With 64 bits the second value is added to the first. -/
theorem full_width_adds :
    ¬ ∀ (data : List (BitVec 64)) (datalen numbits : Nat) (s : Sequence)
      (calls : List (Nat × BitVec 64)),
      Sequence.new (some data) datalen numbits = .ok s → 1 ≤ numbits → numbits ≤ 64 →
        64 * data.length ≤ 2 ^ 64 → (∀ c ∈ calls, s.InRange c.1) → s.Reads calls := by
  intro h
  have hcalls : ∀ c ∈ [((0 : Nat), (1 : BitVec 64)), (0, 2)], c.1 * 64 + 64 ≤ 64 * 1 := by decide
  have hreads := h [0] 1 64 ⟨[0], 1, 64, ~~~0⟩ [(0, 1), (0, 2)] (by decide) (by decide) (by decide)
    (by decide) hcalls _ (List.prefix_refl _) 0 (by unfold Sequence.InRange; decide)
  exact absurd hreads (by decide)

end Acts.Actslib.Compact
