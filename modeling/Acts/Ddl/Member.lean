import Acts.Lib.Cells

/-!
# Members of DDL data (`ddl.cpp`)

* `readDDLMember` — `ReadDDLMember`, with its byte copy and its bit loop.
* `copyBytes_eq` — the byte copy leaves what the bit loop leaves.
* `readDDLMember_iff` — **which members are read as their type says.**
-/

set_option autoImplicit false

namespace Acts.Ddl

open Cells

inductive ACTSDDLType where
  | invalid
  | byte
  | short
  | uint
  | int
  | uint64
  | hash
  | float
  | fixedpoint
  | string
  | pad
  | class : ACTSDDLType
  deriving DecidableEq, Repr

namespace ACTSDDLType

/-- The types of unsigned values. -/
def unsigned (type : ACTSDDLType) : Prop :=
  type = byte ∨ type = uint ∨ type = uint64 ∨ type = hash

/-- The types of signed values. -/
def signed (type : ACTSDDLType) : Prop := type = short ∨ type = int

end ACTSDDLType

/-! ## The raw bits -/

/-- `byte buffer[8]{}`. -/
def emptyBuffer : List (BitVec 8) := List.replicate 8 0

/-- `memcpy(buffer, raw + (offset >> 3), ((size - 1) >> 3) + 1)`. -/
def copyBytes (raw : List (BitVec 8)) (offset size : Nat) : Option (List (BitVec 8)) :=
  let start := offset >>> 3
  let count := ((size + (2 ^ 64 - 1)) % 2 ^ 64) >>> 3 + 1
  if start + count ≤ raw.length ∧ count ≤ 8 then
    some ((raw.drop start).take count ++ emptyBuffer.drop count)
  else none

/-- One turn of the bit loop, where the position wraps like a `uint64_t`. -/
def copyBit (raw : List (BitVec 8)) (offset i : Nat) (buffer : List (BitVec 8)) :
    Option (List (BitVec 8)) :=
  let idx := (offset + i) % 2 ^ 64
  if h : idx >>> 3 < raw.length ∧ i >>> 3 < buffer.length then
    let bit := (raw[idx >>> 3] >>> (idx &&& 7)) &&& 1
    some (buffer.set (i >>> 3) (buffer[i >>> 3] ||| (bit <<< (i &&& 7))))
  else none

/-- What the first `n` turns of the bit loop leave. -/
def copyBits (raw : List (BitVec 8)) (offset : Nat) : Nat → Option (List (BitVec 8))
  | 0 => some emptyBuffer
  | n + 1 => (copyBits raw offset n).bind (copyBit raw offset n)

/-! ## Values -/

/-- `*(uint64_t*)buffer`. -/
def word (buffer : List (BitVec 8)) : BitVec 64 := BitVec.ofNat 64 (packed buffer)

/-- The union of `DDLData` as its 64 bits; `widen` is the conversion of a `FLOAT` to a `double`. -/
def decodeMember (widen : BitVec 32 → BitVec 64) (type : ACTSDDLType) (size : Nat)
    (buffer : List (BitVec 8)) : BitVec 64 :=
  let data := 0#64
  match type with
  | .byte | .uint | .uint64 | .hash => word buffer
  | .short | .int =>
    let val := word buffer
    -- the test reads the union before anything is stored in it
    if data &&& (1#64 <<< (size - 1)) ≠ 0 then val ||| (BitVec.allOnes 64 <<< size) else val
  | .float | .fixedpoint => widen ((word buffer).setWidth 32)
  | .invalid | .string | .pad | .class => 0#64

/-- `ReadDDLMember`, without a result where it leaves `raw` or its buffer. -/
def readDDLMember (widen : BitVec 32 → BitVec 64) (offset : Nat) (type : ACTSDDLType)
    (size : Nat) (raw : List (BitVec 8)) : Option (BitVec 64) :=
  let buffer :=
    if offset &&& 7 = 0 ∧ size &&& 7 = 0 then copyBytes raw offset size
    else copyBits raw offset size
  buffer.map (decodeMember widen type size)

/-! ## The bits that are copied -/

/-- `size` bits at `offset` of a buffer whose bits a `uint64_t` can count. -/
structure Addressed (raw : List (BitVec 8)) (offset size : Nat) : Prop where
  pos : 0 < size
  le : size ≤ 64
  inside : offset + size ≤ 8 * raw.length
  counted : 8 * raw.length ≤ 2 ^ 64

section Copies

variable {raw buffer : List (BitVec 8)} {offset size n : Nat}

theorem bitAt_emptyBuffer (j : Nat) : bitAt emptyBuffer j = false := by
  unfold bitAt emptyBuffer
  rw [List.getD_eq_getElem?_getD, List.getElem?_replicate]
  split <;> simp

/-- The buffer holds the first `n` bits at `offset`, and zero bits behind them. -/
structure Holds (raw : List (BitVec 8)) (offset n : Nat) (buffer : List (BitVec 8)) : Prop where
  length : buffer.length = 8
  bit : ∀ j, bitAt buffer j = (decide (j < n) && bitAt raw (offset + j))

/-- One bit of a byte, moved to another place of it. -/
theorem getLsbD_moved (x : BitVec 8) {p : Nat} (hp : p < 8) (k m : Nat) :
    (((x >>> k) &&& 1#8) <<< p).getLsbD m = (decide (m = p) && x.getLsbD k) := by
  rw [BitVec.getLsbD_shiftLeft, BitVec.getLsbD_and, BitVec.getLsbD_ushiftRight]
  by_cases hm : m = p
  · subst hm
    simp [hp]
  · by_cases hlt : m < p
    · simp [hm, hlt]
    · have hbit : BitVec.getLsbD 1#8 (m - p) = false := by
        rw [BitVec.getLsbD_one]
        simp only [Bool.and_eq_false_iff, decide_eq_false_iff_not]
        omega
      rw [hbit]
      simp [hm]

/-- A turn of the loop adds its bit. -/
theorem Holds.copyBit (h : Holds raw offset n buffer) (hn : n < 64)
    (hin : offset + n < 8 * raw.length) (hcount : 8 * raw.length ≤ 2 ^ 64) :
    ∃ next, copyBit raw offset n buffer = some next ∧ Holds raw offset (n + 1) next := by
  have hlen := h.length
  have hshift : ∀ x : Nat, x >>> 3 = x / 8 := fun x => by rw [Nat.shiftRight_eq_div_pow]
  have hand : ∀ x : Nat, x &&& 7 = x % 8 := fun x => Nat.and_two_pow_sub_one_eq_mod x 3
  have hidx : (offset + n) % 2 ^ 64 = offset + n := Nat.mod_eq_of_lt (by omega)
  unfold Ddl.copyBit
  simp only [hshift, hand, hidx]
  rw [dif_pos (by omega)]
  refine ⟨_, rfl, by rw [List.length_set, hlen], fun j => ?_⟩
  rw [bitAt_set (by omega)]
  split
  · rename_i hj
    have hbyte : n / 8 < buffer.length := by omega
    have hold : buffer[n / 8].getLsbD (j % 8) = bitAt buffer j := by
      rw [bitAt_eq_getElem (by omega)]
      simp only [hj]
    rw [BitVec.getLsbD_or, hold, h.bit]
    erw [getLsbD_moved _ (by omega)]
    rw [← bitAt_eq_getElem]
    by_cases hjn : j = n
    · subst hjn
      simp
    · have hmod : j % 8 ≠ n % 8 := by omega
      have hlt : j < n ↔ j < n + 1 := by omega
      simp [hmod, hlt]
  · rename_i hj
    rw [h.bit]
    have hne : j ≠ n := fun he => hj (by rw [he])
    congr 1
    simp only [decide_eq_decide]
    omega

theorem copyBits_holds (h : Addressed raw offset size) (hn : n ≤ size) :
    ∃ buffer, copyBits raw offset n = some buffer ∧ Holds raw offset n buffer := by
  have hle := h.le
  have hin := h.inside
  induction n with
  | zero => exact ⟨_, rfl, rfl, fun j => by simp [bitAt_emptyBuffer]⟩
  | succ n ih =>
    obtain ⟨buffer, hrun, hholds⟩ := ih (by omega)
    obtain ⟨next, hstep, hnext⟩ := hholds.copyBit (by omega) (by omega) h.counted
    exact ⟨next, by rw [copyBits, hrun, Option.bind_some, hstep], hnext⟩

/-- The bytes that the copy moves hold the bits. -/
theorem copyBytes_holds (h : Addressed raw offset size) (hoff : offset % 8 = 0)
    (hsize : size % 8 = 0) :
    ∃ buffer, copyBytes raw offset size = some buffer ∧ Holds raw offset size buffer := by
  obtain ⟨hpos, hle, hin, _⟩ := h
  have hpred : (size + (2 ^ 64 - 1)) % 2 ^ 64 = size - 1 := by omega
  have hcount : ((size + (2 ^ 64 - 1)) % 2 ^ 64) >>> 3 + 1 = size / 8 := by
    rw [hpred, Nat.shiftRight_eq_div_pow]
    omega
  have hstart : offset >>> 3 = offset / 8 := by rw [Nat.shiftRight_eq_div_pow]
  unfold copyBytes
  simp only [hcount, hstart]
  rw [if_pos (by omega)]
  have hlen : ((raw.drop (offset / 8)).take (size / 8)).length = size / 8 := by
    rw [List.length_take, List.length_drop]
    omega
  refine ⟨_, rfl, ?_, fun j => ?_⟩
  · rw [List.length_append, hlen, List.length_drop, emptyBuffer, List.length_replicate]
    omega
  · have hplace : (offset + j) / 8 = offset / 8 + j / 8 ∧ (offset + j) % 8 = j % 8 := by omega
    unfold bitAt
    rw [List.getD_eq_getElem?_getD, List.getD_eq_getElem?_getD, hplace.1, hplace.2]
    by_cases hj : j < size
    · rw [List.getElem?_append_left (by omega), List.getElem?_take, if_pos (by omega),
        List.getElem?_drop]
      simp [hj]
    · rw [List.getElem?_append_right (by omega), emptyBuffer, List.drop_replicate,
        List.getElem?_replicate]
      simp only [hj]
      split <;> simp

/-- A buffer is determined by the bits that it holds. -/
theorem Holds.eq {other : List (BitVec 8)} (h : Holds raw offset n buffer)
    (h' : Holds raw offset n other) : buffer = other := by
  apply List.ext_getElem (by rw [h.length, h'.length])
  intro k hk hk'
  apply BitVec.eq_of_getLsbD_eq
  intro m hm
  have hbit := (h.bit (8 * k + m)).trans (h'.bit (8 * k + m)).symm
  have hdiv : (8 * k + m) / 8 = k := by omega
  have hmod : (8 * k + m) % 8 = m := by omega
  rw [bitAt_eq_getElem (by omega), bitAt_eq_getElem (by omega)] at hbit
  simpa only [hdiv, hmod] using hbit

/-- Where both ways of copying apply they leave the same buffer. -/
theorem copyBytes_eq (h : Addressed raw offset size) (hoff : offset % 8 = 0)
    (hsize : size % 8 = 0) : copyBytes raw offset size = copyBits raw offset size := by
  obtain ⟨buffer, hbytes, hholds⟩ := copyBytes_holds h hoff hsize
  obtain ⟨other, hbits, hother⟩ := copyBits_holds h (Nat.le_refl size)
  rw [hbytes, hbits, hholds.eq hother]

end Copies

/-! ## Values of members -/

section Values

variable {raw buffer : List (BitVec 8)} {offset size : Nat}

/-- The unsigned value of the addressed bits. -/
def unsignedAt (raw : List (BitVec 8)) (offset size : Nat) : Nat := field raw offset size

/-- The two's complement value of the addressed bits. -/
def signedAt (raw : List (BitVec 8)) (offset size : Nat) : Int :=
  (BitVec.ofNat size (field raw offset size)).toInt

theorem toNat_word (h : Addressed raw offset size) (hb : Holds raw offset size buffer) :
    (word buffer).toNat = unsignedAt raw offset size := by
  rw [word, packed_eq_field (by decide) hb.bit, BitVec.toNat_ofNat]
  exact Nat.mod_eq_of_lt (Nat.lt_of_lt_of_le (field_lt _ _ _) (Nat.pow_le_pow_right (by decide) h.le))

theorem signedAt_eq (hpos : 0 < size) :
    signedAt raw offset size =
      if bitAt raw (offset + (size - 1)) = true then
        (unsignedAt raw offset size : Int) - (2 ^ size : Nat)
      else unsignedAt raw offset size := by
  have hmsb : (BitVec.ofNat size (field raw offset size)).msb =
      bitAt raw (offset + (size - 1)) := by
    rw [BitVec.msb_eq_getLsbD_last, BitVec.getLsbD_ofNat, testBit_field (by decide)]
    have : size - 1 < size := by omega
    simp [this]
  rw [signedAt, BitVec.toInt_eq_msb_cond, hmsb, BitVec.toNat_ofNat,
    Nat.mod_eq_of_lt (field_lt _ _ _)]
  rfl

/-- The word is the two's complement value when it is 64 bits long, or when its top bit is not
set. -/
theorem toInt_word_iff (h : Addressed raw offset size) (hb : Holds raw offset size buffer) :
    (word buffer).toInt = signedAt raw offset size ↔
      (size = 64 ∨ bitAt raw (offset + (size - 1)) = false) := by
  have hnat := toNat_word h hb
  obtain ⟨hpos, hle, -, -⟩ := h
  by_cases hfull : size = 64
  · subst hfull
    simp only [true_or, iff_true]
    rw [signedAt, word, packed_eq_field (by decide) hb.bit]
  · have hlt : unsignedAt raw offset size < 2 ^ 63 :=
      Nat.lt_of_lt_of_le (field_lt _ _ _) (Nat.pow_le_pow_right (by decide) (by omega))
    have hint : (word buffer).toInt = unsignedAt raw offset size := by
      rw [BitVec.toInt_eq_toNat_cond, hnat, if_pos (by omega)]
    rw [hint, signedAt_eq hpos]
    have hpow := Nat.two_pow_pos size
    split
    · rename_i htop
      simp only [hfull, htop, or_self, Bool.true_eq_false, iff_false]
      omega
    · rename_i htop
      simp [htop]

/-- The sign is tested before the union holds the value: the word is stored as it is. -/
theorem decodeMember_signed {type : ACTSDDLType} (widen : BitVec 32 → BitVec 64)
    (h : type.signed) : decodeMember widen type size buffer = word buffer := by
  rcases h with rfl | rfl <;> simp [decodeMember]

theorem decodeMember_unsigned {type : ACTSDDLType} (widen : BitVec 32 → BitVec 64)
    (h : type.unsigned) : decodeMember widen type size buffer = word buffer := by
  rcases h with rfl | rfl | rfl | rfl <;> rfl

/-- Whichever way the bits are copied, the buffer holds them. -/
theorem readDDLMember_eq (widen : BitVec 32 → BitVec 64) (type : ACTSDDLType)
    (h : Addressed raw offset size) :
    ∃ buffer, Holds raw offset size buffer ∧
      readDDLMember widen offset type size raw = some (decodeMember widen type size buffer) := by
  obtain ⟨buffer, hbits, hholds⟩ := copyBits_holds h (Nat.le_refl size)
  refine ⟨buffer, hholds, ?_⟩
  have hand : ∀ x : Nat, x &&& 7 = x % 8 := fun x => Nat.and_two_pow_sub_one_eq_mod x 3
  unfold readDDLMember
  simp only [hand]
  split
  · rename_i hal
    rw [copyBytes_eq h hal.1 hal.2, hbits]
    rfl
  · rw [hbits]
    rfl

/-- The value is that of the type, and the two ways of copying agree where both apply. -/
structure ReadsAsTyped (widen : BitVec 32 → BitVec 64) (offset : Nat) (type : ACTSDDLType)
    (size : Nat) (raw : List (BitVec 8)) : Prop where
  unsigned : type.unsigned → ∃ data, readDDLMember widen offset type size raw = some data ∧
    data.toNat = unsignedAt raw offset size
  signed : type.signed → ∃ data, readDDLMember widen offset type size raw = some data ∧
    data.toInt = signedAt raw offset size
  paths : offset % 8 = 0 → size % 8 = 0 → copyBytes raw offset size = copyBits raw offset size

/-- **A member is read as its type says unless it is signed, shorter than 64 bits and has its top
bit set: such a value is returned without its sign.** -/
theorem readDDLMember_iff (widen : BitVec 32 → BitVec 64) (type : ACTSDDLType)
    (h : Addressed raw offset size) :
    ReadsAsTyped widen offset type size raw ↔
      (type.signed → size = 64 ∨ bitAt raw (offset + (size - 1)) = false) := by
  obtain ⟨buffer, hholds, hread⟩ := readDDLMember_eq widen type h
  constructor
  · intro hr hsigned
    obtain ⟨data, hdata, hval⟩ := hr.signed hsigned
    rw [hread, decodeMember_signed widen hsigned, Option.some.injEq] at hdata
    subst hdata
    exact (toInt_word_iff h hholds).mp hval
  · intro hcond
    refine ⟨fun hun => ⟨_, hread, ?_⟩, fun hsigned => ⟨_, hread, ?_⟩, copyBytes_eq h⟩
    · rw [decodeMember_unsigned widen hun]
      exact toNat_word h hholds
    · rw [decodeMember_signed widen hsigned]
      exact (toInt_word_iff h hholds).mpr (hcond hsigned)

/-- A 12-bit signed member whose top bit is clear, across a byte boundary. -/
theorem positive_member_read :
    ReadsAsTyped (fun x => x.setWidth 64) 3 .short 12 [0x28#8, 0x32#8] :=
  (readDDLMember_iff _ _ ⟨by decide, by decide, by decide, by decide⟩).mpr fun _ => .inr rfl

/-- The 4-bit signed member with all its bits set is returned as 15. -/
theorem minus_one_lost :
    ¬ ∀ (widen : BitVec 32 → BitVec 64) (offset : Nat) (type : ACTSDDLType) (size : Nat)
      (raw : List (BitVec 8)), Addressed raw offset size →
        ReadsAsTyped widen offset type size raw := by
  intro h
  obtain ⟨data, hdata, hval⟩ := (h (fun x => x.setWidth 64) 0 .int 4 [0x0F#8]
    ⟨by decide, by decide, by decide, by decide⟩).signed (.inr rfl)
  have hread : readDDLMember (fun x => x.setWidth 64) 0 .int 4 [0x0F#8] = some 15 := by decide
  rw [hread, Option.some.injEq] at hdata
  subst hdata
  exact absurd hval (by decide)

end Values

end Acts.Ddl
