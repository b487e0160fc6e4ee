import Mathlib.Algebra.Group.Int.Defs
import Mathlib.Algebra.Group.Nat.Defs
import Mathlib.Algebra.GroupWithZero.Nat
import Mathlib.Tactic.Common

/-!
# Variable-length integers (`io.cpp`)

Seven bits in each byte, the lowest ones first; all bytes but the last have the bit `0x80`.

* `encodeVByte`, `decodeVByte` — of a `uint64_t`.
* `encodeVByteSigned`, `decodeVByteSigned` — of an `int64_t`, its sign folded into the lowest bit.
* `decodeVByte_encodeVByte`, `decodeVByte_refuses` — the decoder reads nine bytes and refuses ten.
* `vbyte_round_trip_iff` — **the values that are read back.**
-/

set_option autoImplicit false

namespace Acts.Actslib.Io

/-! ## Streams -/

/-- An input stream; `failed` is what `!is` tells. -/
structure Stream where
  bytes : List UInt8
  failed : Bool
  deriving DecidableEq, Repr

/-- `is.get()`; there is no character at the end. -/
def Stream.get (is : Stream) : Option UInt8 × Stream :=
  match is with
  | ⟨b :: bytes, false⟩ => (some b, ⟨bytes, false⟩)
  | _ => (none, { is with failed := true })

/-- `c & 0x80`, where `c` is `-1` at the end. -/
def hasNext : Option UInt8 → Bool
  | some b => b &&& 0x80 != 0
  | none => true

/-- `c & 0x7FULL`. -/
def low7 : Option UInt8 → Nat
  | some b => (b &&& 0x7F).toNat
  | none => 0x7F

/-! ## Integers -/

def encodeVByte (value : Nat) : List UInt8 :=
  if value > 0x7F then UInt8.ofNat ((value &&& 0x7F) ||| 0x80) :: encodeVByte (value >>> 7)
  else [UInt8.ofNat (value &&& 0x7F)]
termination_by value
decreasing_by
  rw [Nat.shiftRight_eq_div_pow]
  omega

inductive VByteError where
  | badStream
  | tooManyBits (c : Option UInt8) (shift res : Nat)
  deriving DecidableEq, Repr

/-- The loop of `DecodeVByte`, from a character on. -/
def decodeLoop (is : Stream) (c : Option UInt8) (shift res : Nat) :
    Except VByteError (Nat × Stream) :=
  if hasNext c then
    if shift > 50 then
      if is.failed then .error .badStream else .error (.tooManyBits c shift res)
    else
      decodeLoop is.get.2 is.get.1 (shift + 7) (res ||| (low7 c <<< shift) % 2 ^ 64)
  else .ok (res ||| (low7 c <<< shift) % 2 ^ 64, is)
termination_by 57 - shift
decreasing_by omega

def decodeVByte (is : Stream) : Except VByteError (Nat × Stream) :=
  decodeLoop is.get.2 is.get.1 0 0

/-- `(uint64_t)value << 1`. -/
def twice (value : Int) : Nat := ((value % 2 ^ 64).toNat <<< 1) % 2 ^ 64

def encodeVByteSigned (value : Int) : List UInt8 :=
  if value < 0 then encodeVByte (2 ^ 64 - 1 - twice value) else encodeVByte (twice value)

def decodeVByteSigned (is : Stream) : Except VByteError (Int × Stream) := do
  let (d, is) ← decodeVByte is
  if d &&& 1 ≠ 0 then .ok (-((d >>> 1 : Nat) : Int) - 1, is) else .ok (((d >>> 1 : Nat) : Int), is)

/-! ## Bytes -/

theorem encodeVByte_small {value : Nat} (h : value < 128) :
    encodeVByte value = [UInt8.ofNat value] := by
  unfold encodeVByte
  rw [if_neg (by omega), Nat.and_two_pow_sub_one_eq_mod value 7, Nat.mod_eq_of_lt h]

theorem encodeVByte_large {value : Nat} (h : 128 ≤ value) :
    encodeVByte value = UInt8.ofNat (value % 128 + 128) :: encodeVByte (value / 128) := by
  have hor : (value % 2 ^ 7) ||| 0x80 = value % 128 + 128 := by
    have hlt : value % 2 ^ 7 < 2 ^ 7 := Nat.mod_lt _ (by decide)
    rw [Nat.or_comm]
    exact (Nat.two_pow_add_eq_or_of_lt hlt 1).symm.trans (Nat.add_comm _ _)
  rw [encodeVByte, if_pos (by omega), Nat.and_two_pow_sub_one_eq_mod value 7, hor,
    Nat.shiftRight_eq_div_pow]

theorem hasNext_iff (b : UInt8) : hasNext (some b) = true ↔ 128 ≤ b.toNat := by
  have hall : ∀ i : Fin 256, hasNext (some (UInt8.ofFin i)) = true ↔ 128 ≤ i.val := by
    decide +kernel
  exact hall b.toFin

theorem low7_eq (b : UInt8) : low7 (some b) = b.toNat % 128 := by
  show (b &&& 0x7F).toNat = _
  rw [UInt8.toNat_and]
  exact Nat.and_two_pow_sub_one_eq_mod b.toNat 7

/-- Bits above those of a number are added to it. -/
theorem or_shift {res shift x : Nat} (hres : res < 2 ^ shift) (hx : x * 2 ^ shift < 2 ^ 64) :
    res ||| (x <<< shift) % 2 ^ 64 = x * 2 ^ shift + res := by
  rw [Nat.shiftLeft_eq, Nat.mod_eq_of_lt hx, Nat.or_comm, Nat.mul_comm]
  exact (Nat.two_pow_add_eq_or_of_lt hres x).symm

/-! ## Decoding -/

variable {value : Nat} {rest : List UInt8}

/-- The decoder starts with the first byte. -/
theorem get_cons (b : UInt8) (bytes : List UInt8) :
    Stream.get ⟨b :: bytes, false⟩ = (some b, ⟨bytes, false⟩) := rfl

/-- What the first byte of a large value tells the decoder. -/
theorem large_byte (value : Nat) :
    hasNext (some (UInt8.ofNat (value % 128 + 128))) = true ∧
      low7 (some (UInt8.ofNat (value % 128 + 128))) = value % 128 := by
  have hnat : (UInt8.ofNat (value % 128 + 128)).toNat = value % 128 + 128 :=
    UInt8.toNat_ofNat_of_lt (Nat.add_lt_add_right (Nat.mod_lt value (by decide)) 128)
  constructor
  · rw [hasNext_iff, hnat]
    omega
  · rw [low7_eq, hnat]
    omega

/-- What the only byte of a small value tells the decoder. -/
theorem small_byte {value : Nat} (h : value < 128) :
    hasNext (some (UInt8.ofNat value)) = false ∧ low7 (some (UInt8.ofNat value)) = value := by
  have hnat : (UInt8.ofNat value).toNat = value :=
    UInt8.toNat_ofNat_of_lt (Nat.lt_trans h (by decide))
  constructor
  · rw [Bool.eq_false_iff, ne_eq, hasNext_iff, hnat]
    omega
  · rw [low7_eq, hnat]
    omega

/-- The value is what its first byte holds and what the others hold. -/
theorem split_value (value k : Nat) :
    value / 128 * 2 ^ (7 * (k + 1)) + value % 128 * 2 ^ (7 * k) = value * 2 ^ (7 * k) := by
  have hpow : 2 ^ (7 * (k + 1)) = 128 * 2 ^ (7 * k) := by
    rw [Nat.mul_succ, Nat.pow_add, Nat.mul_comm]
  calc value / 128 * 2 ^ (7 * (k + 1)) + value % 128 * 2 ^ (7 * k)
      = (128 * (value / 128) + value % 128) * 2 ^ (7 * k) := by
        rw [hpow, Nat.add_mul, ← Nat.mul_assoc, Nat.mul_comm (value / 128) 128]
    _ = value * 2 ^ (7 * k) := by rw [Nat.div_add_mod]

/-- A number of few bits has few bits after a shift. -/
theorem shifted_lt {x k n : Nat} (hk : k ≤ n) (hx : x < 2 ^ (n - k)) : x * 2 ^ k < 2 ^ n := by
  calc x * 2 ^ k < 2 ^ (n - k) * 2 ^ k := Nat.mul_lt_mul_of_pos_right hx (Nat.two_pow_pos k)
    _ = 2 ^ n := by rw [← Nat.pow_add, Nat.sub_add_cancel hk]

/-- A value that needs another byte has at least eight bits left. -/
theorem more_bits {k : Nat} (hlarge : ¬ value < 128) (hvalue : value < 2 ^ (63 - 7 * k)) :
    k ≤ 7 := by
  by_cases hk : k ≤ 7
  · exact hk
  · have hle : 2 ^ (63 - 7 * k) ≤ 2 ^ 7 := Nat.pow_le_pow_right (by decide) (by omega)
    omega

/-- With `k` bytes read, the rest is decoded if it is short enough. -/
theorem decodeLoop_eq {k res : Nat} (hk : k ≤ 8) (hres : res < 2 ^ (7 * k))
    (hvalue : value < 2 ^ (63 - 7 * k)) :
    decodeLoop (Stream.get ⟨encodeVByte value ++ rest, false⟩).2
      (Stream.get ⟨encodeVByte value ++ rest, false⟩).1 (7 * k) res =
        .ok (value * 2 ^ (7 * k) + res, ⟨rest, false⟩) := by
  induction value using Nat.strongRecOn generalizing k res with
  | ind value ih =>
    have hbits : value * 2 ^ (7 * k) < 2 ^ 63 := shifted_lt (by omega) hvalue
    by_cases hsmall : value < 128
    · obtain ⟨hnext, hlow⟩ := small_byte hsmall
      rw [encodeVByte_small hsmall, List.singleton_append, get_cons]
      unfold decodeLoop
      simp only [hnext, hlow, Bool.false_eq_true, if_false]
      rw [or_shift hres (by omega)]
    · have hk7 := more_bits hsmall hvalue
      obtain ⟨hnext, hlow⟩ := large_byte value
      have hsplit := split_value value k
      have hfirst : value % 128 * 2 ^ (7 * k) < 2 ^ 64 := by omega
      have hres' : value % 128 * 2 ^ (7 * k) + res < 2 ^ (7 * (k + 1)) := by
        have hmul : value % 128 * 2 ^ (7 * k) ≤ 127 * 2 ^ (7 * k) :=
          Nat.mul_le_mul_right _ (by omega)
        have hpow : 2 ^ (7 * (k + 1)) = 2 ^ (7 * k) * 128 := by rw [Nat.mul_succ, Nat.pow_add]
        omega
      have hvalue' : value / 128 < 2 ^ (63 - 7 * (k + 1)) := by
        rw [Nat.div_lt_iff_lt_mul (by decide)]
        have hpow : 2 ^ (63 - 7 * k) = 2 ^ (63 - 7 * (k + 1)) * 128 := by
          rw [show 63 - 7 * k = 63 - 7 * (k + 1) + 7 by omega, Nat.pow_add]
        omega
      have hih := ih (value / 128) (by omega) (k := k + 1) (by omega) hres' hvalue'
      rw [encodeVByte_large (by omega), List.cons_append, get_cons]
      unfold decodeLoop
      simp only [hnext, hlow, if_true]
      rw [if_neg (by omega), or_shift hres hfirst]
      refine hih.trans ?_
      rw [← Nat.add_assoc, hsplit]

/-- With `k` bytes read, a longer rest is refused. -/
theorem decodeLoop_refuses {k : Nat} (res : Nat) (hk : k ≤ 8)
    (hvalue : 2 ^ (63 - 7 * k) ≤ value) :
    ∃ c shift last,
      decodeLoop (Stream.get ⟨encodeVByte value ++ rest, false⟩).2
        (Stream.get ⟨encodeVByte value ++ rest, false⟩).1 (7 * k) res =
          .error (.tooManyBits c shift last) := by
  induction value using Nat.strongRecOn generalizing k res with
  | ind value ih =>
    have hlarge : 128 ≤ value :=
      have hpow : 2 ^ 7 ≤ 2 ^ (63 - 7 * k) := Nat.pow_le_pow_right (by decide) (by omega)
      Nat.le_trans hpow hvalue
    obtain ⟨hnext, hlow⟩ := large_byte value
    rw [encodeVByte_large hlarge, List.cons_append, get_cons]
    unfold decodeLoop
    simp only [hnext, hlow, if_true]
    by_cases hlast : k = 8
    · subst hlast
      exact ⟨_, _, _, rfl⟩
    · rw [if_neg (by omega)]
      refine ih (value / 128) (by omega) (k := k + 1) _ (by omega) ?_
      rw [Nat.le_div_iff_mul_le (by decide)]
      have hpow : 2 ^ (63 - 7 * k) = 2 ^ (63 - 7 * (k + 1)) * 128 := by
        rw [show 63 - 7 * k = 63 - 7 * (k + 1) + 7 by omega, Nat.pow_add]
      omega

/-- Nine bytes are read back, and nothing after them. -/
theorem decodeVByte_encodeVByte (h : value < 2 ^ 63) :
    decodeVByte ⟨encodeVByte value ++ rest, false⟩ = .ok (value, ⟨rest, false⟩) := by
  have hres : 0 < 2 ^ (7 * 0) := by decide
  show decodeLoop _ _ (7 * 0) 0 = _
  refine (decodeLoop_eq (by decide) hres h).trans ?_
  rw [Nat.mul_zero, Nat.pow_zero, Nat.mul_one, Nat.add_zero]

/-- Ten bytes are refused. -/
theorem decodeVByte_refuses (rest : List UInt8) (h : 2 ^ 63 ≤ value) :
    ∃ c shift res, decodeVByte ⟨encodeVByte value ++ rest, false⟩ =
      .error (.tooManyBits c shift res) :=
  decodeLoop_refuses (k := 0) 0 (by decide) h

/-! ## Signed values -/

/-- The sign is the lowest bit; the other bits are those of the value or of its complement. -/
def folded (value : Int) : Nat :=
  if value < 0 then (-2 * value - 1).toNat else (2 * value).toNat

theorem encodeVByteSigned_eq {value : Int} (h : -2 ^ 63 ≤ value ∧ value < 2 ^ 63) :
    encodeVByteSigned value = encodeVByte (folded value) := by
  have htwice : twice value = (value % 2 ^ 64).toNat * 2 % 2 ^ 64 := by
    rw [twice, Nat.shiftLeft_eq]
  unfold encodeVByteSigned folded
  split
  · congr 1
    omega
  · congr 1
    omega

theorem folded_lt_iff (value : Int) :
    folded value < 2 ^ 63 ↔ -2 ^ 62 ≤ value ∧ value < 2 ^ 62 := by
  unfold folded
  split <;> omega

/-- The sign is unfolded. -/
theorem unfolded (value : Int) (is : Stream) :
    (if folded value &&& 1 ≠ 0 then
      .ok (-((folded value >>> 1 : Nat) : Int) - 1, is)
    else .ok (((folded value >>> 1 : Nat) : Int), is) : Except VByteError (Int × Stream)) =
      .ok (value, is) := by
  rw [Nat.and_one_is_mod, Nat.shiftRight_eq_div_pow]
  unfold folded
  by_cases hneg : value < 0
  · simp only [hneg, if_true]
    rw [if_pos (by omega)]
    congr 2
    omega
  · simp only [hneg, if_false]
    rw [if_neg (by omega)]
    congr 2
    omega

theorem decodeVByteSigned_encodeVByteSigned {value : Int}
    (h : -2 ^ 62 ≤ value ∧ value < 2 ^ 62) :
    decodeVByteSigned ⟨encodeVByteSigned value ++ rest, false⟩ = .ok (value, ⟨rest, false⟩) := by
  unfold decodeVByteSigned
  rw [encodeVByteSigned_eq (by omega), decodeVByte_encodeVByte ((folded_lt_iff value).mpr h)]
  exact unfolded value ⟨rest, false⟩

theorem decodeVByteSigned_refuses (rest : List UInt8) {value : Int}
    (hint : -2 ^ 63 ≤ value ∧ value < 2 ^ 63)
    (h : ¬ (-2 ^ 62 ≤ value ∧ value < 2 ^ 62)) :
    ∃ c shift res, decodeVByteSigned ⟨encodeVByteSigned value ++ rest, false⟩ =
      .error (.tooManyBits c shift res) := by
  have hlarge : 2 ^ 63 ≤ folded value := Nat.le_of_not_lt (mt (folded_lt_iff value).mp h)
  obtain ⟨c, shift, res, hdecode⟩ := decodeVByte_refuses rest hlarge
  refine ⟨c, shift, res, ?_⟩
  unfold decodeVByteSigned
  rw [encodeVByteSigned_eq hint, hdecode]
  rfl

/-! ## Round trip -/

/-- **A `uint64_t` is read back iff it is below `2 ^ 63`, an `int64_t` iff it is between
`-2 ^ 62` and `2 ^ 62`**, whatever follows it. -/
theorem vbyte_round_trip_iff (rest : List UInt8) :
    (∀ value : UInt64,
      decodeVByte ⟨encodeVByte value.toNat ++ rest, false⟩ = .ok (value.toNat, ⟨rest, false⟩) ↔
        value.toNat < 2 ^ 63) ∧
    (∀ value : Int64,
      decodeVByteSigned ⟨encodeVByteSigned value.toInt ++ rest, false⟩ =
          .ok (value.toInt, ⟨rest, false⟩) ↔
        -2 ^ 62 ≤ value.toInt ∧ value.toInt < 2 ^ 62) := by
  constructor
  · intro value
    refine ⟨fun h => ?_, decodeVByte_encodeVByte⟩
    by_contra hlarge
    obtain ⟨c, shift, res, hdecode⟩ := decodeVByte_refuses rest (Nat.le_of_not_lt hlarge)
    rw [hdecode] at h
    cases h
  · intro value
    refine ⟨fun h => ?_, decodeVByteSigned_encodeVByteSigned⟩
    by_contra hlarge
    obtain ⟨c, shift, res, hdecode⟩ := decodeVByteSigned_refuses rest
      ⟨value.le_toInt, value.toInt_lt⟩ hlarge
    rw [hdecode] at h
    cases h

/-- `2 ^ 63` is written and not read back. -/
theorem first_refused :
    ¬ ∀ (value : UInt64) (rest : List UInt8),
      decodeVByte ⟨encodeVByte value.toNat ++ rest, false⟩ =
        .ok (value.toNat, ⟨rest, false⟩) := by
  intro h
  have hback := h 0x8000000000000000 []
  have hlarge : 2 ^ 63 ≤ (0x8000000000000000 : UInt64).toNat := by decide
  obtain ⟨c, shift, res, hdecode⟩ := decodeVByte_refuses [] hlarge
  rw [hdecode] at hback
  cases hback

end Acts.Actslib.Io
