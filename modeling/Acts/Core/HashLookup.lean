import Acts.Lib.LowBits

/-!
# Hash lookup (`hash_lookup.cpp`, `hash_mini.hpp`)

* `hashDJB2` — the hash of a string, from a start value on.
* `lookupDJB2` — the search for a start value that gives a hash, four bits a round.
* `lookupLoop_finds` — each round finds the bits of the start value that was used.
* `lookup_hashDJB2` — **the start value of a hash is found again.**
-/

set_option autoImplicit false

namespace Acts.HashLookup

/-- `lowerc`, as the number it is converted to: a `char` is signed. -/
def lowerc (c : UInt8) : UInt32 :=
  if 'A'.toNat ≤ c.toNat ∧ c.toNat ≤ 'Z'.toNat then c.toUInt32 + 32
  else if c.toNat = '\\'.toNat then 47
  else if c < 0x80 then c.toUInt32
  else c.toUInt32 + 0xFFFFFF00

/-- `HashDJB2`, of the characters before the NUL. -/
def hashDJB2 (str : List UInt8) (start prime : UInt32) : UInt32 :=
  str.foldl (fun h c => prime * h ^^^ lowerc c) start

/-- The test of `LookupDJB2` for `k` in a round. -/
def matchesKey (str : List UInt8) (key iv : UInt64) (found : Nat) (disc mask : UInt64) (k : Nat) :
    Bool :=
  let v := (UInt64.ofNat k <<< UInt64.ofNat found) ||| disc
  ((hashDJB2 str v.toUInt32 iv.toUInt32).toUInt64 &&& mask) == (key &&& mask)

/-- The loop of a round. -/
@[irreducible]
def lookupRound (str : List UInt8) (key iv : UInt64) (found : Nat) (disc mask : UInt64) :
    Option Nat :=
  (List.range 0x10000).find? (matchesKey str key iv found disc mask)

/-- The rounds of `LookupDJB2`, while `found < 32`; `none` when the key is reported as invalid. -/
def lookupLoop (str : List UInt8) (key iv : UInt64) :
    Nat → Nat → UInt64 → UInt64 → Option UInt64
  | 0, _, disc, _ => some disc
  | rounds + 1, found, disc, mask =>
    match lookupRound str key iv found disc mask with
    | none => none
    | some k =>
      lookupLoop str key iv rounds (found + 4)
        (disc ||| ((UInt64.ofNat k &&& 0xF) <<< UInt64.ofNat found)) ((mask <<< 4) ||| 0xF)

/-- `LookupDJB2`. -/
def lookupDJB2 (str : List UInt8) (key iv : UInt64) : Option UInt64 :=
  lookupLoop str key iv 8 0 0 0xFFFF

/-! ## The low bits of a hash -/

theorem hashDJB2_toBitVec (str : List UInt8) (start prime : UInt32) :
    (hashDJB2 str start prime).toBitVec =
      str.foldl (fun h c => prime.toBitVec * h ^^^ (lowerc c).toBitVec) start.toBitVec := by
  unfold hashDJB2
  induction str generalizing start with
  | nil => rfl
  | cons c str ih =>
    rw [List.foldl_cons, List.foldl_cons, ih]
    rfl

/-- The lowest bits of the start value are those of the hash, bit for bit. -/
theorem hashDJB2_mod {str : List UInt8} {prime : UInt32} (hodd : prime.toNat % 2 = 1) {n : Nat}
    (hn : n ≤ 32) (x y : UInt32) :
    (hashDJB2 str x prime).toNat % 2 ^ n = (hashDJB2 str y prime).toNat % 2 ^ n ↔
      x.toNat % 2 ^ n = y.toNat % 2 ^ n := by
  have hstep : ∀ c, LowBits (fun h => prime.toBitVec * h ^^^ (lowerc c).toBitVec) :=
    fun c => (LowBits.xor_const _).comp (LowBits.mul_odd hodd)
  have hlow := LowBits.foldl hstep str n hn x.toBitVec y.toBitVec
  simp only [← hashDJB2_toBitVec] at hlow
  exact hlow

theorem mod_min {a b : Nat} (ha : a < 2 ^ 32) (hb : b < 2 ^ 32) (n : Nat) :
    a % 2 ^ n = b % 2 ^ n ↔ a % 2 ^ min n 32 = b % 2 ^ min n 32 := by
  rcases Nat.le_total n 32 with hn | hn
  · rw [Nat.min_eq_left hn]
  · have hpow : 2 ^ 32 ≤ 2 ^ n := Nat.pow_le_pow_right (by decide) hn
    rw [Nat.min_eq_right hn, Nat.mod_eq_of_lt ha, Nat.mod_eq_of_lt hb,
      Nat.mod_eq_of_lt (by omega), Nat.mod_eq_of_lt (by omega)]

/-! ## The search -/

section Search

variable {str : List UInt8} {iv : UInt64} {s : UInt32} {found k : Nat} {disc mask : UInt64}

/-- What is known before a round: the lowest bits of the start value, and the mask of the bits that
are compared next. -/
structure Known (s : UInt32) (found : Nat) (disc mask : UInt64) : Prop where
  disc_eq : disc.toNat = s.toNat % 2 ^ found
  mask_eq : mask.toNat = 2 ^ (16 + found) - 1

/-- The value that a round tries. -/
theorem tried_toNat (hfound : found ≤ 28) (hk : k < 0x10000) (hdisc : disc.toNat < 2 ^ found) :
    ((UInt64.ofNat k <<< UInt64.ofNat found) ||| disc).toNat = k * 2 ^ found + disc.toNat := by
  have hpow : 2 ^ found ≤ 2 ^ 28 := Nat.pow_le_pow_right (by decide) hfound
  have hprod : k * 2 ^ found < 2 ^ 64 :=
    calc k * 2 ^ found ≤ 0x10000 * 2 ^ 28 := Nat.mul_le_mul (Nat.le_of_lt hk) hpow
      _ < 2 ^ 64 := by decide
  rw [UInt64.toNat_or, UInt64.toNat_shiftLeft, UInt64.toNat_ofNat', UInt64.toNat_ofNat',
    Nat.mod_eq_of_lt (show k < 2 ^ 64 by omega), Nat.mod_eq_of_lt (show found < 2 ^ 64 by omega),
    Nat.mod_eq_of_lt (show found < 64 by omega), Nat.shiftLeft_eq, Nat.mod_eq_of_lt hprod,
    ← Nat.shiftLeft_eq, ← Nat.shiftLeft_add_eq_or_of_lt hdisc]

theorem masked_eq_iff {a b : UInt32} (hmask : mask.toNat = 2 ^ (16 + found) - 1) :
    (a.toUInt64 &&& mask) = (b.toUInt64 &&& mask) ↔
      a.toNat % 2 ^ (16 + found) = b.toNat % 2 ^ (16 + found) := by
  rw [← UInt64.toNat_inj, UInt64.toNat_and, UInt64.toNat_and, hmask,
    Nat.and_two_pow_sub_one_eq_mod, Nat.and_two_pow_sub_one_eq_mod]
  simp only [UInt32.toNat_toUInt64]

/-- A round takes a number exactly when it goes on with the bits of the start value. -/
theorem matchesKey_iff (hodd : iv.toNat % 2 = 1) (hfound : found ≤ 28) (hk : k < 0x10000)
    (h : Known s found disc mask) :
    matchesKey str (hashDJB2 str s iv.toUInt32).toUInt64 iv found disc mask k = true ↔
      (k * 2 ^ found + disc.toNat) % 2 ^ min (16 + found) 32 =
        s.toNat % 2 ^ min (16 + found) 32 := by
  have hprime : iv.toUInt32.toNat % 2 = 1 := by
    rw [UInt64.toNat_toUInt32]
    omega
  have hdisc : disc.toNat < 2 ^ found := by
    rw [h.disc_eq]
    exact Nat.mod_lt _ (Nat.two_pow_pos found)
  have hdvd : 2 ^ min (16 + found) 32 ∣ 2 ^ 32 := Nat.pow_dvd_pow 2 (Nat.min_le_right _ _)
  rw [matchesKey, beq_iff_eq, masked_eq_iff h.mask_eq,
    mod_min (UInt32.toNat_lt _) (UInt32.toNat_lt _), hashDJB2_mod hprime (Nat.min_le_right _ _),
    UInt64.toNat_toUInt32, tried_toNat hfound hk hdisc, Nat.mod_mod_of_dvd _ hdvd]

variable (str) in
/-- Some number is taken. -/
theorem lookupRound_some (hodd : iv.toNat % 2 = 1) (hfound : found ≤ 28)
    (h : Known s found disc mask) :
    ∃ k, lookupRound str (hashDJB2 str s iv.toUInt32).toUInt64 iv found disc mask = some k ∧
      k < 0x10000 ∧ (k * 2 ^ found + disc.toNat) % 2 ^ min (16 + found) 32 =
        s.toNat % 2 ^ min (16 + found) 32 := by
  have hsome : (lookupRound str (hashDJB2 str s iv.toUInt32).toUInt64 iv found disc mask).isSome =
      true := by
    -- the bits of the start value from `found` on
    unfold lookupRound
    rw [List.find?_isSome]
    have hlt : s.toNat / 2 ^ found % 2 ^ 16 < 0x10000 := Nat.mod_lt _ (by decide)
    refine ⟨s.toNat / 2 ^ found % 2 ^ 16, List.mem_range.mpr hlt, ?_⟩
    have hvalue : s.toNat / 2 ^ found % 2 ^ 16 * 2 ^ found + disc.toNat =
        s.toNat % 2 ^ (found + 16) := by
      rw [h.disc_eq, Nat.pow_add, Nat.mod_mul, Nat.add_comm, Nat.mul_comm]
    have hdvd : 2 ^ min (16 + found) 32 ∣ 2 ^ (found + 16) := by
      rw [Nat.add_comm found]
      exact Nat.pow_dvd_pow 2 (Nat.min_le_left _ _)
    rw [matchesKey_iff hodd hfound hlt h, hvalue, Nat.mod_mod_of_dvd _ hdvd]
  obtain ⟨k, hk⟩ := Option.isSome_iff_exists.mp hsome
  have hfind := hk
  unfold lookupRound at hfind
  have hmem := List.mem_of_find?_eq_some hfind
  have hlt : k < 0x10000 := by
    rwa [List.mem_range] at hmem
  have hmatch := List.find?_some hfind
  exact ⟨k, hk, hlt, (matchesKey_iff hodd hfound hlt h).mp hmatch⟩

/-- What is known after a round. -/
theorem Known.next (hfound : found ≤ 28) (h : Known s found disc mask)
    (hk : (k * 2 ^ found + disc.toNat) % 2 ^ min (16 + found) 32 =
      s.toNat % 2 ^ min (16 + found) 32) :
    Known s (found + 4) (disc ||| ((UInt64.ofNat k &&& 0xF) <<< UInt64.ofNat found))
      ((mask <<< 4) ||| 0xF) := by
  have hpos := Nat.two_pow_pos found
  have hdisc : disc.toNat < 2 ^ found := by
    rw [h.disc_eq]
    exact Nat.mod_lt _ hpos
  have hlow : UInt64.ofNat k &&& 0xF = UInt64.ofNat (k % 16) := by
    rw [← UInt64.toNat_inj, UInt64.toNat_and, UInt64.toNat_ofNat', UInt64.toNat_ofNat']
    have hand := Nat.and_two_pow_sub_one_eq_mod (k % 2 ^ 64) 4
    simp only [show (0xF : UInt64).toNat = 2 ^ 4 - 1 from rfl, hand]
    omega
  constructor
  · have hdvd : 2 ^ (found + 4) ∣ 2 ^ min (16 + found) 32 :=
      Nat.pow_dvd_pow 2 (Nat.le_min.mpr ⟨by omega, by omega⟩)
    have hmod := congrArg (· % 2 ^ (found + 4)) hk
    simp only [Nat.mod_mod_of_dvd _ hdvd] at hmod
    rw [hlow, UInt64.or_comm, tried_toNat hfound (Nat.lt_of_lt_of_le (Nat.mod_lt k (by decide))
      (by decide)) hdisc, ← hmod, Nat.pow_add, Nat.mod_mul, Nat.mul_add_mod_self_right,
      Nat.mod_eq_of_lt hdisc, Nat.add_comm, Nat.add_comm (k * 2 ^ found),
      Nat.add_mul_div_right _ _ hpos, Nat.div_eq_of_lt hdisc, Nat.zero_add, Nat.mul_comm]
  · have hpos' := Nat.two_pow_pos (16 + found)
    have hpow : 2 ^ (16 + found) ≤ 2 ^ 44 := Nat.pow_le_pow_right (by decide) (by omega)
    have hnext : 2 ^ (16 + (found + 4)) = 2 ^ (16 + found) * 16 := by
      rw [← Nat.add_assoc, Nat.pow_add]
    have hshift : (mask <<< 4).toNat = mask.toNat * 2 ^ 4 := by
      rw [UInt64.toNat_shiftLeft, Nat.shiftLeft_eq, h.mask_eq,
        show (4 : UInt64).toNat % 64 = 4 from rfl]
      exact Nat.mod_eq_of_lt (by omega)
    have hor := Nat.shiftLeft_add_eq_or_of_lt (show 0xF < 2 ^ 4 by decide) mask.toNat
    rw [UInt64.toNat_or, hshift, show (0xF : UInt64).toNat = 0xF from rfl, ← Nat.shiftLeft_eq,
      ← hor, Nat.shiftLeft_eq, h.mask_eq, hnext]
    omega

/-- Each round finds the bits of the start value that was used. -/
theorem lookupLoop_finds (hodd : iv.toNat % 2 = 1) (rounds : Nat) (hfound : found + 4 * rounds = 32)
    (h : Known s found disc mask) :
    lookupLoop str (hashDJB2 str s iv.toUInt32).toUInt64 iv rounds found disc mask =
      some s.toUInt64 := by
  induction rounds generalizing found disc mask with
  | zero =>
    have hdisc := h.disc_eq
    rw [show found = 32 by omega, Nat.mod_eq_of_lt (UInt32.toNat_lt s)] at hdisc
    rw [lookupLoop, Option.some.injEq, ← UInt64.toNat_inj, hdisc, UInt32.toNat_toUInt64]
  | succ rounds ih =>
    obtain ⟨k, hround, -, hk⟩ := lookupRound_some str hodd (by omega) h
    rw [lookupLoop, hround]
    exact ih (by omega) (h.next (by omega) hk)

end Search

/-- **The search succeeds for every hash, and finds the start value it was made with.** -/
theorem lookup_hashDJB2 (str : List UInt8) (s : UInt32) (mult : UInt64)
    (hodd : mult.toNat % 2 = 1) :
    ∃ start, lookupDJB2 str (hashDJB2 str s mult.toUInt32).toUInt64 mult = some start ∧
      hashDJB2 str start.toUInt32 mult.toUInt32 = hashDJB2 str s mult.toUInt32 ∧
      start = s.toUInt64 := by
  refine ⟨s.toUInt64, lookupLoop_finds hodd 8 rfl ⟨?_, rfl⟩, ?_, rfl⟩
  · rw [Nat.pow_zero, Nat.mod_one]
    rfl
  · rw [UInt32.toUInt32_toUInt64]

/-- The start value 5381 and the multiplier 33, for a string with a character above 0x7F. -/
theorem lookup_hashDJB2_name :
    ∃ start, lookupDJB2 [0x41, 0xE9] (hashDJB2 [0x41, 0xE9] 5381 33).toUInt64 33 = some start ∧
      hashDJB2 [0x41, 0xE9] start.toUInt32 33 = hashDJB2 [0x41, 0xE9] 5381 33 ∧
      start = 5381 :=
  lookup_hashDJB2 [0x41, 0xE9] 5381 33 (by decide)

end Acts.HashLookup
