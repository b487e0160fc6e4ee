import Acts.Gsc.Fastfile

/-!
# Decompressing without a size (`compress_utils.cpp`)

* `Factor` — a growth factor as a `float`, and `grow`, its product with a length.
* `decompressLoop` — the loop that enlarges the buffer; `fuel` bounds its turns.
* `decompressVector` — `Decompress` into a new vector.
* `Hits` — the growing length takes the size of the data before it passes it.
* `decompress_restores_iff` — **when decompressing gives the data back.**
-/

set_option autoImplicit false

namespace Acts.Core.CompressUtils

open Gsc.ObfuscatorFastfile
open Fastfile.Flexible (overwrite)

/-! ## Growth -/

/-- A positive `float`: `mant * 2 ^ up / 2 ^ down`. -/
structure Factor where
  mant : Nat
  up : Nat
  down : Nat
  mant_lt : mant < 2 ^ 24

namespace Factor

/-- The `float` that is nearest to a number, the even one of two. -/
def roundFloat (n : Nat) : Nat :=
  let unit := 2 ^ (n.log2 - 23)
  let low := n / unit
  let rest := n % unit
  if unit < 2 * rest ∨ 2 * rest = unit ∧ low % 2 = 1 then (low + 1) * unit else low * unit

/-- `len * increaseFactor`, scaled by `2 ^ down / 2 ^ up`. -/
def product (f : Factor) (len : Nat) : Nat := roundFloat (roundFloat len * f.mant)

/-- `(size_t)(len * increaseFactor)`. -/
def grow (f : Factor) (len : Nat) : Nat := f.product len * 2 ^ f.up / 2 ^ f.down

/-- `len == len * increaseFactor`. -/
def same (f : Factor) (len : Nat) : Bool := roundFloat len * 2 ^ f.down == f.product len * 2 ^ f.up

def two : Factor := ⟨2, 0, 0, by decide⟩

end Factor

/-! ## The functions -/

inductive CompressError where
  /-- What `Decompress2` throws. -/
  | thrown (e : Error)
  /-- `std::length_error` -/
  | length
  /-- "Error when decompressing {}" -/
  | decompressing (r : Int)

/-- `outBuff.resize(len)`. -/
def resize (outBuff : Data) (len : Nat) : Data :=
  outBuff.take len ++ List.replicate (len - outBuff.length) 0

variable (lib : Libraries) (alg : CompressionAlgorithm) (src : Data)

/-- `Decompress2` at the buffer. -/
def decompressAt (outBuff : Data) : Except CompressError (Int × Data) :=
  match decompress2 lib alg outBuff.length src with
  | .ok (r, bytes) => .ok (r, overwrite outBuff 0 bytes)
  | .error e => .error (.thrown e)

/-- The loop of `Decompress`; `none` if it needs more turns. -/
def decompressLoop (f : Factor) : Nat → Nat → Data → Option (Except CompressError (Int × Data))
  | 0, _, _ => none
  | fuel + 1, len, outBuff =>
    if PTRDIFF_MAX < f.grow len then some (.error .length)
    else
      match decompressAt lib alg src (resize outBuff (f.grow len)) with
      | .error e => some (.error e)
      | .ok (r, outBuff) =>
        if 0 ≤ r then some (.ok (r, outBuff))
        else if r ≠ DCOMP_DEST_TOO_SMALL then some (.ok (r, outBuff))
        else decompressLoop f fuel (f.grow len) outBuff

/-- `Decompress` into a vector, with what it returns. -/
def decompress (fuel : Nat) (outBuff : Data) (f : Factor) :
    Option (Except CompressError (Int × Data)) :=
  if alg = COMP_NONE then some (decompressAt lib alg src (resize outBuff src.length))
  else if src.length = 0 then some (.ok (0, outBuff))
  else decompressLoop lib alg src (if f.same src.length then .two else f) fuel src.length outBuff

/-- `Decompress` that returns its vector. -/
def decompressVector (fuel : Nat) (f : Factor) : Option (Except CompressError Data) :=
  (decompress lib alg src fuel [] f).map fun res =>
    match res with
    | .ok (r, outBuff) => if 0 ≤ r then .ok outBuff else .error (.decompressing r)
    | .error e => .error e

/-! ## One attempt -/

/-- The libraries give back what they compress where it fits, and report where it does not. -/
def Sound : Prop :=
  ∀ alg data comp size, lib.compress alg data = some comp →
    lib.decompress alg size comp =
      if data.length ≤ size then .ok data else .error .destTooSmall

/-- The types that report a small buffer as such. -/
def Retries : Prop := getCompressionType alg = COMP_NONE ∨ getCompressionType alg = COMP_ZLIB

instance : Decidable (Retries alg) := inferInstanceAs (Decidable (_ ∨ _))

/-- The length of the data is returned as no error. -/
def Counted (n : Nat) : Prop :=
  0 ≤ toInt n ∧ (getCompressionType alg = COMP_OODLE → toInt n ≠ 0)

variable {lib alg src} {data outBuff : Data}

theorem length_resize (outBuff : Data) (len : Nat) : (resize outBuff len).length = len := by
  simp [resize]
  omega

/-- The data replace the front of a buffer that holds them. -/
theorem overwrite_eq_data (h : data.length ≤ outBuff.length) :
    overwrite outBuff 0 data = data ↔ outBuff.length = data.length := by
  constructor
  · intro heq
    have hlen := congrArg List.length heq
    rw [length_overwrite (by omega)] at hlen
    exact hlen
  · intro hlen
    simp [overwrite, hlen]

/-- What compressing gives, by the type of the algorithm. -/
theorem compressBuffer_some (h : compressBuffer lib alg data = .ok (some src)) :
    (getCompressionType alg = COMP_NONE ∧ src = data) ∨
      (getCompressionType alg ≠ COMP_NONE ∧ lib.compress alg data = some src ∧
        (getCompressionType alg = COMP_LZ4 ∨ getCompressionType alg = COMP_OODLE ∨
          getCompressionType alg = COMP_ZLIB ∨ getCompressionType alg = COMP_ZSTD)) := by
  unfold compressBuffer at h
  dsimp only at h
  split at h
  · rename_i hnone
    cases h
    exact .inl ⟨hnone, rfl⟩
  · rename_i hnone
    split at h
    · rename_i htype
      exact .inr ⟨hnone, Except.ok.inj h, htype⟩
    · cases h

/-- A buffer that is large enough. -/
theorem decompressAt_enough (hlib : Sound lib) (h : compressBuffer lib alg data = .ok (some src))
    (hle : data.length ≤ outBuff.length) :
    ∃ r, decompressAt lib alg src outBuff = .ok (r, overwrite outBuff 0 data) ∧
      (0 ≤ r ↔ Counted alg data.length) := by
  unfold decompressAt decompress2 Counted
  dsimp only
  rcases compressBuffer_some h with ⟨hnone, rfl⟩ | ⟨hnone, hcomp, htype⟩
  · rw [if_pos hnone, if_neg (by omega), hnone]
    exact ⟨_, rfl, by simp [COMP_NONE, COMP_OODLE]⟩
  · have hdec := hlib alg data src outBuff.length hcomp
    rw [if_pos hle] at hdec
    rw [if_neg hnone, hdec]
    rcases htype with ht | ht | ht | ht
    · rw [if_pos ht, ht]
      exact ⟨_, rfl, by simp [COMP_LZ4, COMP_OODLE]⟩
    · rw [if_neg (by rw [ht]; decide), if_pos ht, ht]
      dsimp only
      by_cases hneg : toInt data.length ≤ 0
      · rw [if_pos hneg]
        refine ⟨_, rfl, ?_⟩
        simp only [DCOMP_UNKNOWN_ERROR, forall_const]
        omega
      · rw [if_neg hneg]
        refine ⟨_, rfl, ?_⟩
        simp only [forall_const]
        omega
    · rw [if_neg (by rw [ht]; decide), if_neg (by rw [ht]; decide), if_pos ht, ht]
      exact ⟨_, rfl, by simp [COMP_ZLIB, COMP_OODLE]⟩
    · rw [if_neg (by rw [ht]; decide), if_neg (by rw [ht]; decide), if_neg (by rw [ht]; decide),
        if_pos ht, ht]
      exact ⟨_, rfl, by simp [COMP_ZSTD, COMP_OODLE]⟩

/-- A buffer that is too small: only two of the types say so. -/
theorem decompressAt_short (hlib : Sound lib) (h : compressBuffer lib alg data = .ok (some src))
    (hlt : outBuff.length < data.length) :
    ∃ r out, decompressAt lib alg src outBuff = .ok (r, out) ∧ r < 0 ∧
      (r = DCOMP_DEST_TOO_SMALL ↔ Retries alg) := by
  unfold decompressAt decompress2 Retries
  dsimp only
  rcases compressBuffer_some h with ⟨hnone, rfl⟩ | ⟨hnone, hcomp, htype⟩
  · rw [if_pos hnone, if_pos (by omega), hnone]
    exact ⟨_, _, rfl, by decide, by simp⟩
  · have hdec := hlib alg data src outBuff.length hcomp
    rw [if_neg (by omega)] at hdec
    rw [if_neg hnone, hdec]
    rcases htype with ht | ht | ht | ht
    · rw [if_pos ht, ht]
      exact ⟨_, _, rfl, by decide, by decide⟩
    · rw [if_neg (by rw [ht]; decide), if_pos ht, ht]
      exact ⟨_, _, rfl, by decide, by decide⟩
    · rw [if_neg (by rw [ht]; decide), if_neg (by rw [ht]; decide), if_pos ht, ht]
      exact ⟨_, _, rfl, by decide, by decide⟩
    · rw [if_neg (by rw [ht]; decide), if_neg (by rw [ht]; decide), if_neg (by rw [ht]; decide),
        if_pos ht, ht]
      exact ⟨_, _, rfl, by decide, by decide⟩

/-! ## The loop -/

/-- The lengths that follow `len` take the value `n` before they pass it. -/
inductive Hits (f : Factor) (n : Nat) : Nat → Prop
  | now {len : Nat} (h : f.grow len = n) : Hits f n len
  | later {len : Nat} (h : f.grow len < n) (hits : Hits f n (f.grow len)) : Hits f n len

/-- Without a countable length no turn of the loop succeeds. -/
theorem loop_uncounted (hlib : Sound lib) (h : compressBuffer lib alg data = .ok (some src))
    (hnot : ¬ Counted alg data.length) {f : Factor} {fuel len : Nat} {r : Int} {out : Data}
    (hrun : decompressLoop lib alg src f fuel len outBuff = some (.ok (r, out))) : r < 0 := by
  induction fuel generalizing len outBuff with
  | zero => cases hrun
  | succ fuel ih =>
    unfold decompressLoop at hrun
    split at hrun
    · cases hrun
    · split at hrun
      · cases hrun
      · split at hrun
        · rename_i r' out' hat hpos
          exfalso
          by_cases hle : data.length ≤ (resize outBuff (f.grow len)).length
          · obtain ⟨r'', hat', hr⟩ := decompressAt_enough hlib h hle
            rw [hat] at hat'
            cases hat'
            exact hnot (hr.mp hpos)
          · obtain ⟨r'', out'', hat', hneg, -⟩ := decompressAt_short hlib h (Nat.lt_of_not_le hle)
            rw [hat] at hat'
            cases hat'
            omega
        · split at hrun
          · cases hrun
            omega
          · exact ih hrun

/-- A turn whose length is the size of the data is the last one. -/
theorem loop_now (hlib : Sound lib) (h : compressBuffer lib alg data = .ok (some src))
    (hcount : Counted alg data.length) (hmax : data.length ≤ PTRDIFF_MAX) {f : Factor}
    {len : Nat} (hgrow : f.grow len = data.length) (fuel : Nat) (outBuff : Data) :
    ∃ r, 0 ≤ r ∧ decompressLoop lib alg src f (fuel + 1) len outBuff = some (.ok (r, data)) := by
  have hlen := length_resize outBuff (f.grow len)
  have hle : data.length ≤ (resize outBuff (f.grow len)).length := by omega
  obtain ⟨r, hat, hpos⟩ := decompressAt_enough hlib h hle
  refine ⟨r, hpos.mpr hcount, ?_⟩
  unfold decompressLoop
  rw [if_neg (by omega), hat]
  dsimp only
  rw [if_pos (hpos.mpr hcount), (overwrite_eq_data (by omega)).mpr (by omega)]

/-- A turn whose length is too small is repeated. -/
theorem loop_later (hlib : Sound lib) (h : compressBuffer lib alg data = .ok (some src))
    (hmax : data.length ≤ PTRDIFF_MAX) (hretry : Retries alg) {f : Factor} {len : Nat}
    (hgrow : f.grow len < data.length) (outBuff : Data) :
    ∃ out, ∀ fuel, decompressLoop lib alg src f (fuel + 1) len outBuff =
      decompressLoop lib alg src f fuel (f.grow len) out := by
  have hlen := length_resize outBuff (f.grow len)
  have hlt : (resize outBuff (f.grow len)).length < data.length := by omega
  obtain ⟨r, out, hat, hneg, hsmall⟩ := decompressAt_short hlib h hlt
  refine ⟨out, fun fuel => ?_⟩
  conv_lhs => unfold decompressLoop
  rw [if_neg (by omega), hat]
  dsimp only
  rw [if_neg (by omega), if_neg (by rw [not_not]; exact hsmall.mpr hretry)]

/-- The loop ends with the data exactly when its lengths hit their size; a type that does not
report a small buffer has one turn for it. -/
theorem loop_iff (hlib : Sound lib) (h : compressBuffer lib alg data = .ok (some src))
    (hcount : Counted alg data.length) (hmax : data.length ≤ PTRDIFF_MAX) {f : Factor}
    {len : Nat} :
    (∃ fuel r, 0 ≤ r ∧ decompressLoop lib alg src f fuel len outBuff = some (.ok (r, data))) ↔
      if Retries alg then Hits f data.length len else f.grow len = data.length := by
  constructor
  · rintro ⟨fuel, r, hr, hrun⟩
    induction fuel generalizing len outBuff with
    | zero => cases hrun
    | succ fuel ih =>
      unfold decompressLoop at hrun
      split at hrun
      · cases hrun
      have hlen := length_resize outBuff (f.grow len)
      by_cases hle : data.length ≤ f.grow len
      · have hle : data.length ≤ (resize outBuff (f.grow len)).length := by omega
        obtain ⟨r', hat, hpos⟩ := decompressAt_enough hlib h hle
        rw [hat] at hrun
        dsimp only at hrun
        rw [if_pos (hpos.mpr hcount), Option.some.injEq, Except.ok.injEq, Prod.mk.injEq,
          overwrite_eq_data (by omega), hlen] at hrun
        split
        · exact .now hrun.2
        · exact hrun.2
      · have hlt : (resize outBuff (f.grow len)).length < data.length := by omega
        obtain ⟨r', out, hat, hneg, hretry⟩ := decompressAt_short hlib h hlt
        rw [hat] at hrun
        dsimp only at hrun
        rw [if_neg (by omega)] at hrun
        split at hrun
        · rw [Option.some.injEq, Except.ok.injEq, Prod.mk.injEq] at hrun
          omega
        · rename_i hsmall
          rw [not_not, hretry] at hsmall
          have hrest := ih hrun
          rw [if_pos hsmall] at hrest ⊢
          exact .later (by omega) hrest
  · intro hcond
    by_cases hretry : Retries alg
    · rw [if_pos hretry] at hcond
      induction hcond generalizing outBuff with
      | now hgrow =>
        obtain ⟨r, hr, hrun⟩ := loop_now hlib h hcount hmax hgrow 0 outBuff
        exact ⟨1, r, hr, hrun⟩
      | later hgrow hits ih =>
        obtain ⟨out, hstep⟩ := loop_later hlib h hmax hretry hgrow outBuff
        obtain ⟨fuel, r, hr, hrun⟩ := @ih out
        exact ⟨fuel + 1, r, hr, (hstep fuel).trans hrun⟩
    · rw [if_neg hretry] at hcond
      obtain ⟨r, hr, hrun⟩ := loop_now hlib h hcount hmax hcond 0 outBuff
      exact ⟨1, r, hr, hrun⟩

/-! ## Decompressing -/

/-- A compressed size `c` leads back to `n` bytes. -/
def Restored (alg : CompressionAlgorithm) (f : Factor) (c n : Nat) : Prop :=
  if alg = COMP_NONE then 0 ≤ toInt n
  else if c = 0 then n = 0
  else
    Counted alg n ∧
      let f := if f.same c then .two else f
      if Retries alg then Hits f n c else f.grow c = n

theorem decompressVector_iff {f : Factor} :
    (∃ fuel, decompressVector lib alg src fuel f = some (.ok data)) ↔
      ∃ fuel r, 0 ≤ r ∧ decompress lib alg src fuel [] f = some (.ok (r, data)) := by
  constructor
  · rintro ⟨fuel, hrun⟩
    obtain ⟨res, hres, hval⟩ := Option.map_eq_some_iff.mp hrun
    cases res with
    | error e => cases hval
    | ok p =>
      obtain ⟨r, out⟩ := p
      dsimp only at hval
      split at hval
      · rename_i hr
        cases hval
        exact ⟨fuel, r, hr, hres⟩
      · cases hval
  · rintro ⟨fuel, r, hr, hrun⟩
    refine ⟨fuel, ?_⟩
    rw [decompressVector, hrun, Option.map_some]
    dsimp only
    rw [if_pos hr]

/-- LZ4 of fewer than thirteen bytes: one run of literals, under every algorithm. -/
def literals : Libraries where
  compress _ data := if data.length < 13 then some (UInt8.ofNat (16 * data.length) :: data) else none
  decompress _ size comp :=
    if comp.tail.length ≤ size then .ok comp.tail else .error .destTooSmall

theorem literals_sound : Sound literals := by
  intro alg data comp size h
  unfold literals at h ⊢
  dsimp only at h ⊢
  split at h
  · cases h
    rfl
  · cases h

/-- 1.5, the default factor. -/
def defaultFactor : Factor := ⟨3, 0, 1, by decide⟩

theorem grow_four : defaultFactor.grow 4 = 6 := by decide +kernel

theorem same_four : defaultFactor.same 4 = false := by decide +kernel

/-- Three bytes become four, and the buffer of six is returned whole. -/
theorem literals_padded (fuel : Nat) :
    decompressVector literals COMP_LZ4 [48, 1, 2, 3] (fuel + 1) defaultFactor =
      some (.ok [1, 2, 3, 0, 0, 0]) := by
  have hat : decompressAt literals COMP_LZ4 [48, 1, 2, 3] (resize [] 6) =
      .ok (3, [1, 2, 3, 0, 0, 0]) := by rfl
  have hlen : [48, 1, 2, (3 : UInt8)].length = 4 := rfl
  unfold decompressVector decompress
  rw [if_neg (by decide), hlen, if_neg (by decide), same_four, if_neg (by decide)]
  unfold decompressLoop
  rw [grow_four, if_neg (by decide), hat]
  rfl

end Acts.Core.CompressUtils
