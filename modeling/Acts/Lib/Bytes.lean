import Mathlib.Algebra.Group.Int.Defs
import Mathlib.Algebra.Group.Nat.Defs
import Mathlib.Algebra.GroupWithZero.Nat
import Mathlib.Tactic.Common

/-!
# Little-endian bytes and alignment

* `aligned` — the next multiple of a width.
* `leBytes`, `readLe` — little-endian words as byte lists, with their round trip.
* `toWord`, `ofWord` — two's complement integers as words.
* `padTo` — a byte list padded to a multiple of a width; a list whose start is aligned pads the
  same way wherever it stands.
-/

set_option autoImplicit false

namespace Acts

/-! ## Alignment -/

def aligned (n len : Nat) : Nat := (n + (len - 1)) / len * len

section Aligned

variable {n m len b : Nat}

theorem aligned_dvd (n len : Nat) : len ∣ aligned n len := ⟨_, Nat.mul_comm _ _⟩

theorem le_aligned (n : Nat) (h : 0 < len) : n ≤ aligned n len := by
  have hlt : n + (len - 1) < aligned n len + len := by
    rw [aligned, ← Nat.succ_mul]
    exact Nat.lt_mul_of_div_lt (Nat.lt_succ_self _) h
  omega

theorem aligned_lt (n : Nat) (h : 0 < len) : aligned n len < n + len := by
  have := Nat.div_mul_le_self (n + (len - 1)) len
  rw [aligned]
  omega

@[simp] theorem aligned_one (n : Nat) : aligned n 1 = n := by simp [aligned]

theorem aligned_of_dvd (h : len ∣ n) : aligned n len = n := by
  obtain ⟨k, rfl⟩ := h
  rcases Nat.eq_zero_or_pos len with rfl | hpos
  · simp [aligned]
  · rw [aligned, Nat.add_comm, Nat.add_mul_div_left _ _ hpos,
      Nat.div_eq_of_lt (Nat.sub_lt hpos Nat.one_pos), Nat.zero_add, Nat.mul_comm]

/-- Alignment does not see a base that is itself aligned. -/
theorem aligned_add (n : Nat) (h : len ∣ b) : aligned (b + n) len = b + aligned n len := by
  obtain ⟨k, rfl⟩ := h
  rcases Nat.eq_zero_or_pos len with rfl | hpos
  · simp [aligned]
  · rw [aligned, Nat.add_assoc, Nat.add_comm (len * k), Nat.add_mul_div_left _ _ hpos, Nat.add_mul,
      Nat.mul_comm k, Nat.add_comm, aligned]

theorem dvd_aligned_of_dvd {k : Nat} (hk : k ∣ len) (n : Nat) : k ∣ aligned n len :=
  Nat.dvd_trans hk (aligned_dvd n len)

end Aligned

/-! ## Words -/

/-- The little-endian word of `n` bytes. -/
def leBytes : Nat → Nat → List UInt8
  | 0, _ => []
  | n + 1, v => UInt8.ofNat v :: leBytes n (v / 256)

/-- The word that the first `n` bytes of a list make. -/
def readLe : Nat → List UInt8 → Nat
  | 0, _ => 0
  | _, [] => 0
  | n + 1, b :: bs => b.toNat + 256 * readLe n bs

section Words

variable {n : Nat}

@[simp] theorem length_leBytes (n v : Nat) : (leBytes n v).length = n := by
  induction n generalizing v with
  | zero => rfl
  | succ n ih => rw [leBytes, List.length_cons, ih]

/-- A word keeps its low bytes. -/
theorem leBytes_mod (n v : Nat) : leBytes n (v % 256 ^ n) = leBytes n v := by
  induction n generalizing v with
  | zero => rfl
  | succ n ih =>
    have hlow : UInt8.ofNat (v % 256 ^ (n + 1)) = UInt8.ofNat v := by
      rw [← UInt8.toNat_inj, UInt8.toNat_ofNat', UInt8.toNat_ofNat', Nat.pow_succ']
      exact Nat.mod_mul_right_mod v 256 (256 ^ n)
    rw [leBytes, leBytes, hlow, Nat.pow_succ', Nat.mod_mul_right_div_self, ih]

theorem leBytes_mod_add (n v k : Nat) : leBytes n (v % 256 ^ n + k) = leBytes n (v + k) := by
  rw [← leBytes_mod, Nat.mod_add_mod, leBytes_mod]

theorem readLe_leBytes (n v : Nat) (rest : List UInt8) :
    readLe n (leBytes n v ++ rest) = v % 256 ^ n := by
  induction n generalizing v with
  | zero => rw [readLe, Nat.pow_zero, Nat.mod_one]
  | succ n ih =>
    rw [leBytes, List.cons_append, readLe, ih, Nat.pow_succ', Nat.mod_mul]
    simp

theorem readLe_lt (n : Nat) (bs : List UInt8) : readLe n bs < 256 ^ n := by
  induction n generalizing bs with
  | zero => simp [readLe]
  | succ n ih =>
    cases bs with
    | nil => exact Nat.pow_pos (by omega)
    | cons b bs =>
      have h := ih bs
      have hb := b.toNat_lt
      rw [readLe, Nat.pow_succ']
      omega

/-- Only the first `n` bytes matter. -/
theorem readLe_take (n : Nat) (bs : List UInt8) : readLe n (bs.take n) = readLe n bs := by
  induction n generalizing bs with
  | zero => rfl
  | succ n ih =>
    cases bs with
    | nil => rfl
    | cons b bs => rw [List.take_succ_cons, readLe, readLe, ih]

/-- A word is its bytes. -/
theorem leBytes_readLe {bs : List UInt8} (h : bs.length = n) : leBytes n (readLe n bs) = bs := by
  induction n generalizing bs with
  | zero => rw [List.length_eq_zero_iff.mp h, leBytes]
  | succ n ih =>
    cases bs with
    | nil => cases h
    | cons b bs =>
      have hhead : UInt8.ofNat (b.toNat + 256 * readLe n bs) = b := by
        rw [← UInt8.toNat_inj, UInt8.toNat_ofNat']
        have := b.toNat_lt
        omega
      have htail : (b.toNat + 256 * readLe n bs) / 256 = readLe n bs := by
        have := b.toNat_lt
        omega
      rw [readLe, leBytes, hhead, htail, ih (Nat.succ.inj h)]

end Words

/-! ## Signed words -/

/-- An integer as a word of `n` bytes. -/
def toWord (n : Nat) (v : Int) : Nat := (v % (256 ^ n : Nat)).toNat

/-- The integer that a word of `n` bytes stands for. -/
def ofWord (n : Nat) (x : Nat) : Int := (x : Int).bmod (256 ^ n)

section SignedWords

variable {n : Nat} {v : Int}

theorem toWord_cast (n : Nat) (v : Int) : (toWord n v : Int) = v % (256 ^ n : Nat) := by
  have hpos : 0 < 256 ^ n := Nat.pow_pos (by decide)
  exact Int.toNat_of_nonneg (Int.emod_nonneg _ (by omega))

theorem toWord_lt (n : Nat) (v : Int) : toWord n v < 256 ^ n := by
  have hpos : 0 < 256 ^ n := Nat.pow_pos (by decide)
  have hlt : v % (256 ^ n : Nat) < (256 ^ n : Nat) := Int.emod_lt_of_pos _ (by omega)
  rw [← toWord_cast] at hlt
  omega

/-- A word that is not signed keeps the integers from 0 on. -/
theorem toWord_of_nonneg (h : 0 ≤ v) (hv : v < (256 ^ n : Nat)) : (toWord n v : Int) = v := by
  rw [toWord_cast, Int.emod_eq_of_lt h hv]

/-- A signed word keeps the integers of its range. -/
theorem ofWord_toWord (h : -((256 ^ n : Nat) : Int) ≤ v * 2) (hv : v * 2 < (256 ^ n : Nat)) :
    ofWord n (toWord n v) = v := by
  rw [ofWord, toWord_cast, Int.emod_bmod, Int.bmod_eq_of_le_mul_two h hv]

theorem ofWord_inj {x y : Nat} (hx : x < 256 ^ n) (hy : y < 256 ^ n)
    (h : ofWord n x = ofWord n y) : x = y := by
  have hmod := congrArg (· % ((256 ^ n : Nat) : Int)) h
  simp only [ofWord, Int.bmod_emod] at hmod
  rw [Int.emod_eq_of_lt (by omega) (by omega), Int.emod_eq_of_lt (by omega) (by omega)] at hmod
  omega

end SignedWords

/-! ## Padding -/

/-- `data` with zeros up to the next multiple of `len`. -/
def padTo (len : Nat) (data : List UInt8) : List UInt8 :=
  data ++ List.replicate (aligned data.length len - data.length) 0

theorem length_padTo {len : Nat} (data : List UInt8) (h : 0 < len) :
    (padTo len data).length = aligned data.length len := by
  have := le_aligned data.length h
  rw [padTo, List.length_append, List.length_replicate]
  omega

/-- A start that is aligned does not change the padding. -/
theorem padTo_append {len : Nat} {start : List UInt8} (h : len ∣ start.length)
    (data : List UInt8) : padTo len (start ++ data) = start ++ padTo len data := by
  rw [padTo, padTo, List.length_append, aligned_add data.length h, Nat.add_sub_add_left,
    List.append_assoc]

end Acts
