import Mathlib.Algebra.Group.Int.Defs
import Mathlib.Algebra.Group.Nat.Defs
import Mathlib.Algebra.GroupWithZero.Nat
import Mathlib.Tactic.Common

/-!
# Byte memory

* `Mem` — a memory, as a function from addresses to bytes.
* `setByte`, `readLE`, `writeLE` — single bytes and little-endian words of any width.
* `readLE_writeLE`, `writeLE_outside`, `readLE_congr` — a word reads back what was written, a
  write changes nothing outside its word, a word is determined by its bytes.
-/

set_option autoImplicit false

namespace Acts

/-- A memory. -/
abbrev Mem := Nat → UInt8

namespace Mem

def setByte (m : Mem) (a : Nat) (v : UInt8) : Mem := fun x => if x = a then v else m x

/-- The little-endian word of `n` bytes at `a`. -/
def readLE (m : Mem) (a : Nat) : Nat → Nat
  | 0 => 0
  | n + 1 => (m a).toNat + 256 * readLE m (a + 1) n

/-- Write `v` as a little-endian word of `n` bytes at `a`. -/
def writeLE (m : Mem) (a : Nat) (v : Nat) : Nat → Mem
  | 0 => m
  | n + 1 => writeLE (m.setByte a (UInt8.ofNat v)) (a + 1) (v / 256) n

variable {m : Mem} {a v n x : Nat}

@[simp] theorem setByte_same (m : Mem) (a : Nat) (b : UInt8) : m.setByte a b a = b := by
  simp [setByte]

theorem setByte_other (b : UInt8) (h : x ≠ a) : m.setByte a b x = m x := by
  simp [setByte, h]

theorem writeLE_outside (m : Mem) (v : Nat) (h : x < a ∨ a + n ≤ x) :
    m.writeLE a v n x = m x := by
  induction n generalizing m a v with
  | zero => rfl
  | succ n ih =>
    rw [writeLE, ih _ _ (by omega), setByte_other _ (by omega)]

theorem readLE_lt (m : Mem) (a n : Nat) : m.readLE a n < 256 ^ n := by
  induction n generalizing a with
  | zero => exact Nat.one_pos
  | succ n ih =>
    have hrest := ih (a + 1)
    have hb := (m a).toNat_lt
    rw [Mem.readLE, Nat.pow_succ']
    omega

theorem readLE_congr (m' : Mem) (h : ∀ x, a ≤ x → x < a + n → m x = m' x) :
    m.readLE a n = m'.readLE a n := by
  induction n generalizing a with
  | zero => rfl
  | succ n ih =>
    rw [readLE, readLE, h a (by omega) (by omega), ih (fun x h1 h2 => h x (by omega) (by omega))]

theorem readLE_writeLE (m : Mem) (a v n : Nat) :
    (m.writeLE a v n).readLE a n = v % 256 ^ n := by
  induction n generalizing m a v with
  | zero => simp [readLE, Nat.mod_one]
  | succ n ih =>
    rw [writeLE, readLE, ih, writeLE_outside _ _ (by omega), setByte_same]
    rw [Nat.pow_succ', Nat.mod_mul]
    simp

theorem readLE_writeLE_disjoint {b k : Nat} (m : Mem) (v : Nat) (h : b + k ≤ a ∨ a + n ≤ b) :
    (m.writeLE a v n).readLE b k = m.readLE b k :=
  readLE_congr _ (fun _ _ _ => writeLE_outside m v (by omega))

theorem readLE_setByte_disjoint {b k : Nat} (m : Mem) (c : UInt8) (h : a < b ∨ b + k ≤ a) :
    (m.setByte a c).readLE b k = m.readLE b k :=
  readLE_congr _ (fun _ _ _ => setByte_other c (by omega))

end Mem

end Acts
