import Acts.Lib.Memory

/-!
# Tables of records of any length

* `Mem.memmove`, `Mem.fill` — moving and overwriting bytes.
* `Format` — how a record is read, and how long it is.
* `Format.Stands` — records that stand in a memory, one behind the other.
* `Format.Compacting` — **the invariant of a pass that moves some of the records to the front.**
-/

set_option autoImplicit false

namespace Acts

namespace Mem

variable {m : Mem} {dst src n x : Nat}

/-- `memmove` of `n` bytes at `src` to `dst`. -/
def memmove (m : Mem) (dst src n : Nat) : Mem := fun x =>
  if dst ≤ x ∧ x < dst + n then m (src + (x - dst)) else m x

/-- `n` bytes at `dst` are overwritten. -/
def fill (m : Mem) (bytes : Nat → UInt8) (dst n : Nat) : Mem := fun x =>
  if dst ≤ x ∧ x < dst + n then bytes x else m x

theorem memmove_outside (m : Mem) (src : Nat) (h : x < dst ∨ dst + n ≤ x) :
    m.memmove dst src n x = m x := by
  unfold memmove
  rw [if_neg (by omega)]

theorem fill_outside (m : Mem) (bytes : Nat → UInt8) (h : x < dst ∨ dst + n ≤ x) :
    m.fill bytes dst n x = m x := by
  unfold fill
  rw [if_neg (by omega)]

/-- A word of the bytes that are moved. -/
theorem readLE_memmove {i k : Nat} (h : i + k ≤ n) :
    (m.memmove dst src n).readLE (dst + i) k = m.readLE (src + i) k := by
  induction k generalizing i with
  | zero => rfl
  | succ k ih =>
    have hbyte : m.memmove dst src n (dst + i) = m (src + i) := by
      unfold memmove
      rw [if_pos (by omega), Nat.add_sub_cancel_left]
    have hrest : (m.memmove dst src n).readLE (dst + (i + 1)) k = m.readLE (src + (i + 1)) k :=
      ih (by omega)
    rw [readLE, readLE, hbyte, Nat.add_assoc, Nat.add_assoc, hrest]

end Mem

/-- Records of any length; a record is determined by its bytes. -/
structure Format (ρ : Type) where
  read : Mem → Nat → ρ
  len : ρ → Nat
  read_congr : ∀ m m' p, (∀ x, p ≤ x → x < p + len (read m p) → m' x = m x) →
    read m' p = read m p

namespace Format

variable {ρ : Type} (F : Format ρ)

/-- `n` records, from `p` on. -/
def readAll (m : Mem) : Nat → Nat → List ρ
  | 0, _ => []
  | n + 1, p => F.read m p :: readAll m n (p + F.len (F.read m p))

/-- The records stand from `p` to `e`. -/
def Stands (m : Mem) : Nat → List ρ → Nat → Prop
  | p, [], e => p = e
  | p, r :: rs, e => F.read m p = r ∧ Stands m (p + F.len r) rs e

variable {F} {m m' : Mem} {p q e : Nat} {r : ρ} {rs rs' : List ρ}

theorem Stands.le (h : F.Stands m p rs e) : p ≤ e := by
  induction rs generalizing p with
  | nil => exact Nat.le_of_eq h
  | cons r rs ih =>
    have hrest := ih h.2
    omega

theorem Stands.readAll (h : F.Stands m p rs e) : F.readAll m rs.length p = rs := by
  induction rs generalizing p with
  | nil => rfl
  | cons r rs ih =>
    obtain ⟨hread, hrest⟩ := h
    rw [List.length_cons, Format.readAll, hread, ih hrest]

theorem Stands.append (h : F.Stands m p rs q) (h' : F.Stands m q rs' e) :
    F.Stands m p (rs ++ rs') e := by
  induction rs generalizing p with
  | nil =>
    obtain rfl : p = q := h
    exact h'
  | cons r rs ih => exact ⟨h.1, ih h.2⟩

/-- Only the bytes of the records count. -/
theorem Stands.congr (h : F.Stands m p rs e) (heq : ∀ x, p ≤ x → x < e → m' x = m x) :
    F.Stands m' p rs e := by
  induction rs generalizing p with
  | nil => exact h
  | cons r rs ih =>
    obtain ⟨hread, hrest⟩ := h
    have hle := hrest.le
    refine ⟨?_, ih hrest (fun x hp he => heq x (by omega) he)⟩
    rw [← hread]
    refine F.read_congr m m' p ?_
    intro x hp hx
    rw [hread] at hx
    exact heq x hp (by omega)

/-- A pass over the records of `m` has come to the one at `r`: those that are kept stand from
`start` to `w`, and what is not read yet is as it was. -/
structure Compacting (F : Format ρ) (m m' : Mem) (start : Nat) (kept : List ρ) (w r : Nat) :
    Prop where
  stands : F.Stands m' start kept w
  le : w ≤ r
  unread : ∀ x, r ≤ x → m' x = m x
  before : ∀ x, x < start → m' x = m x

namespace Compacting

variable {m'' : Mem} {start w pos : Nat} {kept : List ρ}

theorem init (m : Mem) (start : Nat) : F.Compacting m m start [] start start where
  stands := rfl
  le := Nat.le_refl _
  unread _ _ := rfl
  before _ _ := rfl

/-- What is read at the position is the record of the start. -/
theorem read_eq (h : F.Compacting m m' start kept w pos) : F.read m' pos = F.read m pos :=
  F.read_congr m m' pos (fun x hx _ => h.unread x hx)

/-- The record at the position is left out. -/
theorem skip (h : F.Compacting m m' start kept w pos) (k : Nat) :
    F.Compacting m m' start kept w (pos + k) where
  stands := h.stands
  le := Nat.le_add_right_of_le h.le
  unread x hx := h.unread x (by omega)
  before := h.before

/-- The record at the position is moved behind those that are kept. -/
theorem keep (h : F.Compacting m m' start kept w pos) (hmoved : F.read m'' w = F.read m pos)
    (hframe : ∀ x, x < w ∨ w + F.len (F.read m pos) ≤ x → m'' x = m' x) :
    F.Compacting m m'' start (kept ++ [F.read m pos]) (w + F.len (F.read m pos))
      (pos + F.len (F.read m pos)) := by
  have hle := h.le
  have hstart := h.stands.le
  refine ⟨?_, by omega, ?_, ?_⟩
  · have hkept : F.Stands m'' start kept w :=
      h.stands.congr (fun x _ hx => hframe x (Or.inl hx))
    exact hkept.append ⟨hmoved, rfl⟩
  · intro x hx
    rw [hframe x (Or.inr (by omega)), h.unread x (by omega)]
  · intro x hx
    rw [hframe x (Or.inl (by omega)), h.before x hx]

end Compacting

end Format

end Acts
