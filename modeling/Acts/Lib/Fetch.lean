import Acts.Lib.Bytes
import Acts.Lib.Memory

/-!
# Fetching byte code

A fetch loop that aligns its operands, over any table of operand shapes:

* `Operands` — what an opcode reads: nothing, a word, or a counted row of words.
* `fetch`, `walk` — one instruction and a row of them, read from memory at an absolute position.
* `Instr` — an instruction as it was emitted, without any padding.
* `fetch_iff`, `walk_iff` — the loop visits the emitted instructions and reads what was emitted
  exactly when the shapes are the table's and every operand lies at a multiple of its width.
-/

set_option autoImplicit false

namespace Acts.Fetch

/-! ## The loop -/

/-- The operands of an opcode: `counted` is a count byte and as many words. -/
inductive Operands where
  | none
  | word (w : Nat)
  | counted (w : Nat)
  deriving DecidableEq, Repr

/-- A fetched instruction. -/
structure Visit where
  pos : Nat
  op : UInt8
  operands : List Nat
  deriving DecidableEq, Repr

/-- `n` words from `pos` on, each aligned, and the position after them. -/
def readWords (m : Mem) (w : Nat) : Nat → Nat → List Nat × Nat
  | 0, pos => ([], pos)
  | n + 1, pos =>
    let r := readWords m w n (aligned pos w + w)
    (m.readLE (aligned pos w) w :: r.1, r.2)

variable (handler : UInt8 → Option Operands)

/-- The instruction at `pos` and the position after it. -/
def fetch (m : Mem) (pos : Nat) : Option (Visit × Nat) :=
  match handler (m pos) with
  | none => none
  | some .none => some (⟨pos, m pos, []⟩, pos + 1)
  | some (.word w) =>
    let a := aligned (pos + 1) w
    some (⟨pos, m pos, [m.readLE a w]⟩, a + w)
  | some (.counted w) =>
    let n := (m (pos + 1)).toNat
    let r := readWords m w n (pos + 2)
    some (⟨pos, m pos, n :: r.1⟩, r.2)

/-- `n` instructions in a row. -/
def walk (m : Mem) : Nat → Nat → Option (List Visit × Nat)
  | 0, pos => some ([], pos)
  | n + 1, pos => do
    let (v, pos) ← fetch handler m pos
    let (vs, last) ← walk m n pos
    some (v :: vs, last)

/-! ## Emitted instructions -/

inductive Instr where
  | plain (op : UInt8)
  | word (op : UInt8) (w v : Nat)
  | counted (op : UInt8) (w : Nat) (vs : List Nat)
  deriving DecidableEq, Repr

def Instr.bytes : Instr → List UInt8
  | .plain op => [op]
  | .word op w v => op :: leBytes w v
  | .counted op w vs => op :: (leBytes 1 vs.length ++ vs.flatMap (leBytes w))

def Instr.size (i : Instr) : Nat := i.bytes.length

/-- The instruction as the loop should see it at `pos`. -/
def Instr.visit (pos : Nat) : Instr → Visit
  | .plain op => ⟨pos, op, []⟩
  | .word op w v => ⟨pos, op, [v % 256 ^ w]⟩
  | .counted op w vs => ⟨pos, op, vs.length % 256 :: vs.map (· % 256 ^ w)⟩

def encode (is : List Instr) : List UInt8 := is.flatMap Instr.bytes

def visits : Nat → List Instr → List Visit
  | _, [] => []
  | pos, i :: is => i.visit pos :: visits (pos + i.size) is

/-- The table reads at least what was emitted. -/
def Instr.Covered : Instr → Prop
  | .plain op => (handler op).isSome = true
  | .word op w _ => 0 < w ∧ ∃ w', handler op = some (.word w') ∧ w ≤ w'
  | .counted op w _ => 0 < w ∧ handler op = some (.counted w)

/-- The table reads what was emitted, at multiples of the widths. -/
def Instr.Fits (pos : Nat) : Instr → Prop
  | .plain op => handler op = some .none
  | .word op w _ => handler op = some (.word w) ∧ w ∣ pos + 1
  | .counted op w vs =>
    handler op = some (.counted w) ∧ vs.length < 256 ∧ (vs ≠ [] → w ∣ pos + 2)

def FitsAll : Nat → List Instr → Prop
  | _, [] => True
  | pos, i :: is => i.Fits handler pos ∧ FitsAll (pos + i.size) is

instance (pos : Nat) (i : Instr) : Decidable (i.Fits handler pos) :=
  match i with
  | .plain op => inferInstanceAs (Decidable (handler op = some .none))
  | .word op w _ => inferInstanceAs (Decidable (handler op = some (.word w) ∧ w ∣ pos + 1))
  | .counted op w vs => inferInstanceAs (Decidable
      (handler op = some (.counted w) ∧ vs.length < 256 ∧ (vs ≠ [] → w ∣ pos + 2)))

instance decidableFitsAll : (pos : Nat) → (is : List Instr) → Decidable (FitsAll handler pos is)
  | _, [] => inferInstanceAs (Decidable True)
  | pos, i :: is =>
    letI := decidableFitsAll (pos + i.size) is
    inferInstanceAs (Decidable (i.Fits handler pos ∧ FitsAll handler (pos + i.size) is))

/-! ## Memory that holds bytes -/

/-- The bytes stand in memory at `pos`. -/
def Holds (m : Mem) (pos : Nat) (bs : List UInt8) : Prop :=
  ∀ i (h : i < bs.length), m (pos + i) = bs[i]

section Memory

variable {m : Mem} {pos : Nat}

theorem Holds.left {a b : List UInt8} (h : Holds m pos (a ++ b)) : Holds m pos a := by
  intro i hi
  rw [h i (by simp; omega), List.getElem_append_left hi]

theorem Holds.right {a b : List UInt8} (h : Holds m pos (a ++ b)) :
    Holds m (pos + a.length) b := by
  intro i hi
  rw [Nat.add_assoc, h (a.length + i) (by simp; omega), List.getElem_append_right (by omega)]
  simp

theorem Holds.head {b : UInt8} {bs : List UInt8} (h : Holds m pos (b :: bs)) : m pos = b :=
  h 0 (Nat.zero_lt_succ _)

theorem Holds.tail {b : UInt8} {bs : List UInt8} (h : Holds m pos (b :: bs)) :
    Holds m (pos + 1) bs := Holds.right (a := [b]) h

theorem readLE_of_holds {n v : Nat} (h : Holds m pos (leBytes n v)) :
    m.readLE pos n = v % 256 ^ n := by
  induction n generalizing pos v with
  | zero => rw [Mem.readLE, Nat.pow_zero, Nat.mod_one]
  | succ n ih =>
    rw [leBytes] at h
    rw [Mem.readLE, ih h.tail, h.head, Nat.pow_succ', Nat.mod_mul]
    simp

theorem holds_leBytes {n v : Nat} (h : m.readLE pos n = v) :
    Holds m pos (leBytes n v) := by
  subst h
  induction n generalizing pos with
  | zero =>
    intro i hi
    rw [length_leBytes] at hi
    omega
  | succ n ih =>
    have hdiv : ((m pos).toNat + 256 * m.readLE (pos + 1) n) / 256 = m.readLE (pos + 1) n := by
      have := (m pos).toNat_lt
      omega
    have hbyte : UInt8.ofNat ((m pos).toNat + 256 * m.readLE (pos + 1) n) = m pos := by
      apply UInt8.toNat_inj.mp
      have := (m pos).toNat_lt
      rw [UInt8.toNat_ofNat']
      omega
    rw [Mem.readLE, leBytes, hdiv, hbyte]
    intro i hi
    cases i with
    | zero => rfl
    | succ i =>
      rw [List.getElem_cons_succ, show pos + (i + 1) = pos + 1 + i by omega]
      exact ih i (by simpa using hi)

/-- A word of memory is a given one exactly when its bytes are. -/
theorem readLE_eq_iff {n v : Nat} (hv : v < 256 ^ n) :
    m.readLE pos n = v ↔ Holds m pos (leBytes n v) := by
  constructor
  · exact holds_leBytes
  · intro h
    rw [readLE_of_holds h, Nat.mod_eq_of_lt hv]

theorem readLE_eq_readLe {n : Nat} {bs : List UInt8} (h : Holds m pos bs) (hn : n ≤ bs.length) :
    m.readLE pos n = readLe n bs := by
  induction n generalizing pos bs with
  | zero => rfl
  | succ n ih =>
    cases bs with
    | nil => simp at hn
    | cons b bs => rw [Mem.readLE, readLe, h.head, ih h.tail (Nat.le_of_succ_le_succ hn)]

/-! ## Rows of words -/

theorem length_readWords (m : Mem) (w n pos : Nat) : (readWords m w n pos).1.length = n := by
  induction n generalizing pos with
  | zero => rfl
  | succ n ih => rw [readWords, List.length_cons, ih]

/-- After the first word the row is aligned. -/
theorem readWords_last (m : Mem) (w n pos : Nat) :
    (readWords m w (n + 1) pos).2 = aligned pos w + w * (n + 1) := by
  induction n generalizing pos with
  | zero => simp [readWords]
  | succ n ih =>
    have hd : w ∣ aligned pos w + w := Nat.dvd_add (aligned_dvd pos w) (Nat.dvd_refl w)
    rw [readWords]
    simp only
    rw [ih, aligned_of_dvd hd, Nat.mul_succ w (n + 1)]
    omega

theorem length_flatMap_leBytes (w : Nat) (vs : List Nat) :
    (vs.flatMap (leBytes w)).length = w * vs.length := by
  induction vs with
  | nil => rfl
  | cons v vs ih =>
    rw [List.flatMap_cons, List.length_append, ih, length_leBytes, List.length_cons, Nat.mul_succ,
      Nat.add_comm]

/-- An aligned row reads what was emitted. -/
theorem readWords_of_holds {w : Nat} {vs : List Nat} (hd : w ∣ pos)
    (h : Holds m pos (vs.flatMap (leBytes w))) :
    readWords m w vs.length pos = (vs.map (· % 256 ^ w), pos + w * vs.length) := by
  induction vs generalizing pos with
  | nil => rfl
  | cons v vs ih =>
    rw [List.flatMap_cons] at h
    have hrest := h.right
    rw [length_leBytes] at hrest
    rw [List.length_cons, readWords, aligned_of_dvd hd, readLE_of_holds h.left,
      ih (Nat.dvd_add hd (Nat.dvd_refl w)) hrest]
    simp only [List.map_cons, Nat.mul_succ]
    congr 1
    omega

end Memory

/-! ## One instruction -/

section Fetch

variable {handler} {m : Mem} {pos : Nat}

@[simp] theorem size_plain (op : UInt8) : (Instr.plain op).size = 1 := rfl

@[simp] theorem size_word (op : UInt8) (w v : Nat) : (Instr.word op w v).size = w + 1 := by
  simp [Instr.size, Instr.bytes]

@[simp] theorem size_counted (op : UInt8) (w : Nat) (vs : List Nat) :
    (Instr.counted op w vs).size = w * vs.length + 2 := by
  simp only [Instr.size, Instr.bytes, List.length_cons, List.length_append, length_leBytes,
    length_flatMap_leBytes]
  omega

theorem fetch_pos {v : Visit} {last : Nat} (h : fetch handler m pos = some (v, last)) :
    v.pos = pos := by
  unfold fetch at h
  split at h <;> cases h <;> rfl

theorem fetch_plain {op : UInt8} (hm : Holds m pos (Instr.plain op).bytes)
    (hc : (Instr.plain op).Covered handler) :
    fetch handler m pos = some ((Instr.plain op).visit pos, pos + 1) ↔
      handler op = some .none := by
  have hop : m pos = op := hm.head
  obtain ⟨shape, hs⟩ := Option.isSome_iff_exists.mp hc
  unfold fetch
  rw [hop, hs]
  cases shape with
  | none => simp [Instr.visit]
  | word w => simp [Instr.visit]
  | counted w => simp [Instr.visit]

theorem fetch_word {op : UInt8} {w v : Nat} (hm : Holds m pos (Instr.word op w v).bytes)
    (hc : (Instr.word op w v).Covered handler) :
    fetch handler m pos = some ((Instr.word op w v).visit pos, pos + (w + 1)) ↔
      handler op = some (.word w) ∧ w ∣ pos + 1 := by
  have hop : m pos = op := hm.head
  obtain ⟨hpos, w', hs, hle⟩ := hc
  unfold fetch
  rw [hop, hs]
  constructor
  · intro h
    have hlast : aligned (pos + 1) w' + w' = pos + (w + 1) := (Prod.mk.inj (Option.some.inj h)).2
    have hge := le_aligned (pos + 1) (Nat.lt_of_lt_of_le hpos hle)
    have hw : w' = w := by omega
    have ha : aligned (pos + 1) w = pos + 1 := by rw [hw] at hlast hge; omega
    exact ⟨by rw [hw], ha ▸ aligned_dvd (pos + 1) w⟩
  · rintro ⟨hw, hd⟩
    obtain rfl : w' = w := by injection hw with hw; injection hw
    simp only [aligned_of_dvd hd, readLE_of_holds hm.tail, Instr.visit]
    rw [Nat.add_assoc, Nat.add_comm 1]

theorem fetch_counted {op : UInt8} {w : Nat} {vs : List Nat}
    (hm : Holds m pos (Instr.counted op w vs).bytes) (hc : (Instr.counted op w vs).Covered handler) :
    fetch handler m pos = some ((Instr.counted op w vs).visit pos, pos + (w * vs.length + 2)) ↔
      handler op = some (.counted w) ∧ vs.length < 256 ∧ (vs ≠ [] → w ∣ pos + 2) := by
  have hop : m pos = op := hm.head
  obtain ⟨hpos, hs⟩ := hc
  have hcount : (m (pos + 1)).toNat = vs.length % 256 := by
    have h : m (pos + 1) = UInt8.ofNat vs.length := hm.tail.head
    rw [h]
    simp
  unfold fetch
  rw [hop, hs]
  simp only [hcount, Instr.visit, true_and]
  constructor
  · intro h
    obtain ⟨hv, hlast⟩ := Prod.mk.inj (Option.some.inj h)
    injection hv with _ _ hv
    injection hv with _ hv
    have hlen := congrArg List.length hv
    rw [length_readWords, List.length_map] at hlen
    refine ⟨by omega, ?_⟩
    intro hne
    obtain ⟨n, hn⟩ : ∃ n, vs.length = n + 1 :=
      ⟨vs.length - 1, by have := List.length_pos_iff.mpr hne; omega⟩
    rw [hlen, hn, readWords_last] at hlast
    have ha : aligned (pos + 2) w = pos + 2 := by omega
    exact ha ▸ aligned_dvd (pos + 2) w
  · rintro ⟨hlt, hd⟩
    rw [Nat.mod_eq_of_lt hlt]
    cases vs with
    | nil => simp [readWords]
    | cons v vs =>
      have hwords : Holds m (pos + 2) ((v :: vs).flatMap (leBytes w)) := hm.tail.right
      rw [readWords_of_holds (hd (List.cons_ne_nil v vs)) hwords]
      simp only
      rw [Nat.add_assoc, Nat.add_comm 2]

/-- **The loop sees an emitted instruction exactly when it fits.** -/
theorem fetch_iff {i : Instr} (hm : Holds m pos i.bytes) (hc : i.Covered handler) :
    fetch handler m pos = some (i.visit pos, pos + i.size) ↔ i.Fits handler pos := by
  cases i with
  | plain op => exact fetch_plain hm hc
  | word op w v =>
    rw [size_word]
    exact fetch_word hm hc
  | counted op w vs =>
    rw [size_counted]
    exact fetch_counted hm hc

theorem visits_append (pos : Nat) (a b : List Instr) :
    visits pos (a ++ b) = visits pos a ++ visits (pos + (encode a).length) b := by
  induction a generalizing pos with
  | nil => rfl
  | cons i a ih =>
    have hlen : (encode (i :: a)).length = i.size + (encode a).length := List.length_append
    rw [List.cons_append, visits, ih, visits, hlen, Nat.add_assoc, List.cons_append]

theorem fitsAll_append (pos : Nat) (a b : List Instr) :
    FitsAll handler pos (a ++ b) ↔
      FitsAll handler pos a ∧ FitsAll handler (pos + (encode a).length) b := by
  induction a generalizing pos with
  | nil => simp [FitsAll, encode]
  | cons i a ih =>
    have hlen : (encode (i :: a)).length = i.size + (encode a).length := List.length_append
    rw [List.cons_append, FitsAll, ih, FitsAll, hlen, Nat.add_assoc, and_assoc]

theorem visit_pos (i : Instr) (pos : Nat) : (i.visit pos).pos = pos := by cases i <;> rfl

theorem walk_head {n : Nat} {v : Visit} {vs : List Visit} {last : Nat}
    (h : walk handler m n pos = some (v :: vs, last)) : v.pos = pos := by
  cases n with
  | zero => cases h
  | succ n =>
    rw [walk] at h
    obtain ⟨⟨v', pos'⟩, hf, h⟩ := Option.bind_eq_some_iff.mp h
    obtain ⟨⟨vs', last'⟩, -, h⟩ := Option.bind_eq_some_iff.mp h
    cases h
    exact fetch_pos hf

/-- **The loop sees the emitted instructions exactly when they all fit.** -/
theorem walk_iff {is : List Instr} (hm : Holds m pos (encode is))
    (hc : ∀ i ∈ is, i.Covered handler) :
    walk handler m is.length pos = some (visits pos is, pos + (encode is).length) ↔
      FitsAll handler pos is := by
  induction is generalizing pos with
  | nil => simp [walk, visits, encode, FitsAll]
  | cons i is ih =>
    have hlen : (encode (i :: is)).length = i.size + (encode is).length :=
      List.length_append
    have hi : Holds m pos i.bytes := Holds.left (b := encode is) hm
    have his : Holds m (pos + i.size) (encode is) := Holds.right (a := i.bytes) hm
    have hrest := ih his (fun j hj => hc j (List.mem_cons_of_mem i hj))
    rw [hlen, ← Nat.add_assoc, List.length_cons, walk, visits, FitsAll, ← hrest,
      ← fetch_iff hi (hc i List.mem_cons_self)]
    constructor
    · intro h
      obtain ⟨⟨v, pos'⟩, hf, h⟩ := Option.bind_eq_some_iff.mp h
      obtain ⟨⟨vs, last⟩, hw, h⟩ := Option.bind_eq_some_iff.mp h
      cases h
      -- the next instruction, or the end, is where the emission has it
      have hpos : pos' = pos + i.size := by
        cases is with
        | nil =>
          cases hw
          rfl
        | cons j is => exact (walk_head hw).symm.trans (visit_pos j _)
      subst hpos
      exact ⟨hf, hw⟩
    · rintro ⟨hf, hw⟩
      rw [hf]
      simp only [Option.bind_eq_bind, Option.bind_some, hw]

end Fetch

end Acts.Fetch
