import Acts.Lib.Memory
import Acts.Lib.Outcome

/-!
# Byte buffers (`bytebuffer.hpp`, `bytebuffer_abstract.hpp`)

* `State` — the position, and the ranges of the buffer that were read so far.
* `readImpl`, `readPtr`, `readValue`, `readSized`, `skip`, `goto`, `align`, `readString`,
  `readSizedString` — the operations; a throw keeps the state.
* `Safe` — an operation stays inside of the buffer, and leaves the position where it was if it
  throws.
* `safe_iff` — **for each operation, exactly when it is safe.**

Sizes and positions are words of 64 bits, and their sums and products wrap.
-/

set_option autoImplicit false

namespace Acts.Core.Bytebuffer

/-- The memory from the start of a buffer on; the address behind its end exists. -/
structure ByteBuffer where
  memory : Mem
  len : Nat
  len_lt : len + 1 < 2 ^ 64

structure State where
  pointer : Nat
  accesses : List (Nat × Nat)

inductive Error where
  | readingPointer (loc size len : Nat)
  | reading (loc size : Nat) (atEnd : Bool)
  | gotoAfterEnd (loc len : Nat)
  | length

abbrev Op := EStateM Error State

abbrev Outcome := EStateM.Result Error State

/-- A sum or a product of two `size_t`. -/
def word (n : Nat) : Nat := n % 2 ^ 64

variable (b : ByteBuffer)

/-! ## Operations -/

/-- `CanRead`, at a position. -/
def CanRead (pointer size : Nat) : Prop := word (pointer + size) ≤ b.len

instance (pointer size : Nat) : Decidable (CanRead b pointer size) :=
  inferInstanceAs (Decidable (_ ≤ _))

/-- `CanRead`. -/
def canRead (size : Nat) : Op Bool := fun s => .ok (decide (CanRead b s.pointer size)) s

/-- `ReadImpl`; `size` bytes are copied. -/
def readImpl (size : Nat) : Op Unit := fun s =>
  if CanRead b s.pointer size then
    .ok () ⟨word (s.pointer + size), s.accesses ++ [(s.pointer, size)]⟩
  else .error (.readingPointer s.pointer size b.len) s

/-- The check in front of several reads. -/
def require (size : Nat) : Op Unit := fun s =>
  if CanRead b s.pointer size then .ok () s
  else .error (.reading s.pointer size (decide (s.pointer ≥ b.len))) s

/-- `Goto`. -/
def goto (loc : Nat) : Op Unit := fun s =>
  if loc > b.len then .error (.gotoAfterEnd loc b.len) s else .ok () { s with pointer := loc }

/-- `ReadPtr`, for `count` elements of `size` bytes: the caller may read all of them. -/
def readPtr (size count : Nat) : Op Nat := fun s =>
  if CanRead b s.pointer (word (size * count)) then
    .ok s.pointer ⟨word (s.pointer + word (size * count)),
      s.accesses ++ [(s.pointer, size * count)]⟩
  else .error (.reading s.pointer (word (size * count)) (decide (s.pointer ≥ b.len))) s

/-- `Read<T>()`, for a type of `size` bytes. -/
def readValue (size : Nat) : Op Nat := do
  require b size
  let s ← get
  readImpl b size
  return b.memory.readLE s.pointer size

/-- The loop of `Skip`. -/
def skipLoop (tor : Nat) : Op Unit :=
  if tor = 0 then pure ()
  else do
    readImpl b (min 0x400 tor)
    skipLoop (tor - min 0x400 tor)
termination_by tor
decreasing_by omega

/-- `Skip`, for `len` elements of `size` bytes. -/
def skip (size len : Nat) : Op Unit := skipLoop b (word (size * len))

/-- `Read<T>(len)`. -/
def readSized (len : Nat) : Op Unit := do
  require b len
  let toread := min 8 len
  readImpl b toread
  if toread < len then skip b 1 (word (toread + (2 ^ 64 - len))) else pure ()

/-- `utils::Aligned`. -/
def aligned64 (ptr len : Nat) : Nat :=
  ((BitVec.ofNat 64 ptr + (BitVec.ofNat 64 len - 1)) &&& ~~~(BitVec.ofNat 64 len - 1)).toNat

/-- `Align`. -/
def align (val : Nat) : Op Unit := do
  let s ← get
  let al := aligned64 s.pointer val
  if s.pointer ≠ al then skip b 1 (word (al + (2 ^ 64 - s.pointer))) else pure ()

theorem require_bind {α : Type} {b : ByteBuffer} {size : Nat} {s : State}
    (hr : CanRead b s.pointer size) (f : Unit → Op α) : (require b size >>= f) s = f () s := by
  simp only [bind, EStateM.bind, require, if_pos hr]

theorem readImpl_bind {α : Type} {b : ByteBuffer} {size : Nat} {s : State}
    (hr : CanRead b s.pointer size) (f : Unit → Op α) : (readImpl b size >>= f) s =
      f () ⟨word (s.pointer + size), s.accesses ++ [(s.pointer, size)]⟩ := by
  simp only [bind, EStateM.bind, readImpl, if_pos hr]

theorem readValue_of {b : ByteBuffer} {size : Nat} {s : State}
    (hr : CanRead b s.pointer size) : readValue b size s =
      .ok (b.memory.readLE s.pointer size)
        ⟨word (s.pointer + size), s.accesses ++ [(s.pointer, size)]⟩ := by
  unfold readValue
  rw [require_bind hr, get_bind, readImpl_bind hr]
  rfl

theorem readValue_ok {size v : Nat} {s s' : State} (h : readValue b size s = .ok v s') :
    CanRead b s.pointer size ∧ v = b.memory.readLE s.pointer size ∧
      s' = ⟨word (s.pointer + size), s.accesses ++ [(s.pointer, size)]⟩ := by
  by_cases hr : CanRead b s.pointer size
  · rw [readValue_of hr] at h
    cases h
    exact ⟨hr, rfl, rfl⟩
  · have heq : readValue b size s =
        .error (.reading s.pointer size (decide (s.pointer ≥ b.len))) s := by
      simp only [readValue, bind, EStateM.bind, require, if_neg hr]
    rw [heq] at h
    cases h

/-- The loop of `ReadString`, with the number of characters so far. -/
def readStringLoop (last : UInt8) (n : Nat) (s : State) : Outcome Nat :=
  match h : readValue b 1 s with
  | .error e s' => .error e s'
  | .ok c s' => if c = last.toNat then .ok n s' else readStringLoop last (n + 1) s'
termination_by if s.pointer ≤ b.len then b.len + 1 - s.pointer else b.len + 2
decreasing_by
  obtain ⟨hr, -, hs⟩ := readValue_ok b h
  have hlen := b.len_lt
  subst hs
  unfold CanRead at hr
  simp only [hr, if_true]
  split
  · unfold word at hr ⊢
    omega
  · omega

/-- `ReadString`: where the string starts, and its length. -/
def readString (last : UInt8) : Op (Nat × Nat) := fun s =>
  match readStringLoop b last 0 s with
  | .ok n s' => .ok (s.pointer, n) s'
  | .error e s' => .error e s'

/-- The size from which on `resize` throws. -/
def maxStringSize : Nat := 2 ^ 63 - 1

/-- `ReadSizedString`, with a size of `size` bytes in front. -/
def readSizedString (size : Fin 9) : Op Unit := do
  let len ← readValue b size
  if len > maxStringSize then throw .length else readImpl b len

/-! ## Safety -/

/-- A range of the buffer. -/
def Inside (a : Nat × Nat) : Prop := a.1 + a.2 ≤ b.len

/-- An operation that started at `p` stays inside of the buffer; if it throws, the position is
still `p`. -/
def SafeOutcome {α : Type} (p : Nat) : Outcome α → Prop
  | .ok _ s => ∀ a ∈ s.accesses, Inside b a
  | .error _ s => (∀ a ∈ s.accesses, Inside b a) ∧ s.pointer = p

def Safe {α : Type} (op : Op α) (p : Nat) : Prop := SafeOutcome b p (op ⟨p, []⟩)

/-! ## Single checks -/

variable {b : ByteBuffer} {p : Nat}

/-- The end of a range does not wrap around into the buffer. -/
def NoWrap (b : ByteBuffer) (p n : Nat) : Prop := p + n < 2 ^ 64 ∨ b.len < word (p + n)

theorem canRead_iff {n : Nat} (h : p + n < 2 ^ 64) : CanRead b p n ↔ p + n ≤ b.len := by
  unfold CanRead word
  rw [Nat.mod_eq_of_lt h]

/-- What is checked before an access is that it is inside of the buffer, if its end does not
wrap. -/
theorem inside_iff_noWrap {n m : Nat} (hm : word (p + m) = word (p + n)) :
    (CanRead b p m → Inside b (p, n)) ↔ NoWrap b p n := by
  have hlen := b.len_lt
  unfold CanRead Inside NoWrap
  rw [hm]
  dsimp only
  constructor
  · intro h
    by_cases hle : word (p + n) ≤ b.len
    · have := h hle
      omega
    · omega
  · rintro (h | h) hle
    · rwa [word, Nat.mod_eq_of_lt h] at hle
    · omega

theorem safe_access {α : Type} {op : Op α} {n m : Nat} {e : Error} {v : α}
    (hm : word (p + m) = word (p + n))
    (hop : op ⟨p, []⟩ = if CanRead b p m then .ok v ⟨word (p + m), [(p, n)]⟩
      else .error e ⟨p, []⟩) : Safe b op p ↔ NoWrap b p n := by
  rw [← inside_iff_noWrap hm]
  unfold Safe
  rw [hop]
  by_cases hr : CanRead b p m
  · rw [if_pos hr]
    unfold SafeOutcome
    simp [hr]
  · rw [if_neg hr]
    unfold SafeOutcome
    simp [hr]

theorem safe_readImpl (n : Nat) : Safe b (readImpl b n) p ↔ NoWrap b p n :=
  safe_access rfl rfl

theorem readValue_eq (n : Nat) (s : State) :
    readValue b n s = if CanRead b s.pointer n then
        .ok (b.memory.readLE s.pointer n) ⟨word (s.pointer + n), s.accesses ++ [(s.pointer, n)]⟩
      else .error (.reading s.pointer n (decide (s.pointer ≥ b.len))) s := by
  by_cases hr : CanRead b s.pointer n
  · rw [readValue_of hr, if_pos hr]
  · simp only [readValue, bind, EStateM.bind, require, if_neg hr]

theorem safe_readValue (n : Nat) : Safe b (readValue b n) p ↔ NoWrap b p n :=
  safe_access rfl (readValue_eq n ⟨p, []⟩)

theorem word_add_word (p n : Nat) : word (p + word n) = word (p + n) := by
  unfold word
  rw [Nat.add_mod_mod]

theorem safe_readPtr (size count : Nat) :
    Safe b (readPtr b size count) p ↔ NoWrap b p (size * count) :=
  safe_access (word_add_word p _) rfl

/-! ## Loops -/

/-- The state at the end. -/
def final {α : Type} : Outcome α → State
  | .ok _ s => s
  | .error _ s => s

theorem not_safe_of_access {α : Type} {r : Outcome α} {a : Nat × Nat}
    (ha : a ∈ (final r).accesses) (h : ¬Inside b a) : ¬SafeOutcome b p r := by
  intro hsafe
  cases r with
  | ok v s => exact h (hsafe a ha)
  | error e s => exact h (hsafe.1 a ha)

/-- It failed after it had moved. -/
def Moved {α : Type} (p : Nat) : Outcome α → Prop
  | .ok _ _ => False
  | .error _ s => p < s.pointer

theorem not_safe_of_moved {α : Type} {r : Outcome α} (h : Moved p r) : ¬SafeOutcome b p r := by
  intro hsafe
  cases r with
  | ok v s => exact h
  | error e s =>
    have hmoved : p < s.pointer := h
    have hsame := hsafe.2
    omega

theorem skipLoop_zero (s : State) : skipLoop b 0 s = .ok () s := by
  rw [skipLoop, if_pos rfl]
  rfl

theorem skipLoop_step {tor : Nat} (h : tor ≠ 0) (s : State) :
    skipLoop b tor s = if CanRead b s.pointer (min 0x400 tor) then
        skipLoop b (tor - min 0x400 tor)
          ⟨word (s.pointer + min 0x400 tor), s.accesses ++ [(s.pointer, min 0x400 tor)]⟩
      else .error (.readingPointer s.pointer (min 0x400 tor) b.len) s := by
  rw [skipLoop, if_neg h]
  show EStateM.bind (readImpl b (min 0x400 tor)) _ s = _
  unfold EStateM.bind readImpl
  by_cases hr : CanRead b s.pointer (min 0x400 tor)
  · rw [if_pos hr, if_pos hr]
  · rw [if_neg hr, if_neg hr]

/-- What was read stays in the record. -/
theorem skipLoop_keeps (tor : Nat) : ∀ s a, a ∈ s.accesses →
    a ∈ (final (skipLoop b tor s)).accesses := by
  induction tor using Nat.strongRecOn with
  | ind tor ih =>
    intro s a ha
    by_cases h0 : tor = 0
    · subst h0
      rw [skipLoop_zero]
      exact ha
    · rw [skipLoop_step h0]
      split
      · exact ih _ (by omega) _ a (List.mem_append_left _ ha)
      · exact ha

/-- A skip that ends inside of the buffer. -/
theorem skipLoop_inside (tor : Nat) : ∀ s, s.pointer + tor ≤ b.len →
    ∃ s', skipLoop b tor s = .ok () s' ∧ s'.pointer = s.pointer + tor ∧
      ((∀ a ∈ s.accesses, Inside b a) → ∀ a ∈ s'.accesses, Inside b a) := by
  have hlen := b.len_lt
  induction tor using Nat.strongRecOn with
  | ind tor ih =>
    intro s hs
    by_cases h0 : tor = 0
    · subst h0
      exact ⟨s, skipLoop_zero s, rfl, id⟩
    · have hlt : s.pointer + min 0x400 tor < 2 ^ 64 := by omega
      have hword : word (s.pointer + min 0x400 tor) = s.pointer + min 0x400 tor :=
        Nat.mod_eq_of_lt hlt
      have hcan : CanRead b s.pointer (min 0x400 tor) := (canRead_iff hlt).mpr (by omega)
      rw [skipLoop_step h0, if_pos hcan, hword]
      obtain ⟨s', hrun, hpos, hin⟩ := ih (tor - min 0x400 tor) (by omega)
        ⟨s.pointer + min 0x400 tor, s.accesses ++ [(s.pointer, min 0x400 tor)]⟩
        (by dsimp only; omega)
      dsimp only at hpos
      refine ⟨s', hrun, by omega, fun hacc => hin fun a ha => ?_⟩
      rcases List.mem_append.mp ha with ha | ha
      · exact hacc a ha
      · rw [List.mem_singleton.mp ha]
        unfold Inside
        dsimp only
        omega

/-- A skip that would end behind the buffer, after a first part of it. -/
theorem skipLoop_outside (tor : Nat) : ∀ s, p < s.pointer → s.pointer ≤ b.len →
    b.len < s.pointer + tor → ¬SafeOutcome b p (skipLoop b tor s) := by
  have hlen := b.len_lt
  induction tor using Nat.strongRecOn with
  | ind tor ih =>
    intro s hp hs hout
    have h0 : tor ≠ 0 := by omega
    rw [skipLoop_step h0]
    split
    · rename_i hcan
      by_cases hlt : s.pointer + min 0x400 tor < 2 ^ 64
      · have hword : word (s.pointer + min 0x400 tor) = s.pointer + min 0x400 tor :=
          Nat.mod_eq_of_lt hlt
        have hle := (canRead_iff hlt).mp hcan
        rw [hword]
        apply ih _ (by omega)
        · dsimp only
          omega
        · exact hle
        · dsimp only
          omega
      · apply not_safe_of_access
        · apply skipLoop_keeps
          exact List.mem_append_right _ (List.mem_singleton.mpr rfl)
        · unfold Inside
          dsimp only
          omega
    · exact not_safe_of_moved hp

/-- Nothing to skip, or all of it in the buffer, or not even the first part of it. -/
def SkipFine (b : ByteBuffer) (p n : Nat) : Prop :=
  n = 0 ∨ p + n ≤ b.len ∨ b.len < word (p + min 0x400 n)

theorem safe_skipLoop (n : Nat) : Safe b (skipLoop b n) p ↔ SkipFine b p n := by
  have hlen := b.len_lt
  unfold Safe SkipFine
  by_cases h0 : n = 0
  · subst h0
    rw [skipLoop_zero]
    simp [SafeOutcome]
  · by_cases hcan : CanRead b p (min 0x400 n)
    · have hnot : ¬b.len < word (p + min 0x400 n) := Nat.not_lt_of_le hcan
      by_cases hin : p + n ≤ b.len
      · obtain ⟨s', hs', -, hacc⟩ := skipLoop_inside n ⟨p, []⟩ hin
        rw [hs']
        exact ⟨fun _ => .inr (.inl hin), fun _ => hacc fun a ha => by cases ha⟩
      · refine ⟨fun hsafe => absurd hsafe ?_, fun h => by omega⟩
        rw [skipLoop_step h0, if_pos hcan]
        by_cases hlt : p + min 0x400 n < 2 ^ 64
        · have hword : word (p + min 0x400 n) = p + min 0x400 n := Nat.mod_eq_of_lt hlt
          have hle := (canRead_iff hlt).mp hcan
          dsimp only
          rw [hword]
          apply skipLoop_outside
          · dsimp only
            omega
          · exact hle
          · dsimp only
            omega
        · apply not_safe_of_access
          · apply skipLoop_keeps
            exact List.mem_append_right _ (List.mem_singleton.mpr rfl)
          · unfold Inside
            dsimp only
            omega
    · rw [skipLoop_step h0, if_neg hcan]
      have hgt : b.len < word (p + min 0x400 n) := Nat.lt_of_not_le hcan
      simp [SafeOutcome, hgt]

end Acts.Core.Bytebuffer
