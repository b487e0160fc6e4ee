import Acts.Core.ByteBuffer

/-!
# Which calls of a byte buffer are safe

* `Call` — the operations with their arguments.
* `Call.Fine` — the arguments for which an operation is safe.
* `safe_iff` — **an operation is safe exactly for these.**
-/

set_option autoImplicit false

namespace Acts.Core.Bytebuffer

variable {b : ByteBuffer} {p : Nat}

/-! ## Compound reads -/

theorem word_of_lt {n : Nat} (h : n < 2 ^ 64) : word n = n := Nat.mod_eq_of_lt h

theorem safe_skip (size len : Nat) :
    Safe b (skip b size len) p ↔ SkipFine b p (word (size * len)) := safe_skipLoop _

theorem safe_align (hp : p < 2 ^ 64) (val : Nat) :
    Safe b (align b val) p ↔ SkipFine b p (word (aligned64 p val + (2 ^ 64 - p))) := by
  have hal : aligned64 p val < 2 ^ 64 := BitVec.isLt _
  by_cases heq : p = aligned64 p val
  · have hrun : align b val ⟨p, []⟩ = .ok () ⟨p, []⟩ := by
      show (if p ≠ aligned64 p val then _ else pure () : Op Unit) _ = _
      rw [if_neg (not_not_intro heq)]
      rfl
    have hzero : word (aligned64 p val + (2 ^ 64 - p)) = 0 := by
      rw [← heq, Nat.add_sub_cancel' (Nat.le_of_lt hp)]
      rfl
    unfold Safe
    rw [hrun, hzero]
    simp [SafeOutcome, SkipFine]
  · have hrun : align b val ⟨p, []⟩ =
        skip b 1 (word (aligned64 p val + (2 ^ 64 - p))) ⟨p, []⟩ := by
      show (if p ≠ aligned64 p val then _ else pure () : Op Unit) _ = _
      rw [if_pos heq]
    have hone : word (1 * word (aligned64 p val + (2 ^ 64 - p))) =
        word (aligned64 p val + (2 ^ 64 - p)) := by
      rw [Nat.one_mul]
      exact word_of_lt (Nat.mod_lt _ (by decide))
    have hskip := safe_skip (b := b) (p := p) 1 (word (aligned64 p val + (2 ^ 64 - p)))
    rw [hone] at hskip
    unfold Safe at hskip ⊢
    rw [hrun]
    exact hskip

/-- What `Read<T>(len)` is safe for: more than eight bytes are read as eight, and then skipped by
`8 - len`. -/
def SizedFine (b : ByteBuffer) (p len : Nat) : Prop :=
  if len ≤ 8 then NoWrap b p len
  else b.len < word (p + len) ∨ b.len < word (p + 8) ∨ p + 16 + 2 ^ 64 ≤ b.len + len

theorem readSized_eq (len : Nat) (s : State) :
    readSized b len s = if CanRead b s.pointer len then
        (if CanRead b s.pointer (min 8 len) then
          (if min 8 len < len then skip b 1 (word (min 8 len + (2 ^ 64 - len))) else pure ())
            ⟨word (s.pointer + min 8 len), s.accesses ++ [(s.pointer, min 8 len)]⟩
        else .error (.readingPointer s.pointer (min 8 len) b.len) s)
      else .error (.reading s.pointer len (decide (s.pointer ≥ b.len))) s := by
  by_cases hr : CanRead b s.pointer len
  · by_cases hr' : CanRead b s.pointer (min 8 len)
    · simp only [readSized, bind, EStateM.bind, require, readImpl, if_pos hr, if_pos hr']
    · simp only [readSized, bind, EStateM.bind, require, readImpl, if_pos hr, if_neg hr']
  · simp only [readSized, bind, EStateM.bind, require, if_neg hr]

theorem safe_readSized {len : Nat} (hl : len < 2 ^ 64) :
    Safe b (readSized b len) p ↔ SizedFine b p len := by
  have hlen := b.len_lt
  by_cases hsmall : len ≤ 8
  · have hmin : min 8 len = len := Nat.min_eq_right hsmall
    unfold SizedFine
    rw [if_pos hsmall]
    refine safe_access (e := .reading p len (decide (p ≥ b.len))) (v := ()) rfl ?_
    rw [readSized_eq, hmin, if_neg (Nat.lt_irrefl len)]
    by_cases hr : CanRead b p len
    · rw [if_pos hr, if_pos hr, if_pos hr]
      rfl
    · rw [if_neg hr, if_neg hr]
  · have hmin : min 8 len = 8 := Nat.min_eq_left (by omega)
    have hword : word (8 + (2 ^ 64 - len)) = 2 ^ 64 + 8 - len := by
      rw [word_of_lt (by omega)]
      omega
    have hone : word (1 * (2 ^ 64 + 8 - len)) = 2 ^ 64 + 8 - len := by
      rw [Nat.one_mul]
      exact word_of_lt (by omega)
    unfold Safe SizedFine
    rw [if_neg hsmall, readSized_eq, hmin]
    by_cases hr : CanRead b p len
    · by_cases hr' : CanRead b p 8
      · rw [if_pos hr, if_pos hr', if_pos (by omega), hword]
        unfold skip
        rw [hone]
        have hnot : ¬b.len < word (p + len) := Nat.not_lt_of_le hr
        have hnot' : ¬b.len < word (p + 8) := Nat.not_lt_of_le hr'
        by_cases hlt : p + 8 < 2 ^ 64
        · have hle := (canRead_iff hlt).mp hr'
          rw [word_of_lt hlt]
          by_cases hin : p + 8 + (2 ^ 64 + 8 - len) ≤ b.len
          · obtain ⟨s', hs', -, hacc⟩ :=
              skipLoop_inside (2 ^ 64 + 8 - len) ⟨p + 8, [(p, 8)]⟩ hin
            have hfirst : ∀ a ∈ [(p, 8)], Inside b a := fun a ha => by
              rw [List.mem_singleton.mp ha]
              exact hle
            dsimp only [List.nil_append]
            rw [hs']
            exact ⟨fun _ => by omega, fun _ => hacc hfirst⟩
          · refine ⟨fun hsafe => absurd hsafe ?_, fun h => by omega⟩
            apply skipLoop_outside
            · dsimp only
              omega
            · exact hle
            · dsimp only
              omega
        · refine ⟨fun hsafe => absurd hsafe ?_, fun h => by omega⟩
          apply not_safe_of_access
          · apply skipLoop_keeps
            exact List.mem_append_right _ (List.mem_singleton.mpr rfl)
          · unfold Inside
            dsimp only
            omega
      · have hgt : b.len < word (p + 8) := Nat.lt_of_not_le hr'
        rw [if_pos hr, if_neg hr']
        simp [SafeOutcome, hgt]
    · have hgt : b.len < word (p + len) := Nat.lt_of_not_le hr
      rw [if_neg hr]
      simp [SafeOutcome, hgt]

/-! ## Strings -/

theorem readLE_one (m : Mem) (a : Nat) : m.readLE a 1 = (m a).toNat := by
  simp [Mem.readLE]

theorem readStringLoop_step (last : UInt8) (n : Nat) (s : State) :
    readStringLoop b last n s = if CanRead b s.pointer 1 then
        (if b.memory s.pointer = last then
          .ok n ⟨word (s.pointer + 1), s.accesses ++ [(s.pointer, 1)]⟩
        else readStringLoop b last (n + 1)
          ⟨word (s.pointer + 1), s.accesses ++ [(s.pointer, 1)]⟩)
      else .error (.reading s.pointer 1 (decide (s.pointer ≥ b.len))) s := by
  rw [readStringLoop]
  have heq := readValue_eq (b := b) 1 s
  split
  · rename_i e s' h
    rw [heq] at h
    split at h
    · cases h
    · rename_i hr
      cases h
      rw [if_neg hr]
  · rename_i c s' h
    rw [heq] at h
    split at h
    · rename_i hr
      cases h
      rw [if_pos hr, readLE_one]
      by_cases hc : b.memory s.pointer = last
      · rw [if_pos hc, if_pos (congrArg UInt8.toNat hc)]
      · rw [if_neg hc, if_neg fun h => hc (UInt8.toNat_inj.mp h)]
    · cases h

theorem readStringLoop_keeps (last : UInt8) (n : Nat) (s : State) : ∀ a ∈ s.accesses,
    a ∈ (final (readStringLoop b last n s)).accesses := by
  induction n, s using readStringLoop.induct b last with
  | case1 n s e s' h =>
    intro a ha
    rw [readStringLoop_step]
    rw [readValue_eq] at h
    split at h
    · cases h
    · rename_i hr
      rw [if_neg hr]
      exact ha
  | case2 n s s' h =>
    intro a ha
    obtain ⟨hr, hc, hs⟩ := readValue_ok b h
    rw [readLE_one] at hc
    rw [readStringLoop_step, if_pos hr, if_pos (UInt8.toNat_inj.mp hc.symm)]
    exact List.mem_append_left _ ha
  | case3 n s c s' h hc ih =>
    intro a ha
    obtain ⟨hr, hv, rfl⟩ := readValue_ok b h
    rw [readLE_one] at hv
    rw [readStringLoop_step, if_pos hr, if_neg fun h => hc (hv.trans (congrArg UInt8.toNat h))]
    exact ih a (List.mem_append_left _ ha)

/-- A string that ends in the buffer. -/
theorem readStringLoop_inside (last : UInt8) (i : Nat) : ∀ (n : Nat) (s : State),
    s.pointer + i < b.len → b.memory (s.pointer + i) = last →
    (∀ a ∈ s.accesses, Inside b a) →
    ∃ m s', readStringLoop b last n s = .ok m s' ∧ ∀ a ∈ s'.accesses, Inside b a := by
  have hlen := b.len_lt
  induction i with
  | zero =>
    intro n s hi hm hacc
    rw [Nat.add_zero] at hi hm
    have hcan : CanRead b s.pointer 1 := (canRead_iff (by omega)).mpr hi
    rw [readStringLoop_step, if_pos hcan, if_pos hm]
    refine ⟨n, _, rfl, ?_⟩
    intro a ha
    rcases List.mem_append.mp ha with ha | ha
    · exact hacc a ha
    · rw [List.mem_singleton.mp ha]
      exact hi
  | succ i ih =>
    intro n s hi hm hacc
    have hcan : CanRead b s.pointer 1 := (canRead_iff (by omega)).mpr (by omega)
    have hacc' : ∀ a ∈ s.accesses ++ [(s.pointer, 1)], Inside b a := by
      intro a ha
      rcases List.mem_append.mp ha with ha | ha
      · exact hacc a ha
      · rw [List.mem_singleton.mp ha]
        unfold Inside
        dsimp only
        omega
    rw [readStringLoop_step, if_pos hcan, word_of_lt (by omega)]
    split
    · exact ⟨n, _, rfl, hacc'⟩
    · apply ih
      · dsimp only
        omega
      · dsimp only
        rw [show s.pointer + 1 + i = s.pointer + (i + 1) by omega]
        exact hm
      · exact hacc'

/-- A string without an end in the buffer. -/
theorem readStringLoop_outside (last : UInt8) (k : Nat) : ∀ (n : Nat) (s : State),
    s.pointer + k = b.len → (∀ i, s.pointer + i < b.len → b.memory (s.pointer + i) ≠ last) →
    p < s.pointer → Moved p (readStringLoop b last n s) := by
  have hlen := b.len_lt
  induction k with
  | zero =>
    intro n s hk hm hp
    have hcan : ¬CanRead b s.pointer 1 := by
      rw [canRead_iff (by omega)]
      omega
    rw [readStringLoop_step, if_neg hcan]
    exact hp
  | succ k ih =>
    intro n s hk hm hp
    have hcan : CanRead b s.pointer 1 := (canRead_iff (by omega)).mpr (by omega)
    have hfirst : b.memory s.pointer ≠ last := hm 0 (by omega)
    rw [readStringLoop_step, if_pos hcan, if_neg hfirst, word_of_lt (by omega)]
    apply ih
    · dsimp only
      omega
    · intro i hi
      dsimp only at hi ⊢
      rw [show s.pointer + 1 + i = s.pointer + (i + 1) by omega]
      exact hm (i + 1) (by omega)
    · dsimp only
      omega

/-- A string that ends in the buffer, or not even a first character. -/
def StringFine (b : ByteBuffer) (p : Nat) (last : UInt8) : Prop :=
  (∃ i, p + i < b.len ∧ b.memory (p + i) = last) ∨ b.len < word (p + 1)

theorem safe_readString (last : UInt8) :
    Safe b (readString b last) p ↔ StringFine b p last := by
  have hlen := b.len_lt
  have hloop : Safe b (readString b last) p ↔
      SafeOutcome b p (readStringLoop b last 0 ⟨p, []⟩) := by
    unfold Safe readString
    cases readStringLoop b last 0 ⟨p, []⟩ with
    | ok n s => rfl
    | error e s => rfl
  rw [hloop]
  unfold StringFine
  by_cases hend : ∃ i, p + i < b.len ∧ b.memory (p + i) = last
  · obtain ⟨i, hi, hm⟩ := hend
    obtain ⟨m, s', hs', hacc⟩ :=
      readStringLoop_inside last i 0 ⟨p, []⟩ hi hm fun a ha => by cases ha
    rw [hs']
    exact ⟨fun _ => .inl ⟨i, hi, hm⟩, fun _ => hacc⟩
  · by_cases hcan : CanRead b p 1
    · have hnot : ¬b.len < word (p + 1) := Nat.not_lt_of_le hcan
      refine ⟨fun hsafe => absurd hsafe ?_, fun h => by
        rcases h with h | h
        · exact absurd h hend
        · exact absurd h hnot⟩
      by_cases hlt : p + 1 < 2 ^ 64
      · have hle := (canRead_iff hlt).mp hcan
        have hfirst : b.memory p ≠ last := fun h => hend ⟨0, hle, h⟩
        apply not_safe_of_moved
        rw [readStringLoop_step, if_pos hcan, if_neg hfirst, word_of_lt hlt]
        apply readStringLoop_outside last (b.len - (p + 1))
        · dsimp only
          omega
        · intro i hi hm
          dsimp only at hi hm
          rw [show p + 1 + i = p + (i + 1) by omega] at hi hm
          exact hend ⟨i + 1, hi, hm⟩
        · dsimp only
          omega
      · rw [readStringLoop_step, if_pos hcan]
        have hout : ¬Inside b (p, 1) := by
          unfold Inside
          dsimp only
          omega
        have hmem : (p, 1) ∈ ([] : List (Nat × Nat)) ++ [(p, 1)] := List.mem_singleton.mpr rfl
        split
        · exact fun h => hout (h _ hmem)
        · exact not_safe_of_access (readStringLoop_keeps last _ _ _ hmem) hout
    · rw [readStringLoop_step, if_neg hcan]
      have hgt : b.len < word (p + 1) := Nat.lt_of_not_le hcan
      simp [SafeOutcome, hgt]

/-- The size in front of a string fits behind it, or cannot be read. -/
def SizedStringFine (b : ByteBuffer) (p : Nat) (size : Fin 9) : Prop :=
  (p + size + b.memory.readLE p size ≤ b.len ∧ b.memory.readLE p size ≤ maxStringSize) ∨
    b.len < word (p + size)

theorem safe_readSizedString (size : Fin 9) :
    Safe b (readSizedString b size) p ↔ SizedStringFine b p size := by
  have hlen := b.len_lt
  have hv : b.memory.readLE p size < 256 ^ (size : Nat) := Mem.readLE_lt b.memory p size
  have hsize := size.isLt
  unfold Safe SizedStringFine
  by_cases hcan : CanRead b p size
  · have hnot : ¬b.len < word (p + size) := Nat.not_lt_of_le hcan
    have hrun : readSizedString b size ⟨p, []⟩ =
        (if b.memory.readLE p size > maxStringSize then throw .length
          else readImpl b (b.memory.readLE p size) : Op Unit)
          ⟨word (p + size), [(p, (size : Nat))]⟩ := by
      show EStateM.bind (readValue b size) _ _ = _
      unfold EStateM.bind
      rw [readValue_eq, if_pos hcan]
      rfl
    rw [hrun]
    by_cases hlt : p + size < 2 ^ 64
    · have hle := (canRead_iff hlt).mp hcan
      have hin : Inside b (p, (size : Nat)) := hle
      rw [word_of_lt hlt] at hnot ⊢
      generalize b.memory.readLE p size = len at hv
      have hzero : (size : Nat) = 0 → len = 0 := by
        intro h
        rw [h, Nat.pow_zero] at hv
        omega
      by_cases hmax : len > maxStringSize
      · rw [if_pos hmax]
        have hpos : 0 < (size : Nat) := by
          apply Nat.pos_of_ne_zero
          intro h
          rw [hzero h] at hmax
          exact absurd hmax (by decide)
        refine ⟨fun hsafe => absurd hsafe (not_safe_of_moved ?_), fun h => by omega⟩
        show p < p + size
        omega
      · rw [if_neg hmax]
        unfold readImpl
        by_cases hcan' : CanRead b (p + size) len
        · rw [if_pos hcan']
          constructor
          · intro hsafe
            have hend : Inside b (p + size, len) :=
              hsafe _ (List.mem_append_right _ (List.mem_singleton.mpr rfl))
            exact .inl ⟨hend, Nat.le_of_not_lt hmax⟩
          · intro h a ha
            rcases List.mem_append.mp ha with ha | ha
            · rw [List.mem_singleton.mp ha]
              exact hin
            · rw [List.mem_singleton.mp ha]
              rcases h with h | h
              · exact h.1
              · exact absurd h hnot
        · rw [if_neg hcan']
          have hpos : 0 < (size : Nat) := by
            apply Nat.pos_of_ne_zero
            intro h
            apply hcan'
            rw [hzero h]
            exact (canRead_iff hlt).mpr hle
          refine ⟨fun hsafe => absurd hsafe (not_safe_of_moved ?_), ?_⟩
          · show p < p + size
            omega
          · rintro (h | h)
            · exact absurd ((canRead_iff (by omega)).mpr h.1) hcan'
            · exact absurd h hnot
    · have hout : ¬Inside b (p, (size : Nat)) := by
        unfold Inside
        dsimp only
        omega
      refine ⟨fun hsafe => absurd hsafe ?_, fun h => by omega⟩
      by_cases hmax : b.memory.readLE p size > maxStringSize
      · rw [if_pos hmax]
        exact not_safe_of_access (List.mem_singleton.mpr rfl) hout
      · rw [if_neg hmax]
        apply not_safe_of_access _ hout
        unfold readImpl
        split
        · exact List.mem_append_left _ (List.mem_singleton.mpr rfl)
        · exact List.mem_singleton.mpr rfl
  · have hrun : readSizedString b size ⟨p, []⟩ =
        .error (.reading p size (decide (p ≥ b.len))) ⟨p, []⟩ := by
      show EStateM.bind (readValue b size) _ _ = _
      unfold EStateM.bind
      rw [readValue_eq, if_neg hcan]
    have hgt : b.len < word (p + size) := Nat.lt_of_not_le hcan
    rw [hrun]
    simp [SafeOutcome, hgt]

/-! ## All calls -/

/-- The operations; sizes and counts are `size_t`. -/
inductive Call where
  | canRead (size : UInt64)
  | read (size : UInt64)
  | readPtr (size count : UInt64)
  | readValue (size : UInt64)
  | readSized (len : UInt64)
  | readSizedString (size : Fin 9)
  | skip (size len : UInt64)
  | goto (loc : UInt64)
  | align (val : UInt64)
  | readString (last : UInt8)

namespace Call

def SafeAt (b : ByteBuffer) (p : UInt64) : Call → Prop
  | .canRead size => Safe b (Bytebuffer.canRead b size.toNat) p.toNat
  | .read size => Safe b (readImpl b size.toNat) p.toNat
  | .readPtr size count => Safe b (Bytebuffer.readPtr b size.toNat count.toNat) p.toNat
  | .readValue size => Safe b (Bytebuffer.readValue b size.toNat) p.toNat
  | .readSized len => Safe b (Bytebuffer.readSized b len.toNat) p.toNat
  | .readSizedString size => Safe b (Bytebuffer.readSizedString b size) p.toNat
  | .skip size len => Safe b (Bytebuffer.skip b size.toNat len.toNat) p.toNat
  | .goto loc => Safe b (Bytebuffer.goto b loc.toNat) p.toNat
  | .align val => Safe b (Bytebuffer.align b val.toNat) p.toNat
  | .readString last => Safe b (Bytebuffer.readString b last) p.toNat

/-- The arguments for which a call is safe. -/
def Fine (b : ByteBuffer) (p : UInt64) : Call → Prop
  | .canRead _ => True
  | .read size => NoWrap b p.toNat size.toNat
  | .readPtr size count => NoWrap b p.toNat (size.toNat * count.toNat)
  | .readValue size => NoWrap b p.toNat size.toNat
  | .readSized len => SizedFine b p.toNat len.toNat
  | .readSizedString size => SizedStringFine b p.toNat size
  | .skip size len => SkipFine b p.toNat (word (size.toNat * len.toNat))
  | .goto _ => True
  | .align val =>
    SkipFine b p.toNat (word (aligned64 p.toNat val.toNat + (2 ^ 64 - p.toNat)))
  | .readString last => StringFine b p.toNat last

end Call

theorem safe_goto (loc : Nat) : Safe b (goto b loc) p := by
  unfold Safe goto
  split
  · refine ⟨?_, rfl⟩
    intro a ha
    cases ha
  · intro a ha
    cases ha

/-- **The buffer**: when each operation stays inside of it, or throws and leaves the position
unchanged. -/
theorem safe_iff (b : ByteBuffer) (p : UInt64) (c : Call) : c.SafeAt b p ↔ c.Fine b p := by
  cases c with
  | canRead size => exact iff_of_true (fun a ha => by cases ha) trivial
  | read size => exact safe_readImpl _
  | readPtr size count => exact safe_readPtr _ _
  | readValue size => exact safe_readValue _
  | readSized len => exact safe_readSized len.toNat_lt
  | readSizedString size => exact safe_readSizedString size
  | skip size len => exact safe_skip _ _
  | goto loc => exact iff_of_true (safe_goto _) trivial
  | align val => exact safe_align p.toNat_lt _
  | readString last => exact safe_readString last

/-- Eight letters. -/
def eightLetters : ByteBuffer := ⟨fun _ => 0x61, 8, by decide⟩

/-- A pointer to 2 ^ 61 words is given away; a copy of four bytes less than 2 ^ 64 starts; a string
without an end moves the position. -/
theorem eightLetters_unsafe :
    ¬(Call.readPtr 8 0x2000000000000000).SafeAt eightLetters 0 ∧
      ¬(Call.read 0xfffffffffffffffc).SafeAt eightLetters 8 ∧
      ¬(Call.readString 0).SafeAt eightLetters 0 := by
  have hnotFits : ∀ p n, p + n = 2 ^ 64 ∨ p + n = 2 ^ 64 + 4 → ¬NoWrap eightLetters p n := by
    rintro p n h (hlt | hgt)
    · omega
    · have hlen : eightLetters.len = 8 := rfl
      unfold word at hgt
      omega
  refine ⟨?_, ?_, ?_⟩
  · intro h
    exact hnotFits _ _ (.inl (by decide)) ((safe_readPtr _ _).mp h)
  · intro h
    exact hnotFits _ _ (.inr (by decide)) ((safe_readImpl _).mp h)
  · intro h
    have hfine : StringFine eightLetters 0 0 := (safe_readString _).mp h
    rcases hfine with ⟨i, -, hi⟩ | hfine
    · have hletter : eightLetters.memory (0 + i) = 0x61 := rfl
      rw [hletter] at hi
      exact absurd hi (by decide)
    · exact absurd hfine (by decide)

end Acts.Core.Bytebuffer
