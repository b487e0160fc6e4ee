import Acts.Core.ByteBufferCalls
import Acts.Core.RawFile
import Acts.Lib.Fetch

/-!
# Reading raw files (`raw_file.hpp`)

* `RawFileReader` — a buffer, and the functions for encrypted strings and hashes.
* `gotoNextField`, `getHash`, `getString`, `readAll` — the operations of the reader.
* `forFields` — the loop `while (GotoNextField())`, with what its body yields for each field.
* `roundTrip` — **a file of fields that the 32-bit lengths can hold reads back as it was written;
  a longer string of printable characters makes the reader throw.**
-/

set_option autoImplicit false

namespace Acts.Core.RawFile

open Acts.Core.Bytebuffer Acts.Fetch

/-! ## The reader -/

structure RawFileReader where
  buffer : ByteBuffer
  /-- `DecryptString`, of the text at a position of the buffer. -/
  decryptString : Option (ByteBuffer → Nat → List UInt8)
  findHash : Option (UInt64 → Bool → List UInt8)

structure ReadState where
  pos : State
  curr : UInt8

inductive ReadError
  | buffer (e : Error)
  | badMagic
  | invalidFieldType
  /-- A C string that runs past the end of the buffer. -/
  | unterminated
  | hang

abbrev ReadM := EStateM ReadError ReadState

/-- An operation of the buffer. -/
def ofBuffer {α : Type} (op : Op α) : ReadM α := fun s =>
  match op s.pos with
  | .ok a pos => .ok a { s with pos }
  | .error e pos => .error (.buffer e) { s with pos }

/-- The C string at an address, with `n` bytes up to the end of the buffer. -/
def cString (m : Mem) (a : Nat) : Nat → Option (List UInt8)
  | 0 => none
  | n + 1 => if m a = 0 then some [] else (cString m (a + 1) n).map (m a :: ·)

def bytes (s : String) : List UInt8 := s.toList.map fun c => UInt8.ofNat c.toNat

/-- `hash_%llx`. -/
def hashText (v : UInt64) : List UInt8 :=
  bytes "hash_" ++ (Nat.toDigits 16 v.toNat).map fun c => UInt8.ofNat c.toNat

namespace RawFileReader

variable (r : RawFileReader)

/-- What the constructor reads. -/
def construct : ReadM Unit := do
  if (← ofBuffer (readValue r.buffer 8)) ≠ magic then throw .badMagic

/-- The `switch` of `GotoNextField`. -/
def skipField (curr : UInt8) : ReadM Unit :=
  match DataType.ofByte curr with
  | some .rfdtEnd => pure ()
  | some .rfdtHash | some .rfdtHashEscaped => ofBuffer (skip r.buffer 8 1)
  | some .rfdtString | some .rfdtStringEncrypted => do
    let len ← ofBuffer (readValue r.buffer 4)
    ofBuffer (skip r.buffer 1 len)
  | none => throw .invalidFieldType

def gotoNextField : ReadM Bool := do
  let s ← get
  skipField r s.curr
  let type ← ofBuffer (readValue r.buffer 1)
  modify fun s => { s with curr := UInt8.ofNat type }
  return type ≠ 0

/-- `GetHash`, at a position. -/
def getHash (pointer : Nat) : UInt64 := UInt64.ofNat (r.buffer.memory.readLE pointer 8)

/-- `GetStringRef`, at a position. -/
def getStringRef (pointer : Nat) : ReadM (List UInt8) :=
  match cString r.buffer.memory (pointer + 4) (r.buffer.len - (pointer + 4)) with
  | some str => pure str
  | none => throw .unterminated

/-- The text of a hash. -/
def hashString (v : UInt64) (escaped : Bool) : List UInt8 :=
  match r.findHash with
  | some find => find v escaped
  | none => hashText v

def getString : ReadM (List UInt8) := do
  let s ← get
  match DataType.ofByte s.curr with
  | some .rfdtHash => pure (r.hashString (r.getHash s.pos.pointer) false)
  | some .rfdtHashEscaped => pure (r.hashString (r.getHash s.pos.pointer) true)
  | some .rfdtString => r.getStringRef s.pos.pointer
  | some .rfdtStringEncrypted =>
    match r.decryptString with
    | some decrypt => pure (decrypt r.buffer (s.pos.pointer + 4))
    | none => r.getStringRef s.pos.pointer
  | some .rfdtEnd => pure []
  | none => pure (bytes "unktype")

/-- The current field, by its type; none for a type that the calls do not write. -/
def getField : ReadM (Option Field) := do
  let s ← get
  match DataType.ofByte s.curr with
  | some .rfdtHash => pure (some (.hash (r.getHash s.pos.pointer)))
  | some .rfdtHashEscaped => pure (some (.hashEscaped (r.getHash s.pos.pointer)))
  | some .rfdtString => do
    let str ← r.getStringRef s.pos.pointer
    pure (some (.string str))
  | _ => pure none

/-- The loop `while (GotoNextField())`, with what its body yields for each field; every turn reads
a byte of the buffer. -/
def forFields {α : Type} (body : ReadM α) : Nat → ReadM (List α)
  | 0 => throw .hang
  | n + 1 => do
    if ← r.gotoNextField then
      let a ← body
      let as ← forFields body n
      pure (a :: as)
    else pure []

/-- `ReadAll`. -/
def readAll : ReadM (List UInt8) := do
  let texts ← r.forFields r.getString (r.buffer.len + 1)
  pure texts.flatten

def readFields : ReadM (List (Option Field)) := r.forFields r.getField (r.buffer.len + 1)

/-- A new reader, and something read with it. -/
def run {α : Type} (x : ReadM α) : Option α :=
  match (r.construct >>= fun _ => x) ⟨⟨0, []⟩, 0⟩ with
  | .ok a _ => some a
  | .error _ _ => none

/-- The text of a field. -/
def text : Field → List UInt8
  | .string s => s
  | .hash v => r.hashString v false
  | .hashEscaped v => r.hashString v true

end RawFileReader

/-! ## One field -/

def Field.NulFree : Field → Prop
  | .string s => 0 ∉ s
  | _ => True

/-- The length of a field is below what its 32 bits can hold. -/
def Field.Fits : Field → Prop
  | .string s => s.length + 1 < 2 ^ 32
  | _ => True

section Fields

variable {r : RawFileReader} {s : ReadState} {p : Nat} {f : Field}

theorem readValue_at {n v : Nat} (hin : s.pos.pointer + n ≤ r.buffer.len)
    (hb : Holds r.buffer.memory s.pos.pointer (leBytes n v)) :
    ∃ s', ofBuffer (readValue r.buffer n) s = .ok (v % 256 ^ n) s' ∧
      s'.pos.pointer = s.pos.pointer + n ∧ s'.curr = s.curr := by
  have hlen := r.buffer.len_lt
  have hlt : s.pos.pointer + n < 2 ^ 64 := by omega
  unfold ofBuffer
  rw [readValue_of ((canRead_iff hlt).mpr hin), readLE_of_holds hb]
  exact ⟨_, rfl, word_of_lt hlt, rfl⟩

theorem skip_at {size len : Nat} (hin : s.pos.pointer + size * len ≤ r.buffer.len) :
    ∃ s', ofBuffer (skip r.buffer size len) s = .ok () s' ∧
      s'.pos.pointer = s.pos.pointer + size * len ∧ s'.curr = s.curr := by
  have hlen := r.buffer.len_lt
  obtain ⟨s', hrun, hpos, -⟩ := skipLoop_inside (size * len) s.pos hin
  unfold ofBuffer skip
  rw [word_of_lt (by omega), hrun]
  exact ⟨_, rfl, hpos, rfl⟩

/-- The next field starts at `p`. -/
def Arrives (r : RawFileReader) (s : ReadState) (p : Nat) : Prop :=
  ∃ s', r.skipField s.curr s = .ok () s' ∧ s'.pos.pointer = p

theorem gotoNextField_at {b : UInt8} (h : Arrives r s p) (hin : p < r.buffer.len)
    (hb : r.buffer.memory p = b) :
    ∃ s', r.gotoNextField s = .ok (b ≠ 0) s' ∧ s'.pos.pointer = p + 1 ∧ s'.curr = b := by
  obtain ⟨s₁, hskip, hpos⟩ := h
  have hbyte : Holds r.buffer.memory s₁.pos.pointer (leBytes 1 b.toNat) := by
    intro i hi
    obtain rfl : i = 0 := by rw [length_leBytes] at hi; omega
    simp [hpos, hb, leBytes]
  obtain ⟨s₂, hread, hpos₂, -⟩ := readValue_at (by omega) hbyte
  have hval : b.toNat % 256 ^ 1 = b.toNat := Nat.mod_eq_of_lt b.toNat_lt
  rw [hval] at hread
  unfold RawFileReader.gotoNextField
  rw [get_bind, bind_ok hskip, bind_ok hread, modify_bind]
  have hne : (b.toNat ≠ 0) = (b ≠ 0) := by
    rw [ne_eq, ne_eq, ← UInt8.toNat_inj]
    rfl
  refine ⟨{ s₂ with curr := UInt8.ofNat b.toNat }, ?_, hpos₂.trans (by rw [hpos]),
    UInt8.ofNat_toNat⟩
  simp only [hne]
  rfl

/-- The reader is behind the type byte of a field. -/
structure OnField (r : RawFileReader) (s : ReadState) (f : Field) : Prop where
  curr : f.bytes.head? = some s.curr
  holds : Holds r.buffer.memory s.pos.pointer f.bytes.tail
  inside : s.pos.pointer + f.bytes.tail.length ≤ r.buffer.len
  nulFree : f.NulFree

theorem cString_of_holds {m : Mem} {a n : Nat} {str : List UInt8} (hm : Holds m a (str ++ [0]))
    (hnul : 0 ∉ str) (hn : str.length < n) : cString m a n = some str := by
  induction str generalizing a n with
  | nil =>
    obtain ⟨n, rfl⟩ : ∃ k, n = k + 1 := ⟨n - 1, by simp at hn; omega⟩
    rw [cString, if_pos hm.head]
  | cons c str ih =>
    obtain ⟨n, rfl⟩ : ∃ k, n = k + 1 := ⟨n - 1, by simp at hn; omega⟩
    have hc : m a = c := hm.head
    have hne : c ≠ 0 := fun h => hnul (h ▸ List.mem_cons_self)
    have hrest := ih hm.tail (fun h => hnul (List.mem_cons_of_mem _ h))
      (Nat.lt_of_succ_lt_succ hn)
    rw [cString, if_neg (hc ▸ hne), hrest, hc]
    rfl

theorem tail_string (str : List UInt8) :
    (Field.string str).bytes.tail = leBytes 4 (str.length + 1) ++ (str ++ [0]) := by
  simp [Field.bytes]

theorem getStringRef_at {str : List UInt8} (h : OnField r s (.string str)) :
    r.getStringRef s.pos.pointer s = .ok str s := by
  have hm := h.holds
  have hin := h.inside
  rw [tail_string] at hm hin
  have htext := hm.right
  rw [length_leBytes] at htext
  simp only [List.length_append, length_leBytes, List.length_singleton] at hin
  unfold RawFileReader.getStringRef
  rw [cString_of_holds htext h.nulFree (by omega)]
  rfl

theorem getHash_at {v : UInt64} (h : Holds r.buffer.memory p (leBytes 8 v.toNat)) :
    r.getHash p = v := by
  have hlt := v.toNat_lt
  unfold RawFileReader.getHash
  rw [readLE_of_holds h, Nat.mod_eq_of_lt (by omega)]
  exact UInt64.ofNat_toNat

theorem getField_at (h : OnField r s f) : r.getField s = .ok (some f) s := by
  obtain ⟨pos, curr⟩ := s
  have hcurr := h.curr
  unfold RawFileReader.getField
  rw [get_bind]
  cases f with
  | string str =>
    obtain rfl : 1 = curr := Option.some.inj hcurr
    exact bind_ok (getStringRef_at h)
  | hash v =>
    obtain rfl : 3 = curr := Option.some.inj hcurr
    have hv := getHash_at h.holds
    exact congrArg (fun v => EStateM.Result.ok (some (Field.hash v)) _) hv
  | hashEscaped v =>
    obtain rfl : 4 = curr := Option.some.inj hcurr
    have hv := getHash_at h.holds
    exact congrArg (fun v => EStateM.Result.ok (some (Field.hashEscaped v)) _) hv

theorem getString_at (h : OnField r s f) : r.getString s = .ok (r.text f) s := by
  obtain ⟨pos, curr⟩ := s
  have hcurr := h.curr
  unfold RawFileReader.getString
  rw [get_bind]
  cases f with
  | string str =>
    obtain rfl : 1 = curr := Option.some.inj hcurr
    exact getStringRef_at h
  | hash v =>
    obtain rfl : 3 = curr := Option.some.inj hcurr
    have hv := getHash_at h.holds
    exact congrArg (fun v => EStateM.Result.ok (r.hashString v false) _) hv
  | hashEscaped v =>
    obtain rfl : 4 = curr := Option.some.inj hcurr
    have hv := getHash_at h.holds
    exact congrArg (fun v => EStateM.Result.ok (r.hashString v true) _) hv

/-! ## From field to field -/

/-- Behind a string the reader goes on where the 32 bits of its length lead. -/
theorem arrives_string {str : List UInt8} (h : OnField r s (.string str)) :
    Arrives r s (s.pos.pointer + 4 + (str.length + 1) % 2 ^ 32) := by
  have hcurr : s.curr = 1 := (Option.some.inj h.curr).symm
  have hin := h.inside
  have hm := h.holds
  rw [tail_string] at hm hin
  simp only [List.length_append, length_leBytes, List.length_singleton] at hin
  have hmod : (str.length + 1) % 2 ^ 32 ≤ str.length + 1 := Nat.mod_le _ _
  obtain ⟨s₁, hread, hpos, -⟩ := readValue_at (by omega) hm.left
  have hpow : 256 ^ 4 = 2 ^ 32 := by decide
  rw [hpow] at hread
  obtain ⟨s₂, hskip, hpos₂, -⟩ : ∃ s',
      ofBuffer (skip r.buffer 1 ((str.length + 1) % 2 ^ 32)) s₁ = .ok () s' ∧
      s'.pos.pointer = s₁.pos.pointer + 1 * ((str.length + 1) % 2 ^ 32) ∧ _ :=
    skip_at (by omega)
  unfold Arrives
  rw [hcurr]
  exact ⟨s₂, (bind_ok hread).trans hskip, by omega⟩

theorem arrives_hash (hcurr : s.curr = 3 ∨ s.curr = 4) (hin : s.pos.pointer + 8 ≤ r.buffer.len) :
    Arrives r s (s.pos.pointer + 8) := by
  obtain ⟨s', hskip, hpos, -⟩ : ∃ s', ofBuffer (skip r.buffer 8 1) s = .ok () s' ∧
    s'.pos.pointer = s.pos.pointer + 8 * 1 ∧ _ := skip_at hin
  unfold Arrives
  rcases hcurr with hcurr | hcurr
  · rw [hcurr]
    exact ⟨s', hskip, hpos⟩
  · rw [hcurr]
    exact ⟨s', hskip, hpos⟩

/-- Behind a field that fits, the next one follows. -/
theorem arrives_of_fits (h : OnField r s f) (hf : f.Fits) :
    Arrives r s (s.pos.pointer + f.bytes.tail.length) := by
  cases f with
  | string str =>
    have hmod : (str.length + 1) % 2 ^ 32 = str.length + 1 := Nat.mod_eq_of_lt hf
    have hlen : (Field.string str).bytes.tail.length = 4 + (str.length + 1) := by
      rw [tail_string]
      simp
    have harr := arrives_string h
    rwa [hmod, Nat.add_assoc, ← hlen] at harr
  | hash v => exact arrives_hash (.inl (Option.some.inj h.curr).symm) h.inside
  | hashEscaped v => exact arrives_hash (.inr (Option.some.inj h.curr).symm) h.inside

theorem head_bytes (f : Field) : ∃ b, f.bytes = b :: f.bytes.tail ∧ b ≠ 0 := by
  cases f with
  | string str => exact ⟨1, rfl, by decide⟩
  | hash v => exact ⟨3, rfl, by decide⟩
  | hashEscaped v => exact ⟨4, rfl, by decide⟩

/-- The reader steps onto the next field. -/
theorem onField_of_arrives {rest : List UInt8} (h : Arrives r s p)
    (hm : Holds r.buffer.memory p (f.bytes ++ rest))
    (hin : p + (f.bytes ++ rest).length ≤ r.buffer.len) (hnul : f.NulFree) :
    ∃ s', r.gotoNextField s = .ok true s' ∧ s'.pos.pointer = p + 1 ∧ OnField r s' f := by
  obtain ⟨b, hb, hne⟩ := head_bytes f
  have hlen : f.bytes.length = f.bytes.tail.length + 1 := by
    rw [congrArg List.length hb, List.length_cons]
  rw [List.length_append] at hin
  have hm := hm.left
  rw [hb] at hm
  obtain ⟨s', hgoto, hpos, hcurr⟩ := gotoNextField_at h (by omega) hm.head
  refine ⟨s', by simpa [hne] using hgoto, hpos, ?_, hpos ▸ hm.tail, by omega, hnul⟩
  rw [hb, hcurr]
  rfl

end Fields

/-! ## Whole files -/

/-- A body of the loop that yields `g` of each field. -/
structure Yields (r : RawFileReader) {α : Type} (body : ReadM α) (g : Field → α) : Prop where
  field : ∀ {s f}, OnField r s f → body s = .ok (g f) s
  keeps : ∀ {s a s'}, body s = .ok a s' → s' = s

section Loop

variable {r : RawFileReader} {α : Type} {body : ReadM α} {g : Field → α} {s : ReadState} {p : Nat}

/-- A turn of the loop on a field. -/
theorem forFields_field (hbody : Yields r body g) {f : Field} {rest : List UInt8}
    (h : Arrives r s p) (hm : Holds r.buffer.memory p (f.bytes ++ rest))
    (hin : p + (f.bytes ++ rest).length ≤ r.buffer.len) (hnul : f.NulFree) (n : Nat) :
    ∃ s', s'.pos.pointer = p + 1 ∧ OnField r s' f ∧ r.forFields body (n + 1) s =
      (r.forFields body n >>= fun as => pure (g f :: as)) s' := by
  obtain ⟨s', hgoto, hpos, hon⟩ := onField_of_arrives h hm hin hnul
  refine ⟨s', hpos, hon, ?_⟩
  rw [RawFileReader.forFields, bind_ok hgoto, if_pos rfl, bind_ok (hbody.field hon)]

theorem forFields_ok (hbody : Yields r body g) (fs : List Field) (h : Arrives r s p)
    (hm : Holds r.buffer.memory p (encode fs ++ [0]))
    (hin : p + (encode fs ++ [0]).length ≤ r.buffer.len) (hnul : ∀ f ∈ fs, f.NulFree)
    (hfits : ∀ f ∈ fs, f.Fits) {n : Nat} (hn : fs.length < n) :
    ∃ s', r.forFields body n s = .ok (fs.map g) s' := by
  obtain ⟨n, rfl⟩ : ∃ k, n = k + 1 := ⟨n - 1, by omega⟩
  induction fs generalizing s p n with
  | nil =>
    obtain ⟨s', hgoto, -⟩ := gotoNextField_at h (by simp [encode] at hin; omega) hm.head
    refine ⟨s', ?_⟩
    rw [RawFileReader.forFields, bind_ok hgoto]
    rfl
  | cons f fs ih =>
    have hsplit : encode (f :: fs) ++ [0] = f.bytes ++ (encode fs ++ [0]) := by simp [encode]
    rw [hsplit] at hm hin
    obtain ⟨s₁, hpos, hon, hturn⟩ :=
      forFields_field hbody h hm hin (hnul f List.mem_cons_self) n
    obtain ⟨b, hb, -⟩ := head_bytes f
    have hlen : f.bytes.length = f.bytes.tail.length + 1 := by
      rw [congrArg List.length hb, List.length_cons]
    have hnext : Arrives r s₁ (p + f.bytes.length) := by
      have := arrives_of_fits hon (hfits f List.mem_cons_self)
      rwa [hpos, Nat.add_assoc, Nat.add_comm 1, ← hlen] at this
    obtain ⟨n, rfl⟩ : ∃ k, n = k + 1 := ⟨n - 1, by simp at hn; omega⟩
    obtain ⟨s₂, hrest⟩ := ih hnext hm.right (by rw [List.length_append] at hin; omega)
      (fun f hf => hnul f (List.mem_cons_of_mem _ hf))
      (fun f hf => hfits f (List.mem_cons_of_mem _ hf)) n (by simp at hn ⊢; omega)
    exact ⟨s₂, hturn.trans (bind_ok hrest)⟩

/-- A string whose bytes are no types. -/
def Field.Plain : Field → Prop
  | .string str => ∀ c ∈ str, 4 < c
  | _ => True

theorem ofByte_eq_none {b : UInt8} (h : 4 < b) : DataType.ofByte b = none := by
  have hb : 5 ≤ b.toNat := UInt8.lt_iff_toNat_lt.mp h
  exact List.getElem?_eq_none hb

/-- Behind the wrapped length of a string the reader takes one of its characters for a type. -/
theorem forFields_inside (hbody : Yields r body g) {str : List UInt8}
    (h : OnField r s (.string str)) (hf : ¬(Field.string str).Fits)
    (hplain : (Field.string str).Plain) (n : Nat) :
    ∃ e s', r.forFields body n s = .error e s' := by
  cases n with
  | zero => exact ⟨_, _, rfl⟩
  | succ n =>
    have hbig : 2 ^ 32 ≤ str.length + 1 := Nat.le_of_not_lt hf
    have hk : (str.length + 1) % 2 ^ 32 < str.length := by omega
    have hin := h.inside
    have hm := h.holds
    rw [tail_string] at hm hin
    simp only [List.length_append, length_leBytes, List.length_singleton] at hin
    have hchar : r.buffer.memory (s.pos.pointer + 4 + (str.length + 1) % 2 ^ 32) =
        str[(str.length + 1) % 2 ^ 32] := by
      have := hm.right.left ((str.length + 1) % 2 ^ 32) hk
      rwa [length_leBytes] at this
    have hgt : (4 : UInt8) < str[(str.length + 1) % 2 ^ 32] := hplain _ (List.getElem_mem hk)
    obtain ⟨s₁, hgoto, -, hcurr⟩ := gotoNextField_at (arrives_string h) (by omega) hchar
    have hne : str[(str.length + 1) % 2 ^ 32] ≠ 0 := fun h0 => by
      rw [h0] at hgt
      exact absurd hgt (by decide)
    rw [RawFileReader.forFields, bind_ok hgoto, decide_eq_true hne, if_pos rfl]
    cases hrun : body s₁ with
    | error e s₂ => exact ⟨e, s₂, bind_error hrun⟩
    | ok a s₂ =>
      obtain rfl := hbody.keeps hrun
      rw [bind_ok hrun]
      cases n with
      | zero => exact ⟨_, _, rfl⟩
      | succ n =>
        have hskip : r.skipField s₂.curr s₂ = .error .invalidFieldType s₂ := by
          unfold RawFileReader.skipField
          rw [hcurr, ofByte_eq_none hgt]
          rfl
        have hthrow : r.gotoNextField s₂ = .error .invalidFieldType s₂ := by
          unfold RawFileReader.gotoNextField
          rw [get_bind, bind_error hskip]
        have hloop : r.forFields body (n + 1) s₂ = .error .invalidFieldType s₂ := by
          rw [RawFileReader.forFields, bind_error hthrow]
        exact ⟨_, _, bind_error hloop⟩

theorem forFields_error (hbody : Yields r body g) (fs : List Field) (h : Arrives r s p)
    (hm : Holds r.buffer.memory p (encode fs ++ [0]))
    (hin : p + (encode fs ++ [0]).length ≤ r.buffer.len) (hnul : ∀ f ∈ fs, f.NulFree)
    (hplain : ∀ f ∈ fs, f.Plain) (hfits : ¬∀ f ∈ fs, f.Fits) (n : Nat) :
    ∃ e s', r.forFields body n s = .error e s' := by
  induction fs generalizing s p n with
  | nil => exact absurd (fun f hf => by cases hf) hfits
  | cons f fs ih =>
    cases n with
    | zero => exact ⟨_, _, rfl⟩
    | succ n =>
      have hsplit : encode (f :: fs) ++ [0] = f.bytes ++ (encode fs ++ [0]) := by simp [encode]
      rw [hsplit] at hm hin
      obtain ⟨s₁, hpos, hon, hturn⟩ :=
        forFields_field hbody h hm hin (hnul f List.mem_cons_self) n
      by_cases hf : f.Fits
      · have hrest : ¬∀ f ∈ fs, f.Fits := fun hall => hfits fun f' hf' => by
          rcases List.mem_cons.mp hf' with rfl | hf'
          · exact hf
          · exact hall f' hf'
        obtain ⟨b, hb, -⟩ := head_bytes f
        have hlen : f.bytes.length = f.bytes.tail.length + 1 := by
          rw [congrArg List.length hb, List.length_cons]
        have hnext : Arrives r s₁ (p + f.bytes.length) := by
          have := arrives_of_fits hon hf
          rwa [hpos, Nat.add_assoc, Nat.add_comm 1, ← hlen] at this
        obtain ⟨e, s₂, herr⟩ := ih hnext hm.right (by rw [List.length_append] at hin; omega)
          (fun f hf => hnul f (List.mem_cons_of_mem _ hf))
          (fun f hf => hplain f (List.mem_cons_of_mem _ hf)) hrest n
        exact ⟨e, s₂, hturn.trans (bind_error herr)⟩
      · cases f with
        | hash v => exact absurd trivial hf
        | hashEscaped v => exact absurd trivial hf
        | string str =>
          -- the next type is a character of the string
          obtain ⟨e, s₂, herr⟩ := forFields_inside hbody hon hf (hplain _ List.mem_cons_self) n
          exact ⟨e, s₂, hturn.trans (bind_error herr)⟩

end Loop

theorem getStringRef_keeps {r : RawFileReader} {p : Nat} {s s' : ReadState} {str : List UInt8}
    (h : r.getStringRef p s = .ok str s') : s' = s := by
  unfold RawFileReader.getStringRef at h
  cases hstr : cString r.buffer.memory (p + 4) (r.buffer.len - (p + 4)) with
  | none =>
    rw [hstr] at h
    cases h
  | some str =>
    rw [hstr] at h
    cases h
    rfl

theorem yields_getField (r : RawFileReader) : Yields r r.getField some where
  field h := getField_at h
  keeps {s a s'} h := by
    unfold RawFileReader.getField at h
    rw [get_bind] at h
    rcases hdt : DataType.ofByte s.curr with _ | dt
    · rw [hdt] at h
      cases h
      rfl
    · rw [hdt] at h
      cases dt with
      | rfdtString =>
        have hbind : (r.getStringRef s.pos.pointer >>= fun str =>
          pure (some (Field.string str))) s = .ok a s' := h
        cases hstr : r.getStringRef s.pos.pointer s with
        | error e s₁ =>
          rw [bind_error hstr] at hbind
          cases hbind
        | ok str s₁ =>
          rw [bind_ok hstr] at hbind
          cases hbind
          exact getStringRef_keeps hstr
      | _ =>
        cases h
        rfl

theorem yields_getString (r : RawFileReader) : Yields r r.getString r.text where
  field h := getString_at h
  keeps {s a s'} h := by
    unfold RawFileReader.getString at h
    rw [get_bind] at h
    rcases hdt : DataType.ofByte s.curr with _ | dt
    · rw [hdt] at h
      cases h
      rfl
    · rw [hdt] at h
      cases dt with
      | rfdtString => exact getStringRef_keeps h
      | rfdtStringEncrypted =>
        cases hdec : r.decryptString with
        | none =>
          rw [hdec] at h
          exact getStringRef_keeps h
        | some decrypt =>
          rw [hdec] at h
          cases h
          rfl
      | _ =>
        cases h
        rfl

/-- What holds of strings and of merged strings holds of all fields. -/
theorem forall_fields {P : Field → Prop}
    (hmerge : ∀ s t, P (.string s) → P (.string t) → P (.string (s ++ t))) {calls : List Call}
    (h : ∀ c ∈ calls, P c.field) : ∀ f ∈ fields calls, P f := by
  have hprepend : ∀ f fs, P f → (∀ g ∈ fs, P g) → ∀ g ∈ prepend f fs, P g := by
    intro f fs hf hfs g hg
    unfold prepend at hg
    split at hg
    · rcases List.mem_cons.mp hg with rfl | hg
      · exact hmerge _ _ hf (hfs _ List.mem_cons_self)
      · exact hfs g (List.mem_cons_of_mem _ hg)
    · rcases List.mem_cons.mp hg with rfl | hg
      · exact hf
      · exact hfs g hg
  induction calls with
  | nil => exact fun f hf => by cases hf
  | cons c calls ih =>
    exact hprepend c.field _ (h c List.mem_cons_self)
      (ih fun c' hc => h c' (List.mem_cons_of_mem _ hc))

theorem text_fields (r : RawFileReader) (calls : List Call) :
    ((fields calls).map r.text).flatten = (calls.map fun c => r.text c.field).flatten := by
  have hprepend : ∀ f fs, ((prepend f fs).map r.text).flatten =
      r.text f ++ (fs.map r.text).flatten := by
    intro f fs
    unfold prepend
    split
    · simp [RawFileReader.text]
    · simp
  induction calls with
  | nil => rfl
  | cons c calls ih =>
    rw [show fields (c :: calls) = prepend c.field (fields calls) from rfl, hprepend, ih]
    rfl

theorem length_le_encode (fs : List Field) : fs.length ≤ (encode fs).length := by
  induction fs with
  | nil => exact Nat.le_refl 0
  | cons f fs ih =>
    obtain ⟨b, hb, -⟩ := head_bytes f
    have hpos : 0 < f.bytes.length := by
      rw [hb]
      exact Nat.zero_lt_succ _
    simp [encode] at ih ⊢
    omega

/-- Both ways to read a file give what the calls said. -/
def Reads (r : RawFileReader) (calls : List Call) : Prop :=
  r.run r.readFields = some ((fields calls).map some) ∧
    r.run r.readAll = some (calls.map fun c => r.text c.field).flatten

section File

variable {r : RawFileReader} {calls : List Call}

/-- A new reader stands in front of the first field. -/
theorem construct_file (hm : Holds r.buffer.memory 0 (rawFile calls))
    (hlen : r.buffer.len = (rawFile calls).length) :
    ∃ s, Arrives r s 8 ∧ ∀ {α : Type} (x : ReadM α), r.run x =
      match x s with
      | .ok a _ => some a
      | .error _ _ => none := by
  rw [rawFile_eq, List.append_assoc] at hm hlen
  rw [List.length_append, length_leBytes] at hlen
  obtain ⟨s, hread, hpos, hcurr⟩ : ∃ s', ofBuffer (readValue r.buffer 8) ⟨⟨0, []⟩, 0⟩ =
      .ok (magic % 256 ^ 8) s' ∧ s'.pos.pointer = 0 + 8 ∧ s'.curr = 0 :=
    readValue_at (by dsimp only; omega) hm.left
  have hmagic : magic % 256 ^ 8 = magic := by decide
  rw [hmagic] at hread
  refine ⟨s, ⟨s, by rw [hcurr]; rfl, hpos⟩, fun x => ?_⟩
  have hconstruct : r.construct ⟨⟨0, []⟩, 0⟩ = .ok () s := by
    unfold RawFileReader.construct
    rw [bind_ok hread, if_neg (not_not_intro rfl)]
    rfl
  unfold RawFileReader.run
  rw [bind_ok hconstruct]

theorem reads_of_fits (hm : Holds r.buffer.memory 0 (rawFile calls))
    (hlen : r.buffer.len = (rawFile calls).length) (hnul : ∀ c ∈ calls, c.field.NulFree)
    (hfits : ∀ f ∈ fields calls, f.Fits) : Reads r calls := by
  obtain ⟨s, harr, hrun⟩ := construct_file hm hlen
  have hnul' : ∀ f ∈ fields calls, f.NulFree :=
    forall_fields (fun s t hs ht h => (List.mem_append.mp h).elim hs ht) hnul
  have hfuel := length_le_encode (fields calls)
  rw [rawFile_eq, List.append_assoc] at hm hlen
  rw [List.length_append, length_leBytes] at hlen
  have hrest : Holds r.buffer.memory 8 (encode (fields calls) ++ [0]) := by
    have := hm.right
    rwa [length_leBytes, Nat.zero_add] at this
  have hn : (fields calls).length < r.buffer.len + 1 := by
    rw [List.length_append] at hlen
    omega
  constructor
  · obtain ⟨s', hread⟩ := forFields_ok (yields_getField r) _ harr hrest (by omega) hnul' hfits hn
    rw [hrun]
    unfold RawFileReader.readFields
    rw [hread]
  · obtain ⟨s', hread⟩ := forFields_ok (yields_getString r) _ harr hrest (by omega) hnul' hfits hn
    rw [hrun]
    unfold RawFileReader.readAll
    rw [bind_ok hread, text_fields]
    rfl

theorem fits_of_reads (hm : Holds r.buffer.memory 0 (rawFile calls))
    (hlen : r.buffer.len = (rawFile calls).length) (hnul : ∀ c ∈ calls, c.field.NulFree)
    (hplain : ∀ c ∈ calls, c.field.Plain) (h : Reads r calls) :
    ∀ f ∈ fields calls, f.Fits := by
  by_contra hfits
  obtain ⟨s, harr, hrun⟩ := construct_file hm hlen
  have hnul' : ∀ f ∈ fields calls, f.NulFree :=
    forall_fields (fun s t hs ht h => (List.mem_append.mp h).elim hs ht) hnul
  have hplain' : ∀ f ∈ fields calls, f.Plain :=
    forall_fields (fun s t hs ht c h => (List.mem_append.mp h).elim (hs c) (ht c)) hplain
  rw [rawFile_eq, List.append_assoc] at hm hlen
  rw [List.length_append, length_leBytes] at hlen
  have hrest : Holds r.buffer.memory 8 (encode (fields calls) ++ [0]) := by
    have := hm.right
    rwa [length_leBytes, Nat.zero_add] at this
  obtain ⟨e, s', herr⟩ := forFields_error (yields_getField r) _ harr hrest (by omega) hnul' hplain'
    hfits (r.buffer.len + 1)
  have hread := h.1
  rw [hrun] at hread
  unfold RawFileReader.readFields at hread
  rw [herr] at hread
  cases hread

/-- **A file whose strings, merged, fit into 32-bit lengths reads back as it was written, and
`ReadAll` returns the concatenation; strings without control characters read back only then.** -/
theorem roundTrip (hm : Holds r.buffer.memory 0 (rawFile calls))
    (hlen : r.buffer.len = (rawFile calls).length) (hnul : ∀ c ∈ calls, c.field.NulFree) :
    ((∀ f ∈ fields calls, f.Fits) → Reads r calls) ∧
      ((∀ c ∈ calls, c.field.Plain) → Reads r calls → ∀ f ∈ fields calls, f.Fits) :=
  ⟨reads_of_fits hm hlen hnul, fits_of_reads hm hlen hnul⟩

end File

/-- A reader on the file of some calls. -/
def RawFileReader.over (calls : List Call) (h : (rawFile calls).length + 1 < 2 ^ 64) :
    RawFileReader :=
  ⟨⟨fun a => (rawFile calls).getD a 0, (rawFile calls).length, h⟩, none, none⟩

theorem holds_over (calls : List Call) (h : (rawFile calls).length + 1 < 2 ^ 64) :
    Holds (RawFileReader.over calls h).buffer.memory 0 (rawFile calls) := fun i hi => by
  show (rawFile calls).getD (0 + i) 0 = _
  rw [Nat.zero_add, List.getD_eq_getElem?_getD, List.getElem?_eq_getElem hi]
  rfl

/-- Strings around a hash, as in the unit test, with an empty one among them. -/
def testCalls : List Call :=
  [.writeString [0x23], .writeString [], .writeString [0x22], .writeHash 0x0301, .writeString []]

theorem testCalls_read : Reads (RawFileReader.over testCalls (by decide)) testCalls :=
  (roundTrip (holds_over testCalls (by decide)) rfl (by simp [testCalls, Call.field,
    Field.NulFree])).1 (by simp [testCalls, fields, prepend, Call.field, Field.Fits])

/-- One string of `n` letters. -/
def letters (n : Nat) : List Call := [.writeString (List.replicate n 0x61)]

theorem length_letters (n : Nat) : (rawFile (letters n)).length = n + 15 := by
  rw [rawFile_eq]
  simp [letters, fields, prepend, encode, Call.field, Field.bytes]
  omega

theorem letters_unread (n : Nat) (hn : 2 ^ 32 ≤ n + 1) (hlt : n + 16 < 2 ^ 64) :
    ¬∀ (r : RawFileReader) (calls : List Call), Holds r.buffer.memory 0 (rawFile calls) →
      r.buffer.len = (rawFile calls).length → (∀ c ∈ calls, c.field.NulFree) → Reads r calls := by
  intro h
  have hlen : (rawFile (letters n)).length + 1 < 2 ^ 64 := by
    rw [length_letters]
    omega
  have hnul : ∀ c ∈ letters n, c.field.NulFree := by
    simp [letters, Call.field, Field.NulFree]
  have hplain : ∀ c ∈ letters n, c.field.Plain := by
    simp [letters, Call.field, Field.Plain]
  have hreads := h (.over (letters n) hlen) (letters n) (holds_over _ hlen) rfl hnul
  have hfits := fits_of_reads (holds_over _ hlen) rfl hnul hplain hreads _ List.mem_cons_self
  have hlong : (List.replicate n (0x61 : UInt8)).length + 1 < 2 ^ 32 := hfits
  rw [List.length_replicate] at hlong
  omega

/-- A string of 4 GiB does not read back. -/
theorem letters_not_read : ¬∀ (r : RawFileReader) (calls : List Call),
    Holds r.buffer.memory 0 (rawFile calls) → r.buffer.len = (rawFile calls).length →
    (∀ c ∈ calls, c.field.NulFree) → Reads r calls :=
  letters_unread (2 ^ 32 - 1) (by decide) (by decide)

end Acts.Core.RawFile
