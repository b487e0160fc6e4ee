import Acts.Fastfile.Flexible

/-!
# Reading flexible headers back

* `readChunks_ok`, `readChunks_inv` — the chunks that a buffer holds are read, and what is read as
  chunks stands in the buffer.
* `Shifted` — the chunks read the same behind a signature as in front of it.
* `reads_iff` — **a header reads back for the first version, and for the second one only if its
  chunks are so.**
-/

set_option autoImplicit false

namespace Acts.Fastfile.Flexible

open Core.Bytebuffer Fetch

variable {b : ByteBuffer}

/-! ## Bytes of the buffer -/

theorem length_slice (b : ByteBuffer) (pos len : Nat) : (slice b pos len).length = len := by
  rw [slice, List.length_map, List.length_range]

theorem holds_slice (b : ByteBuffer) (pos len : Nat) : Holds b.memory pos (slice b pos len) := by
  intro i hi
  simp only [slice, List.getElem_map, List.getElem_range]

theorem holds_unique {m : Mem} {pos : Nat} {xs ys : Data} (hx : Holds m pos xs)
    (hy : Holds m pos ys) (hlen : xs.length = ys.length) : xs = ys := by
  apply List.ext_getElem hlen
  intro i hi hi'
  rw [← hx i hi, hy i hi']

theorem slice_of_holds {pos : Nat} {xs : Data} (h : Holds b.memory pos xs) :
    slice b pos xs.length = xs :=
  holds_unique (holds_slice b pos xs.length) h (length_slice b pos xs.length)

theorem holds_append {m : Mem} {pos : Nat} {xs ys : Data} (hx : Holds m pos xs)
    (hy : Holds m (pos + xs.length) ys) : Holds m pos (xs ++ ys) := by
  intro i hi
  by_cases hlt : i < xs.length
  · rw [List.getElem_append_left hlt]
    exact hx i hlt
  · rw [List.getElem_append_right (by omega)]
    rw [List.length_append] at hi
    have h := hy (i - xs.length) (by omega)
    rw [show pos + xs.length + (i - xs.length) = pos + i by omega] at h
    exact h

/-! ## Steps -/

theorem lift_bind {α β : Type} {op : Op α} {f : α → Read β} {s s' : State} {a : α}
    (h : op s = .ok a s') : (lift op >>= f) s = f a s' := by
  show EStateM.bind (lift op) f s = _
  unfold EStateM.bind lift
  rw [h]

theorem bind_ok_inv {α β : Type} {m : Read α} {f : α → Read β} {s s' : State} {r : β}
    (h : (m >>= f) s = .ok r s') : ∃ a s₁, m s = .ok a s₁ ∧ f a s₁ = .ok r s' := by
  have h' : EStateM.bind m f s = .ok r s' := h
  unfold EStateM.bind at h'
  cases hm : m s with
  | ok a s₁ =>
    rw [hm] at h'
    exact ⟨a, s₁, rfl, h'⟩
  | error e s₁ =>
    rw [hm] at h'
    cases h'

theorem lift_ok_inv {α : Type} {op : Op α} {s s' : State} {a : α} (h : lift op s = .ok a s') :
    op s = .ok a s' := by
  unfold lift at h
  cases hop : op s with
  | ok a' s₁ =>
    rw [hop] at h
    cases h
    rfl
  | error e s₁ =>
    rw [hop] at h
    cases h

/-- A word that the buffer holds is read. -/
theorem readValue_holds {n v p : Nat} (h : Holds b.memory p (leBytes n v)) (hv : v < 256 ^ n)
    (hend : p + n ≤ b.len) (acc : List (Nat × Nat)) :
    readValue b n ⟨p, acc⟩ = .ok v ⟨p + n, acc ++ [(p, n)]⟩ := by
  have hlen := b.len_lt
  have hcan : CanRead b p n := (canRead_iff (by omega)).mpr hend
  have hword : word (p + n) = p + n := Nat.mod_eq_of_lt (by omega)
  rw [readValue_eq, if_pos hcan, readLE_of_holds h, Nat.mod_eq_of_lt hv, hword]

theorem readPtr_fits {size count p : Nat} (hend : p + size * count ≤ b.len)
    (acc : List (Nat × Nat)) :
    readPtr b size count ⟨p, acc⟩ =
      .ok p ⟨p + size * count, acc ++ [(p, size * count)]⟩ := by
  have hlen := b.len_lt
  have hword : word (size * count) = size * count := Nat.mod_eq_of_lt (by omega)
  have hcan : CanRead b p (size * count) := (canRead_iff (by omega)).mpr hend
  have hword' : word (p + size * count) = p + size * count := Nat.mod_eq_of_lt (by omega)
  unfold readPtr
  rw [hword, if_pos hcan, hword']

theorem readPtr_inv {size count pos : Nat} {s s' : State} (h : readPtr b size count s = .ok pos s')
    (hlt : s.pointer + size * count < 2 ^ 64) :
    pos = s.pointer ∧ s'.pointer = s.pointer + size * count ∧ s.pointer + size * count ≤ b.len := by
  have hword : word (size * count) = size * count := Nat.mod_eq_of_lt (by omega)
  unfold readPtr at h
  rw [hword] at h
  split at h
  · rename_i hcan
    cases h
    have hle := (canRead_iff hlt).mp hcan
    refine ⟨rfl, ?_, hle⟩
    show word (s.pointer + size * count) = _
    exact Nat.mod_eq_of_lt hlt
  · cases h

/-! ## Chunks -/

/-- The chunks, as they stand in a file. -/
def readRecords (chunks : List ReadChunk) : Data := chunks.flatMap fun c => record c.type c.data

theorem readChunks_ok {chunks : List ReadChunk}
    (hfits : ∀ c ∈ chunks, c.type < 2 ^ 32 ∧ c.data.length < 2 ^ 32) :
    ∀ (p : Nat) (acc : List (Nat × Nat)), Holds b.memory p (readRecords chunks) →
      p + (readRecords chunks).length ≤ b.len →
      ∃ acc', readChunks b chunks.length ⟨p, acc⟩ =
        .ok chunks ⟨p + (readRecords chunks).length, acc'⟩ := by
  induction chunks with
  | nil =>
    intro p acc _ _
    exact ⟨acc, rfl⟩
  | cons c cs ih =>
    intro p acc hholds hend
    obtain ⟨htype, hlength⟩ := hfits c List.mem_cons_self
    have hcons : readRecords (c :: cs) =
        leBytes 4 c.type ++ (leBytes 4 c.data.length ++ (c.data ++ readRecords cs)) := by
      simp only [readRecords, List.flatMap_cons, record, List.append_assoc]
    have hlen : (readRecords (c :: cs)).length =
        8 + c.data.length + (readRecords cs).length := by
      rw [hcons]
      simp only [List.length_append, length_leBytes]
      omega
    rw [hcons] at hholds
    have hsize := hholds.right.left
    have hdata := hholds.right.right.left
    have hrest := hholds.right.right.right
    simp only [length_leBytes] at hsize hdata hrest
    have h₁ := readValue_holds hholds.left (by omega) (by omega) acc
    have h₂ := readValue_holds hsize (by omega) (by omega) (acc ++ [(p, 4)])
    have hptr : p + 4 + 4 + 1 * c.data.length ≤ b.len := by omega
    have h₃ := readPtr_fits hptr (acc ++ [(p, 4)] ++ [(p + 4, 4)])
    rw [Nat.one_mul] at h₃
    obtain ⟨acc', hread⟩ := ih (fun d hd => hfits d (List.mem_cons_of_mem c hd))
      (p + 4 + 4 + c.data.length)
      (acc ++ [(p, 4)] ++ [(p + 4, 4)] ++ [(p + 4 + 4, c.data.length)]) hrest (by omega)
    refine ⟨acc', ?_⟩
    rw [List.length_cons, readChunks, lift_bind h₁, lift_bind h₂, lift_bind h₃]
    show EStateM.bind (readChunks b cs.length) _ _ = _
    unfold EStateM.bind
    rw [hread, slice_of_holds hdata, hlen,
      show p + 4 + 4 + c.data.length + (readRecords cs).length =
        p + (8 + c.data.length + (readRecords cs).length) by omega]
    rfl

/-- What was read as chunks stands in the buffer. -/
theorem readChunks_inv (n : Nat) : ∀ {p : Nat} {acc : List (Nat × Nat)} {chunks : List ReadChunk}
    {s : State}, readChunks b n ⟨p, acc⟩ = .ok chunks s → p + n * (8 + 2 ^ 32) < 2 ^ 64 →
    Holds b.memory p (readRecords chunks) ∧ s.pointer = p + (readRecords chunks).length := by
  induction n with
  | zero =>
    intro p acc chunks s h _
    cases h
    refine ⟨?_, rfl⟩
    intro i hi
    cases hi
  | succ n ih =>
    intro p acc chunks s h hlt
    rw [Nat.add_mul, Nat.one_mul] at hlt
    obtain ⟨type, s₁, h₁, h⟩ := bind_ok_inv h
    obtain ⟨size, s₂, h₂, h⟩ := bind_ok_inv h
    obtain ⟨pos, s₃, h₃, h⟩ := bind_ok_inv h
    obtain ⟨rest, s₄, h₄, h⟩ := bind_ok_inv h
    cases h
    obtain ⟨-, htype, rfl⟩ := readValue_ok b (lift_ok_inv h₁)
    obtain ⟨-, hsize, rfl⟩ := readValue_ok b (lift_ok_inv h₂)
    have hword : word (p + 4) = p + 4 := Nat.mod_eq_of_lt (by omega)
    have hword' : word (p + 4 + 4) = p + 4 + 4 := Nat.mod_eq_of_lt (by omega)
    dsimp only at htype hsize h₃
    rw [hword] at hsize h₃
    rw [hword'] at h₃
    have hsize_lt : size < 2 ^ 32 := by
      rw [hsize]
      exact Mem.readLE_lt b.memory (p + 4) 4
    obtain ⟨hpos, hptr, -⟩ := readPtr_inv (lift_ok_inv h₃) (by dsimp only; omega)
    dsimp only at hpos hptr
    rw [Nat.one_mul] at hptr
    subst hpos
    obtain ⟨p₃, acc₃⟩ := s₃
    dsimp only at hptr
    subst hptr
    obtain ⟨hrest, hend⟩ := ih h₄ (by omega)
    have hcons : readRecords (⟨type, slice b (p + 4 + 4) size⟩ :: rest) =
        leBytes 4 type ++ (leBytes 4 size ++ (slice b (p + 4 + 4) size ++ readRecords rest)) := by
      simp only [readRecords, List.flatMap_cons, record, List.append_assoc, length_slice]
    rw [hcons]
    constructor
    · apply holds_append (holds_leBytes htype.symm)
      rw [length_leBytes]
      apply holds_append (holds_leBytes hsize.symm)
      rw [length_leBytes]
      apply holds_append (holds_slice b _ size)
      rw [length_slice]
      exact hrest
    · rw [hend]
      simp only [List.length_append, length_leBytes, length_slice]
      omega

/-! ## Headers -/

/-- A chunk as it should be read. -/
def Chunk.read (c : Chunk) : ReadChunk := ⟨c.type.toNat, c.data⟩

theorem readRecords_read (chunks : List Chunk) :
    readRecords (chunks.map Chunk.read) = records chunks := by
  unfold readRecords records
  rw [List.flatMap_map]
  rfl

theorem length_records_le {chunks : List Chunk} (h : chunks.length ≤ maxChunks) :
    (records chunks).length ≤ maxChunks * (8 + 2 ^ 32) := by
  have hall : ∀ cs : List Chunk, (records cs).length ≤ cs.length * (8 + 2 ^ 32) := by
    intro cs
    induction cs with
    | nil => exact Nat.zero_le _
    | cons c cs ih =>
      have hc := c.length_lt
      show (record c.type.toNat c.data ++ records cs).length ≤ _
      rw [List.length_append, length_record, List.length_cons, Nat.add_mul]
      omega
  exact Nat.le_trans (hall chunks) (Nat.mul_le_mul_right _ h)

/-- The reader behind the magic and the count. -/
def readBody (sha : Sha256) (b : ByteBuffer) (secureInfo : Option TAFASecureInfo)
    (version : Version) (count : Nat) : Read (List ReadChunk) :=
  if count = 0 then return []
  else if count > maxChunks then throw (.tooManyChunks count)
  else do
    let chunks ← readChunks b count
    if version.magic = MAGIC_V2 then do
      readSignature sha b secureInfo version.magic count chunks
      return chunks
    else return chunks

theorem readHeader_eq {sha : Sha256} {secureInfo : Option TAFASecureInfo} {version : Version}
    {count : Nat} (hcount : count < 2 ^ 32) (h : Holds b.memory 0 (header version count))
    (hlen : 8 ≤ b.len) :
    ∃ acc, readHeader sha b secureInfo ⟨0, []⟩ =
      readBody sha b secureInfo version count ⟨8, acc⟩ := by
  have hmagic : version.magic < 256 ^ 4 := by cases version <;> decide
  have hknown : isFlexibleDataMagic version.magic = true := by cases version <;> rfl
  have hcount' : Holds b.memory 4 (leBytes 4 count) := by
    have hright := h.right
    rwa [length_leBytes, Nat.zero_add] at hright
  have h₁ : readValue b 4 ⟨0, []⟩ = .ok version.magic ⟨4, [(0, 4)]⟩ :=
    readValue_holds h.left hmagic (by omega) []
  have h₂ : readValue b 4 ⟨4, [(0, 4)]⟩ = .ok count ⟨8, [(0, 4), (4, 4)]⟩ :=
    readValue_holds hcount' hcount (by omega) [(0, 4)]
  refine ⟨[(0, 4), (4, 4)], ?_⟩
  unfold readHeader
  rw [lift_bind h₁, hknown, Bool.not_true, if_neg Bool.false_ne_true, lift_bind h₂]
  rfl

/-- The chunks read the same behind the signature as they would in front of it, and a valid
signature is what is left then. -/
structure Shifted (sha : Sha256) (chunks : List Chunk) (secureInfo : Option TAFASecureInfo) :
    Prop where
  nonempty : chunks ≠ []
  records : (signature sha .v2 chunks secureInfo ++ records chunks).take (records chunks).length =
    Flexible.records chunks
  magic : readLe 4 ((signature sha .v2 chunks secureInfo ++ Flexible.records chunks).drop
    (Flexible.records chunks).length) = MAGIC_V2
  hash : ∀ info, secureInfo = some info →
    ((signature sha .v2 chunks secureInfo ++ Flexible.records chunks).drop
      ((Flexible.records chunks).length + 4)).take 32 =
      sha.hash (hashedName info.fastfileName ++ header .v2 chunks.length ++ Flexible.records chunks)

/-- Reading gives the chunks, and stops at `pos`. -/
def Reads (sha : Sha256) (b : ByteBuffer) (secureInfo : Option TAFASecureInfo)
    (chunks : List Chunk) (pos : Nat) : Prop :=
  ∃ s, readHeader sha b secureInfo ⟨0, []⟩ = .ok (chunks.map Chunk.read) s ∧ s.pointer = pos

theorem length_signature (sha : Sha256) (chunks : List Chunk)
    (secureInfo : Option TAFASecureInfo) :
    (signature sha .v2 chunks secureInfo).length = signatureSize := by
  cases secureInfo with
  | none => exact List.length_replicate
  | some info =>
    simp only [signature, List.length_append, length_leBytes, sha.length_hash,
      List.length_replicate]
    rfl

/-- When the signature is read. -/
theorem readSignature_iff {sha : Sha256} {secureInfo : Option TAFASecureInfo} {count p : Nat}
    {chunks : List ReadChunk} {tail : Data} {acc : List (Nat × Nat)} {s : State}
    (htail : Holds b.memory p tail) (hlen : tail.length = signatureSize)
    (hend : p + signatureSize ≤ b.len) :
    readSignature sha b secureInfo MAGIC_V2 count chunks ⟨p, acc⟩ = .ok () s ↔
      s = ⟨p + signatureSize, acc ++ [(p, signatureSize)]⟩ ∧ readLe 4 tail = MAGIC_V2 ∧
      ∀ info, secureInfo = some info → (tail.drop 4).take 32 =
        sha.hash (hashedName info.fastfileName ++ header .v2 count ++ readRecords chunks) := by
  have hptr : readPtr b signatureSize 1 ⟨p, acc⟩ =
      .ok p ⟨p + signatureSize, acc ++ [(p, signatureSize)]⟩ := readPtr_fits hend acc
  have hmagic : slice b p 4 = tail.take 4 := by
    have hleft : Holds b.memory p (tail.take 4) := by
      rw [← List.take_append_drop 4 tail] at htail
      exact htail.left
    have hlen4 : (tail.take 4).length = 4 := by
      rw [List.length_take, hlen]
      rfl
    have h := slice_of_holds hleft
    rwa [hlen4] at h
  have hhash : slice b (p + 4) 32 = (tail.drop 4).take 32 := by
    have hright : Holds b.memory (p + 4) ((tail.drop 4).take 32) := by
      rw [← List.take_append_drop 4 tail, ← List.take_append_drop 32 (tail.drop 4)] at htail
      have h := htail.right.left
      rw [List.length_take, hlen] at h
      exact h
    have hlen32 : ((tail.drop 4).take 32).length = 32 := by
      rw [List.length_take, List.length_drop, hlen]
      rfl
    have h := slice_of_holds hright
    rwa [hlen32] at h
  unfold readSignature
  rw [lift_bind hptr]
  dsimp only
  rw [hmagic, readLe_take, hhash]
  by_cases hm : readLe 4 tail = MAGIC_V2
  · rw [if_neg (not_not_intro hm)]
    cases secureInfo with
    | none =>
      constructor
      · intro h
        cases h
        exact ⟨rfl, hm, fun info h => by cases h⟩
      · rintro ⟨rfl, -, -⟩
        rfl
    | some info =>
      dsimp only
      by_cases hash : sha.hash (hashedName info.fastfileName ++
          (leBytes 4 MAGIC_V2 ++ leBytes 4 count) ++ chunks.flatMap fun c => record c.type c.data) =
          (tail.drop 4).take 32
      · rw [if_neg (not_not_intro hash)]
        constructor
        · intro h
          cases h
          refine ⟨rfl, hm, ?_⟩
          intro info' hinfo
          cases hinfo
          exact hash.symm
        · rintro ⟨rfl, -, -⟩
          rfl
      · rw [if_pos hash]
        constructor
        · intro h
          cases h
        · rintro ⟨-, -, h⟩
          exact absurd (h info rfl).symm hash
  · rw [if_pos hm]
    constructor
    · intro h
      cases h
    · rintro ⟨-, h, -⟩
      exact absurd h hm

/-- A header without chunks is read up to its count. -/
theorem readBody_nil (sha : Sha256) (secureInfo : Option TAFASecureInfo) (version : Version)
    (s : State) : readBody sha b secureInfo version 0 s = .ok [] s := rfl

theorem readBody_v1 {sha : Sha256} {secureInfo : Option TAFASecureInfo} {count : Nat}
    (hcount : count ≤ maxChunks) (s : State) :
    readBody sha b secureInfo .v1 count s = readChunks b count s := by
  unfold readBody
  by_cases h0 : count = 0
  · subst h0
    rfl
  · have hmagic : Version.v1.magic ≠ MAGIC_V2 := by decide
    rw [if_neg h0, if_neg (by omega)]
    show EStateM.bind (readChunks b count) _ s = _
    unfold EStateM.bind
    cases readChunks b count s with
    | ok chunks s' =>
      dsimp only
      rw [if_neg hmagic]
      rfl
    | error e s' => rfl

theorem readBody_v2 {sha : Sha256} {secureInfo : Option TAFASecureInfo} {count : Nat}
    (h0 : count ≠ 0) (hcount : count ≤ maxChunks) {s s' : State} {chunks : List ReadChunk} :
    readBody sha b secureInfo .v2 count s = .ok chunks s' ↔
      ∃ s₁, readChunks b count s = .ok chunks s₁ ∧
        readSignature sha b secureInfo MAGIC_V2 count chunks s₁ = .ok () s' := by
  have hmagic : Version.v2.magic = MAGIC_V2 := rfl
  unfold readBody
  rw [if_neg h0, if_neg (by omega)]
  constructor
  · intro h
    obtain ⟨cs, s₁, h₁, h⟩ := bind_ok_inv h
    rw [if_pos hmagic] at h
    obtain ⟨u, s₂, h₂, h⟩ := bind_ok_inv h
    cases h
    exact ⟨s₁, h₁, h₂⟩
  · rintro ⟨s₁, h₁, h₂⟩
    show EStateM.bind (readChunks b count) _ s = _
    unfold EStateM.bind
    rw [h₁]
    dsimp only
    rw [if_pos hmagic]
    show EStateM.bind (readSignature sha b secureInfo MAGIC_V2 count chunks) _ s₁ = _
    unfold EStateM.bind
    rw [h₂]
    rfl

/-- The second version. -/
theorem reads_v2_iff {sha : Sha256} {secureInfo : Option TAFASecureInfo} {chunks : List Chunk}
    (hcount : chunks.length ≤ maxChunks)
    (hholds : Holds b.memory 0 (header .v2 chunks.length ++
      signature sha .v2 chunks secureInfo ++ records chunks))
    (hend : 8 + signatureSize + (records chunks).length ≤ b.len) :
    Reads sha b secureInfo chunks (8 + signatureSize + (records chunks).length) ↔
      Shifted sha chunks secureInfo := by
  have hmax : maxChunks = 0x10 := rfl
  have hsize : signatureSize = 0x124 := rfl
  have hrecords := length_records_le hcount
  have hsig := length_signature sha chunks secureInfo
  have hheader : Holds b.memory 0 (header .v2 chunks.length) := hholds.left.left
  have hlong : 8 ≤ b.len := by omega
  obtain ⟨acc, hread⟩ : ∃ acc, readHeader sha b secureInfo ⟨0, []⟩ =
      readBody sha b secureInfo .v2 chunks.length ⟨8, acc⟩ :=
    readHeader_eq (by omega) hheader hlong
  have hbody : Holds b.memory 8 (signature sha .v2 chunks secureInfo ++ records chunks) := by
    rw [List.append_assoc] at hholds
    have h := hholds.right
    rwa [length_header, Nat.zero_add] at h
  have hlen : (signature sha .v2 chunks secureInfo ++ records chunks).length =
      signatureSize + (records chunks).length := by
    rw [List.length_append, hsig]
  have hsplit := List.take_append_drop (records chunks).length
    (signature sha .v2 chunks secureInfo ++ records chunks)
  have hfront : ((signature sha .v2 chunks secureInfo ++ records chunks).take
      (records chunks).length).length = (records chunks).length := by
    rw [List.length_take, hlen]
    omega
  have htail : ((signature sha .v2 chunks secureInfo ++ records chunks).drop
      (records chunks).length).length = signatureSize := by
    rw [List.length_drop, hlen]
    omega
  have hdrop : ((signature sha .v2 chunks secureInfo ++ records chunks).drop
      (records chunks).length).drop 4 =
        (signature sha .v2 chunks secureInfo ++ records chunks).drop
          ((records chunks).length + 4) := List.drop_drop
  rw [← hsplit] at hbody
  have hback := hbody.right
  rw [hfront] at hback
  unfold Reads
  rw [hread]
  by_cases hnil : chunks = []
  · subst hnil
    constructor
    · rintro ⟨s, hs, hpos⟩
      cases hs
      have hzero : (records []).length = 0 := rfl
      rw [hzero] at hpos
      dsimp only at hpos
      omega
    · intro h
      exact absurd rfl h.nonempty
  · have hne : chunks.length ≠ 0 := fun h => hnil (List.eq_nil_of_length_eq_zero h)
    have hmap : (chunks.map Chunk.read).length = chunks.length := List.length_map _
    constructor
    · rintro ⟨s, hs, hpos⟩
      obtain ⟨⟨p₁, acc₁⟩, hchunks, hsign⟩ := (readBody_v2 hne hcount).mp hs
      obtain ⟨hstands, hptr⟩ := readChunks_inv _ hchunks (by omega)
      rw [readRecords_read] at hstands hptr
      dsimp only at hptr
      subst hptr
      obtain ⟨-, hmagic, hhash⟩ := (readSignature_iff hback htail (by omega)).mp hsign
      rw [readRecords_read, hdrop] at hhash
      exact ⟨hnil, holds_unique hbody.left hstands hfront, hmagic, hhash⟩
    · intro h
      have hstands : Holds b.memory 8 (readRecords (chunks.map Chunk.read)) := by
        have hleft := hbody.left
        rw [h.records] at hleft
        rwa [readRecords_read]
      have hfits : ∀ c ∈ chunks.map Chunk.read, c.type < 2 ^ 32 ∧ c.data.length < 2 ^ 32 := by
        intro c hc
        obtain ⟨c, -, rfl⟩ := List.mem_map.mp hc
        exact ⟨c.type.toNat_lt, c.length_lt⟩
      have hle : 8 + (readRecords (chunks.map Chunk.read)).length ≤ b.len := by
        rw [readRecords_read]
        omega
      obtain ⟨acc', hchunks⟩ := readChunks_ok hfits 8 acc hstands hle
      rw [readRecords_read, hmap] at hchunks
      refine ⟨⟨8 + (records chunks).length + signatureSize,
        acc' ++ [(8 + (records chunks).length, signatureSize)]⟩, ?_, ?_⟩
      · refine (readBody_v2 hne hcount).mpr ⟨_, hchunks, ?_⟩
        refine (readSignature_iff hback htail (by omega)).mpr ⟨rfl, h.magic, ?_⟩
        rw [readRecords_read, hdrop]
        exact h.hash
      · dsimp only
        omega

/-- The first version. -/
theorem reads_v1 {sha : Sha256} {secureInfo : Option TAFASecureInfo} {chunks : List Chunk}
    (hcount : chunks.length ≤ maxChunks)
    (hholds : Holds b.memory 0 (header .v1 chunks.length ++ records chunks))
    (hend : 8 + (records chunks).length ≤ b.len) :
    Reads sha b secureInfo chunks (8 + (records chunks).length) := by
  have hmax : maxChunks = 0x10 := rfl
  have hlong : 8 ≤ b.len := by omega
  obtain ⟨acc, hread⟩ : ∃ acc, readHeader sha b secureInfo ⟨0, []⟩ =
      readBody sha b secureInfo .v1 chunks.length ⟨8, acc⟩ :=
    readHeader_eq (by omega) hholds.left hlong
  have hstands : Holds b.memory 8 (readRecords (chunks.map Chunk.read)) := by
    have h := hholds.right
    rw [length_header, Nat.zero_add] at h
    rwa [readRecords_read]
  have hfits : ∀ c ∈ chunks.map Chunk.read, c.type < 2 ^ 32 ∧ c.data.length < 2 ^ 32 := by
    intro c hc
    obtain ⟨c, -, rfl⟩ := List.mem_map.mp hc
    exact ⟨c.type.toNat_lt, c.length_lt⟩
  have hle : 8 + (readRecords (chunks.map Chunk.read)).length ≤ b.len := by
    rwa [readRecords_read]
  obtain ⟨acc', hchunks⟩ := readChunks_ok hfits 8 acc hstands hle
  rw [readRecords_read, List.length_map] at hchunks
  refine ⟨⟨8 + (records chunks).length, acc'⟩, ?_, rfl⟩
  rw [hread, readBody_v1 hcount]
  exact hchunks

theorem write_ok {sha : Sha256} {version : Version} {chunks : List Chunk}
    {secureInfo : Option TAFASecureInfo} {out : Data}
    (h : write sha version chunks secureInfo = .ok out) :
    chunks.length ≤ maxChunks ∧ out = header version chunks.length ++
      signature sha version chunks secureInfo ++ records chunks := by
  rw [write_layout] at h
  split at h
  · rename_i hcount
    cases h
    exact ⟨hcount, rfl⟩
  · cases h

/-- **Reading a header back**: the first version gives its chunks and stops at the first byte behind
them; the second one, whose signature is written in front of the chunks and read behind them, only
if the chunks are the same so. -/
theorem reads_iff {sha : Sha256} {version : Version} {chunks : List Chunk}
    {secureInfo : Option TAFASecureInfo} {out : Data} {b : ByteBuffer}
    (h : write sha version chunks secureInfo = .ok out) (hholds : Holds b.memory 0 out)
    (hend : out.length ≤ b.len) :
    Reads sha b secureInfo chunks out.length ↔
      version = .v1 ∨ Shifted sha chunks secureInfo := by
  obtain ⟨hcount, rfl⟩ := write_ok h
  cases version with
  | v1 =>
    have hsig : signature sha .v1 chunks secureInfo = [] := by cases secureInfo <;> rfl
    have hlen : (header .v1 chunks.length ++ signature sha .v1 chunks secureInfo ++
        records chunks).length = 8 + (records chunks).length := by
      rw [hsig, List.append_nil, List.length_append, length_header]
    rw [hlen] at hend ⊢
    rw [hsig, List.append_nil] at hholds
    exact iff_of_true (reads_v1 hcount hholds hend) (.inl rfl)
  | v2 =>
    have hlen : (header .v2 chunks.length ++ signature sha .v2 chunks secureInfo ++
        records chunks).length = 8 + signatureSize + (records chunks).length := by
      rw [List.length_append, List.length_append, length_header, length_signature]
    rw [hlen] at hend ⊢
    rw [reads_v2_iff hcount hholds hend]
    constructor
    · exact .inr
    · rintro (h | h)
      · cases h
      · exact h

/-! ## One chunk -/

/-- The bytes of `data` and nothing else. -/
def bufferOf (data : Data) (h : data.length + 1 < 2 ^ 64) : ByteBuffer :=
  ⟨fun i => data.getD i 0, data.length, h⟩

theorem holds_bufferOf (data : Data) (h : data.length + 1 < 2 ^ 64) :
    Holds (bufferOf data h).memory 0 data := by
  intro i hi
  show data.getD (0 + i) 0 = data[i]
  rw [Nat.zero_add, List.getD_eq_getElem?_getD, List.getElem?_eq_getElem hi]
  rfl

/-- `ST_VERSION`, with nothing in it. -/
def versionChunk : Chunk := ⟨0x39CB44F1, [], by decide⟩

/-- A hash that the first version does not use. -/
def noHash : Sha256 := ⟨fun _ => List.replicate 32 0, fun _ => List.length_replicate⟩

theorem versionChunk_read :
    ∃ (out : Data) (b : ByteBuffer), write noHash .v1 [versionChunk] none = .ok out ∧
      Reads noHash b none [versionChunk] out.length := by
  have hwrite : write noHash .v1 [versionChunk] none =
      .ok (header .v1 1 ++ [] ++ records [versionChunk]) := by
    rw [write_layout]
    rfl
  refine ⟨_, bufferOf (header .v1 1 ++ [] ++ records [versionChunk]) (by decide), hwrite, ?_⟩
  exact (reads_iff hwrite (holds_bufferOf _ _) (Nat.le_refl _)).mpr (.inl rfl)

/-- The first chunk of such a header has the type that the signature starts with. -/
theorem shifted_type {sha : Sha256} {c : Chunk} {cs : List Chunk}
    {secureInfo : Option TAFASecureInfo} (h : Shifted sha (c :: cs) secureInfo) :
    c.type.toNat = readLe 4 (signature sha .v2 (c :: cs) secureInfo) := by
  have hsig := length_signature sha (c :: cs) secureInfo
  have hsize : signatureSize = 0x124 := rfl
  have hrecords : records (c :: cs) =
      leBytes 4 c.type.toNat ++ (leBytes 4 c.data.length ++ (c.data ++ records cs)) := by
    simp only [records, List.flatMap_cons, record, List.append_assoc]
  have htype : readLe 4 (records (c :: cs)) = c.type.toNat := by
    rw [hrecords, readLe_leBytes]
    exact Nat.mod_eq_of_lt c.type.toNat_lt
  have hlong : 4 ≤ (records (c :: cs)).length := by
    rw [hrecords, List.length_append, length_leBytes]
    omega
  rw [← htype, ← h.records, ← readLe_take, List.take_take, Nat.min_eq_left hlong,
    List.take_append_of_le_length (by omega), readLe_take]

/-- With any hash and any name, a chunk with a version does not read back from a header of the
second version. -/
theorem versionChunk_not_read :
    (∃ out, write noHash .v2 [versionChunk] none = .ok out) ∧
      ¬∃ sha secureInfo out b, write sha .v2 [versionChunk] secureInfo = .ok out ∧
        Holds b.memory 0 out ∧ out.length ≤ b.len ∧
        Reads sha b secureInfo [versionChunk] out.length := by
  constructor
  · exact ⟨_, (write_layout noHash .v2 [versionChunk] none).trans (if_pos (by decide))⟩
  · rintro ⟨sha, secureInfo, out, b, hwrite, hholds, hend, hreads⟩
    obtain ⟨hcount, rfl⟩ := write_ok hwrite
    have hlen : (header .v2 1 ++ signature sha .v2 [versionChunk] secureInfo ++
        records [versionChunk]).length = 8 + signatureSize + (records [versionChunk]).length := by
      rw [List.length_append, List.length_append, length_header, length_signature]
    have hshifted : Shifted sha [versionChunk] secureInfo := by
      apply (reads_v2_iff hcount hholds (Nat.le_trans (Nat.le_of_eq hlen.symm) hend)).mp
      rw [← hlen]
      exact hreads
    have htype := shifted_type hshifted
    cases secureInfo with
    | none =>
      have hzero : readLe 4 (signature sha .v2 [versionChunk] none) = 0 := by
        show readLe 4 (List.replicate signatureSize 0) = 0
        decide
      rw [hzero] at htype
      exact absurd htype (by decide)
    | some info =>
      have hmagic : readLe 4 (signature sha .v2 [versionChunk] (some info)) = MAGIC_V2 := by
        simp only [signature, List.append_assoc]
        exact readLe_leBytes 4 MAGIC_V2 _
      rw [hmagic] at htype
      exact absurd htype (by decide)

end Acts.Fastfile.Flexible
