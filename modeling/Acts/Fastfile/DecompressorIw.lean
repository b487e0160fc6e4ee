import Acts.Lib.Bytes
import Acts.Lib.Compact
import Acts.Lib.Outcome

/-!
# Secure data of fastfiles (`decompressor_iw.cpp`)

A signed MW2019 file is a header, two hash blocks, and then chunks of `0x800000` bytes with a hash
block between each two of them; the first chunk starts with the magic of the data.

* `secureMw19`, `patchMw19` — from the search of the magic on, in a file and in a patch.
* `removeRsaBlocks` — the removal of the hash blocks inside the buffer.
* `dataOf` — the data without the hash blocks; `Chunked` — data with all of its blocks in place.
* `removes_hash_blocks` — **both leave exactly the chunks**, whatever the length of the data.

`remaining` and `canRead` do not wrap: a buffer has fewer than `2 ^ 63` bytes.
-/

set_option autoImplicit false

namespace Acts.DecompressorIw

/-! ## The reader -/

/-- A `ByteBuffer`. -/
structure Reader where
  buffer : List UInt8
  pointer : Nat

inductive Fault
  | hang
  | readingPointer (loc size len : Nat)
  | reading (loc size : Nat) (atEnd : Bool)
  | gotoAfterEnd (loc len : Nat)
  | cantFindIwc
  | invalidStored (remaining expected : Nat)
  | invalidIwc (loc : Nat)

abbrev ReadM := EStateM Fault Reader

def CanRead (s : Reader) (size : Nat) : Prop := s.pointer + size ≤ s.buffer.length

instance (s : Reader) (size : Nat) : Decidable (CanRead s size) :=
  inferInstanceAs (Decidable (_ ≤ _))

def canRead (size : Nat) : ReadM Bool := fun s => .ok (decide (CanRead s size)) s

def remaining : ReadM Nat := fun s => .ok (s.buffer.length - s.pointer) s

def loc : ReadM Nat := fun s => .ok s.pointer s

/-- `*Ptr<uint32_t>()` at an offset. -/
def wordAt (buffer : List UInt8) (i : Nat) : Nat := readLe 4 (buffer.drop i)

def ptrWord : ReadM Nat := fun s => .ok (wordAt s.buffer s.pointer) s

def readImpl (size : Nat) : ReadM Unit := fun s =>
  if CanRead s size then .ok () { s with pointer := s.pointer + size }
  else .error (.readingPointer s.pointer size s.buffer.length) s

/-- `Skip`, in steps of its local buffer. -/
def skip (tor : Nat) : ReadM Unit :=
  if tor = 0 then pure ()
  else do
    readImpl (min 0x400 tor)
    skip (tor - min 0x400 tor)
termination_by tor
decreasing_by omega

def goto (pos : Nat) : ReadM Unit := fun s =>
  if pos > s.buffer.length then .error (.gotoAfterEnd pos s.buffer.length) s
  else .ok () { s with pointer := pos }

/-- `Read<uint32_t>()`. -/
def readWord : ReadM Nat := fun s =>
  if CanRead s 4 then .ok (wordAt s.buffer s.pointer) { s with pointer := s.pointer + 4 }
  else .error (.reading s.pointer 4 (decide (s.pointer ≥ s.buffer.length))) s

/-- `ReadPtr<byte>`. -/
def readPtr (size : Nat) : ReadM Nat := fun s =>
  if CanRead s size then .ok s.pointer { s with pointer := s.pointer + size }
  else .error (.reading s.pointer size (decide (s.pointer ≥ s.buffer.length))) s

structure XBlockCompressDataHeader where
  unk0 : Nat := 0
  unk4 : Nat := 0
  unk5 : Nat := 0
  unk6 : Nat := 0
  compression : Nat := 0
  deriving DecidableEq, Repr

def readCompressDataHeader : ReadM XBlockCompressDataHeader := do
  let pos ← loc
  readImpl 8
  let s ← get
  let byte := fun i => readLe 1 (s.buffer.drop (pos + i))
  pure ⟨wordAt s.buffer pos, byte 4, byte 5, byte 6, byte 7⟩

/-! ## The removal -/

def secureChunkSize : Nat := 0x800000
def rsaBlockSize : Nat := 0x4000

/-- `0x43574901`, before data that is stored, and `0x43574902`. -/
def storedMagic : Nat := 0x43574901
def iwcMagic : Nat := 0x43574902

/-- The magic of a hash block. -/
def rsaMagic : Nat := 0x66665749

/-- The search of the magic, for a number of turns. -/
def findIwc (isIwc : Nat → Bool) : Nat → ReadM (Option Nat)
  | 0 => throw .hang
  | turns + 1 => do
    if ← canRead 4 then
      let iwc ← ptrWord
      if isIwc iwc then pure (some iwc)
      else do
        skip 1
        findIwc isIwc turns
    else pure none

/-- The loop over the chunks behind the first one, for a number of turns; `patchData` is where the
next one goes. -/
def patchChunks : Nat → Nat → ReadM Nat
  | 0, _ => throw .hang
  | turns + 1, patchData => do
    if ← canRead 1 then
      let left ← remaining
      let chunkSize := min secureChunkSize left
      let chunk ← readPtr chunkSize
      modify fun s => { s with buffer := memmove s.buffer patchData chunk chunkSize }
      let more ← canRead rsaBlockSize
      if chunkSize = secureChunkSize ∧ more then skip rsaBlockSize
      patchChunks turns (patchData + chunkSize)
    else pure patchData

/-- The removal of the hash blocks of data whose magic is at `rsaEnd`; whether there are any. -/
def removeRsaBlocks (rsaEnd : Nat) : ReadM Bool := do
  if rsaEnd > rsaBlockSize * 2 then
    goto (rsaEnd - rsaBlockSize * 2)
    if (← readWord) = rsaMagic then
      skip 0x7ffc
      if (← readWord) ≠ iwcMagic then throw (.invalidIwc (← loc))
      let dataStart := (← loc) + 4
      goto (dataStart - 8)
      let patchData ← loc
      if ← canRead (secureChunkSize + rsaBlockSize) then
        skip (secureChunkSize + rsaBlockSize)
        let turns ← remaining
        let newSize ← patchChunks (turns + 1) (patchData + secureChunkSize)
        goto 0
        modify fun s => ⟨s.buffer.take newSize, 0⟩
      pure true
    else pure false
  else pure false

/-- What is known of the data of a file. -/
structure Mw19Data where
  secure : Bool
  storedIwc : Bool
  compressDataHeader : XBlockCompressDataHeader
  deriving DecidableEq, Repr

/-- The case `ST_MW19` of a file; `endSize` is the size in its header. -/
def secureMw19 (endSize : Nat) : ReadM Mw19Data := do
  let turns ← remaining
  match ← findIwc (fun iwc => iwc == storedMagic || iwc == iwcMagic) (turns + 1) with
  | none => throw .cantFindIwc
  | some iwc => do
    let rsaEnd ← loc
    if iwc = storedMagic then do
      goto (rsaEnd + 4)
      let left ← remaining
      if endSize = 2 ^ 64 - 1 ∨ left ≠ endSize then throw (.invalidStored left endSize)
      else pure ⟨false, true, {}⟩
    else do
      let secure ← removeRsaBlocks rsaEnd
      goto (rsaEnd + 4)
      let header ← readCompressDataHeader
      pure ⟨secure, false, header⟩

/-- The case `IWFV_MW19` of a patch. -/
def patchMw19 : ReadM Mw19Data := do
  let turns ← remaining
  match ← findIwc (fun iwc => iwc == iwcMagic) (turns + 1) with
  | none => throw .cantFindIwc
  | some _ => do
    let rsaEnd ← loc
    let secure ← removeRsaBlocks rsaEnd
    goto (rsaEnd + 4)
    let header ← readCompressDataHeader
    pure ⟨secure, false, header⟩

/-! ## Reads -/

variable {s : Reader} {rsaEnd size : Nat}

theorem skip_eq (h : CanRead s size) :
    skip size s = .ok () { s with pointer := s.pointer + size } := by
  induction size using Nat.strongRecOn generalizing s with
  | ind size ih =>
    unfold CanRead at h
    unfold skip
    by_cases hzero : size = 0
    · subst hzero
      rfl
    · have hstep : readImpl (min 0x400 size) s =
          .ok () { s with pointer := s.pointer + min 0x400 size } :=
        if_pos (show s.pointer + min 0x400 size ≤ s.buffer.length by omega)
      rw [if_neg hzero, bind_ok hstep, ih (size - min 0x400 size) (by omega)]
      · simp only [EStateM.Result.ok.injEq, true_and, Reader.mk.injEq]
        omega
      · show s.pointer + min 0x400 size + (size - min 0x400 size) ≤ s.buffer.length
        omega

theorem goto_eq {pos : Nat} (h : pos ≤ s.buffer.length) :
    goto pos s = .ok () { s with pointer := pos } := if_neg (Nat.not_lt.mpr h)

theorem readWord_eq (h : CanRead s 4) : readWord s =
    .ok (wordAt s.buffer s.pointer) { s with pointer := s.pointer + 4 } := if_pos h

theorem readPtr_eq (h : CanRead s size) :
    readPtr size s = .ok s.pointer { s with pointer := s.pointer + size } := if_pos h

theorem canRead_true (h : CanRead s size) : canRead size s = .ok true s := by
  unfold canRead
  rw [decide_eq_true h]

theorem canRead_false (h : ¬CanRead s size) : canRead size s = .ok false s := by
  unfold canRead
  rw [decide_eq_false h]

/-- The search stops at the first magic. -/
theorem findIwc_eq {isIwc : Nat → Bool} {turns : Nat} (hle : s.pointer ≤ rsaEnd)
    (hturns : rsaEnd - s.pointer < turns) (hfits : rsaEnd + 4 ≤ s.buffer.length)
    (hbefore : ∀ i, s.pointer ≤ i → i < rsaEnd → isIwc (wordAt s.buffer i) = false)
    (hiwc : isIwc (wordAt s.buffer rsaEnd) = true) :
    findIwc isIwc turns s = .ok (some (wordAt s.buffer rsaEnd)) ⟨s.buffer, rsaEnd⟩ := by
  induction turns generalizing s with
  | zero => omega
  | succ turns ih =>
    have hread : canRead 4 s = .ok true s :=
      canRead_true (show s.pointer + 4 ≤ s.buffer.length by omega)
    unfold findIwc
    rw [bind_ok hread, if_pos rfl]
    have hword : ptrWord s = .ok (wordAt s.buffer s.pointer) s := rfl
    rw [bind_ok hword]
    by_cases heq : s.pointer = rsaEnd
    · subst heq
      rw [if_pos hiwc]
      rfl
    · have hskip : skip 1 s = .ok () { s with pointer := s.pointer + 1 } :=
        skip_eq (show s.pointer + 1 ≤ s.buffer.length by omega)
      rw [hbefore s.pointer (Nat.le_refl _) (by omega), if_neg Bool.false_ne_true, bind_ok hskip]
      exact ih (by show s.pointer + 1 ≤ rsaEnd; omega) (by show rsaEnd - (s.pointer + 1) < turns; omega)
        hfits (fun i hi => hbefore i (by have : s.pointer + 1 ≤ i := hi; omega)) hiwc

/-! ## The data without the hash blocks -/

/-- The data: a chunk before each whole hash block, and the rest. -/
def dataOf (data : List UInt8) : List UInt8 :=
  if data.length < secureChunkSize + rsaBlockSize then data
  else data.take secureChunkSize ++ dataOf (data.drop (secureChunkSize + rsaBlockSize))
termination_by data.length
decreasing_by
  rename_i h
  rw [List.length_drop]
  unfold secureChunkSize rsaBlockSize at *
  omega

/-- Chunks with a hash block between each two of them; the last one may be shorter. -/
inductive Chunked : List UInt8 → List (List UInt8) → Prop
  | last (chunk : List UInt8) (h : chunk.length ≤ secureChunkSize) : Chunked chunk [chunk]
  | next (chunk block : List UInt8) {data : List UInt8} {chunks : List (List UInt8)}
      (hchunk : chunk.length = secureChunkSize) (hblock : block.length = rsaBlockSize)
      (h : Chunked data chunks) : Chunked (chunk ++ block ++ data) (chunk :: chunks)

theorem dataOf_short {data : List UInt8} (h : data.length < secureChunkSize + rsaBlockSize) :
    dataOf data = data := by
  unfold dataOf
  exact if_pos h

theorem dataOf_long {data : List UInt8} (h : secureChunkSize + rsaBlockSize ≤ data.length) :
    dataOf data =
      data.take secureChunkSize ++ dataOf (data.drop (secureChunkSize + rsaBlockSize)) := by
  rw [dataOf]
  exact if_neg (Nat.not_lt.mpr h)

/-- Where all blocks are in place, that is the chunks. -/
theorem Chunked.dataOf_eq {data : List UInt8} {chunks : List (List UInt8)}
    (h : Chunked data chunks) : dataOf data = chunks.flatten := by
  induction h with
  | last chunk h =>
    rw [dataOf_short (by unfold rsaBlockSize; omega), List.flatten_singleton]
  | @next chunk block data chunks hchunk hblock _ ih =>
    have hlen : (chunk ++ block).length = secureChunkSize + rsaBlockSize := by
      rw [List.length_append, hchunk, hblock]
    rw [dataOf_long (by rw [List.length_append, hlen]; omega), ← hlen, List.drop_left, ih,
      List.append_assoc, ← hchunk, List.take_left, List.flatten_cons]

/-- A chunk that no whole hash block follows is the rest, or is followed by it. -/
theorem dataOf_rest {data : List UInt8} (h : data.length < secureChunkSize + rsaBlockSize) (n : Nat) :
    data.take n ++ dataOf (data.drop n) = dataOf data := by
  rw [dataOf_short h, dataOf_short (by rw [List.length_drop]; omega), List.take_append_drop]

/-! ## The removal in place -/

/-- The loop keeps the data of the rest. -/
theorem patchChunks_spec {turns : Nat} {orig kept : List UInt8}
    (h : Compacted orig s.buffer kept s.pointer) (hle : s.pointer ≤ orig.length)
    (hturns : orig.length - s.pointer < turns) :
    ∃ buffer, patchChunks turns kept.length s =
        .ok (kept ++ dataOf (orig.drop s.pointer)).length ⟨buffer, orig.length⟩ ∧
      Compacted orig buffer (kept ++ dataOf (orig.drop s.pointer)) orig.length := by
  induction turns generalizing s kept with
  | zero => omega
  | succ turns ih =>
    have hlen := h.length
    unfold patchChunks
    by_cases hend : s.pointer = orig.length
    · have hread : ¬CanRead s 1 := by
        unfold CanRead
        omega
      have hnil : dataOf (orig.drop s.pointer) = [] := by
        rw [hend, List.drop_length, dataOf_short (by decide)]
      rw [bind_ok (canRead_false hread), if_neg Bool.false_ne_true, hnil, List.append_nil, ← hend]
      exact ⟨s.buffer, rfl, h⟩
    · have hread : CanRead s 1 := by
        unfold CanRead
        omega
      rw [bind_ok (canRead_true hread), if_pos rfl]
      have hleft : remaining s = .ok (s.buffer.length - s.pointer) s := rfl
      rw [bind_ok hleft]
      dsimp only
      obtain ⟨n, hn⟩ : ∃ n, n = min secureChunkSize (s.buffer.length - s.pointer) := ⟨_, rfl⟩
      have hpos : 0 < secureChunkSize := by decide
      have hptr : CanRead s n := by
        unfold CanRead
        omega
      have hmove := h.move (n := n) (by omega)
      have hkept : (kept ++ (orig.drop s.pointer).take n).length = kept.length + n := by
        rw [List.length_append, List.length_take, List.length_drop]
        omega
      have hrest : (orig.drop s.pointer).length = s.buffer.length - s.pointer := by
        rw [List.length_drop, hlen]
      rw [← hn, bind_ok (readPtr_eq hptr), modify_bind]
      by_cases hmore : n = secureChunkSize ∧
          CanRead ⟨memmove s.buffer kept.length s.pointer n, s.pointer + n⟩ rsaBlockSize
      · obtain ⟨hfull, hblock⟩ := hmore
        have hend' : s.pointer + n + rsaBlockSize ≤ orig.length := by
          unfold CanRead at hblock
          rwa [hmove.length] at hblock
        have hlong : secureChunkSize + rsaBlockSize ≤ (orig.drop s.pointer).length := by omega
        have hall : (kept ++ (orig.drop s.pointer).take n) ++
            dataOf (orig.drop (s.pointer + n + rsaBlockSize)) =
              kept ++ dataOf (orig.drop s.pointer) := by
          rw [dataOf_long hlong, List.drop_drop, hfull, List.append_assoc, Nat.add_assoc]
        rw [bind_ok (canRead_true hblock), if_pos ⟨hfull, rfl⟩, bind_ok (skip_eq hblock), ← hkept,
          ← hall]
        exact ih (hmove.skip rsaBlockSize) hend' (by
          show orig.length - (s.pointer + n + rsaBlockSize) < turns
          omega)
      · have hshort : (orig.drop s.pointer).length < secureChunkSize + rsaBlockSize := by
          by_contra hlong
          refine hmore ⟨by omega, ?_⟩
          unfold CanRead
          rw [hmove.length]
          show s.pointer + n + rsaBlockSize ≤ orig.length
          omega
        have hall : (kept ++ (orig.drop s.pointer).take n) ++ dataOf (orig.drop (s.pointer + n)) =
            kept ++ dataOf (orig.drop s.pointer) := by
          rw [List.append_assoc, ← List.drop_drop, dataOf_rest hshort]
        let moved : Reader := ⟨memmove s.buffer kept.length s.pointer n, s.pointer + n⟩
        obtain ⟨buffer, hrun, hcompact⟩ := ih (s := moved) hmove
          (show s.pointer + n ≤ orig.length by omega)
          (show orig.length - (s.pointer + n) < turns by omega)
        rw [hkept] at hrun
        rw [← hall]
        refine ⟨buffer, ?_, hcompact⟩
        have hblock : canRead rsaBlockSize moved =
            .ok (decide (CanRead moved rsaBlockSize)) moved := rfl
        rw [bind_ok hblock, if_neg (by simpa using hmore)]
        exact hrun

/-- Where the hash blocks in front are: the magic of the data is found at `rsaEnd`, behind two of
them. -/
structure HashBlocks (s : Reader) (rsaEnd : Nat) : Prop where
  le : s.pointer ≤ rsaEnd
  before : ∀ i, s.pointer ≤ i → i < rsaEnd →
    wordAt s.buffer i ≠ storedMagic ∧ wordAt s.buffer i ≠ iwcMagic
  iwc : wordAt s.buffer rsaEnd = iwcMagic
  fits : rsaEnd + 4 ≤ s.buffer.length
  room : rsaBlockSize * 2 < rsaEnd
  magic : wordAt s.buffer (rsaEnd - rsaBlockSize * 2) = rsaMagic

theorem removeRsaBlocks_spec (h : HashBlocks s rsaEnd) (pos : Nat) :
    ∃ pos', removeRsaBlocks rsaEnd ⟨s.buffer, pos⟩ =
      .ok true ⟨s.buffer.take rsaEnd ++ dataOf (s.buffer.drop rsaEnd), pos'⟩ := by
  obtain ⟨-, -, hiwc, hfits, hroom, hmagic⟩ := h
  have hblock : rsaBlockSize * 2 = 0x8000 := rfl
  obtain ⟨start, hstart⟩ : ∃ start, start = rsaEnd - rsaBlockSize * 2 := ⟨_, rfl⟩
  have hgoto : goto (rsaEnd - rsaBlockSize * 2) ⟨s.buffer, pos⟩ = .ok () ⟨s.buffer, start⟩ := by
    rw [hstart]
    exact goto_eq (show rsaEnd - rsaBlockSize * 2 ≤ s.buffer.length by omega)
  have hread : readWord ⟨s.buffer, start⟩ = .ok rsaMagic ⟨s.buffer, start + 4⟩ := by
    rw [readWord_eq (s := ⟨s.buffer, start⟩) (show start + 4 ≤ s.buffer.length by omega), ← hmagic,
      ← hstart]
  have hskip : skip 0x7ffc ⟨s.buffer, start + 4⟩ = .ok () ⟨s.buffer, rsaEnd⟩ := by
    rw [skip_eq (s := ⟨s.buffer, start + 4⟩) (show start + 4 + 0x7ffc ≤ s.buffer.length by omega)]
    simp only [EStateM.Result.ok.injEq, true_and, Reader.mk.injEq]
    omega
  have hread' : readWord ⟨s.buffer, rsaEnd⟩ = .ok iwcMagic ⟨s.buffer, rsaEnd + 4⟩ := by
    rw [readWord_eq (s := ⟨s.buffer, rsaEnd⟩) hfits, ← hiwc]
  have hloc : loc ⟨s.buffer, rsaEnd + 4⟩ = .ok (rsaEnd + 4) ⟨s.buffer, rsaEnd + 4⟩ := rfl
  have hback : goto (rsaEnd + 4 + 4 - 8) ⟨s.buffer, rsaEnd + 4⟩ = .ok () ⟨s.buffer, rsaEnd⟩ :=
    goto_eq (show rsaEnd ≤ s.buffer.length by omega)
  have hloc' : loc ⟨s.buffer, rsaEnd⟩ = .ok rsaEnd ⟨s.buffer, rsaEnd⟩ := rfl
  unfold removeRsaBlocks
  rw [if_pos hroom, bind_ok hgoto, bind_ok hread, if_pos rfl, bind_ok hskip, bind_ok hread',
    if_neg (not_not_intro rfl)]
  show ∃ pos', (loc >>= fun d => goto (d + 4 - 8) >>= fun _ => loc >>= fun patchData =>
    canRead (secureChunkSize + rsaBlockSize) >>= fun more => _) ⟨s.buffer, rsaEnd + 4⟩ = _
  rw [bind_ok hloc, bind_ok hback, bind_ok hloc']
  have hlen : (s.buffer.drop rsaEnd).length = s.buffer.length - rsaEnd := List.length_drop
  by_cases hlong : CanRead ⟨s.buffer, rsaEnd⟩ (secureChunkSize + rsaBlockSize)
  · have hle : rsaEnd + (secureChunkSize + rsaBlockSize) ≤ s.buffer.length := hlong
    have hkept : (s.buffer.take (rsaEnd + secureChunkSize)).length = rsaEnd + secureChunkSize := by
      rw [List.length_take]
      exact Nat.min_eq_left (Nat.le_trans (Nat.add_le_add_left (Nat.le_add_right _ _) _) hle)
    have hstart : Compacted s.buffer s.buffer (s.buffer.take (rsaEnd + secureChunkSize))
        (rsaEnd + (secureChunkSize + rsaBlockSize)) := by
      rw [← Nat.add_assoc]
      exact (Compacted.start (by omega)).skip rsaBlockSize
    let first : Reader := ⟨s.buffer, rsaEnd + (secureChunkSize + rsaBlockSize)⟩
    obtain ⟨buffer, hrun, hcompact⟩ := patchChunks_spec (s := first) hstart hlong
      (Nat.lt_succ_self _)
    have hall : s.buffer.take (rsaEnd + secureChunkSize) ++
        dataOf (s.buffer.drop (rsaEnd + (secureChunkSize + rsaBlockSize))) =
          s.buffer.take rsaEnd ++ dataOf (s.buffer.drop rsaEnd) := by
      have hmore : secureChunkSize + rsaBlockSize ≤ (s.buffer.drop rsaEnd).length := by omega
      rw [dataOf_long hmore, List.drop_drop, List.take_add, List.append_assoc]
    have hleft : remaining first = .ok (s.buffer.length - first.pointer) first := rfl
    have hzero : goto 0 ⟨buffer, s.buffer.length⟩ = .ok () ⟨buffer, 0⟩ := goto_eq (Nat.zero_le _)
    rw [hkept, hall] at hrun
    rw [hall] at hcompact
    have hskip' : skip (secureChunkSize + rsaBlockSize) ⟨s.buffer, rsaEnd⟩ = .ok () first :=
      skip_eq (s := ⟨s.buffer, rsaEnd⟩) hlong
    rw [bind_ok (canRead_true hlong), if_pos rfl]
    refine ⟨0, ?_⟩
    show (skip _ >>= fun _ => remaining >>= fun turns =>
      patchChunks (turns + 1) (rsaEnd + secureChunkSize) >>= fun newSize => goto 0 >>= fun _ =>
        modify (fun s => ⟨s.buffer.take newSize, 0⟩) >>= fun _ => pure true) _ = _
    rw [bind_ok hskip', bind_ok hleft, bind_ok hrun, bind_ok hzero, modify_bind, hcompact.take]
    rfl
  · have hshort : (s.buffer.drop rsaEnd).length < secureChunkSize + rsaBlockSize := by
      have hlt : ¬rsaEnd + (secureChunkSize + rsaBlockSize) ≤ s.buffer.length := hlong
      omega
    rw [bind_ok (canRead_false hlong), if_neg Bool.false_ne_true, dataOf_short hshort,
      List.take_append_drop]
    exact ⟨rsaEnd, rfl⟩

/-! ## Files and patches -/

theorem readCompressDataHeader_eq (s : Reader) :
    (∃ header, readCompressDataHeader s = .ok header { s with pointer := s.pointer + 8 }) ∨
      ∃ fault, readCompressDataHeader s = .error fault s := by
  have hloc : loc s = .ok s.pointer s := rfl
  unfold readCompressDataHeader
  rw [bind_ok hloc]
  by_cases hread : CanRead s 8
  · have hok : readImpl 8 s = .ok () { s with pointer := s.pointer + 8 } := if_pos hread
    rw [bind_ok hok]
    exact .inl ⟨_, rfl⟩
  · have herror : readImpl 8 s = .error (.readingPointer s.pointer 8 s.buffer.length) s :=
      if_neg hread
    rw [bind_error herror]
    exact .inr ⟨_, rfl⟩

/-- The end of both cases: the header of the data behind its magic. -/
theorem readHeader_ends {buffer : List UInt8} {pos : Nat} (h : rsaEnd + 4 ≤ buffer.length) :
    Ends (do
        goto (rsaEnd + 4)
        let header ← readCompressDataHeader
        pure (⟨true, false, header⟩ : Mw19Data)) ⟨buffer, pos⟩
      (fun out s' => out.secure = true ∧ out.storedIwc = false ∧ s' = ⟨buffer, rsaEnd + 12⟩)
      (fun s' => s' = ⟨buffer, rsaEnd + 4⟩) := by
  have hgoto : goto (rsaEnd + 4) ⟨buffer, pos⟩ = .ok () ⟨buffer, rsaEnd + 4⟩ := goto_eq h
  unfold Ends
  rw [bind_ok hgoto]
  rcases readCompressDataHeader_eq ⟨buffer, rsaEnd + 4⟩ with ⟨header, hread⟩ | ⟨fault, hread⟩
  · rw [bind_ok hread]
    exact ⟨rfl, rfl, rfl⟩
  · rw [bind_error hread]

/-- The first chunk holds the magic of the data. -/
theorem Chunked.length_ge {data : List UInt8} {chunks : List (List UInt8)} (h : Chunked data chunks)
    (hlen : 4 ≤ data.length) : 4 ≤ chunks.flatten.length := by
  cases h with
  | last chunk h => simpa using hlen
  | next chunk block hchunk hblock h =>
    have : 4 ≤ secureChunkSize := by decide
    rw [List.flatten_cons, List.length_append, hchunk]
    omega

/-- **The hash blocks are removed.**  For data of any length with its blocks in place, a file and a
patch do the same: the buffer ends up as the chunks behind the first two hash blocks. -/
theorem removes_hash_blocks (endSize : Nat) (h : HashBlocks s rsaEnd)
    {chunks : List (List UInt8)} (hchunks : Chunked (s.buffer.drop rsaEnd) chunks) :
    secureMw19 endSize s = patchMw19 s ∧
      Ends patchMw19 s
        (fun out s' => out.secure = true ∧ out.storedIwc = false ∧
          s' = ⟨s.buffer.take rsaEnd ++ chunks.flatten, rsaEnd + 12⟩)
        (fun s' => s' = ⟨s.buffer.take rsaEnd ++ chunks.flatten, rsaEnd + 4⟩) := by
  obtain ⟨pos, hremove⟩ := removeRsaBlocks_spec h rsaEnd
  rw [hchunks.dataOf_eq] at hremove
  have hfits := h.fits
  have hlong : rsaEnd + 4 ≤ (s.buffer.take rsaEnd ++ chunks.flatten).length := by
    have := hchunks.length_ge (by rw [List.length_drop]; omega)
    rw [List.length_append, List.length_take]
    omega
  have hne : iwcMagic ≠ storedMagic := by decide
  have hleft : remaining s = .ok (s.buffer.length - s.pointer) s := rfl
  have hloc : loc ⟨s.buffer, rsaEnd⟩ = .ok rsaEnd ⟨s.buffer, rsaEnd⟩ := rfl
  have hle := h.le
  have hfile : findIwc (fun iwc => iwc == storedMagic || iwc == iwcMagic)
      (s.buffer.length - s.pointer + 1) s = .ok (some iwcMagic) ⟨s.buffer, rsaEnd⟩ := by
    rw [← h.iwc]
    refine findIwc_eq hle (by omega) hfits (fun i hi hlt => ?_) (by rw [h.iwc]; rfl)
    simpa [h.iwc] using h.before i hi hlt
  have hpatch : findIwc (fun iwc => iwc == iwcMagic) (s.buffer.length - s.pointer + 1) s =
      .ok (some iwcMagic) ⟨s.buffer, rsaEnd⟩ := by
    rw [← h.iwc]
    refine findIwc_eq hle (by omega) hfits (fun i hi hlt => ?_) (by rw [h.iwc]; rfl)
    simpa [h.iwc] using (h.before i hi hlt).2
  have hpatched : patchMw19 s = (do
      goto (rsaEnd + 4)
      let header ← readCompressDataHeader
      pure (⟨true, false, header⟩ : Mw19Data))
        ⟨s.buffer.take rsaEnd ++ chunks.flatten, pos⟩ := by
    unfold patchMw19
    rw [bind_ok hleft, bind_ok hpatch]
    dsimp only
    rw [bind_ok hloc, bind_ok hremove]
  constructor
  · rw [hpatched]
    unfold secureMw19
    rw [bind_ok hleft, bind_ok hfile]
    dsimp only
    rw [bind_ok hloc, if_neg hne, bind_ok hremove]
  · unfold Ends
    rw [hpatched]
    exact readHeader_ends hlong

/-! ## Two chunks -/

/-- A header of one byte, and two hash blocks of zeros behind their magic. -/
def exampleFront : List UInt8 := 0 :: leBytes 4 rsaMagic ++ List.replicate 0x7ffc 0

def exampleChunk : List UInt8 := leBytes 4 iwcMagic ++ List.replicate (secureChunkSize - 4) 7

def exampleData : List UInt8 := exampleChunk ++ List.replicate rsaBlockSize 9 ++ [5]

theorem exampleFront_length : exampleFront.length = 0x8001 := by
  rw [exampleFront, List.cons_append, List.length_cons, List.length_append, length_leBytes,
    List.length_replicate]

theorem exampleFront_bytes : ∀ b ∈ exampleFront, b.toNat ≠ 1 ∧ b.toNat ≠ 2 := by
  intro b hb
  rcases List.mem_append.mp hb with hb | hb
  · have hall : ∀ b ∈ (0 :: leBytes 4 rsaMagic : List UInt8), b.toNat ≠ 1 ∧ b.toNat ≠ 2 := by
      decide +kernel
    exact hall b hb
  · rw [(List.mem_replicate.mp hb).2]
    decide

theorem exampleChunk_length : exampleChunk.length = secureChunkSize := by
  rw [exampleChunk, List.length_append, length_leBytes, List.length_replicate]
  rfl

theorem exampleData_chunked : Chunked exampleData [exampleChunk, [5]] :=
  .next exampleChunk _ exampleChunk_length List.length_replicate (.last [5] (by decide))

/-- A word is no magic if its first byte is none of theirs. -/
theorem wordAt_ne {buffer : List UInt8} {i : Nat} {b : UInt8} (h : buffer[i]? = some b)
    (h₁ : b.toNat ≠ 1) (h₂ : b.toNat ≠ 2) :
    wordAt buffer i ≠ storedMagic ∧ wordAt buffer i ≠ iwcMagic := by
  obtain ⟨hi, rfl⟩ := List.getElem?_eq_some_iff.mp h
  have hlt := UInt8.toNat_lt buffer[i]
  have hword : wordAt buffer i = buffer[i].toNat + 256 * readLe 3 (buffer.drop (i + 1)) := by
    unfold wordAt
    rw [List.drop_eq_getElem_cons hi]
    rfl
  unfold storedMagic iwcMagic
  omega

theorem example_hashBlocks : HashBlocks ⟨exampleFront ++ exampleData, 0⟩ 0x8001 where
  le := Nat.zero_le _
  before i _ hi := by
    have hlt : i < exampleFront.length := by rw [exampleFront_length]; exact hi
    have hget : (exampleFront ++ exampleData)[i]? = some exampleFront[i] := by
      rw [List.getElem?_append_left hlt, List.getElem?_eq_getElem hlt]
    have hbytes := exampleFront_bytes _ (List.getElem_mem hlt)
    exact wordAt_ne hget hbytes.1 hbytes.2
  iwc := by
    show wordAt (exampleFront ++ exampleData) 0x8001 = _
    unfold wordAt
    rw [← exampleFront_length, List.drop_left]
    exact readLe_leBytes 4 iwcMagic _
  fits := by
    show 0x8001 + 4 ≤ (exampleFront ++ exampleData).length
    rw [List.length_append, exampleFront_length, exampleData, List.length_append,
      List.length_append, exampleChunk_length]
    unfold secureChunkSize
    omega
  room := by decide
  magic := readLe_leBytes 4 rsaMagic _

theorem example_removes : secureMw19 0 ⟨exampleFront ++ exampleData, 0⟩ =
      patchMw19 ⟨exampleFront ++ exampleData, 0⟩ ∧
    Ends patchMw19 ⟨exampleFront ++ exampleData, 0⟩
      (fun out s' => out.secure = true ∧ out.storedIwc = false ∧
        s' = ⟨exampleFront ++ (exampleChunk ++ [5]), 0x8001 + 12⟩)
      (fun s' => s' = ⟨exampleFront ++ (exampleChunk ++ [5]), 0x8001 + 4⟩) := by
  have htake : (exampleFront ++ exampleData).take 0x8001 = exampleFront := by
    rw [← exampleFront_length, List.take_left]
  have hdrop : (exampleFront ++ exampleData).drop 0x8001 = exampleData := by
    rw [← exampleFront_length, List.drop_left]
  have hchunked : Chunked ((exampleFront ++ exampleData).drop 0x8001) [exampleChunk, [5]] := by
    rw [hdrop]
    exact exampleData_chunked
  have hremoves := removes_hash_blocks 0 example_hashBlocks hchunked
  dsimp only at hremoves
  rwa [htake, List.flatten_cons, List.flatten_singleton] at hremoves

end Acts.DecompressorIw
