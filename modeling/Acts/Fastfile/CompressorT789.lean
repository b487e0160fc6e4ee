import Acts.Lib.Bytes
import Acts.Lib.Machine

/-!
# Blocks of a compressed fast file (`compressor_t789_abstract.hpp`)

A fast file is read in pages of 8 MiB, and no block may lie across two of them.  The size of a block
is only known once it is compressed: `Compress` halves what it compresses until the block fits, and
closes the page with a filler block when nothing does.

* `turn` — one iteration of the loop, `next` as the step of a machine that performs blocks.
* `Safe` — what the loop is for, over all of its runs.
* `Invariant`, `turn_spec` — the room left in a page is never a dead zone.
* `compress_safe` — **runs whose offsets fit in 32 bits, and whose fillers find enough data.**
* `filler_underflow` — one byte that is left for a filler of thirteen.
-/

set_option autoImplicit false

namespace Acts.CompressorT789

open Machine

/-! ## Constants -/

def readSegment : Nat := 0x800000
def zlibStoredOverhead : Nat := 11

/-- `sizeof(fastfile::DBStreamHeader)`. -/
def streamHeaderSize : Nat := 16

def minFillerGap : Nat := streamHeaderSize + zlibStoredOverhead + 4
def safeMargin : Nat := minFillerGap

/-! ## Arithmetic -/

/-- A `uint32_t`. -/
def u32 (n : Nat) : Nat := n % 2 ^ 32

def sub32 (a b : Nat) : Nat := (a + 2 ^ 32 - b) % 2 ^ 32

/-- A difference of `size_t`. -/
def sub64 (a b : Nat) : Nat := (a + 2 ^ 64 - b) % 2 ^ 64

/-- `utils::Aligned<uint32_t>((uint32_t)size)`. -/
def aligned32 (size : Nat) : Nat := u32 (aligned (u32 size) 4)

/-! ## Loop -/

structure DBStreamHeader where
  compressedSize : Nat
  uncompressedSize : Nat
  alignedSize : Nat
  offset : Nat
  deriving DecidableEq, Repr

/-- What the loop depends on: the header before the blocks, the option `--chunkSize`, the size of the
`k`-th block that is compressed from `n` bytes, and the size of `n` bytes that zlib stores. -/
structure Params where
  headerSize : Nat
  chunkSize : Nat
  codec : Nat → Nat → Option Nat
  stored : Nat → Option Nat

/-- `Init`. -/
def init (chunkSize : Nat) : Nat := if chunkSize > 2 ^ 31 - 1 then 2 ^ 31 - 1 else chunkSize

/-- The chunk size of `Compress`. -/
def Params.chunk (p : Params) : Nat :=
  u32 (if init p.chunkSize ≠ 0 then init p.chunkSize else 0x3fee0)

structure State where
  /-- `out.size()` -/
  out : Nat
  toCompress : Nat
  remainingSize : Nat
  /-- The blocks that were compressed so far. -/
  attempts : Nat
  deriving DecidableEq, Repr

def start (p : Params) (size : Nat) : State := ⟨p.headerSize, 0, size, 0⟩

def State.chunkStart (st : State) : Nat := u32 st.out

def State.boundary (st : State) : Nat := u32 ((st.chunkStart / readSegment + 1) * readSegment)

/-- The block ends before the boundary, with no dead zone behind it. -/
def fitsIn (chunkStart boundary alignedSize : Nat) : Bool :=
  let chunkEnd := u32 (chunkStart + streamHeaderSize + alignedSize)
  let gapAfter := if chunkEnd ≤ boundary then boundary - chunkEnd else 0
  chunkEnd ≤ boundary && (gapAfter == 0 || gapAfter ≥ safeMargin)

/-- What the inner loop ends with. -/
inductive Shrunk where
  | fits (uncompressedSize compressedSize attempts : Nat)
  | tooLarge (attempts : Nat)
  /-- "Can't compress chunk" -/
  | failed
  deriving DecidableEq, Repr

/-- The inner loop. -/
def shrink (p : Params) (chunkStart boundary attempts uncompressedSize : Nat) : Shrunk :=
  match p.codec attempts uncompressedSize with
  | none => .failed
  | some size =>
    if fitsIn chunkStart boundary (aligned32 size) then .fits uncompressedSize size (attempts + 1)
    else if uncompressedSize ≤ 1 then .tooLarge (attempts + 1)
    else shrink p chunkStart boundary (attempts + 1) ((uncompressedSize + 1) / 2)
termination_by uncompressedSize

inductive Turn where
  | done
  | failed
  /-- "Dead-zone gap 0x{:x} too small to close at 0x{:x}" -/
  | deadZone
  | block (header : DBStreamHeader) (st : State)
  deriving DecidableEq, Repr

/-- The bytes that are stored to close a page, from the room left in it. -/
def fillerInput (gap : Nat) : Nat := sub32 (sub32 gap streamHeaderSize) zlibStoredOverhead

/-- A filler block. -/
def fill (p : Params) (st : State) (attempts : Nat) : Turn :=
  let gap := sub32 st.boundary st.chunkStart
  if gap < minFillerGap then .deadZone
  else
    match p.stored (fillerInput gap) with
    | none => .failed
    | some fillerCompressedSize =>
      let targetAligned := sub32 gap streamHeaderSize
      .block ⟨u32 fillerCompressedSize, fillerInput gap, targetAligned, u32 st.out⟩
        { out := st.out + (streamHeaderSize + targetAligned)
          toCompress := st.toCompress + fillerInput gap
          remainingSize := sub64 st.remainingSize (fillerInput gap)
          attempts }

/-- What the inner loop finds. -/
def State.shrunk (p : Params) (st : State) : Shrunk :=
  shrink p st.chunkStart st.boundary st.attempts (u32 (min p.chunk st.remainingSize))

/-- One iteration. -/
def turn (p : Params) (st : State) : Turn :=
  if st.remainingSize = 0 then .done
  else
    match st.shrunk p with
    | .failed => .failed
    | .tooLarge attempts => fill p st attempts
    | .fits uncompressedSize size attempts =>
      .block ⟨u32 size, uncompressedSize, aligned32 size, u32 st.out⟩
        { out := st.out + (streamHeaderSize + aligned32 size)
          toCompress := st.toCompress + uncompressedSize
          remainingSize := sub64 st.remainingSize uncompressedSize
          attempts }

/-- The loop as a machine that performs blocks. -/
def next (p : Params) (st : State) : Option (List DBStreamHeader × State) :=
  match turn p st with
  | .block header st => some ([header], st)
  | _ => none

/-- The end stream header. -/
def endBlock (st : State) : DBStreamHeader := ⟨0, 0, 0, u32 st.out⟩

/-! ## Purpose -/

/-- The header and the data of a block lie in one page. -/
def InPage (header : DBStreamHeader) : Prop :=
  header.offset % readSegment + streamHeaderSize + header.compressedSize ≤ readSegment

/-- Every block lies in its page, no run ends in a dead zone, the remaining size is never less than
what is taken off it, and there is a last iteration. -/
structure Safe (p : Params) (size : Nat) : Prop where
  inPage : ∀ n headers st, Run (next p) n (start p size) headers st → ∀ b ∈ headers, InPage b
  endInPage : ∀ n headers st, Run (next p) n (start p size) headers st → turn p st = .done →
    InPage (endBlock st)
  noDeadZone : ∀ n headers st, Run (next p) n (start p size) headers st → turn p st ≠ .deadZone
  noUnderflow : ∀ n headers st header st', Run (next p) n (start p size) headers st →
    turn p st = .block header st' → header.uncompressedSize ≤ st.remainingSize
  terminates : ∃ n headers st, Run (next p) n (start p size) headers st ∧ next p st = none

/-- What an iteration needs: no offset leaves 32 bits, and where a filler is written, it does not take
more than what is left. -/
structure Within (p : Params) (bound : Nat → Nat) (st : State) : Prop where
  out_lt : st.out < 2 ^ 32 - readSegment
  end_lt : ∀ n ≤ min p.chunk st.remainingSize, st.out + streamHeaderSize + bound n + 3 < 2 ^ 32
  filler_le : ∀ attempts, st.shrunk p = .tooLarge attempts →
    fillerInput (sub32 st.boundary st.chunkStart) ≤ st.remainingSize

/-! ## Pages -/

/-- A page has room for a filler behind what is written. -/
def Invariant (st : State) : Prop := st.out % readSegment + minFillerGap ≤ readSegment

theorem u32_of_lt {n : Nat} (h : n < 2 ^ 32) : u32 n = n := Nat.mod_eq_of_lt h

theorem sub32_of_le {a b : Nat} (h : b ≤ a) (ha : a < 2 ^ 32) : sub32 a b = a - b := by
  unfold sub32
  omega

theorem aligned32_bounds {n : Nat} (h : n + 3 < 2 ^ 32) :
    n ≤ aligned32 n ∧ aligned32 n ≤ n + 3 := by
  have hle := le_aligned n (by decide : 0 < 4)
  have hlt := aligned_lt n (by decide : 0 < 4)
  unfold aligned32
  rw [u32_of_lt (by omega : n < 2 ^ 32), u32_of_lt (by omega)]
  omega

theorem chunk_bounds (p : Params) : 0 < p.chunk ∧ p.chunk < 2 ^ 31 := by
  have hinit : init p.chunkSize < 2 ^ 31 := by
    unfold init
    split
    · decide
    · omega
  unfold Params.chunk u32
  split
  · omega
  · decide

theorem boundary_eq {st : State} (h : st.out < 2 ^ 32 - readSegment) :
    st.chunkStart = st.out ∧ st.boundary = (st.out / readSegment + 1) * readSegment := by
  have hstart : st.chunkStart = st.out := u32_of_lt (by omega)
  refine ⟨hstart, ?_⟩
  unfold State.boundary
  rw [hstart]
  unfold readSegment at *
  exact u32_of_lt (by omega)

theorem fitsIn_iff {chunkStart boundary alignedSize : Nat}
    (h : chunkStart + streamHeaderSize + alignedSize < 2 ^ 32) :
    fitsIn chunkStart boundary alignedSize = true ↔
      chunkStart + streamHeaderSize + alignedSize = boundary ∨
        chunkStart + streamHeaderSize + alignedSize + safeMargin ≤ boundary := by
  unfold fitsIn
  dsimp only
  rw [u32_of_lt h]
  by_cases hle : chunkStart + streamHeaderSize + alignedSize ≤ boundary
  · rw [if_pos hle]
    simp
    omega
  · rw [if_neg hle]
    simp
    omega

/-! ## The inner loop -/

section Shrink

variable {p : Params} {bound : Nat → Nat} {chunkStart boundary attempts n : Nat}

theorem shrink_fits {u size attempts' : Nat}
    (h : shrink p chunkStart boundary attempts n = .fits u size attempts') (hn : 0 < n) :
    0 < u ∧ u ≤ n ∧ fitsIn chunkStart boundary (aligned32 size) = true ∧
      ∃ k, p.codec k u = some size := by
  induction n using Nat.strongRecOn generalizing attempts with
  | ind n ih =>
    rw [shrink] at h
    split at h
    · cases h
    · rename_i size' hcodec
      split at h
      · rename_i hfits
        cases h
        exact ⟨hn, Nat.le_refl _, hfits, _, hcodec⟩
      · split at h
        · cases h
        · obtain ⟨hpos, hle, hrest⟩ := ih ((n + 1) / 2) (by omega) h (by omega)
          exact ⟨hpos, by omega, hrest⟩

/-- Not even one byte fits. -/
theorem shrink_tooLarge {attempts' : Nat}
    (h : shrink p chunkStart boundary attempts n = .tooLarge attempts') (hn : 0 < n) :
    ∃ k size, p.codec k 1 = some size ∧ fitsIn chunkStart boundary (aligned32 size) = false := by
  induction n using Nat.strongRecOn generalizing attempts with
  | ind n ih =>
    rw [shrink] at h
    split at h
    · cases h
    · rename_i size hcodec
      split at h
      · cases h
      · rename_i hfits
        split at h
        · rename_i hone
          have hone : n = 1 := by omega
          subst hone
          exact ⟨_, size, hcodec, by simpa using hfits⟩
        · exact ih ((n + 1) / 2) (by omega) h (by omega)

end Shrink

/-! ## One iteration -/

/-- What the codecs promise: a block is not longer than its bound, that of one byte is short, and what
zlib stores in one piece is longer than its data by its overhead. -/
structure Codecs (p : Params) (bound : Nat → Nat) : Prop where
  codec_le : ∀ k n size, p.codec k n = some size → size ≤ bound n
  bound_one : bound 1 ≤ 2 ^ 15
  stored_eq : ∀ n, 0 < n → n < 2 ^ 16 → p.stored n = some (n + zlibStoredOverhead)

/-- A block that is written as it should be, with the state behind it. -/
structure Written (st : State) (header : DBStreamHeader) (st' : State) : Prop where
  inPage : InPage header
  positive : 0 < header.uncompressedSize
  noUnderflow : header.uncompressedSize ≤ st.remainingSize
  remainingSize : st'.remainingSize = st.remainingSize - header.uncompressedSize
  inv : Invariant st'

theorem sub64_of_le {a b : Nat} (h : b ≤ a) (ha : a < 2 ^ 64) : sub64 a b = a - b := by
  unfold sub64
  omega

variable {p : Params} {bound : Nat → Nat} {st st' : State} {header : DBStreamHeader}

/-- A block that fits. -/
theorem fits_spec (hout : st.out < 2 ^ 32 - readSegment) {size : Nat}
    (hend : st.out + streamHeaderSize + size + 3 < 2 ^ 32)
    (hfits : fitsIn st.chunkStart st.boundary (aligned32 size) = true) :
    st.out % readSegment + streamHeaderSize + size ≤ readSegment ∧
      (st.out + (streamHeaderSize + aligned32 size)) % readSegment + minFillerGap ≤
        readSegment := by
  obtain ⟨hstart, hboundary⟩ := boundary_eq hout
  obtain ⟨hle, hlt⟩ := aligned32_bounds (n := size) (by omega)
  rw [hstart, hboundary, fitsIn_iff (by omega)] at hfits
  unfold safeMargin minFillerGap zlibStoredOverhead streamHeaderSize readSegment at *
  omega

/-- The room that a filler closes. -/
theorem gap_spec (hinv : Invariant st) (hout : st.out < 2 ^ 32 - readSegment) :
    ∃ gap, sub32 st.boundary st.chunkStart = gap ∧ minFillerGap ≤ gap ∧
      st.out % readSegment + gap = readSegment ∧ (st.out + gap) % readSegment = 0 ∧
      sub32 gap streamHeaderSize = gap - streamHeaderSize ∧
      fillerInput gap = gap - streamHeaderSize - zlibStoredOverhead := by
  obtain ⟨hstart, hboundary⟩ := boundary_eq hout
  have hgap : sub32 st.boundary st.chunkStart = readSegment - st.out % readSegment := by
    rw [hstart, hboundary]
    unfold readSegment at *
    rw [sub32_of_le (by omega) (by omega)]
    omega
  unfold Invariant minFillerGap zlibStoredOverhead streamHeaderSize readSegment at *
  have htarget : sub32 (0x800000 - st.out % 0x800000) 16 = 0x800000 - st.out % 0x800000 - 16 :=
    sub32_of_le (by omega) (by omega)
  refine ⟨_, hgap, by omega, by omega, by omega, htarget, ?_⟩
  unfold fillerInput streamHeaderSize zlibStoredOverhead
  rw [htarget]
  exact sub32_of_le (by omega) (by omega)

/-- Where one byte does not fit, little room is left. -/
theorem gap_lt (hcodecs : Codecs p bound) (hinv : Invariant st)
    (hout : st.out < 2 ^ 32 - readSegment) {k size : Nat} (hcodec : p.codec k 1 = some size)
    (hfits : fitsIn st.chunkStart st.boundary (aligned32 size) = false) :
    sub32 st.boundary st.chunkStart < 2 ^ 16 := by
  obtain ⟨hstart, hboundary⟩ := boundary_eq hout
  obtain ⟨gap, hgap, -, hsum, -⟩ := gap_spec hinv hout
  have hsize := hcodecs.codec_le k 1 size hcodec
  have hone := hcodecs.bound_one
  obtain ⟨hle, hlt⟩ := aligned32_bounds (n := size) (by omega)
  have hnot : ¬fitsIn st.chunkStart st.boundary (aligned32 size) = true := by simp [hfits]
  rw [hstart, hboundary, fitsIn_iff (by unfold streamHeaderSize readSegment at *; omega)] at hnot
  rw [hgap]
  unfold safeMargin minFillerGap zlibStoredOverhead streamHeaderSize readSegment at *
  omega

/-- **What one iteration does.** -/
theorem turn_spec (hcodecs : Codecs p bound) (hinv : Invariant st)
    (hwithin : st.remainingSize ≠ 0 → Within p bound st) (hsize : st.remainingSize < 2 ^ 64) :
    turn p st ≠ .deadZone ∧
      ∀ header st', turn p st = .block header st' → Written st header st' := by
  unfold turn
  by_cases hzero : st.remainingSize = 0
  · rw [if_pos hzero]
    exact ⟨by simp, by simp⟩
  · rw [if_neg hzero]
    have hwithin := hwithin hzero
    obtain ⟨hpos, hlt⟩ := chunk_bounds p
    have hn : u32 (min p.chunk st.remainingSize) = min p.chunk st.remainingSize :=
      u32_of_lt (by omega)
    have hnpos : 0 < u32 (min p.chunk st.remainingSize) := by omega
    split
    · exact ⟨by simp, by simp⟩
    · rename_i attempts hshrunk
      obtain ⟨k, size, hcodec, hfits⟩ := shrink_tooLarge hshrunk hnpos
      have hle := hwithin.filler_le attempts hshrunk
      have hlt := gap_lt hcodecs hinv hwithin.out_lt hcodec hfits
      obtain ⟨gap, hgap, hmin, hsum, hmod, htarget, hinput⟩ := gap_spec hinv hwithin.out_lt
      rw [hgap] at hle hlt
      have hpos : 0 < fillerInput gap ∧ fillerInput gap + zlibStoredOverhead = gap - streamHeaderSize ∧
          streamHeaderSize + (gap - streamHeaderSize) = gap := by
        rw [hinput]
        unfold minFillerGap zlibStoredOverhead streamHeaderSize at *
        omega
      unfold fill
      rw [hgap]
      dsimp only
      rw [if_neg (by omega), hcodecs.stored_eq _ hpos.1 (by omega), htarget, hpos.2.1, hpos.2.2]
      refine ⟨by simp, ?_⟩
      intro header st' heq
      cases heq
      refine ⟨?_, hpos.1, hle, sub64_of_le hle hsize, ?_⟩
      · have hout := hwithin.out_lt
        unfold InPage
        dsimp only
        rw [u32_of_lt (by omega : gap - streamHeaderSize < 2 ^ 32), u32_of_lt (by omega)]
        omega
      · unfold Invariant
        dsimp only
        rw [hmod]
        decide
    · rename_i u size attempts hshrunk
      obtain ⟨hupos, hule, hfits, k, hcodec⟩ := shrink_fits hshrunk hnpos
      have hend := hwithin.end_lt u (by omega)
      have hle := hcodecs.codec_le k u size hcodec
      obtain ⟨hpage, hinv'⟩ := fits_spec hwithin.out_lt (by omega) hfits
      have hur : u ≤ st.remainingSize := by omega
      refine ⟨by simp, ?_⟩
      intro header st' heq
      cases heq
      refine ⟨?_, hupos, hur, sub64_of_le hur hsize, hinv'⟩
      unfold InPage
      dsimp only
      rw [u32_of_lt (by omega : size < 2 ^ 32), u32_of_lt (by omega)]
      exact hpage

/-! ## Runs -/

theorem next_eq {headers : List DBStreamHeader} (h : next p st = some (headers, st')) :
    ∃ header, headers = [header] ∧ turn p st = .block header st' := by
  unfold next at h
  split at h
  · rename_i header st₁ hturn
    cases h
    exact ⟨header, rfl, hturn⟩
  · cases h

theorem run_spec (hcodecs : Codecs p bound) {n : Nat} {headers : List DBStreamHeader}
    (h : Run (next p) n st headers st') (hinv : Invariant st) (hsize : st.remainingSize < 2 ^ 64)
    (hwithin : ∀ n headers st', Run (next p) n st headers st' →
      st'.remainingSize ≠ 0 → Within p bound st') :
    Invariant st' ∧ st'.remainingSize < 2 ^ 64 ∧ ∀ b ∈ headers, InPage b := by
  induction h with
  | refl st => exact ⟨hinv, hsize, by simp⟩
  | step hnext _ ih =>
    obtain ⟨header, rfl, hturn⟩ := next_eq hnext
    obtain ⟨hpage, hpos, hle, hremaining, hinv'⟩ :=
      (turn_spec hcodecs hinv (hwithin _ _ _ (.refl _)) hsize).2 _ _ hturn
    obtain ⟨hend, hsize', hpages⟩ := ih hinv' (by omega)
      fun n headers st' r => hwithin _ _ _ (.step hnext r)
    refine ⟨hend, hsize', ?_⟩
    intro b hb
    rcases List.mem_cons.mp hb with rfl | hb
    · exact hpage
    · exact hpages b hb

theorem run_terminates (hcodecs : Codecs p bound) (hinv : Invariant st)
    (hsize : st.remainingSize < 2 ^ 64)
    (hwithin : ∀ n headers st', Run (next p) n st headers st' →
      st'.remainingSize ≠ 0 → Within p bound st') :
    ∃ n headers st', Run (next p) n st headers st' ∧ next p st' = none := by
  generalize hremaining : st.remainingSize = r
  induction r using Nat.strongRecOn generalizing st with
  | ind r ih =>
    cases hnext : next p st with
    | none => exact ⟨0, [], st, .refl st, hnext⟩
    | some result =>
      obtain ⟨ev, st₁⟩ := result
      obtain ⟨header, rfl, hturn⟩ := next_eq hnext
      obtain ⟨-, hpos, hle, hless, hinv'⟩ :=
        (turn_spec hcodecs hinv (hwithin _ _ _ (.refl _)) hsize).2 _ _ hturn
      obtain ⟨n, headers, st', hrun, hnone⟩ := ih st₁.remainingSize (by omega) hinv' (by omega)
        (fun n headers st' r => hwithin _ _ _ (.step hnext r)) rfl
      exact ⟨n + 1, _, st', .step hnext hrun, hnone⟩

/-- **Compressing is safe while no offset leaves 32 bits and no filler takes more than is left.** -/
theorem compress_safe {size : Nat} (hcodecs : Codecs p bound) (hsize : size < 2 ^ 64)
    (hheader : p.headerSize + minFillerGap ≤ readSegment)
    (hwithin : ∀ n headers st, Run (next p) n (start p size) headers st →
      st.remainingSize ≠ 0 → Within p bound st) :
    Safe p size := by
  have hstart : Invariant (start p size) := by
    unfold Invariant start minFillerGap zlibStoredOverhead streamHeaderSize readSegment at *
    dsimp only
    omega
  have hspec : ∀ n headers st, Run (next p) n (start p size) headers st →
      Invariant st ∧ st.remainingSize < 2 ^ 64 ∧ ∀ b ∈ headers, InPage b :=
    fun n headers st r => run_spec hcodecs r hstart hsize hwithin
  refine ⟨fun n headers st r => (hspec n headers st r).2.2, ?_, ?_, ?_,
    run_terminates hcodecs hstart hsize hwithin⟩
  · intro n headers st r _
    have hinv := (hspec n headers st r).1
    unfold InPage endBlock u32
    unfold Invariant minFillerGap zlibStoredOverhead streamHeaderSize readSegment at *
    dsimp only
    omega
  · intro n headers st r
    obtain ⟨hinv, hlt, -⟩ := hspec n headers st r
    exact (turn_spec hcodecs hinv (hwithin n headers st r) hlt).1
  · intro n headers st header st' r hturn
    obtain ⟨hinv, hlt, -⟩ := hspec n headers st r
    exact ((turn_spec hcodecs hinv (hwithin n headers st r) hlt).2 header st' hturn).noUnderflow

/-! ## Examples -/

/-- A fast file of Black Ops 3 that is stored; only the chunk size is an option. -/
def storedFile (chunkSize : Nat) : Params where
  headerSize := 0x248
  chunkSize
  codec _ n := some n
  stored n := some (n + zlibStoredOverhead)

theorem storedFile_codecs (chunkSize : Nat) : Codecs (storedFile chunkSize) id where
  codec_le k n size h := Nat.le_of_eq (Option.some.inj h).symm
  bound_one := by decide
  stored_eq _ _ _ := rfl

theorem shrink_first {chunkStart boundary attempts n size : Nat} (hcodec : p.codec attempts n = some size)
    (hfits : fitsIn chunkStart boundary (aligned32 size) = true) :
    shrink p chunkStart boundary attempts n = .fits n size (attempts + 1) := by
  rw [shrink, hcodec]
  exact if_pos hfits

theorem shrink_last {chunkStart boundary attempts size : Nat} (hcodec : p.codec attempts 1 = some size)
    (hfits : fitsIn chunkStart boundary (aligned32 size) = false) :
    shrink p chunkStart boundary attempts 1 = .tooLarge (attempts + 1) := by
  rw [shrink, hcodec]
  simp [hfits]

/-- Ten bytes are one block. -/
theorem ten_bytes_safe : Safe (storedFile 0) 10 := by
  refine compress_safe (storedFile_codecs 0) (by decide) (by decide) ?_
  have hshrunk : (start (storedFile 0) 10).shrunk (storedFile 0) = .fits 10 10 1 :=
    shrink_first rfl (by decide)
  have hturn : turn (storedFile 0) (start (storedFile 0) 10) =
      .block ⟨10, 10, 12, 584⟩ ⟨612, 10, 0, 1⟩ := by
    unfold turn
    rw [if_neg (by decide), hshrunk]
    rfl
  intro n headers st hrun hne
  cases hrun with
  | refl =>
    refine ⟨by decide, ?_, ?_⟩
    · intro n hn
      have hle : n ≤ 10 := Nat.le_trans hn (Nat.min_le_right _ _)
      show 584 + 16 + n + 3 < 2 ^ 32
      omega
    · intro attempts h
      rw [hshrunk] at h
      cases h
  | step hnext hrest =>
    obtain ⟨header, rfl, hblock⟩ := next_eq hnext
    rw [hturn] at hblock
    cases hblock
    cases hrest with
    | refl => exact absurd rfl hne
    | step hnext' _ =>
      obtain ⟨header', -, hblock'⟩ := next_eq hnext'
      cases hblock'

/-- One byte is left, and the filler that closes the page takes thirteen. -/
theorem filler_underflow : ¬Safe (storedFile 8387968) 8387969 := by
  intro hsafe
  let p := storedFile 8387968
  have hfirst : (start p 8387969).shrunk p = .fits 8387968 8387968 1 := shrink_first rfl (by decide)
  have hblock : turn p (start p 8387969) =
      .block ⟨8387968, 8387968, 8387968, 584⟩ ⟨8388568, 8387968, 1, 1⟩ := by
    unfold turn
    rw [if_neg (by decide), hfirst]
    decide
  have hlast : (State.mk 8388568 8387968 1 1).shrunk p = .tooLarge 2 := shrink_last rfl (by decide)
  have hfiller : turn p ⟨8388568, 8387968, 1, 1⟩ =
      .block ⟨24, 13, 24, 8388568⟩ ⟨8388608, 8387981, 2 ^ 64 - 12, 2⟩ := by
    unfold turn
    rw [if_neg (by decide), hlast]
    rfl
  have hnext : next p (start p 8387969) =
      some ([⟨8387968, 8387968, 8387968, 584⟩], ⟨8388568, 8387968, 1, 1⟩) := by
    unfold next
    rw [hblock]
  exact absurd (hsafe.noUnderflow 1 _ _ _ _ (.one hnext) hfiller) (by decide)

end Acts.CompressorT789
