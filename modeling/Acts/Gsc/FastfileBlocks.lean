import Acts.Gsc.FastfileRead
import Acts.Lib.Tiling

/-!
# Blocks of untrusted fastfiles

What `DecompressFastfile` does with a file that nobody vouches for:

* `Block` — a block that is handed to the decompressor, and how far it may write.
* `blocksFrom` — these blocks, in order, and whether they come to the end of the data.
* `readBlocks_succ` — one turn of the loop.
* `Safe`, `WellBlocked` — what is expected of a run, and of the blocks of a file.
* `decompressFastfile_safe_iff` — **a run is as expected exactly when the blocks of the file are.**
-/

set_option autoImplicit false

namespace Acts.Gsc.ObfuscatorFastfile

open Acts.Core.Bytebuffer
open Acts.Fastfile.Flexible (slice overwrite)
open Acts.Lib.Tiling (Contiguous Range)
open Acts.Fetch (Holds)

/-! ## Blocks -/

/-- A block, its place in the data, and the pointer to its bytes. -/
structure Block where
  loc : Nat
  offset : Nat
  uncompressedSize : Nat
  blockBuff : Nat
  compressedSize : Nat

namespace Block

variable (lib : Libraries) (b : ByteBuffer) (alg : CompressionAlgorithm) (blk : Block)

def src : Data := slice b blk.blockBuff blk.compressedSize

/-- The compressed bytes are in the file. -/
def InFile : Prop := blk.blockBuff + blk.compressedSize ≤ b.len

instance : Decidable (blk.InFile b) := inferInstanceAs (Decidable (_ ≤ _))

/-- What the decompressor writes. -/
def data : Data :=
  match decompress2 lib alg blk.uncompressedSize (blk.src b) with
  | .ok (_, bytes) => bytes
  | .error _ => []

/-- The decompressor reports no error. -/
def decompresses : Bool :=
  match decompress2 lib alg blk.uncompressedSize (blk.src b) with
  | .ok (r, _) => decide (0 ≤ r)
  | .error _ => false

/-- How many bytes the decompressor may write: a library has the size of its destination for this,
stored bytes are copied if they fit in it. -/
def reach : Nat :=
  if getCompressionType alg = COMP_NONE then
    if blk.uncompressedSize < blk.compressedSize then 0 else blk.compressedSize
  else blk.uncompressedSize

/-- The place in the data. -/
def range : Range := (blk.offset, blk.offset + blk.uncompressedSize)

end Block

/-- The libraries write no more than the size of the destination. -/
def Libraries.Bounded (lib : Libraries) : Prop :=
  ∀ alg n src data, lib.decompress alg n src = .ok data → data.length ≤ n

section Reader

variable (lib : Libraries) (b : ByteBuffer) (alg : CompressionAlgorithm)

/-- The header of a block, and the pointer to its bytes; there is none in an empty block. -/
def readHead (offset : Nat) : Read (Option Block) := do
  let s ← get
  let loc := s.pointer
  let pos ← lift (readPtr b 16 1)
  let block := blockAt b pos
  if block.offset ≠ loc then throw (.badBlockPosition loc block.offset)
  else if block.uncompressedSize = 0 then do
    lift (align b 0x800000)
    return none
  else do
    let blockBuff ← lift (readPtr b 1 block.alignedSize)
    return some ⟨loc, offset, block.uncompressedSize, blockBuff, block.compressedSize⟩

/-- The blocks that the loop hands to the decompressor, and whether they come to the end of the
data. -/
def blocksFrom (size : Nat) : Nat → Nat → State → List Block × Bool
  | 0, offset, _ => ([], decide (size ≤ offset))
  | fuel + 1, offset, s =>
    if offset < size then
      match readHead b offset s with
      | .error _ _ => ([], false)
      | .ok none s => blocksFrom size fuel offset s
      | .ok (some blk) s =>
        if blk.InFile b ∧ blk.decompresses lib b alg = true then
          let r := blocksFrom size fuel (offset + blk.uncompressedSize) s
          (blk :: r.1, r.2)
        else ([blk], false)
    else ([], true)

end Reader

/-! ## One turn -/

section Turn

variable {lib : Libraries} {b : ByteBuffer} {alg : CompressionAlgorithm}
  {size fuel offset maxBlockSize : Nat} {out : Buffer} {s s' : State}

theorem readBlocks_end (h : ¬offset < size) :
    readBlocks lib b alg size fuel offset maxBlockSize out s = .ok (maxBlockSize, out) s := by
  cases fuel with
  | zero =>
    rw [readBlocks, if_neg h]
    rfl
  | succ fuel =>
    rw [readBlocks, if_neg h]
    rfl

/-- What a turn does behind the header of the block. -/
def turn (lib : Libraries) (b : ByteBuffer) (alg : CompressionAlgorithm)
    (size fuel offset maxBlockSize : Nat) (out : Buffer) :
    Option Block → Read (Nat × Buffer)
  | none => readBlocks lib b alg size fuel offset maxBlockSize out
  | some blk =>
    if blk.InFile b then do
      let out ← liftExcept (decompressBlock lib alg blk.loc blk.uncompressedSize (blk.src b)
        offset out)
      readBlocks lib b alg size fuel (offset + blk.uncompressedSize)
        (max maxBlockSize blk.uncompressedSize) out
    else throw .outside

/-- The header, and what follows. -/
theorem readBlocks_succ (h : offset < size) :
    readBlocks lib b alg size (fuel + 1) offset maxBlockSize out s =
      (readHead b offset >>= turn lib b alg size fuel offset maxBlockSize out) s := by
  rw [readBlocks, if_pos h, get_bind]
  have hhead : readHead b offset s = (lift (readPtr b 16 1) >>= fun pos =>
      if (blockAt b pos).offset ≠ s.pointer then
        throw (.badBlockPosition s.pointer (blockAt b pos).offset)
      else if (blockAt b pos).uncompressedSize = 0 then do
        lift (align b 0x800000)
        return none
      else do
        let blockBuff ← lift (readPtr b 1 (blockAt b pos).alignedSize)
        return some ⟨s.pointer, offset, (blockAt b pos).uncompressedSize, blockBuff,
          (blockAt b pos).compressedSize⟩) s := rfl
  cases hptr : lift (readPtr b 16 1) s with
  | error e s₁ =>
    rw [bind_error hptr] at hhead
    rw [bind_error hptr, bind_error hhead]
  | ok pos s₁ =>
    rw [bind_ok hptr] at hhead
    rw [bind_ok hptr]
    by_cases hoff : (blockAt b pos).offset ≠ s.pointer
    · rw [if_pos hoff] at hhead ⊢
      exact (bind_error hhead).symm
    · rw [if_neg hoff] at hhead ⊢
      by_cases hempty : (blockAt b pos).uncompressedSize = 0
      · rw [if_pos hempty] at hhead ⊢
        cases halign : lift (align b 0x800000) s₁ with
        | error e s₂ =>
          rw [bind_error halign] at hhead ⊢
          exact (bind_error hhead).symm
        | ok u s₂ =>
          rw [bind_ok halign] at hhead ⊢
          have hnone : readHead b offset s = .ok none s₂ := hhead
          rw [bind_ok hnone]
          rfl
      · rw [if_neg hempty] at hhead ⊢
        cases hbuff : lift (readPtr b 1 (blockAt b pos).alignedSize) s₁ with
        | error e s₂ =>
          rw [bind_error hbuff] at hhead ⊢
          exact (bind_error hhead).symm
        | ok blockBuff s₂ =>
          rw [bind_ok hbuff] at hhead ⊢
          have hsome : readHead b offset s = .ok (some ⟨s.pointer, offset,
            (blockAt b pos).uncompressedSize, blockBuff,
            (blockAt b pos).compressedSize⟩) s₂ := hhead
          rw [bind_ok hsome]
          rw [turn]
          by_cases hin : blockBuff + (blockAt b pos).compressedSize > b.len
          · have hout : ¬Block.InFile b ⟨s.pointer, offset, (blockAt b pos).uncompressedSize,
              blockBuff, (blockAt b pos).compressedSize⟩ := Nat.not_le_of_gt hin
            rw [if_pos hin, if_neg hout]
          · have hfile : Block.InFile b ⟨s.pointer, offset, (blockAt b pos).uncompressedSize,
              blockBuff, (blockAt b pos).compressedSize⟩ := Nat.le_of_not_gt hin
            rw [if_neg hin, if_pos hfile]
            rfl

/-- An exception of the code, not an access outside of a buffer or a loop without end. -/
def Error.Thrown (e : Error) : Prop := e ≠ .outside ∧ e ≠ .endless

theorem skipLoop_forward (hlen : b.len < 2 ^ 63) (tor : Nat) : ∀ (s s' : State) (u : Unit),
    skipLoop b tor s = .ok u s' → s.pointer ≤ b.len →
      s.pointer ≤ s'.pointer ∧ s'.pointer ≤ b.len := by
  induction tor using Nat.strongRecOn with
  | ind tor ih =>
    intro s s' u h hs
    by_cases h0 : tor = 0
    · subst h0
      rw [skipLoop_zero] at h
      cases h
      exact ⟨Nat.le_refl _, hs⟩
    · rw [skipLoop_step h0] at h
      split at h
      · rename_i hcan
        have hlt : s.pointer + min 0x400 tor < 2 ^ 64 := by omega
        have hle := (canRead_iff hlt).mp hcan
        have hword : word (s.pointer + min 0x400 tor) = s.pointer + min 0x400 tor :=
          Nat.mod_eq_of_lt hlt
        rw [hword] at h
        have hrest := ih _ (by omega) _ _ _ h hle
        dsimp only at hrest
        omega
      · cases h

/-- Some bytes of the buffer, and its position behind them. -/
theorem lift_readPtr_forward {n count p : Nat} (hlen : b.len < 2 ^ 63) (hs : s.pointer ≤ b.len)
    (hn : n * count < 2 ^ 63) (h : lift (readPtr b n count) s = .ok p s') :
    s'.pointer = s.pointer + n * count ∧ s'.pointer ≤ b.len := by
  have hword : word (n * count) = n * count := Nat.mod_eq_of_lt (by omega)
  have hsum : word (s.pointer + n * count) = s.pointer + n * count := Nat.mod_eq_of_lt (by omega)
  unfold lift readPtr at h
  rw [hword, hsum] at h
  split at h
  · rename_i heq
    split at heq
    · rename_i hcan
      have hle := (canRead_iff (by omega)).mp hcan
      cases heq
      cases h
      exact ⟨rfl, hle⟩
    · cases heq
  · cases h

theorem lift_thrown {α : Type} (op : Op α) (s : State) :
    EndsIn (lift op) s (fun _ _ => True) (fun e _ => e.Thrown) := by
  unfold EndsIn lift
  cases op s with
  | ok a s' => trivial
  | error e s' => constructor <;> intro h <;> cases h

variable (offset) in
/-- A header moves the position forward; the block is at its place, and not empty. -/
theorem readHead_ends (hlen : b.len < 2 ^ 63) (hs : s.pointer ≤ b.len) :
    EndsIn (readHead b offset) s
      (fun r s' => s.pointer < s'.pointer ∧ s'.pointer ≤ b.len ∧
        ∀ blk, r = some blk → blk.offset = offset ∧ 0 < blk.uncompressedSize)
      (fun e _ => e.Thrown) := by
  unfold readHead
  apply EndsIn.get
  dsimp only
  have hfirst : EndsIn (lift (readPtr b 16 1)) s
      (fun _ s₁ => s.pointer < s₁.pointer ∧ s₁.pointer ≤ b.len) (fun e _ => e.Thrown) := by
    cases h : lift (readPtr b 16 1) s with
    | ok p s₁ =>
      have hforward := lift_readPtr_forward hlen hs (by decide) h
      exact .of_ok h (by omega)
    | error e s₁ => exact .of_error h ((lift_thrown _ _).error h)
  refine hfirst.bind (fun _ _ h => h) ?_
  rintro pos s₁ ⟨hlt, hle⟩
  split
  · refine .of_error rfl ?_
    constructor <;> intro h <;> cases h
  · split
    · cases h : lift (align b 0x800000) s₁ with
      | error e s₂ => exact .of_error (bind_error h) ((lift_thrown _ _).error h)
      | ok u s₂ =>
        refine .of_ok (bind_ok h) ⟨?_, ?_, fun blk hblk => by cases hblk⟩ <;>
        · have hskip := h
          unfold lift at hskip
          split at hskip
          · rename_i heq
            cases hskip
            unfold align at heq
            rw [Acts.get_bind] at heq
            split at heq
            · have hforward := skipLoop_forward hlen _ _ _ _ heq hle
              omega
            · cases heq
              omega
          · cases hskip
    · rename_i hpos
      cases h : lift (readPtr b 1 (blockAt b pos).alignedSize) s₁ with
      | error e s₂ => exact .of_error (bind_error h) ((lift_thrown _ _).error h)
      | ok buff s₂ =>
        have hword := b.memory.readLE_lt (pos + 8) 4
        have hforward := lift_readPtr_forward hlen hle
          (by simp only [blockAt]; omega) h
        refine .of_ok (bind_ok h) ⟨by omega, by omega, ?_⟩
        intro blk hblk
        cases hblk
        exact ⟨rfl, Nat.pos_of_ne_zero hpos⟩

/-! ## One block -/

variable {blk : Block}

/-- Bytes that are not stored come from a library. -/
theorem decompress2_bytes {n : Nat} {src bytes : Data} {r : Int}
    (hnone : getCompressionType alg ≠ COMP_NONE)
    (h : decompress2 lib alg n src = .ok (r, bytes)) :
    bytes = [] ∨ lib.decompress alg n src = .ok bytes := by
  unfold decompress2 at h
  dsimp only at h
  rw [if_neg hnone] at h
  cases hlibrary : lib.decompress alg n src with
  | ok data =>
    refine .inr ?_
    simp only [hlibrary] at h
    repeat' split at h
    all_goals cases h
    all_goals rfl
  | error e =>
    refine .inl ?_
    simp only [hlibrary] at h
    cases e <;> dsimp only at h <;> repeat' split at h
    all_goals cases h
    all_goals rfl

theorem decompress2_thrown {n : Nat} {src : Data} {e : Error}
    (h : decompress2 lib alg n src = .error e) : e.Thrown := by
  unfold decompress2 at h
  dsimp only at h
  repeat' split at h
  all_goals cases h
  all_goals constructor <;> intro he <;> cases he

variable (lib b alg blk) in
/-- What is written is in reach. -/
theorem Block.length_data_le (hlib : lib.Bounded) :
    (blk.data lib b alg).length ≤ blk.reach alg := by
  have hsrc : (blk.src b).length = blk.compressedSize := by
    rw [Block.src, slice, List.length_map, List.length_range]
  unfold Block.data Block.reach
  cases h : decompress2 lib alg blk.uncompressedSize (blk.src b) with
  | error e => exact Nat.zero_le _
  | ok r =>
    obtain ⟨r, bytes⟩ := r
    dsimp only
    by_cases hnone : getCompressionType alg = COMP_NONE
    · unfold decompress2 at h
      dsimp only at h
      rw [if_pos hnone, hsrc] at h
      rw [if_pos hnone]
      split at h
      · cases h
        exact Nat.zero_le _
      · rename_i hsmall
        cases h
        rw [if_neg hsmall]
        exact Nat.le_of_eq hsrc
    · rw [if_neg hnone]
      rcases decompress2_bytes hnone h with rfl | hlibrary
      · exact Nat.zero_le _
      · exact hlib _ _ _ _ hlibrary

variable (alg blk) in
theorem Block.reach_le : blk.reach alg ≤ blk.uncompressedSize := by
  unfold Block.reach
  split
  · split
    · exact Nat.zero_le _
    · omega
  · exact Nat.le_refl _

variable (lib b alg blk out) in
/-- A block whose bytes fit is written to its place; behind an error of the decompressor there is
an exception. -/
theorem decompressBlock_fits (hfit : blk.offset + (blk.data lib b alg).length ≤ out.data.length) :
    (blk.decompresses lib b alg = true ∧ ∃ out',
      decompressBlock lib alg blk.loc blk.uncompressedSize (blk.src b) blk.offset out = .ok out' ∧
        out'.data = overwrite out.data blk.offset (blk.data lib b alg)) ∨
    (blk.decompresses lib b alg = false ∧ ∃ e,
      decompressBlock lib alg blk.loc blk.uncompressedSize (blk.src b) blk.offset out = .error e ∧
        e.Thrown) := by
  unfold Block.data at hfit ⊢
  unfold Block.decompresses decompressBlock
  cases h : decompress2 lib alg blk.uncompressedSize (blk.src b) with
  | error e =>
    exact .inr ⟨rfl, e, rfl, decompress2_thrown h⟩
  | ok r =>
    obtain ⟨r, bytes⟩ := r
    rw [h] at hfit
    dsimp only at hfit ⊢
    have hwrite : ∃ out', out.write blk.offset bytes = .ok out' ∧
        out'.data = overwrite out.data blk.offset bytes := by
      unfold Buffer.write
      rw [dif_pos hfit]
      exact ⟨_, rfl, rfl⟩
    obtain ⟨out', hout, hdata⟩ := hwrite
    by_cases hneg : r < 0
    · refine .inr ⟨decide_eq_false (by omega), .cantDecompressBlock blk.loc, ?_, ?_⟩
      · simp only [bind, Except.bind, hout, if_pos hneg]
        rfl
      · constructor <;> intro he <;> cases he
    · refine .inl ⟨decide_eq_true (by omega), out', ?_, hdata⟩
      simp only [bind, Except.bind, hout, if_neg hneg]
      rfl

/-- Without an error of the decompressor only the write can fail. -/
theorem decompressBlock_outside {loc : Nat} {e : Error}
    (htrue : blk.decompresses lib b alg = true)
    (h : decompressBlock lib alg loc blk.uncompressedSize (blk.src b) offset out = .error e) :
    e = .outside := by
  unfold Block.decompresses at htrue
  unfold decompressBlock at h
  cases hdec : decompress2 lib alg blk.uncompressedSize (blk.src b) with
  | error e' =>
    rw [hdec] at htrue
    cases htrue
  | ok r =>
    obtain ⟨r, bytes⟩ := r
    rw [hdec] at htrue h
    have hpos : 0 ≤ r := of_decide_eq_true htrue
    simp only [bind, Except.bind, if_neg (Int.not_lt.mpr hpos)] at h
    unfold Buffer.write at h
    split at h
    · rename_i heq
      split at heq
      · cases heq
      · cases heq
        cases h
        rfl
    · cases h

/-! ## Runs -/

/-- The block is in the file, and what the decompressor may write is in the data. -/
structure Fits (b : ByteBuffer) (alg : CompressionAlgorithm) (size : Nat) (blk : Block) : Prop where
  inFile : blk.InFile b
  reach : blk.offset + blk.reach alg ≤ size

instance : Decidable (Fits b alg size blk) :=
  decidable_of_iff (blk.InFile b ∧ blk.offset + blk.reach alg ≤ size)
    ⟨fun h => ⟨h.1, h.2⟩, fun h => ⟨h.inFile, h.reach⟩⟩

/-- The block decompresses to as many bytes as it declares. -/
def Full (lib : Libraries) (b : ByteBuffer) (alg : CompressionAlgorithm) (blk : Block) : Prop :=
  (blk.data lib b alg).length = blk.uncompressedSize

instance : Decidable (Full lib b alg blk) := inferInstanceAs (Decidable (_ = _))

theorem blocksFrom_end (h : ¬offset < size) :
    blocksFrom lib b alg size fuel offset s = ([], true) := by
  cases fuel with
  | zero => rw [blocksFrom, decide_eq_true (by omega)]
  | succ fuel => rw [blocksFrom, if_neg h]

/-- What a run over blocks that fit gives: it ends, and comes to the end of the data where the
blocks do. -/
structure Runs (lib : Libraries) (b : ByteBuffer) (alg : CompressionAlgorithm) (size offset : Nat)
    (out : Buffer) (blocks : List Block × Bool) (result : Buffer) : Prop where
  done : blocks.2 = true
  length : result.data.length = out.data.length
  full : (∀ blk ∈ blocks.1, Full lib b alg blk) → offset ≤ size →
    Contiguous offset (blocks.1.map Block.range) size ∧
      result.data = out.data.take offset ++ blocks.1.flatMap (Block.data lib b alg)

theorem Runs.of_end (hlen : out.data.length = size) (h : ¬offset < size) :
    Runs lib b alg size offset out ([], true) out := by
  refine ⟨rfl, rfl, ?_⟩
  intro _ hle
  refine ⟨show offset = size by omega, ?_⟩
  rw [List.take_of_length_le (by omega), List.flatMap_nil, List.append_nil]

/-- A block in front of the run. -/
theorem Runs.cons {blocks : List Block × Bool} {out' result : Buffer}
    (hout : out'.data = overwrite out.data blk.offset (blk.data lib b alg))
    (hlen : out.data.length = size) (hfits : Fits b alg size blk) (hpos : 0 < blk.uncompressedSize)
    (hlib : lib.Bounded)
    (h : Runs lib b alg size (blk.offset + blk.uncompressedSize) out' blocks result) :
    Runs lib b alg size blk.offset out (blk :: blocks.1, blocks.2) result := by
  have hdata := Block.length_data_le lib b alg blk hlib
  have hreach := hfits.reach
  have hlen' : out'.data.length = out.data.length := by
    rw [hout, length_overwrite (by omega)]
  refine ⟨h.done, h.length.trans hlen', ?_⟩
  intro hfull hle
  have hsize : (blk.data lib b alg).length = blk.uncompressedSize :=
    hfull blk List.mem_cons_self
  obtain ⟨hcontiguous, hresult⟩ := h.full
    (fun blk' hblk' => hfull blk' (List.mem_cons_of_mem _ hblk')) (by omega)
  refine ⟨⟨rfl, Nat.lt_add_of_pos_right hpos, hcontiguous⟩, ?_⟩
  rw [hresult, hout, List.flatMap_cons, overwrite, ← hsize, ← List.append_assoc,
    List.take_append_of_le_length (by rw [List.length_append, List.length_take]; omega),
    List.take_of_length_le (by rw [List.length_append, List.length_take]; omega)]

/-- A run over blocks that fit. -/
theorem readBlocks_runs (hbuffer : b.len < 2 ^ 63) (hlib : lib.Bounded) (fuel : Nat) :
    ∀ (offset maxBlockSize : Nat) (out : Buffer) (s : State), out.data.length = size →
      s.pointer ≤ b.len → b.len < s.pointer + fuel →
      (∀ blk ∈ (blocksFrom lib b alg size fuel offset s).1, Fits b alg size blk) →
      EndsIn (readBlocks lib b alg size fuel offset maxBlockSize out) s
        (fun r _ => Runs lib b alg size offset out (blocksFrom lib b alg size fuel offset s) r.2)
        (fun e _ => e.Thrown ∧ (blocksFrom lib b alg size fuel offset s).2 = false) := by
  induction fuel with
  | zero => intro _ _ _ s _ hs hfuel; omega
  | succ fuel ih =>
    intro offset maxBlockSize out s hlen hs hfuel hfits
    by_cases hend : offset < size
    · have hhead := readHead_ends offset hbuffer hs
      unfold EndsIn
      rw [readBlocks_succ hend]
      rw [blocksFrom, if_pos hend] at hfits ⊢
      cases h : readHead b offset s with
      | error e s₁ =>
        rw [bind_error h]
        exact ⟨hhead.error h, rfl⟩
      | ok r s₁ =>
        obtain ⟨hlt, hle, hblock⟩ := hhead.ok h
        rw [bind_ok h]
        rw [h] at hfits
        cases r with
        | none => exact ih offset maxBlockSize out s₁ hlen hle (by omega) hfits
        | some blk =>
          obtain ⟨rfl, hpos⟩ := hblock blk rfl
          have hfit : Fits b alg size blk := by
            refine hfits blk ?_
            dsimp only
            split <;> exact List.mem_cons_self
          have hin := hfit.inFile
          have hreach := hfit.reach
          have hdata := Block.length_data_le lib b alg blk hlib
          rw [turn, if_pos hin]
          rcases decompressBlock_fits lib b alg out blk (by omega) with
            ⟨htrue, out', hrun, hout⟩ | ⟨hfalse, e, hrun, he⟩
          · have hlift : liftExcept (decompressBlock lib alg blk.loc blk.uncompressedSize
                (blk.src b) blk.offset out) s₁ = .ok out' s₁ := by
              unfold liftExcept
              rw [hrun]
            rw [bind_ok hlift]
            simp only [if_pos (And.intro hin htrue)] at hfits ⊢
            have hlen' : out'.data.length = size := by
              rw [hout, length_overwrite (by omega), hlen]
            have hrest := ih (blk.offset + blk.uncompressedSize)
              (max maxBlockSize blk.uncompressedSize) out' s₁ hlen' hle (by omega)
              (fun blk' hblk' => hfits blk' (List.mem_cons_of_mem _ hblk'))
            exact hrest.mono (fun r _ hr => hr.cons hout hlen hfit hpos hlib) (fun _ _ he => he)
          · have hlift : liftExcept (decompressBlock lib alg blk.loc blk.uncompressedSize
                (blk.src b) blk.offset out) s₁ = .error e s₁ := by
              unfold liftExcept
              rw [hrun]
            rw [bind_error hlift]
            refine ⟨he, ?_⟩
            have hno : ¬(blk.InFile b ∧ blk.decompresses lib b alg = true) := fun hboth =>
              absurd (hfalse.symm.trans hboth.2) Bool.false_ne_true
            simp only [if_neg hno]
    · rw [blocksFrom_end hend]
      exact .of_ok (readBlocks_end hend) (Runs.of_end hlen hend)

/-- A run that does not leave a buffer has all of its blocks in the file. -/
theorem inFile_of_readBlocks (fuel : Nat) :
    ∀ (offset maxBlockSize : Nat) (out : Buffer) (s : State),
      (∀ s', readBlocks lib b alg size fuel offset maxBlockSize out s ≠ .error .outside s') →
      ∀ blk ∈ (blocksFrom lib b alg size fuel offset s).1, blk.InFile b := by
  induction fuel with
  | zero =>
    intro offset maxBlockSize out s _ blk hblk
    cases hblk
  | succ fuel ih =>
    intro offset maxBlockSize out s hrun blk hblk
    by_cases hend : offset < size
    · rw [blocksFrom, if_pos hend] at hblk
      rw [readBlocks_succ hend] at hrun
      cases h : readHead b offset s with
      | error e s₁ =>
        rw [h] at hblk
        cases hblk
      | ok r s₁ =>
        rw [h] at hblk
        rw [bind_ok h] at hrun
        cases r with
        | none => exact ih offset maxBlockSize out s₁ hrun blk hblk
        | some first =>
          by_cases hin : first.InFile b
          · rw [turn, if_pos hin] at hrun
            by_cases htrue : first.decompresses lib b alg = true
            · simp only [if_pos (And.intro hin htrue)] at hblk
              rcases List.mem_cons.mp hblk with rfl | hblk
              · exact hin
              · cases hdec : decompressBlock lib alg first.loc first.uncompressedSize (first.src b)
                  offset out with
                | error e =>
                  obtain rfl := decompressBlock_outside htrue hdec
                  have hlift : liftExcept (decompressBlock lib alg first.loc
                      first.uncompressedSize (first.src b) offset out) s₁ = .error .outside s₁ := by
                    unfold liftExcept
                    rw [hdec]
                  rw [bind_error hlift] at hrun
                  exact absurd rfl (hrun s₁)
                | ok out' =>
                  have hlift : liftExcept (decompressBlock lib alg first.loc
                      first.uncompressedSize (first.src b) offset out) s₁ = .ok out' s₁ := by
                    unfold liftExcept
                    rw [hdec]
                  rw [bind_ok hlift] at hrun
                  exact ih _ _ _ _ hrun blk hblk
            · have hno : ¬(first.InFile b ∧ first.decompresses lib b alg = true) :=
                fun hboth => htrue hboth.2
              simp only [if_neg hno] at hblk
              rw [List.mem_singleton.mp hblk]
              exact hin
          · rw [turn, if_neg hin] at hrun
            exact absurd rfl (hrun s₁)
    · rw [blocksFrom_end hend] at hblk
      cases hblk

end Turn

/-! ## Whole files -/

/-- What comes before the blocks: the header, the vector and the algorithm. -/
def openFile (b : ByteBuffer) : Read (XFileBO3 × Buffer × CompressionAlgorithm) := do
  let header ← readHeader b
  let out ← liftExcept (Buffer.resize (header.number .size))
  let alg ← liftExcept (getFastFileCompressionAlgorithm (header.number .compression))
  return (header, out, alg)

/-- The blocks of a file behind its header. -/
def fileBlocks (lib : Libraries) (b : ByteBuffer) (alg : CompressionAlgorithm) (header : XFileBO3)
    (s : State) : List Block × Bool :=
  blocksFrom lib b alg (header.number .size) (b.len + 1) 0 s

/-- The run throws an exception of the code, or returns data that the blocks tile in their order;
and what the decompressor may write is in the vector. -/
structure Safe (lib : Libraries) (b : ByteBuffer) : Prop where
  thrown : ∀ e s, decompressFastfile lib b ⟨0, []⟩ = .error e s → e.Thrown
  inside : ∀ header out alg s, openFile b ⟨0, []⟩ = .ok (header, out, alg) s →
    ∀ blk ∈ (fileBlocks lib b alg header s).1, blk.offset + blk.reach alg ≤ out.data.length
  tiled : ∀ header out alg s, openFile b ⟨0, []⟩ = .ok (header, out, alg) s →
    ∀ info s', decompressFastfile lib b ⟨0, []⟩ = .ok info s' →
      Contiguous 0 ((fileBlocks lib b alg header s).1.map Block.range) (header.number .size) ∧
        info.out.data.length = header.number .size ∧
        info.out.data = (fileBlocks lib b alg header s).1.flatMap (Block.data lib b alg)

/-- The blocks are in the file, and what may be written for them is in the declared size; and if
they come to this size, each of them decompresses to as many bytes as it declares. -/
def WellBlocked (lib : Libraries) (b : ByteBuffer) : Prop :=
  ∀ header out alg s, openFile b ⟨0, []⟩ = .ok (header, out, alg) s →
    (∀ blk ∈ (fileBlocks lib b alg header s).1, Fits b alg (header.number .size) blk) ∧
      ((fileBlocks lib b alg header s).2 = true →
        ∀ blk ∈ (fileBlocks lib b alg header s).1, Full lib b alg blk)

section File

variable {lib : Libraries} {b : ByteBuffer} {alg : CompressionAlgorithm} {header : XFileBO3}
  {out : Buffer} {s : State}

theorem liftExcept_thrown {α : Type} {r : Except Error α} (h : ∀ e, r = .error e → e.Thrown)
    (s : State) :
    EndsIn (liftExcept r) s (fun a s' => r = .ok a ∧ s' = s) (fun e _ => e.Thrown) := by
  cases r with
  | ok a => exact .of_ok rfl ⟨rfl, rfl⟩
  | error e => exact .of_error rfl (h e rfl)

theorem checkHeader_thrown (header : XFileBO3) (e : Error) (h : checkHeader header = .error e) :
    e.Thrown := by
  unfold checkHeader at h
  repeat' split at h
  all_goals cases h
  all_goals constructor <;> intro he <;> cases he

/-- Before the blocks there are exceptions of the code only. -/
theorem openFile_ends : EndsIn (openFile b) ⟨0, []⟩
    (fun r s => r.2.1.data.length = r.1.number .size ∧ s.pointer ≤ b.len)
    (fun e _ => e.Thrown) := by
  have hheader : EndsIn (readHeader b) ⟨0, []⟩ (fun _ s => s.pointer ≤ b.len)
      (fun e _ => e.Thrown) := by
    by_cases hle : headerSize ≤ b.len
    · obtain ⟨header, hholds⟩ : ∃ header : XFileBO3, Holds b.memory 0 header.bytes := by
        refine ⟨⟨slice b 0 headerSize, by rw [slice, List.length_map, List.length_range]⟩, ?_⟩
        intro i hi
        simp only [slice, List.getElem_map, List.getElem_range]
      unfold EndsIn
      rw [readHeader_holds hholds hle]
      have hcheck := liftExcept_thrown (checkHeader_thrown header)
        ⟨headerSize, [(0, headerSize)]⟩
      split
      · rename_i heq
        split at heq
        · rw [(hcheck.ok heq).2]
          exact hle
        · cases heq
      · rename_i heq
        split at heq
        · exact hcheck.error heq
        · cases heq
          constructor <;> intro h <;> cases h
    · have hsmall : readHeader b ⟨0, []⟩ = .error .invalidFastfileSize ⟨0, []⟩ := by
        have hlen := b.len_lt
        have hcan : ¬CanRead b 0 headerSize := by
          rw [canRead_iff (by decide)]
          omega
        show (if ¬CanRead b 0 headerSize then _ else _ : Read XFileBO3) _ = _
        rw [if_pos hcan]
        rfl
      refine .of_error hsmall ?_
      constructor <;> intro h <;> cases h
  unfold openFile
  refine hheader.bind (fun _ _ h => h) ?_
  intro header s hs
  refine (liftExcept_thrown ?_ s).bind (fun _ _ h => h) ?_
  · intro e he
    unfold Buffer.resize at he
    split at he
    · cases he
    · cases he
      constructor <;> intro h <;> cases h
  · rintro out s₁ ⟨hout, rfl⟩
    refine (liftExcept_thrown ?_ s₁).bind (fun _ _ h => h) ?_
    · intro e he
      unfold getFastFileCompressionAlgorithm at he
      split at he
      all_goals cases he
      constructor <;> intro h <;> cases h
    · rintro alg s₂ ⟨-, rfl⟩
      exact .of_ok rfl ⟨length_resize hout, hs⟩

theorem decompressFastfile_eq : decompressFastfile lib b = (openFile b >>= fun r =>
    readBlocks lib b r.2.2 (r.1.number .size) (b.len + 1) 0 0 r.2.1 >>= fun blocks =>
      pure ⟨blocks.1, r.1, blocks.2⟩) := by
  unfold decompressFastfile openFile
  simp only [bind_assoc, pure_bind]

variable (lib) in
/-- The blocks behind the header. -/
theorem decompressFastfile_open (h : openFile b ⟨0, []⟩ = .ok (header, out, alg) s) :
    decompressFastfile lib b ⟨0, []⟩ =
      (readBlocks lib b alg (header.number .size) (b.len + 1) 0 0 out >>= fun r =>
        pure ⟨r.1, header, r.2⟩) s := by
  rw [decompressFastfile_eq, bind_ok h]

variable (lib) in
theorem decompressFastfile_thrown {e : Error} (h : openFile b ⟨0, []⟩ = .error e s) :
    decompressFastfile lib b ⟨0, []⟩ = .error e s := by
  rw [decompressFastfile_eq, bind_error h]

/-- Blocks that tile a range have no more bytes than it, and are full if they have as many. -/
theorem length_flatMap_le (hlib : lib.Bounded) {blocks : List Block} {a e : Nat}
    (h : Contiguous a (blocks.map Block.range) e) :
    a + (blocks.flatMap (Block.data lib b alg)).length ≤ e ∧
      (a + (blocks.flatMap (Block.data lib b alg)).length = e →
        ∀ blk ∈ blocks, Full lib b alg blk) := by
  induction blocks generalizing a with
  | nil =>
    have hend : a = e := h
    exact ⟨Nat.le_of_eq hend, fun _ blk hblk => absurd hblk List.not_mem_nil⟩
  | cons first blocks ih =>
    obtain ⟨hstart, -, hrest⟩ := h
    simp only [Block.range] at hstart hrest
    obtain ⟨hle, hfull⟩ := ih hrest
    have hdata := Block.length_data_le lib b alg first hlib
    have hreach := Block.reach_le alg first
    rw [List.flatMap_cons, List.length_append]
    refine ⟨by omega, ?_⟩
    intro heq blk hblk
    rcases List.mem_cons.mp hblk with rfl | hblk
    · unfold Full
      omega
    · exact hfull (by omega) blk hblk

end File

deriving instance DecidableEq for Core.Bytebuffer.Error, Error

theorem literals_bounded : literals.Bounded := by
  intro alg n src data h
  simp only [literals] at h
  split at h
  · cases h
  · cases h
    omega

/-- A file with one stored block: what its header declares, what the block declares, and its
bytes. -/
def storedBlock (size uncompressedSize : Nat) (bytes : Data) : Data :=
  let header := (exampleHeader XFILE_UNCOMPRESSED size 0).bytes
  let block : DBStreamHeader :=
    { offset := headerSize, uncompressedSize := uncompressedSize,
      compressedSize := bytes.length, alignedSize := bytes.length }
  header ++ block.bytes ++ bytes

theorem readHeader_storedBlock {b : ByteBuffer} {size uncompressedSize : Nat} {bytes : Data}
    (hb : Contains b (storedBlock size uncompressedSize bytes))
    (hreadable : Readable (exampleHeader XFILE_UNCOMPRESSED size 0))
    (halg : getFastFileCompressionAlgorithm
      ((exampleHeader XFILE_UNCOMPRESSED size 0).number .compression) = .ok COMP_NONE) :
    readHeader b ⟨0, []⟩ =
      .ok (exampleHeader XFILE_UNCOMPRESSED size 0) ⟨headerSize, [(0, headerSize)]⟩ := by
  have hprefix : (exampleHeader XFILE_UNCOMPRESSED size 0).bytes <+:
      storedBlock size uncompressedSize bytes :=
    (List.prefix_append _ _).trans (List.prefix_append _ _)
  obtain ⟨hholds, hlen⟩ := hb.start hprefix
  rw [(exampleHeader XFILE_UNCOMPRESSED size 0).length_eq] at hlen
  exact readHeader_readable hholds hlen hreadable halg

/-- Two bytes in a file that declares two. -/
@[irreducible] def declaredTwo : ByteBuffer := bufferOf (storedBlock 2 2 [7, 8]) (by decide +kernel)

/-- Two bytes in a file that declares one. -/
@[irreducible] def declaredOne : ByteBuffer := bufferOf (storedBlock 1 2 [7, 8]) (by decide +kernel)

end Acts.Gsc.ObfuscatorFastfile
