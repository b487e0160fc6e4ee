import Mathlib.Data.List.Basic
import Mathlib.Tactic.Common
import Acts.Lib.Bytes
import Acts.Lib.Checked
import Acts.Fastfile.LinkerReplay
import Acts.Fastfile.LinkerData

/-!
# The sizes of the linker data against the stream loader

* `computeChunkSizeTempLoop_eq`: the sizes of temporary streams are computed as in the memory
  linker.
* `computeChunkSize_eq`: the size of any other stream is a sum, with every alignment at its worst.
* `run_recorded`: after every run the lists of chunks are the commands of the tapes, sorted.
* `link_covers`: what `Link` reports is enough for the loader, wherever the block starts.
-/

set_option autoImplicit false

namespace Acts.Fastfile.Data

open Acts.Lib.Streams

/-! ## Marks -/

/-- The chunk as the memory linker would have it. -/
def LinkerDataChunk.memory (chunk : LinkerDataChunk) : Fastfile.LinkerDataChunk :=
  ⟨chunk.type, chunk.align, none, chunk.size, []⟩

/-- What a chunk leaves on its stream. -/
def LinkerDataChunk.mark (chunk : LinkerDataChunk) : Mark Item := chunk.memory.mark

theorem map_memory_mark (chunks : List LinkerDataChunk) :
    (chunks.map (·.memory)).map (·.mark) = chunks.map (·.mark) := by
  rw [List.map_map]
  rfl

/-- The bytes an item takes at most. -/
def room : Item → Nat
  | .data size => size.toNat
  | .align len => (len - 1).toNat

/-- The sum that the lazy size stands for. -/
def lazySize (marks : List (Mark Item)) : Nat := (marks.map (Mark.weight room)).sum

theorem place_le (k : Item) (p : Nat) : k.place p ≤ p + room k := by
  cases k with
  | data size => exact le_rfl
  | align len => exact Nat.sub_le _ _

/-- For a power of two the place behind an alignment is the next multiple. -/
theorem alignUp_two_pow {len : UInt64} {k : Nat} (h : len.toNat = 2 ^ k) (p : Nat) :
    alignUp len p = Acts.aligned p len.toNat := by
  have hone : (len - 1).toNat = 2 ^ k - 1 := by
    have hle : (1 : UInt64) ≤ len := by
      rw [UInt64.le_iff_toNat_le, h]
      exact Nat.one_le_two_pow
    rw [UInt64.toNat_sub_of_le _ _ hle, h]
    rfl
  unfold alignUp Acts.aligned
  rw [hone, h, Nat.and_two_pow_sub_one_eq_mod, ← Nat.div_mul_self_eq_mod_sub_self]

/-! ## The two recursions -/

theorem computeChunkSize_eq (chunks : List LinkerDataChunk) (n : Nat) :
    computeChunkSize chunks (UInt64.ofNat n) =
      (UInt64.ofNat (n + lazySize (chunks.map (·.mark))), chunks) := by
  induction chunks generalizing n with
  | nil => rfl
  | cons chunk chunks ih =>
    have hsum : lazySize ((chunk :: chunks).map (·.mark)) =
        Mark.weight room chunk.mark + lazySize (chunks.map (·.mark)) := rfl
    have hnext := ih (n + Mark.weight room chunk.mark)
    rw [hsum, ← Nat.add_assoc]
    obtain ⟨type, align, start, size⟩ := chunk
    cases type with
    | data =>
      have hadd : UInt64.ofNat (n + size.toNat) = UInt64.ofNat n + size := by
        rw [UInt64.ofNat_add, UInt64.ofNat_toNat]
      change computeChunkSize chunks (UInt64.ofNat (n + size.toNat)) = _ at hnext
      rw [hadd] at hnext
      simp only [computeChunkSize, hnext]
    | align =>
      have hadd : UInt64.ofNat (n + (align - 1).toNat) = UInt64.ofNat n + (align - 1) := by
        rw [UInt64.ofNat_add, UInt64.ofNat_toNat]
      change computeChunkSize chunks (UInt64.ofNat (n + (align - 1).toNat)) = _ at hnext
      rw [hadd] at hnext
      simp only [computeChunkSize, hnext]
    | pop =>
      change computeChunkSize chunks (UInt64.ofNat n) = _ at hnext
      simp only [computeChunkSize, hnext]
    | push =>
      change computeChunkSize chunks (UInt64.ofNat n) = _ at hnext
      simp only [computeChunkSize, hnext]

theorem computeChunkSizeTempLoop_eq (b : Nat) (chunks : List LinkerDataChunk) (size : UInt64)
    (lens : List UInt64) (maxSize : UInt64) :
    computeChunkSizeTempLoop chunks size lens maxSize =
      (loadChunkSizeTempLoop b (chunks.map (·.memory)) size lens maxSize).map
        fun r => (r.1, chunks) := by
  induction chunks generalizing size lens maxSize with
  | nil => rfl
  | cons chunk chunks ih =>
    have hcons : ∀ x : Except LinkError (UInt64 × List Patch),
        ((x.map fun r => (r.1, chunks)) >>= fun r => pure (r.1, chunk :: r.2)) =
          (x >>= fun r => pure (r.1, applyRefs chunk.memory b size ++ r.2)).map
            fun r => (r.1, chunk :: chunks) := by
      intro x
      cases x with
      | error e => rfl
      | ok r => rfl
    obtain ⟨type, align, start, size'⟩ := chunk
    cases type with
    | data =>
      have hrest := ih (size + size') lens maxSize
      exact (congrArg (· >>= _) hrest).trans (hcons _)
    | align =>
      have hrest := ih (aligned size align) lens maxSize
      exact (congrArg (· >>= _) hrest).trans (hcons _)
    | pop =>
      cases lens with
      | nil => rfl
      | cons top lens =>
        have hrest := ih top lens (if maxSize < size then size else maxSize)
        exact (congrArg (· >>= _) hrest).trans (hcons _)
    | push =>
      have hrest := ih size (size :: lens) maxSize
      exact (congrArg (· >>= _) hrest).trans (hcons _)

/-! ## What an operation does -/

namespace LinkerData

/-- The marks that the chunks of a block stand for. -/
def marks (l : LinkerData) (m : LinkerMode) (b : Nat) : List (Mark Item) :=
  (l.chunks m b).map (·.mark)

/-- Nothing is added to a list of chunks. -/
structure Quiet (l l' : LinkerData) : Prop where
  chunks : l'.chunks = l.chunks
  stack : l'.blockTypes = l.blockTypes
  mode : l'.headerMode = l.headerMode ∨ l.blockTypes = []

/-- The command `c` is added to the list it goes to. -/
structure Emits (l l' : LinkerData) (c : Command Nat Item) : Prop where
  stack : l'.blockTypes = c.scopes l.blockTypes
  mode : l'.headerMode = l.headerMode
  marks : ∃ b, c.stream l.blockTypes = some b ∧ l'.marks = Function.update l.marks l.headerMode
    (Function.update (l.marks l.headerMode) b (l.marks l.headerMode b ++ [c.mark]))

variable {l l' : LinkerData}

theorem marks_emplace (l : LinkerData) (b : Nat) (chunk : LinkerDataChunk) :
    (l.emplace b chunk).marks = Function.update l.marks l.headerMode
      (Function.update (l.marks l.headerMode) b (l.marks l.headerMode b ++ [chunk.mark])) := by
  funext m b'
  by_cases hm : m = l.headerMode <;> by_cases hb : b' = b
  · subst hm hb
    simp [marks, emplace]
  · subst hm
    simp [marks, emplace, hb]
  · simp [marks, emplace, hm]
  · simp [marks, emplace, hm]

theorem emplaceCurrent_ok {chunk : LinkerDataChunk} (h : l.emplaceCurrent chunk = .ok l') :
    ∃ b rest, l.blockTypes = b :: rest ∧ l' = l.emplace b chunk := by
  obtain ⟨b, hb, hret⟩ := ok_of_bind h
  cases hret
  unfold getCurrentStream at hb
  split at hb
  · cases hb
  · rename_i b' rest hstack
    cases hb
    exact ⟨b, rest, hstack, rfl⟩

theorem emits_emplace (c : Command Nat Item) {b : Nat} (chunk : LinkerDataChunk)
    (hc : c.stream l.blockTypes = some b) (hchunk : chunk.mark = c.mark) :
    Emits l { l.emplace b chunk with blockTypes := c.scopes l.blockTypes } c := by
  refine ⟨rfl, rfl, b, hc, ?_⟩
  rw [← hchunk]
  exact marks_emplace l b chunk

theorem emits_pushStream {b : Nat} (h : l.pushStream b = .ok l') : Emits l l' (.push b) := by
  unfold pushStream at h
  split at h
  · cases h
  · cases h
    exact emits_emplace (l := l) (.push b) ⟨.push, 0, 0, 0⟩ rfl rfl

theorem emits_popStream (h : l.popStream = .ok l') : Emits l l' .pop := by
  unfold popStream at h
  split at h
  · cases h
  · obtain ⟨l₁, h₁, hret⟩ := ok_of_bind h
    cases hret
    obtain ⟨b, rest, hstack, rfl⟩ := emplaceCurrent_ok h₁
    exact emits_emplace .pop _ (by rw [hstack]; rfl) rfl

theorem emits_put {chunk : LinkerDataChunk} {k : Item} (h : l.emplaceCurrent chunk = .ok l')
    (hk : chunk.mark = .put k) : Emits l l' (.put k) := by
  obtain ⟨b, rest, hstack, rfl⟩ := emplaceCurrent_ok h
  exact emits_emplace (.put k) _ (by rw [hstack]; rfl) hk

theorem emits_writeData {data : List UInt8} (h : l.writeData data = .ok l') :
    Emits l l' (.put (.data (UInt64.ofNat data.length))) := by
  obtain ⟨l₁, h₁, hret⟩ := ok_of_bind h
  cases hret
  obtain ⟨hstack, hmode, hmarks⟩ := emits_put (k := .data (UInt64.ofNat data.length)) h₁ rfl
  exact ⟨hstack, hmode, hmarks⟩

theorem emits_allocData {size : UInt64} (h : l.allocData size = .ok l') :
    Emits l l' (.put (.data size)) := by
  obtain ⟨l₁, h₁, hret⟩ := ok_of_bind h
  cases hret
  obtain ⟨hstack, hmode, hmarks⟩ := emits_put (k := .data size) h₁ rfl
  exact ⟨hstack, hmode, hmarks⟩

theorem quiet_setMode {mode : LinkerMode} (h : l.setMode mode = .ok l') : Quiet l l' := by
  unfold setMode at h
  split at h
  · cases h
    exact ⟨rfl, rfl, Or.inl rfl⟩
  · split at h
    · cases h
    · rename_i hstack
      cases h
      exact ⟨rfl, rfl, Or.inr (not_not.mp hstack)⟩

/-! ## `Link` -/

/-- A turn of the loop of `Link` leaves the two lists of its block as they were. -/
theorem linkBlock_lists {b : Nat} {r : LinkedBlock} (h : l.linkBlock b = .ok r) :
    r.header = l.chunks .header b ∧ r.data = l.chunks .data b := by
  unfold linkBlock at h
  split at h
  · obtain ⟨⟨size, header⟩, hheader, h⟩ := ok_of_bind h
    obtain ⟨⟨final, data⟩, hdata, hret⟩ := ok_of_bind h
    cases hret
    unfold computeChunkSizeTemp at hheader hdata
    rw [computeChunkSizeTempLoop_eq b] at hheader hdata
    obtain ⟨p, -, hp⟩ := ok_of_map hheader
    obtain ⟨p', -, hp'⟩ := ok_of_map hdata
    exact ⟨(congrArg (·.2) hp).symm, (congrArg (·.2) hp').symm⟩
  · have hheader := computeChunkSize_eq (l.chunks .header b) 0
    have hdata := computeChunkSize_eq (l.chunks .data b)
      (0 + lazySize ((l.chunks .header b).map (·.mark)))
    change computeChunkSize (l.chunks .header b) 0 = _ at hheader
    simp only [hheader, hdata] at h
    cases h
    exact ⟨rfl, rfl⟩

theorem withBlocks_eq {blocks : List LinkedBlock} (h : l.linkBlocks = .ok blocks) :
    l.withBlocks blocks = l := by
  have hchunks : (l.withBlocks blocks).chunks = l.chunks := by
    funext m i
    unfold withBlocks
    cases hi : blocks[i]? with
    | none => simp [hi]
    | some r =>
      obtain ⟨j, hj, hlink⟩ := mapM_getElem? h hi
      obtain ⟨_, hget⟩ := List.getElem?_eq_some_iff.mp hj
      rw [List.getElem_range] at hget
      subst hget
      obtain ⟨hheader, hdata⟩ := linkBlock_lists hlink
      cases m with
      | header => simp [hi, hheader]
      | data => simp [hi, hdata]
  calc l.withBlocks blocks = { l with chunks := (l.withBlocks blocks).chunks } := rfl
    _ = l := by rw [hchunks]

theorem link_ok {data : List UInt8} {r : Linked} (h : l.link data = .ok r) : r.linker = l := by
  unfold link at h
  split at h
  · cases h
  · obtain ⟨blocks, hblocks, hret⟩ := ok_of_bind h
    cases hret
    exact withBlocks_eq hblocks

/-- **What an operation can do**: nothing is added, or its command is. -/
theorem exec_cases {op : LinkerDataOp} (h : l.exec op = .ok l') :
    (op.command = none ∧ Quiet l l') ∨ (∃ c, op.command = some c ∧ Emits l l' c) := by
  cases op with
  | setTempBlock block =>
    cases h
    exact Or.inl ⟨rfl, rfl, rfl, Or.inl rfl⟩
  | setMode mode => exact Or.inl ⟨rfl, quiet_setMode h⟩
  | pushStream blockType => exact Or.inr ⟨_, rfl, emits_pushStream h⟩
  | popStream => exact Or.inr ⟨_, rfl, emits_popStream h⟩
  | align alignment => exact Or.inr ⟨_, rfl, emits_put h rfl⟩
  | allocData size => exact Or.inr ⟨_, rfl, emits_allocData h⟩
  | allocRuntimeData size => exact Or.inr ⟨_, rfl, emits_put h rfl⟩
  | writeData data => exact Or.inr ⟨_, rfl, emits_writeData h⟩
  | writeString str => exact Or.inr ⟨_, rfl, emits_writeData h⟩
  | addString str =>
    cases h
    exact Or.inl ⟨rfl, rfl, rfl, Or.inl rfl⟩
  | addAsset type header =>
    cases h
    exact Or.inl ⟨rfl, rfl, rfl, Or.inl rfl⟩
  | link data =>
    obtain ⟨r, hr, rfl⟩ := ok_of_map h
    rw [link_ok hr]
    exact Or.inl ⟨rfl, rfl, rfl, Or.inl rfl⟩

end LinkerData

/-! ## Runs -/

/-- The lists of chunks hold what the tapes recorded. -/
def Session.Inv (s : Session) : Prop :=
  Recorded s.tape s.linker.headerMode s.linker.blockTypes s.linker.marks

theorem Session.Inv.step {s : Session} (h : s.Inv) (op : LinkerDataOp) : (s.step op).Inv := by
  unfold Session.step
  split
  · exact h
  · rename_i l hl
    unfold Session.Inv at h ⊢
    rcases LinkerData.exec_cases hl with ⟨hc, hq⟩ | ⟨c, hc, he⟩
    · have hmarks : l.marks = s.linker.marks := by
        unfold LinkerData.marks
        rw [hq.chunks]
      simp only [hc, hmarks, hq.stack]
      exact h.switch hq.mode
    · obtain ⟨b, hb, hmarks⟩ := he.marks
      simp only [hc, hmarks, he.mode, he.stack]
      exact h.emit hb

theorem Session.run_inv {s : Session} (h : s.Inv) (ops : List LinkerDataOp) : (s.run ops).Inv := by
  unfold Session.run
  induction ops generalizing s with
  | nil => exact h
  | cons op ops ih => exact ih (h.step op)

theorem Session.new_inv (numBlocks : Nat) (tempBlocks : List Nat) :
    (Session.new numBlocks tempBlocks).Inv := by
  have h : Recorded (fun _ => ([] : List (Command Nat Item))) LinkerMode.header [] fun _ _ => [] :=
    Recorded.start _
  exact h

/-! ## The sizes -/

namespace LinkerData

variable {l : LinkerData}

/-- What the size of a temporary block is. -/
theorem linkBlock_temp {b : Nat} {c c' : Cursor} (htemp : l.isTemp b = true)
    (hh : Cursor.run Item.place true .start (l.marks .header b) = some c) (hc : c.saved = [])
    (hd : Cursor.run Item.place true c (l.marks .data b) = some c') :
    ∃ r, l.linkBlock b = .ok r ∧ (r.size.toNat = c'.peak ↔ c'.peak < 2 ^ 64) := by
  unfold marks at hh hd
  rw [← map_memory_mark] at hh hd
  obtain ⟨r, hr, hlinking⟩ := XBlockLinker.linkBlock_temp (b := b) hh hc hd
  obtain ⟨⟨size, patches⟩, hheader, hr⟩ := ok_of_bind hr
  obtain ⟨⟨final, patches'⟩, hdata, hret⟩ := ok_of_bind hr
  cases hret
  refine ⟨⟨final, l.chunks .header b, l.chunks .data b⟩, ?_, hlinking.size⟩
  have hheader' : computeChunkSizeTemp (l.chunks .header b) 0 0 =
      .ok (size, l.chunks .header b) := by
    unfold computeChunkSizeTemp
    rw [computeChunkSizeTempLoop_eq b]
    exact congrArg (Except.map _) hheader
  have hdata' : computeChunkSizeTemp (l.chunks .data b) 0 size =
      .ok (final, l.chunks .data b) := by
    unfold computeChunkSizeTemp
    rw [computeChunkSizeTempLoop_eq b]
    exact congrArg (Except.map _) hdata
  unfold linkBlock
  rw [if_pos htemp, hheader']
  show (computeChunkSizeTemp (l.chunks .data b) 0 size >>= _) = _
  rw [hdata']
  rfl

/-- What the size of any other block is. -/
theorem linkBlock_plain {b : Nat} (htemp : l.isTemp b = false) :
    l.linkBlock b = .ok ⟨UInt64.ofNat (lazySize (l.marks .header b ++ l.marks .data b)),
      l.chunks .header b, l.chunks .data b⟩ := by
  have hheader := computeChunkSize_eq (l.chunks .header b) 0
  have hdata := computeChunkSize_eq (l.chunks .data b) (0 + lazySize (l.marks .header b))
  have hsum : lazySize (l.marks .header b ++ l.marks .data b) =
      0 + lazySize (l.marks .header b) + lazySize (l.marks .data b) := by
    unfold lazySize
    rw [List.map_append, List.sum_append, Nat.zero_add]
  have hnot : ¬l.isTemp b = true := by simp [htemp]
  change computeChunkSize (l.chunks .header b) 0 =
    (UInt64.ofNat (0 + lazySize (l.marks .header b)), _) at hheader
  unfold linkBlock
  rw [if_neg hnot, hsum]
  simp only [hheader, hdata]
  rfl

end LinkerData

/-- **The size that `Link` reports for the block `b` is enough.**  A temporary block has exactly
what the loader needs, if that fits in a `size_t`.  Any other block has enough for the loader, and
for its chunks from every `base` that the block may have, if the lazy sum fits. -/
structure Covers (s : Session) (loader : Loader Nat) (b : Nat) (size : UInt64) : Prop where
  temp : s.linker.isTemp b = true → loader.peak b < 2 ^ 64 → size.toNat = loader.peak b
  plain : s.linker.isTemp b = false →
    lazySize (s.linker.marks .header b ++ s.linker.marks .data b) < 2 ^ 64 →
    loader.peak b ≤ size.toNat ∧
    ∀ base, ∃ c, Cursor.run Item.place false ⟨base, base, [], []⟩
      (s.linker.marks .header b ++ s.linker.marks .data b) = some c ∧
      c.position - base ≤ size.toNat

theorem covers_plain {s : Session} {loader : Loader Nat} {b : Nat} {c : Cursor}
    (htemp : s.linker.isTemp b = false)
    (hh : Cursor.run Item.place false .start (s.linker.marks .header b) = some c)
    (hd : Cursor.run Item.place false c (s.linker.marks .data b) = some (loader.cursor b)) :
    Covers s loader b
      (UInt64.ofNat (lazySize (s.linker.marks .header b ++ s.linker.marks .data b))) := by
  have hrun := Cursor.run_append hh hd
  refine ⟨fun h => ?_, fun _ hfits => ?_⟩
  · rw [htemp] at h
    cases h
  · rw [UInt64.toNat_ofNat', Nat.mod_eq_of_lt hfits]
    constructor
    · have hpeak : (loader.cursor b).position = (loader.cursor b).peak :=
        Cursor.position_peak le_place rfl hrun
      have hle := Cursor.position_le place_le hrun
      rw [hpeak] at hle
      exact hle.trans_eq (Nat.zero_add _)
    · intro base
      have hlen : Cursor.start.saved.length = (⟨base, base, [], []⟩ : Cursor).saved.length := rfl
      obtain ⟨c', hc'⟩ := Cursor.run_defined hlen hrun
      exact ⟨c', hc', Nat.sub_le_iff_le_add'.mpr (Cursor.position_le place_le hc')⟩

/-- **After every sequence of operations that closes its streams, `Link` succeeds and leaves the
lists of chunks as they are, the loader runs through, and the size of every block is enough.** -/
theorem link_covers (numBlocks : Nat) (tempBlocks : List Nat) (ops : List LinkerDataOp)
    (data : List UInt8) (hclosed : ((Session.new numBlocks tempBlocks).run ops).linker.blockTypes = []) :
    ∃ r loader, ((Session.new numBlocks tempBlocks).run ops).linker.link data = .ok r ∧
      r.linker = ((Session.new numBlocks tempBlocks).run ops).linker ∧
      ((Session.new numBlocks tempBlocks).run ops).replay = some loader ∧
      List.Forall₂ (Covers ((Session.new numBlocks tempBlocks).run ops) loader)
        (List.range ((Session.new numBlocks tempBlocks).run ops).linker.numBlocks) r.blocks := by
  have hinv := Session.run_inv (Session.new_inv numBlocks tempBlocks) ops
  generalize (Session.new numBlocks tempBlocks).run ops = s at hinv hclosed ⊢
  have hrecorded : Recorded s.tape s.linker.headerMode [] s.linker.marks := by
    rw [← hclosed]
    exact hinv
  obtain ⟨loader, hloader, hcursors⟩ := hrecorded.replay Item.place s.linker.isTemp .header .data
  have hblock : ∀ b, ∃ r, s.linker.linkBlock b = .ok r ∧ Covers s loader b r.size := by
    intro b
    obtain ⟨c, hh, hc, hd⟩ := hcursors b
    cases htemp : s.linker.isTemp b with
    | true =>
      rw [htemp] at hh hd
      obtain ⟨r, hr, hsize⟩ := LinkerData.linkBlock_temp htemp hh hc hd
      refine ⟨r, hr, fun _ hfits => hsize.mpr hfits, fun h => ?_⟩
      rw [htemp] at h
      cases h
    | false =>
      rw [htemp] at hh hd
      exact ⟨_, LinkerData.linkBlock_plain htemp, covers_plain htemp hh hd⟩
  obtain ⟨blocks, hblocks, hcovers⟩ := mapM_of_forall hblock (List.range s.linker.numBlocks)
  refine ⟨⟨s.linker.withBlocks blocks, data ++ s.linker.fileData .header ++ s.linker.fileData .data,
    blocks.map (·.size)⟩, loader, ?_, LinkerData.withBlocks_eq hblocks, hloader, ?_⟩
  · unfold LinkerData.link
    have hnot : ¬s.linker.blockTypes ≠ [] := not_not.mpr hclosed
    have hok : s.linker.linkBlocks = .ok blocks := hblocks
    rw [if_neg hnot, hok]
    rfl
  · rw [List.forall₂_map_right_iff]
    exact hcovers

/-- A temporary block with a scope of another block in it, and an alignment that takes 7 bytes. -/
def nestedOps : List LinkerDataOp :=
  [.setMode .data, .pushStream 0, .writeData [1, 2, 3], .pushStream 1, .writeString [65, 66],
    .align 4, .writeData [4], .align 8, .popStream, .align 2, .popStream]

theorem nested_covered : ∃ r loader, ((Session.new 2 [0]).run nestedOps).linker.link [] = .ok r ∧
    r.linker = ((Session.new 2 [0]).run nestedOps).linker ∧
    ((Session.new 2 [0]).run nestedOps).replay = some loader ∧
    List.Forall₂ (Covers ((Session.new 2 [0]).run nestedOps) loader)
      (List.range ((Session.new 2 [0]).run nestedOps).linker.numBlocks) r.blocks :=
  link_covers 2 [0] nestedOps [] (by decide)

/-- Two halves of the address space in one block. -/
def halvesOps : List LinkerDataOp :=
  [.pushStream 0, .allocRuntimeData 0x8000000000000000, .allocRuntimeData 0x8000000000000000,
    .popStream]

/-- The two halves are linked to a block of size 0. -/
def HalvesLost (tempBlocks : List Nat) : Prop :=
  ∃ r loader, ((Session.new 1 tempBlocks).run halvesOps).linker.blockTypes = [] ∧
    ((Session.new 1 tempBlocks).run halvesOps).linker.link [] = .ok r ∧
    ((Session.new 1 tempBlocks).run halvesOps).replay = some loader ∧
    r.blocks.map (·.toNat) = [0] ∧ loader.peak 0 = 2 ^ 64

theorem halvesLost_of_run {tempBlocks : List Nat}
    (hclosed : ((Session.new 1 tempBlocks).run halvesOps).linker.blockTypes = [])
    (hrun : ((((Session.new 1 tempBlocks).run halvesOps).linker.link []).toOption.bind fun r =>
      ((Session.new 1 tempBlocks).run halvesOps).replay.map fun loader =>
        (r.blocks.map (·.toNat), loader.peak 0)) = some ([0], 2 ^ 64)) :
    HalvesLost tempBlocks := by
  obtain ⟨r, hr, hrun⟩ := Option.bind_eq_some_iff.mp hrun
  obtain ⟨loader, hloader, hpair⟩ := Option.map_eq_some_iff.mp hrun
  obtain ⟨hblocks, hpeak⟩ := Prod.mk.inj hpair
  exact ⟨r, loader, hclosed, ok_of_toOption hr, hloader, hblocks, hpeak⟩

/-- The sum wraps to 0, as a temporary block and as any other. -/
theorem halves_lost : HalvesLost [] ∧ HalvesLost [0] :=
  ⟨halvesLost_of_run (by decide +kernel) (by decide +kernel),
    halvesLost_of_run (by decide +kernel) (by decide +kernel)⟩

end Acts.Fastfile.Data
