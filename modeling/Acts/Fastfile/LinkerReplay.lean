import Mathlib.Data.List.Basic
import Mathlib.Tactic.Common
import Acts.Lib.Checked
import Acts.Fastfile.LinkerMemory

/-!
# The linked sizes and references against the stream loader

`Link` computes sizes block by block, with wrapping arithmetic and a stack of lengths for each
temporary block.  The loader runs the emitted commands in one sequence, with one stack of scopes
and unbounded positions.

* `loadChunkSize_spec`, `loadChunkSizeTempLoop_spec`: the two recursions follow the cursor of
  their block.
* `run_inv`: after every run the lists of the blocks are the commands of the tapes, sorted.
* `link_follows_iff`: what `Link` returns is what the loader finds, exactly when every position
  fits in a `size_t` and every referenced chunk fits in the packed form of a reference.
-/

set_option autoImplicit false

namespace Acts.Fastfile

open Acts.Lib Acts.Lib.Streams

/-! ## Arithmetic -/

theorem and_add_and_not (y m : UInt64) : (y &&& m) + (y &&& ~~~m) = y := by
  have h : (y.toBitVec &&& m.toBitVec) + (y.toBitVec &&& ~~~m.toBitVec) = y.toBitVec := by
    rw [BitVec.add_eq_or_of_and_eq_zero]
    · ext i hi
      simp only [BitVec.getElem_or, BitVec.getElem_and, BitVec.getElem_not]
      cases y.toBitVec[i] <;> simp
    · ext i hi
      simp only [BitVec.getElem_and, BitVec.getElem_not, BitVec.getElem_zero]
      cases y.toBitVec[i] <;> simp
  exact UInt64.toBitVec_inj.mp h

/-- The aligned position of the source is the aligned position of the loader, wrapped. -/
theorem aligned_ofNat (len : UInt64) (p : Nat) :
    aligned (UInt64.ofNat p) len = UInt64.ofNat (alignUp len p) := by
  unfold aligned alignUp
  generalize len - 1 = m
  have hy : UInt64.ofNat p + m = UInt64.ofNat (p + m.toNat) := by
    rw [UInt64.ofNat_add, UInt64.ofNat_toNat]
  have hand : UInt64.ofNat (p + m.toNat) &&& m = UInt64.ofNat ((p + m.toNat) &&& m.toNat) := by
    rw [UInt64.ofNat_and, UInt64.ofNat_toNat]
  have hsplit := and_add_and_not (UInt64.ofNat (p + m.toNat)) m
  have hle : (p + m.toNat) &&& m.toNat ≤ p + m.toNat := Nat.and_le_left
  have hadd : UInt64.ofNat (p + m.toNat) = UInt64.ofNat ((p + m.toNat) &&& m.toNat) +
      UInt64.ofNat (p + m.toNat - ((p + m.toNat) &&& m.toNat)) := by
    rw [← UInt64.ofNat_add, Nat.add_sub_cancel' hle]
  rw [hy]
  rw [hand] at hsplit
  exact (UInt64.add_right_inj _).mp (hsplit.trans hadd)

theorem le_alignUp (len : UInt64) (p : Nat) : p ≤ alignUp len p := by
  have h : (p + (len - 1).toNat) &&& (len - 1).toNat ≤ (len - 1).toNat := Nat.and_le_right
  unfold alignUp
  omega

theorem le_place (k : Item) (p : Nat) : p ≤ k.place p := by
  cases k with
  | data size => exact Nat.le_add_right _ _
  | align len => exact le_alignUp len p

theorem packRef_toNat (b : Nat) (size : UInt64) :
    (packRef b size - 1).toNat = size.toNat ||| (b % 16 * 2 ^ 60) := by
  unfold packRef
  have h60 : (60 : UInt64).toNat % 64 = 60 := rfl
  have hshift : b % 2 ^ 64 * 2 ^ 60 % 2 ^ 64 = b % 16 * 2 ^ 60 := by omega
  rw [UInt64.add_sub_cancel, UInt64.toNat_or, UInt64.toNat_shiftLeft, UInt64.toNat_ofNat', h60,
    Nat.shiftLeft_eq, hshift]

theorem dbGetOffsetData_eq (ref : UInt64) :
    dbGetOffsetData ref = ((ref - 1).toNat / 2 ^ 60, (ref - 1).toNat % 2 ^ 60) := by
  unfold dbGetOffsetData
  rw [UInt64.toNat_shiftRight, UInt64.toNat_and]
  congr 1
  · exact Nat.shiftRight_eq_div_pow _ _
  · exact Nat.and_two_pow_sub_one_eq_mod _ 60

/-- The reader finds the block and the offset in a packed reference, if they fit. -/
theorem dbGetOffsetData_packRef (b p : Nat) :
    dbGetOffsetData (packRef b (UInt64.ofNat p)) = (b, p) ↔ b < 16 ∧ p < 2 ^ 60 := by
  have hblock : ((p % 2 ^ 64) ||| (b % 16 * 2 ^ 60)) / 2 ^ 60 = p % 2 ^ 64 / 2 ^ 60 ||| b % 16 := by
    rw [Nat.or_div_two_pow, Nat.mul_div_cancel _ (by decide)]
  have hoffset : ((p % 2 ^ 64) ||| (b % 16 * 2 ^ 60)) % 2 ^ 60 = p % 2 ^ 60 := by
    rw [Nat.or_mod_two_pow, Nat.mul_mod_left, Nat.or_zero]
    omega
  rw [dbGetOffsetData_eq, packRef_toNat, UInt64.toNat_ofNat', hblock, hoffset]
  constructor
  · intro h
    obtain ⟨hb, hp⟩ := Prod.mk.inj h
    have hp' : p < 2 ^ 60 := by omega
    rw [show p % 2 ^ 64 / 2 ^ 60 = 0 by omega, Nat.zero_or] at hb
    exact ⟨by omega, hp'⟩
  · rintro ⟨hb, hp⟩
    rw [show p % 2 ^ 64 / 2 ^ 60 = 0 by omega, Nat.zero_or, Nat.mod_eq_of_lt hb,
      Nat.mod_eq_of_lt hp]

/-! ## The recursions of `Link` -/

/-- What a chunk leaves on its stream. -/
def LinkerDataChunk.mark (chunk : LinkerDataChunk) : Mark Item :=
  match chunk.type with
  | .data => .put (.data chunk.size)
  | .align => .put (.align chunk.align)
  | .pop => .closed
  | .push => .opened

/-- The references of the chunks of a block that start at the given positions. -/
def placed (b : Nat) (chunks : List LinkerDataChunk) (starts : List Nat) :
    List (UInt64 × (Nat × Nat)) :=
  (chunks.zip starts).flatMap fun (chunk, start) => chunk.refs.map (·, (b, start))

/-- The patch the source makes for a reference. -/
def patchOf (r : UInt64 × (Nat × Nat)) : Patch := (r.1, packRef r.2.1 (UInt64.ofNat r.2.2))

theorem placed_append {b : Nat} {cs₁ cs₂ : List LinkerDataChunk} {ps₁ ps₂ : List Nat}
    (h : ps₁.length = cs₁.length) :
    placed b (cs₁ ++ cs₂) (ps₁ ++ ps₂) = placed b cs₁ ps₁ ++ placed b cs₂ ps₂ := by
  unfold placed
  rw [List.zip_append h.symm, List.flatMap_append]

theorem applyRefs_eq (b : Nat) (chunk : LinkerDataChunk) (p : Nat) :
    applyRefs chunk b (UInt64.ofNat p) = (placed b [chunk] [p]).map patchOf := by
  simp [placed, applyRefs, patchOf, List.map_map, Function.comp_def]

theorem placed_cons (b : Nat) (chunk : LinkerDataChunk) (cs : List LinkerDataChunk) (p : Nat)
    (ps : List Nat) : placed b (chunk :: cs) (p :: ps) = placed b [chunk] [p] ++ placed b cs ps := by
  show placed b ([chunk] ++ cs) ([p] ++ ps) = _
  exact placed_append rfl

theorem place_ofNat (k : Item) (p : Nat) :
    UInt64.ofNat (k.place p) = match k with
      | .data size => UInt64.ofNat p + size
      | .align len => aligned (UInt64.ofNat p) len := by
  cases k with
  | data size =>
    show UInt64.ofNat (p + size.toNat) = _
    rw [UInt64.ofNat_add, UInt64.ofNat_toNat]
  | align len => exact (aligned_ofNat len p).symm

/-- The chunks of a block as its cursor sees them: the positions before each chunk are new. -/
theorem loadChunkSize_spec {b : Nat} {chunks : List LinkerDataChunk} {c c' : Cursor}
    (h : Cursor.run Item.place false c (chunks.map (·.mark)) = some c') :
    ∃ ps, ps.length = chunks.length ∧ c'.starts = c.starts ++ ps ∧
      loadChunkSize b chunks (UInt64.ofNat c.position) =
        (UInt64.ofNat c'.position, (placed b chunks ps).map patchOf) := by
  induction chunks generalizing c with
  | nil =>
    cases h
    exact ⟨[], rfl, (List.append_nil _).symm, rfl⟩
  | cons chunk chunks ih =>
    obtain ⟨c₁, hc₁, hrest⟩ := Option.bind_eq_some_iff.mp h
    obtain ⟨ps, hlen, hstarts, hload⟩ := ih hrest
    have hstep : c₁.starts = c.starts ++ [c.position] ∧
        loadChunkSize b (chunk :: chunks) (UInt64.ofNat c.position) =
          ((loadChunkSize b chunks (UInt64.ofNat c₁.position)).1,
            applyRefs chunk b (UInt64.ofNat c.position) ++
              (loadChunkSize b chunks (UInt64.ofNat c₁.position)).2) := by
      obtain ⟨type, align, data, size, refs⟩ := chunk
      cases type with
      | data =>
        obtain ⟨-, rfl⟩ := Cursor.step_put hc₁
        refine ⟨rfl, ?_⟩
        rw [place_ofNat]
        rfl
      | align =>
        obtain ⟨-, rfl⟩ := Cursor.step_put hc₁
        refine ⟨rfl, ?_⟩
        rw [place_ofNat]
        rfl
      | pop =>
        obtain ⟨p, rest, -, rfl⟩ := Cursor.step_closed hc₁
        exact ⟨rfl, rfl⟩
      | push =>
        cases Cursor.step_opened hc₁
        exact ⟨rfl, rfl⟩
    refine ⟨c.position :: ps, congrArg (· + 1) hlen, ?_, ?_⟩
    · rw [hstarts, hstep.1, List.append_assoc]
      rfl
    · rw [hstep.2, hload, placed_cons, List.map_append, applyRefs_eq]

theorem maxSize_toNat {c : Cursor} {maxSize : UInt64} (hb : c.Bounded) (hpeak : c.peak < 2 ^ 64)
    (hmax : max maxSize.toNat c.position = c.peak) :
    (if maxSize < UInt64.ofNat c.position then UInt64.ofNat c.position else maxSize).toNat =
      c.peak := by
  have hposition : (UInt64.ofNat c.position).toNat = c.position := by
    rw [UInt64.toNat_ofNat', Nat.mod_eq_of_lt (hb.position.trans_lt hpeak)]
  split
  · rename_i hlt
    rw [UInt64.lt_iff_toNat_lt, hposition] at hlt
    rw [hposition]
    omega
  · rename_i hle
    rw [UInt64.lt_iff_toNat_lt, hposition] at hle
    omega

theorem max_place {c : Cursor} {m : Nat} (h : max m c.position = c.peak) (k : Item) :
    max m (k.place c.position) = max c.peak (k.place c.position) := by
  have hle := le_place k c.position
  omega

/-- The temporary recursion never finds its stack of lengths empty, and its size is the peak of
the cursor if that fits. -/
theorem loadChunkSizeTempLoop_spec {b : Nat} {chunks : List LinkerDataChunk} {c c' : Cursor}
    (maxSize : UInt64) (h : Cursor.run Item.place true c (chunks.map (·.mark)) = some c')
    (hb : c.Bounded) :
    ∃ ps final, ps.length = chunks.length ∧ c'.starts = c.starts ++ ps ∧
      loadChunkSizeTempLoop b chunks (UInt64.ofNat c.position) (c.saved.map UInt64.ofNat) maxSize =
        .ok (final, (placed b chunks ps).map patchOf) ∧
      (c'.peak < 2 ^ 64 → max maxSize.toNat c.position = c.peak → final.toNat = c'.peak) := by
  induction chunks generalizing c maxSize with
  | nil =>
    cases h
    refine ⟨[], _, rfl, (List.append_nil _).symm, rfl, fun hpeak hmax => ?_⟩
    exact maxSize_toNat hb hpeak hmax
  | cons chunk chunks ih =>
    obtain ⟨c₁, hc₁, hrest⟩ := Option.bind_eq_some_iff.mp h
    have hstep : c₁.starts = c.starts ++ [c.position] ∧ ∃ maxSize₁ : UInt64,
        loadChunkSizeTempLoop b (chunk :: chunks) (UInt64.ofNat c.position)
          (c.saved.map UInt64.ofNat) maxSize =
          (loadChunkSizeTempLoop b chunks (UInt64.ofNat c₁.position)
            (c₁.saved.map UInt64.ofNat) maxSize₁ >>= fun r =>
              pure (r.1, applyRefs chunk b (UInt64.ofNat c.position) ++ r.2)) ∧
        (c₁.peak < 2 ^ 64 → max maxSize.toNat c.position = c.peak →
          max maxSize₁.toNat c₁.position = c₁.peak) := by
      obtain ⟨type, align, data, size, refs⟩ := chunk
      cases type with
      | data =>
        obtain ⟨-, rfl⟩ := Cursor.step_put hc₁
        refine ⟨rfl, maxSize, ?_, fun _ hmax => max_place hmax (.data size)⟩
        rw [place_ofNat]
        rfl
      | align =>
        obtain ⟨-, rfl⟩ := Cursor.step_put hc₁
        refine ⟨rfl, maxSize, ?_, fun _ hmax => max_place hmax (.align align)⟩
        rw [place_ofNat]
        rfl
      | pop =>
        obtain ⟨p, rest, hsaved, rfl⟩ := Cursor.step_closed hc₁
        refine ⟨rfl, _, by rw [hsaved]; rfl, fun hpeak hmax => ?_⟩
        have hp := hb.saved p (by rw [hsaved]; exact List.mem_cons_self)
        rw [maxSize_toNat hb hpeak hmax]
        exact max_eq_left hp
      | push =>
        cases Cursor.step_opened hc₁
        exact ⟨rfl, maxSize, rfl, fun _ hmax => hmax⟩
    obtain ⟨hstarts₁, maxSize₁, hloop, hmax₁⟩ := hstep
    obtain ⟨ps, final, hlen, hstarts, hload, hfinal⟩ := ih maxSize₁ hrest (hb.step hc₁)
    refine ⟨c.position :: ps, final, congrArg (· + 1) hlen, ?_, ?_, ?_⟩
    · rw [hstarts, hstarts₁, List.append_assoc]
      rfl
    · rw [hloop, hload, placed_cons, List.map_append, applyRefs_eq]
      rfl
    · intro hpeak hmax
      exact hfinal hpeak (hmax₁ ((Cursor.peak_le hrest).trans_lt hpeak) hmax)

/-! ## What an operation does -/

namespace XBlockLinker

/-- The marks that the chunks of a block stand for. -/
def marks (l : XBlockLinker) (m : LinkerMode) (b : Nat) : List (Mark Item) :=
  ((l.blocks b).data m).map (·.mark)

/-- A block without chunks has no size left from an earlier `Link`. -/
def Unused (l : XBlockLinker) : Prop :=
  ∀ b, (∀ m, l.marks m b = []) → (l.blocks b).finalSize = 0

/-- Nothing is added to a block. -/
structure Quiet (l l' : XBlockLinker) : Prop where
  marks : l'.marks = l.marks
  stack : l'.blockStack = l.blockStack
  mode : l'.linkerMode = l.linkerMode ∨ l.blockStack = []
  unused : l.Unused → l'.Unused

/-- The command `c` is added to the block it goes to. -/
structure Emits (l l' : XBlockLinker) (c : Command Nat Item) : Prop where
  stack : l'.blockStack = c.scopes l.blockStack
  mode : l'.linkerMode = l.linkerMode
  marks : ∃ b, c.stream l.blockStack = some b ∧ l'.marks = Function.update l.marks l.linkerMode
    (Function.update (l.marks l.linkerMode) b (l.marks l.linkerMode b ++ [c.mark]))
  unused : l.Unused → l'.Unused

variable {l l' : XBlockLinker}

theorem marks_append (l : XBlockLinker) (b : Nat) (chunk : LinkerDataChunk) :
    (l.append b chunk).marks = Function.update l.marks l.linkerMode
      (Function.update (l.marks l.linkerMode) b (l.marks l.linkerMode b ++ [chunk.mark])) := by
  funext m b'
  by_cases hm : m = l.linkerMode <;> by_cases hb : b' = b
  · subst hm hb
    simp [marks, append, setBlock]
  · subst hm
    simp [marks, append, setBlock, hb]
  · subst hb
    simp [marks, append, setBlock, hm]
  · simp [marks, append, setBlock, hm, hb]

theorem finalSize_append (l : XBlockLinker) (b : Nat) (chunk : LinkerDataChunk) (b' : Nat) :
    ((l.append b chunk).blocks b').finalSize = (l.blocks b').finalSize := by
  by_cases hb : b' = b
  · subst hb
    simp [append, setBlock]
  · simp [append, setBlock, hb]

theorem marks_modifyChunk (l : XBlockLinker) (p : ChunkPtr)
    {f : LinkerDataChunk → LinkerDataChunk} (hf : ∀ c, (f c).mark = c.mark) :
    (l.modifyChunk p f).marks = l.marks := by
  have hmap : ∀ (cs : List LinkerDataChunk) (i : Nat),
      (cs.modify i f).map (·.mark) = cs.map (·.mark) := by
    intro cs i
    induction cs generalizing i with
    | nil => simp
    | cons c cs ih => cases i <;> simp [hf, ih]
  funext m b
  by_cases hb : b = p.block
  · subst hb
    by_cases hm : m = p.mode
    · subst hm
      simp [marks, modifyChunk, setBlock, hmap]
    · simp [marks, modifyChunk, setBlock, hm]
  · simp [marks, modifyChunk, setBlock, hb]

theorem finalSize_modifyChunk (l : XBlockLinker) (p : ChunkPtr)
    (f : LinkerDataChunk → LinkerDataChunk) (b : Nat) :
    ((l.modifyChunk p f).blocks b).finalSize = (l.blocks b).finalSize := by
  by_cases hb : b = p.block
  · subst hb
    simp [modifyChunk, setBlock]
  · simp [modifyChunk, setBlock, hb]

theorem quiet_modifyChunk (l : XBlockLinker) (p : ChunkPtr)
    {f : LinkerDataChunk → LinkerDataChunk} (hf : ∀ c, (f c).mark = c.mark) :
    Quiet l (l.modifyChunk p f) := by
  refine ⟨marks_modifyChunk l p hf, rfl, Or.inl rfl, fun h b hb => ?_⟩
  rw [marks_modifyChunk l p hf] at hb
  rw [finalSize_modifyChunk]
  exact h b hb

theorem quiet_setData (l : XBlockLinker) (p : ChunkPtr) (data : List UInt8) :
    Quiet l (l.modifyChunk p fun c => { c with data := some data }) :=
  quiet_modifyChunk l p fun _ => rfl

theorem quiet_zone (l : XBlockLinker) (zone : LinkerMode → List ChunkPtr) :
    Quiet l { l with zone := zone } :=
  ⟨rfl, rfl, Or.inl rfl, fun h => h⟩

theorem Emits.trans_quiet {l₁ l₂ : XBlockLinker} {c : Command Nat Item} (h : Emits l l₁ c)
    (hq : Quiet l₁ l₂) (hmode : l₂.linkerMode = l₁.linkerMode) : Emits l l₂ c := by
  obtain ⟨b, hb, hmarks⟩ := h.marks
  exact ⟨hq.stack.trans h.stack, hmode.trans h.mode, ⟨b, hb, hq.marks.trans hmarks⟩,
    fun hu => hq.unused (h.unused hu)⟩

/-- The chunk of a command, added when `b` is the current block. -/
theorem emits_append {c : Command Nat Item} {b : Nat} {chunk : LinkerDataChunk}
    (stack : List Nat) (hc : c.stream l.blockStack = some b) (hchunk : chunk.mark = c.mark)
    (hstack : stack = c.scopes l.blockStack) :
    Emits l { l.append b chunk with blockStack := stack } c := by
  have hmarks := marks_append l b chunk
  refine ⟨hstack, rfl, ⟨b, hc, by rw [← hchunk]; exact hmarks⟩, fun h b' hb' => ?_⟩
  show ((l.append b chunk).blocks b').finalSize = 0
  rw [finalSize_append]
  refine h b' fun m => ?_
  have hm : (l.append b chunk).marks m b' = [] := hb' m
  rw [hmarks] at hm
  by_cases hmode : m = l.linkerMode
  · subst hmode
    rw [Function.update_self] at hm
    by_cases heq : b' = b
    · subst heq
      rw [Function.update_self] at hm
      exact absurd hm (by simp)
    · rwa [Function.update_of_ne heq] at hm
  · rwa [Function.update_of_ne hmode] at hm

theorem getBlock_ok {b : Nat} (h : l.getBlock = .ok b) : ∃ rest, l.blockStack = b :: rest := by
  unfold getBlock at h
  split at h
  · cases h
  · rename_i b' rest hstack
    cases h
    exact ⟨rest, hstack⟩

theorem addChunk_ok {type : LinkerDataChunkType} {align size : UInt64} {p : ChunkPtr}
    (h : l.addChunk type align size = .ok (l', p)) :
    ∃ b rest, l.blockStack = b :: rest ∧ l' = l.append b ⟨type, align, none, size, []⟩ := by
  obtain ⟨b, hb, hret⟩ := ok_of_bind h
  obtain ⟨rest, hstack⟩ := getBlock_ok hb
  cases hret
  exact ⟨b, rest, hstack, rfl⟩

/-- An item is added to the current block. -/
theorem emits_put {type : LinkerDataChunkType} {align size : UInt64} {p : ChunkPtr} {k : Item}
    (h : l.addChunk type align size = .ok (l', p))
    (hk : LinkerDataChunk.mark ⟨type, align, none, size, []⟩ = .put k) :
    Emits l l' (.put k) := by
  obtain ⟨b, rest, hstack, rfl⟩ := addChunk_ok h
  exact emits_append _ (by rw [hstack]; rfl) hk rfl

theorem emits_pushStream {b : Nat} (h : l.pushStream b = .ok l') : Emits l l' (.push b) := by
  obtain ⟨-, -, h⟩ := ok_of_bind h
  split at h
  · cases h
  · obtain ⟨⟨l₁, p⟩, h₁, hret⟩ := ok_of_bind h
    cases hret
    obtain ⟨b', rest, hstack, rfl⟩ := addChunk_ok h₁
    cases hstack
    exact emits_append (l := l) (b :: l.blockStack) rfl rfl rfl

theorem emits_popStream (h : l.popStream = .ok l') : Emits l l' .pop := by
  unfold popStream at h
  split at h
  · cases h
  · obtain ⟨⟨l₁, p⟩, h₁, hret⟩ := ok_of_bind h
    cases hret
    obtain ⟨b, rest, hstack, rfl⟩ := addChunk_ok h₁
    exact emits_append _ (by rw [hstack]; rfl) rfl rfl

theorem emits_allocStream {size : UInt64} {p : ChunkPtr} (h : l.allocStream size = .ok (l', p)) :
    Emits l l' (.put (.data size)) := by
  obtain ⟨b, -, h⟩ := ok_of_bind h
  split at h
  · cases h
  · obtain ⟨⟨l₁, p₁⟩, h₁, hret⟩ := ok_of_bind h
    cases hret
    have hzone := (emits_put (k := .data size) h₁ rfl).trans_quiet (quiet_zone l₁
      (Function.update l₁.zone l₁.linkerMode (l₁.zone l₁.linkerMode ++ [p]))) rfl
    exact hzone.trans_quiet (quiet_setData _ _ _) rfl

theorem emits_writeStream {data : List UInt8} {p : ChunkPtr}
    (h : l.writeStream data = .ok (l', p)) :
    Emits l l' (.put (.data (UInt64.ofNat data.length))) := by
  obtain ⟨⟨l₁, p₁⟩, h₁, hret⟩ := ok_of_bind h
  cases hret
  exact (emits_allocStream h₁).trans_quiet (quiet_setData _ _ _) rfl

theorem quiet_setMode {mode : LinkerMode} (h : l.setMode mode = .ok l') : Quiet l l' := by
  unfold setMode at h
  split at h
  · cases h
    exact ⟨rfl, rfl, Or.inl rfl, fun hu => hu⟩
  · split at h
    · cases h
    · rename_i hstack
      cases h
      exact ⟨rfl, rfl, Or.inr (not_not.mp hstack), fun hu => hu⟩

theorem quiet_setBlockType {b : Nat} {type : LinkerBlockType}
    (h : l.setBlockType b type = .ok l') : Quiet l l' := by
  obtain ⟨-, -, hret⟩ := ok_of_bind h
  cases hret
  have hsame : ∀ b', ((l.setBlock b { l.blocks b with type := type }).blocks b').data =
      (l.blocks b').data ∧ ((l.setBlock b { l.blocks b with type := type }).blocks b').finalSize =
      (l.blocks b').finalSize := by
    intro b'
    by_cases hb : b' = b
    · subst hb
      simp [setBlock]
    · simp [setBlock, hb]
  have hmarks : (l.setBlock b { l.blocks b with type := type }).marks = l.marks := by
    funext m b'
    unfold marks
    rw [(hsame b').1]
  refine ⟨hmarks, rfl, Or.inl rfl, fun hu b' hb' => ?_⟩
  rw [hmarks] at hb'
  rw [(hsame b').2]
  exact hu b' hb'

theorem quiet_addScrString (value : Option (List UInt8)) : Quiet l (l.addScrString value).1 := by
  unfold addScrString
  split
  · exact ⟨rfl, rfl, Or.inl rfl, fun hu => hu⟩
  · exact ⟨rfl, rfl, Or.inl rfl, fun hu => hu⟩
  · split
    · exact ⟨rfl, rfl, Or.inl rfl, fun hu => hu⟩
    · exact ⟨rfl, rfl, Or.inl rfl, fun hu => hu⟩

theorem quiet_addRef (chunk : ChunkPtr) (ref : UInt64) : Quiet l (l.addRef chunk ref) :=
  quiet_modifyChunk _ _ fun _ => rfl

theorem data_eq_nil {m : LinkerMode} {b : Nat} (h : l.marks m b = []) :
    (l.blocks b).data m = [] :=
  List.map_eq_nil_iff.mp h

theorem linkBlock_unused {b : Nat} {r : UInt64 × List Patch} (hu : l.Unused)
    (hb : ∀ m, l.marks m b = []) (h : l.linkBlock b = .ok r) : r.1 = 0 := by
  have hheader := data_eq_nil (hb .header)
  have hdata := data_eq_nil (hb .data)
  unfold linkBlock at h
  simp only [hheader, hdata] at h
  split at h
  · cases h
    rfl
  · cases h
    rfl
  · cases h
    rfl
  · split at h
    · cases h
    · cases h
      exact hu b hb

theorem quiet_link {r : Linked} (h : l.link = .ok r) : Quiet l r.linker := by
  unfold link at h
  split at h
  · cases h
  · obtain ⟨results, hresults, hret⟩ := ok_of_bind h
    cases hret
    refine ⟨rfl, rfl, Or.inl rfl, fun hu b hb => ?_⟩
    show (results.map (·.1)).getD b (l.blocks b).finalSize = 0
    rw [List.getD_eq_getElem?_getD, List.getElem?_map]
    cases hr : results[b]? with
    | none => exact hu b hb
    | some r =>
      obtain ⟨i, hi, hlink⟩ := mapM_getElem? hresults hr
      obtain ⟨_, hget⟩ := List.getElem?_eq_some_iff.mp hi
      rw [List.getElem_range] at hget
      subst hget
      exact linkBlock_unused hu hb hlink

/-- **What an operation can do**: nothing is added, or its command is. -/
theorem exec_cases {op : LinkerOp} (h : l.exec op = .ok l') :
    (op.command = none ∧ Quiet l l') ∨ (∃ c, op.command = some c ∧ Emits l l' c) := by
  cases op with
  | setMode mode => exact Or.inl ⟨rfl, quiet_setMode h⟩
  | setBlockType block type => exact Or.inl ⟨rfl, quiet_setBlockType h⟩
  | pushStream block => exact Or.inr ⟨_, rfl, emits_pushStream h⟩
  | popStream => exact Or.inr ⟨_, rfl, emits_popStream h⟩
  | align len =>
    obtain ⟨⟨l₁, p⟩, h₁, rfl⟩ := ok_of_map h
    exact Or.inr ⟨_, rfl, emits_put h₁ rfl⟩
  | writeStream data =>
    obtain ⟨⟨l₁, p⟩, h₁, rfl⟩ := ok_of_map h
    exact Or.inr ⟨_, rfl, emits_writeStream h₁⟩
  | allocStream size =>
    obtain ⟨⟨l₁, p⟩, h₁, rfl⟩ := ok_of_map h
    exact Or.inr ⟨_, rfl, emits_allocStream h₁⟩
  | allocRuntime size =>
    obtain ⟨⟨l₁, p⟩, h₁, rfl⟩ := ok_of_map h
    exact Or.inr ⟨_, rfl, emits_put h₁ rfl⟩
  | addXString val =>
    obtain ⟨⟨l₁, p⟩, h₁, rfl⟩ := ok_of_map h
    exact Or.inr ⟨_, rfl, emits_writeStream h₁⟩
  | addScrString value =>
    cases h
    exact Or.inl ⟨rfl, quiet_addScrString value⟩
  | addRef chunk ref =>
    cases h
    exact Or.inl ⟨rfl, quiet_addRef chunk ref⟩
  | link =>
    obtain ⟨r, hr, rfl⟩ := ok_of_map h
    exact Or.inl ⟨rfl, quiet_link hr⟩

end XBlockLinker

/-! ## Runs -/

/-- The blocks hold what the tapes emitted, sorted; only the current mode has open scopes. -/
structure Session.Inv (s : Session) : Prop where
  sorted : ∀ m, Sorted.run .start (s.tape m) =
    some ⟨if m = s.linker.linkerMode then s.linker.blockStack else [], s.linker.marks m⟩
  unused : s.linker.Unused

theorem Session.Inv.step {s : Session} (h : s.Inv) (op : LinkerOp) : (s.step op).Inv := by
  unfold Session.step
  split
  · exact h
  · rename_i l hl
    have hrecorded : Recorded s.tape _ _ _ := h.sorted
    rcases XBlockLinker.exec_cases hl with ⟨hc, hq⟩ | ⟨c, hc, he⟩
    · rw [hc]
      refine ⟨fun m => ?_, hq.unused h.unused⟩
      rw [hq.marks, hq.stack]
      exact hrecorded.switch hq.mode m
    · rw [hc]
      obtain ⟨b, hb, hmarks⟩ := he.marks
      refine ⟨fun m => ?_, he.unused h.unused⟩
      rw [hmarks, he.mode, he.stack]
      exact hrecorded.emit hb m

theorem Session.run_inv {s : Session} (h : s.Inv) (ops : List LinkerOp) : (s.run ops).Inv := by
  unfold Session.run
  induction ops generalizing s with
  | nil => exact h
  | cons op ops ih => exact ih (h.step op)

/-- A new linker, before the first operation. -/
def Session.new (numblocks virtualBlock : Nat) : Except LinkError Session :=
  (XBlockLinker.new numblocks virtualBlock).map fun l => ⟨l, fun _ => []⟩

theorem Session.new_inv {numblocks virtualBlock : Nat} {s : Session}
    (h : Session.new numblocks virtualBlock = .ok s) : s.Inv := by
  obtain ⟨l, hl, rfl⟩ := ok_of_map h
  unfold XBlockLinker.new at hl
  split at hl
  · cases hl
  · have hq := XBlockLinker.quiet_setBlockType hl
    have hempty : l.marks = fun _ _ => [] := hq.marks
    refine ⟨fun m => ?_, hq.unused fun _ _ => rfl⟩
    rw [hempty, hq.stack]
    exact Recorded.start l.linkerMode m

/-! ## `Link` against the loader -/

/-- The loader runs through, and every block is one cursor run over its two lists. -/
theorem Session.Inv.replay {s : Session} (h : s.Inv) (hstack : s.linker.blockStack = []) :
    ∃ loader, s.replay = some loader ∧ ∀ b, ∃ c,
      Cursor.run Item.place ((s.linker.blocks b).type = .temp) .start
        (s.linker.marks .header b) = some c ∧ c.saved = [] ∧
      Cursor.run Item.place ((s.linker.blocks b).type = .temp) c (s.linker.marks .data b) =
        some (loader.cursor b) := by
  have hrecorded : Recorded s.tape _ _ _ := h.sorted
  rw [hstack] at hrecorded
  exact hrecorded.replay Item.place _ .header .data

namespace XBlockLinker

variable {l : XBlockLinker}

/-- The final size of a block is the peak of its cursor if that fits, and the patches are made for
the positions of the cursor. -/
structure Linking (b : Nat) (chunks : List LinkerDataChunk) (c : Cursor)
    (r : UInt64 × List Patch) : Prop where
  size : r.1.toNat = c.peak ↔ c.peak < 2 ^ 64
  patches : r.2 = (placed b chunks c.starts).map patchOf

theorem size_iff {size : UInt64} {peak : Nat} (h : peak < 2 ^ 64 → size.toNat = peak) :
    size.toNat = peak ↔ peak < 2 ^ 64 := by
  constructor
  · intro heq
    have hlt := size.toNat_lt
    omega
  · exact h

theorem linkBlock_temp {b : Nat} {c c' : Cursor} {header data : List LinkerDataChunk}
    (hh : Cursor.run Item.place true .start (header.map (·.mark)) = some c) (hc : c.saved = [])
    (hd : Cursor.run Item.place true c (data.map (·.mark)) = some c') :
    ∃ r, (do
      let (size, patches) ← loadChunkSizeTemp b header 0
      let (final, patches') ← loadChunkSizeTemp b data size
      return (final, patches ++ patches')) = (.ok r : Except LinkError _) ∧
      Linking b (header ++ data) c' r := by
  have hb := Cursor.bounded_start.run hh
  obtain ⟨ps, size, hlen, hstarts, hload, hsize⟩ := loadChunkSizeTempLoop_spec (b := b) 0 hh Cursor.bounded_start
  obtain ⟨ps', final, hlen', hstarts', hload', hfinal⟩ := loadChunkSizeTempLoop_spec (b := b)
    size hd hb
  rw [Cursor.temp_position hh hc, hc] at hload'
  refine ⟨(final, (placed b header ps).map patchOf ++ (placed b data ps').map patchOf), ?_, ?_, ?_⟩
  · have hload : loadChunkSizeTemp b header 0 = .ok (size, _) := hload
    have hload' : loadChunkSizeTemp b data size = .ok (final, _) := hload'
    simp only [hload, hload', bind, Except.bind]
    rfl
  · refine size_iff fun hpeak => hfinal hpeak ?_
    have hpeak' : c.peak < 2 ^ 64 := (Cursor.peak_le hd).trans_lt hpeak
    rw [hsize hpeak' rfl, Cursor.temp_position hh hc]
    exact max_eq_left (Nat.zero_le _)
  · rw [hstarts', hstarts]
    show _ = (placed b (header ++ data) (ps ++ ps')).map patchOf
    rw [placed_append hlen, List.map_append]

theorem linkBlock_plain {b : Nat} {c c' : Cursor} {header data : List LinkerDataChunk}
    (hh : Cursor.run Item.place false .start (header.map (·.mark)) = some c)
    (hd : Cursor.run Item.place false c (data.map (·.mark)) = some c') :
    Linking b (header ++ data) c' ((loadChunkSize b data (loadChunkSize b header 0).1).1,
      (loadChunkSize b header 0).2 ++ (loadChunkSize b data (loadChunkSize b header 0).1).2) := by
  obtain ⟨ps, hlen, hstarts, hload⟩ := loadChunkSize_spec (b := b) hh
  obtain ⟨ps', hlen', hstarts', hload'⟩ := loadChunkSize_spec (b := b) hd
  have hzero : loadChunkSize b header 0 = _ := hload
  rw [hzero, hload']
  constructor
  · have hpeak : c'.position = c'.peak :=
      Cursor.position_peak le_place (Cursor.position_peak le_place rfl hh) hd
    refine size_iff fun hlt => ?_
    rw [UInt64.toNat_ofNat', hpeak, Nat.mod_eq_of_lt hlt]
  · rw [hstarts', hstarts]
    show _ = (placed b (header ++ data) (ps ++ ps')).map patchOf
    rw [placed_append hlen, List.map_append]

theorem linkBlock_spec (hu : l.Unused) {b : Nat} {c c' : Cursor}
    (hh : Cursor.run Item.place ((l.blocks b).type = .temp) .start (l.marks .header b) = some c)
    (hc : c.saved = [])
    (hd : Cursor.run Item.place ((l.blocks b).type = .temp) c (l.marks .data b) = some c') :
    Safe (· ≠ .emptyTop) (l.linkBlock b)
      (Linking b ((l.blocks b).data .header ++ (l.blocks b).data .data) c') := by
  unfold linkBlock
  simp only
  split
  · rename_i htype
    rw [htype] at hh hd
    obtain ⟨r, hr, hlinking⟩ := linkBlock_temp hh hc hd
    rw [hr]
    exact hlinking
  · rename_i htype
    rw [htype] at hh hd
    exact linkBlock_plain hh hd
  · rename_i htype
    rw [htype] at hh hd
    exact linkBlock_plain hh hd
  · split
    · exact nofun
    · rename_i hempty
      obtain ⟨hheader, hdata⟩ := not_or.mp hempty
      have hmarks : ∀ m, l.marks m b = [] := by
        intro m
        unfold marks
        cases m with
        | header => rw [not_not.mp hheader, List.map_nil]
        | data => rw [not_not.mp hdata, List.map_nil]
      rw [hmarks] at hh hd
      cases hh
      cases hd
      refine ⟨?_, ?_⟩
      · rw [hu b hmarks]
        exact ⟨fun _ => by decide, fun _ => rfl⟩
      · rw [not_not.mp hheader, not_not.mp hdata]
        rfl

end XBlockLinker

/-- **`Link` agrees with the loader**: the sizes are the positions that the loader reaches, and
the reader finds in every reference the block and the position of its chunk. -/
structure Session.Follows (s : Session) (loader : Loader Nat) (r : XBlockLinker.Linked) : Prop where
  sizes : r.sizes.map (·.toNat) = (List.range s.linker.numblocks).map loader.peak
  references : r.patches.map (fun p => (p.1, dbGetOffsetData p.2)) = s.references loader

/-- Every position fits in a `size_t`; every referenced chunk is in a block and at a position
that fit in the two parts of a packed reference. -/
structure Session.Fits (s : Session) (loader : Loader Nat) : Prop where
  peaks : ∀ b < s.linker.numblocks, loader.peak b < 2 ^ 64
  references : ∀ r ∈ s.references loader, r.2.1 < 16 ∧ r.2.2 < 2 ^ 60

theorem flatMap_eq {α β γ : Type} {f : α → List γ} {g : β → List γ} {xs : List α} {ys : List β}
    (h : List.Forall₂ (fun x y => g y = f x) xs ys) : ys.flatMap g = xs.flatMap f := by
  induction h with
  | nil => rfl
  | cons hxy _ ih => rw [List.flatMap_cons, List.flatMap_cons, hxy, ih]

theorem map_eq_iff {α β γ : Type} {f : α → γ} {g : β → γ} {P : α → Prop} {xs : List α}
    {ys : List β} (h : List.Forall₂ (fun x y => g y = f x ↔ P x) xs ys) :
    ys.map g = xs.map f ↔ ∀ x ∈ xs, P x := by
  induction h with
  | nil => simp
  | cons hxy _ ih => rw [List.map_cons, List.map_cons, List.cons.injEq, hxy, ih,
      List.forall_mem_cons]

theorem follows_iff {s : Session} {loader : Loader Nat} {results : List (UInt64 × List Patch)}
    (h : List.Forall₂ (fun b r => XBlockLinker.Linking b
      ((s.linker.blocks b).data .header ++ (s.linker.blocks b).data .data) (loader.cursor b) r)
      (List.range s.linker.numblocks) results) (linker : XBlockLinker) :
    s.Follows loader ⟨linker, results.map (·.1), results.flatMap (·.2)⟩ ↔ s.Fits loader := by
  have hpatches : results.flatMap (·.2) = (s.references loader).map patchOf := by
    unfold Session.references
    rw [List.map_flatMap]
    exact flatMap_eq (h.imp fun b r hr => hr.patches)
  have hreferences : (results.flatMap (·.2)).map (fun p => (p.1, dbGetOffsetData p.2)) =
      s.references loader ↔ ∀ r ∈ s.references loader, r.2.1 < 16 ∧ r.2.2 < 2 ^ 60 := by
    rw [hpatches, List.map_map]
    refine Iff.trans ?_ (forall₂_congr fun r _ => dbGetOffsetData_packRef r.2.1 r.2.2)
    conv_lhs => rhs; rw [← List.map_id (s.references loader)]
    rw [List.map_inj_left]
    refine forall₂_congr fun r _ => ?_
    exact ⟨fun hr => congrArg (·.2) hr, fun hr => Prod.ext rfl hr⟩
  have hsizes : (results.map (·.1)).map (·.toNat) =
      (List.range s.linker.numblocks).map loader.peak ↔
      ∀ b ∈ List.range s.linker.numblocks, loader.peak b < 2 ^ 64 := by
    rw [List.map_map]
    exact map_eq_iff (h.imp fun b r hr => hr.size)
  constructor
  · rintro ⟨hs, hr⟩
    exact ⟨fun b hb => hsizes.mp hs b (List.mem_range.mpr hb), hreferences.mp hr⟩
  · rintro ⟨hs, hr⟩
    exact ⟨hsizes.mpr fun b hb => hs b (List.mem_range.mp hb), hreferences.mpr hr⟩

/-- **The linked fastfile is what the loader replays, exactly when everything fits**: after every
sequence of operations `Link` finds no stack of lengths empty, and where it succeeds the loader
runs through, and they agree if and only if every position and every reference fits. -/
theorem link_follows_iff {numblocks virtualBlock : Nat} {s₀ : Session}
    (hnew : Session.new numblocks virtualBlock = .ok s₀) (ops : List LinkerOp) :
    (s₀.run ops).linker.link ≠ .error .emptyTop ∧
    ∀ r, (s₀.run ops).linker.link = .ok r →
      ∃ loader, (s₀.run ops).replay = some loader ∧
        ((s₀.run ops).Follows loader r ↔ (s₀.run ops).Fits loader) := by
  have hinv := Session.run_inv (Session.new_inv hnew) ops
  generalize s₀.run ops = s at hinv
  by_cases hstack : s.linker.blockStack = []
  · obtain ⟨loader, hloader, hcursors⟩ := hinv.replay hstack
    have hblock : ∀ b, Safe (· ≠ .emptyTop) (s.linker.linkBlock b) (XBlockLinker.Linking b
        ((s.linker.blocks b).data .header ++ (s.linker.blocks b).data .data)
        (loader.cursor b)) := by
      intro b
      obtain ⟨c, hh, hc, hd⟩ := hcursors b
      exact XBlockLinker.linkBlock_spec hinv.unused hh hc hd
    unfold XBlockLinker.link
    rw [if_neg (not_not.mpr hstack)]
    constructor
    · intro herror
      cases hresults : s.linker.linkBlocks with
      | error e =>
        rw [hresults] at herror
        cases herror
        obtain ⟨b, -, hb⟩ := mapM_error hresults
        have hsafe := hblock b
        rw [hb] at hsafe
        exact hsafe rfl
      | ok results =>
        rw [hresults] at herror
        cases herror
    · intro r hr
      obtain ⟨results, hresults, hret⟩ := ok_of_bind hr
      cases hret
      refine ⟨loader, hloader, follows_iff ((mapM_ok hresults).imp fun b r hb => ?_) _⟩
      have hsafe := hblock b
      rw [hb] at hsafe
      exact hsafe
  · unfold XBlockLinker.link
    rw [if_pos hstack]
    exact ⟨nofun, nofun⟩

/-- A chunk in block 16, with one reference. -/
def sixteenthOps : List LinkerOp :=
  [.pushStream 16, .writeStream [0], .addRef ⟨.header, 16, 1⟩ 0x1000, .popStream]

/-- The reader finds block 0 in a reference to block 16. -/
theorem sixteenth_misread : ∃ s₀ r loader, Session.new 17 16 = .ok s₀ ∧
    (s₀.run sixteenthOps).linker.link = .ok r ∧ (s₀.run sixteenthOps).replay = some loader ∧
    ¬ (s₀.run sixteenthOps).Follows loader r := by
  have hrun : (Session.new 17 16).toOption.bind (fun s₀ =>
      (s₀.run sixteenthOps).linker.link.toOption.bind fun r =>
        (s₀.run sixteenthOps).replay.map fun loader =>
          (r.patches.map fun p => dbGetOffsetData p.2,
            ((s₀.run sixteenthOps).references loader).map (·.2))) =
      some ([(0, 0)], [(16, 0)]) := by decide +kernel
  obtain ⟨s₀, hs₀, hrun⟩ := Option.bind_eq_some_iff.mp hrun
  obtain ⟨r, hr, hrun⟩ := Option.bind_eq_some_iff.mp hrun
  obtain ⟨loader, hloader, hpair⟩ := Option.map_eq_some_iff.mp hrun
  obtain ⟨hpatches, hreferences⟩ := Prod.mk.inj hpair
  refine ⟨s₀, r, loader, ok_of_toOption hs₀, ok_of_toOption hr, hloader, fun hfollows => ?_⟩
  have hsame := congrArg (List.map (·.2)) hfollows.references
  rw [List.map_map, hreferences] at hsame
  exact absurd (hpatches.symm.trans hsame) (by decide)

/-- A temporary block with a scope of a virtual block in it, and a reference to that block. -/
def nestedOps : List LinkerOp :=
  [.setBlockType 0 .temp, .setMode .data, .pushStream 0, .writeStream [1, 2, 3], .pushStream 1,
    .align 8, .addXString [65], .align 8, .writeStream [4], .addRef ⟨.data, 1, 4⟩ 0x1000,
    .popStream, .popStream]

theorem nested_follows : ∃ s₀ r loader, Session.new 2 1 = .ok s₀ ∧
    (s₀.run nestedOps).linker.link = .ok r ∧ (s₀.run nestedOps).replay = some loader ∧
    (s₀.run nestedOps).Follows loader r := by
  have hrun : (Session.new 2 1).toOption.bind (fun s₀ =>
      (s₀.run nestedOps).linker.link.toOption.bind fun _ =>
        (s₀.run nestedOps).replay.map fun loader =>
          decide ((∀ b < (s₀.run nestedOps).linker.numblocks, loader.peak b < 2 ^ 64) ∧
            ∀ r ∈ (s₀.run nestedOps).references loader, r.2.1 < 16 ∧ r.2.2 < 2 ^ 60)) =
      some true := by decide +kernel
  obtain ⟨s₀, hs₀, hrun⟩ := Option.bind_eq_some_iff.mp hrun
  obtain ⟨r, hr, hrun⟩ := Option.bind_eq_some_iff.mp hrun
  obtain ⟨loader, hloader, hfits⟩ := Option.map_eq_some_iff.mp hrun
  obtain ⟨hpeaks, hreferences⟩ := of_decide_eq_true hfits
  obtain ⟨loader', hloader', hiff⟩ := (link_follows_iff (ok_of_toOption hs₀) nestedOps).2 r (ok_of_toOption hr)
  cases hloader.symm.trans hloader'
  exact ⟨s₀, r, loader, ok_of_toOption hs₀, ok_of_toOption hr, hloader,
    hiff.mpr ⟨hpeaks, hreferences⟩⟩

end Acts.Fastfile
