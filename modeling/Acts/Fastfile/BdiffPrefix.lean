import Acts.Fastfile.BdiffProgress

/-!
# Prefixes of a patch

What the driver of the bdiff decoder does with a patch that ends inside a window:

* `Common` — two buffers hold the same bytes from two pointers on; what is read of these bytes is
  the same.
* `declared` — start, end and target length of a window by its header, where the bytes that are
  missing read as zeros.
* `declared_of_cut` — a window that ends in the prefix by its header is declared so in the patch.
* `prefix_rejected` — **a patch that ends inside a window is rejected, as long as no declared end
  wraps around.**
-/

set_option autoImplicit false

namespace Acts.Bdiff

/-! ## Common bytes -/

/-- From `p` and `p'` on, the buffers hold `l`. -/
structure Common (b b' : Buf) (p p' : Nat) (l : List UInt8) : Prop where
  left : ∃ rest, Stream b p l rest
  right : ∃ rest, Stream b' p' l rest

variable {b b' : Buf} {p p' q v : Nat} {l : List UInt8}

theorem Stream.base_le {rest : List UInt8} (h : Stream b p l rest) : b.base ≤ p := by
  obtain ⟨pre, -, rfl⟩ := h
  exact Nat.le_add_right _ _

theorem Common.drop (h : Common b b' p p' l) (n : Nat) (hn : n ≤ l.length) :
    Common b b' (p + n) (p' + n) (l.drop n) := by
  obtain ⟨⟨r, hr⟩, ⟨r', hr'⟩⟩ := h
  exact ⟨⟨r, hr.drop n hn⟩, ⟨r', hr'.drop n hn⟩⟩

theorem readULEB128From_common {acc p p' q v : Nat} {l r r' : List UInt8}
    (h : readULEB128From acc p (l ++ r) = .ok (v, q)) (hq : q ≤ p + l.length) :
    readULEB128From acc p' (l ++ r') = .ok (v, p' + (q - p)) := by
  induction l generalizing acc p p' with
  | nil =>
    have hlt := readULEB128From_bounds h
    rw [List.length_nil] at hq
    omega
  | cons c l ih =>
    rw [List.cons_append, readULEB128From] at h ⊢
    rw [List.length_cons] at hq
    split at h
    · rename_i hc
      have hlt := readULEB128From_bounds h
      rw [if_pos hc, ih h (by omega)]
      congr 2
      omega
    · rename_i hc
      cases h
      rw [if_neg hc]
      congr 2
      omega

/-- A number whose bytes are common. -/
theorem Common.uleb (hc : Common b b' p p' l) (h : readULEB128 b p = .ok (v, q))
    (hq : q ≤ p + l.length) :
    ∃ q' l', readULEB128 b' p' = .ok (v, q') ∧ Common b b' q q' l' ∧
      q + l'.length = p + l.length ∧ q' + l'.length = p' + l.length := by
  obtain ⟨⟨r, hr⟩, ⟨r', hr'⟩⟩ := hc
  have hlt := (readULEB128_bounds hr.base_le h).1
  rw [readULEB128, hr.at] at h
  refine ⟨p' + (q - p), l.drop (q - p), ?_, ?_, ?_, ?_⟩
  · rw [readULEB128, hr'.at]
    exact readULEB128From_common h hq
  · have hcommon := Common.drop ⟨⟨r, hr⟩, ⟨r', hr'⟩⟩ (q - p) (by omega)
    rwa [Nat.add_sub_cancel' (Nat.le_of_lt hlt)] at hcommon
  · rw [List.length_drop]
    omega
  · rw [List.length_drop]
    omega

/-- A byte that is common. -/
theorem Common.byte (hc : Common b b' p p' l) (hl : 0 < l.length) :
    readByte b' p' = readByte b p ∧ Common b b' (p + 1) (p' + 1) (l.drop 1) := by
  refine ⟨?_, hc.drop 1 hl⟩
  obtain ⟨⟨r, hr⟩, ⟨r', hr'⟩⟩ := hc
  cases l with
  | nil => exact absurd hl (Nat.lt_irrefl 0)
  | cons c l => rw [readByte_spec hr, readByte_spec hr']

theorem Common.segment {d d' : DiffState} {flags segLen : Nat} {seg : Option Nat}
    (hc : Common b b' p p' l) (hb : b.Holds p) (hsource : d'.sourceData = d.sourceData)
    (h : readSourceSegment d b flags p = .ok (seg, segLen, q)) (hq : q ≤ p + l.length) :
    ∃ q' l', readSourceSegment d' b' flags p' = .ok (seg, segLen, q') ∧ Common b b' q q' l' ∧
      q + l'.length = p + l.length ∧ q' + l'.length = p' + l.length := by
  have hload : ∀ loc size, loadSourceData d' loc size = loadSourceData d loc size := by
    intro loc size
    rw [loadSourceData, loadSourceData, hsource]
  unfold readSourceSegment at h ⊢
  split at h
  · rename_i hmask
    cases h
    rw [if_pos hmask]
    exact ⟨p', l, rfl, hc, rfl, rfl⟩
  · rename_i hmask
    rw [if_neg hmask]
    obtain ⟨⟨v₁, p₁⟩, h₁, h⟩ := ok_of_bind h
    obtain ⟨⟨v₂, p₂⟩, h₂, h⟩ := ok_of_bind h
    have hb₁ := readULEB128_bounds hb.1 h₁
    have hb₂ := readULEB128_bounds hb₁.2.1 h₂
    simp only at h
    by_cases hrel : flags &&& VCDF_SOURCE_SEGMENT_RELATIVE ≠ 0
    · rw [if_pos hrel] at h
      obtain ⟨⟨v₃, p₃⟩, h₃, h⟩ := ok_of_bind h
      obtain ⟨loc, hloc, h⟩ := ok_of_bind h
      cases h
      have hb₃ := readULEB128_bounds hb₂.2.1 h₃
      obtain ⟨q₁, l₁, hq₁, hc₁, e₁, e₁'⟩ := hc.uleb h₁ (by omega)
      obtain ⟨q₂, l₂, hq₂, hc₂, e₂, e₂'⟩ := hc₁.uleb h₂ (by omega)
      obtain ⟨q₃, l₃, hq₃, hc₃, e₃, e₃'⟩ := hc₂.uleb h₃ (by omega)
      refine ⟨q₃, l₃, ?_, hc₃, by omega, by omega⟩
      simp only at hloc
      simp only [hq₁, hq₂, hq₃, if_pos hrel, hload, hloc, bind, Except.bind, pure, Except.pure]
    · rw [if_neg hrel] at h
      obtain ⟨⟨v₃, p₃⟩, h₃, h⟩ := ok_of_bind h
      obtain ⟨loc, hloc, h⟩ := ok_of_bind h
      cases h₃
      cases h
      obtain ⟨q₁, l₁, hq₁, hc₁, e₁, e₁'⟩ := hc.uleb h₁ (by omega)
      obtain ⟨q₂, l₂, hq₂, hc₂, e₂, e₂'⟩ := hc₁.uleb h₂ (by omega)
      refine ⟨q₂, l₂, ?_, hc₂, by omega, by omega⟩
      simp only at hloc
      simp only [hq₁, hq₂, if_neg hrel, hload, hloc, bind, Except.bind, pure, Except.pure]

/-- The header of the delta encoding, of common bytes. -/
theorem Common.header {len : Nat} {hdr : DeltaHeader} (hc : Common b b' p p' l)
    (hb : b.base ≤ p) (h : readDeltaHeader b len p = .ok hdr)
    (hq : hdr.patchData ≤ p + l.length) :
    ∃ hdr' : DeltaHeader, readDeltaHeader b' len p' = .ok hdr' ∧
      hdr'.patchData + p = hdr.patchData + p' ∧
      hdr'.instructionOffset = hdr.instructionOffset ∧
      hdr'.instructionSize = hdr.instructionSize ∧
      hdr'.instructionCheckOffset = hdr.instructionCheckOffset := by
  have hlt := (readDeltaHeader_bounds hb h).1
  obtain ⟨ind, hind, h⟩ := ok_of_bind h
  split at h
  · cases h
  · rename_i hzero
    obtain ⟨⟨v₁, p₁⟩, h₁, h⟩ := ok_of_bind h
    obtain ⟨⟨v₂, p₂⟩, h₂, h⟩ := ok_of_bind h
    obtain ⟨⟨v₃, p₃⟩, h₃, h⟩ := ok_of_bind h
    cases h
    simp only at hq hlt
    have hb₁ := readULEB128_bounds (Nat.le_succ_of_le hb) h₁
    have hb₂ := readULEB128_bounds hb₁.2.1 h₂
    have hb₃ := readULEB128_bounds hb₂.2.1 h₃
    obtain ⟨hbyte, hc₀⟩ := hc.byte (by omega)
    have e₀ : (l.drop 1).length + 1 = l.length := by
      rw [List.length_drop]
      omega
    obtain ⟨q₁, l₁, hq₁, hc₁, e₁, e₁'⟩ := hc₀.uleb h₁ (by omega)
    obtain ⟨q₂, l₂, hq₂, hc₂, e₂, e₂'⟩ := hc₁.uleb h₂ (by omega)
    obtain ⟨q₃, l₃, hq₃, hc₃, e₃, e₃'⟩ := hc₂.uleb h₃ (by omega)
    refine ⟨⟨len, q₃, v₁, v₂, v₃⟩, ?_, by simp only; omega, rfl, rfl, rfl⟩
    simp only [readDeltaHeader, hbyte, hind, if_neg hzero, hq₁, hq₂, hq₃, bind, Except.bind, pure,
      Except.pure]

/-! ## Windows -/

/-- Start, end and target length of a window. -/
structure Declared where
  start : Nat
  stop : Nat
  targetLen : Nat
  deriving DecidableEq

/-- What `declaredEnd` reads, with the length of the target. -/
def declared (state : BDiffState) (d : DiffState) : Except BdiffErr Declared := do
  let (_, d) ← readFileHeader state d
  let (b, bdiffDataStart, start, d) ← loadPatchData d 0 0x400
  let flags ← readByte b bdiffDataStart
  let flags := flags.toNat
  let (_, _, p) ← readSourceSegment d b flags (bdiffDataStart + 1)
  let (patchDataLen, p) ← readULEB128 b p
  let (b', patchDataStart, _, _) ← loadPatchData d (ptrAdd start (ptrSub p bdiffDataStart))
    (ptrAdd patchDataLen (if flags &&& VCDF_CHECKSUM ≠ 0 then 4 else 0))
  let (patchDestLen, p') ← readULEB128 b' patchDataStart
  let h ← readDeltaHeader b' patchDestLen p'
  pure ⟨start, start + (p - bdiffDataStart) + (h.patchData - patchDataStart) +
    h.instructionOffset + h.instructionSize + h.instructionCheckOffset + checksumLen flags,
    patchDestLen⟩

/-- An accepted window, by its header. -/
theorem bdiff_declared {xxh : Xxh} {state state' : BDiffState} {d d' : DiffState}
    (hlen : d.patchData.bytes.length < 2 ^ 63) (h : bdiff xxh state d = .ok (state', d')) :
    ∃ stop, declared state d = .ok ⟨windowOffset state d, stop, d'.destWindowLastSize⟩ ∧
      Next state d stop state' d' ∧ d'.sourceData = d.sourceData := by
  obtain ⟨stop, hend, hnext⟩ := bdiff_next hlen h
  obtain ⟨⟨state₁, d₁⟩, hfile, h⟩ := ok_of_bind h
  obtain ⟨⟨b, bdiffDataStart, start, d₂⟩, hload, h⟩ := ok_of_bind h
  obtain ⟨flags, hflags, h⟩ := ok_of_bind h
  simp only at h
  split at h
  · cases h
  · obtain ⟨⟨seg, segOffset, p⟩, hseg, h⟩ := ok_of_bind h
    obtain ⟨⟨patchDataLen, p'⟩, hpatch, h⟩ := ok_of_bind h
    obtain ⟨⟨b', patchDataStart, offset, d₃⟩, hload', h⟩ := ok_of_bind h
    obtain ⟨⟨destLen, q⟩, hdestLen, h⟩ := ok_of_bind h
    obtain ⟨d₄, hdest, h⟩ := ok_of_bind h
    split at h
    · cases h
    · obtain ⟨hdr, hhdr, h⟩ := ok_of_bind h
      obtain ⟨w, -, h⟩ := ok_of_bind h
      obtain ⟨⟨state₂, check⟩, -, h⟩ := ok_of_bind h
      obtain ⟨⟨b'', p'', o'', d₅⟩, hlast, h⟩ := ok_of_bind h
      cases h
      simp only [declaredEnd, hfile, hload, hflags, hseg, hpatch, hload', hdestLen, hhdr, bind,
        Except.bind, pure, Except.pure, Except.ok.injEq, Prod.mk.injEq] at hend
      obtain ⟨hstart, hstop⟩ := hend
      refine ⟨stop, ?_, hnext, ?_⟩
      · simp only [declared, hfile, hload, hflags, hseg, hpatch, hload', hdestLen, hhdr, bind,
          Except.bind, pure, Except.pure]
        rw [hstart, ← hstop, loadPatchData_frame hlast]
        simp only [(loadDestData_last hdest).1, hstart]
      · rw [loadPatchData_frame hlast]
        exact (loadDestData_frame hdest).2.2.trans (by
          rw [loadPatchData_frame hload', loadPatchData_frame hload, readFileHeader_frame hfile])

/-- A fetch gives the patch from the offset on. -/
theorem loadPatchData_stream {d d' : DiffState} {offset size o : Nat}
    (h : loadPatchData d offset size = .ok (b, p, o, d')) :
    ∃ rest, Stream b p (d.patchData.bytes.drop o) rest := by
  obtain ⟨ho, hle, -⟩ := loadPatchData_bounds h
  by_cases hsize : size ≤ 0x405
  · obtain ⟨b', p', rest, hspec, hstream⟩ :=
      loadPatchData_spec (d := d) offset size (by rwa [← ho]) (.inl hsize)
    rw [hspec] at h
    cases h
    exact ⟨rest, hstream⟩
  · have hfetch : (if offset ≠ 0 then offset else d.patchWindowOffsetLast) =
        d.fetchOffset offset := rfl
    unfold loadPatchData at h
    simp only [hfetch, if_neg hsize] at h
    obtain ⟨_, -, h⟩ := ok_of_bind h
    split at h
    · cases h
      refine ⟨[], d.patchData.bytes.take (d.fetchOffset offset), ?_, ?_⟩
      · rw [List.append_nil, List.take_append_drop]
      · rw [List.length_take, Nat.min_eq_left hle]
    · cases h

/-- The offset behind the header of a window does not wrap around. -/
theorem dataOffset {d e : DiffState} {offset size start : Nat}
    (hload : loadPatchData d offset size = .ok (b, p, start, e))
    (hlen : d.patchData.bytes.length < 2 ^ 63) (hp : p < q) (hq : b.Holds q) (f : DiffState) :
    f.fetchOffset (ptrAdd start (ptrSub q p)) = start + (q - p) := by
  obtain ⟨-, hle, -, -, hend⟩ := loadPatchData_bounds hload
  have hb := b.fits
  have hq_le := hq.2
  rw [ptrSub_of_le (by omega) (by omega), ptrAdd_of_lt (by omega), DiffState.fetchOffset,
    if_pos (by omega)]

/-- The decoder of a prefix stands where the decoder of the patch does. -/
structure Follows (k : Nat) (state : BDiffState) (d : DiffState) (state' : BDiffState)
    (d' : DiffState) : Prop where
  headerRead : state'.headerRead = state.headerRead
  offset : d'.patchWindowOffsetLast = d.patchWindowOffsetLast
  source : d'.sourceData = d.sourceData
  patch : d'.patchData.bytes = d.patchData.bytes.take k
  le : k ≤ d.patchData.bytes.length

theorem Follows.length {k : Nat} {state state' : BDiffState} {d d' : DiffState}
    (h : Follows k state d state' d') : d'.patchData.bytes.length = k := by
  rw [h.patch, List.length_take]
  exact Nat.min_eq_left h.le

theorem Follows.window {k : Nat} {state state' : BDiffState} {d d' : DiffState}
    (h : Follows k state d state' d') : windowOffset state' d' = windowOffset state d := by
  rw [windowOffset, windowOffset, h.headerRead, h.offset]

/-- Two fetches at one offset hold the rest of the prefix. -/
theorem Follows.common {k : Nat} {state state' : BDiffState} {d d' : DiffState}
    (h : Follows k state d state' d') {e e' f f' : DiffState} {offset size offset' size' o : Nat}
    (he : e.patchData = d.patchData) (he' : e'.patchData = d'.patchData)
    (hload : loadPatchData e offset size = .ok (b, p, o, f))
    (hload' : loadPatchData e' offset' size' = .ok (b', p', o, f')) :
    Common b' b p' p ((d.patchData.bytes.take k).drop o) := by
  obtain ⟨r, hr⟩ := loadPatchData_stream hload
  obtain ⟨r', hr'⟩ := loadPatchData_stream hload'
  rw [he] at hr
  rw [he', h.patch] at hr'
  have hsplit : d.patchData.bytes.drop o =
      (d.patchData.bytes.take k).drop o ++ (d.patchData.bytes.drop o).drop (k - o) := by
    rw [List.drop_take, List.take_append_drop]
  rw [hsplit] at hr
  exact ⟨⟨r', hr'⟩, ⟨_, hr.split.1⟩⟩

/-- **A window that ends in the prefix by its header is the window of the patch.** -/
theorem declared_of_cut {k : Nat} {state state' : BDiffState} {d d' : DiffState}
    (hf : Follows k state d state' d') (hlen63 : d.patchData.bytes.length < 2 ^ 63)
    {w w' : Declared} (hw : declared state d = .ok w)
    (hw' : declared state' d' = .ok w') (hstop : w'.stop ≤ k) : w = w' := by
  obtain ⟨⟨s₁, d₁⟩, hfile, hw⟩ := ok_of_bind hw
  obtain ⟨⟨b, p₀, start, d₂⟩, hload, hw⟩ := ok_of_bind hw
  obtain ⟨flags, hflags, hw⟩ := ok_of_bind hw
  obtain ⟨⟨seg, segLen, p₁⟩, hseg, hw⟩ := ok_of_bind hw
  obtain ⟨⟨len, p₂⟩, hlen, hw⟩ := ok_of_bind hw
  obtain ⟨⟨c, q₀, o, d₃⟩, hload₂, hw⟩ := ok_of_bind hw
  obtain ⟨⟨target, q₁⟩, htarget, hw⟩ := ok_of_bind hw
  obtain ⟨hdr, hhdr, hw⟩ := ok_of_bind hw
  cases hw
  obtain ⟨⟨s₁', d₁'⟩, hfile', hw'⟩ := ok_of_bind hw'
  obtain ⟨⟨b', p₀', start', d₂'⟩, hload', hw'⟩ := ok_of_bind hw'
  obtain ⟨flags', hflags', hw'⟩ := ok_of_bind hw'
  obtain ⟨⟨seg', segLen', p₁'⟩, hseg', hw'⟩ := ok_of_bind hw'
  obtain ⟨⟨len', p₂'⟩, hlen', hw'⟩ := ok_of_bind hw'
  obtain ⟨⟨c', q₀', o', d₃'⟩, hload₂', hw'⟩ := ok_of_bind hw'
  obtain ⟨⟨target', q₁'⟩, htarget', hw'⟩ := ok_of_bind hw'
  obtain ⟨hdr', hhdr', hw'⟩ := ok_of_bind hw'
  cases hw'
  simp only at hstop hseg hseg' hlen hlen' hload₂ hload₂' htarget htarget' hhdr hhdr' hload hload'
  have hfile_frame := readFileHeader_frame hfile
  have hfile_frame' := readFileHeader_frame hfile'
  have hload_frame := loadPatchData_frame hload
  have hload_frame' := loadPatchData_frame hload'
  have hpatch₁ : d₁.patchData = d.patchData := by rw [hfile_frame]
  have hpatch₁' : d₁'.patchData = d'.patchData := by rw [hfile_frame']
  have hpatch₂ : d₂.patchData = d.patchData := by rw [hload_frame, hpatch₁]
  have hpatch₂' : d₂'.patchData = d'.patchData := by rw [hload_frame', hpatch₁']
  have hsource : d₂.sourceData = d₂'.sourceData := by
    rw [hload_frame, hload_frame', hfile_frame, hfile_frame']
    exact hf.source.symm
  have hlen63' : d'.patchData.bytes.length < 2 ^ 63 := by
    rw [hf.length]
    exact Nat.lt_of_le_of_lt hf.le hlen63
  obtain ⟨hstart, -, hholds, -⟩ := loadPatchData_bounds hload
  obtain ⟨hstart', -, hholds', -⟩ := loadPatchData_bounds hload'
  obtain ⟨ho, -, hholds₂, -⟩ := loadPatchData_bounds hload₂
  obtain ⟨ho', -, hholds₂', -⟩ := loadPatchData_bounds hload₂'
  have hwindow : start = start' := by
    rw [hstart, hstart', hfile_frame, hfile_frame']
    exact hf.window.symm
  subst hwindow
  -- where the pieces of the prefix's header are
  have hb₁ := readSourceSegment_bounds (readByte_bounds hholds'.1 hflags') hseg'
  have hb₂ := readULEB128_bounds hb₁.2.1 hlen'
  have hb₃ := readULEB128_bounds hholds₂'.1 htarget'
  have hb₄ := readDeltaHeader_bounds hb₃.2.1 hhdr'
  rw [dataOffset hload' (by rwa [hpatch₁']) (by omega) hb₂.2] at ho'
  -- the header of the window
  have hcommon := hf.common hpatch₁ hpatch₁' hload hload'
  have hlength : ((d.patchData.bytes.take k).drop start).length = k - start := by
    rw [List.length_drop, ← hf.patch, hf.length]
  obtain ⟨hbyte, hcommon⟩ := hcommon.byte (by omega)
  obtain rfl : flags = flags' := by
    rw [hflags, hflags'] at hbyte
    exact Except.ok.inj hbyte
  have hlength₁ : (((d.patchData.bytes.take k).drop start).drop 1).length + 1 = k - start := by
    rw [List.length_drop]
    omega
  obtain ⟨r₁, l₁, hr₁, hc₁, e₁, e₁'⟩ :=
    hcommon.segment (readByte_bounds hholds'.1 hflags') hsource hseg' (by omega)
  rw [hseg] at hr₁
  cases hr₁
  obtain ⟨r₂, l₂, hr₂, hc₂, e₂, e₂'⟩ := hc₁.uleb hlen' (by omega)
  rw [hlen] at hr₂
  cases hr₂
  -- the header of its delta encoding
  have hseg_b := readSourceSegment_bounds (readByte_bounds hholds.1 hflags) hseg
  have hlen_b := readULEB128_bounds hseg_b.2.1 hlen
  rw [dataOffset hload (by rwa [hpatch₁]) (by omega) hlen_b.2] at ho
  obtain rfl : o = o' := by omega
  have hcommon₂ := hf.common hpatch₂ hpatch₂' hload₂ hload₂'
  have hlength₂ : ((d.patchData.bytes.take k).drop o).length = k - o := by
    rw [List.length_drop, ← hf.patch, hf.length]
  obtain ⟨r₃, l₃, hr₃, hc₃, e₃, e₃'⟩ := hcommon₂.uleb htarget' (by omega)
  rw [htarget] at hr₃
  cases hr₃
  obtain ⟨hdr₄, hr₄, e₄, hio, his, hico⟩ := hc₃.header hb₃.2.1 hhdr' (by omega)
  rw [hhdr] at hr₄
  cases hr₄
  have hb₄' := readDeltaHeader_bounds (readULEB128_bounds hholds₂.1 htarget).2.1 hhdr
  have hb₃' := readULEB128_bounds hholds₂.1 htarget
  rw [hio, his, hico]
  congr 2
  omega

/-! ## Runs -/

/-- The decoder of the first `k` bytes of the patch. -/
def DiffState.cut (d : DiffState) (k : Nat) : DiffState :=
  { d with
    patchData :=
      ⟨d.patchData.base, d.patchData.bytes.take k, by
        have hfits := d.patchData.fits
        rw [List.length_take]
        omega⟩ }

/-- No accepted window declares lengths that add up to more than an offset can be. -/
def NoWrap (xxh : Xxh) (state₀ : BDiffState) (d₀ : DiffState) : Prop :=
  ∀ state d, Reached xxh state₀ d₀ state d → ∀ r, bdiff xxh state d = .ok r →
    ∀ w, declared state d = .ok w → w.stop < 2 ^ 64

section Runs

variable {xxh : Xxh} {state₀ state : BDiffState} {d₀ d : DiffState}

theorem Reached.more (h : Reached xxh state₀ d₀ state d) : d.more = true := by
  cases h with
  | start hmore => exact hmore
  | next _ _ _ hmore => exact hmore

/-- The driver comes to what it does from a reached state. -/
theorem Reached.drive (h : Reached xxh state₀ d₀ state d) {r : Except BdiffErr (List UInt8)}
    (hr : ∃ windows, drive xxh windows state d = some r) :
    ∃ windows, Bdiff.drive xxh windows state₀ d₀ = some r := by
  induction h with
  | start => exact hr
  | next h hb h0 hmore ih =>
    obtain ⟨windows, hr⟩ := hr
    refine ih ⟨windows + 1, ?_⟩
    rw [Bdiff.drive, if_pos h.more, hb]
    simp only [if_neg h0]
    exact hr

theorem Reached.rejected (h : Reached xxh state₀ d₀ state d) {e : BdiffErr}
    (hb : bdiff xxh state d = .error e) :
    ∃ windows, Bdiff.drive xxh windows state₀ d₀ = some (.error e) := by
  refine h.drive ⟨1, ?_⟩
  rw [Bdiff.drive, if_pos h.more, hb]

/-- A driver that ends with an error called `bdiff` in a state where it failed so. -/
theorem reached_of_rejected {windows : Nat} {e : BdiffErr}
    (h : drive xxh windows state d = some (.error e)) :
    ∃ state' d', Reached xxh state d state' d' ∧ bdiff xxh state' d' = .error e := by
  induction windows generalizing state d with
  | zero => cases h
  | succ windows ih =>
    rw [drive] at h
    split at h
    · rename_i hmore
      split at h
      · rename_i hb
        cases h
        exact ⟨_, _, .start hmore, hb⟩
      · rename_i state₁ d₁ hb
        split at h
        · cases h
        · rename_i h0
          obtain ⟨state', d', hreach, hb'⟩ := ih h
          by_cases hmore' : d₁.more = true
          · exact ⟨_, _, .trans (.next (.start hmore) hb h0 hmore') hreach, hb'⟩
          · cases windows with
            | zero => cases h
            | succ windows =>
              rw [drive, if_neg hmore'] at h
              cases h
    · cases h

theorem drive_more {windows : Nat} {r : Except BdiffErr (List UInt8)}
    (h : drive xxh windows state d = some r) (n : Nat) :
    drive xxh (windows + n) state d = some r := by
  induction windows generalizing state d with
  | zero => cases h
  | succ windows ih =>
    rw [Nat.add_right_comm, drive]
    rw [drive] at h
    split at h
    · rename_i hmore
      rw [if_pos hmore]
      split at h
      · exact h
      · split at h
        · rename_i h0
          exact (if_pos h0).trans h
        · rename_i h0
          exact (if_neg h0).trans (ih h)
    · rename_i hmore
      rw [if_neg hmore]
      exact h

/-- The offset after an accepted window that does not wrap around. -/
theorem Next.offset_eq {state' : BDiffState} {d' : DiffState} {stop : Nat}
    (h : Next state d stop state' d') (hstop : stop < 2 ^ 64) :
    d'.patchWindowOffsetLast = stop ∧ windowOffset state' d' = stop := by
  have hgt := h.stop_gt
  have hoffset := h.offset
  have heq : d'.patchWindowOffsetLast = stop := by omega
  exact ⟨heq, (if_pos h.headerRead).trans heq⟩

/-- The decoder of the prefix follows the decoder of the patch, or was stopped by an error. -/
theorem follows_or_rejected {k : Nat} (hlen : d₀.patchData.bytes.length < 2 ^ 63)
    (hk : k ≤ d₀.patchData.bytes.length) (hstart : d₀.patchWindowOffsetLast = 0)
    (hno : NoWrap xxh state₀ d₀) (hno' : NoWrap xxh state₀ (d₀.cut k))
    (h : Reached xxh state₀ d₀ state d) (hs : windowOffset state d < k) :
    (∃ windows e, drive xxh windows state₀ (d₀.cut k) = some (.error e)) ∨
      ∃ state' d', Reached xxh state₀ (d₀.cut k) state' d' ∧ Follows k state d state' d' := by
  induction h with
  | start =>
    refine .inr ⟨state₀, d₀.cut k, .start ?_, rfl, rfl, rfl, rfl, hk⟩
    have hcut : (d₀.cut k).patchData.bytes.length = k := by
      rw [DiffState.cut, List.length_take]
      exact Nat.min_eq_left hk
    refine canRead_of_le ?_ (by omega)
    rw [hcut, DiffState.cut]
    simp only [hstart]
    omega
  | @next state state₁ d d₁ h hb h0 hmore ih =>
    have hpatch := h.patch hlen
    obtain ⟨stop, hdecl, hnext, hsource⟩ := bdiff_declared (by rwa [hpatch]) hb
    obtain ⟨hoffset, hwindow⟩ := hnext.offset_eq (hno _ _ h _ hb _ hdecl)
    have hgt := hnext.stop_gt
    rcases ih (by omega) with hrej | ⟨state', d', hreach, hf⟩
    · exact .inl hrej
    · cases hb' : bdiff xxh state' d' with
      | error e =>
        obtain ⟨windows, hw⟩ := hreach.rejected hb'
        exact .inl ⟨windows, e, hw⟩
      | ok r =>
        obtain ⟨state₁', d₁'⟩ := r
        have hcut := hf.length
        obtain ⟨stop', hdecl', hnext', hsource'⟩ := bdiff_declared (by omega) hb'
        obtain ⟨hoffset', -⟩ := hnext'.offset_eq (hno' _ _ hreach _ hb' _ hdecl')
        have hle := hnext'.offset_le
        have hsame := declared_of_cut hf (by rwa [hpatch]) hdecl hdecl' (by simp only; omega)
        simp only [Declared.mk.injEq] at hsame
        obtain ⟨-, rfl, hsize⟩ := hsame
        refine .inr ⟨state₁', d₁', .next hreach hb' (by omega) ?_, ?_⟩
        · refine canRead_of_le ?_ (by rw [hnext'.patch]; omega)
          rw [hnext'.patch]
          omega
        · refine ⟨hnext'.headerRead.trans hnext.headerRead.symm, by omega, ?_, ?_, ?_⟩
          · rw [hsource', hsource, hf.source]
          · rw [hnext'.patch, hnext.patch, hf.patch]
          · rw [hnext.patch]
            exact hf.le

/-- Where only the first window is accepted, it alone has to be looked at. -/
theorem noWrap_of_first {w : Declared} (hdecl : (declared state₀ d₀).toOption = some w)
    (hstop : w.stop < 2 ^ 64)
    (hmore : ((bdiff xxh state₀ d₀).toOption.any fun r => r.2.more) = false) :
    NoWrap xxh state₀ d₀ := by
  have honly : ∀ state d, Reached xxh state₀ d₀ state d → state = state₀ ∧ d = d₀ := by
    intro state d hreach
    induction hreach with
    | start => exact ⟨rfl, rfl⟩
    | next h hb h0 hmore' ih =>
      rw [ih.1, ih.2] at hb
      rw [hb] at hmore
      exact absurd (hmore'.symm.trans hmore) (by decide)
  intro state d hreach _ _ w' hw'
  obtain ⟨rfl, rfl⟩ := honly _ _ hreach
  rw [hw'] at hdecl
  cases hdecl
  exact hstop

/-- The decoder of a prefix that ends inside an accepted window stops with an error. -/
theorem cut_rejected {k : Nat} (hlen : d₀.patchData.bytes.length < 2 ^ 63)
    (hstart : d₀.patchWindowOffsetLast = 0) (h : Reached xxh state₀ d₀ state d)
    {r : BDiffState × DiffState} (hb : bdiff xxh state d = .ok r) {w : Declared}
    (hw : declared state d = .ok w) (hinside : w.start < k ∧ k < w.stop)
    (hno : NoWrap xxh state₀ d₀) (hno' : NoWrap xxh state₀ (d₀.cut k)) :
    ∃ windows e, drive xxh windows state₀ (d₀.cut k) = some (.error e) := by
  have hpatch := h.patch hlen
  have hlen' : d.patchData.bytes.length < 2 ^ 63 := by rwa [hpatch]
  obtain ⟨stop, hdecl, hnext, -⟩ := bdiff_declared hlen' hb
  obtain ⟨hoffset, -⟩ := hnext.offset_eq (hno _ _ h _ hb _ hdecl)
  have hle := hnext.offset_le
  have hsame := hw
  rw [hdecl] at hsame
  cases hsame
  simp only at hinside
  rcases follows_or_rejected hlen (by rw [← hpatch]; omega) hstart hno hno' h hinside.1 with
    hrej | ⟨state', d', hreach, hf⟩
  · exact hrej
  · cases hb' : bdiff xxh state' d' with
    | error e =>
      obtain ⟨windows, hdrive⟩ := hreach.rejected hb'
      exact ⟨windows, e, hdrive⟩
    | ok r' =>
      -- the window of the prefix would end in the prefix, so it is the window of the patch
      have hcut := hf.length
      obtain ⟨stop', hdecl', hnext', -⟩ := bdiff_declared (by omega) hb'
      obtain ⟨hoffset', -⟩ := hnext'.offset_eq (hno' _ _ hreach _ hb' _ hdecl')
      have hle' := hnext'.offset_le
      have hwindow := declared_of_cut hf hlen' hdecl hdecl' (by simp only; omega)
      simp only [Declared.mk.injEq] at hwindow
      omega

end Runs

def noXxh : Xxh := ⟨fun _ _ => 0, fun _ _ => 0⟩

/-- A window of 120 zeros, and a window of one byte. The number 1 in the header of the second one
is 19 bytes long. -/
def paddedBytes : List UInt8 :=
  [0xD6, 0xC3, 0xC4, 0, 0, 0, 127, 120, 0, 120, 2, 0] ++ List.replicate 120 0 ++ [1, 120] ++
    [0, 26, 1, 0, 0x81, 0xFF, 0xFF, 0xFF, 0xFF, 0xFF, 0xFF, 0xFF, 0xFF, 0x80, 0x80, 0x80, 0x80,
      0x80, 0x80, 0x80, 0x80, 0x80, 0x80, 1, 1, 0, 65, 2]

theorem length_paddedBytes : paddedBytes.length < 2 ^ 63 := by decide +kernel

def paddedStart : DiffState := freshDecoder paddedBytes [] length_paddedBytes (Nat.two_pow_pos 64)

/-- A window with a source segment of one byte; the address of its copy is the last byte. -/
def copyBytes : List UInt8 :=
  [0xD6, 0xC3, 0xC4, 0, 0, 1, 1, 0, 9, 5, 0, 1, 2, 1, 66, 2, 20, 1]

def copyStart : DiffState := freshDecoder copyBytes [7] (by decide) (by decide)

end Acts.Bdiff
