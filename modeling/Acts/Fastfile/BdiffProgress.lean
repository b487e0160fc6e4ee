import Acts.Fastfile.BdiffBounds

/-!
# The driver of the bdiff decoder

Whether the loop over the windows ends, whatever lengths a patch declares:

* `drive` — the loop, for a number of windows; `Reached` — the decoder states it calls `bdiff` in.
* `declaredEnd` — where a window ends by its declared lengths, added without wraparound.
* `bdiff_next` — where the decoder goes on instead: at that sum modulo 2^64.
* `bdiff_withDest` — what was produced before has no part in a window.
* `drive_ends_iff` — **the loop ends, and each window is behind the last one, exactly when no
  window wraps around to its own start or before it.**
-/

set_option autoImplicit false

namespace Acts.Bdiff

/-! ## The loop -/

/-- `patchData->CanRead(1)`; after a window the patch buffer stands at the offset that was set
last. -/
def DiffState.more (d : DiffState) : Bool :=
  canRead d.patchData.bytes.length d.patchWindowOffsetLast 1

/-- The loop of the driver; `none` when it has not ended after that many windows. -/
def drive (xxh : Xxh) : Nat → BDiffState → DiffState → Option (Except BdiffErr (List UInt8))
  | 0, _, _ => none
  | windows + 1, state, d =>
    if d.more then
      match bdiff xxh state d with
      | .error e => some (.error e)
      | .ok (state, d) =>
        if d.destWindowLastSize = 0 then some (.ok (syncData d).destdata)
        else drive xxh windows state d
    else some (.ok (syncData d).destdata)

/-- The states before the calls of `bdiff`. -/
inductive Reached (xxh : Xxh) (state₀ : BDiffState) (d₀ : DiffState) :
    BDiffState → DiffState → Prop where
  | start (hmore : d₀.more = true) : Reached xxh state₀ d₀ state₀ d₀
  | next {state state' : BDiffState} {d d' : DiffState} (h : Reached xxh state₀ d₀ state d)
      (hb : bdiff xxh state d = .ok (state', d')) (h0 : d'.destWindowLastSize ≠ 0)
      (hmore : d'.more = true) : Reached xxh state₀ d₀ state' d'

/-- Where a window starts in the patch and where it ends: behind its instructions, its address
section and the checksum. -/
def declaredEnd (state : BDiffState) (d : DiffState) : Except BdiffErr (Nat × Nat) := do
  let (_, d) ← readFileHeader state d
  let (b, bdiffDataStart, start, d) ← loadPatchData d 0 0x400
  let flags ← readByte b bdiffDataStart
  let flags := flags.toNat
  let (_, _, p) ← readSourceSegment d b flags (bdiffDataStart + 1)
  let (patchDataLen, p) ← readULEB128 b p
  let (b', patchDataStart, _, _) ← loadPatchData d (ptrAdd start (ptrSub p bdiffDataStart))
    (ptrAdd patchDataLen (if flags &&& VCDF_CHECKSUM ≠ 0 then 4 else 0))
  let (patchDestLen, p') ← readULEB128 b' patchDataStart
  let h ← readDeltaHeader b' patchDestLen p'
  pure (start, start + (p - bdiffDataStart) + (h.patchData - patchDataStart) + h.instructionOffset +
    h.instructionSize + h.instructionCheckOffset + checksumLen flags)

/-- The declared lengths of a window add up to more than an offset can be, and what is left of
them leads back. -/
def WrapsBack (state : BDiffState) (d : DiffState) : Prop :=
  ∃ start stop, declaredEnd state d = .ok (start, stop) ∧ 2 ^ 64 ≤ stop ∧ 0 < stop % 2 ^ 64 ∧
    stop % 2 ^ 64 ≤ start

/-! ## Pointers only go forward -/

theorem readULEB128From_bounds {acc p q v : Nat} {l : List UInt8}
    (h : readULEB128From acc p l = .ok (v, q)) : p < q ∧ q ≤ p + l.length := by
  induction l generalizing acc p with
  | nil => cases h
  | cons c l ih =>
    unfold readULEB128From at h
    simp only at h
    rw [List.length_cons]
    split at h
    · have := ih h
      omega
    · cases h
      omega

/-- A position in a buffer. -/
def Buf.Holds (b : Buf) (p : Nat) : Prop := b.base ≤ p ∧ p ≤ b.base + b.bytes.length

theorem readULEB128_bounds {b : Buf} {p q v : Nat} (hp : b.base ≤ p)
    (h : readULEB128 b p = .ok (v, q)) : p < q ∧ b.Holds q := by
  have hb := readULEB128From_bounds h
  rw [Buf.at, if_pos hp, List.length_drop] at hb
  unfold Buf.Holds
  omega

theorem readByte_bounds {b : Buf} {p : Nat} {c : UInt8} (hp : b.base ≤ p)
    (h : readByte b p = .ok c) : b.Holds (p + 1) := by
  unfold readByte at h
  rw [Buf.at, if_pos hp] at h
  split at h
  · rename_i hdrop
    have hlen := congrArg List.length hdrop
    rw [List.length_drop, List.length_cons] at hlen
    unfold Buf.Holds
    omega
  · cases h

theorem readSourceSegment_bounds {d : DiffState} {b : Buf} {flags p q segLen : Nat}
    {seg : Option Nat} (hp : b.Holds p) (h : readSourceSegment d b flags p = .ok (seg, segLen, q)) :
    p ≤ q ∧ b.Holds q := by
  unfold readSourceSegment at h
  split at h
  · cases h
    exact ⟨Nat.le_refl _, hp⟩
  · obtain ⟨⟨v₁, p₁⟩, h₁, h⟩ := ok_of_bind h
    obtain ⟨⟨v₂, p₂⟩, h₂, h⟩ := ok_of_bind h
    have hb₁ := readULEB128_bounds hp.1 h₁
    have hb₂ := readULEB128_bounds hb₁.2.1 h₂
    simp only at h
    split at h
    · obtain ⟨⟨v₃, p₃⟩, h₃, h⟩ := ok_of_bind h
      obtain ⟨loc, -, h⟩ := ok_of_bind h
      cases h
      have hb₃ := readULEB128_bounds hb₂.2.1 h₃
      exact ⟨by omega, hb₃.2⟩
    · obtain ⟨⟨v₃, p₃⟩, h₃, h⟩ := ok_of_bind h
      obtain ⟨loc, -, h⟩ := ok_of_bind h
      cases h₃
      cases h
      exact ⟨by omega, hb₂.2⟩

theorem readDeltaHeader_bounds {b : Buf} {len p : Nat} {h : DeltaHeader} (hp : b.base ≤ p)
    (hr : readDeltaHeader b len p = .ok h) : p < h.patchData ∧ b.Holds h.patchData := by
  obtain ⟨ind, -, hr⟩ := ok_of_bind hr
  split at hr
  · cases hr
  · obtain ⟨⟨a, p₁⟩, h₁, hr⟩ := ok_of_bind hr
    obtain ⟨⟨a', p₂⟩, h₂, hr⟩ := ok_of_bind hr
    obtain ⟨⟨a'', p₃⟩, h₃, hr⟩ := ok_of_bind hr
    cases hr
    have hb₁ := readULEB128_bounds (Nat.le_succ_of_le hp) h₁
    have hb₂ := readULEB128_bounds hb₁.2.1 h₂
    have hb₃ := readULEB128_bounds hb₂.2.1 h₃
    exact ⟨by simp only; omega, hb₃.2⟩

/-- The pointer of a fetch: in the patch at the offset, or at the start of the temporary buffer. -/
theorem loadPatchData_bounds {d d' : DiffState} {offset size p o : Nat} {b : Buf}
    (h : loadPatchData d offset size = .ok (b, p, o, d')) :
    o = d.fetchOffset offset ∧ o ≤ d.patchData.bytes.length ∧ b.Holds p ∧ p < 2 ^ 64 ∧
      b.base + b.bytes.length ≤ p + max (d.patchData.bytes.length - o) 0x405 := by
  have htmp := d.tmpFits
  have hfits := d.patchData.fits
  have hfetch : (if offset ≠ 0 then offset else d.patchWindowOffsetLast) =
      d.fetchOffset offset := rfl
  unfold loadPatchData at h
  simp only [hfetch] at h
  obtain ⟨_, hgoto, h⟩ := ok_of_bind h
  have hle : d.fetchOffset offset ≤ d.patchData.bytes.length := by
    unfold goto at hgoto
    split at hgoto
    · cases hgoto
    · omega
  unfold Buf.Holds
  split at h
  · cases h
    exact ⟨rfl, hle, by omega, by omega, by omega⟩
  · split at h
    · cases h
      refine ⟨rfl, hle, ?_, by omega, ?_⟩ <;>
        simp only [tmpPatchBuf, List.length_take, List.length_append, List.length_replicate] <;>
        omega
    · cases h

/-! ## Where the decoder goes on -/

theorem readFileHeader_read {state state' : BDiffState} {d d' : DiffState}
    (h : readFileHeader state d = .ok (state', d')) : state'.headerRead = true := by
  unfold readFileHeader at h
  split at h
  · rename_i hread
    cases h
    exact hread
  · obtain ⟨r1, -, h⟩ := ok_of_bind h
    obtain ⟨c0, -, h⟩ := ok_of_bind h
    obtain ⟨c1, -, h⟩ := ok_of_bind h
    obtain ⟨c2, -, h⟩ := ok_of_bind h
    split at h
    · cases h
    · obtain ⟨c4, -, h⟩ := ok_of_bind h
      split at h
      · cases h
      · obtain ⟨r2, -, h⟩ := ok_of_bind h
        cases h
        rfl

theorem checkChecksum_ok {xxh : Xxh} {state state' : BDiffState} {b : Buf} {flags p q : Nat}
    {target : List UInt8} (hp : p < 2 ^ 64)
    (h : checkChecksum xxh state b flags p target = .ok (state', q)) :
    q = ptrAdd p (checksumLen flags) ∧ state'.headerRead = state.headerRead := by
  unfold checkChecksum at h
  unfold checksumLen
  split at h
  · rename_i hflag
    cases h
    rw [if_neg (by simpa using hflag), ptrAdd_of_lt (by omega)]
    exact ⟨rfl, rfl⟩
  · rename_i hflag
    rw [if_pos hflag]
    obtain ⟨real, -, h⟩ := ok_of_bind h
    cases htype : state.type <;> simp only [htype] at h
    · cases h
      exact ⟨rfl, rfl⟩
    · split at h
      · cases h
      · cases h
        exact ⟨rfl, rfl⟩
    · split at h
      · cases h
      · cases h
        exact ⟨rfl, rfl⟩

theorem loadDestData_frame {d d' : DiffState} {size : Nat} (h : loadDestData d size = .ok d') :
    d'.patchData = d.patchData ∧ d'.patchWindowOffsetLast = d.patchWindowOffsetLast ∧
      d'.sourceData = d.sourceData := by
  have hsync : (syncData d).patchData = d.patchData ∧
      (syncData d).patchWindowOffsetLast = d.patchWindowOffsetLast ∧
      (syncData d).sourceData = d.sourceData := by
    unfold syncData
    split <;> exact ⟨rfl, rfl, rfl⟩
  unfold loadDestData at h
  simp only at h
  split at h
  · split at h
    · cases h
      exact hsync
    · cases h
  · cases h
    exact hsync

/-- What an accepted window does to the patch offset. -/
structure Next (state : BDiffState) (d : DiffState) (stop : Nat) (state' : BDiffState)
    (d' : DiffState) : Prop where
  stop_gt : windowOffset state d < stop
  offset : 0 < stop % 2 ^ 64 ∧ d'.patchWindowOffsetLast = stop % 2 ^ 64 ∨
    stop % 2 ^ 64 = 0 ∧ windowOffset state d < d'.patchWindowOffsetLast
  offset_le : d'.patchWindowOffsetLast ≤ d.patchData.bytes.length
  patch : d'.patchData = d.patchData
  headerRead : state'.headerRead = true

/-- The arithmetic of the last fetch, without wraparound. -/
theorem stop_mod {p s io sz co c o : Nat} (hs : s ≤ p) (hp : s < 2 ^ 64) :
    ptrAdd (ptrSub (ptrAdd (ptrAdd (ptrAdd p (ptrAdd io sz)) co) c) s) o =
      (o + (p - s) + io + sz + co + c) % 2 ^ 64 := by
  unfold ptrAdd ptrSub
  omega

theorem bdiff_next {xxh : Xxh} {state state' : BDiffState} {d d' : DiffState}
    (hlen : d.patchData.bytes.length < 2 ^ 63) (h : bdiff xxh state d = .ok (state', d')) :
    ∃ stop, declaredEnd state d = .ok (windowOffset state d, stop) ∧
      Next state d stop state' d' := by
  obtain ⟨⟨state₁, d₁⟩, hfile, h⟩ := ok_of_bind h
  obtain ⟨⟨b, bdiffDataStart, start, d₂⟩, hload, h⟩ := ok_of_bind h
  obtain ⟨flags, hflags, h⟩ := ok_of_bind h
  simp only at h
  split at h
  · cases h
  · obtain ⟨⟨seg, segOffset, p⟩, hseg, h⟩ := ok_of_bind h
    obtain ⟨⟨patchDataLen, p'⟩, hpatch, h⟩ := ok_of_bind h
    obtain ⟨⟨b', patchDataStart, offset, d₃⟩, hload', h⟩ := ok_of_bind h
    obtain ⟨⟨destLen, q⟩, hdestLen, h⟩ := ok_of_bind h
    obtain ⟨d₄, hdest, h⟩ := ok_of_bind h
    split at h
    · cases h
    · obtain ⟨hdr, hhdr, h⟩ := ok_of_bind h
      obtain ⟨w, -, h⟩ := ok_of_bind h
      obtain ⟨⟨state₂, check⟩, hcheck, h⟩ := ok_of_bind h
      obtain ⟨⟨b'', p'', o'', d'⟩, hlast, h⟩ := ok_of_bind h
      cases h
      obtain ⟨hstart, hstart_le, hholds, -, hend⟩ := loadPatchData_bounds hload
      obtain ⟨hoffset, -, hholds', hdata_lt, -⟩ := loadPatchData_bounds hload'
      obtain ⟨hlast_eq, hlast_le, -⟩ := loadPatchData_bounds hlast
      obtain ⟨hdest_patch, hdest_last, -⟩ := loadDestData_frame hdest
      have hfile_frame := readFileHeader_frame hfile
      have hload_frame := loadPatchData_frame hload
      have hload_frame' := loadPatchData_frame hload'
      have hlast_frame := loadPatchData_frame hlast
      have hpatch₁ : d₁.patchData = d.patchData := by rw [hfile_frame]
      have hpatch₃ : d₃.patchData = d.patchData := by rw [hload_frame', hload_frame, hfile_frame]
      have hwindow : start = windowOffset state d := by rw [hstart, hfile_frame]; rfl
      have hseg_b := readSourceSegment_bounds (readByte_bounds hholds.1 hflags) hseg
      have hpatch_b := readULEB128_bounds hseg_b.2.1 hpatch
      have hdestLen_b := readULEB128_bounds hholds'.1 hdestLen
      have hhdr_b := readDeltaHeader_bounds hdestLen_b.2.1 hhdr
      have hp_le := hpatch_b.2.2
      have hb_fits := b.fits
      -- the offset of the window's data does not wrap
      have hoff : offset = start + (p' - bdiffDataStart) := by
        rw [hpatch₁] at hend hstart_le
        rw [hoffset, ptrSub_of_le (by omega) (by omega), ptrAdd_of_lt (by omega),
          DiffState.fetchOffset, if_pos (by omega)]
      obtain ⟨hcheck_eq, hread⟩ := checkChecksum_ok (Nat.mod_lt _ (by decide)) hcheck
      have hnext : ptrAdd (ptrSub check patchDataStart) offset =
          (offset + (hdr.patchData - patchDataStart) + hdr.instructionOffset +
            hdr.instructionSize + hdr.instructionCheckOffset + checksumLen flags.toNat) % 2 ^ 64 := by
        rw [hcheck_eq]
        exact stop_mod (by omega) hdata_lt
      rw [hoff] at hnext
      have hlast₅ : d'.patchWindowOffsetLast = o'' := by rw [hlast_frame, hlast_eq]
      rw [← hwindow]
      refine ⟨start + (p' - bdiffDataStart) + (hdr.patchData - patchDataStart) +
        hdr.instructionOffset + hdr.instructionSize + hdr.instructionCheckOffset +
        checksumLen flags.toNat, ?_, ?_, ?_, ?_, ?_, ?_⟩
      · simp only [declaredEnd, hfile, hload, hflags, hseg, hpatch, hload', hdestLen, hhdr, bind,
          Except.bind, pure, Except.pure]
      · rw [← hwindow]
        omega
      · rw [hlast₅, hlast_eq, DiffState.fetchOffset]
        simp only [hoff] at hnext ⊢
        rw [hnext]
        split
        · rename_i hpos
          exact .inl ⟨Nat.pos_of_ne_zero hpos, rfl⟩
        · rename_i hzero
          refine .inr ⟨by simpa using hzero, ?_⟩
          have hlast₄ : d₄.patchWindowOffsetLast = start + (p' - bdiffDataStart) := by
            rw [hdest_last, hload_frame', ← hoff, hoffset]
          rw [← hwindow]
          simp only [hlast₄]
          omega
      · rw [hlast₅]
        rw [hdest_patch, hpatch₃] at hlast_le
        exact hlast_le
      · rw [hlast_frame]
        exact hdest_patch.trans hpatch₃
      · rw [hread]
        exact readFileHeader_read hfile

/-- **An accepted window moves the patch offset forward exactly when it does not wrap back.** -/
theorem bdiff_forward_iff {xxh : Xxh} {state state' : BDiffState} {d d' : DiffState}
    (hlen : d.patchData.bytes.length < 2 ^ 63) (h : bdiff xxh state d = .ok (state', d')) :
    windowOffset state d < d'.patchWindowOffsetLast ↔ ¬WrapsBack state d := by
  obtain ⟨stop, hstop, hnext⟩ := bdiff_next hlen h
  have hgt := hnext.stop_gt
  have hoffset := hnext.offset
  have hle := hnext.offset_le
  constructor
  · rintro hlt ⟨start, stop', hdecl, hbig, hpos, hback⟩
    rw [hstop] at hdecl
    cases hdecl
    omega
  · intro hno
    by_contra hge
    exact hno ⟨_, _, hstop, by omega, by omega, by omega⟩

/-! ## Runs -/

section Runs

variable {xxh : Xxh} {state₀ state state' : BDiffState} {d₀ d d' : DiffState}

theorem Reached.patch (h : Reached xxh state₀ d₀ state d)
    (hlen : d₀.patchData.bytes.length < 2 ^ 63) : d.patchData = d₀.patchData := by
  induction h with
  | start => rfl
  | next h hb h0 hmore ih =>
    obtain ⟨_, -, hnext⟩ := bdiff_next (by rwa [ih]) hb
    exact hnext.patch.trans ih

theorem Reached.trans (h : Reached xxh state₀ d₀ state d) {state' : BDiffState} {d' : DiffState}
    (h' : Reached xxh state d state' d') : Reached xxh state₀ d₀ state' d' := by
  induction h' with
  | start => exact h
  | next _ hb h0 hmore ih => exact .next ih hb h0 hmore

/-- Each window is accepted in front of the last one, so there are no more than the bytes that are
left. -/
theorem drive_ends (windows : Nat) (state : BDiffState) (d : DiffState)
    (hlen : d.patchData.bytes.length < 2 ^ 63)
    (hforward : ∀ state' d', Reached xxh state d state' d' → ∀ state'' d'',
      bdiff xxh state' d' = .ok (state'', d'') → ¬WrapsBack state' d')
    (hbound : d.patchData.bytes.length - windowOffset state d < windows) :
    ∃ r, drive xxh windows state d = some r := by
  induction windows generalizing state d with
  | zero => omega
  | succ windows ih =>
    rw [drive]
    split
    · rename_i hmore
      split
      · exact ⟨_, rfl⟩
      · rename_i state' d' hb
        split
        · exact ⟨_, rfl⟩
        · rename_i h0
          have hlt := (bdiff_forward_iff hlen hb).mpr (hforward _ _ (.start hmore) _ _ hb)
          obtain ⟨_, -, hnext⟩ := bdiff_next hlen hb
          have hle := hnext.offset_le
          have hwindow : windowOffset state' d' = d'.patchWindowOffsetLast :=
            if_pos hnext.headerRead
          by_cases hmore' : d'.more = true
          · refine ih _ _ (by rwa [hnext.patch]) ?_ ?_
            · intro state'' d'' hreach
              exact hforward _ _ (.trans (.next (.start hmore) hb h0 hmore') hreach)
            · rw [hwindow, hnext.patch]
              omega
          · cases windows with
            | zero => omega
            | succ windows =>
              rw [drive, if_neg hmore']
              exact ⟨_, rfl⟩
    · exact ⟨_, rfl⟩

end Runs

/-- **The loop over the windows of a patch ends, and every window that is accepted moves the patch
offset forward, exactly when no accepted window wraps back.** -/
theorem drive_ends_iff (xxh : Xxh) (state : BDiffState) (d : DiffState)
    (hlen : d.patchData.bytes.length < 2 ^ 63) :
    ((∃ windows r, drive xxh windows state d = some r) ∧
      ∀ state' d', Reached xxh state d state' d' → ∀ state'' d'',
        bdiff xxh state' d' = .ok (state'', d'') →
          windowOffset state' d' < d''.patchWindowOffsetLast) ↔
    ∀ state' d', Reached xxh state d state' d' → ∀ state'' d'',
      bdiff xxh state' d' = .ok (state'', d'') → ¬WrapsBack state' d' := by
  constructor
  · rintro ⟨-, hforward⟩ state' d' hreach state'' d'' hb
    exact (bdiff_forward_iff (by rwa [hreach.patch hlen]) hb).mp
      (hforward _ _ hreach _ _ hb)
  · intro hno
    refine ⟨⟨_, drive_ends _ state d hlen hno (Nat.lt_succ_self _)⟩, ?_⟩
    intro state' d' hreach state'' d'' hb
    exact (bdiff_forward_iff (by rwa [hreach.patch hlen]) hb).mpr (hno _ _ hreach _ _ hb)

/-- A patch that only one window is read of, and this window does not wrap back. -/
theorem addBytes_drive_ends :
    let d := freshDecoder addBytes [] (by decide) (by decide)
    (∃ windows r, drive ⟨fun _ _ => 0, fun _ _ => 0⟩ windows ⟨false, .unknown, 0⟩ d = some r) ∧
      ∀ state' d', Reached ⟨fun _ _ => 0, fun _ _ => 0⟩ ⟨false, .unknown, 0⟩ d state' d' →
        ∀ state'' d'', bdiff ⟨fun _ _ => 0, fun _ _ => 0⟩ state' d' = .ok (state'', d'') →
          windowOffset state' d' < d''.patchWindowOffsetLast := by
  intro d
  refine (drive_ends_iff _ _ d (by decide)).mpr ?_
  have hend : (declaredEnd ⟨false, .unknown, 0⟩ d).toOption = some (5, 14) := by decide +kernel
  have hmore : (bdiff ⟨fun _ _ => 0, fun _ _ => 0⟩ ⟨false, .unknown, 0⟩ d).toOption.map
      (fun r => r.2.more) = some false := by decide +kernel
  have honly : ∀ state' d', Reached ⟨fun _ _ => 0, fun _ _ => 0⟩ ⟨false, .unknown, 0⟩ d state' d' →
      state' = ⟨false, .unknown, 0⟩ ∧ d' = d := by
    intro state' d' hreach
    induction hreach with
    | start => exact ⟨rfl, rfl⟩
    | next h hb h0 hmore' ih =>
      rw [ih.1, ih.2] at hb
      rw [hb] at hmore
      exact absurd (hmore'.symm.trans (Option.some.inj hmore)) (by decide)
  rintro state' d' hreach - - - ⟨start, stop, hdecl, hbig, -⟩
  obtain ⟨rfl, rfl⟩ := honly _ _ hreach
  rw [hdecl] at hend
  cases hend
  exact absurd hbig (by decide)

/-! ## What was produced before -/

def DiffState.withDest (d : DiffState) (destdata : List UInt8) : DiffState := { d with destdata }

section Dest

variable {d d' : DiffState} (out : List UInt8)

theorem loadPatchData_withDest {offset size p o : Nat} {b : Buf}
    (h : loadPatchData d offset size = .ok (b, p, o, d')) :
    loadPatchData (d.withDest out) offset size = .ok (b, p, o, d'.withDest out) := by
  have hfetch : (if offset ≠ 0 then offset else d.patchWindowOffsetLast) =
      d.fetchOffset offset := rfl
  have hfetch' : (if offset ≠ 0 then offset else (d.withDest out).patchWindowOffsetLast) =
      d.fetchOffset offset := rfl
  have hpatch : (d.withDest out).patchData = d.patchData := rfl
  unfold loadPatchData at h ⊢
  simp only [hfetch, hfetch', hpatch] at h ⊢
  obtain ⟨u, hgoto, h⟩ := ok_of_bind h
  rw [hgoto]
  by_cases hcan : canRead d.patchData.bytes.length (d.fetchOffset offset) size = true
  · rw [if_pos hcan] at h
    cases h
    exact if_pos hcan
  · rw [if_neg hcan] at h
    by_cases hsize : size ≤ 0x405
    · rw [if_pos hsize] at h
      cases h
      exact (if_neg hcan).trans (if_pos hsize)
    · rw [if_neg hsize] at h
      cases h

theorem readFileHeader_withDest {state state' : BDiffState}
    (h : readFileHeader state d = .ok (state', d')) :
    readFileHeader state (d.withDest out) = .ok (state', d'.withDest out) := by
  unfold readFileHeader at h ⊢
  split at h
  · rename_i hread
    cases h
    rw [if_pos hread]
  · rename_i hread
    obtain ⟨⟨b, p, o, d₁⟩, h1, h⟩ := ok_of_bind h
    obtain ⟨c0, hc0, h⟩ := ok_of_bind h
    obtain ⟨c1, hc1, h⟩ := ok_of_bind h
    obtain ⟨c2, hc2, h⟩ := ok_of_bind h
    split at h
    · cases h
    · rename_i hmagic
      obtain ⟨c4, hc4, h⟩ := ok_of_bind h
      split at h
      · cases h
      · rename_i hzero
        obtain ⟨⟨b', p', o', d₂⟩, h2, h⟩ := ok_of_bind h
        cases h
        simp only [if_neg hread, loadPatchData_withDest out h1, loadPatchData_withDest out h2, hc0,
          hc1, hc2, hc4, if_neg hmagic, if_neg hzero, bind, Except.bind, pure, Except.pure]

theorem syncData_withDest :
    syncData (d.withDest out) = (syncData d).withDest (syncData (d.withDest out)).destdata := by
  unfold syncData DiffState.withDest
  dsimp only
  by_cases h : d.destWindowLastSize = 0
  · simp only [if_pos h]
  · simp only [if_neg h]

theorem loadDestData_withDest {size : Nat} (h : loadDestData d size = .ok d') :
    loadDestData (d.withDest out) size =
      .ok (d'.withDest (syncData (d.withDest out)).destdata) := by
  unfold loadDestData at h ⊢
  rw [syncData_withDest]
  by_cases hlt : (syncData d).outwindow.length < size
  · by_cases hsize : size < 2 ^ 63
    · have h' := ((if_pos hlt).trans (if_pos hsize)).symm.trans h
      cases h'
      exact (if_pos hlt).trans (if_pos hsize)
    · have h' := ((if_pos hlt).trans (if_neg hsize)).symm.trans h
      cases h'
  · have h' := (if_neg hlt).symm.trans h
    cases h'
    exact if_neg hlt

/-- A window only adds to what was produced before. -/
theorem bdiff_withDest {xxh : Xxh} {state state' : BDiffState}
    (h : bdiff xxh state d = .ok (state', d')) :
    bdiff xxh state (d.withDest out) =
      .ok (state', d'.withDest (syncData (d.withDest out)).destdata) := by
  obtain ⟨⟨state₁, d₁⟩, hfile, h⟩ := ok_of_bind h
  obtain ⟨⟨b, pos, offset, d₂⟩, hload, h⟩ := ok_of_bind h
  obtain ⟨flags, hflags, h⟩ := ok_of_bind h
  simp only at h
  split at h
  · cases h
  · rename_i hflag
    obtain ⟨⟨seg, segOffset, p⟩, hseg, h⟩ := ok_of_bind h
    obtain ⟨⟨len, p'⟩, hlen, h⟩ := ok_of_bind h
    obtain ⟨⟨b', start, offset', d₃⟩, hload', h⟩ := ok_of_bind h
    obtain ⟨⟨destLen, q⟩, hdestLen, h⟩ := ok_of_bind h
    obtain ⟨d₄, hdest, h⟩ := ok_of_bind h
    split at h
    · cases h
    · rename_i hout
      obtain ⟨hdr, hhdr, h⟩ := ok_of_bind h
      obtain ⟨w, hw, h⟩ := ok_of_bind h
      obtain ⟨⟨state₂, check⟩, hcheck, h⟩ := ok_of_bind h
      obtain ⟨⟨b'', p'', o'', d₅⟩, hlast, h⟩ := ok_of_bind h
      cases h
      have hfile' := readFileHeader_withDest out hfile
      have hload₂ := loadPatchData_withDest out hload
      have hload₃ := loadPatchData_withDest out hload'
      have hdest' := loadDestData_withDest out hdest
      have hlast' := loadPatchData_withDest (syncData (d.withDest out)).destdata hlast
      have hsync : (syncData (d₃.withDest out)).destdata = (syncData (d.withDest out)).destdata := by
        rw [loadPatchData_frame hload', loadPatchData_frame hload, readFileHeader_frame hfile]
        unfold syncData DiffState.withDest
        dsimp only
        split <;> rfl
      rw [hsync] at hdest'
      have hseg' : readSourceSegment (d₂.withDest out) b flags.toNat (pos + 1) =
        .ok (seg, segOffset, p) := hseg
      have hlast'' : loadPatchData { d₄.withDest (syncData (d.withDest out)).destdata with
          outwindow := w.dest } (ptrAdd (ptrSub check start) offset') 0 = _ := hlast'
      have hsource : (d₄.withDest (syncData (d.withDest out)).destdata).sourceData.bytes =
        d₄.sourceData.bytes := rfl
      have hwindow : (d₄.withDest (syncData (d.withDest out)).destdata).outwindow =
        d₄.outwindow := rfl
      simp only at hw hcheck
      simp only [bdiff, bdiffWindow, bdiffDelta, hfile', hload₂, hflags, if_neg hflag, hseg', hlen,
        hload₃, hdestLen, hdest', if_neg hout, hhdr, hsource, hwindow, hw, hcheck, hlast'', bind,
        Except.bind, pure, Except.pure]

end Dest

/-- A window of one byte whose address section has a length of 2 ^ 64 - 18. -/
def loopBytes : List UInt8 :=
  [0xD6, 0xC3, 0xC4, 0, 0, 0, 16, 1, 0, 1, 1, 0x81, 0xFF, 0xFF, 0xFF, 0xFF, 0xFF, 0xFF, 0xFF, 0xFF,
    0x6E, 65, 2]

/-- The decoder before its first window, and after some of them. -/
def loopStart : DiffState := freshDecoder loopBytes [] (by decide) (by decide)

def loopAfter (destdata : List UInt8) : DiffState :=
  { loopStart with
    outwindow := [65], patchWindowOffsetLast := 5, destWindowLastSize := 1, destdata }

set_option maxRecDepth 20000 in
theorem loop_first : bdiff ⟨fun _ _ => 0, fun _ _ => 0⟩ ⟨false, .unknown, 0⟩ loopStart =
    .ok (⟨true, .unknown, 0⟩, loopAfter []) := by
  rfl

set_option maxRecDepth 20000 in
theorem loop_second : bdiff ⟨fun _ _ => 0, fun _ _ => 0⟩ ⟨true, .unknown, 0⟩ (loopAfter []) =
    .ok (⟨true, .unknown, 0⟩, loopAfter [65]) := by
  rfl

theorem loop_again (destdata : List UInt8) :
    bdiff ⟨fun _ _ => 0, fun _ _ => 0⟩ ⟨true, .unknown, 0⟩ (loopAfter destdata) =
      .ok (⟨true, .unknown, 0⟩, loopAfter (destdata ++ [65])) := by
  have h := bdiff_withDest destdata loop_second
  exact h

theorem drive_loops (windows : Nat) (destdata : List UInt8) :
    drive ⟨fun _ _ => 0, fun _ _ => 0⟩ windows ⟨true, .unknown, 0⟩ (loopAfter destdata) = none := by
  induction windows generalizing destdata with
  | zero => rfl
  | succ windows ih =>
    have hmore : (loopAfter destdata).more = true := rfl
    rw [drive, if_pos hmore, loop_again]
    exact ih _

/-- The same window is decoded again and again. -/
theorem window_never_passed :
    (∀ windows, drive ⟨fun _ _ => 0, fun _ _ => 0⟩ windows ⟨false, .unknown, 0⟩ loopStart = none) ∧
      ∃ state' d', bdiff ⟨fun _ _ => 0, fun _ _ => 0⟩ ⟨false, .unknown, 0⟩ loopStart =
        .ok (state', d') ∧
        d'.patchWindowOffsetLast = windowOffset ⟨false, .unknown, 0⟩ loopStart := by
  refine ⟨?_, _, _, loop_first, rfl⟩
  intro windows
  cases windows with
  | zero => rfl
  | succ windows =>
    have hmore : loopStart.more = true := rfl
    rw [drive, if_pos hmore, loop_first]
    exact drive_loops windows []

end Acts.Bdiff
