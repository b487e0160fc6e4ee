import Acts.Fastfile.BdiffLoop
import Acts.Lib.Checked
import Mathlib.Algebra.Order.BigOperators.Group.List

/-!
# bdiff windows against RFC 3284

* `parseWindow` — the layout of one window: indicator, source segment, delta encoding and, when
  flagged, four checksum bytes.
* `Placed` — a decoder about to decode a given window.
* `bdiff_run` — on a well-formed window the decoder produces the two-buffer meaning.
* `bdiff_meaning_iff` — **it produces the RFC meaning, whatever surrounds the window, exactly
  when no COPY runs from the source segment into the target.**
-/

set_option autoImplicit false

namespace Acts.Bdiff

open Acts.Vcdiff

/-! ## The layout of a window -/

structure Window where
  flags : Nat
  segLen : Nat
  segPos : Nat
  targetLen : Nat
  sections : Sections
  deriving DecidableEq

/-- Length and position of the source segment.  The third number of a relative window says where
the loaded region starts, which is at or before the segment. -/
def parseSegment (flags : Nat) (l : List UInt8) : Option (Nat × Nat × List UInt8) :=
  if flags &&& VCDF_MASK12 = 0 then some (0, 0, l) else
  match varint l with
  | none => none
  | some (segLen, l) =>
    match varint l with
    | none => none
    | some (segPos, l) =>
      if flags &&& VCDF_SOURCE_SEGMENT_RELATIVE = 0 then some (segLen, segPos, l) else
      match varint l with
      | none => none
      | some (start, l) => if start ≤ segPos then some (segLen, segPos, l) else none

theorem varint_suffix {l l' : List UInt8} {v : Nat} (h : varint l = some (v, l')) :
    l' <:+ l := varintFrom_suffix h

theorem parseSegment_suffix {flags segLen segPos : Nat} {l l' : List UInt8}
    (h : parseSegment flags l = some (segLen, segPos, l')) : l' <:+ l := by
  unfold parseSegment at h
  split at h
  · cases h; exact List.suffix_refl _
  · split at h
    · cases h
    · rename_i h1
      split at h
      · cases h
      · rename_i h2
        have h12 := (varint_suffix h2).trans (varint_suffix h1)
        split at h
        · cases h; exact h12
        · split at h
          · cases h
          · rename_i h3
            split at h
            · cases h; exact (varint_suffix h3).trans h12
            · cases h

/-- The three section lengths and the sections, which fill the delta encoding. -/
def parseSections (l : List UInt8) : Option Sections :=
  match varint l with
  | none => none
  | some (dataLen, l) =>
    match varint l with
    | none => none
    | some (instLen, l) =>
      match varint l with
      | none => none
      | some (addrLen, l) =>
        if l.length = dataLen + instLen + addrLen then
          some ⟨l.take dataLen, (l.drop dataLen).take instLen, l.drop (dataLen + instLen)⟩
        else none

/-- The delta encoding: target length, a zero indicator, the sections. -/
def parseDelta (l : List UInt8) : Option (Nat × Sections) :=
  match varint l with
  | some (targetLen, 0 :: l) => (parseSections l).map (targetLen, ·)
  | _ => none

/-- Bytes after the delta encoding. -/
def checksumLen (flags : Nat) : Nat := if flags &&& VCDF_CHECKSUM ≠ 0 then 4 else 0

/-- A whole window, with nothing after it. -/
def parseWindow : List UInt8 → Option Window
  | [] => none
  | flags :: l =>
    if flags.toNat &&& VCDF_MASK12 = VCDF_MASK12 then none else
    match parseSegment flags.toNat l with
    | none => none
    | some (segLen, segPos, l) =>
      match varint l with
      | none => none
      | some (deltaLen, l) =>
        if l.length = deltaLen + checksumLen flags.toNat then
          (parseDelta (l.take deltaLen)).map
            (fun d => ⟨flags.toNat, segLen, segPos, d.1, d.2⟩)
        else none

/-- `bytes` is the window `win`, with operations `ops`; its buffers fit in memory. -/
structure IsWindow (bytes : List UInt8) (win : Window) (ops : List Op) : Prop where
  parse : parseWindow bytes = some win
  ops : resolve win.segLen win.targetLen win.sections = some ops
  fits : bytes.length < 2 ^ 63
  segFits : win.segPos + win.segLen < 2 ^ 63
  targetFits : win.targetLen < 2 ^ 63

/-- Where the next window starts in the patch: after the five bytes of the file header, or where
the last one ended. -/
def windowOffset (state : BDiffState) (d : DiffState) : Nat :=
  if state.headerRead then d.patchWindowOffsetLast else 5

/-- The decoder is about to decode `bytes`, whose source segment holds `seg`. -/
structure Placed (bytes : List UInt8) (win : Window) (seg : List UInt8) (state : BDiffState)
    (d : DiffState) : Prop where
  offset_le : windowOffset state d ≤ d.patchData.bytes.length
  patch : ∃ after, d.patchData.bytes.drop (windowOffset state d) = bytes ++ after
  seg_length : seg.length = win.segLen
  seg : win.flags &&& VCDF_MASK12 ≠ 0 → win.segPos ≤ d.sourceData.bytes.length ∧
    (d.sourceData.bytes.drop win.segPos).take win.segLen = seg

/-! ## The callbacks -/

theorem goto_of_le {len loc : Nat} (h : loc ≤ len) : goto len loc = .ok () := by
  rw [goto, if_neg (by omega)]

theorem canRead_of_le {len pointer size : Nat} (h : pointer + size ≤ len) (hl : len < 2 ^ 64) :
    canRead len pointer size = true := by
  rw [canRead, Nat.mod_eq_of_lt (by omega)]
  exact decide_eq_true h

theorem DiffState.patch_lt (d : DiffState) : d.patchData.bytes.length < 2 ^ 64 := by
  have := d.patchData.fits
  omega

/-- The offset a call with argument `offset` reads from. -/
def DiffState.fetchOffset (d : DiffState) (offset : Nat) : Nat :=
  if offset ≠ 0 then offset else d.patchWindowOffsetLast

/-- A fetch that is small, or within the patch, gives the bytes of the patch. -/
theorem loadPatchData_spec {d : DiffState} (offset size : Nat)
    (hoff : d.fetchOffset offset ≤ d.patchData.bytes.length)
    (hsize : size ≤ 0x405 ∨ d.fetchOffset offset + size ≤ d.patchData.bytes.length) :
    ∃ b p rest, loadPatchData d offset size =
        .ok (b, p, d.fetchOffset offset, { d with patchWindowOffsetLast := d.fetchOffset offset }) ∧
      Stream b p (d.patchData.bytes.drop (d.fetchOffset offset)) rest := by
  unfold loadPatchData
  have hfetch : (if offset ≠ 0 then offset else d.patchWindowOffsetLast) =
      d.fetchOffset offset := rfl
  simp only [hfetch, goto_of_le hoff, bind, Except.bind]
  split
  · refine ⟨d.patchData, _, [], rfl, d.patchData.bytes.take (d.fetchOffset offset), ?_, ?_⟩
    · simp
    · simp only [List.length_take]; omega
  · rename_i hcan
    have hlt := d.patch_lt
    have hend : ¬ d.fetchOffset offset + size ≤ d.patchData.bytes.length :=
      fun h => hcan (canRead_of_le h hlt)
    have hsz : size ≤ 0x405 := by omega
    rw [if_pos hsz]
    -- the rest of the patch is shorter than the temporary buffer
    refine ⟨_, _, List.replicate (0x405 - (d.patchData.bytes.length - d.fetchOffset offset)) 0,
      rfl, [], ?_, rfl⟩
    have hrest : (d.patchData.bytes.drop (d.fetchOffset offset)).length ≤ 0x405 := by
      rw [List.length_drop]; omega
    have hl : (d.patchData.bytes.drop (d.fetchOffset offset)).length =
        d.patchData.bytes.length - d.fetchOffset offset := List.length_drop ..
    simp only [tmpPatchBuf, List.nil_append]
    rw [List.take_append, List.take_of_length_le hrest, hl, List.take_replicate]
    rw [Nat.min_eq_left (by omega)]

theorem readSourceSegment_spec {d : DiffState} {b : Buf} {p flags segLen segPos : Nat}
    {l l' rest : List UInt8} (hs : Stream b p l rest)
    (h : parseSegment flags l = some (segLen, segPos, l')) (hfit : segPos + segLen < 2 ^ 63)
    (hsrc : flags &&& VCDF_MASK12 ≠ 0 → segPos + segLen ≤ d.sourceData.bytes.length) :
    ∃ so q, readSourceSegment d b flags p = .ok (so, segLen, q) ∧ Stream b q l' rest ∧
      q + l'.length = p + l.length ∧ (segLen = 0 ∨ so = some segPos) := by
  unfold parseSegment at h
  unfold readSourceSegment
  by_cases hm : flags &&& VCDF_MASK12 = 0
  · rw [if_pos hm] at h ⊢
    cases h
    exact ⟨none, p, rfl, hs, rfl, .inl rfl⟩
  · rw [if_neg hm] at h ⊢
    have hsrc := hsrc hm
    have hlen := d.sourceData.fits
    split at h
    · cases h
    · rename_i len l1 hv1
      split at h
      · cases h
      · rename_i pos l2 hv2
        by_cases hr : flags &&& VCDF_SOURCE_SEGMENT_RELATIVE = 0
        · rw [if_pos hr] at h
          cases h
          obtain ⟨q1, hq1, hs1, he1⟩ := readULEB128_spec hs hv1 (by omega)
          obtain ⟨q2, hq2, hs2, he2⟩ := readULEB128_spec hs1 hv2 (by omega)
          refine ⟨some segPos, q2, ?_, hs2, by omega, .inr rfl⟩
          have hz : ptrSub segPos segPos = 0 := by
            rw [ptrSub_of_le (Nat.le_refl _) (by omega)]; omega
          have hr' : ¬ (flags &&& VCDF_SOURCE_SEGMENT_RELATIVE ≠ 0) := fun h => h hr
          have hadd : ptrAdd 0 segLen = segLen := by rw [ptrAdd_of_lt (by omega)]; omega
          simp only [hq1, hq2, bind, Except.bind, if_neg hr', hz, hadd, loadSourceData,
            goto_of_le (show segPos ≤ d.sourceData.bytes.length by omega),
            canRead_of_le hsrc (by omega), pure, Except.pure, if_true]
          rw [ptrAdd_of_lt (by omega), Nat.add_zero]
        · rw [if_neg hr] at h
          split at h
          · cases h
          · rename_i start l3 hv3
            split at h
            · rename_i hle
              cases h
              obtain ⟨q1, hq1, hs1, he1⟩ := readULEB128_spec hs hv1 (by omega)
              obtain ⟨q2, hq2, hs2, he2⟩ := readULEB128_spec hs1 hv2 (by omega)
              obtain ⟨q3, hq3, hs3, he3⟩ := readULEB128_spec hs2 hv3 (by omega)
              refine ⟨some segPos, q3, ?_, hs3, by omega, .inr rfl⟩
              have hz : ptrSub segPos start = segPos - start := ptrSub_of_le hle (by omega)
              have hadd : ptrAdd (segPos - start) segLen = segPos - start + segLen :=
                ptrAdd_of_lt (by omega)
              have hread : start + (segPos - start + segLen) ≤ d.sourceData.bytes.length := by
                omega
              simp only [hq1, hq2, hq3, bind, Except.bind, if_pos hr, hz, hadd, loadSourceData,
                goto_of_le (show start ≤ d.sourceData.bytes.length by omega),
                canRead_of_le hread (by omega), pure, Except.pure, if_true]
              rw [ptrAdd_of_lt (by omega)]
              congr 3
              omega
            · cases h

/-- The header of the delta encoding and the three sections after it. -/
theorem readDeltaHeader_spec {b : Buf} {p : Nat} {l rest : List UInt8} {w : Sections}
    (targetLen : Nat)
    (hs : Stream b p (0 :: l) rest) (h : parseSections l = some w) :
    ∃ q, readDeltaHeader b targetLen p =
        .ok ⟨targetLen, q, w.data.length, w.inst.length, w.addr.length⟩ ∧
      Stream b q (w.data ++ w.inst ++ w.addr) rest ∧
      q + (w.data ++ w.inst ++ w.addr).length = p + 1 + l.length := by
  have hlt := hs.lt
  simp only [List.length_cons] at hlt
  unfold parseSections at h
  split at h
  · cases h
  · rename_i dataLen l1 hv1
    split at h
    · cases h
    · rename_i instLen l2 hv2
      split at h
      · cases h
      · rename_i addrLen l3 hv3
        split at h
        · rename_i hlen
          cases h
          have h1 := (varint_suffix hv1).length_le
          have h2 := (varint_suffix hv2).length_le
          have h3 := (varint_suffix hv3).length_le
          obtain ⟨q1, hq1, hs1, he1⟩ := readULEB128_spec hs.tail hv1 (by omega)
          obtain ⟨q2, hq2, hs2, he2⟩ := readULEB128_spec hs1 hv2 (by omega)
          obtain ⟨q3, hq3, hs3, he3⟩ := readULEB128_spec hs2 hv3 (by omega)
          have hsec : l3.take dataLen ++ (l3.drop dataLen).take instLen ++
              l3.drop (dataLen + instLen) = l3 := by
            rw [← List.drop_drop, List.append_assoc, List.take_append_drop,
              List.take_append_drop]
          refine ⟨q3, ?_, by rw [hsec]; exact hs3, by rw [hsec]; omega⟩
          have hz : ¬ ((0 : UInt8) ≠ 0) := fun h => h rfl
          simp only [readDeltaHeader, readByte_spec hs, bind, Except.bind, if_neg hz, hq1, hq2,
            hq3, pure, Except.pure]
          congr 2 <;> simp <;> omega
        · cases h

theorem loadDestData_spec (d : DiffState) {size : Nat} (h : size < 2 ^ 63) :
    ∃ d', loadDestData d size = .ok d' ∧ size ≤ d'.outwindow.length ∧
      d'.destWindowLastSize = size ∧ d'.patchData = d.patchData ∧
      d'.sourceData = d.sourceData ∧ d'.patchWindowOffsetLast = d.patchWindowOffsetLast ∧
      (d.outwindow ≠ [] → d'.outwindow ≠ []) := by
  have hsync : (syncData d).patchData = d.patchData ∧ (syncData d).sourceData = d.sourceData ∧
      (syncData d).patchWindowOffsetLast = d.patchWindowOffsetLast ∧
      (syncData d).outwindow = d.outwindow := by
    unfold syncData
    split <;> exact ⟨rfl, rfl, rfl, rfl⟩
  obtain ⟨h1, h2, h3, h4⟩ := hsync
  unfold loadDestData
  simp only
  split
  · refine ⟨_, rfl, by simp; omega, rfl, h1, h2, h3, ?_⟩
    intro hne
    simp [h4, hne]
  · rename_i hge
    refine ⟨_, rfl, by simp only; omega, rfl, h1, h2, h3, ?_⟩
    intro hne
    simpa [h4] using hne

/-- A call that only moves the patch position leaves the destination window alone. -/
theorem loadPatchData_frame {d d' : DiffState} {offset size p o : Nat} {b : Buf}
    (h : loadPatchData d offset size = .ok (b, p, o, d')) :
    d' = { d with patchWindowOffsetLast := d.fetchOffset offset } := by
  have hfetch : (if offset ≠ 0 then offset else d.patchWindowOffsetLast) =
      d.fetchOffset offset := rfl
  unfold loadPatchData at h
  simp only [hfetch, bind, Except.bind, pure, Except.pure] at h
  repeat' split at h
  all_goals cases h
  all_goals rfl

/-! ## One window -/

theorem checkChecksum_unknown (xxh : Xxh) {state : BDiffState} {b : Buf} {flags p : Nat}
    {l rest : List UInt8} (target : List UInt8) (hs : Stream b p l rest) (hl : l.length = checksumLen flags)
    (ht : state.type = .unknown) :
    ∃ state', checkChecksum xxh state b flags p target = .ok (state', p + checksumLen flags) := by
  have hlt := hs.lt
  unfold checkChecksum
  unfold checksumLen at hl ⊢
  by_cases hf : flags &&& VCDF_CHECKSUM = 0
  · rw [if_pos hf, if_neg (fun h => h hf)]
    exact ⟨state, rfl⟩
  · rw [if_pos hf] at hl
    rw [if_neg hf, if_pos hf]
    have hread : readU32 b p = .ok (l.foldr (fun c v => v * 256 + c.toUInt32) 0) := by
      unfold readU32
      rw [hs.at, readN_spec (by omega), List.take_of_length_le (by omega)]
      rfl
    simp only [hread, bind, Except.bind, ht, pure, Except.pure]
    rw [ptrAdd_of_lt (by omega)]
    exact ⟨_, rfl⟩

section Run

variable (xxh : Xxh) (state : BDiffState) {d : DiffState} {b : Buf} {p offset : Nat}
  {bytes delta check after rest : List UInt8} {win : Window} {ops : List Op} {so : Option Nat}

/-- The segment the decoder loaded is the one the window names. -/
def SegmentLoaded (win : Window) (so : Option Nat) : Prop := win.segLen = 0 ∨ so = some win.segPos

/-- The instruction loop on the sections of a window. -/
theorem execLoop_window (env : WindowEnv) {q fuel : Nat} {dest : List UInt8}
    (hops : resolve win.segLen win.targetLen win.sections = some ops)
    (hfit : win.segLen < 2 ^ 63) (htfit : win.targetLen < 2 ^ 63)
    (hs : Stream env.patch q (win.sections.data ++ win.sections.inst ++ win.sections.addr) rest)
    (hlen : env.sourceSegmentOffset = win.segLen)
    (hso : SegmentLoaded win env.sourceSegment)
    (hdest : win.targetLen ≤ dest.length) (hfuel : win.sections.inst.length ≤ fuel)
    (hin : InBuffer (env.source.drop win.segPos) win.segLen ops) :
    ∃ w, execLoop env (q + win.sections.data.length + win.sections.inst.length)
        ⟨VcdState.init (q + win.sections.data.length + win.sections.inst.length),
          q + win.sections.data.length, q, dest, 0⟩ fuel = .ok w ∧
      w.dest.length = dest.length ∧
      w.dest.take win.targetLen = split (env.source.drop win.segPos) win.segLen ops := by
  obtain ⟨hwf, htot⟩ := resolve_wellFormed hops
  unfold resolve at hops
  split at hops
  · cases hops
  · rename_i ops' rs' hres
    split at hops
    · cases hops
      obtain ⟨hs1, hs3⟩ := hs.split
      rw [List.length_append] at hs3
      obtain ⟨hs1, hs2⟩ := hs1.split
      have hsim : Sim ⟨env, win.sections.inst ++ (win.sections.addr ++ rest),
          win.sections.addr ++ rest, rest, q + win.sections.data.length + win.sections.inst.length⟩
          dest.length ⟨VcdState.init (q + win.sections.data.length + win.sections.inst.length),
          q + win.sections.data.length, q, dest, 0⟩
          ⟨win.sections.data, win.sections.inst, win.sections.addr, Cache.init⟩ [] :=
        ⟨hs1, hs2, rfl, by rw [Nat.add_assoc]; exact hs3, rfl, rfl, rfl, rfl, rfl, rfl⟩
      have hseg : HasSegment env (env.source.drop win.segPos) := by
        rcases hso with h0 | h1
        · exact .inl (by rw [hlen, h0])
        · exact .inr ⟨win.segPos, h1, rfl⟩
      rw [← hlen] at hres hin
      obtain ⟨w, hw, hsim'⟩ := execLoop_sim (f := ⟨env, _, _, _, _⟩) hsim hseg
        (by rw [List.length_nil, htot, hlen]; omega) hres hfuel
        (by rw [List.length_nil, htot]; omega) hin
      have hl := foldl_applySplit_length (t := []) (by rw [hlen]; exact hwf) hin
      rw [List.length_nil, Nat.zero_add, htot] at hl
      refine ⟨w, hw, hsim'.length, ?_⟩
      have hdest' := hsim'.dest
      rw [hl] at hdest'
      rw [hdest', hlen]
      rfl
    · cases hops

/-- **The delta encoding of a well-formed window runs to its checksum**, with the two-buffer
meaning in the destination window. -/
theorem bdiffDelta_run (hw : IsWindow bytes win ops)
    (hparse : parseDelta delta = some (win.targetLen, win.sections))
    (hs : Stream b p (delta ++ check) rest) (hcheck : check.length = checksumLen win.flags)
    (hpos : offset ≠ 0)
    (hle : offset + (delta.length + check.length) ≤ d.patchData.bytes.length)
    (hso : SegmentLoaded win so)
    (hin : InBuffer (d.sourceData.bytes.drop win.segPos) win.segLen ops) :
    (∀ state' d', bdiffDelta xxh state d b win.flags p offset so win.segLen = .ok (state', d') →
      d'.target = split (d.sourceData.bytes.drop win.segPos) win.segLen ops) ∧
    (state.type = .unknown → d.outwindow ≠ [] →
      ∃ r, bdiffDelta xxh state d b win.flags p offset so win.segLen = .ok r) := by
  have hsegfit := hw.segFits
  have hlt := hs.lt
  have hpatch := d.patch_lt
  rw [List.length_append] at hlt
  obtain ⟨hdelta, hcheck'⟩ := hs.split
  unfold parseDelta at hparse
  split at hparse
  · rename_i targetLen l hv
    simp only [Option.map_eq_some_iff, Prod.mk.injEq] at hparse
    obtain ⟨sections, hsec, rfl, rfl⟩ := hparse
    obtain ⟨q1, hq1, hs1, he1⟩ := readULEB128_spec hdelta hv
      (Nat.lt_trans hw.targetFits (by decide))
    obtain ⟨q2, hq2, hs2, he2⟩ := readDeltaHeader_spec win.targetLen hs1 hsec
    obtain ⟨d1, hd1, hlen1, hlast1, hpd1, hsd1, hoff1, hne1⟩ := loadDestData_spec d hw.targetFits
    simp only [List.length_append, List.length_cons] at he1 he2
    have ha1 : ptrAdd q2 win.sections.data.length = q2 + win.sections.data.length :=
      ptrAdd_of_lt (by omega)
    have ha2 : ptrAdd q2 (ptrAdd win.sections.data.length win.sections.inst.length) =
        q2 + win.sections.data.length + win.sections.inst.length := by
      rw [ptrAdd_of_lt (q := win.sections.data.length) (by omega), ptrAdd_of_lt (by omega)]
      omega
    have ha3 : ptrAdd (q2 + win.sections.data.length + win.sections.inst.length)
        win.sections.addr.length = p + delta.length := by
      rw [ptrAdd_of_lt (by omega)]
      omega
    have hfuel : win.sections.inst.length ≤ b.bytes.length := by
      have := hs2.length_le
      simp only [List.length_append] at this
      omega
    obtain ⟨w, hw1, hw2, hw3⟩ := execLoop_window ⟨b, d1.sourceData.bytes, so, win.segLen⟩ hw.ops
      (by omega) hw.targetFits hs2 rfl hso hlen1 hfuel (by rw [hsd1]; exact hin)
    simp only [hsd1] at hw1 hw3
    -- everything up to the checksum
    have hrun (hne : d1.outwindow ≠ []) :
        bdiffDelta xxh state d b win.flags p offset so win.segLen =
          (checkChecksum xxh state b win.flags (p + delta.length) (w.dest.take win.targetLen)).bind
            fun r => (loadPatchData { d1 with outwindow := w.dest }
              (ptrAdd (ptrSub r.2 p) offset) 0).bind fun x => .ok (r.1, x.2.2.2) := by
      unfold bdiffDelta
      simp only [hq1, hd1, hq2, bind, Except.bind, if_neg hne, ha1, ha2, ha3, hsd1, hw1, pure,
        Except.pure]
    constructor
    · intro state' d' h
      by_cases hne : d1.outwindow = []
      · unfold bdiffDelta at h
        simp only [hq1, hd1, bind, Except.bind, if_pos hne] at h
        cases h
      · rw [hrun hne] at h
        cases hc : checkChecksum xxh state b win.flags (p + delta.length)
            (w.dest.take win.targetLen) with
        | error e => rw [hc] at h; cases h
        | ok r =>
          rw [hc] at h
          simp only [Except.bind] at h
          split at h
          · cases h
          · rename_i x hx
            cases h
            rw [loadPatchData_frame hx]
            simp only [DiffState.target, hlast1]
            exact hw3
    · intro ht hne
      obtain ⟨state', hc⟩ := checkChecksum_unknown xxh (w.dest.take win.targetLen) hcheck' hcheck
        ht
      rw [hrun (hne1 hne), hc]
      simp only [Except.bind]
      have hoff : ptrAdd (ptrSub (p + delta.length + checksumLen win.flags) p) offset =
          offset + (delta.length + check.length) := by
        rw [ptrSub_of_le (by omega) (by omega), ptrAdd_of_lt (by omega)]
        omega
      have hfetch : ({ d1 with outwindow := w.dest } : DiffState).fetchOffset
          (offset + (delta.length + check.length)) = offset + (delta.length + check.length) := by
        rw [DiffState.fetchOffset, if_pos (by omega)]
      obtain ⟨b', p', rest', hload, _⟩ := loadPatchData_spec (d := { d1 with outwindow := w.dest })
        (offset + (delta.length + check.length)) 0 (by rw [hfetch, hpd1]; exact hle)
        (.inl (by omega))
      rw [hoff, hload]
      exact ⟨_, rfl⟩
  · cases hparse

/-- **A well-formed window runs to its checksum.** -/
theorem bdiffWindow_run (hw : IsWindow bytes win ops)
    (hoff : d.patchWindowOffsetLast ≤ d.patchData.bytes.length)
    (hpatch : d.patchData.bytes.drop d.patchWindowOffsetLast = bytes ++ after)
    (hsrc : win.flags &&& VCDF_MASK12 ≠ 0 →
      win.segPos + win.segLen ≤ d.sourceData.bytes.length)
    (hin : InBuffer (d.sourceData.bytes.drop win.segPos) win.segLen ops) :
    (∀ state' d', bdiffWindow xxh state d = .ok (state', d') →
      d'.target = split (d.sourceData.bytes.drop win.segPos) win.segLen ops) ∧
    (state.type = .unknown → d.outwindow ≠ [] → ∃ r, bdiffWindow xxh state d = .ok r) := by
  have hplt := d.patch_lt
  have hlen : d.patchData.bytes.length - d.patchWindowOffsetLast =
      bytes.length + after.length := by
    rw [← List.length_drop, hpatch, List.length_append]
  have hparse := hw.parse
  have hsegFits := hw.segFits
  have hfits := hw.fits
  unfold parseWindow at hparse
  split at hparse
  · cases hparse
  · rename_i flag l
    split at hparse
    · cases hparse
    · rename_i hmask
      split at hparse
      · cases hparse
      · rename_i segLen segPos l1 hseg
        split at hparse
        · cases hparse
        · rename_i deltaLen l2 hv
          split at hparse
          · rename_i hl2
            simp only [Option.map_eq_some_iff] at hparse
            obtain ⟨⟨targetLen, sections⟩, hdelta, rfl⟩ := hparse
            simp only at hsrc hin hsegFits ⊢
            -- the first fetch, up to the length of the delta encoding
            obtain ⟨b0, p0, rest0, hload0, hs0⟩ := loadPatchData_spec (d := d) 0 0x400 hoff
              (.inl (by omega))
            have hf0 : d.fetchOffset 0 = d.patchWindowOffsetLast := rfl
            have heta : { d with patchWindowOffsetLast := d.patchWindowOffsetLast } = d := rfl
            rw [hf0, heta] at hload0
            rw [hf0, hpatch] at hs0
            have hs0' := hs0.split.1
            obtain ⟨so, q1, hq1, hs1, he1, hso⟩ := readSourceSegment_spec hs0'.tail hseg hsegFits
              hsrc
            have hv2 := (varint_suffix hv).length_le
            have hle1 := (parseSegment_suffix hseg).length_le
            have hlt1 := hs1.lt
            obtain ⟨q2, hq2, hs2, he2⟩ := readULEB128_spec hs1 hv (by omega)
            -- the second fetch, of the delta encoding and its checksum
            have hlt2 := hs2.lt
            have hlt0 := hs0'.lt
            simp only [List.length_cons] at hlen hlt0 hfits
            have hcons : l2.length ≤ l.length := by omega
            have hoffset : ptrAdd d.patchWindowOffsetLast (ptrSub q2 p0) =
                d.patchWindowOffsetLast + (l.length + 1 - l2.length) := by
              rw [ptrSub_of_le (by omega) (by omega), ptrAdd_of_lt (by omega)]
              omega
            have hsize : ptrAdd deltaLen (if flag.toNat &&& VCDF_CHECKSUM ≠ 0 then 4 else 0) =
                deltaLen + checksumLen flag.toNat := by
              unfold checksumLen at hl2 ⊢
              exact ptrAdd_of_lt (by omega)
            have hoff2 : d.patchWindowOffsetLast + (l.length + 1 - l2.length) ≤
                d.patchData.bytes.length := by omega
            have hf2 : d.fetchOffset (d.patchWindowOffsetLast + (l.length + 1 - l2.length)) =
                d.patchWindowOffsetLast + (l.length + 1 - l2.length) := by
              rw [DiffState.fetchOffset, if_pos (by omega)]
            obtain ⟨b2, p2, rest2, hload2, hs3⟩ := loadPatchData_spec (d := d)
              (d.patchWindowOffsetLast + (l.length + 1 - l2.length))
              (deltaLen + checksumLen flag.toNat) (by rw [hf2]; exact hoff2)
              (.inr (by rw [hf2]; omega))
            have hdrop : d.patchData.bytes.drop
                (d.patchWindowOffsetLast + (l.length + 1 - l2.length)) = l2 ++ after := by
              have hsuffix : (flag :: l).drop (l.length + 1 - l2.length) = l2 := by
                obtain ⟨pre, hpre⟩ := ((varint_suffix hv).trans (parseSegment_suffix hseg)).trans
                  (List.suffix_cons flag l)
                rw [← hpre]
                have : l.length + 1 = pre.length + l2.length := by
                  rw [← List.length_append, hpre, List.length_cons]
                rw [this, Nat.add_sub_cancel, List.drop_left']
                rfl
              rw [← List.drop_drop, hpatch, List.drop_append_of_le_length (by simp), hsuffix]
            rw [hf2] at hload2 hs3
            rw [hdrop] at hs3
            have hs4 := hs3.split.1
            rw [← List.take_append_drop deltaLen l2] at hs4
            have hne : d.patchWindowOffsetLast + (l.length + 1 - l2.length) ≠ 0 := by omega
            have hrun := bdiffDelta_run xxh state (d := { d with patchWindowOffsetLast :=
              d.patchWindowOffsetLast + (l.length + 1 - l2.length) }) hw hdelta hs4
              (by simp; omega) hne (by simp; omega) hso hin
            have heq : bdiffWindow xxh state d = bdiffDelta xxh state { d with
                patchWindowOffsetLast := d.patchWindowOffsetLast + (l.length + 1 - l2.length) } b2
                flag.toNat p2 (d.patchWindowOffsetLast + (l.length + 1 - l2.length)) so segLen := by
              unfold bdiffWindow
              simp only [hload0, readByte_spec hs0', bind, Except.bind, if_neg hmask, hq1, hq2,
                hoffset, hsize, hload2]
            rw [heq]
            exact hrun
          · cases hparse

end Run

/-! ## Calls -/

theorem readFileHeader_frame {state state' : BDiffState} {d d' : DiffState}
    (h : readFileHeader state d = .ok (state', d')) :
    d' = { d with patchWindowOffsetLast := windowOffset state d } := by
  unfold readFileHeader at h
  unfold windowOffset
  split at h
  · rename_i hr
    cases h
    rw [if_pos hr]
  · rename_i hr
    rw [if_neg hr]
    obtain ⟨r1, h1, h⟩ := ok_of_bind h
    obtain ⟨c0, -, h⟩ := ok_of_bind h
    obtain ⟨c1, -, h⟩ := ok_of_bind h
    obtain ⟨c2, -, h⟩ := ok_of_bind h
    split at h
    · cases h
    · obtain ⟨c4, -, h⟩ := ok_of_bind h
      split at h
      · cases h
      · obtain ⟨r2, h2, h⟩ := ok_of_bind h
        cases h
        rw [loadPatchData_frame h2, loadPatchData_frame h1]
        rfl

theorem parseWindow_segLen {bytes : List UInt8} {win : Window}
    (hparse : parseWindow bytes = some win) (hm : win.flags &&& VCDF_MASK12 = 0) :
    win.segLen = 0 := by
  unfold parseWindow at hparse
  split at hparse
  · cases hparse
  · split at hparse
    · cases hparse
    · split at hparse
      · cases hparse
      · rename_i hseg
        split at hparse
        · cases hparse
        · split at hparse
          · simp only [Option.map_eq_some_iff] at hparse
            obtain ⟨_, _, rfl⟩ := hparse
            rw [parseSegment, if_pos hm] at hseg
            cases hseg
            rfl
          · cases hparse

/-- The memory from a named segment on starts with the segment. -/
theorem Placed.segment {bytes seg : List UInt8} {win : Window} {state : BDiffState}
    {d : DiffState} (hparse : parseWindow bytes = some win)
    (hp : Placed bytes win seg state d) :
    (∃ tail, d.sourceData.bytes.drop win.segPos = seg ++ tail) ∧
      (win.flags &&& VCDF_MASK12 ≠ 0 → win.segPos + win.segLen ≤ d.sourceData.bytes.length) := by
  by_cases hm : win.flags &&& VCDF_MASK12 = 0
  · have hnil : seg = [] :=
      List.length_eq_zero_iff.mp (hp.seg_length.trans (parseWindow_segLen hparse hm))
    exact ⟨⟨_, by rw [hnil]; rfl⟩, fun h => absurd hm h⟩
  · obtain ⟨hpos, hseg⟩ := hp.seg hm
    refine ⟨⟨(d.sourceData.bytes.drop win.segPos).drop win.segLen, ?_⟩, fun _ => ?_⟩
    · rw [← hseg, List.take_append_drop]
    · have hl := hp.seg_length
      rw [← hseg, List.length_take, List.length_drop] at hl
      omega

theorem size_le_totalSize {op : Op} {ops : List Op} (h : op ∈ ops) :
    op.size ≤ totalSize ops :=
  List.single_le_sum (fun _ _ => Nat.zero_le _) _ (List.mem_map_of_mem h)

/-- A decoder about to decode `bytes`, with `source` as source data and nothing to compare
checksums with. -/
def freshState : BDiffState := ⟨true, .unknown, 0⟩

def freshDecoder (bytes source : List UInt8) (hb : bytes.length < 2 ^ 63)
    (hs : source.length < 2 ^ 64) : DiffState where
  sourceData := ⟨0, source, by omega⟩
  patchData := ⟨0, bytes, by omega⟩
  tmpPatch := 0
  tmpFits := by decide
  outwindow := [0]
  patchWindowOffsetLast := 0
  destWindowLastSize := 0
  destdata := []

/-- **A well-formed window decodes to its RFC meaning in every decoder exactly when none of its
COPYs starts in the source segment and runs past its end.** -/
theorem bdiff_meaning_iff {bytes seg : List UInt8} {win : Window} {ops : List Op}
    (hw : IsWindow bytes win ops) (hseg : seg.length = win.segLen) :
    (∀ xxh state d state' d', Placed bytes win seg state d →
      bdiff xxh state d = .ok (state', d') → d'.target = meaning seg ops) ↔
    ∀ op ∈ ops, op.crosses win.segLen = false := by
  constructor
  · intro h
    by_contra hne
    simp only [not_forall, Bool.not_eq_false] at hne
    obtain ⟨op, hop, hx⟩ := hne
    have hsf := hw.segFits
    have htf := hw.targetFits
    obtain ⟨hwf, htot⟩ := resolve_wellFormed hw.ops
    -- a byte that is not the first of the target follows the segment
    obtain ⟨c, hc⟩ : ∃ c : UInt8, (meaning seg ops)[0]? ≠ some c := by
      cases (meaning seg ops)[0]? with
      | none => exact ⟨0, by simp⟩
      | some b => exact ⟨b + 1, by simp⟩
    have hlen : (List.replicate win.segPos 0 ++ (seg ++ c :: List.replicate win.targetLen 0)).length
        < 2 ^ 64 := by
      simp; omega
    have hdrop : (List.replicate win.segPos 0 ++ (seg ++ c :: List.replicate win.targetLen 0)).drop
        win.segPos = seg ++ c :: List.replicate win.targetLen 0 :=
      List.drop_left' List.length_replicate
    obtain ⟨d, hd⟩ : ∃ d, d = freshDecoder bytes _ hw.fits hlen := ⟨_, rfl⟩
    have hsd : d.sourceData.bytes.drop win.segPos = seg ++ c :: List.replicate win.targetLen 0 := by
      rw [hd]; exact hdrop
    have hwo : windowOffset freshState d = 0 := by rw [hd]; rfl
    have hp : Placed bytes win seg freshState d := by
      refine ⟨by rw [hwo]; exact Nat.zero_le _, ⟨[], ?_⟩, hseg, fun _ => ⟨?_, ?_⟩⟩
      · rw [hwo, hd]; exact (List.append_nil _).symm
      · rw [hd]; simp [freshDecoder]
      · rw [hsd, ← hseg]; exact List.take_left
    obtain ⟨-, hsrc⟩ := hp.segment hw.parse
    have hin : InBuffer (d.sourceData.bytes.drop win.segPos) win.segLen ops := by
      intro a n hmem ha
      have hsize : n ≤ totalSize ops := size_le_totalSize hmem
      rw [hsd]
      simp only [List.length_append, List.length_cons, List.length_replicate]
      omega
    have hoff : d.patchWindowOffsetLast ≤ d.patchData.bytes.length := by rw [hd]; exact Nat.zero_le _
    have hpatch : d.patchData.bytes.drop d.patchWindowOffsetLast = bytes ++ [] := by
      rw [hd]; exact (List.append_nil _).symm
    have hne' : d.outwindow ≠ [] := by rw [hd]; exact List.cons_ne_nil _ _
    obtain ⟨⟨state', d'⟩, hr⟩ := (bdiffWindow_run ⟨fun _ _ => 0, fun _ _ => 0⟩ freshState hw hoff
      hpatch hsrc hin).2 rfl hne'
    have htarget := (bdiffWindow_run _ freshState hw hoff hpatch hsrc hin).1 state' d' hr
    have hmean := h ⟨fun _ _ => 0, fun _ _ => 0⟩ freshState d state' d' hp hr
    rw [htarget, hsd, ← hseg] at hmean
    exact split_ne_meaning seg _ c ops ⟨op, hop, by rw [hseg]; exact hx⟩ hc hmean
  · intro hx xxh state d state' d' hp h
    obtain ⟨⟨state1, d1⟩, hr, h⟩ := ok_of_bind h
    have hd1 := readFileHeader_frame hr
    obtain ⟨⟨tail, htail⟩, hsrc⟩ := hp.segment hw.parse
    obtain ⟨after, hafter⟩ := hp.patch
    have hin : InBuffer (d.sourceData.bytes.drop win.segPos) win.segLen ops := by
      intro a n hmem ha
      have hcross := hx _ hmem
      simp only [Op.crosses, Bool.and_eq_false_iff, decide_eq_false_iff_not] at hcross
      rw [htail, List.length_append, hseg]
      omega
    have hs1 : d1.sourceData = d.sourceData := by rw [hd1]
    have hoff : d1.patchWindowOffsetLast ≤ d1.patchData.bytes.length := by
      rw [hd1]; exact hp.offset_le
    have hpatch : d1.patchData.bytes.drop d1.patchWindowOffsetLast = bytes ++ after := by
      rw [hd1]; exact hafter
    rw [← hs1] at hsrc hin htail
    rw [(bdiffWindow_run xxh state1 hw hoff hpatch hsrc hin).1 state' d' h, htail, ← hseg]
    exact split_eq_meaning seg tail ops (by rw [hseg]; exact hx)

/-- One COPY of four bytes from address 0 of a one-byte segment. -/
def crossBytes : List UInt8 := [1, 1, 0, 7, 4, 0, 0, 1, 1, 20, 0]

def crossWindow : Window := ⟨1, 1, 0, 4, ⟨[], [20], [0]⟩⟩

theorem crossBytes_isWindow : IsWindow crossBytes crossWindow [.copy 0 4] :=
  ⟨by decide, by decide +kernel, by decide, by decide, by decide⟩

/-- The source data is `41 42 43 44` and the segment its first byte: the window means
`41 41 41 41`, and the decoder produces `41 42 43 44`. -/
theorem crossing_copy_reads_source :
    IsWindow crossBytes crossWindow [.copy 0 4] ∧
    Placed crossBytes crossWindow [0x41] freshState
      (freshDecoder crossBytes [0x41, 0x42, 0x43, 0x44] (by decide) (by decide)) ∧
    (bdiff ⟨fun _ _ => 0, fun _ _ => 0⟩ freshState
      (freshDecoder crossBytes [0x41, 0x42, 0x43, 0x44] (by decide) (by decide))).toOption.map
        (fun r => r.2.target) = some [0x41, 0x42, 0x43, 0x44] ∧
    meaning [0x41] [.copy 0 4] = [0x41, 0x41, 0x41, 0x41] :=
  ⟨crossBytes_isWindow, ⟨by decide, ⟨[], by decide⟩, rfl, fun _ => by decide⟩, by decide +kernel,
    by decide⟩

/-- Four bytes of a four-byte segment, then five bytes that overlap what they produce. -/
def overlapBytes : List UInt8 := [1, 4, 0, 9, 9, 0, 0, 2, 2, 20, 21, 0, 6]

def overlapWindow : Window := ⟨1, 4, 0, 9, ⟨[], [20, 21], [0, 6]⟩⟩

theorem overlapBytes_isWindow : IsWindow overlapBytes overlapWindow [.copy 0 4, .copy 6 5] :=
  ⟨by decide, by decide +kernel, by decide, by decide, by decide⟩

theorem overlap_meaning_iff :
    (∀ xxh state d state' d', Placed overlapBytes overlapWindow [1, 2, 3, 4] state d →
      bdiff xxh state d = .ok (state', d') →
      d'.target = meaning [1, 2, 3, 4] [.copy 0 4, .copy 6 5]) ↔
    ∀ op ∈ [Op.copy 0 4, Op.copy 6 5], op.crosses overlapWindow.segLen = false :=
  bdiff_meaning_iff overlapBytes_isWindow rfl

end Acts.Bdiff
