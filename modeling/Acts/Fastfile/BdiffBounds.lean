import Acts.Fastfile.BdiffWindow

/-!
# What a window reads and writes

The bdiff decoder compares none of the lengths that a window declares with what its instructions
use.  What holds of every window that it decodes:

* `traceLoop`, `bdiffRun` — the decoder with a record of the instructions that it executed.
* `Executed.Ok` — what one instruction reads and writes.
* `bdiff_run` — **the instructions write the start of the window buffer, one after the other and
  nothing behind it, and read the data and the addresses in order from the start of their
  sections**; so they stay in what the window declares exactly when their totals do.
-/

set_option autoImplicit false

namespace Acts.Bdiff

/-! ## A record of the loop -/

/-- An instruction that was executed, with the size it had. -/
structure Executed where
  inst : Instruction
  ilen : Nat
  before : WindowState
  after : WindowState

/-- How many bytes it produces. -/
def Executed.size (e : Executed) : Nat := if e.inst.op = .noop then 0 else e.ilen

/-- The address of a COPY. -/
def Executed.address (env : WindowEnv) (e : Executed) : Option Nat :=
  match decodeAddress env.patch e.before.vcd (ptrAdd env.sourceSegmentOffset e.before.patchDest)
    e.inst.mode with
  | .ok r => some r.1
  | .error _ => none

def traceInstruction (env : WindowEnv) (s : WindowState) (inst : Instruction) :
    Except BdiffErr Executed := do
  let (ilen, _) ← instructionLength env s inst
  let after ← execInstruction env s inst
  pure ⟨inst, ilen, s, after⟩

def traceOpcode (env : WindowEnv) (s : WindowState) : Except BdiffErr (Executed × Executed) := do
  let opcode ← readByte env.patch s.instructionData
  match instructions[opcode.toNat]? with
  | none => .error .fault
  | some dinst =>
    let e ← traceInstruction env { s with instructionData := s.instructionData + 1 } dinst.first
    let e' ← traceInstruction env e.after dinst.second
    pure (e, e')

/-- `execLoop` with the instructions in order. -/
def traceLoop (env : WindowEnv) (instructionDataEnd : Nat) (s : WindowState) :
    Nat → Except BdiffErr (List Executed × WindowState)
  | 0 => if s.instructionData < instructionDataEnd then .error .fault else .ok ([], s)
  | fuel + 1 =>
    if s.instructionData < instructionDataEnd then do
      let (e, e') ← traceOpcode env s
      let (tr, w) ← traceLoop env instructionDataEnd e'.after fuel
      pure (e :: e' :: tr, w)
    else .ok ([], s)

/-- A decoded window: what the loop did not change, the header, the window buffer before, the
instructions and the state after them. -/
structure WindowRun where
  env : WindowEnv
  header : DeltaHeader
  start : List UInt8
  executed : List Executed
  final : WindowState

/-- The start of the address section, which is the end of the instructions. -/
def DeltaHeader.addresses (h : DeltaHeader) : Nat :=
  ptrAdd h.patchData (ptrAdd h.instructionOffset h.instructionSize)

/-- `bdiffDelta` up to the checksum. -/
def deltaRun (d : DiffState) (b : Buf) (patchDataStart : Nat) (sourceSegment : Option Nat)
    (sourceSegmentOffset : Nat) : Except BdiffErr WindowRun := do
  let (patchDestLen, p) ← readULEB128 b patchDataStart
  let d ← loadDestData d patchDestLen
  let h ← readDeltaHeader b patchDestLen p
  let env : WindowEnv := ⟨b, d.sourceData.bytes, sourceSegment, sourceSegmentOffset⟩
  let (tr, w) ← traceLoop env h.addresses ⟨VcdState.init h.addresses,
    ptrAdd h.patchData h.instructionOffset, h.patchData, d.outwindow, 0⟩ b.bytes.length
  pure ⟨env, h, d.outwindow, tr, w⟩

/-- `bdiff` up to the checksum. -/
def bdiffRun (state : BDiffState) (d : DiffState) : Except BdiffErr WindowRun := do
  let (_, d) ← readFileHeader state d
  let (b, bdiffDataStart, offset, d) ← loadPatchData d 0 0x400
  let flags ← readByte b bdiffDataStart
  let flags := flags.toNat
  let (sourceSegment, sourceSegmentOffset, p) ← readSourceSegment d b flags (bdiffDataStart + 1)
  let (patchDataLen, p) ← readULEB128 b p
  let (b, patchDataStart, _, d) ← loadPatchData d (ptrAdd offset (ptrSub p bdiffDataStart))
    (ptrAdd patchDataLen (if flags &&& VCDF_CHECKSUM ≠ 0 then 4 else 0))
  deltaRun d b patchDataStart sourceSegment sourceSegmentOffset

/-! ## The record is of the loop -/

section Record

variable {env : WindowEnv} {s : WindowState}

theorem execInstruction_traced {inst : Instruction} {s' : WindowState}
    (h : execInstruction env s inst = .ok s') :
    ∃ ilen, traceInstruction env s inst = .ok ⟨inst, ilen, s, s'⟩ := by
  have hexec := h
  unfold execInstruction at h
  obtain ⟨⟨ilen, p⟩, hlen, -⟩ := ok_of_bind h
  refine ⟨ilen, ?_⟩
  rw [traceInstruction, hlen, hexec]
  rfl

theorem traceInstruction_exec {inst : Instruction} {e : Executed}
    (h : traceInstruction env s inst = .ok e) :
    e.inst = inst ∧ e.before = s ∧ execInstruction env s inst = .ok e.after ∧
      ∃ p, instructionLength env s inst = .ok (e.ilen, p) := by
  obtain ⟨⟨ilen, p⟩, hlen, h⟩ := ok_of_bind h
  obtain ⟨after, hexec, h⟩ := ok_of_bind h
  cases h
  exact ⟨rfl, rfl, hexec, p, hlen⟩

theorem execOpcode_traced {s' : WindowState} (h : execOpcode env s = .ok s') :
    ∃ e e', traceOpcode env s = .ok (e, e') ∧ e'.after = s' := by
  obtain ⟨opcode, hop, h⟩ := ok_of_bind h
  cases hinst : instructions[opcode.toNat]? with
  | none =>
    simp only [hinst] at h
    cases h
  | some dinst =>
    simp only [hinst] at h
    obtain ⟨s₁, h₁, h₂⟩ := ok_of_bind h
    obtain ⟨n₁, ht₁⟩ := execInstruction_traced h₁
    obtain ⟨n₂, ht₂⟩ := execInstruction_traced h₂
    refine ⟨⟨dinst.first, n₁, { s with instructionData := s.instructionData + 1 }, s₁⟩,
      ⟨dinst.second, n₂, s₁, s'⟩, ?_, rfl⟩
    simp only [traceOpcode, hop, hinst, ht₁, ht₂, bind, Except.bind, pure, Except.pure]

theorem execLoop_traced {endp : Nat} {w : WindowState} (fuel : Nat)
    (h : execLoop env endp s fuel = .ok w) : ∃ tr, traceLoop env endp s fuel = .ok (tr, w) := by
  induction fuel generalizing s with
  | zero =>
    unfold execLoop at h
    unfold traceLoop
    split at h
    · cases h
    · rename_i hlt
      cases h
      exact ⟨[], if_neg hlt⟩
  | succ fuel ih =>
    unfold execLoop at h
    unfold traceLoop
    split at h
    · rename_i hlt
      obtain ⟨s', hs', h⟩ := ok_of_bind h
      obtain ⟨e, e', htr, rfl⟩ := execOpcode_traced hs'
      obtain ⟨tr, hloop⟩ := ih h
      refine ⟨e :: e' :: tr, ?_⟩
      rw [if_pos hlt]
      simp only [htr, hloop, bind, Except.bind, pure, Except.pure]
    · rename_i hlt
      cases h
      exact ⟨[], if_neg hlt⟩

theorem loadDestData_last {d d' : DiffState} {size : Nat} (h : loadDestData d size = .ok d') :
    d'.destWindowLastSize = size ∧ size ≤ d'.outwindow.length ∧
      d'.destdata = (syncData d).destdata := by
  unfold loadDestData at h
  simp only at h
  split at h
  · split at h
    · cases h
      refine ⟨rfl, ?_, rfl⟩
      simp only [List.length_append, List.length_replicate]
      omega
    · cases h
  · cases h
    exact ⟨rfl, by simp only; omega, rfl⟩

theorem readDeltaHeader_len {b : Buf} {len p : Nat} {h : DeltaHeader}
    (hr : readDeltaHeader b len p = .ok h) : h.patchDestLen = len := by
  obtain ⟨ind, -, hr⟩ := ok_of_bind hr
  split at hr
  · cases hr
  · obtain ⟨⟨a, p₁⟩, -, hr⟩ := ok_of_bind hr
    obtain ⟨⟨a', p₂⟩, -, hr⟩ := ok_of_bind hr
    obtain ⟨⟨a'', p₃⟩, -, hr⟩ := ok_of_bind hr
    cases hr
    rfl

/-- A decoded window has a record, and leaves the window buffer that the record ends with. -/
theorem bdiffDelta_traced {xxh : Xxh} {state state' : BDiffState} {d d' : DiffState} {b : Buf}
    {flags start offset segOffset : Nat} {seg : Option Nat}
    (h : bdiffDelta xxh state d b flags start offset seg segOffset = .ok (state', d')) :
    ∃ r, deltaRun d b start seg segOffset = .ok r ∧ d'.outwindow = r.final.dest ∧
      d'.destWindowLastSize = r.header.patchDestLen ∧ d'.destdata = (syncData d).destdata := by
  obtain ⟨⟨len, p⟩, hlen, h⟩ := ok_of_bind h
  obtain ⟨d₁, hdest, h⟩ := ok_of_bind h
  split at h
  · cases h
  · obtain ⟨hdr, hhdr, h⟩ := ok_of_bind h
    obtain ⟨w, hw, h⟩ := ok_of_bind h
    obtain ⟨⟨state₁, check⟩, hcheck, h⟩ := ok_of_bind h
    obtain ⟨⟨b', p', o', d₂⟩, hload, h⟩ := ok_of_bind h
    cases h
    obtain ⟨tr, htr⟩ := execLoop_traced _ hw
    obtain ⟨hlast, -, hdata⟩ := loadDestData_last hdest
    refine ⟨⟨⟨b, d₁.sourceData.bytes, seg, segOffset⟩, hdr, d₁.outwindow, tr, w⟩, ?_, ?_, ?_, ?_⟩
    · simp only [deltaRun, hlen, hdest, hhdr, DeltaHeader.addresses, htr, bind, Except.bind, pure,
        Except.pure]
    · rw [loadPatchData_frame hload]
    · rw [loadPatchData_frame hload, readDeltaHeader_len hhdr]
      exact hlast
    · rw [loadPatchData_frame hload]
      exact hdata

theorem syncData_destdata (d : DiffState) (o : Nat) :
    (syncData { d with patchWindowOffsetLast := o }).destdata = (syncData d).destdata := by
  unfold syncData
  simp only
  split <;> rfl

theorem bdiff_traced {xxh : Xxh} {state state' : BDiffState} {d d' : DiffState}
    (h : bdiff xxh state d = .ok (state', d')) :
    ∃ r, bdiffRun state d = .ok r ∧ d'.outwindow = r.final.dest ∧
      d'.destWindowLastSize = r.header.patchDestLen ∧ d'.destdata = (syncData d).destdata := by
  obtain ⟨⟨state₁, d₁⟩, hfile, h⟩ := ok_of_bind h
  obtain ⟨⟨b, pos, offset, d₂⟩, hload, h⟩ := ok_of_bind h
  obtain ⟨flags, hflags, h⟩ := ok_of_bind h
  simp only at h
  split at h
  · cases h
  · obtain ⟨⟨seg, segOffset, p⟩, hseg, h⟩ := ok_of_bind h
    obtain ⟨⟨len, p'⟩, hlen, h⟩ := ok_of_bind h
    obtain ⟨⟨b', start, offset', d₃⟩, hload', h⟩ := ok_of_bind h
    obtain ⟨r, hr, hout, hlast, hdata⟩ := bdiffDelta_traced h
    refine ⟨r, ?_, hout, hlast, ?_⟩
    · simp only [bdiffRun, hfile, hload, hflags, hseg, hlen, hload', hr, bind, Except.bind]
    · rw [hdata, loadPatchData_frame hload', syncData_destdata, loadPatchData_frame hload,
        syncData_destdata, readFileHeader_frame hfile, syncData_destdata]

end Record

/-! ## One instruction -/

/-- What an instruction reads and writes. -/
structure Executed.Ok (env : WindowEnv) (e : Executed) : Prop where
  length : e.after.dest.length = e.before.dest.length
  patchDest : e.after.patchDest = e.before.patchDest + e.size
  /-- Only the bytes from `before.patchDest` to `after.patchDest` are written, inside the buffer. -/
  fits : 0 < e.size → e.after.patchDest ≤ e.before.dest.length
  head : e.after.dest.take e.before.patchDest = e.before.dest.take e.before.patchDest
  tail : e.after.dest.drop e.after.patchDest = e.before.dest.drop e.after.patchDest
  data : e.before.patchData ≤ e.after.patchData
  addresses : e.before.vcd.pAddr ≤ e.after.vcd.pAddr
  /-- The bytes of an ADD are the next bytes of the data. -/
  add : e.inst.op = .add → e.after.patchData = e.before.patchData + e.size ∧
    e.size ≤ (env.patch.at e.before.patchData).length ∧
    (e.after.dest.drop e.before.patchDest).take e.size =
      (env.patch.at e.before.patchData).take e.size
  /-- A RUN repeats the next byte of the data. -/
  run : e.inst.op = .run → e.after.patchData = e.before.patchData + 1 ∧
    ∃ c, (env.patch.at e.before.patchData).head? = some c ∧
      (e.after.dest.drop e.before.patchDest).take e.size = List.replicate e.size c
  still : e.inst.op ≠ .add → e.inst.op ≠ .run → e.after.patchData = e.before.patchData
  /-- A COPY reads inside the source data or inside the window buffer. -/
  copy : e.inst.op = .copy → ∃ a, e.address env = some a ∧
      if a < env.sourceSegmentOffset then
        ∃ seg, env.sourceSegment = some seg ∧ e.size ≤ (env.source.drop (seg + a)).length
      else e.size ≤ (e.before.dest.drop (a - env.sourceSegmentOffset)).length
  other : e.inst.op ≠ .copy → e.after.vcd.pAddr = e.before.vcd.pAddr

section One

variable {env : WindowEnv} {s : WindowState}

theorem writeN_ok {region bytes out : List UInt8} {d : Nat} (h : writeN region d bytes = .ok out) :
    d + bytes.length ≤ region.length ∧ out.length = region.length ∧
      out.take d = region.take d ∧ (out.drop d).take bytes.length = bytes ∧
      out.drop (d + bytes.length) = region.drop (d + bytes.length) := by
  unfold writeN at h
  split at h
  · rename_i hle
    cases h
    have hlen : (region.take d).length = d := by
      rw [List.length_take]
      omega
    have hboth : (region.take d ++ bytes).length = d + bytes.length := by
      rw [List.length_append, hlen]
    refine ⟨hle, ?_, ?_, ?_, ?_⟩
    · rw [List.length_append, hboth, List.length_drop]
      omega
    · rw [List.append_assoc, List.take_append_of_le_length (Nat.le_of_eq hlen.symm),
        List.take_of_length_le (Nat.le_of_eq hlen)]
    · rw [List.append_assoc, List.drop_append_of_le_length (Nat.le_of_eq hlen.symm),
        List.drop_of_length_le (Nat.le_of_eq hlen), List.nil_append, List.take_left]
    · rw [← hboth, List.drop_left, hboth]
  · cases h

theorem readN_ok {region out : List UInt8} {n : Nat} (h : readN region n = .ok out) :
    n ≤ region.length ∧ out = region.take n := by
  unfold readN at h
  split at h
  · cases h
    exact ⟨by assumption, rfl⟩
  · cases h

theorem moveForward_ok {dest out : List UInt8} {d src : Nat} (n : Nat)
    (h : moveForward dest d src n = .ok out) :
    out.length = dest.length ∧ out.take d = dest.take d ∧
      out.drop (d + n) = dest.drop (d + n) ∧
      (0 < n → d + n ≤ dest.length ∧ src + n ≤ dest.length) := by
  induction n generalizing dest d src with
  | zero =>
    cases h
    exact ⟨rfl, rfl, rfl, fun hn => absurd hn (Nat.lt_irrefl 0)⟩
  | succ n ih =>
    unfold moveForward at h
    split at h
    · cases h
    · rename_i c hc
      split at h
      · rename_i hlt
        obtain ⟨h1, h2, h3, h4⟩ := ih h
        rw [List.length_set] at h1 h4
        have hsrc : src < dest.length := (List.getElem?_eq_some_iff.mp hc).1
        refine ⟨h1, ?_, ?_, ?_⟩
        · have htake := congrArg (List.take d) h2
          rw [List.take_take, List.take_take, Nat.min_eq_left (Nat.le_succ d)] at htake
          rw [htake, List.take_set_of_le (Nat.le_refl d)]
        · rw [Nat.add_right_comm d 1 n] at h3
          rw [← Nat.add_assoc, h3, List.drop_set_of_lt (by omega)]
        · intro _
          cases n with
          | zero => omega
          | succ n =>
            have := h4 (Nat.succ_pos n)
            omega
      · cases h

theorem memmove2_ok {dest out : List UInt8} {d src n : Nat}
    (h : memmove2 dest d src n = .ok out) :
    out.length = dest.length ∧ out.take d = dest.take d ∧
      out.drop (d + n) = dest.drop (d + n) ∧
      (0 < n → d + n ≤ dest.length) ∧ n ≤ (dest.drop src).length := by
  unfold memmove2 at h
  split at h
  · obtain ⟨bytes, hread, h⟩ := ok_of_bind h
    obtain ⟨hn, rfl⟩ := readN_ok hread
    obtain ⟨h1, h2, h3, -, h5⟩ := writeN_ok h
    rw [List.length_take, Nat.min_eq_left hn] at h1 h5
    exact ⟨h2, h3, h5, fun _ => h1, hn⟩
  · rename_i hover
    obtain ⟨h1, h2, h3, h4⟩ := moveForward_ok n h
    refine ⟨h1, h2, h3, fun hn => (h4 hn).1, ?_⟩
    rw [List.length_drop]
    have := h4 (by omega)
    omega

theorem memmove2From_ok {dest src out : List UInt8} {d n : Nat}
    (h : memmove2From dest d src n = .ok out) :
    out.length = dest.length ∧ out.take d = dest.take d ∧
      out.drop (d + n) = dest.drop (d + n) ∧ d + n ≤ dest.length ∧ n ≤ src.length := by
  obtain ⟨bytes, hread, h⟩ := ok_of_bind h
  obtain ⟨hn, rfl⟩ := readN_ok hread
  obtain ⟨h1, h2, h3, -, h5⟩ := writeN_ok h
  rw [List.length_take, Nat.min_eq_left hn] at h1 h5
  exact ⟨h2, h3, h5, h1, hn⟩

theorem readULEB128From_le {acc p q v : Nat} {l : List UInt8}
    (h : readULEB128From acc p l = .ok (v, q)) : p ≤ q := by
  induction l generalizing acc p with
  | nil => cases h
  | cons c l ih =>
    unfold readULEB128From at h
    simp only at h
    split at h
    · exact Nat.le_of_succ_le (ih h)
    · cases h
      exact Nat.le_succ p

theorem decodeAddress_le {b : Buf} {vcd : VcdState} {here mode a q : Nat}
    (h : decodeAddress b vcd here mode = .ok (a, q)) : vcd.pAddr ≤ q := by
  unfold decodeAddress at h
  split at h
  · exact readULEB128From_le h
  · split at h
    · obtain ⟨⟨v, p⟩, hv, h⟩ := ok_of_bind h
      cases h
      exact readULEB128From_le hv
    · split at h
      · obtain ⟨c, -, h⟩ := ok_of_bind h
        cases h
        exact Nat.le_succ _
      · obtain ⟨⟨v, p⟩, hv, h⟩ := ok_of_bind h
        cases h
        exact readULEB128From_le hv

theorem addressDecode_ok {b : Buf} {vcd vcd' : VcdState} {here mode a : Nat}
    (h : addressDecode b vcd here mode = .ok (a, vcd')) :
    decodeAddress b vcd here mode = .ok (a, vcd'.pAddr) := by
  obtain ⟨⟨a', p⟩, ha, h⟩ := ok_of_bind h
  cases h
  exact ha

theorem execCopy_ok {dest out : List UInt8} {d a n : Nat}
    (h : execCopy env dest d a n = .ok out) :
    out.length = dest.length ∧ out.take d = dest.take d ∧
      out.drop (d + n) = dest.drop (d + n) ∧ (0 < n → d + n ≤ dest.length) ∧
      if a < env.sourceSegmentOffset then
        ∃ seg, env.sourceSegment = some seg ∧ n ≤ (env.source.drop (seg + a)).length
      else n ≤ (dest.drop (a - env.sourceSegmentOffset)).length := by
  unfold execCopy at h
  split at h
  · rename_i hlt
    cases hseg : env.sourceSegment with
    | none =>
      simp only [hseg] at h
      cases h
    | some seg =>
      simp only [hseg] at h
      obtain ⟨h1, h2, h3, h4, h5⟩ := memmove2From_ok h
      rw [if_pos hlt]
      exact ⟨h1, h2, h3, fun _ => h4, seg, rfl, h5⟩
  · rename_i hge
    obtain ⟨h1, h2, h3, h4, h5⟩ := memmove2_ok h
    rw [if_neg hge]
    exact ⟨h1, h2, h3, h4, h5⟩

theorem readByte_ok {b : Buf} {p : Nat} {c : UInt8} (h : readByte b p = .ok c) :
    (b.at p).head? = some c := by
  unfold readByte at h
  split at h
  · rename_i heq
    cases h
    rw [heq]
    rfl
  · cases h

theorem traceInstruction_ok {inst : Instruction} {e : Executed}
    (h : traceInstruction env s inst = .ok e) : e.Ok env := by
  obtain ⟨hinst, hbefore, hexec, p, hlen⟩ := traceInstruction_exec h
  obtain ⟨inst', ilen, before, after⟩ := e
  simp only at hinst hbefore hexec hlen
  subst hinst hbefore
  obtain ⟨⟨ilen', p'⟩, hlen', hexec⟩ := ok_of_bind hexec
  rw [hlen] at hlen'
  cases hlen'
  cases hop : inst'.op with
  | noop =>
    simp only [hop] at hexec
    cases hexec
    have hsize (after : WindowState) : Executed.size ⟨inst', ilen, before, after⟩ = 0 := if_pos hop
    exact {
      length := rfl
      patchDest := by rw [hsize]; rfl
      fits := fun h => absurd h (by rw [hsize]; exact Nat.lt_irrefl 0)
      head := rfl
      tail := rfl
      data := Nat.le_refl _
      addresses := Nat.le_refl _
      add := fun h => VCDInstructionCode.noConfusion (hop.symm.trans h)
      run := fun h => VCDInstructionCode.noConfusion (hop.symm.trans h)
      still := fun _ _ => rfl
      copy := fun h => VCDInstructionCode.noConfusion (hop.symm.trans h)
      other := fun _ => rfl }
  | add =>
    simp only [hop] at hexec
    obtain ⟨bytes, hread, hexec⟩ := ok_of_bind hexec
    obtain ⟨dest, hwrite, hexec⟩ := ok_of_bind hexec
    cases hexec
    obtain ⟨hn, rfl⟩ := readN_ok hread
    obtain ⟨h1, h2, h3, h4, h5⟩ := writeN_ok hwrite
    rw [List.length_take, Nat.min_eq_left hn] at h1 h4 h5
    have hsize (after : WindowState) : Executed.size ⟨inst', ilen, before, after⟩ = ilen :=
      if_neg (by rw [hop]; decide)
    exact {
      length := h2
      patchDest := by rw [hsize]
      fits := fun _ => h1
      head := h3
      tail := h5
      data := Nat.le_add_right _ _
      addresses := Nat.le_refl _
      add := fun _ => by rw [hsize]; exact ⟨rfl, hn, h4⟩
      run := fun h => VCDInstructionCode.noConfusion (hop.symm.trans h)
      still := fun h _ => absurd hop h
      copy := fun h => VCDInstructionCode.noConfusion (hop.symm.trans h)
      other := fun _ => rfl }
  | run =>
    simp only [hop] at hexec
    obtain ⟨c, hread, hexec⟩ := ok_of_bind hexec
    obtain ⟨dest, hwrite, hexec⟩ := ok_of_bind hexec
    cases hexec
    obtain ⟨h1, h2, h3, h4, h5⟩ := writeN_ok hwrite
    rw [List.length_replicate] at h1 h4 h5
    have hsize (after : WindowState) : Executed.size ⟨inst', ilen, before, after⟩ = ilen :=
      if_neg (by rw [hop]; decide)
    exact {
      length := h2
      patchDest := by rw [hsize]
      fits := fun _ => h1
      head := h3
      tail := h5
      data := Nat.le_succ _
      addresses := Nat.le_refl _
      add := fun h => VCDInstructionCode.noConfusion (hop.symm.trans h)
      run := fun _ => by rw [hsize]; exact ⟨rfl, c, readByte_ok hread, h4⟩
      still := fun _ h => absurd hop h
      copy := fun h => VCDInstructionCode.noConfusion (hop.symm.trans h)
      other := fun _ => rfl }
  | copy =>
    simp only [hop] at hexec
    obtain ⟨⟨a, vcd⟩, haddr, hexec⟩ := ok_of_bind hexec
    obtain ⟨dest, hcopy, hexec⟩ := ok_of_bind hexec
    cases hexec
    obtain ⟨h1, h2, h3, h4, h5⟩ := execCopy_ok hcopy
    have hdecode := addressDecode_ok haddr
    have hsize (after : WindowState) : Executed.size ⟨inst', ilen, before, after⟩ = ilen :=
      if_neg (by rw [hop]; decide)
    have haddress (after : WindowState) :
        Executed.address env ⟨inst', ilen, before, after⟩ = some a := by
      rw [Executed.address, hdecode]
    exact {
      length := h1
      patchDest := by rw [hsize]
      fits := fun hpos => h4 (by rw [hsize] at hpos; exact hpos)
      head := h2
      tail := h3
      data := Nat.le_refl _
      addresses := decodeAddress_le hdecode
      add := fun h => VCDInstructionCode.noConfusion (hop.symm.trans h)
      run := fun h => VCDInstructionCode.noConfusion (hop.symm.trans h)
      still := fun _ _ => rfl
      copy := fun _ => by rw [hsize]; exact ⟨a, haddress _, h5⟩
      other := fun h => absurd hop h }

end One

/-! ## All the instructions -/

/-- A position that goes through the instructions from `a` to `b` without a jump. -/
def Chain (pos : WindowState → Nat) : Nat → List Executed → Nat → Prop
  | a, [], b => a = b
  | a, e :: tr, b => pos e.before = a ∧ Chain pos (pos e.after) tr b

section Chains

variable {pos : WindowState → Nat} {tr : List Executed} {a b : Nat}

theorem Chain.le (h : Chain pos a tr b) (hmono : ∀ e ∈ tr, pos e.before ≤ pos e.after) :
    a ≤ b := by
  induction tr generalizing a with
  | nil => exact Nat.le_of_eq h
  | cons e tr ih =>
    obtain ⟨rfl, h⟩ := h
    exact Nat.le_trans (hmono e List.mem_cons_self)
      (ih h fun e' he' => hmono e' (List.mem_cons_of_mem e he'))

theorem Chain.mem (h : Chain pos a tr b) (hmono : ∀ e ∈ tr, pos e.before ≤ pos e.after)
    {e : Executed} (he : e ∈ tr) : a ≤ pos e.before ∧ pos e.after ≤ b := by
  induction tr generalizing a with
  | nil => cases he
  | cons e' tr ih =>
    obtain ⟨rfl, h⟩ := h
    have hmono' : ∀ e ∈ tr, pos e.before ≤ pos e.after :=
      fun e'' he'' => hmono e'' (List.mem_cons_of_mem e' he'')
    rcases List.mem_cons.mp he with rfl | he
    · exact ⟨Nat.le_refl _, h.le hmono'⟩
    · obtain ⟨h1, h2⟩ := ih h hmono' he
      exact ⟨Nat.le_trans (hmono e' List.mem_cons_self) h1, h2⟩

/-- A bound on every instruction that moves the position is one on its end. -/
theorem Chain.bound (h : Chain pos a tr b) {n : Nat} (ha : a ≤ n)
    (hn : ∀ e ∈ tr, pos e.after ≤ n ∨ pos e.after = pos e.before) : b ≤ n := by
  induction tr generalizing a with
  | nil => exact Nat.le_trans (Nat.le_of_eq h.symm) ha
  | cons e tr ih =>
    obtain ⟨rfl, h⟩ := h
    refine ih h ?_ (fun e' he' => hn e' (List.mem_cons_of_mem e he'))
    rcases hn e List.mem_cons_self with hle | heq
    · exact hle
    · exact Nat.le_trans (Nat.le_of_eq heq) ha

/-- Every place that the position went over was gone over by some instruction. -/
theorem Chain.cover (h : Chain pos a tr b) {p : Nat} (ha : a ≤ p) (hb : p < b) :
    ∃ e ∈ tr, pos e.before ≤ p ∧ p < pos e.after := by
  induction tr generalizing a with
  | nil =>
    cases h
    omega
  | cons e tr ih =>
    obtain ⟨rfl, h⟩ := h
    by_cases hp : p < pos e.after
    · exact ⟨e, List.mem_cons_self, ha, hp⟩
    · obtain ⟨e', he', hle⟩ := ih h (Nat.le_of_not_lt hp)
      exact ⟨e', List.mem_cons_of_mem e he', hle⟩

end Chains

/-- What the instructions of a loop do together. -/
structure Ran (env : WindowEnv) (s : WindowState) (tr : List Executed) (w : WindowState) :
    Prop where
  each : ∀ e ∈ tr, e.Ok env
  dest : Chain WindowState.patchDest s.patchDest tr w.patchDest
  data : Chain WindowState.patchData s.patchData tr w.patchData
  addresses : Chain (fun s => s.vcd.pAddr) s.vcd.pAddr tr w.vcd.pAddr
  sizes : w.patchDest = s.patchDest + (tr.map Executed.size).sum
  length : w.dest.length = s.dest.length
  fits : s.patchDest ≤ s.dest.length → w.patchDest ≤ s.dest.length
  kept : w.dest.drop w.patchDest = s.dest.drop w.patchDest

theorem Ran.nil (env : WindowEnv) (s : WindowState) : Ran env s [] s :=
  ⟨by simp, rfl, rfl, rfl, rfl, rfl, fun h => h, rfl⟩

theorem Ran.cons {env : WindowEnv} {e : Executed} {tr : List Executed} {w : WindowState}
    (he : e.Ok env) (h : Ran env e.after tr w) : Ran env e.before (e :: tr) w where
  each := by
    intro e' he'
    rcases List.mem_cons.mp he' with rfl | he'
    · exact he
    · exact h.each e' he'
  dest := ⟨rfl, h.dest⟩
  data := ⟨rfl, h.data⟩
  addresses := ⟨rfl, h.addresses⟩
  sizes := by
    rw [h.sizes, he.patchDest, List.map_cons, List.sum_cons, Nat.add_assoc]
  length := h.length.trans he.length
  fits := by
    intro hle
    rw [← he.length]
    refine h.fits ?_
    rw [he.length]
    rcases Nat.eq_zero_or_pos e.size with h0 | hpos
    · rw [he.patchDest, h0]
      exact hle
    · exact he.fits hpos
  kept := by
    have hle : e.after.patchDest ≤ w.patchDest := by
      rw [h.sizes]
      exact Nat.le_add_right _ _
    rw [h.kept]
    have htail := congrArg (List.drop (w.patchDest - e.after.patchDest)) he.tail
    rw [List.drop_drop, List.drop_drop, Nat.add_sub_cancel' hle] at htail
    exact htail

theorem traceLoop_ran {env : WindowEnv} {endp : Nat} {s w : WindowState} {tr : List Executed}
    (fuel : Nat) (h : traceLoop env endp s fuel = .ok (tr, w)) : Ran env s tr w := by
  induction fuel generalizing s tr with
  | zero =>
    unfold traceLoop at h
    split at h
    · cases h
    · cases h
      exact Ran.nil env _
  | succ fuel ih =>
    unfold traceLoop at h
    split at h
    · obtain ⟨⟨e, e'⟩, htr, h⟩ := ok_of_bind h
      obtain ⟨⟨tr', w'⟩, hloop, h⟩ := ok_of_bind h
      cases h
      obtain ⟨opcode, -, htr⟩ := ok_of_bind htr
      cases hinst : instructions[opcode.toNat]? with
      | none =>
        simp only [hinst] at htr
        cases htr
      | some dinst =>
        simp only [hinst] at htr
        obtain ⟨e₁, h₁, htr⟩ := ok_of_bind htr
        obtain ⟨e₂, h₂, htr⟩ := ok_of_bind htr
        cases htr
        obtain ⟨-, hb₁, -⟩ := traceInstruction_exec h₁
        obtain ⟨-, hb₂, -⟩ := traceInstruction_exec h₂
        have hrest := Ran.cons (traceInstruction_ok h₂) (ih hloop)
        rw [hb₂] at hrest
        have hall := Ran.cons (traceInstruction_ok h₁) hrest
        rw [hb₁] at hall
        exact ⟨hall.each, hall.dest, hall.data, hall.addresses, hall.sizes, hall.length,
          hall.fits, hall.kept⟩
    · cases h
      exact Ran.nil env _

/-! ## Windows and patches -/

/-- What a window would be if the decoder compared the lengths it declares. -/
structure WindowRun.AsDeclared (r : WindowRun) : Prop where
  sizes : (r.executed.map Executed.size).sum = r.header.patchDestLen
  copies : ∀ e ∈ r.executed, e.inst.op = .copy → ∀ a, e.address r.env = some a →
    a < r.env.sourceSegmentOffset + e.before.patchDest
  data : ∀ e ∈ r.executed, e.inst.op = .add ∨ e.inst.op = .run →
    r.header.patchData ≤ e.before.patchData ∧
      e.after.patchData ≤ r.header.patchData + r.header.instructionOffset
  addresses : ∀ e ∈ r.executed, e.inst.op = .copy →
    r.header.addresses ≤ e.before.vcd.pAddr ∧
      e.after.vcd.pAddr ≤ r.header.addresses + r.header.instructionCheckOffset

/-- The totals of a window are within what it declares. -/
structure WindowRun.TotalsFit (r : WindowRun) : Prop where
  sizes : r.final.patchDest = r.header.patchDestLen
  copies : ∀ e ∈ r.executed, e.inst.op = .copy → ∀ a, e.address r.env = some a →
    a < r.env.sourceSegmentOffset + e.before.patchDest
  data : r.final.patchData ≤ r.header.patchData + r.header.instructionOffset
  addresses : r.final.vcd.pAddr ≤ r.header.addresses + r.header.instructionCheckOffset

/-- What holds of every window: the loop started at the start of the window buffer and of the data
and address sections. -/
structure WindowRun.InOrder (r : WindowRun) : Prop where
  ran : ∃ p, Ran r.env ⟨VcdState.init r.header.addresses, p, r.header.patchData, r.start, 0⟩
    r.executed r.final
  declared : r.header.patchDestLen ≤ r.start.length
  written : ∀ p, p < r.final.patchDest ↔
    ∃ e ∈ r.executed, e.before.patchDest ≤ p ∧ p < e.after.patchDest

/-- The bytes that a window gives to the output. -/
def WindowRun.target (r : WindowRun) : List UInt8 := r.final.dest.take r.header.patchDestLen

theorem bdiffRun_inOrder {state : BDiffState} {d : DiffState} {r : WindowRun}
    (h : bdiffRun state d = .ok r) : r.InOrder := by
  obtain ⟨⟨state₁, d₁⟩, -, h⟩ := ok_of_bind h
  obtain ⟨⟨b, pos, offset, d₂⟩, -, h⟩ := ok_of_bind h
  obtain ⟨flags, -, h⟩ := ok_of_bind h
  obtain ⟨⟨seg, segOffset, p⟩, -, h⟩ := ok_of_bind h
  obtain ⟨⟨len, p'⟩, -, h⟩ := ok_of_bind h
  obtain ⟨⟨b', start, offset', d₃⟩, -, h⟩ := ok_of_bind h
  obtain ⟨⟨destLen, p''⟩, -, h⟩ := ok_of_bind h
  obtain ⟨d₄, hdest, h⟩ := ok_of_bind h
  obtain ⟨hdr, hhdr, h⟩ := ok_of_bind h
  obtain ⟨⟨tr, w⟩, htr, h⟩ := ok_of_bind h
  cases h
  have hran := traceLoop_ran _ htr
  have hmono : ∀ e ∈ tr, e.before.patchDest ≤ e.after.patchDest := by
    intro e he
    rw [(hran.each e he).patchDest]
    exact Nat.le_add_right _ _
  refine ⟨⟨_, hran⟩, ?_, ?_⟩
  · show hdr.patchDestLen ≤ d₄.outwindow.length
    rw [readDeltaHeader_len hhdr]
    exact (loadDestData_last hdest).2.1
  · intro p
    constructor
    · intro hp
      exact hran.dest.cover (Nat.zero_le p) hp
    · rintro ⟨e, he, -, hp⟩
      exact Nat.lt_of_lt_of_le hp (hran.dest.mem hmono he).2

/-- The totals decide. -/
theorem WindowRun.InOrder.asDeclared_iff {r : WindowRun} (h : r.InOrder) :
    r.AsDeclared ↔ r.TotalsFit := by
  obtain ⟨p, hran⟩ := h.ran
  have hdata : ∀ e ∈ r.executed, e.before.patchData ≤ e.after.patchData :=
    fun e he => (hran.each e he).data
  have haddr : ∀ e ∈ r.executed, e.before.vcd.pAddr ≤ e.after.vcd.pAddr :=
    fun e he => (hran.each e he).addresses
  have hsizes := hran.sizes
  simp only [Nat.zero_add] at hsizes
  constructor
  · intro hd
    refine ⟨hsizes.trans hd.sizes, hd.copies, ?_, ?_⟩
    · refine hran.data.bound (Nat.le_add_right _ _) ?_
      intro e he
      by_cases hop : e.inst.op = .add ∨ e.inst.op = .run
      · exact .inl (hd.data e he hop).2
      · obtain ⟨hadd, hrun⟩ := not_or.mp hop
        exact .inr ((hran.each e he).still hadd hrun)
    · refine hran.addresses.bound (Nat.le_add_right _ _) ?_
      intro e he
      by_cases hop : e.inst.op = .copy
      · exact .inl (hd.addresses e he hop).2
      · exact .inr ((hran.each e he).other hop)
  · intro ht
    refine ⟨hsizes.symm.trans ht.sizes, ht.copies, ?_, ?_⟩
    · intro e he _
      obtain ⟨h1, h2⟩ := hran.data.mem hdata he
      exact ⟨h1, Nat.le_trans h2 ht.data⟩
    · intro e he _
      obtain ⟨h1, h2⟩ := hran.addresses.mem haddr he
      exact ⟨h1, Nat.le_trans h2 ht.addresses⟩

/-- The driver: windows as long as the patch has a byte at its position, up to an empty one. -/
inductive Decodes (xxh : Xxh) : BDiffState → DiffState → List WindowRun → DiffState → Prop where
  | done {state : BDiffState} {d : DiffState}
      (h : canRead d.patchData.bytes.length d.patchWindowOffsetLast 1 = false) :
      Decodes xxh state d [] (syncData d)
  | last {state state' : BDiffState} {d d' : DiffState} {r : WindowRun}
      (h : canRead d.patchData.bytes.length d.patchWindowOffsetLast 1 = true)
      (hb : bdiff xxh state d = .ok (state', d')) (hr : bdiffRun state d = .ok r)
      (h0 : d'.destWindowLastSize = 0) : Decodes xxh state d [r] (syncData d')
  | next {state state' : BDiffState} {d d' out : DiffState} {r : WindowRun} {rs : List WindowRun}
      (h : canRead d.patchData.bytes.length d.patchWindowOffsetLast 1 = true)
      (hb : bdiff xxh state d = .ok (state', d')) (hr : bdiffRun state d = .ok r)
      (h0 : d'.destWindowLastSize ≠ 0) (hrest : Decodes xxh state' d' rs out) :
      Decodes xxh state d (r :: rs) out

/-- **In every window of a patch that is decoded, the instructions write the start of the window
buffer in order and read the data and address sections in order; the output is the declared
lengths of the buffer; and a window is as it declares exactly when its totals fit.** -/
theorem bdiff_windows {xxh : Xxh} {state : BDiffState} {d out : DiffState} {rs : List WindowRun}
    (h : Decodes xxh state d rs out) :
    (∀ r ∈ rs, r.InOrder ∧ (r.AsDeclared ↔ r.TotalsFit)) ∧
      out.destdata = (syncData d).destdata ++ rs.flatMap WindowRun.target := by
  induction h with
  | done h => simp
  | @last state state' d d' r h hb hr h0 =>
    obtain ⟨r', hr', hout, hlast, hdata⟩ := bdiff_traced hb
    rw [hr] at hr'
    cases hr'
    have hempty : r.target = [] := by
      rw [WindowRun.target, ← hlast, h0]
      rfl
    refine ⟨?_, ?_⟩
    · intro r' hr'
      obtain rfl := List.mem_singleton.mp hr'
      exact ⟨bdiffRun_inOrder hr, (bdiffRun_inOrder hr).asDeclared_iff⟩
    · rw [syncData, if_pos h0, hdata, List.flatMap_singleton, hempty, List.append_nil]
  | @next state state' d d' out r rs h hb hr h0 hrest ih =>
    obtain ⟨r', hr', hout, hlast, hdata⟩ := bdiff_traced hb
    rw [hr] at hr'
    cases hr'
    obtain ⟨hall, hdest⟩ := ih
    refine ⟨?_, ?_⟩
    · intro r' hr'
      rcases List.mem_cons.mp hr' with rfl | hr'
      · exact ⟨bdiffRun_inOrder hr, (bdiffRun_inOrder hr).asDeclared_iff⟩
      · exact hall r' hr'
    · rw [hdest, syncData, if_neg h0]
      simp only [List.flatMap_cons, WindowRun.target, hdata, hout, hlast, List.append_assoc]

/-- A patch of one window. -/
theorem Decodes.one (xxh : Xxh) (state : BDiffState) (d : DiffState) (target : List UInt8)
    (h : canRead d.patchData.bytes.length d.patchWindowOffsetLast 1 = true)
    (hd : (bdiff xxh state d).toOption.map (fun r => (r.2.target, decide (r.2.destWindowLastSize ≠ 0),
      canRead r.2.patchData.bytes.length r.2.patchWindowOffsetLast 1)) =
        some (target, true, false)) :
    ∃ r out, bdiffRun state d = .ok r ∧ Decodes xxh state d [r] out ∧
      (syncData d).destdata ++ target = out.destdata := by
  cases hb : bdiff xxh state d with
  | error e =>
    rw [hb] at hd
    cases hd
  | ok p =>
    obtain ⟨state', d'⟩ := p
    rw [hb] at hd
    obtain ⟨r, hr, hout, hlast, hdata⟩ := bdiff_traced hb
    simp only [Except.toOption, Option.map_some, Option.some.injEq, Prod.mk.injEq,
      decide_eq_true_eq] at hd
    obtain ⟨rfl, h0, hend⟩ := hd
    refine ⟨r, syncData d', hr, .next h hb hr h0 (.done hend), ?_⟩
    rw [syncData, syncData, if_neg h0, hdata]
    rfl

/-- A window of eight bytes: COPY 4 from its own first byte with an address that is not in the
empty address section, and ADD 1 without data. -/
def staleBytes : List UInt8 := [0xD6, 0xC3, 0xC4, 0, 0, 0, 20, 8, 0, 0, 2, 0, 20, 2]

/-- It is decoded to four bytes that the window buffer held before, an opcode, and three more
old bytes. -/
theorem stale_window_decoded :
    let d := freshDecoder staleBytes [] (by decide) (by decide)
    ∃ r out, Decodes ⟨fun _ _ => 0, fun _ _ => 0⟩ ⟨false, .unknown, 0⟩ d [r] out ∧
      out.destdata = [0, 0, 0, 0, 20, 0, 0, 0] ∧
      (r.executed.map Executed.size).sum = 5 ∧ r.header.patchDestLen = 8 ∧
      (∃ e ∈ r.executed, e.inst.op = .copy ∧ e.address r.env = some 0 ∧
        r.env.sourceSegmentOffset + e.before.patchDest = 0 ∧
        r.header.addresses + r.header.instructionCheckOffset < e.after.vcd.pAddr) ∧
      (∃ e ∈ r.executed, e.inst.op = .add ∧
        r.header.patchData + r.header.instructionOffset < e.after.patchData) ∧
      ¬ r.AsDeclared := by
  intro d
  obtain ⟨r, out, hr, hdec, hout⟩ := Decodes.one ⟨fun _ _ => 0, fun _ _ => 0⟩
    ⟨false, .unknown, 0⟩ d [0, 0, 0, 0, 20, 0, 0, 0] (by decide +kernel) (by decide +kernel)
  have hfacts : (bdiffRun ⟨false, .unknown, 0⟩ d).toOption.map (fun r => decide
      ((r.executed.map Executed.size).sum = 5 ∧ r.header.patchDestLen = 8 ∧
        (∃ e ∈ r.executed, e.inst.op = .copy ∧ e.address r.env = some 0 ∧
          r.env.sourceSegmentOffset + e.before.patchDest = 0 ∧
          r.header.addresses + r.header.instructionCheckOffset < e.after.vcd.pAddr) ∧
        ∃ e ∈ r.executed, e.inst.op = .add ∧
          r.header.patchData + r.header.instructionOffset < e.after.patchData)) = some true := by
    decide +kernel
  rw [hr] at hfacts
  obtain ⟨h1, h2, h3, h4⟩ := of_decide_eq_true (Option.some.inj hfacts)
  refine ⟨r, out, hdec, hout.symm, h1, h2, h3, h4, ?_⟩
  intro hdecl
  have := hdecl.sizes
  omega

/-- A window of one byte. -/
def addBytes : List UInt8 := [0xD6, 0xC3, 0xC4, 0, 0, 0, 8, 1, 0, 1, 1, 0, 65, 2]

/-- Its totals fit, so it is as it declares. -/
theorem add_window_as_declared :
    let d := freshDecoder addBytes [] (by decide) (by decide)
    ∃ r out, Decodes ⟨fun _ _ => 0, fun _ _ => 0⟩ ⟨false, .unknown, 0⟩ d [r] out ∧
      out.destdata = [65] ∧ r.InOrder ∧ r.AsDeclared := by
  intro d
  obtain ⟨r, out, hr, hdec, hout⟩ := Decodes.one ⟨fun _ _ => 0, fun _ _ => 0⟩
    ⟨false, .unknown, 0⟩ d [65] (by decide +kernel) (by decide +kernel)
  have hfacts : (bdiffRun ⟨false, .unknown, 0⟩ d).toOption.map (fun r => decide
      (r.final.patchDest = r.header.patchDestLen ∧ (∀ e ∈ r.executed, e.inst.op ≠ .copy) ∧
        r.final.patchData ≤ r.header.patchData + r.header.instructionOffset ∧
        r.final.vcd.pAddr ≤ r.header.addresses + r.header.instructionCheckOffset)) =
          some true := by
    decide +kernel
  rw [hr] at hfacts
  obtain ⟨h1, h2, h3, h4⟩ := of_decide_eq_true (Option.some.inj hfacts)
  obtain ⟨horder, hiff⟩ := (bdiff_windows hdec).1 r List.mem_cons_self
  exact ⟨r, out, hdec, hout.symm, horder,
    hiff.mpr ⟨h1, fun e he hop => absurd hop (h2 e he), h3, h4⟩⟩

end Acts.Bdiff
