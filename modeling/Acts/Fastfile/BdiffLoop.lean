import Acts.Fastfile.Bdiff
import Mathlib.Tactic.Ring

/-!
# The instruction loop follows the resolved instruction stream

* `Stream b p l rest` — the bytes of buffer `b` from pointer `p` on are the section `l` followed
  by `rest`.  One lemma per reading function says what it returns on such a pointer.
* `instructions_eq` — the listed code table is the default table of the RFC.
* `Sim` — the loop variables against the unread sections, the caches and the target so far.
* `execInstruction_sim`, `execOpcode_sim`, `execLoop_sim` — one instruction, one opcode and the
  whole loop produce what `Vcdiff.split` says: the loop is the two-buffer meaning.
-/

set_option autoImplicit false

namespace Acts.Bdiff

open Acts.Vcdiff

/-! ## Pointers into a buffer -/

/-- From `p` on, the buffer holds `l` and then `rest`. -/
def Stream (b : Buf) (p : Nat) (l rest : List UInt8) : Prop :=
  ∃ pre, b.bytes = pre ++ (l ++ rest) ∧ p = b.base + pre.length

variable {b : Buf} {p : Nat} {l rest : List UInt8}

theorem Stream.at (h : Stream b p l rest) : b.at p = l ++ rest := by
  obtain ⟨pre, hb, rfl⟩ := h
  simp [Buf.at, hb]

theorem Stream.drop (h : Stream b p l rest) (n : Nat) (hn : n ≤ l.length) :
    Stream b (p + n) (l.drop n) rest := by
  obtain ⟨pre, hb, rfl⟩ := h
  refine ⟨pre ++ l.take n, ?_, by simp; omega⟩
  rw [hb, List.append_assoc, ← List.append_assoc (l.take n), List.take_append_drop]

theorem Stream.tail {c : UInt8} (h : Stream b p (c :: l) rest) : Stream b (p + 1) l rest := by
  simpa using h.drop 1 (by simp)

theorem Stream.split {l' : List UInt8} (h : Stream b p (l ++ l') rest) :
    Stream b p l (l' ++ rest) ∧ Stream b (p + l.length) l' rest := by
  refine ⟨?_, by simpa using h.drop l.length (by simp)⟩
  obtain ⟨pre, hb, rfl⟩ := h
  exact ⟨pre, by simp [hb], rfl⟩

theorem Stream.lt (h : Stream b p l rest) : p + l.length + rest.length < 2 ^ 64 := by
  obtain ⟨pre, hb, rfl⟩ := h
  have hfits := b.fits
  rw [hb] at hfits
  simp only [List.length_append] at hfits
  omega

theorem Stream.length_le (h : Stream b p l rest) : l.length ≤ b.bytes.length := by
  obtain ⟨pre, hb, rfl⟩ := h
  rw [hb]; simp; omega

theorem ptrAdd_of_lt {q n : Nat} (h : q + n < 2 ^ 64) : ptrAdd q n = q + n := Nat.mod_eq_of_lt h

theorem ptrSub_of_le {q r : Nat} (h : r ≤ q) (hq : q < 2 ^ 64) : ptrSub q r = q - r := by
  unfold ptrSub
  omega

theorem readByte_spec {c : UInt8} (h : Stream b p (c :: l) rest) : readByte b p = .ok c := by
  simp [readByte, h.at]

theorem readN_spec {n : Nat} (hn : n ≤ l.length) : readN (l ++ rest) n = .ok (l.take n) := by
  simp only [readN, List.length_append]
  rw [if_pos (by omega), List.take_append_of_le_length hn]

/-- Shifting in seven bits. -/
theorem shift_or (output : Nat) (c : UInt8) (h : output * 128 < 2 ^ 64) :
    ((output <<< 7) % 2 ^ 64 ||| (c.toNat &&& 0x7F)) = output * 128 + c.toNat % 128 := by
  have hand : c.toNat &&& 0x7F = c.toNat % 128 := Nat.and_two_pow_sub_one_eq_mod c.toNat 7
  have hshift : output <<< 7 = output * 128 := Nat.shiftLeft_eq output 7
  rw [hand, hshift, Nat.mod_eq_of_lt h, ← hshift,
    ← Nat.shiftLeft_add_eq_or_of_lt (Nat.mod_lt _ (by decide))]

theorem continues_iff (c : UInt8) : c.toNat &&& 0x80 ≠ 0 ↔ 128 ≤ c.toNat := by
  have h : ∀ n < 256, (n &&& 0x80 ≠ 0 ↔ 128 ≤ n) := by decide +kernel
  exact h c.toNat c.toNat_lt

theorem readULEB128From_spec {acc v : Nat} {l' : List UInt8} (p : Nat) (rest : List UInt8)
    (hv : varintFrom acc l = some (v, l')) (hlt : v < 2 ^ 64) :
    readULEB128From acc p (l ++ rest) = .ok (v, p + (l.length - l'.length)) ∧
      l'.length < l.length ∧ l' = l.drop (l.length - l'.length) := by
  induction l generalizing acc p with
  | nil => cases hv
  | cons c l ih =>
    have hge : acc * 128 + c.toNat % 128 ≤ v := by
      simp only [varintFrom] at hv
      split at hv
      · exact varintFrom_ge hv
      · cases hv; omega
    simp only [varintFrom] at hv
    rw [List.cons_append, readULEB128From, shift_or acc c (by omega)]
    simp only [continues_iff]
    split at hv
    · rename_i hc
      obtain ⟨h1, h2, h3⟩ := ih (p + 1) hv
      rw [if_pos hc, h1]
      refine ⟨?_, by simp; omega, ?_⟩
      · congr 2; simp only [List.length_cons]; omega
      · rw [List.length_cons, show l.length + 1 - l'.length = l.length - l'.length + 1 by omega,
          List.drop_succ_cons]
        exact h3
    · rename_i hc
      cases hv
      rw [if_neg hc]
      simp

/-- A section that starts with a number: the number, and the section after it. -/
theorem readULEB128_spec {v : Nat} {l' : List UInt8} (h : Stream b p l rest)
    (hv : varint l = some (v, l')) (hlt : v < 2 ^ 64) :
    ∃ q, readULEB128 b p = .ok (v, q) ∧ Stream b q l' rest ∧ q + l'.length = p + l.length := by
  obtain ⟨h1, h2, h3⟩ := readULEB128From_spec p rest hv hlt
  refine ⟨p + (l.length - l'.length), ?_, ?_, by omega⟩
  · rw [readULEB128, h.at]; exact h1
  · have := h.drop (l.length - l'.length) (by omega)
    rwa [← h3] at this

/-! ## The destination window -/

theorem writeN_spec {dest t : List UInt8} (bytes : List UInt8) (ht : dest.take t.length = t)
    (hb : t.length + bytes.length ≤ dest.length) :
    ∃ dest', writeN dest t.length bytes = .ok dest' ∧ dest'.length = dest.length ∧
      dest'.take (t ++ bytes).length = t ++ bytes := by
  refine ⟨_, by rw [writeN, if_pos hb], by simp; omega, ?_⟩
  rw [ht, List.take_left' rfl]

theorem moveForward_spec {dest t : List UInt8} {src n : Nat} (ht : dest.take t.length = t)
    (hs : src < t.length) (hn : t.length + n ≤ dest.length) :
    ∃ dest', moveForward dest t.length src n = .ok dest' ∧ dest'.length = dest.length ∧
      dest'.take (t.length + n) = appendCopy t src n := by
  induction n generalizing dest t src with
  | zero => exact ⟨dest, rfl, rfl, by simpa [appendCopy] using ht⟩
  | succ n ih =>
    have hget : dest[src]? = t[src]? := by
      rw [← ht, List.getElem?_take_of_lt hs]
    have hc : t[src]? = some t[src] := List.getElem?_eq_getElem hs
    have ht' : (dest.set t.length t[src]).take (t ++ [t[src]]).length = t ++ [t[src]] := by
      rw [List.length_append, List.length_singleton, List.take_add_one, List.take_set_of_le (by omega), ht]
      rw [List.getElem?_set_self (by omega)]
      rfl
    have hs' : src + 1 < (t ++ [t[src]]).length := by simp; omega
    obtain ⟨dest', h1, h2, h3⟩ := ih ht' hs' (by simp; omega)
    refine ⟨dest', ?_, by simpa using h2, ?_⟩
    · rw [moveForward, hget, hc]
      simp only
      rw [if_pos (by omega)]
      simpa using h1
    · rw [appendCopy, hc]
      simpa [Nat.add_assoc, Nat.add_comm 1 n] using h3

theorem memmove2_spec {dest t : List UInt8} (src n : Nat) (ht : dest.take t.length = t)
    (hs : src < t.length) (hn : t.length + n ≤ dest.length) :
    ∃ dest', memmove2 dest t.length src n = .ok dest' ∧ dest'.length = dest.length ∧
      dest'.take (t.length + n) = appendCopy t src n := by
  unfold memmove2
  split
  · rename_i hov
    have hle : src + n ≤ t.length := by omega
    -- no overlap: the bytes are all there before the copy
    have hread : readN (dest.drop src) n = .ok ((t.drop src).take n) := by
      have hsplit : dest.drop src = t.drop src ++ dest.drop t.length := by
        conv_lhs => rw [← List.take_append_drop t.length dest, ht]
        rw [List.drop_append_of_le_length (by omega)]
      rw [hsplit]
      exact readN_spec (by simp; omega)
    have hlen : ((t.drop src).take n).length = n := by simp; omega
    obtain ⟨dest', h1, h2, h3⟩ := writeN_spec ((t.drop src).take n) ht (by omega)
    refine ⟨dest', ?_, h2, ?_⟩
    · rw [hread]; exact h1
    · rw [appendCopy_of_le t src n hle]
      rwa [List.length_append, hlen] at h3
  · exact moveForward_spec ht hs hn

/-! ## The code table -/

def VCDInstructionCode.toInstType : VCDInstructionCode → InstType
  | .noop => .noop
  | .add => .add
  | .run => .run
  | .copy => .copy

def Instruction.toInst (i : Instruction) : Inst := ⟨i.op.toInstType, i.mode, i.size⟩

def DoubleInstruction.toInsts (d : DoubleInstruction) : Inst × Inst :=
  (d.first.toInst, d.second.toInst)

/-- **The listed table is the default code table.** -/
theorem instructions_eq : instructions.map DoubleInstruction.toInsts = codeTable := by
  decide +kernel

theorem instructions_get {i : Nat} {e : Inst × Inst} (h : codeTable[i]? = some e) :
    ∃ d, instructions[i]? = some d ∧ d.toInsts = e := by
  rw [← instructions_eq, List.getElem?_map, Option.map_eq_some_iff] at h
  exact h

/-! ## One instruction -/

/-- What the sections of a window are followed by in the patch buffer, and where the instruction
section ends. -/
structure Frame where
  env : WindowEnv
  restData : List UInt8
  restInst : List UInt8
  restAddr : List UInt8
  instructionDataEnd : Nat

/-- The loop variables `s` when `rs` is unread and `t` was produced. -/
structure Sim (f : Frame) (len : Nat) (s : WindowState) (rs : Streams) (t : List UInt8) :
    Prop where
  data : Stream f.env.patch s.patchData rs.data f.restData
  inst : Stream f.env.patch s.instructionData rs.inst f.restInst
  inst_end : s.instructionData + rs.inst.length = f.instructionDataEnd
  addr : Stream f.env.patch s.vcd.pAddr rs.addr f.restAddr
  near : s.vcd.anear = rs.cache.near
  same : s.vcd.asame = rs.cache.same
  slot : s.vcd.nextSlot = rs.cache.nextSlot
  pos : s.patchDest = t.length
  length : s.dest.length = len
  dest : s.dest.take t.length = t

/-- The source buffer holds `mem` from the segment on; a window without a segment has none. -/
def HasSegment (env : WindowEnv) (mem : List UInt8) : Prop :=
  env.sourceSegmentOffset = 0 ∨
    ∃ off, env.sourceSegment = some off ∧ env.source.drop off = mem

/-- Every COPY from the segment stays in the source buffer. -/
def InBuffer (mem : List UInt8) (segLen : Nat) (ops : List Op) : Prop :=
  ∀ a n, Op.copy a n ∈ ops → a < segLen → a + n ≤ mem.length

section Step

variable {f : Frame} {len : Nat} {s : WindowState} {rs rs' : Streams} {t mem : List UInt8}
  {ops : List Op}

theorem instructionLength_spec {i : Instruction} {n : Nat} {inst : List UInt8}
    (hs : Sim f len s rs t) (h : instSize i.toInst rs.inst = some (n, inst)) (hn : n < 2 ^ 64) :
    ∃ q, instructionLength f.env s i = .ok (n, q) ∧ Stream f.env.patch q inst f.restInst ∧
      q + inst.length = f.instructionDataEnd := by
  unfold instSize at h
  have htype : i.toInst.type ≠ .noop ↔ i.op ≠ .noop := by
    cases i with | mk op mode size => cases op <;> simp [Instruction.toInst,
      VCDInstructionCode.toInstType]
  have hsize : i.toInst.size = i.size := rfl
  unfold instructionLength
  simp only [htype, hsize] at h
  split at h
  · rename_i hc
    rw [if_pos hc]
    obtain ⟨q, h1, h2, h3⟩ := readULEB128_spec hs.inst h hn
    exact ⟨q, h1, h2, by rw [h3, hs.inst_end]⟩
  · rename_i hc
    cases h
    rw [if_neg hc]
    exact ⟨s.instructionData, rfl, hs.inst, hs.inst_end⟩

theorem decodeAddress_spec {here mode a : Nat} {addr : List UInt8} (hs : Sim f len s rs t)
    (hhere : here < 2 ^ 64) (h : address rs.cache here mode rs.addr = some (a, addr)) :
    ∃ q, decodeAddress f.env.patch s.vcd here mode = .ok (a, q) ∧
      Stream f.env.patch q addr f.restAddr := by
  have hlt := address_lt h
  unfold address at h
  split at h
  · rename_i a' addr' hraw
    rw [if_pos (by split at h <;> simp_all)] at h
    cases h
    unfold rawAddress at hraw
    unfold decodeAddress VCD_SELF VCD_HERE
    by_cases h0 : mode = 0
    · rw [if_pos h0] at hraw ⊢
      obtain ⟨q, h1, h2, _⟩ := readULEB128_spec hs.addr hraw (by omega)
      exact ⟨q, h1, h2⟩
    · rw [if_neg h0] at hraw ⊢
      by_cases h1 : mode = 1
      · rw [if_pos h1] at hraw ⊢
        split at hraw
        · rename_i v r hv
          split at hraw
          · rename_i hle
            cases hraw
            obtain ⟨q, hq, h2, _⟩ := readULEB128_spec hs.addr hv (by omega)
            refine ⟨q, ?_, h2⟩
            rw [hq]
            simp only [bind, Except.bind, pure, Except.pure]
            rw [ptrSub_of_le hle hhere]
          · cases hraw
        · cases hraw
      · rw [if_neg h1] at hraw ⊢
        by_cases h6 : mode < 6
        · rw [if_pos h6] at hraw
          rw [if_neg (by omega)]
          split at hraw
          · rename_i v r hv
            cases hraw
            obtain ⟨q, hq, h2, _⟩ := readULEB128_spec hs.addr hv (by omega)
            refine ⟨q, ?_, h2⟩
            rw [hq, hs.near]
            simp only [bind, Except.bind, pure, Except.pure]
            rw [ptrAdd_of_lt (by omega)]
          · cases hraw
        · rw [if_neg h6] at hraw
          rw [if_pos (by omega)]
          split at hraw
          · rename_i c r hc
            cases hraw
            have hstream := hs.addr
            rw [hc] at hstream
            refine ⟨_, ?_, hstream.tail⟩
            rw [readByte_spec hstream, hs.same]
            simp only [bind, Except.bind, pure, Except.pure, Nat.shiftLeft_eq]
          · cases hraw
  · cases h

theorem addressDecode_spec {here mode a : Nat} {addr : List UInt8} (hs : Sim f len s rs t)
    (hhere : here < 2 ^ 64) (h : address rs.cache here mode rs.addr = some (a, addr)) :
    ∃ vcd, addressDecode f.env.patch s.vcd here mode = .ok (a, vcd) ∧
      Stream f.env.patch vcd.pAddr addr f.restAddr ∧ vcd.anear = (rs.cache.update a).near ∧
      vcd.asame = (rs.cache.update a).same ∧ vcd.nextSlot = (rs.cache.update a).nextSlot := by
  obtain ⟨q, h1, h2⟩ := decodeAddress_spec hs hhere h
  refine ⟨_, by rw [addressDecode, h1]; rfl, h2, ?_, ?_, ?_⟩
  · simp [Cache.update, hs.near, hs.slot]
  · simp [Cache.update, hs.same]
  · simp only [Cache.update, hs.slot]
    exact Nat.and_two_pow_sub_one_eq_mod _ 2

/-- A COPY moves what the two-buffer meaning says. -/
theorem execCopy_spec {a n : Nat} (hs : Sim f len s rs t) (hseg : HasSegment f.env mem)
    (ha : a < f.env.sourceSegmentOffset + t.length) (hn : t.length + n ≤ len)
    (hin : a < f.env.sourceSegmentOffset → a + n ≤ mem.length) :
    ∃ dest, execCopy f.env s.dest s.patchDest a n = .ok dest ∧ dest.length = len ∧
      dest.take (t.length + n) = (Op.copy a n).applySplit mem f.env.sourceSegmentOffset t := by
  have hlen := hs.length
  simp only [execCopy, Op.applySplit, hs.pos]
  split
  · rename_i hlt
    rcases hseg with h0 | ⟨off, hoff, hmem⟩
    · omega
    · rw [hoff]
      have hread : readN (f.env.source.drop (off + a)) n = .ok ((mem.drop a).take n) := by
        rw [← hmem, List.drop_drop]
        have hin := hin hlt
        rw [← hmem, List.length_drop] at hin
        rw [readN, if_pos (by rw [List.length_drop]; omega)]
      have hl : ((mem.drop a).take n).length = n := by
        have := hin hlt
        simp; omega
      obtain ⟨dest, h1, h2, h3⟩ := writeN_spec ((mem.drop a).take n) hs.dest (by omega)
      refine ⟨dest, ?_, by omega, ?_⟩
      · simp only [memmove2From, hread, bind, Except.bind, h1]
      · rwa [List.length_append, hl] at h3
  · rename_i hge
    obtain ⟨dest, h1, h2, h3⟩ := memmove2_spec (a - f.env.sourceSegmentOffset) n hs.dest
      (by omega) (by omega)
    exact ⟨dest, h1, by omega, h3⟩

/-- **One instruction.** -/
theorem execInstruction_sim {i : Instruction} (hs : Sim f len s rs t)
    (hseg : HasSegment f.env mem) (hlen : f.env.sourceSegmentOffset + (t.length + totalSize ops) < 2 ^ 64)
    (h : resolveInst (f.env.sourceSegmentOffset + t.length) rs i.toInst = some (ops, rs'))
    (htot : t.length + totalSize ops ≤ len) (hin : InBuffer mem f.env.sourceSegmentOffset ops) :
    ∃ s', execInstruction f.env s i = .ok s' ∧
      Sim f len s' rs' (ops.foldl (Op.applySplit mem f.env.sourceSegmentOffset) t) := by
  unfold resolveInst at h
  split at h
  · cases h
  · rename_i n inst hsize
    have hop : i.toInst.type = i.op.toInstType := rfl
    rw [hop] at h
    unfold execInstruction
    cases hiop : i.op with
    | noop =>
      simp only [hiop, VCDInstructionCode.toInstType] at h
      cases h
      have hsz : instSize i.toInst rs.inst = some (i.size, rs.inst) := by
        simp [instSize, hiop, VCDInstructionCode.toInstType, Instruction.toInst]
      rw [hsz] at hsize
      cases hsize
      have hil : instructionLength f.env s i = .ok (i.size, s.instructionData) := by
        simp [instructionLength, hiop]
      simp only [hil, bind, Except.bind, pure, Except.pure]
      exact ⟨s, rfl, hs⟩
    | add =>
      simp only [hiop, VCDInstructionCode.toInstType] at h
      split at h
      · rename_i hle
        cases h
        have hl : (rs.data.take n).length = n := by simp; omega
        simp only [totalSize, List.map_cons, List.map_nil, List.sum_cons, List.sum_nil, Op.size,
          hl] at htot hlen
        obtain ⟨q, hq1, hq2, hq3⟩ := instructionLength_spec hs hsize (by omega)
        obtain ⟨dest, h1, h2, h3⟩ := writeN_spec (rs.data.take n) hs.dest
          (by rw [hs.length]; omega)
        simp only [hq1, bind, Except.bind, pure, Except.pure, hs.data.at, readN_spec hle, hs.pos,
          h1]
        refine ⟨_, rfl, ⟨hs.data.drop n hle, hq2, hq3, hs.addr, hs.near, hs.same, hs.slot, ?_,
          by rw [h2, hs.length], h3⟩⟩
        simp [Op.applySplit, hl]
      · cases h
    | run =>
      simp only [hiop, VCDInstructionCode.toInstType] at h
      split at h
      · rename_i c data hdata
        cases h
        simp only [totalSize, List.map_cons, List.map_nil, List.sum_cons, List.sum_nil,
          Op.size] at htot hlen
        obtain ⟨q, hq1, hq2, hq3⟩ := instructionLength_spec hs hsize (by omega)
        obtain ⟨dest, h1, h2, h3⟩ := writeN_spec (List.replicate n c) hs.dest
          (by rw [hs.length, List.length_replicate]; omega)
        have hstream := hs.data
        rw [hdata] at hstream
        simp only [hq1, bind, Except.bind, pure, Except.pure, readByte_spec hstream, hs.pos, h1]
        refine ⟨_, rfl, ⟨hstream.tail, hq2, hq3, hs.addr, hs.near, hs.same, hs.slot, ?_,
          by rw [h2, hs.length], h3⟩⟩
        simp [Op.applySplit]
      · cases h
    | copy =>
      simp only [hiop, VCDInstructionCode.toInstType] at h
      split at h
      · rename_i a addr haddr
        cases h
        simp only [totalSize, List.map_cons, List.map_nil, List.sum_cons, List.sum_nil,
          Op.size] at htot hlen
        have ha := address_lt haddr
        obtain ⟨q, hq1, hq2, hq3⟩ := instructionLength_spec hs hsize (by omega)
        obtain ⟨vcd, hv1, hv2, hv3, hv4, hv5⟩ := addressDecode_spec hs (by omega) haddr
        obtain ⟨dest, h1, h2, h3⟩ := execCopy_spec (n := n) hs hseg ha (by omega)
          (fun hlt => hin a n (by simp) hlt)
        have hmode : i.toInst.mode = i.mode := rfl
        rw [hmode] at hv1
        have hhere : ptrAdd f.env.sourceSegmentOffset s.patchDest =
            f.env.sourceSegmentOffset + t.length := by
          rw [hs.pos]; exact ptrAdd_of_lt (by omega)
        simp only [hq1, bind, Except.bind, pure, Except.pure, hhere, hv1, h1]
        have hl : ((Op.copy a n).applySplit mem f.env.sourceSegmentOffset t).length =
            t.length + n := by
          refine applySplit_length mem _ t (.copy a n) ?_ ?_
          · rintro a' n' he; cases he; exact ha
          · rintro a' n' he hlt; cases he; exact hin a n (by simp) hlt
        simp only [List.foldl_cons, List.foldl_nil]
        exact ⟨_, rfl, ⟨hs.data, hq2, hq3, hv2, hv3, hv4, hv5, by simp only [hl, hs.pos], h2,
          by rw [hl]; exact h3⟩⟩
      · cases h

theorem InBuffer.append_left {segLen : Nat} {ops' : List Op}
    (h : InBuffer mem segLen (ops ++ ops')) : InBuffer mem segLen ops :=
  fun a n ho ha => h a n (List.mem_append_left _ ho) ha

theorem InBuffer.append_right {segLen : Nat} {ops' : List Op}
    (h : InBuffer mem segLen (ops ++ ops')) : InBuffer mem segLen ops' :=
  fun a n ho ha => h a n (List.mem_append_right _ ho) ha

/-- Operations that stay in the source buffer produce what their sizes say. -/
theorem foldl_applySplit_length {segLen : Nat} (hw : WellFormed (segLen + t.length) ops)
    (hin : InBuffer mem segLen ops) :
    (ops.foldl (Op.applySplit mem segLen) t).length = t.length + totalSize ops := by
  induction ops generalizing t with
  | nil => simp [totalSize]
  | cons op ops ih =>
    have hl := applySplit_length mem segLen t op hw.1
      (fun a n he hlt => hin a n (by simp [he]) hlt)
    have hw2 : WellFormed (segLen + (op.applySplit mem segLen t).length) ops := by
      rw [hl, ← Nat.add_assoc]; exact hw.2
    rw [List.foldl_cons, ih hw2 (fun a n ho => hin a n (List.mem_cons_of_mem _ ho)), hl]
    simp [totalSize, Nat.add_assoc]

/-- **One opcode.** -/
theorem execOpcode_sim {opcode : UInt8} {inst : List UInt8} {e : Inst × Inst}
    (hs : Sim f len s rs t) (hseg : HasSegment f.env mem)
    (hlen : f.env.sourceSegmentOffset + (t.length + totalSize ops) < 2 ^ 64) (hi : rs.inst = opcode :: inst)
    (he : codeTable[opcode.toNat]? = some e)
    (h : resolveOpcode (f.env.sourceSegmentOffset + t.length) { rs with inst } e = some (ops, rs'))
    (htot : t.length + totalSize ops ≤ len) (hin : InBuffer mem f.env.sourceSegmentOffset ops) :
    ∃ s', execOpcode f.env s = .ok s' ∧
      Sim f len s' rs' (ops.foldl (Op.applySplit mem f.env.sourceSegmentOffset) t) := by
  have hstream := hs.inst
  have hend := hs.inst_end
  rw [hi] at hstream hend
  obtain ⟨d, hd, hde⟩ := instructions_get he
  have h0 : Sim f len { s with instructionData := s.instructionData + 1 } { rs with inst } t :=
    ⟨hs.data, hstream.tail, by simp only [List.length_cons] at hend ⊢; omega, hs.addr, hs.near,
      hs.same, hs.slot, hs.pos, hs.length, hs.dest⟩
  unfold resolveOpcode at h
  split at h
  · cases h
  · rename_i ops1 rs1 hr1
    split at h
    · cases h
    · rename_i ops2 rs2 hr2
      cases h
      rw [totalSize_append] at htot hlen
      rw [← hde] at hr1 hr2
      have hl := foldl_applySplit_length (resolveInst_wellFormed hr1) hin.append_left
      obtain ⟨s1, he1, hs1⟩ := execInstruction_sim h0 hseg (by omega) hr1 (by omega)
        hin.append_left
      obtain ⟨s2, he2, hs2⟩ := execInstruction_sim hs1 hseg (by rw [hl]; omega)
        (by rw [hl, ← Nat.add_assoc]; exact hr2) (by rw [hl]; omega) hin.append_right
      refine ⟨s2, ?_, by rw [List.foldl_append]; exact hs2⟩
      unfold execOpcode
      simp only [readByte_spec hstream, bind, Except.bind, hd, he1]
      exact he2

theorem instSize_le {i : Inst} {inst inst' : List UInt8} {n : Nat}
    (h : instSize i inst = some (n, inst')) : inst'.length ≤ inst.length := by
  unfold instSize at h
  split at h
  · exact (varintFrom_suffix h).length_le
  · cases h; exact Nat.le_refl _

theorem resolveInst_le {here : Nat} {i : Inst} (h : resolveInst here rs i = some (ops, rs')) :
    rs'.inst.length ≤ rs.inst.length := by
  unfold resolveInst at h
  split at h
  · cases h
  · rename_i hsize
    have hle := instSize_le hsize
    split at h
    · cases h; exact hle
    · split at h
      · cases h; exact hle
      · cases h
    · split at h
      · cases h; exact hle
      · cases h
    · split at h
      · cases h; exact hle
      · cases h

theorem resolveOpcode_le {here : Nat} {e : Inst × Inst}
    (h : resolveOpcode here rs e = some (ops, rs')) : rs'.inst.length ≤ rs.inst.length := by
  unfold resolveOpcode at h
  split at h
  · cases h
  · rename_i h1
    split at h
    · cases h
    · rename_i h2
      cases h
      exact Nat.le_trans (resolveInst_le h2) (resolveInst_le h1)

theorem execLoop_done (fuel : Nat) (hs : Sim f len s rs t) (hi : rs.inst = []) :
    execLoop f.env f.instructionDataEnd s fuel = .ok s := by
  have hend := hs.inst_end
  rw [hi, List.length_nil, Nat.add_zero] at hend
  cases fuel with
  | zero => rw [execLoop, if_neg (by omega)]
  | succ fuel => rw [execLoop, if_neg (by omega)]

/-- **The loop runs the whole instruction section.** -/
theorem execLoop_sim {k fuel : Nat} (hs : Sim f len s rs t) (hseg : HasSegment f.env mem)
    (hlen : f.env.sourceSegmentOffset + (t.length + totalSize ops) < 2 ^ 64)
    (h : resolveAll (f.env.sourceSegmentOffset + t.length) rs k = some (ops, rs'))
    (hfuel : rs.inst.length ≤ fuel) (htot : t.length + totalSize ops ≤ len)
    (hin : InBuffer mem f.env.sourceSegmentOffset ops) :
    ∃ s', execLoop f.env f.instructionDataEnd s fuel = .ok s' ∧
      Sim f len s' rs' (ops.foldl (Op.applySplit mem f.env.sourceSegmentOffset) t) := by
  induction k generalizing s rs t ops fuel with
  | zero =>
    simp only [resolveAll] at h
    split at h
    · rename_i hi
      cases h
      exact ⟨s, execLoop_done fuel hs hi, hs⟩
    · cases h
  | succ k ih =>
    simp only [resolveAll] at h
    split at h
    · rename_i hi
      cases h
      exact ⟨s, execLoop_done fuel hs hi, hs⟩
    · rename_i opcode inst hi
      split at h
      · cases h
      · rename_i e he
        split at h
        · cases h
        · rename_i ops1 rs1 h1
          split at h
          · cases h
          · rename_i ops2 rs2 h2
            cases h
            rw [totalSize_append] at htot hlen
            have hend := hs.inst_end
            rw [hi, List.length_cons] at hfuel hend
            obtain ⟨fuel, rfl⟩ : ∃ g, fuel = g + 1 := ⟨fuel - 1, by omega⟩
            have hl := foldl_applySplit_length (resolveOpcode_wellFormed h1) hin.append_left
            obtain ⟨s1, he1, hs1⟩ := execOpcode_sim hs hseg (by omega) hi he h1
              (by omega) hin.append_left
            have hle : rs1.inst.length ≤ fuel := Nat.le_trans (resolveOpcode_le h1) (by simp only; omega)
            obtain ⟨s2, he2, hs2⟩ := ih hs1 (by rw [hl]; omega)
              (by rw [hl, ← Nat.add_assoc]; exact h2) hle (by rw [hl]; omega) hin.append_right
            refine ⟨s2, ?_, by rw [List.foldl_append]; exact hs2⟩
            rw [execLoop, if_pos (by omega)]
            simp only [bind, Except.bind, he1]
            exact he2

end Step

end Acts.Bdiff
