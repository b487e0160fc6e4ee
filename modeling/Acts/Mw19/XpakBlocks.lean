import Acts.Lib.Checked
import Acts.Mw19.Xpak

/-!
# Decoding the blocks of an entry

For every input, `decodeBlocks` ends, stays inside the input and the output, and returns only
when the ranges it has written tile the output.

* `BlockState.Inv` — the output keeps its size and every range lies in it.
* `decodeCommand_safe`, `decodeGroup_safe` — what one turn of each loop preserves.
* `decodeLoop_safe` — what the whole loop preserves; each group consumes its header.
* `decodeBlocks_tiles` — the result.
-/

set_option autoImplicit false

namespace Acts.Mw19

open Acts.Lib Acts.Lib.Tiling

/-- Errors that the source raises itself. -/
def Raised (e : XpakError) : Prop := e ≠ .outside ∧ e ≠ .endless

theorem raised_thrown (message : String) : Raised (.thrown message) := ⟨nofun, nofun⟩

/-- The output has its size, and the ranges written so far lie in it and are not empty. -/
structure BlockState.Inv (outputSize : Nat) (s : BlockState) : Prop where
  output : s.output.length = outputSize
  destination : s.destination ≤ outputSize
  ranges : ∀ r ∈ s.ranges, r.1 < r.2 ∧ r.2 ≤ outputSize

section
variable {d : Decoders} {input : List UInt8} {outputSize : Nat} {s : BlockState}

theorem number_safe (size : Nat) (bytes : List UInt8) (pos : Nat) :
    Safe Raised (number size bytes pos) fun _ => True := by
  unfold number
  split
  · exact raised_thrown _
  · trivial

theorem subspan_safe {bytes : List UInt8} {pos length : Nat}
    (h : ¬ (bytes.length < pos ∨ bytes.length - pos < length)) :
    Safe Raised (subspan bytes pos length) fun span => span.length = length := by
  unfold subspan
  rw [if_neg h]
  show ((bytes.drop pos).take length).length = length
  rw [List.length_take, List.length_drop]
  omega

/-- A decoder stays inside its target; stored bytes have to fit. -/
theorem decodeWith_safe {codec : Nat} {source target : List UInt8}
    (h : codec = 0 → source.length = target.length) :
    Safe Raised (decodeWith d codec source target) fun r => r.2.length = target.length := by
  unfold decodeWith
  split
  · rename_i hcodec
    have hlen := h hcodec
    unfold memcpy
    rw [if_neg (by omega)]
    show (source ++ target.drop source.length).length = target.length
    rw [List.length_append, List.length_drop]
    omega
  · split
    · exact d.length_lz4 source target
    · split
      · split
        · exact ⟨nofun, nofun⟩
        · rename_i f hf
          exact d.length_oodle f hf source target
      · exact raised_thrown _

theorem length_putBack {output target : List UInt8} {pos : Nat}
    (h : pos + target.length ≤ output.length) :
    (putBack output target pos).length = output.length := by
  unfold putBack
  rw [List.length_append, List.length_append, List.length_take, List.length_drop]
  omega

theorem decodeBlock_safe {codec length : Nat} (h : s.Inv outputSize)
    (hinput : ¬ (input.length < s.pos ∨ input.length - s.pos < length)) :
    Safe Raised (decodeBlock d input outputSize codec length s) fun s' =>
      s'.Inv outputSize ∧ s'.pos = s.pos := by
  unfold decodeBlock
  simp only
  generalize hdecoded : (if codec = 0 then length else
    min (outputSize - s.destination) 0x3ffe0) = decoded
  split
  · exact raised_thrown _
  · rename_i hbounds
    have hdest := h.destination
    have hout := h.output
    refine (subspan_safe hinput).bind fun source hsource => ?_
    refine (subspan_safe (by omega)).bind fun target htarget => ?_
    have hstored : codec = 0 → source.length = target.length := by
      intro hcodec
      rw [if_pos hcodec] at hdecoded
      omega
    refine (decodeWith_safe hstored).bind fun r hr => ?_
    obtain ⟨ok, target'⟩ := r
    cases ok with
    | false => exact raised_thrown _
    | true =>
      have hlen : target'.length = decoded := Eq.trans hr htarget
      refine ⟨⟨?_, ?_, ?_⟩, rfl⟩
      · exact (length_putBack (by omega)).trans hout
      · show s.destination + decoded ≤ outputSize
        omega
      · intro range hrange
        rcases List.mem_append.mp hrange with hrange | hrange
        · exact h.ranges range hrange
        · rw [List.mem_singleton.mp hrange]
          constructor
          · show s.destination < s.destination + decoded
            omega
          · show s.destination + decoded ≤ outputSize
            omega

theorem decodeOrSkip_safe {codec length : Nat} (h : s.Inv outputSize)
    (hinput : ¬ (input.length < s.pos ∨ input.length - s.pos < length)) :
    Safe Raised (decodeOrSkip d input outputSize codec length s) fun s' =>
      s'.Inv outputSize ∧ s'.pos = s.pos := by
  unfold decodeOrSkip
  split
  · exact ⟨h, rfl⟩
  · exact decodeBlock_safe h hinput

theorem decodeCommand_safe (header count i : Nat) (h : s.Inv outputSize) :
    Safe Raised (decodeCommand d input outputSize header count i s) fun s' =>
      s'.Inv outputSize ∧ s.pos ≤ s'.pos := by
  unfold decodeCommand
  split
  · exact raised_thrown _
  · refine (number_safe _ _ _).bind fun descriptor _ => ?_
    simp only
    split
    · exact raised_thrown _
    · rename_i hinput
      have hs : BlockState.Inv outputSize { s with commands := s.commands + 1 } :=
        ⟨h.output, h.destination, h.ranges⟩
      refine (decodeOrSkip_safe hs hinput).bind fun s' hs' => ?_
      obtain ⟨hinv, hpos⟩ := hs'
      split
      · exact raised_thrown _
      · refine ⟨⟨hinv.output, hinv.destination, hinv.ranges⟩, ?_⟩
        show s.pos ≤ s'.pos + _
        have hpos' : s'.pos = s.pos := hpos
        omega

theorem decodeCommands_safe (header count n : Nat) (h : s.Inv outputSize) :
    Safe Raised (decodeCommands d input outputSize header count n s) fun s' =>
      s'.Inv outputSize ∧ s.pos ≤ s'.pos := by
  induction n generalizing s with
  | zero => exact ⟨h, Nat.le_refl _⟩
  | succ n ih =>
    refine (decodeCommand_safe header count _ h).bind fun s₁ hs₁ => ?_
    exact (ih hs₁.1).mono fun s' hs' => ⟨hs'.1, Nat.le_trans hs₁.2 hs'.2⟩

theorem decodeGroup_safe (h : s.Inv outputSize) :
    Safe Raised (decodeGroup d input outputSize s) fun s' =>
      s'.Inv outputSize ∧ s.pos + 128 ≤ s'.pos := by
  unfold decodeGroup
  split
  · exact raised_thrown _
  · refine (number_safe _ _ _).bind fun count _ => ?_
    refine (number_safe _ _ _).bind fun destination _ => ?_
    split
    · exact raised_thrown _
    · rename_i hheader
      have hs : BlockState.Inv outputSize
          { s with pos := s.pos + 128, destination := destination } :=
        ⟨h.output, by show destination ≤ outputSize; omega, h.ranges⟩
      refine (decodeCommands_safe s.pos count count hs).bind fun s' hs' => ?_
      refine ⟨⟨hs'.1.output, hs'.1.destination, hs'.1.ranges⟩, ?_⟩
      exact Nat.le_trans hs'.2 (le_aligned s'.pos (by decide))

/-- Every group consumes at least its header, so the loop ends. -/
theorem decodeGroups_safe (fuel : Nat) (h : s.Inv outputSize)
    (hfuel : input.length ≤ s.pos + fuel) :
    Safe Raised (decodeGroups d input outputSize fuel s) (BlockState.Inv outputSize) := by
  induction fuel generalizing s with
  | zero =>
    unfold decodeGroups
    rw [if_neg (by omega)]
    exact h
  | succ fuel ih =>
    unfold decodeGroups
    split
    · exact (decodeGroup_safe h).bind fun s' hs' => ih hs'.1 (by omega)
    · exact h

theorem decodeLoop_safe :
    Safe Raised (decodeLoop input outputSize d) (BlockState.Inv outputSize) := by
  refine decodeGroups_safe _ ⟨?_, Nat.zero_le _, nofun⟩ (by simp)
  exact List.length_replicate

end

/-! ## Coverage -/

/-- The check accepts contiguous ranges only. -/
theorem coveredEnd_safe {covered : Nat} {rs : List Range} (h : ∀ r ∈ rs, r.1 < r.2) :
    Safe Raised (coveredEnd covered rs) fun last => Contiguous covered rs last := by
  induction rs generalizing covered with
  | nil => exact rfl
  | cons r rs ih =>
    obtain ⟨first, last⟩ := r
    obtain ⟨hr, hrs⟩ := List.forall_mem_cons.mp h
    unfold coveredEnd
    split
    · exact raised_thrown _
    · rename_i hfirst
      exact (ih hrs).mono fun _ hlast => ⟨not_not.mp hfirst, hr, hlast⟩

theorem decodeBlocks_safe (input : List UInt8) (outputSize : Nat) (d : Decoders)
    (maxBytes : Nat) : Safe Raised (decodeBlocks input outputSize d maxBytes) fun output =>
      output.length = outputSize ∧ ∃ s, decodeLoop input outputSize d = .ok s ∧
        s.output = output ∧ Tiles s.ranges outputSize := by
  unfold decodeBlocks
  split
  · exact raised_thrown _
  · refine decodeLoop_safe.bindOk fun s hs hinv => ?_
    have hperm := List.mergeSort_perm s.ranges rangeLe
    have hranges : ∀ r ∈ s.ranges.mergeSort rangeLe, r.1 < r.2 := fun r hr =>
      (hinv.ranges r (hperm.mem_iff.mp hr)).1
    refine (coveredEnd_safe hranges).bind fun covered hcovered => ?_
    split
    · exact raised_thrown _
    · rename_i hsize
      rw [not_not.mp hsize] at hcovered
      exact ⟨hinv.output, s, hs, rfl, hcovered.tiles hperm⟩

/-- **Decoding is safe and complete**: `decodeBlocks` ends, never leaves a span, and what it
returns has the size of the output and was written in ranges that tile it. -/
theorem decodeBlocks_tiles (input : List UInt8) (outputSize : Nat) (d : Decoders)
    (maxBytes : Nat) :
    decodeBlocks input outputSize d maxBytes ≠ .error .outside ∧
    decodeBlocks input outputSize d maxBytes ≠ .error .endless ∧
    ∀ output, decodeBlocks input outputSize d maxBytes = .ok output →
      output.length = outputSize ∧
      ∃ s, decodeLoop input outputSize d = .ok s ∧ s.output = output ∧
        Tiles s.ranges outputSize := by
  have hsafe := decodeBlocks_safe input outputSize d maxBytes
  refine ⟨fun h => ?_, fun h => ?_, fun output h => ?_⟩
  · rw [h] at hsafe
    exact hsafe.1 rfl
  · rw [h] at hsafe
    exact hsafe.2 rfl
  · rw [h] at hsafe
    exact hsafe

end Acts.Mw19
