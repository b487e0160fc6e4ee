import Acts.Gsc.Fastfile
import Acts.Mw19.Stringtable

/-!
# The file of a replay zone (`Pack`, `mw19_linker.cpp`)

A header of `0x94` bytes, and the body in blocks: the two sizes of each, what is stored or what LZ4
made of it, and zeros up to a multiple of four.

* `pack` — the file of a zone.
* `frame` — a block in a file; `Packs` — it comes from a part of the body.
* `packBlocks_frames`, `pack_spec` — **a file is its header and the frames of the whole body.**
-/

set_option autoImplicit false

namespace Acts.Mw19.Linker

open Gsc.ObfuscatorFastfile (Libraries COMP_LZ4)
open Stringtable

/-! ## The writer -/

/-- `LZ4_compressBound`. -/
def lz4CompressBound (n : Nat) : Nat := n + n / 255 + 16

variable (lib : Libraries) (lz4 : Bool)

/-- The bytes of a block.  LZ4 is given room for `lz4CompressBound` bytes. -/
def blockOf (data : Data) : Except String Data :=
  if lz4 then
    match lib.compress COMP_LZ4 data with
    | some block =>
      if 0 < block.length ∧ block.length ≤ lz4CompressBound data.length then .ok block
      else .error "Fastfile LZ4 compression failed"
    | none => .error "Fastfile LZ4 compression failed"
  else .ok data

/-- The loop over the body, from `pos` on. -/
def packBlocks (chunkSize : Nat) (hpos : 0 < chunkSize) (body : Data) (pos : Nat)
    (output : Data) : Except String Data :=
  if h : pos < body.length then do
    let count := min chunkSize (body.length - pos)
    let block ← blockOf lib lz4 ((body.drop pos).take count)
    let offset := output.length
    let output ← put (output ++ List.replicate 12 0) offset (leBytes 4 block.length)
    let output ← put output (offset + 4) (leBytes 4 count)
    packBlocks chunkSize hpos body (pos + chunkSize) (padTo 4 (output ++ block))
  else .ok output
termination_by body.length - pos

/-- What is put into the header in front of the blocks. -/
def packFields (zone : Zone) (chunkSize : Nat) : List (Nat × Data) :=
  [(0, [0x49, 0x57, 0x66, 0x66, 0x63, 0x31, 0x30, 0x30]), (8, leBytes 4 11),
    (12, leBytes 4 0xff7), (16, [if lz4 then 1 else 0]), (28, leBytes 4 zone.body.length),
    (32, leBytes 8 zone.body.length)] ++
  (List.finRange 11).map (fun i => (48 + i.val * 8, leBytes 8 (zone.blocks i))) ++
  [(0x88, leBytes 4 0x43574902), (0x8c, leBytes 4 zone.body.length),
    (0x90, leBytes 4 (chunkSize ||| ((if lz4 then 5 else 1) <<< 24)))]

/-- `Pack`. -/
def pack (zone : Zone) (chunkSize : Nat) : Except String Data :=
  if h : zone.body.length = 0 ∨ 128 * 1024 * 1024 < zone.body.length ∨ chunkSize = 0 ∨
      0x10000 < chunkSize then
    .error "Invalid zone size or compression chunk size"
  else do
    let output ← putAll (List.replicate 0x94 0) (packFields lz4 zone chunkSize)
    let output ← packBlocks lib lz4 chunkSize (by omega) zone.body 0 output
    put output 20 (leBytes 4 (output.length - 0x88))

/-! ## Fields -/

section Fields

variable {header header' value : Data} {pos : Nat}

/-- Where a field starts, and its length. -/
def place (f : Nat × Data) : Nat × Nat := (f.1, f.2.length)

/-- Two places that have no byte in common. -/
def Apart (p q : Nat × Nat) : Prop := p.1 + p.2 ≤ q.1 ∨ q.1 + q.2 ≤ p.1

instance : DecidableRel Apart := fun _ _ => inferInstanceAs (Decidable (_ ∨ _))

theorem length_putAll {fields : List (Nat × Data)} (h : putAll header fields = .ok header') :
    header'.length = header.length := by
  induction fields generalizing header with
  | nil =>
    cases h
    rfl
  | cons f fields ih =>
    obtain ⟨header₁, hput, h⟩ := ok_of_bind h
    exact (ih h).trans (length_put hput)

/-- A field that is apart from all that is put keeps its bytes. -/
theorem putAll_keeps {fields : List (Nat × Data)} (h : putAll header fields = .ok header')
    {n : Nat} (hapart : ∀ f ∈ fields, pos + n ≤ f.1 ∨ f.1 + f.2.length ≤ pos) :
    (header'.drop pos).take n = (header.drop pos).take n := by
  induction fields generalizing header with
  | nil =>
    cases h
    rfl
  | cons f fields ih =>
    obtain ⟨header₁, hput, h⟩ := ok_of_bind h
    rw [ih h fun g hg => hapart g (List.mem_cons_of_mem f hg),
      take_drop_put hput (hapart f List.mem_cons_self)]

theorem take_put (h : put header pos value = .ok header') :
    (header'.drop pos).take value.length = value := by
  obtain ⟨hle, rfl⟩ := put_inv h
  have hlen : (header.take pos).length = pos := List.length_take_of_le (by omega)
  rw [List.append_assoc, List.drop_left' hlen, List.take_left]

/-- Fields that are apart are all found. -/
theorem putAll_field {fields : List (Nat × Data)} (h : putAll header fields = .ok header')
    (hapart : (fields.map place).Pairwise Apart) {f : Nat × Data} (hf : f ∈ fields) :
    (header'.drop f.1).take f.2.length = f.2 := by
  induction fields generalizing header with
  | nil => cases hf
  | cons g fields ih =>
    obtain ⟨header₁, hput, hall⟩ := ok_of_bind h
    obtain ⟨hfirst, hrest⟩ := List.pairwise_cons.mp hapart
    rcases List.mem_cons.mp hf with rfl | hf
    · have hkeep : (header'.drop f.1).take f.2.length = (header₁.drop f.1).take f.2.length :=
        putAll_keeps hall fun g hg => hfirst (place g) (List.mem_map_of_mem hg)
      exact hkeep.trans (take_put hput)
    · exact ih hall hrest hf

end Fields

/-! ## Frames -/

/-- A block in a file. -/
def frame (block data : Data) : Data :=
  leBytes 4 block.length ++ leBytes 4 data.length ++ leBytes 4 0 ++ padTo 4 block

/-- The blocks of a file with the parts of the body they come from. -/
structure Packs (chunkSize : Nat) (body : Data) (blocks : List (Data × Data)) : Prop where
  body_eq : (blocks.map Prod.snd).flatten = body
  block : ∀ b ∈ blocks, blockOf lib lz4 b.2 = .ok b.1
  pos : ∀ b ∈ blocks, 0 < b.2.length
  le : ∀ b ∈ blocks, b.2.length ≤ chunkSize

variable {lib lz4} {chunkSize : Nat} {body output file : Data} {zone : Zone}

theorem put_middle {front old rest value : Data} (hlen : old.length = value.length) :
    put (front ++ old ++ rest) front.length value = .ok (front ++ value ++ rest) := by
  have hfront : (front ++ old ++ rest).take front.length = front := by
    rw [List.append_assoc, List.take_left]
  have hrest : (front ++ old ++ rest).drop (front.length + value.length) = rest := by
    rw [← hlen, ← List.length_append, List.drop_left]
  rw [put_ok (by simp only [List.length_append]; omega), hfront, hrest]

/-- The two sizes of a block, put into zeros, and the block. -/
theorem put_frame {block data output₁ output₂ : Data} (hdvd : 4 ∣ output.length)
    (h₁ : put (output ++ List.replicate 12 0) output.length (leBytes 4 block.length) = .ok output₁)
    (h₂ : put output₁ (output.length + 4) (leBytes 4 data.length) = .ok output₂) :
    padTo 4 (output₂ ++ block) = output ++ frame block data := by
  have hzeros : output ++ List.replicate 12 0 =
      output ++ List.replicate 4 (0 : UInt8) ++ List.replicate 8 0 := by
    rw [List.append_assoc, List.replicate_append_replicate]
  rw [hzeros, put_middle (by simp)] at h₁
  cases h₁
  have hzeros' : output ++ leBytes 4 block.length ++ List.replicate 8 0 =
      output ++ leBytes 4 block.length ++ List.replicate 4 (0 : UInt8) ++ leBytes 4 0 := by
    rw [List.append_assoc _ (List.replicate 4 0)]
    rfl
  have hlen : output.length + 4 = (output ++ leBytes 4 block.length).length := by simp
  rw [hzeros', hlen, put_middle (by simp)] at h₂
  cases h₂
  unfold frame
  have hstart : 4 ∣ (output ++ leBytes 4 block.length ++ leBytes 4 data.length ++
      leBytes 4 0).length := by
    simp only [List.length_append, length_leBytes]
    omega
  rw [padTo_append hstart]
  simp only [List.append_assoc]

theorem dvd_length_frame (block data : Data) : 4 ∣ (frame block data).length := by
  have hpad := aligned_dvd block.length 4
  unfold frame
  simp only [List.length_append, length_leBytes, length_padTo _ (by decide : 0 < 4)]
  omega

/-- The loop appends the frames of what is left of the body. -/
theorem packBlocks_frames {hpos : 0 < chunkSize} {pos : Nat} (hdvd : 4 ∣ output.length)
    (h : packBlocks lib lz4 chunkSize hpos body pos output = .ok file) :
    ∃ blocks, Packs lib lz4 chunkSize (body.drop pos) blocks ∧
      file = output ++ blocks.flatMap fun b => frame b.1 b.2 := by
  induction hn : body.length - pos using Nat.strongRecOn generalizing pos output with
  | ind n ih =>
    unfold packBlocks at h
    split at h
    · rename_i hlt
      obtain ⟨block, hblock, h⟩ := ok_of_bind h
      obtain ⟨output₁, hput₁, h⟩ := ok_of_bind h
      obtain ⟨output₂, hput₂, h⟩ := ok_of_bind h
      obtain ⟨data, hdata⟩ : ∃ data, data =
          (body.drop pos).take (min chunkSize (body.length - pos)) := ⟨_, rfl⟩
      have hlen : data.length = min chunkSize (body.length - pos) := by
        rw [hdata, List.length_take, List.length_drop]
        omega
      have htake : data = (body.drop pos).take chunkSize := by
        rw [hdata, List.take_eq_take_iff, List.length_drop]
        omega
      rw [← hlen] at hput₂
      rw [put_frame hdvd hput₁ hput₂] at h
      have hdvd' : 4 ∣ (output ++ frame block data).length := by
        rw [List.length_append]
        exact Nat.dvd_add hdvd (dvd_length_frame block data)
      obtain ⟨blocks, hblocks, rfl⟩ := ih (body.length - (pos + chunkSize)) (by omega) hdvd' h rfl
      refine ⟨(block, data) :: blocks, ⟨?_, ?_, ?_, ?_⟩, ?_⟩
      · rw [List.map_cons, List.flatten_cons, hblocks.body_eq, htake, ← List.drop_drop,
          List.take_append_drop]
      · rw [← hdata] at hblock
        exact List.forall_mem_cons.mpr ⟨hblock, hblocks.block⟩
      · exact List.forall_mem_cons.mpr ⟨by show 0 < data.length; omega, hblocks.pos⟩
      · exact List.forall_mem_cons.mpr ⟨by show data.length ≤ chunkSize; omega, hblocks.le⟩
      · rw [List.flatMap_cons, List.append_assoc]
    · rename_i hlt
      cases h
      refine ⟨[], ⟨?_, by simp, by simp, by simp⟩, (List.append_nil _).symm⟩
      rw [List.drop_of_length_le (by omega)]
      rfl

/-! ## The file -/

theorem places_packFields (zone : Zone) (chunkSize : Nat) :
    (packFields lz4 zone chunkSize).map place =
      [(0, 8), (8, 4), (12, 4), (16, 1), (28, 4), (32, 8), (48, 8), (56, 8), (64, 8), (72, 8),
        (80, 8), (88, 8), (96, 8), (104, 8), (112, 8), (120, 8), (128, 8), (0x88, 4), (0x8c, 4),
        (0x90, 4)] := rfl

/-- A file that holds its fields, and behind them the blocks of the body. -/
structure Packed (lib : Libraries) (lz4 : Bool) (chunkSize : Nat) (zone : Zone) (file : Data)
    (blocks : List (Data × Data)) : Prop where
  length : 0x94 ≤ file.length
  field : ∀ f ∈ packFields lz4 zone chunkSize, (file.drop f.1).take f.2.length = f.2
  rest : file.drop 0x94 = blocks.flatMap fun b => frame b.1 b.2
  packs : Packs lib lz4 chunkSize zone.body blocks
  body_pos : 0 < zone.body.length
  body_le : zone.body.length ≤ 128 * 1024 * 1024
  chunkSize_le : chunkSize ≤ 0x10000

/-- **A file is its header and the frames of the whole body.** -/
theorem pack_spec (h : pack lib lz4 zone chunkSize = .ok file) :
    ∃ blocks, Packed lib lz4 chunkSize zone file blocks := by
  unfold pack at h
  split at h
  · cases h
  · rename_i haccepted
    obtain ⟨header, hfields, h⟩ := ok_of_bind h
    obtain ⟨output, hblocks, h⟩ := ok_of_bind h
    have hlen : header.length = 0x94 := by
      rw [length_putAll hfields, List.length_replicate]
    obtain ⟨blocks, hpacks, rfl⟩ := packBlocks_frames (by rw [hlen]; decide) hblocks
    have hlength := length_put h
    rw [List.length_append, hlen] at hlength
    refine ⟨blocks, by omega, ?_, ?_, hpacks, by omega, by omega, by omega⟩
    · intro f hf
      have hplace : place f ∈ (packFields lz4 zone chunkSize).map place := List.mem_map_of_mem hf
      have happart : ∀ p ∈ (packFields lz4 zone chunkSize).map place,
          p.1 + p.2 ≤ 0x94 ∧ (p.1 + p.2 ≤ 20 ∨ 24 ≤ p.1) := by
        rw [places_packFields]
        decide
      obtain ⟨hin, hap⟩ := happart _ hplace
      have hkeep : (file.drop f.1).take f.2.length = _ := take_drop_put h hap
      rw [hkeep, List.drop_append_of_le_length (by rw [hlen]; unfold place at hin; omega),
        List.take_append_of_le_length (by rw [List.length_drop, hlen]; unfold place at hin; omega)]
      exact putAll_field hfields (by rw [places_packFields]; decide) hf
    · have hkeep : (file.drop 0x94).take file.length = _ := take_drop_put h (.inr (by simp))
      rw [List.take_of_length_le (by rw [List.length_drop]; omega),
        List.take_of_length_le (by rw [List.length_drop, List.length_append]; omega)] at hkeep
      rw [hkeep, ← hlen, List.drop_left]

end Acts.Mw19.Linker
