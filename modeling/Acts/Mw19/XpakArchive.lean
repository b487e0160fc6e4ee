import Acts.Lib.Checked
import Acts.Mw19.XpakBlocks

/-!
# The index of an archive

What the constructor checks is enough for its readers: the index is strictly sorted, so the binary
search finds what a linear scan finds, and no sum of file fields wraps, so `Metadata` and `Read`
on an entry stay inside their sections.

* `Section` — a part of the file behind its header.
* `new_accepted` — what holds of every archive that the constructor builds.
* `archive_sound` — the result.
-/

set_option autoImplicit false

namespace Acts.Mw19

open Acts.Lib Acts.Lib.Traced

/-! ## Numbers and sections -/

theorem number_lt {size pos v : Nat} {bytes : List UInt8} (h : number size bytes pos = .ok v) :
    v < 256 ^ size := by
  unfold number at h
  split at h
  · cases h
  · cases h
    exact readLe_lt size _

/-- A section lies in the file, and behind the header if it has any bytes. -/
structure Section (fileSize offset length : Nat) : Prop where
  inside : offset + length ≤ fileSize
  behind : length ≠ 0 → 800 ≤ offset

theorem section_of_check {fileSize offset length : Nat} {u : Unit}
    (h : checkSection fileSize offset length = .ok u) : Section fileSize offset length := by
  unfold checkSection at h
  split at h
  · cases h
  · exact ⟨by omega, by omega⟩

/-- The read bytes are bytes of the section. -/
def Inside (offset length : Nat) (access : Access) : Prop :=
  offset ≤ access.1 ∧ access.1 + access.2 ≤ offset + length

/-! ## The constructor -/

/-- An index built so far: sorted, with every entry inside the data. -/
structure IndexInv (dataOffset dataSize : Nat) (entries : List Entry) : Prop where
  sorted : entries.Pairwise fun e e' => e.key < e'.key
  inside : ∀ e ∈ entries, dataOffset ≤ e.offset ∧ e.offset + e.size ≤ dataOffset + dataSize

theorem IndexInv.concat {dataOffset dataSize : Nat} {entries : List Entry} {e : Entry}
    (h : IndexInv dataOffset dataSize entries) (hkey : ∀ last ∈ entries.getLast?, last.key < e.key)
    (he : dataOffset ≤ e.offset ∧ e.offset + e.size ≤ dataOffset + dataSize) :
    IndexInv dataOffset dataSize (entries ++ [e]) := by
  constructor
  · refine List.pairwise_append.mpr ⟨h.sorted, List.pairwise_singleton _ _, fun x hx y hy => ?_⟩
    rw [List.mem_singleton.mp hy]
    rcases List.eq_nil_or_concat entries with rfl | ⟨init, last, rfl⟩
    · cases hx
    · rw [List.concat_eq_append] at hx hkey h
      have hlast := hkey last (by simp)
      rcases List.mem_append.mp hx with hx | hx
      · have hpair := (List.pairwise_append.mp h.sorted).2.2 x hx last List.mem_cons_self
        omega
      · rw [List.mem_singleton.mp hx]
        exact hlast
  · intro x hx
    rcases List.mem_append.mp hx with hx | hx
    · exact h.inside x hx
    · rw [List.mem_singleton.mp hx]
      exact he

theorem loadEntries_inv {index : List UInt8} {dataOffset dataSize count n : Nat}
    {entries entries' : List Entry} (hsum : dataOffset + dataSize < 2 ^ 64)
    (h : IndexInv dataOffset dataSize entries)
    (hload : loadEntries index dataOffset dataSize count n entries = .ok entries') :
    IndexInv dataOffset dataSize entries' := by
  induction n generalizing entries with
  | zero =>
    cases hload
    exact h
  | succ n ih =>
    obtain ⟨key, hkey, hload⟩ := ok_of_bind hload
    obtain ⟨offset, hoffset, hload⟩ := ok_of_bind hload
    obtain ⟨packed, hpacked, hload⟩ := ok_of_bind hload
    simp only at hload
    split at hload
    · cases hload
    · rename_i hchecks
      have hwrap : add64 dataOffset offset = dataOffset + offset := by
        unfold add64
        exact Nat.mod_eq_of_lt (by omega)
      refine ih (h.concat (fun last hlast => ?_) ?_) hload
      · have hlt := (not_or.mp (not_or.mp hchecks).2).2
        rw [hlast] at hlt
        simp only [Option.any_some, decide_eq_true_eq] at hlt
        exact Nat.lt_of_not_le hlt
      · show dataOffset ≤ add64 dataOffset offset ∧ _
        rw [hwrap]
        show _ ∧ dataOffset + offset + packed % 2 ^ 63 ≤ _
        omega

/-- What the constructor establishes. -/
structure Archive.Accepted (a : Archive) : Prop where
  fileSize : a.fileSize < 2 ^ 64
  data : Section a.fileSize a.dataOffset a.dataSize
  metadata : Section a.fileSize a.metaOffset a.metaSize
  index : IndexInv a.dataOffset a.dataSize a.entries

theorem parseHeader_ok {header : List UInt8} {fileSize : Nat} {limits : Limits} {h : XpakHeader}
    (hparse : parseHeader header fileSize limits = .ok h) : fileSize < 2 ^ 64 ∧
      Section fileSize h.dataOffset h.dataSize ∧ Section fileSize h.metaOffset h.metaSize := by
  obtain ⟨magic, -, hparse⟩ := ok_of_bind hparse
  obtain ⟨version, -, hparse⟩ := ok_of_bind hparse
  split at hparse
  · cases hparse
  · obtain ⟨size, hsize, hparse⟩ := ok_of_bind hparse
    split at hparse
    · cases hparse
    · rename_i hfile
      obtain ⟨dataOffset, -, hparse⟩ := ok_of_bind hparse
      obtain ⟨dataSize, -, hparse⟩ := ok_of_bind hparse
      obtain ⟨count, -, hparse⟩ := ok_of_bind hparse
      obtain ⟨indexOffset, -, hparse⟩ := ok_of_bind hparse
      obtain ⟨indexSize, -, hparse⟩ := ok_of_bind hparse
      obtain ⟨metaCount, -, hparse⟩ := ok_of_bind hparse
      obtain ⟨metaOffset, -, hparse⟩ := ok_of_bind hparse
      obtain ⟨metaSize, -, hparse⟩ := ok_of_bind hparse
      obtain ⟨_, hdata, hparse⟩ := ok_of_bind hparse
      obtain ⟨_, -, hparse⟩ := ok_of_bind hparse
      obtain ⟨_, hmeta, hparse⟩ := ok_of_bind hparse
      split at hparse
      · cases hparse
      · cases hparse
        refine ⟨?_, section_of_check hdata, section_of_check hmeta⟩
        rw [← not_not.mp hfile]
        exact number_lt hsize

theorem new_accepted {read : ReadAt} {fileSize : Nat} {limits : Limits} :
    Keeps (fun _ => True) (Archive.new read fileSize limits) Archive.Accepted := by
  have hread : ∀ offset length, Keeps (fun _ => True) (readFile read fileSize offset length)
      fun _ => True := fun _ _ => ⟨fun _ _ => trivial, fun _ _ => trivial⟩
  unfold Archive.new
  refine (hread 0 800).bind fun header _ => ?_
  refine (keeps_lift (fun _ h => parseHeader_ok h)).bind fun h hh => ?_
  obtain ⟨hfile, hdata, hmeta⟩ := hh
  refine (hread _ _).bind fun index _ => ?_
  have hsum : h.dataOffset + h.dataSize < 2 ^ 64 := Nat.lt_of_le_of_lt hdata.inside hfile
  refine (keeps_lift fun entries hload => loadEntries_inv hsum ⟨.nil, nofun⟩ hload).bind
    fun entries hentries => ?_
  exact keeps_pure ⟨hfile, hdata, hmeta, hentries⟩

/-! ## The readers -/

theorem readFile_keeps (read : ReadAt) (fileSize offset length : Nat) :
    Keeps (fun access => access = (offset, length)) (readFile read fileSize offset length)
      fun _ => True := by
  unfold readFile
  split
  · exact keeps_fail _
  · split
    · exact keeps_lift fun _ _ => trivial
    · exact keeps_access rfl fun _ _ => trivial

theorem readAt_inside {a : Archive} {offset length start size : Nat} (hstart : start ≤ offset)
    (hend : offset + length ≤ start + size) :
    Keeps (Inside start size) (a.readAt offset length) fun _ => True :=
  (readFile_keeps a.read a.fileSize offset length).permit fun access haccess => by
    rw [haccess]
    exact ⟨hstart, hend⟩

/-- The records from position `pos` on are read inside the section. -/
theorem metadataLoop_inside {a : Archive} (h : a.Accepted) (key n pos : Nat) :
    Keeps (Inside a.metaOffset a.metaSize) (a.metadataLoop key n pos) fun _ => True := by
  have hinside := h.metadata.inside
  have hfile := h.fileSize
  induction n generalizing pos with
  | zero => exact keeps_pure trivial
  | succ n ih =>
    unfold Archive.metadataLoop
    split
    · exact keeps_fail _
    · rename_i hroom
      have hheader : add64 a.metaOffset pos = a.metaOffset + pos := Nat.mod_eq_of_lt (by omega)
      have hnext : add64 pos 16 = pos + 16 := Nat.mod_eq_of_lt (by omega)
      have hvalue : add64 a.metaOffset (pos + 16) = a.metaOffset + (pos + 16) :=
        Nat.mod_eq_of_lt (by omega)
      simp only [hheader, hnext, hvalue]
      refine (readAt_inside (by omega) (by omega)).bind fun header _ => ?_
      refine (keeps_lift fun _ _ => trivial).bind fun recordKey (_ : True) => ?_
      refine (keeps_lift fun _ _ => trivial).bind fun length (_ : True) => ?_
      split
      · exact keeps_fail _
      · rename_i hlength
        split
        · refine (readAt_inside (by omega) (by omega)).bind fun value _ => ?_
          exact keeps_pure trivial
        · exact ih _

/-- **An accepted archive is sound**: its index is strictly sorted, the binary search agrees with a
linear scan, and the readers touch bytes of their own section only, which lies in the file. -/
theorem archive_sound {read : ReadAt} {fileSize : Nat} {limits : Limits} {a : Archive}
    (h : (Archive.new read fileSize limits).result = .ok a) :
    (a.entries.Pairwise fun e e' => e.key < e'.key) ∧
    (∀ key, a.find key = a.entries.find? fun e => e.key = key) ∧
    (∀ key, ∀ access ∈ (a.metadata key).accesses, Inside a.metaOffset a.metaSize access) ∧
    (∀ e ∈ a.entries, ∀ access ∈ (a.readEntry e).accesses,
      Inside a.dataOffset a.dataSize access) ∧
    Section a.fileSize a.dataOffset a.dataSize ∧ Section a.fileSize a.metaOffset a.metaSize := by
  have haccepted := new_accepted.value a h
  refine ⟨haccepted.index.sorted, fun key => ?_, fun key => ?_, fun e he => ?_, haccepted.data,
    haccepted.metadata⟩
  · exact BinarySearch.find_eq haccepted.index.sorted key
  · exact (metadataLoop_inside haccepted key a.metaCount 0).accesses
  · obtain ⟨hstart, hend⟩ := haccepted.index.inside e he
    exact (readAt_inside hstart hend).accesses

/-- A file with two entries of four bytes and one metadata record. -/
def twoEntries : List UInt8 :=
  leBytes 4 0x4950414b ++ leBytes 2 0 ++ leBytes 2 13 ++ leBytes 8 0 ++ leBytes 8 876 ++
    List.replicate 296 0 ++ leBytes 8 868 ++ leBytes 8 8 ++ leBytes 8 2 ++ leBytes 8 800 ++
    leBytes 8 48 ++ leBytes 8 0 ++ leBytes 8 0 ++ leBytes 8 0 ++ leBytes 8 1 ++ leBytes 8 848 ++
    leBytes 8 20 ++ List.replicate 392 0 ++
    leBytes 8 3 ++ leBytes 8 0 ++ leBytes 8 4 ++ leBytes 8 7 ++ leBytes 8 4 ++ leBytes 8 4 ++
    leBytes 8 7 ++ leBytes 8 4 ++ leBytes 4 0 ++ leBytes 8 1

theorem twoEntries_sound : ∃ a, (Archive.ofFile twoEntries .default).result = .ok a ∧
    a.entries.length = 2 ∧ ∀ key, a.find key = a.entries.find? fun e => e.key = key := by
  have hopen : (Archive.ofFile twoEntries .default).result.toOption.map
      (fun a => a.entries.length) = some 2 := by decide +kernel
  obtain ⟨a, ha, hlen⟩ := Option.map_eq_some_iff.mp hopen
  exact ⟨a, ok_of_toOption ha, hlen, (archive_sound (ok_of_toOption ha)).2.1⟩

/-- An entry is extracted from its own section, to the size that was asked for. -/
theorem extract_inside {a : Archive} (h : a.Accepted) (key outputSize : Nat) (d : Decoders) :
    Keeps (Inside a.dataOffset a.dataSize) (a.extract key outputSize d)
      fun output => output.length = outputSize := by
  unfold Archive.extract
  split
  · exact keeps_fail _
  · rename_i e hfind
    have hmem : e ∈ a.entries := by
      have hscan : a.entries.find? (fun e => e.key = key) = some e :=
        (BinarySearch.find_eq h.index.sorted key).symm.trans hfind
      exact List.mem_of_find?_eq_some hscan
    obtain ⟨hstart, hend⟩ := h.index.inside e hmem
    split
    · exact keeps_fail _
    · refine (readAt_inside hstart hend).bind fun bytes _ => ?_
      split
      · refine keeps_lift fun output houtput => ?_
        have hsafe := decodeBlocks_safe bytes outputSize d a.limits.maxPayloadBytes
        rw [houtput] at hsafe
        exact hsafe.1
      · split
        · exact keeps_fail _
        · rename_i hsize
          exact keeps_pure (not_not.mp hsize)

end Acts.Mw19
