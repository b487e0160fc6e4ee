import Acts.Lib.CString

/-!
# Name databases (`dzporter_cdb.cpp`, `scobalula_wnigen.cpp`, `scobalula_wni.cpp`)

Both formats hold hashes and their strings, compressed with LZ4: a CDB file the strings and behind
them the hashes, a WNI file pairs.

* `compressCDBFile`, `compressWNIFile` — the writers, for a map from hashes to strings.
* `cdbRead`, `wniRead` — the readers, with what they call back.
* `ReadsBack` — what they are for.
* `name_files_iff` — **the maps that are written and read back.**
-/

set_option autoImplicit false

namespace Acts.NameFiles

/-! ## Compression -/

/-- What the compressor leaves: its output, and the byte of the buffer behind it. -/
structure Compressed where
  bytes : List UInt8
  behind : UInt8

/-- `utils::compress` with `COMP_LZ4`; the decompressor is given the size of its buffer. -/
structure Lz4 where
  compress : List UInt8 → Option Compressed
  decompress : List UInt8 → Nat → Option (List UInt8)

/-- `MAX_LZ4_SIZE`. -/
def maxLz4Size : Nat := 0x7E000000

/-- What is compressed comes back; the output is at most `LZ4_compressBound` long. -/
def Lz4.RoundTrips (lz4 : Lz4) : Prop :=
  ∀ raw : List UInt8, raw.length < maxLz4Size → ∃ comp, lz4.compress raw = some comp ∧
    comp.bytes.length ≤ raw.length + raw.length / 255 + 16 ∧
    lz4.decompress comp.bytes raw.length = some raw

/-! ## Maps -/

/-- A `std::map<std::string, std::unordered_set<uint64_t>>`, in order. -/
abbrev DataMap := List (List UInt8 × List UInt64)

/-- `rev[str].insert(h)`. -/
def insert (str : List UInt8) (h : UInt64) : DataMap → DataMap
  | [] => [(str, [h])]
  | (key, set) :: rev =>
    if key = str then (key, if h ∈ set then set else h :: set) :: rev
    else if key < str then (key, set) :: insert str h rev
    else (str, [h]) :: (key, set) :: rev

/-- The map from strings to hashes. -/
def reverse (map : List (UInt64 × List UInt8)) : DataMap :=
  map.foldl (fun rev p => insert p.2 p.1 rev) []

/-- The nested loops over a map; `iter` is the order in which a set is passed through. -/
def entries (iter : List UInt64 → List UInt64) (dataMap : DataMap) : List (UInt64 × List UInt8) :=
  dataMap.flatMap fun (str, set) => (iter set).map fun h => (h, str)

/-! ## Writers -/

/-- `utils::WriteValue` of a hash, eight bytes. -/
def hashBytes (h : UInt64) : List UInt8 := leBytes 8 h.toNat

/-- `utils::WriteString`: a C string and its end. -/
def writeString (str : List UInt8) : List UInt8 := str.takeWhile (· != 0) ++ [0]

inductive Written where
  | file (bytes : List UInt8)
  /-- "File too big." -/
  | tooBig
  /-- "Failed to compress, abort." -/
  | failed
  /-- The share that is logged is a division by zero. -/
  | divisionByZero
  deriving DecidableEq

/-- What both writers do with their data; `info` is whether `LOG_INFO` logs. -/
def writeFile (lz4 : Lz4) (info : Bool) (rawdata : List UInt8)
    (header : (compressedSize : Nat) → List UInt8) : Written :=
  if rawdata.length ≥ maxLz4Size then .tooBig
  else
    match lz4.compress rawdata with
    | none => .failed
    | some comp =>
      if info ∧ rawdata.length = 0 then .divisionByZero
      else .file (header comp.bytes.length ++ (comp.bytes ++ [comp.behind]))

/-- `CDB_MAGIC`. -/
def cdbMagic : Nat := 0x42444E50

/-- `CompressCDBFile`. -/
def compressCDBData (lz4 : Lz4) (info : Bool) (iter : List UInt64 → List UInt64)
    (dataMap : DataMap) : Written :=
  let pairs := entries iter dataMap
  let rawdata := pairs.flatMap (fun p => writeString p.2) ++ pairs.flatMap (fun p => hashBytes p.1)
  writeFile lz4 info rawdata fun compressedSize =>
    leBytes 4 cdbMagic ++ leBytes 4 pairs.length ++ leBytes 4 compressedSize ++
      leBytes 4 rawdata.length

/-- `CompressCDBFile` of a map from hashes. -/
def compressCDBFile (lz4 : Lz4) (info : Bool) (iter : List UInt64 → List UInt64)
    (map : List (UInt64 × List UInt8)) : Written :=
  compressCDBData lz4 info iter (reverse map)

/-- `WNI_MAGIC`. -/
def wniMagic : Nat := 0x20494E57

/-- `WNI_VERSION`. -/
def wniVersion : Nat := 1

/-- `CompressWNIFile`. -/
def compressWNIData (lz4 : Lz4) (info : Bool) (iter : List UInt64 → List UInt64)
    (dataMap : DataMap) : Written :=
  let pairs := entries iter dataMap
  let rawdata := pairs.flatMap fun p => hashBytes p.1 ++ writeString p.2
  writeFile lz4 info rawdata fun compressedSize =>
    leBytes 4 wniMagic ++ leBytes 2 wniVersion ++ leBytes 4 pairs.length ++
      leBytes 4 compressedSize ++ leBytes 4 rawdata.length

/-- `CompressWNIFile` of a map from hashes. -/
def compressWNIFile (lz4 : Lz4) (info : Bool) (iter : List UInt64 → List UInt64)
    (map : List (UInt64 × List UInt8)) : Written :=
  compressWNIData lz4 info iter (reverse map)

/-! ## Readers -/

inductive ReadError where
  | invalidMagic (magic : Nat)
  | badFileMagic
  | unknownVersion
  | readingTooMuch
  | cantDecompress
  deriving DecidableEq, Repr

/-- What was called back, and the exception that ended it. -/
structure ReadResult where
  calls : List (UInt64 × List UInt8)
  error : Option ReadError
  deriving DecidableEq, Repr

/-- A number of `n` bytes of a file or a buffer. -/
def readWord (n : Nat) (bytes : List UInt8) : Except ReadError (Nat × List UInt8) :=
  if bytes.length < n then .error .readingTooMuch else .ok (readLe n bytes, bytes.drop n)

/-- `n` bytes of a file. -/
def readBytes (n : Nat) (bytes : List UInt8) : Except ReadError (List UInt8 × List UInt8) :=
  if bytes.length < n then .error .readingTooMuch else .ok (bytes.take n, bytes.drop n)

/-- The buffer that was decompressed, zero behind what was written. -/
def decompressed (lz4 : Lz4) (comp : List UInt8) (size : Nat) : Except ReadError (List UInt8) :=
  match lz4.decompress comp size with
  | none => .error .cantDecompress
  | some raw => .ok (raw ++ List.replicate (size - raw.length) 0)

/-- `count` hashes behind each other. -/
def hashes : Nat → List UInt8 → List UInt64
  | 0, _ => []
  | count + 1, bytes => UInt64.ofNat (readLe 8 bytes) :: hashes count (bytes.drop 8)

/-- The data of a CDB file: positions of strings, then hashes. -/
def cdbPairs (alloc : Bool) (data : List UInt8) (entries : Nat) :
    Except ReadError (List (UInt64 × List UInt8)) :=
  match skipStrings data entries 0 with
  | none => .error .readingTooMuch
  | some (refs, loc) =>
    -- With an allocator the strings are copied.
    let strsizes := if alloc then data.take loc else data
    if loc + 8 * entries > data.length then .error .readingTooMuch
    else .ok ((hashes entries (data.drop loc)).zip (refs.map (cstr strsizes)))

/-- `CDBRead` up to the calls. -/
def cdbLoad (lz4 : Lz4) (alloc : Bool) (file : List UInt8) :
    Except ReadError (List (UInt64 × List UInt8)) := do
  let (header, file) ← readBytes 16 file
  let magic := readLe 4 header
  let entries := readLe 4 (header.drop 4)
  let compressedSize := readLe 4 (header.drop 8)
  let decompressedSize := readLe 4 (header.drop 12)
  if magic ≠ cdbMagic then .error (.invalidMagic magic)
  else if entries = 0 then .ok []
  else
    let (compressed, _) ← readBytes compressedSize file
    let data ← decompressed lz4 compressed decompressedSize
    cdbPairs alloc data entries

/-- `CDBRead`; `alloc` is whether there is an allocator for the strings. -/
def cdbRead (lz4 : Lz4) (alloc : Bool) (file : List UInt8) : ReadResult :=
  match cdbLoad lz4 alloc file with
  | .error error => ⟨[], some error⟩
  | .ok calls => ⟨calls, none⟩

/-- The loop of `WniRead`. -/
def wniLoop : Nat → List UInt8 → ReadResult
  | 0, _ => ⟨[], none⟩
  | entries + 1, bytes =>
    match readWord 8 bytes with
    | .error error => ⟨[], some error⟩
    | .ok (hash, bytes) =>
      match Codec.cstring.read bytes with
      | none => ⟨[], some .readingTooMuch⟩
      | some (str, bytes) =>
        let rest := wniLoop entries bytes
        ⟨(UInt64.ofNat hash, str) :: rest.calls, rest.error⟩

/-- `WniRead` up to its loop: the number of entries and the data. -/
def wniLoad (lz4 : Lz4) (file : List UInt8) : Except ReadError (Nat × List UInt8) := do
  let (magic, file) ← readWord 4 file
  if magic ≠ wniMagic then .error .badFileMagic
  else
    let (version, file) ← readWord 2 file
    if version ≠ wniVersion then .error .unknownVersion
    else
      let (entries, file) ← readWord 4 file
      let (compressedSize, file) ← readWord 4 file
      let (decompressedSize, file) ← readWord 4 file
      let (compBuffer, _) ← readBytes compressedSize file
      let data ← decompressed lz4 compBuffer decompressedSize
      .ok (entries, data)

/-- `WniRead`. -/
def wniRead (lz4 : Lz4) (file : List UInt8) : ReadResult :=
  match wniLoad lz4 file with
  | .error error => ⟨[], some error⟩
  | .ok (entries, data) => wniLoop entries data

/-! ## Purpose -/

/-- A file is written, and reading it calls back the pairs of the map, each once. -/
def ReadsBack (written : Written) (read : List UInt8 → ReadResult)
    (map : List (UInt64 × List UInt8)) : Prop :=
  ∃ bytes calls, written = .file bytes ∧ read bytes = ⟨calls, none⟩ ∧ calls.Perm map

/-- The size of the data before its compression. -/
def rawSize (map : List (UInt64 × List UInt8)) : Nat := (map.map fun p => p.2.length + 9).sum

/-! ## Pairs -/

variable {iter : List UInt64 → List UInt64} {map : List (UInt64 × List UInt8)}

/-- The pairs of a map, the sets as they are. -/
def pairs (dataMap : DataMap) : List (UInt64 × List UInt8) := entries id dataMap

theorem pairs_cons (str : List UInt8) (set : List UInt64) (dataMap : DataMap) :
    pairs ((str, set) :: dataMap) = set.map (fun h => (h, str)) ++ pairs dataMap := rfl

theorem entries_perm (hiter : ∀ set, (iter set).Perm set) (dataMap : DataMap) :
    (entries iter dataMap).Perm (pairs dataMap) := by
  induction dataMap with
  | nil => exact .refl _
  | cons entry dataMap ih =>
    obtain ⟨str, set⟩ := entry
    rw [pairs_cons]
    exact ((hiter set).map _).append ih

theorem insert_perm (str : List UInt8) {h : UInt64} (dataMap : DataMap)
    (hnew : h ∉ (pairs dataMap).map Prod.fst) :
    (pairs (insert str h dataMap)).Perm ((h, str) :: pairs dataMap) := by
  induction dataMap with
  | nil => exact .refl _
  | cons entry dataMap ih =>
    obtain ⟨key, set⟩ := entry
    rw [pairs_cons, List.map_append, List.mem_append, not_or] at hnew
    obtain ⟨hset, hrest⟩ := hnew
    unfold insert
    by_cases hkey : key = str
    · subst hkey
      have hfresh : h ∉ set := by
        intro hmem
        exact hset (List.mem_map.mpr ⟨(h, key), List.mem_map.mpr ⟨h, hmem, rfl⟩, rfl⟩)
      rw [if_pos rfl, if_neg hfresh]
      exact .refl _
    · rw [if_neg hkey]
      split
      · rw [pairs_cons, pairs_cons]
        exact ((ih hrest).append_left _).trans List.perm_middle
      · exact .refl _

theorem foldl_perm {dataMap : DataMap} (hnodup : (map.map Prod.fst).Nodup)
    (hnew : ∀ p ∈ map, p.1 ∉ (pairs dataMap).map Prod.fst) :
    (pairs (map.foldl (fun rev p => insert p.2 p.1 rev) dataMap)).Perm (map ++ pairs dataMap) := by
  induction map generalizing dataMap with
  | nil => exact .refl _
  | cons p map ih =>
    have hinsert := insert_perm p.2 dataMap (hnew p List.mem_cons_self)
    rw [List.map_cons, List.nodup_cons] at hnodup
    have hnew' : ∀ q ∈ map, q.1 ∉ (pairs (insert p.2 p.1 dataMap)).map Prod.fst := by
      intro q hq hmem
      rw [(hinsert.map Prod.fst).mem_iff, List.map_cons, List.mem_cons] at hmem
      rcases hmem with heq | hmem
      · exact hnodup.1 (List.mem_map.mpr ⟨q, hq, heq⟩)
      · exact hnew q (List.mem_cons_of_mem p hq) hmem
    exact (ih hnodup.2 hnew').trans ((hinsert.append_left map).trans List.perm_middle)

/-- **The loops of the writers pass through the pairs of the map.** -/
theorem entries_reverse (hiter : ∀ set, (iter set).Perm set) (hnodup : (map.map Prod.fst).Nodup) :
    (entries iter (reverse map)).Perm map := by
  have hnew : ∀ p ∈ map, p.1 ∉ (pairs []).map Prod.fst := by simp [pairs, entries]
  have hfold := foldl_perm hnodup hnew
  have hnil : map ++ pairs [] = map := List.append_nil map
  rw [hnil] at hfold
  exact (entries_perm hiter _).trans hfold

/-! ## Fields -/

theorem readWord_leBytes {n v : Nat} (h : v < 256 ^ n) (rest : List UInt8) :
    readWord n (leBytes n v ++ rest) = .ok (v, rest) := by
  unfold readWord
  rw [if_neg (by rw [List.length_append, length_leBytes]; omega), readLe_leBytes,
    Nat.mod_eq_of_lt h, List.drop_left' (length_leBytes n v)]

theorem readBytes_append (bytes rest : List UInt8) {n : Nat} (h : bytes.length = n) :
    readBytes n (bytes ++ rest) = .ok (bytes, rest) := by
  unfold readBytes
  rw [if_neg (by rw [List.length_append]; omega), List.take_left' h, List.drop_left' h]

theorem decompressed_eq {lz4 : Lz4} {comp raw : List UInt8}
    (h : lz4.decompress comp raw.length = some raw) :
    decompressed lz4 comp raw.length = .ok raw := by
  unfold decompressed
  rw [h]
  simp

theorem readLe_hash (h : UInt64) (rest : List UInt8) :
    UInt64.ofNat (readLe 8 (hashBytes h ++ rest)) = h := by
  have hlt : h.toNat < 256 ^ 8 := h.toNat_lt
  rw [hashBytes, readLe_leBytes, Nat.mod_eq_of_lt hlt, UInt64.ofNat_toNat]

theorem length_hashBytes (h : UInt64) : (hashBytes h).length = 8 := length_leBytes 8 _

theorem hashes_eq (pairs : List (UInt64 × List UInt8)) (rest : List UInt8) :
    hashes pairs.length (pairs.flatMap (fun p => hashBytes p.1) ++ rest) =
      pairs.map Prod.fst := by
  induction pairs with
  | nil => rfl
  | cons p pairs ih =>
    rw [List.flatMap_cons, List.append_assoc, List.length_cons, hashes, readLe_hash,
      List.drop_left' (length_hashBytes p.1), ih]
    rfl

/-! ## The data -/

variable {ps : List (UInt64 × List UInt8)}

theorem writeString_eq {str : List UInt8} (h : 0 ∉ str) : writeString str = str ++ [0] := by
  rw [writeString, takeWhile_self h]

theorem strings_eq (h : ∀ p ∈ ps, 0 ∉ p.2) :
    ps.flatMap (fun p => writeString p.2) = joinStrings (ps.map Prod.snd) := by
  induction ps with
  | nil => rfl
  | cons p ps ih =>
    rw [List.flatMap_cons, writeString_eq (h p List.mem_cons_self),
      ih fun q hq => h q (List.mem_cons_of_mem p hq)]
    rfl

theorem zip_map (ps : List (UInt64 × List UInt8)) :
    (ps.map Prod.fst).zip (ps.map Prod.snd) = ps := by
  induction ps with
  | nil => rfl
  | cons p ps ih => simp [ih]

theorem length_hashes (ps : List (UInt64 × List UInt8)) :
    (ps.flatMap fun p => hashBytes p.1).length = 8 * ps.length := by
  induction ps with
  | nil => rfl
  | cons p ps ih =>
    rw [List.flatMap_cons, List.length_append, length_hashBytes, ih, List.length_cons]
    omega

/-- The pairs of a CDB file. -/
theorem cdbPairs_eq (h : ∀ p ∈ ps, 0 ∉ p.2) (alloc : Bool) :
    cdbPairs alloc (ps.flatMap (fun p => writeString p.2) ++ ps.flatMap (fun p => hashBytes p.1))
      ps.length = .ok ps := by
  have hstrs : ∀ str ∈ ps.map Prod.snd, 0 ∉ str := by
    intro str hstr
    obtain ⟨p, hp, rfl⟩ := List.mem_map.mp hstr
    exact h p hp
  have hskip := skipStrings_eq hstrs [] (ps.flatMap fun p => hashBytes p.1)
  have hcstr := map_cstr hstrs []
  rw [List.nil_append, List.length_map, List.length_nil, Nat.zero_add] at hskip
  rw [strings_eq h]
  unfold cdbPairs
  rw [hskip]
  dsimp only
  rw [if_neg (by rw [List.length_append, length_hashes]; omega), List.drop_left]
  have hhashes := hashes_eq ps []
  rw [List.append_nil] at hhashes
  rw [hhashes]
  have hstrings : (stringsAt 0 (ps.map Prod.snd)).map (cstr (if alloc = true then
      (joinStrings (ps.map Prod.snd) ++ ps.flatMap fun p => hashBytes p.1).take
        (joinStrings (ps.map Prod.snd)).length
      else joinStrings (ps.map Prod.snd) ++ ps.flatMap fun p => hashBytes p.1)) =
        ps.map Prod.snd := by
    cases alloc with
    | true =>
      rw [if_pos rfl, List.take_left]
      exact (List.append_nil (joinStrings (ps.map Prod.snd))) ▸ hcstr []
    | false => exact hcstr _
  rw [hstrings, zip_map]

/-- The pairs of a WNI file. -/
theorem wniLoop_eq (h : ∀ p ∈ ps, 0 ∉ p.2) :
    wniLoop ps.length (ps.flatMap fun p => hashBytes p.1 ++ writeString p.2) = ⟨ps, none⟩ := by
  induction ps with
  | nil => rfl
  | cons p ps ih =>
    have hp := h p List.mem_cons_self
    have hread := fun rest => Codec.cstring.read_write p.2 hp rest
    have hword : ∀ rest, readWord 8 (hashBytes p.1 ++ rest) = .ok (p.1.toNat, rest) :=
      readWord_leBytes p.1.toNat_lt
    rw [List.length_cons, List.flatMap_cons, writeString_eq hp, List.append_assoc]
    unfold wniLoop
    rw [hword]
    dsimp only
    rw [show p.2 ++ [0] = Codec.cstring.write p.2 from rfl, hread]
    dsimp only
    rw [ih fun q hq => h q (List.mem_cons_of_mem p hq), UInt64.ofNat_toNat]

/-! ## Sizes -/

theorem rawSize_cons (p : UInt64 × List UInt8) : rawSize (p :: ps) = p.2.length + 9 + rawSize ps := by
  simp [rawSize]

theorem length_wni (h : ∀ p ∈ ps, 0 ∉ p.2) :
    (ps.flatMap fun p => hashBytes p.1 ++ writeString p.2).length = rawSize ps := by
  induction ps with
  | nil => rfl
  | cons p ps ih =>
    rw [List.flatMap_cons, writeString_eq (h p List.mem_cons_self), rawSize_cons, List.length_append,
      ih fun q hq => h q (List.mem_cons_of_mem p hq), List.length_append, length_hashBytes,
      List.length_append, List.length_singleton]
    omega

theorem length_cdb (h : ∀ p ∈ ps, 0 ∉ p.2) :
    (ps.flatMap (fun p => writeString p.2) ++ ps.flatMap fun p => hashBytes p.1).length =
      rawSize ps := by
  rw [← length_wni h, List.length_append]
  induction ps with
  | nil => rfl
  | cons p ps ih =>
    have hrest := ih fun q hq => h q (List.mem_cons_of_mem p hq)
    simp only [List.flatMap_cons, List.length_append] at hrest ⊢
    omega

theorem length_le_rawSize (ps : List (UInt64 × List UInt8)) : 9 * ps.length ≤ rawSize ps := by
  induction ps with
  | nil => exact Nat.le_refl 0
  | cons p ps ih =>
    rw [rawSize_cons, List.length_cons]
    omega

theorem rawSize_perm {qs : List (UInt64 × List UInt8)} (h : ps.Perm qs) :
    rawSize ps = rawSize qs := by
  unfold rawSize
  induction h with
  | nil => rfl
  | cons p _ ih => simp [ih]
  | swap p q ps =>
    simp
    omega
  | trans _ _ ih ih' => exact ih.trans ih'

/-! ## Files -/

variable {lz4 : Lz4}

/-- Data of no more than the accepted size is written, if the share can be logged. -/
theorem writeFile_eq (hlz4 : lz4.RoundTrips) (info : Bool) {raw : List UInt8}
    (hraw : raw.length < maxLz4Size) (header : Nat → List UInt8) :
    ∃ comp behind, comp.length < 256 ^ 4 ∧ lz4.decompress comp raw.length = some raw ∧
      writeFile lz4 info raw header = if info ∧ raw.length = 0 then .divisionByZero
        else .file (header comp.length ++ (comp ++ [behind])) := by
  obtain ⟨comp, hcomp, hbound, hdecompress⟩ := hlz4 raw hraw
  refine ⟨comp.bytes, comp.behind, ?_, hdecompress, ?_⟩
  · unfold maxLz4Size at hraw
    omega
  · unfold writeFile
    rw [if_neg (Nat.not_le.mpr hraw), hcomp]

theorem cdbLoad_eq (alloc : Bool) {comp raw : List UInt8} {n : Nat} (hcomp : comp.length < 256 ^ 4)
    (hraw : raw.length < 256 ^ 4) (hn : n < 256 ^ 4)
    (hdecompress : lz4.decompress comp raw.length = some raw) (tail : List UInt8) :
    cdbLoad lz4 alloc (leBytes 4 cdbMagic ++ leBytes 4 n ++ leBytes 4 comp.length ++
      leBytes 4 raw.length ++ (comp ++ tail)) =
        if n = 0 then .ok [] else cdbPairs alloc raw n := by
  have hheader : (leBytes 4 cdbMagic ++ leBytes 4 n ++ leBytes 4 comp.length ++
      leBytes 4 raw.length).length = 16 := by simp [length_leBytes]
  have hmagic : readLe 4 (leBytes 4 cdbMagic ++ leBytes 4 n ++ leBytes 4 comp.length ++
      leBytes 4 raw.length) = cdbMagic := by
    rw [List.append_assoc, List.append_assoc, readLe_leBytes, Nat.mod_eq_of_lt (by decide)]
  have hentries : readLe 4 ((leBytes 4 cdbMagic ++ leBytes 4 n ++ leBytes 4 comp.length ++
      leBytes 4 raw.length).drop 4) = n := by
    rw [List.append_assoc, List.append_assoc, List.drop_left' (length_leBytes 4 _), readLe_leBytes,
      Nat.mod_eq_of_lt hn]
  have hcompressed : readLe 4 ((leBytes 4 cdbMagic ++ leBytes 4 n ++ leBytes 4 comp.length ++
      leBytes 4 raw.length).drop 8) = comp.length := by
    rw [List.append_assoc, List.drop_left' (by simp [length_leBytes]), readLe_leBytes,
      Nat.mod_eq_of_lt hcomp]
  have hsize : readLe 4 ((leBytes 4 cdbMagic ++ leBytes 4 n ++ leBytes 4 comp.length ++
      leBytes 4 raw.length).drop 12) = raw.length := by
    rw [List.drop_left' (by simp [length_leBytes]), ← List.append_nil (leBytes 4 raw.length),
      readLe_leBytes, Nat.mod_eq_of_lt hraw]
  unfold cdbLoad
  rw [readBytes_append _ _ hheader]
  simp only [bind, Except.bind]
  rw [hmagic, hentries, hcompressed, hsize, if_neg (not_not_intro rfl), readBytes_append _ _ rfl]
  dsimp only
  rw [decompressed_eq hdecompress]

theorem wniLoad_eq {comp raw : List UInt8} {n : Nat} (hcomp : comp.length < 256 ^ 4)
    (hraw : raw.length < 256 ^ 4) (hn : n < 256 ^ 4)
    (hdecompress : lz4.decompress comp raw.length = some raw) (tail : List UInt8) :
    wniLoad lz4 (leBytes 4 wniMagic ++ leBytes 2 wniVersion ++ leBytes 4 n ++
      leBytes 4 comp.length ++ leBytes 4 raw.length ++ (comp ++ tail)) = .ok (n, raw) := by
  simp only [List.append_assoc]
  unfold wniLoad
  rw [readWord_leBytes (by decide)]
  simp only [bind, Except.bind]
  rw [if_neg (not_not_intro rfl), readWord_leBytes (by decide)]
  dsimp only
  rw [if_neg (not_not_intro rfl), readWord_leBytes hn]
  dsimp only
  rw [readWord_leBytes hcomp]
  dsimp only
  rw [readWord_leBytes hraw]
  dsimp only
  rw [readBytes_append _ _ rfl]
  dsimp only
  rw [decompressed_eq hdecompress]

/-! ## Round trips -/

/-- The pairs that are written. -/
theorem written_pairs (hiter : ∀ set, (iter set).Perm set) (hnodup : (map.map Prod.fst).Nodup)
    (hnul : ∀ p ∈ map, 0 ∉ p.2) : ∃ ps, entries iter (reverse map) = ps ∧ ps.Perm map ∧
    (∀ p ∈ ps, 0 ∉ p.2) ∧ rawSize ps = rawSize map :=
  ⟨_, rfl, entries_reverse hiter hnodup,
    fun p hp => hnul p ((entries_reverse hiter hnodup).mem_iff.mp hp),
    rawSize_perm (entries_reverse hiter hnodup)⟩

/-- Only a map without pairs has no data. -/
theorem rawSize_eq_zero : rawSize map = 0 ↔ map = [] := by
  constructor
  · intro h
    have hle := length_le_rawSize map
    exact List.eq_nil_of_length_eq_zero (by omega)
  · rintro rfl
    rfl

/-- A file of one of the two formats: it is refused if it is too big, else it is read back unless the
share of nothing is logged. -/
theorem writeFile_iff (hlz4 : lz4.RoundTrips) (info : Bool) {ps : List (UInt64 × List UInt8)}
    (hperm : ps.Perm map) {raw : List UInt8} (hsize : raw.length = rawSize map)
    {header : Nat → List UInt8} {read : List UInt8 → ReadResult}
    (hread : ∀ comp behind, comp.length < 256 ^ 4 →
      lz4.decompress comp raw.length = some raw → raw.length < maxLz4Size →
        read (header comp.length ++ (comp ++ [behind])) = ⟨ps, none⟩) :
    (rawSize map < maxLz4Size →
      (ReadsBack (writeFile lz4 info raw header) read map ↔ map ≠ [] ∨ info = false)) ∧
    (maxLz4Size ≤ rawSize map → writeFile lz4 info raw header = .tooBig) := by
  constructor
  · intro hlt
    rw [← hsize] at hlt
    obtain ⟨comp, behind, hcomp, hdecompress, hwrite⟩ := writeFile_eq hlz4 info hlt header
    have hzero : raw.length = 0 ↔ map = [] := by rw [hsize, rawSize_eq_zero]
    rw [hwrite]
    constructor
    · rintro ⟨bytes, calls, hfile, -⟩
      by_contra hnot
      rw [not_or, not_not, Bool.not_eq_false] at hnot
      rw [if_pos ⟨hnot.2, hzero.mpr hnot.1⟩] at hfile
      cases hfile
    · intro hcond
      have hlogged : ¬ (info = true ∧ raw.length = 0) := by
        rintro ⟨rfl, hnil⟩
        rcases hcond with h | h
        · exact h (hzero.mp hnil)
        · cases h
      rw [if_neg hlogged]
      exact ⟨_, ps, rfl, hread comp behind hcomp hdecompress hlt, hperm⟩
  · intro hge
    unfold writeFile
    rw [if_pos (hsize ▸ hge)]

/-- **Which maps are read back.**  A map of less than `MAX_LZ4_SIZE` bytes of data is written to a
file that calls back its pairs, each once, exactly if it is not empty or the share is not logged; a
larger one is refused. -/
theorem name_files_iff (hlz4 : lz4.RoundTrips) (hiter : ∀ set, (iter set).Perm set)
    (hnodup : (map.map Prod.fst).Nodup) (hnul : ∀ p ∈ map, 0 ∉ p.2) (info alloc : Bool) :
    ((rawSize map < maxLz4Size →
      (ReadsBack (compressCDBFile lz4 info iter map) (cdbRead lz4 alloc) map ↔
        map ≠ [] ∨ info = false)) ∧
      (maxLz4Size ≤ rawSize map → compressCDBFile lz4 info iter map = .tooBig)) ∧
    ((rawSize map < maxLz4Size →
      (ReadsBack (compressWNIFile lz4 info iter map) (wniRead lz4) map ↔
        map ≠ [] ∨ info = false)) ∧
      (maxLz4Size ≤ rawSize map → compressWNIFile lz4 info iter map = .tooBig)) := by
  obtain ⟨ps, hps, hperm, hstrings, hsize⟩ := written_pairs hiter hnodup hnul
  have hcount : ∀ {raw : List UInt8}, raw.length = rawSize ps → raw.length < maxLz4Size →
      raw.length < 256 ^ 4 ∧ ps.length < 256 ^ 4 := by
    intro raw hraw hlt
    have hle := length_le_rawSize ps
    unfold maxLz4Size at hlt
    omega
  constructor
  · unfold compressCDBFile compressCDBData
    rw [hps]
    refine writeFile_iff hlz4 info hperm ((length_cdb hstrings).trans hsize) ?_
    intro comp behind hcomp hdecompress hlt
    obtain ⟨hraw, hn⟩ := hcount (length_cdb hstrings) hlt
    unfold cdbRead
    rw [cdbLoad_eq alloc hcomp hraw hn hdecompress, cdbPairs_eq hstrings]
    cases ps with
    | nil => rfl
    | cons p ps => rfl
  · unfold compressWNIFile compressWNIData
    rw [hps]
    refine writeFile_iff hlz4 info hperm ((length_wni hstrings).trans hsize) ?_
    intro comp behind hcomp hdecompress hlt
    obtain ⟨hraw, hn⟩ := hcount (length_wni hstrings) hlt
    unfold wniRead
    rw [wniLoad_eq hcomp hraw hn hdecompress]
    exact wniLoop_eq hstrings

/-! ## One entry, and none -/

/-- The token of an LZ4 block that is one run of literals, and the rest of their number. -/
def literalRun (n : Nat) : List UInt8 :=
  if n < 15 then [UInt8.ofNat (16 * n)]
  else 0xF0 :: (List.replicate ((n - 15) / 255) 255 ++ [UInt8.ofNat ((n - 15) % 255)])

/-- The number of literals, and the bytes from them on. -/
def readRun : List UInt8 → Option (Nat × List UInt8)
  | [] => none
  | token :: bytes =>
    if token.toNat / 16 < 15 then some (token.toNat / 16, bytes)
    else
      let full := (bytes.takeWhile (· == 255)).length
      match bytes.drop full with
      | [] => none
      | last :: bytes => some (15 + 255 * full + last.toNat, bytes)

/-- LZ4 as it is on inputs of less than 13 bytes: one run of literals. -/
def literals : Lz4 where
  compress raw := some ⟨literalRun raw.length ++ raw, 0⟩
  decompress comp size := do
    let (n, bytes) ← readRun comp
    if bytes.length = n ∧ n ≤ size then some bytes else none

theorem readRun_literalRun (n : Nat) (raw : List UInt8) :
    readRun (literalRun n ++ raw) = some (n, raw) := by
  unfold literalRun
  by_cases hn : n < 15
  · have htoken : (UInt8.ofNat (16 * n)).toNat = 16 * n :=
      UInt8.toNat_ofNat_of_lt (Nat.lt_of_lt_of_le (Nat.mul_lt_mul_of_pos_left hn (by decide)) (by decide))
    rw [if_pos hn]
    simp only [List.cons_append, List.nil_append, readRun]
    rw [htoken, if_pos (by omega), Nat.mul_div_cancel_left n (by decide)]
  · have hmod : (n - 15) % 255 < 255 := Nat.mod_lt _ (by decide)
    have hlast : (UInt8.ofNat ((n - 15) % 255)).toNat = (n - 15) % 255 :=
      UInt8.toNat_ofNat_of_lt (Nat.lt_of_lt_of_le hmod (by decide))
    have hne : (UInt8.ofNat ((n - 15) % 255) == 255) = false := by
      rw [beq_eq_false_iff_ne]
      intro heq
      rw [heq] at hlast
      have h255 : (255 : UInt8).toNat = 255 := by decide
      omega
    have htake : (List.replicate ((n - 15) / 255) 255 ++
        (UInt8.ofNat ((n - 15) % 255) :: raw)).takeWhile (· == (255 : UInt8)) =
          List.replicate ((n - 15) / 255) 255 := by
      rw [List.takeWhile_append_of_pos (by simp), List.takeWhile_cons_of_neg (by simp [hne]),
        List.append_nil]
    rw [if_neg hn]
    simp only [List.cons_append, List.append_assoc, List.nil_append, readRun]
    rw [if_neg (by decide), htake, List.drop_left]
    dsimp only
    rw [hlast, List.length_replicate]
    congr 2
    omega

theorem literals_roundTrips : literals.RoundTrips := by
  intro raw _
  refine ⟨⟨literalRun raw.length ++ raw, 0⟩, rfl, ?_, ?_⟩
  · show (literalRun raw.length ++ raw).length ≤ _
    unfold literalRun
    split
    · simp
      omega
    · simp
      omega
  · show (readRun (literalRun raw.length ++ raw) >>= fun _ => _) = _
    rw [readRun_literalRun]
    simp

/-- An entry of ten bytes. -/
theorem one_name_read :
    ReadsBack (compressCDBFile literals true id [(1, [97])]) (cdbRead literals true) [(1, [97])] ∧
      ReadsBack (compressWNIFile literals true id [(1, [97])]) (wniRead literals) [(1, [97])] := by
  have hnodup : ([((1 : UInt64), [(97 : UInt8)])].map Prod.fst).Nodup := by decide
  have hnul : ∀ p ∈ [((1 : UInt64), [(97 : UInt8)])], 0 ∉ p.2 := by decide
  obtain ⟨⟨hcdb, -⟩, hwni, -⟩ :=
    name_files_iff literals_roundTrips (fun _ => .refl _) hnodup hnul true true
  exact ⟨(hcdb (by decide)).mpr (.inl (by simp)), (hwni (by decide)).mpr (.inl (by simp))⟩

/-- An empty map is not written where its share is logged. -/
theorem empty_not_written :
    compressCDBFile literals true id [] = .divisionByZero ∧
      compressWNIFile literals true id [] = .divisionByZero ∧
      ¬ ReadsBack (compressCDBFile literals true id []) (cdbRead literals true) [] ∧
      ¬ ReadsBack (compressWNIFile literals true id []) (wniRead literals) [] := by
  refine ⟨rfl, rfl, ?_, ?_⟩
  · rintro ⟨bytes, calls, hfile, -⟩
    cases hfile
  · rintro ⟨bytes, calls, hfile, -⟩
    cases hfile

end Acts.NameFiles
