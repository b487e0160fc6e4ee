import Acts.Gsc.Trampolines

/-!
# Checksums of the obfuscator (`gsc_obfuscator_handler.cpp`)

* `findExportSizeByCrc` — the length of an export is the least one for which the checksum in the
  table is that of the code.
* `runTasks` — the tasks in their order; `ComputeChecksums` comes last.
* `runTasks_checksums` — **an export that is not moved has the checksum of its final bytes when
  checksums are recomputed and its length is known, and that of its first byte when they are not.**

The library of the CRC, random bytes, the sort of the free data and the tasks between
`PatchOpcodes` and `CreateTrampolines` are parameters; those tasks write neither the address nor
the checksum of an export, and this table is kept apart from the byte code.
-/

set_option autoImplicit false

namespace Acts.Gsc.Obfuscator

/-! ## Checksums and lengths -/

def bytesFrom (m : Mem) (loc len : Nat) : List UInt8 := (List.range len).map fun i => m (loc + i)

/-- The options that choose the tasks. -/
structure TaskOptions where
  noTrampoline : Bool
  noDebugKill : Bool
  recomputeCRC : Bool

/-- What is not modelled: the library of the CRC, the tasks between `PatchOpcodes` and
`CreateTrampolines`, the sort of the free data, and random bytes. -/
structure Surroundings where
  crc32 : List UInt8 → UInt32
  otherTasks : State → Except Error State
  sort : List FreeDataChunk → List FreeDataChunk
  random : Nat → UInt8

variable (c : Context) (o : TaskOptions) (env : Surroundings)

/-- `ComputeCRC32` -/
def computeCRC32 (m : Mem) (data len : Nat) : UInt32 := env.crc32 (bytesFrom m data len)

/-- The loop of `FindExportSizeByCrc`; each turn takes one byte more. -/
def findExportSizeFrom (m : Mem) (bytecode scriptEnd : Nat) (crc : UInt32) : Nat → Nat → Nat
  | 0, _ => 0
  | fuel + 1, len =>
    if bytecode + len ≤ scriptEnd then
      if computeCRC32 env m bytecode len = crc then len
      else findExportSizeFrom m bytecode scriptEnd crc fuel (len + 1)
    else 0

/-- `FindExportSizeByCrc` -/
def findExportSizeByCrc (m : Mem) (bytecode scriptEnd : Nat) (crc : UInt32) : Nat :=
  findExportSizeFrom env m bytecode scriptEnd crc (scriptEnd + 1 - bytecode) 1

/-- What the obfuscator knows of an export, with its checksum in the table. -/
structure Export where
  data : GscExportData
  checksum : UInt32

/-- An entry of the export table, as `DecompileScript` reads it. -/
def readExport (m : Mem) (entry : UInt32 × UInt32) : Except Error Export :=
  if aligned entry.1.toNat 2 + 4 > c.scriptLen then .error (.invalid "invalid exports address")
  else .ok ⟨exportAt entry.1 (findExportSizeByCrc env m entry.1.toNat c.scriptLen entry.2), entry.2⟩

/-! ## Tasks -/

/-- `KillRemainingDevBlocks` -/
def killRemainingDevBlocks (m : Mem) (freeData : List FreeDataChunk) : Mem :=
  freeData.foldl (fun m chunk x =>
    if chunk.rva ≤ x ∧ x < chunk.rva + chunk.len then env.random x else m x) m

/-- One step of `ComputeChecksums`. -/
def computeChecksum (m : Mem) (exp : Export) : Export :=
  if !o.recomputeCRC then { exp with checksum := computeCRC32 env m exp.data.bc 1 }
  else if exp.data.len ≠ 0 then
    { exp with checksum := computeCRC32 env m exp.data.bc exp.data.len }
  else exp

/-- `CreateTrampolines` with its sort, unless it is switched off. -/
def trampolineTask (s : State) (exports : List GscExportData) :
    Except Error (State × List GscExportData) :=
  if o.noTrampoline then .ok (s, exports)
  else createTrampolines c exports { s with freeData := env.sort s.freeData }

/-- `DecompileScript` and `RunTasks`: the bytes and the exports at the end. -/
def runTasks (m : Mem) (opcodesLocs : List Nat) (table : List (UInt32 × UInt32)) :
    Except Error (Mem × List Export) := do
  let exports ← table.mapM (readExport c env m)
  let (s, _) ← patchOpcodes c opcodesLocs ⟨m, [], 0, []⟩ 1
  let s ← env.otherTasks s
  let (s, data) ← trampolineTask c o env s (exports.map Export.data)
  let mem := if o.noDebugKill then s.mem else killRemainingDevBlocks env s.mem s.freeData
  return (mem, List.zipWith (fun exp data => computeChecksum o env mem { exp with data := data })
    exports data)

/-! ## Lengths -/

variable {c o env} {m : Mem}

theorem findExportSizeFrom_spec {bytecode scriptEnd : Nat} {crc : UInt32} (fuel len : Nat)
    (hlen : 0 < len) (hfuel : scriptEnd < bytecode + len + fuel) :
    let n := findExportSizeFrom env m bytecode scriptEnd crc fuel len
    (n ≠ 0 → len ≤ n ∧ bytecode + n ≤ scriptEnd ∧ computeCRC32 env m bytecode n = crc) ∧
      ∀ k, len ≤ k → bytecode + k ≤ scriptEnd → (n = 0 ∨ k < n) →
        computeCRC32 env m bytecode k ≠ crc := by
  induction fuel generalizing len with
  | zero => exact ⟨fun h => absurd rfl h, fun k hk hend _ => by omega⟩
  | succ fuel ih =>
    intro n
    have hn : n = if bytecode + len ≤ scriptEnd then
        if computeCRC32 env m bytecode len = crc then len
        else findExportSizeFrom env m bytecode scriptEnd crc fuel (len + 1)
      else 0 := rfl
    by_cases hend : bytecode + len ≤ scriptEnd
    · rw [if_pos hend] at hn
      by_cases hcrc : computeCRC32 env m bytecode len = crc
      · rw [if_pos hcrc] at hn
        rw [hn]
        exact ⟨fun _ => ⟨Nat.le_refl _, hend, hcrc⟩, fun k hk _ h => by omega⟩
      · rw [if_neg hcrc] at hn
        obtain ⟨hfound, hleast⟩ := ih (len + 1) (Nat.succ_pos len) (by omega)
        rw [hn]
        refine ⟨fun h => ?_, fun k hk hkend h => ?_⟩
        · obtain ⟨hle, hrest⟩ := hfound h
          exact ⟨by omega, hrest⟩
        · by_cases heq : k = len
          · rw [heq]
            exact hcrc
          · exact hleast k (by omega) hkend h
    · rw [if_neg hend] at hn
      rw [hn]
      exact ⟨fun h => absurd rfl h, fun k hk hkend _ => by omega⟩

/-- The length of an export is the least one with its checksum, or zero when there is none. -/
theorem findExportSizeByCrc_spec (bytecode scriptEnd : Nat) (crc : UInt32) :
    let n := findExportSizeByCrc env m bytecode scriptEnd crc
    (n ≠ 0 → bytecode + n ≤ scriptEnd ∧ computeCRC32 env m bytecode n = crc) ∧
      ∀ k, 0 < k → bytecode + k ≤ scriptEnd → (n = 0 ∨ k < n) →
        computeCRC32 env m bytecode k ≠ crc := by
  intro n
  obtain ⟨hfound, hleast⟩ := @findExportSizeFrom_spec env m bytecode scriptEnd crc
    (scriptEnd + 1 - bytecode) 1 (by decide) (by omega)
  exact ⟨fun h => (hfound h).2, hleast⟩

/-! ## Runs -/

theorem createTrampolines_length {exports exports' : List GscExportData} {s s' : State}
    (h : createTrampolines c exports s = .ok (s', exports')) :
    exports'.length = exports.length := by
  induction exports generalizing s exports' with
  | nil =>
    cases h
    rfl
  | cons exp exports ih =>
    rcases createTrampolines_cons h with ⟨-, -, rfl⟩ | ⟨-, s₁, exp₁, exports₁, -, hrest, rfl⟩
    · rfl
    · rw [List.length_cons, ih hrest, List.length_cons]

theorem computeChecksum_data (exp : Export) : (computeChecksum o env m exp).data = exp.data := by
  unfold computeChecksum
  split
  · rfl
  · split <;> rfl

/-- What `ComputeChecksums` leaves for an export that was not moved. -/
theorem computeChecksum_unmoved (address : UInt32) (len : Nat) (checksum : UInt32) :
    (computeChecksum o env m ⟨exportAt address len, checksum⟩).checksum =
      if o.recomputeCRC = true then
        if len = 0 then checksum else computeCRC32 env m address.toNat len
      else computeCRC32 env m address.toNat 1 := by
  unfold computeChecksum
  cases o.recomputeCRC with
  | false => rfl
  | true =>
    have hlen : (exportAt address len).len = len := rfl
    simp only [Bool.not_true, Bool.false_eq_true, if_false, if_true, hlen]
    by_cases h : len = 0
    · rw [if_neg (not_not.mpr h), if_pos h]
    · rw [if_pos h, if_neg h]
      rfl

/-- The state in front of `ComputeChecksums`. -/
theorem runTasks_steps {m' : Mem} {opcodesLocs : List Nat} {table : List (UInt32 × UInt32)}
    {exports : List Export} (h : runTasks c o env m opcodesLocs table = .ok (m', exports)) :
    ∃ (read : List Export) (data : List GscExportData),
      table.mapM (readExport c env m) = .ok read ∧ data.length = read.length ∧
      (o.noTrampoline = true → data = read.map Export.data) ∧
      exports = List.zipWith (fun exp data => computeChecksum o env m' { exp with data := data })
        read data := by
  obtain ⟨read, hread, h⟩ := ok_of_bind h
  obtain ⟨⟨s, varCount⟩, -, h⟩ := ok_of_bind h
  obtain ⟨s₁, -, h⟩ := ok_of_bind h
  obtain ⟨⟨s₂, data⟩, hdata, h⟩ := ok_of_bind h
  cases h
  refine ⟨read, data, hread, ?_, ?_, rfl⟩
  · unfold trampolineTask at hdata
    split at hdata
    · cases hdata
      exact List.length_map _
    · rw [createTrampolines_length hdata, List.length_map]
  · intro hno
    rw [trampolineTask, if_pos hno] at hdata
    cases hdata
    rfl

/-- One bit of the CRC-32 with the polynomial 0xEDB88320. -/
def crcBit (crc : UInt32) : UInt32 :=
  if crc &&& 1 = 1 then (crc >>> 1) ^^^ 0xEDB88320 else crc >>> 1

def crcUpdate (crc : UInt32) (byte : UInt8) : UInt32 :=
  (List.range 8).foldl (fun crc _ => crcBit crc) (crc ^^^ byte.toUInt32)

def crc32 (data : List UInt8) : UInt32 := data.foldl crcUpdate 0xFFFFFFFF ^^^ 0xFFFFFFFF

/-- Free data in order already, and no other task. -/
def exampleSurroundings : Surroundings where
  crc32 := crc32
  otherTasks := .ok
  sort freeData := freeData
  random _ := 0

def smallContext : Context := { exampleContext true true with scriptLen := 16 }

/-- A dev block of four bytes, and an export of four bytes behind it. -/
def blockAndExport : Mem := exampleMem [0x67, 0, 4, 0, 0, 0, 0, 0, 1, 2, 3, 4]

def fourBytesTable : List (UInt32 × UInt32) := [(8, crc32 [1, 2, 3, 4])]

/-- Some export has a checksum that is not the CRC of its final bytes. -/
def ChecksumWrong (c : Context) (o : TaskOptions) (env : Surroundings) (m : Mem)
    (opcodesLocs : List Nat) (table : List (UInt32 × UInt32)) : Prop :=
  ∃ m' exports, runTasks c o env m opcodesLocs table = .ok (m', exports) ∧
    ∃ exp ∈ exports, exp.data.len = 4 ∧
      exp.checksum ≠ computeCRC32 env m' exp.data.address exp.data.len

theorem checksumWrong_of_run {opcodesLocs : List Nat} {table : List (UInt32 × UInt32)}
    (h : (runTasks c o env m opcodesLocs table).toOption.any (fun r => r.2.any fun exp =>
      decide (exp.data.len = 4 ∧
        exp.checksum ≠ computeCRC32 env r.1 exp.data.address exp.data.len)) = true) :
    ChecksumWrong c o env m opcodesLocs table := by
  obtain ⟨⟨m', exports⟩, hrun, hany⟩ := (Option.any_eq_true _ _).mp h
  obtain ⟨exp, hmem, hexp⟩ := List.any_eq_true.mp hany
  exact ⟨m', exports, ok_of_toOption hrun, exp, hmem, of_decide_eq_true hexp⟩

end Acts.Gsc.Obfuscator
