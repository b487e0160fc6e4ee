import Acts.Gsc.Obfuscator
import Acts.Lib.Checked
import Acts.Lib.Records

/-!
# Rewriting the imports of a script (`gsc_obfuscator_handler.cpp`)

* `decompileImports` — the walk over the import table when a script is opened.
* `rewriteImports` — `RewriteImports`: the dev calls are removed from the table, in place.
* `Rewritten` — what is expected of the table behind it.
* `rewriteImports_rewritten` — **the table holds the other imports if it lies apart from the fields
  of the header that say where it is.**

Positions are counted from the start of the script.  What the code leaves open is a parameter: the
random bytes, and the padding of an entry of 64 bits.
-/

set_option autoImplicit false

namespace Acts.Gsc.Obfuscator

/-! ## Entries -/

/-- `IW23GSCImport`. -/
structure IW23GSCImport where
  name : Nat
  nameSpace : Nat
  numAddress : Nat
  paramCount : Nat
  flags : Nat
  deriving DecidableEq

/-- `GSCImportReader`, for a `T8GSCImport` and for an `IW23GSCImport`. -/
inductive GSCImportReader where
  | h32
  | h64

namespace GSCImportReader

/-- The bytes of a hash. -/
def hashSize : GSCImportReader → Nat
  | h32 => 4
  | h64 => 8

def sizeOf : GSCImportReader → Nat
  | h32 => 12
  | h64 => 24

variable (reader : GSCImportReader) (m : Mem)

def getName (imp : Nat) : Nat := m.readLE imp reader.hashSize

def getNamespace (imp : Nat) : Nat := m.readLE (imp + reader.hashSize) reader.hashSize

def getNumAddresses (imp : Nat) : Nat := m.readLE (imp + 2 * reader.hashSize) 2

def getParamCount (imp : Nat) : Nat := m.readLE (imp + 2 * reader.hashSize + 2) 1

def getFlags (imp : Nat) : Nat := m.readLE (imp + 2 * reader.hashSize + 3) 1

/-- Where the addresses are. -/
def getAddresses (imp : Nat) : Nat := imp + reader.sizeOf

def readGeneric (imp : Nat) : IW23GSCImport where
  name := reader.getName m imp
  nameSpace := reader.getNamespace m imp
  numAddress := reader.getNumAddresses m imp
  paramCount := reader.getParamCount m imp
  flags := reader.getFlags m imp

/-- `WriteImport`: field by field with hashes of 32 bits, else as a whole, with its padding. -/
def writeImport (padding : Nat → Nat) (m : Mem) (data : Nat) (item : IW23GSCImport) :
    GSCImportReader → Mem
  | h32 =>
    let m := m.writeLE data item.name 4
    let m := m.writeLE (data + 4) item.nameSpace 4
    let m := m.writeLE (data + 11) item.flags 1
    let m := m.writeLE (data + 8) item.numAddress 2
    m.writeLE (data + 10) item.paramCount 1
  | h64 =>
    let m := m.writeLE data item.name 8
    let m := m.writeLE (data + 8) item.nameSpace 8
    let m := m.writeLE (data + 16) item.numAddress 2
    let m := m.writeLE (data + 18) item.paramCount 1
    let m := m.writeLE (data + 19) item.flags 1
    m.writeLE (data + 20) (padding data) 4

end GSCImportReader

/-- An entry with its addresses. -/
structure ImportEntry where
  item : IW23GSCImport
  addresses : List Nat
  deriving DecidableEq

def GSCImportReader.readEntry (reader : GSCImportReader) (m : Mem) (imp : Nat) : ImportEntry where
  item := reader.readGeneric m imp
  addresses := (List.range (reader.getNumAddresses m imp)).map fun i =>
    m.readLE (reader.getAddresses imp + 4 * i) 4

/-! ## Scripts -/

/-- `T8GSCImportFlags::DEV_CALL`. -/
def DEV_CALL : Nat := 0x10

/-- What the code asks the handler of a script for: the layout of the table, where the header keeps
its offset and its count, and the meaning of the flags. -/
structure ImportHandler where
  reader : GSCImportReader
  importsOffset : Nat
  importsCount : Nat
  fields_apart : importsCount + 2 ≤ importsOffset ∨ importsOffset + 4 ≤ importsCount
  remapFlagsImport : Nat → Nat

/-- `GscImportData`. -/
structure GscImportData where
  ref : Nat
  flags : Nat
  deriving DecidableEq

def GscImportData.isDevCall (imp : GscImportData) : Bool := imp.flags &&& DEV_CALL != 0

namespace ImportHandler

variable (h : ImportHandler) (m : Mem)

def getImportsCount : Nat := m.readLE h.importsCount 2

def getImportsOffset : Nat := m.readLE h.importsOffset 4

/-- The loop over the imports in `DecompileScript`. -/
def decompileLoop (scriptLen : Nat) : Nat → Nat → Except Error (List GscImportData)
  | 0, _ => .ok []
  | n + 1, imports =>
    if scriptLen < imports + h.reader.sizeOf then .error (.invalid "imports table")
    else
      let next := imports + (h.reader.sizeOf + 4 * h.reader.getNumAddresses m imports)
      let flags := h.remapFlagsImport (h.reader.getFlags m imports)
      if scriptLen < h.reader.getAddresses imports + 4 * h.reader.getNumAddresses m imports then
        .error (.invalid "imports table addresses")
      else do
        let rest ← decompileLoop scriptLen n next
        return ⟨imports, flags⟩ :: rest

def decompileImports (scriptLen : Nat) : Except Error (List GscImportData) :=
  h.decompileLoop m scriptLen (h.getImportsCount m) (h.getImportsOffset m)

/-- The variables of `RewriteImports`, with the script. -/
structure Rewrite where
  mem : Mem
  writer : Nat
  ignored : Nat
  count : Nat

def rewriteImport (padding : Nat → Nat) (s : Rewrite) (imp : GscImportData) : Rewrite :=
  if imp.isDevCall then
    { s with ignored := s.ignored + (h.reader.getNumAddresses s.mem imp.ref * 4 + h.reader.sizeOf) }
  else
    let generic := h.reader.readGeneric s.mem imp.ref
    let addrs := h.reader.getAddresses imp.ref
    let addrsSize := 4 * h.reader.getNumAddresses s.mem imp.ref
    let mem := GSCImportReader.writeImport padding s.mem s.writer generic h.reader
    let writer := s.writer + h.reader.sizeOf
    { s with
      mem := mem.memmove writer addrs addrsSize
      writer := writer + addrsSize
      count := (s.count + 1) % 2 ^ 16 }

def rewriteLoop (padding : Nat → Nat) (imports : List GscImportData) : Rewrite :=
  imports.foldl (h.rewriteImport padding) ⟨m, h.getImportsOffset m, 0, 0⟩

def rewriteImports (padding : Nat → Nat) (rand : Nat → UInt8) (imports : List GscImportData) :
    Mem :=
  let s := h.rewriteLoop m padding imports
  let m := if s.ignored ≠ 0 then s.mem.fill rand s.writer s.ignored else s.mem
  m.writeLE h.importsCount s.count 2

end ImportHandler

/-! ## Reading entries -/

namespace GSCImportReader

variable {reader : GSCImportReader} {m m' : Mem} {padding : Nat → Nat} {data imp x : Nat}

theorem fields_le_sizeOf (reader : GSCImportReader) :
    2 * reader.hashSize + 4 ≤ reader.sizeOf := by
  cases reader <;> decide

theorem readGeneric_congr (h : ∀ x, imp ≤ x → x < imp + reader.sizeOf → m' x = m x) :
    reader.readGeneric m' imp = reader.readGeneric m imp := by
  have hle := reader.fields_le_sizeOf
  have hfield : ∀ a n, imp ≤ a → a + n ≤ imp + reader.sizeOf → m'.readLE a n = m.readLE a n :=
    fun a n ha hn => Mem.readLE_congr m (fun x hx hx' => h x (by omega) (by omega))
  unfold readGeneric getName getNamespace getNumAddresses getParamCount getFlags
  rw [hfield _ _ (by omega) (by omega), hfield _ _ (by omega) (by omega),
    hfield _ _ (by omega) (by omega), hfield _ _ (by omega) (by omega),
    hfield _ _ (by omega) (by omega)]

/-- Entries, with their addresses, are determined by their bytes. -/
def format (reader : GSCImportReader) : Format ImportEntry where
  read := reader.readEntry
  len entry := reader.sizeOf + 4 * entry.item.numAddress
  read_congr := by
    intro m m' p h
    have hitem : reader.readGeneric m' p = reader.readGeneric m p :=
      readGeneric_congr (fun x hx hx' => h x hx (by omega))
    have hnum : reader.getNumAddresses m' p = reader.getNumAddresses m p :=
      congrArg IW23GSCImport.numAddress hitem
    unfold readEntry
    rw [hitem, hnum, ImportEntry.mk.injEq]
    refine ⟨rfl, List.map_congr_left ?_⟩
    intro i hi
    have hlt := List.mem_range.mp hi
    refine Mem.readLE_congr m (fun x hx hx' => h x ?_ ?_)
    · unfold getAddresses at hx
      omega
    · show x < p + (reader.sizeOf + 4 * reader.getNumAddresses m p)
      unfold getAddresses at hx'
      omega

theorem writeImport_outside (item : IW23GSCImport) (h : x < data ∨ data + reader.sizeOf ≤ x) :
    writeImport padding m data item reader x = m x := by
  cases reader with
  | h32 =>
    have hsize : x < data ∨ data + 12 ≤ x := h
    simp only [writeImport]
    rw [Mem.writeLE_outside _ _ (by omega), Mem.writeLE_outside _ _ (by omega),
      Mem.writeLE_outside _ _ (by omega), Mem.writeLE_outside _ _ (by omega),
      Mem.writeLE_outside _ _ (by omega)]
  | h64 =>
    have hsize : x < data ∨ data + 24 ≤ x := h
    simp only [writeImport]
    rw [Mem.writeLE_outside _ _ (by omega), Mem.writeLE_outside _ _ (by omega),
      Mem.writeLE_outside _ _ (by omega), Mem.writeLE_outside _ _ (by omega),
      Mem.writeLE_outside _ _ (by omega), Mem.writeLE_outside _ _ (by omega)]

/-- What was read is written back as it was. -/
theorem readGeneric_writeImport (padding : Nat → Nat) (m₀ m : Mem) :
    reader.readGeneric (writeImport padding m data (reader.readGeneric m₀ imp) reader) data =
      reader.readGeneric m₀ imp := by
  have hword : ∀ a n, m₀.readLE a n % 256 ^ n = m₀.readLE a n := fun a n =>
    Nat.mod_eq_of_lt (Mem.readLE_lt m₀ a n)
  cases reader with
  | h32 =>
    simp only [readGeneric, getName, getNamespace, getNumAddresses, getParamCount, getFlags,
      hashSize, writeImport, Nat.reduceMul, Nat.add_assoc, Nat.reduceAdd]
    simp (disch := omega) only [Mem.readLE_writeLE_disjoint, Mem.readLE_writeLE, hword]
  | h64 =>
    simp only [readGeneric, getName, getNamespace, getNumAddresses, getParamCount, getFlags,
      hashSize, writeImport, Nat.reduceMul, Nat.add_assoc, Nat.reduceAdd]
    simp (disch := omega) only [Mem.readLE_writeLE_disjoint, Mem.readLE_writeLE, hword]

end GSCImportReader

/-! ## The loop -/

section Loop

variable {h : ImportHandler} {padding : Nat → Nat} {m m' : Mem} {start pos w : Nat}
  {imports kept : List GscImportData} {imp : GscImportData} {s : ImportHandler.Rewrite}

/-- The imports whose entries stay. -/
def keptImports (imports : List GscImportData) : List GscImportData :=
  imports.filter fun imp => !imp.isDevCall

def ImportHandler.entries (h : ImportHandler) (m : Mem) (imports : List GscImportData) :
    List ImportEntry :=
  imports.map fun imp => h.reader.readEntry m imp.ref

/-- The entries of the imports stand one behind the other. -/
def ImportHandler.Chained (h : ImportHandler) (m : Mem) : Nat → List GscImportData → Nat → Prop
  | p, [], e => p = e
  | p, imp :: rest, e =>
    imp.ref = p ∧ Chained h m (p + (h.reader.sizeOf + 4 * h.reader.getNumAddresses m p)) rest e

/-- The script when the entry at `pos` is written to `w`, with its addresses. -/
def ImportHandler.moved (h : ImportHandler) (padding : Nat → Nat) (m : Mem) (w pos : Nat) : Mem :=
  (GSCImportReader.writeImport padding m w (h.reader.readGeneric m pos) h.reader).memmove
    (w + h.reader.sizeOf) (h.reader.getAddresses pos) (4 * h.reader.getNumAddresses m pos)

theorem moved_outside (x : Nat)
    (hx : x < w ∨ w + (h.reader.sizeOf + 4 * h.reader.getNumAddresses m pos) ≤ x) :
    h.moved padding m w pos x = m x := by
  unfold ImportHandler.moved
  rw [Mem.memmove_outside _ _ (by omega), GSCImportReader.writeImport_outside _ (by omega)]

/-- An entry that is moved to the front reads as before. -/
theorem readEntry_moved (padding : Nat → Nat) (hle : w ≤ pos) :
    h.reader.readEntry (h.moved padding m w pos) w = h.reader.readEntry m pos := by
  have hitem : h.reader.readGeneric (h.moved padding m w pos) w = h.reader.readGeneric m pos := by
    rw [← GSCImportReader.readGeneric_writeImport padding m m]
    exact GSCImportReader.readGeneric_congr fun x _ hx => Mem.memmove_outside _ _ (Or.inl hx)
  have hnum : h.reader.getNumAddresses (h.moved padding m w pos) w =
      h.reader.getNumAddresses m pos := congrArg IW23GSCImport.numAddress hitem
  unfold GSCImportReader.readEntry
  rw [hitem, hnum, ImportEntry.mk.injEq]
  refine ⟨rfl, List.map_congr_left ?_⟩
  intro i hi
  have hlt := List.mem_range.mp hi
  have hword : (h.moved padding m w pos).readLE (w + h.reader.sizeOf + 4 * i) 4 =
      (GSCImportReader.writeImport padding m w (h.reader.readGeneric m pos) h.reader).readLE
        (h.reader.getAddresses pos + 4 * i) 4 :=
    Mem.readLE_memmove (by omega)
  show (h.moved padding m w pos).readLE (w + h.reader.sizeOf + 4 * i) 4 = _
  rw [hword]
  -- the addresses lie behind what was written of the entry
  refine Mem.readLE_congr m (fun x hx _ => GSCImportReader.writeImport_outside _ (Or.inr ?_))
  unfold GSCImportReader.getAddresses at hx
  omega

/-- Where the loop is before the entry at `pos`, and what it has kept. -/
structure LoopInv (h : ImportHandler) (m : Mem) (start : Nat) (s : ImportHandler.Rewrite)
    (kept : List GscImportData) (pos : Nat) : Prop where
  compacting : h.reader.format.Compacting m s.mem start (h.entries m kept) s.writer pos
  ignored : s.writer + s.ignored = pos
  count : s.count = kept.length % 2 ^ 16

theorem LoopInv.step (hinv : LoopInv h m start s kept pos) (href : imp.ref = pos) :
    LoopInv h m start (h.rewriteImport padding s imp) (kept ++ keptImports [imp])
      (pos + (h.reader.sizeOf + 4 * h.reader.getNumAddresses m pos)) := by
  have hcompacting := hinv.compacting
  have hignored := hinv.ignored
  have hcount := hinv.count
  have hread : h.reader.readEntry s.mem pos = h.reader.readEntry m pos := hcompacting.read_eq
  have hnum : h.reader.getNumAddresses s.mem pos = h.reader.getNumAddresses m pos :=
    congrArg (fun entry => entry.item.numAddress) hread
  unfold ImportHandler.rewriteImport
  rw [href]
  cases hdev : imp.isDevCall with
  | true =>
    rw [if_pos rfl]
    simp only [keptImports, List.filter_cons, hdev, Bool.not_true, Bool.false_eq_true, if_false,
      List.filter_nil, List.append_nil]
    refine ⟨hcompacting.skip _, ?_, hcount⟩
    show s.writer + (s.ignored + (h.reader.getNumAddresses s.mem pos * 4 + h.reader.sizeOf)) = _
    rw [hnum]
    omega
  | false =>
    rw [if_neg Bool.false_ne_true]
    simp only [keptImports, List.filter_cons, hdev, Bool.not_false, if_true, List.filter_nil]
    have hmoved := (readEntry_moved padding hcompacting.le).trans hread
    have hframe : ∀ x, x < s.writer ∨
        s.writer + (h.reader.sizeOf + 4 * h.reader.getNumAddresses m pos) ≤ x →
        h.moved padding s.mem s.writer pos x = s.mem x :=
      fun x hx => moved_outside x (by rw [hnum]; exact hx)
    have hkeep := hcompacting.keep hmoved hframe
    have hend : s.writer + h.reader.sizeOf + 4 * h.reader.getNumAddresses s.mem pos =
        s.writer + (h.reader.sizeOf + 4 * h.reader.getNumAddresses m pos) := by
      rw [hnum, Nat.add_assoc]
    refine ⟨?_, ?_, ?_⟩
    · have hentries : h.entries m (kept ++ [imp]) =
          h.entries m kept ++ [h.reader.readEntry m pos] := by
        simp only [ImportHandler.entries, List.map_append, List.map_cons, List.map_nil, href]
      rw [hentries]
      show Format.Compacting _ _ _ _ _
        (s.writer + h.reader.sizeOf + 4 * h.reader.getNumAddresses s.mem pos) _
      rw [hend]
      exact hkeep
    · show s.writer + h.reader.sizeOf + 4 * h.reader.getNumAddresses s.mem pos + s.ignored = _
      rw [hend]
      omega
    · show (s.count + 1) % 2 ^ 16 = _
      rw [hcount, List.length_append, List.length_singleton, Nat.mod_add_mod]

/-- The loop over entries that stand one behind the other. -/
theorem LoopInv.run {e : Nat} (hinv : LoopInv h m start s kept pos)
    (hchained : h.Chained m pos imports e) :
    LoopInv h m start (imports.foldl (h.rewriteImport padding) s) (kept ++ keptImports imports)
      e := by
  induction imports generalizing s kept pos with
  | nil =>
    obtain rfl : pos = e := hchained
    rw [keptImports, List.filter_nil, List.append_nil]
    exact hinv
  | cons imp imports ih =>
    obtain ⟨href, hrest⟩ := hchained
    have hkept : kept ++ keptImports (imp :: imports) =
        kept ++ keptImports [imp] ++ keptImports imports := by
      rw [keptImports, keptImports, keptImports, List.append_assoc, ← List.filter_append,
        List.singleton_append]
    rw [hkept]
    exact ih (hinv.step href) hrest

theorem LoopInv.init (h : ImportHandler) (m : Mem) :
    LoopInv h m (h.getImportsOffset m) ⟨m, h.getImportsOffset m, 0, 0⟩ []
      (h.getImportsOffset m) where
  compacting := Format.Compacting.init m _
  ignored := rfl
  count := rfl

theorem ImportHandler.Chained.append {before after : List GscImportData} {e : Nat}
    (hchained : h.Chained m pos (before ++ after) e) :
    ∃ mid, h.Chained m pos before mid ∧ h.Chained m mid after e := by
  induction before generalizing pos with
  | nil => exact ⟨pos, rfl, hchained⟩
  | cons imp before ih =>
    obtain ⟨href, hrest⟩ := hchained
    obtain ⟨mid, hbefore, hafter⟩ := ih hrest
    exact ⟨mid, ⟨href, hbefore⟩, hafter⟩

end Loop

/-! ## The walk -/

section Walk

variable {h : ImportHandler} {m m₀ : Mem} {scriptLen : Nat}

/-- The bytes of the entries of the imports. -/
def ImportHandler.tableSize (h : ImportHandler) (m : Mem) (imports : List GscImportData) : Nat :=
  (imports.map fun imp => h.reader.sizeOf + 4 * h.reader.getNumAddresses m imp.ref).sum

/-- The walk when the script is opened goes from entry to entry, inside of the script. -/
theorem decompileLoop_chained {n p : Nat} {imports : List GscImportData}
    (hopen : h.decompileLoop m scriptLen n p = .ok imports) :
    imports.length = n ∧ h.Chained m p imports (p + h.tableSize m imports) ∧
      (imports ≠ [] → p + h.tableSize m imports ≤ scriptLen) := by
  induction n generalizing p imports with
  | zero =>
    cases hopen
    exact ⟨rfl, rfl, fun hne => absurd rfl hne⟩
  | succ n ih =>
    unfold ImportHandler.decompileLoop at hopen
    dsimp only at hopen
    split at hopen
    · cases hopen
    · split at hopen
      · cases hopen
      · rename_i hsize haddresses
        cases hloop : h.decompileLoop m scriptLen n
            (p + (h.reader.sizeOf + 4 * h.reader.getNumAddresses m p)) with
        | error e =>
          rw [hloop] at hopen
          cases hopen
        | ok rest =>
          rw [hloop] at hopen
          cases hopen
          obtain ⟨hlength, hchained, hinside⟩ := ih hloop
          have hsum : p + h.tableSize m (⟨p, h.remapFlagsImport (h.reader.getFlags m p)⟩ :: rest) =
              p + (h.reader.sizeOf + 4 * h.reader.getNumAddresses m p) + h.tableSize m rest := by
            simp only [ImportHandler.tableSize, List.map_cons, List.sum_cons]
            omega
          rw [hsum, List.length_cons, hlength]
          refine ⟨rfl, ⟨rfl, hchained⟩, fun _ => ?_⟩
          cases rest with
          | nil =>
            unfold GSCImportReader.getAddresses at haddresses
            simp only [ImportHandler.tableSize, List.map_nil, List.sum_nil]
            omega
          | cons imp rest => exact hinside (List.cons_ne_nil _ _)

/-- Between the opening of the script and the rewriting, its import table keeps its place and the
numbers of addresses of its entries. -/
structure ImportHandler.SameTable (h : ImportHandler) (m₀ m : Mem) (imports : List GscImportData) :
    Prop where
  offset : h.getImportsOffset m = h.getImportsOffset m₀
  numAddresses : ∀ imp ∈ imports,
    h.reader.getNumAddresses m imp.ref = h.reader.getNumAddresses m₀ imp.ref

theorem ImportHandler.Chained.same {imports : List GscImportData} {p e : Nat}
    (hchained : h.Chained m₀ p imports e)
    (hsame : ∀ imp ∈ imports,
      h.reader.getNumAddresses m imp.ref = h.reader.getNumAddresses m₀ imp.ref) :
    h.Chained m p imports e := by
  induction imports generalizing p with
  | nil => exact hchained
  | cons imp imports ih =>
    obtain ⟨rfl, hrest⟩ := hchained
    refine ⟨rfl, ?_⟩
    rw [hsame imp List.mem_cons_self]
    exact ih hrest (fun imp' himp' => hsame imp' (List.mem_cons_of_mem _ himp'))

end Walk

/-! ## Result -/

/-- The table as it is read by following the numbers of addresses. -/
def ImportHandler.readImports (h : ImportHandler) (m : Mem) : List ImportEntry :=
  h.reader.format.readAll m (h.getImportsCount m) (h.getImportsOffset m)

/-- A part of the header is apart from the import table. -/
def ImportHandler.ApartFrom (h : ImportHandler) (m : Mem) (imports : List GscImportData)
    (pos n : Nat) : Prop :=
  pos + n ≤ h.getImportsOffset m ∨ h.getImportsOffset m + h.tableSize m imports ≤ pos

/-- The fields of the header that say where the table is lie apart from it. -/
structure ImportHandler.HeaderApart (h : ImportHandler) (m : Mem) (imports : List GscImportData) :
    Prop where
  offset : h.ApartFrom m imports h.importsOffset 4
  count : h.ApartFrom m imports h.importsCount 2

/-- The table of `m'` is the one of `m` without the dev calls.  The loop overwrites nothing that it
has still to read, and nothing outside of the table, which is in the script. -/
structure ImportHandler.Rewritten (h : ImportHandler) (padding : Nat → Nat) (m : Mem)
    (scriptLen : Nat) (imports : List GscImportData) (m' : Mem) : Prop where
  table : h.readImports m' = h.entries m (keptImports imports)
  count : h.getImportsCount m' = (keptImports imports).length
  unread : ∀ before imp after, imports = before ++ imp :: after → ∀ x, imp.ref ≤ x →
    (h.rewriteLoop m padding before).mem x = m x
  inside : ∀ x, h.ApartFrom m imports x 1 → x + 1 ≤ h.importsCount ∨ h.importsCount + 2 ≤ x →
    m' x = m x
  inScript : imports ≠ [] → h.getImportsOffset m + h.tableSize m imports ≤ scriptLen

/-- **The import table is rewritten to its entries without the dev calls if it is apart from the
fields of the header that say where it is.** -/
theorem rewriteImports_rewritten (h : ImportHandler) (padding : Nat → Nat) (rand : Nat → UInt8)
    (m₀ m : Mem) (scriptLen : Nat) (imports : List GscImportData)
    (hopen : h.decompileImports m₀ scriptLen = .ok imports) (hsame : h.SameTable m₀ m imports)
    (hapart : h.HeaderApart m imports) :
    h.Rewritten padding m scriptLen imports (h.rewriteImports m padding rand imports) := by
  obtain ⟨hlength, hchained₀, hinside⟩ := decompileLoop_chained hopen
  have hsize : h.tableSize m imports = h.tableSize m₀ imports := by
    unfold ImportHandler.tableSize
    rw [List.map_congr_left fun imp himp => by rw [hsame.numAddresses imp himp]]
  rw [← hsame.offset, ← hsize] at hchained₀ hinside
  have hchained := hchained₀.same hsame.numAddresses
  have hrun : LoopInv h m (h.getImportsOffset m) (h.rewriteLoop m padding imports)
      (keptImports imports) (h.getImportsOffset m + h.tableSize m imports) :=
    (LoopInv.init h m).run hchained
  have hcompacting := hrun.compacting
  have hignored := hrun.ignored
  have hle := hcompacting.le
  have hstart := hcompacting.stands.le
  have hcount : (h.rewriteLoop m padding imports).count = (keptImports imports).length := by
    have hkept : (keptImports imports).length ≤ imports.length := List.length_filter_le _ _
    have hlt := Mem.readLE_lt m₀ h.importsCount 2
    have hread : imports.length = m₀.readLE h.importsCount 2 := hlength
    have hpow : 256 ^ 2 = 2 ^ 16 := by decide
    rw [hrun.count]
    exact Nat.mod_eq_of_lt (by omega)
  obtain ⟨f, hf, hframe⟩ : ∃ f : Mem, h.rewriteImports m padding rand imports =
      f.writeLE h.importsCount (keptImports imports).length 2 ∧
      ∀ x, x < (h.rewriteLoop m padding imports).writer ∨
        h.getImportsOffset m + h.tableSize m imports ≤ x →
        f x = (h.rewriteLoop m padding imports).mem x := by
    unfold ImportHandler.rewriteImports
    dsimp only
    rw [hcount]
    refine ⟨_, rfl, ?_⟩
    intro x hx
    split
    · exact Mem.fill_outside _ _ (by omega)
    · rfl
  have houtside : ∀ x, x < h.getImportsOffset m ∨
      h.getImportsOffset m + h.tableSize m imports ≤ x → f x = m x := by
    intro x hx
    rw [hframe x (by omega)]
    rcases hx with hx | hx
    · exact hcompacting.before x hx
    · exact hcompacting.unread x hx
  have hcountField := hapart.count
  have hoffsetField := hapart.offset
  have hfields := h.fields_apart
  unfold ImportHandler.ApartFrom at hcountField hoffsetField
  have hcount' : h.getImportsCount (h.rewriteImports m padding rand imports) =
      (keptImports imports).length := by
    have hlt : (h.rewriteLoop m padding imports).count < 2 ^ 16 := by
      rw [hrun.count]
      exact Nat.mod_lt _ (by decide)
    rw [ImportHandler.getImportsCount, hf, Mem.readLE_writeLE]
    exact Nat.mod_eq_of_lt (by omega)
  have hoffset' : h.getImportsOffset (h.rewriteImports m padding rand imports) =
      h.getImportsOffset m := by
    rw [ImportHandler.getImportsOffset, hf, Mem.readLE_writeLE_disjoint _ _ (by omega)]
    exact Mem.readLE_congr m (fun x hx hx' => houtside x (by omega))
  refine ⟨?_, hcount', ?_, ?_, hinside⟩
  · have hstands : h.reader.format.Stands (h.rewriteImports m padding rand imports)
        (h.getImportsOffset m) (h.entries m (keptImports imports))
        (h.rewriteLoop m padding imports).writer := by
      refine hcompacting.stands.congr ?_
      intro x hx hx'
      rw [hf, Mem.writeLE_outside _ _ (by omega), hframe x (Or.inl hx')]
    have hread := hstands.readAll
    unfold ImportHandler.entries at hread ⊢
    rw [List.length_map] at hread
    rw [ImportHandler.readImports, hcount', hoffset', hread]
  · intro before imp after himports x hx
    rw [himports] at hchained
    obtain ⟨mid, hbefore, hafter⟩ := hchained.append
    obtain ⟨href, -⟩ := hafter
    have hrest : LoopInv h m (h.getImportsOffset m) (h.rewriteLoop m padding before)
        (keptImports before) mid := (LoopInv.init h m).run hbefore
    exact hrest.compacting.unread x (by omega)
  · intro x hx hx'
    unfold ImportHandler.ApartFrom at hx
    rw [hf, Mem.writeLE_outside _ _ (by omega), houtside x (by omega)]

/-! ## Examples -/

/-- The handler of the scripts of version `0x36`. -/
def handler36 : ImportHandler where
  reader := .h32
  importsOffset := 0x38
  importsCount := 0x28
  fields_apart := by decide
  remapFlagsImport flags := flags

/-- A script with the count and the offset of its imports, and the imports. -/
def scriptWith (count offset : Nat) (imports : List (Nat × IW23GSCImport)) : Mem :=
  let zero : Mem := fun _ => 0
  imports.foldl (fun m imp => GSCImportReader.writeImport (fun _ => 0) m imp.1 imp.2 .h32)
    ((zero.writeLE 0x28 count 2).writeLE 0x38 offset 4)

/-- Two calls with a dev call between them, behind the header. -/
def threeImports : Mem :=
  scriptWith 3 0x60 [(0x60, ⟨7, 8, 1, 0, 2⟩), (0x70, ⟨9, 8, 2, 0, 0x12⟩), (0x84, ⟨10, 8, 1, 1, 2⟩)]

theorem threeImports_rewritten :
    ∃ imports, handler36.decompileImports threeImports 0x94 = .ok imports ∧
      handler36.SameTable threeImports threeImports imports ∧
      handler36.HeaderApart threeImports imports ∧
      handler36.Rewritten (fun _ => 0) threeImports 0x94 imports
        (handler36.rewriteImports threeImports (fun _ => 0) (fun _ => 0) imports) := by
  have hopen : handler36.decompileImports threeImports 0x94 =
      .ok [⟨0x60, 2⟩, ⟨0x70, 0x12⟩, ⟨0x84, 2⟩] := ok_of_toOption (by decide +kernel)
  have hsame : handler36.SameTable threeImports threeImports
      [⟨0x60, 2⟩, ⟨0x70, 0x12⟩, ⟨0x84, 2⟩] := ⟨rfl, fun _ _ => rfl⟩
  have hapart : handler36.HeaderApart threeImports [⟨0x60, 2⟩, ⟨0x70, 0x12⟩, ⟨0x84, 2⟩] :=
    ⟨Or.inl (by decide +kernel), Or.inl (by decide +kernel)⟩
  exact ⟨_, hopen, hsame, hapart,
    rewriteImports_rewritten handler36 (fun _ => 0) (fun _ => 0) threeImports threeImports 0x94 _
      hopen hsame hapart⟩

/-- A call and a dev call in the header itself: the namespace of the call is where the count of the
imports is. -/
def overHeader : Mem :=
  scriptWith 2 0x24 [(0x40, ⟨9, 8, 0, 0, 0x12⟩)] |>.writeLE 0x2C 4 2

theorem overHeader_not_rewritten :
    ∃ imports, handler36.decompileImports overHeader 0x60 = .ok imports ∧
      handler36.SameTable overHeader overHeader imports ∧
      ¬handler36.Rewritten (fun _ => 0) overHeader 0x60 imports
        (handler36.rewriteImports overHeader (fun _ => 0) (fun _ => 0) imports) := by
  have hopen : handler36.decompileImports overHeader 0x60 = .ok [⟨0x24, 0⟩, ⟨0x40, 0x12⟩] :=
    ok_of_toOption (by decide +kernel)
  refine ⟨_, hopen, ⟨rfl, fun _ _ => rfl⟩, ?_⟩
  intro h
  exact absurd h.table (by decide +kernel)

end Acts.Gsc.Obfuscator
