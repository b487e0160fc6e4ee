import Acts.Lib.Bytes

/-!
# Writing raw files (`raw_file.hpp`)

* `RawFileWriter` — the bytes written so far, with the place of the last type byte.
* `writeDT`, `writeString`, `writeHash`, `writeHashEscaped`, `build` — its operations; adjacent
  strings become one, and a string ends when the next type is written.
* `Field`, `fields` — what a sequence of calls says, adjacent strings merged.
* `rawFile_eq` — **a raw file is the magic, the fields in order, and an end byte.**
-/

set_option autoImplicit false

namespace Acts.Core.RawFile

/-! ## The writer -/

/-- `MAGIC`. -/
def magic : Nat := 0x667273746361

inductive DataType
  | rfdtEnd
  | rfdtString
  | rfdtStringEncrypted
  | rfdtHash
  | rfdtHashEscaped

def DataType.toByte : DataType → UInt8
  | .rfdtEnd => 0
  | .rfdtString => 1
  | .rfdtStringEncrypted => 2
  | .rfdtHash => 3
  | .rfdtHashEscaped => 4

/-- The type of a byte; the bytes from `RFDT_COUNT` on have none. -/
def DataType.ofByte (b : UInt8) : Option DataType :=
  [rfdtEnd, rfdtString, rfdtStringEncrypted, rfdtHash, rfdtHashEscaped][b.toNat]?

structure RawFileWriter where
  data : List UInt8
  lastData : Nat
  lastData_lt : lastData < data.length

/-- The constructor. -/
def RawFileWriter.new : RawFileWriter := ⟨leBytes 8 magic ++ [0], 8, by simp⟩

namespace RawFileWriter

variable (w : RawFileWriter)

/-- `data[lastData]`. -/
def last : UInt8 := w.data.get ⟨w.lastData, w.lastData_lt⟩

/-- `data.insert(data.end(), …)`. -/
def insert (bytes : List UInt8) : RawFileWriter :=
  ⟨w.data ++ bytes, w.lastData, by have := w.lastData_lt; simp; omega⟩

/-- The data with the last string ended. -/
def endString : List UInt8 :=
  if w.last = DataType.rfdtString.toByte then w.data ++ [0] else w.data

def writeDT (dt : DataType) : RawFileWriter :=
  if w.last = 0 then ⟨w.data.set w.lastData dt.toByte, w.lastData, by simpa using w.lastData_lt⟩
  else ⟨w.endString ++ [dt.toByte], w.endString.length, by simp⟩

/-- `data` after `+= len` on the `uint32_t` at `pos`. -/
def addLength (data : List UInt8) (pos len : Nat) : List UInt8 :=
  data.take pos ++ leBytes 4 (readLe 4 (data.drop pos) + len) ++ data.drop (pos + 4)

/-- `WriteString`; `leBytes 4` keeps the 32 bits of the casts. -/
def writeString (str : List UInt8) : RawFileWriter :=
  if w.last = DataType.rfdtString.toByte then
    ⟨addLength w.data (w.lastData + 1) str.length ++ str, w.lastData, by
      have := w.lastData_lt
      simp [addLength]
      omega⟩
  else
    ((w.writeDT .rfdtString).insert (leBytes 4 (str.length + 1))).insert str

def writeHash (hash : UInt64) : RawFileWriter :=
  (w.writeDT .rfdtHash).insert (leBytes 8 hash.toNat)

def writeHashEscaped (hash : UInt64) : RawFileWriter :=
  (w.writeDT .rfdtHashEscaped).insert (leBytes 8 hash.toNat)

def build : RawFileWriter := w.writeDT .rfdtEnd

end RawFileWriter

/-- A call on a writer. -/
inductive Call
  | writeString (str : List UInt8)
  | writeHash (hash : UInt64)
  | writeHashEscaped (hash : UInt64)

def RawFileWriter.call (w : RawFileWriter) : Call → RawFileWriter
  | .writeString str => w.writeString str
  | .writeHash hash => w.writeHash hash
  | .writeHashEscaped hash => w.writeHashEscaped hash

/-- What `Build` returns behind some calls. -/
def rawFile (calls : List Call) : List UInt8 := (calls.foldl RawFileWriter.call .new).build.data

/-! ## Fields -/

/-- What a field of a raw file says. -/
inductive Field
  | string (str : List UInt8)
  | hash (v : UInt64)
  | hashEscaped (v : UInt64)
deriving DecidableEq

def Call.field : Call → Field
  | .writeString str => .string str
  | .writeHash v => .hash v
  | .writeHashEscaped v => .hashEscaped v

/-- A field in front of others; a string is merged with a string behind it. -/
def prepend : Field → List Field → List Field
  | .string s, .string t :: fs => .string (s ++ t) :: fs
  | f, fs => f :: fs

/-- What some calls say. -/
def fields (calls : List Call) : List Field := calls.foldr (fun c => prepend c.field) []

/-- The bytes of a field, as long as it is the last one. -/
def Field.start : Field → List UInt8
  | .string s => 1 :: leBytes 4 (s.length + 1) ++ s
  | .hash v => 3 :: leBytes 8 v.toNat
  | .hashEscaped v => 4 :: leBytes 8 v.toNat

/-- The bytes of a field. -/
def Field.bytes : Field → List UInt8
  | .string s => 1 :: leBytes 4 (s.length + 1) ++ s ++ [0]
  | .hash v => 3 :: leBytes 8 v.toNat
  | .hashEscaped v => 4 :: leBytes 8 v.toNat

def encode (fs : List Field) : List UInt8 := fs.flatMap Field.bytes

theorem prepend_string (s t : List UInt8) (fs : List Field) :
    prepend (.string s) (prepend (.string t) fs) = prepend (.string (s ++ t)) fs := by
  cases fs with
  | nil => rfl
  | cons f fs =>
    cases f with
    | string u => simp [prepend]
    | hash v => rfl
    | hashEscaped v => rfl

theorem prepend_ne_nil (f : Field) (fs : List Field) : prepend f fs ≠ [] := by
  unfold prepend
  split <;> simp

/-- A field in front of others stays apart, unless it is a string before a string. -/
theorem prepend_prepend {f g : Field} (h : ∀ s t, f = .string s → g ≠ .string t)
    (fs : List Field) : prepend f (prepend g fs) = f :: prepend g fs := by
  cases f with
  | hash v => rfl
  | hashEscaped v => rfl
  | string s =>
    cases g with
    | string t => exact absurd rfl (h s t rfl)
    | hash v => rfl
    | hashEscaped v => rfl

/-! ## What is written -/

/-- The writer has written `pre`, and then `f` as its last field. -/
structure Ends (w : RawFileWriter) (pre : List UInt8) (f : Field) : Prop where
  data : w.data = pre ++ f.start
  lastData : w.lastData = pre.length

section Written

variable {w : RawFileWriter} {pre : List UInt8} {f : Field}

theorem last_of_data {b : UInt8} {bs : List UInt8} (hdata : w.data = pre ++ b :: bs)
    (hlast : w.lastData = pre.length) : w.last = b := by
  unfold RawFileWriter.last
  rw [List.get_eq_getElem]
  simp [hdata, hlast]

theorem Ends.last (h : Ends w pre f) : w.last ≠ 0 ∧
    (w.last = DataType.rfdtString.toByte ↔ ∃ s, f = .string s) := by
  cases f with
  | string s =>
    have hlast : w.last = 1 := last_of_data h.data h.lastData
    simp [hlast, DataType.toByte]
  | hash v =>
    have hlast : w.last = 3 := last_of_data h.data h.lastData
    simp [hlast, DataType.toByte]
  | hashEscaped v =>
    have hlast : w.last = 4 := last_of_data h.data h.lastData
    simp [hlast, DataType.toByte]

theorem Ends.endString (h : Ends w pre f) : w.endString = pre ++ f.bytes := by
  unfold RawFileWriter.endString
  cases f with
  | string s =>
    rw [if_pos (h.last.2.mpr ⟨s, rfl⟩), h.data]
    simp [Field.start, Field.bytes]
  | hash v =>
    rw [if_neg fun hs => by simpa using h.last.2.mp hs, h.data]
    rfl
  | hashEscaped v =>
    rw [if_neg fun hs => by simpa using h.last.2.mp hs, h.data]
    rfl

/-- A new type ends the last field. -/
theorem Ends.writeDT (h : Ends w pre f) (dt : DataType) :
    (w.writeDT dt).data = pre ++ f.bytes ++ [dt.toByte] ∧
      (w.writeDT dt).lastData = (pre ++ f.bytes).length := by
  unfold RawFileWriter.writeDT
  rw [if_neg h.last.1, ← h.endString]
  exact ⟨rfl, rfl⟩

theorem addLength_start (s t : List UInt8) :
    RawFileWriter.addLength (pre ++ (Field.string s).start) (pre.length + 1) t.length ++ t =
      pre ++ (Field.string (s ++ t)).start := by
  have hstart : pre ++ (Field.string s).start =
      pre ++ [1] ++ (leBytes 4 (s.length + 1) ++ s) := by simp [Field.start]
  have hpos : pre.length + 1 = (pre ++ [(1 : UInt8)]).length := by simp
  unfold RawFileWriter.addLength
  rw [hstart, hpos, List.take_left, ← List.drop_drop, List.drop_left,
    List.drop_left' (length_leBytes ..), readLe_leBytes, leBytes_mod_add]
  simp [Field.start, Nat.add_right_comm]

/-- What is written behind a type, in the place of the end byte or behind a field. -/
theorem ends_call {c : Call} {p : List UInt8}
    (hdt : ∀ dt, (w.writeDT dt).data = p ++ [dt.toByte] ∧ (w.writeDT dt).lastData = p.length)
    (hlast : ∀ s, c = .writeString s → w.last ≠ DataType.rfdtString.toByte) :
    Ends (w.call c) p c.field := by
  cases c with
  | writeString s =>
    obtain ⟨hdata, hpos⟩ := hdt .rfdtString
    show Ends (w.writeString s) p (.string s)
    unfold RawFileWriter.writeString
    rw [if_neg (hlast s rfl)]
    exact ⟨by simp [RawFileWriter.insert, hdata, Field.start, DataType.toByte], hpos⟩
  | writeHash v =>
    obtain ⟨hdata, hpos⟩ := hdt .rfdtHash
    exact ⟨by simp [RawFileWriter.call, RawFileWriter.writeHash, RawFileWriter.insert, hdata,
      Call.field, Field.start, DataType.toByte], hpos⟩
  | writeHashEscaped v =>
    obtain ⟨hdata, hpos⟩ := hdt .rfdtHashEscaped
    exact ⟨by simp [RawFileWriter.call, RawFileWriter.writeHashEscaped, RawFileWriter.insert, hdata,
      Call.field, Field.start, DataType.toByte], hpos⟩

theorem Ends.writeString {s : List UInt8} (h : Ends w pre (.string s)) (t : List UInt8) :
    Ends (w.writeString t) pre (.string (s ++ t)) := by
  unfold RawFileWriter.writeString
  rw [if_pos (h.last.2.mpr ⟨s, rfl⟩)]
  refine ⟨?_, h.lastData⟩
  dsimp only
  rw [h.data, h.lastData]
  exact addLength_start s t

/-- The calls behind a field. -/
theorem Ends.build (h : Ends w pre f) (calls : List Call) :
    (calls.foldl RawFileWriter.call w).build.data =
      pre ++ encode (prepend f (fields calls)) ++ [0] := by
  induction calls generalizing w pre f with
  | nil =>
    have hnil : encode (prepend f (fields [])) = f.bytes := by
      cases f <;> simp [fields, prepend, encode]
    rw [hnil]
    exact (h.writeDT .rfdtEnd).1
  | cons c calls ih =>
    have hfields : fields (c :: calls) = prepend c.field (fields calls) := rfl
    rw [List.foldl_cons, hfields]
    by_cases hmerge : ∃ s t, f = .string s ∧ c = .writeString t
    · obtain ⟨s, t, rfl, rfl⟩ := hmerge
      rw [show w.call (.writeString t) = w.writeString t from rfl, ih (h.writeString t)]
      rw [show (Call.writeString t).field = .string t from rfl, prepend_string]
    · have hstart : Ends (w.call c) (pre ++ f.bytes) c.field := by
        refine ends_call h.writeDT fun s hc hs => ?_
        obtain ⟨t, ht⟩ := h.last.2.mp hs
        exact hmerge ⟨t, s, ht, hc⟩
      have happart : prepend f (prepend c.field (fields calls)) =
          f :: prepend c.field (fields calls) := by
        refine prepend_prepend (fun s t hf hc => hmerge ⟨s, t, hf, ?_⟩) _
        cases c <;> simp_all [Call.field]
      rw [ih hstart, happart]
      simp [encode]

end Written

/-- **A raw file is the magic, the fields in order, and an end byte.** -/
theorem rawFile_eq (calls : List Call) :
    rawFile calls = leBytes 8 magic ++ encode (fields calls) ++ [0] := by
  have hdt : ∀ dt, (RawFileWriter.new.writeDT dt).data = leBytes 8 magic ++ [dt.toByte] ∧
      (RawFileWriter.new.writeDT dt).lastData = (leBytes 8 magic).length := fun dt => ⟨rfl, rfl⟩
  have hlast : RawFileWriter.new.last = 0 := rfl
  unfold rawFile
  cases calls with
  | nil => rfl
  | cons c calls =>
    have hstart : Ends (RawFileWriter.new.call c) (leBytes 8 magic) c.field :=
      ends_call hdt fun s _ => by rw [hlast]; decide
    exact hstart.build calls

end Acts.Core.RawFile
