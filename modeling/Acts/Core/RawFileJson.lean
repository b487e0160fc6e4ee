import Acts.Core.RawFileRead
import Acts.Lib.Json

/-!
# Writing JSON into raw files (`raw_file_json.hpp`)

* `RawFileJsonWriter` — what is written, the depth, and the flags of the current level.
* `Call`, `RawFileJsonWriter.run` — the calls on a writer; ending a level that was not begun
  throws.
* `Doc`, `calls` — trees of calls, as well-nested sequences.
* `run_doc` — what a tree of calls writes: separators, indentation and values.
* `parses_iff` — **in each format the text parses as the tree exactly if every string stands for
  itself between quotes and every number and literal is a scalar of JSON.**
-/

set_option autoImplicit false

namespace Acts.Core.RawFileJson

open Acts.JsonText

/-! ## The writer -/

inductive JsonFormat
  | jffPretty
  | jffInline
  | jffReduced

/-- What is written into the raw file. -/
inductive Piece
  | call (c : RawFile.Call)
  | encrypted (str : List UInt8)

structure RawFileJsonWriter where
  writer : List Piece
  format : JsonFormat
  depth : Nat
  startStruct : Bool
  inlined : Bool

/-- The constructor. -/
def RawFileJsonWriter.new (format : JsonFormat) : RawFileJsonWriter := ⟨[], format, 0, true, true⟩

/-- `std::format` of a number: in decimal, in hexadecimal, or what it gives for another type. -/
inductive Number
  | decimal (v : Int)
  | hex (v : Int)
  | other (text : List UInt8)

/-- The digits of an integer, with its sign. -/
def digits (base : Nat) (v : Int) : List UInt8 :=
  (if v < 0 then [0x2D] else []) ++ (Nat.toDigits base v.natAbs).map fun c => UInt8.ofNat c.toNat

def Number.text : Number → List UInt8
  | .decimal v => digits 10 v
  | .hex v => [0x30, 0x78] ++ digits 16 v
  | .other text => text

/-- The values that a call writes. -/
inductive Value
  | null
  | string (str : List UInt8)
  | encrypted (str : List UInt8)
  | hash (hash : UInt64) (type : List UInt8)
  | number (n : Number)
  | literal (val : List UInt8)
  | bool (val : Bool)

/-- The names of fields. -/
inductive Name
  | string (name : List UInt8)
  | encrypted (name : List UInt8)
  | hash (name : UInt64) (type : List UInt8)

/-- The characters that `c_str` shows. -/
def cStr (str : List UInt8) : List UInt8 := str.takeWhile (· ≠ 0)

namespace RawFileJsonWriter

variable (w : RawFileJsonWriter)

/-- A call on the inner writer. -/
def put (p : Piece) : RawFileJsonWriter := { w with writer := w.writer ++ [p] }

def writeString (str : List UInt8) : RawFileJsonWriter := w.put (.call (.writeString str))

def writeNewSpace : RawFileJsonWriter :=
  match w.format with
  | .jffPretty | .jffInline => w.writeString [0x20]
  | .jffReduced => w

/-- The padding of `n` levels. -/
def pad : Nat → RawFileJsonWriter → RawFileJsonWriter
  | 0, w => w
  | n + 1, w => pad n (w.writeString [0x20, 0x20, 0x20, 0x20])

def writeNewLine : RawFileJsonWriter :=
  match w.format with
  | .jffPretty => pad w.depth (w.writeString [0x0A])
  | .jffInline => w.writeString [0x20]
  | .jffReduced => w

def writePreData (forceNoInline : Bool) : RawFileJsonWriter :=
  if !forceNoInline && w.inlined then w
  else
    let w := { w with inlined := false }
    let w := if !w.startStruct then w.writeString [0x2C] else { w with startStruct := false }
    w.writeNewLine

def writeValueString (str : List UInt8) : RawFileJsonWriter :=
  (((w.writePreData false).writeString [quote]).writeString (cStr str)).writeString [quote]

def writeValueEncrypted (str : List UInt8) : RawFileJsonWriter :=
  (((w.writePreData false).writeString [quote]).put (.encrypted str)).writeString [quote]

def writeValueHash (hash : UInt64) (type : List UInt8) : RawFileJsonWriter :=
  ((((w.writePreData false).writeString [quote]).writeString type).put
    (.call (.writeHashEscaped hash))).writeString [quote]

def writeValueNumber (n : Number) : RawFileJsonWriter :=
  (w.writePreData false).writeString n.text

def writeValueLiteral (val : List UInt8) : RawFileJsonWriter :=
  (w.writePreData false).writeString (cStr val)

def writeValueBool (val : Bool) : RawFileJsonWriter :=
  w.writeValueLiteral (if val then trueText else falseText)

def writeValueNull : RawFileJsonWriter := (w.writePreData false).writeString nullText

def writeValue : Value → RawFileJsonWriter
  | .null => w.writeValueNull
  | .string str => w.writeValueString str
  | .encrypted str => w.writeValueEncrypted str
  | .hash hash type => w.writeValueHash hash type
  | .number n => w.writeValueNumber n
  | .literal val => w.writeValueLiteral val
  | .bool val => w.writeValueBool val

/-- `WriteFieldNameString` and its variants, which write the name as a value. -/
def writeFieldName (name : Name) : RawFileJsonWriter :=
  let w := { w.writePreData true with inlined := true }
  let w := match name with
    | .string name => w.writeValueString name
    | .encrypted name => w.writeValueEncrypted name
    | .hash name type => w.writeValueHash name type
  (w.writeString [0x3A]).writeNewSpace

/-- `BeginObject` and `BeginArray`. -/
def begin (bracket : UInt8) : RawFileJsonWriter :=
  let w := (w.writePreData false).writeString [bracket]
  { w with depth := w.depth + 1, startStruct := true, inlined := false }

/-- `EndObject` and `EndArray`. -/
def finish (bracket : UInt8) : Option RawFileJsonWriter :=
  if w.depth = 0 then none
  else
    let w := { w with depth := w.depth - 1 }
    let w := if !w.startStruct then w.writeNewLine else w
    let w := w.writeString [bracket]
    some { w with startStruct := false, inlined := false }

def beginObject : RawFileJsonWriter := w.begin 0x7B

def beginArray : RawFileJsonWriter := w.begin 0x5B

def endObject : Option RawFileJsonWriter := w.finish 0x7D

def endArray : Option RawFileJsonWriter := w.finish 0x5D

end RawFileJsonWriter

inductive Call
  | value (v : Value)
  | fieldName (name : Name)
  | beginObject
  | endObject
  | beginArray
  | endArray

def RawFileJsonWriter.call (w : RawFileJsonWriter) : Call → Option RawFileJsonWriter
  | .value v => some (w.writeValue v)
  | .fieldName name => some (w.writeFieldName name)
  | .beginObject => some w.beginObject
  | .endObject => w.endObject
  | .beginArray => some w.beginArray
  | .endArray => w.endArray

def RawFileJsonWriter.run : List Call → RawFileJsonWriter → Option RawFileJsonWriter
  | [], w => some w
  | c :: calls, w => (w.call c).bind (run calls)

/-! ## Trees of calls -/

inductive Doc
  | value (v : Value)
  | object (fields : List (Name × Doc))
  | array (elems : List Doc)

mutual

/-- The calls of a tree. -/
def calls : Doc → List Call
  | .value v => [.value v]
  | .object fields => .beginObject :: (fieldCalls fields ++ [.endObject])
  | .array elems => .beginArray :: (elemCalls elems ++ [.endArray])

def elemCalls : List Doc → List Call
  | [] => []
  | e :: elems => calls e ++ elemCalls elems

def fieldCalls : List (Name × Doc) → List Call
  | [] => []
  | (name, e) :: fields => .fieldName name :: (calls e ++ fieldCalls fields)

end

/-! ## What the tree says -/

/-- The functions of the reader that show hashes and encrypted strings. -/
structure Extract where
  findHash : UInt64 → Bool → List UInt8
  decryptString : List UInt8 → List UInt8

def Piece.text (x : Extract) : Piece → List UInt8
  | .call (.writeString str) => str
  | .call (.writeHash v) => x.findHash v false
  | .call (.writeHashEscaped v) => x.findHash v true
  | .encrypted str => x.decryptString str

/-- The text that the reader shows. -/
def text (x : Extract) (pieces : List Piece) : List UInt8 := pieces.flatMap (Piece.text x)

variable (x : Extract)

def Value.json : Value → Json
  | .null => .scalar nullText
  | .string str => .string str
  | .encrypted str => .string (x.decryptString str)
  | .hash v type => .string (type ++ x.findHash v true)
  | .number n => .scalar n.text
  | .literal val => .scalar val
  | .bool val => .scalar (if val then trueText else falseText)

def Name.str : Name → List UInt8
  | .string name => name
  | .encrypted name => x.decryptString name
  | .hash v type => type ++ x.findHash v true

mutual

def Doc.json : Doc → Json
  | .value v => v.json x
  | .object fields => .object (fieldsJson fields)
  | .array elems => .array (elemsJson elems)

def elemsJson : List Doc → List Json
  | [] => []
  | e :: elems => e.json :: elemsJson elems

def fieldsJson : List (Name × Doc) → List (List UInt8 × Json)
  | [] => []
  | (name, e) :: fields => (name.str x, e.json) :: fieldsJson fields

end

/-- The value stands for itself in a text. -/
def Value.Plain : Value → Prop
  | .null => True
  | .string str => Clean str
  | .encrypted str => Clean (x.decryptString str)
  | .hash v type => Clean (type ++ x.findHash v true)
  | .number n => isScalar n.text = true
  | .literal val => isScalar val = true
  | .bool _ => True

mutual

def Doc.Plain : Doc → Prop
  | .value v => v.Plain x
  | .object fields => FieldsPlain fields
  | .array elems => ElemsPlain elems

def ElemsPlain : List Doc → Prop
  | [] => True
  | e :: elems => e.Plain ∧ ElemsPlain elems

def FieldsPlain : List (Name × Doc) → Prop
  | [] => True
  | (name, e) :: fields => Clean (name.str x) ∧ e.Plain ∧ FieldsPlain fields

end

/-! ## What a tree writes -/

def spaceText : JsonFormat → List UInt8
  | .jffPretty | .jffInline => [0x20]
  | .jffReduced => []

/-- A new line at a depth. -/
def lineText (format : JsonFormat) (depth : Nat) : List UInt8 :=
  match format with
  | .jffPretty => 0x0A :: List.replicate (4 * depth) 0x20
  | .jffInline => [0x20]
  | .jffReduced => []

/-- What stands in front of an element or a field. -/
def sepText (format : JsonFormat) (depth : Nat) (first : Bool) : List UInt8 :=
  (if first then [] else [0x2C]) ++ lineText format depth

def Value.text : Value → List UInt8
  | .null => nullText
  | .string str => quote :: cStr str ++ [quote]
  | .encrypted str => quote :: x.decryptString str ++ [quote]
  | .hash v type => quote :: (type ++ x.findHash v true) ++ [quote]
  | .number n => n.text
  | .literal val => cStr val
  | .bool val => if val then trueText else falseText

def Name.text : Name → List UInt8
  | .string name => quote :: cStr name ++ [quote]
  | .encrypted name => quote :: x.decryptString name ++ [quote]
  | .hash v type => quote :: (type ++ x.findHash v true) ++ [quote]

/-- What stands in front of a closing bracket. -/
def endText (format : JsonFormat) (depth : Nat) (empty : Bool) : List UInt8 :=
  if empty then [] else lineText format depth

mutual

def docText (format : JsonFormat) (depth : Nat) : Doc → List UInt8
  | .value v => v.text x
  | .object fields =>
    0x7B :: (fieldsText format (depth + 1) true fields ++
      (endText format depth fields.isEmpty ++ [0x7D]))
  | .array elems =>
    0x5B :: (elemsText format (depth + 1) true elems ++
      (endText format depth elems.isEmpty ++ [0x5D]))

def elemsText (format : JsonFormat) (depth : Nat) (first : Bool) : List Doc → List UInt8
  | [] => []
  | e :: elems =>
    sepText format depth first ++ (docText format depth e ++ elemsText format depth false elems)

def fieldsText (format : JsonFormat) (depth : Nat) (first : Bool) : List (Name × Doc) → List UInt8
  | [] => []
  | (name, e) :: fields =>
    sepText format depth first ++ (name.text x ++ (0x3A :: spaceText format) ++
      (docText format depth e ++ fieldsText format depth false fields))

end

/-- `w'` has written `t` behind `w`, on the same level. -/
structure Wrote (w w' : RawFileJsonWriter) (t : List UInt8) : Prop where
  text : text x w'.writer = text x w.writer ++ t
  format : w'.format = w.format
  depth : w'.depth = w.depth

/-- The same, with the flags as they were. -/
structure Put (w w' : RawFileJsonWriter) (t : List UInt8) : Prop extends Wrote x w w' t where
  startStruct : w'.startStruct = w.startStruct
  inlined : w'.inlined = w.inlined

section Writer

variable {x : Extract} {w w' w'' : RawFileJsonWriter} {t t' : List UInt8}

theorem Wrote.trans (h : Wrote x w w' t) (h' : Wrote x w' w'' t') : Wrote x w w'' (t ++ t') :=
  ⟨by rw [h'.text, h.text, List.append_assoc], h'.format.trans h.format, h'.depth.trans h.depth⟩

theorem Put.refl (w : RawFileJsonWriter) : Put x w w [] :=
  ⟨⟨(List.append_nil _).symm, rfl, rfl⟩, rfl, rfl⟩

theorem Put.trans (h : Put x w w' t) (h' : Put x w' w'' t') : Put x w w'' (t ++ t') :=
  ⟨h.toWrote.trans h'.toWrote, h'.startStruct.trans h.startStruct, h'.inlined.trans h.inlined⟩

theorem put_put (w : RawFileJsonWriter) (p : Piece) : Put x w (w.put p) (p.text x) :=
  ⟨⟨by simp [RawFileJsonWriter.put, Acts.Core.RawFileJson.text], rfl, rfl⟩, rfl, rfl⟩

theorem put_writeString (w : RawFileJsonWriter) (str : List UInt8) :
    Put x w (w.writeString str) str := put_put w _

theorem put_writeNewSpace (w : RawFileJsonWriter) :
    Put x w w.writeNewSpace (spaceText w.format) := by
  unfold RawFileJsonWriter.writeNewSpace
  cases w.format with
  | jffPretty => exact put_writeString w _
  | jffInline => exact put_writeString w _
  | jffReduced => exact .refl w

theorem put_pad (n : Nat) (w : RawFileJsonWriter) :
    Put x w (RawFileJsonWriter.pad n w) (List.replicate (4 * n) 0x20) := by
  induction n generalizing w with
  | zero => exact .refl w
  | succ n ih =>
    have hsplit : List.replicate (4 * (n + 1)) (0x20 : UInt8) =
        [0x20, 0x20, 0x20, 0x20] ++ List.replicate (4 * n) 0x20 := by
      rw [Nat.mul_succ, Nat.add_comm, ← List.replicate_append_replicate]
      rfl
    rw [hsplit]
    exact (put_writeString w _).trans (ih _)

theorem put_writeNewLine (w : RawFileJsonWriter) :
    Put x w w.writeNewLine (lineText w.format w.depth) := by
  unfold RawFileJsonWriter.writeNewLine
  cases w.format with
  | jffPretty => exact (put_writeString w _).trans (put_pad _ _)
  | jffInline => exact put_writeString w _
  | jffReduced => exact .refl w

theorem writePreData_inlined (h : w.inlined = true) : w.writePreData false = w := by
  simp [RawFileJsonWriter.writePreData, h]

/-- A separator, where a value does not stand behind the name of a field. -/
theorem writePreData_sep {force : Bool} (h : force = true ∨ w.inlined = false) :
    Wrote x w (w.writePreData force) (sepText w.format w.depth w.startStruct) ∧
      (w.writePreData force).startStruct = false ∧ (w.writePreData force).inlined = false := by
  have hsep : (!force && w.inlined) = false := by
    rcases h with rfl | h
    · rfl
    · rw [h, Bool.and_false]
  unfold RawFileJsonWriter.writePreData sepText
  rw [hsep, if_neg Bool.false_ne_true]
  cases hs : w.startStruct with
  | true =>
    obtain ⟨hwrote, hstart, hinl⟩ : Put x { w with inlined := false, startStruct := false }
      _ (lineText w.format w.depth) := put_writeNewLine _
    simp only [Bool.not_true, if_neg Bool.false_ne_true, if_true]
    exact ⟨⟨hwrote.text, hwrote.format, hwrote.depth⟩, hstart, hinl⟩
  | false =>
    obtain ⟨hwrote, hstart, hinl⟩ : Put x { w with startStruct := false, inlined := false }
      _ ([0x2C] ++ lineText w.format w.depth) :=
        (put_writeString _ [0x2C]).trans (put_writeNewLine _)
    simp only [Bool.not_false, if_true, if_neg Bool.false_ne_true]
    exact ⟨⟨hwrote.text, hwrote.format, hwrote.depth⟩, hstart, hinl⟩

/-- A value behind what stands in front of it. -/
theorem put_writeValue (w : RawFileJsonWriter) (v : Value) :
    Put x (w.writePreData false) (w.writeValue v) (v.text x) := by
  cases v with
  | null => exact put_writeString _ _
  | string str =>
    exact ((put_writeString _ _).trans (put_writeString _ _)).trans (put_writeString _ _)
  | encrypted str => exact ((put_writeString _ _).trans (put_put _ _)).trans (put_writeString _ _)
  | hash v type =>
    have h : Put x (w.writePreData false) (w.writeValue (.hash v type))
        ([quote] ++ type ++ x.findHash v true ++ [quote]) :=
      (((put_writeString _ _).trans (put_writeString _ _)).trans (put_put _ _)).trans
        (put_writeString _ _)
    simpa [Value.text] using h
  | number n => exact put_writeString _ _
  | literal val => exact put_writeString _ _
  | bool val =>
    cases val with
    | true => exact put_writeString _ _
    | false => exact put_writeString _ _

/-- The name of a field, up to the place of its value. -/
theorem wrote_writeFieldName (w : RawFileJsonWriter) (name : Name) :
    Wrote x w (w.writeFieldName name) (sepText w.format w.depth w.startStruct ++
        (name.text x ++ (0x3A :: spaceText w.format))) ∧
      (w.writeFieldName name).startStruct = false ∧ (w.writeFieldName name).inlined = true := by
  obtain ⟨hpre, hstart, -⟩ : Wrote x w (w.writePreData true) _ ∧ _ ∧ _ :=
    writePreData_sep (.inl rfl)
  let w₁ : RawFileJsonWriter := { w.writePreData true with inlined := true }
  have hinl : w₁.writePreData false = w₁ := writePreData_inlined rfl
  have hvalue : ∀ v : Value, Put x w₁ (w₁.writeValue v) (v.text x) := fun v => by
    have := put_writeValue (x := x) w₁ v
    rwa [hinl] at this
  have hname : ∀ v : Value, Put x w₁ ((w₁.writeValue v).writeString [0x3A]).writeNewSpace
      (v.text x ++ (0x3A :: spaceText w.format)) := fun v => by
    have hcolon := (hvalue v).trans (put_writeString _ [0x3A])
    have hspace := hcolon.trans (put_writeNewSpace _)
    rw [hcolon.format, show w₁.format = w.format from hpre.format, List.append_assoc] at hspace
    exact hspace
  have hput : Put x w₁ (w.writeFieldName name) (name.text x ++ (0x3A :: spaceText w.format)) := by
    cases name with
    | string name => exact hname (.string name)
    | encrypted name => exact hname (.encrypted name)
    | hash v type => exact hname (.hash v type)
  have hw₁ : Wrote x w w₁ (sepText w.format w.depth w.startStruct) :=
    ⟨hpre.text, hpre.format, hpre.depth⟩
  exact ⟨hw₁.trans hput.toWrote, hput.startStruct.trans hstart, hput.inlined⟩

theorem run_append (a b : List Call) (w : RawFileJsonWriter) :
    RawFileJsonWriter.run (a ++ b) w = (RawFileJsonWriter.run a w).bind (RawFileJsonWriter.run b) := by
  induction a generalizing w with
  | nil => rfl
  | cons c a ih =>
    rw [List.cons_append, RawFileJsonWriter.run, RawFileJsonWriter.run, Option.bind_assoc]
    exact congrArg _ (funext fun w => ih w)

/-- A level is begun behind what stands in front of it. -/
theorem wrote_begin (w : RawFileJsonWriter) (bracket : UInt8) :
    text x (w.begin bracket).writer = text x (w.writePreData false).writer ++ [bracket] ∧
      (w.begin bracket).format = (w.writePreData false).format ∧
      (w.begin bracket).depth = (w.writePreData false).depth + 1 ∧
      (w.begin bracket).startStruct = true ∧ (w.begin bracket).inlined = false := by
  obtain ⟨hput, -, -⟩ : Put x (w.writePreData false) _ [bracket] := put_writeString _ _
  exact ⟨hput.text, hput.format, congrArg (· + 1) hput.depth, rfl, rfl⟩

theorem wrote_finish {depth : Nat} (bracket : UInt8) (hdepth : w.depth = depth + 1) :
    ∃ w', w.finish bracket = some w' ∧
      text x w'.writer =
        text x w.writer ++ (endText w.format depth w.startStruct ++ [bracket]) ∧
      w'.format = w.format ∧ w'.depth = depth ∧ w'.startStruct = false ∧ w'.inlined = false := by
  have hsub : w.depth - 1 = depth := by omega
  unfold RawFileJsonWriter.finish endText
  rw [if_neg (by omega), hsub]
  cases hs : w.startStruct with
  | true =>
    obtain ⟨hput, -, -⟩ : Put x { w with depth := depth, startStruct := true } _ [bracket] :=
      put_writeString _ _
    simp only [Bool.not_true, if_neg Bool.false_ne_true, if_true]
    exact ⟨_, rfl, hput.text, hput.format, hput.depth, rfl, rfl⟩
  | false =>
    obtain ⟨hput, -, -⟩ : Put x { w with depth := depth, startStruct := false } _
      (lineText w.format depth ++ [bracket]) := (put_writeNewLine _).trans (put_writeString _ _)
    simp only [Bool.not_false, if_true, if_neg Bool.false_ne_true]
    exact ⟨_, rfl, hput.text, hput.format, hput.depth, rfl, rfl⟩

/-- The calls of a level, between its brackets. -/
theorem run_level {w₁ : RawFileJsonWriter} {o c : UInt8} {inner : List Call} {empty : Bool}
    (h₁ : RawFileJsonWriter.run inner (w.begin o) = some w₁)
    (hwrote : Wrote x (w.begin o) w₁ t) (hstart : w₁.startStruct = empty) :
    ∃ w', (RawFileJsonWriter.run inner (w.begin o)).bind (fun w => w.finish c) = some w' ∧
      Wrote x (w.writePreData false) w' (o :: (t ++
        (endText (w.writePreData false).format (w.writePreData false).depth empty ++ [c]))) ∧
      w'.startStruct = false ∧ w'.inlined = false := by
  obtain ⟨htext, hformat, hdepth, -, -⟩ := wrote_begin (x := x) w o
  obtain ⟨w', hfinish, htext', hformat', hdepth', hstart', hinl'⟩ :=
    wrote_finish (x := x) c (hwrote.depth.trans hdepth)
  refine ⟨w', by rw [h₁]; exact hfinish, ⟨?_, ?_, hdepth'⟩, hstart', hinl'⟩
  · rw [htext', hwrote.text, htext, hwrote.format, hformat, hstart]
    simp
  · rw [hformat', hwrote.format, hformat]

theorem Wrote.congr (h : Wrote x w w' t) (ht : t = t') : Wrote x w w' t' := ht ▸ h

theorem preData_format (w : RawFileJsonWriter) :
    (w.writePreData false).format = w.format ∧ (w.writePreData false).depth = w.depth := by
  cases hinl : w.inlined with
  | true => rw [writePreData_inlined hinl]; exact ⟨rfl, rfl⟩
  | false =>
    obtain ⟨h, -, -⟩ : Wrote ⟨fun _ _ => [], id⟩ w (w.writePreData false) _ ∧ _ ∧ _ :=
      writePreData_sep (.inr hinl)
    exact ⟨h.format, h.depth⟩

end Writer

mutual

/-- **What a tree of calls writes behind what stands in front of it.** -/
theorem run_doc (x : Extract) : (d : Doc) → (w : RawFileJsonWriter) →
    ∃ w', RawFileJsonWriter.run (calls d) w = some w' ∧
      Wrote x (w.writePreData false) w' (docText x w.format w.depth d) ∧
      (w.inlined = false → w'.inlined = false) ∧
      ((w.writePreData false).startStruct = false → w'.startStruct = false)
  | .value v, w => by
    have hput := put_writeValue (x := x) w v
    refine ⟨w.writeValue v, by rw [calls]; rfl, by rw [docText]; exact hput.toWrote, ?_, ?_⟩
    · intro h
      rw [hput.inlined]
      exact (writePreData_sep (x := x) (.inr h)).2.2
    · intro h
      rw [hput.startStruct, h]
  | .object fields, w => by
    obtain ⟨-, hformat, hdepth, hstart, -⟩ := wrote_begin (x := x) w 0x7B
    obtain ⟨hf, hd⟩ := preData_format w
    obtain ⟨w₁, hrun, hwrote, hstart₁⟩ := run_fields x fields (w.begin 0x7B)
    rw [hformat, hdepth, hstart, hf, hd] at hwrote
    rw [hstart, Bool.true_and] at hstart₁
    obtain ⟨w', hlevel, hw', hs', hi'⟩ := run_level (c := 0x7D) hrun hwrote hstart₁
    refine ⟨w', ?_, ?_, fun _ => hi', fun _ => hs'⟩
    · rw [calls, RawFileJsonWriter.run]
      show RawFileJsonWriter.run (fieldCalls fields ++ [.endObject]) (w.begin 0x7B) = _
      rw [run_append]
      have hend : RawFileJsonWriter.run [.endObject] = fun w => w.finish 0x7D := by
        funext w
        exact Option.bind_fun_some _
      rw [hend, hlevel]
    · rw [docText]
      rwa [hf, hd] at hw'
  | .array elems, w => by
    obtain ⟨-, hformat, hdepth, hstart, hinl⟩ := wrote_begin (x := x) w 0x5B
    obtain ⟨hf, hd⟩ := preData_format w
    obtain ⟨w₁, hrun, hwrote, hstart₁⟩ := run_elems x elems (w.begin 0x5B) hinl
    rw [hformat, hdepth, hstart, hf, hd] at hwrote
    rw [hstart, Bool.true_and] at hstart₁
    obtain ⟨w', hlevel, hw', hs', hi'⟩ := run_level (c := 0x5D) hrun hwrote hstart₁
    refine ⟨w', ?_, ?_, fun _ => hi', fun _ => hs'⟩
    · rw [calls, RawFileJsonWriter.run]
      show RawFileJsonWriter.run (elemCalls elems ++ [.endArray]) (w.begin 0x5B) = _
      rw [run_append]
      have hend : RawFileJsonWriter.run [.endArray] = fun w => w.finish 0x5D := by
        funext w
        exact Option.bind_fun_some _
      rw [hend, hlevel]
    · rw [docText]
      rwa [hf, hd] at hw'

theorem run_elems (x : Extract) : (elems : List Doc) → (w : RawFileJsonWriter) →
    w.inlined = false →
    ∃ w', RawFileJsonWriter.run (elemCalls elems) w = some w' ∧
      Wrote x w w' (elemsText x w.format w.depth w.startStruct elems) ∧
      w'.startStruct = (w.startStruct && elems.isEmpty)
  | [], w, _ => by
    refine ⟨w, by rw [elemCalls]; rfl, ?_, (Bool.and_true _).symm⟩
    rw [elemsText]
    exact (Put.refl w).toWrote
  | e :: elems, w, hinl => by
    obtain ⟨hpre, hstart, -⟩ : Wrote x w (w.writePreData false) _ ∧ _ ∧ _ :=
      writePreData_sep (.inr hinl)
    obtain ⟨w₁, hrun₁, hwrote₁, hinl₁, hstart₁⟩ := run_doc x e w
    obtain ⟨w₂, hrun₂, hwrote₂, hstart₂⟩ := run_elems x elems w₁ (hinl₁ hinl)
    have hfirst := hpre.trans hwrote₁
    rw [hfirst.format, hfirst.depth, hstart₁ hstart] at hwrote₂
    refine ⟨w₂, ?_, ?_, ?_⟩
    · rw [elemCalls, run_append, hrun₁]
      exact hrun₂
    · rw [elemsText, ← List.append_assoc]
      exact hfirst.trans hwrote₂
    · rw [hstart₂, hstart₁ hstart, List.isEmpty_cons, Bool.and_false]
      rfl

theorem run_fields (x : Extract) : (fields : List (Name × Doc)) → (w : RawFileJsonWriter) →
    ∃ w', RawFileJsonWriter.run (fieldCalls fields) w = some w' ∧
      Wrote x w w' (fieldsText x w.format w.depth w.startStruct fields) ∧
      w'.startStruct = (w.startStruct && fields.isEmpty)
  | [], w => by
    refine ⟨w, by rw [fieldCalls]; rfl, ?_, (Bool.and_true _).symm⟩
    rw [fieldsText]
    exact (Put.refl w).toWrote
  | (name, e) :: fields, w => by
    obtain ⟨hname, hstart, hinl⟩ := wrote_writeFieldName (x := x) w name
    obtain ⟨w₁, hrun₁, hwrote₁, -, hstart₁⟩ := run_doc x e (w.writeFieldName name)
    rw [writePreData_inlined hinl] at hwrote₁ hstart₁
    obtain ⟨w₂, hrun₂, hwrote₂, hstart₂⟩ := run_fields x fields w₁
    rw [hname.format, hname.depth] at hwrote₁
    have hfirst := hname.trans hwrote₁
    rw [hfirst.format, hfirst.depth, hstart₁ hstart] at hwrote₂
    refine ⟨w₂, ?_, ?_, ?_⟩
    · rw [fieldCalls, RawFileJsonWriter.run]
      show RawFileJsonWriter.run (calls e ++ fieldCalls fields) (w.writeFieldName name) = _
      rw [run_append, hrun₁]
      exact hrun₂
    · refine (hfirst.trans hwrote₂).congr ?_
      rw [fieldsText]
      simp only [List.append_assoc]
    · rw [hstart₂, hstart₁ hstart, List.isEmpty_cons, Bool.and_false]
      rfl

end

/-! ## What the text says -/

section Text

variable {x : Extract} {format : JsonFormat} {depth : Nat}

theorem isSpace_line : ∀ c ∈ lineText format depth, isSpace c = true := by
  intro c hc
  unfold lineText at hc
  cases format with
  | jffPretty =>
    rcases List.mem_cons.mp hc with rfl | hc
    · rfl
    · rw [List.eq_of_mem_replicate hc]
      rfl
  | jffInline =>
    rw [List.mem_singleton.mp hc]
    rfl
  | jffReduced => cases hc

theorem lexesAny_line : LexesAny (lineText format depth) [] True := lexesAny_spaces isSpace_line

theorem lexesAny_sep (format : JsonFormat) (depth : Nat) (first : Bool) : LexesAny (sepText format depth first)
    (if first then [] else [.punct 0x2C]) True := by
  unfold sepText
  cases first with
  | true => exact lexesAny_line
  | false => exact ((lexesAny_punct (by decide)).append lexesAny_line).congr (and_iff_right trivial)

theorem delim_sep (rest : List UInt8) : Delim (sepText format depth false ++ rest) :=
  delim_cons (by decide) _

/-- What closes a level. -/
theorem lexesAny_end (empty : Bool) {c : UInt8} (hc : isPunct c = true) :
    LexesAny (endText format depth empty ++ [c]) [.punct c] True := by
  unfold endText
  cases empty with
  | true => exact lexesAny_punct hc
  | false => exact (lexesAny_line.append (lexesAny_punct hc)).congr (and_iff_right trivial)

theorem delim_end (empty : Bool) {c : UInt8} (hc : isScalarChar c = false) (rest : List UInt8) :
    Delim (endText format depth empty ++ [c] ++ rest) := by
  cases empty with
  | true => exact delim_cons hc _
  | false =>
    cases format with
    | jffPretty => exact delim_cons (by decide) _
    | jffInline => exact delim_cons (by decide) _
    | jffReduced => exact delim_cons hc _

theorem cStr_eq {s : List UInt8} (h : ∀ c ∈ s, c ≠ 0) : cStr s = s := by
  induction s with
  | nil => rfl
  | cons c s ih =>
    have hrest : cStr s = s := ih fun d hd => h d (List.mem_cons_of_mem _ hd)
    unfold cStr at hrest ⊢
    have hc : c ≠ 0 := h c List.mem_cons_self
    rw [List.takeWhile_cons, if_pos (by simpa using hc), hrest]

/-- A string that `c_str` cuts is not clean. -/
theorem cStr_clean (s : List UInt8) : Clean (cStr s) ∧ s = cStr s ↔ Clean s := by
  constructor
  · rintro ⟨hclean, heq⟩
    exact heq ▸ hclean
  · intro h
    have heq : cStr s = s := cStr_eq fun c hc h0 => by
      have hle := h.control c hc
      rw [h0] at hle
      exact absurd hle (by decide)
    exact ⟨heq.symm ▸ h, heq.symm⟩

theorem lexesAny_cStr (s : List UInt8) :
    LexesAny (quote :: cStr s ++ [quote]) [.string s] (Clean s) :=
  (lexesAny_string (List.takeWhile_prefix _)).congr (cStr_clean s)

theorem lexesAny_text (s : List UInt8) :
    LexesAny (quote :: s ++ [quote]) [.string s] (Clean s) :=
  (lexesAny_string (List.prefix_refl s)).congr (and_iff_left rfl)

theorem lexesAny_name (name : Name) :
    LexesAny (name.text x) [.string (name.str x)] (Clean (name.str x)) := by
  cases name with
  | string name => exact lexesAny_cStr name
  | encrypted name => exact lexesAny_text _
  | hash v type => exact lexesAny_text _

theorem isScalar_cStr {s : List UInt8} (h : isScalar s = true) : cStr s = s := by
  refine cStr_eq fun c hc h0 => ?_
  have hchar := List.all_eq_true.mp (all_scalar h).2 c hc
  rw [h0] at hchar
  exact absurd hchar (by decide)

theorem lexes_value (v : Value) : Lexes (v.text x) (tokens (v.json x)) (v.Plain x) := by
  cases v with
  | null => exact (lexes_scalar nullText).congr (iff_of_true (by decide) trivial)
  | string str => exact (lexesAny_cStr str).lexes
  | encrypted str => exact (lexesAny_text _).lexes
  | hash v type => exact (lexesAny_text _).lexes
  | number n => exact lexes_scalar n.text
  | literal val =>
    intro rest ts' hrest
    constructor
    · intro h
      obtain ⟨hval, -⟩ := lex_scalar h
      have heq := isScalar_cStr hval
      rw [Value.text, heq] at h
      exact (lexes_scalar val rest ts' hrest).mp h
    · rintro ⟨hval, hlex⟩
      have heq := isScalar_cStr hval
      rw [Value.text, heq]
      exact (lexes_scalar val rest ts' hrest).mpr ⟨hval, hlex⟩
  | bool val =>
    cases val with
    | true => exact (lexes_scalar trueText).congr (iff_of_true (by decide) trivial)
    | false => exact (lexes_scalar falseText).congr (iff_of_true (by decide) trivial)

theorem lexesAny_space_text (format : JsonFormat) : LexesAny (spaceText format) [] True := by
  refine lexesAny_spaces fun c hc => ?_
  cases format <;> simp [spaceText] at hc <;> subst hc <;> rfl

end Text

mutual

theorem lexes_doc (x : Extract) (format : JsonFormat) : (depth : Nat) → (d : Doc) →
    Lexes (docText x format depth d) (tokens (d.json x)) (d.Plain x)
  | depth, .value v => by
    rw [docText, Doc.json, Doc.Plain]
    exact lexes_value v
  | depth, .object fields => by
    have hend : ∀ empty, LexesAny (endText format depth empty ++ [0x7D]) [.punct 0x7D] True :=
      fun empty => lexesAny_end empty (by decide)
    have hopen : LexesAny [0x7B] [.punct 0x7B] True := lexesAny_punct (by decide)
    rw [docText, Doc.json, Doc.Plain, tokens]
    exact ((hopen.append (lexes_fields x format (depth + 1) true fields (hend fields.isEmpty)
      (delim_end fields.isEmpty (by decide)))).congr (and_iff_right trivial)).lexes
  | depth, .array elems => by
    have hend : ∀ empty, LexesAny (endText format depth empty ++ [0x5D]) [.punct 0x5D] True :=
      fun empty => lexesAny_end empty (by decide)
    have hopen : LexesAny [0x5B] [.punct 0x5B] True := lexesAny_punct (by decide)
    rw [docText, Doc.json, Doc.Plain, tokens]
    exact ((hopen.append (lexes_elems x format (depth + 1) true elems (hend elems.isEmpty)
      (delim_end elems.isEmpty (by decide)))).congr (and_iff_right trivial)).lexes

theorem lexes_elems (x : Extract) (format : JsonFormat) : (depth : Nat) → (first : Bool) →
    (elems : List Doc) → {tail : List UInt8} → {ts : List Token} → LexesAny tail ts True →
    (∀ rest, Delim (tail ++ rest)) →
    LexesAny (elemsText x format depth first elems ++ tail)
      (elemTokens first (elemsJson x elems) ++ ts) (ElemsPlain x elems)
  | depth, first, [], tail, ts, htail, hdelim => by
    rw [elemsText, elemsJson, elemTokens, ElemsPlain]
    exact htail
  | depth, first, e :: elems, tail, ts, htail, hdelim => by
    have hrest := lexes_elems x format depth false elems htail hdelim
    have hd : ∀ rest, Delim (elemsText x format depth false elems ++ tail ++ rest) := by
      intro rest
      cases elems with
      | nil =>
        rw [elemsText]
        exact hdelim rest
      | cons e' elems =>
        rw [elemsText]
        simp only [List.append_assoc]
        exact delim_sep _
    have hall := (lexesAny_sep format depth first).append ((lexes_doc x format depth e).append hrest hd)
    rw [elemsText, elemsJson, elemTokens, ElemsPlain]
    simp only [List.append_assoc] at hall ⊢
    exact hall.congr (and_iff_right trivial)

theorem lexes_fields (x : Extract) (format : JsonFormat) : (depth : Nat) → (first : Bool) →
    (fields : List (Name × Doc)) → {tail : List UInt8} → {ts : List Token} →
    LexesAny tail ts True → (∀ rest, Delim (tail ++ rest)) →
    LexesAny (fieldsText x format depth first fields ++ tail)
      (fieldTokens first (fieldsJson x fields) ++ ts) (FieldsPlain x fields)
  | depth, first, [], tail, ts, htail, hdelim => by
    rw [fieldsText, fieldsJson, fieldTokens, FieldsPlain]
    exact htail
  | depth, first, (name, e) :: fields, tail, ts, htail, hdelim => by
    have hrest := lexes_fields x format depth false fields htail hdelim
    have hd : ∀ rest, Delim (fieldsText x format depth false fields ++ tail ++ rest) := by
      intro rest
      cases fields with
      | nil =>
        rw [fieldsText]
        exact hdelim rest
      | cons f fields =>
        rw [fieldsText]
        simp only [List.append_assoc]
        exact delim_sep _
    have hcolon : LexesAny [0x3A] [.punct 0x3A] True := lexesAny_punct (by decide)
    have hall := (lexesAny_sep format depth first).append ((lexesAny_name (x := x) name).append
      ((hcolon.append (lexesAny_space_text format)).append
        ((lexes_doc x format depth e).append hrest hd)))
    rw [fieldsText, fieldsJson, fieldTokens, FieldsPlain]
    simp only [List.append_assoc, List.cons_append, List.nil_append] at hall ⊢
    refine hall.congr ?_
    simp only [true_and]

end

theorem run_docText (x : Extract) (format : JsonFormat) (d : Doc) :
    ∃ w, RawFileJsonWriter.run (calls d) (.new format) = some w ∧
      text x w.writer = docText x format 0 d := by
  obtain ⟨w, hrun, hwrote, -⟩ := run_doc x d (.new format)
  refine ⟨w, hrun, ?_⟩
  rw [hwrote.text, writePreData_inlined rfl]
  exact List.nil_append _

theorem parsesAs_docText (x : Extract) (format : JsonFormat) (d : Doc) :
    ParsesAs (docText x format 0 d) (d.json x) ↔ d.Plain x :=
  parsesAs_iff.trans (lexes_doc x format 0 d).whole

/-- **In each format the text parses as the tree of calls exactly if each string stands for itself
between quotes and each number and literal is a scalar of JSON.** -/
theorem parses_iff (x : Extract) (format : JsonFormat) (d : Doc) :
    ∃ w, RawFileJsonWriter.run (calls d) (.new format) = some w ∧
      (ParsesAs (text x w.writer) (d.json x) ↔ d.Plain x) := by
  obtain ⟨w, hrun, htext⟩ := run_docText x format d
  exact ⟨w, hrun, htext ▸ parsesAs_docText x format d⟩

/-- A quote as the whole string. -/
theorem quote_not_parsed : ¬∀ (x : Extract) (format : JsonFormat) (d : Doc),
    ∃ w, RawFileJsonWriter.run (calls d) (.new format) = some w ∧
      ParsesAs (text x w.writer) (d.json x) := by
  intro h
  let x : Extract := ⟨fun _ _ => [], id⟩
  let d : Doc := .value (.string [quote])
  obtain ⟨w, hrun, hparses⟩ := h x .jffPretty d
  obtain ⟨w', hrun', htext⟩ := run_docText x .jffPretty d
  rw [hrun] at hrun'
  obtain rfl := Option.some.inj hrun'
  rw [htext, parsesAs_docText, Doc.Plain] at hparses
  have hclean : Clean [quote] := hparses
  cases hclean with
  | char hplain _ => exact (plainChar_take hplain).1 rfl

/-! ## Numbers -/

theorem digitByte {n : Nat} (h : n < 10) : isDigit (UInt8.ofNat (Nat.digitChar n).toNat) = true ∧
    (0 < n → UInt8.ofNat (Nat.digitChar n).toNat ≠ 0x30) := by
  have hall : ∀ n : Fin 10, isDigit (UInt8.ofNat (Nat.digitChar n).toNat) = true ∧
      (0 < n.val → UInt8.ofNat (Nat.digitChar n).toNat ≠ 0x30) := by decide
  exact hall ⟨n, h⟩

/-- The digits of a natural number, without a zero in front. -/
theorem toDigits_spec (n : Nat) : ∃ c t,
    (Nat.toDigits 10 n).map (fun c => UInt8.ofNat c.toNat) = c :: t ∧ isDigit c = true ∧
      t.all isDigit = true ∧ (0 < n → c ≠ 0x30) ∧ (n = 0 → t = []) := by
  induction n using Nat.strongRecOn with
  | ind n ih =>
    by_cases hn : n < 10
    · obtain ⟨hdigit, hzero⟩ := digitByte hn
      rw [Nat.toDigits_of_lt_base hn]
      exact ⟨_, [], rfl, hdigit, rfl, hzero, fun _ => rfl⟩
    · obtain ⟨c, t, heq, hc, ht, hne, -⟩ := ih (n / 10) (by omega)
      obtain ⟨hdigit, -⟩ := digitByte (Nat.mod_lt n (show 10 > 0 by decide))
      rw [Nat.toDigits_of_base_le (by decide) (by omega), List.map_append, heq]
      refine ⟨c, t ++ [UInt8.ofNat (Nat.digitChar (n % 10)).toNat], rfl, hc, ?_,
        fun _ => hne (by omega), fun h0 => by omega⟩
      rw [List.all_append, ht, List.all_cons, hdigit]
      rfl

theorem dropWhile_digits {t : List UInt8} (h : t.all isDigit = true) :
    t.dropWhile isDigit = [] := by
  induction t with
  | nil => rfl
  | cons c t ih =>
    rw [List.all_cons, Bool.and_eq_true] at h
    rw [List.dropWhile_cons, if_pos h.1, ih h.2]

theorem isUnsigned_toDigits (n : Nat) :
    isUnsigned ((Nat.toDigits 10 n).map fun c => UInt8.ofNat c.toNat) = true := by
  obtain ⟨c, t, heq, hc, ht, hne, hzero⟩ := toDigits_spec n
  rw [heq, isUnsigned]
  rcases Nat.eq_zero_or_pos n with rfl | hpos
  · rw [hzero rfl, hc]
    split <;> rfl
  · rw [if_neg (hne hpos), hc, dropWhile_digits ht]
    rfl

/-- Every integer is a scalar in decimal. -/
theorem isScalar_decimal (v : Int) : isScalar (Number.decimal v).text = true := by
  have hnumber : isNumber (Number.decimal v).text = true := by
    have hdigits := isUnsigned_toDigits v.natAbs
    show isNumber (digits 10 v) = true
    unfold digits
    by_cases hv : v < 0
    · rw [if_pos hv]
      exact hdigits
    · rw [if_neg hv]
      obtain ⟨c, t, heq, hc, -⟩ := toDigits_spec v.natAbs
      rw [heq] at hdigits ⊢
      have hminus : c ≠ 0x2D := by
        rintro rfl
        exact absurd hc (by decide)
      show isNumber (c :: t) = true
      rw [isNumber, if_neg hminus]
      exact hdigits
  unfold isScalar
  rw [hnumber, Bool.or_true]

/-- No number is one in hexadecimal. -/
theorem isScalar_hex (v : Int) : isScalar (Number.hex v).text = false := rfl

/-! ## The raw file -/

theorem text_calls (r : RawFile.RawFileReader) (decrypt : List UInt8 → List UInt8)
    (cs : List RawFile.Call) : text ⟨r.hashString, decrypt⟩ (cs.map .call) =
      (cs.map fun c => r.text c.field).flatten := by
  induction cs with
  | nil => rfl
  | cons c cs ih =>
    rw [List.map_cons, List.map_cons, List.flatten_cons, ← ih]
    cases c <;> rfl

/-- The reader shows the text, where the merged strings fit into the raw file. -/
theorem readAll_text {r : RawFile.RawFileReader} {cs : List RawFile.Call} {w : RawFileJsonWriter}
    (decrypt : List UInt8 → List UInt8) (hw : w.writer = cs.map .call)
    (hm : Fetch.Holds r.buffer.memory 0 (RawFile.rawFile cs))
    (hlen : r.buffer.len = (RawFile.rawFile cs).length) (hnul : ∀ c ∈ cs, c.field.NulFree)
    (hfits : ∀ f ∈ RawFile.fields cs, f.Fits) :
    r.run r.readAll = some (text ⟨r.hashString, decrypt⟩ w.writer) := by
  rw [hw, text_calls]
  exact (RawFile.reads_of_fits hm hlen hnul hfits).2

end Acts.Core.RawFileJson
