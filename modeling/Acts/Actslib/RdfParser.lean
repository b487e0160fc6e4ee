import Acts.Lib.Scan

/-!
# The N-Triples parser

`RDFParserNTriple` of `rdf/parser.hpp`.

* `readLine`, `operatorBool`, `readAll` — a line, the next triple, and a document.
* `Cut` — where the words of a line and its final dot stand.
* `Line`, `Line.write` — the lines of an N-Triples document.
* `readAll_document` — **the parser yields the triples of a document in order**, where no comment
  stands behind a statement; a line without a final dot, or with less than three words in front of
  it, yields nothing.
-/

set_option autoImplicit false

namespace Acts.Actslib.Rdf

open Acts.Scan

abbrev Text := List UInt8

/-- `isspace` of the C locale. -/
def isspace (c : UInt8) : Bool := c == 0x20 || (0x09 ≤ c && c ≤ 0x0d)

/-- What is in a line buffer at an offset. -/
structure Component where
  offset : Nat
  length : Nat

structure Triple where
  s : Component
  p : Component
  o : Component

section Line

variable (lineBuffer : Text)

def byteAt (i : Nat) : UInt8 := lineBuffer.getD i 0

def spaceAt (i : Nat) : Bool := isspace (byteAt lineBuffer i)

def findNextSpace (start stop : Nat) : Option Nat :=
  let i := up (fun i => !spaceAt lineBuffer i) start (stop - start)
  if i < stop then some i else none

/-- A subject or a predicate, and the position behind the space that ends it. -/
def loadWord (b1 stop : Nat) : Option (Component × Nat) :=
  match findNextSpace lineBuffer b1 stop with
  | none => none
  | some b2 =>
    -- the brackets of an IRI
    if byteAt lineBuffer b1 = 0x3c then
      if byteAt lineBuffer (b2 - 1) = 0x3e then some (⟨b1 + 1, b2 - 1 - (b1 + 1)⟩, b2 + 1)
      else some (⟨b1 + 1, b2 - (b1 + 1)⟩, b2 + 1)
    else some (⟨b1, b2 - b1⟩, b2 + 1)

/-- The object goes up to the last byte in front of the dot, which is still part of it. -/
def loadObject (start stop : Nat) : Component :=
  if byteAt lineBuffer start = 0x3c then
    if byteAt lineBuffer stop = 0x3e then ⟨start + 1, stop - 1 + 1 - (start + 1)⟩
    else ⟨start + 1, stop + 1 - (start + 1)⟩
  else ⟨start, stop + 1 - start⟩

/-- What a line yields.  A line that is given up may have changed `s` and `p`, which are not read
before all three are loaded. -/
def readLine : Option Triple :=
  let start := up (spaceAt lineBuffer) 0 lineBuffer.length
  if start = lineBuffer.length ∨ byteAt lineBuffer start = 0x23 then none
  else
    let stop := down (spaceAt lineBuffer) (lineBuffer.length - 1)
    if byteAt lineBuffer stop ≠ 0x2e then none
    else
      let stop := before (spaceAt lineBuffer) start stop
      if start = stop then none
      else
        match loadWord lineBuffer start stop with
        | none => none
        | some (s, start) =>
          let start := up (spaceAt lineBuffer) start (stop - start)
          if start = stop then none
          else
            match loadWord lineBuffer start stop with
            | none => none
            | some (p, start) =>
              let start := up (spaceAt lineBuffer) start (stop - start)
              if start = stop then none
              else some ⟨s, p, loadObject lineBuffer start stop⟩

def Component.text (c : Component) : Text := (lineBuffer.drop c.offset).take c.length

end Line

/-! ## The iterator -/

/-- The lines that `getline` takes out of a stream. -/
def getlines : Text → List Text
  | [] => []
  | c :: cs =>
    if c = 0x0a then [] :: getlines cs
    else
      match getlines cs with
      | [] => [[c]]
      | l :: ls => (c :: l) :: ls

structure RDFParserNTriple where
  /-- The lines that are still in the stream. -/
  is : List Text
  next : Triple
  loaded : Bool
  lineBuffer : Text

def RDFParserNTriple.new (doc : Text) : RDFParserNTriple where
  is := getlines doc
  next := ⟨⟨0, 0⟩, ⟨0, 0⟩, ⟨0, 0⟩⟩
  loaded := false
  lineBuffer := []

/-- The lines up to one that yields a triple. -/
def loadNext : List Text → RDFParserNTriple → Bool × RDFParserNTriple
  | [], parser => (false, { parser with is := [] })
  | l :: ls, parser =>
    match readLine l with
    | none => loadNext ls { parser with lineBuffer := l }
    | some t => (true, ⟨ls, t, true, l⟩)

def operatorBool (parser : RDFParserNTriple) : Bool × RDFParserNTriple :=
  if parser.loaded then (true, parser) else loadNext parser.is parser

def increment (parser : RDFParserNTriple) : RDFParserNTriple := { parser with loaded := false }

structure TripleText where
  subject : Text
  predicate : Text
  object : Text
  deriving DecidableEq

/-- `operator*`, with the bytes that the components stand for. -/
def deref (parser : RDFParserNTriple) : Except String (TripleText × RDFParserNTriple) :=
  match operatorBool parser with
  | (false, _) => .error "Empty iterator"
  | (true, parser) =>
    .ok (⟨parser.next.s.text parser.lineBuffer, parser.next.p.text parser.lineBuffer,
      parser.next.o.text parser.lineBuffer⟩, parser)

/-- `while (parser) { use(*parser); ++parser; }` -/
def readFrom : Nat → RDFParserNTriple → Except String (List TripleText)
  | 0, _ => .ok []
  | fuel + 1, parser =>
    match operatorBool parser with
    | (false, _) => .ok []
    | (true, parser) => do
      let (t, parser) ← deref parser
      let ts ← readFrom fuel (increment parser)
      .ok (t :: ts)

def readAll (doc : Text) : Except String (List TripleText) :=
  readFrom ((getlines doc).length + 1) (.new doc)

/-! ## Where the words of a line stand -/

/-- A word without the brackets of an IRI. -/
def unbracket (w : Text) : Text :=
  match w with
  | 0x3c :: w => if w.getLast? = some 0x3e then w.dropLast else w
  | w => w

/-- Three words and a dot.  The third word may have spaces in it. -/
structure Cut (l : Text) (s s' p p' o o' dot : Nat) : Prop where
  lead : ∀ k, k < s → spaceAt l k = true
  notComment : byteAt l s ≠ 0x23
  subject_lt : s < s'
  subject : ∀ k, s ≤ k → k < s' → spaceAt l k = false
  gap_lt : s' < p
  gap : ∀ k, s' ≤ k → k < p → spaceAt l k = true
  predicate_lt : p < p'
  predicate : ∀ k, p ≤ k → k < p' → spaceAt l k = false
  gap_lt' : p' < o
  gap' : ∀ k, p' ≤ k → k < o → spaceAt l k = true
  object_le : o < o'
  first : spaceAt l o = false
  last : spaceAt l (o' - 1) = false
  object_dot : o' ≤ dot
  beforeDot : ∀ k, o' ≤ k → k < dot → spaceAt l k = true
  isDot : byteAt l dot = 0x2e
  dot_lt : dot < l.length
  trail : ∀ k, dot < k → k < l.length → spaceAt l k = true

/-- The bytes `[b1, b2)`, without the brackets of an IRI. -/
def wordAt (l : Text) (b1 b2 : Nat) : Component :=
  if byteAt l b1 = 0x3c then
    if byteAt l (b2 - 1) = 0x3e then ⟨b1 + 1, b2 - 1 - (b1 + 1)⟩ else ⟨b1 + 1, b2 - (b1 + 1)⟩
  else ⟨b1, b2 - b1⟩

section Cut

variable {l : Text} {s s' p p' o o' dot b1 b2 start stop : Nat}

theorem spaceAt_false_of_ne (h : spaceAt l b1 = false) (h' : spaceAt l b2 = true) : b1 ≠ b2 := by
  rintro rfl
  rw [h] at h'
  cases h'

theorem spaceAt_dot (h : byteAt l dot = 0x2e) : spaceAt l dot = false := by
  unfold spaceAt
  rw [h]
  rfl

theorem findNextSpace_eq (hle : b1 ≤ b2) (hstop : b2 < stop)
    (hword : ∀ k, b1 ≤ k → k < b2 → spaceAt l k = false) (hspace : spaceAt l b2 = true) :
    findNextSpace l b1 stop = some b2 := by
  have hup : up (fun i => !spaceAt l i) b1 (stop - b1) = b2 :=
    up_eq hle (by omega) (fun k hk hlt => by rw [hword k hk hlt]; rfl)
      fun _ => by rw [hspace]; rfl
  unfold findNextSpace
  rw [hup]
  exact if_pos hstop

theorem findNextSpace_some (h : findNextSpace l b1 stop = some b2) :
    b1 ≤ b2 ∧ b2 < stop ∧ (∀ k, b1 ≤ k → k < b2 → spaceAt l k = false) ∧
      spaceAt l b2 = true := by
  obtain ⟨hle, hn, hall, hend⟩ := up_spec (fun i => !spaceAt l i) b1 (stop - b1)
  unfold findNextSpace at h
  dsimp only at h
  split at h
  · rename_i hlt
    cases h
    refine ⟨hle, hlt, fun k hk hkl => ?_, ?_⟩
    · simpa only [Bool.not_eq_true'] using hall k hk hkl
    · simpa only [Bool.not_eq_false'] using hend (by omega)
  · cases h

/-- The spaces behind a word. -/
theorem gap_of_up {q n : Nat} (hspace : spaceAt l q = true)
    (hgap : ∀ k, q + 1 ≤ k → k < n → spaceAt l k = true) {k : Nat} (hk : q ≤ k) (hkn : k < n) :
    spaceAt l k = true := by
  rcases Nat.eq_or_lt_of_le hk with rfl | hk
  · exact hspace
  · exact hgap k hk hkn

theorem loadWord_of_find (h : findNextSpace l b1 stop = some b2) :
    loadWord l b1 stop = some (wordAt l b1 b2, b2 + 1) := by
  unfold loadWord wordAt
  rw [h]
  dsimp only
  split
  · split
    · rfl
    · rfl
  · rfl

theorem loadWord_some {c : Component} {next : Nat} (h : loadWord l b1 stop = some (c, next)) :
    ∃ b2, findNextSpace l b1 stop = some b2 ∧ c = wordAt l b1 b2 ∧ next = b2 + 1 := by
  cases hf : findNextSpace l b1 stop with
  | none =>
    unfold loadWord at h
    rw [hf] at h
    cases h
  | some b2 =>
    rw [loadWord_of_find hf] at h
    cases h
    exact ⟨b2, rfl, rfl, rfl⟩

theorem loadObject_eq (h : start < stop) : loadObject l start stop = wordAt l start (stop + 1) := by
  have hstop : stop - 1 + 1 = stop := by omega
  unfold loadObject wordAt
  rw [hstop]
  rfl

/-- **The words of a line are found**, where the object has two bytes at least. -/
theorem readLine_of_cut (c : Cut l s s' p p' o o' dot) (ho : o + 2 ≤ o') :
    readLine l = some ⟨wordAt l s s', wordAt l p p', wordAt l o o'⟩ := by
  have hdot := c.object_dot
  have hlen := c.dot_lt
  have h₁ := c.subject_lt
  have h₂ := c.gap_lt
  have h₃ := c.predicate_lt
  have h₄ := c.gap_lt'
  have hs : spaceAt l s = false := c.subject s (Nat.le_refl s) h₁
  have hstart : up (spaceAt l) 0 l.length = s :=
    up_eq (Nat.zero_le s) (by omega) (fun k _ hk => c.lead k hk) fun _ => hs
  have hend : down (spaceAt l) (l.length - 1) = dot :=
    down_eq (by omega) (spaceAt_dot c.isDot) fun k hk hkl => c.trail k hk (by omega)
  have hbefore : before (spaceAt l) s dot = o' - 1 := by
    rw [before_eq_down hs (by omega)]
    exact down_eq (by omega) c.last fun k hk hkl => c.beforeDot k (by omega) (by omega)
  have hsubject : findNextSpace l s (o' - 1) = some s' :=
    findNextSpace_eq (by omega) (by omega) c.subject (c.gap s' (Nat.le_refl s') h₂)
  have hp : up (spaceAt l) (s' + 1) (o' - 1 - (s' + 1)) = p :=
    up_eq (by omega) (by omega) (fun k hk hkl => c.gap k (by omega) hkl)
      fun _ => c.predicate p (Nat.le_refl p) h₃
  have hpredicate : findNextSpace l p (o' - 1) = some p' :=
    findNextSpace_eq (by omega) (by omega) c.predicate (c.gap' p' (Nat.le_refl p') h₄)
  have hobject : up (spaceAt l) (p' + 1) (o' - 1 - (p' + 1)) = o :=
    up_eq (by omega) (by omega) (fun k hk hkl => c.gap' k (by omega) hkl) fun _ => c.first
  unfold readLine
  dsimp only
  rw [hstart, if_neg (not_or.2 ⟨by omega, c.notComment⟩), hend, if_neg (not_not.2 c.isDot), hbefore,
    if_neg (by omega), loadWord_of_find hsubject]
  dsimp only
  rw [hp, if_neg (by omega), loadWord_of_find hpredicate]
  dsimp only
  rw [hobject, if_neg (by omega), loadObject_eq (by omega), Nat.sub_add_cancel (by omega)]

/-- **What yields a triple has three words and a final dot.** -/
theorem cut_of_readLine {t : Triple} (h : readLine l = some t) :
    ∃ s s' p p' o o' dot, Cut l s s' p p' o o' dot := by
  obtain ⟨_, hslen, hlead, hsend⟩ := up_spec (spaceAt l) 0 l.length
  unfold readLine at h
  dsimp only at h
  split at h
  · cases h
  · rename_i hstart
    rw [not_or] at hstart
    have hs : spaceAt l (up (spaceAt l) 0 l.length) = false := hsend (by omega)
    generalize up (spaceAt l) 0 l.length = s at *
    obtain ⟨hsdot, hdot, hdotSpace, htrail⟩ := down_spec (i := l.length - 1) hs (by omega)
    generalize down (spaceAt l) (l.length - 1) = dot at *
    split at h
    · cases h
    · rename_i hisDot
      rw [not_not] at hisDot
      split at h
      · cases h
      · rename_i hne
        have hlt : s < dot := by
          rcases Nat.eq_or_lt_of_le hsdot with rfl | hlt
          · exact absurd (before_self _ _).symm hne
          · exact hlt
        rw [before_eq_down hs hlt] at h hne
        obtain ⟨hse, he, hespace, hbefore⟩ := down_spec (i := dot - 1) hs (by omega)
        generalize down (spaceAt l) (dot - 1) = e at *
        split at h
        · cases h
        · rename_i c next hload
          obtain ⟨s', hfind, rfl, rfl⟩ := loadWord_some hload
          obtain ⟨hss', hs'e, hsubject, hspace⟩ := findNextSpace_some hfind
          obtain ⟨hp, hple, hgap, hpend⟩ := up_spec (spaceAt l) (s' + 1) (e - (s' + 1))
          generalize up (spaceAt l) (s' + 1) (e - (s' + 1)) = p at *
          split at h
          · cases h
          · split at h
            · cases h
            · rename_i c' next' hload'
              obtain ⟨p', hfind', rfl, rfl⟩ := loadWord_some hload'
              obtain ⟨hpp', hp'e, hpredicate, hspace'⟩ := findNextSpace_some hfind'
              obtain ⟨ho, hole, hgap', hoend⟩ := up_spec (spaceAt l) (p' + 1) (e - (p' + 1))
              generalize up (spaceAt l) (p' + 1) (e - (p' + 1)) = o at *
              split at h
              · cases h
              · have hp0 : spaceAt l p = false := hpend (by omega)
                have hne₁ := spaceAt_false_of_ne hs hspace
                have hne₂ := spaceAt_false_of_ne hp0 hspace'
                refine ⟨s, s', p, p', o, e + 1, dot, ?_⟩
                exact {
                  lead := fun k hk => hlead k (Nat.zero_le k) hk
                  notComment := hstart.2
                  subject_lt := by omega
                  subject := hsubject
                  gap_lt := by omega
                  gap := fun k hk hkl => gap_of_up hspace hgap hk hkl
                  predicate_lt := by omega
                  predicate := hpredicate
                  gap_lt' := by omega
                  gap' := fun k hk hkl => gap_of_up hspace' hgap' hk hkl
                  object_le := by omega
                  first := hoend (by omega)
                  last := hespace
                  object_dot := by omega
                  beforeDot := fun k hk hkl => hbefore k hk (by omega)
                  isDot := hisDot
                  dot_lt := by omega
                  trail := fun k hk hkl => htrail k hk (by omega) }

theorem slice_cons (hab : b1 < b2) (hb : b2 ≤ l.length) :
    slice l b1 b2 = byteAt l b1 :: slice l (b1 + 1) b2 := by
  unfold slice byteAt
  rw [List.drop_eq_getElem_cons (by omega), List.getD_eq_getElem?_getD,
    List.getElem?_eq_getElem (by omega), Option.getD_some,
    show b2 - b1 = (b2 - (b1 + 1)) + 1 by omega, List.take_succ_cons]

theorem slice_concat (hab : b1 < b2) (hb : b2 ≤ l.length) :
    slice l b1 b2 = slice l b1 (b2 - 1) ++ [byteAt l (b2 - 1)] := by
  have hlast : slice l (b2 - 1) b2 = [byteAt l (b2 - 1)] := by
    rw [slice_cons (by omega) hb, Nat.sub_add_cancel (by omega)]
    unfold slice
    rw [Nat.sub_self, List.take_zero]
  rw [← hlast, slice_append (by omega) (by omega)]

theorem unbracket_of_ne {c : UInt8} (h : c ≠ 0x3c) (w : Text) : unbracket (c :: w) = c :: w := by
  unfold unbracket
  split
  · rename_i heq
    exact absurd (List.cons.inj heq).1 h
  · rfl

theorem text_wordAt (hab : b1 < b2) (hb : b2 ≤ l.length) :
    (wordAt l b1 b2).text l = unbracket (slice l b1 b2) := by
  rw [slice_cons hab hb]
  unfold wordAt
  by_cases hopen : byteAt l b1 = 0x3c
  · rw [if_pos hopen, hopen]
    show _ = if (slice l (b1 + 1) b2).getLast? = some 0x3e then (slice l (b1 + 1) b2).dropLast
      else slice l (b1 + 1) b2
    by_cases hempty : b2 = b1 + 1
    · have hclose : byteAt l (b2 - 1) ≠ 0x3e := by
        rw [show b2 - 1 = b1 by omega, hopen]
        decide
      rw [if_neg hclose, hempty]
      unfold slice Component.text
      rw [Nat.sub_self, List.take_zero]
      rfl
    · rw [slice_concat (by omega) hb, List.getLast?_concat, List.dropLast_concat]
      by_cases hclose : byteAt l (b2 - 1) = 0x3e
      · rw [if_pos hclose, if_pos (by rw [hclose])]
        rfl
      · rw [if_neg hclose, if_neg (by simpa using hclose), ← slice_concat (by omega) hb]
        rfl
  · rw [if_neg hopen, unbracket_of_ne hopen, ← slice_cons hab hb]
    rfl

end Cut

/-! ## Lines of three words -/

def Spaces (ws : Text) : Prop := ∀ c ∈ ws, isspace c = true

/-- A word in front of a space. -/
structure Word (w : Text) : Prop where
  ne_nil : w ≠ []
  noSpace : ∀ c ∈ w, isspace c = false

/-- The last word of a line: it may have spaces inside. -/
structure Rest (w : Text) : Prop where
  ne_nil : w ≠ []
  first : ∀ c ∈ w.head?, isspace c = false
  last : ∀ c ∈ w.getLast?, isspace c = false

/-- A line of three words and a final dot, which is no comment. -/
structure Shaped (l s p o : Text) : Prop where
  subject : Word s
  notComment : s.head? ≠ some 0x23
  predicate : Word p
  object : Rest o
  line : ∃ lead gap gap' beforeDot trail, Spaces lead ∧ Spaces gap ∧ gap ≠ [] ∧ Spaces gap' ∧
    gap' ≠ [] ∧ Spaces beforeDot ∧ Spaces trail ∧
    l = lead ++ s ++ gap ++ p ++ gap' ++ o ++ beforeDot ++ [0x2e] ++ trail

section Shaped

variable {l s p o : Text}

theorem sits_of_eq (pre : Text) {seg : Text} (post : Text) {a : Nat} (h : l = pre ++ seg ++ post)
    (ha : pre.length = a) : Sits l a seg := by
  rw [h, ← ha, List.append_assoc]
  exact sits_append pre seg post

theorem spaces_iff {a : Nat} {ws : Text} (h : Sits l a ws) :
    Spaces ws ↔ ∀ k, a ≤ k → k < a + ws.length → spaceAt l k = true :=
  h.forall_iff fun c => isspace c = true

theorem noSpace_iff {a : Nat} {w : Text} (h : Sits l a w) :
    (∀ c ∈ w, isspace c = false) ↔ ∀ k, a ≤ k → k < a + w.length → spaceAt l k = false :=
  h.forall_iff fun c => isspace c = false

theorem byteAt_sits {a : Nat} {w : Text} (h : Sits l a w) {k : Nat} (hk : k < w.length) :
    byteAt l (a + k) = w[k] := by
  unfold byteAt
  rw [List.getD_eq_getElem?_getD, h.getElem? hk, List.getElem?_eq_getElem hk]
  rfl

theorem head?_sits {a : Nat} {w : Text} (h : Sits l a w) (hne : w ≠ []) :
    w.head? = some (byteAt l a) := by
  have hpos := List.length_pos_iff.2 hne
  rw [List.head?_eq_getElem?, List.getElem?_eq_getElem hpos, ← byteAt_sits h hpos]
  rfl

theorem getLast?_sits {a : Nat} {w : Text} (h : Sits l a w) (hne : w ≠ []) :
    w.getLast? = some (byteAt l (a + w.length - 1)) := by
  have hpos := List.length_pos_iff.2 hne
  rw [List.getLast?_eq_getElem?, List.getElem?_eq_getElem (by omega),
    ← byteAt_sits h (by omega), Nat.add_sub_assoc hpos]

/-- The positions of the words. -/
theorem Shaped.cut (h : Shaped l s p o) : ∃ a b c dot,
    Cut l a (a + s.length) b (b + p.length) c (c + o.length) dot ∧
      Sits l a s ∧ Sits l b p ∧ Sits l c o := by
  obtain ⟨lead, gap, gap', beforeDot, trail, hlead, hgap, hgapne, hgap', hgapne', hbefore, htrail,
    hl⟩ := h.line
  have hlen := congrArg List.length hl
  simp only [List.length_append, List.length_cons, List.length_nil] at hlen
  simp only [List.append_assoc] at hl
  have sLead : Sits l 0 lead := sits_of_eq [] _ hl rfl
  have sS : Sits l lead.length s := sits_of_eq lead _ (by rw [hl, List.append_assoc]) rfl
  have sGap : Sits l (lead.length + s.length) gap :=
    sits_of_eq (lead ++ s) _ (by simp only [hl, List.append_assoc]; rfl)
      (by rw [List.length_append])
  have sP : Sits l (lead.length + s.length + gap.length) p :=
    sits_of_eq (lead ++ s ++ gap) _ (by simp only [hl, List.append_assoc]; rfl)
      (by simp only [List.length_append])
  have sGap' : Sits l (lead.length + s.length + gap.length + p.length) gap' :=
    sits_of_eq (lead ++ s ++ gap ++ p) _ (by simp only [hl, List.append_assoc]; rfl)
      (by simp only [List.length_append])
  have sO : Sits l (lead.length + s.length + gap.length + p.length + gap'.length) o :=
    sits_of_eq (lead ++ s ++ gap ++ p ++ gap') _ (by simp only [hl, List.append_assoc]; rfl)
      (by simp only [List.length_append])
  have sBefore : Sits l
      (lead.length + s.length + gap.length + p.length + gap'.length + o.length) beforeDot :=
    sits_of_eq (lead ++ s ++ gap ++ p ++ gap' ++ o) _ (by simp only [hl, List.append_assoc]; rfl)
      (by simp only [List.length_append])
  have sDot : Sits l (lead.length + s.length + gap.length + p.length + gap'.length + o.length +
      beforeDot.length) [0x2e] :=
    sits_of_eq (lead ++ s ++ gap ++ p ++ gap' ++ o ++ beforeDot) _
      (by simp only [hl, List.append_assoc]; rfl) (by simp only [List.length_append])
  have sTrail : Sits l (lead.length + s.length + gap.length + p.length + gap'.length + o.length +
      beforeDot.length + 1) trail :=
    sits_of_eq (lead ++ s ++ gap ++ p ++ gap' ++ o ++ beforeDot ++ [0x2e]) []
      (by simp only [hl, List.append_assoc, List.append_nil])
      (by simp only [List.length_append, List.length_cons, List.length_nil])
  have hs := List.length_pos_iff.2 h.subject.ne_nil
  have hp := List.length_pos_iff.2 h.predicate.ne_nil
  have ho := List.length_pos_iff.2 h.object.ne_nil
  have hg := List.length_pos_iff.2 hgapne
  have hg' := List.length_pos_iff.2 hgapne'
  refine ⟨_, _, _, lead.length + s.length + gap.length + p.length + gap'.length + o.length +
    beforeDot.length, ?_, sS, sP, sO⟩
  exact {
    lead := fun k hk => (spaces_iff sLead).1 hlead k (Nat.zero_le k) (by omega)
    notComment := fun hc => h.notComment (by rw [head?_sits sS h.subject.ne_nil, hc])
    subject_lt := by omega
    subject := (noSpace_iff sS).1 h.subject.noSpace
    gap_lt := by omega
    gap := (spaces_iff sGap).1 hgap
    predicate_lt := by omega
    predicate := (noSpace_iff sP).1 h.predicate.noSpace
    gap_lt' := by omega
    gap' := (spaces_iff sGap').1 hgap'
    object_le := by omega
    first := h.object.first _ (head?_sits sO h.object.ne_nil)
    last := h.object.last _ (getLast?_sits sO h.object.ne_nil)
    object_dot := Nat.le_add_right _ _
    beforeDot := (spaces_iff sBefore).1 hbefore
    isDot := byteAt_sits sDot (k := 0) (by decide)
    dot_lt := by omega
    trail := fun k hk hkl => (spaces_iff sTrail).1 htrail k (by omega) (by omega) }

/-- A line whose words have positions is one of three words. -/
theorem shaped_of_cut {s s' p p' o o' dot : Nat} (c : Cut l s s' p p' o o' dot) :
    Shaped l (slice l s s') (slice l p p') (slice l o o') := by
  have h₁ := c.subject_lt
  have h₂ := c.gap_lt
  have h₃ := c.predicate_lt
  have h₄ := c.gap_lt'
  have h₅ := c.object_le
  have h₆ := c.object_dot
  have h₇ := c.dot_lt
  have hne : ∀ {a b : Nat}, a < b → b ≤ l.length → slice l a b ≠ [] := fun hab hb hnil => by
    have := length_slice (Nat.le_of_lt hab) hb
    rw [hnil, List.length_nil] at this
    omega
  have hspaces : ∀ {a b : Nat}, a ≤ b → b ≤ l.length →
      (∀ k, a ≤ k → k < b → spaceAt l k = true) → Spaces (slice l a b) := fun hab hb hall =>
    (spaces_iff (sits_slice hab hb)).2 fun k hk hkl =>
      hall k hk (by rw [length_slice hab hb] at hkl; omega)
  have hword : ∀ {a b : Nat}, a < b → b ≤ l.length →
      (∀ k, a ≤ k → k < b → spaceAt l k = false) → Word (slice l a b) := fun hab hb hall =>
    ⟨hne hab hb, (noSpace_iff (sits_slice (Nat.le_of_lt hab) hb)).2 fun k hk hkl =>
      hall k hk (by rw [length_slice (Nat.le_of_lt hab) hb] at hkl; omega)⟩
  have sS : Sits l s (slice l s s') := sits_slice (by omega) (by omega)
  have sO : Sits l o (slice l o o') := sits_slice (by omega) (by omega)
  refine ⟨hword h₁ (by omega) c.subject, fun hhead => ?_, hword h₃ (by omega) c.predicate,
    ⟨hne h₅ (by omega), fun x hx => ?_, fun x hx => ?_⟩,
    slice l 0 s, slice l s' p, slice l p' o, slice l o' dot, slice l (dot + 1) l.length,
    hspaces (Nat.zero_le s) (by omega) fun k _ hk => c.lead k hk,
    hspaces (by omega) (by omega) c.gap, hne h₂ (by omega), hspaces (by omega) (by omega) c.gap',
    hne h₄ (by omega), hspaces h₆ (by omega) c.beforeDot,
    hspaces (by omega) (Nat.le_refl _) fun k hk hkl => c.trail k hk hkl, ?_⟩
  · rw [head?_sits sS (hne h₁ (by omega))] at hhead
    exact c.notComment (Option.some.inj hhead)
  · rw [head?_sits sO (hne h₅ (by omega))] at hx
    cases hx
    exact c.first
  · rw [getLast?_sits sO (hne h₅ (by omega)), length_slice (by omega) (by omega),
      show o + (o' - o) - 1 = o' - 1 by omega] at hx
    cases hx
    exact c.last
  · have hdot : slice l dot (dot + 1) = [0x2e] := by
      rw [slice_cons (by omega) (by omega), c.isDot]
      unfold slice
      rw [Nat.sub_self, List.take_zero]
    rw [← hdot, slice_append (by omega) (by omega), slice_append (by omega) (by omega),
      slice_append (by omega) (by omega), slice_append (by omega) (by omega),
      slice_append (by omega) (by omega), slice_append (by omega) (by omega),
      slice_append (by omega) (by omega), slice_append (by omega) (by omega), slice_all]

/-- What a line yields, as text. -/
def yields (l : Text) : Option TripleText :=
  (readLine l).map fun t => ⟨t.s.text l, t.p.text l, t.o.text l⟩

theorem yields_of_shaped (h : Shaped l s p o) (ho : 2 ≤ o.length) :
    yields l = some ⟨unbracket s, unbracket p, unbracket o⟩ := by
  obtain ⟨a, b, c, dot, hcut, hs, hp, hobj⟩ := h.cut
  have h₁ := hcut.subject_lt
  have h₂ := hcut.gap_lt
  have h₃ := hcut.predicate_lt
  have h₄ := hcut.gap_lt'
  have h₅ := hcut.object_dot
  have h₆ := hcut.dot_lt
  unfold yields
  rw [readLine_of_cut hcut (by omega), Option.map_some, text_wordAt h₁ (by omega),
    text_wordAt h₃ (by omega), text_wordAt (by omega) (by omega), hs, hp, hobj]

theorem yields_eq_none (h : ∀ s p o, ¬ Shaped l s p o) : yields l = none := by
  unfold yields
  cases ht : readLine l with
  | none => rfl
  | some t =>
    obtain ⟨_, _, _, _, _, _, _, hcut⟩ := cut_of_readLine ht
    exact absurd (shaped_of_cut hcut) (h _ _ _)

end Shaped

/-! ## Documents -/

/-- A term of a triple; the suffix of a literal is its language or its type. -/
inductive Term where
  | iri (ref : Text)
  | blankNode (label : Text)
  | literal (chars suffix : Text)

namespace Term

def write : Term → Text
  | .iri ref => 0x3c :: ref ++ [0x3e]
  | .blankNode label => [0x5f, 0x3a] ++ label
  | .literal chars suffix => 0x22 :: chars ++ 0x22 :: suffix

/-- IRIs are read without their brackets. -/
def text : Term → Text
  | .iri ref => ref
  | .blankNode label => write (.blankNode label)
  | .literal chars suffix => write (.literal chars suffix)

/-- Only literals have spaces inside. -/
def Valid : Term → Prop
  | .iri ref => ∀ c ∈ ref, isspace c = false
  | .blankNode label => ∀ c ∈ label, isspace c = false
  | .literal chars suffix => 0x0a ∉ chars ∧ ∀ c ∈ suffix, isspace c = false

def IsNode : Term → Prop
  | .literal _ _ => False
  | _ => True

end Term

/-- A line of a document, as it is written. -/
inductive Line where
  | blank (ws : Text)
  | comment (ws chars : Text)
  | statement (lead : Text) (s : Term) (gap : Text) (p : Term) (gap' : Text) (o : Term)
      (beforeDot trail : Text) (remark : Option Text)
  /-- Any other text. -/
  | other (chars : Text)

namespace Line

def writeComment : Option Text → Text
  | none => []
  | some chars => 0x23 :: chars

def write : Line → Text
  | .blank ws => ws
  | .comment ws chars => ws ++ 0x23 :: chars
  | .statement lead s gap p gap' o beforeDot trail remark =>
    lead ++ s.write ++ gap ++ p.write ++ gap' ++ o.write ++ beforeDot ++ [0x2e] ++ trail ++
      writeComment remark
  | .other chars => chars

/-- The triple that a line states. -/
def triple : Line → Option TripleText
  | .statement _ s _ p _ o _ _ _ => some ⟨s.text, p.text, o.text⟩
  | _ => none

/-- White space that does not end a line. -/
def Blank (ws : Text) : Prop := Spaces ws ∧ 0x0a ∉ ws

/-- A line as N-Triples have it, its terms separated by white space. -/
def NTriples : Line → Prop
  | .blank ws => Blank ws
  | .comment ws chars => Blank ws ∧ 0x0a ∉ chars
  | .statement lead s gap p gap' o beforeDot trail remark =>
    Blank lead ∧ (s.Valid ∧ s.IsNode) ∧ (Blank gap ∧ gap ≠ []) ∧ (p.Valid ∧ p.IsNode) ∧
      (Blank gap' ∧ gap' ≠ []) ∧ o.Valid ∧ Blank beforeDot ∧ Blank trail ∧
      0x0a ∉ writeComment remark
  | .other _ => False

/-- An N-Triples line, or text that is none. -/
def Valid : Line → Prop
  | .other chars => 0x0a ∉ chars ∧ ∀ line : Line, line.NTriples → line.write ≠ chars
  | line => line.NTriples

/-- A line that ends with its statement, or text that does not have three words in front of a final
dot. -/
def Plain : Line → Prop
  | .statement lead s gap p gap' o beforeDot trail remark =>
    (Line.statement lead s gap p gap' o beforeDot trail remark).NTriples ∧ remark = none
  | .other chars => 0x0a ∉ chars ∧ ∀ s p o, ¬ Shaped chars s p o
  | line => line.NTriples

end Line

/-- A document; the last line has no line feed behind it. -/
def document (lines : List Line) (last : Line) : Text :=
  (lines.flatMap fun l => l.write ++ [0x0a]) ++ last.write

/-- The triples of a document, in order. -/
def triples (lines : List Line) (last : Line) : List TripleText :=
  (lines ++ [last]).filterMap Line.triple

section Terms

variable {t : Term}

theorem word_write (hvalid : t.Valid) (hnode : t.IsNode) : Word t.write := by
  cases t with
  | iri ref =>
    refine ⟨List.cons_ne_nil _ _, fun c hc => ?_⟩
    simp only [Term.write, List.cons_append, List.mem_cons, List.mem_append,
      List.not_mem_nil, or_false] at hc
    rcases hc with rfl | hc | rfl
    · rfl
    · exact hvalid c hc
    · rfl
  | blankNode label =>
    refine ⟨List.cons_ne_nil _ _, fun c hc => ?_⟩
    simp only [Term.write, List.cons_append, List.mem_cons, List.nil_append] at hc
    rcases hc with rfl | rfl | hc
    · rfl
    · rfl
    · exact hvalid c hc
  | literal chars suffix => exact hnode.elim

theorem two_le_write (t : Term) : 2 ≤ t.write.length := by
  cases t with
  | iri ref => simp [Term.write]
  | blankNode label => simp [Term.write]
  | literal chars suffix => simp [Term.write]; omega

theorem rest_write (h : t.Valid) : Rest t.write := by
  cases t with
  | literal chars suffix =>
    refine ⟨List.cons_ne_nil _ _, fun c hc => ?_, fun c hc => ?_⟩
    · cases hc
      rfl
    · unfold Term.write at hc
      rw [List.getLast?_append, Option.mem_def] at hc
      rcases List.eq_nil_or_concat suffix with rfl | ⟨suffix, x, rfl⟩
      · cases hc
        rfl
      · rw [List.concat_eq_append, ← List.cons_append, List.getLast?_concat] at hc
        cases hc
        exact h.2 _ (by simp)
  | iri ref =>
    have hw := word_write (t := .iri ref) h trivial
    exact ⟨hw.ne_nil, fun c hc => hw.noSpace c (List.mem_of_mem_head? hc),
      fun c hc => hw.noSpace c (List.mem_of_mem_getLast? hc)⟩
  | blankNode label =>
    have hw := word_write (t := .blankNode label) h trivial
    exact ⟨hw.ne_nil, fun c hc => hw.noSpace c (List.mem_of_mem_head? hc),
      fun c hc => hw.noSpace c (List.mem_of_mem_getLast? hc)⟩

theorem unbracket_write (t : Term) : unbracket t.write = t.text := by
  cases t with
  | iri ref =>
    show (if (ref ++ [0x3e]).getLast? = some 0x3e then (ref ++ [0x3e]).dropLast
      else ref ++ [0x3e]) = ref
    rw [if_pos List.getLast?_concat, List.dropLast_concat]
  | blankNode label => exact unbracket_of_ne (by decide) _
  | literal chars suffix => exact unbracket_of_ne (by decide) _

end Terms

section Reading

variable {l : Line}

/-- The spaces in front of a line are skipped. -/
theorem up_lead {l ws : Text} (h : Spaces ws) (hsits : Sits l 0 ws) (hle : ws.length ≤ l.length)
    (hend : ws.length < l.length → spaceAt l ws.length = false) :
    up (spaceAt l) 0 l.length = ws.length :=
  up_eq (Nat.zero_le _) (by omega)
    (fun k hk hkl => (spaces_iff hsits).1 h k hk (by omega)) fun hlt => hend (by omega)

theorem yields_blank {ws : Text} (h : Spaces ws) : yields ws = none := by
  have hsits : Sits ws 0 ws := sits_of_eq [] [] (by simp) rfl
  have hup := up_lead h hsits (Nat.le_refl _) fun hlt => absurd hlt (Nat.lt_irrefl _)
  unfold yields readLine
  rw [hup, if_pos (.inl rfl)]
  rfl

theorem yields_comment {ws : Text} (h : Spaces ws) (chars : Text) :
    yields (ws ++ 0x23 :: chars) = none := by
  have hsits : Sits (ws ++ 0x23 :: chars) 0 ws :=
    sits_of_eq [] (0x23 :: chars) rfl rfl
  have hhash : byteAt (ws ++ 0x23 :: chars) ws.length = 0x23 :=
    byteAt_sits (w := [0x23]) (k := 0) (sits_of_eq ws chars (by simp) rfl) (by decide)
  have hup := up_lead h hsits (by simp) fun _ => by
    unfold spaceAt
    rw [hhash]
    rfl
  unfold yields readLine
  rw [hup, if_pos (.inr hhash)]
  rfl

/-- **A line yields the triple that it states.** -/
theorem yields_write (h : l.Plain) : yields l.write = l.triple := by
  cases l with
  | blank ws => exact yields_blank h.1
  | comment ws chars => exact yields_comment h.1.1 chars
  | statement lead s gap p gap' o beforeDot trail remark =>
    obtain ⟨⟨hlead, hs, hgap, hp, hgap', ho, hbefore, htrail, _⟩, rfl⟩ := h
    have hshape : Shaped (Line.statement lead s gap p gap' o beforeDot trail none).write
        s.write p.write o.write := by
      refine ⟨word_write hs.1 hs.2, ?_, word_write hp.1 hp.2, rest_write ho,
        lead, gap, gap', beforeDot, trail, hlead.1, hgap.1.1, hgap.2, hgap'.1.1, hgap'.2,
        hbefore.1, htrail.1, List.append_nil _⟩
      cases s with
      | iri ref => exact fun hc => absurd (Option.some.inj hc) (by decide)
      | blankNode label => exact fun hc => absurd (Option.some.inj hc) (by decide)
      | literal chars suffix => exact hs.2.elim
    rw [yields_of_shaped hshape (two_le_write o), unbracket_write, unbracket_write,
      unbracket_write]
    rfl
  | other chars => exact yields_eq_none h.2

theorem lf_of_valid {t : Term} (h : t.Valid) : 0x0a ∉ t.write := by
  have hspace : ∀ {w : Text}, (∀ c ∈ w, isspace c = false) → 0x0a ∉ w := fun hw hmem =>
    absurd (hw _ hmem) (by decide)
  cases t with
  | iri ref => simpa [Term.write] using hspace h
  | blankNode label => simpa [Term.write] using hspace h
  | literal chars suffix => simpa [Term.write] using ⟨h.1, hspace h.2⟩

theorem lf_of_plain (h : l.Plain) : 0x0a ∉ l.write := by
  cases l with
  | blank ws => exact h.2
  | comment ws chars => simpa [Line.write] using ⟨h.1.2, h.2⟩
  | statement lead s gap p gap' o beforeDot trail remark =>
    obtain ⟨⟨hlead, hs, hgap, hp, hgap', ho, hbefore, htrail, hremark⟩, _⟩ := h
    simpa [Line.write] using ⟨hlead.2, lf_of_valid hs.1, hgap.1.2, lf_of_valid hp.1, hgap'.1.2,
      lf_of_valid ho, hbefore.2, htrail.2, hremark⟩
  | other chars => exact h.1

end Reading

/-! ## Runs -/

theorem getlines_append {l rest : Text} (h : 0x0a ∉ l) :
    getlines (l ++ 0x0a :: rest) = l :: getlines rest := by
  induction l with
  | nil => rfl
  | cons c l ih =>
    rw [List.mem_cons, not_or] at h
    rw [List.cons_append, getlines, if_neg (Ne.symm h.1), ih h.2]

theorem getlines_last {l : Text} (h : 0x0a ∉ l) :
    getlines l = if l = [] then [] else [l] := by
  induction l with
  | nil => rfl
  | cons c l ih =>
    rw [List.mem_cons, not_or] at h
    rw [getlines, if_neg (Ne.symm h.1), ih h.2, if_neg (List.cons_ne_nil c l)]
    by_cases hl : l = []
    · rw [if_pos hl, hl]
    · rw [if_neg hl]

theorem loadNext_spec (ls : List Text) (parser : RDFParserNTriple) :
    (ls.filterMap yields = [] ∧ (loadNext ls parser).1 = false) ∨
      ∃ t p l ls', loadNext ls parser = (true, p) ∧ p.loaded = true ∧ p.is = ls' ∧
        ls'.length < ls.length ∧ p.lineBuffer = l ∧ p.next = t ∧
        ls.filterMap yields = ⟨t.s.text l, t.p.text l, t.o.text l⟩ :: ls'.filterMap yields := by
  induction ls generalizing parser with
  | nil => exact .inl ⟨rfl, rfl⟩
  | cons l ls ih =>
    unfold loadNext
    cases ht : readLine l with
    | none =>
      have hy : yields l = none := by
        unfold yields
        rw [ht]
        rfl
      rw [List.filterMap_cons_none hy]
      rcases ih { parser with lineBuffer := l } with h | ⟨t, p, l', ls', h, hl, hls, hlt, rest⟩
      · exact .inl h
      · exact .inr ⟨t, p, l', ls', h, hl, hls, Nat.lt_succ_of_lt hlt, rest⟩
    | some t =>
      have hy : yields l = some ⟨t.s.text l, t.p.text l, t.o.text l⟩ := by
        unfold yields
        rw [ht]
        rfl
      exact .inr ⟨t, _, l, ls, rfl, rfl, rfl, Nat.lt_succ_self _, rfl, rfl,
        List.filterMap_cons_some hy⟩

/-- **The loop yields what the lines yield, in order.** -/
theorem readFrom_eq {fuel : Nat} {parser : RDFParserNTriple} (hloaded : parser.loaded = false)
    (hfuel : parser.is.length < fuel) :
    readFrom fuel parser = .ok (parser.is.filterMap yields) := by
  induction fuel generalizing parser with
  | zero => omega
  | succ fuel ih =>
    have hbool : operatorBool parser = loadNext parser.is parser := by
      unfold operatorBool
      rw [if_neg (by rw [hloaded]; decide)]
    unfold readFrom
    rw [hbool]
    rcases loadNext_spec parser.is parser with ⟨hnil, hload⟩ |
      ⟨t, p, l, ls, hload, hp, rfl, hlt, rfl, rfl, hcons⟩
    · rw [hnil]
      split
      · rfl
      · rename_i heq
        rw [heq] at hload
        cases hload
    · have hderef : deref p = .ok (⟨p.next.s.text p.lineBuffer, p.next.p.text p.lineBuffer,
          p.next.o.text p.lineBuffer⟩, p) := by
        unfold deref operatorBool
        rw [if_pos hp]
      rw [hload, hcons]
      dsimp only
      rw [hderef]
      have hrest : readFrom fuel (increment p) = .ok (p.is.filterMap yields) :=
        ih rfl (show p.is.length < fuel by omega)
      show (do
        let ts ← readFrom fuel (increment p)
        Except.ok (_ :: ts)) = _
      rw [hrest]
      rfl

theorem readAll_eq (doc : Text) : readAll doc = .ok ((getlines doc).filterMap yields) :=
  readFrom_eq rfl (Nat.lt_succ_self _)

/-- **The parser yields the triples of a document, in order.** -/
theorem readAll_document (lines : List Line) (last : Line)
    (h : ∀ l ∈ lines ++ [last], l.Plain) :
    readAll (document lines last) = .ok (triples lines last) := by
  have hlines : ∀ (lines : List Line), (∀ l ∈ lines ++ [last], l.Plain) →
      (getlines (document lines last)).filterMap yields = triples lines last := by
    intro lines
    induction lines with
    | nil =>
      intro h
      have hlast := h last (List.mem_cons_self)
      have hy := yields_write hlast
      show (getlines last.write).filterMap yields = [last].filterMap Line.triple
      rw [getlines_last (lf_of_plain hlast)]
      split
      · rename_i hnil
        rw [hnil] at hy
        rw [List.filterMap_cons, ← hy]
        rfl
      · rw [List.filterMap_cons, List.filterMap_cons, hy]
        rfl
    | cons l lines ih =>
      intro h
      have hl := h l List.mem_cons_self
      have hdoc : document (l :: lines) last = l.write ++ 0x0a :: document lines last := by
        unfold document
        simp only [List.flatMap_cons, List.append_assoc, List.cons_append, List.nil_append]
      rw [hdoc, getlines_append (lf_of_plain hl), List.filterMap_cons, yields_write hl,
        ih fun l' hl' => h l' (List.mem_cons_of_mem _ hl')]
      unfold triples
      rw [List.cons_append, List.filterMap_cons]
  rw [readAll_eq, hlines lines h]

/-- A comment, a statement and a line without a dot. -/
def plainLines : List Line :=
  [.comment [0x20] [0x63], .statement [] (.iri [0x73]) [0x20] (.iri [0x70]) [0x09, 0x20]
    (.literal [0x61, 0x2e, 0x20, 0x62] [0x40, 0x65, 0x6e]) [] [0x0d] none]

theorem plainLines_read :
    readAll (document plainLines (.blank [])) = .ok (triples plainLines (.blank [])) :=
  readAll_document plainLines (.blank []) (by
    unfold plainLines
    simp [Line.Plain, Line.NTriples, Line.Blank, Spaces, Term.Valid, Term.IsNode, isspace,
      Line.writeComment])

/-- `<s> <p> <o> . # c` -/
def remarked : Line :=
  .statement [] (.iri [0x73]) [0x20] (.iri [0x70]) [0x20] (.iri [0x6f]) [0x20] [0x20]
    (some [0x20, 0x63])

/-- `a b c d.` -/
def fourWords : Line := .other [0x61, 0x20, 0x62, 0x20, 0x63, 0x20, 0x64, 0x2e]

theorem head?_lead {lead rest : Text} (h : Spaces lead) {c : UInt8}
    (hc : (lead ++ rest).head? = some c) (hspace : isspace c = false) : rest.head? = some c := by
  cases lead with
  | nil => exact hc
  | cons x lead =>
    cases hc
    rw [h c List.mem_cons_self] at hspace
    cases hspace

theorem fourWords_valid : fourWords.Valid := by
  refine ⟨by decide, fun line hline heq => ?_⟩
  have hhead := congrArg List.head? heq
  change line.write.head? = some 0x61 at hhead
  cases line with
  | blank ws =>
    rw [← List.append_nil (Line.write _)] at hhead
    cases head?_lead hline.1 hhead rfl
  | comment ws chars => cases head?_lead hline.1.1 hhead rfl
  | statement lead s gap p gap' o beforeDot trail remark =>
    obtain ⟨hlead, hs, _⟩ := hline
    unfold Line.write at hhead
    simp only [List.append_assoc] at hhead
    have hhead := head?_lead hlead.1 hhead rfl
    cases s with
    | iri ref => cases hhead
    | blankNode label => cases hhead
    | literal chars suffix => exact hs.2
  | other chars => exact hline

/-- The statement in front of a comment is lost, and words that are no statement are read as one. -/
theorem remarked_lost :
    (remarked.Valid ∧ readAll (document [] remarked) ≠ .ok (triples [] remarked)) ∧
      fourWords.Valid ∧ readAll (document [] fourWords) ≠ .ok (triples [] fourWords) := by
  refine ⟨⟨?_, ?_⟩, fourWords_valid, ?_⟩
  · unfold remarked
    simp [Line.Valid, Line.NTriples, Line.Blank, Spaces, Term.Valid, Term.IsNode, isspace,
      Line.writeComment]
  · rw [readAll_eq]
    decide +kernel
  · rw [readAll_eq]
    decide +kernel

end Acts.Actslib.Rdf
