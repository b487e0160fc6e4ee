import Acts.Actslib.Io

/-!
# Compressed components (`rdf.hpp`, `raio.hpp`)

A node is its id, the length of the prefix shared with the string before it, and the rest of its
string up to a NUL.

* `Component`, `StringComponent` — a string in a buffer.
* `Writer.writeNode`, `Writer.writeEnd` — `CompressComponentWriter`.
* `Reader.hasNode`, `Reader.node`, `Reader.advance` — `CompressComponentReader`.
* `reads_written` — **a reader yields what was written.**
-/

set_option autoImplicit false

namespace Acts.Actslib.Raio

open Io

/-! ## Strings -/

/-- `length` bytes of a buffer, which has less than `2 ^ 63` of them as every object has. -/
structure Component where
  buffer : List UInt8
  offset : Nat
  length : Nat
  fits : offset + length ≤ buffer.length
  addressable : buffer.length < 2 ^ 63
  deriving DecidableEq

namespace Component

/-- The string. -/
def text (c : Component) : List UInt8 := (c.buffer.drop c.offset).take c.length

/-- The loop of `GetDeltaLen`. -/
def deltaLoop (c next : Component) (ml d : Nat) : Nat :=
  if d < ml ∧ next.buffer.getD (next.offset + d) 0 = c.buffer.getD (c.offset + d) 0 then
    deltaLoop c next ml (d + 1)
  else d
termination_by ml - d
decreasing_by omega

def getDeltaLen (c next : Component) : Nat :=
  let ml := if c.length > next.length then next.length else c.length
  deltaLoop c next ml 0

end Component

/-- `std::string::resize`. -/
def resize (str : List UInt8) (len : Nat) : List UInt8 :=
  str.take len ++ List.replicate (len - str.length) 0

/-- `memcpy(str.data() + offset, bytes, …)`. -/
def copyAt (str : List UInt8) (offset : Nat) (bytes : List UInt8) : List UInt8 :=
  str.take offset ++ bytes ++ str.drop (offset + bytes.length)

theorem length_text (c : Component) : c.text.length = c.length := by
  have hfits := c.fits
  unfold Component.text
  simp
  omega

theorem copyAt_resize {str : List UInt8} {offset : Nat} (h : offset ≤ str.length)
    (bytes : List UInt8) :
    copyAt (resize str (offset + bytes.length)) offset bytes = str.take offset ++ bytes := by
  have hlen : (resize str (offset + bytes.length)).length = offset + bytes.length := by
    simp [resize]
    omega
  have htake : (resize str (offset + bytes.length)).take offset = str.take offset := by
    rw [resize, List.take_append_of_le_length (by rw [List.length_take]; omega), List.take_take,
      Nat.min_eq_left (Nat.le_add_right _ _)]
  rw [copyAt, htake, List.drop_eq_nil_of_le (Nat.le_of_eq hlen), List.append_nil]

/-- A component that is all of its own buffer, `strbuf`. -/
structure StringComponent extends Component where
  offset_eq : offset = 0
  length_eq : length = buffer.length
  deriving DecidableEq

theorem StringComponent.text_eq (s : StringComponent) : s.text = s.buffer := by
  rw [Component.text, s.offset_eq, s.length_eq, List.drop_zero, List.take_length]

def StringComponent.new : StringComponent := ⟨⟨[], 0, 0, by decide, by decide⟩, rfl, rfl⟩

theorem replaceString_eq (str : List UInt8) (cmp : Component) :
    copyAt (resize str cmp.length) 0 cmp.text = cmp.text := by
  have hcopy := copyAt_resize (Nat.zero_le str.length) cmp.text
  rw [Nat.zero_add, length_text] at hcopy
  exact hcopy

/-- `ReplaceString`. -/
def StringComponent.replaceString (s : StringComponent) (cmp : Component) : StringComponent where
  buffer := copyAt (resize s.buffer cmp.length) 0 cmp.text
  offset := 0
  length := cmp.length
  fits := by
    rw [replaceString_eq, length_text]
    omega
  addressable := by
    have hfits := cmp.fits
    have haddressable := cmp.addressable
    rw [replaceString_eq, length_text]
    omega
  offset_eq := rfl
  length_eq := by rw [replaceString_eq, length_text]

/-- `std::getline(is, str, '\0')`: the string and the stream behind it. -/
def getline (is : Stream) (str : List UInt8) : List UInt8 × Stream :=
  match is with
  | ⟨bytes, true⟩ => (str, ⟨bytes, true⟩)
  | ⟨[], false⟩ => ([], ⟨[], true⟩)
  | ⟨bytes, false⟩ => (bytes.takeWhile (· != 0), ⟨(bytes.dropWhile (· != 0)).drop 1, false⟩)

structure StreamAppendStringComponent where
  strbuf : List UInt8
  linebuf : List UInt8
  deriving DecidableEq, Repr

/-- `Append`: the line of the stream behind the first `offset` bytes. -/
def StreamAppendStringComponent.append (s : StreamAppendStringComponent) (is : Stream)
    (offset : Nat) : StreamAppendStringComponent × Stream :=
  if offset ≠ 0 then
    if is.failed then (s, is)
    else
      let (linebuf, is) := getline is s.linebuf
      if is.failed then ({ s with linebuf }, is)
      else
        (⟨copyAt (resize s.strbuf (offset + linebuf.length)) offset linebuf, linebuf⟩, is)
  else
    let (strbuf, is) := getline is s.strbuf
    ({ s with strbuf }, is)

/-! ## Writer -/

structure Writer where
  os : List UInt8
  last : StringComponent
  deriving DecidableEq

namespace Writer

def new (os : List UInt8) : Writer := ⟨os, .new⟩

def writeNode (w : Writer) (id : Nat) (component : Component) : Writer :=
  let delta := w.last.getDeltaLen component
  let os := w.os ++ encodeVByte id ++ encodeVByte delta
  let os :=
    if component.length ≠ delta then
      os ++ ((component.buffer.drop (component.offset + delta)).take (component.length - delta))
    else os
  ⟨os ++ [0], w.last.replaceString component⟩

def writeEnd (w : Writer) : Writer :=
  { w with os := w.os ++ encodeVByte 0 ++ encodeVByte 4 ++ encodeVByte 5 ++ encodeVByte 6 }

end Writer

/-! ## Reader -/

inductive RaioError where
  | vbyte (error : VByteError)
  /-- "Empty iterator" -/
  | emptyIterator
  /-- "Invalid stream after compress read" -/
  | invalidStream
  /-- "Invalid when checking end" -/
  | invalidEnd
  /-- "Can't find compress nodes file end of stream" -/
  | noEnd
  deriving DecidableEq, Repr

structure IdComponent where
  comp : StreamAppendStringComponent
  id : Nat
  deriving DecidableEq, Repr

structure Reader where
  is : Stream
  next : IdComponent
  nextWait : Bool
  remaining : Bool
  deriving DecidableEq, Repr

namespace Reader

def new (is : Stream) : Reader := ⟨is, ⟨⟨[], []⟩, 0⟩, false, true⟩

/-- `operator++`. -/
def advance (r : Reader) : Reader := { r with nextWait := false }

/-- A number of the stream. -/
def vbyte (is : Stream) : Except RaioError (Nat × Stream) := (decodeVByte is).mapError .vbyte

/-- `CheckEnd`; what does not match ends it. -/
def checkEnd (is : Stream) : Except RaioError (Bool × Stream) := do
  let (four, is) ← vbyte is
  if four ≠ 4 then return (false, is)
  let (five, is) ← vbyte is
  if five ≠ 5 then return (false, is)
  let (six, is) ← vbyte is
  return (six == 6, is)

/-- `operator bool`; `debug` is the macro `DEBUG`. -/
def hasNode (debug : Bool) (r : Reader) : Except RaioError (Bool × Reader) := do
  if r.nextWait then return (true, r)
  if !r.remaining then return (false, r)
  if debug && r.is.failed then throw .invalidStream
  let (id, is) ← vbyte r.is
  let r := { r with is, next := { r.next with id } }
  if id = 0 then
    let (ended, is) ← checkEnd r.is
    if !ended then
      if is.failed then throw .invalidEnd
      throw .noEnd
    return (false, { r with is, remaining := false })
  let (delta, is) ← vbyte r.is
  let (comp, is) := r.next.comp.append is delta
  return (true, { r with is, next := { r.next with comp }, nextWait := true })

/-- `operator*`. -/
def node (debug : Bool) (r : Reader) : Except RaioError (IdComponent × Reader) := do
  let (more, r) ← r.hasNode debug
  if !more then throw .emptyIterator
  return (r.next, r)

/-- `for (; reader; ++reader) { … *reader … }`; `none` when `fuel` nodes did not end it. -/
def readAll (debug : Bool) : Nat → Reader →
    Except RaioError (Option (List (Nat × List UInt8) × Reader))
  | 0, _ => return none
  | fuel + 1, r => do
    let (more, r) ← r.hasNode debug
    if !more then return some ([], r)
    let (n, r) ← r.node debug
    let rest ← readAll debug fuel r.advance
    return rest.map fun (nodes, r) => ((n.id, n.comp.strbuf) :: nodes, r)

end Reader

/-! ## Shared prefixes -/

namespace Component

variable {c next : Component}

theorem getElem?_text (c : Component) {d : Nat} (h : d < c.length) :
    c.text[d]? = some (c.buffer.getD (c.offset + d) 0) := by
  have hfits := c.fits
  rw [text, List.getElem?_take_of_lt h, List.getElem?_drop, List.getD_eq_getElem?_getD]
  rw [List.getElem?_eq_getElem (by omega)]
  rfl

theorem deltaLoop_spec {ml d : Nat} (hc : ml ≤ c.length) (hnext : ml ≤ next.length) (hd : d ≤ ml)
    (htake : next.text.take d = c.text.take d) :
    deltaLoop c next ml d ≤ ml ∧
      next.text.take (deltaLoop c next ml d) = c.text.take (deltaLoop c next ml d) := by
  induction d using deltaLoop.induct c next ml with
  | case1 d h ih =>
    unfold deltaLoop
    rw [if_pos h]
    refine ih h.1 ?_
    rw [List.take_add_one, List.take_add_one, htake, getElem?_text next (by omega),
      getElem?_text c (by omega), h.2]
  | case2 d h =>
    unfold deltaLoop
    rw [if_neg h]
    exact ⟨hd, htake⟩

/-- The strings share a prefix of that length. -/
theorem getDeltaLen_spec (c next : Component) :
    c.getDeltaLen next ≤ c.length ∧ c.getDeltaLen next ≤ next.length ∧
      next.text.take (c.getDeltaLen next) = c.text.take (c.getDeltaLen next) := by
  have hml : ∀ ml, ml ≤ c.length → ml ≤ next.length → deltaLoop c next ml 0 ≤ c.length ∧
      deltaLoop c next ml 0 ≤ next.length ∧
        next.text.take (deltaLoop c next ml 0) = c.text.take (deltaLoop c next ml 0) := by
    intro ml hc hnext
    obtain ⟨hle, htake⟩ := deltaLoop_spec hc hnext (Nat.zero_le ml) rfl
    exact ⟨Nat.le_trans hle hc, Nat.le_trans hle hnext, htake⟩
  unfold getDeltaLen
  dsimp only
  split
  · rename_i h
    exact hml _ (Nat.le_of_lt h) (Nat.le_refl _)
  · rename_i h
    exact hml _ (Nat.le_refl _) (Nat.le_of_not_lt h)

/-- The string is the shared prefix and what is written behind it. -/
theorem take_append_drop (c next : Component) :
    c.text.take (c.getDeltaLen next) ++ next.text.drop (c.getDeltaLen next) = next.text := by
  rw [← (getDeltaLen_spec c next).2.2, List.take_append_drop]

end Component

/-! ## What is written -/

/-- The bytes of a node behind `last`. -/
def nodeBytes (last : StringComponent) (id : Nat) (component : Component) : List UInt8 :=
  encodeVByte id ++ encodeVByte (last.getDeltaLen component) ++
    component.text.drop (last.getDeltaLen component) ++ [0]

def endBytes : List UInt8 := encodeVByte 0 ++ encodeVByte 4 ++ encodeVByte 5 ++ encodeVByte 6

theorem text_replaceString (s : StringComponent) (cmp : Component) :
    (s.replaceString cmp).text = cmp.text := by
  rw [StringComponent.text_eq]
  exact replaceString_eq s.buffer cmp

theorem os_writeNode (w : Writer) (id : Nat) (component : Component) :
    (w.writeNode id component).os = w.os ++ nodeBytes w.last id component := by
  have hrest : (component.buffer.drop (component.offset + w.last.getDeltaLen component)).take
      (component.length - w.last.getDeltaLen component) =
        component.text.drop (w.last.getDeltaLen component) := by
    rw [Component.text, List.drop_take, List.drop_drop]
  unfold Writer.writeNode nodeBytes
  dsimp only
  rw [hrest]
  by_cases hall : component.length = w.last.getDeltaLen component
  · have hnil : component.text.drop (w.last.getDeltaLen component) = [] := by
      rw [← hall, ← length_text, List.drop_length]
    rw [if_neg (not_not.mpr hall), hnil]
    simp
  · rw [if_pos hall]
    simp

/-! ## What is read -/

theorem getline_eq {line : List UInt8} (h : 0 ∉ line) (rest str : List UInt8) :
    getline ⟨line ++ 0 :: rest, false⟩ str = (line, ⟨rest, false⟩) := by
  have hall : ∀ b ∈ line, (b != 0) = true := by
    intro b hb
    simp only [bne_iff_ne]
    exact ne_of_mem_of_not_mem hb h
  unfold getline
  split
  · rename_i heq
    cases heq
  · rename_i heq
    simp at heq
  · rename_i bytes _ heq
    cases heq
    rw [List.takeWhile_append_of_pos hall, List.dropWhile_append_of_pos hall]
    simp

/-- The string of a node from the one before it. -/
theorem append_eq {s : StreamAppendStringComponent} {line : List UInt8} (h : 0 ∉ line)
    {d : Nat} (hd : d ≤ s.strbuf.length) (rest : List UInt8) :
    ∃ linebuf, s.append ⟨line ++ 0 :: rest, false⟩ d =
      (⟨s.strbuf.take d ++ line, linebuf⟩, ⟨rest, false⟩) := by
  unfold StreamAppendStringComponent.append
  rw [getline_eq h, getline_eq h]
  split
  · exact ⟨line, by simp [copyAt_resize hd]⟩
  · rename_i hzero
    have hzero : d = 0 := by omega
    exact ⟨s.linebuf, by simp [hzero]⟩

theorem vbyte_eq {value : Nat} (h : value < 2 ^ 63) (rest : List UInt8) :
    Reader.vbyte ⟨encodeVByte value ++ rest, false⟩ = .ok (value, ⟨rest, false⟩) := by
  unfold Reader.vbyte
  rw [decodeVByte_encodeVByte h]
  rfl

theorem checkEnd_eq (rest : List UInt8) :
    Reader.checkEnd ⟨encodeVByte 4 ++ (encodeVByte 5 ++ (encodeVByte 6 ++ rest)), false⟩ =
      .ok (true, ⟨rest, false⟩) := by
  unfold Reader.checkEnd
  rw [vbyte_eq (by decide)]
  show (Reader.vbyte _ >>= fun _ => _) = _
  rw [vbyte_eq (by decide)]
  show (Reader.vbyte _ >>= fun _ => _) = _
  rw [vbyte_eq (by decide)]
  rfl

/-- Between two nodes, or before the first. -/
structure Reader.Ready (r : Reader) (bytes : List UInt8) : Prop where
  stream : r.is = ⟨bytes, false⟩
  nextWait : r.nextWait = false
  remaining : r.remaining = true

variable {r : Reader} {bytes rest : List UInt8} (debug : Bool)

/-- The end is read once. -/
theorem hasNode_end (h : r.Ready (endBytes ++ rest)) :
    r.hasNode debug = .ok (false, { r with
      is := ⟨rest, false⟩, next := { r.next with id := 0 }, remaining := false }) := by
  obtain ⟨is, next, nextWait, remaining⟩ := r
  obtain ⟨rfl, rfl, rfl⟩ := h
  unfold Reader.hasNode endBytes
  have hzero (bytes : List UInt8) :
      Reader.vbyte ⟨encodeVByte 0 ++ bytes, false⟩ = .ok (0, ⟨bytes, false⟩) :=
    vbyte_eq (by decide) bytes
  simp only [List.append_assoc, Bool.and_false, Bool.false_eq_true, Bool.not_true, if_false]
  rw [hzero]
  simp only [bind, Except.bind, if_true]
  rw [checkEnd_eq]
  rfl

/-- A node is read. -/
theorem hasNode_node {id d : Nat} {line : List UInt8} (hid : 0 < id ∧ id < 2 ^ 63)
    (hd : d < 2 ^ 63) (hdle : d ≤ r.next.comp.strbuf.length) (hline : 0 ∉ line)
    (h : r.Ready (encodeVByte id ++ (encodeVByte d ++ (line ++ 0 :: rest)))) :
    ∃ linebuf, r.hasNode debug = .ok (true,
      ⟨⟨rest, false⟩, ⟨⟨r.next.comp.strbuf.take d ++ line, linebuf⟩, id⟩, true, true⟩) := by
  obtain ⟨is, next, nextWait, remaining⟩ := r
  obtain ⟨rfl, rfl, rfl⟩ := h
  obtain ⟨linebuf, happend⟩ := append_eq hline hdle rest
  refine ⟨linebuf, ?_⟩
  unfold Reader.hasNode
  simp only [Bool.and_false, Bool.false_eq_true, Bool.not_true, if_false]
  rw [vbyte_eq hid.2]
  simp only [bind, Except.bind]
  rw [if_neg (Nat.pos_iff_ne_zero.mp hid.1), vbyte_eq hd]
  dsimp only
  rw [happend]
  rfl

/-! ## Round trip -/

/-- What a writer has written after its end. -/
def written (nodes : List (Nat × Component)) : List UInt8 :=
  (nodes.foldl (fun w n => w.writeNode n.1 n.2) (Writer.new [])).writeEnd.os

/-- The bytes of a list of nodes behind `last`. -/
def nodesBytes (last : StringComponent) : List (Nat × Component) → List UInt8
  | [] => []
  | n :: nodes => nodeBytes last n.1 n.2 ++ nodesBytes (last.replaceString n.2) nodes

theorem os_foldl (nodes : List (Nat × Component)) (w : Writer) :
    (nodes.foldl (fun w n => w.writeNode n.1 n.2) w).os = w.os ++ nodesBytes w.last nodes := by
  induction nodes generalizing w with
  | nil => simp [nodesBytes]
  | cons n nodes ih =>
    rw [List.foldl_cons, ih, os_writeNode, List.append_assoc]
    rfl

theorem written_eq (nodes : List (Nat × Component)) :
    written nodes = nodesBytes .new nodes ++ endBytes := by
  have hfold := os_foldl nodes (Writer.new [])
  simp only [Writer.new, List.nil_append] at hfold
  unfold written Writer.writeEnd endBytes Writer.new
  simp [hfold]

/-- The next node is read by a reader whose string is the one written last. -/
theorem hasNode_nodes {n : Nat × Component} {nodes : List (Nat × Component)}
    (hn : 0 < n.1 ∧ n.1 < 2 ^ 63 ∧ 0 ∉ n.2.text) {last : StringComponent}
    (hready : r.Ready (nodesBytes last (n :: nodes) ++ (endBytes ++ rest)))
    (hlast : r.next.comp.strbuf = last.text) :
    ∃ linebuf, r.hasNode debug = .ok (true,
      ⟨⟨nodesBytes (last.replaceString n.2) nodes ++ (endBytes ++ rest), false⟩,
        ⟨⟨n.2.text, linebuf⟩, n.1⟩, true, true⟩) := by
  obtain ⟨hpos, hid, hnul⟩ := hn
  obtain ⟨hdlast, hdn, -⟩ := Component.getDeltaLen_spec last.toComponent n.2
  have hd : last.getDeltaLen n.2 < 2 ^ 63 := by
    have hfits := n.2.fits
    have haddressable := n.2.addressable
    omega
  have hdle : last.getDeltaLen n.2 ≤ r.next.comp.strbuf.length := by
    rw [hlast, length_text]
    exact hdlast
  have hline : 0 ∉ n.2.text.drop (last.getDeltaLen n.2) := mt List.mem_of_mem_drop hnul
  have hready' : r.Ready (encodeVByte n.1 ++ (encodeVByte (last.getDeltaLen n.2) ++
      (n.2.text.drop (last.getDeltaLen n.2) ++
        0 :: (nodesBytes (last.replaceString n.2) nodes ++ (endBytes ++ rest))))) := by
    simpa [nodesBytes, nodeBytes] using hready
  obtain ⟨linebuf, hnode⟩ := hasNode_node debug ⟨hpos, hid⟩ hd hdle hline hready'
  rw [hlast, Component.take_append_drop] at hnode
  exact ⟨linebuf, hnode⟩

/-- The loop over a reader whose string is the one written last. -/
theorem readAll_eq {nodes : List (Nat × Component)}
    (hnodes : ∀ n ∈ nodes, 0 < n.1 ∧ n.1 < 2 ^ 63 ∧ 0 ∉ n.2.text) {last : StringComponent}
    (hready : r.Ready (nodesBytes last nodes ++ (endBytes ++ rest)))
    (hlast : r.next.comp.strbuf = last.text) {fuel : Nat} (hfuel : nodes.length < fuel) :
    ∃ r', Reader.readAll debug fuel r = .ok (some (nodes.map (fun n => (n.1, n.2.text)), r')) ∧
      r'.is = ⟨rest, false⟩ ∧ r'.remaining = false ∧ r'.nextWait = false := by
  induction nodes generalizing r last fuel with
  | nil =>
    obtain ⟨fuel, rfl⟩ := Nat.exists_eq_succ_of_ne_zero (Nat.pos_iff_ne_zero.mp hfuel)
    refine ⟨{ r with is := ⟨rest, false⟩, next := { r.next with id := 0 }, remaining := false }, ?_,
      rfl, rfl, hready.nextWait⟩
    unfold Reader.readAll
    rw [hasNode_end debug hready]
    rfl
  | cons n nodes ih =>
    obtain ⟨fuel, rfl⟩ := Nat.exists_eq_succ_of_ne_zero (Nat.ne_of_gt (Nat.zero_lt_of_lt hfuel))
    obtain ⟨linebuf, hnode⟩ := hasNode_nodes debug (hnodes n List.mem_cons_self) hready hlast
    have hnext : (Reader.mk
        ⟨nodesBytes (last.replaceString n.2) nodes ++ (endBytes ++ rest), false⟩
          ⟨⟨n.2.text, linebuf⟩, n.1⟩ false true).Ready
        (nodesBytes (last.replaceString n.2) nodes ++ (endBytes ++ rest)) := ⟨rfl, rfl, rfl⟩
    obtain ⟨r', hread, hend⟩ := ih (fun n hn => hnodes n (List.mem_cons_of_mem _ hn)) hnext
      (text_replaceString last n.2).symm (Nat.lt_of_succ_lt_succ hfuel)
    refine ⟨r', ?_, hend⟩
    unfold Reader.readAll
    rw [hnode]
    show (Reader.readAll debug fuel _ >>= fun _ => _) = _
    simp only [Reader.advance]
    rw [hread]
    rfl

/-- **A reader yields the nodes that were written, in order, and ends behind them.** -/
theorem reads_written {nodes : List (Nat × Component)}
    (hnodes : ∀ n ∈ nodes, 0 < n.1 ∧ n.1 < 2 ^ 63 ∧ 0 ∉ n.2.text) (rest : List UInt8)
    {fuel : Nat} (hfuel : nodes.length < fuel) :
    ∃ r, Reader.readAll debug fuel (.new ⟨written nodes ++ rest, false⟩) =
        .ok (some (nodes.map (fun n => (n.1, n.2.text)), r)) ∧
      r.is = ⟨rest, false⟩ ∧ r.hasNode debug = .ok (false, r) := by
  have hready : (Reader.new ⟨written nodes ++ rest, false⟩).Ready
      (nodesBytes .new nodes ++ (endBytes ++ rest)) := by
    refine ⟨?_, rfl, rfl⟩
    rw [written_eq, List.append_assoc]
    rfl
  obtain ⟨r, hread, his, hremaining, hwait⟩ := readAll_eq debug hnodes hready rfl hfuel
  refine ⟨r, hread, his, ?_⟩
  unfold Reader.hasNode
  rw [hwait, hremaining]
  rfl

/-- A node of its own buffer, one that shares a prefix with it, and an empty one. -/
theorem three_nodes_read :
    ∃ r, Reader.readAll false 4 (.new ⟨written [
        (1, ⟨[116, 101, 115, 116, 49], 0, 5, by decide, by decide⟩),
        (0x7FFFFFFFFFFFFFFF, ⟨[97, 116, 101, 115], 1, 3, by decide, by decide⟩),
        (3, ⟨[], 0, 0, by decide, by decide⟩)] ++ [], false⟩) =
        .ok (some ([(1, [116, 101, 115, 116, 49]), (0x7FFFFFFFFFFFFFFF, [116, 101, 115]), (3, [])],
          r)) ∧
      r.is = ⟨[], false⟩ ∧ r.hasNode false = .ok (false, r) := by
  apply reads_written false
  · decide
  · decide

end Acts.Actslib.Raio
