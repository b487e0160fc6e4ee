import Acts.Actslib.Compact
import Acts.Lib.Checked

/-!
# Bitmap triples indexes (`hdt_disk_sort_idx.cpp`)

* `SequenceLog`, `Bitmap64`, `HDTBitmapTriplesIndex` — a loaded index.
* `HDTBitmapTriplesIndexIterator` — the iterator; `triples` is all that it yields.
* `encoded` — the triples of the index: one for each entry of `seqZ`.
* `objects_drain` — the objects that are yielded: the second one is missing.
* `triples_encoded_iff` — **only an empty index is iterated as it is encoded.**
-/

set_option autoImplicit false

namespace Acts.Actslib.HdtIndex

open Cells Acts.Actslib.Compact

/-! ## Indexes -/

inductive IndexError where
  /-- "Assert error: !(idx < numwords)" -/
  | wordOutside (idx : Nat)
  /-- "Assert error: !(word < words)" -/
  | byteOutside (word : Nat)
  /-- "End of the iterator" -/
  | atEnd
  deriving DecidableEq, Repr

/-- The words of `data` with `lastWord` behind them. -/
structure SequenceLog where
  numBits : Nat
  words : List (BitVec 64)
  numentries : Nat
  deriving DecidableEq, Repr

namespace SequenceLog

def getWord (s : SequenceLog) (idx : Nat) : Except IndexError (BitVec 64) :=
  match s.words[idx]? with
  | some word => .ok word
  | none => .error (.wordOutside idx)

/-- `operator[]`. -/
def get (s : SequenceLog) (idx : Nat) : Except IndexError (BitVec 64) := do
  if s.numBits = 0 then return 0
  let bitPos := idx * s.numBits % 2 ^ 64
  let i := bitPos >>> 6
  let j := bitPos &&& 63
  if j + s.numBits ≤ 64 then
    let word ← s.getWord i
    return shr (shl word (64 - j - s.numBits)) (64 - s.numBits)
  else
    let word ← s.getWord i
    let next ← s.getWord (i + 1)
    return shr word j ||| shr (shl next ((64 <<< 1) - j - s.numBits)) (64 - s.numBits)

end SequenceLog

structure Bitmap64 where
  data : List (BitVec 8)
  numbits : Nat
  deriving DecidableEq, Repr

/-- `operator[]`. -/
def Bitmap64.get (b : Bitmap64) (idx : Nat) : Except IndexError Bool :=
  let word := idx >>> 3
  let bitIndex := idx &&& 7
  match b.data[word]? with
  | some byte => .ok (byte &&& (1#8 <<< bitIndex) != 0)
  | none => .error (.byteOutside word)

structure HDTBitmapTriplesIndex where
  seqY : SequenceLog
  bitY : Bitmap64
  seqZ : SequenceLog
  bitZ : Bitmap64
  deriving DecidableEq, Repr

/-! ## The iterator -/

structure TripleID where
  s : Nat
  p : Nat
  o : Nat
  deriving DecidableEq, Repr

structure HDTBitmapTriplesIndexIterator where
  curr : TripleID
  y : Nat
  z : Nat
  stop : Nat
  deriving DecidableEq, Repr

variable (src : HDTBitmapTriplesIndex)

/-- The constructor. -/
def createIterator : Except IndexError HDTBitmapTriplesIndexIterator := do
  let stop := src.seqZ.numentries
  if 1 ≠ stop then
    let p ← src.seqY.get 0
    let o ← src.seqZ.get 0
    return ⟨⟨1, p.toNat, o.toNat⟩, 1, 1, stop⟩
  else return ⟨⟨0, 0, 0⟩, 1, 1, stop⟩

/-- The test of `bitZ`, with the step to a new predicate. -/
def nextPredicate (it : HDTBitmapTriplesIndexIterator) :
    Except IndexError HDTBitmapTriplesIndexIterator := do
  if !(← src.bitZ.get it.z) then return it
  let newSubject ← src.bitY.get it.y
  let p ← src.seqY.get (it.y + 1)
  let s := if newSubject then it.curr.s + 1 else it.curr.s
  return { it with curr := ⟨s, p.toNat, it.curr.o⟩, y := it.y + 1 }

/-- `operator++`. -/
def next (it : HDTBitmapTriplesIndexIterator) :
    Except IndexError HDTBitmapTriplesIndexIterator :=
  if ¬ it.z < it.stop then .error .atEnd
  else if it.z + 1 = it.stop then .ok { it with z := it.z + 1 }
  else do
    let it ← nextPredicate src it
    let o ← src.seqZ.get (it.z + 1)
    return { it with curr := { it.curr with o := o.toNat }, z := it.z + 1 }

/-- The loop `for (; it; ++it)` over an iterator, with the turns that it can take. -/
def drain : Nat → HDTBitmapTriplesIndexIterator → Except IndexError (List TripleID)
  | 0, _ => .ok []
  | turns + 1, it =>
    if it.z < it.stop then do
      let it' ← next src it
      let rest ← drain turns it'
      return it.curr :: rest
    else .ok []

def triples : Except IndexError (List TripleID) := do
  let it ← createIterator src
  drain src it.stop it

/-! ## What an index encodes -/

/-- Entry `i` of a sequence. -/
def SequenceLog.entry (s : SequenceLog) (i : Nat) : Nat := field s.words (i * s.numBits) s.numBits

/-- The number of bits of `b` that are set before `i`. -/
def Bitmap64.rank (b : Bitmap64) (i : Nat) : Nat :=
  ((List.range i).filter fun k => bitAt b.data k).length

/-- The triple of entry `i` of `seqZ`: a set bit ends a list. -/
def encodedAt (i : Nat) : TripleID :=
  let y := src.bitZ.rank i
  ⟨src.bitY.rank y + 1, src.seqY.entry y, src.seqZ.entry i⟩

def encoded : List TripleID := (List.range src.seqZ.numentries).map (encodedAt src)

/-- A sequence as `Load` leaves it, over a buffer of less than `2 ^ 61` bytes. -/
structure SequenceLog.Loaded (s : SequenceLog) : Prop where
  le : s.numBits ≤ 64
  length : s.words.length = (s.numBits * s.numentries + 63) / 64
  size : 64 * s.words.length ≤ 2 ^ 64

/-- A bitmap as `Load` leaves it. -/
structure Bitmap64.Loaded (b : Bitmap64) : Prop where
  length : b.data.length = (b.numbits + 7) / 8

/-- An index that loads, whose bits end the last list and as many lists as there are entries. -/
structure WellFormed : Prop where
  seqY : src.seqY.Loaded
  bitY : src.bitY.Loaded
  seqZ : src.seqZ.Loaded
  bitZ : src.bitZ.Loaded
  sizeY : src.bitY.numbits = src.seqY.numentries
  sizeZ : src.bitZ.numbits = src.seqZ.numentries
  lists : src.bitZ.rank src.seqZ.numentries = src.seqY.numentries
  lastZ : 0 < src.seqZ.numentries → bitAt src.bitZ.data (src.seqZ.numentries - 1) = true
  lastY : 0 < src.seqY.numentries → bitAt src.bitY.data (src.seqY.numentries - 1) = true

section Reads

variable {s : SequenceLog} {i : Nat}

/-- The same words as a `Sequence`. -/
def SequenceLog.toSequence (s : SequenceLog) : Sequence :=
  ⟨s.words, s.words.length, s.numBits, BitVec.ofNat 64 (2 ^ s.numBits - 1)⟩

theorem SequenceLog.Loaded.wellFormed (hs : s.Loaded) (hpos : s.numBits ≠ 0) :
    s.toSequence.WellFormed where
  pos := Nat.one_le_iff_ne_zero.mpr hpos
  le := hs.le
  size := hs.size
  maxValue := by
    have hle : 2 ^ s.numBits ≤ 2 ^ 64 := Nat.pow_le_pow_right (by decide) hs.le
    have hone := Nat.one_le_two_pow (n := s.numBits)
    exact Nat.mod_eq_of_lt (by omega)

theorem SequenceLog.Loaded.inRange (hs : s.Loaded) (hi : i < s.numentries) :
    s.toSequence.InRange i := by
  have hmul : (i + 1) * s.numBits ≤ s.numentries * s.numBits := Nat.mul_le_mul_right _ hi
  have hlen := hs.length
  rw [Nat.succ_mul] at hmul
  rw [Nat.mul_comm] at hlen
  show i * s.numBits + s.numBits ≤ 64 * s.words.length
  omega

theorem SequenceLog.getWord_eq {k : Nat} (h : k < s.words.length) :
    s.getWord k = .ok (s.words.getD k 0) := by
  simp only [SequenceLog.getWord, List.getElem?_eq_getElem h, List.getD_eq_getElem?_getD,
    Option.getD_some]

/-- In range the assertions of `GetWord` hold. -/
theorem SequenceLog.get_toSequence (hs : s.Loaded) (hpos : s.numBits ≠ 0) (hi : i < s.numentries) :
    s.get i = .ok (s.toSequence.get i) := by
  have hin := hs.inRange hi
  have hoff := Sequence.offset_eq (hs.wellFormed hpos) hin
  have hle := hs.le
  have hand : ∀ x : Nat, x &&& 63 = x % 64 := fun x => Nat.and_two_pow_sub_one_eq_mod x 6
  have hshift : ∀ x : Nat, x >>> 6 = x / 64 := fun x => by rw [Nat.shiftRight_eq_div_pow]
  simp only [Sequence.InRange, SequenceLog.toSequence] at hin hoff
  unfold SequenceLog.get Sequence.get SequenceLog.toSequence
  simp only [if_neg hpos, hoff, hand, hshift]
  by_cases htwo : i * s.numBits % 64 + s.numBits > 64
  · rw [if_neg (by omega), if_pos htwo, SequenceLog.getWord_eq (by omega),
      SequenceLog.getWord_eq (by omega)]
    rfl
  · rw [if_pos (by omega), if_neg htwo, SequenceLog.getWord_eq (by omega)]
    rfl

/-- `operator[]` reads the entry. -/
theorem SequenceLog.get_eq (hs : s.Loaded) (hi : i < s.numentries) :
    ∃ v, s.get i = .ok v ∧ v.toNat = s.entry i := by
  by_cases hpos : s.numBits = 0
  · refine ⟨0, by simp [SequenceLog.get, hpos]; rfl, ?_⟩
    simp [SequenceLog.entry, field, hpos, Nat.mod_one]
  · refine ⟨_, SequenceLog.get_toSequence hs hpos hi, Nat.eq_of_testBit_eq fun j => ?_⟩
    have hwf := hs.wellFormed hpos
    have hin := hs.inRange hi
    rw [SequenceLog.entry, testBit_field (by decide), BitVec.testBit_toNat]
    by_cases hj : j < s.numBits
    · rw [Sequence.getLsbD_get hwf hin hj, decide_eq_true hj, Bool.true_and]
      rfl
    · rw [Sequence.getLsbD_get_of_ge hwf hin (Nat.le_of_not_lt hj), decide_eq_false hj,
        Bool.false_and]

end Reads

/-! ## What the iterator yields -/

section Iterates

variable {src} {it it' : HDTBitmapTriplesIndexIterator} {turns : Nat} {ts : List TripleID}

theorem nextPredicate_keeps (h : nextPredicate src it = .ok it') :
    it'.z = it.z ∧ it'.stop = it.stop := by
  unfold nextPredicate at h
  obtain ⟨last, -, h⟩ := ok_of_bind h
  split at h
  · cases h
    exact ⟨rfl, rfl⟩
  · obtain ⟨newSubject, -, h⟩ := ok_of_bind h
    obtain ⟨v, -, h⟩ := ok_of_bind h
    cases h
    exact ⟨rfl, rfl⟩

/-- A step moves the cursor by one; before the end it stands at the entry behind it. -/
theorem next_keeps (hz : src.seqZ.Loaded) (hstop : it.stop = src.seqZ.numentries)
    (h : next src it = .ok it') :
    it'.z = it.z + 1 ∧ it'.stop = it.stop ∧
      (it.z + 1 < it.stop → it'.curr.o = src.seqZ.entry (it.z + 1)) := by
  unfold next at h
  split at h
  · cases h
  split at h
  · cases h
    exact ⟨rfl, rfl, fun hlt => by omega⟩
  · rename_i hin _
    obtain ⟨moved, hmoved, h⟩ := ok_of_bind h
    obtain ⟨o, ho, h⟩ := ok_of_bind h
    cases h
    obtain ⟨hmz, hmstop⟩ := nextPredicate_keeps hmoved
    obtain ⟨v, hv, hval⟩ := SequenceLog.get_eq hz (i := it.z + 1) (by omega)
    rw [hmz, hv] at ho
    cases ho
    exact ⟨by rw [hmz], hmstop, fun _ => hval⟩

/-- **The objects behind the current one are those of the entries behind the cursor.** -/
theorem objects_drain (hz : src.seqZ.Loaded) (hstop : it.stop = src.seqZ.numentries)
    (hturns : it.stop - it.z ≤ turns) (hlt : it.z < it.stop) (h : drain src turns it = .ok ts) :
    ts.map TripleID.o =
      it.curr.o :: (List.range' (it.z + 1) (it.stop - it.z - 1)).map src.seqZ.entry := by
  induction turns generalizing it ts with
  | zero => omega
  | succ turns ih =>
    unfold drain at h
    rw [if_pos hlt] at h
    obtain ⟨it', hnext, h⟩ := ok_of_bind h
    obtain ⟨rest, hrest, h⟩ := ok_of_bind h
    cases h
    obtain ⟨hz', hstop', ho⟩ := next_keeps hz hstop hnext
    rw [List.map_cons]
    congr 1
    by_cases hmore : it'.z < it'.stop
    · rw [ih (hstop'.trans hstop) (by omega) hmore hrest, ho (by omega), hz', hstop']
      obtain ⟨k, hk⟩ := Nat.exists_eq_add_of_lt (show it.z + 1 < it.stop by omega)
      rw [hk, show it.z + 1 + k + 1 - it.z - 1 = k + 1 by omega,
        show it.z + 1 + k + 1 - (it.z + 1) - 1 = k by omega, List.range'_succ, List.map_cons]
    · have hnil : rest = [] := by
        cases turns with
        | zero => cases hrest; rfl
        | succ turns =>
          unfold drain at hrest
          rw [if_neg hmore] at hrest
          cases hrest
          rfl
      rw [hnil, show it.stop - it.z - 1 = 0 by omega]
      rfl

/-- An empty sequence is read only when its entries have no bits. -/
theorem SequenceLog.get_empty {s : SequenceLog} (hs : s.Loaded) (hempty : s.numentries = 0)
    {v : BitVec 64} (h : s.get 0 = .ok v) : s.numBits = 0 := by
  by_contra hpos
  have hnil : s.words = [] := List.length_eq_zero_iff.mp (by rw [hs.length, hempty, Nat.mul_zero])
  have hword : ∀ k, s.getWord k = .error (.wordOutside k) := fun k => by
    rw [SequenceLog.getWord, hnil]
    rfl
  unfold SequenceLog.get at h
  simp only [if_neg hpos, hword] at h
  split at h <;> cases h

theorem length_encoded : (encoded src).length = src.seqZ.numentries := by
  rw [encoded, List.length_map, List.length_range]

/-- An index with an entry loses a triple, or its iterator throws. -/
theorem triples_ne_encoded (hwf : WellFormed src) (hsome : src.seqZ.numentries ≠ 0) :
    triples src ≠ .ok (encoded src) := by
  intro h
  unfold triples at h
  obtain ⟨it, hit, h⟩ := ok_of_bind h
  have hlen : (encoded src).length = src.seqZ.numentries := length_encoded
  unfold createIterator at hit
  dsimp only at hit
  split at hit
  · rename_i hone
    obtain ⟨p, -, hit⟩ := ok_of_bind hit
    obtain ⟨o, -, hit⟩ := ok_of_bind hit
    cases hit
    have hobj := congrArg List.length
      (objects_drain hwf.seqZ rfl (Nat.sub_le _ _) (show 1 < src.seqZ.numentries by omega) h)
    simp only [List.length_map, List.length_cons, List.length_range'] at hobj
    omega
  · rename_i hone
    cases hit
    have hstop : src.seqZ.numentries = 1 := by omega
    simp only [hstop, drain, Nat.lt_irrefl, if_false] at h
    rw [← Except.ok.inj h, hstop] at hlen
    cases hlen

/-- **An index is iterated as it is encoded only if it is empty, with sequences of no width: both
cursors start behind the entry that is read first.** -/
theorem triples_encoded_iff (hwf : WellFormed src) :
    triples src = .ok (encoded src) ↔
      src.seqZ.numentries = 0 ∧ src.seqY.numBits = 0 ∧ src.seqZ.numBits = 0 := by
  constructor
  · intro h
    have hempty : src.seqZ.numentries = 0 := by
      by_contra hsome
      exact triples_ne_encoded hwf hsome h
    have hemptyY : src.seqY.numentries = 0 := by
      rw [← hwf.lists, hempty]
      rfl
    unfold triples createIterator at h
    obtain ⟨it, hit, -⟩ := ok_of_bind h
    rw [hempty, if_pos (by decide)] at hit
    obtain ⟨p, hp, hit⟩ := ok_of_bind hit
    obtain ⟨o, ho, -⟩ := ok_of_bind hit
    exact ⟨hempty, SequenceLog.get_empty hwf.seqY hemptyY hp,
      SequenceLog.get_empty hwf.seqZ hempty ho⟩
  · rintro ⟨hempty, hY, hZ⟩
    have hread : ∀ s : SequenceLog, s.numBits = 0 → s.get 0 = .ok 0 := fun s hs => by
      simp only [SequenceLog.get, hs, if_true]
      rfl
    unfold triples createIterator encoded
    rw [hempty, if_pos (by decide), hread _ hY, hread _ hZ]
    rfl

/-- Three objects under one subject and predicate. -/
def threeObjects : HDTBitmapTriplesIndex :=
  ⟨⟨8, [9], 1⟩, ⟨[1], 1⟩, ⟨8, [0x070605], 3⟩, ⟨[4], 3⟩⟩

def emptyIndex : HDTBitmapTriplesIndex := ⟨⟨0, [], 0⟩, ⟨[], 0⟩, ⟨0, [], 0⟩, ⟨[], 0⟩⟩

theorem emptyIndex_triples : triples emptyIndex = .ok (encoded emptyIndex) :=
  (triples_encoded_iff ⟨⟨by decide, by decide, by decide⟩, ⟨by decide⟩,
    ⟨by decide, by decide, by decide⟩, ⟨by decide⟩, rfl, rfl, rfl, by decide, by decide⟩).mpr
    ⟨rfl, rfl, rfl⟩

/-- The object 6 is skipped. -/
theorem threeObjects_skipped :
    WellFormed threeObjects ∧
      encoded threeObjects = [⟨1, 9, 5⟩, ⟨1, 9, 6⟩, ⟨1, 9, 7⟩] ∧
      triples threeObjects = .ok [⟨1, 9, 5⟩, ⟨1, 9, 7⟩] ∧
      ¬ ∀ src, WellFormed src → triples src = .ok (encoded src) := by
  have hwf : WellFormed threeObjects :=
    ⟨⟨by decide, by decide, by decide⟩, ⟨by decide⟩, ⟨by decide, by decide, by decide⟩,
      ⟨by decide⟩, rfl, rfl, by decide, by decide, by decide⟩
  have henc : encoded threeObjects = [⟨1, 9, 5⟩, ⟨1, 9, 6⟩, ⟨1, 9, 7⟩] := by decide +kernel
  have hrun : triples threeObjects = .ok [⟨1, 9, 5⟩, ⟨1, 9, 7⟩] := by rfl
  refine ⟨hwf, henc, hrun, fun h => ?_⟩
  have heq := h threeObjects hwf
  rw [henc, hrun] at heq
  cases heq

end Iterates

end Acts.Actslib.HdtIndex
