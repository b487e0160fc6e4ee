import Mathlib.Algebra.Group.Int.Defs
import Mathlib.Algebra.Group.Nat.Defs
import Mathlib.Algebra.GroupWithZero.Nat
import Mathlib.Data.List.Basic
import Mathlib.Tactic.Common

/-!
# VCDIFF windows (RFC 3284)

The meaning of a VCDIFF window, independent of any decoder:

* `varint` — the big-endian base-128 integers of the format.
* `codeTable` — the default code table, generated by the rules of the RFC rather than listed.
* `Cache` / `address` — the near / same address caches and the nine COPY address modes.
* `resolve` — the instruction stream of a window read against its three sections, as a list of
  operations `Op` with absolute addresses.  It is undefined when a section runs dry, when an
  address is not below the current position, or when a section is left unread.
* `meaning` — the target bytes of a list of operations over the superstring (source segment
  followed by the target bytes produced so far), one byte at a time, so that a COPY may overlap
  the bytes it produces and may run from the segment into the target.
* `split` — the same operations over *two* buffers, the memory from the segment on and the
  target.  `split_eq_meaning`: it is `meaning` as long as no COPY crosses the end of the segment;
  `split_ne_meaning`: otherwise the first byte after the segment can make it differ.
-/

set_option autoImplicit false

namespace Acts.Vcdiff

/-! ## Copying from a growing string -/

section Copy

variable {α : Type}

/-- Append `n` elements of `u`, read one at a time from position `a` of the growing string. -/
def appendCopy (u : List α) (a : Nat) : Nat → List α
  | 0 => u
  | n + 1 =>
    match u[a]? with
    | none => u
    | some b => appendCopy (u ++ [b]) (a + 1) n

theorem appendCopy_prefix (u : List α) (a n : Nat) : ∃ v, appendCopy u a n = u ++ v := by
  induction n generalizing u a with
  | zero => exact ⟨[], by simp [appendCopy]⟩
  | succ n ih =>
    unfold appendCopy
    split
    · exact ⟨[], by simp⟩
    · rename_i b _
      obtain ⟨v, hv⟩ := ih (u ++ [b]) (a + 1)
      exact ⟨b :: v, by simp [hv]⟩

theorem appendCopy_length (u : List α) (a n : Nat) (ha : a < u.length) :
    (appendCopy u a n).length = u.length + n := by
  induction n generalizing u a with
  | zero => simp [appendCopy]
  | succ n ih =>
    have hb : u[a]? = some u[a] := List.getElem?_eq_getElem ha
    simp only [appendCopy, hb]
    rw [ih (u ++ [u[a]]) (a + 1) (by simp; omega)]
    simp; omega

/-- The byte law of an overlapping copy: element `i` of the copy is element `a + i` of the
result. -/
theorem appendCopy_get (u : List α) (a n i : Nat) (ha : a < u.length) (hi : i < n) :
    (appendCopy u a n)[u.length + i]? = (appendCopy u a n)[a + i]? := by
  induction n generalizing u a i with
  | zero => omega
  | succ n ih =>
    have hb : u[a]? = some u[a] := List.getElem?_eq_getElem ha
    simp only [appendCopy, hb]
    cases i with
    | zero =>
      obtain ⟨v, hv⟩ := appendCopy_prefix (u ++ [u[a]]) (a + 1) n
      have hl : u.length < (u ++ [u[a]]).length := by simp
      rw [hv, Nat.add_zero, Nat.add_zero, List.getElem?_append_left hl,
        List.getElem?_append_left (Nat.lt_trans ha hl)]
      simp [List.getElem?_append_left, ha]
    | succ i =>
      have h := ih (u ++ [u[a]]) (a + 1) i (by simp; omega) (by omega)
      simp only [List.length_append, List.length_singleton] at h
      rw [show u.length + (i + 1) = u.length + 1 + i by omega,
        show a + (i + 1) = a + 1 + i by omega]
      exact h

/-- A copy that does not reach the end of the string is a block copy. -/
theorem appendCopy_of_le (u : List α) (a n : Nat) (h : a + n ≤ u.length) :
    appendCopy u a n = u ++ (u.drop a).take n := by
  induction n generalizing u a with
  | zero => simp [appendCopy]
  | succ n ih =>
    have ha : a < u.length := by omega
    have hb : u[a]? = some u[a] := List.getElem?_eq_getElem ha
    simp only [appendCopy, hb]
    rw [ih (u ++ [u[a]]) (a + 1) (by simp; omega)]
    rw [List.drop_append_of_le_length (by omega), List.take_append_of_le_length (by simp; omega)]
    rw [List.drop_eq_getElem_cons ha, List.take_succ_cons]
    simp

/-- A copy inside the second part of a string does not see the first. -/
theorem appendCopy_append (s t : List α) (a n : Nat) (h : s.length ≤ a) :
    appendCopy (s ++ t) a n = s ++ appendCopy t (a - s.length) n := by
  induction n generalizing t a with
  | zero => simp [appendCopy]
  | succ n ih =>
    simp only [appendCopy, List.getElem?_append_right h]
    cases t[a - s.length]? with
    | none => rfl
    | some b =>
      simp only
      rw [List.append_assoc, ih (t ++ [b]) (a + 1) (by omega),
        show a + 1 - s.length = a - s.length + 1 by omega]

end Copy

/-! ## Integers -/

/-- The value read so far is `acc`. -/
def varintFrom (acc : Nat) : List UInt8 → Option (Nat × List UInt8)
  | [] => none
  | c :: rest =>
    let acc := acc * 128 + c.toNat % 128
    if 128 ≤ c.toNat then varintFrom acc rest else some (acc, rest)

/-- A base-128 integer, most significant group first, with the top bit marking continuation. -/
def varint (bytes : List UInt8) : Option (Nat × List UInt8) := varintFrom 0 bytes

theorem varintFrom_ge {acc v : Nat} {bytes rest : List UInt8}
    (h : varintFrom acc bytes = some (v, rest)) : acc ≤ v := by
  induction bytes generalizing acc with
  | nil => cases h
  | cons c bytes ih =>
    simp only [varintFrom] at h
    split at h
    · have := ih h; omega
    · cases h; omega

theorem varintFrom_suffix {acc v : Nat} {bytes rest : List UInt8}
    (h : varintFrom acc bytes = some (v, rest)) : rest <:+ bytes := by
  induction bytes generalizing acc with
  | nil => cases h
  | cons c bytes ih =>
    simp only [varintFrom] at h
    split at h
    · exact (ih h).trans (List.suffix_cons c bytes)
    · cases h; exact List.suffix_cons _ _

/-! ## The code table -/

/-- The instruction types. -/
inductive InstType where
  | noop | add | run | copy
  deriving DecidableEq, Repr

/-- One half of a code table entry; size `0` means that the size follows in the stream. -/
structure Inst where
  type : InstType
  mode : Nat
  size : Nat
  deriving DecidableEq, Repr

def Inst.none : Inst := ⟨.noop, 0, 0⟩

/-- The default code table: a RUN, 18 ADDs, 16 COPYs for each of the nine modes, ADD 1–4 followed
by COPY 4–6 for modes 0–5 and by COPY 4 for modes 6–8, and COPY 4 followed by ADD 1. -/
def codeTable : List (Inst × Inst) :=
  [(⟨.run, 0, 0⟩, Inst.none)] ++
  (List.range 18).map (fun s => (⟨.add, 0, s⟩, Inst.none)) ++
  (List.range 9).flatMap (fun m => (⟨.copy, m, 0⟩, Inst.none) ::
    (List.range 15).map (fun s => (⟨.copy, m, s + 4⟩, Inst.none))) ++
  (List.range 6).flatMap (fun m => (List.range 4).flatMap (fun a => (List.range 3).map
    (fun c => (⟨.add, 0, a + 1⟩, ⟨.copy, m, c + 4⟩)))) ++
  (List.range 3).flatMap (fun m => (List.range 4).map
    (fun a => (⟨.add, 0, a + 1⟩, ⟨.copy, m + 6, 4⟩))) ++
  (List.range 9).map (fun m => (⟨.copy, m, 4⟩, ⟨.add, 0, 1⟩))

/-! ## Addresses -/

/-- The address caches. -/
structure Cache where
  near : List Nat
  nextSlot : Nat
  same : List Nat
  deriving DecidableEq

def Cache.init : Cache := ⟨List.replicate 4 0, 0, List.replicate 768 0⟩

def Cache.update (c : Cache) (a : Nat) : Cache :=
  ⟨c.near.set c.nextSlot a, (c.nextSlot + 1) % 4, c.same.set (a % 768) a⟩

/-- The address of a COPY before it is checked: `here` is the current position in the
superstring. -/
def rawAddress (c : Cache) (here mode : Nat) (addr : List UInt8) : Option (Nat × List UInt8) :=
  if mode = 0 then varint addr
  else if mode = 1 then
    match varint addr with
    | some (v, rest) => if v ≤ here then some (here - v, rest) else none
    | none => none
  else if mode < 6 then
    match varint addr with
    | some (v, rest) => some (c.near.getD (mode - 2) 0 + v, rest)
    | none => none
  else
    match addr with
    | b :: rest => some (c.same.getD ((mode - 6) * 256 + b.toNat) 0, rest)
    | [] => none

/-- A COPY must start before the current position. -/
def address (c : Cache) (here mode : Nat) (addr : List UInt8) : Option (Nat × List UInt8) :=
  match rawAddress c here mode addr with
  | some (a, rest) => if a < here then some (a, rest) else none
  | none => none

/-! ## The instruction stream -/

/-- A resolved operation. -/
inductive Op where
  | add (bytes : List UInt8)
  | run (n : Nat) (b : UInt8)
  | copy (a n : Nat)
  deriving DecidableEq, Repr

def Op.size : Op → Nat
  | .add bytes => bytes.length
  | .run n _ => n
  | .copy _ n => n

/-- Total number of bytes the operations produce. -/
def totalSize (ops : List Op) : Nat := (ops.map Op.size).sum

/-- What is left of the sections of a window, and the caches. -/
structure Streams where
  data : List UInt8
  inst : List UInt8
  addr : List UInt8
  cache : Cache
  deriving DecidableEq

/-- The size of an instruction: from the table, or from the stream when the table has `0`. -/
def instSize (i : Inst) (inst : List UInt8) : Option (Nat × List UInt8) :=
  if i.size = 0 ∧ i.type ≠ .noop then varint inst else some (i.size, inst)

/-- One half of an opcode, at position `here` of the superstring. -/
def resolveInst (here : Nat) (s : Streams) (i : Inst) : Option (List Op × Streams) :=
  match instSize i s.inst with
  | none => none
  | some (n, inst) =>
    match i.type with
    | .noop => some ([], { s with inst })
    | .add => if n ≤ s.data.length
        then some ([.add (s.data.take n)], { s with inst, data := s.data.drop n }) else none
    | .run =>
      match s.data with
      | b :: data => some ([.run n b], { s with inst, data })
      | [] => none
    | .copy =>
      match address s.cache here i.mode s.addr with
      | some (a, addr) => some ([.copy a n], { s with inst, addr, cache := s.cache.update a })
      | none => none

/-- One opcode: both halves of its table entry. -/
def resolveOpcode (here : Nat) (s : Streams) (e : Inst × Inst) : Option (List Op × Streams) :=
  match resolveInst here s e.1 with
  | none => none
  | some (ops, s) =>
    match resolveInst (here + totalSize ops) s e.2 with
    | none => none
    | some (ops', s) => some (ops ++ ops', s)

/-- The instruction section to its end, `fuel` opcodes at most. -/
def resolveAll (here : Nat) (s : Streams) : Nat → Option (List Op × Streams)
  | 0 => if s.inst = [] then some ([], s) else none
  | fuel + 1 =>
    match s.inst with
    | [] => some ([], s)
    | opcode :: inst =>
      match codeTable[opcode.toNat]? with
      | none => none
      | some e =>
        match resolveOpcode here { s with inst } e with
        | none => none
        | some (ops, s) =>
          match resolveAll (here + totalSize ops) s fuel with
          | none => none
          | some (ops', s) => some (ops ++ ops', s)

/-- The sections of a window. -/
structure Sections where
  data : List UInt8
  inst : List UInt8
  addr : List UInt8
  deriving DecidableEq

/-- The operations of a window whose source segment has `segLen` bytes and whose target window
has `targetLen` bytes. -/
def resolve (segLen targetLen : Nat) (w : Sections) : Option (List Op) :=
  match resolveAll segLen ⟨w.data, w.inst, w.addr, Cache.init⟩ w.inst.length with
  | none => none
  | some (ops, s) =>
    if s.data = [] ∧ s.addr = [] ∧ totalSize ops = targetLen then some ops else none

/-! ## Meaning over the superstring -/

def Op.apply (u : List UInt8) : Op → List UInt8
  | .add bytes => u ++ bytes
  | .run n b => u ++ List.replicate n b
  | .copy a n => appendCopy u a n

/-- **The target bytes of the operations over source segment `seg`.** -/
def meaning (seg : List UInt8) (ops : List Op) : List UInt8 :=
  (ops.foldl Op.apply seg).drop seg.length

/-! ## Meaning over two buffers -/

/-- The same operation when the segment and the target are separate buffers: `mem` is the memory
from the start of the segment on, of which the first `segLen` bytes are the segment. -/
def Op.applySplit (mem : List UInt8) (segLen : Nat) (t : List UInt8) : Op → List UInt8
  | .add bytes => t ++ bytes
  | .run n b => t ++ List.replicate n b
  | .copy a n => if a < segLen then t ++ (mem.drop a).take n else appendCopy t (a - segLen) n

def split (mem : List UInt8) (segLen : Nat) (ops : List Op) : List UInt8 :=
  ops.foldl (Op.applySplit mem segLen) []

/-- The operation is a COPY that starts in the segment and runs past its end. -/
def Op.crosses (segLen : Nat) : Op → Bool
  | .copy a n => decide (a < segLen) && decide (segLen < a + n)
  | _ => false

/-- Every COPY starts before the position it is executed at. -/
def WellFormed : Nat → List Op → Prop
  | _, [] => True
  | here, op :: ops => (∀ a n, op = .copy a n → a < here) ∧ WellFormed (here + op.size) ops

theorem totalSize_append (p q : List Op) : totalSize (p ++ q) = totalSize p + totalSize q := by
  simp [totalSize]

theorem WellFormed.append {here : Nat} {p q : List Op} (hp : WellFormed here p)
    (hq : WellFormed (here + totalSize p) q) : WellFormed here (p ++ q) := by
  induction p generalizing here with
  | nil => simpa [totalSize] using hq
  | cons op p ih =>
    refine ⟨hp.1, ih hp.2 ?_⟩
    simpa [totalSize, Nat.add_assoc] using hq

theorem Op.apply_prefix (u : List UInt8) (op : Op) : ∃ v, op.apply u = u ++ v := by
  cases op with
  | add bytes => exact ⟨bytes, rfl⟩
  | run n b => exact ⟨List.replicate n b, rfl⟩
  | copy a n => exact appendCopy_prefix u a n

theorem Op.apply_length (u : List UInt8) (op : Op) (h : ∀ a n, op = .copy a n → a < u.length) :
    (op.apply u).length = u.length + op.size := by
  cases op with
  | add bytes => simp [Op.apply, Op.size]
  | run n b => simp [Op.apply, Op.size]
  | copy a n => exact appendCopy_length u a n (h a n rfl)

theorem Op.applySplit_prefix (mem : List UInt8) (segLen : Nat) (t : List UInt8) (op : Op) :
    ∃ v, op.applySplit mem segLen t = t ++ v := by
  cases op with
  | add bytes => exact ⟨bytes, rfl⟩
  | run n b => exact ⟨List.replicate n b, rfl⟩
  | copy a n =>
    simp only [Op.applySplit]
    split
    · exact ⟨_, rfl⟩
    · exact appendCopy_prefix t (a - segLen) n

theorem foldl_apply_prefix (u : List UInt8) (ops : List Op) :
    ∃ v, ops.foldl Op.apply u = u ++ v := by
  induction ops generalizing u with
  | nil => exact ⟨[], by simp⟩
  | cons op ops ih =>
    obtain ⟨v, hv⟩ := op.apply_prefix u
    obtain ⟨w, hw⟩ := ih (op.apply u)
    exact ⟨v ++ w, by rw [List.foldl_cons, hw, hv, List.append_assoc]⟩

theorem foldl_applySplit_prefix (mem : List UInt8) (segLen : Nat) (t : List UInt8)
    (ops : List Op) : ∃ v, ops.foldl (Op.applySplit mem segLen) t = t ++ v := by
  induction ops generalizing t with
  | nil => exact ⟨[], by simp⟩
  | cons op ops ih =>
    obtain ⟨v, hv⟩ := op.applySplit_prefix mem segLen t
    obtain ⟨w, hw⟩ := ih (op.applySplit mem segLen t)
    exact ⟨v ++ w, by rw [List.foldl_cons, hw, hv, List.append_assoc]⟩

/-- The superstring keeps the segment in front, so the meaning is what comes after it. -/
theorem foldl_apply_eq (seg : List UInt8) (ops : List Op) :
    ops.foldl Op.apply seg = seg ++ meaning seg ops := by
  obtain ⟨v, hv⟩ := foldl_apply_prefix seg ops
  simp [meaning, hv]

theorem foldl_apply_length (u : List UInt8) (ops : List Op) (h : WellFormed u.length ops) :
    (ops.foldl Op.apply u).length = u.length + totalSize ops := by
  induction ops generalizing u with
  | nil => simp [totalSize]
  | cons op ops ih =>
    have hl := op.apply_length u h.1
    rw [List.foldl_cons, ih (op.apply u) (by rw [hl]; exact h.2), hl]
    simp [totalSize, Nat.add_assoc]

theorem meaning_length {seg : List UInt8} {ops : List Op} (h : WellFormed seg.length ops) :
    (meaning seg ops).length = totalSize ops := by
  have hl := foldl_apply_length seg ops h
  rw [foldl_apply_eq, List.length_append] at hl
  omega

/-- One operation that does not cross means the same over two buffers. -/
theorem Op.apply_eq_applySplit (seg tail t : List UInt8) (op : Op)
    (hx : op.crosses seg.length = false) :
    op.apply (seg ++ t) = seg ++ op.applySplit (seg ++ tail) seg.length t := by
  cases op with
  | add bytes => simp [Op.apply, Op.applySplit]
  | run n b => simp [Op.apply, Op.applySplit]
  | copy a n =>
    simp only [Op.apply, Op.applySplit]
    split
    · rename_i ha
      have hn : a + n ≤ seg.length := by
        simp only [Op.crosses, Bool.and_eq_false_iff, decide_eq_false_iff_not] at hx
        omega
      rw [appendCopy_of_le (seg ++ t) a n (by simp; omega)]
      rw [List.drop_append_of_le_length (by omega), List.drop_append_of_le_length (by omega)]
      rw [List.take_append_of_le_length (by simp; omega),
        List.take_append_of_le_length (by simp; omega)]
      simp
    · rename_i ha
      exact appendCopy_append seg t a n (by omega)

theorem foldl_apply_eq_split (seg tail t : List UInt8) (ops : List Op)
    (hx : ∀ op ∈ ops, op.crosses seg.length = false) :
    ops.foldl Op.apply (seg ++ t) =
      seg ++ ops.foldl (Op.applySplit (seg ++ tail) seg.length) t := by
  induction ops generalizing t with
  | nil => rfl
  | cons op ops ih =>
    rw [List.foldl_cons, List.foldl_cons,
      op.apply_eq_applySplit seg tail t (hx op (List.mem_cons_self ..))]
    exact ih _ (fun o ho => hx o (List.mem_cons_of_mem _ ho))

/-- **Without a crossing COPY the two buffers stand in for the superstring.** -/
theorem split_eq_meaning (seg tail : List UInt8) (ops : List Op)
    (hx : ∀ op ∈ ops, op.crosses seg.length = false) :
    split (seg ++ tail) seg.length ops = meaning seg ops := by
  have h := foldl_apply_eq_split seg tail [] ops hx
  rw [List.append_nil, foldl_apply_eq] at h
  exact (List.append_cancel_left h).symm

/-- A crossing COPY writes the byte `c` that follows the segment where the superstring has the
first byte of the target. -/
theorem crossing_copy_byte (seg tail t v : List UInt8) (c : UInt8) (a n : Nat) (ops : List Op)
    (hx : (Op.copy a n).crosses seg.length = true)
    (he : ops.foldl Op.apply ((Op.copy a n).apply (seg ++ t)) =
      seg ++ ((Op.copy a n).applySplit (seg ++ c :: tail) seg.length t ++ v)) :
    (ops.foldl Op.apply ((Op.copy a n).apply (seg ++ t)))[seg.length]? = some c := by
  simp only [Op.crosses, Bool.and_eq_true, decide_eq_true_eq] at hx
  obtain ⟨ha, hn⟩ := hx
  obtain ⟨w, hw⟩ := foldl_apply_prefix ((Op.copy a n).apply (seg ++ t)) ops
  have hl := appendCopy_length (seg ++ t) a n (by simp; omega)
  have hget := appendCopy_get (seg ++ t) a n (seg.length - a) (by simp; omega) (by omega)
  rw [List.length_append] at hl hget
  -- the position the byte after the segment is copied to
  have hpos : (ops.foldl Op.apply ((Op.copy a n).apply (seg ++ t)))[seg.length]? =
      (ops.foldl Op.apply ((Op.copy a n).apply (seg ++ t)))[seg.length + t.length +
        (seg.length - a)]? := by
    rw [hw, List.getElem?_append_left (by simp only [Op.apply, hl]; omega),
      List.getElem?_append_left (by simp only [Op.apply, hl]; omega)]
    simp only [Op.apply, hget]
    rw [show a + (seg.length - a) = seg.length by omega]
  rw [hpos, he]
  simp only [Op.applySplit, if_pos ha]
  rw [List.getElem?_append_right (by omega), List.append_assoc,
    List.getElem?_append_right (by omega),
    List.getElem?_append_left (by simp; omega)]
  rw [List.getElem?_take_of_lt (by omega), List.getElem?_drop,
    List.getElem?_append_right (by omega)]
  rw [show a + (seg.length + t.length + (seg.length - a) - seg.length - t.length) - seg.length = 0
    by omega]
  rfl

/-- If the two meanings agree although `c` follows the segment, no COPY crosses or `c` is the
first byte of the target. -/
theorem crosses_of_foldl_eq (seg tail t : List UInt8) (c : UInt8) (ops : List Op)
    (he : ops.foldl Op.apply (seg ++ t) =
      seg ++ ops.foldl (Op.applySplit (seg ++ c :: tail) seg.length) t) :
    (∀ op ∈ ops, op.crosses seg.length = false) ∨
      (ops.foldl Op.apply (seg ++ t))[seg.length]? = some c := by
  induction ops generalizing t with
  | nil => exact .inl (by simp)
  | cons op ops ih =>
    cases hx : op.crosses seg.length with
    | false =>
      have hstep := op.apply_eq_applySplit seg (c :: tail) t hx
      simp only [List.foldl_cons, hstep] at he ⊢
      rcases ih _ he with h | h
      · exact .inl (by simpa [hx] using h)
      · exact .inr h
    | true =>
      right
      cases op with
      | add bytes => cases hx
      | run n b => cases hx
      | copy a n =>
        obtain ⟨v, hv⟩ := foldl_applySplit_prefix (seg ++ c :: tail) seg.length
          ((Op.copy a n).applySplit (seg ++ c :: tail) seg.length t) ops
        simp only [List.foldl_cons] at he ⊢
        rw [hv] at he
        exact crossing_copy_byte seg tail t v c a n ops hx he

/-- **With a crossing COPY the byte that follows the segment shows in the target**, unless it
happens to be the first byte of the target. -/
theorem split_ne_meaning (seg tail : List UInt8) (c : UInt8) (ops : List Op)
    (hx : ∃ op ∈ ops, op.crosses seg.length = true) (hc : (meaning seg ops)[0]? ≠ some c) :
    split (seg ++ c :: tail) seg.length ops ≠ meaning seg ops := by
  intro he
  have hfold : ops.foldl Op.apply (seg ++ []) =
      seg ++ ops.foldl (Op.applySplit (seg ++ c :: tail) seg.length) [] := by
    rw [List.append_nil, foldl_apply_eq, ← he]
    rfl
  rcases crosses_of_foldl_eq seg tail [] c ops hfold with h | h
  · obtain ⟨op, hop, hcross⟩ := hx
    rw [h op hop] at hcross
    cases hcross
  · rw [List.append_nil, foldl_apply_eq, List.getElem?_append_right (by omega)] at h
    exact hc (by simpa using h)

theorem applySplit_length (mem : List UInt8) (segLen : Nat) (t : List UInt8) (op : Op)
    (h : ∀ a n, op = .copy a n → a < segLen + t.length)
    (hm : ∀ a n, op = .copy a n → a < segLen → a + n ≤ mem.length) :
    (op.applySplit mem segLen t).length = t.length + op.size := by
  cases op with
  | add bytes => simp [Op.applySplit, Op.size]
  | run n b => simp [Op.applySplit, Op.size]
  | copy a n =>
    have h := h a n rfl
    simp only [Op.applySplit, Op.size]
    split
    · rename_i ha
      have hm := hm a n rfl ha
      simp; omega
    · rename_i ha
      exact appendCopy_length t (a - segLen) n (by omega)

/-! ## Resolving -/

theorem address_lt {c : Cache} {here mode a : Nat} {addr rest : List UInt8}
    (h : address c here mode addr = some (a, rest)) : a < here := by
  unfold address at h
  split at h
  · split at h
    · cases h; assumption
    · cases h
  · cases h

theorem resolveInst_wellFormed {here : Nat} {s s' : Streams} {i : Inst} {ops : List Op}
    (h : resolveInst here s i = some (ops, s')) : WellFormed here ops := by
  unfold resolveInst at h
  split at h
  · cases h
  · split at h
    · cases h; trivial
    · split at h
      · cases h; exact ⟨by simp, trivial⟩
      · cases h
    · split at h
      · cases h; exact ⟨by simp, trivial⟩
      · cases h
    · split at h
      · rename_i ha
        cases h
        refine ⟨fun a' n' he => ?_, trivial⟩
        cases he
        exact address_lt ha
      · cases h

theorem resolveOpcode_wellFormed {here : Nat} {s s' : Streams} {e : Inst × Inst}
    {ops : List Op} (h : resolveOpcode here s e = some (ops, s')) : WellFormed here ops := by
  unfold resolveOpcode at h
  split at h
  · cases h
  · rename_i h1
    split at h
    · cases h
    · rename_i h2
      cases h
      exact (resolveInst_wellFormed h1).append (resolveInst_wellFormed h2)

theorem resolveAll_wellFormed {here : Nat} {s s' : Streams} {fuel : Nat} {ops : List Op}
    (h : resolveAll here s fuel = some (ops, s')) : WellFormed here ops := by
  induction fuel generalizing here s ops with
  | zero =>
    simp only [resolveAll] at h
    split at h
    · cases h; trivial
    · cases h
  | succ fuel ih =>
    simp only [resolveAll] at h
    split at h
    · cases h; trivial
    · split at h
      · cases h
      · split at h
        · cases h
        · rename_i h1
          split at h
          · cases h
          · rename_i h2
            cases h
            exact (resolveOpcode_wellFormed h1).append (ih h2)

theorem resolve_wellFormed {segLen targetLen : Nat} {w : Sections} {ops : List Op}
    (h : resolve segLen targetLen w = some ops) :
    WellFormed segLen ops ∧ totalSize ops = targetLen := by
  unfold resolve at h
  split at h
  · cases h
  · rename_i h1
    split at h
    · rename_i hs
      cases h
      exact ⟨resolveAll_wellFormed h1, hs.2.2⟩
    · cases h

end Acts.Vcdiff
