import Acts.Vm.Opcodes

/-!
# Numbers in the byte code

The opcode that the compiler picks for an integer, against the handlers that read it:

* `numberOpCodes`, `buildAscmNodeData` — the choice of the compiler.
* `NumberHandler` — the handlers of the decompiler; `getIntHandler` — the one of the ACTS machine.
* `Machine.number` — the value that a machine reads at a node.
* `number_decodes_iff` — **the decompiler reads every number that is written; the ACTS machine reads
  it exactly when its eight bytes stand at the next multiple of 8.**
-/

set_option autoImplicit false

namespace Acts.Gsc.Numbers

open Acts.Fetch

/-! ## The compiler -/

def getNegUnsignedShort : OPCode := .other 38

def getNegByte : OPCode := .other 47

def getLongInteger : OPCode := .other 67

def getUnsignedInteger : OPCode := .other 79

def getZero : OPCode := .other 108

def getByte : OPCode := .other 114

def getUnsignedShort : OPCode := .other 123

def getNegUnsignedInteger : OPCode := .other 151

def getSignedByte : OPCode := .other 221

def getShort : OPCode := .other 222

/-- `NumberOpCodesS`. -/
structure NumberOpCode where
  opcode : OPCode
  minValue : Int
  maxValue : Int
  sizeOf : Nat
  negat : Bool
  unsign : Bool
  deriving DecidableEq

/-- `NumberOpCodes`. -/
def numberOpCodes : List NumberOpCode := [
  ⟨getZero, 0, 0, 0, false, false⟩,
  ⟨getNegByte, -0xFF, 0, 1, true, true⟩,
  ⟨getSignedByte, -0x80, 0x7F, 1, false, false⟩,
  ⟨getByte, 0, 0xFF, 1, false, true⟩,
  ⟨getUnsignedShort, 0, 0xFFFF, 2, false, true⟩,
  ⟨getNegUnsignedShort, -0xFFFF, 0, 2, true, true⟩,
  ⟨getShort, -0x8000, 0x7FFF, 2, false, false⟩,
  ⟨getNegUnsignedInteger, -0xFFFFFFFF, 0, 4, true, true⟩,
  ⟨.getInteger, -0x80000000, 0x7FFFFFFF, 4, false, false⟩,
  ⟨getUnsignedInteger, 0, 0xFFFFFFFF, 4, false, true⟩,
  ⟨getLongInteger, -0x7FFFFFFFFFFFFFFF - 1, 0x7FFFFFFFFFFFFFFF, 8, false, false⟩]

/-- The node of an opcode; the cast keeps the low bytes, whether or not its type is signed. -/
def buildWith (opcode : NumberOpCode) (val : Int64) : Except String AscmNode :=
  let val := if opcode.negat then (-val).toInt else val.toInt
  match opcode.sizeOf with
  | 0 => .ok (.opCode opcode.opcode)
  | 1 => .ok (.data .w1 (toWord 1 val) opcode.opcode)
  | 2 => .ok (.data .w2 (toWord 2 val) opcode.opcode)
  | 4 => .ok (.data .w4 (toWord 4 val) opcode.opcode)
  | 8 => .ok (.data .w8 (toWord 8 val) opcode.opcode)
  | _ => .error "Can't create node with sizeof"

/-- The test of the loop. -/
def NumberOpCode.takes (c : Ctx) (val : Int64) (opcode : NumberOpCode) : Bool :=
  opcode.minValue ≤ val.toInt && val.toInt ≤ opcode.maxValue && c.hasOpCode opcode.opcode

/-- `BuildAscmNodeData`. -/
def buildAscmNodeData (c : Ctx) (val : Int64) : Except String AscmNode :=
  match numberOpCodes.find? (NumberOpCode.takes c val) with
  | some opcode => buildWith opcode val
  | none => .ok (.data .w8 (toWord 8 val.toInt) getLongInteger)

/-! ## The machines -/

/-- The handlers of the decompiler, with the type that they read.  The branch for the places of anim
trees, which are those of other nodes, is left out. -/
inductive NumberHandler where
  | getConstant (value : Int)
  | getNeg (size : Nat)
  | getNumber (size : Nat) (signed : Bool)
  deriving DecidableEq

/-- The handlers that the decompiler registers. -/
def handlers : List (OPCode × NumberHandler) := [
  (getZero, .getConstant 0),
  (getNegUnsignedInteger, .getNeg 4),
  (getNegUnsignedShort, .getNeg 2),
  (getNegByte, .getNeg 1),
  (getByte, .getNumber 1 false),
  (.getInteger, .getNumber 4 true),
  (getLongInteger, .getNumber 8 true),
  (getUnsignedInteger, .getNumber 4 false),
  (getUnsignedShort, .getNumber 2 false),
  (getSignedByte, .getNumber 1 true),
  (getShort, .getNumber 2 true)]

/-- `Dump` of a handler: the number behind an opcode that ends at `pos` of the script at `base`. -/
def NumberHandler.dump (align : Bool) (m : Mem) (base pos : Nat) : NumberHandler → Int
  | .getConstant value => value
  | .getNeg size => -(m.readLE (base + if align then aligned pos size else pos) size : Int)
  | .getNumber size signed =>
    let word := m.readLE (base + if align then aligned pos size else pos) size
    if signed then ofWord size word else word

/-- `GetIntHandler`: the ACTS machine aligns its own pointer. -/
def getIntHandler (m : Mem) (codePos : Nat) : Int := ofWord 8 (m.readLE (aligned codePos 8) 8)

inductive Machine where
  | decompiler
  | acts
  deriving DecidableEq

/-- The compiler makes code for the machine; the decompiler reads all targets. -/
def Machine.Targeted (c : Ctx) : Machine → Prop
  | .decompiler => True
  | .acts => c.vm = Vm.actsVm ∧ ∀ op, c.opCodes op ≠ [] → (Vm.actsOpCodes op).isSome = true

def nodeOpCode : AscmNode → Option OPCode
  | .opCode op => some op
  | .data _ _ op => some op
  | _ => none

/-- The number that a machine reads at a node whose opcode ends at `pos`. -/
def Machine.number (c : Ctx) (m : Mem) (base pos : Nat) (n : AscmNode) : Machine → Option Int
  | .decompiler => do
    let op ← nodeOpCode n
    let handler ← handlers.lookup op
    some (handler.dump c.hasAlign m base pos)
  | .acts => do
    let op ← nodeOpCode n
    match Vm.actsOpCodes op with
    | some .getInt => some (getIntHandler m (base + pos))
    | _ => none

/-! ## The decompiler -/

/-- The handler that fits the row of an opcode. -/
def NumberOpCode.handler (o : NumberOpCode) : NumberHandler :=
  if o.sizeOf = 0 then .getConstant 0
  else if o.negat then .getNeg o.sizeOf
  else .getNumber o.sizeOf (!o.unsign)

/-- The row holds the values of its range. -/
def NumberOpCode.Fits (o : NumberOpCode) : Prop :=
  if o.sizeOf = 0 then 0 ≤ o.minValue ∧ o.maxValue ≤ 0
  else if o.negat then -o.minValue < (256 ^ o.sizeOf : Nat) ∧ o.maxValue ≤ 0 ∧ o.sizeOf ≤ 4
  else if o.unsign then 0 ≤ o.minValue ∧ o.maxValue < (256 ^ o.sizeOf : Nat)
  else -((256 ^ o.sizeOf : Nat) : Int) ≤ o.minValue * 2 ∧ o.maxValue * 2 < (256 ^ o.sizeOf : Nat)

instance (o : NumberOpCode) : Decidable o.Fits := by
  unfold NumberOpCode.Fits
  infer_instance

theorem numberOpCodes_fit : ∀ o ∈ numberOpCodes, o.Fits := by decide

theorem numberOpCodes_handler :
    ∀ o ∈ numberOpCodes, handlers.lookup o.opcode = some o.handler := by decide

theorem numberOpCodes_size : ∀ o ∈ numberOpCodes, o.sizeOf ∈ [0, 1, 2, 4, 8] := by decide

section Decompiler

variable {c : Ctx} {m : Mem} {base rloc : Nat} {rlocs : Nat → Nat} {val : Int64}
variable {data out : List UInt8}

/-- A written operand reads back. -/
theorem readLE_operand {w : Width} {v : Nat} {op : OPCode} (hv : v < 256 ^ w.bytes)
    (hout : (AscmNode.data w v op).write c rlocs rloc data = some out) (hm : Holds m base out) :
    m.readLE (base + if c.hasAlign then aligned (shiftOpCode c.hasAlign data.length) w.bytes
      else shiftOpCode c.hasAlign data.length) w.bytes = v := by
  obtain ⟨opcode, hop, rfl⟩ := Option.map_eq_some_iff.mp hout
  have hright := Holds.right hm
  rw [length_pad w.bytes_pos, length_writeOpCode hop] at hright
  rw [readLE_of_holds hright, Nat.mod_eq_of_lt hv]

theorem toInt_neg_of_nonpos (h : -0xFFFFFFFF ≤ val.toInt) (h0 : val.toInt ≤ 0) :
    (-val).toInt = -val.toInt := by
  rw [Int64.toInt_neg]
  exact Int.bmod_eq_of_le_mul_two (by omega) (by omega)

/-- A row with an operand makes a node with that operand. -/
theorem buildWith_data {o : NumberOpCode} {n : AscmNode} (hsize : o.sizeOf ∈ [0, 1, 2, 4, 8])
    (h0 : o.sizeOf ≠ 0) (hn : buildWith o val = .ok n) :
    ∃ w : Width, w.bytes = o.sizeOf ∧ n = .data w
      (toWord w.bytes (if o.negat then (-val).toInt else val.toInt)) o.opcode := by
  unfold buildWith at hn
  simp only [List.mem_cons, List.not_mem_nil, or_false] at hsize
  rcases hsize with h | h | h | h | h
  · exact absurd h h0
  · rw [h] at hn
    exact ⟨.w1, h.symm, (Except.ok.inj hn).symm⟩
  · rw [h] at hn
    exact ⟨.w2, h.symm, (Except.ok.inj hn).symm⟩
  · rw [h] at hn
    exact ⟨.w4, h.symm, (Except.ok.inj hn).symm⟩
  · rw [h] at hn
    exact ⟨.w8, h.symm, (Except.ok.inj hn).symm⟩

/-- What a row writes is what its handler reads. -/
theorem dump_row {o : NumberOpCode} {n : AscmNode} (ho : o ∈ numberOpCodes)
    (hmin : o.minValue ≤ val.toInt) (hmax : val.toInt ≤ o.maxValue)
    (hn : buildWith o val = .ok n) (hout : n.write c rlocs rloc data = some out)
    (hm : Holds m base out) :
    nodeOpCode n = some o.opcode ∧
      o.handler.dump c.hasAlign m base (shiftOpCode c.hasAlign data.length) = val.toInt := by
  have hfits := numberOpCodes_fit o ho
  unfold NumberOpCode.Fits at hfits
  unfold NumberOpCode.handler
  by_cases h0 : o.sizeOf = 0
  · rw [if_pos h0] at hfits ⊢
    rw [buildWith, h0] at hn
    cases hn
    exact ⟨rfl, by simp only [NumberHandler.dump]; omega⟩
  · rw [if_neg h0] at hfits ⊢
    obtain ⟨w, hw, rfl⟩ := buildWith_data (numberOpCodes_size o ho) h0 hn
    refine ⟨rfl, ?_⟩
    have hread := readLE_operand (toWord_lt _ _) hout hm
    rw [← hw] at hfits ⊢
    by_cases hneg : o.negat = true
    · rw [if_pos hneg] at hfits hread ⊢
      obtain ⟨hlow, hnonpos, hsize⟩ := hfits
      have hpow : 256 ^ w.bytes ≤ 256 ^ 4 := Nat.pow_le_pow_right (by decide) hsize
      rw [NumberHandler.dump, hread, toInt_neg_of_nonpos (by omega) (by omega),
        toWord_of_nonneg (by omega) (by omega), Int.neg_neg]
    · rw [if_neg hneg] at hfits hread ⊢
      by_cases hunsign : o.unsign = true
      · rw [if_pos hunsign] at hfits
        rw [NumberHandler.dump, hread, hunsign]
        exact toWord_of_nonneg (by omega) (by omega)
      · rw [if_neg hunsign] at hfits
        rw [NumberHandler.dump, hread, Bool.eq_false_iff.mpr hunsign]
        exact ofWord_toWord (by omega) (by omega)

theorem takes_iff {o : NumberOpCode} : o.takes c val = true ↔
    o.minValue ≤ val.toInt ∧ val.toInt ≤ o.maxValue ∧ c.hasOpCode o.opcode = true := by
  simp [NumberOpCode.takes, and_assoc]

/-- The compiler takes a row of the table, or the long integer. -/
theorem buildAscmNodeData_cases {n : AscmNode} (hn : buildAscmNodeData c val = .ok n) :
    (∃ o ∈ numberOpCodes, o.minValue ≤ val.toInt ∧ val.toInt ≤ o.maxValue ∧
      c.hasOpCode o.opcode = true ∧ buildWith o val = .ok n) ∨
    n = .data .w8 (toWord 8 val.toInt) getLongInteger := by
  unfold buildAscmNodeData at hn
  cases hfind : numberOpCodes.find? (NumberOpCode.takes c val) with
  | some o =>
    rw [hfind] at hn
    obtain ⟨hmin, hmax, hop⟩ := takes_iff.mp (List.find?_some hfind)
    exact .inl ⟨o, List.mem_of_find?_eq_some hfind, hmin, hmax, hop, hn⟩
  | none =>
    rw [hfind] at hn
    exact .inr (Except.ok.inj hn).symm

/-- **The decompiler reads every number that is written.** -/
theorem decompiler_number {n : AscmNode} (hn : buildAscmNodeData c val = .ok n)
    (hout : n.write c rlocs rloc data = some out) (hm : Holds m base out) :
    Machine.decompiler.number c m base (shiftOpCode c.hasAlign data.length) n =
      some val.toInt := by
  rcases buildAscmNodeData_cases hn with ⟨o, ho, hmin, hmax, -, hbuild⟩ | rfl
  · obtain ⟨hop, hdump⟩ := dump_row ho hmin hmax hbuild hout hm
    simp [Machine.number, hop, numberOpCodes_handler o ho, hdump]
  · have hread := readLE_operand (toWord_lt _ _) hout hm
    have hlow := val.le_toInt
    have hhigh := val.toInt_lt
    have hlookup : handlers.lookup getLongInteger = some (.getNumber 8 true) := by decide
    have hvalue : ofWord 8 (toWord 8 val.toInt) = val.toInt :=
      ofWord_toWord (by omega) (by omega)
    simp only [Width.bytes] at hread
    simp [Machine.number, nodeOpCode, hlookup, NumberHandler.dump, hread, hvalue]

end Decompiler

/-! ## The ACTS machine -/

/-- The code from the operand of a 4-byte integer on, with what follows the operand. -/
def codeByte (val : Int64) (after : Nat → UInt8) (i : Nat) : UInt8 :=
  if i < 4 then (leBytes 4 (toWord 4 val.toInt)).getD i 0 else after (i - 4)

/-- Eight bytes of that code, from the next multiple of 8 on, are the value in 8 bytes: at a place
that is aligned, the four bytes that follow the operand extend its sign. -/
def Extends (place : Nat) (val : Int64) (after : Nat → UInt8) : Prop :=
  ∀ i < 8, codeByte val after (aligned place 8 - place + i) =
    (leBytes 8 (toWord 8 val.toInt)).getD i 0

instance (place : Nat) (val : Int64) (after : Nat → UInt8) :
    Decidable (Extends place val after) := by
  unfold Extends
  infer_instance

theorem numberOpCodes_acts : ∀ o ∈ numberOpCodes, (Vm.actsOpCodes o.opcode).isSome = true →
    o = ⟨.getInteger, -0x80000000, 0x7FFFFFFF, 4, false, false⟩ := by decide

section ActsMachine

variable {c : Ctx} {m : Mem} {base rloc : Nat} {rlocs : Nat → Nat} {val : Int64}
variable {data out : List UInt8} {n : AscmNode}

/-- An opcode that is written is one of the target. -/
theorem opCodes_of_write {op : OPCode} (h : writeOpCode c op data = some out) :
    c.opCodes op ≠ [] := by
  obtain ⟨id, hid, -⟩ := Option.map_eq_some_iff.mp h
  intro hnil
  simp [Ctx.getOpCodeId, hnil] at hid

/-- The compiler has one node for the integers of the machine. -/
theorem acts_node (htarget : Machine.acts.Targeted c) (hn : buildAscmNodeData c val = .ok n)
    (hout : n.write c rlocs rloc data = some out) :
    n = .data .w4 (toWord 4 val.toInt) .getInteger := by
  rcases buildAscmNodeData_cases hn with ⟨o, ho, -, -, hop, hbuild⟩ | rfl
  · have hsome := htarget.2 o.opcode (by simpa [Ctx.hasOpCode] using hop)
    rw [numberOpCodes_acts o ho hsome] at hbuild
    exact (Except.ok.inj hbuild).symm
  · obtain ⟨opcode, hop, -⟩ := Option.map_eq_some_iff.mp hout
    exact absurd (htarget.2 _ (opCodes_of_write hop)) (by decide)

/-- The code from the operand on, in memory. -/
theorem codeByte_eq (halign : c.hasAlign = false)
    (hout : (AscmNode.data .w4 (toWord 4 val.toInt) .getInteger).write c rlocs rloc data = some out)
    (hm : Holds m base out) (i : Nat) :
    m (base + (data.length + 1) + i) = codeByte val (fun i => m (base + out.length + i)) i := by
  obtain ⟨opcode, hop, rfl⟩ := Option.map_eq_some_iff.mp hout
  have hlen := length_writeOpCode hop
  simp only [shiftOpCode, halign, Bool.false_eq_true, if_false] at hlen
  simp only [writeData, put, Ctx.pad, halign, Bool.false_eq_true, if_false, Width.bytes] at hm ⊢
  unfold codeByte
  by_cases hi : i < 4
  · have hbyte := Holds.right hm i (by simpa using hi)
    rw [hlen] at hbyte
    rw [if_pos hi, hbyte, List.getD, List.getElem?_eq_getElem (by simpa using hi)]
    rfl
  · rw [if_neg hi, List.length_append, length_leBytes, hlen]
    exact congrArg m (by omega)

/-- The machine reads the value exactly when eight bytes of the code are those of the value. -/
theorem acts_number_iff (htarget : Machine.acts.Targeted c)
    (hn : buildAscmNodeData c val = .ok n) (hout : n.write c rlocs rloc data = some out)
    (hm : Holds m base out) :
    Machine.acts.number c m base (shiftOpCode c.hasAlign data.length) n = some val.toInt ↔
      Extends (base + (data.length + 1)) val (fun i => m (base + out.length + i)) := by
  have halign : c.hasAlign = false := by
    rw [Ctx.hasAlign, htarget.1]
    decide
  obtain rfl := acts_node htarget hn hout
  have hcode := codeByte_eq halign hout hm
  have hlow := val.le_toInt
  have hhigh := val.toInt_lt
  have hvalue : ofWord 8 (toWord 8 val.toInt) = val.toInt :=
    ofWord_toWord (by omega) (by omega)
  have hplace : base + (data.length + 1) ≤ aligned (base + (data.length + 1)) 8 :=
    le_aligned _ (by decide)
  have hread : Machine.acts.number c m base (shiftOpCode c.hasAlign data.length)
      (.data .w4 (toWord 4 val.toInt) .getInteger) =
      some (getIntHandler m (base + (data.length + 1))) := by
    rw [halign]
    rfl
  rw [hread, Option.some.injEq, getIntHandler]
  calc ofWord 8 (m.readLE (aligned (base + (data.length + 1)) 8) 8) = val.toInt
      ↔ m.readLE (aligned (base + (data.length + 1)) 8) 8 = toWord 8 val.toInt := by
        constructor
        · intro h
          exact ofWord_inj (Mem.readLE_lt _ _ _) (toWord_lt _ _) (h.trans hvalue.symm)
        · intro h
          rw [h, hvalue]
    _ ↔ Holds m (aligned (base + (data.length + 1)) 8) (leBytes 8 (toWord 8 val.toInt)) :=
        readLE_eq_iff (toWord_lt _ _)
    _ ↔ Extends (base + (data.length + 1)) val (fun i => m (base + out.length + i)) := by
        have hbyte (i : Nat) : m (aligned (base + (data.length + 1)) 8 + i) =
            codeByte val (fun i => m (base + out.length + i))
              (aligned (base + (data.length + 1)) 8 - (base + (data.length + 1)) + i) := by
          rw [← hcode]
          exact congrArg m (by omega)
        constructor
        · intro h i hi
          have hi' : i < (leBytes 8 (toWord 8 val.toInt)).length := by simpa using hi
          rw [← hbyte, h i hi', List.getD, List.getElem?_eq_getElem hi', Option.getD_some]
        · intro h i hi'
          rw [hbyte, h i (by simpa using hi'), List.getD, List.getElem?_eq_getElem hi',
            Option.getD_some]

end ActsMachine

/-! ## Both machines -/

/-- **A machine reads the number that is written exactly when it is the decompiler, or the eight
bytes of the number stand at the next multiple of 8.** -/
theorem number_decodes_iff (mach : Machine) (c : Ctx) (rlocs : Nat → Nat) (rloc base : Nat)
    (m : Mem) (val : Int64) (data out : List UInt8) (n : AscmNode) (htarget : mach.Targeted c)
    (hn : buildAscmNodeData c val = .ok n) (hout : n.write c rlocs rloc data = some out)
    (hm : Holds m base out) :
    mach.number c m base (shiftOpCode c.hasAlign data.length) n = some val.toInt ↔
      (mach = .acts →
        Extends (base + (data.length + 1)) val (fun i => m (base + out.length + i))) := by
  cases mach with
  | decompiler =>
    have hnumber := decompiler_number hn hout hm
    exact ⟨fun _ h => absurd h (by decide), fun _ => hnumber⟩
  | acts =>
    rw [acts_number_iff htarget hn hout hm]
    exact ⟨fun h _ => h, fun h => h rfl⟩

/-- Code with one opcode before the number. -/
def code : List UInt8 := [0x10]

/-- The number 5 behind that opcode: its operand is at 2, and the machine reads from 8 on. -/
def written : List UInt8 := [0x10, 0x30, 5, 0, 0, 0]

/-- The same number where its operand is at 8. -/
def writtenAligned : List UInt8 := [0x10, 1, 1, 1, 1, 1, 1, 0x30, 5, 0, 0, 0]

/-- The memory of a script at 0, with zeros behind it. -/
def memoryOf (out : List UInt8) : Mem := fun a => out.getD a 0

theorem acts_targeted : Machine.acts.Targeted (Vm.actsCtx 0) := by
  refine ⟨rfl, fun op h => ?_⟩
  cases hop : Vm.actsOpCodes op with
  | some id => rfl
  | none => exact absurd (by simp [Vm.actsCtx, hop]) h

/-- The ACTS machine reads 0 for 5. -/
theorem five_lost :
    ¬ ∀ (mach : Machine) (c : Ctx) (rlocs : Nat → Nat) (rloc base : Nat) (m : Mem) (val : Int64)
      (data out : List UInt8) (n : AscmNode), mach.Targeted c → buildAscmNodeData c val = .ok n →
      n.write c rlocs rloc data = some out → Holds m base out →
      mach.number c m base (shiftOpCode c.hasAlign data.length) n = some val.toInt := by
  intro h
  have hfive := h .acts (Vm.actsCtx 0) (fun _ => 0) 0 0 (memoryOf written) 5 code written
    (.data .w4 5 .getInteger) acts_targeted rfl (by decide)
    (by unfold Holds; decide)
  revert hfive
  decide

/-- At a multiple of 8, with zeros behind it, the machine reads 5. -/
theorem five_read :
    let n : AscmNode := .data .w4 5 .getInteger
    Machine.acts.Targeted (Vm.actsCtx 0) ∧ buildAscmNodeData (Vm.actsCtx 0) 5 = .ok n ∧
      n.write (Vm.actsCtx 0) (fun _ => 0) 0 (writtenAligned.take 7) = some writtenAligned ∧
      Holds (memoryOf writtenAligned) 0 writtenAligned ∧
      Machine.acts.number (Vm.actsCtx 0) (memoryOf writtenAligned) 0
        (shiftOpCode (Vm.actsCtx 0).hasAlign 7) n = some (5 : Int64).toInt := by
  refine ⟨acts_targeted, rfl, by decide, by unfold Holds; decide, ?_⟩
  refine (number_decodes_iff .acts (Vm.actsCtx 0) (fun _ => 0) 0 0 (memoryOf writtenAligned) 5
    (writtenAligned.take 7) writtenAligned _ acts_targeted rfl (by decide)
    (by unfold Holds; decide)).mpr fun _ => ?_
  decide

end Acts.Gsc.Numbers
