import Acts.Vm.Opcodes

/-!
# Compiled functions and the fetch loop

* `write_encode` — a handled node writes its instructions, without padding.
* `fitsAll_iff` — the instructions of a node fit exactly when the node can be fetched.
* `walk_function_iff` — **at every load address the fetch loop visits the nodes of a function and
  reads the operands stored in them exactly when each node can be fetched where it lies.**
-/

set_option autoImplicit false

namespace Acts.Vm

open Acts.Gsc Acts.Fetch

variable {lvars : Nat}

/-! ## The machine has no alignment -/

theorem handler_code (id : OpCodeId) : handler id.code = id.operands := by
  cases id <;> rfl

theorem actsCtx_registered (lvars : Nat) : (actsCtx lvars).vm ∈ registeredVms :=
  List.mem_cons_self

@[simp] theorem hasAlign_acts : (actsCtx lvars).hasAlign = false := rfl

@[simp] theorem pad_acts (len : Nat) (data : List UInt8) : (actsCtx lvars).pad len data = data :=
  rfl

@[simp] theorem hashSize_acts : (actsCtx lvars).hashSize = 8 := rfl

@[simp] theorem hasFlag_acts : (actsCtx lvars).hasFlag = false := rfl

@[simp] theorem writeData_acts (w v : Nat) (data : List UInt8) :
    writeData (actsCtx lvars) w v data = data ++ leBytes w v := rfl

theorem writeOpCode_acts {op : OPCode} {data data' : List UInt8}
    (h : writeOpCode (actsCtx lvars) op data = some data') : data' = data ++ [opByte op] := by
  obtain ⟨id, hid, rfl⟩ := writeOpCode_eq h
  have hid : id ∈ (actsOpCodes op).toList.map fun id => id.code.toUInt16 := hid
  obtain ⟨i, hi, rfl⟩ := List.mem_map.mp hid
  rw [Option.mem_toList] at hi
  have hop : opByte op = i.code := by
    rw [opByte, hi]
    rfl
  rw [hop, pad_acts]
  simp [Ctx.opCodeSize, leBytes]

theorem writeVars_acts (n : LocalVariables) (vars : List (FunctionVar × Nat))
    (data : List UInt8) :
    writeVars (actsCtx lvars) false n.obfuscate vars data =
      data ++ (varNames n vars).flatMap (leBytes 8) := by
  induction vars generalizing data with
  | nil => simp [writeVars, varNames]
  | cons v vars ih =>
    obtain ⟨var, key⟩ := v
    rw [writeVars]
    simp only [Bool.false_eq_true, if_false, writeData_acts, hashSize_acts]
    rw [ih, List.append_assoc]
    rfl

/-! ## A node writes its instructions -/

theorem writeParams_encode {n : LocalVariables} {data data' : List UInt8}
    (h : writeParams (actsCtx lvars) n data = some data') :
    data' = data ++ (if n.params = 0 then Fetch.Instr.plain (opByte .checkClearParams)
      else .counted (opByte .safeCreateLocalVariables) 8
        (varNames n (n.numbered.take n.params))).bytes := by
  unfold writeParams at h
  split at h
  · rename_i h0
    rw [writeOpCode_acts h, if_pos h0]
    rfl
  · rename_i h0
    obtain ⟨data₁, h₁, rfl⟩ := Option.map_eq_some_iff.mp h
    have hlen : (varNames n (n.numbered.take n.params)).length = n.params := by
      rw [varNames, List.length_map, List.length_take, length_numbered, Nat.min_eq_left n.params_le]
    rw [if_neg h0, hasFlag_acts, writeVars_acts, writeOpCode_acts h₁, Fetch.Instr.bytes, hlen, put]
    simp

theorem writeLocalVariables_encode {n : LocalVariables} {data data' : List UInt8}
    (h : writeLocalVariables (actsCtx lvars) n data = some data') (rlocs : Nat → Nat)
    (rloc : Nat) :
    data' = data ++ encode (instrs (actsCtx lvars) rlocs rloc (.createLocalVariables n)) := by
  unfold writeLocalVariables at h
  obtain ⟨data₁, h₁, h₂⟩ := Option.bind_eq_some_iff.mp h
  rw [instrs, encode, List.flatMap_cons, ← List.append_assoc, ← writeParams_encode h₁]
  have hreg : (actsCtx lvars).hasOpCode .iwRegisterVariable = false := rfl
  simp only [hreg, Bool.false_eq_true, if_false] at h₂
  split at h₂
  · rename_i h0
    cases h₂
    rw [if_pos h0, List.flatMap_nil, List.append_nil]
  · rename_i h0
    obtain ⟨data₂, h₃, rfl⟩ := Option.map_eq_some_iff.mp h₂
    have hlen : (varNames n (n.numbered.drop n.params)).length = n.vars.length - n.params := by
      rw [varNames, List.length_map, List.length_drop, length_numbered]
    rw [if_neg h0, writeVars_acts, writeOpCode_acts h₃, List.flatMap_cons, List.flatMap_nil,
      Fetch.Instr.bytes, hlen, put]
    simp

theorem writeCall_encode {n : FunctionCall} {data data' : List UInt8}
    (hn : handled (.functionCall n) = true) (h : writeCall (actsCtx lvars) n data = some data') :
    data' = data ++ (Fetch.Instr.word (opByte n.opcode) (importSize n.opcode)
      (placeholder (importSize n.opcode))).bytes := by
  simp only [handled, Bool.and_eq_true, Bool.not_eq_true', List.contains_eq_mem, List.mem_cons,
    List.not_mem_nil, or_false, decide_eq_true_eq] at hn
  obtain ⟨hop, hp⟩ := hn
  have hcls : n.flags.pointerClass = false := by
    cases hcls : n.flags.pointerClass with
    | false => rfl
    | true => exact absurd (n.class_pointer hcls) (by simp [hp])
  have hload : loadData (actsCtx lvars) n = some (false, importSize n.opcode) := by
    rcases hop with hop | hop
    · rw [loadData, hop]
      rfl
    · rw [loadData, hop]
      rfl
  have hbytes : leBytes (importSize n.opcode) (placeholder (importSize n.opcode)) =
      (List.range (importSize n.opcode)).map UInt8.ofNat := by
    rcases hop with hop | hop
    · rw [hop]
      decide
    · rw [hop]
      decide
  have h8 : importSize n.opcode ≠ 8 := by
    unfold importSize
    split <;> decide
  unfold writeCall at h
  obtain ⟨data₁, h₁, h⟩ := Option.bind_eq_some_iff.mp h
  rw [hload] at h
  simp only [Option.bind_eq_bind, Option.bind_some, writesParams, Bool.and_false, Bool.false_and,
    Bool.or_false, Bool.false_eq_true, if_false, hcls, hp, pad_acts, if_neg h8] at h
  cases h
  rw [Fetch.Instr.bytes, hbytes, writeOpCode_acts h₁]
  simp

/-- **A handled node writes its instructions**, one after the other. -/
theorem write_encode {rlocs : Nat → Nat} {rloc : Nat} {n : AscmNode} {data data' : List UInt8}
    (hn : handled n = true) (h : n.write (actsCtx lvars) rlocs rloc data = some data') :
    data' = data ++ encode (instrs (actsCtx lvars) rlocs rloc n) := by
  have hsingle (i : Fetch.Instr) : encode [i] = i.bytes := by simp [encode]
  cases n with
  | label =>
    cases h
    exact (List.append_nil data).symm
  | opCode op => exact writeOpCode_acts h
  | rawOpCode id =>
    cases h
    rfl
  | data w val op =>
    obtain ⟨data₁, h₁, rfl⟩ := Option.map_eq_some_iff.mp h
    rw [instrs, hsingle, writeOpCode_acts h₁, writeData_acts, Fetch.Instr.bytes, List.append_assoc]
    rfl
  | functionCall n =>
    rw [instrs, hsingle]
    exact writeCall_encode hn h
  | var varId op =>
    obtain ⟨data₁, h₁, rfl⟩ := Option.map_eq_some_iff.mp h
    rw [instrs, hsingle, writeOpCode_acts h₁, put, Fetch.Instr.bytes, List.append_assoc]
    rfl
  | createLocalVariables n => exact writeLocalVariables_encode h rlocs rloc
  | jump location op =>
    obtain ⟨data₁, h₁, h⟩ := Option.bind_eq_some_iff.mp h
    obtain ⟨next, hnext, h⟩ := Option.bind_eq_some_iff.mp h
    obtain ⟨delta, hdelta, h⟩ := Option.bind_eq_some_iff.mp h
    cases h
    have hnext : (rloc + 3) % 2 ^ 32 = next := Option.some.inj hnext
    rw [instrs, hsingle, hnext, hdelta, writeOpCode_acts h₁, writeData_acts, Fetch.Instr.bytes,
      List.append_assoc]
    rfl
  | _ => cases hn

/-! ## Which instructions fit -/

theorem handler_opByte {op : OPCode} {id : OpCodeId} (h : actsOpCodes op = some id) :
    handler (opByte op) = id.operands := by
  rw [opByte, h]
  exact handler_code id

theorem mem_data {w : Width} {val : Nat} {op : OPCode} (h : handled (.data w val op) = true) :
    (w, op) = (.w4, .getInteger) ∨ (w, op) = (.w4, .getFloat) ∨ (w, op) = (.w8, .getHash) ∨
      (w, op) = (.w4, .getString) := by
  simpa [handled] using h

theorem handler_jump {location : Nat} {op : OPCode} (h : handled (.jump location op) = true) :
    handler (opByte op) = some (.word 2) := by
  simp only [handled, List.contains_eq_mem, List.mem_cons, List.not_mem_nil, or_false,
    decide_eq_true_eq] at h
  rcases h with rfl | rfl | rfl | rfl | rfl | rfl | rfl <;> rfl

theorem handler_var {varId : Nat} {op : OPCode} (h : handled (.var varId op) = true) :
    handler (opByte op) = some (.word 1) := by
  simp only [handled, List.contains_eq_mem, List.mem_cons, List.not_mem_nil, or_false,
    decide_eq_true_eq] at h
  rcases h with rfl | rfl <;> rfl

theorem handler_call {n : FunctionCall} (h : handled (.functionCall n) = true) :
    handler (opByte n.opcode) = some (.word (importSize n.opcode)) := by
  simp only [handled, Bool.and_eq_true, List.contains_eq_mem, List.mem_cons, List.not_mem_nil,
    or_false, decide_eq_true_eq] at h
  rcases h.1 with hop | hop <;> rw [hop] <;> rfl

theorem handler_opCode {op : OPCode} (h : handled (.opCode op) = true) :
    handler (opByte op) = some .none := by
  simp only [handled, beq_iff_eq] at h
  obtain ⟨id, hid, hop⟩ := Option.bind_eq_some_iff.mp h
  rw [handler_opByte hid, hop]

/-- The table reads at least what a handled node stores. -/
theorem covered_instrs {c : Ctx} {rlocs : Nat → Nat} {rloc : Nat} {n : AscmNode}
    (hn : handled n = true) : ∀ i ∈ instrs c rlocs rloc n, i.Covered handler := by
  intro i hi
  cases n with
  | opCode op =>
    obtain rfl := List.mem_singleton.mp hi
    rw [Fetch.Instr.Covered, handler_opCode hn]
    rfl
  | rawOpCode id =>
    obtain rfl := List.mem_singleton.mp hi
    exact hn
  | data w val op =>
    obtain rfl := List.mem_singleton.mp hi
    refine ⟨w.bytes_pos, ?_⟩
    rcases mem_data hn with h | h | h | h <;> cases h
    · exact ⟨8, rfl, by decide⟩
    · exact ⟨4, rfl, by decide⟩
    · exact ⟨8, rfl, by decide⟩
    · exact ⟨4, rfl, by decide⟩
  | functionCall n =>
    obtain rfl := List.mem_singleton.mp hi
    refine ⟨?_, importSize n.opcode, handler_call hn, Nat.le_refl _⟩
    unfold importSize
    split <;> decide
  | var varId op =>
    obtain rfl := List.mem_singleton.mp hi
    exact ⟨by decide, 1, handler_var hn, Nat.le_refl _⟩
  | createLocalVariables n =>
    rw [instrs] at hi
    rcases List.mem_cons.mp hi with rfl | hi
    · split
      · rfl
      · exact ⟨by decide, rfl⟩
    · split at hi
      · cases hi
      · obtain rfl := List.mem_singleton.mp hi
        exact ⟨by decide, rfl⟩
  | jump location op =>
    obtain rfl := List.mem_singleton.mp hi
    exact ⟨by decide, 2, handler_jump hn, Nat.le_refl _⟩
  | _ => cases hi

theorem fitsAll_single (pos : Nat) (i : Fetch.Instr) :
    FitsAll handler pos [i] ↔ i.Fits handler pos := and_iff_left trivial

theorem fits_params (pos : Nat) (n : LocalVariables) :
    (if n.params = 0 then Fetch.Instr.plain (opByte .checkClearParams)
      else .counted (opByte .safeCreateLocalVariables) 8
        (varNames n (n.numbered.take n.params))).Fits handler pos ↔
      (n.params ≠ 0 → 8 ∣ pos + 2) := by
  have hlen : (varNames n (n.numbered.take n.params)).length = n.params := by
    rw [varNames, List.length_map, List.length_take, length_numbered, Nat.min_eq_left n.params_le]
  split
  · rename_i h0
    simp only [h0, ne_eq, not_true, false_imp_iff, iff_true]
    rfl
  · rename_i h0
    have hne : varNames n (n.numbered.take n.params) ≠ [] := by
      intro h
      rw [h] at hlen
      exact h0 hlen.symm
    rw [Fetch.Instr.Fits, hlen]
    constructor
    · intro h _
      exact h.2.2 hne
    · intro h
      exact ⟨rfl, n.params_lt, fun _ => h h0⟩

theorem fits_register (pos : Nat) (n : LocalVariables) :
    FitsAll handler pos (if n.vars.length - n.params = 0 then []
      else [.counted (opByte .iwRegisterMultipleVariables) 8
        (varNames n (n.numbered.drop n.params))]) ↔
      (n.vars.length - n.params ≠ 0 → n.vars.length - n.params < 256 ∧ 8 ∣ pos + 2) := by
  have hlen : (varNames n (n.numbered.drop n.params)).length = n.vars.length - n.params := by
    rw [varNames, List.length_map, List.length_drop, length_numbered]
  split
  · rename_i h0
    simp [h0, FitsAll]
  · rename_i h0
    have hne : varNames n (n.numbered.drop n.params) ≠ [] := by
      intro h
      rw [h] at hlen
      exact h0 hlen.symm
    rw [fitsAll_single, Fetch.Instr.Fits, hlen]
    constructor
    · intro h _
      exact ⟨h.2.1, h.2.2 hne⟩
    · intro h
      exact ⟨rfl, (h h0).1, fun _ => (h h0).2⟩

/-- **The instructions of a node fit exactly when the node can be fetched.** -/
theorem fitsAll_iff {c : Ctx} {rlocs : Nat → Nat} {rloc : Nat} {n : AscmNode}
    (hn : handled n = true) (pos : Nat) :
    FitsAll handler pos (instrs c rlocs rloc n) ↔ Fetchable pos n := by
  cases n with
  | opCode op =>
    rw [instrs, fitsAll_single]
    exact iff_of_true (handler_opCode hn) trivial
  | rawOpCode id => exact fitsAll_single pos _
  | data w val op =>
    rw [instrs, fitsAll_single, Fetch.Instr.Fits, Fetchable]
    refine and_congr_left (fun _ => ?_)
    rcases mem_data hn with h | h | h | h <;> cases h <;> decide
  | functionCall n =>
    rw [instrs, fitsAll_single, Fetch.Instr.Fits, Fetchable]
    exact and_iff_right (handler_call hn)
  | var varId op =>
    rw [instrs, fitsAll_single]
    exact iff_of_true ⟨handler_var hn, Nat.one_dvd _⟩ trivial
  | createLocalVariables n =>
    rw [instrs, FitsAll, fits_params, fits_register, Fetchable]
    have hsize : (if n.params = 0 then Fetch.Instr.plain (opByte .checkClearParams)
        else .counted (opByte .safeCreateLocalVariables) 8
          (varNames n (n.numbered.take n.params))).size =
        if n.params = 0 then 1 else 8 * n.params + 2 := by
      split
      · rfl
      · rw [size_counted, varNames, List.length_map, List.length_take, length_numbered,
          Nat.min_eq_left n.params_le]
    rw [hsize]
  | jump location op =>
    rw [instrs, fitsAll_single, Fetch.Instr.Fits, Fetchable]
    exact and_iff_right (handler_jump hn)
  | _ => exact iff_of_true trivial trivial

/-! ## A function -/

/-- The instructions of nodes at their locations. -/
def nodeInstrs (c : Ctx) (rlocs : Nat → Nat) (nodes : List AscmNode) (locs : List Loc) :
    List Fetch.Instr :=
  (nodes.zip locs).flatMap fun p => instrs c rlocs p.2.rloc p.1

/-- What the loop should see: each node at its `rloc`, with the operands stored in it. -/
def nodeVisits (c : Ctx) (rlocs : Nat → Nat) (start : Nat) (nodes : List AscmNode)
    (locs : List Loc) : List Visit :=
  (nodes.zip locs).flatMap fun p => visits (start + p.2.rloc) (instrs c rlocs p.2.rloc p.1)

section Nodes

variable {rlocs : Nat → Nat} {base : Nat} {out : List UInt8} {pre post : List AscmNode}
  {locs : List Loc} {data : List UInt8}

/-- The nodes are emitted where the layout puts them. -/
theorem nodes_emitted (load : Nat) (hpre : ∀ n ∈ pre, handled n = true)
    (h : Agrees (actsCtx lvars) rlocs base out (pre ++ post) locs data)
    (hw : writeNodes (actsCtx lvars) rlocs (pre ++ post) locs data = some out) :
    data ++ encode (nodeInstrs (actsCtx lvars) rlocs pre locs) <+: out ∧
      nodeVisits (actsCtx lvars) rlocs (load + base) pre locs =
        visits (load + data.length) (nodeInstrs (actsCtx lvars) rlocs pre locs) ∧
      (FitsAll handler (load + data.length) (nodeInstrs (actsCtx lvars) rlocs pre locs) ↔
        ∀ p ∈ pre.zip locs, Fetchable (load + base + p.2.rloc) p.1) := by
  induction pre generalizing locs data with
  | nil =>
    refine ⟨?_, rfl, by simp [nodeInstrs, FitsAll]⟩
    rw [nodeInstrs, List.zip_nil_left, List.flatMap_nil, encode, List.flatMap_nil, List.append_nil]
    exact prefix_writeNodes hw
  | cons n pre ih =>
    cases locs with
    | nil => exact absurd h id
    | cons l locs =>
      obtain ⟨data', h₁, hnode, hrest⟩ := h
      obtain ⟨data'', h₂, hw⟩ := Option.bind_eq_some_iff.mp hw
      obtain rfl : data' = data'' := Option.some.inj (h₁.symm.trans h₂)
      have hn := hpre n List.mem_cons_self
      have hdata := write_encode hn h₁
      obtain ⟨hout, hvisits, hfits⟩ :=
        ih (fun k hk => hpre k (List.mem_cons_of_mem n hk)) hrest hw
      have hsplit : nodeInstrs (actsCtx lvars) rlocs (n :: pre) (l :: locs) =
          instrs (actsCtx lvars) rlocs l.rloc n ++ nodeInstrs (actsCtx lvars) rlocs pre locs := rfl
      have hlen : load + data'.length =
          load + data.length + (encode (instrs (actsCtx lvars) rlocs l.rloc n)).length := by
        rw [hdata, List.length_append, Nat.add_assoc]
      have hpos : load + data.length = load + base + l.rloc := by rw [hnode.start, Nat.add_assoc]
      rw [hsplit, visits_append, fitsAll_append, ← hlen, fitsAll_iff hn, hfits, hpos]
      refine ⟨?_, ?_, ?_⟩
      · rw [encode, List.flatMap_append, ← encode, ← encode, ← List.append_assoc, ← hdata]
        exact hout
      · rw [← hvisits]
        rfl
      · simp

end Nodes

/-- **The fetch loop visits the nodes of a function and reads their operands exactly when each of
them can be fetched where it lies.** -/
theorem walk_function_iff (f : FunctionObject) (lvars : Nat) (data : List UInt8)
    (hbase : 8 ∣ data.length) (locs : List Loc) (out : List UInt8)
    (hemit : f.emit (actsCtx lvars) data = some (locs, out)) (hlen : out.length < 2 ^ 31)
    (pre post : List AscmNode) (hnodes : f.nodes = pre ++ post)
    (hpre : ∀ n ∈ pre, handled n = true) (m : Mem) (load : Nat) (hload : Holds m load out) :
    let start := load + data.length
    let is := nodeInstrs (actsCtx lvars) (rlocOf locs) pre locs
    walk handler m is.length start =
        some (nodeVisits (actsCtx lvars) (rlocOf locs) start pre locs,
          start + (encode is).length) ↔
      ∀ p ∈ pre.zip locs, Fetchable (start + p.2.rloc) p.1 := by
  intro start is
  obtain ⟨locs', hloc, hemit⟩ := Option.bind_eq_some_iff.mp hemit
  obtain ⟨out', hw, hemit⟩ := Option.bind_eq_some_iff.mp hemit
  cases hemit
  have hagrees := agrees_of_align (regular_of_registered (actsCtx_registered lvars)) rfl hbase hloc
    rfl hw hlen
  rw [hnodes] at hagrees hw
  obtain ⟨⟨t, ht⟩, hvisits, hfits⟩ := nodes_emitted load hpre hagrees hw
  have hholds : Holds m start (encode is) := by
    rw [← ht] at hload
    exact hload.left.right
  have hcovered : ∀ i ∈ is, i.Covered handler := by
    intro i hi
    obtain ⟨p, hp, hi⟩ := List.mem_flatMap.mp hi
    exact covered_instrs (hpre p.1 (List.of_mem_zip hp).1) i hi
  rw [hvisits, ← hfits]
  exact walk_iff hholds hcovered

/-! ## Two functions -/

/-- A function that pushes one value. -/
def pushFunction (w : Width) (val : Nat) (op : OPCode) : FunctionObject :=
  ⟨⟨[], 0, false, noParams_le, noParams_lt⟩, [.data w val op]⟩

/-- The memory that a file is loaded into. -/
def loaded (load : Nat) (out : List UInt8) : Mem := fun a => (out[a - load]?).getD 0

theorem holds_loaded (load : Nat) (out : List UInt8) : Holds (loaded load out) load out := by
  intro i hi
  rw [loaded, Nat.add_sub_cancel_left, List.getElem?_eq_getElem hi]
  rfl

/-- The integer 5 is stored in the 4 bytes after its opcode, and the handler reads the 8 bytes from
the next multiple of 8 on. -/
theorem integer_not_read :
    let f := pushFunction .w4 5 .getInteger
    let data : List UInt8 := List.replicate 24 0
    let out := data ++ [0x10, 0x30, 5, 0, 0, 0]
    let locs : List Loc := [⟨0, 24⟩, ⟨1, 25⟩]
    f.emit (actsCtx 0) data = some (locs, out) ∧ (∀ n ∈ f.nodes, handled n = true) ∧
      Holds (loaded 0 out) 0 out ∧
      nodeVisits (actsCtx 0) (rlocOf locs) 24 f.nodes locs = [⟨24, 0x10, []⟩, ⟨25, 0x30, [5]⟩] ∧
      walk handler (loaded 0 out) 2 24 = some ([⟨24, 0x10, []⟩, ⟨25, 0x30, [0]⟩], 40) := by
  refine ⟨by decide +kernel, ?_, holds_loaded 0 _, by decide +kernel, by decide +kernel⟩
  intro n hn
  rcases List.mem_cons.mp hn with rfl | hn
  · rfl
  · obtain rfl := List.mem_singleton.mp hn
    rfl

/-- A float that is loaded so that its operand is aligned. -/
theorem float_read :
    let f := pushFunction .w4 0x40490fdb .getFloat
    let data : List UInt8 := List.replicate 24 0
    let out := data ++ [0x10, 0x31, 0xdb, 0x0f, 0x49, 0x40]
    let locs : List Loc := [⟨0, 24⟩, ⟨1, 25⟩]
    let is := nodeInstrs (actsCtx 0) (rlocOf locs) f.nodes locs
    walk handler (loaded 2 out) is.length 26 =
      some (nodeVisits (actsCtx 0) (rlocOf locs) 26 f.nodes locs, 26 + (encode is).length) := by
  intro f data out locs is
  refine (walk_function_iff f 0 data (by decide +kernel) locs out (by decide +kernel)
    (by decide +kernel) f.nodes [] (List.append_nil _).symm ?_ (loaded 2 out) 2
    (holds_loaded 2 out)).mpr ?_
  · intro n hn
    rcases List.mem_cons.mp hn with rfl | hn
    · rfl
    · obtain rfl := List.mem_singleton.mp hn
      rfl
  · intro p hp
    rcases List.mem_cons.mp hp with rfl | hp
    · decide
    · obtain rfl := List.mem_singleton.mp hp
      decide

end Acts.Vm
