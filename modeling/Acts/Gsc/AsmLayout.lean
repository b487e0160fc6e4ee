import Acts.Gsc.Asm

/-!
# The layout of a function is its emission

* `write_length` — a node writes what its size computation counts, when that computation aligns as
  the output does.
* `shift_base` — sizes do not see an 8-aligned base.
* `write_opCode` — the opcode of a node stands behind the padding to 2.
* `Agrees` — every node starts at its `rloc`, has the counted size, and its opcode is at its `floc`.
* `emit_agrees_iff` — **for a registered machine that is so exactly when the machine does not align
  without 16-bit opcodes.**
-/

set_option autoImplicit false

namespace Acts.Gsc

variable {c : Ctx}

/-! ## Lengths of the writes -/

@[simp] theorem length_put (w v : Nat) (data : List UInt8) :
    (put w v data).length = data.length + w := by
  simp [put]

theorem length_pad {len : Nat} (h : 0 < len) (data : List UInt8) :
    (c.pad len data).length = if c.hasAlign then aligned data.length len else data.length := by
  unfold Ctx.pad
  split
  · exact length_padTo data h
  · rfl

theorem hashSize_pos : 0 < c.hashSize := by
  unfold Ctx.hashSize
  split <;> decide

theorem hashSize_dvd : c.hashSize ∣ 8 := by
  unfold Ctx.hashSize
  split <;> decide

theorem Width.bytes_pos (w : Width) : 0 < w.bytes := by cases w <;> decide

theorem Width.bytes_dvd (w : Width) : w.bytes ∣ 8 := by cases w <;> decide

theorem length_writeData {w : Nat} (h : 0 < w) (v : Nat) (data : List UInt8) :
    (writeData c w v data).length = shiftData c.hasAlign w w data.length := by
  rw [writeData, length_put, length_pad h, shiftData]
  split <;> rfl

theorem length_writeOpCode {op : OPCode} {data data' : List UInt8}
    (h : writeOpCode c op data = some data') :
    data'.length = shiftOpCode c.hasAlign data.length := by
  unfold writeOpCode at h
  obtain ⟨id, -, rfl⟩ := Option.map_eq_some_iff.mp h
  unfold shiftOpCode
  cases ha : c.hasAlign with
  | true => simp [length_pad, ha]
  | false => simp [length_pad, ha]

theorem length_writeVars (hasFlag obfuscate : Bool) (vars : List (FunctionVar × Nat))
    (data : List UInt8) :
    (writeVars c hasFlag obfuscate vars data).length =
      shiftVars c.hasAlign c.hashSize hasFlag vars.length data.length := by
  induction vars generalizing data with
  | nil => rfl
  | cons v vars ih =>
    obtain ⟨var, key⟩ := v
    rw [writeVars, ih, List.length_cons, shiftVars]
    cases hasFlag with
    | true => simp only [if_true, length_put, length_writeData hashSize_pos]
    | false =>
      simp only [Bool.false_eq_true, if_false, length_writeData hashSize_pos, Nat.add_zero]

/-- Hashes without flags are one operand. -/
theorem shiftVars_flat {a : Bool} {w : Nat} (count e : Nat) :
    shiftVars a w false (count + 1) e = shiftData a w (w * (count + 1)) e := by
  induction count generalizing e with
  | zero => simp [shiftVars]
  | succ count ih =>
    rw [shiftVars, ih]
    simp only [Bool.false_eq_true, if_false, Nat.add_zero, shiftData]
    cases a with
    | true =>
      have hd : w ∣ aligned e w + w := Nat.dvd_add (aligned_dvd e w) (Nat.dvd_refl w)
      simp only [if_true, aligned_of_dvd hd, Nat.mul_succ]
      omega
    | false =>
      simp only [Bool.false_eq_true, if_false, Nat.mul_succ]
      omega

theorem length_writeRegister {obfuscate : Bool} {vars : List (FunctionVar × Nat)}
    {data data' : List UInt8} (hflag : c.hasFlag = false)
    (h : writeRegister c obfuscate vars data = some data') :
    data'.length = shiftRegister c.hasAlign c.hashSize vars.length data.length := by
  induction vars generalizing data with
  | nil =>
    cases h
    rfl
  | cons v vars ih =>
    obtain ⟨var, key⟩ := v
    rw [writeRegister] at h
    obtain ⟨data₁, h₁, h₂⟩ := Option.bind_eq_some_iff.mp h
    simp only [hflag, Bool.false_eq_true, if_false] at h₂
    rw [ih h₂, length_writeData hashSize_pos, length_writeOpCode h₁, List.length_cons, shiftRegister]

/-! ## A node writes what it counts -/

/-- What the size computation of the hashes relies on. -/
structure Ctx.Regular (c : Ctx) : Prop where
  hash : c.hasAlign = true → c.hashSize = 4
  register : c.hasOpCode .iwRegisterVariable = true → c.hasFlag = false

theorem length_numbered (n : LocalVariables) : n.numbered.length = n.vars.length := by
  simp [LocalVariables.numbered]

theorem length_writeParams {n : LocalVariables} {data data' : List UInt8}
    (h : writeParams c n data = some data') :
    data'.length = if n.params = 0 then shiftOpCode c.hasAlign data.length
      else shiftVars c.hasAlign c.hashSize c.hasFlag n.params
        (shiftOpCode c.hasAlign data.length + 1) := by
  have hparams := n.params_le
  unfold writeParams at h
  split at h
  · rename_i h0
    rw [if_pos h0, length_writeOpCode h]
  · rename_i h0
    obtain ⟨data₀, h₀, rfl⟩ := Option.map_eq_some_iff.mp h
    rw [if_neg h0, length_writeVars, length_put, length_writeOpCode h₀, List.length_take,
      length_numbered, Nat.min_eq_left hparams]

theorem length_writeLocalVariables (hc : c.Regular) {n : LocalVariables} {data data' : List UInt8}
    (h : writeLocalVariables c n data = some data') :
    data'.length = shiftLocalVariables c c.hasAlign n data.length := by
  unfold writeLocalVariables at h
  unfold shiftLocalVariables
  simp only at h ⊢
  by_cases hreg : (c.hasOpCode .iwRegisterVariable || c.hasOpCode .iwRegisterMultipleVariables) = true
  · rw [if_pos hreg] at h ⊢
    obtain ⟨data₁, h₁, h₂⟩ := Option.bind_eq_some_iff.mp h
    rw [← length_writeParams h₁]
    by_cases hr : c.hasOpCode .iwRegisterVariable = true
    · rw [if_pos hr] at h₂ ⊢
      rw [length_writeRegister (hc.register hr) h₂, List.length_drop, length_numbered]
    · rw [if_neg hr] at h₂ ⊢
      by_cases h0 : n.vars.length - n.params = 0
      · rw [if_pos h0] at h₂ ⊢
        cases h₂
        rfl
      · rw [if_neg h0] at h₂ ⊢
        obtain ⟨data₂, h₃, rfl⟩ := Option.map_eq_some_iff.mp h₂
        obtain ⟨k, hk⟩ := Nat.exists_eq_succ_of_ne_zero h0
        rw [length_writeVars, length_put, length_writeOpCode h₃, List.length_drop,
          length_numbered, hk]
        exact shiftVars_flat k _
  · rw [if_neg hreg] at h ⊢
    by_cases hv : n.vars = []
    · rw [if_pos hv] at h ⊢
      exact length_writeOpCode h
    · rw [if_neg hv] at h ⊢
      obtain ⟨data₁, h₁, rfl⟩ := Option.map_eq_some_iff.mp h
      rw [length_writeVars, length_put, length_writeOpCode h₁, List.length_map]

/-- The opcodes of pointer calls. -/
theorem callOpcode_pointer {f : FuncCallFlags} {op : OPCode} (hp : f.pointer = true)
    (h : callOpcode f = some op) :
    op ∈ if f.pointerClass = true then
        [.classFunctionCall, .classFunctionThreadCall, .classFunctionThreadCallEndOn]
      else
        [.scriptFunctionCallPointer, .scriptThreadCallPointer, .scriptThreadCallPointerEndOn,
          .scriptMethodCallPointer, .scriptMethodThreadCallPointer,
          .scriptMethodThreadCallPointerEndOn, .iwBuiltinFunctionCallPointer,
          .iwBuiltinMethodCallPointer] := by
  unfold callOpcode at h
  rw [if_pos hp] at h
  split_ifs at h ⊢ <;> cases h <;> decide

/-- Without alignment a class pointer cannot be assembled, and another pointer has no operand. -/
theorem loadData_pointer (ha : c.hasAlign = false) {n : FunctionCall}
    (hp : n.flags.pointer = true) {useParams : Bool} {dataSize : Nat}
    (h : loadData c n = some (useParams, dataSize)) :
    n.flags.pointerClass = false ∧ dataSize = 0 := by
  have hop := callOpcode_pointer hp (n.pointer_opcode hp)
  unfold Ctx.hasAlign at ha
  unfold loadData at h
  rw [ha] at h
  generalize n.opcode = op at h hop
  cases hcls : n.flags.pointerClass with
  | true =>
    rw [hcls] at hop
    simp only [if_true, List.mem_cons, List.not_mem_nil, or_false] at hop
    rcases hop with rfl | rfl | rfl <;> cases h
  | false =>
    rw [hcls] at hop
    simp only [Bool.false_eq_true, if_false, List.mem_cons, List.not_mem_nil, or_false] at hop
    rcases hop with rfl | rfl | rfl | rfl | rfl | rfl | rfl | rfl <;> cases h <;> exact ⟨rfl, rfl⟩

/-- With alignment the operand of a call is 8 bytes. -/
theorem loadData_align (ha : c.hasAlign = true) {n : FunctionCall} {useParams : Bool}
    {dataSize : Nat} (h : loadData c n = some (useParams, dataSize)) :
    dataSize = if n.flags.pointer = true then 0 else 8 := by
  unfold Ctx.hasAlign at ha
  unfold loadData at h
  rw [if_pos ha] at h
  cases h
  rfl

theorem length_writeCall (hc : c.Regular) {n : FunctionCall} {data data' : List UInt8}
    (h : writeCall c n data = some data') :
    shiftCall c c.hasAlign n data.length = some data'.length := by
  unfold writeCall at h
  obtain ⟨data₁, h₁, h⟩ := Option.bind_eq_some_iff.mp h
  obtain ⟨⟨useParams, dataSize⟩, hload, h⟩ := Option.bind_eq_some_iff.mp h
  unfold shiftCall
  rw [hload, Option.map_some]
  simp only at h ⊢
  -- the parameter count
  generalize hdata : (if writesParams c useParams = true then put 1 n.params.toNat data₁
    else data₁) = data₂ at h
  have hlen : data₂.length =
      shiftOpCode c.hasAlign data.length + if writesParams c useParams = true then 1 else 0 := by
    rw [← hdata, ← length_writeOpCode h₁]
    split
    · exact length_put _ _ _
    · rfl
  refine congrArg some ?_
  cases ha : c.hasAlign with
  | true =>
    have hparams : writesParams c useParams = useParams := by
      unfold Ctx.hasAlign at ha
      unfold writesParams
      rw [ha]
      cases useParams <;> rfl
    rw [hparams, ha] at hlen
    have hsize := loadData_align ha hload
    simp only [if_true, ← hlen]
    by_cases hcls : n.flags.pointerClass = true
    · rw [if_pos hcls] at h ⊢
      cases h
      rw [length_writeData hashSize_pos, shiftData, ha, hc.hash ha]
      rfl
    · rw [if_neg hcls] at h ⊢
      by_cases hp : n.flags.pointer = true
      · rw [if_pos hp] at h ⊢
        cases h
        rfl
      · rw [if_neg hp] at h hsize ⊢
        subst hsize
        simp only [if_true] at h
        cases h
        rw [length_put, length_pad (by decide), ha, if_pos rfl]
  | false =>
    rw [ha] at hlen
    simp only [Bool.false_eq_true, if_false, ← hlen]
    by_cases hp : n.flags.pointer = true
    · obtain ⟨hcls, hsize⟩ := loadData_pointer ha hp hload
      rw [hcls, hp] at h
      simp only [Bool.false_eq_true, if_false, if_true] at h
      cases h
      rw [hsize, Nat.add_zero]
    · have hcls : ¬ n.flags.pointerClass = true := fun hcls => hp (n.class_pointer hcls)
      rw [if_neg hcls, if_neg hp] at h
      unfold Ctx.pad at h
      rw [ha] at h
      simp only [Bool.false_eq_true, if_false] at h
      split at h
      · rename_i h8
        cases h
        rw [length_put, h8]
      · cases h
        simp

/-- **A node writes what its size computation counts**, when that aligns as the output does. -/
theorem length_write (hc : c.Regular) {rlocs : Nat → Nat} {rloc : Nat} {n : AscmNode}
    {data data' : List UInt8} (h : n.write c rlocs rloc data = some data') :
    n.shift c c.hasAlign data.length = some data'.length := by
  cases n with
  | label =>
    cases h
    rfl
  | raw len bytes =>
    cases h
    simp only [AscmNode.shift, List.length_append, length_pad len.bytes_pos, shiftData]
    split <;> rfl
  | opCode op => exact congrArg some (length_writeOpCode h).symm
  | rawOpCode id =>
    cases h
    simp only [AscmNode.shift, shiftOpCode]
    cases ha : c.hasAlign with
    | true => simp [length_pad, ha]
    | false => simp [length_pad, ha]
  | data w val op =>
    obtain ⟨data₁, h₁, rfl⟩ := Option.map_eq_some_iff.mp h
    rw [AscmNode.shift, length_writeData w.bytes_pos, length_writeOpCode h₁]
  | hash val op w =>
    obtain ⟨data₁, h₁, h₂⟩ := Option.bind_eq_some_iff.mp h
    have h₃ : data' = writeData c w.bytes val data₁ := by
      cases w with
      | w4 => exact (Option.some.inj h₂).symm
      | w8 => exact (Option.some.inj h₂).symm
      | _ => cases h₂
    rw [h₃, AscmNode.shift, length_writeData w.bytes_pos, length_writeOpCode h₁]
  | stringData string op =>
    obtain ⟨data₁, h₁, rfl⟩ := Option.map_eq_some_iff.mp h
    simp [AscmNode.shift, length_writeOpCode h₁, Nat.add_assoc]
  | functionCall n => exact length_writeCall hc h
  | var varId op =>
    obtain ⟨data₁, h₁, rfl⟩ := Option.map_eq_some_iff.mp h
    rw [AscmNode.shift, length_put, length_writeOpCode h₁]
  | createLocalVariables n => exact congrArg some (length_writeLocalVariables hc h).symm
  | globalVariable op =>
    obtain ⟨data₁, h₁, rfl⟩ := Option.map_eq_some_iff.mp h
    rw [AscmNode.shift, length_writeData (by decide), length_writeOpCode h₁]
  | lazyLink path nsp func =>
    obtain ⟨data₁, h₁, rfl⟩ := Option.map_eq_some_iff.mp h
    rw [AscmNode.shift, length_put, length_put, length_put, length_pad (by decide),
      length_writeOpCode h₁, shiftData]
    split <;> rfl
  | jump location op =>
    obtain ⟨data₁, h₁, h⟩ := Option.bind_eq_some_iff.mp h
    obtain ⟨next, -, h⟩ := Option.bind_eq_some_iff.mp h
    obtain ⟨delta, -, h⟩ := Option.bind_eq_some_iff.mp h
    cases h
    rw [AscmNode.shift, length_writeData (by decide), length_writeOpCode h₁]

/-! ## Sizes do not see the base -/

section Base

variable {b : Nat}

theorem shiftData_base {a : Bool} {len : Nat} (h : len ∣ b) (w s : Nat) :
    shiftData a len w (b + s) = b + shiftData a len w s := by
  unfold shiftData
  rw [aligned_add s h]
  split
  · exact Nat.add_assoc _ _ _
  · exact Nat.add_assoc _ _ _

theorem shiftOpCode_base {a : Bool} (h : 8 ∣ b) (s : Nat) :
    shiftOpCode a (b + s) = b + shiftOpCode a s := by
  unfold shiftOpCode
  rw [aligned_add s (Nat.dvd_trans (by decide) h)]
  split
  · exact Nat.add_assoc _ _ _
  · exact Nat.add_assoc _ _ _

theorem shiftVars_base {a : Bool} {w : Nat} (h : w ∣ b) (hasFlag : Bool) (count s : Nat) :
    shiftVars a w hasFlag count (b + s) = b + shiftVars a w hasFlag count s := by
  induction count generalizing s with
  | zero => rfl
  | succ count ih => rw [shiftVars, shiftData_base h, Nat.add_assoc, ih, shiftVars]

theorem shiftRegister_base {a : Bool} {w : Nat} (h8 : 8 ∣ b) (h : w ∣ b) (count s : Nat) :
    shiftRegister a w count (b + s) = b + shiftRegister a w count s := by
  induction count generalizing s with
  | zero => rfl
  | succ count ih =>
    rw [shiftRegister, shiftOpCode_base h8, shiftData_base h, ih, shiftRegister]

theorem shiftLocalVariables_base {a : Bool} (h : 8 ∣ b) (n : LocalVariables) (s : Nat) :
    shiftLocalVariables c a n (b + s) = b + shiftLocalVariables c a n s := by
  have hhash : c.hashSize ∣ b := Nat.dvd_trans hashSize_dvd h
  unfold shiftLocalVariables
  simp only [shiftOpCode_base h, Nat.add_assoc, shiftVars_base hhash]
  split
  · have hite (p : Prop) [Decidable p] (x y : Nat) :
        (if p then b + x else b + y) = b + if p then x else y := by split <;> rfl
    simp only [hite, shiftRegister_base h hhash, shiftOpCode_base h, Nat.add_assoc,
      shiftData_base hhash]
  · split
    · rfl
    · rfl

theorem shiftCall_base {a : Bool} (h : 8 ∣ b) (n : FunctionCall) (s : Nat) :
    shiftCall c a n (b + s) = (shiftCall c a n s).map (b + ·) := by
  unfold shiftCall
  rw [Option.map_map]
  refine congrArg (Option.map · _) ?_
  funext ⟨useParams, dataSize⟩
  have h4 : 4 ∣ b := Nat.dvd_trans (by decide) h
  simp only [Function.comp, shiftOpCode_base h, Nat.add_assoc, aligned_add _ h, aligned_add _ h4]
  split
  · split
    · rfl
    · split <;> rfl
  · rfl

/-- **Sizes do not see an 8-aligned base.** -/
theorem shift_base {a : Bool} (h : 8 ∣ b) (n : AscmNode) (s : Nat) :
    n.shift c a (b + s) = (n.shift c a s).map (b + ·) := by
  have hw (w : Width) : w.bytes ∣ b := Nat.dvd_trans w.bytes_dvd h
  have h2 : 2 ∣ b := Nat.dvd_trans (by decide) h
  have h4 : 4 ∣ b := Nat.dvd_trans (by decide) h
  cases n with
  | label => rfl
  | functionCall n => exact shiftCall_base h n s
  | createLocalVariables n => exact congrArg some (shiftLocalVariables_base h n s)
  | raw len bytes => exact congrArg some (shiftData_base (hw len) _ _)
  | _ =>
    simp only [AscmNode.shift, shiftOpCode_base h, shiftData_base, hw, h2, h4, Option.map_some,
      Nat.add_assoc]

end Base

/-! ## Writes only append -/

theorem prefix_put (w v : Nat) (data : List UInt8) : data <+: put w v data :=
  List.prefix_append _ _

theorem prefix_pad (len : Nat) (data : List UInt8) : data <+: c.pad len data := by
  unfold Ctx.pad
  split
  · exact List.prefix_append _ _
  · exact List.prefix_rfl

theorem prefix_writeData (w v : Nat) (data : List UInt8) : data <+: writeData c w v data :=
  (prefix_pad w data).trans (prefix_put w v _)

/-- A hash with its flag byte. -/
theorem prefix_flagged (flag : Bool) (w v u : Nat) (data : List UInt8) :
    data <+: if flag = true then put 1 u (writeData c w v data) else writeData c w v data := by
  split
  · exact (prefix_writeData w v data).trans (prefix_put _ _ _)
  · exact prefix_writeData w v data

theorem prefix_writeVars (hasFlag obfuscate : Bool) (vars : List (FunctionVar × Nat))
    (data : List UInt8) : data <+: writeVars c hasFlag obfuscate vars data := by
  induction vars generalizing data with
  | nil => exact List.prefix_rfl
  | cons v vars ih =>
    obtain ⟨var, key⟩ := v
    exact (prefix_flagged hasFlag _ _ _ data).trans (ih _)

/-- The size of an opcode in the output. -/
def Ctx.opCodeSize (c : Ctx) : Nat := if c.hasAlign then 2 else 1

theorem writeOpCode_eq {op : OPCode} {data data' : List UInt8}
    (h : writeOpCode c op data = some data') :
    ∃ id ∈ c.opCodes op, data' = c.pad 2 data ++ leBytes c.opCodeSize id.toNat := by
  unfold writeOpCode at h
  obtain ⟨id, hid, rfl⟩ := Option.map_eq_some_iff.mp h
  refine ⟨id, List.mem_of_getElem? hid, ?_⟩
  unfold Ctx.opCodeSize
  split <;> rfl

theorem prefix_writeOpCode {op : OPCode} {data data' : List UInt8}
    (h : writeOpCode c op data = some data') : data <+: data' := by
  obtain ⟨id, -, rfl⟩ := writeOpCode_eq h
  exact (prefix_pad 2 data).trans (List.prefix_append _ _)

theorem prefix_writeRegister {obfuscate : Bool} {vars : List (FunctionVar × Nat)}
    {data data' : List UInt8} (h : writeRegister c obfuscate vars data = some data') :
    data <+: data' := by
  induction vars generalizing data with
  | nil =>
    cases h
    exact List.prefix_rfl
  | cons v vars ih =>
    obtain ⟨var, key⟩ := v
    rw [writeRegister] at h
    obtain ⟨data₁, h₁, h₂⟩ := Option.bind_eq_some_iff.mp h
    exact (prefix_writeOpCode h₁).trans ((prefix_flagged c.hasFlag _ _ _ data₁).trans (ih h₂))

/-! ## The opcode of a node -/

/-- The first opcode of the local variables. -/
def LocalVariables.opCode (c : Ctx) (n : LocalVariables) : OPCode :=
  if (c.hasOpCode .iwRegisterVariable || c.hasOpCode .iwRegisterMultipleVariables) = true then
    if n.params = 0 then .checkClearParams else .safeCreateLocalVariables
  else if n.vars = [] then .checkClearParams else .safeCreateLocalVariables

/-- The ids that a node's opcode may have; a label and raw data have no opcode. -/
def AscmNode.opCodeIds (c : Ctx) : AscmNode → Option (List UInt16)
  | .label => none
  | .raw _ _ => none
  | .rawOpCode id => some [id]
  | .opCode op => some (c.opCodes op)
  | .data _ _ op => some (c.opCodes op)
  | .hash _ op _ => some (c.opCodes op)
  | .stringData _ op => some (c.opCodes op)
  | .functionCall n => some (c.opCodes n.opcode)
  | .var _ op => some (c.opCodes op)
  | .createLocalVariables n => some (c.opCodes (n.opCode c))
  | .globalVariable op => some (c.opCodes op)
  | .lazyLink _ _ _ => some (c.opCodes .t8cGetLazyFunction)
  | .jump _ op => some (c.opCodes op)

/-- A write that starts with an opcode. -/
theorem opCode_first {op : OPCode} {data data₁ data' : List UInt8}
    (h₁ : writeOpCode c op data = some data₁) (h : data₁ <+: data') :
    ∃ id ∈ c.opCodes op, c.pad 2 data ++ leBytes c.opCodeSize id.toNat <+: data' := by
  obtain ⟨id, hid, rfl⟩ := writeOpCode_eq h₁
  exact ⟨id, hid, h⟩

theorem writeLocalVariables_first {n : LocalVariables} {data data' : List UInt8}
    (h : writeLocalVariables c n data = some data') :
    ∃ data₁, writeOpCode c (n.opCode c) data = some data₁ ∧ data₁ <+: data' := by
  unfold writeLocalVariables at h
  unfold LocalVariables.opCode
  simp only at h ⊢
  by_cases hreg : (c.hasOpCode .iwRegisterVariable || c.hasOpCode .iwRegisterMultipleVariables) = true
  · rw [if_pos hreg] at h ⊢
    obtain ⟨data₁, h₁, h₂⟩ := Option.bind_eq_some_iff.mp h
    have hrest : data₁ <+: data' := by
      split at h₂
      · exact prefix_writeRegister h₂
      · split at h₂
        · cases h₂
          exact List.prefix_rfl
        · obtain ⟨data₂, h₃, rfl⟩ := Option.map_eq_some_iff.mp h₂
          exact (prefix_writeOpCode h₃).trans ((prefix_put _ _ _).trans (prefix_writeVars _ _ _ _))
    unfold writeParams at h₁
    split at h₁
    · rename_i h0
      exact ⟨data₁, by rw [if_pos h0, h₁], hrest⟩
    · rename_i h0
      obtain ⟨data₀, h₀, rfl⟩ := Option.map_eq_some_iff.mp h₁
      exact ⟨data₀, by rw [if_neg h0, h₀],
        ((prefix_put _ _ _).trans (prefix_writeVars _ _ _ _)).trans hrest⟩
  · rw [if_neg hreg] at h ⊢
    split at h
    · rename_i h0
      exact ⟨data', by rw [if_pos h0, h], List.prefix_rfl⟩
    · rename_i h0
      obtain ⟨data₀, h₀, rfl⟩ := Option.map_eq_some_iff.mp h
      exact ⟨data₀, by rw [if_neg h0, h₀], (prefix_put _ _ _).trans (prefix_writeVars _ _ _ _)⟩

theorem writeCall_first {n : FunctionCall} {data data' : List UInt8}
    (h : writeCall c n data = some data') :
    ∃ data₁, writeOpCode c n.opcode data = some data₁ ∧ data₁ <+: data' := by
  unfold writeCall at h
  obtain ⟨data₁, h₁, h⟩ := Option.bind_eq_some_iff.mp h
  obtain ⟨⟨useParams, dataSize⟩, -, h⟩ := Option.bind_eq_some_iff.mp h
  refine ⟨data₁, h₁, ?_⟩
  simp only at h
  have hparams : data₁ <+: if writesParams c useParams = true then put 1 n.params.toNat data₁
      else data₁ := by
    split
    · exact prefix_put _ _ _
    · exact List.prefix_rfl
  refine hparams.trans ?_
  generalize (if writesParams c useParams = true then put 1 n.params.toNat data₁ else data₁) =
    data₂ at h ⊢
  split at h
  · cases h
    exact prefix_writeData _ _ _
  · split at h
    · cases h
      exact List.prefix_rfl
    · split at h
      · cases h
        exact (prefix_pad _ _).trans (prefix_put _ _ _)
      · cases h
        exact (prefix_pad _ _).trans (List.prefix_append _ _)

/-- **The opcode of a node stands behind the padding to 2.** -/
theorem write_opCode {rlocs : Nat → Nat} {rloc : Nat} {n : AscmNode} {data data' : List UInt8}
    (h : n.write c rlocs rloc data = some data') {ids : List UInt16}
    (hids : n.opCodeIds c = some ids) :
    ∃ id ∈ ids, c.pad 2 data ++ leBytes c.opCodeSize id.toNat <+: data' := by
  cases n with
  | label => cases hids
  | raw len bytes => cases hids
  | opCode op =>
    cases hids
    exact opCode_first h List.prefix_rfl
  | rawOpCode id =>
    cases hids
    cases h
    refine ⟨id, List.mem_singleton_self id, ?_⟩
    unfold Ctx.opCodeSize
    split <;> exact List.prefix_rfl
  | hash val op w =>
    cases hids
    obtain ⟨data₁, h₁, h₂⟩ := Option.bind_eq_some_iff.mp h
    refine opCode_first h₁ ?_
    cases w with
    | w4 => exact Option.some.inj h₂ ▸ prefix_writeData _ _ _
    | w8 => exact Option.some.inj h₂ ▸ prefix_writeData _ _ _
    | _ => cases h₂
  | stringData string op =>
    cases hids
    obtain ⟨data₁, h₁, rfl⟩ := Option.map_eq_some_iff.mp h
    exact opCode_first h₁ ((List.prefix_append _ _).trans (List.prefix_append _ _))
  | functionCall n =>
    cases hids
    obtain ⟨data₁, h₁, h₂⟩ := writeCall_first h
    exact opCode_first h₁ h₂
  | createLocalVariables n =>
    cases hids
    obtain ⟨data₁, h₁, h₂⟩ := writeLocalVariables_first h
    exact opCode_first h₁ h₂
  | var varId op =>
    cases hids
    obtain ⟨data₁, h₁, rfl⟩ := Option.map_eq_some_iff.mp h
    exact opCode_first h₁ (prefix_put _ _ _)
  | data w val op =>
    cases hids
    obtain ⟨data₁, h₁, rfl⟩ := Option.map_eq_some_iff.mp h
    exact opCode_first h₁ (prefix_writeData _ _ _)
  | globalVariable op =>
    cases hids
    obtain ⟨data₁, h₁, rfl⟩ := Option.map_eq_some_iff.mp h
    exact opCode_first h₁ (prefix_writeData _ _ _)
  | lazyLink path nsp func =>
    cases hids
    obtain ⟨data₁, h₁, rfl⟩ := Option.map_eq_some_iff.mp h
    exact opCode_first h₁ ((prefix_pad _ _).trans
      ((prefix_put _ _ _).trans ((prefix_put _ _ _).trans (prefix_put _ _ _))))
  | jump location op =>
    cases hids
    obtain ⟨data₁, h₁, h⟩ := Option.bind_eq_some_iff.mp h
    obtain ⟨next, -, h⟩ := Option.bind_eq_some_iff.mp h
    obtain ⟨delta, -, h⟩ := Option.bind_eq_some_iff.mp h
    cases h
    exact opCode_first h₁ (prefix_writeData _ _ _)

theorem prefix_write {rlocs : Nat → Nat} {rloc : Nat} {n : AscmNode} {data data' : List UInt8}
    (h : n.write c rlocs rloc data = some data') : data <+: data' := by
  cases hids : n.opCodeIds c with
  | none =>
    cases n with
    | label =>
      cases h
      exact List.prefix_rfl
    | raw len bytes =>
      cases h
      exact (prefix_pad _ _).trans (List.prefix_append _ _)
    | _ => cases hids
  | some ids =>
    obtain ⟨id, -, hid⟩ := write_opCode h hids
    exact (prefix_pad 2 data).trans ((List.prefix_append _ _).trans hid)

theorem prefix_writeNodes {rlocs : Nat → Nat} {nodes : List AscmNode} {locs : List Loc}
    {data out : List UInt8} (h : writeNodes c rlocs nodes locs data = some out) :
    data <+: out := by
  induction nodes generalizing locs data with
  | nil =>
    cases h
    exact List.prefix_rfl
  | cons n ns ih =>
    cases locs with
    | nil =>
      cases h
      exact List.prefix_rfl
    | cons l ls =>
      obtain ⟨data', h₁, h₂⟩ := Option.bind_eq_some_iff.mp h
      exact (prefix_write h₁).trans (ih h₂)

/-! ## The two passes -/

/-- A node written at `data` agrees with its location: it starts at `rloc`, what it appends has the
counted size, and its opcode stands at `floc` in the output. -/
structure NodeAgrees (c : Ctx) (base : Nat) (out : List UInt8) (n : AscmNode) (l : Loc)
    (data data' : List UInt8) : Prop where
  start : data.length = base + l.rloc
  size : ∃ next, n.shiftSize c c.layoutAlign l.rloc = some next ∧
    (data'.length : Int) - data.length = next - l.rloc
  opCode : ∀ ids, n.opCodeIds c = some ids →
    ∃ id ∈ ids, leBytes c.opCodeSize id.toNat <+: out.drop l.floc

/-- Every node agrees with its location. -/
def Agrees (c : Ctx) (rlocs : Nat → Nat) (base : Nat) (out : List UInt8) :
    List AscmNode → List Loc → List UInt8 → Prop
  | [], [], _ => True
  | n :: ns, l :: ls, data =>
    ∃ data', n.write c rlocs l.rloc data = some data' ∧ NodeAgrees c base out n l data data' ∧
      Agrees c rlocs base out ns ls data'
  | _, _, _ => False

/-- One node, when the layout pass aligns as the output does. -/
theorem nodeAgrees (hc : c.Regular) (hal : c.layoutAlign = c.hasAlign) {base : Nat} (hb : 8 ∣ base)
    {rlocs : Nat → Nat} {rloc : Nat} {n : AscmNode} {data data' out : List UInt8}
    (hstart : data.length = base + rloc) (hw : n.write c rlocs rloc data = some data')
    (hout : data' <+: out) (hlen : out.length < 2 ^ 31) :
    NodeAgrees c base out n
        ⟨rloc, if c.layoutAlign then aligned (base + rloc) 2 else base + rloc⟩ data data' ∧
      ∃ next, n.shiftSize c c.layoutAlign rloc = some next ∧ data'.length = base + next := by
  have hcount := length_write hc hw
  rw [hstart, shift_base hb] at hcount
  obtain ⟨next, hnext, hsum⟩ := Option.map_eq_some_iff.mp hcount
  have hle := hout.length_le
  have hsize : n.shiftSize c c.layoutAlign rloc = some next := by
    rw [AscmNode.shiftSize, hal, hnext, Option.map_some, Nat.mod_eq_of_lt (by omega)]
  have hdiff : (data'.length : Int) - data.length = next - rloc := by omega
  refine ⟨⟨hstart, ⟨next, hsize, hdiff⟩, ?_⟩, next, hsize, hsum.symm⟩
  intro ids hids
  obtain ⟨id, hid, hat⟩ := write_opCode hw hids
  refine ⟨id, hid, ?_⟩
  obtain ⟨t, ht⟩ := hat.trans hout
  have hfloc : (if c.layoutAlign then aligned (base + rloc) 2 else base + rloc) =
      (c.pad 2 data).length := by
    rw [length_pad (by decide), hal, hstart]
  rw [hfloc, ← ht, List.append_assoc, List.drop_left]
  exact List.prefix_append _ _

/-- All nodes, from any point of the function on. -/
theorem agrees_of_align (hc : c.Regular) (hal : c.layoutAlign = c.hasAlign) {base : Nat}
    (hb : 8 ∣ base) {rlocs : Nat → Nat} {nodes : List AscmNode} {locs : List Loc} {rloc : Nat}
    {data out : List UInt8} (hloc : relativeLocations c base nodes rloc = some locs)
    (hstart : data.length = base + rloc) (hw : writeNodes c rlocs nodes locs data = some out)
    (hlen : out.length < 2 ^ 31) : Agrees c rlocs base out nodes locs data := by
  induction nodes generalizing rloc locs data with
  | nil =>
    cases hloc
    exact trivial
  | cons n ns ih =>
    rw [relativeLocations] at hloc
    obtain ⟨current, hcur, hloc⟩ := Option.bind_eq_some_iff.mp hloc
    split at hloc
    · cases hloc
    · obtain ⟨ls, hls, hloc⟩ := Option.bind_eq_some_iff.mp hloc
      cases hloc
      obtain ⟨data', h₁, h₂⟩ := Option.bind_eq_some_iff.mp hw
      obtain ⟨hagrees, next, hnext, hsum⟩ :=
        nodeAgrees hc hal hb hstart h₁ (prefix_writeNodes h₂) hlen
      rw [hnext] at hcur
      cases hcur
      exact ⟨data', h₁, hagrees, ih hls hsum h₂⟩

/-! ## Alignment without 16-bit opcodes -/

theorem shiftData_mono {len w s s' : Nat} (hlen : 0 < len) (h : s < s') :
    shiftData false len w s < shiftData true len w s' := by
  have := le_aligned s' hlen
  simp only [shiftData, Bool.false_eq_true, if_false, if_true]
  omega

theorem shiftVars_mono {w : Nat} (hw : 0 < w) (hasFlag : Bool) (count : Nat) {s s' : Nat}
    (h : s < s') : shiftVars false w hasFlag count s < shiftVars true w hasFlag count s' := by
  induction count generalizing s s' with
  | zero => exact h
  | succ count ih => exact ih (Nat.add_lt_add_right (shiftData_mono hw h) _)

theorem shiftOpCode_mono {s s' : Nat} (h : s ≤ s') : shiftOpCode false s < shiftOpCode true s' := by
  have : s' ≤ aligned s' 2 := le_aligned s' (by decide)
  simp only [shiftOpCode, Bool.false_eq_true, if_false, if_true]
  omega

theorem shiftRegister_mono {w : Nat} (hw : 0 < w) (count : Nat) {s s' : Nat} (h : s < s') :
    shiftRegister false w count s < shiftRegister true w count s' := by
  induction count generalizing s s' with
  | zero => exact h
  | succ count ih => exact ih (shiftData_mono hw (shiftOpCode_mono (Nat.le_of_lt h)))

/-- The first node of a function is larger with 16-bit opcodes and alignment. -/
theorem shiftLocalVariables_mono (n : LocalVariables) {s s' : Nat} (h : s ≤ s') :
    shiftLocalVariables c false n s < shiftLocalVariables c true n s' := by
  have hop := shiftOpCode_mono h
  have hpos := hashSize_pos (c := c)
  unfold shiftLocalVariables
  simp only
  split
  · -- the parameters first, then one of the two ways to register variables
    have hparams : (if n.params = 0 then shiftOpCode false s else
          shiftVars false c.hashSize c.hasFlag n.params (shiftOpCode false s + 1)) <
        if n.params = 0 then shiftOpCode true s' else
          shiftVars true c.hashSize c.hasFlag n.params (shiftOpCode true s' + 1) := by
      split
      · exact hop
      · exact shiftVars_mono hpos _ _ (Nat.add_lt_add_right hop 1)
    split
    · exact shiftRegister_mono hpos _ hparams
    · split
      · exact hparams
      · exact shiftData_mono hpos (Nat.add_lt_add_right (shiftOpCode_mono (Nat.le_of_lt hparams)) 1)
  · split
    · exact hop
    · exact shiftVars_mono hpos _ _ (Nat.add_lt_add_right hop 1)

/-! ## The registered machines -/

/-- No registered machine aligns 64-bit hashes, or has variable flags with `IW_RegisterVariable`. -/
theorem registeredVms_regular : ∀ vm ∈ registeredVms,
    (vm.hasFlag .align = true → vm.hasFlag .hash64 = false) ∧
      (vm.registerVariable = true → vm.hasFlag .noParamFlags = true) := by
  decide

theorem regular_of_registered (h : c.vm ∈ registeredVms) : c.Regular := by
  obtain ⟨hhash, hflag⟩ := registeredVms_regular c.vm h
  constructor
  · intro ha
    rw [Ctx.hashSize, hhash ha]
    rfl
  · intro hr
    have hne : c.opCodes .iwRegisterVariable ≠ [] := by
      unfold Ctx.hasOpCode at hr
      simpa using hr
    rw [Ctx.hasFlag, hflag (c.hregisterVariable hne)]
    rfl

/-- **The layout of every function is its emission exactly when the machine does not align without
16-bit opcodes.** -/
theorem emit_agrees_iff (f : FunctionObject) (c : Ctx) (hvm : c.vm ∈ registeredVms)
    (data : List UInt8) (hbase : 8 ∣ data.length) (locs : List Loc) (out : List UInt8)
    (hemit : f.emit c data = some (locs, out)) (hlen : out.length < 2 ^ 31) :
    Agrees c (rlocOf locs) data.length out f.nodes locs data ↔
      (c.vm.hasFlag .align = true → c.vm.hasFlag .opcodeU16 = true) := by
  have hc := regular_of_registered hvm
  obtain ⟨locs', hloc, hemit⟩ := Option.bind_eq_some_iff.mp hemit
  obtain ⟨out', hw, hemit⟩ := Option.bind_eq_some_iff.mp hemit
  cases hemit
  constructor
  · intro hagrees ha
    by_contra hu
    have hlayout : c.layoutAlign = false := by
      rw [Ctx.layoutAlign, ha]
      simpa using hu
    -- the first node already differs
    unfold FunctionObject.nodes computeRelativeLocations at hloc
    rw [relativeLocations] at hloc
    obtain ⟨current, hcur, hloc⟩ := Option.bind_eq_some_iff.mp hloc
    split at hloc
    · cases hloc
    · obtain ⟨ls, hls, hloc⟩ := Option.bind_eq_some_iff.mp hloc
      cases hloc
      obtain ⟨data', hw', hnode, -⟩ := hagrees
      obtain ⟨next, hnext, hsize⟩ := hnode.size
      have hcount : shiftLocalVariables c c.hasAlign f.params data.length = data'.length :=
        Option.some.inj (length_write hc hw')
      rw [show c.hasAlign = true from ha, ← Nat.add_zero data.length,
        shiftLocalVariables_base hbase] at hcount
      have hlt := shiftLocalVariables_mono (c := c) f.params (Nat.le_refl 0)
      rw [hlayout] at hnext
      have hmod : shiftLocalVariables c false f.params 0 % 2 ^ 32 = next :=
        Option.some.inj hnext
      have hle := Nat.mod_le (shiftLocalVariables c false f.params 0) (2 ^ 32)
      simp only at hsize
      omega
  · intro hu
    have hal : c.layoutAlign = c.hasAlign := by
      unfold Ctx.layoutAlign Ctx.hasAlign
      cases ha : c.vm.hasFlag .align with
      | true => rw [hu ha]; rfl
      | false => rfl
    exact agrees_of_align hc hal hbase hloc rfl hw hlen

/-! ## A function with one return -/

/-- `bo3_1b`: alignment, and no 16-bit opcodes. -/
def bo3Alpha : Ctx where
  vm := ⟨"bo3_1b", [.align], false, false⟩
  opCodes op := if op = .checkClearParams then [0xd] else if op = .end_ then [0x10] else []
  rand _ := 0
  lvars := 0
  hregisterVariable h := absurd rfl h
  hregisterMultiple h := absurd rfl h

/-- The same function for `bo3`. -/
def bo3 : Ctx where
  vm := ⟨"bo3", [.opcodeU16, .align], false, false⟩
  opCodes op := if op = .checkClearParams then [0xd] else if op = .end_ then [0x10] else []
  rand _ := 0
  lvars := 0
  hregisterVariable h := absurd rfl h
  hregisterMultiple h := absurd rfl h

def emptyFunction : FunctionObject := ⟨⟨[], 0, false, Nat.le_refl 0, by decide⟩, [.opCode .end_]⟩

theorem bo3Alpha_first :
    (AscmNode.createLocalVariables emptyFunction.params).write bo3Alpha
        (rlocOf [⟨0, 24⟩, ⟨1, 25⟩]) 0 (List.replicate 24 0) =
      some (List.replicate 24 0 ++ [0xd, 0]) ∧
    (AscmNode.createLocalVariables emptyFunction.params).shiftSize bo3Alpha bo3Alpha.layoutAlign 0
      = some 1 := by
  decide +kernel

/-- The return of an empty function is at 26, and the layout says 25: the first node counts one
byte and writes two. -/
theorem bo3Alpha_disagrees :
    let data : List UInt8 := List.replicate 24 0
    let locs : List Loc := [⟨0, 24⟩, ⟨1, 25⟩]
    bo3Alpha.vm ∈ registeredVms ∧
      emptyFunction.emit bo3Alpha data = some (locs, data ++ [0xd, 0, 0x10, 0]) ∧
      ¬ Agrees bo3Alpha (rlocOf locs) 24 (data ++ [0xd, 0, 0x10, 0]) emptyFunction.nodes locs
        data := by
  refine ⟨by decide +kernel, by decide +kernel, ?_⟩
  rintro ⟨data', hw, hnode, -⟩
  obtain ⟨next, hnext, hsize⟩ := hnode.size
  rw [bo3Alpha_first.1] at hw
  rw [bo3Alpha_first.2] at hnext
  cases hw
  cases hnext
  simp at hsize

theorem bo3_agrees :
    let data : List UInt8 := List.replicate 24 0
    Agrees bo3 (rlocOf [⟨0, 24⟩, ⟨2, 26⟩]) 24 (data ++ [0xd, 0, 0x10, 0]) emptyFunction.nodes
      [⟨0, 24⟩, ⟨2, 26⟩] data := by
  intro data
  exact (emit_agrees_iff emptyFunction bo3 (by decide +kernel) data (by decide +kernel)
    [⟨0, 24⟩, ⟨2, 26⟩] (data ++ [0xd, 0, 0x10, 0]) (by decide +kernel) (by decide +kernel)).mpr
    (by decide +kernel)

end Acts.Gsc
