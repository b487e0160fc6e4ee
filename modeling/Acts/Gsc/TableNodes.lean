import Acts.Gsc.AsmJump
import Acts.Gsc.TableEntries

/-!
# The operands of the registered nodes

* `Behind` — the layout counts as the output does, or less.
* `node_placed` — what the two passes say of a node: the location of the layout, and the output when
  it is written.
* `AscmNode.operand`, `OperandAt` — the bytes of an operand, and their offset in the output.
* `getDataFLoc_lands`, `getFLoc_patches` — when the listed address is the offset of the operand.
-/

set_option autoImplicit false

namespace Acts.Gsc

/-! ## Sizes with and without alignment -/

section Mono

variable {c : Ctx}

theorem shiftData_le {len : Nat} (hlen : 0 < len) (w : Nat) {s s' : Nat} (h : s ≤ s') :
    shiftData false len w s ≤ shiftData true len w s' := by
  have := le_aligned s' hlen
  simp only [shiftData, Bool.false_eq_true, if_false, if_true]
  omega

theorem shiftCall_le (ha : c.hasAlign = true) {n : FunctionCall} {s s' e e' : Nat} (h : s ≤ s')
    (he : shiftCall c false n s = some e) (he' : shiftCall c true n s' = some e') : e ≤ e' := by
  unfold shiftCall at he he'
  obtain ⟨⟨useParams, dataSize⟩, hload, rfl⟩ := Option.map_eq_some_iff.mp he
  rw [hload, Option.map_some] at he'
  cases he'
  have hsize := loadData_align ha hload
  have hparams : writesParams c useParams = useParams := by
    unfold Ctx.hasAlign at ha
    unfold writesParams
    rw [ha]
    cases useParams <;> rfl
  have hop := shiftOpCode_mono h
  simp only [Bool.false_eq_true, if_false, if_true, hparams]
  generalize (if useParams = true then 1 else 0) = p
  have h4 := le_aligned (shiftOpCode true s' + p) (show 0 < 4 by decide)
  have h8 := le_aligned (shiftOpCode true s' + p) (show 0 < 8 by decide)
  have hcls := n.class_pointer
  split
  · rename_i hc
    rw [if_pos (hcls hc)] at hsize
    omega
  · split
    · rename_i hp
      rw [if_pos hp] at hsize
      omega
    · omega

/-- Alignment makes no node smaller. -/
theorem shift_le (ha : c.hasAlign = true) {n : AscmNode} {s s' e e' : Nat} (h : s ≤ s')
    (he : n.shift c false s = some e) (he' : n.shift c true s' = some e') : e ≤ e' := by
  have hop := Nat.le_of_lt (shiftOpCode_mono h)
  cases n with
  | label =>
    cases he
    cases he'
    exact h
  | raw len bytes =>
    cases he
    cases he'
    exact shiftData_le len.bytes_pos _ h
  | opCode op =>
    cases he
    cases he'
    exact hop
  | rawOpCode id =>
    cases he
    cases he'
    exact hop
  | data w val op =>
    cases he
    cases he'
    exact shiftData_le w.bytes_pos _ hop
  | hash val op w =>
    cases he
    cases he'
    exact shiftData_le w.bytes_pos _ hop
  | stringData string op =>
    cases he
    cases he'
    exact Nat.add_le_add_right (Nat.add_le_add_right hop _) 1
  | functionCall call => exact shiftCall_le ha h he he'
  | var varId op =>
    cases he
    cases he'
    exact Nat.add_le_add_right hop 1
  | createLocalVariables vars =>
    cases he
    cases he'
    exact Nat.le_of_lt (shiftLocalVariables_mono vars h)
  | globalVariable op =>
    cases he
    cases he'
    exact shiftData_le (by decide) _ hop
  | lazyLink path nsp func =>
    cases he
    cases he'
    exact shiftData_le (by decide) _ hop
  | jump location op =>
    cases he
    cases he'
    exact shiftData_le (by decide) _ hop

end Mono

/-! ## Where a node starts -/

/-- The layout pass counts as the output does, or, without alignment, less. -/
def Behind (c : Ctx) (u a : Nat) : Prop :=
  (c.layoutAlign = c.hasAlign ∧ u = a) ∨ (c.layoutAlign = false ∧ c.hasAlign = true ∧ u ≤ a)

theorem behind_refl (c : Ctx) (u : Nat) : Behind c u u := by
  cases ha : c.hasAlign with
  | false =>
    unfold Ctx.hasAlign at ha
    refine .inl ⟨?_, rfl⟩
    rw [Ctx.layoutAlign, ha, Bool.false_and]
    exact ha.symm
  | true =>
    cases hl : c.layoutAlign with
    | false => exact .inr ⟨hl, ha, Nat.le_refl u⟩
    | true => exact .inl ⟨hl.trans ha.symm, rfl⟩

theorem Behind.le {c : Ctx} {u a : Nat} (h : Behind c u a) : u ≤ a := by
  obtain ⟨-, h⟩ | ⟨-, -, h⟩ := h
  · exact Nat.le_of_eq h
  · exact h

theorem Behind.shift {c : Ctx} {n : AscmNode} {u a e e' : Nat} (h : Behind c u a)
    (he : n.shift c c.layoutAlign u = some e) (he' : n.shift c c.hasAlign a = some e') :
    Behind c e e' := by
  obtain ⟨hal, rfl⟩ | ⟨hl, ha, hle⟩ := h
  · rw [hal, he'] at he
    exact .inl ⟨hal, (Option.some.inj he).symm⟩
  · rw [hl] at he
    rw [ha] at he'
    exact .inr ⟨hl, ha, shift_le ha hle he he'⟩

/-- A node in the two passes: it starts at `u` for the layout and at `a` in the output, both behind
the base of its function. -/
structure Placed (c : Ctx) (rlocs : Nat → Nat) (base : Nat) (n : AscmNode) (l : Loc) (u a : Nat)
    (before after : List UInt8) : Prop where
  behind : Behind c u a
  rloc : l.rloc = u
  floc : l.floc = if c.layoutAlign then aligned (base + u) 2 else base + u
  length : before.length = base + a
  write : n.write c rlocs l.rloc before = some after

/-- **The two passes, at any node of a function.** -/
theorem node_placed {c : Ctx} (hc : c.Regular) {base : Nat} (hb : 8 ∣ base) {rlocs : Nat → Nat}
    {nodes : List AscmNode} {locs : List Loc} {u a : Nat} {data out : List UInt8}
    (hloc : relativeLocations c base nodes u = some locs) (hstart : data.length = base + a)
    (hbehind : Behind c u a) (hw : writeNodes c rlocs nodes locs data = some out)
    (hlen : out.length < 2 ^ 31) {i : Nat} {n : AscmNode} (hn : nodes[i]? = some n) :
    ∃ l u' a' before after, locs[i]? = some l ∧
      startAt (fun start n => n.shiftSize c c.layoutAlign start) nodes i u = some u' ∧
      startAt (fun start n => n.shift c c.hasAlign start) nodes i a = some a' ∧
      Placed c rlocs base n l u' a' before after ∧ after <+: out ∧
      writeNodes c rlocs (nodes.take (i + 1)) (locs.take (i + 1)) data = some after := by
  induction nodes generalizing u a locs data i with
  | nil => cases hn
  | cons m ns ih =>
    rw [relativeLocations] at hloc
    obtain ⟨current, hcur, hloc⟩ := Option.bind_eq_some_iff.mp hloc
    split at hloc
    · cases hloc
    · rename_i hbound
      obtain ⟨ls, hls, hloc⟩ := Option.bind_eq_some_iff.mp hloc
      cases hloc
      obtain ⟨data', h₁, h₂⟩ := Option.bind_eq_some_iff.mp hw
      have hpfx := prefix_writeNodes h₂
      have hcount := length_write hc h₁
      rw [hstart, shift_base hb] at hcount
      obtain ⟨next, hnext, hsum⟩ := Option.map_eq_some_iff.mp hcount
      obtain ⟨e, he, hmod⟩ := Option.map_eq_some_iff.mp hcur
      have hbehind' := hbehind.shift he hnext
      have hle := hpfx.length_le
      have hlt := hbehind'.le
      rw [Nat.mod_eq_of_lt (by omega)] at hmod
      subst hmod
      cases i with
      | zero =>
        cases hn
        refine ⟨_, u, a, data, data', rfl, rfl, rfl, ⟨hbehind, rfl, rfl, hstart, h₁⟩, hpfx, ?_⟩
        show (n.write c rlocs u data).bind _ = _
        rw [h₁]
        rfl
      | succ i =>
        obtain ⟨l, u', a', before, after, hl, hu, ha, hplaced, hout, hwrite⟩ :=
          ih hls hsum.symm hbehind' h₂ hn
        refine ⟨l, u', a', before, after, hl, ?_, ?_, hplaced, hout, ?_⟩
        · rw [startAt, hcur, Option.bind_some]
          exact hu
        · rw [startAt, hnext, Option.bind_some]
          exact ha
        · rw [List.take_succ_cons, List.take_succ_cons]
          show (m.write c rlocs u data).bind _ = _
          rw [h₁]
          exact hwrite

/-! ## Operands -/

/-- Whether a call writes its parameter count. -/
def callParams (c : Ctx) (n : FunctionCall) : Bool :=
  ((loadData c n).map fun p => writesParams c p.1).getD false

/-- What the linker replaces. -/
def callOperand (c : Ctx) (n : FunctionCall) : List UInt8 :=
  let dataSize := ((loadData c n).map Prod.snd).getD 0
  if dataSize = 8 then leBytes 8 (n.nameSpace % 2 ^ 32 * 2 ^ 32 + n.clsName % 2 ^ 32)
  else (List.range dataSize).map UInt8.ofNat

/-- The bytes that a table entry refers to. -/
def AscmNode.operand (c : Ctx) : AscmNode → List UInt8
  | .data w val _ => leBytes w.bytes val
  | .globalVariable _ => leBytes 2 0
  | .functionCall n => callOperand c n
  | _ => []

/-- The start of the operand of a call that starts at `s`. -/
def callSlot (c : Ctx) (n : FunctionCall) (s : Nat) : Nat :=
  let p := if callParams c n then 1 else 0
  if c.hasAlign then aligned (shiftOpCode true s + p) 8 else s + 1 + p

section Operands

variable {c : Ctx} {rlocs : Nat → Nat} {rloc : Nat} {data data' : List UInt8}

theorem operand_data {w : Width} {val : Nat} {op : OPCode}
    (h : (AscmNode.data w val op).write c rlocs rloc data = some data') :
    ∃ pre, data' = pre ++ (AscmNode.data w val op).operand c := by
  obtain ⟨data₁, h₁, rfl⟩ := Option.map_eq_some_iff.mp h
  exact ⟨c.pad w.bytes data₁, rfl⟩

theorem operand_global {op : OPCode}
    (h : (AscmNode.globalVariable op).write c rlocs rloc data = some data') :
    ∃ pre, data' = pre ++ (AscmNode.globalVariable op).operand c := by
  obtain ⟨data₁, h₁, rfl⟩ := Option.map_eq_some_iff.mp h
  exact ⟨c.pad 2 data₁, rfl⟩

/-- The operand of a call stands in its slot. -/
theorem operand_call {n : FunctionCall} (hp : n.flags.pointer = false)
    (h : writeCall c n data = some data') :
    ∃ pre, data' = pre ++ callOperand c n ∧ pre.length = callSlot c n data.length := by
  have hcls : n.flags.pointerClass = false := by
    by_contra hcls
    rw [n.class_pointer (by simpa using hcls)] at hp
    cases hp
  unfold writeCall at h
  obtain ⟨data₁, h₁, h⟩ := Option.bind_eq_some_iff.mp h
  obtain ⟨⟨useParams, dataSize⟩, hload, h⟩ := Option.bind_eq_some_iff.mp h
  simp only [hp, hcls, Bool.false_eq_true, if_false] at h
  have hparams : callParams c n = writesParams c useParams := by rw [callParams, hload]; rfl
  have hsize : ((loadData c n).map Prod.snd).getD 0 = dataSize := by rw [hload]; rfl
  have hoperand : data' =
      c.pad dataSize (if writesParams c useParams then put 1 n.params.toNat data₁ else data₁) ++
        callOperand c n := by
    unfold callOperand
    rw [hsize]
    split at h
    · rename_i h8
      cases h
      rw [if_pos h8]
      rfl
    · rename_i h8
      cases h
      rw [if_neg h8]
  refine ⟨_, hoperand, ?_⟩
  have hlen : (if writesParams c useParams then put 1 n.params.toNat data₁ else data₁).length =
      shiftOpCode c.hasAlign data.length + if callParams c n then 1 else 0 := by
    rw [hparams, ← length_writeOpCode h₁]
    split
    · exact length_put _ _ _
    · rfl
  unfold callSlot
  cases ha : c.hasAlign with
  | true =>
    have h8 := loadData_align ha hload
    rw [hp] at h8
    subst h8
    rw [length_pad (by decide), ha, hlen, ha]
    rfl
  | false =>
    unfold Ctx.pad
    rw [ha] at hlen ⊢
    exact hlen

end Operands

/-! ## The linker and the address of a call -/

/-- Only the kind of an import matters to the kind that the linker reads. -/
theorem remap_map (h : GSCOBJHandler) (flags : UInt8) :
    h.remapFlagsImport (h.mapFlagsImportToInt flags) &&& 0xF =
      h.remapFlagsImport (h.mapFlagsImportToInt (flags &&& 0xF)) &&& 0xF := by
  have hall : ∀ n : Fin 256,
      h.remapFlagsImport (h.mapFlagsImportToInt (UInt8.ofNat n)) &&& 0xF =
        h.remapFlagsImport (h.mapFlagsImportToInt (UInt8.ofNat n &&& 0xF)) &&& 0xF := by
    cases h <;> decide +kernel
  have := hall ⟨flags.toNat, flags.toNat_lt⟩
  rwa [UInt8.ofNat_toNat] at this

/-- The machines either align, or are of the `IW` kind. -/
theorem registered_kind : ∀ t ∈ registeredTargets,
    t.vm.hasFlag .align = !t.iwLike ∧
      t.vm.hasFlag .iwCalls = (t.handler == .mw23 || t.handler == .mw23b) ∧
      t.handler.supportGetApiScript = !t.iwLike ∧
      (t.iwLike = false → t.callNoParams = false) := by
  decide +kernel

theorem mw23_iwLike : ∀ t ∈ registeredTargets, t.handler = .mw23 → t.iwLike = true := by
  decide +kernel

section Calls

variable {t : Target} {c : Ctx} {n : FunctionCall} {flags : UInt8}

theorem getFLoc_iw (ha : c.vm.hasFlag .align = false) {floc : Nat} (hfloc : floc + 2 < 2 ^ 32) :
    n.getFLoc c floc = floc + if (n.opcode = .callBuiltinFunction ∨ n.opcode = .callBuiltinMethod) ∧
      c.vm.hasFlag .iwCalls then 2 else 1 := by
  unfold FunctionCall.getFLoc
  rw [ha]
  simp only [Bool.false_eq_true, if_false]
  split
  · exact Nat.mod_eq_of_lt hfloc
  · exact Nat.mod_eq_of_lt (by omega)

/-- A call of a machine without alignment: the linker reaches the operand from the listed address,
except for a child thread on a method, which one handler stores as a builtin call. -/
theorem iw_patch (ht : t ∈ registeredTargets) (hiw : t.iwLike = true) (hc : c.vm = t.vm)
    (hk : callType t.handler n.opcode = some (flags &&& 0xF)) {floc : Nat}
    (hfloc : floc + 2 < 2 ^ 32) :
    n.getFLoc c floc + t.importDelta (t.handler.mapFlagsImportToInt flags) =
        floc + 1 + (if callParams c n then 1 else 0) ↔
      ¬ (t.handler = .mw23 ∧ flags &&& 0xF = 7) := by
  obtain ⟨halign, hcalls, hapi, -⟩ := registered_kind t ht
  rw [hiw] at halign hapi
  rw [← hc] at halign hcalls
  rw [getFLoc_iw halign hfloc, Nat.add_assoc, Nat.add_assoc, Nat.add_left_cancel_iff]
  unfold Target.importDelta callParams loadData writesParams
  rw [remap_map, ← hc, halign, hcalls]
  simp only [Bool.not_true, Bool.false_eq_true, if_false]
  generalize n.opcode = op at hk ⊢
  generalize t.handler = h at hk hapi ⊢
  generalize flags &&& 0xF = kind at hk ⊢
  unfold callType at hk
  rw [hapi] at hk
  split at hk <;> cases hk <;> cases h <;> first
    | exact absurd hapi (by decide)
    | decide +kernel

/-- A machine with alignment: the linker skips the opcode and the parameter count, and aligns. -/
theorem align_patch (ht : t ∈ registeredTargets) (hiw : t.iwLike = false) (hc : c.vm = t.vm)
    (hk : callType t.handler n.opcode = some (flags &&& 0xF)) (address : Nat) :
    t.patchOffset (t.handler.mapFlagsImportToInt flags) address =
      some (aligned (address + t.opcodeSize + if callParams c n then 1 else 0) 8) := by
  obtain ⟨halign, hcalls, hapi, hparams⟩ := registered_kind t ht
  rw [hiw] at halign hapi
  rw [← hc] at halign hcalls
  unfold Target.patchOffset callParams loadData writesParams
  rw [remap_map, hiw, hparams hiw, halign, hcalls]
  simp only [Bool.not_false, Bool.false_eq_true, if_false, if_true, Option.map_some,
    Option.getD_some, Bool.true_and]
  generalize n.opcode = op at hk ⊢
  generalize t.handler = h at hk hapi ⊢
  generalize flags &&& 0xF = kind at hk ⊢
  unfold callType at hk
  rw [hapi] at hk
  split at hk <;> cases hk <;> cases h <;> first
    | exact absurd hapi (by decide)
    | rfl

end Calls

/-! ## Registered nodes -/

/-- The offset of the operand of a node: what is written up to the node ends in it. -/
def OperandAt (k : Compiler) (exports : List Export) (emitted : List Emitted) (r : NodeRef)
    (offset : Nat) : Prop :=
  ∃ e em n pre, exports[r.fn]? = some e ∧ emitted[r.fn]? = some em ∧
    e.function.nodes[r.idx]? = some n ∧
    writeNodes (k.ctxOf e) (rlocOf em.locs) (e.function.nodes.take (r.idx + 1))
      (em.locs.take (r.idx + 1)) em.data = some (pre ++ n.operand k.ctx) ∧ pre.length = offset

theorem shift_ctxOf (k : Compiler) (e : Export) (align : Bool) (s : Nat) (n : AscmNode) :
    n.shift (k.ctxOf e) align s = n.shift k.ctx align s := by
  cases n <;> rfl

theorem outputStart_ctxOf (k : Compiler) (e : Export) (f : FunctionObject) (i : Nat) :
    f.outputStart (k.ctxOf e) i = f.outputStart k.ctx i :=
  congrArg (startAt · f.nodes i 0) (funext fun s => funext fun n => shift_ctxOf k e _ s n)

theorem layoutStart_ctxOf (k : Compiler) (e : Export) (f : FunctionObject) (i : Nat) :
    f.layoutStart (k.ctxOf e) i = f.layoutStart k.ctx i :=
  congrArg (startAt · f.nodes i 0)
    (funext fun s => funext fun n => congrArg (Option.map (· % 2 ^ 32)) (shift_ctxOf k e _ s n))

theorem operand_ctxOf (k : Compiler) (e : Export) (n : AscmNode) :
    n.operand (k.ctxOf e) = n.operand k.ctx := by
  cases n <;> rfl

/-- Every function of the output. -/
theorem writeExports_spec {k : Compiler} {exports : List Export} {data final : List UInt8}
    {emitted : List Emitted} (h : writeExports k exports data = some (emitted, final)) :
    data <+: final ∧ ∀ {i : Nat} {e : Export}, exports[i]? = some e →
      ∃ (em : Emitted) (out : List UInt8), emitted[i]? = some em ∧ 8 ∣ em.data.length ∧
        e.function.emit (k.ctxOf e) em.data = some (em.locs, out) ∧ out <+: final := by
  induction exports generalizing data emitted with
  | nil =>
    cases h
    refine ⟨List.prefix_refl _, ?_⟩
    intro i e he
    cases he
  | cons e es ih =>
    obtain ⟨⟨locs, out⟩, hemit, h⟩ := Option.bind_eq_some_iff.mp h
    obtain ⟨⟨rest, out'⟩, hrest, h⟩ := Option.bind_eq_some_iff.mp h
    cases h
    obtain ⟨hpfx, hall⟩ := ih hrest
    have hout : padTo 16 data ++ List.replicate 8 0 <+: out := by
      obtain ⟨locs', hlocs, hemit⟩ := Option.bind_eq_some_iff.mp hemit
      obtain ⟨out'', hw, hemit⟩ := Option.bind_eq_some_iff.mp hemit
      cases hemit
      exact prefix_writeNodes hw
    constructor
    · have hpad : data <+: padTo 16 data ++ List.replicate 8 0 :=
        ⟨_, (List.append_assoc _ _ _).symm⟩
      exact (hpad.trans hout).trans hpfx
    · intro i e' he
      cases i with
      | zero =>
        cases he
        refine ⟨_, out, rfl, ?_, hemit, hpfx⟩
        rw [List.length_append, length_padTo _ (by decide), List.length_replicate]
        exact Nat.dvd_add (dvd_aligned_of_dvd (by decide) _) (Nat.dvd_refl 8)
      | succ i => exact hall he

/-- What a compiled script says of a node. -/
structure EmittedNode (k : Compiler) (exports : List Export) (emitted : List Emitted)
    (final : List UInt8) (r : NodeRef) (n : AscmNode) (e : Export) (em : Emitted) (l : Loc)
    (u a : Nat) (before after : List UInt8) : Prop where
  exp : exports[r.fn]? = some e
  emitted : emitted[r.fn]? = some em
  node : e.function.nodes[r.idx]? = some n
  loc : em.locs[r.idx]? = some l
  base : 8 ∣ em.data.length
  layout : e.function.layoutStart k.ctx r.idx = some u
  output : e.function.outputStart k.ctx r.idx = some a
  placed : Placed (k.ctxOf e) (rlocOf em.locs) em.data.length n l u a before after
  through : writeNodes (k.ctxOf e) (rlocOf em.locs) (e.function.nodes.take (r.idx + 1))
    (em.locs.take (r.idx + 1)) em.data = some after
  final : after <+: final

theorem emittedNode {k : Compiler} {exports : List Export} {data final : List UInt8}
    {emitted : List Emitted} (h : writeExports k exports data = some (emitted, final))
    (hlen : final.length < 2 ^ 31) {r : NodeRef} {n : AscmNode}
    (hn : nodeOf exports r = some n) :
    ∃ e em l u a before after, EmittedNode k exports emitted final r n e em l u a before after := by
  obtain ⟨e, he, hn⟩ := Option.bind_eq_some_iff.mp hn
  obtain ⟨em, out, hem, hbase, hemit, hout⟩ := (writeExports_spec h).2 he
  obtain ⟨locs, hlocs, hemit⟩ := Option.bind_eq_some_iff.mp hemit
  obtain ⟨out', hw, hemit⟩ := Option.bind_eq_some_iff.mp hemit
  cases hemit
  have hvm : (k.ctxOf e).vm ∈ registeredVms := by
    show k.ctx.vm ∈ registeredVms
    rw [k.vm_eq]
    exact vm_of_registered k.registered
  have hle := hout.length_le
  obtain ⟨l, u, a, before, after, hl, hu, ha, hplaced, hafter, hthrough⟩ :=
    node_placed (regular_of_registered hvm) hbase hlocs (Nat.add_zero _).symm (behind_refl _ 0) hw
      (by omega) hn
  exact ⟨e, em, l, u, a, before, after, he, hem, hn, hl, hbase, (layoutStart_ctxOf k e _ _).symm.trans hu,
    (outputStart_ctxOf k e _ _).symm.trans ha, hplaced, hthrough, hafter.trans hout⟩

/-- The bytes of the operand are in the output. -/
theorem OperandAt.bytes {k : Compiler} {exports : List Export} {data final : List UInt8}
    {emitted : List Emitted} (h : writeExports k exports data = some (emitted, final))
    (hlen : final.length < 2 ^ 31) {r : NodeRef} {offset : Nat}
    (hat : OperandAt k exports emitted r offset) :
    ∃ n, nodeOf exports r = some n ∧ n.operand k.ctx <+: final.drop offset := by
  obtain ⟨e, em, n, pre, he, hem, hn, hthrough, rfl⟩ := hat
  have hnode : nodeOf exports r = some n := by simp [nodeOf, he, hn]
  obtain ⟨e', em', l, u, a, before, after, hout⟩ := emittedNode h hlen hnode
  cases he.symm.trans hout.exp
  cases hem.symm.trans hout.emitted
  rw [hout.through] at hthrough
  cases hthrough
  obtain ⟨rest, hrest⟩ := hout.final
  refine ⟨n, hnode, rest, ?_⟩
  rw [← hrest, List.append_assoc, List.drop_left]

/-! ## The listed addresses -/

section Addresses

variable {k : Compiler} {exports : List Export} {emitted : List Emitted} {final : List UInt8}
  {r : NodeRef} {n : AscmNode} {e : Export} {em : Emitted} {l : Loc} {u a : Nat}
  {before after : List UInt8}

theorem operandAt_iff (h : EmittedNode k exports emitted final r n e em l u a before after)
    {pre : List UInt8} (hpre : after = pre ++ n.operand k.ctx) (offset : Nat) :
    OperandAt k exports emitted r offset ↔ offset = pre.length := by
  constructor
  · rintro ⟨e', em', n', pre', he, hem, hn, hthrough, rfl⟩
    rw [h.exp] at he
    cases he
    rw [h.emitted] at hem
    cases hem
    rw [h.node] at hn
    cases hn
    rw [h.through, hpre] at hthrough
    have hlen := congrArg List.length (Option.some.inj hthrough)
    rw [List.length_append, List.length_append] at hlen
    omega
  · rintro rfl
    exact ⟨e, em, n, pre, h.exp, h.emitted, h.node, by rw [h.through, hpre], rfl⟩

theorem aligned_mono {s s' : Nat} (len : Nat) (h : s ≤ s') : aligned s len ≤ aligned s' len :=
  Nat.mul_le_mul_right _ (Nat.div_le_div_right (Nat.add_le_add_right h _))

/-- A node whose operand has `w` bytes and stands behind the opcode. -/
structure DataNode (c : Ctx) (n : AscmNode) (w : Nat) : Prop where
  pos : 0 < w
  shift : ∀ align s, n.shift c align s = some (shiftData align w w (shiftOpCode align s))
  operand : (n.operand c).length = w
  floc : ∀ floc, n.getDataFLoc c floc =
    (n.shiftSize c c.hasAlign floc).map fun next => (next + 2 ^ 32 - w) % 2 ^ 32
  written : ∀ rlocs rloc data data', n.write c rlocs rloc data = some data' →
    ∃ pre, data' = pre ++ n.operand c

theorem dataNode_data (c : Ctx) (w : Width) (val : Nat) (op : OPCode) :
    DataNode c (.data w val op) w.bytes where
  pos := w.bytes_pos
  shift _ _ := rfl
  operand := length_leBytes _ _
  floc _ := rfl
  written _ _ _ _ h := operand_data h

theorem dataNode_global (c : Ctx) (op : OPCode) : DataNode c (.globalVariable op) 2 where
  pos := by decide
  shift _ _ := rfl
  operand := length_leBytes _ _
  floc _ := rfl
  written _ _ _ _ h := operand_global h

theorem shiftOpCode_aligned (s : Nat) : shiftOpCode true (aligned s 2) = shiftOpCode true s := by
  unfold shiftOpCode
  rw [if_pos rfl, if_pos rfl, aligned_of_dvd (aligned_dvd s 2)]

theorem shiftOperand_mono {align : Bool} {w s s' : Nat} (h : s ≤ s') :
    shiftData align w w (shiftOpCode align s) ≤ shiftData align w w (shiftOpCode align s') := by
  have hop : shiftOpCode align s ≤ shiftOpCode align s' := by
    unfold shiftOpCode
    split
    · exact Nat.add_le_add_right (aligned_mono 2 h) 2
    · exact Nat.add_le_add_right h 1
  unfold shiftData
  split
  · exact Nat.add_le_add_right (aligned_mono w hop) w
  · exact Nat.add_le_add_right hop w

/-- The layout pass puts the operand of a node where the output does. -/
def Lands (k : Compiler) (exports : List Export) (r : NodeRef) : Prop :=
  ∀ e n, exports[r.fn]? = some e → e.function.nodes[r.idx]? = some n →
    (e.function.layoutStart k.ctx r.idx).bind
        (n.shift k.ctx k.ctx.hasAlign) =
      (e.function.outputStart k.ctx r.idx).bind
        (n.shift k.ctx k.ctx.hasAlign)

/-- **The address of a data node is the offset of its operand exactly when the layout lands.** -/
theorem getDataFLoc_lands (h : EmittedNode k exports emitted final r n e em l u a before after)
    {w : Nat} (hd : ∀ c, DataNode c n w) (hlen : final.length < 2 ^ 31) {address : Nat}
    (haddr : n.getDataFLoc k.ctx l.floc = some address) :
    OperandAt k exports emitted r address ↔ Lands k exports r := by
  have hvm : (k.ctxOf e).vm ∈ registeredVms := by
    show k.ctx.vm ∈ registeredVms
    rw [k.vm_eq]
    exact vm_of_registered k.registered
  obtain ⟨pre, hpre⟩ := (hd _).written _ _ _ _ h.placed.write
  rw [operand_ctxOf] at hpre
  have hw := (hd k.ctx).operand
  have hafter : after.length = pre.length + w := by rw [hpre, List.length_append, hw]
  have hle := h.final.length_le
  -- the end of the node in the output, and behind the location of the layout
  have hend := length_write (regular_of_registered hvm) h.placed.write
  rw [shift_ctxOf, h.placed.length] at hend
  have hend' : n.shift k.ctx k.ctx.hasAlign (em.data.length + a) = some after.length := hend
  rw [shift_base h.base, (hd k.ctx).shift, Option.map_some] at hend'
  have hends := Option.some.inj hend'
  have hfloc : n.shift k.ctx k.ctx.hasAlign l.floc =
      some (em.data.length + shiftData k.ctx.hasAlign w w (shiftOpCode k.ctx.hasAlign u)) := by
    rw [h.placed.floc]
    have hbase : n.shift k.ctx k.ctx.hasAlign (em.data.length + u) =
        some (em.data.length + shiftData k.ctx.hasAlign w w (shiftOpCode k.ctx.hasAlign u)) := by
      rw [shift_base h.base, (hd k.ctx).shift, Option.map_some]
    split
    · rename_i hl
      have ha : k.ctx.hasAlign = true := by
        have hl' : k.ctx.layoutAlign = true := hl
        unfold Ctx.layoutAlign at hl'
        exact (Bool.and_eq_true_iff.mp hl').1
      rw [← hbase, (hd k.ctx).shift, (hd k.ctx).shift, ha, shiftOpCode_aligned]
    · exact hbase
  have hmono : shiftData k.ctx.hasAlign w w (shiftOpCode k.ctx.hasAlign u) ≤
      shiftData k.ctx.hasAlign w w (shiftOpCode k.ctx.hasAlign a) :=
    shiftOperand_mono h.placed.behind.le
  have hwle : w ≤ shiftData k.ctx.hasAlign w w (shiftOpCode k.ctx.hasAlign u) := by
    unfold shiftData
    split <;> omega
  rw [(hd k.ctx).floc, AscmNode.shiftSize, hfloc] at haddr
  have haddr' := Option.some.inj haddr
  simp only at haddr'
  rw [operandAt_iff h hpre]
  unfold Lands
  constructor
  · intro heq e' n' he' hn'
    rw [h.exp] at he'
    cases he'
    rw [h.node] at hn'
    cases hn'
    rw [h.layout, h.output, Option.bind_some, Option.bind_some, (hd k.ctx).shift,
      (hd k.ctx).shift]
    refine congrArg some ?_
    omega
  · intro hlands
    have heq := hlands e n h.exp h.node
    rw [h.layout, h.output, Option.bind_some, Option.bind_some, (hd k.ctx).shift,
      (hd k.ctx).shift] at heq
    have := Option.some.inj heq
    omega

/-- Where the linker looks for the operand of a call that the layout starts at `u`. -/
def linkSlot (k : Compiler) (n : FunctionCall) (u : Nat) : Nat :=
  let p := if callParams k.ctx n then 1 else 0
  aligned ((if k.ctx.layoutAlign then aligned u 2 else u) + k.target.opcodeSize + p) 8

/-- The linker reaches the operand of a call.  Without alignment the kind of the import decides, with
alignment the place where the layout puts the call. -/
def Patches (k : Compiler) (exports : List Export) (flags : UInt8) (r : NodeRef) : Prop :=
  if k.target.iwLike then ¬ (k.target.handler = .mw23 ∧ flags &&& 0xF = 7)
  else ∀ e call, exports[r.fn]? = some e →
    e.function.nodes[r.idx]? = some (.functionCall call) →
    (e.function.layoutStart k.ctx r.idx).map (linkSlot k call) =
      (e.function.outputStart k.ctx r.idx).map (callSlot k.ctx call)

theorem callSlot_base {c : Ctx} (n : FunctionCall) {base : Nat} (hb : 8 ∣ base) (s : Nat) :
    callSlot c n (base + s) = base + callSlot c n s := by
  have h2 : 2 ∣ base := Nat.dvd_trans (by decide) hb
  unfold callSlot shiftOpCode
  simp only [if_true]
  split
  · have hop : aligned (base + s) 2 + 2 + (if callParams c n = true then 1 else 0) =
        base + (aligned s 2 + 2 + if callParams c n = true then 1 else 0) := by
      rw [aligned_add s h2]
      omega
    rw [hop, aligned_add _ hb]
  · omega

theorem linkSlot_base {k : Compiler} (n : FunctionCall) {base : Nat} (hb : 8 ∣ base) (u : Nat) :
    aligned ((if k.ctx.layoutAlign then aligned (base + u) 2 else base + u) +
      k.target.opcodeSize + if callParams k.ctx n then 1 else 0) 8 = base + linkSlot k n u := by
  have h2 : 2 ∣ base := Nat.dvd_trans (by decide) hb
  have hfloc : (if k.ctx.layoutAlign then aligned (base + u) 2 else base + u) =
      base + if k.ctx.layoutAlign then aligned u 2 else u := by
    split
    · exact aligned_add u h2
    · rfl
  unfold linkSlot
  rw [hfloc, Nat.add_assoc base, Nat.add_assoc base, aligned_add _ hb]

/-- **The linker reaches the operand of a call from its address exactly when the call patches.** -/
theorem getFLoc_patches {call : FunctionCall}
    (h : EmittedNode k exports emitted final r (.functionCall call) e em l u a before after)
    (hp : call.flags.pointer = false) {flags : UInt8}
    (hk : callType k.target.handler call.opcode = some (flags &&& 0xF))
    (hlen : final.length < 2 ^ 31) :
    (∃ offset, k.target.patchOffset (k.target.handler.mapFlagsImportToInt flags)
        (call.getFLoc k.ctx l.floc) = some offset ∧ OperandAt k exports emitted r offset) ↔
      Patches k exports flags r := by
  obtain ⟨pre, hpre, hslot⟩ := operand_call (n := call) hp h.placed.write
  have hslot' : pre.length = em.data.length + callSlot k.ctx call a := by
    rw [hslot, h.placed.length]
    exact callSlot_base call h.base a
  have hfloc : l.floc =
      if k.ctx.layoutAlign then aligned (em.data.length + u) 2 else em.data.length + u :=
    h.placed.floc
  have hle := h.final.length_le
  have hua := h.placed.behind.le
  have hbound : em.data.length + u < 2 ^ 31 := by
    obtain ⟨_, hw⟩ := prefix_write h.placed.write
    have := h.placed.length
    have := congrArg List.length hw
    rw [List.length_append] at this
    omega
  obtain ⟨halign, -, -, -⟩ := registered_kind k.target k.registered
  unfold Patches
  cases hiw : k.target.iwLike with
  | true =>
    rw [hiw] at halign
    have ha : k.ctx.vm.hasFlag .align = false := by rw [k.vm_eq]; exact halign
    have hl : k.ctx.layoutAlign = false := by
      unfold Ctx.layoutAlign
      rw [ha, Bool.false_and]
    have hu : u = a := by
      obtain ⟨-, heq⟩ | ⟨-, hcontra, -⟩ := h.placed.behind
      · exact heq
      · exact absurd (ha.symm.trans hcontra) (by decide)
    rw [hl, if_neg Bool.false_ne_true] at hfloc
    have hoff : k.target.patchOffset (k.target.handler.mapFlagsImportToInt flags)
        (call.getFLoc k.ctx l.floc) = some (call.getFLoc k.ctx l.floc +
          k.target.importDelta (k.target.handler.mapFlagsImportToInt flags)) := by
      unfold Target.patchOffset
      rw [if_pos hiw]
    have hend : pre.length = l.floc + 1 + if callParams k.ctx call then 1 else 0 := by
      rw [hslot', hfloc, hu, callSlot, Ctx.hasAlign, ha]
      simp only [Bool.false_eq_true, if_false]
      omega
    have hpatch := iw_patch (n := call) k.registered hiw k.vm_eq hk
      (show l.floc + 2 < 2 ^ 32 by rw [hfloc]; omega)
    rw [if_pos rfl, ← hpatch, ← hend, hoff]
    constructor
    · rintro ⟨offset, heq, hat⟩
      cases heq
      exact (operandAt_iff h hpre _).mp hat
    · intro heq
      exact ⟨_, rfl, (operandAt_iff h hpre _).mpr heq⟩
  | false =>
    have hf : l.floc < 2 ^ 32 := by
      have := aligned_lt (em.data.length + u) (show 0 < 2 by decide)
      rw [hfloc]
      split <;> omega
    have hget : call.getFLoc k.ctx l.floc = l.floc := by
      rw [hiw] at halign
      unfold FunctionCall.getFLoc
      rw [k.vm_eq, halign, if_pos (by decide), Nat.mod_eq_of_lt hf]
    rw [if_neg Bool.false_ne_true, hget,
      align_patch (n := call) k.registered hiw k.vm_eq hk, hfloc, linkSlot_base call h.base]
    constructor
    · rintro ⟨offset, heq, hat⟩
      cases heq
      have heq := (operandAt_iff h hpre _).mp hat
      intro e' call' he' hcall'
      rw [h.exp] at he'
      cases he'
      rw [h.node] at hcall'
      cases hcall'
      rw [h.layout, h.output, Option.map_some, Option.map_some]
      refine congrArg some ?_
      omega
    · intro hall
      have heq := hall e call h.exp h.node
      rw [h.layout, h.output, Option.map_some, Option.map_some] at heq
      have := Option.some.inj heq
      exact ⟨_, rfl, (operandAt_iff h hpre _).mpr (by omega)⟩

/-! ### Machines whose layout counts as the output does -/

theorem EmittedNode.start_eq (h : EmittedNode k exports emitted final r n e em l u a before after)
    (hal : k.ctx.layoutAlign = k.ctx.hasAlign) : u = a := by
  obtain ⟨-, heq⟩ | ⟨hl, ha, -⟩ := h.placed.behind
  · exact heq
  · have hl' : k.ctx.layoutAlign = false := hl
    have ha' : k.ctx.hasAlign = true := ha
    rw [hl', ha'] at hal
    cases hal

theorem EmittedNode.lands (h : EmittedNode k exports emitted final r n e em l u a before after)
    (hal : k.ctx.layoutAlign = k.ctx.hasAlign) : Lands k exports r := by
  intro e' n' he _
  rw [h.exp] at he
  cases he
  rw [h.layout, h.output, h.start_eq hal]

theorem EmittedNode.patches (h : EmittedNode k exports emitted final r n e em l u a before after)
    (hal : k.ctx.layoutAlign = k.ctx.hasAlign) {flags : UInt8} :
    Patches k exports flags r ↔ ¬ (k.target.handler = .mw23 ∧ flags &&& 0xF = 7) := by
  obtain ⟨halign, -, -, -⟩ := registered_kind k.target k.registered
  have hmw23 := mw23_iwLike k.target k.registered
  unfold Patches
  cases hiw : k.target.iwLike with
  | true => rw [if_pos rfl]
  | false =>
    rw [if_neg Bool.false_ne_true]
    rw [hiw, ← k.vm_eq] at halign
    have ha : k.ctx.hasAlign = true := halign
    have hsize : k.target.opcodeSize = 2 := by
      unfold Ctx.layoutAlign at hal
      rw [ha, halign, Bool.not_false, Bool.true_and, k.vm_eq] at hal
      rw [Target.opcodeSize, if_pos hal]
    constructor
    · rintro - ⟨hh, -⟩
      rw [hmw23 hh] at hiw
      cases hiw
    · intro _ e' call he _
      rw [h.exp] at he
      cases he
      rw [h.layout, h.output, h.start_eq hal, Option.map_some, Option.map_some]
      unfold linkSlot callSlot shiftOpCode
      rw [hsize, hal, ha]
      rfl

end Addresses

end Acts.Gsc
