import Acts.Gsc.AsmLayout

/-!
# Where jumps lead

The operand of a jump is a `int16_t`, and the check of its size is against 2 ^ 16:

* `jumpHandler` — where the machine goes from a jump.
* `startAt` — the start of a node in a layout; `FunctionObject.distance` and
  `FunctionObject.layoutDistance` — how far a target is from a jump in the output and for the jump.
* `lands_iff_extend` — the machine adds the low 16 bits of the distance, with the sign of bit 15.
* `jump_lands_iff` — **a jump leads to its target exactly when the distance is one of a signed
  16-bit number and the layout has it modulo 2 ^ 16.**
-/

set_option autoImplicit false

namespace Acts.Gsc

variable {c : Ctx}

/-! ## The machine -/

/-- A `int16_t`. -/
def signExtend16 (v : Nat) : Int := if v < 2 ^ 15 then v else v - 2 ^ 16

/-- `JumpHandler`, whose operand is at `base`: the new code position. -/
def jumpHandler (code : List UInt8) (base : Nat) : Int :=
  (base + 2 : Nat) + signExtend16 (readLe 2 (code.drop base))

/-- The output when a node is written. -/
def FunctionObject.outputAt (f : FunctionObject) (c : Ctx) (locs : List Loc) (data : List UInt8)
    (i : Nat) : Option (List UInt8) :=
  writeNodes c (rlocOf locs) (f.nodes.take i) (locs.take i) data

/-- The machine goes from the jump `j`, whose operand ends it, to where the node `t` starts. -/
def FunctionObject.JumpLands (f : FunctionObject) (c : Ctx) (locs : List Loc)
    (data out : List UInt8) (j t : Nat) : Prop :=
  ∃ next target, f.outputAt c locs data (j + 1) = some next ∧
    f.outputAt c locs data t = some target ∧ jumpHandler out (next.length - 2) = target.length

/-! ## Distances -/

/-- The start of a node, when the nodes have the given sizes. -/
def startAt (size : Nat → AscmNode → Option Nat) : List AscmNode → Nat → Nat → Option Nat
  | _, 0, start => some start
  | [], _ + 1, _ => none
  | n :: ns, i + 1, start => (size start n).bind (startAt size ns i)

/-- The start of a node in the output, behind the start of the function. -/
def FunctionObject.outputStart (f : FunctionObject) (c : Ctx) (i : Nat) : Option Nat :=
  startAt (fun start n => n.shift c c.hasAlign start) f.nodes i 0

/-- The start of a node in the layout. -/
def FunctionObject.layoutStart (f : FunctionObject) (c : Ctx) (i : Nat) : Option Nat :=
  startAt (fun start n => n.shiftSize c c.layoutAlign start) f.nodes i 0

/-- How far a node is from the end of a jump in the output. -/
def FunctionObject.distance (f : FunctionObject) (c : Ctx) (j t : Nat) : Option Int :=
  (f.outputStart c t).bind fun target : Nat =>
    (f.outputStart c (j + 1)).map fun next : Nat => (target - next : Int)

/-- The same as the jump computes it, from the relative locations. -/
def FunctionObject.layoutDistance (f : FunctionObject) (c : Ctx) (j t : Nat) : Option Int :=
  (f.layoutStart c t).bind fun location : Nat =>
    (f.layoutStart c j).bind fun rloc => f.nodes[j]?.bind fun n =>
      (n.shiftSize c c.hasAlign rloc).map fun next : Nat => (location - next : Int)

/-- The distance is one of a `int16_t`, and the jump computes it up to the bits it drops. -/
def FunctionObject.JumpFits (f : FunctionObject) (c : Ctx) (j t : Nat) : Prop :=
  ∃ d δ, f.distance c j t = some d ∧ f.layoutDistance c j t = some δ ∧
    -(2 ^ 15 : Int) ≤ d ∧ d < 2 ^ 15 ∧ (2 ^ 16 : Int) ∣ δ - d

/-! ## The passes at a node -/

@[simp] theorem startAt_zero (size : Nat → AscmNode → Option Nat) (nodes : List AscmNode)
    (start : Nat) : startAt size nodes 0 start = some start := by
  cases nodes <;> rfl

theorem startAt_succ (size : Nat → AscmNode → Option Nat) {nodes : List AscmNode} {i : Nat}
    (start : Nat) {n : AscmNode} (hn : nodes[i]? = some n) :
    startAt size nodes (i + 1) start = (startAt size nodes i start).bind (size · n) := by
  induction nodes generalizing i start with
  | nil => cases hn
  | cons m ns ih =>
    cases i with
    | zero =>
      cases hn
      show (size start n).bind (startAt size ns 0) = _
      rw [startAt_zero, Option.bind_some]
      cases size start n with
      | none => rfl
      | some s => exact startAt_zero size ns s
    | succ i =>
      show (size start m).bind (startAt size ns (i + 1)) =
        ((size start m).bind (startAt size ns i)).bind (size · n)
      rw [Option.bind_assoc]
      refine congrArg _ ?_
      funext s
      exact ih s hn

/-- The relative location of a node is its start in the layout. -/
theorem startAt_relativeLocations {base rloc i : Nat} {nodes : List AscmNode} {locs : List Loc}
    (h : relativeLocations c base nodes rloc = some locs) (hi : i < nodes.length) :
    startAt (fun start n => n.shiftSize c c.layoutAlign start) nodes i rloc =
      some (rlocOf locs i) := by
  induction nodes generalizing i rloc locs with
  | nil => cases hi
  | cons n ns ih =>
    rw [relativeLocations] at h
    obtain ⟨current, hcur, h⟩ := Option.bind_eq_some_iff.mp h
    split at h
    · cases h
    · obtain ⟨ls, hls, h⟩ := Option.bind_eq_some_iff.mp h
      cases h
      cases i with
      | zero => rfl
      | succ i =>
        rw [startAt, hcur, Option.bind_some, ih hls (Nat.lt_of_succ_lt_succ hi)]
        rfl

theorem length_relativeLocations {base rloc : Nat} {nodes : List AscmNode} {locs : List Loc}
    (h : relativeLocations c base nodes rloc = some locs) : locs.length = nodes.length := by
  induction nodes generalizing rloc locs with
  | nil =>
    cases h
    rfl
  | cons n ns ih =>
    rw [relativeLocations] at h
    obtain ⟨current, -, h⟩ := Option.bind_eq_some_iff.mp h
    split at h
    · cases h
    · obtain ⟨ls, hls, h⟩ := Option.bind_eq_some_iff.mp h
      cases h
      rw [List.length_cons, List.length_cons, ih hls]

/-- The nodes up to `i` are written, and what they leave is as long as their sizes say. -/
theorem written_take (hc : c.Regular) {base : Nat} (hb : 8 ∣ base) {rlocs : Nat → Nat} {i start : Nat}
    {nodes : List AscmNode} {locs : List Loc} {data out : List UInt8}
    (hlocs : locs.length = nodes.length) (hdata : data.length = base + start)
    (hw : writeNodes c rlocs nodes locs data = some out) (hi : i ≤ nodes.length) :
    ∃ d s, writeNodes c rlocs (nodes.take i) (locs.take i) data = some d ∧
      writeNodes c rlocs (nodes.drop i) (locs.drop i) d = some out ∧
      startAt (fun start n => n.shift c c.hasAlign start) nodes i start = some s ∧
      d.length = base + s := by
  induction i generalizing nodes locs data start with
  | zero => exact ⟨data, start, rfl, hw, by rw [startAt], hdata⟩
  | succ i ih =>
    cases nodes with
    | nil => cases hi
    | cons n ns =>
      cases locs with
      | nil => cases hlocs
      | cons l ls =>
        obtain ⟨data', h₁, h₂⟩ := Option.bind_eq_some_iff.mp hw
        have hcount := length_write hc h₁
        rw [hdata, shift_base hb] at hcount
        obtain ⟨s', hs', hlen⟩ := Option.map_eq_some_iff.mp hcount
        obtain ⟨d, s, hd, hrest, hs, hl⟩ :=
          ih (Nat.succ.inj hlocs) hlen.symm h₂ (Nat.le_of_succ_le_succ hi)
        refine ⟨d, s, ?_, hrest, ?_, hl⟩
        · exact Option.bind_eq_some_iff.mpr ⟨data', h₁, hd⟩
        · show (n.shift c c.hasAlign start).bind _ = _
          rw [hs', Option.bind_some, hs]

/-- A jump writes the low bits of its distance at its end. -/
theorem write_jump {rlocs : Nat → Nat} {rloc t : Nat} {op : OPCode} {data data' : List UInt8}
    (h : (AscmNode.jump t op).write c rlocs rloc data = some data') :
    ∃ next front, (AscmNode.jump t op).shiftSize c c.hasAlign rloc = some next ∧
      data' = front ++ leBytes 2 (((rlocs t : Int) - next) % 2 ^ 16).toNat := by
  obtain ⟨data₁, -, h⟩ := Option.bind_eq_some_iff.mp h
  obtain ⟨next, hnext, h⟩ := Option.bind_eq_some_iff.mp h
  obtain ⟨delta, hdelta, h⟩ := Option.bind_eq_some_iff.mp h
  cases h
  unfold jumpDelta at hdelta
  simp only at hdelta
  split at hdelta
  · cases hdelta
  · cases hdelta
    exact ⟨next, c.pad 2 data₁, hnext, rfl⟩

/-- **The machine adds the low 16 bits of the distance, with the sign of bit 15.** -/
theorem lands_iff_extend {f : FunctionObject} (hc : c.Regular) {data out : List UInt8}
    (hbase : 8 ∣ data.length) {locs : List Loc} (hemit : f.emit c data = some (locs, out))
    {j t : Nat} {op : OPCode} (hj : f.nodes[j]? = some (.jump t op)) (ht : t < f.nodes.length) :
    ∃ d δ, f.distance c j t = some d ∧ f.layoutDistance c j t = some δ ∧
      (f.JumpLands c locs data out j t ↔ signExtend16 (δ % 2 ^ 16).toNat = d) := by
  obtain ⟨locs', hloc, hemit⟩ := Option.bind_eq_some_iff.mp hemit
  obtain ⟨out', hw, hemit⟩ := Option.bind_eq_some_iff.mp hemit
  cases hemit
  have hlen := length_relativeLocations hloc
  obtain ⟨hjlt, hjget⟩ := List.getElem?_eq_some_iff.mp hj
  have hstart : data.length = data.length + 0 := rfl
  have hjle : j + 1 ≤ f.nodes.length := hjlt
  -- the output before the jump, behind it and before the target
  obtain ⟨dj, sj, hdj, hrest, hsj, hlj⟩ := written_take hc hbase hlen hstart hw (Nat.le_of_lt hjlt)
  obtain ⟨dn, sn, hdn, hrestn, hsn, hln⟩ := written_take hc hbase hlen hstart hw hjle
  obtain ⟨dt, st, hdt, -, hst, hlt⟩ := written_take hc hbase hlen hstart hw (Nat.le_of_lt ht)
  have hjl : j < locs.length := hlen.symm ▸ hjlt
  rw [List.drop_eq_getElem_cons hjlt, List.drop_eq_getElem_cons hjl, hjget] at hrest
  obtain ⟨d', h₁, h₂⟩ := Option.bind_eq_some_iff.mp hrest
  -- the jump itself ends where the next node starts
  have hcount := length_write hc h₁
  rw [hlj, shift_base hbase] at hcount
  obtain ⟨s', hs', hl'⟩ := Option.map_eq_some_iff.mp hcount
  have hsn' := startAt_succ (fun start n => n.shift c c.hasAlign start) 0 hj
  rw [hsj, Option.bind_some, hs', hsn] at hsn'
  cases hsn'
  have hrloc : locs[j].rloc = rlocOf locs j := by
    rw [rlocOf, List.getElem?_eq_getElem hjl]
    rfl
  obtain ⟨next, front, hnext, rfl⟩ := write_jump h₁
  rw [hrloc] at hnext
  refine ⟨(st : Int) - sn, (rlocOf locs t : Int) - next, ?_, ?_, ?_⟩
  · simp only [FunctionObject.distance, FunctionObject.outputStart, hst, hsn, Option.bind_some,
      Option.map_some]
  · simp only [FunctionObject.layoutDistance, FunctionObject.layoutStart,
      startAt_relativeLocations hloc ht, startAt_relativeLocations hloc hjlt, hj, hnext,
      Option.bind_some, Option.map_some]
  · have hpos : front.length + 2 = dn.length := by
      have := hl'.symm
      rw [List.length_append, length_leBytes] at this
      omega
    obtain ⟨rest, hrest⟩ := prefix_writeNodes h₂
    have hread : readLe 2 (out.drop (dn.length - 2)) =
        ((((rlocOf locs t : Int) - next) % 2 ^ 16).toNat) := by
      rw [← hrest, ← hpos, Nat.add_sub_cancel, List.append_assoc, List.drop_left, readLe_leBytes,
        Nat.mod_eq_of_lt (by omega)]
    constructor
    · rintro ⟨dn', dt', hdn', hdt', hat⟩
      rw [FunctionObject.outputAt, hdn] at hdn'
      rw [FunctionObject.outputAt, hdt] at hdt'
      cases hdn'
      cases hdt'
      rw [jumpHandler, hread] at hat
      omega
    · intro hext
      refine ⟨dn, dt, hdn, hdt, ?_⟩
      rw [jumpHandler, hread, hext]
      omega

/-- A size is computed modulo 2 ^ 32. -/
theorem shiftSize_of_shift {a : Bool} {n : AscmNode} {start s : Nat}
    (h : n.shift c a start = some s) :
    n.shiftSize c a (start % 2 ^ 32) = some (s % 2 ^ 32) := by
  have hb : 8 ∣ 2 ^ 32 * (start / 2 ^ 32) := Nat.dvd_mul_right_of_dvd (by decide) _
  rw [← Nat.div_add_mod start (2 ^ 32), shift_base hb] at h
  obtain ⟨r, hr, rfl⟩ := Option.map_eq_some_iff.mp h
  rw [AscmNode.shiftSize, hr, Option.map_some, Nat.mul_add_mod]

theorem startAt_of_align (hal : c.layoutAlign = c.hasAlign) {nodes : List AscmNode}
    {i start s : Nat} (h : startAt (fun start n => n.shift c c.hasAlign start) nodes i start = some s) :
    startAt (fun start n => n.shiftSize c c.layoutAlign start) nodes i (start % 2 ^ 32) =
      some (s % 2 ^ 32) := by
  induction nodes generalizing i start with
  | nil =>
    cases i with
    | zero =>
      cases h
      rfl
    | succ i => cases h
  | cons n ns ih =>
    cases i with
    | zero =>
      cases h
      rfl
    | succ i =>
      obtain ⟨s₁, h₁, h₂⟩ := Option.bind_eq_some_iff.mp h
      rw [startAt, hal, shiftSize_of_shift h₁, Option.bind_some, ← hal, ih h₂]

/-- With one alignment in both passes, a jump is good when its distance is one of a `int16_t`. -/
theorem jumpFits_of_align (hal : c.layoutAlign = c.hasAlign) {f : FunctionObject} {j t : Nat}
    {n : AscmNode} (hj : f.nodes[j]? = some n) :
    f.JumpFits c j t ↔ ∃ d, f.distance c j t = some d ∧ -(2 ^ 15 : Int) ≤ d ∧ d < 2 ^ 15 := by
  constructor
  · rintro ⟨d, δ, hd, -, hlow, hhigh, -⟩
    exact ⟨d, hd, hlow, hhigh⟩
  · rintro ⟨d, hd, hlow, hhigh⟩
    obtain ⟨target, htarget, h⟩ := Option.bind_eq_some_iff.mp hd
    obtain ⟨next, hnext, rfl⟩ := Option.map_eq_some_iff.mp h
    have hsucc := hnext
    rw [FunctionObject.outputStart, startAt_succ _ _ hj] at hsucc
    obtain ⟨start, hstart, hsize⟩ := Option.bind_eq_some_iff.mp hsucc
    have hlocation := startAt_of_align hal htarget
    have hrloc := startAt_of_align hal hstart
    rw [Nat.zero_mod] at hlocation hrloc
    refine ⟨_, (target % 2 ^ 32 : Nat) - (next % 2 ^ 32 : Nat), hd, ?_, hlow, hhigh, by omega⟩
    simp only [FunctionObject.layoutDistance, FunctionObject.layoutStart, hlocation, hrloc, hj,
      shiftSize_of_shift hsize, Option.bind_some, Option.map_some]

theorem signExtend16_eq_iff (d δ : Int) : signExtend16 (δ % 2 ^ 16).toNat = d ↔
    -(2 ^ 15 : Int) ≤ d ∧ d < 2 ^ 15 ∧ (2 ^ 16 : Int) ∣ δ - d := by
  unfold signExtend16
  split
  · omega
  · omega

/-- **A jump leads to its target exactly when the distance is one of a `int16_t` and the layout has
it modulo 2 ^ 16.** -/
theorem jump_lands_iff (f : FunctionObject) (c : Ctx) (hvm : c.vm ∈ registeredVms)
    (data : List UInt8) (hbase : 8 ∣ data.length) (locs : List Loc) (out : List UInt8)
    (hemit : f.emit c data = some (locs, out)) (j t : Nat) (op : OPCode)
    (hj : f.nodes[j]? = some (.jump t op)) (ht : t < f.nodes.length) :
    f.JumpLands c locs data out j t ↔ f.JumpFits c j t := by
  obtain ⟨d, δ, hd, hδ, hlands⟩ :=
    lands_iff_extend (regular_of_registered hvm) hbase hemit hj ht
  rw [hlands, signExtend16_eq_iff]
  constructor
  · intro hfit
    exact ⟨d, δ, hd, hδ, hfit⟩
  · rintro ⟨d', δ', hd', hδ', hfit⟩
    rw [hd] at hd'
    rw [hδ] at hδ'
    cases hd'
    cases hδ'
    exact hfit

/-! ## A jump over returns -/

/-- `bo3` with a jump. -/
def bo3Jump : Ctx where
  vm := ⟨"bo3", [.opcodeU16, .align], false, false⟩
  opCodes op :=
    if op = .checkClearParams then [0xd] else if op = .end_ then [0x10]
    else if op = .jump then [0x3b] else []
  rand _ := 0
  lvars := 0
  hregisterVariable h := absurd rfl h
  hregisterMultiple h := absurd rfl h

def returns (k : Nat) : List AscmNode := List.replicate k (.opCode .end_) ++ [.label]

/-- A jump to the end of a function, over `k` returns. -/
def skipReturns (k : Nat) : FunctionObject :=
  ⟨emptyFunction.params, .jump (k + 2) .jump :: returns k⟩

theorem skipReturns_nodes (k : Nat) : (skipReturns k).nodes =
    .createLocalVariables emptyFunction.params :: .jump (k + 2) .jump :: returns k := rfl

theorem returns_succ (k : Nat) : returns (k + 1) = .opCode .end_ :: returns k := rfl

theorem length_returns (k : Nat) : (returns k).length = k + 1 := by simp [returns]

theorem shift_return {start : Nat} (h : 2 ∣ start) :
    (AscmNode.opCode .end_).shift bo3Jump true start = some (start + 2) := by
  rw [AscmNode.shift, shiftOpCode, if_pos rfl, aligned_of_dvd h]

theorem returns_locations (base k rloc : Nat) (h : 2 ∣ rloc) (hk : rloc + 2 * k < 2 ^ 31) :
    ∃ locs, relativeLocations bo3Jump base (returns k) rloc = some locs := by
  induction k generalizing rloc with
  | zero =>
    refine ⟨[⟨rloc, aligned (base + rloc) 2⟩], ?_⟩
    have hsize : AscmNode.label.shiftSize bo3Jump bo3Jump.layoutAlign rloc = some rloc :=
      congrArg some (Nat.mod_eq_of_lt (by omega))
    simp only [returns, List.replicate_zero, List.nil_append, relativeLocations, hsize,
      Option.bind_eq_bind, Option.bind_some]
    rw [if_neg (by omega)]
    rfl
  | succ k ih =>
    obtain ⟨locs, hlocs⟩ := ih (rloc + 2) (Nat.dvd_add h (Nat.dvd_refl 2)) (by omega)
    refine ⟨⟨rloc, aligned (base + rloc) 2⟩ :: locs, ?_⟩
    have hsize : (AscmNode.opCode .end_).shiftSize bo3Jump bo3Jump.layoutAlign rloc =
        some (rloc + 2) := by
      rw [AscmNode.shiftSize, show bo3Jump.layoutAlign = true from rfl, shift_return h,
        Option.map_some, Nat.mod_eq_of_lt (by omega)]
    simp only [returns_succ, relativeLocations, hsize, Option.bind_eq_bind, Option.bind_some]
    rw [if_neg (by omega), hlocs]
    rfl

theorem returns_written (k : Nat) (rlocs : Nat → Nat) (locs : List Loc) (data : List UInt8) :
    ∃ out, writeNodes bo3Jump rlocs (returns k) locs data = some out := by
  induction k generalizing locs data with
  | zero =>
    cases locs with
    | nil => exact ⟨data, rfl⟩
    | cons l ls => exact ⟨data, by cases ls <;> rfl⟩
  | succ k ih =>
    cases locs with
    | nil => exact ⟨data, rfl⟩
    | cons l ls =>
      obtain ⟨out, hout⟩ := ih ls (put 2 0x10 (bo3Jump.pad 2 data))
      exact ⟨out, hout⟩

theorem returns_start (k start : Nat) (h : 2 ∣ start) :
    startAt (fun start n => n.shift bo3Jump bo3Jump.hasAlign start) (returns k) k start =
      some (start + 2 * k) := by
  induction k generalizing start with
  | zero => rfl
  | succ k ih =>
    rw [returns_succ, startAt, show bo3Jump.hasAlign = true from rfl, shift_return h,
      Option.bind_some]
    refine (ih (start + 2) (Nat.dvd_add h (Nat.dvd_refl 2))).trans ?_
    rw [Nat.mul_succ]
    exact congrArg some (by omega)

/-- The nodes before the returns take 6 bytes. -/
theorem shift_skip (t : Nat) :
    (AscmNode.createLocalVariables emptyFunction.params).shift bo3Jump true 0 = some 2 ∧
      (AscmNode.jump t .jump).shift bo3Jump true 2 = some 6 := by
  constructor
  · decide +kernel
  · show some (shiftData true 2 2 (shiftOpCode true 2)) = some 6
    decide +kernel

theorem skipReturns_start (k i : Nat) : (skipReturns k).outputStart bo3Jump (i + 2) =
    startAt (fun start n => n.shift bo3Jump bo3Jump.hasAlign start) (returns k) i 6 := by
  rw [FunctionObject.outputStart, skipReturns_nodes, startAt,
    show bo3Jump.hasAlign = true from rfl, (shift_skip 0).1, Option.bind_some, startAt,
    (shift_skip (k + 2)).2, Option.bind_some]

theorem skipReturns_distance (k : Nat) :
    (skipReturns k).distance bo3Jump 1 (k + 2) = some ((2 * k : Nat) : Int) := by
  have htarget := (skipReturns_start k k).trans (returns_start k 6 (by decide))
  have hnext := (skipReturns_start k 0).trans (startAt_zero _ _ _)
  simp only [FunctionObject.distance, htarget, hnext, Option.bind_some, Option.map_some]
  exact congrArg some (by omega)

theorem skipReturns_emit {k : Nat} (hk : 2 * k < 2 ^ 16) (data : List UInt8) :
    ∃ locs out, (skipReturns k).emit bo3Jump data = some (locs, out) := by
  obtain ⟨ls, hls⟩ := returns_locations data.length k 6 (by decide) (by omega)
  have hlocs : computeRelativeLocations bo3Jump data.length (skipReturns k).nodes =
      some (⟨0, aligned data.length 2⟩ :: ⟨2, aligned (data.length + 2) 2⟩ :: ls) := by
    simp only [computeRelativeLocations, skipReturns_nodes, relativeLocations, AscmNode.shiftSize,
      show bo3Jump.layoutAlign = true from rfl, show (2 : Nat) % 2 ^ 32 = 2 from rfl,
      show (6 : Nat) % 2 ^ 32 = 6 from rfl, (shift_skip 0).1, (shift_skip (k + 2)).2,
      Option.map_some, Option.bind_eq_bind, Option.bind_some, if_true]
    rw [if_neg (by decide), if_neg (by decide), hls]
    rfl
  generalize hall : _ :: _ :: ls = locs at hlocs
  have htarget : rlocOf locs (k + 2) = 6 + 2 * k := by
    have hls' := startAt_relativeLocations hls (i := k) (by rw [length_returns]; omega)
    have hstart := startAt_of_align (c := bo3Jump) rfl (returns_start k 6 (by decide))
    rw [Nat.mod_eq_of_lt (by omega), hls', Nat.mod_eq_of_lt (by omega)] at hstart
    rw [← hall]
    exact Option.some.inj hstart
  have hdelta : jumpDelta (rlocOf locs (k + 2)) 6 = some (2 * k) := by
    rw [htarget, jumpDelta, if_neg (by omega)]
    exact congrArg some (by omega)
  obtain ⟨data₁, h₁⟩ : ∃ data₁, (AscmNode.createLocalVariables emptyFunction.params).write bo3Jump
      (rlocOf locs) 0 data = some data₁ := ⟨_, rfl⟩
  obtain ⟨data₂, h₂⟩ : ∃ data₂, (AscmNode.jump (k + 2) .jump).write bo3Jump (rlocOf locs) 2 data₁ =
      some data₂ := by
    refine ⟨writeData bo3Jump 2 (2 * k) (put 2 0x3b (bo3Jump.pad 2 data₁)), ?_⟩
    have hnext : (AscmNode.jump (k + 2) .jump).shiftSize bo3Jump bo3Jump.hasAlign 2 = some 6 := by
      rw [AscmNode.shiftSize, show bo3Jump.hasAlign = true from rfl, (shift_skip (k + 2)).2]
      rfl
    simp only [AscmNode.write, hnext, Option.bind_eq_bind, Option.bind_some, hdelta]
    rfl
  obtain ⟨out, hout⟩ := returns_written k (rlocOf locs) ls data₂
  refine ⟨locs, out, ?_⟩
  have hw : writeNodes bo3Jump (rlocOf locs) (skipReturns k).nodes locs data = some out := by
    rw [← hall] at h₁ h₂ hout ⊢
    simp only [skipReturns_nodes, writeNodes, h₁, h₂, hout, Option.bind_eq_bind, Option.bind_some]
  rw [FunctionObject.emit, hlocs, Option.bind_eq_bind, Option.bind_some, hw]
  rfl

/-- Over 16384 returns the operand is 0x8000, and the machine goes back. -/
theorem far_jump_misses :
    bo3Jump.vm ∈ registeredVms ∧
      ∃ locs out, (skipReturns 16384).emit bo3Jump (List.replicate 24 0) = some (locs, out) ∧
        ¬ (skipReturns 16384).JumpLands bo3Jump locs (List.replicate 24 0) out 1 16386 := by
  have hvm : bo3Jump.vm ∈ registeredVms := by decide +kernel
  obtain ⟨locs, out, hemit⟩ := skipReturns_emit (k := 16384) (by decide) (List.replicate 24 0)
  refine ⟨hvm, locs, out, hemit, ?_⟩
  have ht : 16386 < (skipReturns 16384).nodes.length := by
    rw [skipReturns_nodes, List.length_cons, List.length_cons, length_returns]
    decide
  have hj : (skipReturns 16384).nodes[1]? = some (.jump 16386 .jump) := rfl
  obtain ⟨d, δ, hd, -, hlands⟩ := lands_iff_extend
    (regular_of_registered hvm) (by rw [List.length_replicate]; decide) hemit hj ht
  rw [skipReturns_distance 16384] at hd
  cases hd
  rw [hlands, signExtend16_eq_iff]
  omega

theorem near_jump_lands :
    let data : List UInt8 := List.replicate 24 0
    (skipReturns 1).JumpLands bo3Jump [⟨0, 24⟩, ⟨2, 26⟩, ⟨6, 30⟩, ⟨8, 32⟩] data
      (data ++ [0xd, 0, 0x3b, 0, 2, 0, 0x10, 0]) 1 3 := by
  intro data
  refine (jump_lands_iff (skipReturns 1) bo3Jump (by decide +kernel) data (by decide +kernel) _ _
    (by decide +kernel) 1 3 .jump rfl (by decide)).mpr ⟨2, 2, ?_⟩
  decide +kernel

end Acts.Gsc
