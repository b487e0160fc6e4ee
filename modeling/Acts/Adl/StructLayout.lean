import Acts.Adl.Struct

/-!
# Layouts of structures

* `LaidOut` — fields one behind the other, aligned, each of the size of its type.
* `Fits` — the members fit in 64 bits at the next multiples, and the mask finds these.
* `Ran` — the runs without an error; `Ran.laid`, `Ran.fits` — when they lay out a structure.
* `struct_laidOut_iff` — **which definitions are laid out.**
-/

set_option autoImplicit false

namespace Acts.Adl

/-! ## Layouts -/

/-- Elements of a data member. -/
def elementCount (array : Option (BitVec 64)) : Nat :=
  match array with
  | none => 1
  | some v => v.toNat

/-- An element of a data member has `k` bytes: a pointer, or what its type has of its own. -/
def HasElement (data : ADLData) (typeName : String) (pointer : Bool) (k : Nat) : Prop :=
  if pointer then k = 8
  else ∃ id, data.names.lookup (Gsc.Parser.hash64 typeName) = some id ∧ Own data id k

/-- The smaller of both alignments; structures may have none. -/
def alignment (align k : Nat) : Nat := if align ≤ 1 then 1 else min align k

/-- The field of a member. -/
def Describes (data : ADLData) (align : Nat) : StructMember → ADLStructField → Prop
  | .data typeName pointer fieldName array, f =>
    f.name = Gsc.Parser.hash64 fieldName ∧ data.idOfName typeName = some f.type ∧
      f.pointer = pointer ∧ f.arraySize = elementCount array ∧
      ∃ k, HasElement data typeName pointer k ∧ f.elemSize = f.arraySize * k ∧
        alignment align k ∣ f.offset
  | .operator .padding number, f => f.offset = number.toNat ∧ f.elemSize = 0
  | .operator .assertOffset _, _ => False
  | .operator (.other _) _, _ => False

def StructMember.hasField : StructMember → Bool
  | .data _ _ _ _ => true
  | .operator .padding _ => true
  | .operator .assertOffset _ => false
  | .operator (.other _) _ => false

/-- One field ends before another begins. -/
abbrev Before (f g : ADLStructField) : Prop := f.offset + f.elemSize ≤ g.offset

/-- A structure has its members one behind the other. -/
structure LaidOut (data : ADLData) (members : List StructMember) (str : ADLStruct) : Prop where
  fields : List.Forall₂ (Describes data str.align) (members.filter StructMember.hasField)
    str.fields
  ordered : str.fields.Pairwise Before
  inside : ∀ f ∈ str.fields, f.offset + f.elemSize ≤ str.size

/-! ## What fits -/

/-- The size of an element of a data member. -/
def elementSize (data : ADLData) (typeName : String) (pointer : Bool) : Nat :=
  if pointer then 8 else ((data.idOfName typeName).map data.sizeOf).getD 0

/-- The first place from `n` on for elements of `k` bytes. -/
def place (align n k : Nat) : Nat := if align ≤ 1 ∨ k = 0 then n else roundUp n (min align k)

/-- The mask finds that place: elements of no bytes are at the begin, and of others the mask is one
of a power of two, or takes as much off as such. -/
def Exact (align n k : Nat) : Prop :=
  align ≤ 1 ∨
    if k = 0 then n = 0 else n + (min align k - 1) < 2 ^ 64 ∧ MaskMod n (min align k)

instance (align n k : Nat) : Decidable (Exact align n k) := inferInstanceAs (Decidable (_ ∨ _))

/-- Powers of two are always found. -/
theorem exact_two_pow {align n k j : Nat} (h : min align k = 2 ^ j)
    (hlt : n + (2 ^ j - 1) < 2 ^ 64) : Exact align n k := by
  have hpos := Nat.two_pow_pos j
  refine .inr ?_
  rw [if_neg (by omega), h]
  exact ⟨hlt, maskMod_two_pow n j⟩

/-- The members fit in 64 bits behind `n`, where the mask finds their places. -/
def Fits (data : ADLData) (align : Nat) : Nat → List StructMember → Prop
  | _, [] => True
  | n, .data typeName pointer _ array :: ms =>
    let k := elementSize data typeName pointer
    let next := place align n k + k * elementCount array
    Exact align n k ∧ next < 2 ^ 64 ∧ Fits data align next ms
  | _, .operator .padding number :: ms => Fits data align number.toNat ms
  | n, .operator .assertOffset _ :: ms => Fits data align n ms
  | n, .operator (.other _) _ :: ms => Fits data align n ms

/-! ## One field -/

/-- `nfield.offset` -/
def offsetOf (align : Nat) (size frsize : UInt64) : UInt64 :=
  if align > 1 then maskUp size (alignLen align frsize) else size

section Field

variable {align : Nat} {size frsize : UInt64}

theorem toNat_alignLen (align : Nat) (frsize : UInt64) :
    (alignLen align frsize).toNat = min align frsize.toNat := by
  have hlt := frsize.toNat_lt
  unfold alignLen
  split
  · rename_i hsmall
    rw [UInt64.toNat_ofNat_of_lt' (Nat.lt_trans hsmall hlt)]
    omega
  · omega

/-- **Where a field is aligned and not before `size`**: there it has the first place. -/
theorem offsetOf_iff (align : Nat) (size frsize : UInt64) :
    (size.toNat ≤ (offsetOf align size frsize).toNat ∧
      alignment align frsize.toNat ∣ (offsetOf align size frsize).toNat) ↔
      Exact align size.toNat frsize.toNat := by
  unfold offsetOf alignment Exact
  by_cases halign : align ≤ 1
  · rw [if_neg (by omega), if_pos halign]
    exact ⟨fun _ => .inl halign, fun _ => ⟨Nat.le_refl _, Nat.one_dvd _⟩⟩
  · rw [if_pos (by omega), if_neg halign, or_iff_right halign]
    have hlen := toNat_alignLen align frsize
    split
    · rename_i hzero
      rw [hzero] at hlen ⊢
      have hmask : alignLen align frsize = 0 := UInt64.toNat_inj.1 (by
        rw [hlen, Nat.min_zero]
        rfl)
      rw [hmask, maskUp_zero, Nat.min_zero]
      exact ⟨fun h => Nat.le_zero.1 h.1, fun h => ⟨Nat.le_of_eq h, Nat.dvd_refl _⟩⟩
    · rename_i hne
      have hmask : alignLen align frsize ≠ 0 := fun h => by
        rw [h, show (0 : UInt64).toNat = 0 from rfl] at hlen
        omega
      rw [← hlen]
      exact maskUp_spec hmask

theorem offsetOf_eq (h : Exact align size.toNat frsize.toNat) :
    (offsetOf align size frsize).toNat = place align size.toNat frsize.toNat := by
  unfold offsetOf place
  unfold Exact at h
  by_cases halign : align ≤ 1
  · rw [if_neg (by omega), if_pos (.inl halign)]
  · rw [if_pos (by omega)]
    rw [or_iff_right halign] at h
    have hlen := toNat_alignLen align frsize
    split at h
    · rename_i hzero
      rw [if_pos (.inr hzero), h]
      rw [hzero] at hlen
      have hmask : alignLen align frsize = 0 := UInt64.toNat_inj.1 (by
        rw [hlen, Nat.min_zero]
        rfl)
      rw [hmask, maskUp_zero]
      rfl
    · rename_i hne
      rw [if_neg (not_or.2 ⟨halign, hne⟩)]
      have hmask : alignLen align frsize ≠ 0 := fun hz => by
        rw [hz, show (0 : UInt64).toNat = 0 from rfl] at hlen
        omega
      rw [← hlen] at h ⊢
      exact maskUp_eq hmask h.1 h.2

theorem le_place (h : Exact align size.toNat frsize.toNat) :
    size.toNat ≤ place align size.toNat frsize.toNat := by
  rw [← offsetOf_eq h]
  exact ((offsetOf_iff align size frsize).2 h).1

end Field

/-! ## Runs without an error -/

/-- `frsize` -/
def frsizeOf (output : ADLData) (type : ADLDataTypeId) (pointer : Bool) : UInt64 :=
  if pointer then 8 else .ofNat (output.sizeOf type)

/-- The loop over the members, where no error is found. -/
inductive Ran (output : ADLData) (id : ADLDataTypeId) (align : Nat) :
    List StructMember → StructState → StructState → Prop where
  | nil (s : StructState) : Ran output id align [] s s
  | data {typeName fieldName : String} {pointer : Bool} {array : Option (BitVec 64)}
    {ms : List StructMember} {s s₁ s' : StructState} {type : ADLDataTypeId} {offset fsize : UInt64}
    (htype : output.idOfName typeName = some type)
    (hoffset : offset = offsetOf align s.size (frsizeOf output type pointer))
    (hfsize : fsize = frsizeOf output type pointer * .ofNat (elementCount array))
    (hsize : s₁.size = offset + fsize)
    (hfields : s₁.fields = s.fields ++ [⟨Gsc.Parser.hash64 fieldName, offset.toNat, type,
      pointer, elementCount array, fsize.toNat⟩])
    (hrest : Ran output id align ms s₁ s') :
    Ran output id align (.data typeName pointer fieldName array :: ms) s s'
  | padding {number : BitVec 64} {ms : List StructMember} {s s₁ s' : StructState}
    (hle : s.size.toNat ≤ number.toNat) (hsize : s₁.size = .ofBitVec number)
    (hfields : s₁.fields = s.fields ++ [⟨Gsc.Parser.hash64 "$$padding", number.toNat,
      .default .padding, false, 1, 0⟩])
    (hrest : Ran output id align ms s₁ s') :
    Ran output id align (.operator .padding number :: ms) s s'
  | assertOffset {number : BitVec 64} {ms : List StructMember} {s s' : StructState}
    (hrest : Ran output id align ms s s') :
    Ran output id align (.operator .assertOffset number :: ms) s s'

section Runs

variable {output : ADLData} {id type : ADLDataTypeId} {align : Nat} {ms : List StructMember}
  {s s' : StructState} {typeName fieldName : String} {pointer : Bool}
  {array : Option (BitVec 64)}

/-- A data member without an error. -/
theorem addData_clean
    (h : (addData output id align s typeName pointer fieldName array).errors = []) :
    s.errors = [] ∧ ∃ type, output.idOfName typeName = some type ∧
      (addData output id align s typeName pointer fieldName array).size =
        offsetOf align s.size (frsizeOf output type pointer) +
          frsizeOf output type pointer * .ofNat (elementCount array) ∧
      (addData output id align s typeName pointer fieldName array).fields =
        s.fields ++ [⟨Gsc.Parser.hash64 fieldName,
          (offsetOf align s.size (frsizeOf output type pointer)).toNat, type, pointer,
          elementCount array, (frsizeOf output type pointer *
            .ofNat (elementCount array)).toNat⟩] := by
  unfold addData at h ⊢
  split at h
  · cases List.append_eq_nil_iff.1 h with
    | intro _ hlast => cases hlast
  · rename_i type htype
    split at h
    · cases List.append_eq_nil_iff.1 h with
      | intro _ hlast => cases hlast
    · rename_i hother
      rw [htype]
      dsimp only at h ⊢
      rw [if_neg hother]
      obtain ⟨hfirst, hnegative⟩ := List.append_eq_nil_iff.1 h
      obtain ⟨hclean, -⟩ := List.append_eq_nil_iff.1 hfirst
      refine ⟨hclean, type, rfl, ?_⟩
      cases array with
      | none => exact ⟨rfl, rfl⟩
      | some v =>
        have hpos : ¬ v.toInt < 0 := fun hneg => by
          dsimp only at hnegative
          rw [if_pos hneg] at hnegative
          cases hnegative
        dsimp only
        rw [if_neg hpos]
        exact ⟨rfl, rfl⟩

/-- **What the loop does where no error is found.** -/
theorem ran_of_clean (h : (addStructMembers output id align ms s).errors = []) :
    s.errors = [] ∧ Ran output id align ms s (addStructMembers output id align ms s) := by
  induction ms generalizing s with
  | nil => exact ⟨h, .nil s⟩
  | cons m ms ih =>
    unfold addStructMembers at h ⊢
    cases m with
    | data typeName pointer fieldName array =>
      obtain ⟨hclean, hran⟩ := ih h
      obtain ⟨hs, type, htype, hsize, hfields⟩ := addData_clean hclean
      exact ⟨hs, .data htype rfl rfl hsize hfields hran⟩
    | operator oper number =>
      unfold addStructMember addOperator at h ⊢
      cases oper with
      | padding =>
        dsimp only at h ⊢
        split at h
        · rename_i s₁ hdone
          split at hdone
          · cases hdone
            cases List.append_eq_nil_iff.1 h with
            | intro _ hlast => cases hlast
          · split at hdone
            · cases hdone
              cases List.append_eq_nil_iff.1 h with
              | intro _ hlast => cases hlast
            · cases hdone
        · rename_i s₁ hyield
          split at hyield
          · cases hyield
          · split at hyield
            · cases hyield
            · rename_i hle
              cases hyield
              obtain ⟨hclean, hran⟩ := ih h
              exact ⟨hclean, .padding (Nat.le_of_not_lt hle) rfl rfl hran⟩
      | assertOffset =>
        dsimp only at h ⊢
        split at h
        · rename_i s₁ hdone
          split at hdone
          · cases hdone
            cases List.append_eq_nil_iff.1 h with
            | intro _ hlast => cases hlast
          · cases hdone
        · rename_i s₁ hyield
          split at hyield
          · cases hyield
          · cases hyield
            obtain ⟨hclean, hran⟩ := ih h
            exact ⟨hclean, .assertOffset hran⟩
      | other oper =>
        obtain ⟨hclean, -⟩ := ih h
        cases List.append_eq_nil_iff.1 hclean with
        | intro _ hlast => cases hlast

theorem Ran.fields_eq (h : Ran output id align ms s s') :
    ∃ new, s'.fields = s.fields ++ new := by
  induction h with
  | nil s => exact ⟨[], (List.append_nil _).symm⟩
  | data htype hoffset hfsize hsize hfields hrest ih =>
    obtain ⟨new, hnew⟩ := ih
    rw [hfields, List.append_assoc] at hnew
    exact ⟨_, hnew⟩
  | padding hle hsize hfields hrest ih =>
    obtain ⟨new, hnew⟩ := ih
    rw [hfields, List.append_assoc] at hnew
    exact ⟨_, hnew⟩
  | assertOffset hrest ih => exact ih

/-! ## What is laid out -/

/-- The code and the type agree on the size of an element. -/
theorem toNat_frsizeOf (pointer : Bool) (hv : Valid output)
    (htype : output.idOfName typeName = some type) :
    (frsizeOf output type pointer).toNat = elementSize output typeName pointer ∧
      HasElement output typeName pointer (elementSize output typeName pointer) ∧
      ∀ k, HasElement output typeName pointer k → k = elementSize output typeName pointer := by
  unfold frsizeOf elementSize HasElement
  cases pointer with
  | true => exact ⟨rfl, rfl, fun k hk => hk⟩
  | false =>
    obtain ⟨tid, k, hid, hown, hsize⟩ := own_of_idOfName hv htype
    have helement : ((output.idOfName typeName).map output.sizeOf).getD 0 = k := by
      rw [htype, ← hsize]
      rfl
    rw [if_neg Bool.false_ne_true, if_neg Bool.false_ne_true, if_neg Bool.false_ne_true, helement,
      hsize]
    refine ⟨UInt64.toNat_ofNat_of_lt' (own_lt hv hown), ⟨tid, hid, hown⟩, fun k' hk' => ?_⟩
    obtain ⟨tid', hid', hown'⟩ := hk'
    rw [hid] at hid'
    cases hid'
    exact (sizeOf_own hv hown').symm.trans (sizeOf_own hv hown)

/-- The bytes of a field, where they do not wrap. -/
theorem toNat_fsize {frsize : UInt64} {n : Nat} (h : frsize.toNat * n < 2 ^ 64)
    (hn : n < 2 ^ 64) : (frsize * .ofNat n).toNat = frsize.toNat * n := by
  rw [UInt64.toNat_mul, UInt64.toNat_ofNat_of_lt' hn, Nat.mod_eq_of_lt h]

theorem elementCount_lt (array : Option (BitVec 64)) : elementCount array < 2 ^ 64 := by
  cases array with
  | none => decide
  | some v => exact v.isLt

/-- **Members that fit are laid out.** -/
theorem Ran.laid (hv : Valid output) (h : Ran output id align ms s s')
    (hfits : Fits output align s.size.toNat ms) :
    ∃ new, s'.fields = s.fields ++ new ∧
      List.Forall₂ (Describes output align) (ms.filter StructMember.hasField) new ∧
      new.Pairwise Before ∧
      (∀ f ∈ new, s.size.toNat ≤ f.offset ∧ f.offset + f.elemSize ≤ s'.size.toNat) ∧
      s.size.toNat ≤ s'.size.toNat := by
  induction h with
  | nil s =>
    refine ⟨[], (List.append_nil _).symm, .nil, .nil, fun f hf => ?_, Nat.le_refl _⟩
    cases hf
  | @data typeName fieldName pointer array ms s s₁ s' type offset fsize htype hoffset hfsize hsize
      hfields hrest ih =>
    obtain ⟨hexact, hlt, hfits⟩ := hfits
    obtain ⟨hk, hhas, -⟩ := toNat_frsizeOf pointer hv htype
    rw [← hk] at hexact hlt hfits
    have hplace : offset.toNat = place align s.size.toNat (frsizeOf output type pointer).toNat := by
      rw [hoffset, offsetOf_eq hexact]
    have hbytes : fsize.toNat =
        (frsizeOf output type pointer).toNat * elementCount array := by
      rw [hfsize, toNat_fsize (by omega) (elementCount_lt array)]
    have hnext : s₁.size.toNat = offset.toNat + fsize.toNat := by
      rw [hsize, UInt64.toNat_add, Nat.mod_eq_of_lt (by omega)]
    rw [← hplace, ← hbytes, ← hnext] at hfits
    obtain ⟨new, hnew, hall, hpair, hbounds, hle⟩ := ih hfits
    have hafter := le_place hexact
    rw [← hplace] at hafter
    have hdescribes : Describes output align (.data typeName pointer fieldName array)
        ⟨Gsc.Parser.hash64 fieldName, offset.toNat, type, pointer, elementCount array,
          fsize.toNat⟩ := by
      refine ⟨rfl, htype, rfl, rfl, _, hhas, ?_, ?_⟩
      · rw [hbytes, ← hk, Nat.mul_comm]
      · rw [← hk, hoffset]
        exact ((offsetOf_iff align s.size _).2 hexact).2
    refine ⟨_ :: new, ?_, .cons hdescribes hall, .cons (fun g hg => ?_) hpair, fun f hf => ?_,
      by omega⟩
    · rw [hnew, hfields, List.append_assoc]
      rfl
    · have hg' := (hbounds g hg).1
      show offset.toNat + fsize.toNat ≤ g.offset
      omega
    · rcases List.mem_cons.1 hf with rfl | hf
      · exact ⟨hafter, by rw [← hnext]; exact hle⟩
      · have hf' := hbounds f hf
        exact ⟨by omega, hf'.2⟩
  | @padding number ms s s₁ s' hbefore hsize hfields hrest ih =>
    have hnumber : s₁.size.toNat = number.toNat := by
      rw [hsize]
      rfl
    obtain ⟨new, hnew, hall, hpair, hbounds, hle⟩ := ih (by rw [hnumber]; exact hfits)
    rw [hnumber] at hbounds hle
    have hdescribes : Describes output align (.operator .padding number)
        ⟨Gsc.Parser.hash64 "$$padding", number.toNat, .default .padding, false, 1, 0⟩ := ⟨rfl, rfl⟩
    refine ⟨_ :: new, ?_, .cons hdescribes hall, .cons (fun g hg => ?_) hpair, fun f hf => ?_,
      by omega⟩
    · rw [hnew, hfields, List.append_assoc]
      rfl
    · exact (hbounds g hg).1
    · rcases List.mem_cons.1 hf with rfl | hf
      · exact ⟨hbefore, hle⟩
      · have hf' := hbounds f hf
        exact ⟨by omega, hf'.2⟩
  | assertOffset hrest ih => exact ih hfits

/-- **Members that are laid out fit.** -/
theorem Ran.fits (hv : Valid output) (h : Ran output id align ms s s')
    (hlast : s.size.toNat = 0 ∨ ∃ f ∈ s.fields, f.offset + f.elemSize = s.size.toNat)
    {new : List ADLStructField} (hnew : s'.fields = s.fields ++ new)
    (hall : List.Forall₂ (Describes output align) (ms.filter StructMember.hasField) new)
    (hpair : s'.fields.Pairwise Before)
    (hlt : ∀ f ∈ s'.fields, f.offset + f.elemSize < 2 ^ 64) :
    Fits output align s.size.toNat ms := by
  induction h generalizing new with
  | nil s => trivial
  | @data typeName fieldName pointer array ms s s₁ s' type offset fsize htype hoffset hfsize hsize
      hfields hrest ih =>
    obtain ⟨new', hnew'⟩ := hrest.fields_eq
    have heq := hnew.symm.trans hnew'
    rw [hfields, List.append_assoc] at heq
    rw [List.append_cancel_left heq] at hall hnew
    obtain ⟨f, hf⟩ : ∃ f : ADLStructField, f = ⟨Gsc.Parser.hash64 fieldName, offset.toNat, type,
      pointer, elementCount array, fsize.toNat⟩ := ⟨_, rfl⟩
    have hoff : f.offset = offset.toNat := by rw [hf]
    have hsz : f.elemSize = fsize.toNat := by rw [hf]
    have hcount : f.arraySize = elementCount array := by rw [hf]
    rw [← hf] at hfields hall hnew
    obtain ⟨k, hk, hbytes, hdvd⟩ : ∃ k, HasElement output typeName pointer k ∧
        f.elemSize = f.arraySize * k ∧ alignment align k ∣ f.offset := by
      cases hall with
      | cons hfirst hall => exact hfirst.2.2.2.2
    have hrestall : List.Forall₂ (Describes output align) (ms.filter StructMember.hasField)
        new' := by
      cases hall with
      | cons hfirst hall => exact hall
    obtain ⟨hfrsize, -, hunique⟩ := toNat_frsizeOf pointer hv htype
    rw [hunique k hk, ← hfrsize] at hbytes hdvd
    rw [hoff] at hdvd
    rw [hsz, hcount] at hbytes
    have hmem : f ∈ s'.fields := by
      rw [hnew]
      exact List.mem_append_right _ List.mem_cons_self
    have hend := hlt f hmem
    rw [hoff, hsz] at hend
    have hafter : s.size.toNat ≤ offset.toNat := by
      rcases hlast with hzero | ⟨g, hg, hgend⟩
      · omega
      · rw [hnew] at hpair
        have hbefore := (List.pairwise_append.1 hpair).2.2 g hg f List.mem_cons_self
        unfold Before at hbefore
        rwa [hgend, hoff] at hbefore
    have hexact : Exact align s.size.toNat (frsizeOf output type pointer).toNat := by
      rw [hoffset] at hafter hdvd
      exact (offsetOf_iff align s.size _).1 ⟨hafter, hdvd⟩
    have hplace : offset.toNat = place align s.size.toNat (frsizeOf output type pointer).toNat := by
      rw [hoffset, offsetOf_eq hexact]
    have hnext : s₁.size.toNat = offset.toNat + fsize.toNat := by
      rw [hsize, UInt64.toNat_add, Nat.mod_eq_of_lt hend]
    have hown : f ∈ s₁.fields := by
      rw [hfields]
      exact List.mem_append_right _ (List.mem_singleton_self f)
    have hfits := ih (.inr ⟨f, hown, by rw [hoff, hsz, hnext]⟩) hnew' hrestall hpair hlt
    unfold Fits
    dsimp only
    rw [← hfrsize, ← hplace, Nat.mul_comm, ← hbytes, ← hnext]
    exact ⟨hexact, UInt64.toNat_lt _, hfits⟩
  | @padding number ms s s₁ s' hbefore hsize hfields hrest ih =>
    have hnumber : s₁.size.toNat = number.toNat := by
      rw [hsize]
      rfl
    obtain ⟨new', hnew'⟩ := hrest.fields_eq
    have heq := hnew.symm.trans hnew'
    rw [hfields, List.append_assoc] at heq
    rw [List.append_cancel_left heq] at hall
    have hrestall : List.Forall₂ (Describes output align) (ms.filter StructMember.hasField)
        new' := by
      cases hall with
      | cons hfirst hall => exact hall
    have hown : ⟨Gsc.Parser.hash64 "$$padding", number.toNat, .default .padding, false, 1, 0⟩ ∈
        s₁.fields := by
      rw [hfields]
      exact List.mem_append_right _ (List.mem_singleton_self _)
    have hfits := ih (.inr ⟨_, hown, hnumber.symm⟩) hnew' hrestall hpair hlt
    rw [hnumber] at hfits
    exact hfits
  | assertOffset hrest ih => exact ih hlast hnew hall hpair hlt

end Runs

/-! ## Structures -/

section Structs

variable {output : ADLData} {d : StructDef} {str : ADLStruct}

theorem createStruct_inj {str str' : ADLStruct}
    (h : createStruct output str = createStruct output str') : str = str' := by
  have hcons : (_, str) :: output.structs = (_, str') :: output.structs :=
    congrArg ADLData.structs h
  rw [List.cons.injEq, Prod.mk.injEq] at hcons
  exact hcons.1.2

/-- An accepted definition. -/
theorem ran_of_accepted (h : compileStruct output d = ([], createStruct output str)) :
    ∃ s, Ran (opened output str) str.id str.align d.members ⟨0, [], []⟩ s ∧
      str.fields = s.fields ∧ s.size.toNat ≤ str.size ∧ str.size < 2 ^ 64 := by
  unfold compileStruct at h
  split at h
  · cases (Prod.mk.inj h).1
  · cases (Prod.mk.inj h).1
  · rename_i align forcedSize halign hforced
    split at h
    · cases (Prod.mk.inj h).1
    · dsimp only at h
      split at h
      · obtain ⟨hclean, hstr⟩ := Prod.mk.inj h
        cases createStruct_inj hstr
        exact ⟨_, (ran_of_clean hclean).2, rfl, Nat.le_refl _, UInt64.toNat_lt _⟩
      · split at h
        · cases List.append_eq_nil_iff.1 (Prod.mk.inj h).1 with
          | intro _ hlast => cases hlast
        · rename_i hle
          obtain ⟨hclean, hstr⟩ := Prod.mk.inj h
          cases createStruct_inj hstr
          exact ⟨_, (ran_of_clean hclean).2, rfl, Nat.le_of_not_lt hle, sizeVal_lt hforced⟩

/-- Every accepted definition enters a structure. -/
theorem exists_struct (h : (compileStruct output d).1 = []) :
    ∃ str, compileStruct output d = ([], createStruct output str) := by
  suffices hstr : ∃ str, (compileStruct output d).2 = createStruct output str from by
    obtain ⟨str, hstr⟩ := hstr
    exact ⟨str, Prod.ext h hstr⟩
  unfold compileStruct at h ⊢
  split at h
  · cases h
  · cases h
  · split at h
    · cases h
    · rename_i hnew
      rw [if_neg hnew]
      dsimp only
      split
      · exact ⟨_, rfl⟩
      · split
        · exact ⟨_, rfl⟩
        · exact ⟨_, rfl⟩

end Structs

/-- **Which definitions are laid out**: those whose members fit in 64 bits, with elements of no
bytes at the begin only, and others at places that the mask finds. -/
theorem struct_laidOut_iff (defs : List AdlDef) (d : StructDef) (str : ADLStruct)
    (h : compileStruct (compileAdl defs).2 d = ([], createStruct (compileAdl defs).2 str)) :
    LaidOut (opened (compileAdl defs).2 str) d.members str ↔
      Fits (opened (compileAdl defs).2 str) str.align 0 d.members := by
  have hv : Valid (opened (compileAdl defs).2 str) :=
    valid_createStruct (valid_compileAdl defs) (Nat.two_pow_pos 64)
  obtain ⟨s, hran, hfields, hle, hlt⟩ := ran_of_accepted h
  constructor
  · rintro ⟨hall, hpair, hinside⟩
    rw [hfields] at hall hpair hinside
    exact hran.fits hv (.inl rfl) rfl hall hpair fun f hf =>
      Nat.lt_of_le_of_lt (hinside f hf) hlt
  · intro hfits
    obtain ⟨new, hnew, hall, hpair, hbounds, -⟩ := hran.laid hv hfits
    rw [hnew, List.nil_append] at hfields
    refine ⟨by rw [hfields]; exact hall, by rw [hfields]; exact hpair, fun f hf => ?_⟩
    rw [hfields] at hf
    exact Nat.le_trans (hbounds f hf).2 hle

/-- Data with a type of 8 bytes. -/
def referring : List AdlDef := [.align 8, .customType 8 "xassetref"]

def headerDef : StructDef :=
  ⟨none, none, "xasset_header",
    [.data "byte" false "type" none, .data "xassetref" false "ref" none]⟩

def headerStruct : ADLStruct where
  id := .struct 1
  name := Gsc.Parser.hash64 "xasset_header"
  align := 8
  size := 16
  forcedSize := 0
  fields :=
    [⟨Gsc.Parser.hash64 "type", 0, .default .uint8, false, 1, 1⟩,
      ⟨Gsc.Parser.hash64 "ref", 8, .customDef 1, false, 1, 8⟩]

theorem header_laidOut :
    LaidOut (opened (compileAdl referring).2 headerStruct) headerDef.members headerStruct := by
  refine (struct_laidOut_iff referring headerDef headerStruct (by decide +kernel)).2 ?_
  exact ⟨by decide +kernel, by decide +kernel, by decide +kernel, by decide +kernel, trivial⟩

/-- Data with a structure of no bytes. -/
def hollow : List AdlDef := [.align 8, .struct ⟨none, none, "empty", []⟩]

def hollowDef : StructDef :=
  ⟨none, none, "s", [.data "int" false "a" none, .data "int" false "b" none,
    .data "empty" false "c" none, .data "int" false "d" none]⟩

theorem hollow_accepted :
    (compileStruct (compileAdl hollow).2 hollowDef).1 = [] ∧
      (compileStruct (compileAdl hollow).2 hollowDef).2.structs.head?.map (fun p =>
        (p.2.size, p.2.fields.map fun f => (f.offset, f.elemSize))) =
        some (4, [(0, 4), (4, 4), (0, 0), (0, 4)]) := by
  decide +kernel

/-- A field of no bytes starts the structure again: the last field lies on the first. -/
theorem hollow_overlaps :
    ¬ ∀ (defs : List AdlDef) (d : StructDef) (str : ADLStruct),
      compileStruct (compileAdl defs).2 d = ([], createStruct (compileAdl defs).2 str) →
        LaidOut (opened (compileAdl defs).2 str) d.members str := by
  intro hall
  obtain ⟨hclean, hhead⟩ := hollow_accepted
  obtain ⟨str, hstr⟩ := exists_struct hclean
  have hpair := (hall hollow hollowDef str hstr).ordered
  rw [hstr] at hhead
  have hfields : str.fields.map (fun f => (f.offset, f.elemSize)) =
      [(0, 4), (4, 4), (0, 0), (0, 4)] := (Prod.mk.inj (Option.some.inj hhead)).2
  have hpairs : (str.fields.map fun f => (f.offset, f.elemSize)).Pairwise
      fun p q => p.1 + p.2 ≤ q.1 := List.pairwise_map.2 hpair
  rw [hfields] at hpairs
  exact absurd hpairs (by decide)

end Acts.Adl
