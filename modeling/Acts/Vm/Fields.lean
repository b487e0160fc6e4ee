import Acts.Vm.OperandStack

/-!
# The fields of the ACTS virtual machine

The free fields are a list through their own `data.field`.  The constructor gives each field itself
as the next one.

* `FieldRun` — any calls of `CreateField`, `ReleaseField` and `SetRefValue` on a new machine.
* `Looped` — field 0 is free, and is the next one after itself: what all these calls keep.
* `HandsOutAll` — the free list holds every field but the reserved one.
* `fieldRun_iff` — **a field is never handed out twice exactly if none is live when one is created**;
  no field but 0 ever is handed out, and a released field is available again.
-/

set_option autoImplicit false

namespace Acts.Vm

open RefHeap

namespace VmState

/-- `SetRefValue` without a value. -/
def clearRefValue (s : VmState) (ref : Nat) : Except VmFault VmState :=
  if ref = invalidFieldRef then .ok (s.error "Invalid field ref")
  else do
    let f ← s.fieldAt ref
    let s ← s.decRef f.var
    .ok (s.setField ref { f with var := .undefined })

end VmState

/-! ## Calls -/

/-- The calls on a new machine, with the fields that are live, and for each field that was handed out
those that were live then.  Between two calls the rest of the machine may change. -/
inductive FieldRun : List Nat → List (Nat × List Nat) → VmState → Prop
  | new : FieldRun [] [] .init
  | rest {live : List Nat} {handed : List (Nat × List Nat)} {s s' : VmState}
      (h : FieldRun live handed s) (hfields : s'.fields = s.fields)
      (hfree : s'.fieldFree = s.fieldFree) : FieldRun live handed s'
  | create {live : List Nat} {handed : List (Nat × List Nat)} {s s' : VmState} {field : Nat}
      (value : Option Nat) (h : FieldRun live handed s)
      (hcall : s.createField value = .ok (field, s')) :
      FieldRun (field :: live) ((field, live) :: handed) s'
  | release {live : List Nat} {handed : List (Nat × List Nat)} {s s' : VmState} {field : Nat}
      (h : FieldRun live handed s) (hlive : field ∈ live)
      (hcall : s.releaseField field = .ok s') : FieldRun (live.erase field) handed s'
  | set {live : List Nat} {handed : List (Nat × List Nat)} {s s' : VmState} (ref i : Nat)
      (h : FieldRun live handed s) (hcall : s.setRefValue ref i = .ok s') :
      FieldRun live handed s'
  | clear {live : List Nat} {handed : List (Nat × List Nat)} {s s' : VmState} (ref : Nat)
      (h : FieldRun live handed s) (hcall : s.clearRefValue ref = .ok s') :
      FieldRun live handed s'

/-- Fields are created without a value until there is none left. -/
inductive Drains : VmState → List Nat → Prop
  | done {s : VmState} {fault : VmFault} (hcall : s.createField none = .error fault) : Drains s []
  | next {s s' : VmState} {field : Nat} {fields : List Nat}
      (hcall : s.createField none = .ok (field, s')) (h : Drains s' fields) :
      Drains s (field :: fields)

/-- Each field but the reserved one is live, or is handed out before the allocation fails. -/
def HandsOutAll (live : List Nat) (s : VmState) : Prop :=
  ∃ fields, Drains s fields ∧ ∀ field < 0x3fff, field ∈ live ∨ field ∈ fields

/-! ## The loop at the first field -/

structure Looped (s : VmState) : Prop where
  free : s.fieldFree = 0
  next : ∃ v, s.fields[0]? = some ⟨v, 0⟩

variable {s s' : VmState} {live : List Nat} {handed : List (Nat × List Nat)} {field : Nat}

theorem first_field {n : Nat} (hn : 0 < n) (fields : List VmField) :
    ((List.range n).map (VmField.mk .undefined) ++ fields)[0]? = some ⟨.undefined, 0⟩ := by
  rw [List.getElem?_append_left (by rwa [List.length_map, List.length_range]), List.getElem?_map,
    List.getElem?_range hn]
  rfl

theorem looped_init : Looped .init where
  free := rfl
  next := ⟨.undefined, first_field (by decide) _⟩

theorem Looped.congr (h : Looped s) (hfields : s'.fields = s.fields)
    (hfree : s'.fieldFree = s.fieldFree) : Looped s' where
  free := hfree.trans h.free
  next := by rw [hfields]; exact h.next

/-- A field keeps its place in the list when its value changes. -/
theorem Looped.setVar (h : Looped s) {k : Nat} {f : VmField} (hf : s.fields[k]? = some f)
    (v : VmVar) (hfields : s'.fields = s.fields.set k { f with var := v })
    (hfree : s'.fieldFree = s.fieldFree) : Looped s' where
  free := hfree.trans h.free
  next := by
    obtain ⟨w, hw⟩ := h.next
    have hlt := (List.getElem?_eq_some_iff.mp hf).1
    rw [hfields]
    by_cases hk : k = 0
    · subst hk
      rw [hw] at hf
      cases hf
      exact ⟨v, by rw [List.getElem?_set_self hlt]⟩
    · exact ⟨w, by rw [List.getElem?_set_ne hk, hw]⟩

theorem fieldAt_iff {k : Nat} {f : VmField} : s.fieldAt k = .ok f ↔ s.fields[k]? = some f := by
  unfold VmState.fieldAt
  cases s.fields[k]? <;> simp

/-- `CreateField` hands out the first field. -/
theorem Looped.create (h : Looped s) {value : Option Nat}
    (hcall : s.createField value = .ok (field, s')) : field = 0 ∧ Looped s' := by
  obtain ⟨v, hv⟩ := h.next
  have hlt := (List.getElem?_eq_some_iff.mp hv).1
  unfold VmState.createField at hcall
  rw [h.free, if_neg (by decide)] at hcall
  obtain ⟨f, hf, hcall⟩ := ok_of_bind hcall
  have hfirst := fieldAt_iff.mp hf
  rw [hv] at hfirst
  cases hfirst
  cases value with
  | none =>
    cases hcall
    exact ⟨rfl, rfl, .undefined, List.getElem?_set_self hlt⟩
  | some i =>
    obtain ⟨w, -, hcall⟩ := ok_of_bind hcall
    obtain ⟨s₁, hslot, hcall⟩ := ok_of_bind hcall
    obtain ⟨-, rfl⟩ := VmState.setSlot_eq hslot
    cases hcall
    exact ⟨rfl, rfl, w, List.getElem?_set_self hlt⟩

/-- It never fails. -/
theorem Looped.creates (h : Looped s) :
    ∃ s', s.createField none = .ok (0, s') ∧ s'.fields[0]? = some ⟨.undefined, 0⟩ := by
  obtain ⟨v, hv⟩ := h.next
  have hlt := (List.getElem?_eq_some_iff.mp hv).1
  refine ⟨{ s with fieldFree := 0 }.setField 0 ⟨.undefined, 0⟩, ?_, List.getElem?_set_self hlt⟩
  unfold VmState.createField
  rw [h.free, if_neg (by decide)]
  dsimp only
  rw [fieldAt_iff.mpr hv]
  rfl

theorem Looped.release (h : Looped s) (hcall : s.releaseField 0 = .ok s') : Looped s' := by
  unfold VmState.releaseField at hcall
  rw [if_neg (by decide)] at hcall
  obtain ⟨f, hf, hcall⟩ := ok_of_bind hcall
  obtain ⟨s₁, hdec, hcall⟩ := ok_of_bind hcall
  obtain ⟨heap, -, rfl⟩ := VmState.decRef_eq hdec
  cases hcall
  have hlt := (List.getElem?_eq_some_iff.mp (fieldAt_iff.mp hf)).1
  refine ⟨rfl, .undefined, ?_⟩
  show (s.fields.set 0 ⟨.undefined, s.fieldFree⟩)[0]? = _
  rw [List.getElem?_set_self hlt, h.free]

theorem Looped.set (h : Looped s) {ref i : Nat} (hcall : s.setRefValue ref i = .ok s') :
    Looped s' := by
  unfold VmState.setRefValue at hcall
  split at hcall
  · cases hcall
    exact h.congr rfl rfl
  · obtain ⟨f, hf, hcall⟩ := ok_of_bind hcall
    obtain ⟨s₁, hdec, hcall⟩ := ok_of_bind hcall
    obtain ⟨heap, -, rfl⟩ := VmState.decRef_eq hdec
    obtain ⟨v, -, hcall⟩ := ok_of_bind hcall
    obtain ⟨-, rfl⟩ := VmState.setSlot_eq hcall
    exact h.setVar (fieldAt_iff.mp hf) v rfl rfl

theorem Looped.clear (h : Looped s) {ref : Nat} (hcall : s.clearRefValue ref = .ok s') :
    Looped s' := by
  unfold VmState.clearRefValue at hcall
  split at hcall
  · cases hcall
    exact h.congr rfl rfl
  · obtain ⟨f, hf, hcall⟩ := ok_of_bind hcall
    obtain ⟨s₁, hdec, hcall⟩ := ok_of_bind hcall
    obtain ⟨heap, -, rfl⟩ := VmState.decRef_eq hdec
    cases hcall
    exact h.setVar (fieldAt_iff.mp hf) .undefined rfl rfl

/-! ## Runs -/

/-- After any calls the list is the loop, and only the first field was ever handed out. -/
theorem FieldRun.looped (h : FieldRun live handed s) :
    Looped s ∧ (∀ field ∈ live, field = 0) ∧
      ∀ entry ∈ handed, entry.1 = 0 ∧ ∀ field ∈ entry.2, field = 0 := by
  induction h with
  | new => exact ⟨looped_init, by simp, by simp⟩
  | rest _ hfields hfree ih => exact ⟨ih.1.congr hfields hfree, ih.2⟩
  | create value _ hcall ih =>
    obtain ⟨hlooped, hlive, hhanded⟩ := ih
    obtain ⟨rfl, hlooped'⟩ := hlooped.create hcall
    refine ⟨hlooped', ?_, ?_⟩
    · simpa using hlive
    · intro entry hentry
      rcases List.mem_cons.mp hentry with rfl | hentry
      · exact ⟨rfl, hlive⟩
      · exact hhanded entry hentry
  | release _ hmem hcall ih =>
    obtain ⟨hlooped, hlive, hhanded⟩ := ih
    have hzero := hlive _ hmem
    subst hzero
    exact ⟨hlooped.release hcall, fun field h => hlive field (List.mem_of_mem_erase h), hhanded⟩
  | set ref i _ hcall ih => exact ⟨ih.1.set hcall, ih.2⟩
  | clear ref _ hcall ih => exact ⟨ih.1.clear hcall, ih.2⟩

/-- The allocation never fails. -/
theorem Looped.not_drains (h : Looped s) {fields : List Nat} : ¬Drains s fields := by
  intro hdrains
  induction hdrains with
  | done hcall =>
    obtain ⟨s', hcreate, -⟩ := h.creates
    rw [hcreate] at hcall
    cases hcall
  | next hcall _ ih => exact ih (h.create hcall).2

/-- **When fields are handed out once.**  In any run, `CreateField` has never returned a live field
exactly if none was live when it was called.  No other fields than the first are handed out, and the
allocation never fails; a released field is the next to be handed out. -/
theorem fieldRun_iff (h : FieldRun live handed s) :
    ((∀ entry ∈ handed, entry.1 ∉ entry.2) ↔ ∀ entry ∈ handed, entry.2 = []) ∧
      (∀ entry ∈ handed, entry.1 = 0) ∧ ¬HandsOutAll live s ∧
      ∀ field ∈ live, ∀ s', s.releaseField field = .ok s' →
        ∃ s'', s'.createField none = .ok (field, s'') := by
  obtain ⟨hlooped, hlive, hhanded⟩ := h.looped
  refine ⟨?_, fun entry hentry => (hhanded entry hentry).1, ?_, ?_⟩
  · constructor
    · intro honce entry hentry
      obtain ⟨hzero, hbefore⟩ := hhanded entry hentry
      refine List.eq_nil_iff_forall_not_mem.mpr fun field hfield => honce entry hentry ?_
      rw [hzero, ← hbefore field hfield]
      exact hfield
    · intro hnone entry hentry
      rw [hnone entry hentry]
      exact List.not_mem_nil
  · rintro ⟨fields, hdrains, -⟩
    exact hlooped.not_drains hdrains
  · intro field hfield s' hcall
    have hzero := hlive field hfield
    subst hzero
    obtain ⟨s'', hcreate, -⟩ := (hlooped.release hcall).creates
    exact ⟨s'', hcreate⟩

theorem release_undefined {next : Nat} (h : s.fields[0]? = some ⟨.undefined, next⟩) :
    ∃ s', s.releaseField 0 = .ok s' := by
  have hdec : s.decRef .undefined = .ok s := by
    unfold VmState.decRef
    rw [release_none s.heap rfl]
  refine ⟨{ s.setField 0 ⟨.undefined, s.fieldFree⟩ with fieldFree := 0 }, ?_⟩
  unfold VmState.releaseField
  rw [if_neg (by decide), fieldAt_iff.mpr h]
  show (do let s' ← s.decRef .undefined; _) = _
  rw [hdec]
  rfl

/-- A field that is created, released and created again. -/
theorem reused_once : ∃ s, FieldRun [0] [(0, []), (0, [])] s ∧
    ∀ entry ∈ [(0, []), ((0 : Nat), ([] : List Nat))], entry.1 ∉ entry.2 := by
  obtain ⟨s₁, h₁, hfirst⟩ := looped_init.creates
  obtain ⟨s₂, h₂⟩ := release_undefined hfirst
  have hreleased : FieldRun [] [(0, [])] s₂ := .release (.create none .new h₁) List.mem_cons_self h₂
  obtain ⟨s₃, h₃, -⟩ := hreleased.looped.1.creates
  have hrun : FieldRun [0] [(0, []), (0, [])] s₃ := .create none hreleased h₃
  exact ⟨s₃, hrun, (fieldRun_iff hrun).1.mpr (by simp)⟩

/-- Two fields that are created: the second is the first. -/
theorem created_twice : ∃ s, FieldRun [0, 0] [(0, [0]), (0, [])] s ∧ ¬HandsOutAll [0, 0] s := by
  obtain ⟨s₁, h₁, -⟩ := looped_init.creates
  obtain ⟨-, hlooped⟩ := looped_init.create h₁
  obtain ⟨s₂, h₂, -⟩ := hlooped.creates
  refine ⟨s₂, .create none (.create none .new h₁) h₂, ?_⟩
  rintro ⟨fields, hdrains, -⟩
  exact (hlooped.create h₂).2.not_drains hdrains

end Acts.Vm
