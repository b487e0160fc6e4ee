import Acts.Vm.LoaderRuns

/-!
# The strings of the ACTS virtual machine

Strings are kept once, in chains that start at `stringStart`.  The array is zeroed, and a chain ends
with the invalid reference, which is not zero.

* `decRef` — a release of a reference to a string.
* `StringRun` — any calls of `CreateString` and releases, on a machine that may have loaded scripts.
* `Creates` — what `CreateString` is for.
* `createString_starts`, `createString_empty` — it sets no start of a chain, so that in an empty chain
  it would make a string again and again.
* `stringRun_never_creates` — **`CreateString` never creates anything**: it follows the first block of
  the arena for ever.
-/

set_option autoImplicit false

namespace Acts.Vm.Loader

/-- `DecRef` of a string. -/
def decRef (ref : Nat) : LoadM Unit := fun s =>
  let count := (s.alloc.readLE ref 8 + (2 ^ 64 - 1)) % 2 ^ 64
  let m := s.alloc.writeLE ref count 8
  .ok () { s with alloc := if count = 0 then MemoryAllocatorStatic.freeRef m ref else m }

/-- The calls, with the references that are live, each as often as it was asked for. -/
inductive StringRun (cfg : Config) (opcodes : LoadM Unit) : List Nat → ActsVm → Prop
  | start {s : ActsVm} (h : Reachable cfg opcodes s) : StringRun cfg opcodes [] s
  | create {live : List Nat} {s s' : ActsVm} {ref : Nat} {str : List UInt8} (numRefs : Nat)
      (h : StringRun cfg opcodes live s) (hstr : 0 ∉ str)
      (hcall : createString str numRefs s = .ok ref s') :
      StringRun cfg opcodes (List.replicate numRefs ref ++ live) s'
  | release {live : List Nat} {s s' : ActsVm} {ref : Nat} (h : StringRun cfg opcodes live s)
      (hlive : ref ∈ live) (hcall : decRef ref s = .ok () s') :
      StringRun cfg opcodes (live.erase ref) s'

/-- A reference to the text, which counts `numRefs` more references than were live before, and is the
one of the live string with that text if there is one. -/
def Creates (str : List UInt8) (numRefs : Nat) (live : List Nat) (s : ActsVm) : Prop :=
  ∃ ref s', createString str numRefs s = .ok ref s' ∧ isString s'.alloc ref str ∧
    s'.alloc.readLE ref 8 = live.count ref + numRefs ∧
    ∀ other ∈ live, isString s.alloc other str → other = ref

variable {cfg : Config} {opcodes : LoadM Unit} {live : List Nat} {s s' : ActsVm}

/-! ## Empty chains -/

/-- No start of a chain is ever set: an empty chain stays empty. -/
theorem createString_starts {str : List UInt8} {numRefs ref : Nat}
    (h : createString str numRefs s = .ok ref s') : s'.stringStart = s.stringStart := by
  unfold createString at h
  dsimp only at h
  split at h
  · cases h
  · cases h
    rfl
  · split at h
    · cases h
      rfl
    · split at h
      · cases h
      · cases h
      · cases h
        rfl

/-- In an empty chain no string is found, and another one is made in a block that was free. -/
theorem createString_empty {str : List UInt8} {numRefs ref other : Nat}
    (hempty : s.stringStart ((hash64A str).toNat % 0x200) = invalidStrRef) (hrefs : numRefs ≠ 0)
    (hother : (MemoryAllocatorStatic.header s.alloc other).allocated = true)
    (h : createString str numRefs s = .ok ref s') :
    ref ≠ other + MemoryAllocatorStatic.headerSize := by
  unfold createString at h
  dsimp only at h
  rw [hempty, findString, if_pos rfl] at h
  dsimp only at h
  rw [if_neg hrefs] at h
  split at h
  · cases h
  · cases h
  · rename_i ref' m hcall
    cases h
    exact MemoryAllocatorStatic.allocRef_ne hcall hother

/-! ## Runs -/

/-- In no run is there a string. -/
theorem StringRun.idle (h : StringRun cfg opcodes live s) : Idle cfg s ∧ live = [] := by
  induction h with
  | start h => exact ⟨reachable_idle h, rfl⟩
  | create numRefs _ hstr hcall ih =>
    rw [createString_hangs ih.1 hstr numRefs] at hcall
    cases hcall
  | release _ hmem _ ih =>
    rw [ih.2] at hmem
    cases hmem

/-- **No string is ever created.**  In any run, each call of `CreateString` goes on for ever. -/
theorem stringRun_never_creates (h : StringRun cfg opcodes live s) {str : List UInt8}
    (hstr : 0 ∉ str) (numRefs : Nat) :
    createString str numRefs s = .error .hang s ∧ ¬Creates str numRefs live s := by
  have hhang := createString_hangs h.idle.1 hstr numRefs
  refine ⟨hhang, ?_⟩
  rintro ⟨ref, s', hcall, -⟩
  rw [hhang] at hcall
  cases hcall

/-- The string `a`, on a new machine. -/
theorem newString_hangs : createString [0x61] 1 (newVm []) = .error .hang (newVm []) ∧
    ¬Creates [0x61] 1 [] (newVm []) :=
  stringRun_never_creates (.start (.new []) : StringRun cycle (pure ()) [] (newVm [])) (by decide) 1

/-- It has no reference, although there is room for it. -/
theorem newString_no_ref : ¬∃ ref s', createString [0x61] 1 (newVm []) = .ok ref s' := by
  rintro ⟨ref, s', hcall⟩
  rw [createString_hangs (idle_new cycle []) (by decide) 1] at hcall
  cases hcall

end Acts.Vm.Loader
