import Acts.Lib.Memory

/-!
# The static memory allocator

`MemoryAllocatorStatic<Len, uint32_t>`: an arena of `Len + 16` bytes holding a linked list of
blocks, each a 16-byte header (`prev`, `next`, `len`, `allocated`) followed by its data.

* `Header`, `header`, `setPrev` … — the header fields as bytes of the arena.
* `findBlock`, `allocRef` — the first-fit walk and the split.
* `freeRef` — the two merges.

References are offsets in the arena.
-/

set_option autoImplicit false

namespace Acts.MemoryAllocatorStatic

/-- `sizeof(MemoryAllocatorStaticHeader<uint32_t>)`. -/
def headerSize : Nat := 16

structure Header where
  prev : Nat
  next : Nat
  len : Nat
  allocated : Bool
  deriving DecidableEq, Repr

/-- `HeaderByRef`. -/
def header (m : Mem) (ref : Nat) : Header where
  prev := m.readLE ref 4
  next := m.readLE (ref + 4) 4
  len := m.readLE (ref + 8) 4
  allocated := m (ref + 12) != 0

def setPrev (m : Mem) (ref v : Nat) : Mem := m.writeLE ref v 4
def setNext (m : Mem) (ref v : Nat) : Mem := m.writeLE (ref + 4) v 4
def setLen (m : Mem) (ref v : Nat) : Mem := m.writeLE (ref + 8) v 4
def setAllocated (m : Mem) (ref : Nat) (b : Bool) : Mem :=
  m.setByte (ref + 12) (if b then 1 else 0)

/-- The constructor, over zeroed data. -/
def init (Len : Nat) : Mem :=
  setAllocated (setLen (setNext (setPrev (fun _ => 0) 0 0) 0 0) 0 Len) 0 false

inductive AllocErr where
  | throw (msg : String)
  | hang
  deriving DecidableEq, Repr

/-- The walk of `AllocRef` from block `ref`, at most `fuel` blocks. -/
def findBlock (m : Mem) (len : Nat) : Nat → Nat → Except AllocErr Nat
  | 0, _ => .error .hang
  | fuel + 1, ref =>
    let h := header m ref
    if h.allocated ∨ h.len < len then
      if h.next = 0 then .error (.throw "Not enough data in the allocator")
      else findBlock m len fuel h.next
    else .ok ref

/-- The block created after a block that is larger than asked for. -/
def splitBlock (m : Mem) (ref len : Nat) : Mem :=
  let next := ref + headerSize + len
  let m := setPrev m next ref
  let m := setNext m next (header m ref).next
  let m := setLen m next ((header m ref).len - len - headerSize)
  let m := setNext m ref next
  setLen m ref len

/-- `AllocRef`; a list without a cycle has fewer blocks than the arena has bytes. -/
def allocRef (Len : Nat) (m : Mem) (len : Nat) : Except AllocErr (Nat × Mem) :=
  match findBlock m len (Len + headerSize) 0 with
  | .error e => .error e
  | .ok ref =>
    let m := setAllocated m ref true
    if len + headerSize < (header m ref).len then .ok (ref + headerSize, splitBlock m ref len)
    else .ok (ref + headerSize, m)

/-- The merge of a freed block with the next one. -/
def mergeNext (m : Mem) (ref : Nat) : Mem :=
  let h := header m ref
  if h.next = 0 then m else
    let nh := header m h.next
    if nh.allocated then m else
      let m := if nh.next = 0 then m else setPrev m nh.next ref
      setNext (setLen m ref (h.len + nh.len)) ref nh.next

/-- The merge of a freed block into the previous one. -/
def mergePrev (m : Mem) (ref : Nat) : Mem :=
  let h := header m ref
  if h.prev = 0 then m else
    let ph := header m h.prev
    if ph.allocated then m else
      setLen (setNext m h.prev h.next) h.prev (ph.len + h.len)

/-- `FreeRef`. -/
def freeRef (m : Mem) (ref : Nat) : Mem :=
  let ref := ref - headerSize
  mergePrev (mergeNext (setAllocated m ref false) ref) ref

/-- The block that is found is free and large enough. -/
theorem findBlock_free {m : Mem} {len fuel start ref : Nat}
    (h : findBlock m len fuel start = .ok ref) :
    (header m ref).allocated = false ∧ len ≤ (header m ref).len := by
  induction fuel generalizing start with
  | zero => cases h
  | succ fuel ih =>
    simp only [findBlock] at h
    split at h
    · split at h
      · cases h
      · exact ih h
    · rename_i hfree
      cases h
      simpa using hfree

/-- An allocated block is not handed out. -/
theorem allocRef_ne {Len : Nat} {m m' : Mem} {len ref other : Nat}
    (h : allocRef Len m len = .ok (ref, m')) (hother : (header m other).allocated = true) :
    ref ≠ other + headerSize := by
  unfold allocRef at h
  split at h
  · cases h
  · rename_i start hfind
    have hfree := (findBlock_free hfind).1
    have hne : start ≠ other := by
      rintro rfl
      rw [hother] at hfree
      cases hfree
    have href : ref = start + headerSize := by
      dsimp only at h
      split at h <;> cases h <;> rfl
    omega

/-! ## Header fields after a write -/

variable {m : Mem} {r : Nat}

theorem header_congr (m' : Mem) (h : ∀ x, r ≤ x → x < r + headerSize → m x = m' x) :
    header m r = header m' r := by
  unfold headerSize at h
  unfold header
  rw [Mem.readLE_congr m' (fun x h1 h2 => h x (by omega) (by omega)),
    Mem.readLE_congr (a := r + 4) m' (fun x h1 h2 => h x (by omega) (by omega)),
    Mem.readLE_congr (a := r + 8) m' (fun x h1 h2 => h x (by omega) (by omega)),
    h (r + 12) (by omega) (by omega)]

theorem header_setPrev (m : Mem) (r v : Nat) :
    header (setPrev m r v) r = { header m r with prev := v % 2 ^ 32 } := by
  simp only [header, setPrev, Header.mk.injEq]
  refine ⟨Mem.readLE_writeLE m r v 4, ?_, ?_, ?_⟩
  · exact Mem.readLE_writeLE_disjoint m v (by omega)
  · exact Mem.readLE_writeLE_disjoint m v (by omega)
  · rw [Mem.writeLE_outside m v (by omega)]

theorem header_setNext (m : Mem) (r v : Nat) :
    header (setNext m r v) r = { header m r with next := v % 2 ^ 32 } := by
  simp only [header, setNext, Header.mk.injEq]
  refine ⟨?_, Mem.readLE_writeLE m (r + 4) v 4, ?_, ?_⟩
  · exact Mem.readLE_writeLE_disjoint m v (by omega)
  · exact Mem.readLE_writeLE_disjoint m v (by omega)
  · rw [Mem.writeLE_outside m v (by omega)]

theorem header_setLen (m : Mem) (r v : Nat) :
    header (setLen m r v) r = { header m r with len := v % 2 ^ 32 } := by
  simp only [header, setLen, Header.mk.injEq]
  refine ⟨?_, ?_, Mem.readLE_writeLE m (r + 8) v 4, ?_⟩
  · exact Mem.readLE_writeLE_disjoint m v (by omega)
  · exact Mem.readLE_writeLE_disjoint m v (by omega)
  · rw [Mem.writeLE_outside m v (by omega)]

theorem header_setAllocated (m : Mem) (r : Nat) (b : Bool) :
    header (setAllocated m r b) r = { header m r with allocated := b } := by
  simp only [header, setAllocated, Header.mk.injEq]
  refine ⟨?_, ?_, ?_, ?_⟩
  · exact Mem.readLE_setByte_disjoint m _ (by omega)
  · exact Mem.readLE_setByte_disjoint m _ (by omega)
  · exact Mem.readLE_setByte_disjoint m _ (by omega)
  · cases b <;> simp

/-- The setters write inside the header they are given. -/
theorem setPrev_outside (m : Mem) (v : Nat) {x : Nat} (h : x < r ∨ r + headerSize ≤ x) :
    setPrev m r v x = m x := by
  unfold headerSize at h
  exact Mem.writeLE_outside m v (by omega)

theorem setNext_outside (m : Mem) (v : Nat) {x : Nat} (h : x < r ∨ r + headerSize ≤ x) :
    setNext m r v x = m x := by
  unfold headerSize at h
  exact Mem.writeLE_outside m v (by omega)

theorem setLen_outside (m : Mem) (v : Nat) {x : Nat} (h : x < r ∨ r + headerSize ≤ x) :
    setLen m r v x = m x := by
  unfold headerSize at h
  exact Mem.writeLE_outside m v (by omega)

theorem setAllocated_outside (m : Mem) (b : Bool) {x : Nat} (h : x < r ∨ r + headerSize ≤ x) :
    setAllocated m r b x = m x := by
  unfold headerSize at h
  exact Mem.setByte_other _ (by omega)

/-- A split writes inside the two headers. -/
theorem splitBlock_outside (m : Mem) (len : Nat) {x : Nat} (h : x < r ∨ r + headerSize ≤ x)
    (h' : x < r + headerSize + len ∨ r + headerSize + len + headerSize ≤ x) :
    splitBlock m r len x = m x := by
  simp only [splitBlock]
  rw [setLen_outside _ _ h, setNext_outside _ _ h, setLen_outside _ _ h', setNext_outside _ _ h',
    setPrev_outside _ _ h']

/-- The two headers after a split. -/
theorem splitBlock_spec (m : Mem) (r len : Nat) (h32 : r + headerSize + len < 2 ^ 32) :
    header (splitBlock m r len) r =
        { header m r with next := r + headerSize + len, len := len } ∧
      header (splitBlock m r len) (r + headerSize + len) =
        { prev := r, next := (header m r).next % 2 ^ 32,
          len := ((header m r).len - len - headerSize) % 2 ^ 32,
          allocated := (header m (r + headerSize + len)).allocated } := by
  have hs : headerSize = 16 := rfl
  -- writes to the new header do not touch the old one
  have h1 : header (setPrev m (r + headerSize + len) r) r = header m r :=
    header_congr _ (fun x _ hx => setPrev_outside m r (by omega))
  have h2 : header (setNext (setPrev m (r + headerSize + len) r) (r + headerSize + len)
      (header m r).next) r = header m r := by
    rw [← h1]
    exact header_congr _ (fun x _ hx => setNext_outside _ _ (by omega))
  simp only [splitBlock, h1, h2]
  constructor
  · rw [header_setLen, header_setNext]
    rw [header_congr (setNext (setPrev m (r + headerSize + len) r) (r + headerSize + len)
      (header m r).next) (fun x _ hx => setLen_outside _ _ (by omega)), h2]
    simp only [Header.mk.injEq, true_and, and_true]
    omega
  · rw [header_congr (setLen (setNext (setPrev m (r + headerSize + len) r)
      (r + headerSize + len) (header m r).next) (r + headerSize + len)
      ((header m r).len - len - headerSize))
      (fun x hx _ => by rw [setLen_outside _ _ (by omega), setNext_outside _ _ (by omega)])]
    rw [header_setLen, header_setNext, header_setPrev]
    simp only [Header.mk.injEq, and_true]
    omega

end Acts.MemoryAllocatorStatic
