import Acts.Lib.Bytes
import Acts.Lib.Checked
import Acts.Lib.Csv

/-!
# Exporting a string table (`mw19_payload.cpp`)

* `Reader` — reads with a budget: the state is what remains of it.
* `readString` — a string up to its zero.
* `exportStringtable` — the branch of `ExportPayload` for string tables.
* `run_bind` — the first read of a sequence.

`MemoryReader` gives the bytes of the game's memory, where they can be read.
-/

set_option autoImplicit false

namespace Acts.Mw19.Payload

abbrev Data := List UInt8

/-- `MemoryReader`: the bytes at an address, for a length. -/
abbrev MemoryReader := Nat → Nat → Option Data

def uint64Max : Nat := 2 ^ 64 - 1

/-! ## Reads -/

/-- `Reader`; the state is `remaining`. -/
abbrev Reader := StateT Nat (Except String)

def fail {α : Type} (text : String) : Reader α := fun _ => .error text

/-- `Reader::Bytes`. -/
def bytes (read : MemoryReader) (address length : Nat) : Reader Data := fun remaining =>
  if length > remaining ∨ length > uint64Max - address then .error "Payload exceeds read budget"
  else if length = 0 then .ok ([], remaining)
  else if address = 0 then .error "Cannot read payload"
  else match read address length with
    | some b => .ok (b, remaining - length)
    | none => .error "Cannot read payload"

/-- `Reader::Number`, for a word of `n` bytes. -/
def number (read : MemoryReader) (n address : Nat) : Reader Nat := do
  let b ← bytes read address n
  return readLe n b

/-- `Reader::Count`, on the word of an `int32_t`. -/
def count (value : Nat) : Reader Nat := fun remaining =>
  if value ≥ 2 ^ 31 ∨ value > remaining then .error "Invalid payload count"
  else .ok (value, remaining)

/-- `Hex`. -/
def hex (n : Nat) : String := "0x" ++ String.ofList (Nat.toDigits 16 n)

/-- The loop of `ReadString` from byte `i`, with `left` turns before the limit. -/
def readStringFrom (read : MemoryReader) (address : Nat) : Nat → Nat → Reader Data
  | 0, _ => fail ("unterminated string at " ++ hex address)
  | left + 1, i =>
    if i > uint64Max - address then fail "address overflow"
    else do
      let c ← number read 1 (address + i)
      if c = 0 then return []
      else
        let s ← readStringFrom read address left (i + 1)
        return UInt8.ofNat c :: s

/-- `ReadString`. -/
def readString (read : MemoryReader) (address : Nat) : Reader Data :=
  if address = 0 then fail "null string" else readStringFrom read address 65536 0

/-! ## String tables -/

/-- The strings of a dictionary; a null pointer is the empty string. -/
def readStrings (read : MemoryReader) : Nat → Data → Reader (List Data)
  | 0, _ => return []
  | n + 1, pointers => do
    let ptr := readLe 8 pointers
    let s ← if ptr = 0 then return [] else readString read ptr
    let ss ← readStrings read n (pointers.drop 8)
    return s :: ss

/-- The loop over the columns of `row`, with `left` turns to go. -/
def exportCells (maxBytes rows row : Nat) (indices : Data) (strings : List Data) :
    Nat → Nat → Data → Except String Data
  | 0, _, text => .ok text
  | left + 1, col, text =>
    match strings[readLe 2 (indices.drop ((col * rows + row) * 2))]? with
    | none => .error "Stringtable cell references an invalid dictionary index"
    | some s =>
      let text := text ++ (if col = 0 then [] else [0x2c]) ++ Csv.cell s
      if text.length > maxBytes then .error "CSV exceeds output budget"
      else exportCells maxBytes rows row indices strings left (col + 1) text

/-- The loop over the rows. -/
def exportRows (maxBytes rows columns : Nat) (indices : Data) (strings : List Data) :
    Nat → Nat → Data → Except String Data
  | 0, _, text => .ok text
  | left + 1, row, text => do
    let text ← exportCells maxBytes rows row indices strings columns 0 text
    exportRows maxBytes rows columns indices strings left (row + 1) (text ++ [0x0a])

/-- The sizes, the indices and the strings of a table. -/
structure Table where
  columns : Nat
  rows : Nat
  indices : Data
  strings : List Data

def readTable (read : MemoryReader) (address maxBytes : Nat) : Reader Table := do
  let columns ← count (← number read 4 (address + 8))
  let rows ← count (← number read 4 (address + 12))
  let unique ← count (← number read 4 (address + 16))
  if columns ≠ 0 ∧ rows > maxBytes / 2 / columns then
    fail "Stringtable dimensions overflow budget"
  else do
    let indices ← bytes read (← number read 8 (address + 24)) (rows * columns * 2)
    if unique > maxBytes / 8 then fail "Stringtable dictionary exceeds budget"
    else do
      let pointers ← bytes read (← number read 8 (address + 40)) (unique * 8)
      let strings ← readStrings read unique pointers
      return ⟨columns, rows, indices, strings⟩

/-- `ExportPayload` for a string table; the payload is its text. -/
def exportStringtable (read : MemoryReader) (address maxBytes : Nat) : Except String Data :=
  if address = 0 ∨ address > uint64Max - 48 then .error "Invalid payload header address"
  else do
    let (t, _) ← readTable read address maxBytes maxBytes
    exportRows maxBytes t.rows t.columns t.indices t.strings t.rows 0 []

/-- The budget of `ExportPayload`. -/
def defaultMaxBytes : Nat := 128 * 1024 * 1024

/-! ## Sequences of reads -/

variable {α β : Type}

theorem run_bind {m : Reader α} {f : α → Reader β} {r r' : Nat} {a : α}
    (h : m r = .ok (a, r')) : (m >>= f) r = f a r' := by
  show (m r >>= fun p => f p.1 p.2) = f a r'
  rw [h]
  rfl

/-- A read of bytes that are there. -/
theorem run_bytes {read : MemoryReader} {address remaining : Nat} {data : Data}
    (hr : data.length ≤ remaining) (ha : data.length ≤ uint64Max - address)
    (hread : data ≠ [] → address ≠ 0 ∧ read address data.length = some data) :
    bytes read address data.length remaining = .ok (data, remaining - data.length) := by
  unfold bytes
  rw [if_neg (by omega)]
  by_cases hd : data = []
  · subst hd
    rfl
  · obtain ⟨hne, hread⟩ := hread hd
    have hlen : data.length ≠ 0 := fun h => hd (List.eq_nil_of_length_eq_zero h)
    rw [if_neg hlen, if_neg hne, hread]

theorem run_number {read : MemoryReader} {n address remaining v : Nat} {data : Data}
    (hdata : data.length = n) (hv : readLe n data = v) (hn : 0 < n) (hr : n ≤ remaining)
    (ha : n ≤ uint64Max - address) (hne : address ≠ 0) (hread : read address n = some data) :
    number read n address remaining = .ok (v, remaining - n) := by
  subst hdata
  have hbytes : bytes read address data.length remaining = .ok (data, remaining - data.length) :=
    run_bytes hr ha fun _ => ⟨hne, hread⟩
  unfold number
  rw [run_bind hbytes, hv]
  rfl

theorem run_count {value remaining : Nat} (hv : value < 2 ^ 31) (hr : value ≤ remaining) :
    count value remaining = .ok (value, remaining) := by
  unfold count
  rw [if_neg (by omega)]

/-- A string with its zero at `address`. -/
structure StringAt (read : MemoryReader) (address : Nat) (s : Data) : Prop where
  address_ne : address ≠ 0
  end_lt : address + s.length < uint64Max
  chars : ∀ i, i < s.length → read (address + i) 1 = some ((s.drop i).take 1)
  zero : read (address + s.length) 1 = some [0]

theorem run_readStringFrom {read : MemoryReader} {address : Nat} {s : Data}
    (hs : StringAt read address s) (h0 : (0 : UInt8) ∉ s) :
    ∀ (left i remaining : Nat), s.length < left + i → i ≤ s.length →
      s.length - i + 1 ≤ remaining →
      readStringFrom read address left i remaining =
        .ok (s.drop i, remaining - (s.length - i + 1)) := by
  intro left
  induction left with
  | zero =>
    intro i remaining hleft hi
    omega
  | succ left ih =>
    intro i remaining hleft hi hr
    have hend := hs.end_lt
    have hne := hs.address_ne
    unfold readStringFrom
    rw [if_neg (by unfold uint64Max at hend ⊢; omega)]
    by_cases hlast : i = s.length
    · subst hlast
      have hnum : number read 1 (address + s.length) remaining = .ok (0, remaining - 1) :=
        run_number rfl rfl (by omega) (by omega) (by unfold uint64Max at hend ⊢; omega)
          (by omega) hs.zero
      rw [run_bind hnum, if_pos rfl, List.drop_length]
      show Except.ok _ = _
      rw [show s.length - s.length + 1 = 1 by omega]
    · have hlt : i < s.length := by omega
      have hdrop : s.drop i = s[i] :: s.drop (i + 1) := List.drop_eq_getElem_cons hlt
      have hchar := hs.chars i hlt
      rw [hdrop] at hchar
      have hv : readLe 1 ((s[i] :: s.drop (i + 1)).take 1) = s[i].toNat := by
        rw [List.take_succ_cons, List.take_zero]
        simp [readLe]
      have hnum : number read 1 (address + i) remaining = .ok (s[i].toNat, remaining - 1) :=
        run_number rfl hv (by omega) (by omega) (by unfold uint64Max at hend ⊢; omega)
          (by omega) hchar
      have hnz : s[i].toNat ≠ 0 := by
        intro h
        have hzero : s[i] = 0 := UInt8.toNat_inj.mp h
        exact h0 (hzero ▸ List.getElem_mem hlt)
      rw [run_bind hnum, if_neg hnz, run_bind (ih (i + 1) (remaining - 1) (by omega) (by omega)
        (by omega)), UInt8.ofNat_toNat, ← hdrop]
      show Except.ok _ = _
      rw [show remaining - 1 - (s.length - (i + 1) + 1) = remaining - (s.length - i + 1) by omega]

/-- A string that is there is read. -/
theorem run_readString {read : MemoryReader} {address remaining : Nat} {s : Data}
    (hs : StringAt read address s) (h0 : (0 : UInt8) ∉ s) (hlen : s.length < 65536)
    (hr : s.length + 1 ≤ remaining) :
    readString read address remaining = .ok (s, remaining - (s.length + 1)) := by
  unfold readString
  rw [if_neg hs.address_ne, run_readStringFrom hs h0 65536 0 remaining (by omega) (by omega)
    (by omega)]
  simp

/-- What it costs to read strings. -/
def cost (ss : List Data) : Nat := (ss.map fun s => s.length + 1).sum

/-- A dictionary of strings that are there is read. -/
theorem run_readStrings {read : MemoryReader} {ptrs : List Nat} {ss : List Data}
    (hs : List.Forall₂ (StringAt read) ptrs ss)
    (hvalid : ∀ s ∈ ss, (0 : UInt8) ∉ s ∧ s.length < 65536) :
    ∀ remaining, cost ss ≤ remaining →
      readStrings read ss.length (ptrs.flatMap (leBytes 8)) remaining =
        .ok (ss, remaining - cost ss) := by
  induction hs with
  | nil =>
    intro remaining hr
    rfl
  | @cons ptr s ptrs ss hstring _ ih =>
    intro remaining hr
    have hcost : cost (s :: ss) = (s.length + 1) + cost ss := rfl
    rw [hcost] at hr
    obtain ⟨h0, hlen⟩ := hvalid s List.mem_cons_self
    have hend := hstring.end_lt
    have hptr : readLe 8 ((ptr :: ptrs).flatMap (leBytes 8)) = ptr := by
      rw [List.flatMap_cons, readLe_leBytes]
      apply Nat.mod_eq_of_lt
      unfold uint64Max at hend
      omega
    have hdrop : ((ptr :: ptrs).flatMap (leBytes 8)).drop 8 = ptrs.flatMap (leBytes 8) := by
      rw [List.flatMap_cons]
      exact List.drop_left' (length_leBytes 8 ptr)
    have hrun : readString read ptr remaining = .ok (s, remaining - (s.length + 1)) :=
      run_readString hstring h0 hlen (by omega)
    have hrest := ih (fun t ht => hvalid t (List.mem_cons_of_mem s ht))
      (remaining - (s.length + 1)) (by omega)
    rw [List.length_cons, readStrings, hptr, hdrop, if_neg hstring.address_ne, run_bind hrun, run_bind hrest, hcost,
      Nat.sub_sub]
    rfl

end Acts.Mw19.Payload
