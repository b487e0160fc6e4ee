import Acts.Lib.Bytes
import Acts.Lib.Checked

/-!
# The linker of replay zones (`mw19_linker.cpp`)

* `Json` — the values that asset descriptors are made of, with the accessors the linker uses.
* `Op`, `Writer.exec` — the calls of the `Writer`, which fills the body of a zone and counts what
  each block needs.
* `prepare` — the records of one asset; `assetOps` — the calls that write them.
* `link` — a list of assets to a zone.

The profile is a record.  `deflate` stands for zlib.  An exception is an error with its text; those
of the JSON library are `type_error` and `out_of_range`.
-/

set_option autoImplicit false

namespace Acts.Mw19.Linker

abbrev Data := List UInt8

/-! ## Descriptors -/

/-- A JSON value; `int` is a signed or an unsigned number. -/
inductive Json where
  | null
  | bool (b : Bool)
  | int (n : Int)
  | float
  | string (s : Data)
  | binary (b : Data)
  | array (items : List Json)
  | object (members : List (String × Json))

namespace Json

/-- `contains`. -/
def find? : Json → String → Option Json
  | .object members, key => members.lookup key
  | _, _ => none

/-- `at`. -/
def get (j : Json) (key : String) : Except String Json :=
  match j with
  | .object members =>
    match members.lookup key with
    | some v => .ok v
    | none => .error "out_of_range"
  | _ => .error "type_error"

/-- `value`. -/
def value (j : Json) (key : String) (default : Json) : Except String Json :=
  match j with
  | .object members => .ok ((members.lookup key).getD default)
  | _ => .error "type_error"

/-- `get<std::string>`. -/
def text : Json → Except String Data
  | .string s => .ok s
  | _ => .error "type_error"

/-- `size`. -/
def size : Json → Nat
  | .null => 0
  | .array items => items.length
  | .object members => members.length
  | _ => 1

end Json

/-! ## Fields -/

/-- `Number`. -/
def number (value : Json) (maximum : Nat) : Except String Nat :=
  match value with
  | .int n =>
    if n < 0 then .error "Linker field requires a nonnegative integer"
    else if n.toNat > maximum then .error "Linker integer is out of range"
    else .ok n.toNat
  | _ => .error "Linker field requires a nonnegative integer"

def uint32Max : Nat := 2 ^ 32 - 1

/-- `CellHash`. -/
def cellHash (value : Data) : Nat :=
  value.foldl (fun hash c =>
    let c := if 0x41 ≤ c ∧ c ≤ 0x5a then c + 0x20 else c
    (hash * 31 + c.toNat) % 2 ^ 32) 0

/-- `Put`. -/
def put (data : Data) (pos : Nat) (value : Data) : Except String Data :=
  if pos > data.length ∨ value.length > data.length - pos then
    .error "Link field outside record"
  else .ok (data.take pos ++ value ++ data.drop (pos + value.length))

/-- `String`. -/
def string (value : Json) : Except String Data := do
  let s ← value.text
  if s.length > 65535 ∨ 0 ∈ s then .error "Invalid asset string" else .ok s

/-- `Bytes`. -/
def bytes (asset : Json) (field : String) (limit : Nat) : Except String Data :=
  match asset.find? field with
  | none => .ok []
  | some (.binary b) =>
    if b.length > limit then .error "Asset bytes exceed budget" else .ok b
  | some value => do
    let s ← value.text
    if s.length > limit then .error "Asset bytes exceed budget" else .ok s

/-- `Follows` and `Insert`. -/
def follows : Nat := 2 ^ 64 - 2
def insert : Nat := 2 ^ 64 - 3

/-! ## The writer -/

/-- `Zone` without its list of assets. -/
structure Zone where
  body : Data
  blocks : Fin 11 → Nat

structure Writer where
  limit : Nat
  zone : Zone

/-- The calls of a `Writer`. -/
inductive Op where
  | align (block : Fin 11) (alignment : Nat)
  | reserve (block : Fin 11) (size : Nat)
  | write (block : Fin 11) (bytes : Data)

/-- `Text`. -/
def Op.text (block : Fin 11) (s : Data) : Op := .write block (s ++ [0])

namespace Writer

variable (w : Writer)

def setBlock (block : Fin 11) (n : Nat) : Writer :=
  { w with zone := { w.zone with blocks := Function.update w.zone.blocks block n } }

/-- `Align`; the alignment is a power of two. -/
def align (block : Fin 11) (alignment : Nat) : Except String Writer :=
  let n := aligned (w.zone.blocks block) alignment
  if n > w.limit then .error "Stream reservation exceeds budget" else .ok (w.setBlock block n)

/-- `Reserve`; a block is never larger than the limit. -/
def reserve (block : Fin 11) (size : Nat) : Except String Writer :=
  let n := w.zone.blocks block
  if size > w.limit - n then .error "Stream reservation exceeds budget"
  else .ok (w.setBlock block (n + size))

/-- `Write`. -/
def write (block : Fin 11) (bytes : Data) : Except String Writer :=
  if bytes.length > w.limit - w.zone.body.length then .error "Zone exceeds budget"
  else do
    let w ← w.reserve block bytes.length
    .ok { w with zone := { w.zone with body := w.zone.body ++ bytes } }

def exec : Op → Except String Writer
  | .align block alignment => w.align block alignment
  | .reserve block size => w.reserve block size
  | .write block bytes => w.write block bytes

end Writer

def Writer.run : Writer → List Op → Except String Writer
  | w, [] => .ok w
  | w, op :: ops => do Writer.run (← w.exec op) ops

/-! ## Assets -/

/-- The supported pools. -/
inductive AssetType where
  | rawfile | luafile | ttf | localize | scriptfile | netconststrings | soundbanklist | stringtable
  deriving DecidableEq, Repr

def ascii (s : String) : Data := s.toList.map fun c => UInt8.ofNat c.toNat

def AssetType.name : AssetType → Data
  | .rawfile => ascii "rawfile"
  | .luafile => ascii "luafile"
  | .ttf => ascii "ttf"
  | .localize => ascii "localize"
  | .scriptfile => ascii "scriptfile"
  | .netconststrings => ascii "netconststrings"
  | .soundbanklist => ascii "soundbanklist"
  | .stringtable => ascii "stringtable"

def supported : List AssetType :=
  [.rawfile, .luafile, .ttf, .localize, .scriptfile, .netconststrings, .soundbanklist, .stringtable]

/-- A pool of the profile. -/
structure Pool where
  name : Data
  id : Nat
  size : Nat

structure Profile where
  id : String
  pools : List Pool

/-- An asset that passed the first loop. -/
structure Asset where
  json : Json
  pool : Pool
  type : AssetType
  name : Data

/-- One turn of the first loop. -/
def checkAsset (profile : Profile) (names : List (Nat × Data)) (a : Json) :
    Except String Asset := do
  let name ← string (← a.get "name")
  if name = [] ∨ name.head? = some 0x2c then .error "Concrete asset name required"
  else do
    let type ← (← a.get "pool").text
    match profile.pools.find? fun p => p.name = type, supported.find? fun t => t.name = type with
    | some pool, some t =>
      if (pool.id, name) ∈ names then .error "Duplicate zone asset" else .ok ⟨a, pool, t, name⟩
    | _, _ => .error "No Replay linker for asset pool"

/-- The first loop. -/
def checkAssets (profile : Profile) : List (Nat × Data) → List Json → Except String (List Asset)
  | _, [] => .ok []
  | names, a :: as => do
    let asset ← checkAsset profile names a
    let rest ← checkAssets profile ((asset.pool.id, asset.name) :: names) as
    .ok (asset :: rest)

/-- The records of an asset. -/
structure Parts where
  header : Data
  data : Data
  bytecode : Data
  indices : Data
  hashes : Data
  strings : List Data

def Parts.ofHeader (header : Data) : Parts := ⟨header, [], [], [], [], []⟩

/-- Fields of a header. -/
def putAll (header : Data) : List (Nat × Data) → Except String Data
  | [] => .ok header
  | (pos, value) :: fields => do putAll (← put header pos value) fields

/-- A pointer to what is written next, unless it is empty. -/
def pointer {α : Type} (xs : List α) : Data := leBytes 8 (if xs.isEmpty then 0 else follows)

/-! ### String tables -/

/-- The dictionary with its strings, and the cell indices. -/
structure TableState where
  dict : List (Data × Nat)
  strings : List Data
  indices : Data

/-- One cell, at `row` and `col` of a table with `rows` rows. -/
def linkCell (rows row col : Nat) (s : TableState) (cell : Json) : Except String TableState := do
  let text ← string cell
  let (index, s) := match s.dict.lookup text with
    | some index => (index, s)
    | none =>
      let index := s.strings.length % 2 ^ 16
      (index, { s with dict := (text, index) :: s.dict, strings := s.strings ++ [text] })
  .ok { s with indices := ← put s.indices ((col * rows + row) * 2) (leBytes 2 index) }

def linkCells (rows row : Nat) : Nat → TableState → List Json → Except String TableState
  | _, s, [] => .ok s
  | col, s, cell :: cells => do
    linkCells rows row (col + 1) (← linkCell rows row col s cell) cells

def linkRows (rows cols : Nat) : Nat → TableState → List Json → Except String TableState
  | _, s, [] => .ok s
  | row, s, .array cells :: rest =>
    if cells.length ≠ cols then .error "Ragged stringtable"
    else do linkRows rows cols (row + 1) (← linkCells rows row 0 s cells) rest
  | _, _, _ :: _ => .error "Ragged stringtable"

/-- The hash of each string: its own, or the supplied one. -/
def linkHashes (supplied : Json) (strings : List Data) : Except String Data :=
  match supplied with
  | .null => .ok (strings.flatMap fun s => leBytes 4 (cellHash s))
  | .array hashes =>
    if hashes.length ≠ strings.length then
      .error "Stringtable needs one hash per unique cell in first-seen row order"
    else do
      let values ← hashes.mapM fun h => number h uint32Max
      .ok (values.flatMap (leBytes 4))
  | _ => .error "Stringtable needs one hash per unique cell in first-seen row order"

def prepareStringtable (a : Json) (header : Data) : Except String Parts := do
  match ← a.get "rows" with
  | .array rows =>
    if rows.length > 65535 then .error "Invalid stringtable rows"
    else do
      let cols := match rows with
        | [] => 0
        | row :: _ => row.size
      if cols > 65535 ∨ rows.length * cols > 65535 then .error "Stringtable exceeds cell budget"
      else do
        let s ← linkRows rows.length cols 0
          ⟨[], [], List.replicate (rows.length * cols * 2) 0⟩ rows
        let hashes ← linkHashes (← a.value "hashes" .null) s.strings
        let header ← putAll header [(8, leBytes 4 cols), (12, leBytes 4 rows.length),
          (16, leBytes 4 s.strings.length)]
        let header ← putAll header (if s.indices.isEmpty then []
          else [(24, leBytes 8 follows), (32, leBytes 8 follows), (40, leBytes 8 follows)])
        .ok ⟨header, [], [], s.indices, hashes, s.strings⟩
  | _ => .error "Invalid stringtable rows"

/-! ### Records -/

/-- The branches of the second loop that fill the records. -/
def prepare (deflate : Data → Except String Data) (limit : Nat) (asset : Asset) :
    Except String Parts := do
  let a := asset.json
  let header ← put (List.replicate asset.pool.size 0) 0 (leBytes 8 follows)
  match asset.type with
  | .rawfile =>
    let raw ← bytes a "data" limit
    let data ← deflate raw
    let header ← putAll header [(8, leBytes 4 data.length), (12, leBytes 4 raw.length),
      (16, leBytes 8 follows)]
    .ok { Parts.ofHeader header with data := data }
  | .luafile =>
    let data ← bytes a "data" limit
    let header ← putAll header [(8, leBytes 4 data.length), (16, leBytes 8 follows)]
    let stripping ← number (← a.value "stripping_type" (.int 0)) 255
    let header ← put header 12 (leBytes 1 stripping)
    .ok { Parts.ofHeader header with data := data }
  | .ttf =>
    let data ← bytes a "data" limit
    let header ← putAll header [(8, leBytes 4 data.length), (16, leBytes 8 follows)]
    .ok { Parts.ofHeader header with data := data ++ [0] }
  | .localize =>
    let value ← string (← a.get "value")
    let header ← put header 8 (leBytes 8 follows)
    .ok { Parts.ofHeader header with strings := [value] }
  | .scriptfile =>
    let stack ← bytes a "stack" limit
    let data ← deflate stack
    let bytecode ← bytes a "bytecode" limit
    let header ← putAll header [(8, leBytes 4 data.length), (12, leBytes 4 stack.length),
      (16, leBytes 4 bytecode.length), (24, leBytes 8 follows), (32, pointer bytecode)]
    .ok { Parts.ofHeader header with data := data, bytecode := bytecode }
  | .netconststrings =>
    match ← a.get "strings" with
    | .array entries =>
      if entries.length > 65535 then .error "Invalid netconststrings count"
      else do
        let strings ← entries.mapM string
        let stringType ← number (← a.get "string_type") uint32Max
        let sourceType ← number (← a.get "source_type") uint32Max
        let flags ← number (← a.value "flags" (.int 0)) uint32Max
        let header ← putAll header [(8, leBytes 4 stringType), (12, leBytes 4 sourceType),
          (16, leBytes 4 flags), (20, leBytes 4 strings.length), (24, pointer strings)]
        .ok { Parts.ofHeader header with strings := strings }
    | _ => .error "Invalid netconststrings count"
  | .soundbanklist =>
    match ← a.get "hashes" with
    | .array entries =>
      if entries.length > 65535 then .error "Invalid sound bank count"
      else do
        let hashes ← entries.mapM fun h => number h uint32Max
        let data := hashes.flatMap (leBytes 4)
        let header ← putAll header [(8, leBytes 2 entries.length), (16, pointer data)]
        .ok { Parts.ofHeader header with data := data }
    | _ => .error "Invalid sound bank count"
  | .stringtable => prepareStringtable a header

/-- The calls for the records of an asset. -/
def assetOps (asset : Asset) (p : Parts) : List Op :=
  [.align 1 8, .align 5 8, .reserve 5 8, .write 1 p.header, .text 5 asset.name] ++
    match asset.type with
    | .localize => p.strings.head?.toList.map (.text 5)
    | .netconststrings | .stringtable =>
      (if p.indices.isEmpty then [] else
        [.align 5 2, .write 5 p.indices, .align 5 4, .write 5 p.hashes]) ++
      if p.strings.isEmpty then [] else
        [.align 5 8, .write 5 (p.strings.flatMap fun _ => leBytes 8 follows)] ++
          p.strings.map (.text 5)
    | .scriptfile => [.write 6 p.data, .write 6 p.bytecode]
    | .luafile => [.align 5 16, .write 5 p.data]
    | .soundbanklist => [.align 5 4, .write 5 p.data]
    | .rawfile | .ttf => [.write 5 p.data]

/-! ## Linking -/

/-- The range of an asset in the body. -/
structure AssetRange where
  pool : AssetType
  name : Data
  bodyOffset : Nat
  bodyBytes : Nat

/-- The second loop. -/
def linkAssets (deflate : Data → Except String Data) :
    Writer → List Asset → Except String (Writer × List AssetRange)
  | w, [] => .ok (w, [])
  | w, asset :: assets => do
    let parts ← prepare deflate w.limit asset
    let bodyStart := w.zone.body.length
    let w ← w.run (assetOps asset parts)
    let range : AssetRange := ⟨asset.type, asset.name, bodyStart, w.zone.body.length - bodyStart⟩
    let (w, ranges) ← linkAssets deflate w assets
    .ok (w, range :: ranges)

/-- The list of assets: a record with its length, and a table of pools. -/
def rootOps (assets : List Asset) : List Op :=
  let root := List.replicate 16 0 ++ leBytes 4 assets.length ++ List.replicate 4 0 ++ pointer assets
  let table := assets.flatMap fun a =>
    leBytes 4 (a.pool.id % 2 ^ 32) ++ List.replicate 4 0 ++ leBytes 8 insert
  [.write 0 root, .align 5 8, .write 5 table]

/-- `Link`. -/
def link (deflate : Data → Except String Data) (profile : Profile) (assets : Json)
    (limit : Nat) : Except String (Zone × List AssetRange) :=
  match assets with
  | .array items =>
    if profile.id ≠ "replay-1.20" ∨ items.length > 65535 ∨ limit > 128 * 1024 * 1024 then
      .error "Invalid Replay zone profile, asset count or budget"
    else do
      let assets ← checkAssets profile [] items
      let w ← (Writer.mk limit ⟨[], fun _ => 0⟩).run (rootOps assets)
      let (w, ranges) ← linkAssets deflate w assets
      .ok (w.zone, ranges)
  | _ => .error "Invalid Replay zone profile, asset count or budget"

end Acts.Mw19.Linker
