import Acts.Gsc.AsmJump
import Acts.Gsc.DevParser

/-!
# The dev-block table

The table of the debug file against the `DevblockBegin` nodes of the exports:

* `compileParser`, `layout` — the parsed script and the locations of its nodes.
* `devBlockTable`, `devblockBegins` — what the table lists and what it should list.
* `dev_blocks_listed_iff` — **they are the same exactly when no dev call is inlined.**
-/

set_option autoImplicit false

namespace Acts.Gsc.Dev

/-! ## Compilation -/

/-- The parser and the function of the checksum, for the handlers with `GOHF_NOTIFY_CRC_STRING`. -/
def compileParser (cfg : Config) (notifyCrc : Option (List UInt8)) (items : List Item) :
    Option Parser :=
  (parseProg cfg items).map fun p =>
    match notifyCrc with
    | none => p
    | some crcStr => addNotifyCrc crcStr p

/-- `ComputeRelativeLocations` of every export; `starts` are the places of the exports. -/
def layout (c : Ctx) (starts : Nat → Nat) : Nat → List (List Placed) → Option (List (Placed × Loc))
  | _, [] => some []
  | i, nodes :: exports => do
    let locs ← computeRelativeLocations c (starts i) (nodes.map Placed.node)
    let rest ← layout c starts (i + 1) exports
    some (nodes.zip locs ++ rest)

/-- `floc` of a node; it stays 0 for a node outside of the exports. -/
def floc (placed : List (Placed × Loc)) (id : Nat) : Nat :=
  ((placed.find? fun x => x.1.id == id).map fun x => x.2.floc).getD 0

/-- The dev blocks of the debug file. -/
def devBlockTable (placed : List (Placed × Loc)) (p : Parser) : List Nat :=
  p.devBlocks.map (floc placed)

/-- The locations of the `DevblockBegin` instructions. -/
def devblockBegins (placed : List (Placed × Loc)) : List Nat :=
  (placed.filter fun x => isDevblockBegin x.1.node).map fun x => x.2.floc

/-! ## The nodes of the exports -/

section Layout

variable {c : Ctx} {starts : Nat → Nat} {placed : List (Placed × Loc)}

/-- The layout places every node of the exports. -/
theorem layout_nodes {i : Nat} {exports : List (List Placed)}
    (h : layout c starts i exports = some placed) : placed.map Prod.fst = exports.flatten := by
  induction exports generalizing i placed with
  | nil =>
    cases h
    rfl
  | cons nodes exports ih =>
    obtain ⟨locs, hlocs, h⟩ := Option.bind_eq_some_iff.mp h
    obtain ⟨rest, hrest, h⟩ := Option.bind_eq_some_iff.mp h
    cases h
    have hlen := length_relativeLocations hlocs
    rw [List.length_map] at hlen
    rw [List.map_append, List.flatten_cons, ih hrest, List.map_fst_zip (by omega)]

/-- Identities that differ determine the location. -/
theorem floc_of_mem (hnodup : ((placed.map Prod.fst).map Placed.id).Nodup) {x : Placed × Loc}
    (hx : x ∈ placed) : floc placed x.1.id = x.2.floc := by
  induction placed with
  | nil => cases hx
  | cons y placed ih =>
    rw [List.map_cons, List.map_cons, List.nodup_cons] at hnodup
    unfold floc
    rcases List.mem_cons.mp hx with rfl | hx
    · simp
    · have hne : ¬y.1.id = x.1.id := by
        intro heq
        exact hnodup.1 (heq ▸ List.mem_map_of_mem (List.mem_map_of_mem hx))
      rw [List.find?_cons_of_neg (by simpa using hne)]
      exact ih hnodup.2 hx

/-- The locations of the instructions are those of their identities. -/
theorem devblockBegins_eq (hnodup : ((placed.map Prod.fst).map Placed.id).Nodup) :
    devblockBegins placed = (devNodes (placed.map Prod.fst)).map (floc placed) := by
  have hfilter : devNodes (placed.map Prod.fst) =
      (placed.filter fun x => isDevblockBegin x.1.node).map fun x => x.1.id := by
    rw [devNodes, List.filter_map, List.map_map]
    rfl
  rw [hfilter, List.map_map, devblockBegins]
  refine List.map_congr_left fun x hx => ?_
  exact (floc_of_mem hnodup (List.mem_filter.mp hx).1).symm

end Layout

/-- Between two items there is no function. -/
theorem parseItems_nodes {cfg : Config} {items : List Item} {p q : Parser}
    (h : parseItems cfg items p = some q) : q.nodes = p.nodes := by
  induction items generalizing p with
  | nil =>
    rw [parseItems, Option.some.injEq] at h
    rw [h]
  | cons item items ih =>
    cases item with
    | devClose =>
      rw [parseItems] at h
      split at h
      · have hrest := ih h
        exact hrest
      · cases h
    | devOpen =>
      have hrest := ih h
      exact hrest
    | function params body =>
      have hrest := ih h
      rw [hrest, parseCode]
      rfl
    | classDef params body =>
      have hrest := ih h
      exact hrest
    | other => exact ih h

/-- The literals of a compiled script, with the text of the checksum. -/
def scriptUses (cfg : Config) (notifyCrc : Option (List UInt8)) (items : List Item) :
    List (List UInt8 × Bool) :=
  itemUses cfg 0 items ++ notifyCrc.toList.map fun crcStr => (crcStr, false)

theorem compileParser_grows {cfg : Config} {notifyCrc : Option (List UInt8)} {items : List Item}
    {p : Parser} (h : compileParser cfg notifyCrc items = some p) :
    Grows startParser p (scriptUses cfg notifyCrc items) (itemInlined cfg 0 items) ∧
      p.nodes = [] := by
  obtain ⟨q, hq, rfl⟩ := Option.map_eq_some_iff.mp h
  have hgrows := parseProg_grows hq
  have hnodes : q.nodes = [] := by
    obtain ⟨r, hr, hq⟩ := Option.bind_eq_some_iff.mp hq
    split at hq
    · cases hq
    · rw [Option.some.injEq] at hq
      subst hq
      exact parseItems_nodes hr
  cases notifyCrc with
  | none =>
    refine ⟨?_, hnodes⟩
    rw [scriptUses, Option.toList, List.map_nil, List.append_nil]
    exact hgrows
  | some crcStr =>
    refine ⟨?_, hnodes⟩
    have hcrc := hgrows.trans (addNotifyCrc_grows crcStr q)
    rw [hgrows.inDev_eq] at hcrc
    exact hcrc

/-! ## The table -/

/-- **The table lists the `DevblockBegin` instructions, each once and nothing else, exactly when no
dev call is inlined.** -/
theorem dev_blocks_listed_iff (cfg : Config) (notifyCrc : Option (List UInt8)) (items : List Item)
    (p : Parser) (hp : compileParser cfg notifyCrc items = some p) (c : Ctx) (starts : Nat → Nat)
    (placed : List (Placed × Loc)) (hl : layout c starts 0 p.exports = some placed) :
    (devBlockTable placed p).Perm (devblockBegins placed) ↔ itemInlined cfg 0 items = 0 := by
  obtain ⟨⟨new, recorded, forgotten, uses, hadds, -, hk⟩, hnodes⟩ := compileParser_grows hp
  have hall : (placed.map Prod.fst).Perm new := by
    have hperm := hadds.nodes
    simpa [Parser.all, hnodes, startParser, layout_nodes hl] using hperm
  have hnodup : ((placed.map Prod.fst).map Placed.id).Nodup :=
    (hall.map Placed.id).nodup_iff.mpr hadds.nodup
  have htable : devBlockTable placed p = recorded.map (floc placed) := by
    rw [devBlockTable, hadds.devBlocks]
    rfl
  have hbegins : (devblockBegins placed).Perm
      (recorded.map (floc placed) ++ forgotten.map (floc placed)) := by
    rw [devblockBegins_eq hnodup, ← List.map_append]
    refine List.Perm.map _ (List.Perm.trans ?_ hadds.dev)
    exact (hall.filter _).map _
  rw [htable, ← hk]
  constructor
  · intro h
    have hlen := (h.trans hbegins).length_eq
    rw [List.length_append, List.length_map, List.length_map] at hlen
    omega
  · intro h
    rw [List.length_eq_zero_iff.mp h, List.map_nil, List.append_nil] at hbegins
    exact hbegins.symm

/-! ## An inlined call -/

/-- The machine of the Cold War scripts, and its hash of `assert`. -/
def coldWar : Ctx where
  vm := ⟨"cw37", [.opcodeU16, .align], false, false⟩
  opCodes _ := []
  rand _ := 0
  lvars := 0
  hregisterVariable h := absurd rfl h
  hregisterMultiple h := absurd rfl h

def coldWarConfig : Config := ⟨false, [0xBBDA6AF4]⟩

def noParams : LocalVariables := ⟨[], 0, false, noParams_le, noParams_lt⟩

/-- `assert()` in a function. -/
def assertCall : List Item :=
  [.function noParams (.cons (.call 0xBBDA6AF4 false
    (.cons (.node (.opCode .preScriptCall) rfl) (.cons (.node (.opCode .decTop) rfl) .nil))) .nil)]

/-- The same call inside of a dev block. -/
def assertBlock : List Item :=
  [.function noParams (.cons (.devBlock (.cons (.call 0xBBDA6AF4 false
    (.cons (.node (.opCode .preScriptCall) rfl) (.cons (.node (.opCode .decTop) rfl) .nil))) .nil))
    .nil)]

/-- The locations that the table lists and those that it should list. -/
def listed (items : List Item) : Option (List Nat × List Nat) := do
  let p ← compileParser coldWarConfig none items
  let placed ← layout coldWar (fun _ => 0x60) 0 p.exports
  some (devBlockTable placed p, devblockBegins placed)

theorem listed_some {items : List Item} {t : List Nat × List Nat} (h : listed items = some t) :
    ∃ p placed, compileParser coldWarConfig none items = some p ∧
      layout coldWar (fun _ => 0x60) 0 p.exports = some placed ∧
      devBlockTable placed p = t.1 ∧ devblockBegins placed = t.2 := by
  unfold listed at h
  obtain ⟨p, hp, h⟩ := Option.bind_eq_some_iff.mp h
  obtain ⟨placed, hplaced, h⟩ := Option.bind_eq_some_iff.mp h
  cases h
  exact ⟨p, placed, hp, hplaced, rfl, rfl⟩

/-- The dev block of an inlined call is missing. -/
theorem assertCall_missing :
    ¬ ∀ (cfg : Config) (notifyCrc : Option (List UInt8)) (items : List Item) (p : Parser),
      compileParser cfg notifyCrc items = some p → ∀ (c : Ctx) (starts : Nat → Nat)
      (placed : List (Placed × Loc)), layout c starts 0 p.exports = some placed →
      (devBlockTable placed p).Perm (devblockBegins placed) := by
  intro h
  have hlisted : listed assertCall = some ([], [0x62]) := by decide
  obtain ⟨p, placed, hp, hplaced, htable, hbegins⟩ := listed_some hlisted
  have hperm := h _ _ _ p hp _ _ placed hplaced
  rw [htable, hbegins] at hperm
  exact absurd hperm.length_eq (by decide)

theorem assertBlock_listed :
    ∃ p placed, compileParser coldWarConfig none assertBlock = some p ∧
      layout coldWar (fun _ => 0x60) 0 p.exports = some placed ∧
      (devBlockTable placed p).Perm (devblockBegins placed) := by
  have hlisted : listed assertBlock = some ([0x62], [0x62]) := by decide
  obtain ⟨p, placed, hp, hplaced, -, -⟩ := listed_some hlisted
  refine ⟨p, placed, hp, hplaced, ?_⟩
  exact (dev_blocks_listed_iff _ _ _ p hp _ _ placed hplaced).mpr (by decide)

end Acts.Gsc.Dev
