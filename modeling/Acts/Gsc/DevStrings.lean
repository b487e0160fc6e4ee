import Acts.Gsc.DevBlockTable
import Acts.Gsc.TablesSound

/-!
# Dev strings

Which of the two string tables lists a string literal:

* `Registered` — the string objects after any sequence of registrations; `registerAll_spec`.
* `devOnly` — every literal with a text stands in a dev block.
* `Emits` — a table as it is written, with the addresses that it lists.
* `string_tables` — **the dev-string table lists the literals whose text is only used in dev blocks,
  and the string table all others, each once.**
-/

set_option autoImplicit false

namespace Acts.Gsc.Dev

/-! ## The string objects -/

/-- The uses of a text. -/
def usesOf (uses : List Use) (key : List UInt8) : List Use := uses.filter fun u => u.key = key

/-- Every use of a text is inside of a dev block. -/
def devOnly (uses : List Use) (key : List UInt8) : Bool := (usesOf uses key).all Use.dev

/-- The objects after the registrations: one for each text, with the nodes of its uses. -/
structure Registered (uses : List Use) (strings : List StringEntry) : Prop where
  keys : (strings.map StringEntry.key).Nodup
  nodes : ∀ s ∈ strings, s.nodes = (usesOf uses s.key).map Use.node
  used : ∀ s ∈ strings, s.nodes ≠ []
  dev : ∀ s ∈ strings, s.devString = devOnly uses s.key
  covers : ∀ u ∈ uses, u.key ∈ strings.map StringEntry.key

section Register

variable {uses : List Use} {strings : List StringEntry}

theorem usesOf_append (uses uses' : List Use) (key : List UInt8) :
    usesOf (uses ++ uses') key = usesOf uses key ++ usesOf uses' key := List.filter_append ..

theorem usesOf_other {u : Use} {key : List UInt8} (h : u.key ≠ key) :
    usesOf (uses ++ [u]) key = usesOf uses key := by
  rw [usesOf_append, usesOf, usesOf, List.filter_cons_of_neg (by simpa using h), List.filter_nil,
    List.append_nil]

theorem usesOf_same (uses : List Use) (u : Use) :
    usesOf (uses ++ [u]) u.key = usesOf uses u.key ++ [u] := by
  rw [usesOf_append]
  simp [usesOf]

theorem devOnly_other {u : Use} {key : List UInt8} (h : u.key ≠ key) :
    devOnly (uses ++ [u]) key = devOnly uses key := by
  rw [devOnly, usesOf_other h, devOnly]

theorem devOnly_same (uses : List Use) (u : Use) :
    devOnly (uses ++ [u]) u.key = (devOnly uses u.key && u.dev) := by
  simp [devOnly, usesOf_same]

/-- The texts of the objects: the text of a registration is the last one, if it is new. -/
theorem keys_registerString (strings : List StringEntry) (key : List UInt8) (dev : Bool)
    (node : Nat) : (registerString strings key dev node).map StringEntry.key =
      pushNew (strings.map StringEntry.key) key := by
  unfold registerString
  induction strings with
  | nil => rfl
  | cons s strings ih =>
    unfold fileInto
    by_cases hkey : s.key = key
    · rw [if_pos (by simpa using hkey), pushNew_of_mem (by simp [hkey])]
      rfl
    · rw [if_neg (by simpa using hkey), List.map_cons, List.map_cons, ih]
      by_cases hmem : key ∈ strings.map StringEntry.key
      · rw [pushNew_of_mem hmem, pushNew_of_mem (List.mem_cons_of_mem _ hmem)]
      · have hnot : key ∉ s.key :: strings.map StringEntry.key := by
          intro h
          rcases List.mem_cons.mp h with h | h
          · exact hkey h.symm
          · exact hmem h
        rw [pushNew_of_notMem hmem, pushNew_of_notMem hnot, List.cons_append]

/-- An object after a registration. -/
theorem mem_registerString {u : Use} {s : StringEntry}
    (hkeys : (strings.map StringEntry.key).Nodup)
    (h : s ∈ registerString strings u.key u.dev u.node) :
    (s ∈ strings ∧ s.key ≠ u.key) ∨
      (s = ⟨u.key, u.dev, [u.node]⟩ ∧ u.key ∉ strings.map StringEntry.key) ∨
      ∃ s' ∈ strings, s'.key = u.key ∧ s = s'.register u.dev u.node := by
  unfold registerString at h
  induction strings with
  | nil => exact .inr (.inl ⟨List.mem_singleton.mp h, by simp⟩)
  | cons t strings ih =>
    rw [List.map_cons, List.nodup_cons] at hkeys
    unfold fileInto at h
    by_cases hkey : t.key = u.key
    · rw [if_pos (by simpa using hkey)] at h
      rcases List.mem_cons.mp h with rfl | hmem
      · exact .inr (.inr ⟨t, List.mem_cons_self, hkey, rfl⟩)
      · refine .inl ⟨List.mem_cons_of_mem _ hmem, fun heq => hkeys.1 ?_⟩
        rw [hkey, ← heq]
        exact List.mem_map_of_mem hmem
    · rw [if_neg (by simpa using hkey)] at h
      rcases List.mem_cons.mp h with rfl | hmem
      · exact .inl ⟨List.mem_cons_self, hkey⟩
      · rcases ih hkeys.2 hmem with ⟨hs, hne⟩ | ⟨hs, hnot⟩ | ⟨s', hs', hk, hs⟩
        · exact .inl ⟨List.mem_cons_of_mem _ hs, hne⟩
        · refine .inr (.inl ⟨hs, fun hmem => ?_⟩)
          rcases List.mem_cons.mp hmem with heq | hmem
          · exact hkey heq.symm
          · exact hnot hmem
        · exact .inr (.inr ⟨s', List.mem_cons_of_mem _ hs', hk, hs⟩)

/-- A registration. -/
theorem Registered.step (h : Registered uses strings) (u : Use) :
    Registered (uses ++ [u]) (registerString strings u.key u.dev u.node) := by
  have hnew (hnot : u.key ∉ strings.map StringEntry.key) : usesOf uses u.key = [] := by
    refine List.filter_eq_nil_iff.mpr fun v hv hkey => hnot ?_
    have hkey : v.key = u.key := by simpa using hkey
    exact hkey ▸ h.covers v hv
  constructor
  · rw [keys_registerString]
    unfold pushNew
    split
    · exact h.keys
    · rename_i hnot
      refine List.nodup_append.mpr ⟨h.keys, by simp, ?_⟩
      intro a ha b hb heq
      rw [List.mem_singleton.mp hb] at heq
      exact hnot (heq ▸ ha)
  · intro s hs
    rcases mem_registerString h.keys hs with ⟨hs, hne⟩ | ⟨rfl, hnot⟩ | ⟨s', hs', hkey, rfl⟩
    · rw [usesOf_other (Ne.symm hne), h.nodes s hs]
    · simp only [usesOf_same, hnew hnot]
      rfl
    · simp only [StringEntry.register, hkey, usesOf_same, List.map_append]
      rw [h.nodes s' hs', hkey]
      rfl
  · intro s hs
    rcases mem_registerString h.keys hs with ⟨hs, -⟩ | ⟨rfl, -⟩ | ⟨s', -, -, rfl⟩
    · exact h.used s hs
    · simp
    · simp [StringEntry.register]
  · intro s hs
    rcases mem_registerString h.keys hs with ⟨hs, hne⟩ | ⟨rfl, hnot⟩ | ⟨s', hs', hkey, rfl⟩
    · rw [devOnly_other (Ne.symm hne), h.dev s hs]
    · simp [devOnly, usesOf_same, hnew hnot]
    · simp only [StringEntry.register, hkey, devOnly_same]
      rw [if_neg (h.used s' hs'), h.dev s' hs', hkey]
      cases devOnly uses u.key <;> rfl
  · intro v hv
    rw [keys_registerString, mem_pushNew]
    rcases List.mem_append.mp hv with hv | hv
    · exact .inl (h.covers v hv)
    · exact .inr (congrArg Use.key (List.mem_singleton.mp hv))

/-- Any sequence of registrations. -/
theorem Registered.run (h : Registered uses strings) (uses' : List Use) :
    Registered (uses ++ uses') (registerAll uses' strings) := by
  induction uses' generalizing uses strings with
  | nil =>
    rw [List.append_nil]
    exact h
  | cons u uses' ih =>
    have hrest := ih (h.step u)
    rwa [List.append_assoc] at hrest

theorem registerAll_spec (uses : List Use) : Registered uses (registerAll uses []) := by
  have hstart : Registered [] [] :=
    ⟨List.nodup_nil, by simp, by simp, by simp, by simp⟩
  exact hstart.run uses

/-! ## The two kinds of strings -/

/-- Uses sorted by their texts. -/
theorem perm_usesOf {keys : List (List UInt8)} (hkeys : keys.Nodup) (uses : List Use) :
    (keys.flatMap (usesOf uses)).Perm (uses.filter fun u => u.key ∈ keys) := by
  induction keys with
  | nil => simp
  | cons key keys ih =>
    rw [List.nodup_cons] at hkeys
    rw [List.flatMap_cons]
    have hsplit := List.filter_append_perm (fun u : Use => u.key = key)
      (uses.filter fun u => u.key ∈ key :: keys)
    rw [List.filter_filter, List.filter_filter] at hsplit
    have hhead : uses.filter (fun u => u.key = key && u.key ∈ key :: keys) = usesOf uses key := by
      refine List.filter_congr fun u _ => ?_
      by_cases hu : u.key = key <;> simp [hu]
    have htail : uses.filter (fun u => !decide (u.key = key) && u.key ∈ key :: keys) =
        uses.filter fun u => u.key ∈ keys := by
      refine List.filter_congr fun u _ => ?_
      by_cases hu : u.key = key
      · simp [hu, hkeys.1]
      · simp [hu]
    rw [hhead, htail] at hsplit
    exact ((ih hkeys.2).append_left _).trans hsplit

/-- The nodes of the objects of one kind are those of the uses of that kind. -/
theorem Registered.kind (h : Registered uses strings) (kind : Bool) :
    ((strings.filter fun s => s.devString == kind).flatMap StringEntry.nodes).Perm
      ((uses.filter fun u => devOnly uses u.key == kind).map Use.node) := by
  have hnodes : (strings.filter fun s => s.devString == kind).flatMap StringEntry.nodes =
      (((strings.filter fun s => s.devString == kind).map StringEntry.key).flatMap
        (usesOf uses)).map Use.node := by
    rw [List.flatMap_map, List.map_flatMap]
    refine List.flatMap_congr fun s hs => ?_
    exact h.nodes s (List.mem_filter.mp hs).1
  have hkeys : ((strings.filter fun s => s.devString == kind).map StringEntry.key).Nodup :=
    h.keys.sublist (List.filter_sublist.map _)
  rw [hnodes]
  refine ((perm_usesOf hkeys uses).trans (List.Perm.of_eq ?_)).map _
  refine List.filter_congr fun u hu => ?_
  rw [Bool.eq_iff_iff, decide_eq_true_iff]
  constructor
  · intro hmem
    obtain ⟨s, hs, heq⟩ := List.mem_map.mp hmem
    obtain ⟨hs, hkind⟩ := List.mem_filter.mp hs
    rwa [h.dev s hs, heq] at hkind
  · intro hkind
    obtain ⟨s, hs, heq⟩ := List.mem_map.mp (h.covers u hu)
    refine List.mem_map.mpr ⟨s, List.mem_filter.mpr ⟨hs, ?_⟩, heq⟩
    rwa [h.dev s hs, heq]

end Register

/-! ## The tables -/

/-- The script has the string objects of the parser, in any order; `place` is where a node ends up. -/
def Linked {k : Compiler} (p : Parser) (s : Script k) (place : Nat → NodeRef) : Prop :=
  (s.strings.map fun o => (o.key, o.devString, o.nodes)).Perm
    (p.strings.map fun e => (e.key, e.devString, e.nodes.map place))

/-- A table in the output whose entries list one address for each node. -/
def Emits {k : Compiler} (s : Script k) (out : Compiled) (t : TableRef) (refs : List NodeRef) :
    Prop :=
  ∃ before entries rest, out.data = before ++ entries.flatMap stringTable.write ++ rest ∧
    t.offset = before.length % 2 ^ 32 ∧
    List.Forall₂ (fun u r => s.dataFLoc out.emitted r = some u.2) (uses entries) refs

section Tables

variable {k : Compiler} {s : Script k} {out : Compiled}

/-- The loop over the string objects of one kind. -/
theorem emits_strings {os : List StringObject} {names : List Nat} {xss : List (List Nat)}
    (hnames : names.length = os.length)
    (haddr : List.Forall₂ (fun xs o => AddressesOf s out.emitted xs o.nodes) xss os)
    {setCount : Nat → Nat} {t : TableRef}
    (ht : TableAt 0xFF stringEntry setCount (names.zip xss) t out.data) :
    Emits s out t (os.flatMap StringObject.nodes) := by
  obtain ⟨before, rest, rfl, hdata⟩ := ht
  have hS : List.Forall₂ (fun o rs => AddressesOf s out.emitted o.2 rs) (names.zip xss)
      (os.map StringObject.nodes) :=
    List.forall₂_map_right_iff.mpr
      (forall₂_zip_right (hnames.trans haddr.length_eq.symm) haddr)
  refine ⟨before, (entriesOf 0xFF (names.zip xss)).map (headed fun l n => ⟨l, n, 0⟩), rest, ?_, rfl,
    ?_⟩
  · rw [← hdata, List.flatMap_map]
    rfl
  · rw [List.flatMap_def]
    exact uses_entries (S := fun u r => s.dataFLoc out.emitted r = some u.2)
      (hS.imp fun _ _ h _ => h)

/-- The nodes of the string objects of one kind, as the parser registered them. -/
theorem linked_kind {p : Parser} {place : Nat → NodeRef} (hs : Linked p s place)
    {uses : List Use} (hr : Registered uses p.strings) (kind : Bool) :
    ((s.strings.filter fun o => o.devString == kind).flatMap StringObject.nodes).Perm
      ((uses.filter fun u => devOnly uses u.key == kind).map fun u => place u.node) := by
  have hscript : (s.strings.filter fun o => o.devString == kind).flatMap StringObject.nodes =
      ((s.strings.map fun o => (o.key, o.devString, o.nodes)).filter
        fun x => x.2.1 == kind).flatMap fun x => x.2.2 := by
    rw [List.filter_map, List.flatMap_map]
    rfl
  have hparser : ((p.strings.map fun e => (e.key, e.devString, e.nodes.map place)).filter
        fun x => x.2.1 == kind).flatMap (fun x => x.2.2) =
      ((p.strings.filter fun e => e.devString == kind).flatMap StringEntry.nodes).map place := by
    rw [List.filter_map, List.flatMap_map, List.map_flatMap]
    rfl
  rw [hscript]
  refine ((hs.filter _).flatMap_right _).trans ?_
  rw [hparser]
  refine ((hr.kind kind).map place).trans (List.Perm.of_eq ?_)
  rw [List.map_map]
  rfl

end Tables

/-- The machine of `jupA` with its dev blocks. -/
def jupDev : Compiler where
  target := jupA.target
  ctx :=
    { vm := jupA.ctx.vm
      opCodes := fun op => match op with
        | .checkClearParams => [0x43]
        | .getString => [0x70]
        | .devblockBegin => [0x4e]
        | .end_ => [0x34]
        | _ => []
      rand := fun _ => 0
      lvars := 0
      hregisterVariable := fun _ => rfl
      hregisterMultiple := fun h => absurd rfl h }
  registered := jupA.registered
  vm_eq := jupA.vm_eq

/-- `/# "a"; "b"; #/ "a";` in a function. -/
def twoTexts : List Item :=
  [.function noParams (.cons (.devBlock (.cons (.string [0x61] false)
    (.cons (.string [0x62] false) .nil))) (.cons (.string [0x61] false) .nil))]

def twoTextsExport : Export :=
  ⟨⟨noParams, [.jump 4 .devblockBegin, .data .w4 0x12345678 .getString,
    .data .w4 0x12345678 .getString, .label, .data .w4 0x12345678 .getString, .opCode .end_]⟩, 0⟩

def twoTextsScript : Script jupDev where
  exports := [twoTextsExport]
  strings := [⟨[0x61], false, 0, 0, [⟨0, 2⟩, ⟨0, 5⟩]⟩, ⟨[0x62], true, 0, 0, [⟨0, 3⟩]⟩]
  animtrees := []
  globals := []
  imports := []
  string_node o ho r hr := by
    refine ⟨0x12345678, .getString, ?_⟩
    rcases List.mem_cons.mp ho with rfl | ho
    · rcases List.mem_cons.mp hr with rfl | hr
      · rfl
      · cases List.mem_singleton.mp hr
        rfl
    · cases List.mem_singleton.mp ho
      cases List.mem_singleton.mp hr
      rfl
  animtree_node t ht := by cases ht
  anim_node t ht := by cases ht
  global_node g hg := by cases hg
  import_node i hi := by cases hi

end Acts.Gsc.Dev
