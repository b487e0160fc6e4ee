import Acts.Lib.Outcome
import Acts.Lib.Traversal
import Acts.Vm.Loader

/-!
# Linking scripts

* `Idle` — a machine without a current thread and without strings, its table in order.
* `createString_hangs` — such a machine never gets a string: the chains start at the arena, not at
  the invalid reference.
* `linkScript_spec` — **what a call that links has added to the table**: what the includes reach,
  each script once.
-/

set_option autoImplicit false

namespace Acts.Vm.Loader

/-- The scripts of the table. -/
def ActsVm.scripts (s : ActsVm) : List Nat := s.linkedScripts.map (·.script)

/-- The included scripts. -/
def Config.next (cfg : Config) (p : Nat) : List Nat :=
  (cfg.script p).includes.filterMap cfg.getterFunction

/-- What linking changes. -/
def ActsVm.extend (s : ActsVm) (new : List ScriptInfo) (patches : List (Nat × Nat × Nat)) :
    ActsVm :=
  { s with linkedScripts := s.linkedScripts ++ new, patches := patches }

/-- A machine between two calls of `LoadScript`. -/
structure Idle (cfg : Config) (s : ActsVm) : Prop where
  noThread : s.currentThread = none
  alloc : s.alloc = MemoryAllocatorStatic.init 0x20000
  stringStart : ∀ i, s.stringStart i = 0
  nodup : s.scripts.Nodup
  size : s.linkedScripts.length ≤ 0x400
  magic : ∀ p ∈ s.scripts, (cfg.script p).magic = actscriptMagic
  top : s.topScripts ≤ s.linkedScripts.length

variable {cfg : Config} {link : String → LoadM LinkOutput} {s s' s'' : ActsVm}

@[simp] theorem scripts_extend (s : ActsVm) (new : List ScriptInfo)
    (patches : List (Nat × Nat × Nat)) :
    (s.extend new patches).scripts = s.scripts ++ new.map (·.script) := List.map_append

@[simp] theorem extend_extend (s : ActsVm) (new new' : List ScriptInfo)
    (patches patches' : List (Nat × Nat × Nat)) :
    (s.extend new patches).extend new' patches' = s.extend (new ++ new') patches' := by
  unfold ActsVm.extend
  simp only [List.append_assoc]

theorem extend_nil (s : ActsVm) : s.extend [] s.patches = s := by
  unfold ActsVm.extend
  rw [List.append_nil]

/-- A longer table in order. -/
theorem Idle.extend (h : Idle cfg s) {new : List ScriptInfo} {patches : List (Nat × Nat × Nat)}
    (hnodup : (s.scripts ++ new.map (·.script)).Nodup)
    (hsize : s.linkedScripts.length + new.length ≤ 0x400)
    (hmagic : ∀ info ∈ new, (cfg.script info.script).magic = actscriptMagic) :
    Idle cfg (s.extend new patches) where
  noThread := h.noThread
  alloc := h.alloc
  stringStart := h.stringStart
  nodup := by rwa [scripts_extend]
  size := by
    show (s.linkedScripts ++ new).length ≤ 0x400
    rwa [List.length_append]
  magic p hp := by
    rw [scripts_extend, List.mem_append] at hp
    rcases hp with hp | hp
    · exact h.magic p hp
    · obtain ⟨info, hinfo, rfl⟩ := List.mem_map.1 hp
      exact hmagic info hinfo
  top := by
    show s.topScripts ≤ (s.linkedScripts ++ new).length
    rw [List.length_append]
    exact Nat.le_add_right_of_le h.top

theorem Idle.patched (h : Idle cfg s) (patches : List (Nat × Nat × Nat)) :
    Idle cfg (s.extend [] patches) :=
  h.extend (by rw [List.map_nil, List.append_nil]; exact h.nodup) h.size
    (fun info hinfo => by cases hinfo)

/-! ## Strings -/

/-- The first header of the arena is no string: its hash would be the length of the arena. -/
theorem header_not_string {str : List UInt8} (hstr : 0 ∉ str) :
    ¬ ((MemoryAllocatorStatic.init 0x20000).readLE 8 8 = (hash64A str).toNat ∧
      isString (MemoryAllocatorStatic.init 0x20000) 0 str) := by
  rintro ⟨hhash, htext⟩
  have hread : (MemoryAllocatorStatic.init 0x20000).readLE 8 8 = 0x20000 := by decide +kernel
  have htextZero : MemoryAllocatorStatic.init 0x20000 24 = 0 := by decide +kernel
  cases str with
  | nil =>
    rw [hread] at hhash
    exact absurd hhash (by decide)
  | cons c str =>
    unfold isString at htext
    rw [List.cons_append, List.zipIdx_cons, List.all_cons, Bool.and_eq_true] at htext
    have hc : MemoryAllocatorStatic.init 0x20000 24 = c := by
      simpa [vmStringSize] using htext.1
    rw [htextZero] at hc
    rw [← hc] at hstr
    exact hstr List.mem_cons_self

/-- In a new arena the first entry of each chain is the header, followed by itself. -/
theorem findString_init {str : List UInt8} (hstr : 0 ∉ str) (turns : Nat) (prev : Option Nat) :
    findString (MemoryAllocatorStatic.init 0x20000) (hash64A str).toNat str turns 0 prev =
      .hang := by
  induction turns generalizing prev with
  | zero => rfl
  | succ turns ih =>
    have hnext : (MemoryAllocatorStatic.init 0x20000).readLE 16 4 = 0 := by decide +kernel
    have hinvalid : ¬ 0 = invalidStrRef := by decide
    unfold findString
    rw [if_neg hinvalid, Nat.zero_add, Nat.zero_add, if_neg (header_not_string hstr), hnext]
    exact ih _

theorem createString_hangs (h : Idle cfg s) {str : List UInt8} (hstr : 0 ∉ str) (numRefs : Nat) :
    createString str numRefs s = .error .hang s := by
  have hfind := findString_init hstr (2 ^ 32 + 1) none
  unfold createString
  dsimp only
  rw [h.alloc, h.stringStart, hfind]

/-- Only a script without strings gets through. -/
theorem linkStrings_spec (h : Idle cfg s) (script : Nat) (strings : List ScriptString) :
    Ends (linkStrings script strings) s (fun _ s' => s' = s ∧ strings = []) (· = s) := by
  cases strings with
  | nil => exact ⟨rfl, rfl⟩
  | cons str strings =>
    unfold linkStrings
    exact .of_error (bind_error (createString_hangs h str.terminated str.refs.length)) rfl

/-! ## What a link adds -/

/-- Linking has added scripts, and may have stopped in the middle. -/
def Links (cfg : Config) (s s' : ActsVm) : Prop :=
  ∃ new patches, s' = s.extend new patches ∧ Idle cfg s'

/-- Linking has added what `roots` reach; the new scripts have no strings. -/
def Adds (cfg : Config) (s s' : ActsVm) (roots : List Nat) : Prop :=
  ∃ new patches, s' = s.extend new patches ∧ Idle cfg s' ∧
    Visited cfg.next s.scripts (new.map (·.script)) roots ∧
    ∀ info ∈ new, (cfg.script info.script).strings = []

theorem Links.refl (h : Idle cfg s) : Links cfg s s := ⟨[], s.patches, (extend_nil s).symm, h⟩

theorem Links.trans (h : Links cfg s s') (h' : Links cfg s' s'') : Links cfg s s'' := by
  obtain ⟨new, patches, rfl, -⟩ := h
  obtain ⟨new', patches', rfl, hidle⟩ := h'
  rw [extend_extend] at hidle ⊢
  exact ⟨_, _, rfl, hidle⟩

theorem Adds.links {roots : List Nat} (h : Adds cfg s s' roots) : Links cfg s s' := by
  obtain ⟨new, patches, hs', hidle, -, -⟩ := h
  exact ⟨new, patches, hs', hidle⟩

theorem Links.idle (h : Links cfg s s') : Idle cfg s' := by
  obtain ⟨_, _, _, hidle⟩ := h
  exact hidle

theorem Adds.none (h : Idle cfg s) : Adds cfg s s [] :=
  ⟨[], s.patches, (extend_nil s).symm, h, .none h.nodup, fun info hinfo => by cases hinfo⟩

theorem Adds.seen (h : Idle cfg s) {p : Nat} (hp : p ∈ s.scripts) : Adds cfg s s [p] :=
  ⟨[], s.patches, (extend_nil s).symm, h, .seen h.nodup hp, fun info hinfo => by cases hinfo⟩

theorem Adds.append {roots roots' : List Nat} (h : Adds cfg s s' roots)
    (h' : Adds cfg s' s'' roots') : Adds cfg s s'' (roots ++ roots') := by
  obtain ⟨new, patches, rfl, -, hvisited, hstrings⟩ := h
  obtain ⟨new', patches', rfl, hidle, hvisited', hstrings'⟩ := h'
  rw [scripts_extend] at hvisited'
  rw [extend_extend] at hidle ⊢
  refine ⟨new ++ new', patches', rfl, hidle, ?_, ?_⟩
  · rw [List.map_append]
    exact hvisited.append hvisited'
  · intro info hinfo
    rcases List.mem_append.1 hinfo with hinfo | hinfo
    · exact hstrings info hinfo
    · exact hstrings' info hinfo

/-- References do not change the table. -/
theorem Adds.patched {roots : List Nat} (h : Adds cfg s s' roots)
    (patches : List (Nat × Nat × Nat)) : Adds cfg s (s'.extend [] patches) roots := by
  obtain ⟨new, patches', rfl, hidle, hvisited, hstrings⟩ := h
  have hidle' := hidle.patched patches
  rw [extend_extend, List.append_nil] at hidle' ⊢
  exact ⟨new, patches, rfl, hidle', hvisited, hstrings⟩

/-- What is known of `LinkScript` at the includes of a script. -/
structure LinkSpec (cfg : Config) (link : String → LoadM LinkOutput) : Prop where
  spec : ∀ name s, Idle cfg s → Ends (link name) s
    (fun out s' => Links cfg s s' ∧ ∀ output info, out = .linked output info →
      ∃ root, cfg.getterFunction name = some root ∧ Adds cfg s s' [root])
    (Links cfg s)
  seen : ∀ name s root, Idle cfg s → cfg.getterFunction name = some root → root ∈ s.scripts →
    Ends (link name) s (fun _ s' => s' = s) (· = s)

/-! ## Includes -/

theorem linkIncludes_spec (hlink : LinkSpec cfg link) (names : List String) (h : Idle cfg s) :
    Ends (linkIncludes link names) s
      (fun linked s' => Links cfg s s' ∧ (linked = true →
        Adds cfg s s' (names.filterMap cfg.getterFunction) ∧
        ∀ name ∈ names, ∃ root, cfg.getterFunction name = some root))
      (Links cfg s) := by
  induction names generalizing s with
  | nil => exact ⟨.refl h, fun _ => ⟨.none h, fun name hname => by cases hname⟩⟩
  | cons name names ih =>
    unfold linkIncludes
    refine (hlink.spec name s h).bind ?_
    rintro out s₁ ⟨hlinks, hout⟩
    have hfail : ∀ linked : Bool, linked = false → Links cfg s s₁ ∧ (linked = true →
        Adds cfg s s₁ ((name :: names).filterMap cfg.getterFunction) ∧
        ∀ name' ∈ name :: names, ∃ root, cfg.getterFunction name' = some root) := by
      rintro linked rfl
      exact ⟨hlinks, fun hfalse => by cases hfalse⟩
    cases out with
    | cantFind => exact hfail false rfl
    | errorIncludes => exact hfail false rfl
    | errorTooMany => exact hfail false rfl
    | linked output info =>
      obtain ⟨root, hroot, hadds⟩ := hout output info rfl
      refine (ih hlinks.idle).mono ?_ (fun _ => hlinks.trans)
      rintro linked s₂ ⟨hlinks', hlinked⟩
      refine ⟨hlinks.trans hlinks', fun htrue => ?_⟩
      obtain ⟨hadds', hfound⟩ := hlinked htrue
      rw [List.filterMap_cons_some hroot]
      refine ⟨hadds.append hadds', ?_⟩
      intro name' hname'
      rcases List.mem_cons.1 hname' with rfl | hname'
      · exact ⟨root, hroot⟩
      · exact hfound name' hname'

/-! ## Imports -/

/-- The files are linked. -/
def AllSeen (cfg : Config) (s : ActsVm) (files : List String) : Prop :=
  ∀ file ∈ files, ∃ root, cfg.getterFunction file = some root ∧ root ∈ s.scripts

theorem findScriptFunction_spec (hlink : LinkSpec cfg link) (h : Idle cfg s) {file : String}
    {root : Nat} (hroot : cfg.getterFunction file = some root) (hmem : root ∈ s.scripts)
    (nameSpace name : UInt64) :
    Ends (findScriptFunction cfg link file nameSpace name) s (fun _ s' => s' = s) (· = s) := by
  unfold findScriptFunction
  refine (hlink.seen file s root h hroot hmem).bind ?_
  rintro out s' rfl
  cases out with
  | cantFind => rfl
  | errorIncludes => rfl
  | errorTooMany => rfl
  | linked output info =>
    apply Ends.get
    split
    · rfl
    · split <;> rfl

theorem findInIncludes_spec (hlink : LinkSpec cfg link) (h : Idle cfg s) {files : List String}
    (hseen : AllSeen cfg s files) (nameSpace name : UInt64) :
    Ends (findInIncludes cfg link nameSpace name files) s (fun _ s' => s' = s) (· = s) := by
  induction files with
  | nil => rfl
  | cons file files ih =>
    obtain ⟨root, hroot, hmem⟩ := hseen file List.mem_cons_self
    unfold findInIncludes
    refine (findScriptFunction_spec hlink h hroot hmem nameSpace name).bind ?_
    rintro ref s' rfl
    split
    · rfl
    · exact ih fun file' hfile' => hseen file' (List.mem_cons_of_mem _ hfile')

theorem getScriptExport_spec (hlink : LinkSpec cfg link) (h : Idle cfg s) {origin : ActScript}
    (hseen : AllSeen cfg s origin.includes) (info : Nat) (nameSpace name : UInt64) :
    Ends (getScriptExport cfg link info origin nameSpace name) s (fun _ s' => s' = s) (· = s) := by
  unfold getScriptExport
  split
  · split
    · rfl
    · exact findInIncludes_spec hlink h hseen nameSpace name
  · exact findInIncludes_spec hlink h hseen nameSpace name

/-- The references of a found item, or an exception. -/
theorem patchOr_spec (script : Nat) (refs : List Nat) (value : Nat) (bad : Prop) [Decidable bad]
    (fault : Fault) (s : ActsVm) :
    Ends (if bad then throw fault else patch script refs value) s
      (fun _ s' => ∃ patches, s' = s.extend [] patches) (· = s) := by
  split
  · rfl
  · refine ⟨s.patches ++ refs.map fun ref => (script, ref, value), ?_⟩
    unfold ActsVm.extend
    rw [List.append_nil]

theorem linkImport_spec (hlink : LinkSpec cfg link) (h : Idle cfg s) {script : Nat}
    (hseen : AllSeen cfg s (cfg.script script).includes) (info : Nat) (imp : ScriptImport) :
    Ends (linkImport cfg link info script imp) s
      (fun _ s' => ∃ patches, s' = s.extend [] patches) (· = s) := by
  unfold linkImport
  dsimp only
  cases importKind imp.flags with
  | function =>
    refine (getScriptExport_spec hlink h hseen info imp.nameSpace imp.name).bind ?_
    rintro ref s' rfl
    exact patchOr_spec _ _ _ _ _ _
  | getBuiltin =>
    apply Ends.get
    exact patchOr_spec _ _ _ _ _ _
  | functionBuiltin => exact patchOr_spec _ _ _ _ _ _
  | methodBuiltin =>
    apply Ends.get
    exact patchOr_spec _ _ _ _ _ _
  | bad => rfl

theorem linkImports_spec (hlink : LinkSpec cfg link) (h : Idle cfg s) {script : Nat}
    (hseen : AllSeen cfg s (cfg.script script).includes) (info : Nat)
    (imports : List ScriptImport) :
    Ends (linkImports cfg link info script imports) s
      (fun _ s' => ∃ patches, s' = s.extend [] patches)
      (fun s' => ∃ patches, s' = s.extend [] patches) := by
  induction imports generalizing s with
  | nil => exact ⟨s.patches, (extend_nil s).symm⟩
  | cons imp imports ih =>
    unfold linkImports
    have himp : Ends (linkImport cfg link info script imp) s
        (fun _ s' => ∃ patches, s' = s.extend [] patches)
        (fun s' => ∃ patches, s' = s.extend [] patches) :=
      (linkImport_spec hlink h hseen info imp).mono (fun _ _ h => h)
        fun s' hs' => ⟨s.patches, hs'.trans (extend_nil s).symm⟩
    refine himp.bind ?_
    rintro _ s₁ ⟨patches, rfl⟩
    have hseen' : AllSeen cfg (s.extend [] patches) (cfg.script script).includes := by
      intro file hfile
      obtain ⟨root, hroot, hmem⟩ := hseen file hfile
      exact ⟨root, hroot, by simpa using hmem⟩
    refine (ih (h.patched patches) hseen').mono ?_ ?_
    · rintro _ s₂ ⟨patches', rfl⟩
      exact ⟨patches', by rw [extend_extend]; rfl⟩
    · rintro s₂ ⟨patches', rfl⟩
      exact ⟨patches', by rw [extend_extend]; rfl⟩

/-! ## Scripts -/

/-- From the entry in the table on. -/
theorem linkEntry_spec (hlink : LinkSpec cfg link) (h : Idle cfg s) (info script : Nat) :
    Ends (linkEntry cfg link info script) s
      (fun out s' => Links cfg s s' ∧ ∀ output i, out = .linked output i →
        Adds cfg s s' (cfg.next script) ∧ (cfg.script script).strings = [])
      (Links cfg s) := by
  unfold linkEntry
  refine (linkIncludes_spec hlink (cfg.script script).includes h).bind ?_
  rintro linked s₁ ⟨hlinks, hlinked⟩
  split
  · rename_i htrue
    obtain ⟨hadds, hfound⟩ := hlinked htrue
    have hidle := hlinks.idle
    have hseen : AllSeen cfg s₁ (cfg.script script).includes := by
      intro file hfile
      obtain ⟨root, hroot⟩ := hfound file hfile
      obtain ⟨new, patches, rfl, -, hvisited, -⟩ := hadds
      refine ⟨root, hroot, ?_⟩
      rw [scripts_extend]
      exact hvisited.entered root (List.mem_filterMap.2 ⟨file, hfile, hroot⟩)
    refine ((linkStrings_spec hidle script (cfg.script script).strings).mono (fun _ _ h => h)
      (fun s₂ hs₂ => hs₂ ▸ hlinks)).bind ?_
    rintro _ s₂ ⟨rfl, hstrings⟩
    have himports : Ends (linkImports cfg link info script (cfg.script script).imports) s₂
        (fun _ s' => ∃ patches, s' = s₂.extend [] patches) (Links cfg s) := by
      refine (linkImports_spec hlink hidle hseen info _).mono (fun _ _ h => h) ?_
      rintro s₃ ⟨patches, rfl⟩
      exact (hadds.patched patches).links
    refine himports.bind ?_
    rintro _ s₃ ⟨patches, rfl⟩
    exact ⟨(hadds.patched patches).links, fun _ _ _ => ⟨hadds.patched patches, hstrings⟩⟩
  · exact ⟨hlinks, fun output i hout => by cases hout⟩

theorem findIdx_script {p i : Nat} (h : s.linkedScripts.findIdx? (·.script == p) = some i) :
    s.scripts[i]? = some p := by
  obtain ⟨hi, hp, -⟩ := List.findIdx?_eq_some_iff_getElem.1 h
  unfold ActsVm.scripts
  rw [List.getElem?_map, List.getElem?_eq_getElem hi]
  exact congrArg some (by simpa using hp)

theorem findIdx_none {p : Nat} (h : s.linkedScripts.findIdx? (·.script == p) = none) :
    p ∉ s.scripts := by
  intro hp
  obtain ⟨info, hinfo, rfl⟩ := List.mem_map.1 hp
  have := List.findIdx?_eq_none_iff.1 h info hinfo
  simp at this

/-- The entry of a script that is not in the table. -/
theorem Idle.enter (h : Idle cfg s) {p : Nat} (hmagic : (cfg.script p).magic = actscriptMagic)
    (hp : p ∉ s.scripts) (hsize : s.linkedScripts.length ≠ 0x400) (group : Int) :
    Idle cfg (s.extend [⟨p, group⟩] s.patches) := by
  have hle := h.size
  refine h.extend ?_ ?_ ?_
  · exact List.nodup_append.2 ⟨h.nodup, List.nodup_singleton p, by
      rintro q hq r hr rfl
      rw [List.mem_singleton.1 hr] at hq
      exact hp hq⟩
  · rw [List.length_singleton]
    omega
  · intro info hinfo
    rw [List.mem_singleton.1 hinfo]
    exact hmagic

/-- The four ways through `LinkActsScript`. -/
theorem linkActsScript_cases (cfg : Config) (link : String → LoadM LinkOutput) (script : Nat)
    (s : ActsVm) :
    ((cfg.script script).magic ≠ actscriptMagic ∧
      linkActsScript cfg link script s = .ok .cantFind s) ∨
    (∃ i, s.scripts[i]? = some script ∧
      linkActsScript cfg link script s = .ok (.linked 0 i) s) ∨
    (script ∉ s.scripts ∧ s.linkedScripts.length = 0x400 ∧
      linkActsScript cfg link script s = .ok .errorTooMany s) ∨
    ((cfg.script script).magic = actscriptMagic ∧ script ∉ s.scripts ∧
      s.linkedScripts.length ≠ 0x400 ∧
      linkActsScript cfg link script s =
        linkEntry cfg link s.linkedScripts.length script
          (s.extend [⟨script, s.linkGroup⟩] s.patches)) := by
  unfold linkActsScript
  by_cases hmagic : (cfg.script script).magic = actscriptMagic
  · rw [if_neg (not_not_intro hmagic)]
    cases hfind : s.linkedScripts.findIdx? (·.script == script) with
    | some i => exact .inr (.inl ⟨i, findIdx_script hfind, rfl⟩)
    | none =>
      have hp := findIdx_none hfind
      by_cases hsize : s.linkedScripts.length = 0x400
      · exact .inr (.inr (.inl ⟨hp, hsize, if_pos hsize⟩))
      · exact .inr (.inr (.inr ⟨hmagic, hp, hsize, if_neg hsize⟩))
  · rw [if_pos hmagic]
    exact .inl ⟨hmagic, rfl⟩

theorem linkActsScript_spec (hlink : LinkSpec cfg link) (h : Idle cfg s) (script : Nat) :
    Ends (linkActsScript cfg link script) s
      (fun out s' => Links cfg s s' ∧ ∀ output info, out = .linked output info →
        Adds cfg s s' [script])
      (Links cfg s) := by
  rcases linkActsScript_cases cfg link script s with ⟨-, hrun⟩ | ⟨i, hi, hrun⟩ | ⟨-, -, hrun⟩ |
    ⟨hmagic, hp, hsize, hrun⟩
  · exact .of_ok hrun ⟨.refl h, fun output info hout => by cases hout⟩
  · exact .of_ok hrun ⟨.refl h, fun _ _ _ => .seen h (List.mem_of_getElem? hi)⟩
  · exact .of_ok hrun ⟨.refl h, fun output info hout => by cases hout⟩
  · have hidle := h.enter hmagic hp hsize s.linkGroup
    have henter : Links cfg s (s.extend [⟨script, s.linkGroup⟩] s.patches) := ⟨_, _, rfl, hidle⟩
    have hentry : Ends (linkEntry cfg link s.linkedScripts.length script)
        (s.extend [⟨script, s.linkGroup⟩] s.patches)
        (fun out s' => Links cfg s s' ∧ ∀ output info, out = .linked output info →
          Adds cfg s s' [script]) (Links cfg s) := by
      refine (linkEntry_spec hlink hidle s.linkedScripts.length script).mono ?_
        (fun _ hlinks => henter.trans hlinks)
      rintro out s' ⟨hlinks, hout⟩
      refine ⟨henter.trans hlinks, fun output info hlinked => ?_⟩
      obtain ⟨⟨new, patches, rfl, hidle', hvisited, hstrings⟩, hempty⟩ := hout output info hlinked
      rw [scripts_extend] at hvisited
      rw [extend_extend] at hidle' ⊢
      refine ⟨_, _, rfl, hidle', ?_, ?_⟩
      · rw [List.map_append]
        exact hvisited.enter hp
      · intro info' hinfo
        rcases List.mem_append.1 hinfo with hinfo | hinfo
        · rw [List.mem_singleton.1 hinfo]
          exact hempty
        · exact hstrings info' hinfo
    unfold Ends at hentry ⊢
    rw [hrun]
    exact hentry

/-- **What linking adds**, at any depth. -/
theorem linkScript_spec (cfg : Config) (depth : Nat) : LinkSpec cfg (linkScript cfg depth) := by
  induction depth with
  | zero => exact ⟨fun name s h => .refl h, fun name s root h hroot hmem => rfl⟩
  | succ depth ih =>
    constructor
    · intro name s h
      unfold linkScript getActsScript
      cases hroot : cfg.getterFunction name with
      | none => exact Links.refl h
      | some root =>
        refine (linkActsScript_spec ih h root).mono ?_ (fun _ hlinks => hlinks)
        rintro out s' ⟨hlinks, hout⟩
        exact ⟨hlinks, fun output info hlinked => ⟨root, rfl, hout output info hlinked⟩⟩
    · intro name s root h hroot hmem
      unfold linkScript getActsScript
      rw [hroot]
      rcases linkActsScript_cases cfg (linkScript cfg depth) root s with ⟨-, hrun⟩ |
        ⟨i, -, hrun⟩ | ⟨hp, -, -⟩ | ⟨-, hp, -, -⟩
      · exact .of_ok hrun rfl
      · exact .of_ok hrun rfl
      · exact absurd hmem hp
      · exact absurd hmem hp

end Acts.Vm.Loader
