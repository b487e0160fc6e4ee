import Acts.Vm.LoaderImports

/-!
# Which scripts are loaded

* `Loads` — what `LoadScript` is for: the reached scripts are linked, each once, and the exports of
  the new ones are started, each on a free thread.
* `Linkable` — scripts that the linker accepts: their includes and imports are found, and there is
  room for them.
* `reachable_idle` — a machine is `Idle` after any number of calls.
* **`load_iff`** — the scripts for which `LoadScript` does what it is for.
-/

set_option autoImplicit false

namespace Acts.Vm.Loader

variable {cfg : Config} {opcodes : LoadM Unit} {s s' s₀ : ActsVm} {name : String}

/-! ## Purpose -/

/-- The code of the exports to start, in the order of the table. -/
def autoexecs (cfg : Config) (infos : List ScriptInfo) : List Nat :=
  infos.flatMap fun info =>
    ((cfg.script info.script).exports.filter (·.autoexec)).map (info.script + ·.address)

structure Loads (cfg : Config) (name : String) (s s' : ActsVm) : Prop where
  reached : ∃ root, cfg.getterFunction name = some root ∧
    ∀ p, p ∈ s'.scripts ↔ p ∈ s.scripts ∨ Reached cfg.next s.scripts root p
  once : s'.scripts.Nodup
  kept : ∃ new, s'.linkedScripts = s.linkedScripts ++ new
  started : ∃ starts, s'.started = s.started ++ starts ∧
    starts.map (·.codePos) = autoexecs cfg (s'.linkedScripts.drop s.topScripts) ∧
    ∀ start ∈ starts, start.thread ≠ none ∧ start.wasRunning = false

/-! ## Scripts that can be linked -/

/-- A script has a public export of that name. -/
def Exports (cfg : Config) (q : Nat) (nameSpace name : UInt64) : Prop :=
  ∃ e ∈ (cfg.script q).exports, e.isPrivate = false ∧ e.nameSpace = nameSpace ∧ e.name = name

/-- An import has something to refer to. -/
def ImportFound (cfg : Config) (s : ActsVm) (script : Nat) (imp : ScriptImport) : Prop :=
  match importKind imp.flags with
  | .function =>
    (∃ e ∈ (cfg.script script).exports, e.nameSpace = imp.nameSpace ∧ e.name = imp.name) ∨
      ∃ file ∈ (cfg.script script).includes, ∃ q, cfg.getterFunction file = some q ∧
        Exports cfg q imp.nameSpace imp.name
  | .getBuiltin => findBuiltin s imp.name ≠ badBuiltinId
  | .functionBuiltin => findBuiltinFunction imp.name ≠ badBuiltinId
  | .methodBuiltin => findBuiltinMethod s imp.name ≠ badBuiltinId
  | .bad => False

/-- The script `root` and what it includes, with or without cycles. -/
structure Linkable (cfg : Config) (s : ActsVm) (root : Nat) : Prop where
  magic : ∀ p, Reached cfg.next s.scripts root p → (cfg.script p).magic = actscriptMagic
  found : ∀ p, Reached cfg.next s.scripts root p → p ∉ s.scripts →
    ∀ file ∈ (cfg.script p).includes, ∃ q, cfg.getterFunction file = some q
  imports : ∀ p, Reached cfg.next s.scripts root p → p ∉ s.scripts →
    ∀ imp ∈ (cfg.script p).imports, ImportFound cfg s p imp
  room : ∃ scripts : List Nat, s.linkedScripts.length + scripts.length ≤ 0x400 ∧
    ∀ p, Reached cfg.next s.scripts root p → p ∉ s.scripts → p ∈ scripts

/-- The condition: no new script has strings, and no script that is still to be started, new or not,
has exports. -/
structure Plain (cfg : Config) (s : ActsVm) (root : Nat) : Prop where
  strings : ∀ p, Reached cfg.next s.scripts root p → p ∉ s.scripts →
    (cfg.script p).strings = []
  exports : ∀ p, Reached cfg.next s.scripts root p → p ∉ s.scripts →
    (cfg.script p).exports = []
  pending : ∀ info ∈ s.linkedScripts.drop s.topScripts, (cfg.script info.script).exports = []

/-- What an import of a script without exports may refer to is what the linker finds. -/
theorem ImportFound.offers {s : ActsVm} {p : Nat} {imp : ScriptImport}
    (hexports : (cfg.script p).exports = []) (h : ImportFound cfg s p imp) :
    Offers cfg s p imp := by
  unfold ImportFound at h
  unfold Offers
  cases hkind : importKind imp.flags <;> rw [hkind] at h
  · rcases h with ⟨e, he, -⟩ | ⟨file, hfile, q, hq, e, he, hpublic, hnsp, hname⟩
    · rw [hexports] at he
      cases he
    · refine .inr fun hnone => ?_
      have hno := List.find?_eq_none.mp hnone q (List.mem_filterMap.mpr ⟨file, hfile, hq⟩)
      have hidx : publicExport cfg q imp = none := by simpa using hno
      have := List.findIdx?_eq_none_iff.mp hidx e he
      simp [hpublic, hnsp, hname] at this
  · exact h
  · exact (h rfl).elim
  · exact h
  · exact h.elim

/-! ## The loops -/

theorem allocThread_spec (s : ActsVm) (codePos : Nat) :
    Ends (allocThread codePos) s
      (fun thread s' => thread = s.currentThread ∧ ∃ threads, s' = { s with threads := threads })
      (· = s) := by
  unfold Ends allocThread
  cases s.threads.findIdx? fun thread => !thread.running with
  | none => rfl
  | some i => exact ⟨rfl, _, rfl⟩

/-- A start never gets past the check for a current thread. -/
theorem startExport_fails (h : Idle cfg s) (script : Nat) (exp : ScriptExport) :
    Ends (startExport opcodes script exp) s (fun _ _ => False) (Idle cfg) := by
  unfold startExport
  apply Ends.get
  refine ((allocThread_spec s _).mono (fun _ _ h => h) ?_).bind ?_
  · rintro s' rfl
    exact h
  · rintro thread s' ⟨rfl, threads, rfl⟩
    rw [h.noThread]
    exact ⟨rfl, h.alloc, h.stringStart, h.nodup, h.size, h.magic, h.top⟩

theorem exportsLoop_spec (h : Idle cfg s) (script turns : Nat) :
    Ends (exportsLoop cfg opcodes script turns) s
      (fun _ s' => s' = s ∧ (cfg.script script).exports = []) (Idle cfg) := by
  induction turns with
  | zero => exact h
  | succ turns ih =>
    unfold exportsLoop
    split
    · rename_i hexports
      exact ⟨rfl, hexports⟩
    · split
      · exact (startExport_fails h script _).bind fun _ _ hfalse => hfalse.elim
      · exact ih

/-- The rest of the table. -/
theorem scriptsLoop_spec (h : Idle cfg s) (turns : Nat) :
    Ends (scriptsLoop cfg opcodes turns) s
      (fun _ s' => s' = { s with topScripts := s.linkedScripts.length } ∧
        ∀ info ∈ s.linkedScripts.drop s.topScripts, (cfg.script info.script).exports = [])
      (Idle cfg) := by
  induction turns generalizing s with
  | zero => exact h
  | succ turns ih =>
    have hle := h.top
    unfold Ends scriptsLoop
    cases hinfo : s.linkedScripts[s.topScripts]? with
    | none =>
      have htop : s.topScripts = s.linkedScripts.length := by
        have := List.getElem?_eq_none_iff.1 hinfo
        omega
      refine ⟨by rw [← htop], ?_⟩
      rw [htop, List.drop_length]
      intro info hmem
      cases hmem
    | some info =>
      obtain ⟨hlt, hget⟩ := List.getElem?_eq_some_iff.1 hinfo
      have hidle : Idle cfg { s with topScripts := s.topScripts + 1 } :=
        ⟨h.noThread, h.alloc, h.stringStart, h.nodup, h.size, h.magic, hlt⟩
      refine (exportsLoop_spec hidle info.script turns).bind ?_
      rintro _ s₁ ⟨rfl, hexports⟩
      refine (ih hidle).mono ?_ (fun _ h => h)
      rintro _ s₂ ⟨rfl, hrest⟩
      refine ⟨rfl, ?_⟩
      rw [List.drop_eq_getElem_cons hlt, hget]
      intro info' hmem
      rcases List.mem_cons.1 hmem with rfl | hmem
      · exact hexports
      · exact hrest info' hmem

/-- A machine counts a further call. -/
theorem Idle.counted (h : Idle cfg s) : Idle cfg { s with linkGroup := s.linkGroup + 1 } :=
  ⟨h.noThread, h.alloc, h.stringStart, h.nodup, h.size, h.magic, h.top⟩

/-- What a call that returns has done. -/
theorem loadScript_spec (h : Idle cfg s) (turns : Nat) (name : String) :
    Ends (loadScript cfg opcodes turns name) s
      (fun _ s' => ∃ root s₁, cfg.getterFunction name = some root ∧
        Adds cfg { s with linkGroup := s.linkGroup + 1 } s₁ [root] ∧
        s' = { s₁ with topScripts := s₁.linkedScripts.length } ∧
        ∀ info ∈ s₁.linkedScripts.drop s.topScripts, (cfg.script info.script).exports = [])
      (Idle cfg) := by
  unfold loadScript
  apply Ends.modify
  refine (((linkScript_spec cfg 0x401).spec name _ h.counted).mono (fun _ _ h => h)
    (fun _ hlinks => hlinks.idle)).bind ?_
  rintro out s₁ ⟨hlinks, hout⟩
  cases out with
  | cantFind => exact hlinks.idle
  | errorIncludes => exact hlinks.idle
  | errorTooMany => exact hlinks.idle
  | linked output info =>
    obtain ⟨root, hroot, hadds⟩ := hout output info rfl
    refine (scriptsLoop_spec hlinks.idle turns).mono ?_ (fun _ h => h)
    rintro _ s₂ ⟨rfl, hexports⟩
    refine ⟨root, s₁, hroot, hadds, rfl, ?_⟩
    obtain ⟨new, patches, rfl, -⟩ := hadds
    exact hexports

theorem idle_new (cfg : Config) (callMethods : List UInt64) : Idle cfg (newVm callMethods) where
  noThread := rfl
  alloc := rfl
  stringStart _ := rfl
  nodup := List.nodup_nil
  size := Nat.zero_le _
  magic p hp := by cases hp
  top := Nat.le_refl 0

/-- Between two calls no thread is current and the arena is as new. -/
theorem reachable_idle (h : Reachable cfg opcodes s) : Idle cfg s := by
  induction h with
  | new callMethods => exact idle_new cfg callMethods
  | loaded _ hload ih =>
    obtain ⟨root, s₁, -, hadds, rfl, -⟩ := (loadScript_spec ih _ _).ok hload
    have hidle := hadds.links.idle
    exact ⟨hidle.noThread, hidle.alloc, hidle.stringStart, hidle.nodup, hidle.size, hidle.magic,
      Nat.le_refl _⟩
  | thrown _ _ hload ih => exact (loadScript_spec ih _ _).error hload

/-! ## Scripts that are linked -/

section Progress

variable {root p q d n : Nat} {link : String → LoadM LinkOutput}

/-- A state in the middle of linking `root`. -/
def Known (cfg : Config) (s₀ : ActsVm) (root : Nat) (s : ActsVm) : Prop :=
  ∃ new patches, s = s₀.extend new patches ∧
    ∀ info ∈ new, Reached cfg.next s₀.scripts root info.script

theorem Known.mem (h : Known cfg s₀ root s) (hp : p ∈ s₀.scripts) : p ∈ s.scripts := by
  obtain ⟨new, patches, rfl, -⟩ := h
  rw [scripts_extend]
  exact List.mem_append_left _ hp

theorem Known.patched (h : Known cfg s₀ root s) (patches : List (Nat × Nat × Nat)) :
    Known cfg s₀ root (s.extend [] patches) := by
  obtain ⟨new, patches', rfl, hnew⟩ := h
  refine ⟨new, patches, ?_, hnew⟩
  rw [extend_extend, List.append_nil]

theorem Known.reached (h : Known cfg s₀ root s) (hq : Reached cfg.next s₀.scripts root q)
    (hp : Reached cfg.next s.scripts q p) : Reached cfg.next s₀.scripts root p := by
  induction hp with
  | root => exact hq
  | step _ hmid hnext ih => exact .step ih (fun hold => hmid (h.mem hold)) hnext

theorem Known.adds (h : Known cfg s₀ root s) {roots : List Nat}
    (hroots : ∀ q ∈ roots, Reached cfg.next s₀.scripts root q) (hadds : Adds cfg s s' roots) :
    Known cfg s₀ root s' := by
  have hknown := h
  obtain ⟨new, patches, rfl, hnew⟩ := h
  obtain ⟨new', patches', rfl, -, hvisited, -⟩ := hadds
  refine ⟨new ++ new', patches', extend_extend _ _ _ _ _, ?_⟩
  intro info hinfo
  rcases List.mem_append.1 hinfo with hinfo | hinfo
  · exact hnew info hinfo
  · obtain ⟨q, hq, hreach⟩ := hvisited.reached info.script (List.mem_map_of_mem hinfo)
    exact hknown.reached (hroots q hq) hreach

/-- There is room for a script that is not in the table yet. -/
theorem Linkable.size (hlink : Linkable cfg s₀ root) (h : Known cfg s₀ root s)
    (hidle : Idle cfg s) (hp : Reached cfg.next s₀.scripts root p) (hnew : p ∉ s.scripts) :
    s.linkedScripts.length < 0x400 := by
  obtain ⟨scripts, hsize, hroom⟩ := hlink.room
  obtain ⟨new, patches, rfl, hreach⟩ := h
  have hnodup := hidle.nodup
  rw [scripts_extend] at hnodup hnew
  obtain ⟨-, hnodup, hdisjoint⟩ := List.nodup_append.1 hnodup
  have hsub : p :: new.map (·.script) ⊆ scripts := by
    intro q hq
    rcases List.mem_cons.1 hq with rfl | hq
    · exact hroom q hp fun hold => hnew (List.mem_append_left _ hold)
    · obtain ⟨info, hinfo, rfl⟩ := List.mem_map.1 hq
      exact hroom _ (hreach info hinfo) fun hold => hdisjoint _ hold _ hq rfl
  have hcons : (p :: new.map (·.script)).Nodup :=
    List.nodup_cons.2 ⟨fun hmem => hnew (List.mem_append_right _ hmem), hnodup⟩
  have hle := (List.subperm_of_subset hcons hsub).length_le
  rw [List.length_cons, List.length_map] at hle
  show (s₀.linkedScripts ++ new).length < 0x400
  rw [List.length_append]
  omega

/-- The imports of a script are linked where the linker finds something. -/
theorem linkImports_ok (h : Idle cfg s) {info : Nat} (hp : s.scripts[info]? = some p)
    (hseen : AllSeen cfg s (cfg.script p).includes) {imports : List ScriptImport}
    (himports : ∀ imp ∈ imports, Offers cfg s p imp) :
    ∃ patches, linkImports cfg (linkScript cfg (d + 1)) info p imports s =
      .ok () (s.extend [] patches) := by
  induction imports generalizing s with
  | nil => exact ⟨s.patches, congrArg (EStateM.Result.ok ()) (extend_nil s).symm⟩
  | cons imp imports ih =>
    rcases linkImport_eq d imp h hp hseen with ⟨id, -, hrun⟩ | ⟨hnone, -⟩
    · have hseen' : ∀ patches, AllSeen cfg (s.extend [] patches) (cfg.script p).includes := by
        intro patches file hfile
        obtain ⟨root, hroot, hmem⟩ := hseen file hfile
        exact ⟨root, hroot, by simpa using hmem⟩
      have hp' : ∀ patches, (s.extend [] patches).scripts[info]? = some p := by
        intro patches
        rwa [scripts_extend, List.map_nil, List.append_nil]
      obtain ⟨patches', hrest⟩ := ih (h.patched _) (hp' _) (hseen' _)
        fun imp' himp' => himports imp' (List.mem_cons_of_mem _ himp')
      unfold linkImports
      rw [bind_ok hrun, hrest, extend_extend]
      exact ⟨patches', rfl⟩
    · obtain ⟨id, hpick⟩ := (himports imp List.mem_cons_self).picks hseen info
      exact absurd hpick (hnone id)

/-- The includes of a script are all linked. -/
theorem linkIncludes_ok (hspec : LinkSpec cfg link) {names : List String}
    (hnames : ∀ name ∈ names, ∃ q, cfg.getterFunction name = some q ∧
      Reached cfg.next s₀.scripts root q)
    (hstep : ∀ name s, Idle cfg s → Known cfg s₀ root s → n ≤ s.linkedScripts.length →
      (∃ q, cfg.getterFunction name = some q ∧ Reached cfg.next s₀.scripts root q) →
      ∃ output info s', link name s = .ok (.linked output info) s')
    (h : Idle cfg s) (hknown : Known cfg s₀ root s) (hn : n ≤ s.linkedScripts.length) :
    ∃ s', linkIncludes link names s = .ok true s' := by
  induction names generalizing s with
  | nil => exact ⟨s, rfl⟩
  | cons name names ih =>
    obtain ⟨q, hq, hreach⟩ := hnames name List.mem_cons_self
    obtain ⟨output, info, s₁, hrun⟩ := hstep name s h hknown hn ⟨q, hq, hreach⟩
    obtain ⟨hlinks, hout⟩ := (hspec.spec name s h).ok hrun
    obtain ⟨q', hq', hadds⟩ := hout output info rfl
    rw [hq] at hq'
    cases hq'
    have hroots : ∀ r ∈ [q], Reached cfg.next s₀.scripts root r := by
      intro r hr
      rw [List.mem_singleton.1 hr]
      exact hreach
    have hn' : n ≤ s₁.linkedScripts.length := by
      obtain ⟨new, patches, rfl, -⟩ := hlinks
      show n ≤ (s.linkedScripts ++ new).length
      rw [List.length_append]
      omega
    unfold linkIncludes
    rw [bind_ok hrun]
    exact ih (fun name' hname' => hnames name' (List.mem_cons_of_mem _ hname')) hlinks.idle
      (hknown.adds hroots hadds) hn'

/-- **A script that is reached is linked**, if the nesting may go as deep as the table has room. -/
theorem linkScript_ok (hlink : Linkable cfg s₀ root)
    (hstrings : ∀ p, Reached cfg.next s₀.scripts root p → p ∉ s₀.scripts →
      (cfg.script p).strings = [])
    (hoffers : ∀ p, Reached cfg.next s₀.scripts root p → p ∉ s₀.scripts →
      ∀ imp ∈ (cfg.script p).imports, Offers cfg s₀ p imp)
    (depth : Nat) (h : Idle cfg s) (hknown : Known cfg s₀ root s)
    (hdepth : 0x401 ≤ depth + s.linkedScripts.length)
    (hname : ∃ q, cfg.getterFunction name = some q ∧ Reached cfg.next s₀.scripts root q) :
    ∃ output info s', linkScript cfg depth name s = .ok (.linked output info) s' := by
  induction depth generalizing s name with
  | zero =>
    have := h.size
    omega
  | succ depth ih =>
    obtain ⟨q, hq, hreach⟩ := hname
    have hrun : linkScript cfg (depth + 1) name s =
        linkActsScript cfg (linkScript cfg depth) q s := by
      show (getActsScript cfg name >>= linkActsScript cfg (linkScript cfg depth)) s = _
      unfold getActsScript
      rw [hq]
      rfl
    rw [hrun]
    rcases linkActsScript_cases cfg (linkScript cfg depth) q s with ⟨hmagic, -⟩ | ⟨i, -, hseen⟩ |
      ⟨hp, hfull, -⟩ | ⟨hmagic, hp, hsize, hentry⟩
    · exact absurd (hlink.magic q hreach) hmagic
    · exact ⟨0, i, s, hseen⟩
    · have := hlink.size hknown h hreach hp
      omega
    · rw [hentry]
      have hidle := h.enter hmagic hp hsize s.linkGroup
      have hlen : (s.extend [⟨q, s.linkGroup⟩] s.patches).linkedScripts.length =
          s.linkedScripts.length + 1 := List.length_append
      have hold : q ∉ s₀.scripts := fun hmem => hp (hknown.mem hmem)
      have hnext : ∀ file ∈ (cfg.script q).includes, ∃ r, cfg.getterFunction file = some r ∧
          Reached cfg.next s₀.scripts root r := by
        intro file hfile
        obtain ⟨r, hr⟩ := hlink.found q hreach hold file hfile
        exact ⟨r, hr, .step hreach hold (List.mem_filterMap.2 ⟨file, hfile, hr⟩)⟩
      have hentered : Known cfg s₀ root (s.extend [⟨q, s.linkGroup⟩] s.patches) := by
        obtain ⟨new, patches, rfl, hnew⟩ := hknown
        refine ⟨_, _, extend_extend _ _ _ _ _, ?_⟩
        intro info hinfo
        rcases List.mem_append.1 hinfo with hinfo | hinfo
        · exact hnew info hinfo
        · rw [List.mem_singleton.1 hinfo]
          exact hreach
      obtain ⟨d, rfl⟩ : ∃ d, depth = d + 1 := by
        have := h.size
        exact ⟨depth - 1, by omega⟩
      have hspec := linkScript_spec cfg (d + 1)
      obtain ⟨s₂, hincludes⟩ := linkIncludes_ok hspec hnext
        (fun name' s' hidle' hknown' hle hname' => ih hidle' hknown' (by omega) hname')
        hidle hentered (Nat.le_of_eq hlen.symm)
      obtain ⟨hlinks, hlinked⟩ := (linkIncludes_spec hspec _ hidle).ok hincludes
      obtain ⟨hadds, -⟩ := hlinked rfl
      have hnextReached : ∀ r ∈ cfg.next q, Reached cfg.next s₀.scripts root r :=
        fun r hr => .step hreach hold hr
      have hseen : AllSeen cfg s₂ (cfg.script q).includes := by
        intro file hfile
        obtain ⟨r, hr, -⟩ := hnext file hfile
        obtain ⟨new, patches, rfl, -, hvisited, -⟩ := hadds
        refine ⟨r, hr, ?_⟩
        rw [scripts_extend]
        exact hvisited.entered r (List.mem_filterMap.2 ⟨file, hfile, hr⟩)
      have hplace : s₂.scripts[s.linkedScripts.length]? = some q := by
        obtain ⟨new, patches, rfl, -⟩ := hadds
        simp [ActsVm.scripts, ActsVm.extend]
      have hmethods : s₂.callMethods = s₀.callMethods := by
        obtain ⟨new, patches, rfl, -⟩ := hentered.adds hnextReached hadds
        rfl
      obtain ⟨patches, himports⟩ : ∃ patches, linkImports cfg (linkScript cfg (d + 1))
          s.linkedScripts.length q (cfg.script q).imports s₂ = .ok () (s₂.extend [] patches) :=
        linkImports_ok hlinks.idle hplace hseen fun imp himp =>
          (hoffers q hreach hold imp himp).of_methods hmethods
      have hempty : linkStrings q (cfg.script q).strings s₂ = .ok () s₂ := by
        rw [hstrings q hreach hold]
        rfl
      unfold linkEntry
      rw [bind_ok hincludes, if_pos rfl, bind_ok hempty, bind_ok himports]
      exact ⟨_, _, _, rfl⟩

/-- Scripts without exports are passed over. -/
theorem scriptsLoop_ok (n : Nat) (s : ActsVm) (hn : s.linkedScripts.length ≤ s.topScripts + n)
    (hexports : ∀ info ∈ s.linkedScripts.drop s.topScripts,
      (cfg.script info.script).exports = []) :
    ∃ s', scriptsLoop cfg opcodes (n + 2) s = .ok () s' := by
  induction n generalizing s with
  | zero =>
    have hnone : s.linkedScripts[s.topScripts]? = none := List.getElem?_eq_none_iff.2 hn
    unfold scriptsLoop
    rw [hnone]
    exact ⟨s, rfl⟩
  | succ n ih =>
    unfold scriptsLoop
    cases hinfo : s.linkedScripts[s.topScripts]? with
    | none => exact ⟨s, rfl⟩
    | some info =>
      obtain ⟨hlt, hget⟩ := List.getElem?_eq_some_iff.1 hinfo
      rw [List.drop_eq_getElem_cons hlt, hget] at hexports
      have hnone : exportsLoop cfg opcodes info.script (n + 2)
          { s with topScripts := s.topScripts + 1 } =
            .ok () { s with topScripts := s.topScripts + 1 } := by
        unfold exportsLoop
        rw [hexports info List.mem_cons_self]
        rfl
      obtain ⟨s', hrest⟩ := ih { s with topScripts := s.topScripts + 1 } (by
        show s.linkedScripts.length ≤ s.topScripts + 1 + n
        omega) fun info' hinfo' => hexports info' (List.mem_cons_of_mem _ hinfo')
      exact ⟨s', (bind_ok hnone).trans hrest⟩

end Progress

/-! ## When scripts are loaded -/

/-- The scripts from `top` on, after new ones were added. -/
theorem drop_extend (h : Idle cfg s) (new : List ScriptInfo) :
    (s.linkedScripts ++ new).drop s.topScripts = s.linkedScripts.drop s.topScripts ++ new :=
  List.drop_append_of_le_length h.top

/-- Without exports there is nothing to start. -/
theorem autoexecs_nil {infos : List ScriptInfo}
    (h : ∀ info ∈ infos, (cfg.script info.script).exports = []) : autoexecs cfg infos = [] := by
  unfold autoexecs
  rw [List.flatMap_eq_nil_iff]
  intro info hinfo
  rw [h info hinfo]
  rfl

/-- A call that returns has found nothing to start and no string to link. -/
theorem plain_of_loaded (h : Idle cfg s) {root turns : Nat}
    (hroot : cfg.getterFunction name = some root)
    (hload : loadScript cfg opcodes turns name s = .ok () s') : Plain cfg s root := by
  obtain ⟨root', s₁, hroot', hadds, rfl, hexports⟩ := (loadScript_spec h turns name).ok hload
  rw [hroot] at hroot'
  cases hroot'
  obtain ⟨new, patches, rfl, -, hvisited, hstrings⟩ := hadds
  have hnew : ∀ p, Reached cfg.next s.scripts root p → p ∉ s.scripts →
      ∃ info ∈ new, info.script = p := by
    intro p hreach hp
    have hmem := hvisited.mem_iff.2 (.inr hreach)
    rcases List.mem_append.1 hmem with hmem | hmem
    · exact absurd hmem hp
    · exact List.mem_map.1 hmem
  have hdrop : ∀ info ∈ s.linkedScripts.drop s.topScripts ++ new,
      (cfg.script info.script).exports = [] := by
    rw [← drop_extend h new]
    exact hexports
  refine ⟨?_, ?_, ?_⟩
  · intro p hreach hp
    obtain ⟨info, hinfo, rfl⟩ := hnew p hreach hp
    exact hstrings info hinfo
  · intro p hreach hp
    obtain ⟨info, hinfo, rfl⟩ := hnew p hreach hp
    exact hdrop info (List.mem_append_right _ hinfo)
  · intro info hinfo
    exact hdrop info (List.mem_append_left _ hinfo)

/-- Scripts with nothing to start and no string are loaded. -/
theorem loaded_of_plain (h : Idle cfg s) {root : Nat}
    (hroot : cfg.getterFunction name = some root) (hlink : Linkable cfg s root)
    (hplain : Plain cfg s root) :
    ∃ turns s', loadScript cfg opcodes turns name s = .ok () s' ∧ Loads cfg name s s' := by
  let counted : ActsVm := { s with linkGroup := s.linkGroup + 1 }
  have hcounted : Idle cfg counted := h.counted
  have hlink' : Linkable cfg counted root :=
    ⟨hlink.magic, hlink.found, hlink.imports, hlink.room⟩
  have hknown : Known cfg counted root counted :=
    ⟨[], _, (extend_nil _).symm, fun info hinfo => by cases hinfo⟩
  obtain ⟨output, info, s₁, hrun⟩ := linkScript_ok hlink' hplain.strings
    (fun p hreach hp imp himp =>
      (hlink'.imports p hreach hp imp himp).offers (hplain.exports p hreach hp)) 0x401
    hcounted hknown (Nat.le_add_right _ _) ⟨root, hroot, .root⟩
  obtain ⟨hlinks, hout⟩ := ((linkScript_spec cfg 0x401).spec name _ hcounted).ok hrun
  obtain ⟨root', hroot', hadds⟩ := hout output info rfl
  rw [hroot] at hroot'
  cases hroot'
  obtain ⟨new, patches, rfl, -, hvisited, -⟩ := hadds
  have hidle := hlinks.idle
  have hexports : ∀ info ∈ (s.linkedScripts ++ new).drop s.topScripts,
      (cfg.script info.script).exports = [] := by
    rw [drop_extend h new]
    intro info hinfo
    rcases List.mem_append.1 hinfo with hinfo | hinfo
    · exact hplain.pending info hinfo
    · have hmem : info.script ∈ new.map (·.script) := List.mem_map_of_mem hinfo
      have hnew : info.script ∉ s.scripts := fun hold =>
        (List.nodup_append.1 hvisited.nodup).2.2 _ hold _ hmem rfl
      rcases hvisited.mem_iff.1 (List.mem_append_right _ hmem) with hold | hreach
      · exact absurd hold hnew
      · exact hplain.exports _ hreach hnew
  obtain ⟨s', hloop⟩ : ∃ s', scriptsLoop cfg opcodes ((s.linkedScripts ++ new).length + 2)
      (counted.extend new patches) = .ok () s' :=
    scriptsLoop_ok _ _ (Nat.le_add_left _ _) hexports
  obtain ⟨rfl, -⟩ := (scriptsLoop_spec hidle _).ok hloop
  have hload : loadScript cfg opcodes ((s.linkedScripts ++ new).length + 2) name s =
      .ok () { counted.extend new patches with
        topScripts := (counted.extend new patches).linkedScripts.length } :=
    (bind_ok hrun).trans hloop
  refine ⟨_, _, hload, ⟨root, hroot, fun p => ?_⟩, hidle.nodup, ⟨new, rfl⟩, ⟨[], ?_, ?_, ?_⟩⟩
  · show p ∈ (s.linkedScripts ++ new).map (·.script) ↔ _
    rw [List.map_append]
    exact hvisited.mem_iff
  · exact (List.append_nil _).symm
  · exact (autoexecs_nil hexports).symm
  · intro start hstart
    cases hstart

/-- **When scripts are loaded.**  In a machine after any number of calls, and for scripts that can be
linked, `LoadScript` returns, links what is reached, each script once, and starts the exports of the
new scripts, exactly if there is nothing to start and no string to link. -/
theorem load_iff (h : Reachable cfg opcodes s) {root : Nat}
    (hroot : cfg.getterFunction name = some root) (hlink : Linkable cfg s root) :
    (∃ turns s', loadScript cfg opcodes turns name s = .ok () s' ∧ Loads cfg name s s') ↔
      Plain cfg s root := by
  constructor
  · rintro ⟨turns, s', hload, -⟩
    exact plain_of_loaded (reachable_idle h) hroot hload
  · exact loaded_of_plain (reachable_idle h) hroot hlink

/-! ## Two scripts that include each other, and a script with an export -/

/-- A script of which nothing is needed but its includes. -/
def emptyScript (includes : List String) : ActScript :=
  ⟨actscriptMagic, "script", includes, [], [], [], by decide⟩

def cycle : Config where
  getterFunction name := if name = "a" then some 0 else if name = "b" then some 1 else none
  script p := if p = 0 then emptyScript ["b"] else emptyScript ["a"]

theorem cycle_script (p : Nat) : ∃ includes, cycle.script p = emptyScript includes ∧
    ∀ file ∈ includes, ∃ q ∈ [0, 1], cycle.getterFunction file = some q := by
  by_cases hp : p = 0
  · exact ⟨["b"], if_pos hp, by simp [cycle]⟩
  · exact ⟨["a"], if_neg hp, by simp [cycle]⟩

theorem cycle_linkable : Linkable cycle (newVm []) 0 where
  magic p _ := by
    obtain ⟨includes, hscript, -⟩ := cycle_script p
    rw [hscript]
    rfl
  found p _ _ file hfile := by
    obtain ⟨includes, hscript, hfiles⟩ := cycle_script p
    rw [hscript] at hfile
    obtain ⟨q, -, hq⟩ := hfiles file hfile
    exact ⟨q, hq⟩
  imports p _ _ imp himp := by
    obtain ⟨includes, hscript, -⟩ := cycle_script p
    rw [hscript] at himp
    cases himp
  room := by
    refine ⟨[0, 1], by decide, ?_⟩
    intro p hreach _
    cases hreach with
    | root => exact List.mem_cons_self
    | @step _ q _ _ hnext =>
      obtain ⟨includes, hscript, hfiles⟩ := cycle_script q
      unfold Config.next at hnext
      rw [hscript] at hnext
      obtain ⟨file, hfile, hp⟩ := List.mem_filterMap.1 hnext
      obtain ⟨r, hr, hget⟩ := hfiles file hfile
      rw [hget] at hp
      cases hp
      exact hr

theorem cycle_plain : Plain cycle (newVm []) 0 where
  strings p _ _ := by
    obtain ⟨includes, hscript, -⟩ := cycle_script p
    rw [hscript]
    rfl
  exports p _ _ := by
    obtain ⟨includes, hscript, -⟩ := cycle_script p
    rw [hscript]
    rfl
  pending info hinfo := by cases hinfo

theorem cycle_loaded : ∃ turns s', loadScript cycle (pure ()) turns "a" (newVm []) = .ok () s' ∧
    Loads cycle "a" (newVm []) s' :=
  (load_iff (.new []) rfl cycle_linkable).2 cycle_plain

/-- One script, with an export to start at its load. -/
def oneExport : Config where
  getterFunction _ := some 0
  script _ := { emptyScript [] with exports := [⟨64, 1, 1, 1⟩], exports_count := by decide }

/-- Nothing is ever started: the thread that was set up is not the one that is executed. -/
theorem oneExport_not_loaded :
    (¬ ∃ turns s', loadScript oneExport (pure ()) turns "a" (newVm []) = .ok () s') ∧
      ∃ s', loadScript oneExport (pure ()) 3 "a" (newVm []) = .error .noThreadStarted s' := by
  constructor
  · rintro ⟨turns, s', hload⟩
    have hplain : Plain oneExport (newVm []) 0 :=
      plain_of_loaded (idle_new oneExport []) rfl hload
    have hexports := hplain.exports 0 .root (by intro h; cases h)
    cases hexports
  · exact ⟨_, rfl⟩

end Acts.Vm.Loader
