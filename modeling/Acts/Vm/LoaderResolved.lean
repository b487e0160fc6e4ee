import Acts.Vm.LoaderRuns

/-!
# What the imports of linked scripts hold

* `Resolved` — all addresses of the imports of a script hold what they should.
* `Filled` — they hold what the linker picks; `linkScript_fills` — they do in each script that is
  linked.
* `Calls` — the calls of `LinkActsScript` in a run.
* `Resolvable` — the condition on a script.
* `link_resolves_iff` — **scripts of which nothing is missing are linked and resolved exactly under
  the condition.**
-/

set_option autoImplicit false

namespace Acts.Vm.Loader

/-! ## The written identifiers -/

/-- The value that was written last at an offset of a script. -/
def heldIn (patches : List (Nat × Nat × Nat)) (script ref : Nat) : Option Nat :=
  (patches.reverse.find? fun patch => patch.1 == script && patch.2.1 == ref).map (·.2.2)

def ActsVm.held (s : ActsVm) : Nat → Nat → Option Nat := heldIn s.patches

/-- All imports of a script are linked to what they should be. -/
def Resolved (cfg : Config) (funcs : List UInt64) (s : ActsVm) (p : Nat) : Prop :=
  ∀ imp ∈ (cfg.script p).imports, ∀ ref ∈ imp.refs,
    ∃ id, s.held p ref = some id ∧ Designates cfg funcs s p imp id

/-- The condition: if an import asks for an export of the script itself, it is the first export, or
the script includes itself and no include before has such an export; without an address to write, it
is enough that some include has one. -/
def OwnFirst (cfg : Config) (p : Nat) : Prop :=
  ∀ imp ∈ (cfg.script p).imports, importKind imp.flags = .function → Own cfg p imp →
    FirstOwn cfg p imp ∨ firstInclude cfg p imp = some p ∨
      imp.refs = [] ∧ firstInclude cfg p imp ≠ none

/-- Each address of a script holds what the linker picks. -/
def Filled (cfg : Config) (s : ActsVm) (p : Nat) : Prop :=
  ∃ info, s.scripts[info]? = some p ∧ ∀ imp ∈ (cfg.script p).imports,
    ∃ id, Picks cfg s info p imp id ∧ ∀ ref ∈ imp.refs, s.held p ref = some id

/-- The addresses of a script, of four bytes each, do not overlap. -/
def Apart (cfg : Config) (p : Nat) : Prop :=
  ((cfg.script p).imports.flatMap (·.refs)).Pairwise fun a b => a + 4 ≤ b ∨ b + 4 ≤ a

variable {cfg : Config} {funcs : List UInt64} {opcodes : LoadM Unit}
  {link : String → LoadM LinkOutput} {s s' s'' : ActsVm} {p info id ref script d : Nat} {imp : ScriptImport}

theorem Apart.nodup (h : Apart cfg p) : ((cfg.script p).imports.flatMap (·.refs)).Nodup :=
  h.imp fun hab => by omega

theorem heldIn_append {patches out : List (Nat × Nat × Nat)}
    (h : ∀ patch ∈ out, patch.1 = script → patch.2.1 ≠ ref) :
    heldIn (patches ++ out) script ref = heldIn patches script ref := by
  have hnone : out.reverse.find? (fun patch => patch.1 == script && patch.2.1 == ref) = none := by
    rw [List.find?_eq_none]
    intro patch hpatch
    have := h patch (List.mem_reverse.mp hpatch)
    simpa using this
  unfold heldIn
  rw [List.reverse_append, List.find?_append, hnone]
  rfl

theorem heldIn_map {patches : List (Nat × Nat × Nat)} {refs : List Nat} (h : ref ∈ refs) :
    heldIn (patches ++ refs.map fun ref => (script, ref, id)) script ref = some id := by
  unfold heldIn
  rw [List.reverse_append, List.find?_append]
  cases hfind : (refs.map fun ref => (script, ref, id)).reverse.find?
      fun patch => patch.1 == script && patch.2.1 == ref with
  | none =>
    have hno := List.find?_eq_none.mp hfind (script, ref, id)
      (List.mem_reverse.mpr (List.mem_map.mpr ⟨ref, h, rfl⟩))
    simp at hno
  | some patch =>
    obtain ⟨ref', -, rfl⟩ :=
      List.mem_map.mp (List.mem_reverse.mp (List.mem_of_find?_eq_some hfind))
    rfl

/-! ## More entries in the table -/

theorem Picks.extend (h : Picks cfg s info p imp id) (new : List ScriptInfo)
    (patches : List (Nat × Nat × Nat)) : Picks cfg (s.extend new patches) info p imp id := by
  unfold Picks at h ⊢
  cases hkind : importKind imp.flags <;> rw [hkind] at h
  · rcases h with h | ⟨hnot, q, i, j, hfirst, hi, hj, rfl⟩
    · exact .inl h
    · refine .inr ⟨hnot, q, i, j, hfirst, ?_, hj, rfl⟩
      rw [scripts_extend, List.getElem?_append_left (List.getElem?_eq_some_iff.mp hi).1]
      exact hi
  · exact h
  · exact h
  · exact h
  · exact h

theorem Designates.extend (h : Designates cfg funcs s p imp id) (new : List ScriptInfo)
    (patches : List (Nat × Nat × Nat)) :
    Designates cfg funcs (s.extend new patches) p imp id := by
  unfold Designates at h ⊢
  cases hkind : importKind imp.flags <;> rw [hkind] at h
  · obtain ⟨q, e, hq, hrest⟩ := h
    refine ⟨q, e, ?_, hrest⟩
    rw [scripts_extend, List.getElem?_append_left (List.getElem?_eq_some_iff.mp hq).1]
    exact hq
  · exact h
  · exact h
  · exact h
  · exact h

theorem Filled.extend (h : Filled cfg s p) (new : List ScriptInfo)
    {out : List (Nat × Nat × Nat)} (hout : ∀ patch ∈ out, patch.1 ≠ p) :
    Filled cfg (s.extend new (s.patches ++ out)) p := by
  obtain ⟨info, hinfo, himports⟩ := h
  refine ⟨info, ?_, ?_⟩
  · rw [scripts_extend, List.getElem?_append_left (List.getElem?_eq_some_iff.mp hinfo).1]
    exact hinfo
  · intro imp himp
    obtain ⟨id, hpick, hheld⟩ := himports imp himp
    refine ⟨id, hpick.extend _ _, fun ref href => ?_⟩
    rw [← hheld ref href]
    exact heldIn_append fun patch hpatch hscript => absurd hscript (hout patch hpatch)

/-- **A script that is filled is resolved under the condition, and only then.** -/
theorem Filled.resolved_iff (h : Filled cfg s p) (hidle : Idle cfg s)
    (hmethods : s.callMethods.length ≤ 0x100) : Resolved cfg funcs s p ↔ OwnFirst cfg p := by
  obtain ⟨info, hp, himports⟩ := h
  constructor
  · intro hres imp himp hkind hown
    obtain ⟨id, hpick, hheld⟩ := himports imp himp
    cases hrefs : imp.refs with
    | nil =>
      unfold Picks at hpick
      rw [hkind] at hpick
      rcases hpick with ⟨hfirst, -⟩ | ⟨-, q, i, j, hfirst, -⟩
      · exact .inl hfirst
      · exact .inr (.inr ⟨rfl, by rw [hfirst]; exact Option.some_ne_none q⟩)
    | cons ref refs =>
      have href : ref ∈ imp.refs := by rw [hrefs]; exact List.mem_cons_self
      obtain ⟨id', hheld', hdes⟩ := hres imp himp ref href
      rw [hheld ref href] at hheld'
      cases hheld'
      rcases (designates_iff hidle hmethods hp hpick).mp hdes hkind hown with hfirst | hself
      · exact .inl hfirst
      · exact .inr (.inl hself)
  · intro hown imp himp ref href
    obtain ⟨id, hpick, hheld⟩ := himports imp himp
    refine ⟨id, hheld ref href, (designates_iff hidle hmethods hp hpick).mpr ?_⟩
    intro hkind hself
    rcases hown imp himp hkind hself with hfirst | hself | ⟨hnil, -⟩
    · exact .inl hfirst
    · exact .inr hself
    · rw [hnil] at href
      cases href

/-! ## Linking fills -/

/-- Without includes the linker calls nothing. -/
theorem linkImports_congr (hincludes : (cfg.script p).includes = [])
    (link' : String → LoadM LinkOutput) (imports : List ScriptImport) :
    linkImports cfg link info p imports = linkImports cfg link' info p imports := by
  induction imports with
  | nil => rfl
  | cons imp imports ih =>
    have himp : linkImport cfg link info p imp = linkImport cfg link' info p imp := by
      unfold linkImport getScriptExport
      dsimp only
      rw [hincludes]
      rfl
    unfold linkImports
    rw [himp, ih]

theorem linkImports_fills (h : Idle cfg s) (hp : s.scripts[info]? = some p)
    (hseen : AllSeen cfg s (cfg.script p).includes) {imports : List ScriptImport}
    (hnodup : (imports.flatMap (·.refs)).Nodup)
    (hrun : linkImports cfg (linkScript cfg (d + 1)) info p imports s = .ok () s') :
    ∃ out, s' = s.extend [] (s.patches ++ out) ∧
      (∀ patch ∈ out, patch.1 = p ∧ patch.2.1 ∈ imports.flatMap (·.refs)) ∧
      ∀ imp ∈ imports, ∃ id, Picks cfg s' info p imp id ∧
        ∀ ref ∈ imp.refs, s'.held p ref = some id := by
  induction imports generalizing s with
  | nil =>
    cases hrun
    exact ⟨[], by rw [List.append_nil, extend_nil], by simp, by simp⟩
  | cons imp imports ih =>
    unfold linkImports at hrun
    obtain ⟨⟨⟩, s₁, himp, hrest⟩ := returns_of_bind hrun
    rw [List.flatMap_cons, List.nodup_append] at hnodup
    obtain ⟨-, hnodup', hdisjoint⟩ := hnodup
    rcases linkImport_eq d imp h hp hseen with ⟨id, hpick, heq⟩ | ⟨-, fault, heq⟩
    · rw [heq] at himp
      cases himp
      have hseen' : AllSeen cfg (s.extend [] (s.patches ++ imp.refs.map fun ref => (p, ref, id)))
          (cfg.script p).includes := by
        intro file hfile
        obtain ⟨root, hroot, hmem⟩ := hseen file hfile
        exact ⟨root, hroot, by simpa using hmem⟩
      have hp' : (s.extend [] (s.patches ++ imp.refs.map fun ref => (p, ref, id))).scripts[info]? =
          some p := by
        rwa [scripts_extend, List.map_nil, List.append_nil]
      obtain ⟨out, rfl, hout, himports⟩ := ih (h.patched _) hp' hseen' hnodup' hrest
      refine ⟨(imp.refs.map fun ref => (p, ref, id)) ++ out, ?_, ?_, ?_⟩
      · rw [extend_extend, ← List.append_assoc]
        rfl
      · intro patch hpatch
        rw [List.flatMap_cons, List.mem_append]
        rcases List.mem_append.mp hpatch with hpatch | hpatch
        · obtain ⟨ref, href, rfl⟩ := List.mem_map.mp hpatch
          exact ⟨rfl, .inl href⟩
        · exact ⟨(hout patch hpatch).1, .inr (hout patch hpatch).2⟩
      · intro imp' himp'
        rcases List.mem_cons.mp himp' with rfl | himp'
        · refine ⟨id, (hpick.extend _ _).extend _ _, fun ref href => ?_⟩
          refine (heldIn_append ?_).trans (heldIn_map href)
          rintro patch hpatch - rfl
          exact hdisjoint _ href _ (hout patch hpatch).2 rfl
        · exact himports imp' himp'
    · rw [heq] at himp
      cases himp

/-- A link has added scripts that are all filled, and has written to no others. -/
def Fills (cfg : Config) (s s' : ActsVm) : Prop :=
  ∃ new out, s' = s.extend new (s.patches ++ out) ∧
    (∀ patch ∈ out, ∃ info ∈ new, patch.1 = info.script) ∧
    ∀ info ∈ new, Filled cfg s' info.script

theorem Fills.refl (cfg : Config) (s : ActsVm) : Fills cfg s s :=
  ⟨[], [], by rw [List.append_nil, extend_nil], by simp, by simp⟩

/-- What the new scripts are written to is not read for the old ones. -/
theorem new_ne_old {new : List ScriptInfo} {patches : List (Nat × Nat × Nat)}
    (h : Idle cfg (s.extend new patches)) {info : ScriptInfo} (hinfo : info ∈ new)
    (hp : p ∈ s.scripts) : info.script ≠ p := by
  have hnodup := h.nodup
  rw [scripts_extend] at hnodup
  rintro rfl
  exact (List.nodup_append.mp hnodup).2.2 _ hp _ (List.mem_map_of_mem hinfo) rfl

theorem Fills.trans (h : Fills cfg s s') (h' : Fills cfg s' s'') (hidle : Idle cfg s'') :
    Fills cfg s s'' := by
  obtain ⟨new, out, rfl, hout, hfilled⟩ := h
  obtain ⟨new', out', rfl, hout', hfilled'⟩ := h'
  refine ⟨new ++ new', out ++ out', ?_, ?_, ?_⟩
  · rw [extend_extend, ← List.append_assoc]
    rfl
  · intro patch hpatch
    rcases List.mem_append.mp hpatch with hpatch | hpatch
    · obtain ⟨info, hinfo, heq⟩ := hout patch hpatch
      exact ⟨info, List.mem_append_left _ hinfo, heq⟩
    · obtain ⟨info, hinfo, heq⟩ := hout' patch hpatch
      exact ⟨info, List.mem_append_right _ hinfo, heq⟩
  · intro info hinfo
    rcases List.mem_append.mp hinfo with hinfo | hinfo
    · refine (hfilled info hinfo).extend new' fun patch hpatch => ?_
      obtain ⟨info', hinfo', heq⟩ := hout' patch hpatch
      rw [heq]
      refine new_ne_old hidle hinfo' ?_
      rw [scripts_extend]
      exact List.mem_append_right _ (List.mem_map_of_mem hinfo)
    · exact hfilled' info hinfo

/-- Scripts that were resolved before stay so. -/
theorem Fills.resolved (h : Fills cfg s s') (hidle : Idle cfg s') (hp : p ∈ s.scripts)
    (hres : Resolved cfg funcs s p) : Resolved cfg funcs s' p := by
  obtain ⟨new, out, rfl, hout, -⟩ := h
  intro imp himp ref href
  obtain ⟨id, hheld, hdes⟩ := hres imp himp ref href
  refine ⟨id, ?_, hdes.extend _ _⟩
  rw [← hheld]
  refine heldIn_append fun patch hpatch hscript => ?_
  obtain ⟨info, hinfo, heq⟩ := hout patch hpatch
  exact absurd (heq.symm.trans hscript) (new_ne_old hidle hinfo hp)

theorem linkIncludes_fills (hlink : LinkSpec cfg link)
    (hfills : ∀ name s output info s', Idle cfg s → link name s = .ok (.linked output info) s' →
      Fills cfg s s') {names : List String} (h : Idle cfg s)
    (hrun : linkIncludes link names s = .ok true s') : Fills cfg s s' := by
  induction names generalizing s with
  | nil =>
    cases hrun
    exact .refl cfg s'
  | cons name names ih =>
    have hend := ((linkIncludes_spec hlink (name :: names) h).ok hrun).1.idle
    unfold linkIncludes at hrun
    obtain ⟨result, s₁, hname, hrest⟩ := returns_of_bind hrun
    have hidle := ((hlink.spec name s h).ok hname).1.idle
    cases result with
    | linked output info => exact (hfills name s output info s₁ h hname).trans (ih hidle hrest) hend
    | cantFind => cases hrest
    | errorIncludes => cases hrest
    | errorTooMany => cases hrest

/-- From the entry in the table on. -/
theorem linkEntry_fills {root output depth : Nat} {group : Int}
    (hfills : ∀ name s output info s', Idle cfg s →
      linkScript cfg depth name s = .ok (.linked output info) s' → Fills cfg s s')
    (hapart : Apart cfg root) (h : Idle cfg (s.extend [⟨root, group⟩] s.patches))
    (hrun : linkEntry cfg (linkScript cfg depth) s.linkedScripts.length root
      (s.extend [⟨root, group⟩] s.patches) = .ok (.linked output info) s') :
    Fills cfg s s' := by
  have hlink := linkScript_spec cfg depth
  unfold linkEntry at hrun
  obtain ⟨linked, s₁, hincludes, hrun⟩ := returns_of_bind hrun
  cases linked with
  | false => cases hrun
  | true =>
    rw [if_pos rfl] at hrun
    obtain ⟨⟨⟩, s₂, hstrings, hrun⟩ := returns_of_bind hrun
    obtain ⟨⟨⟩, s₃, himports, hrun⟩ := returns_of_bind hrun
    cases hrun
    obtain ⟨hlinks, hlinked⟩ := (linkIncludes_spec hlink _ h).ok hincludes
    obtain ⟨hadds, hfound⟩ := hlinked rfl
    have hidle := hlinks.idle
    obtain ⟨rfl, -⟩ := (linkStrings_spec hidle root _).ok hstrings
    have hseen : AllSeen cfg s₂ (cfg.script root).includes := by
      intro file hfile
      obtain ⟨q, hq⟩ := hfound file hfile
      obtain ⟨new, patches, rfl, -, hvisited, -⟩ := hadds
      refine ⟨q, hq, ?_⟩
      rw [scripts_extend]
      exact hvisited.entered q (List.mem_filterMap.mpr ⟨file, hfile, hq⟩)
    obtain ⟨new, out, rfl, hout, hfilled⟩ := linkIncludes_fills hlink hfills h hincludes
    rw [extend_extend] at hidle hseen himports
    have hplace : (s.extend ([⟨root, group⟩] ++ new) (s.patches ++ out)).scripts[
        s.linkedScripts.length]? = some root := by
      simp [ActsVm.scripts, ActsVm.extend]
    -- The linker of the includes searches the imports, too; without a level left there are none.
    obtain ⟨d, hdeeper⟩ : ∃ d, linkImports cfg (linkScript cfg (d + 1)) s.linkedScripts.length root
        (cfg.script root).imports (s.extend ([⟨root, group⟩] ++ new) (s.patches ++ out)) =
          .ok () s' := by
      cases depth with
      | succ d => exact ⟨d, himports⟩
      | zero =>
        cases hnames : (cfg.script root).includes with
        | nil => exact ⟨0, by rw [linkImports_congr hnames (linkScript cfg 0)]; exact himports⟩
        | cons name names =>
          rw [hnames] at hincludes
          cases hincludes
    obtain ⟨out', rfl, hout', hroot⟩ := linkImports_fills hidle hplace hseen hapart.nodup hdeeper
    have hidle' := hidle.patched (s.patches ++ out ++ out')
    rw [extend_extend, List.append_nil] at hidle'
    refine ⟨⟨root, group⟩ :: new, out ++ out', ?_, ?_, ?_⟩
    · rw [extend_extend, List.append_nil, ← List.append_assoc]
      rfl
    · intro patch hpatch
      rcases List.mem_append.mp hpatch with hpatch | hpatch
      · obtain ⟨info, hinfo, heq⟩ := hout patch hpatch
        exact ⟨info, List.mem_cons_of_mem _ hinfo, heq⟩
      · exact ⟨⟨root, group⟩, List.mem_cons_self, (hout' patch hpatch).1⟩
    · intro info hinfo
      rcases List.mem_cons.mp hinfo with rfl | hinfo
      · refine ⟨s.linkedScripts.length, ?_, hroot⟩
        rwa [scripts_extend, List.map_nil, List.append_nil]
      · have hfill := hfilled info hinfo
        rw [extend_extend] at hfill
        refine hfill.extend [] fun patch hpatch hscript => ?_
        rw [(hout' patch hpatch).1] at hscript
        exact new_ne_old hlinks.idle hinfo (by simp) hscript.symm

/-- **Each script that is linked is filled**, at any depth. -/
theorem linkScript_fills (hapart : ∀ p, (cfg.script p).magic = actscriptMagic → Apart cfg p)
    (depth : Nat) (name : String) (s : ActsVm) (output info : Nat) (s' : ActsVm)
    (h : Idle cfg s) (hrun : linkScript cfg depth name s = .ok (.linked output info) s') :
    Fills cfg s s' := by
  induction depth generalizing name s output info s' with
  | zero => cases hrun
  | succ depth ih =>
    unfold linkScript at hrun
    obtain ⟨root, s₀, hget, hrun⟩ := returns_of_bind hrun
    have hs₀ : s₀ = s := by
      unfold getActsScript at hget
      cases hroot : cfg.getterFunction name with
      | none =>
        rw [hroot] at hget
        cases hget
      | some root' =>
        rw [hroot] at hget
        cases hget
        rfl
    rw [hs₀] at hrun
    rcases linkActsScript_cases cfg (linkScript cfg depth) root s with ⟨-, heq⟩ | ⟨i, -, heq⟩ |
      ⟨-, -, heq⟩ | ⟨hmagic, hp, hsize, heq⟩
    · rw [heq] at hrun
      cases hrun
    · rw [heq] at hrun
      cases hrun
      exact .refl cfg s
    · rw [heq] at hrun
      cases hrun
    · rw [heq] at hrun
      exact linkEntry_fills ih (hapart root hmagic) (h.enter hmagic hp hsize s.linkGroup) hrun

/-! ## Calls -/

/-- The calls of `LinkActsScript` that may link something: from `LoadScript`, and, at a script that
is being linked, for its next include. -/
inductive Calls (cfg : Config) (opcodes : LoadM Unit) : Nat → String → ActsVm → Prop
  | load {s : ActsVm} (name : String) (h : Reachable cfg opcodes s) :
      Calls cfg opcodes 0x401 name { s with linkGroup := s.linkGroup + 1 }
  | nested {d p : Nat} {name next : String} {names rest : List String} {s s' : ActsVm}
      (h : Calls cfg opcodes (d + 1) name s) (hp : cfg.getterFunction name = some p)
      (hmagic : (cfg.script p).magic = actscriptMagic) (hnew : p ∉ s.scripts)
      (hroom : s.linkedScripts.length ≠ 0x400)
      (hnames : (cfg.script p).includes = names ++ next :: rest)
      (hrun : linkIncludes (linkScript cfg d) names (s.extend [⟨p, s.linkGroup⟩] s.patches) =
        .ok true s') : Calls cfg opcodes d next s'

/-- At each call the table is in order, and the nesting may go as deep as it has room. -/
theorem Calls.idle {depth : Nat} {name : String} (h : Calls cfg opcodes depth name s) :
    Idle cfg s ∧ 0x401 ≤ depth + s.linkedScripts.length := by
  induction h with
  | load name h => exact ⟨(reachable_idle h).counted, Nat.le_add_right _ _⟩
  | nested h hp hmagic hnew hroom hnames hrun ih =>
    obtain ⟨hidle, hdepth⟩ := ih
    obtain ⟨⟨new, patches, rfl, hend⟩, -⟩ := (linkIncludes_spec (linkScript_spec cfg _) _
      (hidle.enter hmagic hnew hroom _)).ok hrun
    refine ⟨hend, ?_⟩
    simp only [ActsVm.extend, List.length_append, List.length_singleton]
    omega

/-! ## When imports are resolved -/

/-- There is something that an import asks for. -/
def Wanted (cfg : Config) (funcs : List UInt64) (s : ActsVm) (p : Nat) (imp : ScriptImport) :
    Prop :=
  match importKind imp.flags with
  | .function => Own cfg p imp ∨ firstInclude cfg p imp ≠ none
  | .getBuiltin => imp.name ∈ s.callMethods ∨ imp.name ∈ funcs
  | .functionBuiltin => imp.name ∈ funcs
  | .methodBuiltin => imp.name ∈ s.callMethods
  | .bad => False

/-- Scripts of which nothing is missing. -/
structure Complete (cfg : Config) (funcs : List UInt64) (s : ActsVm) (root : Nat) : Prop where
  magic : ∀ p, Reached cfg.next s.scripts root p → (cfg.script p).magic = actscriptMagic
  found : ∀ p, Reached cfg.next s.scripts root p → p ∉ s.scripts →
    ∀ file ∈ (cfg.script p).includes, ∃ q, cfg.getterFunction file = some q
  imports : ∀ p, Reached cfg.next s.scripts root p → p ∉ s.scripts →
    ∀ imp ∈ (cfg.script p).imports, Wanted cfg funcs s p imp
  room : ∃ scripts : List Nat, s.linkedScripts.length + scripts.length ≤ 0x400 ∧
    ∀ p, Reached cfg.next s.scripts root p → p ∉ s.scripts → p ∈ scripts

/-- The condition: a script without strings, whose own exports are asked for as `OwnFirst` says, and
which asks for no builtin function. -/
structure Resolvable (cfg : Config) (s : ActsVm) (p : Nat) : Prop where
  strings : (cfg.script p).strings = []
  own : OwnFirst cfg p
  functions : ∀ imp ∈ (cfg.script p).imports, importKind imp.flags ≠ .functionBuiltin
  methods : ∀ imp ∈ (cfg.script p).imports, importKind imp.flags = .getBuiltin →
    imp.name ∈ s.callMethods

theorem findBuiltinMethod_ne {name : UInt64} (hmethods : s.callMethods.length ≤ 0x100)
    (h : name ∈ s.callMethods) : findBuiltinMethod s name ≠ badBuiltinId := by
  unfold findBuiltinMethod
  cases hfind : s.callMethods.findIdx? (· == name) with
  | none =>
    have hno := List.findIdx?_eq_none_iff.mp hfind name h
    simp at hno
  | some i =>
    obtain ⟨hi, -⟩ := List.findIdx?_eq_some_iff_getElem.mp hfind
    have hor : i ||| 0x8000 = 2 ^ 15 * 1 + i := by
      rw [Nat.or_comm]
      exact (Nat.two_pow_add_eq_or_of_lt (show i < 2 ^ 15 by omega) 1).symm
    show (i ||| 0x8000) % 2 ^ 16 ≠ badBuiltinId
    unfold badBuiltinId
    omega

theorem findBuiltin_ne {name : UInt64} (h : findBuiltinMethod s name ≠ badBuiltinId) :
    findBuiltin s name ≠ badBuiltinId := by
  unfold findBuiltin
  rwa [if_pos h]

/-- What is asked for under the condition is found. -/
theorem Wanted.found (hmethods : s.callMethods.length ≤ 0x100) (hres : Resolvable cfg s p)
    (himp : imp ∈ (cfg.script p).imports) (h : Wanted cfg funcs s p imp) :
    ImportFound cfg s p imp ∧ Offers cfg s p imp := by
  unfold Wanted at h
  unfold ImportFound Offers
  cases hkind : importKind imp.flags with
  | function =>
    rw [hkind] at h
    by_cases hown : Own cfg p imp
    · refine ⟨.inl hown, ?_⟩
      rcases hres.own imp himp hkind hown with hfirst | hself | ⟨-, hsome⟩
      · exact .inl hfirst
      · exact .inr (by rw [hself]; exact Option.some_ne_none p)
      · exact .inr hsome
    · have hsome : firstInclude cfg p imp ≠ none := h.resolve_left hown
      refine ⟨.inr ?_, .inr hsome⟩
      obtain ⟨q, hq⟩ := Option.ne_none_iff_exists'.mp hsome
      obtain ⟨file, hfile, hget⟩ := List.mem_filterMap.mp (List.mem_of_find?_eq_some hq)
      obtain ⟨j, hj⟩ := Option.isSome_iff_exists.mp
        (List.find?_some (p := fun q => (publicExport cfg q imp).isSome) hq)
      obtain ⟨-, e, he, ⟨hnsp, hname⟩, hpublic⟩ := publicExport_spec hj
      exact ⟨file, hfile, q, hget, e, List.mem_of_getElem? he, hpublic, hnsp, hname⟩
  | getBuiltin =>
    have hne := findBuiltin_ne (findBuiltinMethod_ne hmethods (hres.methods imp himp hkind))
    exact ⟨hne, hne⟩
  | functionBuiltin => exact absurd hkind (hres.functions imp himp)
  | methodBuiltin =>
    rw [hkind] at h
    exact ⟨findBuiltinMethod_ne hmethods h, findBuiltinMethod_ne hmethods h⟩
  | bad =>
    rw [hkind] at h
    exact h.elim

/-- Scripts of which nothing is missing are linked under the condition. -/
theorem linked_of_resolvable {depth root : Nat} {name : String}
    (h : Calls cfg opcodes depth name s) (hmethods : s.callMethods.length ≤ 0x100)
    (hroot : cfg.getterFunction name = some root) (hcomplete : Complete cfg funcs s root)
    (hres : ∀ p, Reached cfg.next s.scripts root p → p ∉ s.scripts → Resolvable cfg s p) :
    ∃ output info s', linkScript cfg depth name s = .ok (.linked output info) s' := by
  have hfound : ∀ p, Reached cfg.next s.scripts root p → p ∉ s.scripts →
      ∀ imp ∈ (cfg.script p).imports, ImportFound cfg s p imp ∧ Offers cfg s p imp :=
    fun p hreach hp imp himp =>
      (hcomplete.imports p hreach hp imp himp).found hmethods (hres p hreach hp) himp
  have hlink : Linkable cfg s root :=
    ⟨hcomplete.magic, hcomplete.found, fun p hreach hp imp himp => (hfound p hreach hp imp himp).1,
      hcomplete.room⟩
  exact linkScript_ok hlink (fun p hreach hp => (hres p hreach hp).strings)
    (fun p hreach hp imp himp => (hfound p hreach hp imp himp).2) depth h.idle.1
    ⟨[], _, (extend_nil s).symm, by simp⟩ h.idle.2 ⟨root, hroot, .root⟩

/-- What a filled script asks for is found by the linker. -/
theorem Filled.functions (h : Filled cfg s p) (himp : imp ∈ (cfg.script p).imports) :
    importKind imp.flags ≠ .functionBuiltin := by
  intro hkind
  obtain ⟨info, -, himports⟩ := h
  obtain ⟨id, hpick, -⟩ := himports imp himp
  unfold Picks at hpick
  rw [hkind] at hpick
  exact hpick

theorem Filled.methods (h : Filled cfg s p) (himp : imp ∈ (cfg.script p).imports)
    (hkind : importKind imp.flags = .getBuiltin) : imp.name ∈ s.callMethods := by
  obtain ⟨info, -, himports⟩ := h
  obtain ⟨id, hpick, -⟩ := himports imp himp
  unfold Picks at hpick
  rw [hkind] at hpick
  obtain ⟨rfl, hne⟩ := hpick
  by_contra hnot
  have hnone : s.callMethods.findIdx? (· == imp.name) = none := by
    rw [List.findIdx?_eq_none_iff]
    intro name hname
    simpa using fun heq : name = imp.name => hnot (heq ▸ hname)
  unfold findBuiltin findBuiltinMethod at hne
  rw [hnone] at hne
  exact hne rfl

/-- What a call that links has done to the scripts that are new and to those that are not. -/
theorem linked_spec {depth root output : Nat} {name : String}
    (h : Calls cfg opcodes depth name s)
    (hapart : ∀ p, (cfg.script p).magic = actscriptMagic → Apart cfg p)
    (hroot : cfg.getterFunction name = some root)
    (hrun : linkScript cfg depth name s = .ok (.linked output info) s') :
    Idle cfg s' ∧ Fills cfg s s' ∧ s'.callMethods = s.callMethods ∧
      ∀ p, Reached cfg.next s.scripts root p → p ∉ s.scripts →
        Filled cfg s' p ∧ (cfg.script p).strings = [] := by
  have hfills := linkScript_fills hapart depth name s output info s' h.idle.1 hrun
  obtain ⟨-, hout⟩ := ((linkScript_spec cfg depth).spec name s h.idle.1).ok hrun
  obtain ⟨root', hroot', hadds⟩ := hout output info rfl
  rw [hroot] at hroot'
  cases hroot'
  refine ⟨hadds.links.idle, hfills, ?_, fun p hreach hp => ?_⟩
  · obtain ⟨new, patches, rfl, -⟩ := hadds
    rfl
  · obtain ⟨new, patches, rfl, hidle, hvisited, hstrings⟩ := hadds
    obtain ⟨new', out, heq, -, hfilled⟩ := hfills
    have hnew : new' = new := by
      have htables := congrArg ActsVm.linkedScripts heq
      exact (List.append_cancel_left htables).symm
    have hmem : p ∈ new.map (·.script) :=
      (List.mem_append.mp (hvisited.mem_iff.mpr (.inr hreach))).resolve_left hp
    obtain ⟨info', hinfo, rfl⟩ := List.mem_map.mp hmem
    exact ⟨hfilled info' (hnew ▸ hinfo), hstrings info' hinfo⟩

/-- **When imports are resolved.**  A call of `LinkActsScript` that returns no error keeps what was
resolved, and the imports of a script that it has linked hold what they should exactly under
`OwnFirst`.  Scripts of which nothing is missing are linked, and then all resolved, exactly if they
are `Resolvable`. -/
theorem link_resolves_iff {depth root : Nat} {name : String} (funcs : List UInt64)
    (h : Calls cfg opcodes depth name s) (hmethods : s.callMethods.length ≤ 0x100)
    (hapart : ∀ p, (cfg.script p).magic = actscriptMagic → Apart cfg p)
    (hroot : cfg.getterFunction name = some root) :
    (∀ output info s', linkScript cfg depth name s = .ok (.linked output info) s' →
      (∀ p ∈ s.scripts, Resolved cfg funcs s p → Resolved cfg funcs s' p) ∧
      ∀ p, Reached cfg.next s.scripts root p → p ∉ s.scripts →
        p ∈ s'.scripts ∧ (Resolved cfg funcs s' p ↔ OwnFirst cfg p)) ∧
    (Complete cfg funcs s root →
      ((∃ output info s', linkScript cfg depth name s = .ok (.linked output info) s' ∧
        ∀ p, Reached cfg.next s.scripts root p → p ∉ s.scripts → Resolved cfg funcs s' p) ↔
      ∀ p, Reached cfg.next s.scripts root p → p ∉ s.scripts → Resolvable cfg s p)) := by
  have hresolved : ∀ output info s', linkScript cfg depth name s = .ok (.linked output info) s' →
      ∀ p, Reached cfg.next s.scripts root p → p ∉ s.scripts →
        p ∈ s'.scripts ∧ (Resolved cfg funcs s' p ↔ OwnFirst cfg p) := by
    intro output info s' hrun p hreach hp
    obtain ⟨hidle, -, hsame, hnew⟩ := linked_spec h hapart hroot hrun
    have hfilled := (hnew p hreach hp).1
    refine ⟨?_, hfilled.resolved_iff hidle (by rw [hsame]; exact hmethods)⟩
    obtain ⟨info', hinfo, -⟩ := hfilled
    exact List.mem_of_getElem? hinfo
  refine ⟨fun output info s' hrun => ⟨fun p hp hold => ?_, hresolved output info s' hrun⟩, ?_⟩
  · obtain ⟨hidle, hfills, -, -⟩ := linked_spec h hapart hroot hrun
    exact hfills.resolved hidle hp hold
  · intro hcomplete
    constructor
    · rintro ⟨output, info, s', hrun, hall⟩ p hreach hp
      obtain ⟨-, -, hsame, hnew⟩ := linked_spec h hapart hroot hrun
      obtain ⟨hfilled, hstrings⟩ := hnew p hreach hp
      refine ⟨hstrings, (hresolved output info s' hrun p hreach hp).2.mp (hall p hreach hp), ?_, ?_⟩
      · exact fun imp himp => hfilled.functions himp
      · intro imp himp hkind
        rw [← hsame]
        exact hfilled.methods himp hkind
    · intro hres
      obtain ⟨output, info, s', hrun⟩ := linked_of_resolvable h hmethods hroot hcomplete hres
      exact ⟨output, info, s', hrun, fun p hreach hp =>
        (hresolved output info s' hrun p hreach hp).2.mpr (hres p hreach hp).own⟩

/-! ## An export of an include, and a second export of the script itself -/

/-- The script `a` has the exports 1 and 2 and the include `b`, which has 2 and 3; it imports
`name`. -/
def twoExports (name : UInt64) : Config where
  getterFunction file := if file = "a" then some 0 else if file = "b" then some 1 else none
  script p :=
    if p = 0 then
      { emptyScript ["b"] with
        imports := [⟨name, 0, 1, [64]⟩]
        exports := [⟨0, 1, 0, 0⟩, ⟨8, 2, 0, 0⟩]
        exports_count := by decide }
    else { emptyScript [] with exports := [⟨0, 2, 0, 0⟩, ⟨8, 3, 0, 0⟩], exports_count := by decide }

theorem twoExports_apart (name : UInt64) (p : Nat) : Apart (twoExports name) p := by
  unfold Apart twoExports
  by_cases hp : p = 0
  · simp [hp]
  · simp [hp, emptyScript]

/-- An export that only the include has is found there. -/
theorem includeExport_resolved : ∃ output info s',
    linkScript (twoExports 3) 0x401 "a" { newVm [] with linkGroup := 1 } =
      .ok (.linked output info) s' ∧ 0 ∈ s'.scripts ∧ Resolved (twoExports 3) [] s' 0 := by
  have hcall : Calls (twoExports 3) (pure ()) 0x401 "a" { newVm [] with linkGroup := 1 } :=
    .load "a" (.new [])
  have hlink := (link_resolves_iff [] hcall (by decide) (fun p _ => twoExports_apart 3 p) rfl).1
    2 0 _ rfl
  obtain ⟨hmem, hresolved⟩ := hlink.2 0 .root (by intro h; cases h)
  refine ⟨2, 0, _, rfl, hmem, hresolved.mpr ?_⟩
  intro imp himp hkind hown
  rw [List.mem_singleton.mp himp] at hown
  obtain ⟨e, he, -, hname⟩ := hown
  rcases List.mem_cons.mp he with rfl | he
  · exact absurd hname (by decide)
  · rw [List.mem_singleton.mp he] at hname
    exact absurd hname (by decide)

theorem secondExport_own : Own (twoExports 2) 0 ⟨2, 0, 1, [64]⟩ :=
  ⟨⟨8, 2, 0, 0⟩, List.mem_cons_of_mem _ List.mem_cons_self, rfl, rfl⟩

/-- The second export of the script itself is passed over for the one of the include. -/
theorem secondExport_not_resolved : ∃ s',
    linkScript (twoExports 2) 0x401 "a" { newVm [] with linkGroup := 1 } = .ok (.linked 2 0) s' ∧
      s'.held 0 64 = some (scriptFuncId 1 0) ∧ ¬Resolved (twoExports 2) [] s' 0 := by
  refine ⟨_, rfl, rfl, fun hres => ?_⟩
  obtain ⟨id, hheld, hdes⟩ := hres ⟨2, 0, 1, [64]⟩ List.mem_cons_self 64 List.mem_cons_self
  cases hheld
  obtain ⟨q, e, hq, he, hfor, hwhose⟩ := hdes
  cases hq
  rcases hwhose with hself | ⟨hnone, -⟩
  · cases hself
  · exact hnone secondExport_own

end Acts.Vm.Loader
