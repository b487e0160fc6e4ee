import Acts.Vm.LoaderResolved

/-!
# Scripts that fail to link

* `Enters` — a call of `LinkScript` makes an entry in the table, before it links anything.
* `failed_link_spec` — what a failed call leaves: an entry that was made stays.
* `CleanRun` — runs in which no call fails behind its entry.
* `failed_links_iff` — **the table is as it was before a failed call iff that made no entry**; in a
  clean run the scripts of the table are patched.
-/

set_option autoImplicit false

namespace Acts.Vm.Loader

variable {cfg : Config} {opcodes : LoadM Unit} {s s' : ActsVm} {name : String}

/-- A call does not link; a loop that does not end is no failure. -/
def Fails (call : LoadM LinkOutput) (s s' : ActsVm) : Prop :=
  (∃ out, call s = .ok out s' ∧ ∀ output info, out ≠ .linked output info) ∨
    ∃ fault, fault ≠ .hang ∧ call s = .error fault s'

/-- The script is found, is one, is not in the table, and the table has room. -/
def Enters (cfg : Config) (s : ActsVm) (name : String) : Prop :=
  ∃ p, cfg.getterFunction name = some p ∧ (cfg.script p).magic = actscriptMagic ∧
    p ∉ s.scripts ∧ s.linkedScripts.length ≠ 0x400

/-! ## One call -/

theorem linkScript_some {p : Nat} (hp : cfg.getterFunction name = some p) (depth : Nat) :
    linkScript cfg (depth + 1) name s = linkActsScript cfg (linkScript cfg depth) p s := by
  show (getActsScript cfg name >>= linkActsScript cfg (linkScript cfg depth)) s = _
  unfold getActsScript
  rw [hp]
  rfl

theorem linkScript_none (hp : cfg.getterFunction name = none) (depth : Nat) :
    linkScript cfg (depth + 1) name s = .error (.cantFindScript name) s := by
  show (getActsScript cfg name >>= linkActsScript cfg (linkScript cfg depth)) s = _
  unfold getActsScript
  rw [hp]
  rfl

/-- A call that ends where it started. -/
theorem Fails.of_ok {call : LoadM LinkOutput} {out : LinkOutput} (h : Fails call s s')
    (hrun : call s = .ok out s) : s' = s := by
  rcases h with ⟨out', hrun', -⟩ | ⟨fault, -, hrun'⟩
  · rw [hrun] at hrun'
    cases hrun'
    rfl
  · rw [hrun] at hrun'
    cases hrun'

/-- A failed call changes nothing, or leaves the entry of its script and what it linked. -/
theorem failed_link_spec {depth : Nat} (h : Idle cfg s)
    (hfail : Fails (linkScript cfg depth name) s s') :
    (¬ Enters cfg s name → s' = s) ∧
      (Enters cfg s name → ∃ p new patches, cfg.getterFunction name = some p ∧
        s' = s.extend (⟨p, s.linkGroup⟩ :: new) patches ∧ Idle cfg s') := by
  cases depth with
  | zero =>
    rcases hfail with ⟨out, hrun, -⟩ | ⟨fault, hhang, hrun⟩
    · cases hrun
    · cases hrun
      exact absurd rfl hhang
  | succ depth =>
    cases hp : cfg.getterFunction name with
    | none =>
      refine ⟨fun _ => ?_, fun ⟨p, hsome, _⟩ => by rw [hp] at hsome; cases hsome⟩
      rcases hfail with ⟨out, hrun, -⟩ | ⟨fault, -, hrun⟩
      · rw [linkScript_none hp] at hrun
        cases hrun
      · rw [linkScript_none hp] at hrun
        cases hrun
        rfl
    | some p =>
      have hsame : ∀ {out}, linkActsScript cfg (linkScript cfg depth) p s = .ok out s → s' = s :=
        fun hrun => hfail.of_ok ((linkScript_some hp depth).trans hrun)
      have henters : Enters cfg s name → (cfg.script p).magic = actscriptMagic ∧
          p ∉ s.scripts ∧ s.linkedScripts.length ≠ 0x400 := by
        rintro ⟨q, hq, hrest⟩
        rw [hp] at hq
        cases hq
        exact hrest
      rcases linkActsScript_cases cfg (linkScript cfg depth) p s with ⟨hmagic, hrun⟩ |
        ⟨i, hi, hrun⟩ | ⟨-, hfull, hrun⟩ | ⟨hmagic, hnew, hroom, hrun⟩
      · exact ⟨fun _ => hsame hrun, fun h => absurd (henters h).1 hmagic⟩
      · exact ⟨fun _ => hsame hrun, fun h => absurd (List.mem_of_getElem? hi) (henters h).2.1⟩
      · exact ⟨fun _ => hsame hrun, fun h => absurd hfull (henters h).2.2⟩
      · refine ⟨fun hnot => absurd ⟨p, hp, hmagic, hnew, hroom⟩ hnot, fun _ => ?_⟩
        have hidle := h.enter hmagic hnew hroom s.linkGroup
        have hends := linkEntry_spec (linkScript_spec cfg depth) hidle s.linkedScripts.length p
        have hlinks : Links cfg (s.extend [⟨p, s.linkGroup⟩] s.patches) s' := by
          rcases hfail with ⟨out, hcall, -⟩ | ⟨fault, -, hcall⟩
          · rw [linkScript_some hp, hrun] at hcall
            exact (hends.ok hcall).1
          · rw [linkScript_some hp, hrun] at hcall
            exact hends.error hcall
        obtain ⟨new, patches, rfl, hend⟩ := hlinks
        rw [extend_extend] at hend ⊢
        exact ⟨p, new, patches, rfl, rfl, hend⟩

/-! ## Runs -/

/-- The machines after calls of `LoadScript` of which none failed to link its script behind the
entry. -/
inductive CleanRun (cfg : Config) (opcodes : LoadM Unit) : ActsVm → Prop
  | new (callMethods : List UInt64) : CleanRun cfg opcodes (newVm callMethods)
  | loaded {s s' : ActsVm} {turns : Nat} {name : String} (h : CleanRun cfg opcodes s)
      (hload : loadScript cfg opcodes turns name s = .ok () s') : CleanRun cfg opcodes s'
  | thrown {s s' : ActsVm} {turns : Nat} {name : String} {fault : Fault}
      (h : CleanRun cfg opcodes s) (hfault : fault ≠ .hang)
      (hload : loadScript cfg opcodes turns name s = .error fault s')
      (hclean : ∀ s₁, Fails (linkScript cfg 0x401 name) { s with linkGroup := s.linkGroup + 1 } s₁ →
        ¬ Enters cfg s name) : CleanRun cfg opcodes s'

theorem CleanRun.reachable (h : CleanRun cfg opcodes s) : Reachable cfg opcodes s := by
  induction h with
  | new callMethods => exact .new callMethods
  | loaded _ hload ih => exact .loaded ih hload
  | thrown _ hfault hload _ ih => exact .thrown ih hfault hload

/-- The scripts of the table hold what they refer to. -/
def Patched (cfg : Config) (s : ActsVm) : Prop :=
  ∀ p ∈ s.scripts, (cfg.script p).strings = [] ∧ Filled cfg s p

/-- What starting exports leaves alone. -/
def Keeps (s s' : ActsVm) : Prop :=
  ∃ threads currentThread topScripts started, s' = { s with
    threads := threads, currentThread := currentThread, topScripts := topScripts, started := started }

theorem Keeps.refl (s : ActsVm) : Keeps s s := ⟨_, _, _, _, rfl⟩

theorem Keeps.trans {s'' : ActsVm} (h : Keeps s s') (h' : Keeps s' s'') : Keeps s s'' := by
  obtain ⟨_, _, _, _, rfl⟩ := h
  obtain ⟨_, _, _, _, rfl⟩ := h'
  exact ⟨_, _, _, _, rfl⟩

theorem Keeps.patched (h : Keeps s s') (hpatched : Patched cfg s) : Patched cfg s' := by
  obtain ⟨_, _, _, _, rfl⟩ := h
  exact hpatched

theorem startExport_keeps (h : Idle cfg s) (script : Nat) (exp : ScriptExport) :
    Ends (startExport opcodes script exp) s (fun _ _ => False) (Keeps s) := by
  unfold startExport
  apply Ends.get
  refine ((allocThread_spec s _).mono (fun _ _ h => h) ?_).bind ?_
  · rintro s' rfl
    exact .refl s'
  · rintro thread s' ⟨rfl, threads, rfl⟩
    rw [h.noThread]
    exact ⟨_, _, _, _, rfl⟩

theorem exportsLoop_keeps (h : Idle cfg s) (script turns : Nat) :
    Ends (exportsLoop cfg opcodes script turns) s (fun _ s' => s' = s) (Keeps s) := by
  induction turns with
  | zero => exact .refl s
  | succ turns ih =>
    unfold exportsLoop
    split
    · rfl
    · split
      · exact (startExport_keeps h script _).bind fun _ _ hfalse => hfalse.elim
      · exact ih

theorem scriptsLoop_keeps (h : Idle cfg s) (turns : Nat) :
    Ends (scriptsLoop cfg opcodes turns) s (fun _ => Keeps s) (Keeps s) := by
  induction turns generalizing s with
  | zero => exact .refl s
  | succ turns ih =>
    unfold Ends scriptsLoop
    cases hinfo : s.linkedScripts[s.topScripts]? with
    | none => exact .refl s
    | some info =>
      have hlt : s.topScripts < s.linkedScripts.length := (List.getElem?_eq_some_iff.1 hinfo).1
      have hidle : Idle cfg { s with topScripts := s.topScripts + 1 } :=
        ⟨h.noThread, h.alloc, h.stringStart, h.nodup, h.size, h.magic, hlt⟩
      have hnext : Keeps s { s with topScripts := s.topScripts + 1 } := ⟨_, _, _, _, rfl⟩
      refine Ends.bind ((exportsLoop_keeps hidle info.script turns).mono (fun _ _ h => h)
        fun _ => hnext.trans) ?_
      rintro _ s₁ rfl
      exact (ih hidle).mono (fun _ _ => hnext.trans) fun _ => hnext.trans

/-- A call that links patches the scripts that it adds. -/
theorem linked_patched (hapart : ∀ p, (cfg.script p).magic = actscriptMagic → Apart cfg p)
    (h : Idle cfg s) (hpatched : Patched cfg s) {depth output info : Nat}
    (hrun : linkScript cfg depth name s = .ok (.linked output info) s') :
    Patched cfg s' ∧ Idle cfg s' := by
  obtain ⟨new, out, rfl, hout, hfilled⟩ := linkScript_fills hapart depth name s output info s' h hrun
  obtain ⟨hlinks, hadds⟩ := ((linkScript_spec cfg depth).spec name s h).ok hrun
  obtain ⟨root, -, new', patches, heq, -, -, hstrings⟩ := hadds output info rfl
  have hnew : new' = new := (List.append_cancel_left (congrArg ActsVm.linkedScripts heq)).symm
  have hidle := hlinks.idle
  refine ⟨fun p hp => ?_, hidle⟩
  rw [scripts_extend, List.mem_append] at hp
  rcases hp with hp | hp
  · obtain ⟨hnone, hold⟩ := hpatched p hp
    refine ⟨hnone, hold.extend new fun patch hpatch => ?_⟩
    obtain ⟨info', hinfo', heq'⟩ := hout patch hpatch
    rw [heq']
    exact new_ne_old hidle hinfo' hp
  · obtain ⟨info', hinfo', rfl⟩ := List.mem_map.mp hp
    exact ⟨hstrings info' (hnew ▸ hinfo'), hfilled info' hinfo'⟩

/-- **In a clean run all scripts of the table are patched.** -/
theorem CleanRun.patched (hapart : ∀ p, (cfg.script p).magic = actscriptMagic → Apart cfg p)
    (h : CleanRun cfg opcodes s) : Patched cfg s := by
  induction h with
  | new callMethods => exact fun p hp => by cases hp
  | @loaded s s' turns name h hload ih =>
    have hidle := (reachable_idle h.reachable).counted
    unfold loadScript at hload
    rw [modify_bind] at hload
    obtain ⟨out, s₁, hlink, hrest⟩ := returns_of_bind hload
    cases out with
    | cantFind => cases hrest
    | errorIncludes => cases hrest
    | errorTooMany => cases hrest
    | linked output info =>
      obtain ⟨hpatched, hidle₁⟩ := linked_patched hapart hidle ih hlink
      exact ((scriptsLoop_keeps hidle₁ turns).ok hrest).patched hpatched
  | @thrown s s' turns name fault h hfault hload hclean ih =>
    have hidle := (reachable_idle h.reachable).counted
    have hfailed : ∀ s₁, Fails (linkScript cfg 0x401 name)
        { s with linkGroup := s.linkGroup + 1 } s₁ → Patched cfg s₁ := by
      intro s₁ hfail
      rw [(failed_link_spec hidle hfail).1 (hclean s₁ hfail)]
      exact ih
    unfold loadScript at hload
    rw [modify_bind] at hload
    cases hlink : linkScript cfg 0x401 name { s with linkGroup := s.linkGroup + 1 } with
    | error fault' s₁ =>
      rw [bind_error hlink] at hload
      cases hload
      exact hfailed s' (.inr ⟨fault, hfault, hlink⟩)
    | ok out s₁ =>
      rw [bind_ok hlink] at hload
      cases out with
      | cantFind =>
        cases hload
        exact hfailed s' (.inl ⟨_, hlink, fun _ _ hout => by cases hout⟩)
      | errorIncludes =>
        cases hload
        exact hfailed s' (.inl ⟨_, hlink, fun _ _ hout => by cases hout⟩)
      | errorTooMany =>
        cases hload
        exact hfailed s' (.inl ⟨_, hlink, fun _ _ hout => by cases hout⟩)
      | linked output info =>
        obtain ⟨hpatched, hidle₁⟩ := linked_patched hapart hidle ih hlink
        exact ((scriptsLoop_keeps hidle₁ turns).error hload).patched hpatched

/-! ## Failed calls -/

/-- **A failed call of `LinkScript` leaves the table as it was iff it made no entry.**  Behind an
entry a later call of the same script reports success and does nothing.  In a run whose failed calls
made no entry, the scripts of the table hold all that they refer to. -/
theorem failed_links_iff (opcodes : LoadM Unit)
    (hapart : ∀ p, (cfg.script p).magic = actscriptMagic → Apart cfg p) :
    (∀ (depth : Nat) (name : String) (s s' : ActsVm), Calls cfg opcodes depth name s →
      Fails (linkScript cfg depth name) s s' →
        (s'.linkedScripts = s.linkedScripts ↔ ¬ Enters cfg s name) ∧
        (Enters cfg s name → ∀ d, ∃ i, linkScript cfg (d + 1) name s' = .ok (.linked 0 i) s')) ∧
    ∀ s, CleanRun cfg opcodes s → Patched cfg s := by
  refine ⟨fun depth name s s' hcall hfail => ?_, fun s h => h.patched hapart⟩
  obtain ⟨hnone, hentry⟩ := failed_link_spec hcall.idle.1 hfail
  refine ⟨⟨fun htable henters => ?_, fun hnot => by rw [hnone hnot]⟩, fun henters d => ?_⟩
  · obtain ⟨p, new, patches, -, rfl, -⟩ := hentry henters
    have hlength := congrArg List.length htable
    simp [ActsVm.extend] at hlength
  · obtain ⟨p, new, patches, hp, rfl, hidle⟩ := hentry henters
    obtain ⟨i, -, hrun⟩ := linkScript_seen (d := d) hidle hp (by simp)
    exact ⟨i, hrun⟩

/-! ## An import that nothing exports -/

/-- The script `a` imports the function 9, which it does not have; `b` includes it. -/
def missingExport : Config where
  getterFunction file := if file = "a" then some 0 else if file = "b" then some 1 else none
  script p :=
    if p = 0 then { emptyScript [] with imports := [⟨9, 0, 1, [64]⟩] } else emptyScript ["a"]

theorem missingExport_apart (p : Nat) : Apart missingExport p := by
  unfold Apart missingExport
  by_cases hp : p = 0
  · simp [hp]
  · simp [hp, emptyScript]

/-- A script that is not found leaves the table. -/
theorem notFound_keeps_table : ∃ s',
    Fails (linkScript missingExport 0x401 "c") { newVm [] with linkGroup := 1 } s' ∧
      s'.linkedScripts = [] := by
  have hfail : Fails (linkScript missingExport 0x401 "c") { newVm [] with linkGroup := 1 }
      { newVm [] with linkGroup := 1 } :=
    .inr ⟨.cantFindScript "c", by simp, rfl⟩
  have hlinks := (failed_links_iff (pure ()) fun p _ => missingExport_apart p).1
  have hcall := hlinks 0x401 "c" _ _ (.load "c" (.new [])) hfail
  refine ⟨_, hfail, hcall.1.mpr ?_⟩
  rintro ⟨p, hp, -⟩
  cases hp

/-- The import stays without a reference, and the script and its includer are then linked. -/
theorem missingExport_linked : ∃ s' s'',
    linkScript missingExport 0x401 "a" { newVm [] with linkGroup := 1 } =
      .error (.cantFindScriptExport 0 9 "script") s' ∧
    s'.linkedScripts = [⟨0, 1⟩] ∧
    linkScript missingExport 0x401 "a" s' = .ok (.linked 0 0) s' ∧
    linkScript missingExport 0x401 "b" s' = .ok (.linked 2 1) s'' ∧
    s'.held 0 64 = none ∧ s''.held 0 64 = none :=
  ⟨_, _, rfl, rfl, rfl, rfl, rfl, rfl⟩

end Acts.Vm.Loader
