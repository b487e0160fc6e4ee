import Acts.Vm.LoaderLink

/-!
# What the imports of a linked script refer to

* `Designates` — what the identifier at an address of an import should be: an export of that name,
  the script's own one if it has one, or else a public one of an include; or a builtin.
* `Picks` — what the linker finds instead; `designates_iff` — **when that is what it should be.**
* `linkImport_eq` — an import is linked to what the linker picks.
* `Offers` — imports for which it picks something.
-/

set_option autoImplicit false

namespace Acts.Vm.Loader

/-! ## Identifiers -/

def ScriptExport.IsFor (e : ScriptExport) (imp : ScriptImport) : Prop :=
  e.nameSpace = imp.nameSpace ∧ e.name = imp.name

/-- The script itself has an export of that name, private or not. -/
def Own (cfg : Config) (p : Nat) (imp : ScriptImport) : Prop :=
  ∃ e ∈ (cfg.script p).exports, e.IsFor imp

/-- What the identifier of an import should be; `funcs` are the names of the builtin functions, which
the linker never reads. -/
def Designates (cfg : Config) (funcs : List UInt64) (s : ActsVm) (p : Nat) (imp : ScriptImport)
    (id : Nat) : Prop :=
  match importKind imp.flags with
  | .function => ∃ q e, s.scripts[id >>> 16]? = some q ∧
      (cfg.script q).exports[id % 2 ^ 16]? = some e ∧ e.IsFor imp ∧
      (q = p ∨ ¬Own cfg p imp ∧ q ∈ cfg.next p ∧ e.isPrivate = false)
  | .getBuiltin => (∃ i < 2 ^ 15, id = i ||| 0x8000 ∧ s.callMethods[i]? = some imp.name) ∨
      funcs[id]? = some imp.name
  | .methodBuiltin => ∃ i < 2 ^ 15, id = i ||| 0x8000 ∧ s.callMethods[i]? = some imp.name
  | .functionBuiltin => funcs[id]? = some imp.name
  | .bad => False

/-! ## What the linker finds -/

/-- The place of a public export. -/
def publicExport (cfg : Config) (q : Nat) (imp : ScriptImport) : Option Nat :=
  (cfg.script q).exports.findIdx? fun e =>
    !e.isPrivate && e.nameSpace == imp.nameSpace && e.name == imp.name

/-- The first include that has one. -/
def firstInclude (cfg : Config) (p : Nat) (imp : ScriptImport) : Option Nat :=
  (cfg.next p).find? fun q => (publicExport cfg q imp).isSome

/-- The first export of the script is the one. -/
def FirstOwn (cfg : Config) (p : Nat) (imp : ScriptImport) : Prop :=
  ∃ e exports, (cfg.script p).exports = e :: exports ∧ e.IsFor imp

/-- What the linker finds for an import of the script at place `info`. -/
def Picks (cfg : Config) (s : ActsVm) (info p : Nat) (imp : ScriptImport) (id : Nat) : Prop :=
  match importKind imp.flags with
  | .function => (FirstOwn cfg p imp ∧ id = scriptFuncId info 0) ∨
      ¬FirstOwn cfg p imp ∧ ∃ q i j, firstInclude cfg p imp = some q ∧ s.scripts[i]? = some q ∧
        publicExport cfg q imp = some j ∧ id = scriptFuncId i j
  | .getBuiltin => id = findBuiltin s imp.name ∧ id ≠ badBuiltinId
  | .methodBuiltin => id = findBuiltinMethod s imp.name ∧ id ≠ badBuiltinId
  | .functionBuiltin | .bad => False

variable {cfg : Config} {funcs : List UInt64} {s : ActsVm} {p q info id i j d : Nat}
  {imp : ScriptImport}

theorem scriptFuncId_parts (hi : i < 0x400) (hj : j < 2 ^ 16) :
    scriptFuncId i j >>> 16 = i ∧ scriptFuncId i j % 2 ^ 16 = j := by
  have hor : i <<< 16 ||| j = i * 2 ^ 16 + j := by
    rw [← Nat.shiftLeft_add_eq_or_of_lt hj, Nat.shiftLeft_eq]
  unfold scriptFuncId
  rw [hor, Nat.shiftRight_eq_div_pow]
  omega

theorem publicExport_spec (h : publicExport cfg q imp = some j) :
    j < 2 ^ 16 ∧ ∃ e, (cfg.script q).exports[j]? = some e ∧ e.IsFor imp ∧ e.isPrivate = false := by
  obtain ⟨hj, he, -⟩ := List.findIdx?_eq_some_iff_getElem.mp h
  have hcount := (cfg.script q).exports_count
  refine ⟨by omega, _, List.getElem?_eq_getElem hj, ?_⟩
  simp only [Bool.and_eq_true, Bool.not_eq_true', beq_iff_eq] at he
  exact ⟨⟨he.1.2, he.2⟩, he.1.1⟩

theorem findBuiltinMethod_spec (hmethods : s.callMethods.length ≤ 0x100)
    (h : findBuiltinMethod s imp.name ≠ badBuiltinId) :
    ∃ i < 2 ^ 15, findBuiltinMethod s imp.name = i ||| 0x8000 ∧
      s.callMethods[i]? = some imp.name := by
  unfold findBuiltinMethod at h ⊢
  cases hfind : s.callMethods.findIdx? (· == imp.name) with
  | none =>
    rw [hfind] at h
    exact absurd rfl h
  | some i =>
    obtain ⟨hi, hname, -⟩ := List.findIdx?_eq_some_iff_getElem.mp hfind
    have hor : i ||| 0x8000 < 2 ^ 16 := Nat.or_lt_two_pow (by omega) (by decide)
    refine ⟨i, by omega, Nat.mod_eq_of_lt hor, ?_⟩
    rw [List.getElem?_eq_getElem hi]
    exact congrArg some (by simpa using hname)

theorem place_lt (h : Idle cfg s) (hi : s.scripts[i]? = some q) : i < 0x400 := by
  have hsize := h.size
  have hlen := (List.getElem?_eq_some_iff.mp hi).1
  unfold ActsVm.scripts at hlen
  rw [List.length_map] at hlen
  omega

/-- **When what the linker finds is what it should find.** -/
theorem designates_iff (h : Idle cfg s) (hmethods : s.callMethods.length ≤ 0x100)
    (hp : s.scripts[info]? = some p) (hpick : Picks cfg s info p imp id) :
    Designates cfg funcs s p imp id ↔ (importKind imp.flags = .function → Own cfg p imp →
      FirstOwn cfg p imp ∨ firstInclude cfg p imp = some p) := by
  unfold Picks at hpick
  unfold Designates
  cases hkind : importKind imp.flags with
  | function =>
    rw [hkind] at hpick
    simp only at hpick ⊢
    rcases hpick with ⟨⟨e, exports, hexports, he⟩, rfl⟩ | ⟨hnot, q, i, j, hfirst, hi, hj, rfl⟩
    · obtain ⟨hhigh, hlow⟩ := scriptFuncId_parts (j := 0) (place_lt h hp) (by decide)
      rw [hhigh, hlow]
      refine iff_of_true ⟨p, e, hp, by rw [hexports]; rfl, he, .inl rfl⟩ ?_
      exact fun _ _ => .inl ⟨e, exports, hexports, he⟩
    · obtain ⟨hlt, e, he, hfor, hpublic⟩ := publicExport_spec hj
      obtain ⟨hhigh, hlow⟩ := scriptFuncId_parts (place_lt h hi) hlt
      rw [hhigh, hlow, hi]
      constructor
      · rintro ⟨q', e', hq', -, -, hwhose⟩ - hown
        cases hq'
        rcases hwhose with rfl | ⟨hnone, -⟩
        · exact .inr hfirst
        · exact absurd hown hnone
      · intro hfound
        refine ⟨q, e, rfl, he, hfor, ?_⟩
        by_cases hown : Own cfg p imp
        · rcases hfound trivial hown with hfirst' | hself
          · exact absurd hfirst' hnot
          · rw [hfirst] at hself
            exact .inl (Option.some.inj hself)
        · exact .inr ⟨hown, List.mem_of_find?_eq_some hfirst, hpublic⟩
  | getBuiltin =>
    rw [hkind] at hpick
    obtain ⟨rfl, hne⟩ := hpick
    have hmethod : findBuiltinMethod s imp.name ≠ badBuiltinId := by
      intro hbad
      unfold findBuiltin at hne
      rw [if_neg (not_not_intro hbad)] at hne
      exact hne rfl
    have hid : findBuiltin s imp.name = findBuiltinMethod s imp.name := if_pos hmethod
    rw [hid]
    exact iff_of_true (.inl (findBuiltinMethod_spec hmethods hmethod)) (by rintro ⟨⟩)
  | methodBuiltin =>
    rw [hkind] at hpick
    obtain ⟨rfl, hne⟩ := hpick
    exact iff_of_true (findBuiltinMethod_spec hmethods hne) (by rintro ⟨⟩)
  | functionBuiltin =>
    rw [hkind] at hpick
    exact hpick.elim
  | bad =>
    rw [hkind] at hpick
    exact hpick.elim

/-! ## The search -/

/-- A script of the table is found there. -/
theorem linkScript_seen (h : Idle cfg s) {name : String} (hq : cfg.getterFunction name = some q)
    (hmem : q ∈ s.scripts) :
    ∃ i, s.scripts[i]? = some q ∧ linkScript cfg (d + 1) name s = .ok (.linked 0 i) s := by
  have hrun : linkScript cfg (d + 1) name s = linkActsScript cfg (linkScript cfg d) q s := by
    show (getActsScript cfg name >>= linkActsScript cfg (linkScript cfg d)) s = _
    unfold getActsScript
    rw [hq]
    rfl
  rw [hrun]
  rcases linkActsScript_cases cfg (linkScript cfg d) q s with ⟨hmagic, -⟩ | hseen | ⟨hp, -, -⟩ |
    ⟨-, hp, -, -⟩
  · exact absurd (h.magic q hmem) hmagic
  · exact hseen
  · exact absurd hmem hp
  · exact absurd hmem hp

theorem scriptFuncId_ne {info i : Nat} (hinfo : info < 0x400) (hi : i < 2 ^ 16) :
    scriptFuncId info i ≠ badScriptFuncId := by
  have hshift : info <<< 16 < 2 ^ 26 := by
    rw [Nat.shiftLeft_eq]
    omega
  have hor : info <<< 16 ||| i < 2 ^ 26 := Nat.or_lt_two_pow hshift (by omega)
  unfold scriptFuncId badScriptFuncId
  omega

theorem findScriptFunction_eq (d : Nat) (imp : ScriptImport) (h : Idle cfg s) {file : String}
    (hq : cfg.getterFunction file = some q) (hmem : q ∈ s.scripts) :
    ∃ i, s.scripts[i]? = some q ∧
      findScriptFunction cfg (linkScript cfg (d + 1)) file imp.nameSpace imp.name s =
        .ok ((publicExport cfg q imp).elim badScriptFuncId (scriptFuncId i)) s := by
  obtain ⟨i, hi, hrun⟩ : ∃ i, s.scripts[i]? = some q ∧
      linkScript cfg (d + 1) file s = .ok (.linked 0 i) s := linkScript_seen h hq hmem
  obtain ⟨info, hinfo, rfl⟩ : ∃ info, s.linkedScripts[i]? = some info ∧ info.script = q := by
    unfold ActsVm.scripts at hi
    rwa [List.getElem?_map, Option.map_eq_some_iff] at hi
  refine ⟨i, hi, ?_⟩
  unfold findScriptFunction publicExport
  rw [bind_ok hrun]
  simp only
  rw [get_bind, hinfo]
  simp only
  cases (cfg.script info.script).exports.findIdx? fun e =>
    !e.isPrivate && e.nameSpace == imp.nameSpace && e.name == imp.name
  · rfl
  · rfl

/-- What the search in the includes finds. -/
def Searched (cfg : Config) (s : ActsVm) (imp : ScriptImport) (files : List String) (ref : Nat) :
    Prop :=
  match (files.filterMap cfg.getterFunction).find? fun q => (publicExport cfg q imp).isSome with
  | none => ref = badScriptFuncId
  | some q => ∃ i j, s.scripts[i]? = some q ∧ publicExport cfg q imp = some j ∧
      ref = scriptFuncId i j

theorem findInIncludes_eq (d : Nat) (imp : ScriptImport) (h : Idle cfg s) {files : List String} (hseen : AllSeen cfg s files) :
    ∃ ref, findInIncludes cfg (linkScript cfg (d + 1)) imp.nameSpace imp.name files s =
      .ok ref s ∧ Searched cfg s imp files ref := by
  induction files with
  | nil => exact ⟨badScriptFuncId, rfl, rfl⟩
  | cons file files ih =>
    obtain ⟨q, hq, hmem⟩ := hseen file List.mem_cons_self
    obtain ⟨i, hi, hrun⟩ := findScriptFunction_eq d imp h hq hmem
    unfold findInIncludes Searched
    rw [bind_ok hrun, List.filterMap_cons_some hq, List.find?_cons]
    cases hidx : publicExport cfg q imp with
    | none =>
      obtain ⟨ref, hrest, hsearched⟩ := ih fun file' hfile' => hseen file' (List.mem_cons_of_mem _ hfile')
      exact ⟨ref, hrest, hsearched⟩
    | some j =>
      have hne := scriptFuncId_ne (place_lt h hi) (publicExport_spec hidx).1
      exact ⟨scriptFuncId i j, congrFun (if_pos hne) s, i, j, hi, hidx, rfl⟩

/-- The result of `GetScriptExport`: what the linker picks, or nothing. -/
theorem getScriptExport_eq (h : Idle cfg s) (hp : s.scripts[info]? = some p)
    (hseen : AllSeen cfg s (cfg.script p).includes) (hkind : importKind imp.flags = .function) :
    ∃ ref, getScriptExport cfg (linkScript cfg (d + 1)) info (cfg.script p) imp.nameSpace
      imp.name s = .ok ref s ∧
      (Picks cfg s info p imp ref ∧ ref ≠ badScriptFuncId ∨
        ref = badScriptFuncId ∧ ¬FirstOwn cfg p imp ∧ firstInclude cfg p imp = none) := by
  obtain ⟨ref, hrun, hsearched⟩ := findInIncludes_eq d imp h hseen
  unfold Picks
  rw [hkind]
  simp only
  have hincludes : ¬FirstOwn cfg p imp →
      ((FirstOwn cfg p imp ∧ ref = scriptFuncId info 0) ∨ ¬FirstOwn cfg p imp ∧
        ∃ q i j, firstInclude cfg p imp = some q ∧ s.scripts[i]? = some q ∧
          publicExport cfg q imp = some j ∧ ref = scriptFuncId i j) ∧ ref ≠ badScriptFuncId ∨
        ref = badScriptFuncId ∧ ¬FirstOwn cfg p imp ∧ firstInclude cfg p imp = none := by
    intro hnot
    unfold Searched at hsearched
    cases hfirst : firstInclude cfg p imp with
    | none =>
      unfold firstInclude Config.next at hfirst
      rw [hfirst] at hsearched
      exact .inr ⟨hsearched, hnot, rfl⟩
    | some q =>
      have hfirst' := hfirst
      unfold firstInclude Config.next at hfirst'
      rw [hfirst'] at hsearched
      obtain ⟨i, j, hi, hj, rfl⟩ := hsearched
      exact .inl ⟨.inr ⟨hnot, q, i, j, rfl, hi, hj, rfl⟩,
        scriptFuncId_ne (place_lt h hi) (publicExport_spec hj).1⟩
  unfold getScriptExport
  cases hexports : (cfg.script p).exports with
  | nil =>
    refine ⟨ref, hrun, hincludes ?_⟩
    rintro ⟨e, exports, he, -⟩
    rw [hexports] at he
    cases he
  | cons exp exports =>
    by_cases hexp : exp.name = imp.name ∧ exp.nameSpace = imp.nameSpace
    · exact ⟨scriptFuncId info 0, by simp only; rw [if_pos hexp]; rfl,
        .inl ⟨.inl ⟨⟨exp, exports, hexports, hexp.symm⟩, rfl⟩,
          scriptFuncId_ne (place_lt h hp) (by decide)⟩⟩
    · refine ⟨ref, by simp only; rw [if_neg hexp]; exact hrun, hincludes ?_⟩
      rintro ⟨e, exports', he, hfor⟩
      rw [hexports] at he
      cases he
      exact hexp hfor.symm

/-- **An import is linked to what the linker picks, if there is something.** -/
theorem linkImport_eq (d : Nat) (imp : ScriptImport) (h : Idle cfg s) (hp : s.scripts[info]? = some p)
    (hseen : AllSeen cfg s (cfg.script p).includes) :
    (∃ id, Picks cfg s info p imp id ∧ linkImport cfg (linkScript cfg (d + 1)) info p imp s =
      .ok () (s.extend [] (s.patches ++ imp.refs.map fun ref => (p, ref, id)))) ∨
    (∀ id, ¬Picks cfg s info p imp id) ∧
      ∃ fault, linkImport cfg (linkScript cfg (d + 1)) info p imp s = .error fault s := by
  have hpatched : ∀ (id : Nat) (bad : Prop) [Decidable bad] (fault : Fault), ¬bad →
      (if bad then throw fault else patch p imp.refs id : LoadM Unit) s =
        .ok () (s.extend [] (s.patches ++ imp.refs.map fun ref => (p, ref, id))) := by
    intro id bad _ fault hbad
    rw [if_neg hbad]
    unfold ActsVm.extend
    rw [List.append_nil]
    rfl
  have hthrown : ∀ (id : Nat) (bad : Prop) [Decidable bad] (fault : Fault), bad →
      (if bad then throw fault else patch p imp.refs id : LoadM Unit) s = .error fault s := by
    intro id bad _ fault hbad
    rw [if_pos hbad]
    rfl
  unfold linkImport
  dsimp only
  cases hkind : importKind imp.flags with
  | function =>
    obtain ⟨ref, hrun, ⟨hpick, hne⟩ | ⟨rfl, hnot, hnone⟩⟩ :=
      getScriptExport_eq (d := d) h hp hseen hkind
    · exact .inl ⟨ref, hpick, (bind_ok hrun).trans (hpatched ref _ _ hne)⟩
    · refine .inr ⟨?_, _, (bind_ok hrun).trans (hthrown _ _ _ rfl)⟩
      intro id hpick
      unfold Picks at hpick
      rw [hkind] at hpick
      rcases hpick with ⟨hfirst, -⟩ | ⟨-, q, i, j, hfirst, -⟩
      · exact hnot hfirst
      · rw [hnone] at hfirst
        cases hfirst
  | getBuiltin =>
    unfold Picks
    rw [hkind]
    by_cases hbad : findBuiltin s imp.name = badBuiltinId
    · refine .inr ⟨?_, _, hthrown _ _ _ hbad⟩
      rintro id ⟨rfl, hne⟩
      exact hne hbad
    · exact .inl ⟨_, ⟨rfl, hbad⟩, hpatched _ _ _ hbad⟩
  | functionBuiltin =>
    unfold Picks
    rw [hkind]
    exact .inr ⟨fun id hpick => hpick, _, hthrown _ _ _ rfl⟩
  | methodBuiltin =>
    unfold Picks
    rw [hkind]
    by_cases hbad : findBuiltinMethod s imp.name = badBuiltinId
    · refine .inr ⟨?_, _, hthrown _ _ _ hbad⟩
      rintro id ⟨rfl, hne⟩
      exact hne hbad
    · exact .inl ⟨_, ⟨rfl, hbad⟩, hpatched _ _ _ hbad⟩
  | bad =>
    unfold Picks
    rw [hkind]
    exact .inr ⟨fun id hpick => hpick, _, rfl⟩

/-- There is something for the linker to find. -/
def Offers (cfg : Config) (s : ActsVm) (p : Nat) (imp : ScriptImport) : Prop :=
  match importKind imp.flags with
  | .function => FirstOwn cfg p imp ∨ firstInclude cfg p imp ≠ none
  | .getBuiltin => findBuiltin s imp.name ≠ badBuiltinId
  | .methodBuiltin => findBuiltinMethod s imp.name ≠ badBuiltinId
  | .functionBuiltin | .bad => False

theorem Offers.picks (hseen : AllSeen cfg s (cfg.script p).includes) (h : Offers cfg s p imp)
    (info : Nat) : ∃ id, Picks cfg s info p imp id := by
  unfold Offers at h
  unfold Picks
  cases hkind : importKind imp.flags <;> rw [hkind] at h
  · by_cases hfirst : FirstOwn cfg p imp
    · exact ⟨_, .inl ⟨hfirst, rfl⟩⟩
    · obtain ⟨q, hq⟩ := Option.ne_none_iff_exists'.mp (h.resolve_left hfirst)
      have hsome : (publicExport cfg q imp).isSome = true :=
        List.find?_some (p := fun q => (publicExport cfg q imp).isSome) hq
      obtain ⟨j, hj⟩ := Option.isSome_iff_exists.mp hsome
      obtain ⟨file, hfile, hget⟩ := List.mem_filterMap.mp (List.mem_of_find?_eq_some hq)
      obtain ⟨q', hget', hmem⟩ := hseen file hfile
      rw [hget] at hget'
      cases hget'
      obtain ⟨i, hi⟩ := List.mem_iff_getElem?.mp hmem
      exact ⟨_, .inr ⟨hfirst, q, i, j, hq, hi, hj, rfl⟩⟩
  · exact ⟨_, rfl, h⟩
  · exact h.elim
  · exact ⟨_, rfl, h⟩
  · exact h.elim

theorem Offers.of_methods {s' : ActsVm} (h : Offers cfg s p imp)
    (hmethods : s'.callMethods = s.callMethods) : Offers cfg s' p imp := by
  unfold Offers findBuiltin findBuiltinMethod at h ⊢
  rw [hmethods]
  exact h

end Acts.Vm.Loader
