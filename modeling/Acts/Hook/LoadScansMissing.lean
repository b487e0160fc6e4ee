import Acts.Hook.LoadScansFound

/-!
# Missing scans (`hook/generated_scan_runtime.cpp`)

`LoadScansMulti` lets the container ignore missing scans while it runs.

* `isMissing`, `reads` — what a scan with given results lacks, and the results that are read.
* `compile_outcome`, `useScans_outcome` — how the two loops end.
* `Reports` — the setting is as before, and the call throws for missing scans only.
* `loadScansMulti_reports_iff` — **which calls do so.**
-/

set_option autoImplicit false

namespace Acts.Hook

/-! ## Results of a scan -/

/-- There is no result, or more than the one that is asked for. -/
def ScanInformation.isMissing (si : ScanInformation) (ress : List Int) : Bool :=
  !si.multiple && (ress.isEmpty || si.single && ress.length != 1)

/-- `GetScanResult` reads from a result without a fault. -/
def ScanInformation.readable (p : Platform) (si : ScanInformation) (res : Int) : Bool :=
  match si.type with
  | .relative => res == 0 || (p.peek32 (res + si.offset)).isSome
  | .absolute => true
  | .getOffset32 => (p.peek32 (res + si.offset)).isSome
  | .offset => false

/-- The results that are read; of a scan that was searched for, the null result where it is
missing. -/
def ScanInformation.reads (si : ScanInformation) (searched : Bool) (ress : List Int) : List Int :=
  if si.multiple then ress
  else if si.isMissing ress then (if searched then [0] else [])
  else ress.take 1

def ScanInformation.usable (p : Platform) (si : ScanInformation) (searched : Bool)
    (ress : List Int) : Bool :=
  (si.reads searched ress).all (si.readable p)

/-- `foundMissing` is the same, too. -/
structure Quiet (w w' : World) : Prop extends Touched w w' where
  foundMissing : w'.container.foundMissing = w.container.foundMissing

section Steps

variable {p : Platform} {w w' w'' : World} {si : ScanInformation}

theorem Quiet.refl (w : World) : Quiet w w := ⟨.refl w, rfl⟩

theorem Quiet.trans (h : Quiet w w') (h' : Quiet w' w'') : Quiet w w'' :=
  ⟨h.toTouched.trans h'.toTouched, h'.foundMissing.trans h.foundMissing⟩

theorem Touched.locations (h : Touched w w') (k : UInt64) : w'.locations k = w.locations k := by
  unfold World.locations
  rw [h.valueAt, h.lib]

theorem storeValue_quiet (si : ScanInformation) (ref : Int) (w : World) :
    ∃ w', storeValue si ref w = .ok ⟨⟩ w' ∧ Quiet w w' :=
  ⟨w.store si ref, rfl, ⟨⟨rfl, rfl, rfl, rfl, rfl, rfl, rfl, rfl⟩, fun _ => rfl⟩, rfl⟩

theorem getScanResult_outcome (hsi : si.type ≠ .offset) (res : Int) :
    EndsIn (getScanResult p si res) w (fun _ w' => w' = w ∧ si.readable p res = true)
      (fun e w' => e = .accessViolation ∧ w' = w ∧ si.readable p res = false) := by
  have hget : ∀ address, EndsIn (get32 p address) w
      (fun _ w' => w' = w ∧ (p.peek32 address).isSome = true)
      (fun e w' => e = .accessViolation ∧ w' = w ∧ (p.peek32 address).isSome = false) := by
    intro address
    unfold get32
    split
    · rename_i hpeek
      exact .of_ok rfl ⟨rfl, by rw [hpeek]; rfl⟩
    · rename_i hpeek
      exact .of_error rfl ⟨rfl, rfl, by rw [hpeek]; rfl⟩
  unfold getScanResult ScanInformation.readable
  cases htype : si.type with
  | relative =>
    dsimp only
    split
    · rename_i hres
      exact .of_ok rfl ⟨rfl, by rw [hres]; rfl⟩
    · rename_i hres
      rw [beq_eq_false_iff_ne.mpr hres, Bool.false_or]
      apply (hget _).bind (fun _ _ h => h)
      rintro v w' ⟨rfl, hsome⟩
      exact .of_ok rfl ⟨rfl, hsome⟩
  | absolute => exact .of_ok rfl ⟨rfl, rfl⟩
  | offset => exact absurd htype hsi
  | getOffset32 =>
    apply EndsIn.get
    dsimp only
    apply (hget _).bind (fun _ _ h => h)
    rintro v w' ⟨rfl, hsome⟩
    exact .of_ok rfl ⟨rfl, hsome⟩

/-- A result is read and stored, or the read faults. -/
theorem storeResult_outcome {α : Type} {f : PUnit → M α} {R : α → World → Prop}
    {E : Failure → World → Prop} (hsi : si.type ≠ .offset) (res : Int)
    (hE : si.readable p res = false → E .accessViolation w)
    (hf : si.readable p res = true → ∀ w', Quiet w w' → EndsIn (f ⟨⟩) w' R E) :
    EndsIn (do let v ← getScanResult p si res; storeValue si v >>= f) w R E := by
  apply (getScanResult_outcome hsi res).bind
  · rintro e w' ⟨rfl, rfl, hread⟩
    exact hE hread
  · rintro v w' ⟨rfl, hread⟩
    obtain ⟨w₁, hstore, hquiet⟩ := storeValue_quiet si v w'
    exact .after hstore (hf hread w₁ hquiet)

theorem loadScanResultAll_outcome (hsi : si.type ≠ .offset) (ress : List Int) (w : World) :
    EndsIn (loadScanResultAll p si ress) w
      (fun _ w' => Quiet w w' ∧ ress.all (si.readable p) = true)
      (fun e w' => e = .accessViolation ∧ Touched w w' ∧ ress.all (si.readable p) = false) := by
  induction ress generalizing w with
  | nil => exact .of_ok rfl ⟨.refl w, rfl⟩
  | cons res ress ih =>
    unfold loadScanResultAll
    apply storeResult_outcome hsi res
    · intro hread
      exact ⟨rfl, .refl w, by rw [List.all_cons, hread, Bool.false_and]⟩
    · intro hread w' h
      rw [List.all_cons, hread, Bool.true_and]
      exact (ih w').mono (fun _ _ h' => ⟨h.trans h'.1, h'.2⟩)
        fun _ _ h' => ⟨h'.1, h.toTouched.trans h'.2.1, h'.2.2⟩

/-- A cached scan is answered, unless the read of a result faults. -/
theorem loadCached_outcome (hsi : si.type ≠ .offset) (ress : List Int) (w : World) :
    EndsIn (loadCached p si ress) w
      (fun b w' => Quiet w w' ∧ b = si.isMissing ress ∧ si.usable p false ress = true)
      (fun e w' => e = .accessViolation ∧ Touched w w' ∧ si.usable p false ress = false) := by
  unfold loadCached ScanInformation.usable ScanInformation.reads ScanInformation.isMissing
  cases hmultiple : si.multiple with
  | true =>
    rw [if_pos rfl, if_pos rfl]
    apply (loadScanResultAll_outcome hsi ress w).bind fun _ _ h => h
    rintro _ w' ⟨hquiet, hall⟩
    exact .of_ok rfl ⟨hquiet, rfl, hall⟩
  | false =>
    rw [if_neg Bool.false_ne_true, if_neg Bool.false_ne_true]
    cases ress with
    | nil => exact .of_ok rfl ⟨.refl w, rfl, rfl⟩
    | cons first rest =>
      have hcount : (si.single && !rest.isEmpty) =
          (si.single && (first :: rest).length != 1) := by
        cases rest <;> rfl
      dsimp only
      rw [hcount, List.isEmpty_cons, Bool.false_or, Bool.not_false, Bool.true_and]
      split
      · rename_i hmissing
        exact .of_ok rfl ⟨.refl w, hmissing.symm, rfl⟩
      · rename_i hmissing
        simp only [List.take_succ_cons, List.take_zero, List.all_cons, List.all_nil, Bool.and_true]
        apply storeResult_outcome hsi first
        · exact fun hread => ⟨rfl, .refl w, hread⟩
        · exact fun hread w' hquiet =>
            .of_ok rfl ⟨hquiet, (Bool.not_eq_true _ ▸ hmissing).symm, hread⟩

end Steps

/-! ## The first loop -/

/-- A scan that does not end the first loop: a cached one whose results can be read, or a pattern
that can be packed. -/
def Ready (p : Platform) (w : World) (si : ScanInformation) : Prop :=
  si.type = .offset ∨
    (if (w.valueAt si.key).loaded then si.usable p false (w.locations si.key) = true
    else ∃ packed, packScan si.scan = .ok packed)

/-- A cached scan that is missing. -/
def cachedMissing (w : World) (si : ScanInformation) : Bool :=
  si.type ≠ .offset && (w.valueAt si.key).loaded && si.isMissing (w.locations si.key)

/-- A pattern that can be packed is indexed. -/
def Compiled.addScan (comp : Compiled) (si : ScanInformation) : Compiled :=
  match packScan si.scan with
  | .ok packed => comp.add ⟨si, packed⟩
  | .error _ => comp

/-- What the walk looks for. -/
def compiled (w : World) (list : List ScanInformation) : Compiled :=
  (list.filter (pending w)).foldl Compiled.addScan {}

section Compile

variable {p : Platform} {w w' : World}

theorem addScan_anyMissing (comp : Compiled) (b : Bool) (si : ScanInformation) :
    ({ comp with anyMissing := b } : Compiled).addScan si =
      { comp.addScan si with anyMissing := b } := by
  unfold Compiled.addScan
  split <;> rfl

theorem foldl_addScan_anyMissing (comp : Compiled) (b : Bool) (list : List ScanInformation) :
    list.foldl Compiled.addScan { comp with anyMissing := b } =
      { list.foldl Compiled.addScan comp with anyMissing := b } := by
  induction list generalizing comp with
  | nil => rfl
  | cons si list ih => rw [List.foldl_cons, List.foldl_cons, addScan_anyMissing, ih]

theorem ready_congr (h : Touched w w') (si : ScanInformation) : Ready p w' si ↔ Ready p w si := by
  unfold Ready
  rw [h.valueAt, h.locations]

theorem cachedMissing_congr (h : Touched w w') : cachedMissing w' = cachedMissing w := by
  funext si
  unfold cachedMissing
  rw [h.valueAt, h.locations]

/-- **The first loop ends well exactly when all scans are ready**; it remembers whether a cached one
is missing. -/
theorem compile_outcome (list : List ScanInformation) (comp : Compiled) (w : World)
    (hs : patterns list ≠ [] → Synced w) :
    EndsIn (compile p list comp) w
      (fun comp' w' => Touched w w' ∧
        comp' = { (list.filter (pending w)).foldl Compiled.addScan comp with
          anyMissing := comp.anyMissing || list.any (cachedMissing w) } ∧
        ∀ si ∈ list, Ready p w si)
      (fun _ w' => Touched w w' ∧ ∃ si ∈ list, ¬Ready p w si) := by
  induction list generalizing comp w with
  | nil =>
    refine .of_ok rfl ⟨.refl w, ?_, fun si hsi => absurd hsi List.not_mem_nil⟩
    rw [List.any_nil, Bool.or_false]
    rfl
  | cons si list ih =>
    -- the rest of the list, behind a scan that is ready
    have hrest : ∀ comp' w₁, Touched w w₁ → Ready p w si →
        comp' = { ([si].filter (pending w)).foldl Compiled.addScan comp with
          anyMissing := comp.anyMissing || cachedMissing w si } →
        EndsIn (compile p list comp') w₁
          (fun comp'' w' => Touched w w' ∧
            comp'' = { ((si :: list).filter (pending w)).foldl Compiled.addScan comp with
              anyMissing := comp.anyMissing || (si :: list).any (cachedMissing w) } ∧
            ∀ si' ∈ si :: list, Ready p w si')
          (fun _ w' => Touched w w' ∧ ∃ si' ∈ si :: list, ¬Ready p w si') := by
      intro comp' w₁ h₁ hready hcomp
      have hs₁ : patterns list ≠ [] → Synced w₁ := by
        intro hne
        refine h₁.toFrame.synced (hs ?_)
        intro hnil
        unfold patterns at hne hnil
        exact hne (List.filter_eq_nil_iff.mpr fun si' hsi' =>
          List.filter_eq_nil_iff.mp hnil si' (List.mem_cons_of_mem _ hsi'))
      apply (ih comp' w₁ hs₁).mono
      · rintro comp'' w' ⟨htouched, rfl, hall⟩
        refine ⟨h₁.trans htouched, ?_, ?_⟩
        · rw [pending_congr h₁, cachedMissing_congr h₁, hcomp, foldl_addScan_anyMissing,
            List.any_cons, ← Bool.or_assoc, ← List.foldl_append, ← List.filter_append,
            List.singleton_append]
        · intro si' hsi'
          rcases List.mem_cons.mp hsi' with rfl | hsi'
          · exact hready
          · exact (ready_congr h₁ si').mp (hall si' hsi')
      · rintro e w' ⟨htouched, si', hsi', hnot⟩
        refine ⟨h₁.trans htouched, si', List.mem_cons_of_mem _ hsi', ?_⟩
        rw [← ready_congr h₁]
        exact hnot
    unfold compile
    by_cases htype : si.type = .offset
    · rw [if_pos htype]
      obtain ⟨w₁, hload, h₁⟩ := loadScanOffset_touched si w
      have hnot : ¬pending w si = true := by simp [pending, htype]
      have hnone : cachedMissing w si = false := by
        unfold cachedMissing
        rw [htype]
        rfl
      refine .after hload (hrest comp w₁ h₁ (.inl htype) ?_)
      rw [hnone, Bool.or_false, List.filter_cons_of_neg hnot]
      rfl
    · rw [if_neg htype]
      have hsynced : Synced w := by
        refine hs fun hnil => ?_
        unfold patterns at hnil
        exact List.filter_eq_nil_iff.mp hnil si List.mem_cons_self (decide_eq_true htype)
      have htouch := touched_touch w si.key
      apply EndsIn.after (getCached_eq hsynced)
      cases hloaded : (w.valueAt si.key).loaded with
      | true =>
        have hif : (w.valueAt (hash64 si.scan)).loaded = true := hloaded
        rw [if_pos hif]
        apply EndsIn.get
        have hress : scanCached (w.touch (hash64 si.scan)).container.lib
            (w.valueAt (hash64 si.scan)) = w.locations si.key := by
          unfold scanCached
          rw [if_pos hif]
          exact congrArg (fun lib : Int => (w.valueAt si.key).res.map fun (rva : Nat) => lib + rva)
            htouch.lib
        rw [hress]
        apply (loadCached_outcome htype _ _).bind
        · rintro e w' ⟨rfl, h', hread⟩
          refine ⟨htouch.trans h', si, List.mem_cons_self, ?_⟩
          rintro (hoffset | hready)
          · exact htype hoffset
          · rw [if_pos hloaded, hread] at hready
            cases hready
        · rintro isMissing w' ⟨h', rfl, hread⟩
          have hnot : ¬pending w si = true := by simp [pending, hloaded]
          have hmissing : cachedMissing w si = si.isMissing (w.locations si.key) := by
            unfold cachedMissing
            rw [hloaded, decide_eq_true htype]
            rfl
          refine hrest _ w' (htouch.trans h'.toTouched)
            (.inr (by rw [if_pos hloaded]; exact hread)) ?_
          rw [hmissing, List.filter_cons_of_neg hnot]
          rfl
      | false =>
        have hif : ¬(w.valueAt (hash64 si.scan)).loaded = true :=
          fun h => Bool.false_ne_true (hloaded.symm.trans h)
        have hnone : cachedMissing w si = false := by
          unfold cachedMissing
          rw [hloaded, Bool.and_false, Bool.false_and]
        rw [if_neg hif]
        cases hpack : packScan si.scan with
        | error e =>
          refine .of_error rfl ⟨htouch, si, List.mem_cons_self, ?_⟩
          rintro (hoffset | hready)
          · exact htype hoffset
          · rw [hloaded, if_neg Bool.false_ne_true, hpack] at hready
            obtain ⟨packed, hpacked⟩ := hready
            cases hpacked
        | ok packed =>
          have hpending : pending w si = true := by simp [pending, htype, hloaded]
          refine hrest _ _ htouch (.inr ?_) ?_
          · rw [hloaded, if_neg Bool.false_ne_true]
            exact ⟨packed, hpack⟩
          · rw [hnone, Bool.or_false, List.filter_cons_of_pos hpending, List.filter_nil,
              List.foldl_cons, List.foldl_nil, Compiled.addScan, hpack]
            rfl

end Compile

/-! ## The last loop -/

section Use

variable {p : Platform} {w w' : World} {cs : CompiledScan}

/-- A cached value: the first result, or the null result where it is missing. -/
theorem scanAs_outcome {path : Pattern} (hs : Synced w) (hignore : w.container.ignoreMissing = true)
    (hloaded : (w.valueAt (hash64 path)).loaded = true) (single : Bool) (ress : List Int)
    (hress : w.locations (hash64 path) = ress) :
    ∃ res w', scanAs p single path w = .ok res w' ∧ Touched w w' ∧
      w'.container.foundMissing =
        (w.container.foundMissing || (ress.isEmpty || single && ress.length != 1)) ∧
      (if ress.isEmpty || single && ress.length != 1 then [0] else ress.take 1) = [res] := by
  have hscan : scan p path w = .ok ress w := by
    rw [scan_of_loaded hs hloaded, scanCached, if_pos hloaded, ← hress]
    rfl
  have hmissing : ∀ failure, ∃ w', missing failure w = .ok 0 w' ∧ Touched w w' ∧
      w'.container.foundMissing = true := by
    intro failure
    refine ⟨{ w with container := { w.container with foundMissing := true } }, ?_,
      ⟨⟨rfl, rfl, rfl, rfl, rfl, rfl, rfl, rfl⟩, fun _ => rfl⟩, rfl⟩
    unfold missing
    rw [get_bind, if_pos hignore]
    rfl
  unfold scanAs
  cases single with
  | true =>
    rw [if_pos rfl]
    unfold scanSingle
    rw [bind_ok hscan]
    cases ress with
    | nil =>
      obtain ⟨w', hrun, htouched, hfound⟩ := hmissing .cannotFind
      exact ⟨0, w', hrun, htouched, by rw [hfound, List.isEmpty_nil, Bool.true_or, Bool.or_true],
        rfl⟩
    | cons first rest =>
      cases rest with
      | nil => exact ⟨first, w, rfl, .refl w, (Bool.or_false _).symm, rfl⟩
      | cons second rest =>
        obtain ⟨w', hrun, htouched, hfound⟩ := hmissing .tooManyFinds
        have hmore : (true && (first :: second :: rest).length != 1) = true := by
          rw [Bool.true_and, bne_iff_ne, List.length_cons, List.length_cons]
          omega
        refine ⟨0, w', hrun, htouched, ?_, ?_⟩
        · rw [hfound, hmore, Bool.or_true, Bool.or_true]
        · rw [hmore, Bool.or_true, if_pos rfl]
  | false =>
    rw [if_neg Bool.false_ne_true]
    unfold scanAny
    rw [bind_ok hscan]
    cases ress with
    | nil =>
      obtain ⟨w', hrun, htouched, hfound⟩ := hmissing .cannotFind
      exact ⟨0, w', hrun, htouched, by rw [hfound, List.isEmpty_nil, Bool.true_or, Bool.or_true],
        rfl⟩
    | cons first rest => exact ⟨first, w, rfl, .refl w, (Bool.or_false _).symm, rfl⟩

theorem locations_markLoaded (w : World) (k k' : UInt64) :
    (w.markLoaded k).locations k' = w.locations k' := by
  have hres : ((w.markLoaded k).valueAt k').res = (w.valueAt k').res := by
    rw [valueAt_markLoaded]
    split
    · rename_i hk
      rw [hk]
    · rfl
  unfold World.locations
  rw [hres]
  rfl

theorem useScan_outcome (hs : Synced w) (hignore : w.container.ignoreMissing = true)
    (htype : cs.scan.type ≠ .offset) :
    EndsIn (useScan p cs) w
      (fun _ w' => Frame w w' ∧ (∀ k, w'.locations k = w.locations k) ∧
        w'.container.foundMissing =
          (w.container.foundMissing || cs.scan.isMissing (w.locations cs.key)) ∧
        cs.scan.usable p true (w.locations cs.key) = true)
      (fun e _ => e = .accessViolation ∧ cs.scan.usable p true (w.locations cs.key) = false) := by
  have hs' : Synced (w.markLoaded cs.key) := hs
  have hmark := locations_markLoaded w cs.key
  have hframe := frame_setResults w
    (w.container.results.insert cs.key { w.valueAt cs.key with loaded := true })
  have hloaded : ((w.markLoaded cs.key).valueAt (hash64 cs.scan.scan)).loaded = true := by
    rw [valueAt_markLoaded]
    exact congrArg ResultValue.loaded (if_pos rfl)
  have hress : (w.markLoaded cs.key).locations (hash64 cs.scan.scan) = w.locations cs.key :=
    hmark cs.key
  generalize hresults : w.locations cs.key = ress at hress
  unfold useScan ScanInformation.usable ScanInformation.reads ScanInformation.isMissing
  apply EndsIn.modify
  cases hmultiple : cs.scan.multiple with
  | true =>
    rw [if_pos rfl, if_pos rfl]
    have hscan : scan p cs.scan.scan (w.markLoaded cs.key) = .ok ress (w.markLoaded cs.key) := by
      rw [scan_of_loaded hs' hloaded, scanCached, if_pos hloaded, ← hress]
      rfl
    apply EndsIn.after hscan
    apply (loadScanResultAll_outcome htype ress _).mono
    · rintro _ w' ⟨hquiet, hall⟩
      refine ⟨hframe.trans hquiet.toFrame, fun k => ?_, ?_, hall⟩
      · rw [hquiet.toTouched.locations, hmark]
      · rw [hquiet.foundMissing]
        exact (Bool.or_false _).symm
    · rintro e w' ⟨he, -, hall⟩
      exact ⟨he, hall⟩
  | false =>
    rw [if_neg Bool.false_ne_true, if_neg Bool.false_ne_true]
    obtain ⟨res, w₁, hscan, htouched, hfound, hread⟩ :=
      scanAs_outcome (p := p) hs' hignore hloaded cs.scan.single ress hress
    rw [Bool.not_false, Bool.true_and, if_pos rfl, hread]
    simp only [List.all_cons, List.all_nil, Bool.and_true]
    apply EndsIn.after hscan
    apply (getScanResult_outcome htype res).bind
    · rintro e w' ⟨rfl, -, hfault⟩
      exact ⟨rfl, hfault⟩
    · rintro v w' ⟨rfl, hok⟩
      obtain ⟨w₂, hstore, hquiet⟩ := storeValue_quiet cs.scan v w'
      refine .of_ok hstore ⟨hframe.trans (htouched.toFrame.trans hquiet.toFrame), fun k => ?_, ?_,
        hok⟩
      · rw [hquiet.toTouched.locations, htouched.locations, hmark]
      · rw [hquiet.foundMissing, hfound]
        rfl

/-- **The last loop ends well exactly when the results can be read**; it remembers whether one is
missing. -/
theorem useScans_outcome (cscans : List CompiledScan) (hs : Synced w)
    (hignore : w.container.ignoreMissing = true) (htypes : ∀ cs ∈ cscans, cs.scan.type ≠ .offset) :
    EndsIn (useScans p cscans) w
      (fun _ w' => w'.container.foundMissing = (w.container.foundMissing ||
          cscans.any fun cs => cs.scan.isMissing (w.locations cs.key)) ∧
        ∀ cs ∈ cscans, cs.scan.usable p true (w.locations cs.key) = true)
      (fun e _ => e = .accessViolation ∧
        ∃ cs ∈ cscans, cs.scan.usable p true (w.locations cs.key) = false) := by
  induction cscans generalizing w with
  | nil => exact .of_ok rfl ⟨(Bool.or_false _).symm, fun cs hcs => absurd hcs List.not_mem_nil⟩
  | cons cs cscans ih =>
    unfold useScans
    apply (useScan_outcome hs hignore (htypes cs List.mem_cons_self)).bind
    · rintro e w' ⟨he, hfault⟩
      exact ⟨he, cs, List.mem_cons_self, hfault⟩
    · rintro _ w₁ ⟨hframe, hlocations, hfound, hok⟩
      apply (ih (hframe.synced hs) (hframe.ignoreMissing.trans hignore)
        fun c hc => htypes c (List.mem_cons_of_mem cs hc)).mono
      · rintro _ w' ⟨hfound', hall⟩
        simp only [hlocations] at hfound' hall
        refine ⟨?_, ?_⟩
        · rw [hfound', hfound, List.any_cons, Bool.or_assoc]
        · intro c hc
          rcases List.mem_cons.mp hc with rfl | hc
          · exact hok
          · exact hall c hc
      · rintro e w' ⟨he, c, hc, hfault⟩
        rw [hlocations] at hfault
        exact ⟨he, c, List.mem_cons_of_mem cs hc, hfault⟩

end Use

/-! ## A call -/

/-- The locations under a hash together with those of its patterns that the walk comes by. -/
def World.walked (p : Platform) (w : World) (list : List ScanInformation) (k : UInt64) : List Int :=
  (((compiled w list).found p w.container.lib k).foldl pushNew (w.valueAt k).res).map
    fun (rva : Nat) => w.container.lib + (rva : Int)

/-- The results of a scan: those that are cached, or those that the memory holds. -/
def resultsOf (p : Platform) (w : World) (list : List ScanInformation) (si : ScanInformation) :
    List Int :=
  if pending w si then w.walked p list si.key else w.locations si.key

/-- A scan that is not multiple has no result, or a single one has several. -/
def anyMissing (p : Platform) (w : World) (list : List ScanInformation) : Bool :=
  (patterns list).any fun si => si.isMissing (resultsOf p w list si)

/-- Every pattern that is searched for is well formed, the results can be read, and where a scan is
missing and must not be there is one to search for. -/
structure Fine (p : Platform) (w : World) (list : List ScanInformation) : Prop where
  packs : ∀ si ∈ list, pending w si = true → ∃ packed, packScan si.scan = .ok packed
  readable : ∀ si ∈ patterns list, si.usable p (pending w si) (resultsOf p w list si) = true
  searches : anyMissing p w list = true → w.container.ignoreMissing = false →
    ∃ si ∈ list, pending w si = true

section Call

variable {p : Platform} {w w₁ : World} {list : List ScanInformation}

theorem mem_patterns {si : ScanInformation} :
    si ∈ patterns list ↔ si ∈ list ∧ si.type ≠ .offset := by
  unfold patterns
  rw [List.mem_filter, decide_eq_true_eq]

theorem pending_iff {si : ScanInformation} :
    pending w si = true ↔ si.type ≠ .offset ∧ (w.valueAt si.key).loaded = false := by
  unfold pending
  rw [Bool.and_eq_true, decide_eq_true_eq, Bool.not_eq_true']

theorem resultsOf_cached {si : ScanInformation} (h : (w.valueAt si.key).loaded = true) :
    resultsOf p w list si = w.locations si.key := by
  have hnot : ¬pending w si = true := by
    rw [pending_iff, h]
    rintro ⟨-, hcontra⟩
    cases hcontra
  unfold resultsOf
  rw [if_neg hnot]

/-- A scan that is not ready is one that makes the call wrong. -/
theorem not_fine_of_not_ready (h : ∃ si ∈ list, ¬Ready p w si) : ¬Fine p w list := by
  obtain ⟨si, hsi, hnot⟩ := h
  intro hfine
  have htype : si.type ≠ .offset := fun htype => hnot (.inl htype)
  refine hnot (.inr ?_)
  cases hloaded : (w.valueAt si.key).loaded with
  | true =>
    have hread := hfine.readable si (mem_patterns.mpr ⟨hsi, htype⟩)
    have hpending : pending w si = false := by
      rw [Bool.eq_false_iff, Ne, pending_iff, hloaded]
      rintro ⟨-, hcontra⟩
      cases hcontra
    rw [resultsOf_cached hloaded, hpending] at hread
    rw [if_pos rfl]
    exact hread
  | false =>
    rw [if_neg Bool.false_ne_true]
    exact hfine.packs si hsi (pending_iff.mpr ⟨htype, hloaded⟩)

theorem any_or {α : Type} (f g : α → Bool) (l : List α) :
    (l.any fun a => f a || g a) = (l.any f || l.any g) := by
  induction l with
  | nil => rfl
  | cons a l ih =>
    rw [List.any_cons, List.any_cons, List.any_cons, ih]
    cases f a <;> cases g a <;> simp

/-- The scans that are missing were cached, or have been searched for. -/
theorem anyMissing_eq (p : Platform) (w : World) (list : List ScanInformation) :
    anyMissing p w list = (list.any (cachedMissing w) ||
      (list.filter (pending w)).any fun si =>
        si.isMissing (w.walked p list si.key)) := by
  have hone : ∀ si, (decide (si.type ≠ .offset) && si.isMissing (resultsOf p w list si)) =
      (cachedMissing w si ||
        (pending w si && si.isMissing (w.walked p list si.key))) := by
    intro si
    unfold resultsOf cachedMissing pending
    cases htype : decide (si.type ≠ ScanType.offset) with
    | false => rfl
    | true =>
      cases hloaded : (w.valueAt si.key).loaded with
      | true =>
        simp only [Bool.true_and, Bool.not_true, Bool.false_eq_true, if_false, Bool.false_and,
          Bool.or_false]
      | false =>
        simp only [Bool.true_and, Bool.not_false, if_true, Bool.and_true, Bool.false_and,
          Bool.and_false, Bool.false_or]
  unfold anyMissing patterns
  rw [List.any_filter, List.any_filter, ← any_or]
  exact congrArg list.any (funext hone)

theorem foldl_addScan_cscans (list : List ScanInformation) (comp : Compiled)
    (h : ∀ si ∈ list, ∃ packed, packScan si.scan = .ok packed) :
    (list.foldl Compiled.addScan comp).cscans.map (·.scan) = comp.cscans.map (·.scan) ++ list := by
  induction list generalizing comp with
  | nil => exact (List.append_nil _).symm
  | cons si list ih =>
    obtain ⟨packed, hpack⟩ := h si List.mem_cons_self
    rw [List.foldl_cons, ih _ fun si' hsi' => h si' (List.mem_cons_of_mem si hsi')]
    unfold Compiled.addScan
    rw [hpack]
    simp [Compiled.add]

/-- What is compiled is what has to be searched. -/
theorem compiled_scans (h : ∀ si ∈ list, Ready p w si) :
    (compiled w list).cscans.map (·.scan) = list.filter (pending w) := by
  unfold compiled
  rw [foldl_addScan_cscans]
  · rfl
  · intro si hsi
    obtain ⟨hmem, hpending⟩ := List.mem_filter.mp hsi
    obtain ⟨htype, hloaded⟩ := pending_iff.mp hpending
    rcases h si hmem with hoffset | hready
    · exact absurd hoffset htype
    · rw [if_neg (by rw [hloaded]; exact Bool.false_ne_true)] at hready
      exact hready

/-- The walk leaves these locations. -/
theorem locations_walked (h : Touched w w₁) (k : UInt64) :
    (w₁.setResults (searchRegions (compiled w list) w₁.container.lib
      (readableRegions p w₁.container.lib) w₁.container.results)).locations k =
        w.walked p list k := by
  unfold World.locations World.walked
  rw [valueAt_search, h.valueAt]
  show List.map (fun rva : Nat => w₁.container.lib + (rva : Int)) _ = _
  rw [h.lib]
  rfl

theorem packs_of_ready (h : ∀ si ∈ list, Ready p w si) :
    ∀ si ∈ list, pending w si = true → ∃ packed, packScan si.scan = .ok packed := by
  intro si hsi hpending
  obtain ⟨htype, hloaded⟩ := pending_iff.mp hpending
  rcases h si hsi with hoffset | hready
  · exact absurd hoffset htype
  · rw [if_neg (by rw [hloaded]; exact Bool.false_ne_true)] at hready
    exact hready

/-- What is cached can be read where all scans are ready. -/
theorem readable_of_ready (h : ∀ si ∈ list, Ready p w si)
    (hwalked : ∀ si ∈ list.filter (pending w), si.usable p true (w.walked p list si.key) = true) :
    ∀ si ∈ patterns list, si.usable p (pending w si) (resultsOf p w list si) = true := by
  intro si hsi
  obtain ⟨hmem, htype⟩ := mem_patterns.mp hsi
  unfold resultsOf
  cases hpending : pending w si with
  | true =>
    rw [if_pos rfl]
    exact hwalked si (List.mem_filter.mpr ⟨hmem, hpending⟩)
  | false =>
    rw [if_neg Bool.false_ne_true]
    have hloaded : (w.valueAt si.key).loaded = true := by
      cases hloaded : (w.valueAt si.key).loaded with
      | true => rfl
      | false => exact absurd (pending_iff.mpr ⟨htype, hloaded⟩) (Bool.eq_false_iff.mp hpending)
    rcases h si hmem with hoffset | hready
    · exact absurd hoffset htype
    · rw [if_pos hloaded] at hready
      exact hready

/-- What the last loop makes of the results of the walk. -/
theorem used_outcome {w₂ : World} (hs : Synced w) (h₂ : Touched (w.ignoring true) w₂)
    (hready : ∀ si ∈ list, Ready p w si)
    (hfound : w₂.container.foundMissing = list.any (cachedMissing w)) :
    EndsIn (useScans p (compiled w list).cscans)
      (w₂.setResults (searchRegions (compiled w list) w₂.container.lib
        (readableRegions p w₂.container.lib) w₂.container.results))
      (fun _ w' => w'.container.foundMissing = anyMissing p w list ∧
        ∀ si ∈ patterns list, si.usable p (pending w si) (resultsOf p w list si) = true)
      (fun e _ => e = .accessViolation ∧ ¬Fine p w list) := by
  have hscans := compiled_scans hready
  have hwalked : ∀ k, (w₂.setResults (searchRegions (compiled w list) w₂.container.lib
      (readableRegions p w₂.container.lib) w₂.container.results)).locations k =
        w.walked p list k := @locations_walked p (w.ignoring true) w₂ list h₂
  have hmem : ∀ cs ∈ (compiled w list).cscans, cs.scan ∈ list.filter (pending w) := by
    intro cs hcs
    rw [← hscans]
    exact List.mem_map.mpr ⟨cs, hcs, rfl⟩
  have htypes : ∀ cs ∈ (compiled w list).cscans, cs.scan.type ≠ .offset := fun cs hcs =>
    (pending_iff.mp (List.mem_filter.mp (hmem cs hcs)).2).1
  have hframe := h₂.toFrame.trans (frame_setResults w₂ (searchRegions (compiled w list)
    w₂.container.lib (readableRegions p w₂.container.lib) w₂.container.results))
  apply (useScans_outcome _ (hframe.synced hs) hframe.ignoreMissing htypes).mono
  · rintro _ w' ⟨hfound', hall⟩
    simp only [hwalked] at hfound' hall
    refine ⟨?_, readable_of_ready hready ?_⟩
    · rw [hfound', anyMissing_eq, ← hscans, List.any_map]
      exact congrArg (· || _) hfound
    · intro si hsi
      rw [← hscans] at hsi
      obtain ⟨cs, hcs, rfl⟩ := List.mem_map.mp hsi
      exact hall cs hcs
  · rintro e w' ⟨he, cs, hcs, hfault⟩
    refine ⟨he, fun hfine => ?_⟩
    rw [hwalked] at hfault
    obtain ⟨hlist, hpending⟩ := List.mem_filter.mp (hmem cs hcs)
    have hread := hfine.readable cs.scan (mem_patterns.mpr ⟨hlist, htypes cs hcs⟩)
    unfold resultsOf at hread
    rw [if_pos hpending, hpending] at hread
    exact Bool.false_ne_true (hfault.symm.trans hread)

/-- The setting is as it was. -/
def Restored (w w' : World) : Prop := w'.container.ignoreMissing = w.container.ignoreMissing

/-- A scan is missing and must not be. -/
def mustThrow (p : Platform) (w : World) (list : List ScanInformation) : Bool :=
  anyMissing p w list && !w.container.ignoreMissing

/-- **A call**: where all is fine it restores the setting, and throws when it must; else it faults,
or throws with the setting overridden. -/
theorem loadScansMulti_outcome (hs : patterns list ≠ [] → Synced w) :
    EndsIn (loadScansMulti p list) w
      (fun _ w' => Fine p w list ∧ Restored w w' ∧ mustThrow p w list = false)
      (fun e w' => (Fine p w list ∧ Restored w w' ∧ e ≠ .accessViolation ∧
          mustThrow p w list = true) ∨
        ¬Fine p w list ∧ (e = .accessViolation ∨ w'.container.ignoreMissing = true)) := by
  unfold loadScansMulti
  apply EndsIn.get
  apply EndsIn.after (setIgnoreMissing_eq true w)
  apply (compile_outcome list {} (w.ignoring true) hs).bind
  · rintro e w₁ ⟨h₁, hnot⟩
    exact .inr ⟨not_fine_of_not_ready hnot, .inr h₁.ignoreMissing⟩
  · rintro _ w₁ ⟨h₁, rfl, hready⟩
    have hready : ∀ si ∈ list, Ready p w si := hready
    have hscans := compiled_scans hready
    have hcomp : (list.filter (pending (w.ignoring true))).foldl Compiled.addScan {} =
      compiled w list := rfl
    have hcached : list.any (cachedMissing (w.ignoring true)) = list.any (cachedMissing w) := rfl
    rw [hcomp, hcached]
    generalize hfirst : (({} : Compiled).anyMissing || list.any (cachedMissing w)) = first
    have hfirst : list.any (cachedMissing w) = first := hfirst
    apply EndsIn.modify
    dsimp only
    split
    · rename_i hnil
      -- nothing has to be searched for
      rw [hnil, List.map_nil] at hscans
      have hmissing : anyMissing p w list = first := by
        rw [anyMissing_eq, ← hscans, hfirst]
        exact Bool.or_false first
      have hmust : mustThrow p w list = (first && !w.container.ignoreMissing) := by
        rw [mustThrow, hmissing]
      split
      · rename_i hthrow
        refine .of_error rfl (.inr ⟨?_, .inr h₁.ignoreMissing⟩)
        intro hfine
        rw [Bool.and_eq_true, Bool.not_eq_true'] at hthrow
        obtain ⟨si, hsi, hpending⟩ := hfine.searches (hmissing.trans hthrow.1) hthrow.2
        have hmem := List.mem_filter.mpr ⟨hsi, hpending⟩
        rw [← hscans] at hmem
        cases hmem
      · rename_i hthrow
        refine .of_ok (setIgnoreMissing_eq _ _) ⟨⟨packs_of_ready hready, ?_, ?_⟩, rfl, ?_⟩
        · apply readable_of_ready hready
          rw [← hscans]
          intro si hsi
          cases hsi
        · intro hany hignore
          rw [← hmissing, hany, hignore] at hthrow
          exact absurd rfl hthrow
        · rw [hmust]
          exact Bool.eq_false_iff.mpr hthrow
    · rename_i hne
      -- there is something to search for
      have hpending : ∃ si ∈ list, pending w si = true := by
        obtain ⟨cs, hcs⟩ := List.exists_mem_of_ne_nil _ hne
        have hmem : cs.scan ∈ (compiled w list).cscans.map (·.scan) :=
          List.mem_map.mpr ⟨cs, hcs, rfl⟩
        rw [hscans] at hmem
        exact ⟨cs.scan, List.mem_filter.mp hmem⟩
      have hsynced : Synced w := by
        obtain ⟨si, hsi, hp⟩ := hpending
        apply hs
        intro hnil
        have hmem := mem_patterns.mpr ⟨hsi, (pending_iff.mp hp).1⟩
        rw [hnil] at hmem
        cases hmem
      have h₂ : Touched (w.ignoring true)
          { w₁ with container := { w₁.container with foundMissing := first } } :=
        ⟨⟨h₁.lib, h₁.uid, h₁.scanPath, h₁.savePost, h₁.sync, h₁.anyUpdate, h₁.ignoreMissing,
          h₁.files⟩, h₁.valueAt⟩
      apply EndsIn.modify
      apply (used_outcome hsynced h₂ hready hfirst.symm).bind
      · rintro e w' ⟨he, hfine⟩
        exact .inr ⟨hfine, .inl he⟩
      · rintro _ w' ⟨hfound, hread⟩
        have hfine : Fine p w list := ⟨packs_of_ready hready, hread, fun _ _ => hpending⟩
        apply EndsIn.after (setIgnoreMissing_eq _ w')
        apply EndsIn.get
        have hmust : ((w'.ignoring w.container.ignoreMissing).container.foundMissing &&
            !w.container.ignoreMissing) = mustThrow p w list :=
          congrArg (· && !w.container.ignoreMissing) hfound
        rw [hmust]
        split
        · rename_i hthrow
          exact .of_error rfl (.inl ⟨hfine, rfl, Failure.noConfusion, hthrow⟩)
        · rename_i hthrow
          exact .of_ok rfl ⟨hfine, rfl, Bool.eq_false_iff.mpr hthrow⟩

end Call

/-! ## The first `Sync()` -/

/-- The container as the first lookup finds it: synced, if there is a pattern to look up. -/
def World.atLookup (w : World) (list : List ScanInformation) : World :=
  if patterns list = [] then w else endState (sync false w)

/-- The setting is as it was, and the call throws exactly where a scan is missing that must not
be. -/
def Reports (p : Platform) (list : List ScanInformation) (w : World) : Prop :=
  EndsIn (loadScansMulti p list) w
    (fun _ w' => Restored w w' ∧ mustThrow p (w.atLookup list) list = false)
    (fun e w' => e ≠ .accessViolation ∧ Restored w w' ∧ mustThrow p (w.atLookup list) list = true)

section Reports

variable {p : Platform} {w w₁ : World} {list : List ScanInformation} {e : Failure}

theorem synced_of_sync (h : sync false w = .ok ⟨⟩ w₁) : Synced w₁ := by
  unfold sync at h
  dsimp only at h
  split at h
  · rename_i hguard
    cases h
    rw [Bool.or_eq_true, Bool.and_eq_true, decide_eq_true_eq] at hguard
    exact hguard.imp_right And.left
  · split at h
    · cases h
      exact .inr rfl
    · split at h
      · cases h
        exact .inr rfl
      · cases h

/-- A store file that ends too early does so whatever the setting and the references are. -/
theorem sync_error_frame (h : sync false w = .error e w₁) (b : Bool) (value : Nat → Int)
    (values : Nat → List Int) :
    w₁.container.ignoreMissing = w.container.ignoreMissing ∧
      ∃ w₂, sync false { w with
          container := { w.container with ignoreMissing := b }, value := value, values := values } =
        .error e w₂ ∧ w₂.container.ignoreMissing = b := by
  unfold sync at h ⊢
  dsimp only at h ⊢
  split at h
  · cases h
  · rename_i hguard
    rw [if_neg hguard]
    cases hfile : w.container.scanPath.bind w.files with
    | none =>
      rw [hfile] at h
      cases h
    | some bytes =>
      rw [hfile] at h
      dsimp only at h ⊢
      split at h
      · cases h
      · rename_i hcomplete
        cases h
        rw [if_neg hcomplete]
        exact ⟨rfl, _, rfl, rfl⟩

theorem compile_sync_error (list : List ScanInformation) (comp : Compiled)
    (h : sync false w = .error e w₁) (hne : patterns list ≠ []) :
    ∃ w', compile p list comp w = .error e w' ∧
      w'.container.ignoreMissing = w.container.ignoreMissing := by
  induction list generalizing w w₁ with
  | nil => exact absurd rfl hne
  | cons si list ih =>
    unfold compile
    by_cases htype : si.type = .offset
    · rw [if_pos htype]
      have hrest : patterns list ≠ [] := by
        unfold patterns at hne ⊢
        rw [List.filter_cons_of_neg (by rw [htype]; decide)] at hne
        exact hne
      obtain ⟨v, hv⟩ : ∃ v, loadScanOffset si w = .ok ⟨⟩ (w.store si v) := ⟨_, rfl⟩
      obtain ⟨-, w₂, hsync, -⟩ := sync_error_frame h w.container.ignoreMissing
        (w.store si v).value (w.store si v).values
      rw [bind_ok hv]
      exact ih hsync hrest
    · rw [if_neg htype]
      exact ⟨w₁, bind_error (bind_error h), (sync_error_frame h true w.value w.values).1⟩

theorem reports_synced (hs : patterns list ≠ [] → Synced w) (hlookup : w.atLookup list = w) :
    Reports p list w ↔ Fine p w list := by
  have hends := loadScansMulti_outcome (p := p) hs
  unfold Reports
  rw [hlookup]
  unfold EndsIn at hends ⊢
  split at hends
  · exact ⟨fun _ => hends.1, fun _ => hends.2⟩
  · rename_i e w' _
    rcases hends with ⟨hfine, hrestored, he, hmust⟩ | ⟨hnot, hcases⟩
    · exact ⟨fun _ => hfine, fun _ => ⟨he, hrestored, hmust⟩⟩
    · refine ⟨?_, fun hfine => absurd hfine hnot⟩
      rintro ⟨he, hrestored, hmust⟩
      rcases hcases with hfault | hignore
      · exact absurd hfault he
      · -- the setting was overridden: nothing that is missing has to be reported
        unfold mustThrow at hmust
        rw [← hrestored, hignore, Bool.not_true, Bool.and_false] at hmust
        cases hmust

/-- **A call restores the setting and throws for missing scans alone exactly when** the store file
can be read, the patterns to search for are well formed, the results can be read, and a scan that is
missing and must not be is not left to the cache alone. -/
theorem loadScansMulti_reports_iff (p : Platform) (list : List ScanInformation) (w : World) :
    Reports p list w ↔
      (patterns list ≠ [] → ∃ w₁, sync false w = .ok ⟨⟩ w₁) ∧ Fine p (w.atLookup list) list := by
  by_cases hnil : patterns list = []
  · have hlookup : w.atLookup list = w := if_pos hnil
    rw [reports_synced (fun hne => absurd hnil hne) hlookup, hlookup]
    exact ⟨fun hfine => ⟨fun hne => absurd hnil hne, hfine⟩, And.right⟩
  · have hlookup : w.atLookup list = endState (sync false w) := if_neg hnil
    cases hsync : sync false w with
    | ok _ w₁ =>
      have hsynced := synced_of_sync hsync
      obtain ⟨-, hignore, -⟩ := sync_frame hsync true w.value w.values
      have hlookup₁ : w₁.atLookup list = w₁ := by
        unfold World.atLookup
        rw [if_neg hnil, sync_of_synced hsynced]
        rfl
      have hne : ∃ si ∈ list, si.type ≠ .offset := by
        obtain ⟨si, hsi⟩ := List.exists_mem_of_ne_nil _ hnil
        exact ⟨si, mem_patterns.mp hsi⟩
      have hlookup : w.atLookup list = w₁ := by rw [hlookup, hsync]; rfl
      have hsame : Reports p list w ↔ Reports p list w₁ := by
        unfold Reports EndsIn Restored
        rw [loadScansMulti_presync hsync hsynced hne, hlookup, hlookup₁, hignore]
      rw [hsame, reports_synced (fun _ => hsynced) hlookup₁, hlookup]
      exact ⟨fun hfine => ⟨fun _ => ⟨w₁, rfl⟩, hfine⟩, And.right⟩
    | error e w₁ =>
      refine ⟨fun hreports => ?_, fun h => ?_⟩
      · obtain ⟨hignore, w₂, hsync₂, hignore₂⟩ := sync_error_frame hsync true w.value w.values
        obtain ⟨w', hrun, hw'⟩ := compile_sync_error (p := p) list {} hsync₂ hnil
        have hcall : loadScansMulti p list w = .error e w' := by
          unfold loadScansMulti
          rw [get_bind, bind_ok (setIgnoreMissing_eq true w)]
          exact bind_error hrun
        obtain ⟨-, hrestored, hmust⟩ := hreports.error hcall
        have hold : (w.atLookup list).container.ignoreMissing = true := by
          rw [hlookup, hsync, endState_error, hignore, ← hrestored, hw']
        unfold mustThrow at hmust
        rw [hold, Bool.not_true, Bool.and_false] at hmust
        cases hmust
      · obtain ⟨w₁', hok⟩ := h.1 hnil
        cases hok

/-- A second call for a pattern that does not occur throws with the setting overridden. -/
theorem second_call_not_reports :
    ¬Reports twoBytes [absoluteScan [0x34, 0x33] 0]
      (endState (loadScansMulti twoBytes [absoluteScan [0x34, 0x33] 0] twoBytesWorld)) := by
  unfold Reports Restored
  decide +kernel

end Reports

end Acts.Hook
