import Acts.Vm.Loader

/-!
# The function at a position of the code

* `getFunctionInfo` — the script and the export that a position is said to be in.
* `error` — the text of an error, which names them.
* `Finds` — what the search is for.
* `getFunctionInfo_other` — it stops at the first script that does *not* hold the position, and there
  it does not get past a first export.
* `function_info_iff` — **a position in a linked script is never found.**
-/

set_option autoImplicit false

namespace Acts.Vm.FunctionInfo

open Loader (ScriptExport)

/-! ## The search -/

/-- A linked script: the address of its first byte, its code, and what the search reads of it. -/
structure Script where
  magic : Nat
  name : String
  cseg_offset : Nat
  cseg_size : Nat
  exports : List ScriptExport

/-- `IsInScript`. -/
def Script.isInScript (script : Script) (codePos : Nat) : Prop :=
  codePos ≥ script.magic + script.cseg_offset ∧
    codePos < script.magic + script.cseg_offset + script.cseg_size

instance (script : Script) (codePos : Nat) : Decidable (script.isInScript codePos) :=
  inferInstanceAs (Decidable (_ ∧ _))

/-- `(uint32_t)(codePos - magic)`. -/
def rloc (codePos : Nat) (script : Script) : Nat :=
  (((codePos : Int) - script.magic) % 2 ^ 32).toNat

/-- What the search writes to. -/
structure Output where
  exp : Option ScriptExport
  script : Option Script

/-- The test of an export: too far, and not behind the one before. -/
def takes (rloc : Nat) (exp : Option ScriptExport) (e : ScriptExport) : Bool :=
  decide (e.address > rloc) && (exp.map fun exp => decide (exp.address ≥ e.address)).getD true

/-- The loop over the exports, for a number of turns; it stays at the first. -/
def exportLoop (rloc : Nat) (exports : List ScriptExport) :
    Nat → Option ScriptExport → Option (Option ScriptExport)
  | turns, exp =>
    match exports with
    | [] => some exp
    | e :: _ =>
      match turns with
      | 0 => none
      | turns + 1 => exportLoop rloc exports turns (if takes rloc exp e then some e else exp)

/-- `GetFunctionInfo`, with two pointers that may be null; `none` when the loop did not end within
`turns`. -/
def getFunctionInfo (turns : Nat) (codePos : Nat) (wantExp wantScript : Bool) :
    List Script → Output → Option (Bool × Output)
  | [], out => some (false, out)
  | nfo :: scripts, out =>
    if ¬ nfo.isInScript codePos then
      let out := if wantScript then { out with script := some nfo } else out
      if wantExp then
        (exportLoop (rloc codePos nfo) nfo.exports turns none).map fun exp =>
          (exp.isSome, { out with exp })
      else some (true, out)
    else getFunctionInfo turns codePos wantExp wantScript scripts out

/-- How an error ends. -/
inductive Report where
  | throw (msg : String)
  | warn (msg : String)

/-- `Error`, at the position of the current thread. -/
def error (turns : Nat) (hashToString : UInt64 → String) (scripts : List Script)
    (currentThread : Option Nat) (msg : String) (terminate : Bool) : Option Report :=
  let report := fun msg => if terminate then Report.throw msg else .warn msg
  match currentThread with
  | none => some (report msg)
  | some codePos =>
    (getFunctionInfo turns codePos true true scripts ⟨none, none⟩).map fun
      | (true, ⟨some exp, some script⟩) =>
        report ("\n[" ++ hashToString exp.nameSpace ++ "<" ++ script.name ++ ">::" ++
          hashToString exp.name ++ "]")
      | _ => report msg

/-! ## Purpose -/

/-- No position is in two scripts. -/
def Apart (scripts : List Script) : Prop :=
  scripts.Pairwise fun a b => ∀ codePos, ¬ (a.isInScript codePos ∧ b.isInScript codePos)

/-- The export with the greatest address up to a position, if there is one. -/
def Best (exports : List ScriptExport) (rloc : Nat) : Option ScriptExport → Prop
  | some e => e ∈ exports ∧ e.address ≤ rloc ∧
      ∀ other ∈ exports, other.address ≤ rloc → other.address ≤ e.address
  | none => ∀ other ∈ exports, ¬ other.address ≤ rloc

/-- A position in a script gives it and its export, another position gives `false`. -/
structure Finds (scripts : List Script) (codePos : Nat) (found : Bool) (out : Output) : Prop where
  inside : ∀ nfo ∈ scripts, nfo.isInScript codePos →
    out.script = some nfo ∧ Best nfo.exports (rloc codePos nfo) out.exp
  outside : (∀ nfo ∈ scripts, ¬ nfo.isInScript codePos) → found = false

variable {scripts : List Script} {codePos turns : Nat}

/-! ## What is found -/

/-- The loop ends without exports only. -/
theorem exportLoop_eq (rloc : Nat) (exports : List ScriptExport) (turns : Nat)
    (exp : Option ScriptExport) :
    exportLoop rloc exports turns exp = if exports = [] then some exp else none := by
  cases exports with
  | nil => rw [exportLoop, if_pos rfl]
  | cons e exports =>
    rw [if_neg (List.cons_ne_nil e exports)]
    induction turns generalizing exp with
    | zero => rfl
    | succ turns ih => exact ih _

/-- **The search stops at the first script that does not hold the position**, and ends there only
without exports. -/
theorem getFunctionInfo_other (scripts : List Script) (codePos turns : Nat) (out : Output) :
    getFunctionInfo turns codePos true true scripts out =
      match scripts.find? fun nfo => !decide (nfo.isInScript codePos) with
      | none => some (false, out)
      | some nfo => if nfo.exports = [] then some (false, ⟨none, some nfo⟩) else none := by
  induction scripts with
  | nil => rfl
  | cons nfo scripts ih =>
    rw [getFunctionInfo]
    by_cases hin : nfo.isInScript codePos
    · rw [if_neg (not_not_intro hin), ih, List.find?_cons_of_neg (by simp [hin])]
    · rw [if_pos hin, List.find?_cons_of_pos (by simp [hin]), exportLoop_eq]
      simp only [if_true]
      by_cases hexports : nfo.exports = []
      · rw [if_pos hexports, if_pos hexports]
        rfl
      · rw [if_neg hexports, if_neg hexports]
        rfl

/-- An error of a thread that runs never ends if the first script its position is not in has exports,
whatever the error is. -/
theorem error_hangs {first : Script}
    (h : scripts.find? (fun nfo => !decide (nfo.isInScript codePos)) = some first)
    (hexports : first.exports ≠ []) (turns : Nat) (hashToString : UInt64 → String) (msg : String)
    (terminate : Bool) :
    error turns hashToString scripts (some codePos) msg terminate = none := by
  unfold error
  dsimp only
  rw [getFunctionInfo_other, h]
  dsimp only
  rw [if_neg hexports]
  rfl

/-- What is found is no script that the position is in. -/
theorem not_inside {found : Bool} {out : Output}
    (hrun : getFunctionInfo turns codePos true true scripts ⟨none, none⟩ = some (found, out))
    {nfo : Script} (hin : nfo.isInScript codePos) : out.script ≠ some nfo := by
  rw [getFunctionInfo_other] at hrun
  cases hfind : scripts.find? fun nfo => !decide (nfo.isInScript codePos) with
  | none =>
    rw [hfind] at hrun
    cases hrun
    exact fun hsame => by cases hsame
  | some first =>
    rw [hfind] at hrun
    dsimp only at hrun
    split at hrun
    · cases hrun
      have hout := List.find?_some hfind
      rintro hsame
      cases hsame
      simp [hin] at hout
    · cases hrun

/-- A position outside the first script: no other is looked at. -/
theorem getFunctionInfo_outside {first : Script} (hout : ¬ first.isInScript codePos)
    (scripts : List Script) (turns : Nat) :
    getFunctionInfo turns codePos true true (first :: scripts) ⟨none, none⟩ =
      if first.exports = [] then some (false, ⟨none, some first⟩) else none := by
  rw [getFunctionInfo_other, List.find?_cons_of_pos (by simp [hout])]

/-- **When the search finds what it is for.**  It never does for a position in a linked script; for
another it ends, with `false`, iff the first script has no exports, and it leaves its output alone iff
there is no script at all. -/
theorem function_info_iff (scripts : List Script) (codePos : Nat) :
    ((∃ turns found out,
        getFunctionInfo turns codePos true true scripts ⟨none, none⟩ = some (found, out) ∧
          Finds scripts codePos found out) ↔
      (∀ nfo ∈ scripts, ¬ nfo.isInScript codePos) ∧
        ∀ first ∈ scripts.head?, first.exports = []) ∧
    ((∃ turns found out,
        getFunctionInfo turns codePos true true scripts ⟨none, none⟩ = some (found, out) ∧
          Finds scripts codePos found out ∧
          ((∀ nfo ∈ scripts, ¬ nfo.isInScript codePos) → out.script = none ∧ out.exp = none)) ↔
      scripts = []) := by
  have hnone : ∀ {turns found out},
      getFunctionInfo turns codePos true true scripts ⟨none, none⟩ = some (found, out) →
        Finds scripts codePos found out → ∀ nfo ∈ scripts, ¬ nfo.isInScript codePos :=
    fun hrun hfinds nfo hnfo hin => not_inside hrun hin (hfinds.inside nfo hnfo hin).1
  constructor
  · constructor
    · rintro ⟨turns, found, out, hrun, hfinds⟩
      have hout := hnone hrun hfinds
      refine ⟨hout, fun first hfirst => ?_⟩
      cases scripts with
      | nil => cases hfirst
      | cons first' scripts =>
        cases hfirst
        by_contra hexports
        rw [getFunctionInfo_outside (hout first List.mem_cons_self), if_neg hexports] at hrun
        cases hrun
    · rintro ⟨hout, hfirst⟩
      cases scripts with
      | nil => exact ⟨0, _, _, rfl, fun nfo hnfo => (by cases hnfo), fun _ => rfl⟩
      | cons first scripts =>
        have hrun := getFunctionInfo_outside (hout first List.mem_cons_self) scripts 0
        rw [if_pos (hfirst first rfl)] at hrun
        exact ⟨0, _, _, hrun, fun nfo hnfo hin => absurd hin (hout nfo hnfo), fun _ => rfl⟩
  · constructor
    · rintro ⟨turns, found, out, hrun, hfinds, hnothing⟩
      have hout := hnone hrun hfinds
      cases scripts with
      | nil => rfl
      | cons first scripts =>
        rw [getFunctionInfo_outside (hout first List.mem_cons_self)] at hrun
        split at hrun
        · cases hrun
          cases (hnothing hout).1
        · cases hrun
    · rintro rfl
      exact ⟨0, _, _, rfl, ⟨fun nfo hnfo => (by cases hnfo), fun _ => rfl⟩, fun _ => ⟨rfl, rfl⟩⟩

/-- A position in the second of two scripts: the search stays at the export of the first. -/
theorem second_script_hangs :
    ¬ ∀ (scripts : List Script) (codePos : Nat), Apart scripts →
      ∃ turns found out,
        getFunctionInfo turns codePos true true scripts ⟨none, none⟩ = some (found, out) ∧
          Finds scripts codePos found out := by
  intro h
  have hapart : Apart [⟨0x1000, "a", 0x40, 0x10, [⟨0x40, 1, 0, 0⟩]⟩,
      ⟨0x2000, "b", 0x40, 0x10, [⟨0x40, 2, 0, 0⟩]⟩] := by
    simp [Apart, Script.isInScript]
    omega
  obtain ⟨turns, found, out, hrun, -⟩ := h _ 0x2044 hapart
  rw [getFunctionInfo_other] at hrun
  cases hrun

end Acts.Vm.FunctionInfo
