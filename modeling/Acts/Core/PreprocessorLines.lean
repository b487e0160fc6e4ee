import Acts.Core.Preprocessor

/-!
# Conditional compilation in the preprocessor

* `Branch`, `enter`, `specLines` — what `#ifdef`, `#ifndef`, `#else` and `#endif` mean: a line is
  active when every branch around it is, and active directives take effect.
* `treatment` — how `ApplyPreProcessor` treated each line that is not one of the four: text is
  kept or blanked, another directive executed or not; a line jumped over is left in the text.
* `misKept` — where the stack of erased contexts goes wrong: below a nested `#else`.
* `grows` — a line on which some macro is longer than its name.
* `treatment_iff` — **every line is treated as its branches say exactly when no line stands where
  the stack goes wrong and every line after a growing one is active text.**
-/

set_option autoImplicit false

namespace Acts.Preprocessor

/-! ## Lines of a text -/

def lines : Text → List Text
  | [] => []
  | c :: s =>
    if c = '\n' then [] :: lines s
    else
      match lines s with
      | [] => [[c]]
      | l :: ls => (c :: l) :: ls

/-- The lines without the spaces at their start. -/
def bodies (s : Text) : List Text := (lines s).map (List.dropWhile isspace)

theorem lines_eq (s : Text) (h : s ≠ []) :
    lines s = s.takeWhile (· ≠ '\n') ::
      lines ((s.drop (s.takeWhile (· ≠ '\n')).length).drop 1) := by
  induction s with
  | nil => exact absurd rfl h
  | cons c s ih =>
    by_cases hc : c = '\n'
    · subst hc
      simp [lines]
    · rw [lines, if_neg hc]
      have htake : (c :: s).takeWhile (· ≠ '\n') = c :: s.takeWhile (· ≠ '\n') := by
        simp [hc]
      cases s with
      | nil => simp [lines, hc]
      | cons d s =>
        rw [ih (List.cons_ne_nil d s), htake]
        rfl

/-! ## What the directives mean -/

/-- A branch that was entered: whether its condition holds, and how many `#else` it went past. -/
structure Branch where
  cond : Bool
  elses : Nat

def Branch.active (b : Branch) : Bool := if b.elses % 2 = 0 then b.cond else !b.cond

/-- Every enclosing branch is active; the innermost one comes first. -/
def allActive (fs : List Branch) : Bool := fs.all Branch.active

/-- The branches after a conditional directive. -/
def enter (o : PreProcessorOption) (fs : List Branch) : Conditional → List Branch
  | .ifdef name => ⟨o.contains name, 0⟩ :: fs
  | .ifndef name => ⟨!o.contains name, 0⟩ :: fs
  | .elseDirective =>
    match fs with
    | [] => []
    | f :: fs => { f with elses := f.elses + 1 } :: fs
  | .endifDirective => fs.tail
  | .malformed _ => fs

/-- The options after an active line. -/
def optAfter (env : Env) (o : PreProcessorOption) (body : Text) : PreProcessorOption :=
  (execDirective env (LoopState.init o) (lineView body) body
    (otherKind o (lineView body))).1.opt

/-- Every line that is not a conditional directive, and whether it is active. -/
def specLines (env : Env) : List Branch → PreProcessorOption → List Text → List (Text × Bool)
  | _, _, [] => []
  | fs, o, body :: ls =>
    match conditional (lineView body) with
    | some c => specLines env (enter o fs c) o ls
    | none => (lineView body, allActive fs) ::
        specLines env fs (if allActive fs then optAfter env o body else o) ls

/-! ## What the loop does -/

/-- Lines that were not scanned stay in the text: text is kept, directives are not executed. -/
def jumped (o : PreProcessorOption) (ls : List Text) : List (Text × Bool) :=
  (ls.filter (fun body => (conditional (lineView body)).isNone)).map
    (fun body => (lineView body, otherKind o (lineView body) == .text))

/-- How every line that is not a conditional directive was treated. -/
def treatment (s : LoopState) : List (Text × Bool) := s.scanned ++ jumped s.opt (bodies s.unscanned)

/-- The branches are inactive, but the stack says otherwise: the innermost branches down to a
nested `#else` are active, and that `#else` or a branch around it is not.  (The stack takes a
nested `#else` for active whenever its parent is, and flips it when its parent is erased.) -/
def misKept : List Branch → Bool
  | [] => false
  | [_] => false
  | f :: g :: fs =>
    if f.elses = 0 then f.cond && misKept (g :: fs)
    else (f.elses % 2 = 1 || allActive (g :: fs) || misKept (g :: fs)) &&
      !allActive (f :: g :: fs)

/-- The name is defined, with a longer value. -/
def longer (o : PreProcessorOption) (idf : Text) : Bool :=
  match o.find idf with
  | some replace => decide (idf.length < replace.length)
  | none => false

/-- Some name that the scan of the line looks at has a longer value. -/
def growsFrom (o : PreProcessorOption) : Nat → Text → Bool
  | 0, _ => false
  | _, [] => false
  | fuel + 1, c :: s =>
    if !isIdentifierChar c then growsFrom o fuel s
    else
      let len := idfSize (c :: s)
      longer o ((c :: s).take len) || growsFrom o fuel (((c :: s).drop len).drop 1)

def grows (o : PreProcessorOption) (body : Text) : Bool := growsFrom o body.length body

/-- No line stands where the stack goes wrong; after a text line that grows, every line is active
text (or an inactive directive). -/
def Clean (env : Env) : List Branch → PreProcessorOption → List Text → Prop
  | _, _, [] => True
  | fs, o, body :: ls =>
    match conditional (lineView body) with
    | some c => Clean env (enter o fs c) o ls
    | none =>
      misKept fs = false ∧
      if allActive fs then
        if otherKind o (lineView body) = .text ∧ grows o body = true then
          ∀ e ∈ specLines env fs o ls, e.2 = (otherKind o e.1 == .text)
        else Clean env fs (optAfter env o body) ls
      else Clean env fs o ls

instance decidableClean (env : Env) : (fs : List Branch) → (o : PreProcessorOption) →
    (ls : List Text) → Decidable (Clean env fs o ls)
  | _, _, [] => inferInstanceAs (Decidable True)
  | fs, o, body :: ls =>
    match hc : conditional (lineView body) with
    | some c =>
      letI := decidableClean env (enter o fs c) o ls
      decidable_of_iff (Clean env (enter o fs c) o ls) (by rw [Clean, hc])
    | none =>
      letI := decidableClean env fs (optAfter env o body) ls
      letI := decidableClean env fs o ls
      decidable_of_iff (misKept fs = false ∧
        if allActive fs then
          if otherKind o (lineView body) = .text ∧ grows o body = true then
            ∀ e ∈ specLines env fs o ls, e.2 = (otherKind o e.1 == .text)
          else Clean env fs (optAfter env o body) ls
        else Clean env fs o ls) (by rw [Clean, hc])

/-! ## The stack of erased contexts -/

/-- The flag the code keeps for the innermost branch. -/
def erased (fs : List Branch) : Bool := !(allActive fs || misKept fs)

/-- The whole stack. -/
def ctxOf : List Branch → List Bool
  | [] => []
  | f :: fs => erased (f :: fs) :: ctxOf fs

theorem ctxOf_headD (fs : List Branch) : (ctxOf fs).headD false = erased fs := by
  cases fs with
  | nil => rfl
  | cons f fs => rfl

theorem misKept_not_active {fs : List Branch} (h : misKept fs = true) : allActive fs = false := by
  induction fs with
  | nil => cases h
  | cons f fs ih =>
    cases fs with
    | nil => cases h
    | cons g fs =>
      simp only [misKept] at h
      split at h
      · simp only [Bool.and_eq_true] at h
        have := ih h.2
        simp only [allActive, List.all_cons] at this ⊢
        rw [this, Bool.and_false]
      · simp only [Bool.and_eq_true, Bool.not_eq_true'] at h
        exact h.2

theorem erased_push (c : Bool) (fs : List Branch) : erased (⟨c, 0⟩ :: fs) = (erased fs || !c) := by
  have hactive : allActive (⟨c, 0⟩ :: fs) = (c && allActive fs) := by
    simp [allActive, Branch.active]
  have hmis : misKept (⟨c, 0⟩ :: fs) = (c && misKept fs) := by
    cases fs with
    | nil => simp [misKept]
    | cons g fs => simp [misKept]
  rw [erased, hactive, hmis, erased]
  cases c <;> simp

theorem erased_else_single (f : Branch) :
    erased [{ f with elses := f.elses + 1 }] = !erased [f] := by
  simp only [erased, allActive, List.all_cons, List.all_nil, misKept, Branch.active, Bool.and_true,
    Bool.or_false, Bool.not_not]
  have hmod : (f.elses + 1) % 2 = 0 ↔ ¬ f.elses % 2 = 0 := by omega
  by_cases h : f.elses % 2 = 0
  · rw [if_neg (by omega), if_pos h, Bool.not_not]
  · rw [if_pos (by omega), if_neg h]

/-- The rule of a nested `#else`. -/
theorem erased_else_nested (f g : Branch) (fs : List Branch) :
    erased ({ f with elses := f.elses + 1 } :: g :: fs) =
      (if !erased (g :: fs) then false else !erased (f :: g :: fs)) := by
  by_cases hp : (allActive (g :: fs) || misKept (g :: fs)) = true
  · -- the parent is kept, and so is its `#else`
    have he : erased (g :: fs) = false := by rw [erased, hp]; rfl
    rw [he]
    simp only [erased, misKept, Nat.add_one_ne_zero, if_false, Bool.or_assoc, hp, Bool.or_true,
      Bool.true_and, Bool.or_not_self]
    rfl
  · have hp : (allActive (g :: fs) || misKept (g :: fs)) = false := by simpa using hp
    have he : erased (g :: fs) = true := by rw [erased, hp]; rfl
    obtain ⟨ha, hm⟩ := Bool.or_eq_false_iff.mp hp
    have hall (b : Branch) : allActive (b :: g :: fs) = false := by
      rw [allActive, List.all_cons, ← allActive, ha, Bool.and_false]
    rw [he]
    simp only [erased, misKept, Nat.add_one_ne_zero, if_false, hall, ha, hm, Bool.or_false,
      Bool.false_or, Bool.not_false, Bool.and_true, Bool.and_false, Bool.not_true]
    by_cases h0 : f.elses = 0
    · simp [h0]
    · simp only [if_neg h0]
      by_cases h2 : f.elses % 2 = 1
      · have : ¬ (f.elses + 1) % 2 = 1 := by omega
        simp [h2, this]
      · have : (f.elses + 1) % 2 = 1 := by omega
        simp [h2, this]

/-- **The stack follows the branches.** -/
theorem execConditional_ctx {s : LoopState} {fs : List Branch} (h : s.eraseCtx = ctxOf fs)
    (c : Conditional) : (execConditional s c).eraseCtx = ctxOf (enter s.opt fs c) := by
  cases c with
  | ifdef name =>
    simp only [execConditional, enter, ctxOf, h, ctxOf_headD, erased_push]
  | ifndef name =>
    simp only [execConditional, enter, ctxOf, h, ctxOf_headD, erased_push, Bool.not_not]
  | elseDirective =>
    cases fs with
    | nil =>
      simp only [execConditional, h, ctxOf, enter]
      exact h
    | cons f fs =>
      cases fs with
      | nil => simp only [execConditional, h, ctxOf, enter, erased_else_single]
      | cons g fs => simp only [execConditional, h, ctxOf, enter, erased_else_nested]
  | endifDirective =>
    cases fs with
    | nil =>
      simp only [execConditional, h, ctxOf, enter]
      exact h
    | cons f fs => simp only [execConditional, h, ctxOf, enter, List.tail_cons]
  | malformed message => exact h

/-! ## Macro replacement on a line -/

section Replace

variable {o : PreProcessorOption}

theorem idfSize_pos {c : Char} (s : Text) (hc : isIdentifierChar c = true) :
    1 ≤ idfSize (c :: s) := by
  simp [idfSize, hc]

/-- No identifier goes on in `t`. -/
def Apart (t : Text) : Prop := ∀ d ∈ t.head?, isIdentifierChar d = false

theorem apart_of_line {t : Text} (ht : t = [] ∨ t.head? = some '\n') : Apart t := by
  intro d hd
  rcases ht with rfl | ht
  · cases hd
  · rw [ht] at hd
    cases hd
    decide

/-- An identifier ends where none goes on. -/
theorem idfSize_append (s : Text) {t : Text} (ht : Apart t) : idfSize (s ++ t) = idfSize s := by
  have htake : t.takeWhile isIdentifierChar = [] := by
    cases t with
    | nil => rfl
    | cons d t => rw [List.takeWhile_cons, ht d rfl, if_neg Bool.false_ne_true]
  induction s with
  | nil => simp [idfSize, htake]
  | cons c s ih =>
    unfold idfSize at ih ⊢
    rw [List.cons_append]
    by_cases hc : isIdentifierChar c = true
    · simp only [List.takeWhile_cons_of_pos hc, List.length_cons, ih]
    · rw [List.takeWhile_cons_of_neg hc, List.takeWhile_cons_of_neg hc]

theorem idfSize_le (s : Text) : idfSize s ≤ s.length := (List.takeWhile_sublist _).length_le

theorem expand_left (idf after : Text) (left : Nat) :
    (expand o idf after left).2 = if longer o idf = true then after.length else left := by
  unfold expand longer
  cases o.find idf with
  | none => rfl
  | some replace =>
    simp only
    by_cases hr : replace.length ≤ idf.length
    · rw [if_pos hr, if_neg (by simp; omega)]
    · rw [if_neg hr, if_pos (by simp; omega)]

/-- Up to the end of the text nothing is left. -/
theorem replaceFrom_all (fuel : Nat) (s : Text) : (replaceFrom o fuel s s.length).2 = [] := by
  induction fuel generalizing s with
  | zero => simp [replaceFrom]
  | succ fuel ih =>
    cases s with
    | nil => rfl
    | cons c s =>
      have hlen : s.length + 1 - idfSize (c :: s) = ((c :: s).drop (idfSize (c :: s))).length := by
        simp
      simp only [replaceFrom, List.length_cons, hlen, expand_left, ite_self]
      split
      · exact ih s
      · split
        · rename_i h0
          exact List.length_eq_zero_iff.mp h0
        · have := ih (((c :: s).drop (idfSize (c :: s))).drop 1)
          rw [List.length_drop (i := 1)] at this
          exact this

/-- Replacement on a line stops at its end, or has reached the end of the text when the line
grows. -/
theorem replaceFrom_line {fuel gas : Nat} (body t : Text) (ht : t = [] ∨ t.head? = some '\n')
    (hfuel : body.length ≤ fuel) (hgas : body.length ≤ gas) :
    (replaceFrom o fuel (body ++ t) body.length).2 =
      if growsFrom o gas body = true then [] else t := by
  induction fuel generalizing body gas with
  | zero =>
    have hnil : body = [] := List.length_eq_zero_iff.mp (by omega)
    subst hnil
    cases gas <;> simp [replaceFrom, growsFrom]
  | succ fuel ih =>
    cases body with
    | nil =>
      have hg : growsFrom o gas [] = false := by cases gas <;> rfl
      rw [hg]
      cases t <;> rfl
    | cons c s =>
      obtain ⟨gas, rfl⟩ : ∃ g, gas = g + 1 := ⟨gas - 1, by simp at hgas; omega⟩
      simp only [List.length_cons] at hfuel hgas
      rw [List.cons_append]
      simp only [replaceFrom, growsFrom, List.length_cons]
      by_cases hc : isIdentifierChar c = true
      · have hid : idfSize (c :: (s ++ t)) = idfSize (c :: s) := by
          rw [← List.cons_append, idfSize_append _ (apart_of_line ht)]
        have hle := idfSize_le (c :: s)
        have hpos := idfSize_pos s hc
        have htake : (c :: (s ++ t)).take (idfSize (c :: s)) = (c :: s).take (idfSize (c :: s)) := by
          rw [← List.cons_append, List.take_append_of_le_length hle]
        have hdrop : (c :: (s ++ t)).drop (idfSize (c :: s)) =
            (c :: s).drop (idfSize (c :: s)) ++ t := by
          rw [← List.cons_append, List.drop_append_of_le_length hle]
        have hlen : s.length + 1 - idfSize (c :: s) = ((c :: s).drop (idfSize (c :: s))).length := by
          simp
        simp only [hc, Bool.not_true, Bool.false_eq_true, if_false, hid, htake, hdrop, hlen,
          expand_left]
        generalize hrest : (c :: s).drop (idfSize (c :: s)) = rest
        have hrl : rest.length ≤ s.length := by
          rw [← hrest, List.length_drop, List.length_cons]; omega
        cases hgrow : longer o ((c :: s).take (idfSize (c :: s))) with
        | true =>
          simp only [if_true, Bool.true_or]
          split
          · rename_i h0
            exact List.length_eq_zero_iff.mp h0
          · have := replaceFrom_all (o := o) fuel ((rest ++ t).drop 1)
            rw [List.length_drop] at this
            exact this
        | false =>
          simp only [Bool.false_eq_true, if_false, Bool.false_or]
          cases rest with
          | nil =>
            have hg : growsFrom o gas [] = false := by cases gas <;> rfl
            simp [hg]
          | cons d rest =>
            simp only [List.length_cons] at hrl
            simp only [List.length_cons, Nat.add_one_ne_zero, if_false, List.cons_append,
              List.drop_succ_cons, List.drop_zero, Nat.add_sub_cancel]
            exact ih rest (by omega) (by omega)
      · simp only [hc, Bool.not_false, if_true]
        exact ih s (by omega) (by omega)

theorem replaceDefines_line (body t : Text) (ht : t = [] ∨ t.head? = some '\n') :
    (replaceDefines o (body ++ t) body.length).2 = if grows o body = true then [] else t :=
  replaceFrom_line body t ht (by simp) (Nat.le_refl _)

end Replace

/-! ## One line -/

section Line

variable (env : Env) {s : LoopState}

theorem execConditional_frame (s : LoopState) (c : Conditional) :
    (execConditional s c).opt = s.opt ∧ (execConditional s c).scanned = s.scanned ∧
      (execConditional s c).unscanned = s.unscanned := by
  cases c with
  | elseDirective => simp only [execConditional]; split <;> exact ⟨rfl, rfl, rfl⟩
  | endifDirective => simp only [execConditional]; split <;> exact ⟨rfl, rfl, rfl⟩
  | _ => exact ⟨rfl, rfl, rfl⟩

/-- A directive changes the options as a function of the options, and leaves the rest of the scan
alone. -/
theorem execDirective_frame (line body : Text) (kind : OtherKind) :
    (execDirective env s line body kind).1.opt =
        (execDirective env (LoopState.init s.opt) line body kind).1.opt ∧
      (execDirective env s line body kind).1.eraseCtx = s.eraseCtx ∧
      (execDirective env s line body kind).1.scanned = s.scanned ∧
      (execDirective env s line body kind).1.unscanned = s.unscanned := by
  cases kind with
  | define => simp only [execDirective]; split <;> exact ⟨rfl, rfl, rfl, rfl⟩
  | insert =>
    simp only [execDirective, execInsert]
    cases parameter line 7 "#insert" "parameter" true with
    | error e => exact ⟨rfl, rfl, rfl, rfl⟩
    | ok filename =>
      simp only
      cases env.readFile (trimFilename filename) with
      | none => exact ⟨rfl, rfl, rfl, rfl⟩
      | some data =>
        simp only [LoopState.init]
        by_cases hok : (env.apply s.opt data).ok = true
        · simp only [hok, if_true]
          exact ⟨trivial, trivial, trivial, trivial⟩
        · simp only [hok]
          exact ⟨rfl, rfl, rfl, rfl⟩
  | _ => exact ⟨rfl, rfl, rfl, rfl⟩

/-- The text after the first line of `rest`. -/
def nextLine (rest : Text) : Text := (rest.drop (rest.takeWhile (· ≠ '\n')).length).drop 1

/-- The first line of `rest` without the spaces at its start. -/
def firstBody (rest : Text) : Text := (rest.takeWhile (· ≠ '\n')).dropWhile isspace

theorem bodies_eq {rest : Text} (h : rest ≠ []) :
    bodies rest = firstBody rest :: bodies (nextLine rest) := by
  rw [bodies, lines_eq rest h]
  rfl

theorem nextLine_length {rest : Text} (h : rest ≠ []) :
    (nextLine rest).length + 1 ≤ rest.length := by
  have := List.length_pos_iff.mpr h
  simp only [nextLine, List.length_drop]
  cases rest with
  | nil => exact absurd rfl h
  | cons c rest =>
    by_cases hc : c = '\n'
    · simp [hc]
    · simp [hc]; omega

theorem rest_split (rest : Text) :
    rest.drop ((rest.takeWhile (· ≠ '\n')).takeWhile isspace).length =
      firstBody rest ++ rest.drop (rest.takeWhile (· ≠ '\n')).length := by
  have h1 : rest.takeWhile (· ≠ '\n') ++ rest.dropWhile (· ≠ '\n') = rest :=
    List.takeWhile_append_dropWhile
  have h2 : (rest.takeWhile (· ≠ '\n')).takeWhile isspace ++ firstBody rest =
      rest.takeWhile (· ≠ '\n') := List.takeWhile_append_dropWhile
  have h3 : rest.drop (rest.takeWhile (· ≠ '\n')).length = rest.dropWhile (· ≠ '\n') := by
    exact (congrArg (List.drop _) h1.symm).trans List.drop_left
  have hrest : rest = (rest.takeWhile (· ≠ '\n')).takeWhile isspace ++
      (firstBody rest ++ rest.dropWhile (· ≠ '\n')) := by
    rw [← List.append_assoc, h2, h1]
  rw [h3]
  exact (congrArg (List.drop _) hrest).trans List.drop_left

theorem rest_tail (rest : Text) : rest.drop (rest.takeWhile (· ≠ '\n')).length = [] ∨
    (rest.drop (rest.takeWhile (· ≠ '\n')).length).head? = some '\n' := by
  induction rest with
  | nil => exact .inl rfl
  | cons c rest ih =>
    by_cases hc : c = '\n'
    · right; simp [hc]
    · simpa [hc] using ih

/-- A line that is a conditional directive. -/
theorem processLine_conditional {rest : Text} {c : Conditional}
    (hc : conditional (lineView (firstBody rest)) = some c) {fs : List Branch}
    (hctx : s.eraseCtx = ctxOf fs) :
    (processLine env s rest).2 = nextLine rest ∧
      (processLine env s rest).1.opt = s.opt ∧
      (processLine env s rest).1.scanned = s.scanned ∧
      (processLine env s rest).1.unscanned = s.unscanned ∧
      (processLine env s rest).1.eraseCtx = ctxOf (enter s.opt fs c) := by
  unfold firstBody at hc
  unfold processLine
  simp only [hc]
  obtain ⟨h1, h2, h3⟩ := execConditional_frame { s with lineIdx := s.lineIdx + 1 } c
  exact ⟨rfl, h1, h2, h3, execConditional_ctx (s := { s with lineIdx := s.lineIdx + 1 }) hctx c⟩

/-- Another line in an erased context. -/
theorem processLine_erased {rest : Text} (hc : conditional (lineView (firstBody rest)) = none)
    (he : s.eraseCtx.headD false = true) :
    (processLine env s rest).2 = nextLine rest ∧
      (processLine env s rest).1.opt = s.opt ∧
      (processLine env s rest).1.scanned = s.scanned ++ [(lineView (firstBody rest), false)] ∧
      (processLine env s rest).1.unscanned = s.unscanned ∧
      (processLine env s rest).1.eraseCtx = s.eraseCtx := by
  unfold firstBody at hc
  unfold processLine
  simp only [hc, he, if_true]
  exact ⟨rfl, trivial, rfl, trivial, trivial⟩

/-- What the record of a line stands for: `false` is a blanked line, `true` is a text line with its
macros replaced. -/
theorem processLine_out {rest : Text} (hc : conditional (lineView (firstBody rest)) = none) :
    ∃ kept, (processLine env s rest).1.scanned =
        s.scanned ++ [(lineView (firstBody rest), kept)] ∧
      (kept = false → (processLine env s rest).1.out =
        s.out ++ (rest.takeWhile (· ≠ '\n')).takeWhile isspace ++ blank (firstBody rest) ++
          (rest.drop (rest.takeWhile (· ≠ '\n')).length).take 1) ∧
      (kept = true → otherKind s.opt (lineView (firstBody rest)) = .text →
        (processLine env s rest).1.out =
          s.out ++ (rest.takeWhile (· ≠ '\n')).takeWhile isspace ++
            (replaceDefines s.opt (firstBody rest ++ rest.drop (rest.takeWhile (· ≠ '\n')).length)
              (firstBody rest).length).1 ++
            ((replaceDefines s.opt (firstBody rest ++
              rest.drop (rest.takeWhile (· ≠ '\n')).length) (firstBody rest).length).2).take 1) := by
  rw [← rest_split]
  unfold firstBody at hc ⊢
  unfold processLine
  cases he : s.eraseCtx.headD false with
  | true =>
    refine ⟨false, ?_⟩
    simp only [hc, he, if_true]
    exact ⟨trivial, fun _ => trivial, fun h => Bool.noConfusion h⟩
  | false =>
    refine ⟨true, ?_⟩
    simp only [hc, he, Bool.false_eq_true, if_false]
    cases hk : otherKind s.opt (lineView _) with
    | text => exact ⟨rfl, fun h => Bool.noConfusion h, fun _ _ => rfl⟩
    | _ =>
      obtain ⟨_, _, h3, _⟩ := execDirective_frame env
        (s := { s with lineIdx := s.lineIdx + 1,
                       scanned := s.scanned ++ [(lineView (firstBody rest), true)] })
        (lineView (firstBody rest)) (firstBody rest) (otherKind s.opt (lineView (firstBody rest)))
      unfold firstBody at h3
      rw [hk] at h3
      exact ⟨h3, fun h => Bool.noConfusion h, fun _ h => OtherKind.noConfusion h⟩

/-- A text line that grows takes the rest of the text with it. -/
theorem processLine_grows {rest : Text} (hc : conditional (lineView (firstBody rest)) = none)
    (he : s.eraseCtx.headD false = false)
    (hk : otherKind s.opt (lineView (firstBody rest)) = .text)
    (hg : grows s.opt (firstBody rest) = true) :
    (processLine env s rest).2 = [] ∧
      (processLine env s rest).1.opt = s.opt ∧
      (processLine env s rest).1.scanned = s.scanned ++ [(lineView (firstBody rest), true)] ∧
      (processLine env s rest).1.unscanned = nextLine rest := by
  have hleft := replaceDefines_line (o := s.opt) (firstBody rest)
    (rest.drop (rest.takeWhile (· ≠ '\n')).length) (rest_tail rest)
  rw [if_pos hg, ← rest_split] at hleft
  unfold firstBody at hc hk hleft
  unfold processLine
  simp only [hc, he, Bool.false_eq_true, if_false, hk, hleft, if_true]
  exact ⟨rfl, trivial, rfl, rfl⟩

/-- Any other active line. -/
theorem processLine_active {rest : Text} (hc : conditional (lineView (firstBody rest)) = none)
    (he : s.eraseCtx.headD false = false)
    (hg : ¬ (otherKind s.opt (lineView (firstBody rest)) = .text ∧
      grows s.opt (firstBody rest) = true)) (hu : s.unscanned = []) :
    (processLine env s rest).2 = nextLine rest ∧
      (processLine env s rest).1.opt = optAfter env s.opt (firstBody rest) ∧
      (processLine env s rest).1.scanned = s.scanned ++ [(lineView (firstBody rest), true)] ∧
      (processLine env s rest).1.unscanned = [] ∧
      (processLine env s rest).1.eraseCtx = s.eraseCtx := by
  by_cases hk : otherKind s.opt (lineView (firstBody rest)) = .text
  · have hleft := replaceDefines_line (o := s.opt) (firstBody rest)
      (rest.drop (rest.takeWhile (· ≠ '\n')).length) (rest_tail rest)
    rw [if_neg (fun hgr => hg ⟨hk, hgr⟩), ← rest_split] at hleft
    have hopt : optAfter env s.opt (firstBody rest) = s.opt := by
      rw [optAfter, hk]
      rfl
    rw [hopt]
    unfold firstBody at hc hk hleft
    unfold processLine
    simp only [hc, he, Bool.false_eq_true, if_false, hk, hleft]
    refine ⟨rfl, trivial, rfl, ?_, trivial⟩
    split
    · rename_i h
      rw [h]
      rfl
    · exact hu
  · obtain ⟨h1, h2, h3, h4⟩ := execDirective_frame env
      (s := { s with lineIdx := s.lineIdx + 1,
                     scanned := s.scanned ++ [(lineView (firstBody rest), true)] })
      (lineView (firstBody rest)) (firstBody rest) (otherKind s.opt (lineView (firstBody rest)))
    unfold optAfter
    unfold firstBody at hc hk h1 h2 h3 h4 ⊢
    unfold processLine
    simp only [hc, he, Bool.false_eq_true, if_false]
    generalize otherKind s.opt (lineView _) = kind at hk h1 h2 h3 h4 ⊢
    cases kind with
    | text => exact absurd rfl hk
    | _ => exact ⟨rfl, h1, h3, h4.trans hu, h2⟩

end Line

/-! ## All the lines -/

section Run

variable (env : Env)

/-- The lines jumped over are the lines of the specification, treated as they stand. -/
theorem jumped_eq (o : PreProcessorOption) (fs : List Branch) (o' : PreProcessorOption)
    (ls : List Text) :
    jumped o ls = (specLines env fs o' ls).map (fun e => (e.1, otherKind o e.1 == .text)) := by
  induction ls generalizing fs o' with
  | nil => rfl
  | cons body ls ih =>
    unfold jumped at ih ⊢
    unfold specLines
    cases hc : conditional (lineView body) with
    | some c =>
      rw [List.filter_cons_of_neg (by simp [hc])]
      exact ih (enter o' fs c) o'
    | none =>
      rw [List.filter_cons_of_pos (by simp [hc]), List.map_cons, List.map_cons]
      exact congrArg (List.cons _) (ih fs _)

theorem jumped_iff (o : PreProcessorOption) (fs : List Branch) (ls : List Text) :
    jumped o ls = specLines env fs o ls ↔
      ∀ e ∈ specLines env fs o ls, e.2 = (otherKind o e.1 == .text) := by
  rw [jumped_eq env o fs o ls]
  constructor
  · intro h e he
    have := List.map_inj_left.mp (h.trans (List.map_id _).symm) e he
    exact (congrArg Prod.snd this).symm
  · intro h
    have hid : ∀ e ∈ specLines env fs o ls, (e.1, otherKind o e.1 == .text) = id e := by
      intro e he
      rw [← h e he]
      rfl
    exact (List.map_congr_left hid).trans (List.map_id _)

/-- The loop treats every line as its branches say exactly when the lines are clean. -/
theorem processLines_treatment (fuel : Nat) (s : LoopState) (rest : Text) (fs : List Branch)
    (hfuel : rest.length ≤ fuel) (hctx : s.eraseCtx = ctxOf fs) (hu : s.unscanned = []) :
    ∃ tr, treatment (processLines env fuel s rest) = s.scanned ++ tr ∧
      (tr = specLines env fs s.opt (bodies rest) ↔ Clean env fs s.opt (bodies rest)) := by
  induction fuel generalizing s rest fs with
  | zero =>
    have hnil : rest = [] := List.length_eq_zero_iff.mp (by omega)
    subst hnil
    refine ⟨[], ?_, ?_⟩
    · simp [processLines, treatment, hu, bodies, lines, jumped]
    · simp [bodies, lines, specLines, Clean]
  | succ fuel ih =>
    by_cases hnil : rest = []
    · subst hnil
      refine ⟨[], ?_, ?_⟩
      · simp [processLines, treatment, hu, bodies, lines, jumped]
      · simp [bodies, lines, specLines, Clean]
    · have hlen := nextLine_length hnil
      have hstep : processLines env (fuel + 1) s rest =
          processLines env fuel (processLine env s rest).1 (processLine env s rest).2 := by
        cases rest with
        | nil => exact absurd rfl hnil
        | cons c rest => rfl
      rw [hstep, bodies_eq hnil, specLines, Clean]
      cases hc : conditional (lineView (firstBody rest)) with
      | some c =>
        obtain ⟨hrest, hopt, hsc, hun, hctx'⟩ := processLine_conditional env hc hctx
        obtain ⟨tr, htr, hiff⟩ := ih (processLine env s rest).1 (nextLine rest) (enter s.opt fs c)
          (by omega) hctx' (hun.trans hu)
        rw [hopt] at hiff
        rw [hrest]
        exact ⟨tr, htr.trans (by rw [hsc]), hiff⟩
      | none =>
        simp only
        cases he : s.eraseCtx.headD false with
        | true =>
          -- erased: the branches are inactive, and the stack is right
          obtain ⟨hrest, hopt, hsc, hun, hctx'⟩ := processLine_erased env hc he
          obtain ⟨tr, htr, hiff⟩ := ih (processLine env s rest).1 (nextLine rest) fs
            (by omega) (hctx'.trans hctx) (hun.trans hu)
          have hno : (allActive fs || misKept fs) = false := by
            rw [hctx, ctxOf_headD, erased] at he
            simpa using he
          obtain ⟨ha, hm⟩ := Bool.or_eq_false_iff.mp hno
          rw [hopt] at hiff
          rw [hrest, ha, hm]
          refine ⟨(lineView (firstBody rest), false) :: tr, ?_, ?_⟩
          · rw [htr, hsc, List.append_assoc]
            rfl
          · simpa using hiff
        | false =>
          have hkept : (allActive fs || misKept fs) = true := by
            rw [hctx, ctxOf_headD, erased] at he
            simpa only [Bool.not_eq_eq_eq_not, Bool.not_false] using he
          -- the line is kept, so the branches decide unless the stack is wrong
          have hwrong (l : List (Text × Bool)) (P : Prop) (hm : misKept fs = true) :
              ((lineView (firstBody rest), true) :: l =
                (lineView (firstBody rest), allActive fs) ::
                  specLines env fs (if allActive fs = true then optAfter env s.opt (firstBody rest)
                    else s.opt) (bodies (nextLine rest)) ↔ misKept fs = false ∧ P) := by
            rw [misKept_not_active hm, hm]
            simp
          by_cases hg : otherKind s.opt (lineView (firstBody rest)) = .text ∧
              grows s.opt (firstBody rest) = true
          · obtain ⟨hrest, hopt, hsc, hun⟩ := processLine_grows env hc he hg.1 hg.2
            refine ⟨(lineView (firstBody rest), true) :: jumped s.opt (bodies (nextLine rest)), ?_, ?_⟩
            · rw [hrest]
              cases fuel <;> simp [processLines, treatment, hopt, hsc, hun]
            · cases hm : misKept fs with
              | true => exact hm ▸ hwrong _ _ hm
              | false =>
                rw [hm, Bool.or_false] at hkept
                have hopt' : optAfter env s.opt (firstBody rest) = s.opt := by
                  rw [optAfter, hg.1]
                  rfl
                simp only [hkept, if_true, if_pos hg, hopt', List.cons.injEq, true_and]
                exact jumped_iff env s.opt fs _
          · obtain ⟨hrest, hopt, hsc, hun, hctx'⟩ := processLine_active env hc he hg hu
            obtain ⟨tr, htr, hiff⟩ := ih (processLine env s rest).1 (nextLine rest) fs
              (by omega) (hctx'.trans hctx) hun
            refine ⟨(lineView (firstBody rest), true) :: tr, ?_, ?_⟩
            · rw [hrest, htr, hsc, List.append_assoc]
              rfl
            · cases hm : misKept fs with
              | true => exact hm ▸ hwrong _ _ hm
              | false =>
                rw [hm, Bool.or_false] at hkept
                rw [hopt] at hiff
                simp only [hkept, if_true, if_neg hg, List.cons.injEq, true_and]
                exact hiff

end Run

/-- **The preprocessor treats every line as its branches say exactly when the lines are clean.** -/
theorem treatment_iff (readFile : Text → Option Text) (depth : Nat) (o : PreProcessorOption)
    (input str : Text) (hcomments : applyPreProcessorComments o input = .ok str) :
    let env : Env := ⟨readFile, applyPreProcessor readFile depth⟩
    (applyPreProcessor readFile (depth + 1) o input).str = (runLines env o str).out ∧
      (treatment (runLines env o str) = specLines env [] o (bodies str) ↔
        Clean env [] o (bodies str)) := by
  intro env
  constructor
  · simp only [applyPreProcessor, hcomments]
    split <;> rfl
  · obtain ⟨tr, htr, hiff⟩ := processLines_treatment env str.length (LoopState.init o) str []
      (Nat.le_refl _) rfl rfl
    rw [runLines, htr]
    exact hiff

/-- The text of the counterexample. -/
def nestedElse : Text := "#ifdef A\n#ifdef A\nx\n#else\ny\n#endif\n#endif".toList

/-- With `A` defined only `x` is active, and `y` is kept as well. -/
theorem nested_else_keeps_inactive :
    let o : PreProcessorOption := ⟨[("A".toList, "".toList)], true, false⟩
    let env : Env := ⟨fun _ => none, applyPreProcessor (fun _ => none) 8⟩
    specLines env [] o (bodies nestedElse) = [("x".toList, true), ("y".toList, false)] ∧
      treatment (runLines env o nestedElse) = [("x".toList, true), ("y".toList, true)] ∧
      (applyPreProcessor (fun _ => none) 9 o nestedElse).str =
        "        \n        \nx\n     \ny\n      \n      ".toList := by
  decide +kernel

/-- A single `#else` is treated as its branches say. -/
theorem single_else_treatment :
    let o : PreProcessorOption := ⟨[("A".toList, "".toList)], true, false⟩
    let env : Env := ⟨fun _ => none, applyPreProcessor (fun _ => none) 8⟩
    let str : Text := "#ifdef A\nx\n#else\ny\n#endif".toList
    treatment (runLines env o str) = specLines env [] o (bodies str) := by
  intro o env str
  refine ((treatment_iff (fun _ => none) 8 o str str (by decide +kernel)).2).mpr ?_
  decide +kernel

end Acts.Preprocessor
