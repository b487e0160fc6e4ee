import Acts.Core.PreprocessorLines
import Mathlib.Data.List.TakeWhile

/-!
# Macro replacement keeps to its line

* `processLineAlone`, `runLinesAlone` — the loop over the lines, with the replacement on a line
  held to that line.
* `MacrosStay` — after an active text line on which a replacement is longer than its name, only
  text lines follow.
* `runLines_alone_iff` — **the preprocessor has the effects of that loop exactly when the lines
  are so**: in any other text the directive that comes next is left in the text.
-/

set_option autoImplicit false

namespace Acts.Preprocessor

/-! ## Replacement held to a line -/

/-- One turn of the loop, where the replacement sees the line alone. -/
def processLineAlone (env : Env) (s : LoopState) (rest : Text) : LoopState × Text :=
  let s := { s with lineIdx := s.lineIdx + 1 }
  let raw := rest.takeWhile (· ≠ '\n')
  let after := rest.drop raw.length
  let lead := raw.takeWhile isspace
  let body := raw.dropWhile isspace
  let line := lineView body
  let finish (s : LoopState) (text : Text) : LoopState × Text :=
    ({ s with out := s.out ++ lead ++ text ++ after.take 1 }, after.drop 1)
  match conditional line with
  | some c => finish (execConditional s c) (blank body)
  | none =>
    if s.eraseCtx.headD false then
      finish { s with scanned := s.scanned ++ [(line, false)] } (blank body)
    else
      let s := { s with scanned := s.scanned ++ [(line, true)] }
      match otherKind s.opt line with
      | .text => finish s (replaceDefines s.opt body body.length).1
      | kind =>
        let (s, text) := execDirective env s line body kind
        finish s (blank text)

def processLinesAlone (env : Env) : Nat → LoopState → Text → LoopState
  | _, s, [] => s
  | 0, s, _ => s
  | fuel + 1, s, rest =>
    let (s, rest) := processLineAlone env s rest
    processLinesAlone env fuel s rest

def runLinesAlone (env : Env) (o : PreProcessorOption) (str : Text) : LoopState :=
  processLinesAlone env str.length (LoopState.init o) str

/-- Two runs agree on the text, the names, the calls of the error handler, the failure and the
open branches. -/
structure SameEffects (a b : LoopState) : Prop where
  out : a.out = b.out
  opt : a.opt = b.opt
  log : a.log = b.log
  err : a.err = b.err
  eraseCtx : a.eraseCtx = b.eraseCtx

theorem SameEffects.symm {a b : LoopState} (h : SameEffects a b) : SameEffects b a :=
  ⟨h.out.symm, h.opt.symm, h.log.symm, h.err.symm, h.eraseCtx.symm⟩

theorem SameEffects.trans {a b c : LoopState} (h : SameEffects a b) (h' : SameEffects b c) :
    SameEffects a c :=
  ⟨h.out.trans h'.out, h.opt.trans h'.opt, h.log.trans h'.log, h.err.trans h'.err,
    h.eraseCtx.trans h'.eraseCtx⟩

/-! ## The condition -/

def isText (o : PreProcessorOption) (body : Text) : Bool :=
  (conditional (lineView body)).isNone && otherKind o (lineView body) == .text

/-- The erased contexts after a conditional directive. -/
def ctxAfter (o : PreProcessorOption) (ctx : List Bool) (c : Conditional) : List Bool :=
  (execConditional { LoopState.init o with eraseCtx := ctx } c).eraseCtx

/-- After an active text line that grows, only text lines follow. -/
def MacrosStay (env : Env) : List Bool → PreProcessorOption → List Text → Prop
  | _, _, [] => True
  | ctx, o, body :: ls =>
    match conditional (lineView body) with
    | some c => MacrosStay env (ctxAfter o ctx c) o ls
    | none =>
      if ctx.headD false = true then MacrosStay env ctx o ls
      else if otherKind o (lineView body) = .text ∧ grows o body = true then
        ∀ b ∈ ls, isText o b = true
      else MacrosStay env ctx (optAfter env o body) ls

/-! ## Replacement over a whole text -/

section Replace

variable {o : PreProcessorOption}

/-- Every name of the text replaced. -/
def replaceAll (o : PreProcessorOption) (s : Text) : Text := (replaceDefines o s s.length).1

theorem replaceFrom_fuel : ∀ (f g : Nat) (s : Text) (k : Nat), s.length ≤ f → s.length ≤ g →
    replaceFrom o f s k = replaceFrom o g s k := by
  intro f
  induction f with
  | zero =>
    intro g s k hf _
    obtain rfl := List.length_eq_zero_iff.mp (Nat.le_zero.mp hf)
    cases g <;> simp [replaceFrom]
  | succ f ih =>
    intro g s k hf hg
    cases s with
    | nil => cases g <;> simp [replaceFrom]
    | cons c s =>
      obtain ⟨g, rfl⟩ : ∃ n, g = n + 1 := ⟨g - 1, by simp at hg; omega⟩
      simp only [List.length_cons] at hf hg
      cases k with
      | zero => rfl
      | succ k =>
        have hrest : (((c :: s).drop (idfSize (c :: s))).drop 1).length ≤ s.length := by
          simp only [List.length_drop, List.length_cons]
          omega
        simp only [replaceFrom, ih g s k (by omega) (by omega),
          ih g (((c :: s).drop (idfSize (c :: s))).drop 1) _ (by omega) (by omega)]

theorem expand_fst (idf after : Text) (left : Nat) :
    (expand o idf after left).1 = (expand o idf [] 0).1 := by
  unfold expand
  cases o.find idf with
  | none => rfl
  | some replace =>
    simp only
    split <;> rfl

/-- No identifier goes on behind an identifier. -/
theorem drop_idfSize (s : Text) :
    s.drop (idfSize s) = [] ∨ ∃ d t, s.drop (idfSize s) = d :: t ∧ isIdentifierChar d = false := by
  induction s with
  | nil => exact .inl rfl
  | cons c s ih =>
    by_cases hc : isIdentifierChar c = true
    · have hsize : idfSize (c :: s) = idfSize s + 1 := by
        simp only [idfSize, List.takeWhile_cons_of_pos hc, List.length_cons]
      rw [hsize, List.drop_succ_cons]
      exact ih
    · have hsize : idfSize (c :: s) = 0 := by
        simp only [idfSize, List.takeWhile_cons_of_neg hc, List.length_nil]
      rw [hsize, List.drop_zero]
      exact .inr ⟨c, s, rfl, by simpa using hc⟩

@[simp] theorem replaceAll_nil : replaceAll o [] = [] := rfl

theorem replaceAll_other {c : Char} (s : Text) (hc : isIdentifierChar c = false) :
    replaceAll o (c :: s) = c :: replaceAll o s := by
  simp only [replaceAll, replaceDefines, List.length_cons, replaceFrom, hc, Bool.not_false, if_true]

/-- The character after an identifier is not looked at, and is none. -/
theorem replaceAll_skip {fuel : Nat} {after : Text}
    (h : after = [] ∨ ∃ d t, after = d :: t ∧ isIdentifierChar d = false)
    (hfuel : after.length ≤ fuel) :
    after.take 1 ++ (replaceFrom o fuel (after.drop 1) (after.length - 1)).1 =
      replaceAll o after := by
  rcases h with rfl | ⟨d, t, rfl, hd⟩
  · cases fuel <;> rfl
  · rw [List.length_cons] at hfuel
    have hf := replaceFrom_fuel (o := o) fuel t.length t t.length (by omega) (Nat.le_refl _)
    rw [replaceAll_other t hd]
    simp only [List.take_succ_cons, List.take_zero, List.drop_succ_cons, List.drop_zero,
      List.length_cons, Nat.add_sub_cancel, hf]
    rfl

theorem replaceAll_idf {c : Char} (s : Text) (hc : isIdentifierChar c = true) :
    replaceAll o (c :: s) =
      (expand o ((c :: s).take (idfSize (c :: s))) [] 0).1 ++
        replaceAll o ((c :: s).drop (idfSize (c :: s))) := by
  have hlen : s.length + 1 - idfSize (c :: s) = ((c :: s).drop (idfSize (c :: s))).length := by
    simp
  have hle : ((c :: s).drop (idfSize (c :: s))).length ≤ s.length := by
    have := idfSize_pos s hc
    simp only [List.length_drop, List.length_cons]
    omega
  rw [← replaceAll_skip (drop_idfSize (c :: s)) hle]
  simp only [replaceAll, replaceDefines, List.length_cons, replaceFrom, hc, Bool.not_true,
    Bool.false_eq_true, if_false, expand_left, hlen, ite_self, expand_fst]
  split
  · rename_i h0
    obtain h0 := List.length_eq_zero_iff.mp h0
    rw [h0]
    cases s.length <;> simp [replaceFrom]
  · rw [List.append_assoc]

/-- Replacement in a text and in what follows it. -/
theorem replaceAll_append (a : Text) {t : Text} (ht : Apart t) :
    replaceAll o (a ++ t) = replaceAll o a ++ replaceAll o t := by
  induction hn : a.length using Nat.strongRecOn generalizing a with
  | ind n ih =>
    cases a with
    | nil => rfl
    | cons c s =>
      by_cases hc : isIdentifierChar c = true
      · have hle := idfSize_le (c :: s)
        have hpos := idfSize_pos s hc
        rw [List.cons_append, replaceAll_idf (s ++ t) hc, replaceAll_idf s hc, ← List.cons_append,
          idfSize_append _ ht, List.take_append_of_le_length hle,
          List.drop_append_of_le_length hle, List.append_assoc]
        refine congrArg (List.append _) (ih _ ?_ _ rfl)
        rw [← hn, List.length_drop, List.length_cons]
        omega
      · have hc : isIdentifierChar c = false := by simpa using hc
        rw [List.cons_append, replaceAll_other _ hc, replaceAll_other _ hc, List.cons_append]
        exact congrArg (List.cons c) (ih s.length (by rw [← hn]; simp) s rfl)

/-- On a line that grows the replacement goes on to the end of the text; on another it stops. -/
theorem replaceFrom_line_text {fuel gas : Nat} (body t : Text)
    (ht : t = [] ∨ t.head? = some '\n') (hfuel : (body ++ t).length ≤ fuel)
    (hgas : body.length ≤ gas) :
    (replaceFrom o fuel (body ++ t) body.length).1 =
      replaceAll o body ++ if growsFrom o gas body = true then replaceAll o t else [] := by
  induction fuel generalizing body gas with
  | zero =>
    obtain ⟨rfl, rfl⟩ := List.append_eq_nil_iff.mp
      (List.length_eq_zero_iff.mp (Nat.le_zero.mp hfuel))
    simp [replaceFrom]
  | succ fuel ih =>
    cases body with
    | nil =>
      have hg : growsFrom o gas [] = false := by cases gas <;> rfl
      rw [hg]
      cases t <;> rfl
    | cons c s =>
      obtain ⟨gas, rfl⟩ : ∃ g, gas = g + 1 := ⟨gas - 1, by simp at hgas; omega⟩
      simp only [List.cons_append, List.length_cons] at hfuel hgas ⊢
      by_cases hc : isIdentifierChar c = true
      · have hid : idfSize (c :: (s ++ t)) = idfSize (c :: s) := by
          rw [← List.cons_append, idfSize_append _ (apart_of_line ht)]
        have hle := idfSize_le (c :: s)
        have hpos := idfSize_pos s hc
        have htake : (c :: (s ++ t)).take (idfSize (c :: s)) = (c :: s).take (idfSize (c :: s)) := by
          rw [← List.cons_append, List.take_append_of_le_length hle]
        have hdrop : (c :: (s ++ t)).drop (idfSize (c :: s)) =
            (c :: s).drop (idfSize (c :: s)) ++ t := by
          rw [← List.cons_append, List.drop_append_of_le_length hle]
        have hlen : s.length + 1 - idfSize (c :: s) = ((c :: s).drop (idfSize (c :: s))).length := by
          simp
        have hhead := drop_idfSize (c :: s)
        rw [replaceAll_idf s hc, growsFrom, replaceFrom]
        simp only [hc, Bool.not_true, Bool.false_eq_true, if_false, hid, htake, hdrop, hlen,
          expand_left, expand_fst]
        generalize (c :: s).take (idfSize (c :: s)) = idf
        generalize hrest : (c :: s).drop (idfSize (c :: s)) = rest at hhead
        have hrl : rest.length ≤ s.length := by
          rw [← hrest, List.length_drop, List.length_cons]
          omega
        cases hgrow : longer o idf with
        | true =>
          have hhead' : rest ++ t = [] ∨
              ∃ d u, rest ++ t = d :: u ∧ isIdentifierChar d = false := by
            rcases hhead with rfl | ⟨d, u, rfl, hd⟩
            · cases t with
              | nil => exact .inl rfl
              | cons d u =>
                have hd : d = '\n' := by simpa using ht
                exact .inr ⟨d, u, rfl, by rw [hd]; decide⟩
            · exact .inr ⟨d, u ++ t, rfl, hd⟩
          have hfuel' : (rest ++ t).length ≤ fuel := by
            simp only [List.length_append] at hfuel ⊢
            omega
          have hskip := replaceAll_skip (o := o) hhead' hfuel'
          simp only [if_true, Bool.true_or]
          have hboth : (expand o idf [] 0).1 ++ replaceAll o rest ++ replaceAll o t =
              (expand o idf [] 0).1 ++ replaceAll o (rest ++ t) := by
            rw [replaceAll_append rest (apart_of_line ht), List.append_assoc]
          rw [hboth, ← hskip]
          split
          · rename_i h0
            rw [List.length_eq_zero_iff.mp h0]
            cases fuel <;> simp [replaceFrom]
          · rw [List.append_assoc]
        | false =>
          simp only [Bool.false_eq_true, if_false, Bool.false_or]
          rcases hhead with rfl | ⟨d, u, rfl, hd⟩
          · have hg : growsFrom o gas [] = false := by cases gas <;> rfl
            simp [hg]
          · rw [List.length_cons] at hrl
            have hih := ih u (by simp only [List.length_append] at hfuel ⊢; omega)
              (show u.length ≤ gas by omega)
            simp only [List.length_cons, Nat.add_one_ne_zero, if_false, List.cons_append,
              List.drop_succ_cons, List.drop_zero, Nat.add_sub_cancel, hih,
              List.take_succ_cons, List.take_zero, replaceAll_other u hd, List.append_assoc,
              List.nil_append]
      · have hc : isIdentifierChar c = false := by simpa using hc
        rw [replaceAll_other s hc, growsFrom, replaceFrom]
        simp only [hc, Bool.not_false, if_true]
        have hih := ih s (Nat.le_of_succ_le_succ hfuel) (Nat.le_of_succ_le_succ hgas)
        rw [hih, List.cons_append]

/-- A line with what follows it, where the replacement was asked for on the line. -/
theorem replaceDefines_line_text (body t : Text) (ht : t = [] ∨ t.head? = some '\n') :
    (replaceDefines o (body ++ t) body.length).1 =
      replaceAll o body ++ if grows o body = true then replaceAll o t else [] :=
  replaceFrom_line_text body t ht (Nat.le_refl _) (Nat.le_refl _)

end Replace

theorem not_identifier_of_space {c : Char} (h : isspace c = true) : isIdentifierChar c = false := by
  have hcases : c.toNat = 32 ∨ (9 ≤ c.toNat ∧ c.toNat ≤ 13) := by
    simp only [isspace, Bool.or_eq_true, beq_iff_eq, Bool.and_eq_true, decide_eq_true_eq] at h
    rcases h with rfl | h
    · exact .inl rfl
    · exact .inr h
  by_contra hid
  have hid : c = '_' ∨ c.isAlphanum = true := by
    simpa only [isIdentifierChar, Bool.not_eq_false, Bool.or_eq_true, beq_iff_eq] using hid
  rcases hid with rfl | hid
  · exact absurd hcases (by decide)
  · have hval : c.toNat = c.val.toNat := rfl
    have hor : ((decide ('A'.val ≤ c.val ∧ c.val ≤ 'Z'.val) ||
        (decide ('a'.val ≤ c.val) && decide (c.val ≤ 'z'.val))) ||
        (decide ('0'.val ≤ c.val) && decide (c.val ≤ '9'.val))) = true := hid
    simp only [Bool.or_eq_true, Bool.and_eq_true, decide_eq_true_eq, UInt32.le_iff_toNat_le] at hor
    simp at hor
    omega

/-! ## One line -/

section Line

variable (env : Env) {s : LoopState}

/-- More text behind what a state has written. -/
def LoopState.emit (s : LoopState) (text : Text) : LoopState := { s with out := s.out ++ text }

/-- The spaces at the start of the first line. -/
def leadOf (rest : Text) : Text := (rest.takeWhile (· ≠ '\n')).takeWhile isspace

/-- What follows the first line, its end of line included. -/
def afterLine (rest : Text) : Text := rest.drop (rest.takeWhile (· ≠ '\n')).length

theorem lead_split (rest : Text) :
    firstBody rest ++ afterLine rest = rest.drop (leadOf rest).length := (rest_split rest).symm

theorem afterLine_head (rest : Text) : afterLine rest = [] ∨
    ∃ t, afterLine rest = '\n' :: t := by
  rcases rest_tail rest with hnil | hhead
  · exact .inl hnil
  · cases hafter : afterLine rest with
    | nil => exact .inl rfl
    | cons d t =>
      unfold afterLine at hafter
      rw [hafter] at hhead
      cases hhead
      exact .inr ⟨t, rfl⟩

theorem replaceAll_afterLine (o : PreProcessorOption) (rest : Text) :
    replaceAll o (afterLine rest) = (afterLine rest).take 1 ++ replaceAll o (nextLine rest) := by
  have hnext : nextLine rest = (afterLine rest).drop 1 := rfl
  rcases afterLine_head rest with h | ⟨t, h⟩
  · rw [hnext, h]
    rfl
  · rw [hnext, h, replaceAll_other t (by decide)]
    rfl

theorem replaceAll_spaces (o : PreProcessorOption) (l t : Text) (hl : ∀ c ∈ l, isspace c = true) :
    replaceAll o (l ++ t) = l ++ replaceAll o t := by
  induction l with
  | nil => rfl
  | cons c l ih =>
    have hc : isspace c = true := hl c List.mem_cons_self
    rw [List.cons_append, replaceAll_other _ (not_identifier_of_space hc),
      ih (fun d hd => hl d (List.mem_cons_of_mem c hd)), List.cons_append]

/-- Replacement in a text, line by line. -/
theorem replaceAll_rest (o : PreProcessorOption) (rest : Text) :
    replaceAll o rest = leadOf rest ++ (replaceAll o (firstBody rest) ++
      ((afterLine rest).take 1 ++ replaceAll o (nextLine rest))) := by
  have hrest : rest = leadOf rest ++ (firstBody rest ++ afterLine rest) := by
    have htake : leadOf rest ++ firstBody rest = rest.takeWhile (· ≠ '\n') :=
      List.takeWhile_append_dropWhile
    rw [← List.append_assoc, htake]
    exact (List.prefix_iff_eq_append.mp (List.takeWhile_prefix _)).symm
  have hboth : replaceAll o (firstBody rest ++ afterLine rest) =
      replaceAll o (firstBody rest) ++ replaceAll o (afterLine rest) :=
    replaceAll_append _ (apart_of_line (rest_tail rest))
  rw [← replaceAll_afterLine, ← hboth]
  conv_lhs => rw [hrest]
  exact replaceAll_spaces o _ _ (fun c hc => List.mem_takeWhile_imp hc)

theorem execConditional_out (s : LoopState) (c : Conditional) :
    (execConditional s c).out = s.out := by
  cases c with
  | elseDirective => simp only [execConditional]; split <;> rfl
  | endifDirective => simp only [execConditional]; split <;> rfl
  | _ => rfl

theorem execConditional_ctxAfter (s : LoopState) (c : Conditional) :
    (execConditional s c).eraseCtx = ctxAfter s.opt s.eraseCtx c := by
  cases c with
  | elseDirective =>
    simp only [ctxAfter, execConditional]
    split <;> rfl
  | endifDirective =>
    simp only [ctxAfter, execConditional]
    split <;> rfl
  | _ => rfl

theorem execDirective_out (line body : Text) (kind : OtherKind) :
    (execDirective env s line body kind).1.out = s.out := by
  cases kind with
  | define => simp only [execDirective]; split <;> rfl
  | insert =>
    simp only [execDirective, execInsert]
    cases parameter line 7 "#insert" "parameter" true with
    | error e => rfl
    | ok filename =>
      simp only
      cases env.readFile (trimFilename filename) with
      | none => rfl
      | some data =>
        simp only
        split <;> rfl
  | _ => rfl

theorem blank_head (x : Text) : (blank x).head? ≠ some '#' := by
  cases x with
  | nil => simp [blank]
  | cons c x =>
    intro h
    have hc : setBlankChar c = '#' := Option.some.inj h
    unfold setBlankChar at hc
    split at hc
    · rename_i hs
      rw [hc] at hs
      exact absurd hs (by decide)
    · exact absurd hc (by decide)

theorem startsWith_head {line : Text} {p : String} {q : Text} (hp : p.toList = '#' :: q)
    (h : startsWith line p = true) : ∃ more, line = '#' :: more := by
  rw [startsWith, hp] at h
  cases line with
  | nil => cases h
  | cons c line =>
    simp only [List.isPrefixOf_cons_cons, Bool.and_eq_true, beq_iff_eq] at h
    exact ⟨line, by rw [← h.1]⟩

/-- A directive starts with a number sign. -/
theorem head_of_not_text {o : PreProcessorOption} {body : Text} (h : isText o body = false) :
    ∃ more, body = '#' :: more := by
  have hline : ∃ more, lineView body = '#' :: more := by
    by_contra hno
    have hstart : ∀ (p : String) (q : Text), p.toList = '#' :: q →
        startsWith (lineView body) p = false := by
      intro p q hp
      by_contra htrue
      exact hno (startsWith_head hp (by simpa using htrue))
    have hcond : conditional (lineView body) = none := by
      simp only [conditional, hstart "#ifdef" _ rfl, hstart "#ifndef" _ rfl, hstart "#else" _ rfl,
        hstart "#endif" _ rfl, Bool.false_eq_true, if_false]
    have hkind : otherKind o (lineView body) = .text := by
      simp only [otherKind, hstart "#define" _ rfl, hstart "#error" _ rfl, hstart "#warning" _ rfl,
        hstart "#insert" _ rfl, hstart "#region" _ rfl, hstart "#endregion" _ rfl, Bool.and_false,
        Bool.or_false, Bool.false_eq_true, if_false]
    rw [isText, hcond, hkind] at h
    cases h
  obtain ⟨more, hmore⟩ := hline
  unfold lineView at hmore
  split at hmore
  · cases body with
    | nil => cases hmore
    | cons c body =>
      cases body with
      | nil => cases hmore
      | cons d body =>
        rw [List.dropLast_cons_cons] at hmore
        cases hmore
        exact ⟨_, rfl⟩
  · exact ⟨more, hmore⟩

theorem isText_iff {o : PreProcessorOption} {body : Text} : isText o body = true ↔
    conditional (lineView body) = none ∧ otherKind o (lineView body) = .text := by
  rw [isText, Bool.and_eq_true, Option.isNone_iff_eq_none, beq_iff_eq]

/-- A line that is no active text line leaves blanks in its place. -/
theorem processLineAlone_blanks {rest : Text}
    (h : isText s.opt (firstBody rest) = false ∨ s.eraseCtx.headD false = true) :
    ∃ x, (processLineAlone env s rest).1.out =
      s.out ++ leadOf rest ++ blank x ++ (afterLine rest).take 1 := by
  unfold isText firstBody at h
  unfold processLineAlone
  simp only
  cases hc : conditional (lineView _) with
  | some c =>
    simp only [execConditional_out]
    exact ⟨_, rfl⟩
  | none =>
    simp only
    cases he : s.eraseCtx.headD false with
    | true =>
      rw [if_pos rfl]
      exact ⟨_, rfl⟩
    | false =>
      simp only [hc, he, Option.isNone_none, Bool.true_and, Bool.false_eq_true, or_false,
        beq_eq_false_iff_ne, ne_eq, if_false] at h ⊢
      cases hk : otherKind s.opt (lineView _) with
      | text => exact absurd hk h
      | _ =>
        simp only [execDirective_out]
        exact ⟨_, rfl⟩

theorem processLineAlone_next (s : LoopState) (rest : Text) :
    (processLineAlone env s rest).2 = nextLine rest := by
  unfold processLineAlone
  simp only
  split
  · rfl
  · split
    · rfl
    · split <;> rfl

/-- An active text line. -/
theorem processLineAlone_text {rest : Text} (h : isText s.opt (firstBody rest) = true)
    (he : s.eraseCtx.headD false = false) :
    (processLineAlone env s rest).1 = { s with
      lineIdx := s.lineIdx + 1
      scanned := s.scanned ++ [(lineView (firstBody rest), true)]
      out := s.out ++ leadOf rest ++ replaceAll s.opt (firstBody rest) ++
        (afterLine rest).take 1 } := by
  obtain ⟨hc, hk⟩ := isText_iff.mp h
  unfold firstBody at hc hk
  unfold processLineAlone
  simp only [hc, he, hk, Bool.false_eq_true, if_false]
  rfl

/-- Without growth a turn is one where the replacement sees the line alone. -/
theorem processLine_eq_alone {rest : Text} (hu : s.unscanned = [])
    (hg : ¬ (isText s.opt (firstBody rest) = true ∧ s.eraseCtx.headD false = false ∧
      grows s.opt (firstBody rest) = true)) :
    processLine env s rest = processLineAlone env s rest := by
  have hline := replaceDefines_line (o := s.opt) (firstBody rest) (afterLine rest) (rest_tail rest)
  have htext := replaceDefines_line_text (o := s.opt) (firstBody rest) (afterLine rest)
    (rest_tail rest)
  unfold processLine processLineAlone
  simp only
  cases hc : conditional (lineView _) with
  | some c => rfl
  | none =>
    simp only
    cases he : s.eraseCtx.headD false with
    | true => rfl
    | false =>
      simp only [Bool.false_eq_true, if_false]
      cases hk : otherKind s.opt (lineView _) with
      | text =>
        have hno : ¬ grows s.opt (firstBody rest) = true :=
          fun hgr => hg ⟨isText_iff.mpr ⟨hc, hk⟩, he, hgr⟩
        rw [if_neg hno, lead_split] at hline
        rw [if_neg hno, List.append_nil, lead_split] at htext
        unfold firstBody leadOf at hline htext
        have hopt : (if afterLine rest = [] then List.drop 1
            (rest.drop (rest.takeWhile (· ≠ '\n')).length) else s.unscanned) = s.unscanned := by
          split
          · rename_i hnil
            unfold afterLine at hnil
            rw [hnil, hu]
            rfl
          · rfl
        simp only [hline, htext, hopt]
        rfl
      | _ => rfl

/-- With growth the turn goes on over the rest of the text. -/
theorem processLine_takes_rest {rest : Text} (h : isText s.opt (firstBody rest) = true)
    (he : s.eraseCtx.headD false = false) (hg : grows s.opt (firstBody rest) = true) :
    (processLine env s rest).2 = [] ∧
      SameEffects (processLine env s rest).1
        ((processLineAlone env s rest).1.emit (replaceAll s.opt (nextLine rest))) := by
  obtain ⟨hc, hk⟩ := isText_iff.mp h
  have hleft := replaceDefines_line (o := s.opt) (firstBody rest) (afterLine rest) (rest_tail rest)
  have htext := replaceDefines_line_text (o := s.opt) (firstBody rest) (afterLine rest)
    (rest_tail rest)
  rw [if_pos hg, lead_split] at hleft
  rw [if_pos hg, replaceAll_afterLine, lead_split] at htext
  rw [processLineAlone_text env h he]
  unfold firstBody leadOf at hleft htext
  unfold firstBody at hc hk
  unfold processLine
  simp only [hc, he, Bool.false_eq_true, if_false, hk, hleft, htext, if_true]
  refine ⟨rfl, ?_, rfl, rfl, rfl, rfl⟩
  simp only [LoopState.emit, List.take_nil, List.append_nil, List.append_assoc]
  rfl

/-- A conditional directive changes the erased contexts only. -/
theorem processLine_ctx {rest : Text} {c : Conditional}
    (hc : conditional (lineView (firstBody rest)) = some c) :
    (processLine env s rest).2 = nextLine rest ∧ (processLine env s rest).1.opt = s.opt ∧
      (processLine env s rest).1.unscanned = s.unscanned ∧
      (processLine env s rest).1.eraseCtx = ctxAfter s.opt s.eraseCtx c := by
  obtain ⟨h1, -, h3⟩ := execConditional_frame { s with lineIdx := s.lineIdx + 1 } c
  have h4 := execConditional_ctxAfter { s with lineIdx := s.lineIdx + 1 } c
  unfold firstBody at hc
  unfold processLine
  simp only [hc]
  exact ⟨rfl, h1, h3, h4⟩

end Line

/-! ## All the lines -/

section Run

variable (env : Env)

theorem processLineAlone_out (s : LoopState) (rest : Text) :
    ∃ x, (processLineAlone env s rest).1.out = s.out ++ x := by
  by_cases h : isText s.opt (firstBody rest) = true ∧ s.eraseCtx.headD false = false
  · rw [processLineAlone_text env h.1 h.2]
    exact ⟨_, by simp only [List.append_assoc]; rfl⟩
  · have h' : isText s.opt (firstBody rest) = false ∨ s.eraseCtx.headD false = true := by
      cases ht : isText s.opt (firstBody rest) with
      | false => exact .inl rfl
      | true => exact .inr (by simpa [ht] using h)
    obtain ⟨x, hx⟩ := processLineAlone_blanks env h'
    exact ⟨_, by rw [hx]; simp only [List.append_assoc]; rfl⟩

theorem processLinesAlone_out (fuel : Nat) (s : LoopState) (rest : Text) :
    ∃ x, (processLinesAlone env fuel s rest).out = s.out ++ x := by
  induction fuel generalizing s rest with
  | zero => cases rest <;> exact ⟨[], (List.append_nil _).symm⟩
  | succ fuel ih =>
    cases rest with
    | nil => exact ⟨[], (List.append_nil _).symm⟩
    | cons c rest =>
      obtain ⟨x, hx⟩ := processLineAlone_out env s (c :: rest)
      obtain ⟨y, hy⟩ := ih (processLineAlone env s (c :: rest)).1 (processLineAlone env s (c :: rest)).2
      refine ⟨x ++ y, ?_⟩
      rw [← List.append_assoc, ← hx]
      exact hy

/-- Where only text is left, replacing all of it is what the lines do one by one; where a directive
comes, it is not. -/
theorem processLinesAlone_text (fuel : Nat) (s : LoopState) (rest : Text)
    (hfuel : rest.length ≤ fuel) (he : s.eraseCtx.headD false = false) :
    SameEffects (s.emit (replaceAll s.opt rest)) (processLinesAlone env fuel s rest) ↔
      ∀ b ∈ bodies rest, isText s.opt b = true := by
  have hempty : ∀ n (s : LoopState), processLinesAlone env n s [] = s := by
    intro n s
    cases n <;> rfl
  induction fuel generalizing s rest with
  | zero =>
    obtain rfl := List.length_eq_zero_iff.mp (Nat.le_zero.mp hfuel)
    rw [hempty, replaceAll_nil, LoopState.emit, List.append_nil]
    simp only [bodies, lines, List.map_nil, List.not_mem_nil, false_imp_iff, implies_true, iff_true]
    exact ⟨rfl, rfl, rfl, rfl, rfl⟩
  | succ fuel ih =>
    by_cases hnil : rest = []
    · subst hnil
      rw [hempty, replaceAll_nil, LoopState.emit, List.append_nil]
      simp only [bodies, lines, List.map_nil, List.not_mem_nil, false_imp_iff, implies_true,
        iff_true]
      exact ⟨rfl, rfl, rfl, rfl, rfl⟩
    · have hlen := nextLine_length hnil
      have hstep : processLinesAlone env (fuel + 1) s rest =
          processLinesAlone env fuel (processLineAlone env s rest).1 (nextLine rest) := by
        rw [← processLineAlone_next env s rest]
        cases rest with
        | nil => exact absurd rfl hnil
        | cons c rest => rfl
      rw [hstep, bodies_eq hnil]
      cases ht : isText s.opt (firstBody rest) with
      | true =>
        have hline := processLineAlone_text env ht he
        generalize (processLineAlone env s rest).1 = s₁ at hline ⊢
        have hopt : s₁.opt = s.opt := by rw [hline]
        have hctx : s₁.eraseCtx = s.eraseCtx := by rw [hline]
        have hsame : SameEffects (s.emit (replaceAll s.opt rest))
            (s₁.emit (replaceAll s₁.opt (nextLine rest))) := by
          rw [replaceAll_rest, hline]
          exact ⟨by simp only [LoopState.emit, List.append_assoc], rfl, rfl, rfl, rfl⟩
        have hih := ih s₁ (nextLine rest) (by omega) (hctx ▸ he)
        rw [hopt] at hih hsame
        simp only [List.mem_cons, forall_eq_or_imp, ht, true_and]
        exact Iff.trans ⟨fun h => hsame.symm.trans h, fun h => hsame.trans h⟩ hih
      | false =>
        -- the text keeps a number sign where the lines leave a blank or nothing
        have hno : ¬ ∀ b ∈ firstBody rest :: bodies (nextLine rest), isText s.opt b = true := by
          intro h
          have := h (firstBody rest) List.mem_cons_self
          rw [ht] at this
          cases this
        refine iff_of_false (fun h => ?_) hno
        obtain ⟨x, hx⟩ := processLineAlone_blanks (s := s) env (.inl ht)
        obtain ⟨z, hz⟩ := processLinesAlone_out env fuel (processLineAlone env s rest).1
          (nextLine rest)
        obtain ⟨more, hmore⟩ := head_of_not_text ht
        have hout : s.out ++ replaceAll s.opt rest = _ := h.out
        rw [hz, hx, replaceAll_rest, hmore, replaceAll_other more (by decide)] at hout
        simp only [List.append_assoc, List.append_cancel_left_eq, List.cons_append] at hout
        cases hblank : blank x with
        | cons c y =>
          have hc := blank_head x
          rw [hblank] at hc hout
          exact hc (congrArg List.head? hout).symm
        | nil =>
          rw [hblank, List.nil_append] at hout
          rcases afterLine_head rest with hafter | ⟨t, hafter⟩
          · have hnext : nextLine rest = [] := congrArg (List.drop 1) hafter
            rw [hnext, hempty, List.self_eq_append_right] at hz
            rw [hafter, hz] at hout
            cases hout
          · rw [hafter] at hout
            exact absurd (List.cons.inj hout).1 (by decide)

/-- The two loops from one state. -/
theorem processLines_alone_iff (fuel : Nat) (s : LoopState) (rest : Text)
    (hfuel : rest.length ≤ fuel) (hu : s.unscanned = []) :
    SameEffects (processLines env fuel s rest) (processLinesAlone env fuel s rest) ↔
      MacrosStay env s.eraseCtx s.opt (bodies rest) := by
  induction fuel generalizing s rest with
  | zero =>
    obtain rfl := List.length_eq_zero_iff.mp (Nat.le_zero.mp hfuel)
    exact iff_of_true ⟨rfl, rfl, rfl, rfl, rfl⟩ trivial
  | succ fuel ih =>
    by_cases hnil : rest = []
    · subst hnil
      exact iff_of_true ⟨rfl, rfl, rfl, rfl, rfl⟩ trivial
    · have hlen := nextLine_length hnil
      have hstep : processLines env (fuel + 1) s rest =
          processLines env fuel (processLine env s rest).1 (processLine env s rest).2 := by
        cases rest with
        | nil => exact absurd rfl hnil
        | cons c rest => rfl
      have hstep' : processLinesAlone env (fuel + 1) s rest =
          processLinesAlone env fuel (processLineAlone env s rest).1 (nextLine rest) := by
        rw [← processLineAlone_next env s rest]
        cases rest with
        | nil => exact absurd rfl hnil
        | cons c rest => rfl
      rw [hstep, hstep', bodies_eq hnil, MacrosStay]
      by_cases hg : isText s.opt (firstBody rest) = true ∧ s.eraseCtx.headD false = false ∧
          grows s.opt (firstBody rest) = true
      · obtain ⟨ht, he, hgrow⟩ := hg
        obtain ⟨hrest, hsame⟩ := processLine_takes_rest env ht he hgrow
        obtain ⟨hc, hk⟩ := isText_iff.mp ht
        have hline := processLineAlone_text env ht he
        have hempty : ∀ s, processLines env fuel s [] = s := by
          intro s
          cases fuel <;> rfl
        rw [hrest, hempty, hc]
        simp only [he, Bool.false_eq_true, if_false, hk, hgrow, and_self, if_true]
        generalize (processLineAlone env s rest).1 = s₁ at hline hsame ⊢
        have hopt : s₁.opt = s.opt := by rw [hline]
        have hctx : s₁.eraseCtx = s.eraseCtx := by rw [hline]
        have htext := processLinesAlone_text env fuel s₁ (nextLine rest) (by omega) (hctx ▸ he)
        rw [hopt] at htext
        exact Iff.trans ⟨fun h => hsame.symm.trans h, fun h => hsame.trans h⟩ htext
      · have hsame := processLine_eq_alone env hu hg
        rw [← hsame]
        cases hc : conditional (lineView (firstBody rest)) with
        | some c =>
          obtain ⟨hrest, hopt, hun, hctx⟩ := processLine_ctx env (s := s) hc
          have hih := ih (processLine env s rest).1 (nextLine rest) (by omega) (hun.trans hu)
          rw [hopt, hctx] at hih
          rw [hrest]
          exact hih
        | none =>
          simp only
          cases he : s.eraseCtx.headD false with
          | true =>
            obtain ⟨hrest, hopt, -, hun, hctx⟩ := processLine_erased env hc he
            have hih := ih (processLine env s rest).1 (nextLine rest) (by omega) (hun.trans hu)
            rw [hopt, hctx] at hih
            rw [hrest, if_pos rfl]
            exact hih
          | false =>
            have hg' : ¬ (otherKind s.opt (lineView (firstBody rest)) = .text ∧
                grows s.opt (firstBody rest) = true) :=
              fun h => hg ⟨isText_iff.mpr ⟨hc, h.1⟩, he, h.2⟩
            obtain ⟨hrest, hopt, -, hun, hctx⟩ := processLine_active env hc he hg' hu
            have hih := ih (processLine env s rest).1 (nextLine rest) (by omega) hun
            rw [hopt, hctx] at hih
            rw [hrest, if_neg Bool.false_ne_true, if_neg hg']
            exact hih

end Run

/-- **Macro replacement keeps to its line exactly when no directive comes after a line that
grows.** -/
theorem runLines_alone_iff (readFile : Text → Option Text) (depth : Nat) (o : PreProcessorOption)
    (input str : Text) (hcomments : applyPreProcessorComments o input = .ok str) :
    let env : Env := ⟨readFile, applyPreProcessor readFile depth⟩
    (applyPreProcessor readFile (depth + 1) o input).str = (runLines env o str).out ∧
      (applyPreProcessor readFile (depth + 1) o input).opt = (runLines env o str).opt ∧
      (SameEffects (runLines env o str) (runLinesAlone env o str) ↔
        MacrosStay env [] o (bodies str)) := by
  intro env
  refine ⟨?_, ?_, ?_⟩
  · simp only [applyPreProcessor, hcomments]
    split <;> rfl
  · simp only [applyPreProcessor, hcomments]
    split <;> rfl
  · exact processLines_alone_iff env str.length (LoopState.init o) str (Nat.le_refl _) rfl

/-- A longer value, and a definition behind it. -/
def defineAfterGrowth : Text := "#define A longer\nA\n#define B c\nB".toList

/-- The second definition is left in the text, and its name is not replaced. -/
theorem growth_hides_define :
    let o : PreProcessorOption := ⟨[], true, false⟩
    let env : Env := ⟨fun _ => none, applyPreProcessor (fun _ => none) 8⟩
    (runLines env o defineAfterGrowth).out =
        "                \n longer\n#define B c\nB".toList ∧
      (runLinesAlone env o defineAfterGrowth).out =
        "                \n longer\n           \n c".toList ∧
      ¬ SameEffects (runLines env o defineAfterGrowth) (runLinesAlone env o defineAfterGrowth) := by
  have hout : (runLines ⟨fun _ => none, applyPreProcessor (fun _ => none) 8⟩ ⟨[], true, false⟩
      defineAfterGrowth).out = "                \n longer\n#define B c\nB".toList := by
    decide +kernel
  have halone : (runLinesAlone ⟨fun _ => none, applyPreProcessor (fun _ => none) 8⟩
      ⟨[], true, false⟩ defineAfterGrowth).out =
        "                \n longer\n           \n c".toList := by
    decide +kernel
  refine ⟨hout, halone, fun h => ?_⟩
  have := h.out
  rw [hout, halone] at this
  exact absurd this (by decide)

/-- Text after a line that grows is replaced as well. -/
theorem text_after_growth :
    let o : PreProcessorOption := ⟨[("A".toList, "longer".toList)], true, false⟩
    let env : Env := ⟨fun _ => none, applyPreProcessor (fun _ => none) 8⟩
    let str : Text := "A\n A b\nA".toList
    SameEffects (runLines env o str) (runLinesAlone env o str) := by
  intro o env str
  refine (runLines_alone_iff (fun _ => none) 8 o str str (by decide +kernel)).2.2.mpr ?_
  have hbodies : bodies str = ["A".toList, "A b".toList, "A".toList] := by decide +kernel
  have hc : conditional (lineView "A".toList) = none := by decide +kernel
  have hk : otherKind o (lineView "A".toList) = .text ∧ grows o "A".toList = true := by
    decide +kernel
  rw [hbodies, MacrosStay, hc]
  simp only [List.headD_nil, Bool.false_eq_true, if_false, if_pos hk]
  decide +kernel

end Acts.Preprocessor
