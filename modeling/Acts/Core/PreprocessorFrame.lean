import Acts.Core.PreprocessorMacros
import Mathlib.Data.List.Forall2

/-!
# Lines survive the preprocessor

* `Piece`, `commentsFrom_pieces` — the comment pass blanks comments in place and nothing else.
* `fates` — which lines are blanked, and with which names the others are replaced.
* `NoMacro`, `replaceAll_noMacro` — a line that uses no name is unchanged.
* `lines_frame` — **without `#insert` and line breaks in values, the output has the lines of the
  input, each blanked or replaced in place.**
-/

set_option autoImplicit false

namespace Acts.Preprocessor

/-! ## Comments -/

/-- What the comment pass reads in one go. -/
inductive Piece where
  | text (t : Text)
  | comment (t : Text)

def Piece.source : Piece → Text
  | .text t => t
  | .comment t => t

def Piece.result : Piece → Text
  | .text t => t
  | .comment t => blank t

/-- A comment, or a dev block where those are comments. -/
def IsComment (o : PreProcessorOption) (t : Text) : Prop :=
  (∃ u, t = '/' :: '/' :: u ∧ '\n' ∉ u) ∨
  (∃ u, t = '/' :: '*' :: (u ++ ['*', '/'])) ∨
  (o.devBlockAsComment = true ∧ ∃ u, t = '/' :: '#' :: (u ++ ['#', '/']))

/-- `r` is `s` with its comments blanked. -/
def OnlyComments (o : PreProcessorOption) (s r : Text) : Prop :=
  ∃ pieces : List Piece, s = pieces.flatMap Piece.source ∧ r = pieces.flatMap Piece.result ∧
    ∀ t, .comment t ∈ pieces → IsComment o t

theorem OnlyComments.cons {o : PreProcessorOption} {s r : Text} (h : OnlyComments o s r) (p : Piece)
    (hp : ∀ t, p = .comment t → IsComment o t) :
    OnlyComments o (p.source ++ s) (p.result ++ r) := by
  obtain ⟨pieces, rfl, rfl, hall⟩ := h
  refine ⟨p :: pieces, rfl, rfl, ?_⟩
  intro t ht
  rcases List.mem_cons.mp ht with heq | ht
  · exact hp t heq.symm
  · exact hall t ht

theorem skipString_append (s : Text) : (skipString s).1 ++ (skipString s).2 = s := by
  induction s using skipString.induct with
  | case1 => rfl
  | case2 => rfl
  | case3 c s a b heq ih =>
    rw [heq] at ih
    simp [skipString, heq, ih]
  | case4 s => rfl
  | case5 c s h1 h2 h3 a b heq ih =>
    rw [heq] at ih
    simp [skipString, heq, ih]

theorem skipBlock_spec {x y : Char} {s a b : Text} (h : skipBlock x y s = some (a, b)) :
    ∃ u, s = u ++ [x, y] ++ b ∧ a = blank (u ++ [x, y]) := by
  induction s using skipBlock.induct generalizing a b with
  | x => exact x
  | y => exact y
  | case1 => cases h
  | case2 c => cases h
  | case3 c d s hxy =>
    rw [skipBlock, if_pos hxy, Option.some.injEq, Prod.mk.injEq] at h
    obtain ⟨rfl, rfl⟩ := hxy
    obtain ⟨rfl, rfl⟩ := h
    exact ⟨[], rfl, rfl⟩
  | case4 c d s hxy ih =>
    rw [skipBlock, if_neg hxy, Option.map_eq_some_iff] at h
    obtain ⟨⟨a', b'⟩, hrec, heq⟩ := h
    rw [Prod.mk.injEq] at heq
    obtain ⟨rfl, rfl⟩ := heq
    obtain ⟨u, hs, ha⟩ := ih hrec
    refine ⟨c :: u, ?_, ?_⟩
    · rw [hs, List.cons_append, List.cons_append]
    · rw [ha]
      rfl

theorem isComment_line {o : PreProcessorOption} {s : Text} :
    IsComment o ('/' :: '/' :: s.takeWhile (· ≠ '\n')) := by
  refine .inl ⟨_, rfl, ?_⟩
  intro hmem
  have hne := List.mem_takeWhile_imp hmem
  simp at hne

/-- The whole text is stripped, or what precedes a comment without end. -/
def Stripped (o : PreProcessorOption) (s : Text) : Except (String × Text) Text → Prop
  | .ok r => OnlyComments o s r
  | .error (_, r) => ∃ s₁ r₁ t, s = s₁ ++ t ∧ r = r₁ ++ blank t ∧ OnlyComments o s₁ r₁

theorem Stripped.piece {o : PreProcessorOption} {s : Text} {x : Except (String × Text) Text}
    (h : Stripped o s x) (p : Piece) (hp : ∀ t, p = .comment t → IsComment o t) :
    Stripped o (p.source ++ s) (prepend p.result x) := by
  cases x with
  | ok r => exact OnlyComments.cons h p hp
  | error e =>
    obtain ⟨s₁, r₁, t, hs, hr, honly⟩ := h
    refine ⟨p.source ++ s₁, p.result ++ r₁, t, ?_, ?_, honly.cons p hp⟩
    · rw [hs, List.append_assoc]
    · rw [hr, List.append_assoc]

theorem Stripped.text {o : PreProcessorOption} {s : Text} {x : Except (String × Text) Text}
    (h : Stripped o s x) (t : Text) : Stripped o (t ++ s) (prepend t x) :=
  h.piece (.text t) (fun _ heq => Piece.noConfusion heq)

theorem Stripped.comment {o : PreProcessorOption} {s t : Text} {x : Except (String × Text) Text}
    (h : Stripped o s x) (ht : IsComment o t) : Stripped o (t ++ s) (prepend (blank t) x) :=
  h.piece (.comment t) (fun _ heq => by cases heq; exact ht)

theorem Stripped.unfinished {o : PreProcessorOption} (t : Text) (e : String) :
    Stripped o t (.error (e, blank t)) :=
  ⟨[], [], t, rfl, rfl, [], rfl, rfl, fun _ hmem => absurd hmem List.not_mem_nil⟩

/-- A block comment with what follows it. -/
theorem Stripped.block {o : PreProcessorOption} {x y : Char} {s a b : Text}
    {r : Except (String × Text) Text} (hr : Stripped o b r) (hs : skipBlock x y s = some (a, b))
    (ht : ∀ u, IsComment o ('/' :: x :: (u ++ [x, y]))) (hx : setBlankChar x = ' ') :
    Stripped o ('/' :: x :: s) (prepend (' ' :: ' ' :: a) r) := by
  obtain ⟨u, rfl, rfl⟩ := skipBlock_spec hs
  have hpiece := hr.comment (ht u)
  have hblank : blank ('/' :: x :: (u ++ [x, y])) = ' ' :: ' ' :: blank (u ++ [x, y]) := by
    rw [blank, List.map_cons, List.map_cons, hx]
    rfl
  rw [hblank] at hpiece
  exact hpiece

theorem cons_of_head {c d : Char} {s : Text} (h : c = '/' ∧ s.head? = some d) :
    c :: s = '/' :: d :: s.drop 1 := by
  obtain ⟨rfl, hd⟩ := h
  cases s with
  | nil => cases hd
  | cons e s =>
    cases hd
    rfl

/-- **The comment pass blanks comments, and nothing else.** -/
theorem commentsFrom_stripped (o : PreProcessorOption) (fuel : Nat) (s : Text) :
    Stripped o s (commentsFrom o fuel s) := by
  have hkeep (s : Text) : Stripped o s (.ok s) :=
    ⟨[.text s], by simp [Piece.source], by simp [Piece.result], by simp⟩
  induction fuel generalizing s with
  | zero => exact hkeep s
  | succ fuel ih =>
    cases s with
    | nil => exact hkeep []
    | cons c s =>
      rw [commentsFrom]
      by_cases hnul : c = '\x00'
      · rw [if_pos hnul]
        exact hkeep _
      rw [if_neg hnul]
      by_cases hquote : c = '"'
      · rw [if_pos hquote]
        have hrest := (ih (skipString s).2).text (c :: (skipString s).1)
        rw [List.cons_append, skipString_append] at hrest
        exact hrest
      rw [if_neg hquote]
      by_cases hline : c = '/' ∧ s.head? = some '/'
      · rw [if_pos hline, cons_of_head hline]
        have hrest := (ih (skipLine (s.drop 1)).2).comment (isComment_line (s := s.drop 1))
        rw [List.cons_append, List.cons_append, skipLine, List.takeWhile_append_dropWhile] at hrest
        exact hrest
      rw [if_neg hline]
      by_cases hblock : c = '/' ∧ s.head? = some '*'
      · rw [if_pos hblock, cons_of_head hblock]
        cases hskip : skipBlock '*' '/' (s.drop 1) with
        | none => exact Stripped.unfinished _ _
        | some r => exact (ih r.2).block hskip (fun u => .inr (.inl ⟨u, rfl⟩)) rfl
      rw [if_neg hblock]
      by_cases hdev : o.devBlockAsComment ∧ c = '/' ∧ s.head? = some '#'
      · rw [if_pos hdev, cons_of_head hdev.2]
        cases hskip : skipBlock '#' '/' (s.drop 1) with
        | none => exact Stripped.unfinished _ _
        | some r => exact (ih r.2).block hskip (fun u => .inr (.inr ⟨hdev.1, u, rfl⟩)) rfl
      rw [if_neg hdev]
      exact (ih s).text [c]

/-! ## The lines of a blanked text -/

/-- A character stays or is blanked; ends of lines stay. -/
def Blanked (c d : Char) : Prop := d = c ∨ d = setBlankChar c

theorem setBlankChar_newline {c : Char} : setBlankChar c = '\n' ↔ c = '\n' := by
  unfold setBlankChar
  by_cases hc : isspace c = true
  · rw [if_pos hc]
  · rw [if_neg hc]
    constructor
    · intro h
      exact absurd h (by decide)
    · rintro rfl
      exact absurd (by decide) hc

theorem Blanked.newline {c d : Char} (h : Blanked c d) : d = '\n' ↔ c = '\n' := by
  rcases h with rfl | rfl
  · exact Iff.rfl
  · exact setBlankChar_newline

theorem blanked_refl (t : Text) : List.Forall₂ Blanked t t :=
  List.forall₂_same.mpr fun _ _ => .inl rfl

theorem blanked_blank (t : Text) : List.Forall₂ Blanked t (blank t) := by
  induction t with
  | nil => exact .nil
  | cons c t ih => exact .cons (.inr rfl) ih

theorem OnlyComments.blanked {o : PreProcessorOption} {s r : Text} (h : OnlyComments o s r) :
    List.Forall₂ Blanked s r := by
  obtain ⟨pieces, rfl, rfl, -⟩ := h
  induction pieces with
  | nil => exact .nil
  | cons p pieces ih =>
    rw [List.flatMap_cons, List.flatMap_cons]
    refine List.rel_append ?_ ih
    cases p with
    | text t => exact blanked_refl t
    | comment t => exact blanked_blank t

/-- The text that is left. -/
def textOf : Except (String × Text) Text → Text
  | .ok r => r
  | .error (_, r) => r

theorem Stripped.blanked {o : PreProcessorOption} {s : Text} {x : Except (String × Text) Text}
    (h : Stripped o s x) : List.Forall₂ Blanked s (textOf x) := by
  cases x with
  | ok r => exact OnlyComments.blanked h
  | error e =>
    obtain ⟨s₁, r₁, t, rfl, hr, honly⟩ := h
    rw [textOf, hr]
    exact List.rel_append honly.blanked (blanked_blank t)

theorem lines_blanked {s r : Text} (h : List.Forall₂ Blanked s r) :
    List.Forall₂ (List.Forall₂ Blanked) (lines s) (lines r) := by
  induction h with
  | nil => exact .nil
  | @cons c d s r hcd _ ih =>
    rw [lines, lines]
    by_cases hc : c = '\n'
    · rw [if_pos hc, if_pos (hcd.newline.mpr hc)]
      exact .cons .nil ih
    · rw [if_neg hc, if_neg (fun hd => hc (hcd.newline.mp hd))]
      generalize lines s = ls at ih
      generalize lines r = lr at ih
      cases ih with
      | nil => exact .cons (.cons hcd .nil) .nil
      | cons hl hls => exact .cons (.cons hcd hl) hls

/-! ## What becomes of a line -/

/-- A line that is kept is so with the names defined there. -/
def fate (ctx : List Bool) (o : PreProcessorOption) (body : Text) : Option PreProcessorOption :=
  if isText o body = true ∧ ctx.headD false = false then some o else none

/-- What becomes of each line; after one that grows everything is kept. -/
def fates (env : Env) : List Bool → PreProcessorOption → List Text →
    List (Option PreProcessorOption)
  | _, _, [] => []
  | ctx, o, body :: ls => fate ctx o body ::
    match conditional (lineView body) with
    | some c => fates env (ctxAfter o ctx c) o ls
    | none =>
      if ctx.headD false = true then fates env ctx o ls
      else if otherKind o (lineView body) = .text ∧ grows o body = true then
        ls.map (fun _ => some o)
      else fates env ctx (optAfter env o body) ls

/-- The line of the result. -/
def outcome : Option PreProcessorOption → Text → Text
  | none, l => blank l
  | some o, l => replaceAll o l

theorem fates_length (env : Env) (ctx : List Bool) (o : PreProcessorOption) (ls : List Text) :
    (fates env ctx o ls).length = ls.length := by
  induction ls generalizing ctx o with
  | nil => rfl
  | cons body ls ih =>
    rw [fates, List.length_cons, List.length_cons]
    congr 1
    split
    · exact ih _ _
    · split
      · exact ih _ _
      · split
        · exact List.length_map _
        · exact ih _ _

/-- The names on a line. -/
def namesFrom : Nat → Text → List Text
  | 0, _ => []
  | _, [] => []
  | fuel + 1, c :: s =>
    if !isIdentifierChar c then namesFrom fuel s
    else (c :: s).take (idfSize (c :: s)) :: namesFrom fuel ((c :: s).drop (idfSize (c :: s)))

def names (l : Text) : List Text := namesFrom l.length l

/-- No name on the line is a macro. -/
def NoMacro (o : PreProcessorOption) (l : Text) : Prop := ∀ name ∈ names l, o.find name = none

instance (o : PreProcessorOption) (l : Text) : Decidable (NoMacro o l) :=
  inferInstanceAs (Decidable (∀ name ∈ names l, o.find name = none))

theorem replaceAll_namesFrom {o : PreProcessorOption} {fuel : Nat} {l : Text}
    (hfuel : l.length ≤ fuel) (h : ∀ name ∈ namesFrom fuel l, o.find name = none) :
    replaceAll o l = l := by
  induction fuel generalizing l with
  | zero =>
    obtain rfl := List.length_eq_zero_iff.mp (Nat.le_zero.mp hfuel)
    rfl
  | succ fuel ih =>
    cases l with
    | nil => rfl
    | cons c s =>
      rw [List.length_cons] at hfuel
      by_cases hc : isIdentifierChar c = true
      · simp only [namesFrom, hc, Bool.not_true, Bool.false_eq_true, if_false,
          List.mem_cons, forall_eq_or_imp] at h
        have hpos := idfSize_pos s hc
        have hrest := ih (by rw [List.length_drop, List.length_cons]; omega) h.2
        rw [replaceAll_idf s hc, hrest, expand, h.1]
        exact List.take_append_drop _ _
      · have hc : isIdentifierChar c = false := by simpa using hc
        simp only [namesFrom, hc, Bool.not_false, if_true] at h
        rw [replaceAll_other s hc, ih (by omega) h]

/-- A line that uses no macro is unchanged. -/
theorem replaceAll_noMacro {o : PreProcessorOption} {l : Text} (h : NoMacro o l) :
    replaceAll o l = l :=
  replaceAll_namesFrom (Nat.le_refl _) h

/-! ## Values without ends of lines -/

def NoBreaks (o : PreProcessorOption) : Prop := ∀ d ∈ o.defines, '\n' ∉ d.2

instance (o : PreProcessorOption) : Decidable (NoBreaks o) :=
  inferInstanceAs (Decidable (∀ d ∈ o.defines, '\n' ∉ d.2))

theorem NoBreaks.find {o : PreProcessorOption} (h : NoBreaks o) {name value : Text}
    (hf : o.find name = some value) : '\n' ∉ value := by
  rw [PreProcessorOption.find, Option.map_eq_some_iff] at hf
  obtain ⟨d, hd, rfl⟩ := hf
  exact h d (List.mem_of_find?_eq_some hd)

theorem NoBreaks.addDefine {o : PreProcessorOption} (h : NoBreaks o) (name : Text) {value : Text}
    (hv : '\n' ∉ value) : NoBreaks (o.addDefine name value) := by
  intro d hd
  rcases List.mem_cons.mp hd with rfl | hd
  · exact hv
  · exact h d (List.mem_filter.mp hd).1

/-- A value takes at least the place of its name. -/
theorem expand_length (o : PreProcessorOption) (idf : Text) :
    idf.length ≤ (expand o idf [] 0).1.length := by
  unfold expand
  cases o.find idf with
  | none => exact Nat.le_refl _
  | some replace =>
    simp only
    split
    · rw [List.length_append, List.length_replicate]
      omega
    · rename_i hlong
      exact Nat.le_of_lt (Nat.lt_of_not_le hlong)

theorem NoBreaks.expand {o : PreProcessorOption} (h : NoBreaks o) {idf : Text}
    (hidf : '\n' ∉ idf) : '\n' ∉ (expand o idf [] 0).1 := by
  unfold Preprocessor.expand
  cases hf : o.find idf with
  | none => exact hidf
  | some replace =>
    simp only
    split
    · simp [h.find hf]
    · exact h.find hf

/-- Replacement takes at least the place of the text. -/
theorem replaceAll_length (o : PreProcessorOption) (l : Text) :
    l.length ≤ (replaceAll o l).length := by
  induction hn : l.length using Nat.strongRecOn generalizing l with
  | ind n ih =>
    subst hn
    cases l with
    | nil => exact Nat.le_refl _
    | cons c s =>
      by_cases hc : isIdentifierChar c = true
      · have hpos := idfSize_pos s hc
        have hlen := expand_length o ((c :: s).take (idfSize (c :: s)))
        have hrest := ih ((c :: s).drop (idfSize (c :: s))).length
          (by rw [List.length_drop, List.length_cons]; omega) _ rfl
        rw [replaceAll_idf s hc]
        rw [List.length_take] at hlen
        rw [List.length_drop] at hrest
        rw [List.length_append]
        omega
      · have hc : isIdentifierChar c = false := by simpa using hc
        rw [replaceAll_other s hc]
        exact Nat.succ_le_succ (ih s.length (by simp) s rfl)

theorem NoBreaks.replaceAll {o : PreProcessorOption} (h : NoBreaks o) {l : Text}
    (hl : '\n' ∉ l) : '\n' ∉ replaceAll o l := by
  induction hn : l.length using Nat.strongRecOn generalizing l with
  | ind n ih =>
    subst hn
    cases l with
    | nil => exact hl
    | cons c s =>
      by_cases hc : isIdentifierChar c = true
      · have hpos := idfSize_pos s hc
        have htake : '\n' ∉ (c :: s).take (idfSize (c :: s)) :=
          fun hmem => hl (List.mem_of_mem_take hmem)
        have hrest := ih ((c :: s).drop (idfSize (c :: s))).length
          (by rw [List.length_drop, List.length_cons]; omega)
          (fun hmem => hl (List.mem_of_mem_drop hmem)) rfl
        rw [replaceAll_idf s hc, List.mem_append, not_or]
        exact ⟨h.expand htake, hrest⟩
      · have hc : isIdentifierChar c = false := by simpa using hc
        obtain ⟨hne, hs⟩ := not_or.mp (List.mem_cons.not.mp hl)
        rw [replaceAll_other s hc, List.mem_cons, not_or]
        exact ⟨hne, ih s.length (by simp) hs rfl⟩

/-! ## The lines one by one -/

/-- The first line of a text. -/
def firstLine (rest : Text) : Text := rest.takeWhile (· ≠ '\n')

theorem firstLine_noBreak (rest : Text) : '\n' ∉ firstLine rest := by
  intro hmem
  have hne := List.mem_takeWhile_imp hmem
  simp at hne

theorem lines_cons {rest : Text} (h : rest ≠ []) :
    lines rest = firstLine rest :: lines (nextLine rest) := lines_eq rest h

theorem firstLine_split (rest : Text) : leadOf rest ++ firstBody rest = firstLine rest :=
  List.takeWhile_append_dropWhile

theorem firstLine_afterLine (rest : Text) : firstLine rest ++ afterLine rest = rest :=
  (List.prefix_iff_eq_append.mp (List.takeWhile_prefix _))

theorem lines_of_newline {x : Text} (hx : '\n' ∉ x) (t : Text) :
    lines (x ++ '\n' :: t) = x :: lines t := by
  induction x with
  | nil => simp [lines]
  | cons c x ih =>
    obtain ⟨hc, hx⟩ := not_or.mp (List.mem_cons.not.mp hx)
    rw [List.cons_append, lines, if_neg (fun h => hc h.symm), ih hx]

theorem lines_of_last {x : Text} (hx : '\n' ∉ x) (hne : x ≠ []) : lines x = [x] := by
  induction x with
  | nil => exact absurd rfl hne
  | cons c x ih =>
    obtain ⟨hc, hx⟩ := not_or.mp (List.mem_cons.not.mp hx)
    rw [lines, if_neg (fun h => hc h.symm)]
    cases x with
    | nil => rfl
    | cons d x => rw [ih hx (List.cons_ne_nil d x)]

/-- A line that takes the place of the first one, and what takes the place of the others. -/
theorem lines_emit {rest x t : Text} (hnil : rest ≠ []) (hx : '\n' ∉ x)
    (hlen : (firstLine rest).length ≤ x.length) (ht : nextLine rest = [] → t = []) :
    lines (x ++ ((afterLine rest).take 1 ++ t)) = x :: lines t := by
  rcases afterLine_head rest with hafter | ⟨u, hafter⟩
  · have hnext : nextLine rest = [] := congrArg (List.drop 1) hafter
    rw [hafter, ht hnext, List.take_nil, List.append_nil, List.append_nil]
    have hfirst := firstLine_afterLine rest
    rw [hafter, List.append_nil] at hfirst
    rw [hfirst] at hlen
    refine lines_of_last hx ?_
    rintro rfl
    exact hnil (List.length_eq_zero_iff.mp (Nat.le_zero.mp hlen))
  · rw [hafter]
    exact lines_of_newline hx t

/-- Replacement in a text is replacement on its lines. -/
theorem lines_replaceAll {o : PreProcessorOption} (h : NoBreaks o) (rest : Text) :
    lines (replaceAll o rest) = (lines rest).map (replaceAll o) := by
  induction hn : rest.length using Nat.strongRecOn generalizing rest with
  | ind n ih =>
    subst hn
    by_cases hnil : rest = []
    · subst hnil
      rfl
    · have hlt := nextLine_length hnil
      have hnext := ih (nextLine rest).length (by omega) (nextLine rest) rfl
      have hx := h.replaceAll (firstLine_noBreak rest)
      have hlen := replaceAll_length o (firstLine rest)
      have hsplit : replaceAll o rest = replaceAll o (firstLine rest) ++
          ((afterLine rest).take 1 ++ replaceAll o (nextLine rest)) := by
        rw [← replaceAll_afterLine, afterLine,
          ← replaceAll_append _ (apart_of_line (rest_tail rest))]
        exact congrArg (replaceAll o) (firstLine_afterLine rest).symm
      rw [hsplit, lines_emit hnil hx hlen (fun hnext => by rw [hnext]; rfl), hnext,
        lines_cons hnil, List.map_cons]

theorem blank_noBreak {l : Text} (hl : '\n' ∉ l) : '\n' ∉ blank l := by
  intro hmem
  obtain ⟨c, hc, hblank⟩ := List.mem_map.mp hmem
  rw [setBlankChar_newline.mp hblank] at hc
  exact hl hc

theorem outcome_line (fate : Option PreProcessorOption) {l : Text}
    (h : ∀ o, fate = some o → NoBreaks o) (hl : '\n' ∉ l) :
    '\n' ∉ outcome fate l ∧ l.length ≤ (outcome fate l).length := by
  cases fate with
  | none => exact ⟨blank_noBreak hl, by rw [outcome, blank, List.length_map]⟩
  | some o => exact ⟨(h o rfl).replaceAll hl, replaceAll_length o l⟩

theorem blank_append (a b : Text) : blank (a ++ b) = blank a ++ blank b := List.map_append

/-- Blanking a line leaves the spaces at its start. -/
theorem blank_firstLine (rest : Text) :
    leadOf rest ++ blank (firstBody rest) = blank (firstLine rest) := by
  have hlead : blank (leadOf rest) = leadOf rest := by
    refine List.map_congr_left (fun c hc => ?_) |>.trans (List.map_id _)
    rw [setBlankChar, if_pos (List.mem_takeWhile_imp hc)]
    rfl
  rw [← firstLine_split, blank_append, hlead]

/-- Replacement on a line leaves the spaces at its start. -/
theorem replaceAll_firstLine (o : PreProcessorOption) (rest : Text) :
    leadOf rest ++ replaceAll o (firstBody rest) = replaceAll o (firstLine rest) := by
  rw [← firstLine_split]
  exact (replaceAll_spaces o _ _ (fun c hc => List.mem_takeWhile_imp hc)).symm

/-- No line is an `#insert`. -/
def NoInsert (ls : List Text) : Prop := ∀ b ∈ ls, startsWith (lineView b) "#insert" = false

instance (ls : List Text) : Decidable (NoInsert ls) :=
  inferInstanceAs (Decidable (∀ b ∈ ls, startsWith (lineView b) "#insert" = false))

theorem otherKind_noInsert {o : PreProcessorOption} {line : Text}
    (h : startsWith line "#insert" = false) : otherKind o line ≠ .insert := by
  unfold otherKind
  rw [h]
  split
  · exact OtherKind.noConfusion
  · split
    · exact OtherKind.noConfusion
    · split
      · exact OtherKind.noConfusion
      · rw [if_neg Bool.false_ne_true]
        split <;> exact OtherKind.noConfusion

theorem lineView_noBreak {body : Text} (h : '\n' ∉ body) : '\n' ∉ lineView body := by
  unfold lineView
  split
  · exact fun hmem => h ((List.dropLast_sublist body).subset hmem)
  · exact h

section Turn

variable (env : Env)

/-- Without `#insert` a directive defines values without ends of lines. -/
theorem optAfter_noBreaks {o : PreProcessorOption} {body : Text} (h : NoBreaks o)
    (hi : startsWith (lineView body) "#insert" = false) (hbody : '\n' ∉ body) :
    NoBreaks (optAfter env o body) := by
  have hkind := otherKind_noInsert (o := o) hi
  unfold optAfter
  cases hk : otherKind o (lineView body) with
  | insert => exact absurd hk hkind
  | define =>
    simp only [execDirective]
    split
    · exact h
    · refine h.addDefine _ (fun hmem => lineView_noBreak hbody ?_)
      have hdefine := (List.takeWhile_sublist _).subset hmem
      exact List.mem_of_mem_drop ((List.dropWhile_sublist _).subset (List.mem_of_mem_drop hdefine))
  | _ => exact h

/-- Without `#insert` the text to blank is the line. -/
theorem execDirective_text (s : LoopState) (line body : Text) {kind : OtherKind}
    (h : kind ≠ .insert) : (execDirective env s line body kind).2 = body := by
  cases kind with
  | insert => exact absurd rfl h
  | define =>
    simp only [execDirective]
    split <;> rfl
  | _ => rfl

/-- The text that takes the place of the first line. -/
theorem processLineAlone_outcome {s : LoopState} {rest : Text}
    (hi : startsWith (lineView (firstBody rest)) "#insert" = false) :
    (processLineAlone env s rest).1.out = s.out ++
      (outcome (fate s.eraseCtx s.opt (firstBody rest)) (firstLine rest) ++
        (afterLine rest).take 1) := by
  by_cases ht : isText s.opt (firstBody rest) = true ∧ s.eraseCtx.headD false = false
  · rw [fate, if_pos ht, outcome, ← replaceAll_firstLine, processLineAlone_text env ht.1 ht.2]
    simp only [List.append_assoc]
  · rw [fate, if_neg ht, outcome, ← blank_firstLine]
    have hkind := otherKind_noInsert (o := s.opt) hi
    rw [isText_iff] at ht
    unfold firstBody at ht hkind
    unfold processLineAlone
    simp only
    cases hc : conditional (lineView _) with
    | some c =>
      simp only [execConditional_out, List.append_assoc]
      rfl
    | none =>
      simp only
      cases he : s.eraseCtx.headD false with
      | true =>
        rw [if_pos rfl]
        simp only [List.append_assoc]
        rfl
      | false =>
        rw [if_neg Bool.false_ne_true]
        generalize otherKind s.opt (lineView _) = kind at ht hkind ⊢
        cases kind with
        | text => exact absurd ⟨⟨hc, rfl⟩, he⟩ ht
        | insert => exact absurd rfl hkind
        | _ =>
          simp only [execDirective_out, List.append_assoc, execDirective_text env _ _ _ hkind]
          rfl

theorem fate_some {ctx : List Bool} {o o' : PreProcessorOption} {body : Text}
    (h : fate ctx o body = some o') : o' = o := by
  unfold fate at h
  split at h
  · exact (Option.some.inj h).symm
  · cases h

theorem firstBody_noBreak (rest : Text) : '\n' ∉ firstBody rest :=
  fun hmem => firstLine_noBreak rest ((List.dropWhile_sublist _).subset hmem)

theorem zipWith_kept (o : PreProcessorOption) (bs ls : List Text) (h : bs.length = ls.length) :
    List.zipWith outcome (bs.map (fun _ => some o)) ls = ls.map (replaceAll o) := by
  induction ls generalizing bs with
  | nil => simp
  | cons l ls ih =>
    cases bs with
    | nil => cases h
    | cons b bs =>
      rw [List.map_cons, List.zipWith_cons_cons, List.map_cons, ih bs (Nat.succ.inj h)]
      rfl

/-- The state after a line that does not grow, and what becomes of the lines after it. -/
theorem processLine_next {s : LoopState} {rest : Text} (hu : s.unscanned = [])
    (hg : ¬ (isText s.opt (firstBody rest) = true ∧ s.eraseCtx.headD false = false ∧
      grows s.opt (firstBody rest) = true)) :
    (processLine env s rest).2 = nextLine rest ∧
      (processLine env s rest).1.unscanned = [] ∧
      ((processLine env s rest).1.opt = s.opt ∨
        (processLine env s rest).1.opt = optAfter env s.opt (firstBody rest)) ∧
      fates env (processLine env s rest).1.eraseCtx (processLine env s rest).1.opt
        (bodies (nextLine rest)) =
      (fates env s.eraseCtx s.opt (firstBody rest :: bodies (nextLine rest))).tail := by
  rw [fates, List.tail_cons]
  cases hc : conditional (lineView (firstBody rest)) with
  | some c =>
    obtain ⟨hleft, hopt, hun, hctx⟩ := processLine_ctx env (s := s) hc
    rw [hopt, hctx]
    exact ⟨hleft, hun.trans hu, .inl rfl, rfl⟩
  | none =>
    simp only
    cases he : s.eraseCtx.headD false with
    | true =>
      obtain ⟨hleft, hopt, -, hun, hctx⟩ := processLine_erased env hc he
      rw [hopt, hctx, if_pos rfl]
      exact ⟨hleft, hun.trans hu, .inl rfl, rfl⟩
    | false =>
      have hg' : ¬ (otherKind s.opt (lineView (firstBody rest)) = .text ∧
          grows s.opt (firstBody rest) = true) :=
        fun h => hg ⟨isText_iff.mpr ⟨hc, h.1⟩, he, h.2⟩
      obtain ⟨hleft, hopt, -, hun, hctx⟩ := processLine_active env hc he hg' hu
      rw [hopt, hctx, if_neg Bool.false_ne_true, if_neg hg']
      exact ⟨hleft, hun, .inr rfl, rfl⟩

/-- **Every line of the rest is blanked or replaced in its place.** -/
theorem processLines_lines (fuel : Nat) (s : LoopState) (rest : Text)
    (hfuel : rest.length ≤ fuel) (hu : s.unscanned = []) (hb : NoBreaks s.opt)
    (hi : NoInsert (bodies rest)) :
    ∃ text, (processLines env fuel s rest).out = s.out ++ text ∧ (rest = [] → text = []) ∧
      lines text =
        List.zipWith outcome (fates env s.eraseCtx s.opt (bodies rest)) (lines rest) := by
  have hempty : ∀ n (s : LoopState), processLines env n s [] = s := by
    intro n s
    cases n <;> rfl
  induction fuel generalizing s rest with
  | zero =>
    obtain rfl := List.length_eq_zero_iff.mp (Nat.le_zero.mp hfuel)
    exact ⟨[], (List.append_nil _).symm, fun _ => rfl, rfl⟩
  | succ fuel ih =>
    by_cases hnil : rest = []
    · subst hnil
      exact ⟨[], (List.append_nil _).symm, fun _ => rfl, rfl⟩
    have hlen := nextLine_length hnil
    have hstep : processLines env (fuel + 1) s rest =
        processLines env fuel (processLine env s rest).1 (processLine env s rest).2 := by
      cases rest with
      | nil => exact absurd rfl hnil
      | cons c rest => rfl
    rw [bodies_eq hnil] at hi
    have hfirst := hi _ List.mem_cons_self
    have hrest : NoInsert (bodies (nextLine rest)) :=
      fun b hmem => hi b (List.mem_cons_of_mem _ hmem)
    have hout := processLineAlone_outcome env (s := s) hfirst
    obtain ⟨hx, hxlen⟩ := outcome_line (fate s.eraseCtx s.opt (firstBody rest))
      (fun o' ho => by rw [fate_some ho]; exact hb) (firstLine_noBreak rest)
    rw [hstep, bodies_eq hnil, lines_cons hnil, fates, List.zipWith_cons_cons]
    generalize outcome (fate s.eraseCtx s.opt (firstBody rest)) (firstLine rest) = x
      at hout hx hxlen
    by_cases hg : isText s.opt (firstBody rest) = true ∧ s.eraseCtx.headD false = false ∧
        grows s.opt (firstBody rest) = true
    · -- the replacement goes on over the rest of the text
      obtain ⟨ht, he, hgrow⟩ := hg
      obtain ⟨hnone, hsame⟩ := processLine_takes_rest env ht he hgrow
      obtain ⟨hc, hk⟩ := isText_iff.mp ht
      refine ⟨x ++ ((afterLine rest).take 1 ++ replaceAll s.opt (nextLine rest)), ?_,
        fun h => absurd h hnil, ?_⟩
      · rw [hnone, hempty, hsame.out]
        unfold LoopState.emit
        simp only [hout, List.append_assoc]
      · rw [lines_emit hnil hx hxlen (fun hnext => by rw [hnext]; rfl), lines_replaceAll hb, hc]
        simp only [he, hk, hgrow, Bool.false_eq_true, if_false, and_self, if_true]
        rw [zipWith_kept _ _ _ (by rw [bodies, List.length_map])]
    · have hsame := processLine_eq_alone env hu hg
      rw [← hsame] at hout
      obtain ⟨hleft, hun, hopt, hfates⟩ := processLine_next env hu hg
      have hb' : NoBreaks (processLine env s rest).1.opt := by
        rcases hopt with hopt | hopt <;> rw [hopt]
        · exact hb
        · exact optAfter_noBreaks env hb hfirst (firstBody_noBreak rest)
      obtain ⟨text, htext, hend, hlines⟩ := ih (processLine env s rest).1 (nextLine rest)
        (by omega) hun hb' hrest
      rw [fates, List.tail_cons] at hfates
      refine ⟨x ++ ((afterLine rest).take 1 ++ text), ?_, fun h => absurd h hnil, ?_⟩
      · rw [hleft, htext, hout]
        simp only [List.append_assoc]
      · rw [lines_emit hnil hx hxlen hend, hlines, hfates]

end Turn

/-! ## The whole preprocessor -/

theorem forall₂_lines_length {s r : Text} (h : List.Forall₂ Blanked s r) :
    (lines r).length = (lines s).length :=
  (lines_blanked h).length_eq.symm

theorem zipWith_outcome_kept {fs : List (Option PreProcessorOption)} {ls : List Text} {i : Nat}
    {o : PreProcessorOption} {l : Text} (hf : fs[i]? = some (some o)) (hl : ls[i]? = some l)
    (hno : NoMacro o l) : (List.zipWith outcome fs ls)[i]? = some l := by
  rw [List.getElem?_zipWith, hf, hl]
  exact congrArg some (replaceAll_noMacro hno)

/-- **The lines survive**: without `#insert`, and with values on one line, the result has the lines
of the text in their places; comments are blanked, a line that is not kept is blanked, and one that
is kept and uses no macro is as the comments leave it. -/
theorem lines_frame (readFile : Text → Option Text) (depth : Nat) (o : PreProcessorOption)
    (str : Text) (hvalues : NoBreaks o)
    (hinsert : ∀ stripped, applyPreProcessorComments o str = .ok stripped →
      NoInsert (bodies stripped)) :
    let r := applyPreProcessor readFile depth o str
    (lines r.str).length = (lines str).length ∧
      ∀ stripped d, applyPreProcessorComments o str = .ok stripped → depth = d + 1 →
        let fs := fates ⟨readFile, applyPreProcessor readFile d⟩ [] o (bodies stripped)
        OnlyComments o str stripped ∧
        List.Forall₂ (List.Forall₂ Blanked) (lines str) (lines stripped) ∧
        fs.length = (lines stripped).length ∧
        lines r.str = List.zipWith outcome fs (lines stripped) ∧
        ∀ (i : Nat) o' l, fs[i]? = some (some o') → (lines stripped)[i]? = some l → NoMacro o' l →
          (lines r.str)[i]? = some l := by
  have hstripped := commentsFrom_stripped o str.length str
  have hrun : ∀ stripped d, applyPreProcessorComments o str = .ok stripped →
      lines (applyPreProcessor readFile (d + 1) o str).str =
        List.zipWith outcome
          (fates ⟨readFile, applyPreProcessor readFile d⟩ [] o (bodies stripped))
          (lines stripped) := by
    intro stripped d hok
    obtain ⟨text, htext, -, hlines⟩ := processLines_lines
      ⟨readFile, applyPreProcessor readFile d⟩ stripped.length (LoopState.init o) stripped
      (Nat.le_refl _) rfl hvalues (hinsert stripped hok)
    have hstr : (applyPreProcessor readFile (d + 1) o str).str = text := by
      simp only [applyPreProcessor, hok]
      split <;> exact htext
    rw [hstr]
    exact hlines
  have hfates : ∀ stripped d,
      (fates ⟨readFile, applyPreProcessor readFile d⟩ [] o (bodies stripped)).length =
        (lines stripped).length := by
    intro stripped d
    rw [fates_length, bodies, List.length_map]
  refine ⟨?_, ?_⟩
  · cases hok : applyPreProcessorComments o str with
    | error e =>
      have hstr : (applyPreProcessor readFile depth o str).str = e.2 := by
        cases depth <;> simp only [applyPreProcessor, hok]
      rw [applyPreProcessorComments] at hok
      rw [hok] at hstripped
      rw [hstr]
      exact forall₂_lines_length hstripped.blanked
    | ok stripped =>
      have hlen : (lines stripped).length = (lines str).length := by
        rw [applyPreProcessorComments] at hok
        rw [hok] at hstripped
        exact forall₂_lines_length hstripped.blanked
      cases depth with
      | zero =>
        simp only [applyPreProcessor, hok]
        exact hlen
      | succ d => rw [hrun stripped d hok, List.length_zipWith, hfates, Nat.min_self, hlen]
  · rintro stripped d hok rfl
    have honly : OnlyComments o str stripped := by
      rw [applyPreProcessorComments] at hok
      rw [hok] at hstripped
      exact hstripped
    refine ⟨honly, lines_blanked honly.blanked, hfates stripped d, hrun stripped d hok, ?_⟩
    intro i o' l hf hl hno
    rw [hrun stripped d hok]
    exact zipWith_outcome_kept hf hl hno

/-- A kept line, a directive and a macro. -/
theorem lines_frame_script :
    let o : PreProcessorOption := ⟨[("A".toList, "b".toList)], true, false⟩
    let r := applyPreProcessor (fun _ => none) 9 o "x /* c */ y\n#ifdef B\nA\n#endif\nA".toList
    (lines r.str).length = 5 ∧ (lines r.str)[0]? = some "x         y".toList := by
  have h := lines_frame (fun _ => none) 9 ⟨[("A".toList, "b".toList)], true, false⟩
    "x /* c */ y\n#ifdef B\nA\n#endif\nA".toList (by decide +kernel)
    (fun stripped hok => by
      have hrun : applyPreProcessorComments ⟨[("A".toList, "b".toList)], true, false⟩
          "x /* c */ y\n#ifdef B\nA\n#endif\nA".toList =
          .ok "x         y\n#ifdef B\nA\n#endif\nA".toList := by decide +kernel
      rw [hrun, Except.ok.injEq] at hok
      subst hok
      decide +kernel)
  refine ⟨h.1.trans (by decide +kernel), ?_⟩
  have hkept := (h.2 "x         y\n#ifdef B\nA\n#endif\nA".toList 8 (by decide +kernel) rfl).2.2.2.2
  exact hkept 0 ⟨[("A".toList, "b".toList)], true, false⟩ _ (by decide +kernel)
    (by decide +kernel) (by decide +kernel)

/-- The comment of a kept line goes, and a value of two lines adds one. -/
theorem comment_and_value_change_lines :
    let o : PreProcessorOption := ⟨[], true, false⟩
    let o₂ : PreProcessorOption := ⟨[("A".toList, "b\nc".toList)], true, false⟩
    let r := applyPreProcessor (fun _ => none) 9 o "x // y".toList
    let r₂ := applyPreProcessor (fun _ => none) 9 o₂ "A".toList
    (r.ok = true ∧
      fates ⟨fun _ => none, applyPreProcessor (fun _ => none) 8⟩ [] o (bodies "x // y".toList) =
        [some o] ∧
      NoMacro o "x // y".toList ∧ lines "x // y".toList = ["x // y".toList] ∧
      lines r.str ≠ lines "x // y".toList) ∧
    (r₂.ok = true ∧ NoInsert (bodies "A".toList) ∧
      (lines r₂.str).length ≠ (lines "A".toList).length) := by
  decide +kernel

end Acts.Preprocessor
