import Acts.Core.PreprocessorFrame

/-!
# String literals and the preprocessor

* `Unaffected`, `replaceAll_eq_iff` — a text that macro replacement leaves alone.
* `Inside`, `Outside` — where the strings and the comments of a text are.
* `LiteralPart` — a string literal, or the part on one line of a literal that goes on over several.
* `processLines_kept` — what the loop writes up to a place on a kept line.
* `literal_kept_iff` — **the comment pass leaves every literal alone; a literal on a kept line comes
  out as it was exactly when no name between its quotes is a macro with another value.**
-/

set_option autoImplicit false

namespace Acts.Preprocessor

/-! ## Texts that replacement leaves alone -/

/-- No name of the text has another value. -/
def Unaffected (o : PreProcessorOption) (l : Text) : Prop :=
  ∀ name ∈ names l, o.find name = none ∨ o.find name = some name

instance (o : PreProcessorOption) (l : Text) : Decidable (Unaffected o l) :=
  inferInstanceAs (Decidable (∀ name ∈ names l, o.find name = none ∨ o.find name = some name))

section Replace

variable {o : PreProcessorOption}

theorem identifier_of_mem_idf {s : Text} {c : Char} (h : c ∈ s.take (idfSize s)) :
    isIdentifierChar c = true := by
  have htake : s.take (idfSize s) = s.takeWhile isIdentifierChar :=
    (List.prefix_iff_eq_take.mp (List.takeWhile_prefix _)).symm
  rw [htake] at h
  exact List.mem_takeWhile_imp h

/-- A name stands for itself when it has no value, or itself as its value: a shorter value comes
with spaces behind it. -/
theorem expand_eq_iff {idf : Text} (h : ∀ c ∈ idf, isIdentifierChar c = true) :
    (expand o idf [] 0).1 = idf ↔ o.find idf = none ∨ o.find idf = some idf := by
  unfold expand
  cases hf : o.find idf with
  | none => simp
  | some replace =>
    simp only [reduceCtorEq, Option.some.injEq, false_or]
    by_cases hlen : replace.length ≤ idf.length
    · rw [if_pos hlen]
      constructor
      · intro heq
        cases hn : idf.length - replace.length with
        | zero =>
          rw [hn, List.replicate_zero, List.append_nil] at heq
          exact heq
        | succ n =>
          rw [hn] at heq
          have hmem : ' ' ∈ idf := by
            rw [← heq]
            simp
          exact absurd (h ' ' hmem) (by decide)
      · rintro rfl
        simp
    · rw [if_neg hlen]

theorem replaceAll_eq_namesFrom {fuel : Nat} {l : Text} (hfuel : l.length ≤ fuel) :
    replaceAll o l = l ↔
      ∀ name ∈ namesFrom fuel l, o.find name = none ∨ o.find name = some name := by
  induction fuel generalizing l with
  | zero =>
    obtain rfl := List.length_eq_zero_iff.mp (Nat.le_zero.mp hfuel)
    simp [namesFrom]
  | succ fuel ih =>
    cases l with
    | nil => simp [namesFrom]
    | cons c s =>
      rw [List.length_cons] at hfuel
      by_cases hc : isIdentifierChar c = true
      · have hpos := idfSize_pos s hc
        have hrest := ih (l := (c :: s).drop (idfSize (c :: s)))
          (by rw [List.length_drop, List.length_cons]; omega)
        have hidf := @expand_eq_iff o ((c :: s).take (idfSize (c :: s)))
          (fun d hd => identifier_of_mem_idf hd)
        simp only [namesFrom, hc, Bool.not_true, Bool.false_eq_true, if_false, List.mem_cons,
          forall_eq_or_imp]
        rw [← hrest, ← hidf, replaceAll_idf s hc]
        constructor
        · intro heq
          -- neither part is shorter than what it stands for
          have hsplit := heq.trans (List.take_append_drop (idfSize (c :: s)) (c :: s)).symm
          have h1 := expand_length o ((c :: s).take (idfSize (c :: s)))
          have h2 := replaceAll_length o ((c :: s).drop (idfSize (c :: s)))
          have hlen := congrArg List.length hsplit
          rw [List.length_append, List.length_append] at hlen
          exact List.append_inj hsplit (by omega)
        · rintro ⟨h1, h2⟩
          rw [h1, h2, List.take_append_drop]
      · have hc : isIdentifierChar c = false := by simpa using hc
        simp only [namesFrom, hc, Bool.not_false, if_true]
        rw [replaceAll_other s hc, List.cons_inj_right]
        exact ih (by omega)

/-- **Replacement leaves a text alone exactly when none of its names has another value.** -/
theorem replaceAll_eq_iff {l : Text} : replaceAll o l = l ↔ Unaffected o l :=
  replaceAll_eq_namesFrom (Nat.le_refl _)

/-- Replacement behind a text at whose end no identifier stands. -/
theorem replaceAll_behind {a : Text} (ha : ∀ d ∈ a.getLast?, isIdentifierChar d = false)
    (t : Text) : replaceAll o (a ++ t) = replaceAll o a ++ replaceAll o t := by
  rcases List.eq_nil_or_concat a with rfl | ⟨b, d, rfl⟩
  · rfl
  · have hd : isIdentifierChar d = false := ha d (by simp)
    have hsplit (u : Text) :
        replaceAll o (b ++ d :: u) = replaceAll o b ++ d :: replaceAll o u := by
      rw [replaceAll_append b (fun e he => by cases he; exact hd), replaceAll_other u hd]
    have hone := hsplit []
    rw [replaceAll_nil] at hone
    rw [List.concat_eq_append, List.append_assoc, List.singleton_append, hsplit, hone,
      List.append_assoc, List.singleton_append]

end Replace

/-! ## The comment pass without its fuel -/

theorem prepend_assoc (a b : Text) (x : Except (String × Text) Text) :
    prepend a (prepend b x) = prepend (a ++ b) x := by
  cases x with
  | ok r => rw [prepend, prepend, prepend, List.append_assoc]
  | error e => rw [prepend, prepend, prepend, List.append_assoc]

theorem skipString_length (s : Text) : (skipString s).2.length ≤ s.length := by
  have h := congrArg List.length (skipString_append s)
  rw [List.length_append] at h
  omega

theorem skipLine_length (s : Text) : (skipLine s).2.length ≤ s.length :=
  (List.dropWhile_sublist _).length_le

theorem skipBlock_length {x y : Char} {s : Text} {r : Text × Text}
    (h : skipBlock x y s = some r) : r.2.length ≤ s.length := by
  obtain ⟨u, hs, -⟩ := skipBlock_spec (a := r.1) (b := r.2) h
  rw [hs, List.length_append]
  omega

section Comments

variable {o : PreProcessorOption}

/-- Fuel for every character is enough. -/
theorem commentsFrom_fuel (f g : Nat) (s : Text) (hf : s.length ≤ f) (hg : s.length ≤ g) :
    commentsFrom o f s = commentsFrom o g s := by
  induction f generalizing g s with
  | zero =>
    obtain rfl := List.length_eq_zero_iff.mp (Nat.le_zero.mp hf)
    cases g <;> rfl
  | succ f ih =>
    cases s with
    | nil => cases g <;> rfl
    | cons c s =>
      rw [List.length_cons] at hf hg
      obtain ⟨g, rfl⟩ : ∃ n, g = n + 1 := ⟨g - 1, by omega⟩
      have hdrop : (s.drop 1).length ≤ s.length := (List.drop_sublist 1 s).length_le
      have hrec (t : Text) (ht : t.length ≤ s.length) : commentsFrom o f t = commentsFrom o g t :=
        ih g t (by omega) (by omega)
      have hstring := hrec _ (skipString_length s)
      have hline := hrec _ ((skipLine_length (s.drop 1)).trans hdrop)
      have hblock (x : Char) (r : Text × Text) (hr : skipBlock x '/' (s.drop 1) = some r) :
          commentsFrom o f r.2 = commentsFrom o g r.2 :=
        hrec _ ((skipBlock_length hr).trans hdrop)
      rw [commentsFrom, commentsFrom]
      simp only [hstring, hline, hrec s (Nat.le_refl _)]
      congr 4
      · cases hs : skipBlock '*' '/' (s.drop 1) with
        | none => rfl
        | some r => simp only [hblock '*' r hs]
      · congr 1
        cases hs : skipBlock '#' '/' (s.drop 1) with
        | none => rfl
        | some r => simp only [hblock '#' r hs]

/-- What starts a block comment behind a slash. -/
def Opens (o : PreProcessorOption) (x : Char) : Prop :=
  x = '*' ∨ (o.devBlockAsComment = true ∧ x = '#')

instance (o : PreProcessorOption) (x : Char) : Decidable (Opens o x) :=
  inferInstanceAs (Decidable (x = '*' ∨ (o.devBlockAsComment = true ∧ x = '#')))

/-- A character before `s` that starts neither a string nor a comment. -/
def Plain (o : PreProcessorOption) (c : Char) (s : Text) : Prop :=
  c ≠ '\x00' ∧ c ≠ '"' ∧ (c = '/' → ∀ d ∈ s.head?, d ≠ '/' ∧ ¬ Opens o d)

theorem comments_plain {c : Char} {s : Text} (h : Plain o c s) :
    applyPreProcessorComments o (c :: s) = prepend [c] (applyPreProcessorComments o s) := by
  obtain ⟨hnul, hquote, hslash⟩ := h
  have hline : ¬ (c = '/' ∧ s.head? = some '/') := fun hc => (hslash hc.1 '/' hc.2).1 rfl
  have hblock : ¬ (c = '/' ∧ s.head? = some '*') :=
    fun hc => (hslash hc.1 '*' hc.2).2 (.inl rfl)
  have hdev : ¬ (o.devBlockAsComment = true ∧ c = '/' ∧ s.head? = some '#') :=
    fun hc => (hslash hc.2.1 '#' hc.2.2).2 (.inr ⟨hc.1, rfl⟩)
  rw [applyPreProcessorComments, List.length_cons, commentsFrom, if_neg hnul, if_neg hquote,
    if_neg hline, if_neg hblock, if_neg hdev]
  rfl

theorem comments_string (s : Text) :
    applyPreProcessorComments o ('"' :: s) =
      prepend ('"' :: (skipString s).1) (applyPreProcessorComments o (skipString s).2) := by
  rw [applyPreProcessorComments, List.length_cons, commentsFrom, if_neg (by decide), if_pos rfl]
  exact congrArg (prepend _) (commentsFrom_fuel _ _ _ (skipString_length s) (Nat.le_refl _))

theorem comments_line (s : Text) :
    applyPreProcessorComments o ('/' :: '/' :: s) =
      prepend (' ' :: ' ' :: (skipLine s).1) (applyPreProcessorComments o (skipLine s).2) := by
  rw [applyPreProcessorComments, List.length_cons, commentsFrom, if_neg (by decide),
    if_neg (by decide), if_pos ⟨rfl, rfl⟩]
  have hlen := (skipLine_length s).trans (Nat.le_succ s.length)
  exact congrArg (prepend _) (commentsFrom_fuel _ _ _ hlen (Nat.le_refl _))

theorem comments_block {x : Char} {s a b : Text} (hx : Opens o x)
    (hs : skipBlock x '/' s = some (a, b)) :
    applyPreProcessorComments o ('/' :: x :: s) =
      prepend (' ' :: ' ' :: a) (applyPreProcessorComments o b) := by
  have hlen := (skipBlock_length hs).trans (Nat.le_succ s.length)
  have hfuel := commentsFrom_fuel (o := o) (s.length + 1) b.length b hlen (Nat.le_refl _)
  rw [applyPreProcessorComments, List.length_cons, commentsFrom, if_neg (by decide),
    if_neg (by decide)]
  rcases hx with rfl | ⟨hdev, rfl⟩
  · rw [if_neg (fun h => absurd (Option.some.inj h.2) (by decide)), if_pos ⟨rfl, rfl⟩,
      List.drop_one, List.tail_cons, hs]
    exact congrArg (prepend _) hfuel
  · rw [if_neg (fun h => absurd (Option.some.inj h.2) (by decide)),
      if_neg (fun h => absurd (Option.some.inj h.2) (by decide)), if_pos ⟨hdev, rfl, rfl⟩,
      List.drop_one, List.tail_cons, hs]
    exact congrArg (prepend _) hfuel

end Comments

/-! ## Strings and comments of a text -/

/-- What can stand between the quotes of a string: every quote is escaped. -/
inductive Inside : Text → Prop
  | nil : Inside []
  | escape (c : Char) {s : Text} : Inside s → Inside ('\\' :: c :: s)
  | char {c : Char} {s : Text} : c ≠ '"' → c ≠ '\\' → Inside s → Inside (c :: s)

/-- `pre` ends outside of strings and comments, with `rest` behind it. -/
inductive Outside (o : PreProcessorOption) (rest : Text) : Text → Prop
  | start : Outside o rest []
  | char {c : Char} {pre : Text} : Plain o c (pre ++ rest) → Outside o rest pre →
      Outside o rest (c :: pre)
  | string {content pre : Text} : Inside content → Outside o rest pre →
      Outside o rest ('"' :: (content ++ '"' :: pre))
  | line {u pre : Text} : '\n' ∉ u → (∀ d ∈ (pre ++ rest).head?, d = '\n') → Outside o rest pre →
      Outside o rest ('/' :: '/' :: (u ++ pre))
  | block {x : Char} {u pre : Text} : Opens o x → ¬ [x, '/'] <:+: u ++ [x] → Outside o rest pre →
      Outside o rest ('/' :: x :: (u ++ x :: '/' :: pre))

theorem Inside.char_append (a : Text) {s : Text} (ha : ∀ c ∈ a, c ≠ '"' ∧ c ≠ '\\')
    (hs : Inside s) : Inside (a ++ s) := by
  induction a with
  | nil => exact hs
  | cons c a ih =>
    have hc := ha c List.mem_cons_self
    exact .char hc.1 hc.2 (ih (fun d hd => ha d (List.mem_cons_of_mem c hd)))

/-- A text without quotes and slashes has no strings and no comments. -/
theorem Outside.of_plain {o : PreProcessorOption} {rest pre : Text}
    (h : ∀ c ∈ pre, c ≠ '\x00' ∧ c ≠ '"' ∧ c ≠ '/') : Outside o rest pre := by
  induction pre with
  | nil => exact .start
  | cons c pre ih =>
    obtain ⟨hnul, hquote, hslash⟩ := h c List.mem_cons_self
    exact .char ⟨hnul, hquote, fun heq => absurd heq hslash⟩
      (ih (fun d hd => h d (List.mem_cons_of_mem c hd)))

theorem skipString_char {c : Char} (s : Text) (h1 : c ≠ '"') (h2 : c ≠ '\\') :
    skipString (c :: s) = (c :: (skipString s).1, (skipString s).2) := by
  rw [skipString]
  · exact fun h _ => h2 h
  · exact fun _ _ h _ => h2 h
  · exact fun h => h1 h

/-- The scan of a string ends at its quote. -/
theorem Inside.skipString {content : Text} (h : Inside content) (s : Text) :
    Preprocessor.skipString (content ++ '"' :: s) = (content ++ ['"'], s) := by
  induction h with
  | nil => rfl
  | escape c _ ih =>
    rw [List.cons_append, List.cons_append, Preprocessor.skipString, ih]
    rfl
  | char h1 h2 _ ih =>
    rw [List.cons_append, skipString_char _ h1 h2, ih]
    rfl

/-- A string that is cut off goes on to the end. -/
theorem Inside.skipString_cut {content : Text} (h : Inside content) {a b : Text}
    (hab : content = a ++ b) : Preprocessor.skipString a = (a, []) := by
  induction h generalizing a with
  | nil =>
    obtain ⟨rfl, -⟩ := List.append_eq_nil_iff.mp hab.symm
    rfl
  | escape c _ ih =>
    rcases a with _ | ⟨d, _ | ⟨e, a⟩⟩
    · rfl
    · cases hab
      rfl
    · rw [List.cons_append, List.cons_append, List.cons.injEq, List.cons.injEq] at hab
      obtain ⟨rfl, rfl, hab⟩ := hab
      rw [Preprocessor.skipString, ih hab]
  | char h1 h2 _ ih =>
    rcases a with _ | ⟨d, a⟩
    · rfl
    · rw [List.cons_append, List.cons.injEq] at hab
      obtain ⟨rfl, hab⟩ := hab
      rw [skipString_char _ h1 h2, ih hab]

theorem skipLine_ends {u t : Text} (hu : '\n' ∉ u) (ht : ∀ d ∈ t.head?, d = '\n') :
    skipLine (u ++ t) = (blank u, t) := by
  have hne : ∀ c ∈ u, decide (c ≠ '\n') = true := by
    intro c hc
    exact decide_eq_true (fun heq => hu (heq ▸ hc))
  have htake : t.takeWhile (· ≠ '\n') = [] ∧ t.dropWhile (· ≠ '\n') = t := by
    cases t with
    | nil => exact ⟨rfl, rfl⟩
    | cons d t =>
      obtain rfl := ht d rfl
      exact ⟨rfl, rfl⟩
  rw [skipLine, List.takeWhile_append_of_pos hne, List.dropWhile_append_of_pos hne, htake.1,
    htake.2, List.append_nil]

theorem Opens.blanked {o : PreProcessorOption} {x : Char} (h : Opens o x) : Blanked x ' ' := by
  rcases h with rfl | ⟨-, rfl⟩
  · exact .inr rfl
  · exact .inr rfl

theorem skipBlock_ends {x y : Char} (s : Text) {u : Text} (h : ¬ [x, y] <:+: u ++ [x]) :
    skipBlock x y (u ++ x :: y :: s) = some (blank (u ++ [x, y]), s) := by
  induction u with
  | nil =>
    rw [List.nil_append, skipBlock, if_pos ⟨rfl, rfl⟩]
    rfl
  | cons c u ih =>
    obtain ⟨d, w, hdw⟩ : ∃ d w, u ++ [x] = d :: w :=
      List.exists_cons_of_ne_nil (List.append_ne_nil_of_right_ne_nil _ (List.cons_ne_nil _ _))
    have hsplit : u ++ x :: y :: s = d :: (w ++ y :: s) := by
      have := congrArg (· ++ y :: s) hdw
      simpa using this
    have hne : ¬ (c = x ∧ d = y) := by
      rintro ⟨rfl, rfl⟩
      rw [List.cons_append, hdw] at h
      exact h ⟨[], w, rfl⟩
    have hrest := ih (fun hin => h (List.infix_cons hin))
    rw [List.cons_append, hsplit, skipBlock, if_neg hne, ← hsplit, hrest]
    rfl

/-- **The comment pass changes nothing but the comments it has read**, and has read them whatever
comes next. -/
theorem Outside.comments {o : PreProcessorOption} {rest pre : Text} (h : Outside o rest pre) :
    ∃ stripped, List.Forall₂ Blanked pre stripped ∧ ∀ rest', rest'.head? = rest.head? →
      applyPreProcessorComments o (pre ++ rest') =
        prepend stripped (applyPreProcessorComments o rest') := by
  have hhead {rest' : Text} (pre : Text) (hr : rest'.head? = rest.head?) :
      (pre ++ rest').head? = (pre ++ rest).head? := by
    rw [List.head?_append, List.head?_append, hr]
  induction h with
  | start =>
    refine ⟨[], .nil, fun rest' _ => ?_⟩
    cases hc : applyPreProcessorComments o rest' <;> rw [List.nil_append, hc] <;> rfl
  | @char c pre hplain _ ih =>
    obtain ⟨stripped, hblank, hrest⟩ := ih
    refine ⟨c :: stripped, .cons (.inl rfl) hblank, fun rest' hr => ?_⟩
    have hplain' : Plain o c (pre ++ rest') := by
      rw [Plain, hhead pre hr]
      exact hplain
    rw [List.cons_append, comments_plain hplain', hrest rest' hr, prepend_assoc]
    rfl
  | @string content pre hin _ ih =>
    obtain ⟨stripped, hblank, hrest⟩ := ih
    refine ⟨'"' :: (content ++ '"' :: stripped), ?_, fun rest' hr => ?_⟩
    · exact .cons (.inl rfl) (List.rel_append (blanked_refl content) (.cons (.inl rfl) hblank))
    · rw [List.cons_append, List.append_assoc, List.cons_append, comments_string, hin.skipString,
        hrest rest' hr, prepend_assoc]
      simp only [List.append_assoc, List.cons_append, List.nil_append]
  | @line u pre hu hend _ ih =>
    obtain ⟨stripped, hblank, hrest⟩ := ih
    refine ⟨' ' :: ' ' :: (blank u ++ stripped), ?_, fun rest' hr => ?_⟩
    · exact .cons (.inr rfl) (.cons (.inr rfl) (List.rel_append (blanked_blank u) hblank))
    · have hskip := skipLine_ends hu (t := pre ++ rest') (by rw [hhead pre hr]; exact hend)
      rw [List.cons_append, List.cons_append, List.append_assoc, comments_line, hskip,
        hrest rest' hr, prepend_assoc]
      rfl
  | @block x u pre hx hu _ ih =>
    obtain ⟨stripped, hblank, hrest⟩ := ih
    refine ⟨' ' :: ' ' :: (blank (u ++ [x, '/']) ++ stripped), ?_, fun rest' hr => ?_⟩
    · have hsplit : u ++ x :: '/' :: pre = (u ++ [x, '/']) ++ pre := by simp
      rw [hsplit]
      have hin := List.rel_append (blanked_blank (u ++ [x, '/'])) hblank
      exact .cons (.inr rfl) (.cons hx.blanked hin)
    · rw [List.cons_append, List.cons_append, List.append_assoc, List.cons_append,
        List.cons_append, comments_block hx (skipBlock_ends _ hu), hrest rest' hr, prepend_assoc]
      rfl

/-- `part` stands in `str` between `pre` and `post`: it is a string literal without its quotes, or
what such a literal has on one line. -/
structure LiteralPart (o : PreProcessorOption) (str pre part post : Text) : Prop where
  str_eq : str = pre ++ (part ++ post)
  oneLine : '\n' ∉ part
  literal : ∃ before head tail behind, pre = before ++ '"' :: head ∧
    post = tail ++ '"' :: behind ∧ Inside (head ++ (part ++ tail)) ∧
    Outside o ('"' :: (head ++ (part ++ post))) before ∧
    (head = [] ∨ head.getLast? = some '\n') ∧ (tail = [] ∨ tail.head? = some '\n')

/-- A quote or an end of line follows. -/
theorem LiteralPart.post_head {o : PreProcessorOption} {str pre part post : Text}
    (h : LiteralPart o str pre part post) : post.head? = some '"' ∨ post.head? = some '\n' := by
  obtain ⟨before, head, tail, behind, -, rfl, -, -, -, htail⟩ := h.literal
  rcases htail with rfl | htail
  · exact .inl rfl
  · exact .inr (by rw [List.head?_append, htail]; rfl)

/-- **The comment pass leaves the literals alone**, and what stands before them becomes the same
whatever follows. -/
theorem LiteralPart.comments {o : PreProcessorOption} {str pre part post : Text}
    (h : LiteralPart o str pre part post) :
    ∃ pre' post', List.Forall₂ Blanked pre pre' ∧ post'.head? = post.head? ∧
      (pre'.getLast? = some '"' ∨ pre'.getLast? = some '\n') ∧
      applyPreProcessorComments o pre = .ok pre' ∧
      applyPreProcessorComments o (pre ++ part) = .ok (pre' ++ part) ∧
      textOf (applyPreProcessorComments o str) = pre' ++ (part ++ post') := by
  obtain ⟨before, head, tail, behind, rfl, rfl, hin, hout, hhead, htail⟩ := h.literal
  obtain ⟨stripped, hblank, hrest⟩ := hout.comments
  have hcut {a b : Text} (hab : head ++ (part ++ tail) = a ++ b) :
      applyPreProcessorComments o (before ++ '"' :: a) = .ok (stripped ++ '"' :: a) := by
    rw [hrest ('"' :: a) rfl, comments_string, hin.skipString_cut hab]
    have hnil : applyPreProcessorComments o [] = .ok [] := rfl
    rw [hnil, prepend, prepend, List.append_nil]
  refine ⟨stripped ++ '"' :: head, tail ++ '"' :: textOf (applyPreProcessorComments o behind),
    List.rel_append hblank (blanked_refl _), ?_, ?_, hcut rfl, ?_, ?_⟩
  · rw [List.head?_append, List.head?_append]
    rfl
  · rw [List.getLast?_append, List.getLast?_cons]
    rcases hhead with rfl | hhead
    · exact .inl rfl
    · exact .inr (by rw [hhead]; rfl)
  · have := hcut (a := head ++ part) (b := tail) (by rw [List.append_assoc])
    rw [List.append_assoc, List.cons_append, this, List.append_assoc, List.cons_append]
  · have hsplit : head ++ (part ++ (tail ++ '"' :: behind)) =
        (head ++ (part ++ tail)) ++ '"' :: behind := by
      simp only [List.append_assoc]
    rw [h.str_eq, List.append_assoc, List.cons_append, hrest _ rfl, hsplit, comments_string,
      hin.skipString]
    cases applyPreProcessorComments o behind with
    | ok r => simp only [prepend, textOf, List.append_assoc, List.cons_append, List.nil_append]
    | error e => simp only [prepend, textOf, List.append_assoc, List.cons_append, List.nil_append]

/-! ## The lines before a place -/

/-- Whole lines. -/
def joined (ls : List Text) : Text := ls.flatMap (· ++ ['\n'])

theorem joined_cons (l : Text) (ls : List Text) (t : Text) :
    joined (l :: ls) ++ t = l ++ '\n' :: (joined ls ++ t) := by
  simp only [joined, List.flatMap_cons, List.append_assoc, List.cons_append, List.nil_append]

/-- A text is the lines before its last one and what the last one has. -/
theorem exists_joined (s : Text) : ∃ ls u, s = joined ls ++ u ∧ (∀ l ∈ ls, '\n' ∉ l) ∧ '\n' ∉ u ∧
    ls.length = s.count '\n' := by
  induction s with
  | nil => exact ⟨[], [], rfl, by simp, by simp, rfl⟩
  | cons c s ih =>
    obtain ⟨ls, u, rfl, hls, hu, hlen⟩ := ih
    by_cases hc : c = '\n'
    · subst hc
      refine ⟨[] :: ls, u, rfl, ?_, hu, ?_⟩
      · intro l hl
        rcases List.mem_cons.mp hl with rfl | hl
        · exact List.not_mem_nil
        · exact hls l hl
      · rw [List.length_cons, hlen, List.count_cons_self]
    · rw [List.count_cons_of_ne hc]
      cases ls with
      | nil =>
        refine ⟨[], c :: u, rfl, hls, ?_, hlen⟩
        rw [List.mem_cons, not_or]
        exact ⟨fun h => hc h.symm, hu⟩
      | cons l ls =>
        refine ⟨(c :: l) :: ls, u, rfl, ?_, hu, hlen⟩
        intro l' hl
        rcases List.mem_cons.mp hl with rfl | hl
        · rw [List.mem_cons, not_or]
          exact ⟨fun h => hc h.symm, hls l List.mem_cons_self⟩
        · exact hls l' (List.mem_cons_of_mem _ hl)

theorem joined_last (ls : List Text) :
    ∀ d ∈ (joined ls).getLast?, isIdentifierChar d = false := by
  intro d hd
  rcases List.eq_nil_or_concat ls with rfl | ⟨ls, l, rfl⟩
  · cases hd
  · have hlast : (joined (ls.concat l)).getLast? = some '\n' := by
      simp [joined]
    rw [hlast] at hd
    cases hd
    decide

/-! ## Cutting a text line -/

theorem startsWith_iff {line : Text} {p : String} : startsWith line p = true ↔ p.toList <+: line :=
  List.isPrefixOf_iff_prefix

theorem startsWith_lineView {body : Text} {p : String} (hp : '\r' ∉ p.toList) :
    startsWith (lineView body) p = startsWith body p := by
  rw [Bool.eq_iff_iff, startsWith_iff, startsWith_iff, lineView]
  split
  · rename_i hlast
    rcases List.eq_nil_or_concat body with rfl | ⟨l, d, rfl⟩
    · cases hlast
    · rw [List.concat_eq_append, List.getLast?_concat, Option.some.injEq] at hlast
      subst hlast
      rw [List.concat_eq_append, List.dropLast_concat, List.prefix_concat_iff]
      constructor
      · exact .inr
      · rintro (heq | hpre)
        · rw [heq] at hp
          exact absurd (by simp) hp
        · exact hpre
  · exact Iff.rfl

theorem conditional_none_iff {line : Text} : conditional line = none ↔
    startsWith line "#ifdef" = false ∧ startsWith line "#ifndef" = false ∧
      startsWith line "#else" = false ∧ startsWith line "#endif" = false := by
  unfold conditional
  cases startsWith line "#ifdef" with
  | true =>
    simp only [if_true, Bool.true_eq_false, false_and, iff_false]
    split <;> exact Option.some_ne_none _
  | false =>
    cases startsWith line "#ifndef" with
    | true =>
      simp only [if_true, Bool.false_eq_true, if_false, Bool.true_eq_false, false_and, and_false,
        iff_false]
      split <;> exact Option.some_ne_none _
    | false =>
      cases startsWith line "#else" with
      | true =>
        simp only [if_true, Bool.false_eq_true, if_false, Bool.true_eq_false, false_and, and_false,
          iff_false]
        split <;> exact Option.some_ne_none _
      | false =>
        cases startsWith line "#endif" with
        | true =>
          simp only [if_true, Bool.false_eq_true, if_false, Bool.true_eq_false, and_false,
            iff_false]
          split <;> exact Option.some_ne_none _
        | false => simp

theorem otherKind_text_iff {o : PreProcessorOption} {line : Text} : otherKind o line = .text ↔
    (o.noDefineExpr = true ∨ startsWith line "#define" = false) ∧
      startsWith line "#error" = false ∧ startsWith line "#warning" = false ∧
      startsWith line "#insert" = false ∧ startsWith line "#region" = false ∧
      startsWith line "#endregion" = false := by
  unfold otherKind
  cases o.noDefineExpr <;> cases startsWith line "#define" <;>
    cases startsWith line "#error" <;> cases startsWith line "#warning" <;>
    cases startsWith line "#insert" <;> cases startsWith line "#region" <;>
    cases startsWith line "#endregion" <;> simp

/-- The start of a text line is a text line. -/
theorem isText_prefix {o : PreProcessorOption} {a b : Text} (hab : a <+: b)
    (h : isText o b = true) : isText o a = true := by
  have hcut {p : String} (hp : '\r' ∉ p.toList) (hb : startsWith (lineView b) p = false) :
      startsWith (lineView a) p = false := by
    rw [startsWith_lineView hp] at hb ⊢
    by_contra ha
    have ha : startsWith a p = true := by simpa using ha
    rw [startsWith_iff.mpr ((startsWith_iff.mp ha).trans hab)] at hb
    cases hb
  rw [isText_iff, conditional_none_iff, otherKind_text_iff] at h ⊢
  obtain ⟨⟨h1, h2, h3, h4⟩, h5, h6, h7, h8, h9, h10⟩ := h
  refine ⟨⟨hcut (by decide) h1, hcut (by decide) h2, hcut (by decide) h3, hcut (by decide) h4⟩,
    h5.imp_right (hcut (by decide)), hcut (by decide) h6, hcut (by decide) h7,
    hcut (by decide) h8, hcut (by decide) h9, hcut (by decide) h10⟩

theorem firstLine_append {l t : Text} (hl : '\n' ∉ l) (ht : t = [] ∨ t.head? = some '\n') :
    firstLine (l ++ t) = l ∧ afterLine (l ++ t) = t := by
  have hne : ∀ c ∈ l, decide (c ≠ '\n') = true := by
    intro c hc
    exact decide_eq_true (fun heq => hl (heq ▸ hc))
  have htake : t.takeWhile (· ≠ '\n') = [] := by
    cases t with
    | nil => rfl
    | cons d t =>
      have hd : d = '\n' := by simpa using ht
      subst hd
      rfl
  have hfirst : firstLine (l ++ t) = l := by
    rw [firstLine, List.takeWhile_append_of_pos hne, htake, List.append_nil]
  refine ⟨hfirst, ?_⟩
  rw [firstLine] at hfirst
  rw [afterLine, hfirst, List.drop_left]

section Kept

variable (env : Env)

/-- What a turn writes for a line does not depend on the lines after it. -/
theorem processLineAlone_cut {l : Text} (hl : '\n' ∉ l) (s : LoopState) (r r' : Text) :
    (processLineAlone env s (l ++ '\n' :: r)).1 = (processLineAlone env s (l ++ '\n' :: r')).1 := by
  have hcut (r : Text) : (l ++ '\n' :: r).takeWhile (· ≠ '\n') = l ∧
      ((l ++ '\n' :: r).drop l.length).take 1 = ['\n'] := by
    refine ⟨(firstLine_append hl (.inr rfl)).1, ?_⟩
    rw [List.drop_left]
    rfl
  unfold processLineAlone
  simp only [hcut]
  cases conditional (lineView (l.dropWhile isspace)) with
  | some c => rfl
  | none =>
    simp only
    cases s.eraseCtx.headD false with
    | true => rfl
    | false =>
      simp only [Bool.false_eq_true, if_false]
      cases otherKind s.opt (lineView (l.dropWhile isspace)) <;> rfl

theorem processLine_out_append (s : LoopState) (rest : Text) :
    ∃ x, (processLine env s rest).1.out = s.out ++ x := by
  unfold processLine
  simp only
  split
  · exact ⟨_, by simp only [execConditional_out, List.append_assoc]; rfl⟩
  · split
    · exact ⟨_, by simp only [List.append_assoc]; rfl⟩
    · split
      · exact ⟨_, by simp only [List.append_assoc]; rfl⟩
      · exact ⟨_, by simp only [execDirective_out, List.append_assoc]; rfl⟩

theorem processLines_out_append (fuel : Nat) (s : LoopState) (rest : Text) :
    ∃ x, (processLines env fuel s rest).out = s.out ++ x := by
  induction fuel generalizing s rest with
  | zero => cases rest <;> exact ⟨[], (List.append_nil _).symm⟩
  | succ fuel ih =>
    cases rest with
    | nil => exact ⟨[], (List.append_nil _).symm⟩
    | cons c rest =>
      obtain ⟨x, hx⟩ := processLine_out_append env s (c :: rest)
      obtain ⟨y, hy⟩ := ih (processLine env s (c :: rest)).1 (processLine env s (c :: rest)).2
      refine ⟨x ++ y, ?_⟩
      rw [← List.append_assoc, ← hx]
      exact hy

theorem processLines_nil (fuel : Nat) (s : LoopState) : processLines env fuel s [] = s := by
  cases fuel <;> rfl

theorem processLines_step {fuel : Nat} {s : LoopState} {rest : Text} (h : rest ≠ []) :
    processLines env (fuel + 1) s rest =
      processLines env fuel (processLine env s rest).1 (processLine env s rest).2 := by
  cases rest with
  | nil => exact absurd rfl h
  | cons c rest => rfl

/-- An active text line comes out with its names replaced, and so does the rest of the text when
the line grows. -/
theorem processLine_kept {s : LoopState} {rest : Text} (hu : s.unscanned = [])
    (ht : isText s.opt (firstBody rest) = true) (he : s.eraseCtx.headD false = false) :
    (processLine env s rest).2 = (if grows s.opt (firstBody rest) = true then [] else
        nextLine rest) ∧
      (processLine env s rest).1.out = s.out ++ (replaceAll s.opt (firstLine rest) ++
        ((afterLine rest).take 1 ++ if grows s.opt (firstBody rest) = true then
          replaceAll s.opt (nextLine rest) else [])) := by
  have halone : (processLineAlone env s rest).1.out =
      s.out ++ (replaceAll s.opt (firstLine rest) ++ (afterLine rest).take 1) := by
    rw [processLineAlone_text env ht he, ← replaceAll_firstLine]
    simp only [List.append_assoc]
  by_cases hg : grows s.opt (firstBody rest) = true
  · obtain ⟨hrest, hsame⟩ := processLine_takes_rest env ht he hg
    rw [if_pos hg, if_pos hg]
    refine ⟨hrest, ?_⟩
    rw [hsame.out, LoopState.emit, halone]
    simp only [List.append_assoc]
  · have heq := processLine_eq_alone env hu (fun h => hg h.2.2)
    rw [if_neg hg, if_neg hg, List.append_nil, heq]
    exact ⟨processLineAlone_next env s rest, halone⟩

theorem firstBody_append {l t : Text} (hl : '\n' ∉ l) (ht : t = [] ∨ t.head? = some '\n') :
    firstBody (l ++ t) = l.dropWhile isspace :=
  congrArg (List.dropWhile isspace) (firstLine_append hl ht).1

theorem nextLine_append {l t : Text} (hl : '\n' ∉ l) (ht : t = [] ∨ t.head? = some '\n') :
    nextLine (l ++ t) = t.drop 1 :=
  congrArg (List.drop 1) (firstLine_append hl ht).2

theorem dropWhile_prefix (p : Char → Bool) (a b : Text) :
    a.dropWhile p <+: (a ++ b).dropWhile p := by
  rw [List.dropWhile_append]
  split
  · rename_i h
    rw [List.isEmpty_iff.mp h]
    exact List.nil_prefix
  · exact List.prefix_append _ _

/-- The run up to a place on an active text line, and the run over all of it. -/
theorem processLines_kept_first {s : LoopState} {line tail : Text} (hu : s.unscanned = [])
    (hline : '\n' ∉ line) (htail : tail = [] ∨ tail.head? = some '\n') (hne : line ++ tail ≠ [])
    (ht : isText s.opt (line.dropWhile isspace) = true) (he : s.eraseCtx.headD false = false) :
    (∀ a b fuel, a ++ b = line → a.length ≤ fuel →
      (processLines env fuel s a).out = s.out ++ replaceAll s.opt a) ∧
    ∀ fuel, (line ++ tail).length ≤ fuel → ∃ y, (processLines env fuel s (line ++ tail)).out =
      s.out ++ (replaceAll s.opt line ++ (tail.take 1 ++ y)) := by
  constructor
  · intro a b fuel hab hfuel
    by_cases hnil : a = []
    · rw [hnil, processLines_nil, replaceAll_nil, List.append_nil]
    · obtain ⟨fuel, rfl⟩ : ∃ n, fuel = n + 1 :=
        ⟨fuel - 1, by have := List.length_pos_iff.mpr hnil; omega⟩
      have ha : '\n' ∉ a := fun hmem => hline (hab ▸ List.mem_append_left b hmem)
      have hfirst := firstLine_append ha (.inl rfl)
      have hbody := firstBody_append ha (.inl rfl)
      have hnext := nextLine_append ha (.inl rfl)
      rw [List.append_nil] at hfirst hbody hnext
      have htext : isText s.opt (firstBody a) = true := by
        rw [hbody]
        exact isText_prefix (hab ▸ dropWhile_prefix isspace a b) ht
      obtain ⟨hrest, hout⟩ := processLine_kept env hu htext he
      rw [hnext, List.drop_nil, ite_self] at hrest
      rw [hfirst.1, hfirst.2, hnext, List.drop_nil, replaceAll_nil, ite_self, List.take_nil,
        List.append_nil, List.append_nil] at hout
      rw [processLines_step env hnil, hrest, processLines_nil, hout]
  · intro fuel hfuel
    obtain ⟨fuel, rfl⟩ : ∃ n, fuel = n + 1 :=
      ⟨fuel - 1, by have := List.length_pos_iff.mpr hne; omega⟩
    have hfirst := firstLine_append hline htail
    rw [← firstBody_append hline htail] at ht
    obtain ⟨-, hout⟩ := processLine_kept env hu ht he
    rw [hfirst.1, hfirst.2] at hout
    obtain ⟨x, hx⟩ := processLines_out_append env fuel (processLine env s (line ++ tail)).1
      (processLine env s (line ++ tail)).2
    rw [processLines_step env hne, hx, hout]
    exact ⟨_, by simp only [List.append_assoc]; rfl⟩

/-- **The run up to a place on a kept line, and the run over all of the text**: the names of the
line are replaced, up to the place in the one and all of them in the other, and before them both
have written the same. -/
theorem processLines_kept {o' : PreProcessorOption} {line tail : Text} (hline : '\n' ∉ line)
    (htail : tail = [] ∨ tail.head? = some '\n') (hne : line ++ tail ≠ []) (ls : List Text)
    (hls : ∀ l ∈ ls, '\n' ∉ l) (s : LoopState) (hu : s.unscanned = [])
    (hkept : (fates env s.eraseCtx s.opt (bodies (joined ls ++ (line ++ tail))))[ls.length]? =
      some (some o')) :
    ∃ x, (∀ a b fuel, a ++ b = line → (joined ls ++ a).length ≤ fuel →
        (processLines env fuel s (joined ls ++ a)).out = s.out ++ (x ++ replaceAll o' a)) ∧
      ∀ fuel, (joined ls ++ (line ++ tail)).length ≤ fuel → ∃ y,
        (processLines env fuel s (joined ls ++ (line ++ tail))).out =
          s.out ++ (x ++ (replaceAll o' line ++ (tail.take 1 ++ y))) := by
  induction ls generalizing s with
  | nil =>
    have hjoined : joined [] = [] := rfl
    simp only [hjoined, List.nil_append] at hkept ⊢
    rw [bodies_eq hne, fates, List.length_nil, List.getElem?_cons_zero, Option.some.injEq] at hkept
    obtain rfl := fate_some hkept
    rw [fate] at hkept
    split at hkept
    · rename_i htext
      rw [firstBody_append hline htail] at htext
      exact ⟨[], processLines_kept_first env hu hline htail hne htext.1 htext.2⟩
    · cases hkept
  | cons l ls ih =>
    have hl := hls l List.mem_cons_self
    have hls' : ∀ l' ∈ ls, '\n' ∉ l' := fun l' hmem => hls l' (List.mem_cons_of_mem _ hmem)
    have hnonempty (r : Text) : l ++ '\n' :: r ≠ [] :=
      List.append_ne_nil_of_right_ne_nil _ (List.cons_ne_nil _ _)
    have hbody (r : Text) : firstBody (l ++ '\n' :: r) = l.dropWhile isspace :=
      firstBody_append hl (.inr rfl)
    have hnext (r : Text) : nextLine (l ++ '\n' :: r) = r := nextLine_append hl (.inr rfl)
    have hsplit (r : Text) (fuel : Nat) (hf : (l ++ '\n' :: r).length ≤ fuel) :
        ∃ n, fuel = n + 1 ∧ r.length ≤ n := by
      rw [List.length_append, List.length_cons] at hf
      exact ⟨fuel - 1, by omega, by omega⟩
    simp only [joined_cons] at hkept ⊢
    generalize hR : joined ls ++ (line ++ tail) = R at hkept ih ⊢
    rw [bodies_eq (hnonempty R), hnext, List.length_cons] at hkept
    by_cases hg : isText s.opt (l.dropWhile isspace) = true ∧ s.eraseCtx.headD false = false ∧
        grows s.opt (l.dropWhile isspace) = true
    · -- the line takes the rest of the text with it
      obtain ⟨ht, he, hgrow⟩ := hg
      have ho : o' = s.opt := by
        obtain ⟨hc, hk⟩ := isText_iff.mp ht
        rw [fates, hbody, hc, List.getElem?_cons_succ] at hkept
        simp only [he, hk, hgrow, Bool.false_eq_true, if_false, and_self, if_true] at hkept
        rw [List.getElem?_map, Option.map_eq_some_iff] at hkept
        obtain ⟨-, -, heq⟩ := hkept
        exact (Option.some.inj heq).symm
      subst ho
      have hrun (r : Text) (fuel : Nat) (hf : (l ++ '\n' :: r).length ≤ fuel) :
          (processLines env fuel s (l ++ '\n' :: r)).out =
            s.out ++ (replaceAll s.opt l ++ '\n' :: replaceAll s.opt r) := by
        obtain ⟨n, rfl, -⟩ := hsplit r fuel hf
        obtain ⟨hrest, hout⟩ := @processLine_kept env s (l ++ '\n' :: r) hu
          (by rw [hbody]; exact ht) he
        obtain ⟨hfirst, hafter⟩ := firstLine_append hl (t := '\n' :: r) (.inr rfl)
        rw [hbody, if_pos hgrow] at hrest
        rw [hfirst, hafter, hbody, hnext, if_pos hgrow] at hout
        rw [processLines_step env (hnonempty r), hrest, processLines_nil, hout]
        rfl
      refine ⟨replaceAll s.opt l ++ '\n' :: replaceAll s.opt (joined ls), ?_, ?_⟩
      · intro a b fuel _ hf
        rw [hrun _ fuel hf, replaceAll_behind (joined_last ls), List.append_assoc, List.cons_append]
      · intro fuel hf
        have htail' : replaceAll s.opt tail = tail.take 1 ++ replaceAll s.opt (tail.drop 1) := by
          have := replaceAll_afterLine s.opt (line ++ tail)
          rw [(firstLine_append hline htail).2, nextLine_append hline htail] at this
          exact this
        refine ⟨replaceAll s.opt (tail.drop 1), ?_⟩
        rw [hrun _ fuel hf, ← hR, replaceAll_behind (joined_last ls),
          replaceAll_append line (apart_of_line htail), htail', List.append_assoc,
          List.cons_append]
    · have hturn (r : Text) : processLine env s (l ++ '\n' :: r) =
          ((processLineAlone env s (l ++ '\n' :: R)).1, r) := by
        rw [processLine_eq_alone env hu (by rw [hbody]; exact hg)]
        exact Prod.ext (processLineAlone_cut env hl s r R)
          ((processLineAlone_next env s _).trans (hnext r))
      obtain ⟨-, hun, -, hfates⟩ := @processLine_next env s (l ++ '\n' :: R) hu
        (by rw [hbody]; exact hg)
      obtain ⟨x₁, hx₁⟩ := processLineAlone_out env s (l ++ '\n' :: R)
      rw [hturn, hnext] at hfates
      rw [hturn] at hun
      generalize (processLineAlone env s (l ++ '\n' :: R)).1 = s₁ at hturn hfates hun hx₁
      have hkept' : (fates env s₁.eraseCtx s₁.opt (bodies R))[ls.length]? = some (some o') := by
        rw [hfates, List.getElem?_tail]
        exact hkept
      obtain ⟨x, hcut, hall⟩ := ih hls' s₁ hun hkept'
      refine ⟨x₁ ++ x, ?_, ?_⟩
      · intro a b fuel hab hf
        obtain ⟨n, rfl, hn⟩ := hsplit _ fuel hf
        rw [processLines_step env (hnonempty _), hturn, hcut a b n hab hn, hx₁]
        simp only [List.append_assoc]
      · intro fuel hf
        obtain ⟨n, rfl, hn⟩ := hsplit _ fuel hf
        obtain ⟨y, hy⟩ := hall n hn
        refine ⟨y, ?_⟩
        rw [processLines_step env (hnonempty _), hturn, hy, hx₁]
        simp only [List.append_assoc]

end Kept

/-! ## The whole preprocessor -/

/-- What takes the place of `part`: the output for the text up to the end of it, without the output
for the text before it. -/
def contentAfter (readFile : Text → Option Text) (depth : Nat) (o : PreProcessorOption)
    (pre part : Text) : Text :=
  (applyPreProcessor readFile depth o (pre ++ part)).str.drop
    (applyPreProcessor readFile depth o pre).str.length

theorem count_blanked {s r : Text} (h : List.Forall₂ Blanked s r) :
    r.count '\n' = s.count '\n' := by
  induction h with
  | nil => rfl
  | @cons c d s r hcd _ ih =>
    rw [List.count_cons, List.count_cons, ih]
    simp only [beq_iff_eq, hcd.newline]

theorem applyPreProcessor_str (readFile : Text → Option Text) (depth : Nat)
    {o : PreProcessorOption} {s t : Text} (h : applyPreProcessorComments o s = .ok t) :
    (applyPreProcessor readFile (depth + 1) o s).str =
      (runLines ⟨readFile, applyPreProcessor readFile depth⟩ o t).out := by
  simp only [applyPreProcessor, h]
  split <;> rfl

/-- The rest of a line behind a literal, and the text after that line. -/
theorem exists_behind {post : Text} (h : post.head? = some '"' ∨ post.head? = some '\n') :
    ∃ v tail, post = v ++ tail ∧ '\n' ∉ v ∧ (tail = [] ∨ tail.head? = some '\n') ∧ Apart v ∧
      ∀ (o : PreProcessorOption) (y : Text),
        (replaceAll o v ++ (tail.take 1 ++ y)).head? = post.head? := by
  refine ⟨firstLine post, afterLine post, (firstLine_afterLine post).symm, firstLine_noBreak post,
    rest_tail post, ?_⟩
  cases post with
  | nil => simp at h
  | cons c t =>
    rcases h with h | h
    · cases h
      have hfirst : firstLine ('"' :: t) = '"' :: firstLine t := rfl
      refine ⟨?_, fun o y => ?_⟩
      · rw [hfirst]
        intro d hd
        cases hd
        decide
      · rw [hfirst, replaceAll_other _ (by decide)]
        rfl
    · cases h
      have hfirst : firstLine ('\n' :: t) = [] := rfl
      refine ⟨?_, fun o y => ?_⟩
      · rw [hfirst]
        exact fun d hd => absurd hd (by simp)
      · rw [hfirst]
        rfl

/-- **A string literal is what it was before the preprocessor exactly when no name in it is a macro
with another value.**  The comment pass leaves every literal in its place, whatever it has between
its quotes; on a line that is kept, with the names `o'`, its text is replaced like any other. -/
theorem literal_kept_iff (readFile : Text → Option Text) (depth : Nat) (o : PreProcessorOption)
    {str pre part post : Text} (h : LiteralPart o str pre part post) :
    (∃ before behind, textOf (applyPreProcessorComments o str) = before ++ (part ++ behind) ∧
      before.length = pre.length) ∧
    ∀ stripped o', applyPreProcessorComments o str = .ok stripped →
      (fates ⟨readFile, applyPreProcessor readFile depth⟩ [] o
        (bodies stripped))[pre.count '\n']? = some (some o') →
      (∃ behind, (applyPreProcessor readFile (depth + 1) o str).str =
        (applyPreProcessor readFile (depth + 1) o pre).str ++
          (contentAfter readFile (depth + 1) o pre part ++ behind) ∧
        behind.head? = post.head?) ∧
      (contentAfter readFile (depth + 1) o pre part = part ↔ Unaffected o' part) := by
  obtain ⟨pre', post', hblank, hhead, hlast, hpre, hpart, hstr⟩ := h.comments
  refine ⟨⟨pre', post', hstr, hblank.length_eq.symm⟩, ?_⟩
  intro stripped o' hok hkept
  rw [hok, textOf] at hstr
  obtain ⟨ls, u, hjoined, hls, hu, hlen⟩ := exists_joined pre'
  obtain ⟨v, tail, rfl, hv, htail, happart, hbehind⟩ := exists_behind (hhead ▸ h.post_head)
  have hline : '\n' ∉ u ++ (part ++ v) := by
    rw [List.mem_append, List.mem_append, not_or, not_or]
    exact ⟨hu, h.oneLine, hv⟩
  have hsplit : stripped = joined ls ++ ((u ++ (part ++ v)) ++ tail) := by
    rw [hstr, hjoined]
    simp only [List.append_assoc]
  have hulast : ∀ d ∈ u.getLast?, isIdentifierChar d = false := by
    intro d hd
    have hd' : pre'.getLast? = some d := by
      rw [hjoined, List.getLast?_append, hd]
      rfl
    rw [hd'] at hlast
    rcases hlast with hlast | hlast <;> cases hlast <;> decide
  have hne : (u ++ (part ++ v)) ++ tail ≠ [] := by
    intro hnil
    simp only [List.append_eq_nil_iff] at hnil
    obtain ⟨⟨-, -, rfl⟩, rfl⟩ := hnil
    have hpost := h.post_head
    rw [← hhead] at hpost
    simp at hpost
  rw [← count_blanked hblank, ← hlen, hsplit] at hkept
  obtain ⟨x, hcut, hall⟩ := processLines_kept ⟨readFile, applyPreProcessor readFile depth⟩ hline
    htail hne ls hls (LoopState.init o) rfl hkept
  obtain ⟨y, hy⟩ := hall _ (Nat.le_refl _)
  have hbefore := hcut u (part ++ v) _ rfl (Nat.le_refl _)
  have hupto := hcut (u ++ part) v _ (List.append_assoc _ _ _) (Nat.le_refl _)
  rw [← List.append_assoc, ← hjoined] at hupto
  rw [← hjoined] at hbefore
  rw [← hsplit] at hy
  have hafter : contentAfter readFile (depth + 1) o pre part = replaceAll o' part := by
    rw [contentAfter, applyPreProcessor_str readFile depth hpre,
      applyPreProcessor_str readFile depth hpart, runLines, runLines, hbefore, hupto,
      replaceAll_behind hulast]
    simp only [← List.append_assoc, List.drop_left]
  rw [hafter]
  refine ⟨⟨replaceAll o' v ++ (tail.take 1 ++ y), ?_, (hbehind o' y).trans hhead⟩,
    replaceAll_eq_iff⟩
  rw [applyPreProcessor_str readFile depth hpre, applyPreProcessor_str readFile depth hok,
    runLines, runLines, hbefore, hy, replaceAll_behind hulast, replaceAll_append part happart]
  simp only [List.append_assoc]

/-- A literal that holds a comment mark, an escaped quote and the name of a macro. -/
def quotedName : Text := "x = \"// \\\" A\";".toList

theorem quotedName_literal (o : PreProcessorOption) :
    LiteralPart o quotedName "x = \"".toList "// \\\" A".toList "\";".toList := by
  refine ⟨by decide, by decide, "x = ".toList, [], [], ";".toList, by decide, by decide, ?_, ?_,
    .inl rfl, .inl rfl⟩
  · have htail : Inside " A".toList := .char_append " A".toList (by simp) .nil
    exact .char_append "// ".toList (by simp) (.escape '"' htail)
  · exact .of_plain (by simp)

/-- The name in the literal is replaced. -/
theorem quotedName_replaced :
    let o : PreProcessorOption := ⟨[("A".toList, "b".toList)], true, false⟩
    LiteralPart o quotedName "x = \"".toList "// \\\" A".toList "\";".toList ∧
      applyPreProcessorComments o quotedName = .ok quotedName ∧
      fates ⟨fun _ => none, applyPreProcessor (fun _ => none) 8⟩ [] o (bodies quotedName) =
        [some o] ∧
      (applyPreProcessor (fun _ => none) 9 o quotedName).ok = true ∧
      (applyPreProcessor (fun _ => none) 9 o quotedName).str = "x = \"// \\\" b\";".toList ∧
      contentAfter (fun _ => none) 9 o "x = \"".toList "// \\\" A".toList ≠
        "// \\\" A".toList := by
  intro o
  exact ⟨quotedName_literal o, by decide +kernel⟩

/-- With another macro the literal is left alone. -/
theorem quotedName_unaffected :
    let o : PreProcessorOption := ⟨[("B".toList, "b".toList)], true, false⟩
    contentAfter (fun _ => none) 9 o "x = \"".toList "// \\\" A".toList = "// \\\" A".toList := by
  intro o
  have h := (literal_kept_iff (fun _ => none) 8 o (quotedName_literal o)).2 quotedName o
    (by decide +kernel) (by decide +kernel)
  exact h.2.mpr (by decide +kernel)

end Acts.Preprocessor
