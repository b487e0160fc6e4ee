import Mathlib.Algebra.Group.Int.Defs
import Mathlib.Algebra.Group.Nat.Defs
import Mathlib.Algebra.GroupWithZero.Nat
import Mathlib.Tactic.Common

/-!
# JSON texts

A text is a list of bytes.

* `plainChar`, `escape`, `stringBody` — the characters of a string, in UTF-8, and its escapes.
* `lex` — the tokens of a text.
* `Json`, `tokens`, `ParsesAs` — values, the tokens of a value, and the texts of a value.
* `Clean` — the byte strings that stand for themselves between two quotes.
* `stringBody_iff` — **a string that stands between quotes as it is reads as itself exactly if it
  is clean.**
* `Lexes` — when a text gives some tokens in front of any other text, with its rules.
-/

set_option autoImplicit false

namespace Acts.JsonText

/-! ## Strings -/

def quote : UInt8 := 0x22

def backslash : UInt8 := 0x5C

def isContinuation (c : UInt8) : Bool := 0x80 ≤ c && c ≤ 0xBF

/-- For the first byte of a character, the range of the second one, and how many follow it. -/
def follow (c : UInt8) : Option (UInt8 × UInt8 × Nat) :=
  if 0xC2 ≤ c ∧ c ≤ 0xDF then some (0x80, 0xBF, 1)
  else if c = 0xE0 then some (0xA0, 0xBF, 2)
  else if c = 0xED then some (0x80, 0x9F, 2)
  else if 0xE1 ≤ c ∧ c ≤ 0xEF then some (0x80, 0xBF, 2)
  else if c = 0xF0 then some (0x90, 0xBF, 3)
  else if 0xF1 ≤ c ∧ c ≤ 0xF3 then some (0x80, 0xBF, 3)
  else if c = 0xF4 then some (0x80, 0x8F, 3)
  else none

/-- The bytes of a character behind its first one. -/
def isTail (low high : UInt8) (n : Nat) (t : List UInt8) : Bool :=
  t.length == n && t.all isContinuation && t.head?.any fun d => low ≤ d && d ≤ high

/-- A character that stands for itself, with the number of its bytes behind the first one. -/
def plainChar (c : UInt8) (rest : List UInt8) : Option Nat :=
  if c < 0x80 then if 0x20 ≤ c ∧ c ≠ quote ∧ c ≠ backslash then some 0 else none
  else (follow c).bind fun f => if isTail f.1 f.2.1 f.2.2 (rest.take f.2.2) then some f.2.2 else none

def hexVal (c : UInt8) : Option Nat :=
  if 0x30 ≤ c ∧ c ≤ 0x39 then some (c.toNat - 0x30)
  else if 0x41 ≤ c ∧ c ≤ 0x46 then some (c.toNat - 0x37)
  else if 0x61 ≤ c ∧ c ≤ 0x66 then some (c.toNat - 0x57)
  else none

/-- Four hexadecimal digits. -/
def hex4 : List UInt8 → Option Nat
  | a :: b :: c :: d :: _ => do
    let a ← hexVal a
    let b ← hexVal b
    let c ← hexVal c
    let d ← hexVal d
    return ((a * 16 + b) * 16 + c) * 16 + d
  | _ => none

def utf8 (v : Nat) : List UInt8 :=
  if v < 0x80 then [UInt8.ofNat v]
  else if v < 0x800 then [UInt8.ofNat (0xC0 + v / 0x40), UInt8.ofNat (0x80 + v % 0x40)]
  else if v < 0x10000 then [UInt8.ofNat (0xE0 + v / 0x1000),
    UInt8.ofNat (0x80 + v / 0x40 % 0x40), UInt8.ofNat (0x80 + v % 0x40)]
  else [UInt8.ofNat (0xF0 + v / 0x40000), UInt8.ofNat (0x80 + v / 0x1000 % 0x40),
    UInt8.ofNat (0x80 + v / 0x40 % 0x40), UInt8.ofNat (0x80 + v % 0x40)]

/-- The escapes of one letter. -/
def simpleEscape (c : UInt8) : Option UInt8 :=
  if c = quote ∨ c = backslash ∨ c = 0x2F then some c
  else if c = 0x62 then some 8
  else if c = 0x66 then some 12
  else if c = 0x6E then some 10
  else if c = 0x72 then some 13
  else if c = 0x74 then some 9
  else none

/-- What an escape stands for, and the number of its bytes behind the backslash. -/
def escape (text : List UInt8) : Option (List UInt8 × Nat) :=
  match text with
  | [] => none
  | c :: rest =>
    if c = 0x75 then
      match hex4 rest with
      | none => none
      | some v =>
        if 0xD800 ≤ v ∧ v < 0xDC00 then
          if (rest.drop 4).take 2 = [backslash, 0x75] then
            match hex4 (rest.drop 6) with
            | none => none
            | some w =>
              if 0xDC00 ≤ w ∧ w < 0xE000 then
                some (utf8 (0x10000 + 0x400 * (v - 0xD800) + (w - 0xDC00)), 11)
              else none
          else none
        else if 0xDC00 ≤ v ∧ v < 0xE000 then none
        else some (utf8 v, 5)
    else (simpleEscape c).map fun b => ([b], 1)

/-- A character of a string. -/
def unit (c : UInt8) (rest : List UInt8) : Option (List UInt8 × Nat) :=
  if c = backslash then escape rest else (plainChar c rest).map fun n => (c :: rest.take n, n)

/-- The string behind an opening quote, and the number of bytes up to the closing one. -/
def stringBody (text : List UInt8) : Option (List UInt8 × Nat) :=
  match text with
  | [] => none
  | c :: rest =>
    if c = quote then some ([], 1)
    else
      match unit c rest with
      | none => none
      | some (d, n) => (stringBody (rest.drop n)).map fun r => (d ++ r.1, 1 + n + r.2)
termination_by text.length
decreasing_by
  rw [List.length_drop, List.length_cons]
  omega

/-- A byte string of characters that stand for themselves. -/
inductive Clean : List UInt8 → Prop
  | nil : Clean []
  | char {c : UInt8} {rest : List UInt8} {n : Nat} (h : plainChar c rest = some n)
    (hrest : Clean (rest.drop n)) : Clean (c :: rest)

/-- The two kinds of characters that stand for themselves. -/
theorem plainChar_cases {c : UInt8} {rest : List UInt8} {n : Nat} (h : plainChar c rest = some n) :
    (c < 0x80 ∧ (0x20 ≤ c ∧ c ≠ quote ∧ c ≠ backslash) ∧ n = 0) ∨
      (¬c < 0x80 ∧ ∃ low high, follow c = some (low, high, n) ∧
        isTail low high n (rest.take n) = true) := by
  unfold plainChar at h
  split at h
  · rename_i hc
    split at h
    · rename_i hplain
      exact .inl ⟨hc, hplain, (Option.some.inj h).symm⟩
    · cases h
  · rename_i hc
    obtain ⟨⟨low, high, k⟩, hfollow, h⟩ := Option.bind_eq_some_iff.mp h
    split at h
    · rename_i htail
      obtain rfl : k = n := Option.some.inj h
      exact .inr ⟨hc, low, high, hfollow, htail⟩
    · cases h

/-- What a character of a string reads, up to its closing quote. -/
theorem plainChar_take {c : UInt8} {rest : List UInt8} {n : Nat} (h : plainChar c rest = some n) :
    c ≠ quote ∧ c ≠ backslash ∧ (rest.take n).length = n ∧ quote ∉ rest.take n := by
  rcases plainChar_cases h with ⟨-, hc, rfl⟩ | ⟨hbig, low, high, -, htail⟩
  · exact ⟨hc.2.1, hc.2.2, rfl, List.not_mem_nil⟩
  · simp only [isTail, Bool.and_eq_true, beq_iff_eq] at htail
    refine ⟨?_, ?_, htail.1.1, fun hq => ?_⟩
    · rintro rfl
      exact hbig (by decide)
    · rintro rfl
      exact hbig (by decide)
    · exact absurd (List.all_eq_true.mp htail.1.2 quote hq) (by decide)

/-- A character only depends on its own bytes. -/
theorem plainChar_congr {c : UInt8} {rest rest' : List UInt8} {n : Nat}
    (h : plainChar c rest = some n) (htake : rest.take n = rest'.take n) :
    plainChar c rest' = some n := by
  unfold plainChar
  rcases plainChar_cases h with ⟨hc, hplain, rfl⟩ | ⟨hc, low, high, hfollow, htail⟩
  · rw [if_pos hc, if_pos hplain]
  · rw [if_neg hc, hfollow, Option.bind_some, ← htake, if_pos htail]

theorem take_of_quote {t rest : List UInt8} {n : Nat} (hq : quote ∉ (t ++ quote :: rest).take n) :
    n ≤ t.length := by
  by_contra hlt
  apply hq
  obtain ⟨k, rfl⟩ : ∃ k, n = t.length + (k + 1) := ⟨n - t.length - 1, by omega⟩
  rw [List.take_length_add_append, List.take_succ_cons]
  exact List.mem_append_right _ List.mem_cons_self

/-- A clean string has no control characters. -/
theorem Clean.control {t : List UInt8} (h : Clean t) : ∀ c ∈ t, 0x20 ≤ c := by
  induction h with
  | nil => exact fun c hc => by cases hc
  | @char c rest n hplain _ ih =>
    have hfirst : 0x20 ≤ c ∧ ∀ d ∈ rest.take n, 0x20 ≤ d := by
      rcases plainChar_cases hplain with ⟨-, hc, rfl⟩ | ⟨hbig, low, high, -, htail⟩
      · exact ⟨hc.1, fun d hd => absurd hd List.not_mem_nil⟩
      · simp only [isTail, Bool.and_eq_true] at htail
        refine ⟨UInt8.le_trans (by decide) (UInt8.not_lt.mp hbig), fun d hd => ?_⟩
        have hd := List.all_eq_true.mp htail.1.2 d hd
        simp only [isContinuation, Bool.and_eq_true, decide_eq_true_eq] at hd
        exact UInt8.le_trans (by decide) hd.1
    intro d hd
    rcases List.mem_cons.mp hd with rfl | hd
    · exact hfirst.1
    · rw [← List.take_append_drop n rest] at hd
      rcases List.mem_append.mp hd with hd | hd
      · exact hfirst.2 d hd
      · exact ih d hd

theorem length_utf8 (v : Nat) : (utf8 v).length ≤ 4 := by
  unfold utf8
  split
  · exact Nat.le_add_left 1 3
  split
  · exact Nat.le_add_left 2 2
  split
  · exact Nat.le_add_left 3 1
  · exact Nat.le_refl 4

theorem hexVal_ne_quote {c : UInt8} {v : Nat} (h : hexVal c = some v) : c ≠ quote := by
  rintro rfl
  have hnone : hexVal quote = none := by decide
  rw [hnone] at h
  cases h

/-- Four digits are no quotes. -/
theorem quote_of_hex4 {text : List UInt8} {v : Nat} (h : hex4 text = some v) :
    quote ∉ text.take 4 := by
  rcases text with _ | ⟨a, _ | ⟨b, _ | ⟨c, _ | ⟨d, text⟩⟩⟩⟩
  · cases h
  · cases h
  · cases h
  · cases h
  · simp only [hex4, Option.bind_eq_bind, Option.bind_eq_some_iff] at h
    obtain ⟨va, ha, vb, hb, vc, hc, vd, hd, -⟩ := h
    simp [(hexVal_ne_quote ha).symm, (hexVal_ne_quote hb).symm, (hexVal_ne_quote hc).symm,
      (hexVal_ne_quote hd).symm]

/-- Two escapes that stand for one character are no quotes. -/
theorem quote_of_pair {rest : List UInt8} {v w : Nat} (hv : hex4 rest = some v)
    (hsecond : (rest.drop 4).take 2 = [backslash, 0x75]) (hw : hex4 (rest.drop 6) = some w) :
    quote ∉ rest.take 10 := by
  have hsplit : rest.take 10 = rest.take 4 ++ ((rest.drop 4).take 2 ++ (rest.drop 6).take 4) := by
    rw [show rest.drop 6 = (rest.drop 4).drop 2 by rw [List.drop_drop], ← List.take_add,
      ← List.take_add]
  rw [hsplit, hsecond]
  intro hmem
  rcases List.mem_append.mp hmem with hmem | hmem
  · exact quote_of_hex4 hv hmem
  · rcases List.mem_append.mp hmem with hmem | hmem
    · exact absurd hmem (by decide)
    · exact quote_of_hex4 hw hmem

/-- An escape is longer than what it stands for, and holds a quote only to stand for it. -/
theorem escape_spec {text : List UInt8} {d : List UInt8} {n : Nat}
    (h : escape text = some (d, n)) :
    d.length ≤ n ∧ (quote ∈ text.take n → d = [quote]) := by
  cases text with
  | nil => cases h
  | cons c rest =>
    unfold escape at h
    simp only at h
    split at h
    · rename_i hc
      have hu : quote ≠ c := by
        rw [hc]
        decide
      cases hv : hex4 rest with
      | none =>
        rw [hv] at h
        cases h
      | some v =>
        rw [hv] at h
        simp only at h
        split at h
        · split at h
          · rename_i hsecond
            cases hw : hex4 (rest.drop 6) with
            | none =>
              rw [hw] at h
              cases h
            | some w =>
              rw [hw] at h
              simp only at h
              split at h
              · obtain ⟨hd, hn⟩ := Prod.mk.inj (Option.some.inj h)
                have hlen := length_utf8 (0x10000 + 0x400 * (v - 0xD800) + (w - 0xDC00))
                rw [hd] at hlen
                subst hn
                refine ⟨by omega, fun hmem => absurd hmem ?_⟩
                rw [List.take_succ_cons, List.mem_cons, not_or]
                exact ⟨hu, quote_of_pair hv hsecond hw⟩
              · cases h
          · cases h
        · split at h
          · cases h
          · obtain ⟨hd, hn⟩ := Prod.mk.inj (Option.some.inj h)
            have hlen := length_utf8 v
            rw [hd] at hlen
            subst hn
            refine ⟨by omega, fun hmem => absurd hmem ?_⟩
            rw [List.take_succ_cons, List.mem_cons, not_or]
            exact ⟨hu, quote_of_hex4 hv⟩
    · obtain ⟨b, hb, hd⟩ := Option.map_eq_some_iff.mp h
      cases hd
      refine ⟨Nat.le_refl 1, fun hmem => ?_⟩
      have hcq : quote = c := by simpa using hmem
      subst hcq
      have hbq : some quote = some b := hb
      rw [← Option.some.inj hbq]

theorem stringBody_quote (rest : List UInt8) : stringBody (quote :: rest) = some ([], 1) := by
  rw [stringBody, if_pos rfl]

theorem stringBody_cons {c : UInt8} (hc : c ≠ quote) (rest : List UInt8) :
    stringBody (c :: rest) = (unit c rest).bind fun u =>
      (stringBody (rest.drop u.2)).map fun r => (u.1 ++ r.1, 1 + u.2 + r.2) := by
  rw [stringBody, if_neg hc]
  cases unit c rest <;> rfl

/-- A clean string reads as itself. -/
theorem stringBody_clean {t : List UInt8} (h : Clean t) (rest : List UInt8) :
    stringBody (t ++ quote :: rest) = some (t, t.length + 1) := by
  induction h with
  | nil => exact stringBody_quote rest
  | @char c t n hplain hrest ih =>
    obtain ⟨hquote, hback, hlen, -⟩ := plainChar_take hplain
    have hn : n ≤ t.length := by
      rw [List.length_take] at hlen
      omega
    have htake : (t ++ quote :: rest).take n = t.take n := List.take_append_of_le_length hn
    have hunit : unit c (t ++ quote :: rest) = some (c :: t.take n, n) := by
      unfold unit
      rw [if_neg hback, plainChar_congr hplain htake.symm, Option.map_some, htake]
    rw [List.cons_append, stringBody_cons hquote, hunit, Option.bind_some,
      List.drop_append_of_le_length hn, ih, Option.map_some]
    simp only [List.cons_append, List.take_append_drop, List.length_drop, List.length_cons]
    rw [show 1 + n + (t.length - n + 1) = t.length + 1 + 1 by omega]

/-- What an unclean string reads as departs from it, and so it does where `p` is still left to
be read in front of it: escapes are longer than what they stand for. -/
theorem not_prefix_of_body {p y rest w : List UInt8} {k : Nat}
    (h : stringBody (y ++ quote :: rest) = some (w, k)) (hp : quote ∉ p)
    (hy : p ≠ [] ∨ ¬Clean y) : ¬p ++ y <+: w := by
  induction hn : y.length using Nat.strongRecOn generalizing p y w k with
  | ind m ih =>
    subst hn
    intro hpre
    cases y with
    | nil =>
      rw [List.nil_append, stringBody_quote] at h
      cases h
      rw [List.append_nil] at hpre
      exact hy.elim (fun hne => hne (List.prefix_nil.mp hpre)) fun hc => hc .nil
    | cons c t =>
      rw [List.cons_append] at h
      by_cases hc : c = quote
      · subst hc
        rw [stringBody_quote] at h
        cases h
        exact absurd (List.prefix_nil.mp hpre) (by simp)
      · rw [stringBody_cons hc] at h
        obtain ⟨⟨d, n⟩, hunit, h⟩ := Option.bind_eq_some_iff.mp h
        obtain ⟨⟨w', k'⟩, hbody, h⟩ := Option.map_eq_some_iff.mp h
        obtain ⟨hw, -⟩ := Prod.mk.inj h
        dsimp only at hbody hw
        subst hw
        have hstep : n ≤ t.length → quote ∉ t.take n → d.length ≤ n + 1 →
            ((p ++ c :: t.take n).drop d.length ≠ [] ∨ ¬Clean (t.drop n)) → False := by
          intro hle hq hd hy'
          rw [List.drop_append_of_le_length hle] at hbody
          refine ih (t.drop n).length (by rw [List.length_drop, List.length_cons]; omega) hbody
            (fun hmem => ?_) hy' rfl ?_
          · rcases List.mem_append.mp (List.mem_of_mem_drop hmem) with hmem | hmem
            · exact hp hmem
            · rcases List.mem_cons.mp hmem with hmem | hmem
              · exact hc hmem.symm
              · exact hq hmem
          · have hsplit : p ++ c :: t = (p ++ c :: t.take n) ++ t.drop n := by simp
            rw [hsplit] at hpre
            obtain ⟨u, hu⟩ := hpre
            have hdrop := congrArg (List.drop d.length) hu
            rw [List.drop_left, List.append_assoc,
              List.drop_append_of_le_length (by simp; omega), ← List.append_assoc] at hdrop
            exact ⟨u, hdrop⟩
        unfold unit at hunit
        split at hunit
        · rename_i hback
          obtain ⟨hd, hquote⟩ := escape_spec hunit
          by_cases hmem : quote ∈ (t ++ quote :: rest).take n
          · obtain rfl := hquote hmem
            cases p with
            | nil => exact hc (List.cons_prefix_cons.mp hpre).1
            | cons x p =>
              exact hp ((List.cons_prefix_cons.mp hpre).1 ▸ List.mem_cons_self)
          · have hle := take_of_quote hmem
            rw [List.take_append_of_le_length hle] at hmem
            refine hstep hle hmem (by omega) (.inl fun hnil => ?_)
            have hlen := congrArg List.length hnil
            simp at hlen
            omega
        · obtain ⟨j, hplain, heq⟩ := Option.map_eq_some_iff.mp hunit
          obtain ⟨hd, rfl⟩ := Prod.mk.inj heq
          obtain ⟨-, -, hlen, hmem⟩ := plainChar_take hplain
          have hle := take_of_quote hmem
          have htake : (t ++ quote :: rest).take j = t.take j := List.take_append_of_le_length hle
          rw [htake] at hmem hlen hd
          subst hd
          refine hstep hle hmem (by rw [List.length_cons, List.length_take]; omega) ?_
          rcases hy with hne | hclean
          · exact .inl fun hnil => hne (by simpa using congrArg List.length hnil)
          · exact .inr fun hrest => hclean (.char (plainChar_congr hplain htake) hrest)

/-- **A string that stands between quotes as it is reads as itself exactly if it is clean.** -/
theorem stringBody_iff {t s rest : List UInt8} {k : Nat} (hts : t <+: s) :
    stringBody (t ++ quote :: rest) = some (s, k) ↔ Clean t ∧ s = t ∧ k = t.length + 1 := by
  constructor
  · intro h
    by_cases hclean : Clean t
    · rw [stringBody_clean hclean] at h
      obtain ⟨hs, hk⟩ := Prod.mk.inj (Option.some.inj h)
      exact ⟨hclean, hs.symm, hk.symm⟩
    · exact absurd hts (not_prefix_of_body (p := []) h List.not_mem_nil (.inr hclean))
  · rintro ⟨hclean, rfl, rfl⟩
    exact stringBody_clean hclean rest

/-! ## Tokens -/

inductive Token
  | punct (c : UInt8)
  | string (s : List UInt8)
  | scalar (text : List UInt8)

def isSpace (c : UInt8) : Bool := c == 0x20 || c == 0x09 || c == 0x0A || c == 0x0D

/-- Brackets, braces, colon and comma. -/
def isPunct (c : UInt8) : Bool :=
  c == 0x5B || c == 0x5D || c == 0x7B || c == 0x7D || c == 0x3A || c == 0x2C

def isDigit (c : UInt8) : Bool := 0x30 ≤ c && c ≤ 0x39

/-- The characters of numbers and names. -/
def isScalarChar (c : UInt8) : Bool :=
  isDigit c || (0x41 ≤ c && c ≤ 0x5A) || (0x61 ≤ c && c ≤ 0x7A) || c == 0x2B || c == 0x2D ||
    c == 0x2E

def isDigits (t : List UInt8) : Bool := !t.isEmpty && t.all isDigit

/-- The exponent of a number, or nothing. -/
def isExponent : List UInt8 → Bool
  | [] => true
  | e :: t =>
    (e == 0x65 || e == 0x45) &&
      match t with
      | [] => false
      | sign :: t => if sign = 0x2B ∨ sign = 0x2D then isDigits t else isDigits (sign :: t)

/-- What follows the integer part of a number. -/
def isFraction : List UInt8 → Bool
  | [] => true
  | dot :: t =>
    if dot = 0x2E then
      isDigits (t.takeWhile isDigit) && isExponent (t.dropWhile isDigit)
    else isExponent (dot :: t)

def isUnsigned : List UInt8 → Bool
  | [] => false
  | c :: t =>
    if c = 0x30 then isFraction t else isDigit c && isFraction (t.dropWhile isDigit)

def isNumber : List UInt8 → Bool
  | [] => false
  | c :: t => if c = 0x2D then isUnsigned t else isUnsigned (c :: t)

def nullText : List UInt8 := [0x6E, 0x75, 0x6C, 0x6C]

def trueText : List UInt8 := [0x74, 0x72, 0x75, 0x65]

def falseText : List UInt8 := [0x66, 0x61, 0x6C, 0x73, 0x65]

def isScalar (t : List UInt8) : Bool := t == nullText || t == trueText || t == falseText || isNumber t

def lex (text : List UInt8) : Option (List Token) :=
  match text with
  | [] => some []
  | c :: rest =>
    if isSpace c then lex rest
    else if isPunct c then (lex rest).map (.punct c :: ·)
    else if c = quote then
      match stringBody rest with
      | none => none
      | some (s, n) => (lex (rest.drop n)).map (.string s :: ·)
    else
      let scalar := c :: rest.takeWhile isScalarChar
      if isScalar scalar then
        (lex (rest.drop (rest.takeWhile isScalarChar).length)).map (.scalar scalar :: ·)
      else none
termination_by text.length
decreasing_by
  all_goals
    simp only [List.length_cons, List.length_drop]
    omega

/-! ## Values -/

inductive Json
  | scalar (text : List UInt8)
  | string (s : List UInt8)
  | array (elems : List Json)
  | object (fields : List (List UInt8 × Json))

mutual

/-- The tokens of a value. -/
def tokens : Json → List Token
  | .scalar text => [.scalar text]
  | .string s => [.string s]
  | .array elems => .punct 0x5B :: (elemTokens true elems ++ [.punct 0x5D])
  | .object fields => .punct 0x7B :: (fieldTokens true fields ++ [.punct 0x7D])

/-- The tokens of elements, with commas in front of all but the first. -/
def elemTokens (first : Bool) : List Json → List Token
  | [] => []
  | e :: elems => (if first then [] else [.punct 0x2C]) ++ tokens e ++ elemTokens false elems

def fieldTokens (first : Bool) : List (List UInt8 × Json) → List Token
  | [] => []
  | (name, e) :: fields =>
    (if first then [] else [.punct 0x2C]) ++ [.string name, .punct 0x3A] ++ tokens e ++
      fieldTokens false fields

end

/-- The text is one of the value, and of no other one. -/
def ParsesAs (text : List UInt8) (v : Json) : Prop := ∀ u, lex text = some (tokens u) ↔ u = v

/-- A value starts with no closing bracket and no comma. -/
theorem tokens_head (v : Json) : ∃ t ts, tokens v = t :: ts ∧
    ∀ c, t = .punct c → c = 0x5B ∨ c = 0x7B := by
  cases v with
  | scalar text => exact ⟨_, _, by rw [tokens], fun c h => by cases h⟩
  | string s => exact ⟨_, _, by rw [tokens], fun c h => by cases h⟩
  | array elems => exact ⟨_, _, by rw [tokens], fun c h => by cases h; exact .inl rfl⟩
  | object fields => exact ⟨_, _, by rw [tokens], fun c h => by cases h; exact .inr rfl⟩

mutual

/-- The tokens in front of others determine the value. -/
theorem tokens_inj : (u v : Json) → {r r' : List Token} → tokens u ++ r = tokens v ++ r' →
    u = v ∧ r = r'
  | .scalar text, v, r, r', h => by
    cases v <;> simp_all [tokens]
  | .string s, v, r, r', h => by
    cases v <;> simp_all [tokens]
  | .array elems, v, r, r', h => by
    cases v with
    | array elems' =>
      simp only [tokens, List.cons_append, List.cons.injEq, true_and, List.append_assoc,
        List.nil_append] at h
      obtain ⟨he, hr⟩ := elemTokens_inj true elems elems' h
      exact ⟨he ▸ rfl, hr⟩
    | _ => simp [tokens] at h
  | .object fields, v, r, r', h => by
    cases v with
    | object fields' =>
      simp only [tokens, List.cons_append, List.cons.injEq, true_and, List.append_assoc,
        List.nil_append] at h
      obtain ⟨he, hr⟩ := fieldTokens_inj true fields fields' h
      exact ⟨he ▸ rfl, hr⟩
    | _ => simp [tokens] at h

theorem elemTokens_inj : (first : Bool) → (es es' : List Json) → {r r' : List Token} →
    elemTokens first es ++ .punct 0x5D :: r = elemTokens first es' ++ .punct 0x5D :: r' →
    es = es' ∧ r = r'
  | first, [], [], r, r', h => by simpa [elemTokens] using h
  | first, [], e' :: es', r, r', h => by
    obtain ⟨t, ts, ht, hne⟩ := tokens_head e'
    cases first with
    | false => simp [elemTokens] at h
    | true =>
      simp [elemTokens, ht] at h
      exact absurd (hne _ h.1.symm) (by decide)
  | first, e :: es, [], r, r', h => by
    obtain ⟨t, ts, ht, hne⟩ := tokens_head e
    cases first with
    | false => simp [elemTokens] at h
    | true =>
      simp [elemTokens, ht] at h
      exact absurd (hne _ h.1) (by decide)
  | first, e :: es, e' :: es', r, r', h => by
    simp only [elemTokens, List.append_assoc, List.append_cancel_left_eq] at h
    obtain ⟨rfl, hrest⟩ := tokens_inj e e' h
    obtain ⟨rfl, hr⟩ := elemTokens_inj false es es' hrest
    exact ⟨rfl, hr⟩

theorem fieldTokens_inj : (first : Bool) → (fs fs' : List (List UInt8 × Json)) →
    {r r' : List Token} →
    fieldTokens first fs ++ .punct 0x7D :: r = fieldTokens first fs' ++ .punct 0x7D :: r' →
    fs = fs' ∧ r = r'
  | first, [], [], r, r', h => by simpa [fieldTokens] using h
  | first, [], (name', e') :: fs', r, r', h => by
    cases first <;> simp [fieldTokens] at h
  | first, (name, e) :: fs, [], r, r', h => by
    cases first <;> simp [fieldTokens] at h
  | first, (name, e) :: fs, (name', e') :: fs', r, r', h => by
    simp only [fieldTokens, List.append_assoc, List.append_cancel_left_eq, List.cons_append,
      List.nil_append, List.cons.injEq, Token.string.injEq, true_and] at h
    obtain ⟨rfl, hrest⟩ := tokens_inj e e' h.2
    obtain ⟨rfl, hr⟩ := fieldTokens_inj false fs fs' hrest
    exact ⟨by rw [h.1], hr⟩

end

theorem parsesAs_iff {text : List UInt8} {v : Json} :
    ParsesAs text v ↔ lex text = some (tokens v) := by
  constructor
  · intro h
    exact (h v).mpr rfl
  · intro h u
    rw [h]
    constructor
    · intro heq
      have heq := congrArg (· ++ []) (Option.some.inj heq)
      exact (tokens_inj v u heq).1.symm
    · rintro rfl
      rfl

/-! ## Rules for tokens -/

/-- In front of any text the text gives the tokens, exactly if `C` holds. -/
def LexesAny (text : List UInt8) (ts : List Token) (C : Prop) : Prop :=
  ∀ rest ts', lex (text ++ rest) = some (ts ++ ts') ↔ C ∧ lex rest = some ts'

/-- The next character is none of a scalar. -/
def Delim (rest : List UInt8) : Prop := ∀ c t, rest = c :: t → isScalarChar c = false

/-- The same in front of a text with which a scalar ends. -/
def Lexes (text : List UInt8) (ts : List Token) (C : Prop) : Prop :=
  ∀ rest ts', Delim rest → (lex (text ++ rest) = some (ts ++ ts') ↔ C ∧ lex rest = some ts')

section Rules

variable {a b : List UInt8} {ta tb : List Token} {C D : Prop}

theorem LexesAny.lexes (h : LexesAny a ta C) : Lexes a ta C := fun rest ts' _ => h rest ts'

theorem LexesAny.congr (h : LexesAny a ta C) (hC : C ↔ D) : LexesAny a ta D := by
  rwa [← propext hC]

theorem Lexes.congr (h : Lexes a ta C) (hC : C ↔ D) : Lexes a ta D := by
  rwa [← propext hC]

theorem LexesAny.append (ha : LexesAny a ta C) (hb : LexesAny b tb D) :
    LexesAny (a ++ b) (ta ++ tb) (C ∧ D) := by
  intro rest ts'
  rw [List.append_assoc, List.append_assoc, ha, hb, and_assoc]

theorem LexesAny.append_lexes (ha : LexesAny a ta C) (hb : Lexes b tb D) :
    Lexes (a ++ b) (ta ++ tb) (C ∧ D) := by
  intro rest ts' hrest
  rw [List.append_assoc, List.append_assoc, ha, hb _ _ hrest, and_assoc]

theorem Lexes.append (ha : Lexes a ta C) (hb : LexesAny b tb D)
    (hdelim : ∀ rest, Delim (b ++ rest)) : LexesAny (a ++ b) (ta ++ tb) (C ∧ D) := by
  intro rest ts'
  rw [List.append_assoc, List.append_assoc, ha _ _ (hdelim rest), hb, and_assoc]

theorem lexesAny_nil : LexesAny [] [] True := fun rest ts' => by simp

theorem delim_nil : Delim [] := fun c t h => by cases h

theorem delim_cons {c : UInt8} (h : isScalarChar c = false) (rest : List UInt8) :
    Delim (c :: rest) := fun c' t heq => by cases heq; exact h

/-- A whole text. -/
theorem Lexes.whole (h : Lexes a ta C) : lex a = some ta ↔ C := by
  have hnil := h [] [] delim_nil
  rw [List.append_nil, List.append_nil] at hnil
  rw [hnil]
  simp [lex]

theorem lex_space {c : UInt8} (hc : isSpace c = true) (rest : List UInt8) :
    lex (c :: rest) = lex rest := by
  rw [lex, if_pos hc]

theorem lex_punct {c : UInt8} (hc : isPunct c = true) (rest : List UInt8) :
    lex (c :: rest) = (lex rest).map (.punct c :: ·) := by
  have hspace : isSpace c = false := by
    simp only [isPunct, Bool.or_eq_true, beq_iff_eq] at hc
    rcases hc with ((((rfl | rfl) | rfl) | rfl) | rfl) | rfl <;> decide
  rw [lex, hspace, if_neg Bool.false_ne_true, if_pos hc]

theorem lex_quote (rest : List UInt8) : lex (quote :: rest) =
    (stringBody rest).bind fun r => (lex (rest.drop r.2)).map (.string r.1 :: ·) := by
  have hspace : isSpace quote = false := by decide
  have hpunct : isPunct quote = false := by decide
  rw [lex, hspace, hpunct, if_neg Bool.false_ne_true, if_neg Bool.false_ne_true, if_pos rfl]
  cases stringBody rest <;> rfl

/-- A character of a scalar is none of the others. -/
theorem scalarChar_ne {c : UInt8} (hc : isScalarChar c = true) :
    isSpace c = false ∧ isPunct c = false ∧ c ≠ quote := by
  have hall : ∀ n : Fin 256, isScalarChar (UInt8.ofNat n) = true →
      (isSpace (UInt8.ofNat n) || isPunct (UInt8.ofNat n) || UInt8.ofNat n == quote) = false := by
    decide +kernel
  have h := hall ⟨c.toNat, c.toNat_lt⟩
  rw [UInt8.ofNat_toNat] at h
  have h := h hc
  simp only [Bool.or_eq_false_iff, beq_eq_false_iff_ne] at h
  exact ⟨h.1.1, h.1.2, h.2⟩

theorem lexesAny_space {c : UInt8} (hc : isSpace c = true) : LexesAny [c] [] True := by
  intro rest ts'
  rw [List.singleton_append, lex_space hc]
  simp

theorem lexesAny_spaces {t : List UInt8} (h : ∀ c ∈ t, isSpace c = true) :
    LexesAny t [] True := by
  induction t with
  | nil => exact lexesAny_nil
  | cons c t ih =>
    have hrest := ih fun d hd => h d (List.mem_cons_of_mem _ hd)
    exact ((lexesAny_space (h c List.mem_cons_self)).append hrest).congr (and_iff_right trivial)

theorem lexesAny_punct {c : UInt8} (hc : isPunct c = true) :
    LexesAny [c] [.punct c] True := by
  intro rest ts'
  rw [List.singleton_append, lex_punct hc]
  simp

/-- A string between quotes. -/
theorem lexesAny_string {t s : List UInt8} (hts : t <+: s) :
    LexesAny (quote :: t ++ [quote]) [.string s] (Clean t ∧ s = t) := by
  intro rest ts'
  have htext : quote :: t ++ [quote] ++ rest = quote :: (t ++ quote :: rest) := by simp
  rw [htext, lex_quote]
  constructor
  · intro h
    obtain ⟨⟨s', k⟩, hbody, h⟩ := Option.bind_eq_some_iff.mp h
    obtain ⟨ts, hlex, heq⟩ := Option.map_eq_some_iff.mp h
    obtain ⟨hs, rfl⟩ : s' = s ∧ ts = ts' := by simpa using heq
    subst hs
    obtain ⟨hclean, rfl, rfl⟩ := (stringBody_iff hts).mp hbody
    have hdrop : (s' ++ quote :: rest).drop (s'.length + 1) = rest := by simp [List.drop_append]
    dsimp only at hlex
    rw [hdrop] at hlex
    exact ⟨⟨hclean, rfl⟩, hlex⟩
  · rintro ⟨⟨hclean, rfl⟩, hlex⟩
    have hdrop : (s ++ quote :: rest).drop (s.length + 1) = rest := by simp [List.drop_append]
    rw [stringBody_clean hclean, Option.bind_some, hdrop, hlex]
    rfl

theorem isDigit_scalar {c : UInt8} (h : isDigit c = true) : isScalarChar c = true := by
  simp [isScalarChar, h]

theorem all_scalar_of_digits {t : List UInt8} (h : isDigits t = true) :
    t.all isScalarChar = true := by
  simp only [isDigits, Bool.and_eq_true, List.all_eq_true] at h ⊢
  exact fun c hc => isDigit_scalar (h.2 c hc)

theorem all_scalar_takeWhile (t : List UInt8) :
    (t.takeWhile isDigit).all isScalarChar = true := by
  have hall : (t.takeWhile isDigit).all isDigit = true := List.all_takeWhile
  exact List.all_eq_true.mpr fun c hc => isDigit_scalar (List.all_eq_true.mp hall c hc)

theorem all_scalar_of_exponent {t : List UInt8} (h : isExponent t = true) :
    t.all isScalarChar = true := by
  cases t with
  | nil => rfl
  | cons e t =>
    simp only [isExponent, Bool.and_eq_true, Bool.or_eq_true, beq_iff_eq] at h
    obtain ⟨he, h⟩ := h
    have hletter : isScalarChar e = true := by
      rcases he with rfl | rfl <;> decide
    cases t with
    | nil => cases h
    | cons sign t =>
      simp only at h
      rw [List.all_cons, hletter, Bool.true_and]
      split at h
      · rename_i hsign
        rw [List.all_cons, all_scalar_of_digits h, Bool.and_true]
        rcases hsign with rfl | rfl <;> decide
      · exact all_scalar_of_digits h

theorem all_scalar_of_fraction {t : List UInt8} (h : isFraction t = true) :
    t.all isScalarChar = true := by
  cases t with
  | nil => rfl
  | cons dot t =>
    simp only [isFraction] at h
    split at h
    · rename_i hdot
      rw [Bool.and_eq_true] at h
      rw [List.all_cons, ← List.takeWhile_append_dropWhile (p := isDigit) (l := t),
        List.all_append, all_scalar_takeWhile, all_scalar_of_exponent h.2, hdot]
      decide
    · exact all_scalar_of_exponent h

theorem all_scalar_of_unsigned {t : List UInt8} (h : isUnsigned t = true) :
    t.all isScalarChar = true := by
  cases t with
  | nil => rfl
  | cons c t =>
    simp only [isUnsigned] at h
    split at h
    · rename_i hc
      rw [List.all_cons, all_scalar_of_fraction h, hc]
      decide
    · rw [Bool.and_eq_true] at h
      rw [List.all_cons, ← List.takeWhile_append_dropWhile (p := isDigit) (l := t),
        List.all_append, all_scalar_takeWhile, all_scalar_of_fraction h.2, isDigit_scalar h.1]
      rfl

theorem all_scalar {t : List UInt8} (h : isScalar t = true) :
    t ≠ [] ∧ t.all isScalarChar = true := by
  simp only [isScalar, Bool.or_eq_true, beq_iff_eq] at h
  rcases h with ((rfl | rfl) | rfl) | h
  · exact ⟨by decide, by decide⟩
  · exact ⟨by decide, by decide⟩
  · exact ⟨by decide, by decide⟩
  · cases t with
    | nil => cases h
    | cons c t =>
      refine ⟨List.cons_ne_nil _ _, ?_⟩
      simp only [isNumber] at h
      split at h
      · rename_i hc
        rw [List.all_cons, all_scalar_of_unsigned h, hc]
        decide
      · exact all_scalar_of_unsigned h

/-- The text behind spaces, if its first token is a scalar. -/
theorem lex_scalar {text t : List UInt8} {ts : List Token}
    (h : lex text = some (.scalar t :: ts)) : isScalar t = true ∧
      ∃ spaces rest, text = spaces ++ t ++ rest ∧ spaces.all isSpace = true ∧ Delim rest ∧
        lex rest = some ts := by
  induction text with
  | nil =>
    rw [lex] at h
    cases h
  | cons c rest ih =>
    rw [lex] at h
    split at h
    · rename_i hspace
      obtain ⟨ht, spaces, rest', rfl, hall, hrest⟩ := ih h
      exact ⟨ht, c :: spaces, rest', rfl, by rw [List.all_cons, hspace, hall]; rfl, hrest⟩
    · split at h
      · obtain ⟨ts', -, heq⟩ := Option.map_eq_some_iff.mp h
        cases heq
      · split at h
        · split at h
          · cases h
          · obtain ⟨ts', -, heq⟩ := Option.map_eq_some_iff.mp h
            cases heq
        · dsimp only at h
          split at h
          · rename_i hscalar
            obtain ⟨ts', hlex, heq⟩ := Option.map_eq_some_iff.mp h
            cases heq
            have hdrop : rest.drop (rest.takeWhile isScalarChar).length =
                rest.dropWhile isScalarChar := by
              have hleft : (rest.takeWhile isScalarChar ++ rest.dropWhile isScalarChar).drop
                  (rest.takeWhile isScalarChar).length = rest.dropWhile isScalarChar :=
                List.drop_left
              rwa [List.takeWhile_append_dropWhile] at hleft
            rw [hdrop] at hlex
            refine ⟨hscalar, [], rest.dropWhile isScalarChar, ?_, rfl, fun c t hc => ?_, hlex⟩
            · simp
            · have := List.head?_dropWhile_not isScalarChar rest
              rw [hc] at this
              simpa using this
          · cases h

/-- A scalar in front of the end of a scalar. -/
theorem lexes_scalar (t : List UInt8) : Lexes t [.scalar t] (isScalar t = true) := by
  intro rest ts' hrest
  constructor
  · intro h
    obtain ⟨ht, spaces, rest', heq, hspaces, hrest', hlex⟩ := lex_scalar h
    refine ⟨ht, ?_⟩
    obtain ⟨hne, hall⟩ := all_scalar ht
    cases spaces with
    | nil =>
      obtain rfl : rest = rest' := List.append_cancel_left heq
      exact hlex
    | cons c spaces =>
      obtain ⟨d, t, rfl⟩ := List.exists_cons_of_ne_nil hne
      obtain ⟨rfl, -⟩ := List.cons.inj heq
      simp only [List.all_cons, Bool.and_eq_true] at hall hspaces
      rw [(scalarChar_ne hall.1).1] at hspaces
      exact absurd hspaces.1 Bool.false_ne_true
  · rintro ⟨ht, hlex⟩
    obtain ⟨hne, hall⟩ := all_scalar ht
    obtain ⟨c, t, rfl⟩ := List.exists_cons_of_ne_nil hne
    simp only [List.all_cons, Bool.and_eq_true] at hall
    obtain ⟨hspace, hpunct, hquote⟩ := scalarChar_ne hall.1
    have htake : (t ++ rest).takeWhile isScalarChar = t := by
      rw [List.takeWhile_append_of_pos (List.all_eq_true.mp hall.2)]
      cases rest with
      | nil => simp
      | cons d rest => simp [hrest d rest rfl]
    rw [List.cons_append, lex, hspace, hpunct, if_neg Bool.false_ne_true,
      if_neg Bool.false_ne_true, if_neg hquote]
    dsimp only
    rw [htake, if_pos ht, List.drop_left, hlex]
    rfl

end Rules

end Acts.JsonText
