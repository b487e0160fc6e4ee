import Mathlib.Data.List.TakeWhile
import Mathlib.Tactic

/-!
# String literals, printed and compiled

The decompiler prints a string between quotes, its bytes escaped (`printFormattedString`).  The
lexer of the compiler takes the literal as one `STRING` token, and `parseString` undoes the
escapes it knows: an unknown escape stands for its letter.

* `unescape_escaped` — what the parser makes of an escaped text, byte by byte.
* `stringToken_literal` — a printed literal is one token.
* **`literal_iff`** — the bytes of which the literal is read back.
-/

set_option autoImplicit false

namespace Acts.Gsc.StringLiteral

/-! ## The printer -/

/-- A digit of `std::hex`. -/
def hexDigit (n : UInt8) : UInt8 :=
  if n < 10 then 0x30 + n else 0x57 + n

/-- How a byte is printed.  A `char` is signed: the bytes from `0x80` are below `0x20`. -/
def printChar (c : UInt8) : List UInt8 :=
  match c with
  | 0x0A => [0x5C, 0x6E] -- `\n`
  | 0x0D => [0x5C, 0x72] -- `\r`
  | 0x09 => [0x5C, 0x74] -- `\t`
  | 0x07 => [0x5C, 0x61] -- `\a`
  | 0x08 => [0x5C, 0x62] -- `\b`
  | 0x0B => [0x5C, 0x76] -- `\v`
  | 0x0C => [0x5C, 0x66] -- `\f`
  | 0x5C => [0x5C, 0x5C]
  | 0x22 => [0x5C, 0x22]
  | c =>
    if c.toInt8 < 0x20 ∨ c.toInt8 ≥ 0x7F then
      [0x5C, 0x78, hexDigit (c / 16), hexDigit (c % 16)]
    else
      [c]

/-- The loop of `PrintFormattedString` over the bytes behind the pointer.  Without a length it
stops at the end of the C string. -/
def printLoop (len : Nat) : List UInt8 → Nat → List UInt8
  | [], _ => []
  | c :: str, i =>
    if (len = 0 ∧ c ≠ 0) ∨ (len ≠ 0 ∧ i < len) then printChar c ++ printLoop len str (i + 1)
    else []

def printFormattedString (str : Option (List UInt8)) (len : Nat) : List UInt8 :=
  match str with
  | none => [0x6E, 0x75, 0x6C, 0x6C, 0x70, 0x74, 0x72] -- `nullptr`
  | some str => printLoop len str 0

/-- A string in the code of a decompiled script. -/
def literal (str : List UInt8) (len : Nat) : List UInt8 :=
  0x22 :: (printFormattedString (some str) len ++ [0x22])

/-- The string that a pointer and a length stand for. -/
def stringValue (str : List UInt8) (len : Nat) : List UInt8 :=
  if len = 0 then str.takeWhile (· ≠ 0) else str.take len

/-! ## The parser -/

inductive LiteralError
  | assertion
  | tooLong (text : List UInt8)
  deriving DecidableEq

/-- The letter behind a backslash. -/
def escapeValue (c : UInt8) : UInt8 :=
  match c with
  | 0x6E => 0x0A -- `n`
  | 0x74 => 0x09 -- `t`
  | 0x72 => 0x0D -- `r`
  | 0x62 => 0x08 -- `b`
  | c => c

/-- The loop over `node[i]`, for the `count` positions before `end`. -/
def unescape : List UInt8 → Nat → Except LiteralError (List UInt8)
  | _, 0 => .ok []
  | [], _ + 1 => .error .assertion
  | c :: node, count + 1 =>
    if c ≠ 0x5C then
      (c :: ·) <$> unescape node count
    else
      match node with
      | [] => .error .assertion
      | c :: node => (escapeValue c :: ·) <$> unescape node (count - 1)

/-- A `std::string` made from the written buffer. -/
def cString (str : List UInt8) : List UInt8 :=
  str.takeWhile (· ≠ 0)

def parseString (node : List UInt8) (start : Nat) : Except LiteralError (List UInt8) :=
  if node.length ≤ start then .ok []
  else
    let first := node.getD start 0
    if (first = 0x22 ∨ first = 0x27) ∧ node.getD (node.length - 1) 0 = first then
      cString <$> unescape (node.drop (start + 1)) (node.length - 1 - (start + 1))
    else
      cString <$> unescape (node.drop start) (node.length - start)

/-- Behind the opening quote: `(~["\\] | ('\\'.))* '"'`. -/
def stringBody : List UInt8 → Option (List UInt8 × List UInt8)
  | [] => none
  | c :: text =>
    if c = 0x22 then some ([c], text)
    else if c = 0x5C then
      match text with
      | [] => none
      | e :: text => (stringBody text).map fun (body, rest) => (c :: e :: body, rest)
    else (stringBody text).map fun (body, rest) => (c :: body, rest)

/-- The `STRING` rule of the lexer: the token and the text behind it. -/
def stringToken : List UInt8 → Option (List UInt8 × List UInt8)
  | [] => none
  | c :: text =>
    if c = 0x22 then (stringBody text).map fun (body, rest) => (c :: body, rest) else none

/-- A `STRING` in an expression, which has its own copy of the loop. -/
def stringExpression (node : List UInt8) : Except LiteralError (List UInt8) := do
  let key := cString (← unescape (node.drop 1) (node.length - 1 - 1))
  if key.length ≥ 256 then .error (.tooLong node) else .ok key

/-! ## One byte -/

/-- The printable characters, and the four control characters with an escape in both lists. -/
def Shared (c : UInt8) : Prop :=
  (0x20 ≤ c ∧ c ≤ 0x7E) ∨ c = 0x0A ∨ c = 0x0D ∨ c = 0x09 ∨ c = 0x08

instance (c : UInt8) : Decidable (Shared c) := by
  unfold Shared; infer_instance

/-- What the parser writes for a printed byte. -/
def readBack (c : UInt8) : List UInt8 :=
  match c with
  | 0x07 => [0x61]
  | 0x0B => [0x76]
  | 0x0C => [0x66]
  | c =>
    if Shared c then [c] else [0x78, hexDigit (c / 16), hexDigit (c % 16)]

/-- A digit is no quote, no backslash and no end of string. -/
theorem hexDigit_plain {n : UInt8} (h : n < 16) :
    hexDigit n ≠ 0x5C ∧ hexDigit n ≠ 0x22 ∧ hexDigit n ≠ 0 := by
  have hn : n.toNat < 16 := h
  unfold hexDigit
  split
  · simp only [ne_eq, ← UInt8.toNat_inj, UInt8.toNat_add, UInt8.reduceToNat]
    omega
  · rename_i hten
    have hten : ¬ n.toNat < 10 := hten
    simp only [ne_eq, ← UInt8.toNat_inj, UInt8.toNat_add, UInt8.reduceToNat]
    omega

/-- The three forms of a printed byte, and how they are read. -/
inductive Printed (c : UInt8) : Prop
  | plain (hprint : printChar c = [c]) (hread : readBack c = [c]) (hback : c ≠ 0x5C)
      (hquote : c ≠ 0x22) (hend : c ≠ 0)
  | pair (e : UInt8) (hprint : printChar c = [0x5C, e]) (hread : readBack c = [escapeValue e])
      (hend : escapeValue e ≠ 0)
  | hex (h l : UInt8) (hprint : printChar c = [0x5C, 0x78, h, l])
      (hread : readBack c = [0x78, h, l]) (hh : h ≠ 0x5C ∧ h ≠ 0x22 ∧ h ≠ 0)
      (hl : l ≠ 0x5C ∧ l ≠ 0x22 ∧ l ≠ 0)

theorem toInt_toInt8 (c : UInt8) :
    c.toInt8.toInt = if c.toNat < 128 then (c.toNat : Int) else c.toNat - 256 := by
  have h : c.toInt8.toInt = c.toBitVec.toInt := rfl
  rw [h, BitVec.toInt_eq_toNat_cond]
  simp only [UInt8.toNat_toBitVec]
  split <;> split <;> omega

/-- The test on a signed `char` keeps the printable characters of ASCII. -/
theorem toInt8_printable (c : UInt8) :
    (c.toInt8 < 0x20 ∨ c.toInt8 ≥ 0x7F) ↔ ¬ (0x20 ≤ c ∧ c ≤ 0x7E) := by
  have hc := c.toNat_lt
  rw [Int8.lt_iff_toInt_lt, ge_iff_le, Int8.le_iff_toInt_le, UInt8.le_iff_toNat_le,
    UInt8.le_iff_toNat_le, toInt_toInt8]
  simp only [Int8.reduceToInt, UInt8.reduceToNat]
  split <;> omega

theorem printed (c : UInt8) : Printed c := by
  by_cases hn : c = 0x0A
  · subst hn
    exact .pair 0x6E rfl rfl (by decide)
  by_cases hr : c = 0x0D
  · subst hr
    exact .pair 0x72 rfl rfl (by decide)
  by_cases ht : c = 0x09
  · subst ht
    exact .pair 0x74 rfl rfl (by decide)
  by_cases ha : c = 0x07
  · subst ha
    exact .pair 0x61 rfl rfl (by decide)
  by_cases hb : c = 0x08
  · subst hb
    exact .pair 0x62 rfl rfl (by decide)
  by_cases hv : c = 0x0B
  · subst hv
    exact .pair 0x76 rfl rfl (by decide)
  by_cases hf : c = 0x0C
  · subst hf
    exact .pair 0x66 rfl rfl (by decide)
  by_cases hback : c = 0x5C
  · subst hback
    exact .pair 0x5C rfl rfl (by decide)
  by_cases hquote : c = 0x22
  · subst hquote
    exact .pair 0x22 rfl rfl (by decide)
  have hprint : printChar c =
      if 0x20 ≤ c ∧ c ≤ 0x7E then [c]
      else [0x5C, 0x78, hexDigit (c / 16), hexDigit (c % 16)] := by
    have := toInt8_printable c
    unfold printChar
    split <;> first | contradiction | skip
    by_cases hc : 0x20 ≤ c ∧ c ≤ 0x7E
    · rw [if_pos hc, if_neg (by rw [this]; exact not_not_intro hc)]
    · rw [if_neg hc, if_pos (this.mpr hc)]
  have hread : readBack c =
      if 0x20 ≤ c ∧ c ≤ 0x7E then [c]
      else [0x78, hexDigit (c / 16), hexDigit (c % 16)] := by
    unfold readBack
    split <;> first | contradiction | skip
    simp only [Shared, hn, hr, ht, hb, or_false]
  split at hprint
  · rename_i hc
    rw [if_pos hc] at hread
    refine .plain hprint hread hback hquote ?_
    rintro rfl
    exact absurd hc.1 (by decide)
  · rename_i hc
    rw [if_neg hc] at hread
    exact .hex _ _ hprint hread (hexDigit_plain (by grind)) (hexDigit_plain (by grind))

theorem readBack_ne_zero (c : UInt8) : ∀ b ∈ readBack c, b ≠ 0 := by
  cases printed c with
  | plain hprint hread hback hquote hend => simpa [hread] using hend
  | pair e hprint hread hend => simpa [hread] using hend
  | hex h l hprint hread hh hl => simp [hread, hh.2.2, hl.2.2]

/-- Only a shared byte is read back first. -/
theorem readBack_head {c : UInt8} {t s : List UInt8} (h : readBack c ++ t = c :: s) :
    Shared c := by
  unfold readBack at h
  split at h
  · cases h
  · cases h
  · cases h
  · split at h
    · assumption
    · cases h
      decide

theorem readBack_shared {c : UInt8} (h : Shared c) : readBack c = [c] := by
  unfold readBack
  split
  · exact absurd h (by decide)
  · exact absurd h (by decide)
  · exact absurd h (by decide)
  · rw [if_pos h]

/-! ## Whole strings -/

theorem printLoop_eq (len : Nat) (str : List UInt8) (i : Nat) :
    printLoop len str i =
      (if len = 0 then str.takeWhile (· ≠ 0) else str.take (len - i)).flatMap printChar := by
  induction str generalizing i with
  | nil => simp [printLoop]
  | cons c str ih =>
    unfold printLoop
    by_cases hlen : len = 0
    · by_cases hc : c = 0
      · simp [hlen, hc]
      · have hgo : (len = 0 ∧ c ≠ 0) ∨ (len ≠ 0 ∧ i < len) := .inl ⟨hlen, hc⟩
        rw [if_pos hgo, ih]
        simp [hlen, hc]
    · by_cases hi : i < len
      · obtain ⟨m, hm⟩ : ∃ m, len - i = m + 1 := ⟨len - i - 1, by omega⟩
        have hm' : len - (i + 1) = m := by omega
        rw [if_pos (.inr ⟨hlen, hi⟩), ih, if_neg hlen, if_neg hlen, hm, hm', List.take_succ_cons,
          List.flatMap_cons]
      · have hm : len - i = 0 := by omega
        have hstop : ¬ ((len = 0 ∧ c ≠ 0) ∨ (len ≠ 0 ∧ i < len)) := by
          rintro (h | h)
          · exact hlen h.1
          · exact hi h.2
        rw [if_neg hstop, if_neg hlen, hm]
        rfl

theorem literal_eq (str : List UInt8) (len : Nat) :
    literal str len = 0x22 :: ((stringValue str len).flatMap printChar ++ [0x22]) := by
  unfold literal printFormattedString stringValue
  simp only [printLoop_eq, Nat.sub_zero]

theorem unescape_plain {c : UInt8} (hback : c ≠ 0x5C) (node : List UInt8) (count : Nat) :
    unescape (c :: node) (count + 1) = (c :: ·) <$> unescape node count := by
  rw [unescape.eq_def]
  exact if_pos hback

theorem unescape_printChar (c : UInt8) (node : List UInt8) (count : Nat) :
    unescape (printChar c ++ node) ((printChar c).length + count) =
      (readBack c ++ ·) <$> unescape node count := by
  cases printed c with
  | plain hprint hread hback hquote hend =>
    rw [hprint, hread, List.length_singleton, Nat.add_comm 1 count]
    exact unescape_plain hback node count
  | pair e hprint hread hend =>
    rw [hprint, hread, List.length_cons, List.length_singleton, Nat.add_comm 2 count]
    rfl
  | hex h l hprint hread hh hl =>
    have hcount : [0x5C, 0x78, h, l].length + count = count + 1 + 1 + 2 := by
      simp only [List.length_cons, List.length_nil]
      omega
    have hdigits : unescape (h :: l :: node) (count + 1 + 1) =
        (h :: ·) <$> (l :: ·) <$> unescape node count := by
      rw [unescape_plain hh.1, unescape_plain hl.1]
    have hhex : unescape (0x5C :: 0x78 :: h :: l :: node) (count + 1 + 1 + 2) =
        (0x78 :: ·) <$> unescape (h :: l :: node) (count + 1 + 1) := rfl
    rw [hprint, hread, hcount]
    apply hhex.trans
    rw [hdigits]
    cases unescape node count <;> rfl

/-- The parser reads an escaped text byte by byte. -/
theorem unescape_escaped (s node : List UInt8) :
    unescape (s.flatMap printChar ++ node) (s.flatMap printChar).length =
      .ok (s.flatMap readBack) := by
  induction s with
  | nil => cases node <;> rfl
  | cons c s ih =>
    rw [List.flatMap_cons, List.flatMap_cons, List.append_assoc, List.length_append,
      unescape_printChar, ih]
    rfl

theorem cString_readBack (s : List UInt8) : cString (s.flatMap readBack) = s.flatMap readBack := by
  unfold cString
  apply List.takeWhile_eq_self_iff.2
  intro b hb
  obtain ⟨c, _, hbc⟩ := List.mem_flatMap.1 hb
  simpa using readBack_ne_zero c b hbc

theorem readBack_eq_iff (s : List UInt8) : s.flatMap readBack = s ↔ ∀ b ∈ s, Shared b := by
  constructor
  · intro h
    induction s with
    | nil => simp
    | cons c s ih =>
      rw [List.flatMap_cons] at h
      have hc := readBack_head h
      rw [readBack_shared hc, List.singleton_append, List.cons.injEq] at h
      simpa using ⟨hc, ih h.2⟩
  · intro h
    induction s with
    | nil => rfl
    | cons c s ih =>
      rw [List.flatMap_cons, readBack_shared (h c (by simp)), ih fun b hb => h b (by simp [hb])]
      rfl

theorem stringBody_plain {c : UInt8} (hback : c ≠ 0x5C) (hquote : c ≠ 0x22)
    (text : List UInt8) :
    stringBody (c :: text) = (stringBody text).map fun (body, rest) => (c :: body, rest) := by
  rw [stringBody.eq_def]
  dsimp only
  rw [if_neg hquote, if_neg hback]

theorem stringBody_printChar (c : UInt8) (text : List UInt8) :
    stringBody (printChar c ++ text) =
      (stringBody text).map fun (body, rest) => (printChar c ++ body, rest) := by
  cases printed c with
  | plain hprint hread hback hquote hend =>
    rw [hprint]
    exact stringBody_plain hback hquote text
  | pair e hprint hread hend =>
    rw [hprint]
    rfl
  | hex h l hprint hread hh hl =>
    have hhex : stringBody (0x5C :: 0x78 :: h :: l :: text) =
        (stringBody (h :: l :: text)).map fun (body, rest) => (0x5C :: 0x78 :: body, rest) := rfl
    rw [hprint]
    apply hhex.trans
    rw [stringBody_plain hh.1 hh.2.1, stringBody_plain hl.1 hl.2.1]
    cases stringBody text <;> rfl

/-- A printed literal is one token. -/
theorem stringToken_literal (str : List UInt8) (len : Nat) (rest : List UInt8) :
    stringToken (literal str len ++ rest) = some (literal str len, rest) := by
  have hbody : ∀ s : List UInt8, stringBody (s.flatMap printChar ++ ([0x22] ++ rest)) =
      some (s.flatMap printChar ++ [0x22], rest) := by
    intro s
    induction s with
    | nil =>
      rw [List.flatMap_nil, stringBody.eq_def]
      rfl
    | cons c s ih =>
      rw [List.flatMap_cons, List.append_assoc, stringBody_printChar, ih]
      simp
  rw [literal_eq, List.cons_append, List.append_assoc, stringToken, hbody]
  rfl

/-- Between the quotes, both loops of the compiler read the escaped text. -/
theorem unescape_literal (str : List UInt8) (len : Nat) :
    unescape ((literal str len).drop 1) ((literal str len).length - 1 - 1) =
      .ok ((stringValue str len).flatMap readBack) := by
  rw [literal_eq]
  have hcount : (0x22 :: ((stringValue str len).flatMap printChar ++ [(0x22 : UInt8)])).length
      - 1 - 1 = ((stringValue str len).flatMap printChar).length := by
    simp
  rw [hcount, List.drop_one, List.tail_cons]
  exact unescape_escaped _ _

theorem parseString_literal (str : List UInt8) (len : Nat) :
    parseString (literal str len) 0 = .ok ((stringValue str len).flatMap readBack) := by
  have hloop := unescape_literal str len
  have hlen : ¬ (literal str len).length ≤ 0 := by
    rw [literal_eq]
    simp
  have hfirst : (literal str len).getD 0 0 = 0x22 := rfl
  have hlast : (literal str len).getD ((literal str len).length - 1) 0 = 0x22 := by
    rw [literal_eq]
    simp
  unfold parseString
  rw [if_neg hlen]
  dsimp only
  rw [hfirst, hlast, if_pos ⟨.inl rfl, rfl⟩, Nat.zero_add, hloop]
  exact congrArg Except.ok (cString_readBack _)

theorem stringExpression_literal (str : List UInt8) (len : Nat) :
    stringExpression (literal str len) =
      if ((stringValue str len).flatMap readBack).length ≥ 256 then
        .error (.tooLong (literal str len))
      else .ok ((stringValue str len).flatMap readBack) := by
  unfold stringExpression
  rw [unescape_literal]
  simp only [bind, Except.bind, cString_readBack]

/-- **What is read back.**  `parseString` gives the printed string exactly when all its bytes are
shared.  A string of an expression is one token of the lexer, and is also read back then, unless
it is refused for its length. -/
theorem literal_iff (str : List UInt8) (len : Nat) :
    (parseString (literal str len) 0 = .ok (stringValue str len) ↔
      ∀ b ∈ stringValue str len, Shared b) ∧
    (∀ rest, stringToken (literal str len ++ rest) = some (literal str len, rest)) ∧
    (stringExpression (literal str len) = .ok (stringValue str len) ↔
      (∀ b ∈ stringValue str len, Shared b) ∧ (stringValue str len).length < 256) := by
  refine ⟨?_, stringToken_literal str len, ?_⟩
  · rw [parseString_literal, Except.ok.injEq]
    exact readBack_eq_iff _
  · rw [stringExpression_literal]
    constructor
    · intro h
      split at h
      · cases h
      · rename_i hlen
        rw [Except.ok.injEq] at h
        rw [h] at hlen
        exact ⟨(readBack_eq_iff _).1 h, by omega⟩
    · rintro ⟨hshared, hlen⟩
      have h := (readBack_eq_iff _).2 hshared
      rw [h, if_neg (by omega)]

/-- The letter `é`, two bytes in UTF-8, comes back as `xc3xa9`. -/
theorem accent_not_read_back :
    parseString (literal [0xC3, 0xA9, 0] 0) 0 ≠ .ok (stringValue [0xC3, 0xA9, 0] 0) ∧
      parseString (literal [0xC3, 0xA9, 0] 0) 0 =
        .ok [0x78, 0x63, 0x33, 0x78, 0x61, 0x39] := by
  decide

end Acts.Gsc.StringLiteral
