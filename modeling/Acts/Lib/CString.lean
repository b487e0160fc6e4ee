import Acts.Lib.Codec

/-!
# NUL-terminated strings

* `stringEnd`, `cstr` — the length of a string, and the string at a position.
* `stringsAt`, `skipStrings` — the positions of strings in a row, and the scan that finds them.
* `Codec.cstring` — the format of one string.
-/

set_option autoImplicit false

namespace Acts

/-- The number of bytes before the first NUL, if there is one. -/
def stringEnd : List UInt8 → Option Nat
  | [] => none
  | b :: bytes => if b = 0 then some 0 else (stringEnd bytes).map (· + 1)

/-- The string at a position. -/
def cstr (data : List UInt8) (position : Nat) : List UInt8 :=
  (data.drop position).takeWhile (· != 0)

/-- The positions of strings in a row, from `position` on. -/
def stringsAt (position : Nat) : List (List UInt8) → List Nat
  | [] => []
  | str :: strs => position :: stringsAt (position + str.length + 1) strs

/-- Strings in a row. -/
def joinStrings (strs : List (List UInt8)) : List UInt8 := strs.flatMap (· ++ [0])

/-- `n` strings are passed over: their positions, and the one behind them. -/
def skipStrings (data : List UInt8) : Nat → Nat → Option (List Nat × Nat)
  | 0, position => some ([], position)
  | n + 1, position =>
    match stringEnd (data.drop position) with
    | none => none
    | some len =>
      (skipStrings data n (position + len + 1)).map fun (refs, position') =>
        (position :: refs, position')

variable {str rest : List UInt8} {strs : List (List UInt8)}

theorem stringEnd_append (h : 0 ∉ str) (rest : List UInt8) :
    stringEnd (str ++ 0 :: rest) = some str.length := by
  induction str with
  | nil => rfl
  | cons b str ih =>
    simp only [List.mem_cons, not_or] at h
    rw [List.cons_append, stringEnd, if_neg (Ne.symm h.1), ih h.2]
    rfl

theorem takeWhile_append (h : 0 ∉ str) (rest : List UInt8) :
    (str ++ 0 :: rest).takeWhile (· != 0) = str := by
  induction str with
  | nil => rfl
  | cons b str ih =>
    simp only [List.mem_cons, not_or] at h
    rw [List.cons_append, List.takeWhile_cons_of_pos (by simpa using Ne.symm h.1), ih h.2]

theorem takeWhile_self (h : 0 ∉ str) : str.takeWhile (· != 0) = str := by
  induction str with
  | nil => rfl
  | cons b str ih =>
    simp only [List.mem_cons, not_or] at h
    rw [List.takeWhile_cons_of_pos (by simpa using Ne.symm h.1), ih h.2]

/-- A string behind what precedes it. -/
theorem cstr_append (pre : List UInt8) (h : 0 ∉ str) (rest : List UInt8) :
    cstr (pre ++ (str ++ 0 :: rest)) pre.length = str := by
  unfold cstr
  rw [List.drop_left, takeWhile_append h]

theorem joinStrings_cons (str : List UInt8) (strs : List (List UInt8)) (rest : List UInt8) :
    joinStrings (str :: strs) ++ rest = str ++ 0 :: (joinStrings strs ++ rest) := by
  simp [joinStrings]

theorem split_strings (pre str : List UInt8) (strs : List (List UInt8)) (rest : List UInt8) :
    pre ++ (joinStrings (str :: strs) ++ rest) =
      (pre ++ str ++ [0]) ++ (joinStrings strs ++ rest) := by
  simp [joinStrings]

theorem length_split (pre str : List UInt8) :
    (pre ++ str ++ [0]).length = pre.length + str.length + 1 := by
  rw [List.length_append, List.length_append]
  rfl

/-- The scan over strings in a row. -/
theorem skipStrings_eq (h : ∀ str ∈ strs, 0 ∉ str) (pre rest : List UInt8) :
    skipStrings (pre ++ (joinStrings strs ++ rest)) strs.length pre.length =
      some (stringsAt pre.length strs, pre.length + (joinStrings strs).length) := by
  induction strs generalizing pre with
  | nil => rfl
  | cons str strs ih =>
    have hstr := h str List.mem_cons_self
    have hrest := ih (fun s hs => h s (List.mem_cons_of_mem _ hs)) (pre ++ str ++ [0])
    rw [← split_strings, length_split] at hrest
    have hend : stringEnd ((pre ++ (joinStrings (str :: strs) ++ rest)).drop pre.length) =
        some str.length := by
      rw [List.drop_left, joinStrings_cons, stringEnd_append hstr]
    rw [List.length_cons, skipStrings, hend]
    simp only [hrest, Option.map_some]
    rw [stringsAt]
    simp [joinStrings]
    omega

/-- The strings at their positions. -/
theorem map_cstr (h : ∀ str ∈ strs, 0 ∉ str) (pre rest : List UInt8) :
    (stringsAt pre.length strs).map (cstr (pre ++ (joinStrings strs ++ rest))) = strs := by
  induction strs generalizing pre with
  | nil => rfl
  | cons str strs ih =>
    have hstr := h str List.mem_cons_self
    have hrest := ih (fun s hs => h s (List.mem_cons_of_mem _ hs)) (pre ++ str ++ [0])
    rw [← split_strings, length_split] at hrest
    rw [stringsAt, List.map_cons, hrest, joinStrings_cons, cstr_append pre hstr]

/-- One string. -/
def Codec.cstring : Codec (List UInt8) where
  Fits str := 0 ∉ str
  write str := str ++ [0]
  read bytes := (stringEnd bytes).map fun len => (bytes.take len, bytes.drop (len + 1))
  read_write str h rest := by
    rw [List.append_assoc, List.singleton_append, stringEnd_append h]
    simp

end Acts
