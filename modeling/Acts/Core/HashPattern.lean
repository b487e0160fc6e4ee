import Acts.Core.RawFileRead
import Acts.Hook.LoadScans
import Acts.Hook.ScanPrint
import Acts.Vm.Loader

/-!
# Hashes written as text (`utils/hash.hpp`)

* `tryHashPattern`, `hash64Pattern` — the parser of `hash_123456` and its kin.
* `printed` — the text `type_%llx` of a hash without a name.
* `tryHashPattern_spec` — **a printed hash is read back, and a name without a known prefix is left
  to be hashed.**
-/

set_option autoImplicit false

namespace Acts.Core.HashPattern

open Acts.Core.RawFile (bytes)
open Acts.Hook (strtoull digit isspace forall_byte)

/-! ## Parser -/

/-- The tests of the parser in their order, each with the position that `strtoull` reads from. -/
def patterns : List (String × Nat) :=
  [("var_", 4), ("event_", 6), ("function_", 9), ("namespace_", 10), ("script_", 7), ("hash_", 5),
    ("file_", 5)]

/-- `TryHashPattern`, with the value that it stores. -/
def tryHashPattern (str : List UInt8) : Option Nat :=
  if str = [] then some 0
  else (patterns.find? fun p => (bytes p.1).isPrefixOf str).map fun p => strtoull (str.drop p.2) 16

/-- `Hash64`. -/
def hash64 (str : List UInt8) : UInt64 := Vm.Loader.hash64A str &&& 0x7FFFFFFFFFFFFFFF

/-- `Hash64Pattern`. -/
def hash64Pattern (str : List UInt8) : UInt64 :=
  match tryHashPattern str with
  | some out => UInt64.ofNat out
  | none => hash64 str

/-- `%s_%llx`. -/
def printed (type : String) (hash : Nat) : List UInt8 :=
  bytes type ++ 0x5F :: (Nat.toDigits 16 hash).map fun c => UInt8.ofNat c.toNat

/-! ## Digits -/

def isHex (c : UInt8) : Bool := (digit 16 c).isSome

/-- The value of hexadecimal digits. -/
def hexValue (digits : List UInt8) : Nat :=
  (digits.filterMap (digit 16)).foldl (fun n d => n * 16 + d) 0

/-- A digit is none of the characters that `strtoull` skips or takes for a sign. -/
theorem plain_of_isHex {c : UInt8} (h : isHex c = true) :
    isspace c = false ∧ c ≠ 0x2D ∧ c ≠ 0x2B ∧ c ≠ 0x78 ∧ c ≠ 0x58 := by
  have hall : ∀ c : UInt8, isHex c = true →
      isspace c = false ∧ c ≠ 0x2D ∧ c ≠ 0x2B ∧ c ≠ 0x78 ∧ c ≠ 0x58 :=
    forall_byte (by decide +kernel)
  exact hall c h

theorem digit_lt {c : UInt8} {d : Nat} (h : digit 16 c = some d) : d < 16 := by
  unfold digit at h
  split at h
  · split at h
    · rename_i hlt
      cases h
      exact hlt
    · cases h
  · cases h

/-- The value behind `n` is that of the digits, with `n` moved in front of them. -/
theorem foldl_digits (ds : List Nat) (n : Nat) :
    ds.foldl (fun n d => n * 16 + d) n =
      n * 16 ^ ds.length + ds.foldl (fun n d => n * 16 + d) 0 := by
  induction ds generalizing n with
  | nil => simp
  | cons d ds ih =>
    rw [List.foldl_cons, List.foldl_cons, ih, ih (0 * 16 + d), List.length_cons, Nat.pow_succ,
      Nat.zero_mul, Nat.zero_add, Nat.add_mul, Nat.mul_assoc n 16, Nat.mul_comm 16, Nat.add_assoc]

theorem foldl_lt {ds : List Nat} (h : ∀ d ∈ ds, d < 16) :
    ds.foldl (fun n d => n * 16 + d) 0 < 16 ^ ds.length := by
  induction ds with
  | nil => simp
  | cons d ds ih =>
    rw [List.foldl_cons, foldl_digits, List.length_cons, Nat.pow_succ]
    have hd := h d (List.mem_cons_self ..)
    have hrest := ih fun d hd => h d (List.mem_cons_of_mem _ hd)
    have hmul : (0 * 16 + d) * 16 ^ ds.length + 16 ^ ds.length ≤ 16 ^ ds.length * 16 := by
      rw [← Nat.succ_mul, Nat.mul_comm]
      exact Nat.mul_le_mul_left _ (by omega)
    omega

theorem hexValue_lt (digits : List UInt8) : hexValue digits < 16 ^ digits.length := by
  have hlt := @foldl_lt (digits.filterMap (digit 16)) fun d hd => by
    obtain ⟨c, -, hc⟩ := List.mem_filterMap.1 hd
    exact digit_lt hc
  exact Nat.lt_of_lt_of_le hlt
    (Nat.pow_le_pow_right (by decide) (List.length_filterMap_le _ _))

theorem head_ne {digits : List UInt8} (hhex : ∀ c ∈ digits, isHex c = true) {x : UInt8}
    (hx : isHex x = false) : (digits.head? == some x) = false := by
  cases digits with
  | nil => rfl
  | cons c cs =>
    have hc := hhex c (List.mem_cons_self ..)
    have hne : c ≠ x := fun h => by rw [h, hx] at hc; cases hc
    simpa using hne

/-- `strtoull` reads digits that fit into 64 bits. -/
theorem strtoull_digits {digits : List UInt8} (hhex : ∀ c ∈ digits, isHex c = true)
    (hlen : digits.length ≤ 16) : strtoull digits 16 = hexValue digits := by
  have hspace : digits.dropWhile isspace = digits := by
    cases digits with
    | nil => rfl
    | cons c cs =>
      rw [List.dropWhile_cons, (plain_of_isHex (hhex c (List.mem_cons_self ..))).1]
      rfl
  have htail : ∀ c ∈ digits.tail, isHex c = true := fun c hc => hhex c (List.mem_of_mem_tail hc)
  have hprefix : (16 == 16 && digits.head? == some 0x30 && (digits.tail.head? == some 0x78 ||
      digits.tail.head? == some 0x58) && (digits.tail.tail.head?.bind (digit 16)).isSome) =
      false := by
    rw [head_ne htail (by decide), head_ne htail (by decide)]
    simp
  have hall : digits.takeWhile (fun c => (digit 16 c).isSome) = digits :=
    List.takeWhile_eq_self_iff.mpr hhex
  have hlt : hexValue digits < 2 ^ 64 :=
    Nat.lt_of_lt_of_le (hexValue_lt digits)
      (Nat.le_trans (Nat.pow_le_pow_right (by decide) hlen) (by decide))
  unfold strtoull
  simp only [hspace, head_ne hhex (x := 0x2D) (by decide), head_ne hhex (x := 0x2B) (by decide),
    hprefix, Bool.or_self, Bool.false_eq_true, if_false, hall]
  exact if_neg (by unfold hexValue at hlt; omega)

/-! ## Printed hashes -/

theorem digit_digitChar :
    ∀ d, d < 16 → digit 16 (UInt8.ofNat (Nat.digitChar d).toNat) = some d := by decide

theorem hexValue_append (ds : List UInt8) {c : UInt8} {d : Nat} (hc : digit 16 c = some d) :
    hexValue (ds ++ [c]) = hexValue ds * 16 + d := by
  simp [hexValue, List.filterMap_append, List.foldl_append, hc]

/-- The digits of a number are digits, and have its value. -/
theorem hexValue_toDigits (v : Nat) :
    (∀ c ∈ (Nat.toDigits 16 v).map fun c => UInt8.ofNat c.toNat, isHex c = true) ∧
      hexValue ((Nat.toDigits 16 v).map fun c => UInt8.ofNat c.toNat) = v := by
  induction v using Nat.strongRecOn with
  | ind v ih =>
    have hlast : ∀ d, d < 16 → isHex (UInt8.ofNat (Nat.digitChar d).toNat) = true := fun d hd => by
      rw [isHex, digit_digitChar d hd]
      rfl
    rw [Nat.toDigits_eq_if (by decide)]
    split
    · rename_i hlt
      rw [List.map_cons, List.map_nil]
      refine ⟨fun c hc => ?_, ?_⟩
      · rw [List.mem_singleton.1 hc]
        exact hlast v hlt
      · rw [← List.nil_append [_], hexValue_append [] (digit_digitChar v hlt)]
        exact Nat.zero_add v
    · rename_i hge
      have hmod : v % 16 < 16 := Nat.mod_lt _ (by decide)
      obtain ⟨hhex, hval⟩ := ih (v / 16) (by omega)
      rw [List.map_append, List.map_cons, List.map_nil]
      refine ⟨fun c hc => ?_, ?_⟩
      · rcases List.mem_append.1 hc with hc | hc
        · exact hhex c hc
        · rw [List.mem_singleton.1 hc]
          exact hlast _ hmod
      · rw [hexValue_append _ (digit_digitChar _ hmod), hval]
        omega

/-! ## Which strings are read -/

/-- The types of the patterns, without the underscore. -/
def types : List String := ["var", "event", "function", "namespace", "script", "hash", "file"]

/-- The string starts with a type and an underscore. -/
def Prefixed (str : List UInt8) : Prop := ∃ type ∈ types, bytes type ++ [0x5F] <+: str

/-- Behind each of the types `strtoull` reads the rest of the string. -/
theorem tryHashPattern_type {type : String} (h : type ∈ types) (rest : List UInt8) :
    tryHashPattern (bytes type ++ 0x5F :: rest) = some (strtoull rest 16) := by
  simp only [types, List.mem_cons, List.not_mem_nil, or_false] at h
  rcases h with rfl | rfl | rfl | rfl | rfl | rfl | rfl <;> rfl

theorem tryHashPattern_other {str : List UInt8} (hne : str ≠ []) (h : ¬ Prefixed str) :
    tryHashPattern str = none := by
  unfold tryHashPattern
  rw [if_neg hne, Option.map_eq_none_iff, List.find?_eq_none]
  intro p hp hpre
  refine h ?_
  rw [List.isPrefixOf_iff_prefix] at hpre
  simp only [patterns, List.mem_cons, List.not_mem_nil, or_false] at hp
  rcases hp with rfl | rfl | rfl | rfl | rfl | rfl | rfl
  · exact ⟨"var", by simp [types], hpre⟩
  · exact ⟨"event", by simp [types], hpre⟩
  · exact ⟨"function", by simp [types], hpre⟩
  · exact ⟨"namespace", by simp [types], hpre⟩
  · exact ⟨"script", by simp [types], hpre⟩
  · exact ⟨"hash", by simp [types], hpre⟩
  · exact ⟨"file", by simp [types], hpre⟩

/-- **The empty string is the hash 0, a known prefix with 1 to 16 digits is their value, which
reads every printed hash back, and a name without a known prefix is hashed.** -/
theorem tryHashPattern_spec :
    tryHashPattern [] = some 0 ∧
    (∀ type ∈ types, ∀ digits : List UInt8, digits ≠ [] → digits.length ≤ 16 →
      (∀ c ∈ digits, isHex c = true) →
      tryHashPattern (bytes type ++ 0x5F :: digits) = some (hexValue digits)) ∧
    (∀ type ∈ types, ∀ hash < 2 ^ 64, tryHashPattern (printed type hash) = some hash) ∧
    ∀ str, str ≠ [] → ¬ Prefixed str →
      tryHashPattern str = none ∧ hash64Pattern str = hash64 str := by
  have hdigits : ∀ type ∈ types, ∀ digits : List UInt8, digits ≠ [] → digits.length ≤ 16 →
      (∀ c ∈ digits, isHex c = true) →
      tryHashPattern (bytes type ++ 0x5F :: digits) = some (hexValue digits) := by
    intro type htype digits _ hlen hhex
    rw [tryHashPattern_type htype, strtoull_digits hhex hlen]
  refine ⟨rfl, hdigits, fun type htype hash hlt => ?_, fun str hne hpre => ?_⟩
  · obtain ⟨hhex, hval⟩ := hexValue_toDigits hash
    have hlen : (Nat.toDigits 16 hash).length ≤ 16 :=
      (Nat.length_toDigits_le_iff (by decide) (by decide)).mpr (Nat.lt_of_lt_of_le hlt (by decide))
    have hpos := Nat.length_toDigits_pos (b := 16) (n := hash)
    rw [printed, hdigits type htype _ ?_ (by rwa [List.length_map]) hhex, hval]
    intro hnil
    rw [List.map_eq_nil_iff] at hnil
    rw [hnil] at hpos
    cases hpos
  · have hnone := tryHashPattern_other hne hpre
    refine ⟨hnone, ?_⟩
    rw [hash64Pattern, hnone]

/-- The empty string is taken for a hash, though it is no prefix with digits. -/
theorem empty_accepted :
    ¬ ∀ (str : List UInt8) (v : Nat), tryHashPattern str = some v ↔
      ∃ type ∈ types, ∃ digits : List UInt8, digits ≠ [] ∧ digits.length ≤ 16 ∧
        (∀ c ∈ digits, isHex c = true) ∧ str = bytes type ++ 0x5F :: digits ∧
          v = hexValue digits := by
  intro h
  obtain ⟨type, -, digits, -, -, -, hstr, -⟩ := (h [] 0).mp rfl
  have hlen := congrArg List.length hstr
  rw [List.length_append, List.length_cons] at hlen
  simp at hlen

end Acts.Core.HashPattern
