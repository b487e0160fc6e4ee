import Mathlib.Algebra.Group.Int.Defs
import Mathlib.Algebra.Group.Nat.Defs
import Mathlib.Algebra.GroupWithZero.Nat
import Mathlib.Tactic.Common

/-!
# Numeric constants

`NumberNodeValue` of the script compiler and of the data definition language:

* `Expr` — the parse tree of a constant, without its chains of single children and with the named
  constants replaced.
* `gscValue`, `adlValue` — the two functions; an operation that C++ leaves undefined is a stop.
* `Expr.meaning` — the two's complement value of an expression, over a reading of its literals and
  of `??`.
* `value_right_iff` — **the value is right or refused exactly when every operation that is reached
  is defined and the two readings do not differ.**
-/

set_option autoImplicit false

namespace Acts.NumberNode

/-! ## Expressions -/

inductive LiteralKind where
  | integer10 | integer16 | integer8 | integer2
  deriving DecidableEq, Repr

def LiteralKind.radix : LiteralKind → Nat
  | .integer10 => 10
  | .integer16 => 16
  | .integer8 => 8
  | .integer2 => 2

/-- A terminal: the digits are those behind the sign and the `0x`, `0` or `0b`. -/
structure Literal where
  kind : LiteralKind
  neg : Bool
  digits : List Nat
  deriving DecidableEq, Repr

def Literal.magnitude (l : Literal) : Nat :=
  l.digits.foldl (fun n d => n * l.kind.radix + d) 0

inductive UnaryOp where
  | not | complement
  deriving DecidableEq, Repr

inductive BinaryOp where
  | nullish | logicalAnd | logicalOr | less | greater | equal | superEqual | lessEqual
  | superLessEqual | greaterEqual | superGreaterEqual | notEqual | superNotEqual
  | plus | minus | divide | multiply | modulus | bitOr | bitXor | shiftLeft | shiftRight | bitAnd
  deriving DecidableEq, Repr

inductive Expr where
  | literal (l : Literal)
  | bool (b : Bool)
  | group (e : Expr)
  | unary (op : UnaryOp) (e : Expr)
  | binary (op : BinaryOp) (a b : Expr)
  deriving DecidableEq, Repr

/-- The two grammars. -/
inductive Language where
  | gsc | adl
  deriving DecidableEq, Repr

/-! ## The functions -/

/-- Why there is no value: a thrown error or a constant that is not extracted, or an operation
without a defined result. -/
inductive Stop where
  | rejected | undefined
  deriving DecidableEq, Repr

abbrev Value := Except Stop Int64

/-- `strtoll`, which keeps to the bounds of its type. -/
def strtoll (neg : Bool) (n : Nat) : Int64 := .ofIntClamp (if neg then -n else n)

/-- The value of a terminal. -/
def Literal.read (l : Literal) : Int64 :=
  match l.kind with
  | .integer10 => strtoll l.neg l.magnitude
  | .integer16 | .integer8 | .integer2 =>
    let val := strtoll false l.magnitude
    if l.neg then -val else val

def ofBool (b : Bool) : Int64 := if b then 1 else 0

/-- `v1 / v2` and `v1 % v2` need a divisor and a quotient that fits. -/
def divide (v1 v2 result : Int64) : Value :=
  if v2 = 0 ∨ v1 = .minValue ∧ v2 = -1 then .error .undefined else .ok result

/-- `v1 << v2` and `v1 >> v2` need an amount below the width. -/
def shift (v2 result : Int64) : Value :=
  if 0 ≤ v2.toInt ∧ v2.toInt < 64 then .ok result else .error .undefined

/-- The operators that both functions have. -/
def arithmetic (op : BinaryOp) (v1 v2 : Int64) : Value :=
  match op with
  | .plus => .ok (v1 + v2)
  | .minus => .ok (v1 - v2)
  | .divide => divide v1 v2 (v1 / v2)
  | .multiply => .ok (v1 * v2)
  | .modulus => divide v1 v2 (v1 % v2)
  | .bitOr => .ok (v1 ||| v2)
  | .bitXor => .ok (v1 ^^^ v2)
  | .shiftLeft => shift v2 (v1 <<< v2)
  | .shiftRight => shift v2 (v1 >>> v2)
  | .bitAnd => .ok (v1 &&& v2)
  | _ => .error .rejected

/-- The chain of comparisons of the operator in the script compiler. -/
def gscBinary (op : BinaryOp) (v1 v2 : Int64) : Value :=
  match op with
  | .nullish => .ok (if v1 ≠ 0 then v1 else v2)
  | .logicalAnd => .ok (ofBool (v1 ≠ 0 ∧ v2 ≠ 0))
  | .logicalOr => .ok (ofBool (v1 ≠ 0 ∨ v2 ≠ 0))
  | .less => .ok (ofBool (v1 < v2))
  | .greater => .ok (ofBool (v2 < v1))
  | .equal | .superEqual => .ok (ofBool (v1 = v2))
  | .lessEqual | .superLessEqual => .ok (ofBool (v1 ≤ v2))
  | .greaterEqual | .superGreaterEqual => .ok (ofBool (v2 ≤ v1))
  | op => arithmetic op v1 v2

/-- The terminal of an operator is no number. -/
def operatorValue (_ : UnaryOp) : Value := .error .rejected

def unaryValue (op : UnaryOp) (v : Int64) : Int64 :=
  match op with
  | .not => ofBool (v = 0)
  | .complement => ~~~v

/-- `CompileObject::NumberNodeValue`. -/
def gscValue : Expr → Value
  | .literal l => .ok l.read
  | .bool b => .ok (ofBool b)
  | .group e => gscValue e
  -- the first child is the operator, and its value is asked for
  | .unary op _ => do
    let v ← operatorValue op
    .ok (unaryValue op v)
  | .binary op a b => do
    let v1 ← gscValue a
    let v2 ← gscValue b
    gscBinary op v1 v2

/-- `NumberNodeValue` of the data definition language. -/
def adlValue : Expr → Value
  | .literal l => .ok l.read
  | .bool _ => .error .rejected
  | .group e => adlValue e
  | .unary .complement e => do
    let v ← adlValue e
    .ok (unaryValue .complement v)
  | .unary .not _ => .error .rejected
  | .binary op a b => do
    let left ← adlValue a
    let right ← adlValue b
    arithmetic op left right

def numberNodeValue : Language → Expr → Value
  | .gsc => gscValue
  | .adl => adlValue

/-! ## What an expression means -/

/-- The residue of an integer in 64-bit two's complement. -/
def wrap (x : Int) : Int := x.bmod (2 ^ 64)

/-- What can be understood in two ways. -/
structure Reading where
  literal : Literal → Int
  nullish : Int → Int → Int

def Literal.value (l : Literal) : Int := if l.neg then -l.magnitude else l.magnitude

/-- The literal in the bounds of 64 bits, before the sign unless it is decimal. -/
def Literal.cut (l : Literal) : Int :=
  match l.kind with
  | .integer10 => max (-2 ^ 63) (min (2 ^ 63 - 1) l.value)
  | .integer16 | .integer8 | .integer2 =>
    let val : Int := min (2 ^ 63 - 1) l.magnitude
    if l.neg then -val else val

/-- A number is always defined, so the left operand of `??` is its value. -/
def languageReading : Reading := ⟨fun l => wrap l.value, fun x _ => x⟩

/-- Literals are cut, and `??` takes the left operand unless it is 0. -/
def codeReading : Reading := ⟨Literal.cut, fun x y => if x = 0 then y else x⟩

/-- Bit by bit. -/
def bitwise (f : BitVec 64 → BitVec 64 → BitVec 64) (x y : Int) : Int :=
  (f (BitVec.ofInt 64 x) (BitVec.ofInt 64 y)).toInt

def truth (p : Prop) [Decidable p] : Int := if p then 1 else 0

def BinaryOp.result (nullish : Int → Int → Int) (op : BinaryOp) (x y : Int) : Int :=
  match op with
  | .nullish => nullish x y
  | .logicalAnd => truth (x ≠ 0 ∧ y ≠ 0)
  | .logicalOr => truth (x ≠ 0 ∨ y ≠ 0)
  | .less => truth (x < y)
  | .greater => truth (x > y)
  | .equal | .superEqual => truth (x = y)
  | .notEqual | .superNotEqual => truth (x ≠ y)
  | .lessEqual | .superLessEqual => truth (x ≤ y)
  | .greaterEqual | .superGreaterEqual => truth (x ≥ y)
  | .plus => wrap (x + y)
  | .minus => wrap (x - y)
  | .divide => x.tdiv y
  | .multiply => wrap (x * y)
  | .modulus => x.tmod y
  | .bitOr => bitwise (· ||| ·) x y
  | .bitXor => bitwise (· ^^^ ·) x y
  | .shiftLeft => wrap (x * 2 ^ y.toNat)
  | .shiftRight => x / 2 ^ y.toNat
  | .bitAnd => bitwise (· &&& ·) x y

def UnaryOp.result (op : UnaryOp) (x : Int) : Int :=
  match op with
  | .not => truth (x = 0)
  | .complement => -x - 1

/-- The operands for which an operator has a result. -/
def BinaryOp.Defined (op : BinaryOp) (x y : Int) : Prop :=
  match op with
  | .divide | .modulus => y ≠ 0 ∧ ¬(x = -2 ^ 63 ∧ y = -1)
  | .shiftLeft | .shiftRight => 0 ≤ y ∧ y < 64
  | _ => True

instance (op : BinaryOp) (x y : Int) : Decidable (op.Defined x y) := by
  unfold BinaryOp.Defined
  cases op <;> infer_instance

/-- The value of an expression, if it has one. -/
def Expr.meaning (r : Reading) : Expr → Option Int
  | .literal l => some (r.literal l)
  | .bool b => some (truth (b = true))
  | .group e => e.meaning r
  | .unary op e => (e.meaning r).map op.result
  | .binary op a b => do
    let x ← a.meaning r
    let y ← b.meaning r
    if op.Defined x y then some (op.result r.nullish x y) else none

/-! ## When it is reached -/

/-- The operators for which the functions have a branch. -/
def BinaryOp.folds : Language → BinaryOp → Bool
  | .gsc, .notEqual | .gsc, .superNotEqual => false
  | .gsc, _ => true
  | .adl, op => [plus, minus, divide, multiply, modulus, bitOr, bitXor, shiftLeft, shiftRight,
      bitAnd].contains op

/-- The expressions that are not refused for an operator or a terminal. -/
def Expr.accepted (lang : Language) : Expr → Bool
  | .literal _ => true
  | .bool _ => lang == .gsc
  | .group e => e.accepted lang
  | .unary op e => lang == .adl && op == .complement && e.accepted lang
  | .binary op a b => op.folds lang && a.accepted lang && b.accepted lang

/-- The operands, as far as they have values. -/
def BinaryOp.DefinedOn (op : BinaryOp) : Option Int → Option Int → Prop
  | some x, some y => op.Defined x y
  | _, _ => True

instance (op : BinaryOp) (x y : Option Int) : Decidable (op.DefinedOn x y) := by
  unfold BinaryOp.DefinedOn
  cases x <;> cases y <;> infer_instance

/-- Every operation that is reached is defined: an operand that is refused ends the evaluation. -/
def Expr.Guarded (lang : Language) : Expr → Prop
  | .literal _ => True
  | .bool _ => True
  | .group e => e.Guarded lang
  | .unary op e => lang = .adl ∧ op = .complement → e.Guarded lang
  | .binary op a b => a.Guarded lang ∧ (a.accepted lang = true → b.Guarded lang ∧
      (b.accepted lang = true → op.DefinedOn (a.meaning codeReading) (b.meaning codeReading)))

instance decidableGuarded (lang : Language) : (e : Expr) → Decidable (e.Guarded lang)
  | .literal _ => inferInstanceAs (Decidable True)
  | .bool _ => inferInstanceAs (Decidable True)
  | .group e => decidableGuarded lang e
  | .unary op e =>
    letI := decidableGuarded lang e
    inferInstanceAs (Decidable (lang = .adl ∧ op = .complement → e.Guarded lang))
  | .binary op a b =>
    letI := decidableGuarded lang a
    letI := decidableGuarded lang b
    inferInstanceAs (Decidable (a.Guarded lang ∧ (a.accepted lang = true → b.Guarded lang ∧
      (b.accepted lang = true →
        op.DefinedOn (a.meaning codeReading) (b.meaning codeReading)))))

/-! ## Machine arithmetic -/

section Arithmetic

variable (v1 v2 : Int64)

theorem toInt_eq_zero : v1.toInt = 0 ↔ v1 = 0 := by
  rw [← Int64.toInt_zero, Int64.toInt_inj]

theorem truth_eq {p q : Prop} [Decidable p] [Decidable q] (h : q ↔ p) :
    truth q = (ofBool (decide p)).toInt := by
  unfold ofBool truth
  by_cases hp : p
  · simp [hp, h.mpr hp]
  · simp [hp, mt h.mp hp]

theorem wrap_toInt : wrap v1.toInt = v1.toInt := by
  have hlow := v1.le_toInt
  have hhigh := v1.toInt_lt
  exact Int.bmod_eq_of_le_mul_two (by omega) (by omega)

theorem bitwise_toInt (f : BitVec 64 → BitVec 64 → BitVec 64) :
    bitwise f v1.toInt v2.toInt = (f v1.toBitVec v2.toBitVec).toInt := by
  unfold bitwise
  rw [← Int64.toInt_toBitVec, ← Int64.toInt_toBitVec, BitVec.ofInt_toInt, BitVec.ofInt_toInt]

theorem toInt_complement : (~~~v1).toInt = -v1.toInt - 1 := by
  have hlow := v1.le_toInt
  have hhigh := v1.toInt_lt
  rw [Int64.toInt_not]
  exact Int.bmod_eq_of_le_mul_two (by omega) (by omega)

/-- A division that fits is not reduced. -/
theorem toInt_div (h : ¬(v1 = .minValue ∧ v2 = -1)) :
    (v1 / v2).toInt = v1.toInt.tdiv v2.toInt := by
  by_cases hmin : v1 = .minValue
  · exact Int64.toInt_div_of_ne_right _ _ fun hneg => h ⟨hmin, hneg⟩
  · exact Int64.toInt_div_of_ne_left _ _ hmin

theorem divisor_iff : (v2 = 0 ∨ v1 = .minValue ∧ v2 = -1) ↔
    ¬(v2.toInt ≠ 0 ∧ ¬(v1.toInt = -2 ^ 63 ∧ v2.toInt = -1)) := by
  have hmin : v1.toInt = -2 ^ 63 ↔ v1 = .minValue := by
    rw [← Int64.toInt_minValue, Int64.toInt_inj]
  have hneg : v2.toInt = -1 ↔ v2 = -1 := by
    rw [← Int64.toInt_inj]
    rfl
  rw [hmin, hneg, ne_eq, toInt_eq_zero]
  tauto

variable {v2}

/-- An amount below the width is not reduced. -/
theorem amount_toNat (h : 0 ≤ v2.toInt ∧ v2.toInt < 64) :
    (v2.toBitVec.smod 64).toNat = v2.toInt.toNat := by
  have hmod : (v2.toBitVec.smod 64).toInt = v2.toInt := by
    rw [BitVec.toInt_smod, Int64.toInt_toBitVec]
    exact Int.fmod_eq_of_lt h.1 h.2
  rw [BitVec.toInt_eq_toNat_cond] at hmod
  have hlt := (v2.toBitVec.smod 64).isLt
  split at hmod <;> omega

theorem toInt_shiftLeft (h : 0 ≤ v2.toInt ∧ v2.toInt < 64) :
    (v1 <<< v2).toInt = wrap (v1.toInt * 2 ^ v2.toInt.toNat) := by
  rw [← Int64.toInt_toBitVec, Int64.toBitVec_shiftLeft, BitVec.shiftLeft_eq', amount_toNat h,
    BitVec.toInt_shiftLeft, Nat.shiftLeft_eq, ← Int64.toInt_toBitVec v1,
    BitVec.toInt_eq_toNat_bmod, wrap, Int.bmod_mul_bmod]
  simp

theorem toInt_shiftRight (h : 0 ≤ v2.toInt ∧ v2.toInt < 64) :
    (v1 >>> v2).toInt = v1.toInt / 2 ^ v2.toInt.toNat := by
  rw [← Int64.toInt_toBitVec, Int64.toBitVec_shiftRight, BitVec.toInt_sshiftRight',
    amount_toNat h, Int64.toInt_toBitVec, Int.shiftRight_eq_div_pow]
  simp

end Arithmetic

theorem toInt_clamp (x : Int) :
    (Int64.ofIntClamp x).toInt = max (-2 ^ 63) (min (2 ^ 63 - 1) x) := by
  have hmin := Int64.toInt_minValue
  have hmax := Int64.toInt_maxValue
  unfold Int64.ofIntClamp
  split
  · split
    · rw [Int64.toInt_ofIntLE]
      omega
    · omega
  · omega

/-- A terminal is read as its value in the bounds. -/
theorem toInt_read (l : Literal) : l.read.toInt = l.cut := by
  have hmagnitude : (strtoll false l.magnitude).toInt = min (2 ^ 63 - 1) (l.magnitude : Int) := by
    rw [strtoll, toInt_clamp]
    simp only [Bool.false_eq_true, if_false]
    omega
  have hsigned : (if l.neg then -strtoll false l.magnitude else strtoll false l.magnitude).toInt =
      if l.neg then -min (2 ^ 63 - 1) (l.magnitude : Int)
      else min (2 ^ 63 - 1) (l.magnitude : Int) := by
    cases l.neg with
    | false => exact hmagnitude
    | true =>
      simp only [if_true]
      rw [Int64.toInt_neg, hmagnitude]
      exact Int.bmod_eq_of_le_mul_two (by omega) (by omega)
  unfold Literal.read Literal.cut
  cases l.kind with
  | integer10 => exact toInt_clamp _
  | integer16 => exact hsigned
  | integer8 => exact hsigned
  | integer2 => exact hsigned

/-- A literal of the type; `-0x8000000000000000` is cut. -/
def Literal.Fits (l : Literal) : Prop :=
  -2 ^ 63 ≤ l.value ∧ l.value < 2 ^ 63 ∧ (l.kind ≠ .integer10 → l.value ≠ -2 ^ 63)

theorem cut_of_fits {l : Literal} (h : l.Fits) : l.cut = wrap l.value := by
  obtain ⟨hlow, hhigh, hmin⟩ := h
  have hwrap : wrap l.value = l.value := Int.bmod_eq_of_le_mul_two (by omega) (by omega)
  rw [hwrap]
  unfold Literal.value at *
  unfold Literal.cut
  by_cases hkind : l.kind = .integer10
  · rw [hkind]
    simp only [Literal.value]
    omega
  · have hmin := hmin hkind
    have hcut : (if l.neg then -min (2 ^ 63 - 1) (l.magnitude : Int)
        else min (2 ^ 63 - 1) (l.magnitude : Int)) =
        if l.neg then -(l.magnitude : Int) else l.magnitude := by
      cases hneg : l.neg with
      | false =>
        rw [hneg] at hlow hhigh
        simp only [Bool.false_eq_true, if_false] at *
        omega
      | true =>
        rw [hneg] at hlow hhigh hmin
        simp only [if_true] at *
        omega
    cases hk : l.kind with
    | integer10 => exact absurd hk hkind
    | integer16 => exact hcut
    | integer8 => exact hcut
    | integer2 => exact hcut

/-- The literals fit and there is no `??`. -/
def Expr.Plain : Expr → Prop
  | .literal l => l.Fits
  | .bool _ => True
  | .group e => e.Plain
  | .unary _ e => e.Plain
  | .binary op a b => op ≠ .nullish ∧ a.Plain ∧ b.Plain

/-- Then the two readings are one. -/
theorem meaning_of_plain {e : Expr} (h : e.Plain) :
    e.meaning codeReading = e.meaning languageReading := by
  induction e with
  | literal l => exact congrArg some (cut_of_fits h)
  | bool b => rfl
  | group e ih => exact ih h
  | unary op e ih => rw [Expr.meaning, Expr.meaning, ih h]
  | binary op a b iha ihb =>
    obtain ⟨hop, ha, hb⟩ := h
    have hresult (x y : Int) :
        op.result codeReading.nullish x y = op.result languageReading.nullish x y := by
      cases op <;> first | rfl | exact absurd rfl hop
    simp only [Expr.meaning, iha ha, ihb hb, hresult]

/-! ## One operator -/

/-- What a function does with two values. -/
def binaryValue : Language → BinaryOp → Int64 → Int64 → Value
  | .gsc => gscBinary
  | .adl => arithmetic

/-- The result is the one of the operator, or the operator has no branch, or no result. -/
def OpSpec (lang : Language) (op : BinaryOp) (x y : Int) : Value → Prop
  | .ok v => op.folds lang = true ∧ op.Defined x y ∧ op.result codeReading.nullish x y = v.toInt
  | .error .rejected => op.folds lang = false ∧ op.Defined x y
  | .error .undefined => ¬op.Defined x y

section Operators

variable (lang : Language) (v1 v2 : Int64)

theorem divide_spec {op : BinaryOp} {result : Int64} (hop : op.folds lang = true)
    (hdefined : op.Defined v1.toInt v2.toInt ↔
      v2.toInt ≠ 0 ∧ ¬(v1.toInt = -2 ^ 63 ∧ v2.toInt = -1))
    (hresult : op.Defined v1.toInt v2.toInt →
      op.result codeReading.nullish v1.toInt v2.toInt = result.toInt) :
    OpSpec lang op v1.toInt v2.toInt (divide v1 v2 result) := by
  unfold divide
  by_cases h : v2 = 0 ∨ v1 = .minValue ∧ v2 = -1
  · rw [if_pos h]
    exact fun hd => (divisor_iff v1 v2).mp h (hdefined.mp hd)
  · rw [if_neg h]
    have hd := hdefined.mpr (not_not.mp (fun hn => h ((divisor_iff v1 v2).mpr hn)))
    exact ⟨hop, hd, hresult hd⟩

theorem shift_spec {op : BinaryOp} {result : Int64} (hop : op.folds lang = true)
    (hdefined : op.Defined v1.toInt v2.toInt ↔ 0 ≤ v2.toInt ∧ v2.toInt < 64)
    (hresult : 0 ≤ v2.toInt ∧ v2.toInt < 64 →
      op.result codeReading.nullish v1.toInt v2.toInt = result.toInt) :
    OpSpec lang op v1.toInt v2.toInt (shift v2 result) := by
  unfold shift
  by_cases h : 0 ≤ v2.toInt ∧ v2.toInt < 64
  · rw [if_pos h]
    exact ⟨hop, hdefined.mpr h, hresult h⟩
  · rw [if_neg h]
    exact fun hd => h (hdefined.mp hd)

/-- The ten operators of both functions. -/
theorem arithmetic_spec (op : BinaryOp) (hop : op.folds .adl = true) :
    OpSpec lang op v1.toInt v2.toInt (arithmetic op v1 v2) := by
  have hfolds : op.folds lang = true := by
    cases lang with
    | adl => exact hop
    | gsc => revert hop; cases op <;> decide
  cases op with
  | plus => exact ⟨hfolds, trivial, (Int64.toInt_add v1 v2).symm⟩
  | minus => exact ⟨hfolds, trivial, (Int64.toInt_sub v1 v2).symm⟩
  | multiply => exact ⟨hfolds, trivial, (Int64.toInt_mul v1 v2).symm⟩
  | divide =>
    refine divide_spec lang v1 v2 hfolds Iff.rfl fun hd => (toInt_div v1 v2 ?_).symm
    exact fun h => (divisor_iff v1 v2).mp (.inr h) hd
  | modulus =>
    exact divide_spec lang v1 v2 hfolds Iff.rfl fun _ => (Int64.toInt_mod v1 v2).symm
  | bitOr => exact ⟨hfolds, trivial, bitwise_toInt v1 v2 _⟩
  | bitXor => exact ⟨hfolds, trivial, bitwise_toInt v1 v2 _⟩
  | bitAnd => exact ⟨hfolds, trivial, bitwise_toInt v1 v2 _⟩
  | shiftLeft =>
    exact shift_spec lang v1 v2 hfolds Iff.rfl fun h => (toInt_shiftLeft v1 h).symm
  | shiftRight =>
    exact shift_spec lang v1 v2 hfolds Iff.rfl fun h => (toInt_shiftRight v1 h).symm
  | _ => exact absurd hop (by decide)

/-- Each operator of each function. -/
theorem binaryValue_spec (op : BinaryOp) :
    OpSpec lang op v1.toInt v2.toInt (binaryValue lang op v1 v2) := by
  by_cases hop : op.folds .adl = true
  · have h := arithmetic_spec lang v1 v2 op hop
    cases lang with
    | adl => exact h
    | gsc => cases op with
      | plus | minus | divide | multiply | modulus | bitOr | bitXor | shiftLeft | shiftRight
      | bitAnd => exact h
      | _ => exact absurd hop (by decide)
  · cases lang with
    | adl => cases op with
      | plus | minus | divide | multiply | modulus | bitOr | bitXor | shiftLeft | shiftRight
      | bitAnd => exact absurd rfl hop
      | _ => exact ⟨rfl, trivial⟩
    | gsc =>
      have hzero1 := toInt_eq_zero v1
      have hzero2 := toInt_eq_zero v2
      cases op with
      | plus | minus | divide | multiply | modulus | bitOr | bitXor | shiftLeft | shiftRight
      | bitAnd => exact absurd rfl hop
      | notEqual | superNotEqual => exact ⟨rfl, trivial⟩
      | nullish =>
        refine ⟨rfl, trivial, ?_⟩
        simp only [BinaryOp.result, codeReading, hzero1, ne_eq, ite_not]
        split <;> rfl
      | logicalAnd =>
        exact ⟨rfl, trivial, truth_eq (and_congr (not_congr hzero1) (not_congr hzero2))⟩
      | logicalOr =>
        exact ⟨rfl, trivial, truth_eq (or_congr (not_congr hzero1) (not_congr hzero2))⟩
      | less => exact ⟨rfl, trivial, truth_eq Int64.lt_iff_toInt_lt.symm⟩
      | greater => exact ⟨rfl, trivial, truth_eq Int64.lt_iff_toInt_lt.symm⟩
      | equal | superEqual => exact ⟨rfl, trivial, truth_eq Int64.toInt_inj⟩
      | lessEqual | superLessEqual => exact ⟨rfl, trivial, truth_eq Int64.le_iff_toInt_le.symm⟩
      | greaterEqual | superGreaterEqual =>
        exact ⟨rfl, trivial, truth_eq Int64.le_iff_toInt_le.symm⟩

end Operators

/-! ## The whole expression -/

/-- What a function makes of an expression. -/
def Expr.Spec (lang : Language) (e : Expr) : Value → Prop
  | .ok v => e.accepted lang = true ∧ e.Guarded lang ∧ e.meaning codeReading = some v.toInt
  | .error .rejected => e.accepted lang = false ∧ e.Guarded lang
  | .error .undefined => ¬e.Guarded lang

section Expressions

variable {lang : Language}

/-- An operator between two operands, in the order of the functions. -/
theorem binary_spec {op : BinaryOp} {a b : Expr} {va vb : Value} (ha : a.Spec lang va)
    (hb : b.Spec lang vb) :
    (Expr.binary op a b).Spec lang (do binaryValue lang op (← va) (← vb)) := by
  cases va with
  | error stop => cases stop with
    | rejected => exact ⟨by simp [Expr.accepted, ha.1], ha.2, fun h => by simp [ha.1] at h⟩
    | undefined => exact fun h => ha h.1
  | ok x => cases vb with
    | error stop => cases stop with
      | rejected =>
        exact ⟨by simp [Expr.accepted, hb.1], ha.2.1, fun _ => ⟨hb.2, fun h => by simp [hb.1] at h⟩⟩
      | undefined => exact fun h => hb (h.2 ha.1).1
    | ok y =>
      obtain ⟨haccept, hguard, hmean⟩ := ha
      obtain ⟨haccept', hguard', hmean'⟩ := hb
      have hop := binaryValue_spec lang x y op
      have hdefined : (Expr.binary op a b).Guarded lang ↔ op.Defined x.toInt y.toInt := by
        simp only [Expr.Guarded, haccept, haccept', hguard, hguard', hmean, hmean', true_and,
          forall_true_left, BinaryOp.DefinedOn]
      show (Expr.binary op a b).Spec lang (binaryValue lang op x y)
      cases hv : binaryValue lang op x y with
      | ok v =>
        rw [hv] at hop
        refine ⟨by simp [Expr.accepted, haccept, haccept', hop.1], hdefined.mpr hop.2.1, ?_⟩
        simp [Expr.meaning, hmean, hmean', hop.2.1, hop.2.2]
      | error stop => cases stop with
        | rejected =>
          rw [hv] at hop
          exact ⟨by simp [Expr.accepted, hop.1], hdefined.mpr hop.2⟩
        | undefined =>
          rw [hv] at hop
          exact fun h => hop (hdefined.mp h)

theorem gscValue_spec (e : Expr) : e.Spec .gsc (gscValue e) := by
  induction e with
  | literal l => exact ⟨rfl, trivial, by rw [toInt_read]; rfl⟩
  | bool b => exact ⟨rfl, trivial, by cases b <;> rfl⟩
  | group e ih =>
    rw [gscValue]
    cases hv : gscValue e with
    | ok v => rw [hv] at ih; exact ih
    | error stop => rw [hv] at ih; cases stop <;> exact ih
  | unary op e _ => exact ⟨rfl, fun h => by cases h.1⟩
  | binary op a b iha ihb => exact binary_spec iha ihb

theorem adlValue_spec (e : Expr) : e.Spec .adl (adlValue e) := by
  induction e with
  | literal l => exact ⟨rfl, trivial, by rw [toInt_read]; rfl⟩
  | bool b => exact ⟨rfl, trivial⟩
  | group e ih =>
    rw [adlValue]
    cases hv : adlValue e with
    | ok v => rw [hv] at ih; exact ih
    | error stop => rw [hv] at ih; cases stop <;> exact ih
  | unary op e ih => cases op with
    | not => exact ⟨rfl, fun h => by cases h.2⟩
    | complement =>
      rw [adlValue]
      cases hv : adlValue e with
      | ok v =>
        rw [hv] at ih
        refine ⟨ih.1, fun _ => ih.2.1, ?_⟩
        simp only [Expr.meaning, ih.2.2, Option.map_some, UnaryOp.result, unaryValue,
          toInt_complement]
      | error stop =>
        rw [hv] at ih
        cases stop with
        | rejected => exact ⟨ih.1, fun _ => ih.2⟩
        | undefined => exact fun h => ih (h ⟨rfl, rfl⟩)
  | binary op a b iha ihb => exact binary_spec iha ihb

theorem numberNodeValue_spec (lang : Language) (e : Expr) :
    e.Spec lang (numberNodeValue lang e) := by
  cases lang with
  | gsc => exact gscValue_spec e
  | adl => exact adlValue_spec e

end Expressions

/-- The value is the one of the expression, or the expression is refused. -/
def Right (meaning : Option Int) : Value → Prop
  | .ok v => meaning = some v.toInt
  | .error .rejected => True
  | .error .undefined => False

/-- **The functions return the value or refuse exactly when every operation that is reached is
defined, and cutting the literals or reading `??` as a test for 0 does not change the value.** -/
theorem value_right_iff (lang : Language) (e : Expr) :
    Right (e.meaning languageReading) (numberNodeValue lang e) ↔
      e.Guarded lang ∧ (e.accepted lang = true →
        e.meaning codeReading = e.meaning languageReading) := by
  have hspec := numberNodeValue_spec lang e
  cases hv : numberNodeValue lang e with
  | ok v =>
    rw [hv] at hspec
    obtain ⟨haccept, hguard, hmean⟩ := hspec
    constructor
    · intro h
      exact ⟨hguard, fun _ => hmean.trans h.symm⟩
    · intro h
      exact (h.2 haccept).symm.trans hmean
  | error stop => cases stop with
    | rejected =>
      rw [hv] at hspec
      exact ⟨fun _ => ⟨hspec.2, fun h => by simp [hspec.1] at h⟩, fun _ => trivial⟩
    | undefined =>
      rw [hv] at hspec
      exact ⟨fun h => h.elim, fun h => hspec h.1⟩

/-- `1 / 0`. -/
def oneOverZero : Expr :=
  .binary .divide (.literal ⟨.integer10, false, [1]⟩) (.literal ⟨.integer8, false, []⟩)

theorem oneOverZero_undefined :
    (¬ ∀ e : Expr, Right (e.meaning languageReading) (numberNodeValue .gsc e)) ∧
      ¬ ∀ e : Expr, Right (e.meaning languageReading) (numberNodeValue .adl e) := by
  constructor
  · intro h
    have hright := h oneOverZero
    rw [show numberNodeValue .gsc oneOverZero = .error .undefined by decide] at hright
    exact hright
  · intro h
    have hright := h oneOverZero
    rw [show numberNodeValue .adl oneOverZero = .error .undefined by decide] at hright
    exact hright

end Acts.NumberNode
