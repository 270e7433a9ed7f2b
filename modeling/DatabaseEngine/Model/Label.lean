import DatabaseEngine.Model.Semantic
import DatabaseEngine.Model.Lexer
import Mathlib.Data.Nat.Digits.Defs

/-!
# `DatabaseEngine.Model.Label`: numbers, dates and expressions as text

What the library functions `strtoll`, `strtod` and `snprintf` do with the texts the engine
gives them, `dateToText` of `07_storage.c` and `exprLabel` of `17_expr.c`.

A decimal number is an exact fraction here, so rounding is a matter of whole numbers: to the
nearest double, and to the nearest six digits, a tie to the even one. `strtod` reports a range
error where the number is beyond the doubles or below the normal ones.
-/

set_option autoImplicit false

namespace DatabaseEngine

open Library

/-! ### Numbers -/

/-- A whole number in digits. -/
def decimal (n : Nat) : List UInt8 :=
  if n = 0 then [48] else (Nat.digits 10 n).reverse.map fun d => UInt8.ofNat (48 + d)

/-- `%0*u`. -/
def padded (width n : Nat) : List UInt8 :=
  List.replicate (width - (decimal n).length) 48 ++ decimal n

/-- `%d`. -/
def signed (n : Int) : List UInt8 := if n < 0 then 45 :: decimal n.natAbs else decimal n.natAbs

/-- The digits at the head of a text as a number. -/
def strtoll (text : List UInt8) : Nat := (readDigits (text.takeWhile isdigit)).getD 0

/-- The quotient rounded to the nearest whole number, a tie to the even one. -/
def roundHalfEven (num den : Nat) : Nat :=
  let q := num / den
  let twice := 2 * (num % den)
  if den < twice ∨ twice = den ∧ q % 2 = 1 then q + 1 else q

/-- The bits of the double nearest to a positive fraction, none when it is out of range. -/
def nearestDouble (num den : Nat) : Option UInt64 :=
  -- 2 ^ shift is worth the last bit of the fraction
  let size : Int := (Nat.log2 num : Int) - Nat.log2 den
  let fits : Int → Bool := fun e =>
    if 0 ≤ e then decide (den * 2 ^ e.toNat ≤ num) else decide (den ≤ num * 2 ^ (-e).toNat)
  let exponent := if fits size then size else size - 1
  let shift := exponent - 52
  let rounded :=
    if 0 ≤ shift then roundHalfEven num (den * 2 ^ shift.toNat)
    else roundHalfEven (num * 2 ^ (-shift).toNat) den
  if exponent < -1022 then none
  else
    let bits := (exponent + 1022).toNat * 2 ^ 52 + rounded
    if 0x7FF0000000000000 ≤ bits then none else some (UInt64.ofNat bits)

/-- `strtod` on digits with one dot. -/
def strtod (text : List UInt8) : Option UInt64 :=
  let whole := text.takeWhile isdigit
  let fraction := ((text.drop whole.length).drop 1).takeWhile isdigit
  let num := (readDigits (whole ++ fraction)).getD 0
  if num = 0 then some 0 else nearestDouble num (10 ^ fraction.length)

/-- Digits without the zeroes at their end, and without the dot if nothing follows it. -/
def trimmed (whole fraction : List UInt8) : List UInt8 :=
  let kept := (fraction.reverse.dropWhile (· == 48)).reverse
  if kept.isEmpty then whole else whole ++ 46 :: kept

/-- A positive fraction to six digits, as `%g` writes it. -/
def sixDigits (num den : Nat) : List UInt8 :=
  let exponent : Int :=
    if den ≤ num then ((decimal (num / den)).length : Int) - 1
    else -(((List.range 400).find? fun k => decide (den ≤ num * 10 ^ k)).getD 400 : Int)
  let down := (5 - exponent).toNat
  let up := (exponent - 5).toNat
  let digits := roundHalfEven (num * 10 ^ down) (den * 10 ^ up)
  let exponent := if digits = 1000000 then exponent + 1 else exponent
  let digits := decimal (if digits = 1000000 then 100000 else digits)
  if exponent < -4 ∨ 6 ≤ exponent then
    trimmed (digits.take 1) (digits.drop 1) ++ 101 :: (if exponent < 0 then 45 else 43) ::
      padded 2 exponent.natAbs
  else if exponent < 0 then
    trimmed [48] (List.replicate (exponent.natAbs - 1) 48 ++ digits)
  else trimmed (digits.take (exponent.toNat + 1)) (digits.drop (exponent.toNat + 1))

/-- `%g`. -/
def formatG (bits : UInt64) : List UInt8 :=
  let sign := if bits &&& 0x8000000000000000 ≠ 0 then [45] else []
  let magnitude := (bits &&& 0x7FFFFFFFFFFFFFFF).toNat
  let exponent := magnitude / 2 ^ 52
  let fraction := magnitude % 2 ^ 52
  sign ++
    if isNaN bits then ascii "nan"
    else if exponent = 2047 then ascii "inf"
    else if magnitude = 0 then [48]
    else
      let mantissa := if exponent = 0 then fraction else fraction + 2 ^ 52
      let shift := max exponent 1
      sixDigits (mantissa * 2 ^ (shift - 1075)) (2 ^ (1075 - shift))

/-! ### Dates -/

/-- Year, month and day of a day number. -/
def civilFromDays (days : Int) : Int × Int × Int :=
  let z := days + 719468
  let era := (if 0 ≤ z then z else z - 146096).tdiv 146097
  let doe := z - era * 146097
  let yoe := (doe - doe / 1460 + doe / 36524 - doe / 146096) / 365
  let doy := doe - (365 * yoe + yoe / 4 - yoe / 100)
  let mp := (5 * doy + 2) / 153
  let day := doy - (153 * mp + 2) / 5 + 1
  let month := mp + (if mp < 10 then 3 else -9)
  (yoe + era * 400 + (if month ≤ 2 then 1 else 0), month, day)

/-- `%04u-%02u-%02u`, of unsigned remainders. -/
def dateToText (days : Int32) : List UInt8 :=
  let (year, month, day) := civilFromDays days.toInt
  let unsigned : Int → Nat → Nat := fun n m => (n % 2 ^ 32).toNat % m
  padded 4 (unsigned year 10000) ++ 45 :: padded 2 (unsigned month 100) ++ 45 ::
    padded 2 (unsigned day 100)

/-! ### Labels -/

/-- The sign of an operator. -/
def arithSymbol : ArithOp → UInt8
  | .ARITH_ADD => 43
  | .ARITH_SUB => 45
  | .ARITH_MUL => 42
  | .ARITH_DIV => 47
  | .ARITH_MOD => 37

/-- A literal as it is called. -/
def literalLabel (value : Value) : List UInt8 :=
  if value.isNull then ascii "NULL"
  else
    match value.type with
    | .TYPE_INT => signed value.intValue.toInt
    | .TYPE_FLOAT => formatG value.floatValue
    | .TYPE_DATE => 39 :: dateToText value.intValue ++ [39]
    | .TYPE_TEXT => 39 :: value.text ++ [39]

/-- A child in brackets where it is a sum or a product. -/
def wrapped (pool : ExprPool) (i : Int32) (label : Name) : List UInt8 :=
  match pool.node i with
  | some node => if node.kind = .EXPR_BINARY then 40 :: label.1 ++ [41] else label.1
  | none => label.1

/-- What an expression is called in the output, in a buffer of `NAME_LEN` at every level. -/
def exprLabelFrom : Nat → ExprPool → Int32 → Name
  | 0, _, _ => Name.ofBytes []
  | fuel + 1, pool, i =>
    match pool.node i with
    | none => Name.ofBytes []
    | some node =>
      match node.kind with
      | .EXPR_COLUMN => node.column
      | .EXPR_LITERAL => Name.ofBytes (literalLabel node.literal)
      | .EXPR_NEGATE => Name.ofBytes (45 :: (exprLabelFrom fuel pool node.left).1)
      | .EXPR_BINARY =>
        Name.ofBytes (wrapped pool node.left (exprLabelFrom fuel pool node.left)
          ++ arithSymbol node.op :: wrapped pool node.right (exprLabelFrom fuel pool node.right))

/-- The header of an expression. -/
def exprLabel (pool : ExprPool) (i : Int32) : Name := exprLabelFrom (pool.length + 1) pool i

end DatabaseEngine
