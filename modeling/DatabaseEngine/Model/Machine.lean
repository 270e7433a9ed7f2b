import DatabaseEngine.Model.Label

/-!
# `DatabaseEngine.Model.Machine`: arithmetic at the width of its types

The same computations as `daysFromCivil` and `civilFromDays` of `07_storage.c` and `applyInts` of
`17_expr.c`, once more and operation by operation: every sum, difference and product answers none
where it does not fit the type that C computes it in, which is where C leaves the result undefined.
An answer is therefore one that no operation on the way has overflowed.
-/

set_option autoImplicit false

namespace DatabaseEngine

/-- A result of type `int`. -/
def inInt (n : Int) : Option Int := if -2147483648 ≤ n ∧ n ≤ 2147483647 then some n else none

/-- A result of type `long long`. -/
def inLong (n : Int) : Option Int :=
  if -9223372036854775808 ≤ n ∧ n ≤ 9223372036854775807 then some n else none

/-! ### Dates -/

/-- What an era is counted from: a negative number goes down by one day or year less than an era. -/
def eraStart (fits : Int → Option Int) (n less : Int) : Option Int :=
  if 0 ≤ n then some n else fits (n - less)

/-- `daysFromCivil`, each operation checked against `int`. -/
def daysFromCivilInt (year month day : Int) : Option Int := do
  let year ← inInt (year - if month ≤ 2 then 1 else 0)
  let start ← eraStart inInt year 399
  let era := start.tdiv 400
  let eraYears ← inLong (era * 400)
  let rest ← inLong (year - eraYears)
  let yoe ← inInt rest
  let march ← inInt (month + if 2 < month then -3 else 9)
  let scaled ← inInt (153 * march)
  let scaled ← inInt (scaled + 2)
  let doy ← inInt (scaled.tdiv 5 + day)
  let doy ← inInt (doy - 1)
  let doe ← inInt (yoe * 365)
  let doe ← inInt (doe + yoe.tdiv 4)
  let doe ← inInt (doe - yoe.tdiv 100)
  let doe ← inInt (doe + doy)
  let days ← inLong (era * 146097)
  let days ← inLong (days + doe)
  inLong (days - 719468)

/-- `civilFromDays`, each operation checked against its C type. -/
def civilFromDaysInt (days : Int) : Option (Int × Int × Int) := do
  let z ← inLong (days + 719468)
  let start ← eraStart inLong z 146096
  let era := start.tdiv 146097
  let eraDays ← inLong (era * 146097)
  let rest ← inLong (z - eraDays)
  let doe ← inInt rest
  let years ← inInt (doe - doe.tdiv 1460)
  let years ← inInt (years + doe.tdiv 36524)
  let years ← inInt (years - doe.tdiv 146096)
  let yoe := years.tdiv 365
  let before ← inInt (365 * yoe)
  let before ← inInt (before + yoe.tdiv 4)
  let before ← inInt (before - yoe.tdiv 100)
  let doy ← inInt (doe - before)
  let fives ← inInt (5 * doy)
  let fives ← inInt (fives + 2)
  let mp := fives.tdiv 153
  let scaled ← inInt (153 * mp)
  let scaled ← inInt (scaled + 2)
  let day ← inInt (doy - scaled.tdiv 5)
  let day ← inInt (day + 1)
  let month ← inInt (mp + if mp < 10 then 3 else -9)
  let eraYears ← inLong (era * 400)
  let year ← inLong (yoe + eraYears)
  let year ← inInt year
  let year ← inInt (year + if month ≤ 2 then 1 else 0)
  some (year, month, day)

/-! ### Expressions -/

/-- `applyInts`, with sums, differences and products in a `long long` and a quotient and its
remainder in an `int`. -/
def applyIntsInt (op : ArithOp) (left right : Int32) : Option (Except ErrorCode Value) :=
  match op with
  | .ARITH_ADD => (inLong (left.toInt + right.toInt)).map narrow
  | .ARITH_SUB => (inLong (left.toInt - right.toInt)).map narrow
  | .ARITH_MUL => (inLong (left.toInt * right.toInt)).map narrow
  | .ARITH_DIV =>
    if right = 0 then some (.error .EXEC_DIVIDE_BY_ZERO)
    else if left.toInt = -2147483648 ∧ right.toInt = -1 then some (.error .VALUE_OUT_OF_RANGE)
    else (inInt (left.toInt.tdiv right.toInt)).map narrow
  | .ARITH_MOD =>
    if right = 0 then some (.error .EXEC_DIVIDE_BY_ZERO)
    else if left.toInt = -2147483648 ∧ right.toInt = -1 then some (.error .VALUE_OUT_OF_RANGE)
    else
      -- C leaves a remainder undefined whose quotient does not fit
      (inInt (left.toInt.tdiv right.toInt)).bind fun _ =>
        (inInt (left.toInt.tmod right.toInt)).map narrow

end DatabaseEngine
