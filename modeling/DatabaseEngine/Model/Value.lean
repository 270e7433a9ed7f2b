import DatabaseEngine.Model.File
import Mathlib.Data.List.TakeWhile

/-!
# `DatabaseEngine.Model.Value`: error codes, names, values and rows

The types of `sql_common.h` that every stage shares, and the value helpers of
`07_storage.c`.

A name is a C string that fits its `NAME_LEN` buffer (`Name`). A text value carries its
bytes; where they live, in an arena or in a page, is not modelled. An `int` is an `Int32`. A
`double` is its 64 bits: equality and order are those of IEEE 754 read off the bits, and the
arithmetic goes through `Float`.
-/

set_option autoImplicit false

namespace DatabaseEngine

open Library

/-- The error codes that the modelled functions answer, without their common `ERROR_`. -/
inductive ErrorCode
  | TOO_MANY_TOKENS
  | TOKEN_TOO_LONG
  | UNTERMINATED_STRING
  | UNKNOWN_TOKEN
  | VALUE_OUT_OF_RANGE
  | SYNTAX_INVALID_STATEMENT
  | SYNTAX_EXPECTED_FROM
  | SYNTAX_EXPECTED_TABLE_NAME
  | SYNTAX_EXPECTED_COLUMN
  | SYNTAX_EXPECTED_TYPE
  | SYNTAX_EXPECTED_PARENTHESES
  | SYNTAX_TRAILING_TOKENS
  | SYNTAX_TOO_MANY_COLUMNS
  | SYNTAX_EXPECTED_VALUES
  | SYNTAX_EXPECTED_VALUE
  | SYNTAX_EXPECTED_OPERATOR
  | SYNTAX_EXPECTED_BY
  | SYNTAX_UNKNOWN_FUNCTION
  | SYNTAX_EXPECTED_NULL
  | SYNTAX_EXPECTED_ON
  | SYNTAX_EXPECTED_SET
  | SYNTAX_EXPECTED_ASSIGNMENT
  | SYNTAX_CONDITION_TOO_COMPLEX
  | SYNTAX_TOO_MANY_TABLES
  | SYNTAX_EXPECTED_KEY
  | SYNTAX_EXPECTED_SIZE
  | SYNTAX_EXPRESSION_TOO_COMPLEX
  | SYNTAX_EXPECTED_TABLE
  | SYNTAX_EXPECTED_TO
  | SYNTAX_TOO_MANY_SUBQUERIES
  | SEMANTIC_TABLE_NOT_FOUND
  | SEMANTIC_TABLE_EXISTS
  | SEMANTIC_COLUMN_NOT_FOUND
  | SEMANTIC_TYPE_MISMATCH
  | SEMANTIC_COLUMN_COUNT
  | SEMANTIC_DUPLICATE_COLUMN
  | SEMANTIC_INDEX_EXISTS
  | SEMANTIC_INDEX_NOT_FOUND
  | SEMANTIC_DATABASE_EXISTS
  | SEMANTIC_DATABASE_NOT_FOUND
  | SEMANTIC_CANNOT_DROP_DEFAULT
  | SEMANTIC_AMBIGUOUS_COLUMN
  | SEMANTIC_DUPLICATE_TABLE
  | SEMANTIC_JOIN_TOO_WIDE
  | SEMANTIC_MISSING_VALUE
  | SEMANTIC_INVALID_DATE
  | SEMANTIC_LAST_COLUMN
  | SEMANTIC_ALTER_UNSUPPORTED
  | SEMANTIC_CHECK_BLOCKS_DROP
  | SEMANTIC_CORRELATED_SUBQUERY
  | SEMANTIC_SUBQUERY_COLUMNS
  | SEMANTIC_NOT_GROUPED
  | SEMANTIC_HAVING_WITHOUT_GROUP
  | EXEC_TABLE_FULL
  | EXEC_TOO_MANY_TABLES
  | EXEC_TOO_MANY_INDEXES
  | EXEC_TOO_MANY_DATABASES
  | EXEC_ROW_TOO_LARGE
  | EXEC_OUT_OF_MEMORY
  | EXEC_TRANSACTION_ACTIVE
  | EXEC_NO_TRANSACTION
  | EXEC_CANNOT_ROLLBACK
  | EXEC_NOT_NULL
  | EXEC_NOT_UNIQUE
  | EXEC_CHECK_FAILED
  | EXEC_VALUE_TOO_LONG
  | EXEC_DIVIDE_BY_ZERO
  | EXEC_TABLE_TOO_WIDE
  | EXEC_SUBQUERY_NOT_SCALAR
  | IO_CANNOT_OPEN
  | IO_BAD_FORMAT
  | IO_VERSION
  | IO_WRITE
  | IO_CHECKSUM
  | GENERAL_ERROR
  deriving DecidableEq, Repr

/-- How many columns a table may have. -/
def MAX_COLS : Nat := 16
/-- How many tables a database may have. -/
def MAX_TABLES : Nat := 64
/-- How many indexes a database may have. -/
def MAX_INDEXES : Nat := 64
/-- How many databases there may be. -/
def MAX_DATABASES : Nat := 8
/-- How many subqueries a statement may have. -/
def MAX_SUBQUERIES : Nat := 4
/-- How many nodes a condition may have. -/
def MAX_CONDITION_NODES : Nat := 32
/-- How many nodes the expressions of a statement may have. -/
def MAX_EXPR_NODES : Nat := 32
/-- The buffer of a name. -/
def NAME_LEN : Nat := 64
/-- The buffer of a line. -/
def LINE_LEN : Nat := 8192
/-- The buffer of a token's text. -/
def VALUE_LEN : Nat := LINE_LEN

/-! ### Names -/

/-- A C string in a buffer of `NAME_LEN` bytes. -/
def Name : Type := { text : List UInt8 // text.length < NAME_LEN ∧ (0 : UInt8) ∉ text }

instance : DecidableEq Name := inferInstanceAs (DecidableEq (Subtype _))

/-- A name from its bytes, cut as `snprintf` cuts it. -/
def Name.ofBytes (text : List UInt8) : Name :=
  ⟨(text.takeWhile (· ≠ 0)).take (NAME_LEN - 1), by
    constructor
    · have : 0 < NAME_LEN := by decide
      exact Nat.lt_of_le_of_lt (List.length_take_le ..) (by omega)
    · intro h
      have := List.mem_takeWhile_imp (List.mem_of_mem_take h)
      simp at this⟩

/-- `tolower` in the C locale. -/
def tolower (c : UInt8) : UInt8 := if 65 ≤ c ∧ c ≤ 90 then c + 32 else c

/-- Two byte strings that `_stricmp` finds equal. -/
def sameText (a b : List UInt8) : Bool := a.map tolower == b.map tolower

/-- `_stricmp(a, b) == 0`. -/
def Name.same (a b : Name) : Bool := sameText a.1 b.1

/-- The part of a name after its last dot, and whether it has one (`strrchr`). -/
def afterDot (text : List UInt8) : Option (List UInt8) :=
  if (46 : UInt8) ∈ text then some (text.reverse.takeWhile (· ≠ 46)).reverse else none

/-- The part of a name before its last dot. -/
def beforeDot (text : List UInt8) : List UInt8 :=
  text.take (text.length - (text.reverse.takeWhile (· ≠ 46)).length - 1)

/-- The part after the last dot, or the whole name when there is none. -/
def bareName (text : List UInt8) : List UInt8 := (afterDot text).getD text

/-- A text is the same as itself. -/
theorem sameText_refl (a : List UInt8) : sameText a a = true := by simp [sameText]

/-- It makes no difference which text is compared with which. -/
theorem sameText_comm (a b : List UInt8) : sameText a b = sameText b a := by
  unfold sameText
  by_cases h : a.map tolower = b.map tolower
  · simp [h]
  · simp [h, Ne.symm h]

/-- Texts that are the same as a third are the same. -/
theorem sameText_trans {a b c : List UInt8} (hab : sameText a b = true)
    (hbc : sameText b c = true) : sameText a c = true := by
  simp only [sameText, beq_iff_eq] at *
  exact hab.trans hbc

/-! ### Values -/

/-- The types of a column. -/
inductive ColType
  | TYPE_INT
  | TYPE_TEXT
  | TYPE_FLOAT
  | TYPE_DATE
  deriving DecidableEq, Repr

/-- The number written into every record. -/
def ColType.code : ColType → Nat
  | TYPE_INT => 0
  | TYPE_TEXT => 1
  | TYPE_FLOAT => 2
  | TYPE_DATE => 3

/-- A value as the stages pass it round. The fields its type does not use are kept, because
the catalog writes them all. -/
structure Value where
  type : ColType
  isNull : Bool
  intValue : Int32
  floatValue : UInt64
  text : List UInt8
  deriving DecidableEq

/-- A row: `ncols` values. -/
abbrev Row := List Value

/-- The types that are kept as an `int`. -/
def ColType.intLike : ColType → Bool
  | TYPE_INT | TYPE_DATE => true
  | TYPE_TEXT | TYPE_FLOAT => false

/-- A NULL of a type. -/
def setNull (type : ColType) : Value :=
  { type := type, isNull := true, intValue := 0, floatValue := 0, text := [] }

/-- A FLOAT by its bits. -/
def setFloat (number : UInt64) : Value :=
  { type := .TYPE_FLOAT, isNull := false, intValue := 0, floatValue := number, text := [] }

/-- A TEXT. -/
def setText (text : List UInt8) : Value :=
  { type := .TYPE_TEXT, isNull := false, intValue := 0, floatValue := 0, text := text }

/-! ### Doubles by their bits -/

/-- A NaN: all exponent bits set and a fraction. -/
def isNaN (bits : UInt64) : Bool := 0x7FF0000000000000 < (bits &&& 0x7FFFFFFFFFFFFFFF)

/-- Either zero. -/
def isZero (bits : UInt64) : Bool := (bits &&& 0x7FFFFFFFFFFFFFFF) == 0

/-- Sign and magnitude as one integer that is in order with the double. -/
def floatRank (bits : UInt64) : Int :=
  if bits &&& 0x8000000000000000 ≠ 0 then -((bits &&& 0x7FFFFFFFFFFFFFFF).toNat : Int)
  else (bits.toNat : Int)

/-- `a == b` on doubles. -/
def floatEq (a b : UInt64) : Bool := !isNaN a && !isNaN b && floatRank a == floatRank b

/-- `a < b` on doubles. -/
def floatLt (a b : UInt64) : Bool := !isNaN a && !isNaN b && decide (floatRank a < floatRank b)

/-! ### Comparing values -/

/-- `memcmp` on the shared prefix, then the length. -/
def compareText : List UInt8 → List UInt8 → Ordering
  | [], [] => .eq
  | [], _ :: _ => .lt
  | _ :: _, [] => .gt
  | a :: as, b :: bs => if a < b then .lt else if b < a then .gt else compareText as bs

/-- Orders two values of the same type. -/
def compareValues (a b : Value) : Ordering :=
  if a.type.intLike then
    if a.intValue < b.intValue then .lt else if b.intValue < a.intValue then .gt else .eq
  else if a.type = .TYPE_FLOAT then
    if floatLt a.floatValue b.floatValue then .lt
    else if floatLt b.floatValue a.floatValue then .gt else .eq
  else compareText a.text b.text

/-- Equality does not need an ordering, so it stops at the lengths. -/
def valuesSame (a b : Value) : Bool :=
  if a.type.intLike then a.intValue == b.intValue
  else if a.type = .TYPE_FLOAT then floatEq a.floatValue b.floatValue
  else a.text.length == b.text.length && a.text == b.text

end DatabaseEngine
