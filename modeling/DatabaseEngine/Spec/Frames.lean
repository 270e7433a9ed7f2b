import DatabaseEngine.Model.Frames

/-!
# `DatabaseEngine.Spec.Frames`: what a client reads a row from

* `decodeDataRow`: a DataRow message read as a client reads it.
* `Delivers`: a row is sent so that it can be read, or an error is reported and nothing is sent.
-/

set_option autoImplicit false

namespace DatabaseEngine

/-- One column: nothing for a NULL, which has a negative length, or a text. -/
def decodeColumn (body : List UInt8) : Option (Option (List UInt8) × List UInt8) := do
  let (length, rest) ← bodyI32 body
  if length < 0 then return (none, rest)
  else if rest.length < length.toNat then none
  else return (some (rest.take length.toNat), rest.drop length.toNat)

/-- So many columns. -/
def decodeColumns : Nat → List UInt8 → Option (List (Option (List UInt8)) × List UInt8)
  | 0, body => some ([], body)
  | count + 1, body => do
    let (column, body) ← decodeColumn body
    let (columns, body) ← decodeColumns count body
    return (column :: columns, body)

/-- A message: its type, a length that is that of the body and its own, and as many columns as are
announced, with nothing behind them. -/
def decodeDataRow : List UInt8 → Option (List (Option (List UInt8)))
  | [] => none
  | type :: rest => do
    let (length, body) ← bodyI32 rest
    let (count, columns) ← bodyI16 body
    let (columns, behind) ← decodeColumns count.toNat columns
    if type = 68 ∧ length = body.length + 4 ∧ behind = [] then return columns else none

/-- A value as it is shown to a client. -/
def shown (value : Value) : Option (List UInt8) :=
  if value.isNull then none
  else
    match value.type with
    | .TYPE_TEXT => some value.text
    | _ => some (renderScalar value)

/-- What a client gets for a row. -/
def Delivers (row : Row) : Except ErrorCode Unit → List UInt8 → Prop
  | .ok _, bytes => decodeDataRow bytes = some (row.map shown)
  | .error _, bytes => bytes = []

/-- How long a row's message is, without its type and its length. -/
def rowSize (row : Row) : Nat :=
  2 + (row.map fun value => 4 + ((shown value).getD []).length).sum

/-- What the client has been sent, with what is on its way. -/
def Wire.stream (w : Wire) : List UInt8 := w.sent ++ w.out

end DatabaseEngine
