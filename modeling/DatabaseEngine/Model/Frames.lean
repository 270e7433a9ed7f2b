import DatabaseEngine.Library.Channel
import DatabaseEngine.Model.Label
import DatabaseEngine.Model.Wire

/-!
# `DatabaseEngine.Model.Frames`: the bytes of a row on the wire

The buffers of `16_wire.c`, and `sendDataRow`, which builds a message in one of them. The socket
works: `send` takes some of what it is offered, in pieces of its own choice.
-/

set_option autoImplicit false

namespace DatabaseEngine

open Library

/-! ### Bytes on the wire -/

/-- The output of a session. -/
structure Wire where
  /-- What the socket has taken. -/
  sent : List UInt8
  /-- What is still in the buffer. -/
  out : List UInt8

section
variable (socket : Channel UInt8)

/-- Hands the buffer to the socket until nothing is left. -/
def flushWire (w : Wire) : Wire :=
  { sent := w.sent ++ socket.drain w.out.length w.out, out := [] }

/-- Buffers bytes, with a flush where they do not fit. -/
def putBytes (bytes : List UInt8) (w : Wire) : Wire :=
  -- one value larger than the buffer
  if WIRE_BUFFER < bytes.length then
    let w := flushWire socket w
    { w with sent := w.sent ++ socket.drain bytes.length bytes }
  else
    let w := if WIRE_BUFFER < w.out.length + bytes.length then flushWire socket w else w
    { w with out := w.out ++ bytes }

/-- Four bytes, most significant first. -/
def be32 (value : Int) : List UInt8 :=
  let bits := (value % 2 ^ 32).toNat
  [UInt8.ofNat (bits / 16777216), UInt8.ofNat (bits / 65536), UInt8.ofNat (bits / 256),
    UInt8.ofNat bits]

/-- Two bytes, most significant first. -/
def be16 (value : Nat) : List UInt8 := [UInt8.ofNat (value / 256), UInt8.ofNat value]

/-- Buffers an `int`. -/
def putI32 (value : Int) : Wire → Wire := putBytes socket (be32 value)

end

/-! ### Messages -/

/-- Adds bytes to the message that is built, if they fit. -/
def addBytes (bytes message : List UInt8) : List UInt8 :=
  if WIRE_BUFFER < message.length + bytes.length then message else message ++ bytes

/-- An `int` at the end of a message. -/
def addI32 (value : Int) : List UInt8 → List UInt8 := addBytes (be32 value)

/-- A short one at the end of a message. -/
def addI16 (value : Nat) : List UInt8 → List UInt8 := addBytes (be16 value)

/-- A message behind its type and length. -/
def sendMessage (socket : Channel UInt8) (type : UInt8) (message : List UInt8) (w : Wire) : Wire :=
  -- the length counts itself
  putBytes socket message (putI32 socket (message.length + 4) (putBytes socket [type] w))

/-! ### Rows -/

/-- A value that is no text, as the client will read it. -/
def renderScalar (value : Value) : List UInt8 :=
  match value.type with
  | .TYPE_DATE => dateToText value.intValue
  | .TYPE_FLOAT => formatG value.floatValue
  | _ => signed value.intValue.toInt

/-- A column of a DataRow: its length and its text, or -1. -/
def addColumn (message : List UInt8) (value : Value) : List UInt8 :=
  if value.isNull then addI32 (-1) message
  else
    match value.type with
    | .TYPE_TEXT => addBytes value.text (addI32 value.text.length message)
    | _ => addBytes (renderScalar value) (addI32 (renderScalar value).length message)

/-- The body of a DataRow. -/
def rowMessage (row : Row) : List UInt8 := row.foldl addColumn (addI16 row.length [])

/-- With a socket that works there is nothing else that fails. -/
def sendDataRow (socket : Channel UInt8) (row : Row) (w : Wire) : Except ErrorCode Unit × Wire :=
  (.ok (), sendMessage socket 68 (rowMessage row) w)

end DatabaseEngine
