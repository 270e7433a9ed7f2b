import DatabaseEngine.Model.Lexer

/-!
# `DatabaseEngine.Model.Wire`: how a client's text becomes a statement

The parts of `16_wire.c` that prepare the text of a statement. A simple Query message is cut
into statements by `nextStatement`; an extended one is copied at Parse, gets its parameters at
Bind (`substituteParameters`) and is run at Execute (`runPortal`).

A message body is the bytes from where the source's `Body` stands to its end; each reader
answers the value and the bytes behind it. What a reply carries is not modelled: a handler
answers the error it reports, or nothing. `ignoringUntilSync` is set by the handlers that fail,
as `failExtended` does.
-/

set_option autoImplicit false

namespace DatabaseEngine

/-- How many statements may be prepared. -/
def MAX_PREPARED : Nat := 8
/-- How many parameters a statement may have. -/
def MAX_PARAMS : Nat := 32
/-- The buffer of a message. -/
def WIRE_BUFFER : Nat := 65536
/-- The type of an INT. -/
def OID_INT4 : Int := 23
/-- The type of a TEXT. -/
def OID_TEXT : Int := 25
/-- The type of a FLOAT. -/
def OID_FLOAT8 : Int := 701
/-- The type of a DATE. -/
def OID_DATE : Int := 1082

/-! ### The simple query -/

/-- Where the scan of `nextStatement` stands: between tokens, in a string, or in a comment. -/
inductive Scan
  | plain
  | text
  | comment

/-- What `nextStatement` answers: a statement with the text behind it, the end, or a statement
that does not fit its buffer. -/
inductive Next
  | statement (out rest : List UInt8)
  | finish
  | overflow

/-- Cuts off the next statement, with comments dropped. `any` is whether the statement has
anything but blanks, `out` is what it has so far, and `size` is the size of its buffer. -/
def nextStatement (size : Nat) : Scan → Bool → List UInt8 → List UInt8 → Next
  | _, any, out, [] => if any then .statement out [] else .finish
  | .text, any, out, 39 :: 39 :: rest =>
    if size ≤ out.length + 2 then .overflow
    else nextStatement size .text any (out ++ [39, 39]) rest
  | .text, any, out, c :: rest =>
    if size ≤ out.length + 1 then .overflow
    else nextStatement size (if c = 39 then .plain else .text) any (out ++ [c]) rest
  | .comment, any, out, c :: rest =>
    -- the line's end is not part of the comment
    if c ≠ 10 then nextStatement size .comment any out rest
    else if size ≤ out.length + 1 then .overflow
    else nextStatement size .plain any (out ++ [c]) rest
  | .plain, any, out, c :: rest =>
    if c = 39 then
      if size ≤ out.length + 1 then .overflow
      else nextStatement size .text true (out ++ [c]) rest
    else if c = 45 ∧ rest.head? = some 45 then nextStatement size .comment any out rest
    else if c = 59 then
      if any then .statement out rest else nextStatement size .plain false [] rest
    else if size ≤ out.length + 1 then .overflow
    else nextStatement size .plain (any || !isspace c) (out ++ [c]) rest

/-- The statements that `runQuery` hands to the engine one after another, and whether it stops
because one does not fit. -/
def queryStatements (size : Nat) : Nat → List UInt8 → List (List UInt8) × Bool
  | 0, _ => ([], false)
  | fuel + 1, sql =>
    match nextStatement size .plain false [] sql with
    | .finish => ([], false)
    | .overflow => ([], true)
    | .statement out rest =>
      if rest.isEmpty then ([out], false)
      else (out :: (queryStatements size fuel rest).1, (queryStatements size fuel rest).2)

/-- `runQuery` on the text of a Query message. -/
def runQuery (sql : List UInt8) : List (List UInt8) × Bool :=
  queryStatements LINE_LEN (sql.length + 1) sql

/-! ### Reading a message body -/

/-- A string up to its zero byte, of which the buffer takes what fits. -/
def bodyString (size : Nat) (body : List UInt8) : Option (List UInt8 × List UInt8) :=
  match body.dropWhile (· ≠ 0) with
  | [] => none
  | _ :: rest => some ((body.takeWhile (· ≠ 0)).take (size - 1), rest)

/-- Two bytes, most significant first. -/
def bodyI16 : List UInt8 → Option (Int × List UInt8)
  | a :: b :: rest => some (a.toNat * 256 + b.toNat, rest)
  | _ => none

/-- Four bytes, most significant first, as an `int`. -/
def bodyI32 : List UInt8 → Option (Int × List UInt8)
  | a :: b :: c :: d :: rest =>
    some ((UInt32.ofNat
      (((a.toNat * 256 + b.toNat) * 256 + c.toNat) * 256 + d.toNat)).toInt32.toInt, rest)
  | _ => none

/-! ### Prepared statements and the portal -/

/-- A slot for a prepared statement. -/
structure Prepared where
  used : Bool
  name : List UInt8
  sql : List UInt8
  params : Nat
  types : List Int

/-- The one portal of a connection. -/
structure Portal where
  used : Bool
  name : List UInt8
  /-- The bytes of its buffer. -/
  sql : List UInt8
  executed : Bool
  /-- The rows that were sent, an `int` of the source. -/
  sent : Int

/-- What a connection owns, its socket and its buffer apart. -/
structure WireSession where
  prepared : List Prepared
  portal : Portal
  ignoringUntilSync : Bool

/-- A slot that no statement was ever prepared in. -/
def freePrepared : Prepared :=
  { used := false, name := [], sql := [], params := 0, types := List.replicate MAX_PARAMS 0 }

/-- A connection that was just made. -/
def newSession : WireSession where
  prepared := List.replicate MAX_PREPARED freePrepared
  portal := { used := false, name := [], sql := [], executed := false, sent := 0 }
  ignoringUntilSync := false

/-- The position of a prepared statement. -/
def findPrepared (name : List UInt8) (prepared : List Prepared) : Option Nat :=
  prepared.findIdx? fun statement => statement.used && statement.name == name

/-- The statement of that name, or a free slot that takes the name. -/
def claimPrepared (name : List UInt8) (prepared : List Prepared) :
    Option (Nat × List Prepared) :=
  match findPrepared name prepared with
  | some i => some (i, prepared)
  | none =>
    (prepared.findIdx? fun statement => !statement.used).map fun i =>
      (i, prepared.modify i fun statement =>
        { statement with used := true, name := name.take (NAME_LEN - 1) })

/-- Whether a text is a run of digits with at most one dot among them, and has a digit. -/
def looksNumeric : Bool → Bool → List UInt8 → Bool
  | seen, _, [] => seen
  | seen, dots, c :: rest =>
    if isdigit c then looksNumeric true dots rest
    else if c == 46 && !dots then looksNumeric seen true rest
    else false

/-- How a bound parameter is written into the statement: bare, or quoted. -/
def parameterIsNumeric (oid : Int) (text : List UInt8) : Bool :=
  if oid = OID_INT4 ∨ oid = OID_FLOAT8 ∨ oid = 20 ∨ oid = 21 ∨ oid = 700 ∨ oid = 1700 then true
  else if oid ≠ 0 ∨ text.isEmpty then false
  else
    looksNumeric false false (if headIs (fun c => c == 45 || c == 43) text then text.tail else text)

/-- What has been written into a buffer, and the error that ended it. -/
structure Written where
  error : Option ErrorCode
  out : List UInt8

/-- Goes on writing after a success. -/
def Written.andThen (w : Written) (next : List UInt8 → Written) : Written :=
  match w.error with
  | some _ => w
  | none => next w.out

/-- Adds bytes that fit. -/
def putInto (size : Nat) (bytes out : List UInt8) : Written :=
  if size ≤ out.length + bytes.length then ⟨some .TOO_MANY_TOKENS, out⟩
  else ⟨none, out ++ bytes⟩

/-- Adds bytes with each quote doubled, as long as they fit. -/
def quoteInto (size : Nat) : List UInt8 → List UInt8 → Written
  | [], out => ⟨none, out⟩
  | c :: rest, out =>
    if size ≤ out.length + 2 then ⟨some .TOO_MANY_TOKENS, out⟩
    else quoteInto size rest (out ++ if c = 39 then [39, 39] else [c])

/-- Writes one parameter. `spelled` says that the values are literals already. -/
def putParameter (size : Nat) (spelled : Bool) (oid : Int) (out : List UInt8) :
    Option (List UInt8) → Written
  | none => putInto size (ascii "NULL") out
  | some value =>
    if spelled || parameterIsNumeric oid value then putInto size value out
    else
      ((putInto size [39] out).andThen (quoteInto size value)).andThen (putInto size [39])

/-- The number of a hole, from its first digit on. -/
def readHole : Nat → List UInt8 → Except ErrorCode (Nat × List UInt8)
  | n, [] => .ok (n, [])
  | n, c :: rest =>
    if isdigit c then
      -- stop counting well before an int would wrap
      if MAX_PARAMS < n then .error .SYNTAX_EXPECTED_VALUE
      else readHole (n * 10 + (c.toNat - 48)) rest
    else .ok (n, c :: rest)

/-- The loop of `substituteParameters`: the bytes written so far, and the text to go. -/
def substituteFrom (types : List Int) (values : List (Option (List UInt8))) (spelled : Bool)
    (size : Nat) : Nat → Bool → List UInt8 → List UInt8 → Written
  | 0, _, out, _ => ⟨none, out⟩
  | _ + 1, _, out, [] => ⟨none, out⟩
  | fuel + 1, inText, out, c :: rest =>
    if inText = false ∧ c = 36 ∧ headIs (fun d => isdigit d && d != 48) rest then
      match readHole 0 rest with
      | .error code => ⟨some code, out⟩
      | .ok (n, rest) =>
        -- asked for what Bind never sent
        if n < 1 ∨ values.length < n then ⟨some .SYNTAX_EXPECTED_VALUE, out⟩
        else
          let oid := if n ≤ MAX_PARAMS then types.getD (n - 1) 0 else 0
          (putParameter size spelled oid out (values.getD (n - 1) none)).andThen fun out =>
            substituteFrom types values spelled size fuel inText out rest
    else
      (putInto size [c] out).andThen fun out =>
        substituteFrom types values spelled size fuel (if c = 39 then !inText else inText) out rest

/-- Writes the statement with `$1`, `$2` ... replaced by what Bind sent. -/
def substituteParameters (sql : List UInt8) (types : List Int)
    (values : List (Option (List UInt8))) (spelled : Bool) (size : Nat) : Written :=
  substituteFrom types values spelled size (sql.length + 1) false [] sql

/-! ### The messages -/

/-- The parameter types behind the text in a Parse message, stored as they are read, and
whether the message held them all. -/
def readTypes : Nat → Nat → List Int → List UInt8 → Bool × List Int
  | 0, _, types, _ => (true, types)
  | count + 1, i, types, body =>
    match bodyI32 body with
    | none => (false, types)
    | some (oid, rest) =>
      readTypes count (i + 1) (if i < MAX_PARAMS then types.set i oid else types) rest

/-- `failExtended`: everything up to the next Sync is skipped. -/
def failExtended (code : ErrorCode) (s : WireSession) : Except ErrorCode Unit × WireSession :=
  (.error code, { s with ignoringUntilSync := true })

/-- The parts of a Parse message before the types. -/
def parseFields (body : List UInt8) :
    Option (List UInt8 × List UInt8 × Nat × List UInt8) := do
  let (name, body) ← bodyString NAME_LEN body
  let (sql, body) ← bodyString LINE_LEN body
  let (count, body) ← bodyI16 body
  return (name, sql, count.toNat, body)

/-- Parse: prepares a statement under its name. -/
def handleParse (body : List UInt8) (s : WireSession) : Except ErrorCode Unit × WireSession :=
  match parseFields body with
  | none => failExtended .IO_BAD_FORMAT s
  | some (name, sql, count, body) =>
    match claimPrepared name s.prepared with
    | none => failExtended .EXEC_OUT_OF_MEMORY s
    | some (i, prepared) =>
      let statement := prepared.getD i freePrepared
      let (whole, types) := readTypes count 0 statement.types body
      let s :=
        { s with
          prepared := prepared.set i
            { statement with sql := sql, params := min count MAX_PARAMS, types := types } }
      if whole then (.ok (), s) else failExtended .IO_BAD_FORMAT s

/-- The format codes of a Bind message: text only. -/
def readFormats : Nat → List UInt8 → Except ErrorCode (List UInt8)
  | 0, body => .ok body
  | count + 1, body =>
    match bodyI16 body with
    | none => .error .IO_BAD_FORMAT
    | some (code, rest) =>
      if code ≠ 0 then .error .SEMANTIC_TYPE_MISMATCH else readFormats count rest

/-- The values of a Bind message; a negative length is NULL. -/
def readValues : Nat → List UInt8 → Except ErrorCode (List (Option (List UInt8)))
  | 0, _ => .ok []
  | count + 1, body =>
    match bodyI32 body with
    | none => .error .IO_BAD_FORMAT
    | some (length, rest) =>
      if length < 0 then do
        let values ← readValues count rest
        return none :: values
      else if rest.length < length.toNat then .error .IO_BAD_FORMAT
      else do
        let values ← readValues count (rest.drop length.toNat)
        return some (rest.take length.toNat) :: values

/-- What a Bind message binds: the portal's name, the statement, and the values. -/
def bindFields (body : List UInt8) (s : WireSession) :
    Except ErrorCode (List UInt8 × Prepared × List (Option (List UInt8))) :=
  match bodyString NAME_LEN body with
  | none => .error .IO_BAD_FORMAT
  | some (name, body) =>
    match bodyString NAME_LEN body with
    | none => .error .IO_BAD_FORMAT
    | some (source, body) =>
      match bodyI16 body with
      | none => .error .IO_BAD_FORMAT
      | some (formats, body) => do
        let body ← readFormats formats.toNat body
        match findPrepared source s.prepared with
        | none => .error .SEMANTIC_TABLE_NOT_FOUND
        | some i =>
          match bodyI16 body with
          | none => .error .IO_BAD_FORMAT
          | some (count, body) =>
            if (MAX_PARAMS : Int) < count then .error .IO_BAD_FORMAT
            else do
              let values ← readValues count.toNat body
              return (name, s.prepared.getD i freePrepared, values)

/-- Bytes written over the front of a buffer. -/
def overlay (bytes buffer : List UInt8) : List UInt8 := bytes ++ buffer.drop bytes.length

/-- Bind: fills in the values of a statement's parameters. -/
def handleBind (body : List UInt8) (s : WireSession) : Except ErrorCode Unit × WireSession :=
  match bindFields body s with
  | .error code => failExtended code s
  | .ok (name, statement, values) =>
    let written := substituteParameters statement.sql statement.types values false LINE_LEN
    match written.error with
    | some code =>
      -- what was written before the error stays in the portal's buffer
      failExtended code
        { s with portal := { s.portal with sql := overlay written.out s.portal.sql } }
    | none =>
      (.ok (),
        { s with
          portal :=
            { used := true, name := name, sql := overlay (written.out ++ [0]) s.portal.sql,
              executed := false, sent := 0 } })

/-- The text that `runPortal` hands to `ProcessStatement`, none when the portal has run
already. The buffer is read as a C string. -/
def runPortal (s : WireSession) : Except ErrorCode (Option (List UInt8)) :=
  if !s.portal.used then .error .SEMANTIC_TABLE_NOT_FOUND
  else if s.portal.executed then .ok none
  else .ok (some (s.portal.sql.takeWhile (· ≠ 0)))

end DatabaseEngine
