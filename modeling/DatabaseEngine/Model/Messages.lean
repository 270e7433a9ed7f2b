import DatabaseEngine.Model.Label
import DatabaseEngine.Model.Select
import DatabaseEngine.Model.Wire

/-!
# `DatabaseEngine.Model.Messages`: a connection message by message

`serveMessage` of `16_wire.c` and its handlers, with what they run and what they reply, on a socket
that takes everything. What `ProcessStatement` does is a parameter (`Backend`), of which a
connection sees the answer, the state of the engine and which of the thread's arenas it has
released. A reply is its kind and its fields; `Model/Frames` has the bytes of a row.

The texts of a result lie in one of two arenas of the thread: those of a grouped result in
`groupArena`, which the next grouping releases, and all others in the statement arena, which the
next statement releases.
-/

set_option autoImplicit false

namespace DatabaseEngine

/-! ### Results -/

/-- An arena of a thread. -/
inductive Arena
  | statementArena
  | groupArena
  deriving DecidableEq

/-- How often each arena has been released. -/
structure Arenas where
  statementArena : Nat
  groupArena : Nat

/-- How often an arena was wound back. -/
def Arenas.generation (arenas : Arenas) : Arena → Nat
  | .statementArena => arenas.statementArena
  | .groupArena => arenas.groupArena

/-- A result set, with the count of a statement that has no columns and where its texts lie. -/
structure Results extends ResultSet where
  rowsAffected : Nat
  arena : Arena

/-- An empty result. -/
def noResults : Results :=
  { headers := [], types := [], rows := [], rowsAffected := 0, arena := .statementArena }

/-- What `ProcessStatement` does to a connection. -/
structure Processed (E : Type) where
  answer : Except ErrorCode Results
  /-- How often it has grouped rows. -/
  groupings : Nat
  engine : E

/-- The engine behind a connection. -/
structure Backend (E : Type) where
  process : List UInt8 → E → Processed E
  inTransaction : E → Bool

/-! ### What a connection does -/

/-- What is sent to the client. -/
inductive Reply
  | readyForQuery (inTransaction : Bool)
  | errorResponse (code : ErrorCode)
  | parseComplete
  | bindComplete
  | closeComplete
  | noData
  | portalSuspended
  | parameterDescription (params : Nat)
  | rowDescription (headers : List Name) (types : List ColType)
  /-- `fresh` is whether the arena of its texts is as it was when they were put there. -/
  | dataRow (row : Row) (fresh : Bool)
  | commandComplete (tag : List UInt8)
  deriving DecidableEq

/-- What a message leads to. -/
inductive WireEvent
  /-- A statement handed to `ProcessStatement`. -/
  | run (sql : List UInt8)
  | reply (reply : Reply)
  deriving DecidableEq

/-- A connection with its thread. -/
structure Client (E : Type) where
  session : WireSession
  /-- The result of the portal. -/
  result : Results
  /-- How often the arena of this result had been released when it was put there. -/
  held : Nat
  arenas : Arenas
  engine : E
  /-- Whether what lies in front of the rows of a result has been read, behind which nothing is
  promised. -/
  lost : Bool
  /-- What the message that is served has led to. -/
  events : List WireEvent

/-- A client message: its type byte and its body. -/
structure Message where
  type : UInt8
  body : List UInt8

/-- A connection before its first message. -/
def newClient {E : Type} (engine : E) : Client E :=
  { session := newSession, result := noResults, held := 0,
    arenas := { statementArena := 0, groupArena := 0 }, engine := engine, lost := false,
    events := [] }

section
variable {E : Type}

/-- Sends a reply. -/
def Client.send (reply : Reply) (c : Client E) : Client E :=
  { c with events := c.events ++ [.reply reply] }

/-- Sends an error, and ignores what follows up to Sync. -/
def Client.fail (code : ErrorCode) (c : Client E) : Client E :=
  { c with session := (failExtended code c.session).2 }.send (.errorResponse code)

/-- No message is served any more. -/
def Client.lose (c : Client E) : Client E :=
  { c with session := { c.session with ignoringUntilSync := true }, lost := true }

/-- What a handler of the session alone is answered with. -/
def Client.handled (reply : Reply) (c : Client E) :
    Except ErrorCode Unit × WireSession → Client E
  | (.ok (), session) => { c with session := session }.send reply
  | (.error code, session) => { c with session := session }.send (.errorResponse code)

/-- Whether the texts of the portal's result are where they were put. -/
def Client.fresh (c : Client E) : Bool := c.held == c.arenas.generation c.result.arena

/-- Hands a statement to the engine. -/
def Backend.processStatement (b : Backend E) (sql : List UInt8) (c : Client E) :
    Except ErrorCode Results × Client E :=
  let ran := b.process sql c.engine
  (ran.answer,
    { c with
      arenas :=
        { statementArena := c.arenas.statementArena + 1
          groupArena := c.arenas.groupArena + ran.groupings }
      engine := ran.engine
      events := c.events ++ [.run sql] })

/-! ### Replies -/

/-- A letter in upper case. -/
def toupper (c : UInt8) : UInt8 := if 97 ≤ c ∧ c ≤ 122 then c - 32 else c

/-- The next word of a C string, uppercased, and where it left off. -/
def takeVerb (sql : List UInt8) : List UInt8 × List UInt8 :=
  let sql := sql.dropWhile isspace
  let word := (sql.takeWhile fun c => !isspace c).take (NAME_LEN - 1)
  (word.map toupper, sql.drop word.length)

/-- The tag with which a statement finishes. -/
def commandTag (sql : List UInt8) (results : Results) : List UInt8 :=
  let (verb, rest) := takeVerb sql
  if results.headers ≠ [] then ascii "SELECT " ++ decimal results.rows.length
  else if verb = ascii "INSERT" then ascii "INSERT 0 " ++ decimal results.rowsAffected
  else if verb = ascii "UPDATE" ∨ verb = ascii "DELETE" then
    verb ++ ascii " " ++ decimal results.rowsAffected
  else
    let object := (takeVerb rest).1
    if (verb = ascii "CREATE" ∨ verb = ascii "DROP") ∧ object ≠ [] then
      verb.take (NAME_LEN / 2) ++ ascii " " ++ object.take (NAME_LEN / 2)
    else if verb ≠ [] then verb
    else ascii "OK"

/-- The headers and types of a result. -/
def sendRowDescription (results : Results) : Client E → Client E :=
  Client.send (.rowDescription results.headers results.types)

/-- The rows of a result whose texts are fresh, or not. -/
def sendRows (fresh : Bool) (rows : List Row) (c : Client E) : Client E :=
  rows.foldl (fun c row => c.send (.dataRow row fresh)) c

/-- A result in full: its shape, its rows and its tag. -/
def sendResult (sql : List UInt8) (results : Results) (c : Client E) : Client E :=
  let c :=
    if results.headers ≠ [] then sendRows true results.rows (sendRowDescription results c) else c
  c.send (.commandComplete (commandTag sql results))

/-- ReadyForQuery, with the state of the transaction. -/
def sendReadyForQuery (b : Backend E) (c : Client E) : Client E :=
  c.send (.readyForQuery (b.inTransaction c.engine))

/-! ### The simple query -/

/-- Runs statements one after another until one fails, and says whether one did. -/
def runStatements (b : Backend E) : List (List UInt8) → Client E → Bool × Client E
  | [], c => (false, c)
  | sql :: rest, c =>
    match b.processStatement sql c with
    | (.error code, c) => (true, c.send (.errorResponse code))
    | (.ok results, c) => runStatements b rest (sendResult sql results c)

/-- A Query message. The portal is destroyed first. -/
def handleQuery (b : Backend E) (sql : List UInt8) (c : Client E) : Client E :=
  let c :=
    { c with
      session :=
        { c.session with portal := { c.session.portal with used := false, executed := false } } }
  let (statements, overflow) := runQuery sql
  let (failed, c) := runStatements b statements c
  sendReadyForQuery b (if !failed && overflow then c.send (.errorResponse .TOO_MANY_TOKENS) else c)

/-! ### The extended protocol -/

/-- Runs the portal, once, and keeps its rows. -/
def runPortalOn (b : Backend E) (c : Client E) : Except ErrorCode Unit × Client E :=
  match runPortal c.session with
  | .error code => (.error code, c)
  | .ok none => (.ok (), c)
  | .ok (some sql) =>
    match b.processStatement sql c with
    | (.error code, c) => (.error code, c)
    | (.ok results, c) =>
      (.ok (),
        { c with
          session := { c.session with portal := { c.session.portal with executed := true, sent := 0 } }
          result := results
          held := c.arenas.generation results.arena })

/-- What stands for a parameter when a statement is run for its columns only. -/
def probeLiteral (oid : Int) (attempt : Nat) : List UInt8 :=
  if attempt = 0 then
    if oid = OID_TEXT then ascii "''"
    else if oid = OID_DATE then ascii "'2000-01-01'"
    else if oid = OID_FLOAT8 then ascii "0.0"
    else ascii "0"
  else if attempt = 1 then ascii "''"
  else ascii "'2000-01-01'"

/-- How many stand-ins are tried. -/
def PROBE_ATTEMPTS : Nat := 3

/-- The text of a probe: every hole that there can be is filled. -/
def probeSql (statement : Prepared) (attempt : Nat) : Written :=
  substituteParameters statement.sql statement.types
    ((List.range MAX_PARAMS).map fun i =>
      some (probeLiteral (if i < statement.params then statement.types.getD i 0 else 0) attempt))
    true LINE_LEN

/-- The attempts from one on, up to the first that is answered. -/
def probeStatement (b : Backend E) (statement : Prepared) :
    Nat → Nat → ErrorCode → Client E → Except ErrorCode Results × Client E
  | 0, _, code, c => (.error code, c)
  | n + 1, attempt, _, c =>
    let probe := probeSql statement attempt
    if probe.error.isSome then (.error .SYNTAX_EXPECTED_VALUE, c)
    else
      match b.processStatement (probe.out.takeWhile (· ≠ 0)) c with
      | (.ok results, c) => (.ok results, c)
      | (.error code, c) => probeStatement b statement n (attempt + 1) code c

/-- The columns of a result. -/
def sendShape (results : Results) (c : Client E) : Client E :=
  if results.headers = [] then c.send .noData else sendRowDescription results c

/-- What a Describe or a Close names. -/
def targetFields : List UInt8 → Option (UInt8 × List UInt8)
  | [] => none
  | what :: body => (bodyString NAME_LEN body).map fun (name, _) => (what, name)

/-- `describeStatement`: the parameters, and the columns that a probe finds. -/
def describeStatement (b : Backend E) (statement : Prepared) (c : Client E) : Client E :=
  let c := c.send (.parameterDescription statement.params)
  if (takeVerb statement.sql).1 ≠ ascii "SELECT" then c.send .noData
  else
    match probeStatement b statement PROBE_ATTEMPTS 0 .SYNTAX_EXPECTED_VALUE c with
    | (.error code, c) => c.fail code
    | (.ok results, c) => sendShape results c

/-- Describe of a statement or of the portal. -/
def handleDescribe (b : Backend E) (body : List UInt8) (c : Client E) : Client E :=
  match targetFields body with
  | none => c.fail .IO_BAD_FORMAT
  | some (what, name) =>
    if what = 83 then
      match findPrepared name c.session.prepared with
      | none => c.fail .SEMANTIC_TABLE_NOT_FOUND
      | some i => describeStatement b (c.session.prepared.getD i freePrepared) c
    else
      -- whatever the name is
      match runPortalOn b c with
      | (.error code, c) => c.fail code
      | (.ok (), c) => sendShape c.result c

/-- The portal's name and the limit of an Execute. -/
def executeFields (body : List UInt8) : Option (List UInt8 × Int) := do
  let (name, body) ← bodyString NAME_LEN body
  let (limit, _) ← bodyI32 body
  return (name, limit)

/-- A sum of two `int`, which wraps. -/
def addInt (a b : Int) : Int := Int.bmod (a + b) (2 ^ 32)

/-- Hands over rows of the portal's result, `limit` of them when it is positive. -/
def sendPortal (limit : Int) (c : Client E) : Client E :=
  let portal := c.session.portal
  let nrows : Int := c.result.rows.length
  let last :=
    if 0 < limit ∧ addInt portal.sent limit < nrows then addInt portal.sent limit else nrows
  -- a sum that has wrapped is the negative row from which the next Execute goes on
  if portal.sent < 0 ∧ portal.sent < last then c.lose
  else
    let c := sendRows c.fresh ((c.result.rows.take last.toNat).drop portal.sent.toNat) c
    let c := { c with session := { c.session with portal := { portal with sent := last } } }
    if last < nrows then c.send .portalSuspended
    else c.send (.commandComplete (commandTag (portal.sql.takeWhile (· ≠ 0)) c.result))

/-- Execute: runs the portal once, and sends as many rows as asked for. -/
def handleExecute (b : Backend E) (body : List UInt8) (c : Client E) : Client E :=
  match executeFields body with
  | none => c.fail .IO_BAD_FORMAT
  | some (_, limit) =>
    match runPortalOn b c with
    | (.error code, c) => c.fail code
    | (.ok (), c) => sendPortal limit c

/-- Close of a statement or of the portal. -/
def handleClose (body : List UInt8) (c : Client E) : Client E :=
  match targetFields body with
  | none => c.fail .IO_BAD_FORMAT
  | some (what, name) =>
    let session := c.session
    let session :=
      if what = 83 then
        match findPrepared name session.prepared with
        | none => session
        | some i =>
          { session with
            prepared := session.prepared.modify i fun statement => { statement with used := false } }
      else if session.portal.used && session.portal.name == name then
        { session with portal := { session.portal with used := false, executed := false } }
      else session
    { c with session := session }.send .closeComplete

/-! ### A message -/

/-- The handlers, by the type of the message. -/
def dispatch (b : Backend E) (message : Message) (c : Client E) : Client E :=
  if message.type = 81 then handleQuery b (message.body.takeWhile (· ≠ 0)) c
  else if message.type = 80 then c.handled .parseComplete (handleParse message.body c.session)
  else if message.type = 66 then c.handled .bindComplete (handleBind message.body c.session)
  else if message.type = 68 then handleDescribe b message.body c
  else if message.type = 69 then handleExecute b message.body c
  else if message.type = 67 then handleClose message.body c
  else if message.type = 72 then c
  else if message.type = 83 then
    sendReadyForQuery b { c with session := { c.session with ignoringUntilSync := false } }
  else c.fail .SYNTAX_INVALID_STATEMENT

/-- One message of a connection that is open. After an error everything is skipped up to Sync, and
Sync too once the connection is lost. -/
def serveMessage (b : Backend E) (message : Message) (c : Client E) : Client E :=
  let c := { c with events := [] }
  if c.session.ignoringUntilSync && (c.lost || message.type != 83) then c else dispatch b message c

/-- The messages of a connection up to Terminate. -/
def serveMessages (b : Backend E) : List Message → Client E → Client E
  | [], c => c
  | message :: rest, c =>
    if message.type = 88 then c else serveMessages b rest (serveMessage b message c)

end

end DatabaseEngine
