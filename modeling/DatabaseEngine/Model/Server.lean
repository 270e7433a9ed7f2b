import DatabaseEngine.Model.Session

/-!
# `DatabaseEngine.Model.Server`: many connections to one engine

The connections of `16_wire.c` run each on a thread of its own, with the thread-local statics
`current`, `joinHeap` and `subqueryResult`; everything else is shared. The engine lock of
`10_controller.c` lets one statement run at a time, and a thread that has a transaction open
keeps it in between. SELECTs that share the lock are taken one after another here.

A connection that has to wait for the lock has not run its statement yet.
-/

set_option autoImplicit false

namespace DatabaseEngine

/-- What a thread has of its own. -/
structure Thread where
  current : Nat
  joinHeap : Heap
  subqueryResult : List (List Value)

/-- A thread that has just started. -/
def freshThread : Thread :=
  { current := 0
    joinHeap := clearHeap (Name.ofBytes [])
    subqueryResult := List.replicate MAX_SUBQUERIES [] }

/-- The engine, and what each thread has of its own. -/
structure Server where
  shared : Session
  threads : Nat → Thread
  /-- The thread whose `holdingForTransaction` is set. -/
  holding : Option Nat

/-- The session that a thread sees. -/
def Server.seenBy (server : Server) (i : Nat) : Session :=
  let thread := server.threads i
  { server.shared with
    engine :=
      { server.shared.engine with
        current := thread.current
        joinHeap := thread.joinHeap
        subqueryResult := thread.subqueryResult } }

/-- What a thread leaves behind. -/
def Server.leftBy (server : Server) (i : Nat) (s : Session) : Server where
  shared := s
  threads j :=
    if j = i then
      { current := s.engine.current
        joinHeap := s.engine.joinHeap
        subqueryResult := s.engine.subqueryResult }
    else server.threads j
  holding := if s.transactionOpen then some i else none

/-- Whether the lock is free for a thread. -/
def Server.admits (server : Server) (i : Nat) : Bool :=
  match server.holding with
  | none => true
  | some j => i = j

/-- A statement of one of the connections. -/
structure Request where
  session : Nat
  statement : Statement
  parsed : statement.Parsed

/-- A statement without subqueries of one of the connections. -/
def StatementKind.by (kind : StatementKind) (session : Nat) : Request :=
  { session := session, statement := kind.alone, parsed := kind.alone_parsed }

/-- One statement of a thread that may run. -/
def serverStep (server : Server) (request : Request) : Server :=
  if server.admits request.session then
    server.leftBy request.session
      (processStatement request.statement (server.seenBy request.session)).2
  else server

/-- The server that a process becomes. -/
def serve (path : Path) (s : Session) : Server :=
  { shared := openSession path s, threads := fun _ => freshThread, holding := none }

end DatabaseEngine
