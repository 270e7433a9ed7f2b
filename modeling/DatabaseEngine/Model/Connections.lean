import DatabaseEngine.Library.RwLock
import DatabaseEngine.Model.Failure
import DatabaseEngine.Model.Server

/-!
# `DatabaseEngine.Model.Connections`: the engine lock and the threads of the connections

`Model.Server` takes one statement after another. Here the threads of `16_wire.c` go step by step
and in any order: a statement is read and parsed, waits for the engine lock of `10_controller.c`,
runs, and gives the lock back or keeps it for its transaction. A connection can end whenever its
thread reads a message, and ends when it has been idle in a transaction for too long.

A statement runs in one step between taking the lock and giving it back, and readers hold the
lock together. With each step that touches the file the world says what can be opened and how
much memory there is, and a fault says which write fails.
-/

set_option autoImplicit false

namespace DatabaseEngine

open Library

/-- What a statement finds outside of the process. -/
structure World where
  canOpen : Path → Bool
  memory : Nat

/-- The session in this world. -/
def Session.under (s : Session) (world : World) : Session :=
  { s with canOpen := world.canOpen, memory := world.memory }

/-- Ends a transaction whose session has gone. -/
def abandonTransaction (s : Session) : Session :=
  if !s.transactionOpen then s
  else
    match rollbackTransaction s with
    | (.ok (), s) => s
    | (.error _, s) => { s with transactionOpen := false }

/-! ### What threads do to the engine -/

/-- What the threads share, and what each has of its own. -/
structure Shared where
  session : Session
  threads : Nat → Thread

/-- The session that a thread sees. -/
def Shared.seenBy (shared : Shared) (i : Nat) : Session :=
  ({ shared := shared.session, threads := shared.threads, holding := none } : Server).seenBy i

/-- What a thread leaves behind. -/
def Shared.leftBy (shared : Shared) (i : Nat) (s : Session) : Shared :=
  let left :=
    ({ shared := shared.session, threads := shared.threads, holding := none } : Server).leftBy i s
  { session := left.shared, threads := left.threads }

/-- What a thread does to the engine in one step. -/
inductive Work
  | process (i : Nat) (reads : Bool) (world : World) (fault : Option Fault)
      (statement : Statement)
  | abandon (i : Nat) (world : World)

/-- The thread that does it. -/
def Work.thread : Work → Nat
  | .process i _ _ _ _ => i
  | .abandon i _ => i

/-- What it leaves. -/
def Work.apply (work : Work) (shared : Shared) : Shared :=
  match work with
  | .process i reads world fault statement =>
    shared.leftBy i (runLocked reads fault statement ((shared.seenBy i).under world)).2
  | .abandon i world => shared.leftBy i (abandonTransaction ((shared.seenBy i).under world))

/-! ### The threads -/

/-- Where the thread of a connection is. -/
inductive Stage
  /-- Nobody has connected. -/
  | absent
  /-- In `serveMessage`, before the next message. -/
  | idle
  /-- In `engineReadLock` or `engineWriteLock`. -/
  | waiting (reads : Bool) (statement : Statement)
  /-- Before `semanticCheck`, under the lock. -/
  | running (reads : Bool) (statement : Statement)
  /-- Before the lock is given back. -/
  | ran (reads : Bool)
  /-- In `closeSession`. -/
  | leaving
  /-- Between `abandonTransaction` and `engineReleaseTransaction`. -/
  | abandoned
  | gone

/-- What the threads share, and where each of them stands. -/
structure Process extends Shared where
  stage : Nat → Stage
  holdingForTransaction : Nat → Bool
  engineLock : RwLock Nat

/-- The mode of the lock that a statement takes. -/
def lockMode (reads : Bool) : LockMode := if reads then .shared else .exclusive

namespace Process

/-- The thread goes on to a stage. -/
def enter (p : Process) (i : Nat) (stage : Stage) : Process :=
  { p with stage := Function.update p.stage i stage }

/-- The thread sets its `holdingForTransaction`. -/
def hold (p : Process) (i : Nat) (holding : Bool) : Process :=
  { p with holdingForTransaction := Function.update p.holdingForTransaction i holding }

/-- `ProcessStatement` up to the lock. A text without tokens, and one that does not parse, never
gets there. -/
def submit (p : Process) (i : Nat) (statement : Option Statement) : Process :=
  match statement with
  | none => p
  | some statement =>
    let shared := !p.holdingForTransaction i && readsOnly statement.kind
    if !p.holdingForTransaction i then p.enter i (.waiting shared statement)
    else p.enter i (.running shared statement)

/-- The lock is granted. -/
def acquire (p : Process) (i : Nat) (reads : Bool) (statement : Statement) : Process :=
  { p.enter i (.running reads statement) with
    engineLock := p.engineLock.lock i (lockMode reads) }

/-- The thread works on the engine. -/
def after (p : Process) (work : Work) (stage : Stage) : Process :=
  { p.enter work.thread stage with toShared := work.apply p.toShared }

/-- A thread lets the engine lock go. -/
def unlock (p : Process) (i : Nat) (mode : LockMode) : Process :=
  { p with engineLock := p.engineLock.unlock i mode }

/-- The end of `ProcessStatement`, and what it gives back. -/
def giveBack (p : Process) (i : Nat) (reads : Bool) : Option LockMode × Process :=
  let done := p.enter i .idle
  if p.holdingForTransaction i then
    if !p.session.transactionOpen then
      (some .exclusive, (done.hold i false).unlock i .exclusive)
    else (none, done)
  else if reads then (some .shared, done.unlock i .shared)
  else if p.session.transactionOpen then (none, done.hold i true)
  else (some .exclusive, done.unlock i .exclusive)

/-- `engineReleaseTransaction`. -/
def releaseTransaction (p : Process) (i : Nat) : Process :=
  if !p.holdingForTransaction i then p else (p.hold i false).unlock i .exclusive

end Process

/-- What is noted of a step. -/
inductive Event
  | lock (event : LockEvent Nat)
  /-- The work, and whether a transaction is open behind it. -/
  | did (work : Work) (leavesOpen : Bool)

/-- The thread that the event is of. -/
def Event.thread : Event → Nat
  | .lock event => event.thread
  | .did work _ => work.thread

namespace Process

/-- One thread takes one step. -/
inductive Step : Process → List Event → Process → Prop
  | connect {p : Process} {i : Nat} (hstage : p.stage i = .absent) :
      Step p [] (p.enter i .idle)
  | submit {p : Process} {i : Nat} (statement : Option Statement) (hstage : p.stage i = .idle) :
      Step p [] (p.submit i statement)
  | acquire {p : Process} {i : Nat} {reads : Bool} {statement : Statement}
      (hstage : p.stage i = .waiting reads statement)
      (hgrants : p.engineLock.grants (lockMode reads)) :
      Step p [.lock (.acquire i (lockMode reads))] (p.acquire i reads statement)
  | execute {p : Process} {i : Nat} {reads : Bool} {statement : Statement} (world : World)
      (fault : Option Fault) (hstage : p.stage i = .running reads statement) :
      Step p
        [.did (.process i reads world fault statement)
          ((Work.process i reads world fault statement).apply p.toShared).session.transactionOpen]
        (p.after (.process i reads world fault statement) (.ran reads))
  | giveBack {p : Process} {i : Nat} {reads : Bool} (hstage : p.stage i = .ran reads) :
      Step p ((p.giveBack i reads).1.map fun mode => .lock (.release i mode)).toList
        (p.giveBack i reads).2
  /-- The socket has a receive timeout for as long as the thread holds the lock. -/
  | timeout {p : Process} {i : Nat} (hstage : p.stage i = .idle)
      (hholding : p.holdingForTransaction i = true) :
      Step p [] (p.enter i .leaving)
  | hangUp {p : Process} {i : Nat} (hstage : p.stage i = .idle) : Step p [] (p.enter i .leaving)
  | close {p : Process} {i : Nat} (hstage : p.stage i = .leaving)
      (hholding : p.holdingForTransaction i = false) :
      Step p [] (p.enter i .gone)
  | abandon {p : Process} {i : Nat} (world : World) (hstage : p.stage i = .leaving)
      (hholding : p.holdingForTransaction i = true) :
      Step p
        [.did (.abandon i world)
          ((Work.abandon i world).apply p.toShared).session.transactionOpen]
        (p.after (.abandon i world) .abandoned)
  | release {p : Process} {i : Nat} (hstage : p.stage i = .abandoned) :
      Step p [.lock (.release i .exclusive)] ((p.releaseTransaction i).enter i .gone)

/-- Steps of any threads in any order. -/
inductive Run (p : Process) : List Event → Process → Prop
  | start : Run p [] p
  | step {log more : List Event} {q r : Process} (hrun : Run p log q) (hstep : Step q more r) :
      Run p (log ++ more) r

end Process

/-- The server before anyone has connected. -/
def Process.listening (s : Session) : Process where
  session := s
  threads _ := freshThread
  stage _ := .absent
  holdingForTransaction _ := false
  engineLock := .free

/-- What the log says of the lock. -/
def locks (log : List Event) : List (LockEvent Nat) :=
  log.filterMap fun event => match event with
    | .lock event => some event
    | .did _ _ => none

/-- What has been done to the engine, in order, and whether a transaction was open behind it. -/
def history (log : List Event) : List (Work × Bool) :=
  log.filterMap fun event => match event with
    | .lock _ => none
    | .did work leavesOpen => some (work, leavesOpen)

end DatabaseEngine
