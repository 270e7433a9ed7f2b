import DatabaseEngine.Model.Messages

/-!
# `DatabaseEngine.Spec.Messages`: what a client may rely on

* `transcript`: the messages of a connection, each with what it has led to.
* `Disciplined`: how a connection replies.
-/

set_option autoImplicit false

namespace DatabaseEngine

/-! ### Transcripts -/

/-- A ReadyForQuery. -/
def WireEvent.isReady : WireEvent → Bool
  | .reply (.readyForQuery _) => true
  | _ => false

/-- An ErrorResponse. -/
def WireEvent.isError : WireEvent → Bool
  | .reply (.errorResponse _) => true
  | _ => false

/-- A statement handed to the engine. -/
def WireEvent.isRun : WireEvent → Bool
  | .run _ => true
  | _ => false

/-- A Query. -/
def Message.isQuery (message : Message) : Bool := message.type == 81

/-- A Sync. -/
def Message.isSync (message : Message) : Bool := message.type == 83

/-- Each message up to Terminate, with what it has led to. -/
def transcript {E : Type} (b : Backend E) : List Message → Client E → List (Message × List WireEvent)
  | [], _ => []
  | message :: rest, c =>
    if message.type = 88 then []
    else
      (message, (serveMessage b message c).events) :: transcript b rest (serveMessage b message c)

/-! ### Replies -/

/-- How a message that is not skipped is answered: ReadyForQuery is sent for Query and for Sync,
once and last, and at most one error is, behind which nothing runs and only the ReadyForQuery of a
Query follows. -/
structure Message.Answered (message : Message) (events : List WireEvent) : Prop where
  ready : message.isQuery = true ∨ message.isSync = true →
    ∃ front status, events = front ++ [.reply (.readyForQuery status)] ∧
      ∀ event ∈ front, event.isReady = false
  silent : message.isQuery = false → message.isSync = false →
    ∀ event ∈ events, event.isReady = false
  error : ∀ front event rest, events = front ++ event :: rest → event.isError = true →
    (∀ other ∈ front, other.isError = false) ∧
      (∀ other ∈ rest, other.isError = false ∧ other.isRun = false) ∧
      (message.isQuery = false → rest = [])
  sync : message.isSync = true → ∃ status, events = [.reply (.readyForQuery status)]

/-- A transcript in which every message is answered, or skipped: from the failure of an extended
message to the next Sync nothing is sent and nothing runs. -/
def Disciplined : Bool → List (Message × List WireEvent) → Prop
  | _, [] => True
  | false, (message, events) :: rest =>
    message.Answered events ∧
      Disciplined (!message.isQuery && events.any WireEvent.isError) rest
  | true, (message, events) :: rest =>
    if message.isSync then message.Answered events ∧ Disciplined false rest
    else events = [] ∧ Disciplined true rest

end DatabaseEngine
