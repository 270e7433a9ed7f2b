import DatabaseEngine.Model.Answer
import DatabaseEngine.Model.Messages

/-!
# `DatabaseEngine.Model.Process`: a statement from its text to its result

`ProcessStatement` of `10_controller.c` as a connection sees it: the text is tokenised, parsed,
checked and executed. A SELECT is answered from the tables (`Model/Answer`). Of every other
statement the connection sees a count of rows and no columns; what it does is a parameter here
(`Around.perform`), and modelled in `Model/Executor` and `Model/Session`.
-/

set_option autoImplicit false

namespace DatabaseEngine

/-- What a statement meets: the tables, and everything else that the engine and the thread hold. -/
structure EngineView (R : Type) where
  data : Data
  rest : R

/-- The tables without their rows. -/
def EngineView.catalog {R : Type} (view : EngineView R) : List CatalogNode :=
  view.data.tables.map StoredTable.node

/-- What is left open of a statement. -/
structure Around (R : Type) where
  /-- What the thread has kept of earlier SELECTs, for each SELECT of the statement. -/
  statics : R → Nat → Statics
  /-- What a SELECT leaves of the rest. -/
  keep : List UInt8 → EngineView R → R
  /-- How often a statement groups rows. -/
  groupings : List UInt8 → EngineView R → Nat
  /-- What a statement that is no SELECT answers and leaves. -/
  perform : StatementKind → List PooledSelect → EngineView R → Except ErrorCode Nat × EngineView R
  inTransaction : R → Bool

section
variable {R : Type} (o : Around R)

/-- A parsed SELECT through `semanticCheck` and `executeStatement`. -/
def processSelect (select : ParsedSelect) (pool : List PooledSelect) (view : EngineView R) :
    Except ErrorCode Results :=
  match Query.checkSelectFrom view.catalog (pool.length + 1) select
    { pool := pool, accepted := [] } with
  | .error code => .error code
  | .ok (select, checking) =>
    (answerStatement view.data (o.statics view.rest) checking.pool select).map fun out =>
      { toResultSet := out, rowsAffected := 0,
        arena := if select.groupBy = [] ∧ select.hasAggregate = false then .statementArena
          else .groupArena }

/-- `ProcessStatement`. A line of nothing but a comment is nothing to do. -/
def processText (sql : List UInt8) (view : EngineView R) : Processed (EngineView R) :=
  match tokenizeStatement sql with
  | .error code => { answer := .error code, groupings := 0, engine := view }
  | .ok tokens =>
    if tokens.isEmpty then { answer := .ok noResults, groupings := 0, engine := view }
    else
      match parseStatement tokens with
      | .error code => { answer := .error code, groupings := 0, engine := view }
      | .ok statement =>
        match statement.kind with
        | .STMT_SELECT select =>
          { answer := processSelect o select statement.pool view
            groupings := o.groupings sql view
            engine := { view with rest := o.keep sql view } }
        | .plain kind =>
          let performed := o.perform kind statement.pool view
          { answer := performed.1.map fun rows => { noResults with rowsAffected := rows }
            groupings := o.groupings sql view
            engine := performed.2 }

/-- The engine behind a connection. -/
def Around.backend : Backend (EngineView R) :=
  { process := processText o, inTransaction := fun view => o.inTransaction view.rest }

end

end DatabaseEngine
