import DatabaseEngine.Model.Process

/-!
# `DatabaseEngine.Spec.Describe`: the columns of a statement, and what Describe can find of them

* `columnsOf`: what the columns of a text are called and their types, by the catalog alone.
* `boundText`: the text that Execute runs, once Bind has filled in the parameters.
* `StandInHas`: a text with stand-ins is answered over the tables, those before it are refused, and it
  has the columns.
* `ProbesFind`: the same of the attempts of one Describe, each on what the one before has left.
-/

set_option autoImplicit false

namespace DatabaseEngine

/-! ### Columns -/

/-- The columns of a SELECT as the check leaves it. -/
def selectColumns (tables : List CatalogNode) (select : ParsedSelect) : List (Name × ColType) :=
  match selectSchema tables select with
  | .error _ => []
  | .ok table =>
    if select.groupBy = [] ∧ select.hasAggregate = false then
      if select.selectAll then table.cols.map fun column => (column.name, column.type)
      else
        match bindItems table select.items select.exprs with
        | .error _ => []
        | .ok (columns, _) => columns
    else
      match planItems table select.toSelectList select.items select.exprs with
      | .error _ => []
      | .ok (plans, exprs) =>
        (select.items.map (itemHeader table exprs)).zip (plans.map ItemPlan.resultType)

/-- The columns of a text: none when it is no SELECT, or one that is refused. -/
def columnsOf (tables : List CatalogNode) (sql : List UInt8) : List (Name × ColType) :=
  match tokenizeStatement sql with
  | .error _ => []
  | .ok tokens =>
    match parseStatement tokens with
    | .error _ => []
    | .ok statement =>
      match statement.kind with
      | .plain _ => []
      | .STMT_SELECT select =>
        match Query.checkSelectFrom tables (statement.pool.length + 1) select
          { pool := statement.pool, accepted := [] } with
        | .error _ => []
        | .ok (select, _) => selectColumns tables select

/-- How columns are announced. -/
def columnsReply (columns : List (Name × ColType)) : Reply :=
  if columns = [] then .noData
  else .rowDescription (columns.map Prod.fst) (columns.map Prod.snd)

/-! ### Texts -/

/-- What is run of a text that was written into a buffer. -/
def Written.text (w : Written) : Except ErrorCode (List UInt8) :=
  match w.error with
  | some code => .error code
  | none => .ok (w.out.takeWhile (· ≠ 0))

/-- The text of a statement with the values of a Bind. -/
def boundText (statement : Prepared) (values : List (Option (List UInt8))) :
    Except ErrorCode (List UInt8) :=
  (substituteParameters statement.sql statement.types values false LINE_LEN).text

/-- The text of a statement with stand-ins. -/
def probeText (statement : Prepared) (attempt : Nat) : Except ErrorCode (List UInt8) :=
  (probeSql statement attempt).text

/-! ### Stand-ins -/

section
variable {R : Type} (o : Around R) (data : Data)

/-- The engine answers a text over these tables, whatever the thread has kept. -/
def AnswersText (text : List UInt8) : Prop :=
  ∀ rest : R, ∃ results, (processText o text { data := data, rest := rest }).answer = .ok results

/-- The engine refuses a text over these tables, whatever the thread has kept. -/
def RefusesText (text : List UInt8) : Prop :=
  ∀ rest : R, ∃ code, (processText o text { data := data, rest := rest }).answer = .error code

/-- The first text with stand-ins that is not refused is answered, and has these columns. -/
def StandInHas (statement : Prepared) (columns : List (Name × ColType)) : Prop :=
  ∃ n < PROBE_ATTEMPTS,
    (∀ m < n, ∃ text, probeText statement m = .ok text ∧ RefusesText o data text) ∧
    ∃ text, probeText statement n = .ok text ∧ AnswersText o data text ∧
      columnsOf (data.tables.map StoredTable.node) text = columns

/-- What the thread has kept does not decide whether a text with stand-ins is answered. -/
def StandInsDecided (statement : Prepared) : Prop :=
  ∀ n < PROBE_ATTEMPTS, ∀ text, probeText statement n = .ok text →
    AnswersText o data text ∨ RefusesText o data text

end

/-! ### Probes -/

section
variable {R : Type} (o : Around R) (statement : Prepared)

/-- What is there for the attempt that comes `n` after the one given. -/
def probedView : Nat → Nat → EngineView R → EngineView R
  | _, 0, view => view
  | attempt, n + 1, view =>
    match probeText statement attempt with
    | .error _ => view
    | .ok text => probedView (attempt + 1) n (processText o text view).engine

/-- The engine takes an attempt. -/
def ProbeTaken (view : EngineView R) (n : Nat) (results : Results) : Prop :=
  ∃ text, probeText statement n = .ok text ∧
    (processText o text (probedView o statement 0 n view)).answer = .ok results

/-- The engine refuses an attempt, of which the text could be written. -/
def ProbeRefused (view : EngineView R) (n : Nat) : Prop :=
  ∃ text code, probeText statement n = .ok text ∧
    (processText o text (probedView o statement 0 n view)).answer = .error code

/-- The first attempt that the engine takes has these columns. -/
def ProbesFind (view : EngineView R) (columns : List (Name × ColType)) : Prop :=
  ∃ n < PROBE_ATTEMPTS, (∀ m < n, ProbeRefused o statement view m) ∧
    (∃ results, ProbeTaken o statement view n results) ∧
      ∃ text, probeText statement n = .ok text ∧ columnsOf view.catalog text = columns

end

end DatabaseEngine
