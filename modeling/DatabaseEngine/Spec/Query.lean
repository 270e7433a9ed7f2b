import DatabaseEngine.Model.Answer

/-!
# `DatabaseEngine.Spec.Query`: the SELECTs that are run

* `AcceptedSelect`: a SELECT as the parser and the semantic stage leave it, wherever it is written.
-/

set_option autoImplicit false

namespace DatabaseEngine

/-- A SELECT that was parsed, as a statement or as a subquery behind others, and that `checkSelect`
has accepted. -/
def AcceptedSelect (tables : List CatalogNode) (checked : ParsedSelect) : Prop :=
  ∃ fuel tokens pool select pool' depth checking checking',
    pool.length ≤ MAX_SUBQUERIES ∧ parseSelectFrom fuel tokens pool = .ok (select, pool') ∧
      Query.checkSelectFrom tables depth select checking = .ok (checked, checking')

end DatabaseEngine
