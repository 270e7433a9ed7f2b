import DatabaseEngine.Proofs.Heap.Records
import DatabaseEngine.Proofs.Join.Columns

/-!
# `DatabaseEngine.Proofs.Heap.Decoding`: records decoded in place, and only in part

`decodeRecord` walks a record as far as it is asked to, and writes over a row that still holds
earlier records.

* `decodeFields_alike`: a decoded value is alike the one that a full read gives.
* `record_roundTrip`: what is written reads back, whole, in place and in part.
* `evaluateCondition_partial`: a condition that is bound to a table says the same of a row decoded
  as far as the condition reads, whatever the row held.
-/

set_option autoImplicit false

namespace DatabaseEngine

open Library

/-! ### Decoding -/

section
variable {page : Bytes}

/-- Decoding over an old value and reading afresh agree up to numbers no type uses. -/
theorem decodeField_alike (n : Nat) (old : Value) :
    (decodeField page n old).1.Alike (readField page n).1 ∧
      (decodeField page n old).2 = (readField page n).2 := by
  unfold decodeField readField
  split
  · exact ⟨.ofNull rfl rfl, rfl⟩
  · dsimp only
    split
    · next hint =>
      refine ⟨⟨rfl, fun _ => rfl, fun _ => rfl, fun _ _ => rfl, fun _ htype => ?_⟩, rfl⟩
      rw [show ColType.ofCode _ = .TYPE_FLOAT from htype] at hint
      cases hint
    · next hint =>
      split
      · next hfloat =>
        refine ⟨⟨rfl, fun _ => hfloat, fun _ => rfl, fun _ htype => ?_, fun _ _ => rfl⟩, rfl⟩
        exact absurd htype hint
      · next hfloat =>
        have htext : ColType.ofCode (page (n + 1)).toNat = .TYPE_TEXT := by
          generalize ColType.ofCode (page (n + 1)).toNat = type at hint hfloat
          cases type with
          | TYPE_TEXT => rfl
          | TYPE_INT => exact absurd rfl hint
          | TYPE_DATE => exact absurd rfl hint
          | TYPE_FLOAT => exact absurd rfl hfloat
        exact ⟨⟨rfl, fun _ => htext, fun _ => rfl, fun _ htype => absurd htype hint,
          fun _ htype => absurd htype hfloat⟩, rfl⟩

/-- Reading answers as many fields as it is asked for. -/
theorem readFields_length (n count : Nat) : (readFields page n count).length = count := by
  induction count generalizing n with
  | zero => rfl
  | succ count ih => rw [readFields, List.length_cons, ih]

/-- A walk that stops earlier reads the first of the same values. -/
theorem readFields_take (n : Nat) {few count : Nat} (h : few ≤ count) :
    (readFields page n count).take few = readFields page n few := by
  induction few generalizing n count with
  | zero => rfl
  | succ few ih =>
    obtain ⟨count, rfl⟩ : ∃ k, count = k + 1 := ⟨count - 1, by omega⟩
    rw [readFields, List.take_succ_cons, ih _ (Nat.le_of_succ_le_succ h), readFields]

/-- The columns that are decoded are those of the record. -/
theorem decodeFields_alike (n count : Nat) (row : Row) {slot : Nat} (hslot : slot < count)
    (hlength : slot < row.length) :
    (Row.value (decodeFields page n count row) slot).Alike (Row.value (readFields page n count) slot) := by
  induction row generalizing n count slot with
  | nil => exact absurd hlength (Nat.not_lt_zero _)
  | cons old row ih =>
    obtain ⟨count, rfl⟩ : ∃ k, count = k + 1 := ⟨count - 1, by omega⟩
    obtain ⟨hfield, hnext⟩ := @decodeField_alike page n old
    rw [decodeFields, readFields]
    cases slot with
    | zero => exact hfield
    | succ slot =>
      rw [hnext]
      exact ih _ count (Nat.lt_of_succ_lt_succ hslot) (Nat.lt_of_succ_lt_succ hlength)

/-- The columns behind them are left as they were. -/
theorem decodeFields_behind (n count : Nat) (row : Row) :
    (decodeFields page n count row).drop count = row.drop count := by
  induction row generalizing n count with
  | nil => cases count <;> rfl
  | cons old row ih =>
    cases count with
    | zero => rfl
    | succ count => rw [decodeFields, List.drop_succ_cons, List.drop_succ_cons, ih]

end

/-! ### Records -/

/-- What a record keeps of a value is the value, but for the type of a NULL. -/
structure Value.Kept (a b : Value) : Prop where
  isNull : a.isNull = b.isNull
  type : a.isNull = false → a.type = b.type
  int : a.isNull = false → a.type.intLike = true → a.intValue = b.intValue
  float : a.isNull = false → a.type = .TYPE_FLOAT → a.floatValue = b.floatValue
  text : a.isNull = false → a.type = .TYPE_TEXT → a.text = b.text

/-- What a record keeps of a value is what is written of it. -/
theorem Value.kept_recorded (value : Value) : value.Kept value.recorded := by
  unfold Value.recorded
  cases hnull : value.isNull with
  | true =>
    refine ⟨hnull, ?_, ?_, ?_, ?_⟩ <;>
      · intro h
        rw [hnull] at h
        cases h
  | false =>
    rw [if_neg Bool.false_ne_true]
    cases htype : value.type <;>
      refine ⟨hnull, fun _ => htype, fun _ h => ?_, fun _ h => ?_, fun _ h => ?_⟩ <;>
      rw [htype] at h <;> first | rfl | cases h

/-- A value that agrees with a kept one up to unused numbers is kept as well. -/
theorem Value.Kept.alike {a b c : Value} (h : a.Kept b) (h' : b.Alike c) : a.Kept c where
  isNull := h.isNull.trans h'.isNull
  type ha := (h.type ha).trans (h'.type (h.isNull.symm.trans ha))
  int ha htype := by
    have hb := h.isNull.symm.trans ha
    exact (h.int ha htype).trans (h'.int hb (by rw [← h.type ha]; exact htype))
  float ha htype := by
    have hb := h.isNull.symm.trans ha
    exact (h.float ha htype).trans (h'.float hb ((h.type ha).symm.trans htype))
  text ha htype := (h.text ha htype).trans (h'.text (h.isNull.symm.trans ha))

/-- The columns that `decodeRecord` is asked for and the record has are those of a full read; the
others are left as they were. -/
theorem decodeOver_value {page : Bytes} {offset : Nat} {out : Row} {upto : Int} {slot : Nat}
    (hlength : out.length = MAX_COLS) :
    ((slot : Int) ≤ upto → slot < (readRecord page offset).length →
      (Row.value (readRecord page offset) slot).Alike ((decodeOver page offset out upto).value slot)) ∧
    (upto < (slot : Int) ∨ (readRecord page offset).length ≤ slot →
      (decodeOver page offset out upto).value slot = out.value slot) := by
  unfold readRecord decodeOver
  rw [readFields_length]
  constructor
  · intro hslot hlt
    generalize hcount : min (upto + 1).toNat (min (u16At page offset) MAX_COLS) = count
    have halike := @decodeFields_alike page (offset + 2) count out slot (by omega) (by omega)
    have htake := @readFields_take page (offset + 2) count (min (u16At page offset) MAX_COLS)
      (by omega)
    -- the walk that stops earlier reads the same value
    have hvalue : Row.value (readFields page (offset + 2) (min (u16At page offset) MAX_COLS)) slot =
        Row.value (readFields page (offset + 2) count) slot := by
      rw [← htake]
      unfold Row.value
      rw [List.getD_eq_getElem?_getD, List.getD_eq_getElem?_getD, List.getElem?_take,
        if_pos (by omega)]
    rw [hvalue]
    exact halike.symm
  · intro hbehind
    generalize hcount : min (upto + 1).toNat (min (u16At page offset) MAX_COLS) = count
    have hdrop := @decodeFields_behind page (offset + 2) count out
    obtain ⟨k, rfl⟩ : ∃ k, slot = count + k := ⟨slot - count, by omega⟩
    unfold Row.value
    rw [List.getD_eq_getElem?_getD, List.getD_eq_getElem?_getD, ← List.getElem?_drop, hdrop,
      List.getElem?_drop]

/-- A row of up to sixteen values whose record fits a page: the record is as long as it is measured,
it is written without touching anything beside it, and reads back, all at once and over an earlier
row as far as one likes. -/
theorem record_roundTrip (page : Bytes) (start : Nat) {row : Row} (hcols : row.length ≤ MAX_COLS)
    (hsize : recordSize row ≤ PAGE_SIZE) :
    (recordBytes row).length = recordSize row ∧
    (∀ n, n < start ∨ start + recordSize row ≤ n →
      putBytesAt page start (recordBytes row) n = page n) ∧
    List.Forall₂ Value.Kept row (readRecord (putBytesAt page start (recordBytes row)) start) ∧
    ∀ (out : Row) (upto : Int), out.length = MAX_COLS → ∀ slot : Nat,
      ((slot : Int) ≤ upto → slot < row.length → (row.value slot).Kept
        ((decodeOver (putBytesAt page start (recordBytes row)) start out upto).value slot)) ∧
      (upto < (slot : Int) ∨ row.length ≤ slot →
        (decodeOver (putBytesAt page start (recordBytes row)) start out upto).value slot =
          out.value slot) := by
  have hlength := recordBytes_length row
  have hread : readRecord (putBytesAt page start (recordBytes row)) start = row.map Value.recorded :=
    readRecord_holds holdsAt_putBytesAt hcols hsize
  refine ⟨hlength, fun n hn => putBytesAt_outside (by rw [hlength]; exact hn), ?_, ?_⟩
  · rw [hread, List.forall₂_map_right_iff]
    exact List.forall₂_same.mpr fun value _ => value.kept_recorded
  · intro out upto hout slot
    obtain ⟨hdecoded, hbehind⟩ := @decodeOver_value (putBytesAt page start (recordBytes row)) start
      out upto slot hout
    rw [hread, List.length_map] at hdecoded hbehind
    refine ⟨fun hslot hlt => ?_, hbehind⟩
    have hvalue : Row.value (row.map Value.recorded) slot = (row.value slot).recorded := by
      unfold Row.value
      rw [List.getD_eq_getElem?_getD, List.getD_eq_getElem?_getD, List.getElem?_map,
        List.getElem?_eq_getElem hlt]
      rfl
    have halike := hdecoded hslot hlt
    rw [hvalue] at halike
    exact (row.value slot).kept_recorded.alike halike

/-- A number, a NULL and a text. -/
def mixedRow : Row := [{ zeroValue with intValue := 5 }, setNull .TYPE_DATE, setText [97, 98]]

/-- The round trip on a row of every type, a NULL among them. -/
theorem record_roundTrip_mixed :
    List.Forall₂ Value.Kept mixedRow
      (readRecord (putBytesAt (fun _ => 0) 100 (recordBytes mixedRow)) 100) :=
  (@record_roundTrip (fun _ => 0) 100 mixedRow (by decide) (by decide)).2.2.1

/-! ### Conditions -/

/-- The walk over all comparisons misses none. -/
theorem le_conditionDeepest {cond : Condition} {node : ConditionNode} (hnode : node ∈ cond.nodes)
    (hkind : node.kind = .COND_COMPARE) :
    exprDeepest cond.exprs node.compare.left ≤ conditionDeepest cond ∧
      exprDeepest cond.exprs node.compare.right ≤ conditionDeepest cond := by
  unfold conditionDeepest
  generalize hstep : (fun (deepest : Int) (node : ConditionNode) =>
    if node.kind = .COND_COMPARE then
      max deepest (max (exprDeepest cond.exprs node.compare.left)
        (exprDeepest cond.exprs node.compare.right))
    else deepest) = step
  -- a step of the walk never goes back
  have hgrows : ∀ (nodes : List ConditionNode) (start : Int), start ≤ nodes.foldl step start := by
    intro nodes
    induction nodes with
    | nil => exact Int.le_refl
    | cons first rest ih =>
      intro start
      refine Int.le_trans ?_ (ih (step start first))
      rw [← hstep]
      dsimp only
      split
      · exact Int.le_max_left ..
      · exact Int.le_refl start
  have hin : ∀ (nodes : List ConditionNode) (start : Int), node ∈ nodes →
      max (exprDeepest cond.exprs node.compare.left) (exprDeepest cond.exprs node.compare.right) ≤
        nodes.foldl step start := by
    intro nodes
    induction nodes with
    | nil => exact fun _ h => absurd h (List.not_mem_nil)
    | cons first rest ih =>
      intro start hmem
      rcases List.mem_cons.mp hmem with rfl | hmem
      · refine Int.le_trans ?_ (hgrows rest (step start node))
        rw [← hstep]
        dsimp only
        rw [if_pos hkind]
        exact Int.le_max_right ..
      · exact ih _ hmem
  have hle := hin cond.nodes (-1) hnode
  omega

/-- Every comparison of a bound condition reads columns of the table, and none beyond the deepest. -/
theorem resolveCondition_deepest {table : CatalogNode} {cond bound : Condition}
    (hbound : resolveCondition table cond = (.ok (), bound)) :
    ReadsBelow bound bound.root (min table.cols.length (conditionDeepest bound + 1).toNat) := by
  intro compare hmem hop
  obtain ⟨hleft, hright⟩ := resolveCondition_reads hbound bound.root compare hmem hop
  obtain ⟨node, hnode, hkind, rfl⟩ := mem_comparisonsFrom hmem
  have hdeep := le_conditionDeepest hnode hkind
  omega

/-- Decoding as far as a bound condition reads is enough for it. -/
theorem evaluateCondition_partial {table : CatalogNode} {cond bound : Condition} {page : Bytes}
    {offset : Nat} {out out' : Row} (sub : Subqueries)
    (hbound : resolveCondition table cond = (.ok (), bound))
    (hrecord : (readRecord page offset).length = table.cols.length)
    (hlength : out.length = MAX_COLS) (hlength' : out'.length = MAX_COLS) :
    evaluateCondition bound sub (decodeOver page offset out (conditionDeepest bound)) =
      evaluateCondition bound sub (decodeOver page offset out' (MAX_COLS - 1)) ∧
    evaluateCondition bound sub (decodeOver page offset out (conditionDeepest bound)) =
      evaluateCondition bound sub (readRecord page offset) := by
  have hreads := resolveCondition_deepest hbound
  have hwidth : table.cols.length ≤ MAX_COLS := by
    rw [← hrecord]
    unfold readRecord
    rw [readFields_length]
    exact Nat.min_le_right ..
  have halike : ∀ slot < min table.cols.length (conditionDeepest bound + 1).toNat,
      ((decodeOver page offset out (conditionDeepest bound)).value slot).Alike
        (Row.value (readRecord page offset) slot) := fun slot hslot =>
    ((decodeOver_value hlength).1 (by omega) (by omega)).symm
  have hfull : ∀ slot < min table.cols.length (conditionDeepest bound + 1).toNat,
      (Row.value (readRecord page offset) slot).Alike
        ((decodeOver page offset out' (MAX_COLS - 1)).value slot) := fun slot hslot =>
    (decodeOver_value hlength').1 (by omega) (by omega)
  exact ⟨evaluateConditionFrom_alike hreads fun slot hslot =>
      (halike slot hslot).trans (hfull slot hslot),
    evaluateConditionFrom_alike hreads halike⟩

/-- `a is null` on a table of the columns `a` and `b`. -/
def nullTable : CatalogNode :=
  { table := Name.ofBytes [116],
    cols := [plainColumn [97] .TYPE_INT, plainColumn [98] .TYPE_TEXT], check := none }

/-- `a IS NULL`. -/
def nullCondition : Condition :=
  { present := true, root := 0,
    nodes := [{ kind := .COND_COMPARE, left := -1, right := -1,
                compare := { left := 0, op := .OP_IS_NULL, right := -1, subquery := -1 } }],
    exprs := [columnOperand [97]] }

/-- A record of two NULLs. -/
def nullPage : Bytes := putBytesAt (fun _ => 0) 100 [2, 0, 1, 1]

/-- Decoding up to the last column named, on a row whose column is NULL. -/
theorem evaluateCondition_partial_null :
    evaluateCondition (resolveCondition nullTable nullCondition).2 (fun _ => [])
        (decodeOver nullPage 100 (List.replicate MAX_COLS (setText [120]))
          (conditionDeepest (resolveCondition nullTable nullCondition).2)) =
      evaluateCondition (resolveCondition nullTable nullCondition).2 (fun _ => [])
        (readRecord nullPage 100) := by
  have hbound : resolveCondition nullTable nullCondition =
      (.ok (), (resolveCondition nullTable nullCondition).2) := by
    decide +kernel
  have hrecord : (readRecord nullPage 100).length = nullTable.cols.length := by decide +kernel
  have hlength : (List.replicate MAX_COLS (setText [120])).length = MAX_COLS :=
    List.length_replicate ..
  have hlength' : (List.replicate MAX_COLS zeroValue).length = MAX_COLS :=
    List.length_replicate ..
  have hboth := evaluateCondition_partial (fun _ => []) hbound hrecord hlength hlength'
  exact hboth.2

end DatabaseEngine
