import DatabaseEngine.Proofs.Join.Typed
import DatabaseEngine.Proofs.Wire.Extended
import DatabaseEngine.Proofs.Wire.Keywords
import DatabaseEngine.Spec.Describe

/-!
# `DatabaseEngine.Proofs.Wire.Describe`: what Describe says of a statement, and what Execute does

* `processText_columns`: the columns of a result are those of the text by the catalog, whatever
  the rows are.
* `probe_data`: behind the word SELECT and a blank every stand-in leaves a SELECT, so that a probe
  changes no table.
* `probeStatement_ok`: the loop over the attempts answers the first that the engine takes.
* `bound_runs`: what Bind has written is what Execute runs.
* `describe_iff_probed`: Describe leaves the tables, and agrees with Execute where its attempts find
  the columns.
* `describe_iff`: the same of the statement, the values and the tables alone.
-/

set_option autoImplicit false

namespace DatabaseEngine

open Library

/-! ### The columns of a result -/

section
variable {data : Data} {statics : Statics} {sub : Subqueries} {select : ParsedSelect}
  {out : ResultSet}

/-- A result has the columns. -/
def ResultSet.Has (out : ResultSet) (columns : List (Name × ColType)) : Prop :=
  out.headers = columns.map Prod.fst ∧ out.types = columns.map Prod.snd

/-- There is a plan for each item. -/
theorem planItems_length {table : CatalogNode} {list : SelectList} {items : List SelectItem}
    {exprs exprs' : ExprPool} {plans : List ItemPlan}
    (h : planItems table list items exprs = .ok (plans, exprs')) : plans.length = items.length := by
  induction items generalizing exprs exprs' plans with
  | nil =>
    obtain ⟨rfl, -⟩ := Prod.mk.inj (Except.ok.inj h)
    rfl
  | cons item rest ih =>
    unfold planItems at h
    dsimp only at h
    split at h
    · exact absurd h (by simp)
    · split at h
      · exact absurd h (by simp)
      · rename_i hrest
        rw [← (Prod.mk.inj (Except.ok.inj h)).1, List.length_cons, List.length_cons, ih hrest]

/-- The answer has the columns of the select list. -/
theorem projectSelect_columns {table : CatalogNode} {rows : List Row}
    (hschema : selectSchema (data.tables.map StoredTable.node) select = .ok table)
    (h : projectSelect statics sub table select rows = .ok out) :
    out.Has (selectColumns (data.tables.map StoredTable.node) select) := by
  unfold selectColumns
  rw [hschema]
  unfold projectSelect at h
  by_cases hplain : select.groupBy = [] ∧ select.hasAggregate = false
  · rw [if_pos hplain] at h
    simp only [if_pos hplain]
    unfold projectRows at h
    by_cases hall : select.selectAll = true
    · rw [if_pos hall] at h ⊢
      cases hrows : projectEach (fun row => .ok ((List.range table.cols.length).map row.value))
          (table.cols.length - 1 : Int) rows [] with
      | error code =>
        rw [hrows] at h
        exact absurd h (by simp [Except.map])
      | ok rows' =>
        rw [hrows] at h
        rw [← Except.ok.inj h]
        exact ⟨by rw [List.map_map]; rfl, by rw [List.map_map]; rfl⟩
    · rw [if_neg hall] at h ⊢
      cases hbind : bindItems table select.items select.exprs with
      | error code =>
        rw [hbind] at h
        exact absurd h (by simp)
      | ok bound =>
        rw [hbind] at h
        dsimp only at h
        generalize projectEach _ _ rows [] = projected at h
        cases projected with
        | error code => exact absurd h (by simp [Except.map])
        | ok rows' =>
          rw [← Except.ok.inj h]
          exact ⟨rfl, rfl⟩
  · rw [if_neg hplain] at h
    simp only [if_neg hplain]
    unfold projectGroups at h
    split at h
    · exact absurd h (by simp)
    · cases hplan : planItems table select.toSelectList select.items select.exprs with
      | error code =>
        rw [hplan] at h
        exact absurd h (by simp)
      | ok planned =>
        obtain ⟨plans, exprs⟩ := planned
        have hlength := planItems_length hplan
        rw [hplan] at h
        dsimp only at h
        split at h
        · exact absurd h (by simp)
        · split at h
          · exact absurd h (by simp)
          · split at h
            · exact absurd h (by simp)
            · rw [← Except.ok.inj h]
              constructor
              · rw [List.map_fst_zip (by simp [hlength])]
              · rw [List.map_snd_zip (by simp [hlength])]

/-- DISTINCT, ORDER BY and LIMIT leave the columns of the projection. -/
theorem answerSelect_projected (h : answerSelect data statics sub select = .ok out) :
    ∃ table rows projected,
      selectSchema (data.tables.map StoredTable.node) select = .ok table ∧
      projectSelect statics sub table select rows = .ok projected ∧
      out.headers = projected.headers ∧ out.types = projected.types := by
  unfold answerSelect at h
  split at h
  · exact absurd h (by simp)
  · rename_i table rows hsource
    split at h
    · exact absurd h (by simp)
    · rename_i kept _
      split at h
      · exact absurd h (by simp)
      · rename_i projected hproject
        refine ⟨table, kept, projected, selectSource_schema hsource, hproject, ?_⟩
        have hdistinct : ∀ n, (applyDistinct n select projected).headers = projected.headers ∧
            (applyDistinct n select projected).types = projected.types := by
          intro n
          unfold applyDistinct
          split <;> exact ⟨rfl, rfl⟩
        unfold applyOrder at h
        cases hterms : bindOrder (applyDistinct statics.distinctCount select projected).headers
            select.order with
        | error code =>
          rw [hterms] at h
          exact absurd h (by simp [Except.map])
        | ok terms =>
          rw [hterms] at h
          rw [← Except.ok.inj h]
          have hlimit : ∀ (out : ResultSet), (applyLimit select out).headers = out.headers ∧
              (applyLimit select out).types = out.types := by
            intro out
            unfold applyLimit
            split <;> exact ⟨rfl, rfl⟩
          constructor
          · rw [(hlimit _).1]
            exact (hdistinct _).1
          · rw [(hlimit _).2]
            exact (hdistinct _).2

/-- A SELECT that is answered has the columns its schema gives. -/
theorem answerSelect_columns (h : answerSelect data statics sub select = .ok out) :
    out.Has (selectColumns (data.tables.map StoredTable.node) select) := by
  obtain ⟨table, rows, projected, hschema, hproject, hheaders, htypes⟩ := answerSelect_projected h
  obtain ⟨hnames, hkinds⟩ := projectSelect_columns hschema hproject
  exact ⟨hheaders.trans hnames, htypes.trans hkinds⟩

end

section
variable {R : Type} {o : Around R} {view : EngineView R} {sql : List UInt8} {results : Results}

/-- So has the text of one. -/
theorem processText_columns (h : (processText o sql view).answer = .ok results) :
    results.toResultSet.Has (columnsOf view.catalog sql) := by
  unfold processText at h
  unfold columnsOf
  cases htokens : tokenizeStatement sql with
  | error code =>
    rw [htokens] at h
    exact absurd h (by simp)
  | ok tokens =>
    rw [htokens] at h
    dsimp only at h ⊢
    by_cases hempty : tokens.isEmpty = true
    · rw [if_pos hempty] at h
      obtain rfl := List.isEmpty_iff.mp hempty
      rw [← Except.ok.inj h]
      exact ⟨rfl, rfl⟩
    · rw [if_neg hempty] at h
      cases hparse : parseStatement tokens with
      | error code =>
        rw [hparse] at h
        exact absurd h (by simp)
      | ok statement =>
        rw [hparse] at h
        dsimp only at h ⊢
        cases hkind : statement.kind with
        | plain kind =>
          rw [hkind] at h
          dsimp only at h ⊢
          cases hperformed : (o.perform kind statement.pool view).1 with
          | error code =>
            rw [hperformed] at h
            exact absurd h (by simp [Except.map])
          | ok rows =>
            rw [hperformed] at h
            rw [← Except.ok.inj h]
            exact ⟨rfl, rfl⟩
        | STMT_SELECT select =>
          rw [hkind] at h
          dsimp only at h ⊢
          unfold processSelect at h
          cases hcheck : Query.checkSelectFrom view.catalog (statement.pool.length + 1) select
              { pool := statement.pool, accepted := [] } with
          | error code =>
            rw [hcheck] at h
            exact absurd h (by simp)
          | ok checked =>
            rw [hcheck] at h
            dsimp only at h
            cases hanswer : answerStatement view.data (o.statics view.rest) checked.2.pool
                checked.1 with
            | error code =>
              rw [hanswer] at h
              exact absurd h (by simp [Except.map])
            | ok out =>
              rw [hanswer] at h
              rw [← Except.ok.inj h]
              unfold answerStatement at hanswer
              split at hanswer
              · exact absurd hanswer (by simp)
              · exact answerSelect_columns hanswer

end

/-! ### Behind the word SELECT -/

/-- A byte that substitution copies and that is no end of a text. -/
def Plain (c : UInt8) : Prop := c ≠ 36 ∧ c ≠ 39 ∧ c ≠ 0

/-- What the scans see in a byte: raising it does not change what it is folded to, a blank is
nothing special to them, and a letter is a word's byte, no blank and no minus. -/
theorem byte_kinds : ∀ c : UInt8, tolower (toupper c) = tolower c ∧
    (isspace c = true → c ≠ 36 ∧ c ≠ 39 ∧ c ≠ 0) ∧
    (isSmall (tolower c) = true → inWord c = true ∧ (c ≠ 36 ∧ c ≠ 39 ∧ c ≠ 0) ∧
      isWord c = true ∧ isspace c = false ∧ c ≠ 45 ∧ isalpha c = true) := by
  exact forall_byte (by decide +kernel)

/-- Raising a letter does not change what it is folded to. -/
theorem tolower_toupper (c : UInt8) : tolower (toupper c) = tolower c := (byte_kinds c).1

/-- A letter stands in words. -/
theorem inWord_of_small (c : UInt8) (h : isSmall (tolower c) = true) : inWord c = true :=
  ((byte_kinds c).2.2 h).1

/-- A letter is nothing special to the scans. -/
theorem plain_of_small (c : UInt8) (h : isSmall (tolower c) = true) : Plain c :=
  ((byte_kinds c).2.2 h).2.1

/-- Nor is a blank. -/
theorem plain_of_space (c : UInt8) (h : isspace c = true) : Plain c := (byte_kinds c).2.1 h

/-- Blanks, the word SELECT, and the end or a blank. -/
structure Opens (text blanks word rest : List UInt8) : Prop where
  append : text = blanks ++ word ++ rest
  blank : ∀ c ∈ blanks, isspace c = true
  select : word.map tolower = ascii "select"
  apart : ∀ c, rest.head? = some c → isspace c = true

/-- A text whose verb is SELECT opens with that word. -/
theorem opens_of_verb {sql : List UInt8} (h : (takeVerb sql).1 = ascii "SELECT") :
    ∃ blanks word rest, Opens sql blanks word rest := by
  have hword : ((sql.dropWhile isspace).takeWhile fun c => !isspace c).take (NAME_LEN - 1) =
      (sql.dropWhile isspace).takeWhile fun c => !isspace c := by
    refine List.take_of_length_le ?_
    have hlength : (((sql.dropWhile isspace).takeWhile fun c => !isspace c).take
        (NAME_LEN - 1)).length = 6 := by
      have := congrArg List.length h
      rw [show (takeVerb sql).1 = (((sql.dropWhile isspace).takeWhile fun c => !isspace c).take
        (NAME_LEN - 1)).map toupper from rfl, List.length_map] at this
      exact this
    rw [List.length_take] at hlength
    have hmax : NAME_LEN - 1 = 63 := rfl
    omega
  refine ⟨sql.takeWhile isspace, (sql.dropWhile isspace).takeWhile fun c => !isspace c,
    (sql.dropWhile isspace).dropWhile fun c => !isspace c, ?_, ?_, ?_, ?_⟩
  · rw [List.append_assoc, List.takeWhile_append_dropWhile, List.takeWhile_append_dropWhile]
  · exact fun c hc => List.mem_takeWhile_imp hc
  · have hupper : ((sql.dropWhile isspace).takeWhile fun c => !isspace c).map toupper =
        ascii "SELECT" := by
      rw [← hword]
      exact h
    calc ((sql.dropWhile isspace).takeWhile fun c => !isspace c).map tolower
        = (((sql.dropWhile isspace).takeWhile fun c => !isspace c).map toupper).map tolower := by
          rw [List.map_map]
          exact List.map_congr_left fun c _ => (tolower_toupper c).symm
      _ = ascii "select" := by
          rw [hupper]
          decide
  · intro c hc
    have := List.head?_dropWhile_not (fun c => !isspace c) (sql.dropWhile isspace)
    rw [hc] at this
    simpa using this

/-- The opening word is made of letters. -/
theorem Opens.small {text blanks word rest : List UInt8} (h : Opens text blanks word rest) :
    ∀ c ∈ word, isSmall (tolower c) = true := by
  intro c hc
  have hmem : tolower c ∈ ascii "select" := by
    rw [← h.select]
    exact List.mem_map_of_mem hc
  have hall : (ascii "select").all isSmall = true := by decide
  exact List.all_eq_true.mp hall _ hmem

/-- A text of word bytes is one word. -/
theorem takeWord_all {word : List UInt8} (h : ∀ c ∈ word, isWord c = true) :
    takeWord word = (word, []) := by
  induction word with
  | nil => rfl
  | cons c rest ih =>
    unfold takeWord
    rw [h c List.mem_cons_self, Bool.true_or, if_pos rfl,
      ih fun d hd => h d (List.mem_cons_of_mem _ hd)]

/-- A letter is a word's byte, no blank and no minus. -/
theorem letter_kinds (c : UInt8) (h : isSmall (tolower c) = true) :
    isWord c = true ∧ isspace c = false ∧ c ≠ 45 ∧ isalpha c = true :=
  ((byte_kinds c).2.2 h).2.2

/-- Blanks in front change nothing of the tokens. -/
theorem lexes_blanks {blanks text : List UInt8} {tokens : List Token}
    (h : ∀ c ∈ blanks, isspace c = true) (hmore : Lexes text tokens) :
    Lexes (blanks ++ text) tokens := by
  induction blanks with
  | nil => exact hmore
  | cons c rest ih =>
    refine .skip ?_ (ih fun d hd => h d (List.mem_cons_of_mem _ hd))
    show lexOne (c :: (rest ++ text)) = _
    rw [lexOne, if_pos (h c List.mem_cons_self)]

/-- What opens with SELECT is lexed to the keyword first, whatever follows. -/
theorem Opens.keyword {text blanks word rest : List UInt8} (h : Opens text blanks word rest)
    {tokens : List Token} (htokens : tokenizeStatement text = .ok tokens) :
    typeAt tokens 0 = .TOKEN_KEYWORD_SELECT := by
  have hsmall := h.small
  have hclass : classifyWord word = .TOKEN_KEYWORD_SELECT := by
    obtain ⟨keyword, hmem, htoken, hword⟩ :=
      keywords_complete .TOKEN_KEYWORD_SELECT (ascii "select") rfl
    rw [← htoken]
    refine classifyWord_of_spelled hmem (fun c hc => inWord_of_small c (hsmall c hc)) ?_
    rw [hword]
    exact h.select
  have hlength : word.length = 6 := by
    have := congrArg List.length h.select
    rw [List.length_map] at this
    exact this
  have hone : lexOne word = .token ⟨.TOKEN_KEYWORD_SELECT, word⟩ [] := by
    cases hword : word with
    | nil =>
      rw [hword] at hlength
      exact absurd hlength (by decide)
    | cons c more =>
      rw [hword] at hsmall hclass hlength
      obtain ⟨-, hspace, hmark, halpha⟩ := letter_kinds c (hsmall c List.mem_cons_self)
      have htake : takeWord (c :: more) = (c :: more, []) :=
        takeWord_all fun d hd => (letter_kinds d (hsmall d hd)).1
      have hmax : VALUE_LEN = 8192 := rfl
      rw [lexOne, hspace, if_neg (by decide), if_neg fun hcomment => hmark hcomment.1, halpha,
        Bool.true_or, if_pos rfl, htake]
      unfold lexedWord
      rw [if_neg (by rw [hlength, hmax]; decide), hclass]
  have hlexes : Lexes (blanks ++ word) [⟨.TOKEN_KEYWORD_SELECT, word⟩] :=
    lexes_blanks h.blank (.token hone .nil)
  have hbreaks : Breaks rest := fun c hc => .inl (h.apart c hc)
  have hmark : (blanks ++ word).getLast? = some 45 → rest.head? ≠ some 45 := by
    intro hlast hhead
    have := h.apart 45 hhead
    exact absurd this (by decide)
  rw [h.append, tokenizeStatement_eq, lexFrom_append hlexes hbreaks hmark [] (by
    show 0 + 1 ≤ MAX_TOKENS
    decide)] at htokens
  obtain ⟨-, -, ts, -, rfl⟩ := lexFrom_split htokens
  rfl

/-! ### Stand-ins -/

section
variable {types : List Int} {values : List (Option (List UInt8))} {spelled : Bool} {size : Nat}

/-- Putting bytes only adds to the buffer. -/
theorem putInto_out (bytes out : List UInt8) : out <+: (putInto size bytes out).out := by
  unfold putInto
  split
  · exact List.prefix_rfl
  · exact List.prefix_append _ _

/-- So do two writes that do. -/
theorem andThen_out {w : Written} {next : List UInt8 → Written} {out : List UInt8}
    (h : out <+: w.out) (hnext : ∀ out', out' <+: (next out').out) :
    out <+: (w.andThen next).out := by
  unfold Written.andThen
  split
  · exact h
  · exact h.trans (hnext _)

/-- So does quoting a value. -/
theorem quoteInto_out (bytes out : List UInt8) : out <+: (quoteInto size bytes out).out := by
  induction bytes generalizing out with
  | nil => exact List.prefix_rfl
  | cons c rest ih =>
    unfold quoteInto
    split
    · exact List.prefix_rfl
    · exact (List.prefix_append _ _).trans (ih _)

/-- So does putting in a parameter. -/
theorem putParameter_out (oid : Int) (out : List UInt8) (value : Option (List UInt8)) :
    out <+: (putParameter size spelled oid out value).out := by
  unfold putParameter
  split
  · exact putInto_out _ _
  · split
    · exact putInto_out _ _
    · exact andThen_out (andThen_out (putInto_out _ _) fun _ => quoteInto_out _ _)
        fun _ => putInto_out _ _

/-- What has been written stays. -/
theorem substituteFrom_out (fuel : Nat) (q : Bool) (out text : List UInt8) :
    out <+: (substituteFrom types values spelled size fuel q out text).out := by
  induction fuel generalizing q out text with
  | zero => exact List.prefix_rfl
  | succ fuel ih =>
    cases text with
    | nil => exact List.prefix_rfl
    | cons c rest =>
      rw [substituteFrom]
      split
      · split
        · exact List.prefix_rfl
        · dsimp only
          split
          · exact List.prefix_rfl
          · exact andThen_out (putParameter_out _ _ _) fun _ => ih _ _ _
      · exact andThen_out (putInto_out _ _) fun _ => ih _ _ _

/-- Plain bytes are copied. -/
theorem substituteFrom_plain {fuel : Nat} {out a b : List UInt8} (ha : ∀ c ∈ a, Plain c)
    (hfuel : (a ++ b).length < fuel)
    (hok : (substituteFrom types values spelled size fuel false out (a ++ b)).error = none) :
    ∃ fuel', b.length < fuel' ∧ substituteFrom types values spelled size fuel false out (a ++ b) =
      substituteFrom types values spelled size fuel' false (out ++ a) b := by
  induction a generalizing fuel out with
  | nil => exact ⟨fuel, hfuel, by rw [List.append_nil]; rfl⟩
  | cons c rest ih =>
    obtain ⟨fuel, rfl⟩ : ∃ n, fuel = n + 1 := ⟨fuel - 1, by omega⟩
    obtain ⟨hhole, hquote, -⟩ := ha c List.mem_cons_self
    have hstep : substituteFrom types values spelled size (fuel + 1) false out
        (c :: (rest ++ b)) = (putInto size [c] out).andThen fun out =>
          substituteFrom types values spelled size fuel false out (rest ++ b) := by
      rw [substituteFrom, if_neg fun h => hhole h.2.1, if_neg hquote]
    rw [List.cons_append, hstep] at hok ⊢
    simp only [List.cons_append, List.length_cons] at hfuel
    by_cases hfits : size ≤ out.length + [c].length
    · rw [putInto, if_pos hfits] at hok
      exact absurd hok (by simp [Written.andThen])
    · rw [putInto, if_neg hfits] at hok ⊢
      obtain ⟨fuel', hfuel', heq⟩ := @ih fuel (out ++ [c])
        (fun d hd => ha d (List.mem_cons_of_mem _ hd)) (by omega) hok
      refine ⟨fuel', hfuel', ?_⟩
      show substituteFrom types values spelled size fuel false (out ++ [c]) (rest ++ b) = _
      rw [heq, List.append_assoc]
      rfl

end

/-- Whatever is filled into a statement that opens with SELECT, it still does. -/
theorem Opens.written {statement : Prepared} {blanks word rest : List UInt8}
    (h : Opens statement.sql blanks word rest) {values : List (Option (List UInt8))}
    {spelled : Bool} {text : List UInt8}
    (htext : (substituteParameters statement.sql statement.types values spelled LINE_LEN).text =
      .ok text) : ∃ rest', Opens text blanks word rest' := by
  -- the blank behind the word is copied with it
  have hplain : ∀ c ∈ blanks ++ word ++ rest.take 1, Plain c := by
    intro c hc
    rcases List.mem_append.mp hc with hfront | hnext
    · rcases List.mem_append.mp hfront with hblank | hword
      · exact plain_of_space c (h.blank c hblank)
      · exact plain_of_small c (h.small c hword)
    · refine plain_of_space c (h.apart c ?_)
      cases rest with
      | nil => exact absurd hnext (by simp)
      | cons d more =>
        obtain rfl : c = d := by simpa using hnext
        rfl
  have happend : statement.sql = blanks ++ word ++ rest.take 1 ++ rest.drop 1 := by
    rw [List.append_assoc (blanks ++ word), List.take_append_drop, h.append]
  unfold Written.text at htext
  cases herror : (substituteParameters statement.sql statement.types values spelled LINE_LEN).error
    with
  | some code =>
    rw [herror] at htext
    exact absurd htext (by simp)
  | none =>
    rw [herror] at htext
    have hout := Except.ok.inj htext
    unfold substituteParameters at herror hout
    rw [happend] at herror hout
    obtain ⟨fuel, hfuel, heq⟩ := substituteFrom_plain hplain (Nat.lt_succ_self _) herror
    rw [heq, List.nil_append] at hout
    obtain ⟨more, hmore⟩ := @substituteFrom_out statement.types values spelled LINE_LEN fuel false
      (blanks ++ word ++ rest.take 1) (rest.drop 1)
    have hzero : ∀ c ∈ blanks ++ word, decide (c ≠ 0) = true := fun c hc =>
      decide_eq_true (hplain c (List.mem_append_left _ hc)).2.2
    refine ⟨(rest.take 1 ++ more).takeWhile (· ≠ 0), ?_, h.blank, h.select, ?_⟩
    · rw [← hout, ← hmore, List.append_assoc (blanks ++ word),
        List.takeWhile_append_of_pos hzero]
    · intro c hc
      cases hrest : rest with
      | nil =>
        -- nothing is left to write
        rw [hrest] at hmore hc
        have hnothing : more = [] := by
          obtain ⟨fuel, rfl⟩ : ∃ n, fuel = n + 1 := ⟨fuel - 1, by omega⟩
          rw [List.drop_nil, substituteFrom] at hmore
          exact List.append_cancel_left (hmore.trans (List.append_nil _).symm)
        rw [hnothing] at hc
        exact absurd hc (by simp)
      | cons d tail =>
        rw [hrest] at hc
        have hspace := h.apart d (by rw [hrest]; rfl)
        have hne : d ≠ 0 := (plain_of_space d hspace).2.2
        have hhead : (d :: more).takeWhile (· ≠ 0) = d :: more.takeWhile (· ≠ 0) :=
          List.takeWhile_cons_of_pos (decide_eq_true hne)
        change ((d :: more).takeWhile (· ≠ 0)).head? = some c at hc
        rw [hhead] at hc
        rw [← Option.some.inj hc]
        exact hspace

/-! ### A probe changes no table -/

section
variable {R : Type} {o : Around R} {statement : Prepared} {view : EngineView R}

/-- A text that starts with SELECT leaves the data. -/
theorem processText_data {text : List UInt8}
    (h : ∀ tokens, tokenizeStatement text = .ok tokens →
      typeAt tokens 0 = .TOKEN_KEYWORD_SELECT) :
    (processText o text view).engine.data = view.data := by
  unfold processText
  cases htokens : tokenizeStatement text with
  | error code => rfl
  | ok tokens =>
    dsimp only
    split
    · rfl
    · cases hparse : parseStatement tokens with
      | error code => rfl
      | ok parsed =>
        unfold parseStatement at hparse
        rw [if_pos (h tokens htokens)] at hparse
        cases hselect : parseSelect tokens [] with
        | error code =>
          rw [hselect] at hparse
          exact absurd hparse (by simp [Except.map])
        | ok read =>
          rw [hselect] at hparse
          rw [← Except.ok.inj hparse]

/-- Behind SELECT and a blank every stand-in leaves a SELECT. -/
theorem probe_data (hverb : (takeVerb statement.sql).1 = ascii "SELECT") {n : Nat}
    {text : List UInt8} (htext : probeText statement n = .ok text) :
    (processText o text view).engine.data = view.data := by
  obtain ⟨blanks, word, rest, hopens⟩ := opens_of_verb hverb
  obtain ⟨rest', hopens'⟩ := hopens.written htext
  exact processText_data fun tokens htokens => hopens'.keyword htokens

/-- So do all the probes of a statement whose verb is SELECT. -/
theorem probedView_data (hverb : (takeVerb statement.sql).1 = ascii "SELECT") (attempt n : Nat) :
    (probedView o statement attempt n view).data = view.data := by
  induction n generalizing attempt view with
  | zero => rfl
  | succ n ih =>
    unfold probedView
    split
    · rfl
    · rename_i text htext
      exact (ih (attempt + 1)).trans (probe_data hverb htext)

/-! ### The loop over the attempts -/

/-- One probe: the text with its stand-ins is tried, and the next one if it fails. -/
theorem probeStatement_succ {n attempt : Nat} {code : ErrorCode} {c : Client (EngineView R)} :
    probeStatement o.backend statement (n + 1) attempt code c =
      match probeText statement attempt with
      | .error _ => (.error .SYNTAX_EXPECTED_VALUE, c)
      | .ok text =>
        match o.backend.processStatement text c with
        | (.ok results, c) => (.ok results, c)
        | (.error code, c) => probeStatement o.backend statement n (attempt + 1) code c := by
  rw [probeStatement]
  unfold probeText Written.text
  rcases (probeSql statement attempt).error with _ | code'
  · show (if (none : Option ErrorCode).isSome = true then _ else _) = _
    rw [if_neg (by decide)]
    dsimp only
    cases o.backend.processStatement ((probeSql statement attempt).out.takeWhile (· ≠ 0)) c with
    | mk answer d =>
      cases answer with
      | error code => rfl
      | ok results => rfl
  · rfl

/-- The first attempt that the engine takes, of those that are left. -/
theorem probeStatement_ok {n attempt : Nat} {code : ErrorCode} {c : Client (EngineView R)}
    {results : Results} :
    (probeStatement o.backend statement n attempt code c).1 = .ok results ↔
      ∃ k < n, (∀ m < k, ∃ text code, probeText statement (attempt + m) = .ok text ∧
          (processText o text (probedView o statement attempt m c.engine)).answer = .error code) ∧
        ∃ text, probeText statement (attempt + k) = .ok text ∧
          (processText o text (probedView o statement attempt k c.engine)).answer =
            .ok results := by
  induction n generalizing attempt code c with
  | zero =>
    constructor
    · intro h
      exact absurd h (by simp [probeStatement])
    · rintro ⟨k, hk, -⟩
      omega
  | succ n ih =>
    rw [probeStatement_succ]
    cases htext : probeText statement attempt with
    | error code' =>
      constructor
      · intro h
        exact absurd h (by simp)
      · rintro ⟨k, -, hbefore, text, hk, -⟩
        -- the loop does not get behind a text that could not be written
        cases k with
        | zero => exact absurd (htext.symm.trans hk) (by simp)
        | succ k =>
          obtain ⟨text', code'', hfirst, -⟩ := hbefore 0 (by omega)
          exact absurd (htext.symm.trans hfirst) (by simp)
    | ok text =>
      dsimp only
      cases hrun : o.backend.processStatement text c with
      | mk answer c₁ =>
        obtain ⟨hanswer, hc₁⟩ := Prod.mk.inj hrun
        have hanswer : (processText o text c.engine).answer = answer := hanswer
        have hengine : c₁.engine = (processText o text c.engine).engine := by
          rw [← hc₁]
          rfl
        have hview : ∀ m, probedView o statement attempt (m + 1) c.engine =
            probedView o statement (attempt + 1) m c₁.engine := by
          intro m
          rw [hengine, probedView, htext]
        cases answer with
        | ok results' =>
          constructor
          · intro h
            obtain rfl := Except.ok.inj h
            exact ⟨0, by omega, fun m hm => absurd hm (by omega), text, htext, hanswer⟩
          · rintro ⟨k, -, hbefore, text', hk, hresults⟩
            cases k with
            | zero =>
              obtain rfl := Except.ok.inj (htext.symm.trans hk)
              exact hanswer.symm.trans hresults
            | succ k =>
              obtain ⟨text'', code', hfirst, hrefused⟩ := hbefore 0 (by omega)
              obtain rfl := Except.ok.inj (htext.symm.trans hfirst)
              exact absurd (hanswer.symm.trans hrefused) (by simp)
        | error code' =>
          refine ih.trans ⟨?_, ?_⟩
          · rintro ⟨k, hk, hbefore, hfound⟩
            refine ⟨k + 1, by omega, fun m hm => ?_, ?_⟩
            · cases m with
              | zero => exact ⟨text, code', htext, hanswer⟩
              | succ m =>
                rw [hview, show attempt + (m + 1) = attempt + 1 + m by omega]
                exact hbefore m (by omega)
            · rw [hview, show attempt + (k + 1) = attempt + 1 + k by omega]
              exact hfound
          · rintro ⟨k, hk, hbefore, text', htext', hresults⟩
            cases k with
            | zero =>
              obtain rfl := Except.ok.inj (htext.symm.trans htext')
              exact absurd (hanswer.symm.trans hresults) (by simp)
            | succ k =>
              refine ⟨k, by omega, fun m hm => ?_, text', ?_, ?_⟩
              · have hrefused := hbefore (m + 1) (by omega)
                rw [hview, show attempt + (m + 1) = attempt + 1 + m by omega] at hrefused
                exact hrefused
              · rw [show attempt + 1 + k = attempt + (k + 1) by omega]
                exact htext'
              · rw [← hview]
                exact hresults

/-- Probing leaves the data. -/
theorem probeStatement_data (hverb : (takeVerb statement.sql).1 = ascii "SELECT") {n attempt : Nat}
    {code : ErrorCode} {c : Client (EngineView R)} :
    (probeStatement o.backend statement n attempt code c).2.engine.data = c.engine.data := by
  induction n generalizing attempt code c with
  | zero => rfl
  | succ n ih =>
    rw [probeStatement_succ]
    cases htext : probeText statement attempt with
    | error code' => rfl
    | ok text =>
      have hdata : (o.backend.processStatement text c).2.engine.data = c.engine.data :=
        probe_data hverb htext
      dsimp only
      cases hrun : o.backend.processStatement text c with
      | mk answer c₁ =>
        rw [hrun] at hdata
        cases answer with
        | ok results => exact hdata
        | error code' => exact ih.trans hdata

end

/-! ### Texts without parameters -/

/-- Only what the second write does counts. -/
theorem andThen_congr {w : Written} {f g : List UInt8 → Written} (h : ∀ out, f out = g out) :
    w.andThen f = w.andThen g := by
  unfold Written.andThen
  split
  · rfl
  · exact h _

/-- Where there is no hole the values are not looked at. -/
theorem substituteFrom_whole {types types' : List Int} {values values' : List (Option (List UInt8))}
    {spelled spelled' : Bool} {size fuel : Nat} {q : Bool} {out text : List UInt8}
    (h : hasHole q text = false) :
    substituteFrom types values spelled size fuel q out text =
      substituteFrom types' values' spelled' size fuel q out text := by
  induction fuel generalizing q out text with
  | zero => rfl
  | succ fuel ih =>
    cases text with
    | nil => rfl
    | cons c rest =>
      have hsplit := h
      unfold hasHole at hsplit
      rw [Bool.or_eq_false_iff] at hsplit
      have hno : ¬(q = false ∧ c = 36 ∧ headIs (fun d => isdigit d && d != 48) rest = true) := by
        rintro ⟨rfl, rfl, hdigit⟩
        rw [hdigit] at hsplit
        exact absurd hsplit.1 (by decide)
      rw [substituteFrom, substituteFrom, if_neg hno, if_neg hno]
      exact andThen_congr fun out => ih hsplit.2

/-- Without a hole, the probe is the statement as bound. -/
theorem probeText_whole {statement : Prepared} (h : hasHole false statement.sql = false)
    (values : List (Option (List UInt8))) (n : Nat) :
    probeText statement n = boundText statement values := by
  unfold probeText boundText probeSql substituteParameters
  rw [substituteFrom_whole h]

/-! ### Where Describe and Execute agree -/

/-- How the columns of a result are announced. -/
def resultReply (results : Results) : Reply :=
  if results.headers = [] then .noData else .rowDescription results.headers results.types

/-- A result with those columns is announced by them. -/
theorem ResultSet.Has.reply {results : Results} {columns : List (Name × ColType)}
    (h : results.toResultSet.Has columns) : resultReply results = columnsReply columns := by
  unfold resultReply columnsReply
  rw [h.1, h.2]
  simp only [List.map_eq_nil_iff]

/-- Announcements tell columns apart. -/
theorem columnsReply_inj {columns columns' : List (Name × ColType)} :
    columnsReply columns = columnsReply columns' ↔ columns = columns' := by
  constructor
  · intro h
    unfold columnsReply at h
    by_cases hnil : columns = []
    · rw [if_pos hnil] at h
      split at h
      · rename_i hnil'
        rw [hnil, hnil']
      · exact absurd h (by simp)
    · rw [if_neg hnil] at h
      split at h
      · exact absurd h (by simp)
      · obtain ⟨hnames, htypes⟩ := Reply.rowDescription.inj h
        rw [← List.zip_unzip columns, ← List.zip_unzip columns', List.unzip_eq_map,
          List.unzip_eq_map, hnames, htypes]
  · rintro rfl
    rfl

/-- The columns of a statement with the values of a Bind. -/
def boundColumns (statement : Prepared) (values : List (Option (List UInt8)))
    (tables : List CatalogNode) : List (Name × ColType) :=
  match boundText statement values with
  | .error _ => []
  | .ok text => columnsOf tables text

/-- Where a blank stands behind the word SELECT, a stand-in has to have the columns, and without
parameters it does; elsewhere there may be no columns. -/
def Describable {R : Type} (o : Around R) (statement : Prepared)
    (values : List (Option (List UInt8))) (data : Data) : Prop :=
  let columns := boundColumns statement values (data.tables.map StoredTable.node)
  if (takeVerb statement.sql).1 = ascii "SELECT" then
    hasHole false statement.sql = false ∨ StandInHas o data statement columns
  else columns = []

/-- The same of the attempts as they follow one another. -/
def Probed {R : Type} (o : Around R) (statement : Prepared)
    (values : List (Option (List UInt8))) (view : EngineView R) : Prop :=
  if (takeVerb statement.sql).1 = ascii "SELECT" then
    hasHole false statement.sql = false ∨
      ProbesFind o statement view (boundColumns statement values view.catalog)
  else boundColumns statement values view.catalog = []

section
variable {R : Type} {o : Around R} {c c' : Client (EngineView R)}

/-- The zero byte behind a text hides what its buffer held. -/
theorem takeWhile_overlay (out buffer : List UInt8) :
    (overlay (out ++ [0]) buffer).takeWhile (· ≠ 0) = out.takeWhile (· ≠ 0) := by
  have hcut : ∀ more : List UInt8,
      (out ++ 0 :: more).takeWhile (· ≠ 0) = out.takeWhile (· ≠ 0) := by
    intro more
    induction out with
    | nil => rfl
    | cons d rest ih =>
      rw [List.cons_append, List.takeWhile_cons, List.takeWhile_cons, ih]
  unfold overlay
  rw [List.append_assoc]
  exact hcut _

/-- What Bind has written is what Execute hands to the engine. -/
theorem bound_runs {binding portal : List UInt8} {statement : Prepared}
    {values : List (Option (List UInt8))} {session' : WireSession}
    (hfields : bindFields binding c.session = .ok (portal, statement, values))
    (hbind : handleBind binding c.session = (.ok (), session'))
    (hrun : runPortalOn o.backend { c with session := session' } = (.ok (), c')) :
    ∃ text, boundText statement values = .ok text ∧
      (processText o text c.engine).answer = .ok c'.result := by
  unfold handleBind at hbind
  rw [hfields] at hbind
  dsimp only at hbind
  unfold boundText Written.text
  cases herror : (substituteParameters statement.sql statement.types values false LINE_LEN).error
    with
  | some code =>
    rw [herror] at hbind
    exact absurd (congrArg Prod.fst hbind) (by simp [failExtended])
  | none =>
    rw [herror] at hbind
    refine ⟨_, rfl, ?_⟩
    obtain ⟨-, rfl⟩ := Prod.mk.inj hbind
    -- the portal was just made, so that it runs
    have hportal : runPortal
        { c.session with
          portal :=
            { used := true, name := portal
              sql := overlay ((substituteParameters statement.sql statement.types values false
                LINE_LEN).out ++ [0]) c.session.portal.sql
              executed := false, sent := 0 } } =
        .ok (some ((substituteParameters statement.sql statement.types values false
          LINE_LEN).out.takeWhile (· ≠ 0))) :=
      congrArg (fun sql => Except.ok (some sql)) (takeWhile_overlay _ _)
    unfold runPortalOn at hrun
    rw [hportal] at hrun
    dsimp only at hrun
    unfold Backend.processStatement at hrun
    dsimp only at hrun
    cases hanswer : (o.backend.process ((substituteParameters statement.sql statement.types values
        false LINE_LEN).out.takeWhile (· ≠ 0)) c.engine).answer with
    | error code =>
      rw [hanswer] at hrun
      exact absurd (congrArg Prod.fst hrun) (by simp)
    | ok results =>
      rw [hanswer] at hrun
      rw [← (Prod.mk.inj hrun).2]
      exact hanswer

/-! ### Describe of a statement -/

/-- What was sent last is the last event. -/
theorem last_send {reply : Reply} {d : Client (EngineView R)} :
    (d.send reply).events.getLast? = some (.reply reply) :=
  List.getLast?_concat

/-- A failure's last event is its error. -/
theorem last_fail {code : ErrorCode} {d : Client (EngineView R)} :
    (d.fail code).events.getLast? = some (.reply (.errorResponse code)) :=
  List.getLast?_concat

/-- The shape of a result is sent last. -/
theorem sendShape_last {results : Results} {d : Client (EngineView R)} :
    (sendShape results d).events.getLast? = some (.reply (resultReply results)) := by
  unfold sendShape resultReply
  split
  · exact last_send
  · exact last_send

/-- Sending a shape leaves the engine. -/
theorem sendShape_engine {results : Results} {d : Client (EngineView R)} :
    (sendShape results d).engine = d.engine := by
  unfold sendShape
  split
  · rfl
  · rfl

/-- Describing a statement leaves the data. -/
theorem describeStatement_data (statement : Prepared) :
    (describeStatement o.backend statement c).engine.data = c.engine.data := by
  unfold describeStatement
  dsimp only
  by_cases hverb : (takeVerb statement.sql).1 = ascii "SELECT"
  · rw [if_neg (not_not.mpr hverb)]
    have hdata := @probeStatement_data R o statement hverb PROBE_ATTEMPTS 0
      .SYNTAX_EXPECTED_VALUE (c.send (.parameterDescription statement.params))
    revert hdata
    cases probeStatement o.backend statement PROBE_ATTEMPTS 0 .SYNTAX_EXPECTED_VALUE
        (c.send (.parameterDescription statement.params)) with
    | mk answer d =>
      intro hdata
      cases answer with
      | error code => exact hdata
      | ok results => exact (congrArg EngineView.data sendShape_engine).trans hdata
  · rw [if_pos hverb]
    rfl

/-- Describing a statement looks it up and probes it. -/
theorem handleDescribe_statement {describing name : List UInt8}
    (htarget : targetFields describing = some (83, name)) :
    handleDescribe o.backend describing c =
      match findPrepared name c.session.prepared with
      | none => c.fail .SEMANTIC_TABLE_NOT_FOUND
      | some i => describeStatement o.backend (c.session.prepared.getD i freePrepared) c := by
  unfold handleDescribe
  rw [htarget]
  rfl

/-- What a SELECT is described by: the columns that the stand-ins find. -/
theorem describeStatement_select {statement : Prepared}
    (hverb : (takeVerb statement.sql).1 = ascii "SELECT") (columns : List (Name × ColType)) :
    (describeStatement o.backend statement c).events.getLast? =
        some (.reply (columnsReply columns)) ↔
      ProbesFind o statement c.engine columns := by
  unfold describeStatement
  dsimp only
  rw [if_neg (not_not.mpr hverb)]
  have hok := fun results => @probeStatement_ok R o statement PROBE_ATTEMPTS 0
    .SYNTAX_EXPECTED_VALUE (c.send (.parameterDescription statement.params)) results
  -- the tables are as they were when an attempt is tried, and so are the columns
  have hcatalog : ∀ n, (probedView o statement 0 n c.engine).catalog = c.engine.catalog := fun n =>
    congrArg (fun data : Data => data.tables.map StoredTable.node) (probedView_data hverb 0 n)
  change ∀ results, _ ↔ ∃ k < PROBE_ATTEMPTS, (∀ m < k, ∃ text code,
      probeText statement (0 + m) = .ok text ∧
        (processText o text (probedView o statement 0 m c.engine)).answer = .error code) ∧
      ∃ text, probeText statement (0 + k) = .ok text ∧
        (processText o text (probedView o statement 0 k c.engine)).answer = .ok results at hok
  revert hok
  cases probeStatement o.backend statement PROBE_ATTEMPTS 0 .SYNTAX_EXPECTED_VALUE
      (c.send (.parameterDescription statement.params)) with
  | mk answer d =>
    intro hok
    simp only [Nat.zero_add] at hok
    cases answer with
    | error code =>
      constructor
      · intro h
        have hreply := WireEvent.reply.inj (Option.some.inj (last_fail.symm.trans h))
        unfold columnsReply at hreply
        split at hreply
        · exact absurd hreply (by simp)
        · exact absurd hreply (by simp)
      · rintro ⟨n, hn, hbefore, ⟨results, htaken⟩, -⟩
        exact absurd ((hok results).mpr ⟨n, hn, hbefore, htaken⟩) (by simp)
    | ok results =>
      obtain ⟨n, hn, hbefore, text, htext, hanswer⟩ := (hok results).mp rfl
      have hcolumns := processText_columns hanswer
      rw [hcatalog] at hcolumns
      show (sendShape results d).events.getLast? = _ ↔ _
      rw [sendShape_last, ResultSet.Has.reply hcolumns, Option.some.injEq, WireEvent.reply.injEq,
        columnsReply_inj]
      constructor
      · intro h
        exact ⟨n, hn, hbefore, ⟨results, text, htext, hanswer⟩, text, htext, h⟩
      · rintro ⟨n', -, hbefore', ⟨results', text', htext', hanswer'⟩, text'', htext'', h⟩
        -- there is only one attempt that is the first to be taken
        have hsame : n' = n := by
          rcases Nat.lt_trichotomy n' n with hlt | heq | hgt
          · obtain ⟨_, code, hrefused, herror⟩ := hbefore n' hlt
            obtain rfl := Except.ok.inj (htext'.symm.trans hrefused)
            exact absurd (hanswer'.symm.trans herror) (by simp)
          · exact heq
          · obtain ⟨_, code, hrefused, herror⟩ := hbefore' n hgt
            obtain rfl := Except.ok.inj (htext.symm.trans hrefused)
            exact absurd (hanswer.symm.trans herror) (by simp)
        subst hsame
        obtain rfl := Except.ok.inj (htext.symm.trans htext'')
        exact h

section
variable {statement : Prepared} {view : EngineView R}

/-- An attempt meets the tables as they were. -/
theorem probed_at (hverb : (takeVerb statement.sql).1 = ascii "SELECT") (n : Nat) :
    ∃ rest, probedView o statement 0 n view = { data := view.data, rest := rest } := by
  have hdata := @probedView_data R o statement view hverb 0 n
  rw [← hdata]
  exact ⟨_, rfl⟩

/-- A stand-in that has the columns is found. -/
theorem StandInHas.probes {columns : List (Name × ColType)}
    (hverb : (takeVerb statement.sql).1 = ascii "SELECT")
    (h : StandInHas o view.data statement columns) : ProbesFind o statement view columns := by
  obtain ⟨n, hn, hbefore, text, htext, hanswers, hcolumns⟩ := h
  refine ⟨n, hn, fun m hm => ?_, ?_, text, htext, hcolumns⟩
  · obtain ⟨text', htext', hrefuses⟩ := hbefore m hm
    obtain ⟨rest, hview⟩ := @probed_at R o statement view hverb m
    obtain ⟨code, hcode⟩ := hrefuses rest
    exact ⟨text', code, htext', by rw [hview]; exact hcode⟩
  · obtain ⟨rest, hview⟩ := @probed_at R o statement view hverb n
    obtain ⟨results, hresults⟩ := hanswers rest
    exact ⟨results, text, htext, by rw [hview]; exact hresults⟩

/-- What the attempts find stands in for the parameters, unless it hangs on what the thread has
kept. -/
theorem ProbesFind.standIn {columns : List (Name × ColType)}
    (hverb : (takeVerb statement.sql).1 = ascii "SELECT")
    (hdecided : StandInsDecided o view.data statement) (h : ProbesFind o statement view columns) :
    StandInHas o view.data statement columns := by
  obtain ⟨n, hn, hbefore, ⟨results, text', htext', htaken⟩, text, htext, hcolumns⟩ := h
  refine ⟨n, hn, fun m hm => ?_, text, htext, ?_, hcolumns⟩
  · obtain ⟨early, code, hearly, hcode⟩ := hbefore m hm
    refine ⟨early, hearly, (hdecided m (Nat.lt_trans hm hn) early hearly).resolve_left ?_⟩
    intro hanswers
    obtain ⟨rest, hview⟩ := @probed_at R o statement view hverb m
    obtain ⟨results', hresults⟩ := hanswers rest
    rw [hview] at hcode
    exact absurd (hresults.symm.trans hcode) (by simp)
  · obtain rfl := Except.ok.inj (htext.symm.trans htext')
    refine (hdecided n hn text htext).resolve_right fun hrefuses => ?_
    obtain ⟨rest, hview⟩ := @probed_at R o statement view hverb n
    obtain ⟨code, hcode⟩ := hrefuses rest
    rw [hview] at htaken
    exact absurd (htaken.symm.trans hcode) (by simp)

/-- What is said of the inputs gives what the probes find. -/
theorem Describable.probed {values : List (Option (List UInt8))}
    (h : Describable o statement values view.data) : Probed o statement values view := by
  unfold Describable at h
  unfold Probed
  dsimp only at h
  split at h
  · rename_i hverb
    rw [if_pos hverb]
    exact h.imp_right fun hstands => hstands.probes hverb
  · rename_i hverb
    rw [if_neg hverb]
    exact h

/-- Where the stand-ins decide, what the probes find gives it back. -/
theorem Probed.describable {values : List (Option (List UInt8))}
    (hdecided : StandInsDecided o view.data statement) (h : Probed o statement values view) :
    Describable o statement values view.data := by
  unfold Probed at h
  unfold Describable
  dsimp only
  split at h
  · rename_i hverb
    rw [if_pos hverb]
    exact h.imp_right fun hfind => hfind.standIn hverb hdecided
  · rename_i hverb
    rw [if_neg hverb]
    exact h

end

/-- Describe leaves the tables, and agrees with Execute where its attempts find the columns. -/
theorem describe_iff_probed (o : Around R) (c : Client (EngineView R)) {describing name : List UInt8}
    (htarget : targetFields describing = some (83, name)) :
    (handleDescribe o.backend describing c).engine.data = c.engine.data ∧
      ∀ (i : Nat) (binding portal : List UInt8) (values : List (Option (List UInt8)))
        (session' : WireSession) (c' : Client (EngineView R)),
        findPrepared name c.session.prepared = some i →
        bindFields binding c.session =
          .ok (portal, c.session.prepared.getD i freePrepared, values) →
        handleBind binding c.session = (.ok (), session') →
        runPortalOn o.backend { c with session := session' } = (.ok (), c') →
        ((handleDescribe o.backend describing c).events.getLast? =
            some (.reply (resultReply c'.result)) ↔
          Probed o (c.session.prepared.getD i freePrepared) values c.engine) := by
  rw [handleDescribe_statement htarget]
  constructor
  · cases findPrepared name c.session.prepared with
    | none => rfl
    | some i => exact describeStatement_data _
  · intro i binding portal values session' c' hfind hfields hbind hrun
    rw [hfind]
    dsimp only
    obtain ⟨text, htext, hanswer⟩ := bound_runs hfields hbind hrun
    generalize c.session.prepared.getD i freePrepared = statement at *
    have hcolumns : boundColumns statement values c.engine.catalog =
        columnsOf c.engine.catalog text := by
      unfold boundColumns
      rw [htext]
    have hreply : resultReply c'.result =
        columnsReply (boundColumns statement values c.engine.catalog) := by
      rw [hcolumns]
      exact ResultSet.Has.reply (processText_columns hanswer)
    rw [hreply]
    unfold Probed
    by_cases hverb : (takeVerb statement.sql).1 = ascii "SELECT"
    · rw [if_pos hverb]
      refine (describeStatement_select hverb _).trans ⟨Or.inr, ?_⟩
      rintro (hwhole | hfound)
      · -- the first stand-in is the text itself
        have hfirst : probeText statement 0 = .ok text :=
          (probeText_whole hwhole values 0).trans htext
        exact ⟨0, by decide, fun m hm => absurd hm (Nat.not_lt_zero m),
          ⟨c'.result, text, hfirst, hanswer⟩, text, hfirst, hcolumns.symm⟩
      · exact hfound
    · rw [if_neg hverb]
      show (describeStatement o.backend statement c).events.getLast? = _ ↔ _
      unfold describeStatement
      dsimp only
      rw [if_pos hverb, last_send, Option.some.injEq, WireEvent.reply.injEq]
      exact (@columnsReply_inj [] _).trans ⟨Eq.symm, Eq.symm⟩

/-- Describe leaves the tables. It agrees with Execute where the text is no SELECT and has no
columns, has no parameters behind the word SELECT, or a stand-in has the columns; and nowhere else,
unless it hangs on what the thread has kept whether a stand-in is answered. -/
theorem describe_iff (o : Around R) (c : Client (EngineView R)) {describing name : List UInt8}
    (htarget : targetFields describing = some (83, name)) :
    (handleDescribe o.backend describing c).engine.data = c.engine.data ∧
      ∀ (i : Nat) (binding portal : List UInt8) (values : List (Option (List UInt8)))
        (session' : WireSession) (c' : Client (EngineView R)),
        findPrepared name c.session.prepared = some i →
        bindFields binding c.session =
          .ok (portal, c.session.prepared.getD i freePrepared, values) →
        handleBind binding c.session = (.ok (), session') →
        runPortalOn o.backend { c with session := session' } = (.ok (), c') →
        (Describable o (c.session.prepared.getD i freePrepared) values c.engine.data →
          (handleDescribe o.backend describing c).events.getLast? =
            some (.reply (resultReply c'.result))) ∧
        (StandInsDecided o c.engine.data (c.session.prepared.getD i freePrepared) →
          (handleDescribe o.backend describing c).events.getLast? =
            some (.reply (resultReply c'.result)) →
          Describable o (c.session.prepared.getD i freePrepared) values c.engine.data) := by
  obtain ⟨hdata, hprobed⟩ := describe_iff_probed o c htarget
  refine ⟨hdata, fun i binding portal values session' c' hfind hfields hbind hrun => ?_⟩
  have hiff := hprobed i binding portal values session' c' hfind hfields hbind hrun
  exact ⟨fun hcan => hiff.mpr hcan.probed, fun hdecided hagrees =>
    (hiff.mp hagrees).describable hdecided⟩

end

/-! ### A connection with one table -/

/-- Nothing but SELECTs do anything. -/
def selectsOnly : Around Unit where
  statics := fun _ _ => freshStatics
  keep := fun _ view => view.rest
  groupings := fun _ _ => 0
  perform := fun _ _ view => (.ok 0, view)
  inTransaction := fun _ => false

/-- A client of the table `t(a)` that has had a text prepared, without a name. -/
def preparedClient (sql : String) : Client (EngineView Unit) :=
  let c := newClient
    { data :=
        { tables := [numbered "t" "a" [1, 2]], indexes := [], candidates := fun _ _ _ => .ok [] }
      rest := () }
  { c with session := (handleParse ([0] ++ ascii sql ++ [0, 0, 0]) c.session).2 }

/-- The body of a Describe of this statement. -/
def describeUnnamed : List UInt8 := [83, 0]

/-- The body of a Bind of this statement, with one value of one byte and with none. -/
def bindOne (c : UInt8) : List UInt8 := [0, 0, 0, 0, 0, 1, 0, 0, 0, 1, c]

/-- A Bind without values. -/
def bindNothing : List UInt8 := [0, 0, 0, 0, 0, 0]

/-- What Execute leaves behind a Bind. -/
def executed (binding : List UInt8) (c : Client (EngineView Unit)) :
    Except ErrorCode Unit × Client (EngineView Unit) :=
  runPortalOn selectsOnly.backend { c with session := (handleBind binding c.session).2 }

deriving instance DecidableEq for Prepared

/-- A pair is its first part with its second. -/
theorem eq_of_fst {α β : Type} {p : α × β} {a : α} (h : p.1 = a) : p = (a, p.2) := by
  rw [← h]

/-- A statement with a parameter that no integer can stand in for. -/
def textParameter : Client (EngineView Unit) := preparedClient "select a from t where $1 = 'x'"

/-- The first stand-in is refused and the second one answered. -/
theorem standIn_second {statement : Prepared} {data : Data} {columns : List (Name × ColType)}
    {first second : List UInt8} (hfirst : probeText statement 0 = .ok first)
    (hrefused : (processText selectsOnly first { data := data, rest := () }).answer.toOption.isNone =
      true)
    (hsecond : probeText statement 1 = .ok second)
    (hanswered :
      (processText selectsOnly second { data := data, rest := () }).answer.toOption.isSome = true)
    (hcolumns : columnsOf (data.tables.map StoredTable.node) second = columns) :
    StandInHas selectsOnly data statement columns := by
  refine ⟨1, by decide, fun m hm => ?_, second, hsecond, fun rest => ?_, hcolumns⟩
  · obtain rfl : m = 0 := by omega
    refine ⟨first, hfirst, fun rest => ?_⟩
    cases hanswer : (processText selectsOnly first { data := data, rest := rest }).answer with
    | error code => exact ⟨code, rfl⟩
    | ok results =>
      rw [hanswer] at hrefused
      exact absurd hrefused (by simp [Except.toOption])
  · cases hanswer : (processText selectsOnly second { data := data, rest := rest }).answer with
    | error code =>
      rw [hanswer] at hanswered
      exact absurd hanswered (by simp [Except.toOption])
    | ok results => exact ⟨results, rfl⟩

/-- The text with its stand-ins at an attempt. -/
def standIn (attempt : Nat) : List UInt8 :=
  (probeText (textParameter.session.prepared.getD 0 freePrepared) attempt).toOption.getD []

/-- `0` is no text, and `''` is one. -/
theorem textParameter_stands :
    StandInHas selectsOnly textParameter.engine.data
      (textParameter.session.prepared.getD 0 freePrepared)
      (boundColumns (textParameter.session.prepared.getD 0 freePrepared) [some [120]]
        (textParameter.engine.data.tables.map StoredTable.node)) :=
  @standIn_second _ _ _ (standIn 0) (standIn 1) (by decide +kernel) (by decide +kernel)
    (by decide +kernel) (by decide +kernel) (by decide +kernel)

/-- The statement with a text parameter can be described. -/
theorem textParameter_describable :
    Describable selectsOnly (textParameter.session.prepared.getD 0 freePrepared) [some [120]]
      textParameter.engine.data := by
  have hverb : (takeVerb (textParameter.session.prepared.getD 0 freePrepared).sql).1 =
      ascii "SELECT" := by
    decide +kernel
  unfold Describable
  dsimp only
  rw [if_pos hverb]
  exact .inr textParameter_stands

/-- The second stand-in has the columns, and Describe announces them. -/
theorem describe_iff_text :
    Describable selectsOnly (textParameter.session.prepared.getD 0 freePrepared) [some [120]]
        textParameter.engine.data ∧
      (executed (bindOne 120) textParameter).2.result.headers = [Name.ofBytes (ascii "a")] ∧
      (handleDescribe selectsOnly.backend describeUnnamed textParameter).events.getLast? =
        some (.reply (resultReply (executed (bindOne 120) textParameter).2.result)) := by
  have htarget : targetFields describeUnnamed = some (83, []) := by decide +kernel
  have hfind : findPrepared [] textParameter.session.prepared = some 0 := by decide +kernel
  have hfields : bindFields (bindOne 120) textParameter.session =
      .ok ([], textParameter.session.prepared.getD 0 freePrepared, [some [120]]) := by
    decide +kernel
  have hbind : (handleBind (bindOne 120) textParameter.session).1 = .ok () := by decide +kernel
  have hrun : (executed (bindOne 120) textParameter).1 = .ok () := by decide +kernel
  have hagrees := (describe_iff selectsOnly textParameter htarget).2 0 (bindOne 120) []
    [some [120]] _ (executed (bindOne 120) textParameter).2 hfind hfields (eq_of_fst hbind)
    (eq_of_fst hrun)
  exact ⟨textParameter_describable, by decide +kernel, hagrees.1 textParameter_describable⟩

/-- The word that Describe looks at is `SELECT*FROM`. -/
theorem describe_unspaced :
    (handleBind bindNothing (preparedClient "select*from t").session).1 = .ok () ∧
      (executed bindNothing (preparedClient "select*from t")).1 = .ok () ∧
      (executed bindNothing (preparedClient "select*from t")).2.result.headers =
        [Name.ofBytes (ascii "a")] ∧
      (handleDescribe selectsOnly.backend describeUnnamed
        (preparedClient "select*from t")).events.getLast? = some (.reply .noData) := by
  decide +kernel

end DatabaseEngine
