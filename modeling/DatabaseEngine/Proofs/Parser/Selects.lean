import DatabaseEngine.Proofs.Parser.Conditions
import Mathlib.Data.List.Forall2

/-!
# `DatabaseEngine.Proofs.Parser.Selects`: what the parser leaves of a SELECT

* `Formed`: a LEFT JOIN has an ON tree of its own and nothing else has one, and every comparison of
  WHERE and ON is in one of their trees.
* `parseSelectFrom_formed`: a SELECT is formed, and its subqueries take the next slots, each named
  once in the conditions of the SELECT or of a subquery before it.
* `FromRule.parseFrom`: what holds of a FROM list, however many tables have been read.
-/

set_option autoImplicit false

namespace DatabaseEngine

open Library

/-- The trees that WHERE and the outer joins have in one pool of nodes. -/
def ParsedSelect.roots (select : ParsedSelect) : List Int32 :=
  (if select.wher.present then [select.wher.root] else []) ++
    select.onRoots.filter fun root => decide (0 ≤ root)

/-- A SELECT as the parser leaves it. -/
structure ParsedSelect.Formed (select : ParsedSelect) : Prop where
  joins : List.Forall₂ (fun (entry : FromTable) (root : Int32) => entry.outer = true ↔ 0 ≤ root)
    select.tables select.onRoots
  rising : Rising select.wher.nodes
  single : ∀ node ∈ select.wher.nodes, node.compare.Single
  covered : ∀ i, IsLeaf select.wher.nodes i →
    ∃ root ∈ select.roots, i ∈ leaves select.wher.nodes root

/-! ### FROM -/

/-- A FROM list while it is being read, from a pool on. -/
structure FromRead.Sound (P : ParsedSelect → Prop) (pool : List PooledSelect) (list : FromRead) :
    Prop where
  joins : List.Forall₂ (fun (entry : FromTable) (root : Int32) => entry.outer = true ↔ 0 ≤ root)
    list.tables list.onRoots
  cond : list.cond.Sound
  inside : ∀ root ∈ list.whereRoot :: list.onRoots, 0 ≤ root → Below root list.cond.nodes.length
  covered : ∀ i, IsLeaf list.cond.nodes i →
    ∃ root ∈ list.whereRoot :: list.onRoots, 0 ≤ root ∧ i ∈ leaves list.cond.nodes root
  pool : ∃ added, Grows P pool list.cond.pool (list.cond.nodes.flatMap ConditionNode.refs) added

section
variable {P : ParsedSelect → Prop} {subquery : SubqueryRead} {tokens rest : List Token}
  {pool : List PooledSelect}

/-- A condition ANDed onto a tree that is there, or a tree of its own. -/
theorem addCondition_tree {start cond : ConditionRead} {root root' : Int32}
    (hsub : ReadsSubqueries P subquery) (hsound : start.Sound)
    (hroot : 0 ≤ root → Below root start.nodes.length)
    (h : addCondition subquery tokens root start = .ok (root', rest, cond)) :
    TreeRead P start root' cond ∧
      (0 ≤ root → ∀ i ∈ leaves start.nodes root, i ∈ leaves cond.nodes root') := by
  unfold addCondition at h
  split at h
  · exact absurd h (by simp)
  · rename_i node behind mid hread
    have htree := parseOrExpression_tree hsub hsound hread
    split at h
    · rename_i hneg
      obtain ⟨rfl, -, rfl⟩ := by simpa using Except.ok.inj h
      refine ⟨htree, fun hpos => ?_⟩
      rw [Int32.lt_iff_toInt_lt] at hneg
      rw [Int32.le_iff_toInt_le] at hpos
      omega
    · rename_i hneg
      have hpos : 0 ≤ root := by
        rw [Int32.lt_iff_toInt_lt] at hneg
        rw [Int32.le_iff_toInt_le]
        omega
      obtain ⟨hfew, rfl, rfl⟩ := newCondition_ok htree.sound (addBranch_ok h).1
      obtain ⟨hbelow, -⟩ := below_next hfew
      have hold := hroot hpos
      have hkind : (branchNode .COND_AND root node).kind ≠ .COND_COMPARE := by simp [branchNode]
      obtain ⟨hrising, hleaves⟩ := TreeRead.below htree.sound hfew
        ⟨fun _ => hold.mono htree.nodes.length_le, fun _ => htree.inside⟩ hkind
      have hboth : leaves (mid.nodes ++ [branchNode .COND_AND root node])
          (Int32.ofNat mid.nodes.length) = leaves mid.nodes root ++ leaves mid.nodes node := by
        rw [hleaves]
        rfl
      refine ⟨⟨⟨hrising, single_append htree.sound (single_branch _ _ _),
          by rw [List.length_append]; exact hfew, htree.sound.slots⟩,
        htree.nodes.trans (List.prefix_append _ _), by simpa using hbelow,
        fun i hi hleaf => ?_, ?_⟩, fun _ i hi => ?_⟩
      · obtain ⟨hin, -⟩ := isLeaf_append hkind hleaf
        simp only [hboth]
        exact List.mem_append_right _ (htree.covered i hi hin)
      · simp only [drop_append_refs htree.nodes.length_le
          (show (branchNode .COND_AND root node).refs = [] from rfl)]
        exact htree.pool
      · simp only [hboth]
        rw [leaves_front hsound.rising htree.nodes hold]
        exact List.mem_append_left _ hi

/-- What a tree that was read adds to a FROM list. -/
theorem FromRead.Sound.extend {list : FromRead} (h : list.Sound P pool) {cond : ConditionRead}
    {root : Int32} (htree : TreeRead P list.cond root cond) :
    (∃ added, Grows P pool cond.pool (cond.nodes.flatMap ConditionNode.refs) added) ∧
      (∀ other ∈ list.whereRoot :: list.onRoots, 0 ≤ other → Below other cond.nodes.length ∧
        leaves cond.nodes other = leaves list.cond.nodes other) ∧
      ∀ i, IsLeaf cond.nodes i → i ∈ leaves cond.nodes root ∨
        ∃ other ∈ list.whereRoot :: list.onRoots, 0 ≤ other ∧ i ∈ leaves list.cond.nodes other := by
  refine ⟨?_, fun other hother hpos => ?_, fun i hleaf => ?_⟩
  · obtain ⟨added, hgrows⟩ := h.pool
    obtain ⟨added', hgrows'⟩ := htree.pool
    refine ⟨added ++ added', ?_⟩
    obtain ⟨more, hmore⟩ := htree.nodes
    have hall := hgrows.trans hgrows'
    rw [← hmore, List.drop_left] at hall
    rw [← hmore, List.flatMap_append]
    exact hall
  · have hold := h.inside other hother hpos
    exact ⟨hold.mono htree.nodes.length_le, leaves_front h.cond.rising htree.nodes hold⟩
  · rcases Nat.lt_or_ge i list.cond.nodes.length with hlt | hge
    · obtain ⟨node, hnode, hkind⟩ := hleaf
      rw [getElem?_of_front htree.nodes hlt] at hnode
      exact .inr (h.covered i ⟨node, hnode, hkind⟩)
    · exact .inl (htree.covered i hge hleaf)

/-- Reading an ON keeps the FROM list in order. -/
theorem parseOn_sound {list list' : FromRead} {entry : FromTable}
    (hsub : ReadsSubqueries P subquery) (h : list.Sound P pool)
    (hread : parseOn subquery entry tokens list = .ok (list', rest)) : list'.Sound P pool := by
  unfold parseOn at hread
  split at hread
  · exact absurd hread (by simp)
  · split at hread
    · exact absurd hread (by simp)
    · rename_i root behind cond hadd
      dsimp only at hread
      have hneg : ¬(0 : Int32) ≤ -1 := by decide
      cases houter : entry.outer with
      | true =>
        rw [houter] at hread hadd
        obtain ⟨rfl, -⟩ := by simpa using hread
        obtain ⟨htree, -⟩ := addCondition_tree hsub h.cond (fun hpos => absurd hpos hneg) hadd
        obtain ⟨hpool, hkept, hcovered⟩ := h.extend htree
        refine ⟨?_, htree.sound, fun other hother hpos => ?_, fun i hleaf => ?_, hpool⟩
        · exact List.rel_append h.joins (.cons (by simp [houter, htree.inside.1]) .nil)
        · rw [← List.cons_append, List.mem_append, List.mem_singleton] at hother
          rcases hother with hother | rfl
          · exact (hkept other hother hpos).1
          · exact htree.inside
        · rcases hcovered i hleaf with hin | ⟨other, hother, hpos, hin⟩
          · exact ⟨root, by simp, htree.inside.1, hin⟩
          · refine ⟨other, ?_, hpos, by rw [(hkept other hother hpos).2]; exact hin⟩
            rw [← List.cons_append]
            exact List.mem_append_left _ hother
      | false =>
        rw [houter] at hread hadd
        obtain ⟨rfl, -⟩ := by simpa using hread
        obtain ⟨htree, honto⟩ := addCondition_tree hsub h.cond
          (fun hpos => h.inside list.whereRoot (by simp) hpos) hadd
        obtain ⟨hpool, hkept, hcovered⟩ := h.extend htree
        refine ⟨?_, htree.sound, fun other hother hpos => ?_, fun i hleaf => ?_, hpool⟩
        · exact List.rel_append h.joins (.cons (by simp [houter, hneg]) .nil)
        · simp only [List.mem_cons, List.mem_append, List.not_mem_nil, or_false] at hother
          rcases hother with rfl | hother | rfl
          · exact htree.inside
          · exact (hkept other (List.mem_cons_of_mem _ hother) hpos).1
          · exact absurd hpos hneg
        · rcases hcovered i hleaf with hin | ⟨other, hother, hpos, hin⟩
          · exact ⟨root, by simp, htree.inside.1, hin⟩
          · rcases List.mem_cons.mp hother with rfl | hother
            · exact ⟨root, by simp, htree.inside.1, honto hpos i hin⟩
            · refine ⟨other, by simp [hother], hpos, ?_⟩
              rw [(hkept other (List.mem_cons_of_mem _ hother) hpos).2]
              exact hin

/-- So does a table more without an ON. -/
theorem FromRead.Sound.entry {list : FromRead} (h : list.Sound P pool) {entry : FromTable}
    (hentry : entry.outer = false) :
    FromRead.Sound P pool
      { list with tables := list.tables ++ [entry], onRoots := list.onRoots ++ [-1] } := by
  have hneg : ¬(0 : Int32) ≤ -1 := by decide
  refine ⟨List.rel_append h.joins (.cons (by simp [hentry, hneg]) .nil), h.cond,
    fun root hroot hpos => ?_, fun i hleaf => ?_, h.pool⟩
  · simp only [List.mem_cons, List.mem_append, List.not_mem_nil, or_false] at hroot
    rcases hroot with rfl | hroot | rfl
    · exact h.inside _ (by simp) hpos
    · exact h.inside _ (by simp [hroot]) hpos
    · exact absurd hpos hneg
  · obtain ⟨root, hroot, hpos, hin⟩ := h.covered i hleaf
    refine ⟨root, ?_, hpos, hin⟩
    rcases List.mem_cons.mp hroot with rfl | hroot
    · simp
    · simp [hroot]

/-- A table is outer exactly if it was read behind a LEFT JOIN. -/
theorem parseFromTable_outer {outer : Bool} {entry : FromTable}
    (h : parseFromTable outer tokens = .ok (entry, rest)) : entry.outer = outer := by
  unfold parseFromTable at h
  split at h
  · exact absurd h (by simp)
  · rename_i table behind _
    dsimp only at h
    generalize (if typeAt behind 0 = .TOKEN_KEYWORD_AS then behind.drop 1 else behind) = inner at h
    split at h
    · obtain ⟨rfl, -⟩ := Prod.mk.inj (Except.ok.inj h)
      rfl
    · obtain ⟨rfl, -⟩ := Prod.mk.inj (Except.ok.inj h)
      rfl

/-- What holds of a FROM list, however many tables have been read. -/
structure FromRule (subquery : SubqueryRead) (R : FromRead → Prop) : Prop where
  entry : ∀ {list : FromRead} {entry : FromTable}, R list → entry.outer = false →
    R { list with tables := list.tables ++ [entry], onRoots := list.onRoots ++ [-1] }
  on : ∀ {list list' : FromRead} {entry : FromTable} {tokens rest : List Token}, R list →
    parseOn subquery entry tokens list = .ok (list', rest) → R list'

/-- The tables of a list, one behind the other. -/
theorem FromRule.parseFrom {R : FromRead → Prop} (rule : FromRule subquery R) {fuel : Nat}
    {joined : Option Bool} {list list' : FromRead} (h : R list)
    (hread : parseFrom subquery fuel joined tokens list = .ok (list', rest)) : R list' := by
  induction fuel generalizing joined tokens list with
  | zero => exact absurd hread (by simp [DatabaseEngine.parseFrom])
  | succ fuel ih =>
    unfold DatabaseEngine.parseFrom at hread
    split at hread
    · exact absurd hread (by simp)
    · split at hread
      · exact absurd hread (by simp)
      · split at hread
        · exact absurd hread (by simp)
        · rename_i entry behind hentry
          dsimp only at hread
          split at hread
          · exact absurd hread (by simp)
          · rename_i mid rest' hmid
            have hkept : R mid := by
              split at hmid
              · exact rule.on h hmid
              · rename_i hplain
                obtain ⟨rfl, -⟩ := Prod.mk.inj (Except.ok.inj hmid)
                refine rule.entry h ?_
                rw [parseFromTable_outer hentry]
                cases joined with
                | none => rfl
                | some outer => exact absurd rfl hplain
            split at hread
            · exact ih hkept hread
            · split at hread
              · obtain ⟨rfl, -⟩ := Prod.mk.inj (Except.ok.inj hread)
                exact hkept
              · exact ih hkept hread

/-- A list that is being read stays sound. -/
theorem FromRead.Sound.rule (hsub : ReadsSubqueries P subquery) :
    FromRule subquery (FromRead.Sound P pool) where
  entry h hentry := h.entry hentry
  on h hread := parseOn_sound hsub h hread

/-- Reading the WHERE keeps it in order. -/
theorem parseSelectWhere_sound {list list' : FromRead} (hsub : ReadsSubqueries P subquery)
    (h : list.Sound P pool) (hread : parseSelectWhere subquery tokens list = .ok (list', rest)) :
    list'.Sound P pool := by
  unfold parseSelectWhere at hread
  split at hread
  · obtain ⟨rfl, -⟩ := Prod.mk.inj (Except.ok.inj hread)
    exact h
  · obtain ⟨⟨root, behind, cond⟩, hadd, heq⟩ := map_ok hread
    obtain ⟨rfl, -⟩ := Prod.mk.inj heq
    obtain ⟨htree, honto⟩ := addCondition_tree hsub h.cond
      (fun hpos => h.inside list.whereRoot (by simp) hpos) hadd
    obtain ⟨hpool, hkept, hcovered⟩ := h.extend htree
    refine ⟨h.joins, htree.sound, fun other hother hpos => ?_, fun i hleaf => ?_, hpool⟩
    · rcases List.mem_cons.mp hother with rfl | hother
      · exact htree.inside
      · exact (hkept other (List.mem_cons_of_mem _ hother) hpos).1
    · rcases hcovered i hleaf with hin | ⟨other, hother, hpos, hin⟩
      · exact ⟨root, by simp, htree.inside.1, hin⟩
      · rcases List.mem_cons.mp hother with rfl | hother
        · exact ⟨root, by simp, htree.inside.1, honto hpos i hin⟩
        · refine ⟨other, by simp [hother], hpos, ?_⟩
          rw [(hkept other (List.mem_cons_of_mem _ hother) hpos).2]
          exact hin

/-! ### SELECT -/

/-- Before anything is read, the condition is in order. -/
theorem emptyRead_sound {pool : List PooledSelect} (hslots : pool.length ≤ MAX_SUBQUERIES) :
    (emptyRead pool).Sound :=
  ⟨fun i node h => absurd h (by simp [emptyRead]), fun node h => absurd h (by simp [emptyRead]),
    Nat.zero_le _, hslots⟩

/-- No tables yet. -/
abbrev emptyFrom (pool : List PooledSelect) : FromRead :=
  { tables := [], onRoots := [], whereRoot := -1, cond := emptyRead pool }

/-- Before anything is read, the FROM list is in order. -/
theorem emptyFrom_sound (hslots : pool.length ≤ MAX_SUBQUERIES) :
    FromRead.Sound P pool (emptyFrom pool) := by
  refine ⟨.nil, emptyRead_sound hslots, fun root hroot hpos => ?_, fun i hleaf => ?_,
    [], .refl P pool⟩
  · rw [List.mem_singleton.mp hroot] at hpos
    have hneg : ¬(0 : Int32) ≤ -1 := by decide
    exact absurd hpos hneg
  · obtain ⟨node, hnode, -⟩ := hleaf
    exact absurd hnode (by simp [emptyRead])

/-- A condition of its own. -/
theorem parseWhole_grows {allowAggregate : Bool} {cond : Condition} {pool' : List PooledSelect}
    (hsub : ReadsSubqueries P subquery) (hslots : pool.length ≤ MAX_SUBQUERIES)
    (h : parseWhole subquery allowAggregate tokens pool = .ok (cond, rest, pool')) :
    cond.present = true ∧ Rising cond.nodes ∧
      (∀ i, IsLeaf cond.nodes i → i ∈ leaves cond.nodes cond.root) ∧
      pool'.length ≤ MAX_SUBQUERIES ∧ ∃ added, Grows P pool pool' cond.refs added := by
  obtain ⟨⟨root, behind, read⟩, hread, heq⟩ := map_ok h
  obtain ⟨rfl, hrest⟩ := Prod.mk.inj heq
  obtain ⟨-, rfl⟩ := Prod.mk.inj hrest
  have htree := parseOrExpression_tree hsub (emptyRead_sound hslots) hread
  exact ⟨rfl, htree.sound.rising, fun i hi => htree.covered i (Nat.zero_le _) hi,
    htree.sound.slots, htree.pool⟩

/-- No condition takes no subquery. -/
theorem noCondition_grows (P : ParsedSelect → Prop) (pool : List PooledSelect) :
    ∃ added, Grows P pool pool noCondition.refs added :=
  ⟨[], .refl P pool⟩

/-- HAVING takes the subqueries it reads, each once. -/
theorem parseOptionalHaving_grows {cond : Condition} {pool' : List PooledSelect}
    (hsub : ReadsSubqueries P subquery) (hslots : pool.length ≤ MAX_SUBQUERIES)
    (h : parseOptionalHaving subquery tokens pool = .ok (cond, rest, pool')) :
    pool'.length ≤ MAX_SUBQUERIES ∧ ∃ added, Grows P pool pool' cond.refs added := by
  unfold parseOptionalHaving at h
  split at h
  · exact (parseWhole_grows hsub hslots h).2.2.2
  · obtain ⟨rfl, hrest⟩ := Prod.mk.inj (Except.ok.inj h)
    obtain ⟨-, rfl⟩ := Prod.mk.inj hrest
    exact ⟨hslots, noCondition_grows P pool⟩

/-- A SELECT is made of a FROM list, a WHERE and a HAVING. -/
theorem parseSelectWith_cases {select : ParsedSelect} {pool' : List PooledSelect}
    (h : parseSelectWith subquery tokens pool = .ok (select, pool')) :
    ∃ fuel behind behindFrom behindWhere behindGroup behindHaving list list',
      parseFrom subquery fuel none behind (emptyFrom pool) = .ok (list, behindFrom) ∧
      parseSelectWhere subquery behindFrom list = .ok (list', behindWhere) ∧
      parseOptionalHaving subquery behindGroup list'.cond.pool
        = .ok (select.having, behindHaving, pool') ∧
      select.tables = list'.tables ∧ select.onRoots = list'.onRoots ∧
      select.wher =
        { list'.cond.condition list'.whereRoot with present := decide (0 ≤ list'.whereRoot) } := by
  unfold parseSelectWith at h
  dsimp only at h
  generalize (if (typeAt (tokens.drop 1) 0 == .TOKEN_KEYWORD_DISTINCT) = true then
    (tokens.drop 1).drop 1 else tokens.drop 1) = inner at h
  obtain ⟨⟨selectAll, items, behind, exprs⟩, -, h⟩ := bind_ok h
  dsimp only at h
  split at h
  · exact absurd h (by simp)
  · obtain ⟨⟨list, behindFrom⟩, hfrom, h⟩ := bind_ok h
    obtain ⟨⟨list', behindWhere⟩, hwhere, h⟩ := bind_ok h
    obtain ⟨⟨groupBy, behindGroup⟩, -, h⟩ := bind_ok h
    obtain ⟨⟨having, behindHaving, after⟩, hhaving, h⟩ := bind_ok h
    obtain ⟨⟨order, behindOrder, exprs'⟩, -, h⟩ := bind_ok h
    obtain ⟨⟨limit, behindLimit⟩, -, h⟩ := bind_ok h
    obtain ⟨_, -, h⟩ := bind_ok h
    obtain ⟨rfl, rfl⟩ := Prod.mk.inj (Except.ok.inj h)
    exact ⟨_, _, _, _, _, _, _, _, hfrom, hwhere, hhaving, rfl, rfl, rfl⟩

/-- A SELECT that was read from a pool on. -/
theorem parseSelectWith_formed {select : ParsedSelect} {pool' : List PooledSelect}
    (hsub : ReadsSubqueries P subquery) (hslots : pool.length ≤ MAX_SUBQUERIES)
    (h : parseSelectWith subquery tokens pool = .ok (select, pool')) :
    select.Formed ∧ pool'.length ≤ MAX_SUBQUERIES ∧
      ∃ added, Grows P pool pool' select.refs added := by
  obtain ⟨_, _, _, _, _, _, list, list', hfrom, hwhere, hhaving, htables, hroots, hwher⟩ :=
    parseSelectWith_cases h
  have hsound := parseSelectWhere_sound hsub
    ((FromRead.Sound.rule hsub).parseFrom (emptyFrom_sound hslots) hfrom) hwhere
  obtain ⟨hafter, hgrowsHaving⟩ := parseOptionalHaving_grows hsub hsound.cond.slots hhaving
  refine ⟨⟨?_, ?_, ?_, fun i hleaf => ?_⟩, hafter, ?_⟩
  · rw [htables, hroots]
    exact hsound.joins
  · rw [hwher]
    exact hsound.cond.rising
  · rw [hwher]
    exact hsound.cond.single
  · rw [hwher] at hleaf ⊢
    obtain ⟨root, hroot, hpos, hin⟩ := hsound.covered i hleaf
    refine ⟨root, ?_, hin⟩
    unfold ParsedSelect.roots
    rw [hwher, hroots]
    rcases List.mem_cons.mp hroot with rfl | hroot
    · exact List.mem_append_left _ (by simp [ConditionRead.condition, hpos])
    · exact List.mem_append_right _ (List.mem_filter.mpr ⟨hroot, by simpa using hpos⟩)
  · obtain ⟨added, hgrows⟩ := hsound.pool
    obtain ⟨added', hgrows'⟩ := hgrowsHaving
    refine ⟨added ++ added', ?_⟩
    unfold ParsedSelect.refs
    rw [hwher]
    exact hgrows.trans hgrows'

/-! ### Subqueries -/

/-- Given a reader of SELECTs, a subquery takes the next slot and its own subqueries those behind
it. -/
theorem parseSubqueryWith_reads
    {parse : List Token → List PooledSelect → Except ErrorCode (ParsedSelect × List PooledSelect)}
    (hparse : ∀ tokens pool select pool', pool.length ≤ MAX_SUBQUERIES →
      parse tokens pool = .ok (select, pool') → select.Formed ∧ pool'.length ≤ MAX_SUBQUERIES ∧
        ∃ added, Grows ParsedSelect.Formed pool pool' select.refs added) :
    ReadsSubqueries ParsedSelect.Formed (parseSubqueryWith parse) := by
  intro tokens pool slot rest pool' hslots h
  unfold parseSubqueryWith at h
  split at h
  · exact absurd h (by simp)
  · split at h
    · exact absurd h (by simp)
    · rename_i hfull
      split at h
      · exact absurd h (by simp)
      · split at h
        · exact absurd h (by simp)
        · split at h
          · exact absurd h (by simp)
          · rename_i select after hselect
            obtain ⟨rfl, hrest⟩ := Prod.mk.inj (Except.ok.inj h)
            obtain ⟨-, rfl⟩ := Prod.mk.inj hrest
            have hlt : pool.length < MAX_SUBQUERIES := Nat.lt_of_le_of_ne hslots hfull
            obtain ⟨hformed, hafter, added, rfl, hnamed, hnested⟩ :=
              hparse _ _ _ _ (by rw [List.length_append]; exact hlt) hselect
            refine ⟨rfl, hlt, by rw [List.length_set]; exact hafter, { select := select, scalar := false } :: added, ?_, ?_, fun k sub hk => ?_⟩
            · rw [List.append_assoc, List.set_append_right _ _ (Nat.le_refl _), Nat.sub_self]
              rfl
            · rw [List.length_append, List.length_singleton] at hnamed
              rw [List.flatMap_cons, List.length_cons, List.range'_succ]
              exact List.Perm.cons _ hnamed
            · rw [List.length_append, List.length_singleton] at hnested
              cases k with
              | zero =>
                obtain rfl := Option.some.inj hk
                refine ⟨hformed, fun slot hslot => ?_⟩
                have hmem := hnamed.mem_iff.mp (List.mem_append_left _ hslot)
                rw [List.mem_range'_1, List.length_append, List.length_singleton] at hmem
                omega
              | succ k =>
                obtain ⟨hP, hbehind⟩ := hnested k sub hk
                refine ⟨hP, fun slot hslot => ?_⟩
                have := hbehind slot hslot
                omega

/-- A SELECT that is read is formed, and so is every subquery it brings. -/
theorem parseSelectFrom_formed {fuel : Nat} {select : ParsedSelect} {pool' : List PooledSelect}
    (hslots : pool.length ≤ MAX_SUBQUERIES)
    (h : parseSelectFrom fuel tokens pool = .ok (select, pool')) :
    select.Formed ∧ pool'.length ≤ MAX_SUBQUERIES ∧
      ∃ added, Grows ParsedSelect.Formed pool pool' select.refs added := by
  induction fuel generalizing tokens pool select pool' with
  | zero => exact absurd h (by simp [parseSelectFrom])
  | succ fuel ih =>
    exact parseSelectWith_formed
      (parseSubqueryWith_reads fun _ _ _ _ hslots hparse => ih hslots hparse) hslots h

/-- A subquery takes the next slot. -/
theorem parseSubquery_reads : ReadsSubqueries ParsedSelect.Formed parseSubquery :=
  parseSubqueryWith_reads fun _ _ _ _ hslots hparse => parseSelectFrom_formed hslots hparse

end

end DatabaseEngine
