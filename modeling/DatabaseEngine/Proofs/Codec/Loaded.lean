import DatabaseEngine.Proofs.Codec.Offline
import DatabaseEngine.Proofs.Heap.Keeping
import DatabaseEngine.Proofs.Semantic.Operands
import DatabaseEngine.Proofs.Session.Naming
import DatabaseEngine.Spec.Loaded

/-!
# `DatabaseEngine.Proofs.Codec.Loaded`: what a load accepts

* `Condition.Formed.ends`: the walks over a condition whose nodes form trees come to an end.
* `loadTables_spec`: a load of tables takes the bytes apart as `getTables` does, and every table
  of the database is one that the bytes tell of.
* `loadCurrentDatabase_wellFormed_iff`: what is loaded is well formed exactly when the bytes are
  well made. The load checks neither the edges of a condition nor the pages nor the names.
-/

set_option autoImplicit false

namespace DatabaseEngine

open Library

/-! ### Binding does not change a tree -/

section
variable {table : CatalogNode} {cond : Condition}

/-- To settle literals leaves every node its children. -/
theorem Settles.children {fitted : Int32 → Prop} {pool pool' : ExprPool}
    (h : Settles table fitted pool pool') (i : Int32) : pool'.children i = pool.children i := by
  unfold ExprPool.children
  cases hnode : pool.node i with
  | none => rw [(h.none_iff i).mpr hnode]
  | some node =>
    obtain ⟨node', hnode', hlike, -⟩ := h.node i node hnode
    rw [hnode']
    simp only [hlike.kind, hlike.left, hlike.right]

/-- To settle literals adds and removes no node. -/
theorem Settles.isSome {fitted : Int32 → Prop} {pool pool' : ExprPool}
    (h : Settles table fitted pool pool') (i : Int32) :
    (pool'.node i).isSome = (pool.node i).isSome := by
  rw [Bool.eq_iff_iff, ← Option.ne_none_iff_isSome, ← Option.ne_none_iff_isSome, Ne, Ne,
    h.none_iff i]

/-- To bind a condition's columns settles no literal. -/
theorem bindNodes_settles (table : CatalogNode) (nodes : List ConditionNode) (exprs : ExprPool) :
    Settles table (fun _ => False) exprs (bindNodes table nodes exprs) := by
  induction nodes generalizing exprs with
  | nil => exact .refl table _ exprs
  | cons node rest ih =>
    unfold bindNodes
    split
    · have hleft := @exprResolve_settles table exprs node.compare.left
      have hright := @exprResolve_settles table (exprResolve table exprs node.compare.left).2
        node.compare.right
      exact ((hleft.trans hright).trans (ih _)).mono fun j h => h.elim (fun h => h.elim id id) id
    · exact ih exprs

/-- Other operands with the same edges. -/
theorem Condition.Formed.withExprs (h : cond.Formed) {exprs : ExprPool}
    (hsome : ∀ i, (exprs.node i).isSome = (cond.exprs.node i).isSome)
    (hchildren : ∀ i, exprs.children i = cond.exprs.children i) :
    ({ cond with exprs := exprs } : Condition).Formed where
  root := h.root
  nodes := h.nodes
  operands node hnode hkind operand hoperand := by
    rw [hsome]
    exact h.operands node hnode hkind operand hoperand
  exprs i child hchild := by
    rw [hsome]
    exact h.exprs i child (hchildren i ▸ hchild)
  acyclic := h.acyclic
  exprsAcyclic := by
    show WellFounded fun child i => child ∈ exprs.children i
    simp only [hchildren]
    exact h.exprsAcyclic

/-- A condition is formed whether or not its columns are bound. -/
theorem formed_bindNodes :
    ({ cond with exprs := bindNodes table cond.nodes cond.exprs } : Condition).Formed ↔
      cond.Formed := by
  have hsettles := bindNodes_settles table cond.nodes cond.exprs
  constructor
  · intro h
    exact h.withExprs (fun i => (hsettles.isSome i).symm) fun i => (hsettles.children i).symm
  · intro h
    exact h.withExprs hsettles.isSome hsettles.children

end

/-! ### Walks over trees -/

section
variable {cond : Condition} {rank : Int32 → Nat}

/-- Enough fuel for the rank of a node is enough. -/
theorem evaluateConditionFrom_rank
    (hrank : ∀ child i, child ∈ cond.children i → rank child < rank i) (sub : Subqueries)
    (row : Row) (fuel fuel' : Nat) (i : Int32) (hfuel : rank i < fuel) (hfuel' : rank i < fuel') :
    evaluateConditionFrom fuel cond sub i row = evaluateConditionFrom fuel' cond sub i row := by
  induction fuel generalizing fuel' i with
  | zero => omega
  | succ fuel ih =>
    obtain ⟨fuel', rfl⟩ : ∃ n, fuel' = n + 1 := ⟨fuel' - 1, by omega⟩
    have hstep : ∀ child ∈ cond.children i, evaluateConditionFrom fuel cond sub child row =
        evaluateConditionFrom fuel' cond sub child row := by
      intro child hchild
      have hlt := hrank child i hchild
      exact ih fuel' child (by omega) (by omega)
    unfold evaluateConditionFrom
    unfold Condition.children at hstep
    cases hnode : cond.node i with
    | none => rfl
    | some node =>
      rw [hnode] at hstep
      cases hkind : node.kind with
      | COND_COMPARE => simp only [hkind]
      | COND_NOT =>
        simp only [hkind] at hstep ⊢
        rw [hstep node.left (by simp)]
      | COND_AND =>
        simp only [hkind] at hstep ⊢
        rw [hstep node.left (by simp), hstep node.right (by simp)]
      | COND_OR =>
        simp only [hkind] at hstep ⊢
        rw [hstep node.left (by simp), hstep node.right (by simp)]

/-- With fuel for the rank of a node its value does not depend on the fuel. -/
theorem exprEvaluateFrom_rank {pool : ExprPool}
    (hrank : ∀ child i, child ∈ pool.children i → rank child < rank i) (row : Row)
    (fuel fuel' : Nat) (i : Int32) (hfuel : rank i < fuel) (hfuel' : rank i < fuel') :
    exprEvaluateFrom fuel pool i row = exprEvaluateFrom fuel' pool i row := by
  induction fuel generalizing fuel' i with
  | zero => omega
  | succ fuel ih =>
    obtain ⟨fuel', rfl⟩ : ∃ n, fuel' = n + 1 := ⟨fuel' - 1, by omega⟩
    have hstep : ∀ child ∈ pool.children i,
        exprEvaluateFrom fuel pool child row = exprEvaluateFrom fuel' pool child row := by
      intro child hchild
      have hlt := hrank child i hchild
      exact ih fuel' child (by omega) (by omega)
    unfold exprEvaluateFrom
    unfold ExprPool.children at hstep
    cases hnode : pool.node i with
    | none => rfl
    | some node =>
      rw [hnode] at hstep
      cases hkind : node.kind with
      | EXPR_COLUMN => simp only [hkind]
      | EXPR_LITERAL => simp only [hkind]
      | EXPR_NEGATE =>
        simp only [hkind] at hstep ⊢
        rw [hstep node.left (by simp)]
      | EXPR_BINARY =>
        simp only [hkind] at hstep ⊢
        rw [hstep node.left (by simp), hstep node.right (by simp)]

/-- The walk over a formed condition ends. -/
theorem Condition.Formed.ends (h : cond.Formed) : cond.Ends where
  condition sub row fuel hfuel := by
    obtain ⟨rank, hbelow, hrank⟩ := exists_nodeRank h.nodes h.acyclic
    have hroot := hbelow cond.root h.root
    exact evaluateConditionFrom_rank hrank sub row _ _ _ (by omega) hroot
  operands operand row fuel hfuel := by
    obtain ⟨rank, hbelow, hrank⟩ := exists_nodeRank h.exprs h.exprsAcyclic
    by_cases hoperand : (cond.exprs.node operand).isSome
    · have hlow := hbelow operand hoperand
      exact exprEvaluateFrom_rank hrank row _ _ _ (by omega) (by omega)
    · -- an operand that is nowhere is an error at once
      obtain ⟨fuel, rfl⟩ : ∃ n, fuel = n + 1 := ⟨fuel - 1, by omega⟩
      have hnone : cond.exprs.node operand = none := by simpa using hoperand
      unfold exprEvaluate
      rw [exprEvaluateFrom, exprEvaluateFrom, hnone]

end

/-! ### The steps of a load -/

/-- The database that is being filled exists. -/
def Engine.Selected (e : Engine) : Prop := e.current < e.databases.length

/-- The selected database stays selected when it changes. -/
theorem Engine.Selected.setDatabase {e : Engine} (h : e.Selected) (db : Database) :
    (e.setDatabase db).Selected := by
  show e.current < (e.databases.set e.current db).length
  rw [List.length_set]
  exact h

/-- The selected database is the one that was set. -/
theorem Engine.Selected.database_setDatabase {e : Engine} (h : e.Selected) (db : Database) :
    (e.setDatabase db).database = db := by
  show (e.databases.set e.current db).getD e.current freeSlot = db
  rw [List.getD_eq_getElem?_getD, List.getElem?_set_self h]
  rfl

section
variable {α γ : Type} {l : Loading} {store : Store Bytes}

/-- The rule for reading an item of the blob. -/
theorem wp_parse {item : Parser α} {Q : Except ErrorCode α → Loading → Store Bytes → Prop} :
    (parse item).wp zeroPage Q l store ↔
      match item l.reader with
      | none => Q (.error .IO_BAD_FORMAT) l store
      | some (a, rest) => Q (.ok a) { l with reader := rest } store := by
  unfold parse Action.wp
  dsimp only
  cases item l.reader <;> rfl

/-- A step of a load, of which only what it does when it succeeds is told. -/
def LoadsTo (x : Step Loading α) (l : Loading) (store : Store Bytes)
    (Q : α → Loading → Store Bytes → Prop) : Prop :=
  x.wp zeroPage (fun r l' store' => ∀ a, r = .ok a → Q a l' store' ∧ store'.Sound) l store

/-- An answer. -/
theorem LoadsTo.pure {a : α} {Q : α → Loading → Store Bytes → Prop} (hs : store.Sound)
    (h : Q a l store) : LoadsTo (Pure.pure a) l store Q := by
  rintro _ ⟨⟩
  exact ⟨h, hs⟩

/-- The rule for two steps of a load. -/
theorem LoadsTo.bind {x : Step Loading α} {f : α → Step Loading γ}
    {P : α → Loading → Store Bytes → Prop} {Q : γ → Loading → Store Bytes → Prop}
    (hx : LoadsTo x l store P)
    (hf : ∀ a l' store', store'.Sound → P a l' store' → LoadsTo (f a) l' store' Q) :
    LoadsTo (x >>= f) l store Q := by
  unfold LoadsTo
  rw [Action.wp_bind]
  refine Action.wp_mono hx fun r l' store' h => ?_
  cases r with
  | error code => exact fun _ habsurd => nomatch habsurd
  | ok a => exact hf a l' store' (h a rfl).2 (h a rfl).1

/-- The rule for reading an item of the blob: a blob that ends is refused. -/
theorem LoadsTo.parse {item : Parser α} {f : α → Step Loading γ}
    {Q : γ → Loading → Store Bytes → Prop}
    (h : ∀ a rest, item l.reader = some (a, rest) → LoadsTo (f a) { l with reader := rest } store Q) :
    LoadsTo (DatabaseEngine.parse item >>= f) l store Q := by
  unfold LoadsTo
  rw [Action.wp_bind, wp_parse]
  cases hitem : item l.reader with
  | none => exact fun _ habsurd => nomatch habsurd
  | some read => exact h read.1 read.2 hitem

/-- The rule for a step on the database that is being loaded. -/
theorem wp_onLoaded {x : Step Database α} {Q : Except ErrorCode α → Loading → Store Bytes → Prop} :
    (onLoaded x).wp zeroPage Q l store ↔
      x.wp zeroPage (fun r db => Q r { l with engine := l.engine.setDatabase db })
        l.engine.database store := by
  unfold onLoaded onEngine onDatabase
  rw [Action.wp_onPart, Action.wp_onPart]

/-- The parts of a parser, one after another. -/
theorem parser_bind (item : Parser α) (f : α → Parser γ) (bytes : List UInt8) :
    (item >>= f) bytes = (item bytes).bind fun read => f read.1 read.2 := rfl

/-- The load works on the heap that was made last. -/
structure Filling (front : List Heap) (heap : Heap) (l : Loading) : Prop where
  selected : l.engine.Selected
  heaps : l.engine.database.heaps = front ++ [heap]

/-- A step on that heap leaves everything else alone. -/
theorem accepts_onLastHeap {front : List Heap} {heap : Heap} {x : Step Heap α}
    {P : α → Heap → Store Bytes → Prop} (hl : Filling front heap l) (hs : store.Sound)
    (hx : x.wp zeroPage (fun r heap' store' => ∀ a, r = .ok a → P a heap' store') heap store) :
    LoadsTo (onLoaded (onLastHeap x)) l store fun a l' store' =>
      ∃ heap', Filling front heap' l' ∧ l'.reader = l.reader ∧
        l'.engine.database.tables = l.engine.database.tables ∧ P a heap' store' := by
  unfold LoadsTo
  rw [wp_onLoaded]
  unfold onLastHeap
  rw [Action.wp_bind, Action.wp_get]
  dsimp only
  rw [hl.heaps, List.getLast?_concat]
  dsimp only
  rw [Action.wp_onPart]
  refine PageM.wp_mono (PageM.wp_sound hx hs) fun r store' hdone a ha => ?_
  obtain ⟨hP, hs', -⟩ := hdone
  refine ⟨⟨r.2, ⟨hl.selected.setDatabase _, ?_⟩, rfl, ?_, hP a ha⟩, hs'⟩
  · rw [hl.selected.database_setDatabase]
    show l.engine.database.heaps.dropLast ++ [r.2] = front ++ [r.2]
    rw [hl.heaps, List.dropLast_concat]
  · rw [hl.selected.database_setDatabase]

/-- The pages that are taken over are those that the bytes tell of. -/
theorem adoptPages_spec {front : List Heap} {heap : Heap} (hl : Filling front heap l)
    (hs : store.Sound) (n : Nat) :
    LoadsTo (adoptPages n) l store fun _ l' _ => ∃ pages heap',
      getMany getPage n l.reader = some (pages, l'.reader) ∧ Filling front heap' l' ∧
        l'.engine.database.tables = l.engine.database.tables ∧
        heap'.pages = heap.pages ++ pages := by
  induction n generalizing l store heap with
  | zero => exact .pure hs ⟨[], heap, rfl, hl, rfl, (List.append_nil _).symm⟩
  | succ n ih =>
    refine LoadsTo.parse fun pageId rest hpage => LoadsTo.parse fun slots rest' hslots => ?_
    have hgot : getPage l.reader = some ((pageId, slots), rest') := by
      unfold getPage
      rw [parser_bind, hpage]
      exact (parser_bind _ _ rest).trans (by rw [hslots]; rfl)
    have hadopt := accepts_onLastHeap (l := { l with reader := rest' })
      (x := Action.modify fun heap => heapAdoptPage heap pageId slots)
      (P := fun _ heap' _ => heap' = heapAdoptPage heap pageId slots) ⟨hl.selected, hl.heaps⟩ hs
      (fun _ _ => rfl)
    refine hadopt.bind fun _ l₁ store₁ hs₁ hl₁ => ?_
    obtain ⟨heap₁, hfilling, hreader, htables, rfl⟩ := hl₁
    refine Action.wp_mono (ih hfilling hs₁) fun r l₂ store₂ hdone a ha => ?_
    obtain ⟨⟨pages, heap₂, hmany, hfilling₂, htables₂, hpages⟩, hs₂⟩ := hdone a ha
    refine ⟨⟨(pageId, slots) :: pages, heap₂, ?_, hfilling₂, htables₂.trans htables, ?_⟩, hs₂⟩
    · rw [hreader] at hmany
      unfold getMany
      rw [parser_bind, hgot]
      exact (parser_bind _ _ rest').trans (by rw [hmany]; rfl)
    · rw [hpages]
      exact List.append_assoc heap.pages [(pageId, slots)] pages

/-- A row has a value for each column. -/
theorem readRow_length {cols : List Column} {bytes rest : List UInt8} {row : Row}
    (h : readRow cols bytes = some (row, rest)) : row.length = cols.length := by
  induction cols generalizing bytes rest row with
  | nil =>
    obtain ⟨rfl, -⟩ := Prod.mk.inj (Option.some.inj h)
    rfl
  | cons column cols ih =>
    unfold readRow at h
    rw [parser_bind] at h
    obtain ⟨⟨value, mid⟩, -, h⟩ := Option.bind_eq_some_iff.mp h
    rw [parser_bind] at h
    obtain ⟨⟨others, last⟩, hothers, h⟩ := Option.bind_eq_some_iff.mp h
    obtain ⟨rfl, -⟩ := Prod.mk.inj (Option.some.inj h)
    exact congrArg (· + 1) (ih hothers)

/-- The rows that are replayed are entered one after another. -/
theorem replayRows_spec {front : List Heap} {heap : Heap} {ledger : Ledger} {cols : List Column}
    (hl : Filling front heap l) (hs : store.Sound) (hstores : heap.Stores ledger store)
    (hcols : cols.length ≤ MAX_COLS) (n : Nat) :
    LoadsTo (replayRows cols n) l store fun _ l' store' => ∃ rows heap' ledger',
      getMany (readRow cols) n l.reader = some (rows, l'.reader) ∧ Filling front heap' l' ∧
        l'.engine.database.tables = l.engine.database.tables ∧
        heap'.Stores ledger' store' := by
  induction n generalizing l store heap ledger with
  | zero => exact .pure hs ⟨[], heap, ledger, rfl, hl, rfl, hstores⟩
  | succ n ih =>
    refine LoadsTo.parse fun row rest hrow => ?_
    have hinsert := accepts_onLastHeap (l := { l with reader := rest })
      (x := heapInsert row)
      (P := fun _ heap' store' => ∃ ledger', heap'.Stores ledger' store') ⟨hl.selected, hl.heaps⟩ hs
      (Action.wp_mono (heapInsert_spec hs hstores (readRow_length hrow ▸ hcols))
        fun r heap' store' hdone a ha => by
          subst ha
          exact ⟨_, hdone⟩)
    refine hinsert.bind fun _ l₁ store₁ hs₁ hl₁ => ?_
    obtain ⟨heap₁, hfilling, hreader, htables, ledger₁, hstores₁⟩ := hl₁
    refine Action.wp_mono (ih hfilling hs₁ hstores₁) fun r l₂ store₂ hdone a ha => ?_
    obtain ⟨⟨rows, heap₂, ledger₂, hmany, hfilling₂, htables₂, hstores₂⟩, hs₂⟩ := hdone a ha
    refine ⟨⟨row :: rows, heap₂, ledger₂, ?_, hfilling₂, htables₂.trans htables, hstores₂⟩, hs₂⟩
    rw [hreader] at hmany
    unfold getMany
    rw [parser_bind, hrow]
    exact (parser_bind _ _ rest).trans (by rw [hmany]; rfl)

/-! ### Tables -/

/-- A table of the database is the one that the bytes tell of. -/
structure TableImage.Tells (image : TableImage) (table : CatalogNode) : Prop where
  name : table.table = image.name
  cols : table.cols = image.cols
  check : (∀ cond, table.check = some cond → cond.Formed) ↔
    ∀ cond, image.check = some cond → cond.Formed

/-- What the pages of a heap come to, where `count` pages exist: a file that has pages tells which
they are, and an older one is given pages as it is read. -/
def TableImage.Fills (version count : Nat) (image : TableImage) (heap : Heap) : Prop :=
  ∀ limit, (version < TREELESS_VERSION → count ≤ limit) →
    (pagesFit limit heap.pages ↔ pagesFit limit image.pages)

/-- The database has the tables and heaps that the bytes tell of, beside those that it had. -/
structure Gains (version count : Nat) (images : List TableImage) (before after : Database) :
    Prop where
  tables : ∃ added, after.tables.Perm (added ++ before.tables) ∧
    List.Forall₂ TableImage.Tells images added
  heaps : ∃ added, after.heaps = before.heaps ++ added ∧
    List.Forall₂ (TableImage.Fills version count) images added

/-- Without a table nothing is gained. -/
theorem Gains.nil (version count : Nat) (db : Database) : Gains version count [] db db :=
  ⟨⟨[], .refl _, .nil⟩, ⟨[], (List.append_nil _).symm, .nil⟩⟩

/-- The first table, and then the others. -/
theorem Gains.cons {version count count' : Nat} {image : TableImage} {images : List TableImage}
    {before mid after : Database} (h : Gains version count [image] before mid)
    (h' : Gains version count' images mid after) (hcount : count ≤ count') :
    Gains version count' (image :: images) before after := by
  obtain ⟨first, hfirst, htells⟩ := h.tables
  obtain ⟨others, hothers, htells'⟩ := h'.tables
  obtain ⟨heap, hheap, hfills⟩ := h.heaps
  obtain ⟨heaps, hheaps, hfills'⟩ := h'.heaps
  have hmore : ∀ images' heaps', List.Forall₂ (TableImage.Fills version count) images' heaps' →
      List.Forall₂ (TableImage.Fills version count') images' heaps' := by
    intro images' heaps' hall
    exact hall.imp fun a b hab limit hlimit => hab limit fun hold => Nat.le_trans hcount (hlimit hold)
  refine ⟨⟨first ++ others, ?_, List.rel_append htells htells'⟩,
    ⟨heap ++ heaps, ?_, List.rel_append (hmore _ _ hfills) hfills'⟩⟩
  · calc after.tables.Perm (others ++ mid.tables) := hothers
      _ |>.Perm (others ++ (first ++ before.tables)) := hfirst.append_left others
      _ |>.Perm (first ++ others ++ before.tables) := by
        rw [← List.append_assoc]
        exact List.perm_append_comm.append_right _
  · rw [hheaps, hheap, List.append_assoc]

/-- A table that is entered is one of the tables, and no other is lost. -/
theorem insertNode_perm (node : CatalogNode) (tables : List CatalogNode) :
    (insertNode node tables).Perm (node :: tables) := by
  unfold insertNode
  refine List.perm_middle.trans ?_
  rw [List.takeWhile_append_dropWhile]

/-- A CHECK that is read is one. -/
theorem getCondition_present {bytes rest : List UInt8} {cond : Condition}
    (h : getCondition bytes = some (some cond, rest)) : cond.present = true := by
  unfold getCondition at h
  simp only [parser_bind, Option.bind_eq_some_iff] at h
  obtain ⟨flag, -, h⟩ := h
  split at h
  · exact absurd (Prod.mk.inj (Option.some.inj h)).1 (by simp)
  · simp only [parser_bind, Option.bind_eq_some_iff] at h
    obtain ⟨_, -, _, -, _, -, _, -, _, -, _, -, _, -, _, -, h⟩ := h
    rw [← Option.some.inj (Prod.mk.inj (Option.some.inj h)).1]

/-- A table as it is registered. -/
def TableImage.node (image : TableImage) : CatalogNode :=
  bindCheck { table := image.name, cols := image.cols, check := image.check.filter Condition.present }

/-- A table is as its image tells. -/
theorem TableImage.tells_node {image : TableImage}
    (hpresent : ∀ cond, image.check = some cond → cond.present = true) :
    image.Tells image.node where
  name := rfl
  cols := rfl
  check := by
    unfold TableImage.node bindCheck
    cases hcheck : image.check with
    | none => simp
    | some cond =>
      have hfilter : (some cond).filter Condition.present = some cond := by
        simp [hpresent cond hcheck]
      rw [hfilter]
      simp only [Option.map_some, Option.some.injEq, forall_eq']
      exact formed_bindNodes

/-- A heap that keeps its rows is on pages that exist, whose slots end before the trailer. -/
theorem Heap.Stores.pagesFit {heap : Heap} {ledger : Ledger} (h : heap.Stores ledger store)
    (hs : store.Sound) {limit : Nat} (hlimit : store.count ≤ limit) :
    pagesFit limit heap.pages := by
  intro page hpage
  obtain ⟨k, hk⟩ := List.mem_iff_getElem?.mp hpage
  obtain ⟨body, hbody, hkeeps⟩ := h.pages k page.1 page.2 hk
  have hsome : (store.body page.1).isSome := by
    rw [hbody]
    rfl
  have hlt := (hs.allocated hsome).1
  exact ⟨by omega, hkeeps.directory⟩

/-- What the table is registered as. -/
theorem accepts_addTable {image : TableImage} (hselected : l.engine.Selected) (hs : store.Sound) :
    LoadsTo (onLoaded do
      let db ← Action.get
      let tables ← Action.ofExcept (addTable image.name image.cols image.check db.tables)
      Action.set { db with tables := tables }) l store fun _ l' store' =>
        store' = store ∧ l'.reader = l.reader ∧ l'.engine.Selected ∧
        l'.engine.database = { l.engine.database with
          tables := insertNode image.node l.engine.database.tables } := by
  unfold LoadsTo
  rw [wp_onLoaded, Action.wp_bind, Action.wp_get]
  dsimp only
  rw [Action.wp_bind, Action.wp_ofExcept]
  unfold addTable
  by_cases hwidth : image.cols.length = 0 ∨ MAX_COLS < image.cols.length
  · rw [if_pos hwidth]
    exact fun _ habsurd => nomatch habsurd
  · rw [if_neg hwidth]
    intro a _
    exact ⟨⟨rfl, rfl, hselected.setDatabase _, hselected.database_setDatabase _⟩, hs⟩

/-- A table's heap is created and the tables are left alone. -/
theorem accepts_createHeap {name : Name} (hselected : l.engine.Selected) (hs : store.Sound) :
    LoadsTo (onLoaded do
      let db ← Action.get
      let heaps ← Action.ofExcept (createHeap name db.heaps)
      Action.set { db with heaps := heaps }) l store fun _ l' store' =>
        store' = store ∧ l'.reader = l.reader ∧
        Filling l.engine.database.heaps (clearHeap name) l' ∧
        l'.engine.database.tables = l.engine.database.tables := by
  unfold LoadsTo
  rw [wp_onLoaded, Action.wp_bind, Action.wp_get]
  dsimp only
  rw [Action.wp_bind, Action.wp_ofExcept]
  unfold createHeap
  by_cases hfull : l.engine.database.heaps.length = MAX_TABLES
  · rw [if_pos hfull]
    exact fun _ habsurd => nomatch habsurd
  · rw [if_neg hfull]
    intro a _
    refine ⟨⟨rfl, rfl, ⟨hselected.setDatabase _, ?_⟩, ?_⟩, hs⟩
    · rw [hselected.database_setDatabase]
    · rw [hselected.database_setDatabase]

/-- As many items are read as were announced. -/
theorem getMany_length {item : Parser α} {n : Nat} {bytes rest : List UInt8} {xs : List α}
    (h : getMany item n bytes = some (xs, rest)) : xs.length = n := by
  induction n generalizing bytes rest xs with
  | zero =>
    obtain ⟨rfl, -⟩ := Prod.mk.inj (Option.some.inj h)
    rfl
  | succ n ih =>
    unfold getMany at h
    simp only [parser_bind, Option.bind_eq_some_iff] at h
    obtain ⟨first, -, others, hothers, h⟩ := h
    obtain ⟨rfl, -⟩ := Prod.mk.inj (Option.some.inj h)
    exact congrArg (· + 1) (ih hothers)

/-- What is required holds, and nothing is read. -/
theorem require_holds {b : Bool} {bytes rest : List UInt8} {u : Unit}
    (h : require b bytes = some (u, rest)) : b = true ∧ rest = bytes := by
  unfold require at h
  cases b with
  | false => exact absurd h (by simp)
  | true => exact ⟨rfl, (Prod.mk.inj (Option.some.inj h)).2.symm⟩

/-- One table is read as the bytes tell of it. -/
theorem loadTable_spec (version : Nat) (hselected : l.engine.Selected) (hs : store.Sound) :
    LoadsTo (loadTable version) l store fun _ l' store' => ∃ image,
      getTable version l.reader = some (image, l'.reader) ∧ l'.engine.Selected ∧
        Gains version store'.count [image] l.engine.database l'.engine.database := by
  refine LoadsTo.parse fun name rest₁ hname => LoadsTo.parse fun ncols rest₂ hncols =>
    LoadsTo.parse fun _ rest₃ hrequire => LoadsTo.parse fun cols rest₄ hcols =>
    LoadsTo.parse fun check rest₅ hcheck => ?_
  have hget : ∀ pages rest, getPages version cols rest₅ = some (pages, rest) →
      getTable version l.reader = some ({ name, cols, check, pages }, rest) := by
    intro pages rest hpages
    have hcheck' : getCheck version rest₄ = some (check, rest₅) := hcheck
    unfold getTable
    simp only [parser_bind, hname, hncols, hrequire, hcols, hcheck', hpages, Option.bind_some]
    rfl
  have hpresent : ∀ cond, check = some cond → cond.present = true := by
    rintro cond rfl
    by_cases hmeta : META_VERSION ≤ version
    · rw [if_pos hmeta] at hcheck
      exact getCondition_present hcheck
    · rw [if_neg hmeta] at hcheck
      exact absurd (Prod.mk.inj (Option.some.inj hcheck)).1 (by simp)
  have hcols' : cols.length ≤ MAX_COLS := by
    have hwidth := (require_holds hrequire).1
    rw [Bool.and_eq_true, decide_eq_true_iff, decide_eq_true_iff] at hwidth
    rw [getMany_length hcols]
    exact hwidth.2
  let image : List (Nat × Nat) → TableImage := fun pages => { name, cols, check, pages }
  have hadd := @accepts_addTable { l with reader := rest₅ } store (image []) hselected hs
  refine hadd.bind fun _ l₁ store₁ hs₁ hl₁ => ?_
  obtain ⟨rfl, hreader₁, hselected₁, hdb₁⟩ := hl₁
  refine (accepts_createHeap hselected₁ hs₁).bind fun _ l₂ store₂ hs₂ hl₂ => ?_
  obtain ⟨rfl, hreader₂, hfilling, htables₂⟩ := hl₂
  have hreader : l₂.reader = rest₅ := hreader₂.trans hreader₁
  rw [hdb₁] at hfilling htables₂
  have hgains : ∀ (pages : List (Nat × Nat)) (heap : Heap) (l' : Loading) (count : Nat),
      Filling l.engine.database.heaps heap l' →
      l'.engine.database.tables = l₂.engine.database.tables →
      (image pages).Fills version count heap →
        Gains version count [image pages] l.engine.database l'.engine.database := by
    intro pages heap l' count hl' htables hfills
    refine ⟨⟨[(image pages).node], ?_, .cons (TableImage.tells_node hpresent) .nil⟩,
      ⟨[heap], hl'.heaps, .cons hfills .nil⟩⟩
    rw [htables, htables₂]
    exact insertNode_perm _ _
  by_cases hpaged : TREELESS_VERSION ≤ version
  · rw [if_pos hpaged]
    refine LoadsTo.parse fun n rest₆ hn => ?_
    refine (adoptPages_spec (l := { l₂ with reader := rest₆ }) ⟨hfilling.selected, hfilling.heaps⟩
      hs₂ n).bind fun _ l₃ store₃ hs₃ hl₃ => ?_
    obtain ⟨pages, heap₃, hmany, hfilling₃, htables₃, hpages⟩ := hl₃
    refine LoadsTo.parse fun live rest₇ hlive => ?_
    have hmodify := accepts_onLastHeap (l := { l₃ with reader := rest₇ })
      (x := Action.modify fun heap => { heap with nlive := live.toInt })
      (P := fun _ heap' _ => heap'.pages = heap₃.pages) ⟨hfilling₃.selected, hfilling₃.heaps⟩ hs₃
      (fun _ _ => rfl)
    refine Action.wp_mono hmodify fun r l₄ store₄ hdone a ha => ?_
    obtain ⟨⟨heap₄, hfilling₄, hreader₄, htables₄, hpages₄⟩, hs₄⟩ := hdone a ha
    refine ⟨⟨image pages, hget pages l₄.reader ?_, hfilling₄.selected, ?_⟩, hs₄⟩
    · unfold getPages
      rw [hreader] at hn
      simp only [parser_bind, hn, Option.bind_some, if_pos hpaged, hmany, hlive, hreader₄]
      rfl
    · refine hgains pages heap₄ l₄ _ hfilling₄ (htables₄.trans htables₃) fun limit _ => ?_
      rw [hpages₄, hpages]
      rfl
  · rw [if_neg hpaged]
    refine LoadsTo.parse fun n rest₆ hn => ?_
    refine Action.wp_mono (replayRows_spec (l := { l₂ with reader := rest₆ })
      ⟨hfilling.selected, hfilling.heaps⟩ hs₂ (.clear name store₂) hcols' n)
      fun r l₃ store₃ hdone a ha => ?_
    obtain ⟨⟨rows, heap₃, ledger₃, hmany, hfilling₃, htables₃, hstores₃⟩, hs₃⟩ := hdone a ha
    refine ⟨⟨image [], hget [] l₃.reader ?_, hfilling₃.selected, ?_⟩, hs₃⟩
    · unfold getPages
      rw [hreader] at hn
      simp only [parser_bind, hn, Option.bind_some, if_neg hpaged, hmany]
      rfl
    · refine hgains [] heap₃ l₃ _ hfilling₃ htables₃ fun limit hlimit => ?_
      exact iff_of_true (hstores₃.pagesFit hs₃ (hlimit (Nat.lt_of_not_le hpaged)))
        fun _ hpage => absurd hpage (List.not_mem_nil)

/-- Pages are added only. -/
theorem LoadsTo.counted {x : Step Loading α} {Q : α → Loading → Store Bytes → Prop}
    (h : LoadsTo x l store Q) :
    LoadsTo x l store fun a l' store' => Q a l' store' ∧ store.count ≤ store'.count := by
  refine PageM.wp_mono (PageM.wp_ends h) fun r store' hdone a ha => ?_
  obtain ⟨hQ, rfl⟩ := hdone
  exact ⟨⟨(hQ a ha).1, PageM.count_le_run _ _⟩, (hQ a ha).2⟩

/-- The database gains the tables whose images the blob holds. -/
theorem loadTables_spec (version n : Nat) (hselected : l.engine.Selected) (hs : store.Sound) :
    LoadsTo (loadTables version n) l store fun _ l' store' => ∃ images,
      getMany (getTable version) n l.reader = some (images, l'.reader) ∧ l'.engine.Selected ∧
        Gains version store'.count images l.engine.database l'.engine.database := by
  induction n generalizing l store with
  | zero => exact .pure hs ⟨[], rfl, hselected, .nil ..⟩
  | succ n ih =>
    refine (loadTable_spec version hselected hs).bind fun _ l₁ store₁ hs₁ hl₁ => ?_
    obtain ⟨image, hget, hselected₁, hgains⟩ := hl₁
    refine Action.wp_mono (ih hselected₁ hs₁).counted fun r l₂ store₂ hdone a ha => ?_
    obtain ⟨⟨⟨images, hmany, hselected₂, hgains₂⟩, hcount⟩, hs₂⟩ := hdone a ha
    refine ⟨⟨image :: images, ?_, hselected₂, hgains.cons hgains₂ hcount⟩, hs₂⟩
    unfold getMany
    simp only [parser_bind, hget, hmany, Option.bind_some]
    rfl

/-! ### A whole load -/

/-- A step that succeeds is two that succeed. -/
theorem onPool_accepted {σ : Type} {x : Step σ α} {f : α → Step σ γ} {s s' : σ} {p q : Pool Bytes}
    {c : γ} (h : onPool ((x >>= f) s) p = ((.ok c, s'), q)) :
    ∃ a mid p', onPool (x s) p = ((.ok a, mid), p') ∧ onPool (f a mid) p' = ((.ok c, s'), q) := by
  have hbind : onPool ((x >>= f) s) p = onPool _ (onPool (x s) p).2 := onPool_bind ..
  rw [hbind] at h
  generalize hx : onPool (x s) p = r at h
  obtain ⟨⟨answer, mid⟩, p'⟩ := r
  cases answer with
  | error code => exact absurd (Prod.mk.inj (Prod.mk.inj h).1).1 (by simp)
  | ok a => exact ⟨a, mid, p', rfl, h⟩

/-- An item that was read leaves the pool alone. -/
theorem onPool_parse {item : Parser α} {a : α} {l' : Loading} {p q : Pool Bytes}
    (h : onPool (parse item l) p = ((.ok a, l'), q)) :
    ∃ rest, item l.reader = some (a, rest) ∧ l' = { l with reader := rest } ∧ q = p := by
  unfold parse at h
  cases hitem : item l.reader with
  | none =>
    rw [hitem] at h
    exact absurd (Prod.mk.inj (Prod.mk.inj h).1).1 (by simp)
  | some read =>
    rw [hitem] at h
    obtain ⟨hanswer, rfl⟩ := Prod.mk.inj h
    obtain ⟨ha, rfl⟩ := Prod.mk.inj hanswer
    exact ⟨read.2, by rw [← Except.ok.inj ha], rfl, rfl⟩

/-- A database exists and has the tables and heaps of another. -/
def LoadsSame (db : Database) (l : Loading) : Prop :=
  l.engine.Selected ∧ l.engine.database.tables = db.tables ∧ l.engine.database.heaps = db.heaps

/-- To read an item changes no database. -/
theorem loadsSame_parse {db : Database} (item : Parser α) : (parse item).Keeps (LoadsSame db) := by
  intro l h
  unfold parse
  cases item l.reader <;> exact h

/-- A step on the indexes changes no table. -/
theorem loadsSame_onLoaded {db : Database} (x : Step Database α) (hx : OnlyIndexes x) :
    (onLoaded x).Keeps (LoadsSame db) := by
  have hdatabase : x.Keeps fun other => other.tables = db.tables ∧ other.heaps = db.heaps :=
    hx (fun other => other.tables = db.tables ∧ other.heaps = db.heaps) fun _ _ h => h
  have hengine : (onDatabase x).Keeps fun e : Engine =>
      e.Selected ∧ e.database.tables = db.tables ∧ e.database.heaps = db.heaps := by
    intro e he
    refine Action.Keeps.onPart_part (I := fun e : Engine =>
      e.Selected ∧ e.database.tables = db.tables ∧ e.database.heaps = db.heaps) hdatabase he.2 ?_
    intro other hother
    rw [he.1.database_setDatabase]
    exact ⟨he.1.setDatabase other, hother⟩
  intro l h
  unfold onLoaded onEngine
  refine Action.Keeps.onPart_part (I := LoadsSame db) hengine h ?_
  intro e he
  exact he

/-- What a load that is accepted has read, and what the database has then. -/
theorem loadCurrentDatabase_gains {version : Nat} {p q : Pool Bytes} {l' : Loading}
    (hserves : p.Serves store) (hselected : l.engine.Selected)
    (h : onPool (loadCurrentDatabase version l) p = ((.ok (), l'), q)) :
    ∃ images rest count, getTables version l.reader = some (images, rest) ∧
      count ≤ q.pageCount ∧ Gains version count images l.engine.database l'.engine.database := by
  obtain ⟨n, l₁, p₁, hparse₁, h₁⟩ := onPool_accepted h
  obtain ⟨rest₁, hn, rfl, rfl⟩ := onPool_parse hparse₁
  obtain ⟨u, l₂, p₂, hparse₂, h₂⟩ := onPool_accepted h₁
  obtain ⟨rest₂, hrequire, rfl, rfl⟩ := onPool_parse hparse₂
  obtain ⟨u', l₃, p₃, htables, h₃⟩ := onPool_accepted h₂
  obtain ⟨store₃, hspec, hserves₃⟩ := hserves.action
    (loadTables_spec (l := { l with reader := rest₂ }) version n hselected hserves.sound)
  rw [htables] at hspec hserves₃
  obtain ⟨⟨images, hmany, hselected₃, hgains⟩, -⟩ := hspec u' rfl
  -- the indexes are no part of the tables and heaps
  have hkeeps := afterTables_keeps (I := LoadsSame l₃.engine.database) loadsSame_parse
    loadsSame_onLoaded version
  have hafter := onPool_ends (hkeeps l₃ ⟨hselected₃, rfl, rfl⟩) p₃
  have hcount := (pageCount_grows p₃.pageCount).onPool
    ((do
      let indexCount ← parse getNat
      loadIndexes version indexCount
      if TAIL_VERSION ≤ version then return ()
      else
        onLoaded do
          let db ← Action.get
          rebuildAll (listTables db.tables MAX_TABLES) : Step Loading Unit) l₃) (Nat.le_refl _)
  rw [h₃] at hafter hcount
  obtain ⟨-, htables', hheaps'⟩ := hafter
  refine ⟨images, l₃.reader, store₃.count, ?_, ?_, ?_, ?_⟩
  · unfold getTables
    rw [parser_bind, hn]
    refine (parser_bind _ _ rest₁).trans ?_
    rw [hrequire]
    exact hmany
  · rw [← hserves₃.count]
    exact hcount
  · obtain ⟨added, hperm, htells⟩ := hgains.tables
    exact ⟨added, htables'.symm ▸ hperm, htells⟩
  · obtain ⟨added, hheaps, hfills⟩ := hgains.heaps
    exact ⟨added, hheaps'.trans hheaps, hfills⟩

/-- What holds of one list item by item holds of the other. -/
theorem forall₂_all {δ : Type} {R : γ → δ → Prop} {P : γ → Prop} {Q : δ → Prop} {xs : List γ}
    {ys : List δ} (h : List.Forall₂ R xs ys) (hRQ : ∀ x y, R x y → (P x ↔ Q y)) :
    (∀ x ∈ xs, P x) ↔ ∀ y ∈ ys, Q y := by
  induction h with
  | nil => simp
  | cons hxy _ ih =>
    rw [List.forall_mem_cons, List.forall_mem_cons, hRQ _ _ hxy, ih]

/-- The tables have the names of their images. -/
theorem tells_names {images : List TableImage} {tables : List CatalogNode}
    (h : List.Forall₂ TableImage.Tells images tables) :
    tables.map CatalogNode.table = images.map TableImage.name := by
  induction h with
  | nil => rfl
  | cons htells _ ih => rw [List.map_cons, List.map_cons, htells.name, ih]

/-- The names differ whatever the order. -/
theorem names_perm {names names' : List Name} (h : names.Perm names') :
    names.Pairwise (fun a b => a.same b = false) ↔ names'.Pairwise fun a b => a.same b = false :=
  h.pairwise_iff fun {a b} hab => (sameText_comm b.1 a.1).trans hab

/-- A database is well-formed after a load if and only if what was loaded is well made and no name
comes twice. -/
theorem Gains.wellFormed_iff {version count limit : Nat} {images : List TableImage}
    {before after : Database} (h : Gains version count images before after)
    (hbefore : before.WellFormed limit) (hlimit : version < TREELESS_VERSION → count ≤ limit) :
    after.WellFormed limit ↔ (∀ image ∈ images, image.WellMade limit) ∧
      (images.map TableImage.name ++ before.tables.map CatalogNode.table).Pairwise
        fun a b => a.same b = false := by
  obtain ⟨tables, hperm, htells⟩ := h.tables
  obtain ⟨heaps, hheaps, hfills⟩ := h.heaps
  have hnames : (after.tables.map CatalogNode.table).Perm
      (images.map TableImage.name ++ before.tables.map CatalogNode.table) := by
    rw [← tells_names htells, ← List.map_append]
    exact hperm.map _
  have hchecks := forall₂_all htells fun _ _ htell => htell.check.symm
  have hcolumns := forall₂_all (P := fun image : TableImage => columnsDistinct image.cols)
    (Q := fun table : CatalogNode => columnsDistinct table.cols) htells
    fun _ _ htell => by rw [htell.cols]
  have hpages := forall₂_all (P := fun image : TableImage => pagesFit limit image.pages)
    (Q := fun heap : Heap => pagesFit limit heap.pages) hfills
    fun _ _ hfill => (hfill limit hlimit).symm
  constructor
  · intro hafter
    have hin : ∀ table ∈ tables, table ∈ after.tables := fun table htable =>
      hperm.mem_iff.mpr (List.mem_append_left _ htable)
    refine ⟨fun image himage => ⟨?_, ?_, ?_⟩, (names_perm hnames).mp hafter.tables⟩
    · exact hchecks.mpr (fun table htable => hafter.checks table (hin table htable)) image himage
    · exact hcolumns.mpr (fun table htable => hafter.columns table (hin table htable)) image himage
    · refine hpages.mpr (fun heap hheap => hafter.pages heap ?_) image himage
      rw [hheaps]
      exact List.mem_append_right _ hheap
  · rintro ⟨hmade, hdistinct⟩
    have hsplit : ∀ table ∈ after.tables, table ∈ tables ∨ table ∈ before.tables :=
      fun table htable => List.mem_append.mp (hperm.mem_iff.mp htable)
    refine ⟨fun table htable => ?_, fun table htable => ?_, (names_perm hnames).mpr hdistinct,
      fun heap hheap => ?_⟩
    · rcases hsplit table htable with hnew | hold
      · exact hchecks.mp (fun image himage => (hmade image himage).check) table hnew
      · exact hbefore.checks table hold
    · rcases hsplit table htable with hnew | hold
      · exact hcolumns.mp (fun image himage => (hmade image himage).columns) table hnew
      · exact hbefore.columns table hold
    · rw [hheaps] at hheap
      rcases List.mem_append.mp hheap with hold | hnew
      · exact hbefore.pages heap hold
      · exact hpages.mp (fun image himage => (hmade image himage).pages) heap hnew

/-- What is well-formed in a file is so in a longer one. -/
theorem Database.WellFormed.mono {limit limit' : Nat} {db : Database} (h : db.WellFormed limit)
    (hlimit : limit ≤ limit') : db.WellFormed limit' :=
  ⟨h.checks, h.columns, h.tables, fun heap hheap page hpage =>
    ⟨Nat.lt_of_lt_of_le (h.pages heap hheap page hpage).1 hlimit,
      (h.pages heap hheap page hpage).2⟩⟩

/-- The pages that a heap may be on: those of the file, or, when the file has none, those that the
load has taken. -/
def pagesThere (version before after : Nat) : Nat :=
  if TREELESS_VERSION ≤ version then before else after

end

/-- What holds of everything that an item can be holds of many of them. -/
theorem getMany_all {α : Type} {item : Parser α} {P : α → Prop}
    (hitem : ∀ bytes a rest, item bytes = some (a, rest) → P a) {n : Nat} {bytes rest : List UInt8}
    {xs : List α} (h : getMany item n bytes = some (xs, rest)) : ∀ x ∈ xs, P x := by
  induction n generalizing bytes rest xs with
  | zero =>
    obtain ⟨rfl, -⟩ := Prod.mk.inj (Option.some.inj h)
    exact fun _ hx => absurd hx List.not_mem_nil
  | succ n ih =>
    unfold getMany at h
    simp only [parser_bind, Option.bind_eq_some_iff] at h
    obtain ⟨first, hfirst, others, hothers, h⟩ := h
    obtain ⟨rfl, -⟩ := Prod.mk.inj (Option.some.inj h)
    exact List.forall_mem_cons.mpr ⟨hitem _ _ _ hfirst, ih hothers⟩

/-- An older file tells of no pages. -/
theorem getTables_pageless {version : Nat} (hold : version < TREELESS_VERSION)
    {bytes rest : List UInt8} {images : List TableImage}
    (h : getTables version bytes = some (images, rest)) : ∀ image ∈ images, image.pages = [] := by
  unfold getTables at h
  simp only [parser_bind, Option.bind_eq_some_iff] at h
  obtain ⟨_, -, _, -, h⟩ := h
  refine getMany_all (fun bytes image rest himage => ?_) h
  unfold getTable getPages at himage
  simp only [parser_bind, Option.bind_eq_some_iff] at himage
  obtain ⟨_, -, _, -, _, -, _, -, _, -, ⟨pages, _⟩, hpages, himage⟩ := himage
  obtain ⟨count, -, hpages⟩ := hpages
  rw [if_neg (Nat.not_le_of_lt hold), parser_bind] at hpages
  obtain ⟨rows, -, hpages⟩ := Option.bind_eq_some_iff.mp hpages
  obtain ⟨hnil, -⟩ := Prod.mk.inj (Option.some.inj hpages)
  rw [← (Prod.mk.inj (Option.some.inj himage)).1]
  exact hnil.symm

/-- The count of pages plays no part for an older file. -/
theorem wellMade_there {version before after : Nat} {db : Database} {blob : List UInt8} :
    WellMade version (pagesThere version before after) db blob ↔
      WellMade version before db blob := by
  unfold pagesThere
  split
  · exact Iff.rfl
  · rename_i hold
    have hmoved : ∀ limit limit', WellMade version limit db blob →
        WellMade version limit' db blob := by
      rintro limit limit' ⟨images, rest, hget, hmade, hdistinct⟩
      refine ⟨images, rest, hget, fun image himage => ?_, hdistinct⟩
      have hnone := getTables_pageless (Nat.lt_of_not_le hold) hget image himage
      refine ⟨(hmade image himage).check, (hmade image himage).columns, ?_⟩
      rw [hnone]
      exact fun _ hpage => absurd hpage List.not_mem_nil
    exact ⟨hmoved _ _, hmoved _ _⟩

section
variable {version : Nat} {blob : List UInt8} {engine : Engine} {p q : Pool Bytes}
  {store : Store Bytes} {loading : Loading}

/-- The same of a load from the pool. -/
theorem wellFormed_iff_wellMade (hserves : p.Serves store) (hselected : engine.Selected)
    (hbefore : engine.database.WellFormed p.pageCount)
    (haccepted : onPool (loadCurrentDatabase version ⟨blob, engine⟩) p = ((.ok (), loading), q)) :
    loading.engine.database.WellFormed (pagesThere version p.pageCount q.pageCount) ↔
      WellMade version p.pageCount engine.database blob := by
  obtain ⟨images, rest, count, hget, hcount, hgains⟩ :=
    loadCurrentDatabase_gains (l := ⟨blob, engine⟩) hserves hselected haccepted
  have hgrows : p.pageCount ≤ q.pageCount := by
    have h := (pageCount_grows p.pageCount).onPool (loadCurrentDatabase version ⟨blob, engine⟩)
      (Nat.le_refl _)
    rwa [haccepted] at h
  have hthere : p.pageCount ≤ pagesThere version p.pageCount q.pageCount := by
    unfold pagesThere
    split
    · exact Nat.le_refl _
    · exact hgrows
  have hlimit : version < TREELESS_VERSION →
      count ≤ pagesThere version p.pageCount q.pageCount := by
    intro hold
    unfold pagesThere
    rw [if_neg (Nat.not_le_of_lt hold)]
    exact hcount
  have hwell := @wellMade_there version p.pageCount q.pageCount engine.database blob
  refine ((hgains.wellFormed_iff (hbefore.mono hthere) hlimit).trans ?_).trans hwell
  constructor
  · rintro ⟨hmade, hdistinct⟩
    exact ⟨images, rest, hget, hmade, hdistinct⟩
  · rintro ⟨images', rest', hget', hmade, hdistinct⟩
    obtain ⟨rfl, -⟩ := Prod.mk.inj (Option.some.inj (hget.symm.trans hget'))
    exact ⟨hmade, hdistinct⟩

/-- What a load accepts is well formed exactly when the bytes are well made, and the walks over
the conditions of what is well formed come to an end. -/
theorem loadCurrentDatabase_wellFormed_iff (hserves : p.Serves store)
    (hselected : engine.Selected) (hbefore : engine.database.WellFormed p.pageCount)
    (haccepted : onPool (loadCurrentDatabase version ⟨blob, engine⟩) p = ((.ok (), loading), q)) :
    (loading.engine.database.WellFormed (pagesThere version p.pageCount q.pageCount) ↔
      WellMade version p.pageCount engine.database blob) ∧
    (loading.engine.database.WellFormed (pagesThere version p.pageCount q.pageCount) →
      ∀ table ∈ loading.engine.database.tables, ∀ cond, table.check = some cond → cond.Ends) := by
  refine ⟨wellFormed_iff_wellMade hserves hselected hbefore haccepted, ?_⟩
  intro hformed table htable cond hcond
  exact (hformed.checks table htable cond hcond).ends

end

/-! ### Catalogs that are accepted -/

/-- A table of one column with a CHECK. -/
def checkedTable (check : Condition) : CatalogNode where
  table := Name.ofBytes [116]
  cols := [{ name := Name.ofBytes [97], type := .TYPE_INT, size := 0, notNull := false,
             unique := false, primary := false, hasDefault := false, defaultValue := zeroValue }]
  check := some check

/-- The bytes of a database with that table. -/
def checkedBlob (check : Condition) : List UInt8 :=
  saveCurrentDatabase
    { freeSlot with
      tables := [checkedTable check]
      heaps := [clearHeap (Name.ofBytes [116])] }

/-- `NOT` of the comparison before it, or of itself. -/
def notCheck (left : Int32) : Condition where
  present := true
  root := 1
  nodes :=
    [{ kind := .COND_COMPARE, left := -1, right := -1,
       compare := { left := 0, op := .OP_IS_NULL, right := -1, subquery := -1 } },
     { kind := .COND_NOT, compare := noPredicate, left := left, right := -1 }]
  exprs :=
    [{ kind := .EXPR_COLUMN, op := .ARITH_ADD, left := -1, right := -1,
       column := Name.ofBytes [97], literal := zeroValue, slot := -1, type := .TYPE_INT }]

/-- The pool at the start serves a store. -/
theorem startPool_serves : startPool.Serves
    { count := startPool.pageCount, free := startPool.freeIds, body := startPool.contents.body } :=
  startPool_inOrder.serves fun _ hid => absurd hid List.not_mem_nil

/-- A new database is well-formed. -/
theorem freshEngine_wellFormed : freshEngine.database.WellFormed startPool.pageCount where
  checks _ htable := absurd htable List.not_mem_nil
  columns _ htable := absurd htable List.not_mem_nil
  tables := .nil
  pages _ hheap := absurd hheap List.not_mem_nil

/-- The load does not look where the edge of `NOT` leads to. -/
theorem checkedBlob_accepted (left : Int32) (hleft : left = 0 ∨ left = 1) :
    ∃ loading q, onPool (loadCurrentDatabase SAVE_VERSION ⟨checkedBlob (notCheck left), freshEngine⟩)
      startPool = ((.ok (), loading), q) := by
  have hanswer : (onPool (loadCurrentDatabase SAVE_VERSION
      ⟨checkedBlob (notCheck left), freshEngine⟩) startPool).1.1 = .ok () := by
    rcases hleft with rfl | rfl
    · decide +kernel
    · decide +kernel
  exact ⟨_, _, Prod.ext (Prod.ext hanswer rfl) rfl⟩

/-- The node of a CHECK with one NOT has itself or nothing below it. -/
theorem notCheck_children (left i : Int32) :
    (notCheck left).children i = if i = 1 then [left] else [] := by
  have hone : (1 : Int32).toInt.toNat = 1 := by decide
  unfold Condition.children Condition.node
  by_cases hneg : i < 0
  · rw [if_pos hneg, if_neg]
    rintro rfl
    exact absurd hneg (by decide)
  · rw [if_neg hneg]
    by_cases hi : i = 1
    · subst hi
      rfl
    · rw [if_neg hi]
      match hat : i.toInt.toNat with
      | 0 => rfl
      | 1 => exact absurd (toNat_inj hneg (by decide) (hat.trans hone.symm)) hi
      | n + 2 => rfl

/-- A CHECK with one NOT has no expression. -/
theorem notCheck_exprs (left i : Int32) : (notCheck left).exprs.children i = [] := by
  unfold ExprPool.children
  cases hnode : ExprPool.node (notCheck left).exprs i with
  | none => rfl
  | some node =>
    obtain ⟨-, hat⟩ := node_some hnode
    rw [List.mem_singleton.mp (List.mem_of_getElem? hat)]

/-- A NOT above another node is formed. -/
theorem notCheck_formed : (notCheck 0).Formed where
  root := rfl
  nodes i child hchild := by
    rw [notCheck_children] at hchild
    split at hchild
    · rw [List.mem_singleton.mp hchild]
      rfl
    · exact absurd hchild List.not_mem_nil
  operands node hnode hkind operand hoperand := by
    rcases List.mem_cons.mp hnode with rfl | hnode
    · rw [List.mem_singleton.mp hoperand]
      rfl
    · rw [List.mem_singleton.mp hnode] at hkind
      exact absurd hkind (by decide)
  exprs i child hchild := by
    rw [notCheck_exprs] at hchild
    exact absurd hchild List.not_mem_nil
  acyclic := by
    have hleaf : Acc (fun child i => child ∈ (notCheck 0).children i) 0 :=
      ⟨0, fun child hchild => absurd hchild (by rw [notCheck_children]; exact List.not_mem_nil)⟩
    refine ⟨fun i => ⟨i, fun child hchild => ?_⟩⟩
    rw [notCheck_children] at hchild
    split at hchild
    · rw [List.mem_singleton.mp hchild]
      exact hleaf
    · exact absurd hchild List.not_mem_nil
  exprsAcyclic := by
    refine ⟨fun i => ⟨i, fun child hchild => ?_⟩⟩
    rw [notCheck_exprs] at hchild
    exact absurd hchild List.not_mem_nil

/-- What the bytes of the table tell. -/
theorem checkedBlob_tells (left : Int32) (hleft : left = 0 ∨ left = 1) :
    ∃ rest, getTables SAVE_VERSION (checkedBlob (notCheck left)) =
      some ([{ name := Name.ofBytes [116], cols := (checkedTable (notCheck left)).cols,
               check := some (notCheck left), pages := [] }], rest) := by
  have htold : (getTables SAVE_VERSION (checkedBlob (notCheck left))).map Prod.fst =
      some [{ name := Name.ofBytes [116], cols := (checkedTable (notCheck left)).cols,
              check := some (notCheck left), pages := [] }] := by
    rcases hleft with rfl | rfl
    · decide +kernel
    · decide +kernel
  obtain ⟨⟨images, rest⟩, hread, rfl⟩ := Option.map_eq_some_iff.mp htold
  exact ⟨rest, hread⟩

/-- A new engine has selected its database. -/
theorem freshEngine_selected : freshEngine.Selected := Nat.zero_lt_succ _

/-- A table whose CHECK is formed is loaded well-formed. -/
theorem loadCurrentDatabase_wellFormed_one : ∃ loading q,
    onPool (loadCurrentDatabase SAVE_VERSION ⟨checkedBlob (notCheck 0), freshEngine⟩) startPool
      = ((.ok (), loading), q) ∧
    loading.engine.database.WellFormed (pagesThere SAVE_VERSION startPool.pageCount q.pageCount) := by
  obtain ⟨loading, q, haccepted⟩ := checkedBlob_accepted 0 (.inl rfl)
  obtain ⟨rest, htold⟩ := checkedBlob_tells 0 (.inl rfl)
  refine ⟨loading, q, haccepted, (loadCurrentDatabase_wellFormed_iff startPool_serves
    freshEngine_selected freshEngine_wellFormed haccepted).1.mpr ⟨_, rest, htold, ?_,
      List.pairwise_singleton _ _⟩⟩
  intro image himage
  rw [List.mem_singleton.mp himage]
  refine ⟨fun cond hcond => ?_, List.pairwise_singleton _ _,
    fun _ hpage => absurd hpage List.not_mem_nil⟩
  rw [← Option.some.inj hcond]
  exact notCheck_formed

/-- A CHECK that is the negation of itself is accepted. -/
theorem loadCurrentDatabase_circular : ∃ loading q,
    onPool (loadCurrentDatabase SAVE_VERSION ⟨checkedBlob (notCheck 1), freshEngine⟩) startPool
      = ((.ok (), loading), q) ∧
    ¬loading.engine.database.WellFormed
      (pagesThere SAVE_VERSION startPool.pageCount q.pageCount) := by
  obtain ⟨loading, q, haccepted⟩ := checkedBlob_accepted 1 (.inr rfl)
  obtain ⟨rest, htold⟩ := checkedBlob_tells 1 (.inr rfl)
  refine ⟨loading, q, haccepted, fun hformed => ?_⟩
  obtain ⟨images, rest', hread, hmade, -⟩ := (wellFormed_iff_wellMade startPool_serves
    freshEngine_selected freshEngine_wellFormed haccepted).mp hformed
  obtain ⟨rfl, -⟩ := Prod.mk.inj (Option.some.inj (hread.symm.trans htold))
  have hchecked : (notCheck 1).Formed := (hmade _ (List.mem_singleton.mpr rfl)).check _ rfl
  have hstep : (1 : Int32) ∈ (notCheck 1).children 1 := by decide
  exact hchecked.acyclic.irrefl.irrefl 1 hstep

end DatabaseEngine
