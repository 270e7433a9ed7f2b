import DatabaseEngine.Proofs.Index.Nodes

/-!
# `DatabaseEngine.Proofs.Index.Trees`: the tree in the pages of an index

What `Stored` says of the pages, taken apart at one child of a node (`Hole`) and put together again
with that child changed or cut in two.

* `Stored.frame`: only the pages of the tree matter.
* `family_hole`, `Hole.fill`, `Hole.graft`: a node around one of its children.
* `Family.cut`: a node cut in two.
* `Stored.chain`: the leaves of the tree are linked in order.
-/

set_option autoImplicit false

namespace DatabaseEngine

open Library

section
variable {type : ColType}

/-- The keys of a column are in a total order, in which different ones may be equal. -/
instance : Std.TransCmp (@ColumnKey.compare type) := by
  obtain ⟨compare, hcompare, h⟩ := compareKeys_lawful type
  refine { eq_swap := ?_, isLE_trans := ?_ }
  · rintro ⟨a, x, hx, rfl⟩ ⟨b, y, hy, rfl⟩
    show compareKeys (makeKey x) (makeKey y) = (compareKeys (makeKey y) (makeKey x)).swap
    rw [h x y hx hy, h y x hy hx]
    exact Std.OrientedCmp.eq_swap
  · rintro ⟨a, x, hx, rfl⟩ ⟨b, y, hy, rfl⟩ ⟨c, z, hz, rfl⟩
    show (compareKeys (makeKey x) (makeKey y)).isLE → (compareKeys (makeKey y) (makeKey z)).isLE →
      (compareKeys (makeKey x) (makeKey z)).isLE
    rw [h x y hx hy, h y z hy hz, h x z hx hz]
    exact Std.TransCmp.isLE_trans

/-! ### Pages -/

section
variable {s s' : Store Bytes} {id : Nat} {node : Node}

/-- A page that holds a node is allocated. -/
theorem Holds.isSome (h : Holds s id node) : (s.body id).isSome := by
  obtain ⟨page, hpage, -⟩ := h
  rw [hpage]
  rfl

/-- Only the page itself says which node it holds. -/
theorem Holds.congr (h : Holds s id node) (hbody : s'.body id = s.body id) : Holds s' id node := by
  obtain ⟨page, hpage, hnode⟩ := h
  exact ⟨page, hbody.trans hpage, hnode⟩

end

/-! ### Lists -/

section
variable {α : Type} (front back : List α) (x y : α)

/-- Inserting at the end of the front puts the entry between front and back. -/
theorem insertIdx_length_append : (front ++ back).insertIdx front.length x = front ++ x :: back := by
  induction front with
  | nil => rfl
  | cons z front ih =>
    rw [List.cons_append, List.length_cons, List.insertIdx_succ_cons, ih]
    rfl

/-- Changing the entry behind the middle one changes that entry only. -/
theorem modify_length_append (f : α → α) :
    (front ++ x :: y :: back).modify (front.length + 1) f = front ++ x :: f y :: back := by
  induction front with
  | nil => rfl
  | cons z front ih =>
    rw [List.cons_append, List.length_cons, List.modify_succ_cons, ih]
    rfl

end

/-! ### Children -/

section
variable {h : Nat} {P Q : Placing type h} {kids front back : List (ColumnTree type h × ColumnKey type)}
  {entries : List Entry} {first stop last : UInt32} {ids : List Nat}

/-- There is one entry for each child. -/
theorem kids_length (hkids : Kids P kids entries first stop ids) : entries.length = kids.length := by
  induction kids generalizing entries first ids with
  | nil =>
    rw [hkids.1]
    rfl
  | cons kid kids ih =>
    obtain ⟨entry, more, middle, front, back, rfl, -, -, -, hrest⟩ := hkids
    rw [List.length_cons, List.length_cons, ih hrest]

/-- The separators are the keys of the entries. -/
theorem kids_keys (hkids : Kids P kids entries first stop ids) :
    entries.map Entry.key = kids.map fun kid => kid.2.1 := by
  induction kids generalizing entries first ids with
  | nil =>
    rw [hkids.1]
    rfl
  | cons kid kids ih =>
    obtain ⟨entry, more, middle, front, back, rfl, hkey, -, -, hrest⟩ := hkids
    rw [List.map_cons, List.map_cons, hkey, ih hrest]

/-- Children in two groups are placed group by group. -/
theorem kids_append :
    Kids P (front ++ back) entries first stop ids ↔
      ∃ es es' middle a b, entries = es ++ es' ∧ ids = a ++ b ∧
        Kids P front es first middle a ∧ Kids P back es' middle stop b := by
  induction front generalizing entries first ids with
  | nil =>
    constructor
    · exact fun hkids => ⟨[], entries, first, [], ids, rfl, rfl, ⟨rfl, rfl, rfl⟩, hkids⟩
    · rintro ⟨es, es', middle, a, b, rfl, rfl, ⟨rfl, rfl, rfl⟩, hback⟩
      exact hback
  | cons kid front ih =>
    constructor
    · rintro ⟨entry, more, middle, x, y, rfl, hkey, rfl, hkid, hrest⟩
      obtain ⟨es, es', m, a, b, rfl, rfl, hfront, hback⟩ := ih.mp hrest
      exact ⟨entry :: es, es', m, x ++ a, b, rfl, (List.append_assoc ..).symm,
        ⟨entry, es, middle, x, a, rfl, hkey, rfl, hkid, hfront⟩, hback⟩
    · rintro ⟨es, es', m, a, b, rfl, rfl, ⟨entry, more, middle, x, y, rfl, hkey, rfl, hkid, hrest⟩,
        hback⟩
      exact ⟨entry, more ++ es', middle, x, y ++ b, rfl, hkey, List.append_assoc .., hkid,
        ih.mpr ⟨more, es', m, y, b, rfl, rfl, hrest, hback⟩⟩

/-- What is said of each child on its own pages. -/
theorem Kids.imp (hkids : Kids P kids entries first stop ids)
    (hPQ : ∀ kid id f l own, (∀ i ∈ own, i ∈ ids) → P kid id f l own → Q kid id f l own) :
    Kids Q kids entries first stop ids := by
  induction kids generalizing entries first ids with
  | nil => exact hkids
  | cons kid kids ih =>
    obtain ⟨entry, more, middle, x, y, rfl, hkey, rfl, hkid, hrest⟩ := hkids
    refine ⟨entry, more, middle, x, y, rfl, hkey, rfl, ?_, ?_⟩
    · exact hPQ _ _ _ _ _ (fun i hi => List.mem_append_left _ hi) hkid
    · refine ih hrest fun kid id f l own hown => hPQ kid id f l own fun i hi => ?_
      exact List.mem_append_right _ (hown i hi)

/-- A family stays one when each of its children does. -/
theorem Family.imp {t : ColumnTree type (h + 1)} (ht : Family P t entries last first stop ids)
    (hPQ : ∀ kid id f l own, (∀ i ∈ own, i ∈ ids) → P kid id f l own → Q kid id f l own) :
    Family Q t entries last first stop ids := by
  obtain ⟨middle, a, b, rfl, hkids, hlast⟩ := ht
  refine ⟨middle, a, b, rfl, hkids.imp fun kid id f l own hown => ?_, ?_⟩
  · exact hPQ kid id f l own fun i hi => List.mem_append_left _ (hown i hi)
  · exact hPQ _ _ _ _ _ (fun i hi => List.mem_append_right _ hi) hlast

end

/-! ### The chain of the leaves -/

/-- A chain in two parts hangs together at the page between them. -/
theorem leafChain_append {s : Store Bytes} {front back : List (List (ColumnKey type × UInt32))}
    {first stop : UInt32} :
    LeafChain s type (front ++ back) first stop ↔
      ∃ middle, LeafChain s type front first middle ∧ LeafChain s type back middle stop := by
  induction front generalizing first with
  | nil =>
    constructor
    · exact fun hback => ⟨first, rfl, hback⟩
    · rintro ⟨middle, rfl, hback⟩
      exact hback
  | cons l front ih =>
    constructor
    · rintro ⟨hfirst, next, hholds, hrest⟩
      obtain ⟨middle, hfront, hback⟩ := ih.mp hrest
      exact ⟨middle, ⟨hfirst, next, hholds, hfront⟩, hback⟩
    · rintro ⟨middle, ⟨hfirst, next, hholds, hfront⟩, hback⟩
      exact ⟨hfirst, next, hholds, ih.mpr ⟨middle, hfront, hback⟩⟩

/-! ### Trees -/

section
variable {s s' : Store Bytes} {h : Nat} {t : ColumnTree type h} {id : Nat} {first stop : UInt32}
  {ids : List Nat}

/-- Only the pages of the tree matter. -/
theorem Stored.frame (ht : Stored s type h t id first stop ids)
    (hbody : ∀ i ∈ ids, s'.body i = s.body i) : Stored s' type h t id first stop ids := by
  induction h generalizing id first stop ids with
  | zero =>
    obtain ⟨hfirst, rfl, hholds⟩ := ht
    exact ⟨hfirst, rfl, hholds.congr (hbody id List.mem_cons_self)⟩
  | succ h ih =>
    obtain ⟨entries, last, below, rfl, hholds, hfamily⟩ := ht
    refine ⟨entries, last, below, rfl, hholds.congr (hbody id List.mem_cons_self), ?_⟩
    refine hfamily.imp fun kid id f l own hown hkid => ih hkid fun i hi => ?_
    exact hbody i (List.mem_cons_of_mem _ (hown i hi))

/-- Writing other pages leaves a family in place. -/
theorem Family.frame {t : ColumnTree type (h + 1)} {entries : List Entry} {last : UInt32}
    (ht : Family (Stored s type h) t entries last first stop ids)
    (hbody : ∀ i ∈ ids, s'.body i = s.body i) :
    Family (Stored s' type h) t entries last first stop ids :=
  ht.imp fun _ _ _ _ _ hown hkid => hkid.frame fun i hi => hbody i (hown i hi)

/-- The leaves of the children are linked, if those of each one are. -/
theorem kids_chain {P : Placing type h} {kids : List (ColumnTree type h × ColumnKey type)}
    {entries : List Entry} (hkids : Kids P kids entries first stop ids)
    (hP : ∀ kid id f l own, (∀ i ∈ own, i ∈ ids) → P kid id f l own →
      LeafChain s type kid.leaves f l) :
    LeafChain s type ((kids.map Prod.fst).flatMap BTree.leaves) first stop := by
  induction kids generalizing entries first ids with
  | nil => exact hkids.2.1
  | cons kid kids ih =>
    obtain ⟨entry, more, middle, a, b, rfl, -, rfl, hkid, hrest⟩ := hkids
    rw [List.map_cons, List.flatMap_cons]
    refine leafChain_append.mpr ⟨middle, ?_, ih hrest fun kid id f l own hown => ?_⟩
    · exact hP _ _ _ _ _ (fun i hi => List.mem_append_left _ hi) hkid
    · exact hP kid id f l own fun i hi => List.mem_append_right _ (hown i hi)

/-- The leaves of a family's children are one chain. -/
theorem Family.chain {P : Placing type h} {t : ColumnTree type (h + 1)} {entries : List Entry}
    {last : UInt32} (ht : Family P t entries last first stop ids)
    (hP : ∀ kid id f l own, (∀ i ∈ own, i ∈ ids) → P kid id f l own →
      LeafChain s type kid.leaves f l) :
    LeafChain s type (t.children.flatMap BTree.leaves) first stop := by
  obtain ⟨middle, a, b, rfl, hkids, hlast⟩ := ht
  unfold BTree.children
  rw [List.flatMap_append, List.flatMap_singleton]
  refine leafChain_append.mpr ⟨middle, kids_chain hkids fun kid id f l own hown => ?_, ?_⟩
  · exact hP kid id f l own fun i hi => List.mem_append_left _ (hown i hi)
  · exact hP _ _ _ _ _ (fun i hi => List.mem_append_right _ hi) hlast

/-- The leaves of a tree are linked from its first one to what is behind its last one. -/
theorem Stored.chain (ht : Stored s type h t id first stop ids)
    (hlimit : ∀ i ∈ ids, i < INVALID_PAGE.toNat) : LeafChain s type t.leaves first stop := by
  induction h generalizing id first stop ids with
  | zero =>
    obtain ⟨rfl, rfl, hholds⟩ := ht
    have hid : id < INVALID_PAGE.toNat := hlimit id List.mem_cons_self
    have hnumber : (UInt32.ofNat id).toNat = id :=
      UInt32.toNat_ofNat_of_lt' (Nat.lt_trans hid (by decide))
    refine ⟨fun heq => ?_, stop, ?_, rfl⟩
    · rw [← heq, hnumber] at hid
      exact Nat.lt_irrefl _ hid
    · rw [hnumber]
      exact hholds
  | succ h ih =>
    obtain ⟨entries, last, below, rfl, -, hfamily⟩ := ht
    exact hfamily.chain fun kid id f l own hown hkid => ih hkid fun i hi =>
      hlimit i (List.mem_cons_of_mem _ (hown i hi))

/-- Every leaf has a page of its own. -/
theorem Stored.leaves_length (ht : Stored s type h t id first stop ids) :
    t.leaves.length ≤ ids.length := by
  induction h generalizing id first stop ids with
  | zero =>
    obtain ⟨-, rfl, -⟩ := ht
    exact Nat.le_refl 1
  | succ h ih =>
    obtain ⟨entries, last, below, rfl, -, middle, a, b, rfl, hkids, hlast⟩ := ht
    have hkid : ∀ {kids : List (ColumnTree type h × ColumnKey type)} {entries : List Entry}
        {first : UInt32} {a : List Nat}, Kids (Stored s type h) kids entries first middle a →
        ((kids.map Prod.fst).flatMap BTree.leaves).length ≤ a.length := by
      intro kids entries first a hkids
      induction kids generalizing entries first a with
      | nil => exact Nat.zero_le _
      | cons kid kids ihKids =>
        obtain ⟨entry, more, m, x, y, rfl, -, rfl, hstored, hothers⟩ := hkids
        have hown := ih hstored
        have hrest := ihKids hothers
        rw [List.map_cons, List.flatMap_cons, List.length_append, List.length_append]
        omega
    have hfront := hkid hkids
    have hback := ih hlast
    show ((t.1.map Prod.fst ++ [t.2]).flatMap BTree.leaves).length ≤ _
    rw [List.flatMap_append, List.flatMap_singleton, List.length_append, List.length_cons,
      List.length_append]
    omega

/-- Every page of the tree is there. -/
theorem Stored.isSome (ht : Stored s type h t id first stop ids) {i : Nat} (hi : i ∈ ids) :
    (s.body i).isSome := by
  induction h generalizing id first stop ids with
  | zero =>
    obtain ⟨-, rfl, hholds⟩ := ht
    rw [List.mem_singleton.mp hi]
    exact hholds.isSome
  | succ h ih =>
    obtain ⟨entries, last, below, rfl, hholds, middle, a, b, rfl, hkids, hlast⟩ := ht
    have hkid : ∀ {kids : List (ColumnTree type h × ColumnKey type)} {entries : List Entry}
        {first stop : UInt32} {ids : List Nat}, Kids (Stored s type h) kids entries first stop ids →
        i ∈ ids → (s.body i).isSome := by
      intro kids entries first stop ids hkids hi
      induction kids generalizing entries first ids with
      | nil =>
        rw [hkids.2.2] at hi
        exact absurd hi List.not_mem_nil
      | cons kid kids ihKids =>
        obtain ⟨entry, more, middle, x, y, rfl, hkey, rfl, hkid, hrest⟩ := hkids
        rcases List.mem_append.mp hi with hi | hi
        · exact ih hkid hi
        · exact ihKids hrest hi
    rcases List.mem_cons.mp hi with rfl | hi
    · exact hholds.isSome
    · rcases List.mem_append.mp hi with hi | hi
      · exact hkid hkids hi
      · exact ih hlast hi

/-- The root's page is one of the tree's pages. -/
theorem Stored.root_mem (ht : Stored s type h t id first stop ids) : id ∈ ids := by
  cases h with
  | zero =>
    obtain ⟨-, rfl, -⟩ := ht
    exact List.mem_cons_self
  | succ h =>
    obtain ⟨entries, last, below, rfl, -⟩ := ht
    exact List.mem_cons_self

/-- A tree has more pages than levels. -/
theorem Stored.height (ht : Stored s type h t id first stop ids) : h < ids.length := by
  induction h generalizing id first stop ids with
  | zero =>
    obtain ⟨-, rfl, -⟩ := ht
    exact Nat.one_pos
  | succ h ih =>
    obtain ⟨entries, last, below, rfl, -, middle, a, b, rfl, -, hlast⟩ := ht
    have hb := ih hlast
    rw [List.length_cons, List.length_append]
    omega

/-! ### A node around one of its children -/

section
variable {P Q : Placing type h} {front back : List (ColumnTree type h × ColumnKey type)}
  {lastTree kid right : ColumnTree type h} {entries : List Entry} {last f l : UInt32}
  {before behind : List Nat}

/-- What lies behind a child: nothing, if it is the last one, or its separator and the others. -/
def Behind (P : Placing type h) (back : List (ColumnTree type h × ColumnKey type))
    (lastTree : ColumnTree type h) (entries : List Entry) (last f stop : UInt32)
    (ids : List Nat) : Prop :=
  match back with
  | [] => entries = [] ∧ f = stop ∧ ids = []
  | old :: back => ∃ entry more, entries = entry :: more ∧ entry.key = old.2.1 ∧
      Family P (back, lastTree) more last f stop ids

/-- A node without one of its children, whose first leaf is `f` and behind whose last one is `l`. -/
structure Hole (P : Placing type h) (front back : List (ColumnTree type h × ColumnKey type))
    (lastTree : ColumnTree type h) (node : Node) (first f l stop : UInt32)
    (before behind : List Nat) : Prop where
  split : ∃ es es', node.entries = es ++ es' ∧ Kids P front es first f before ∧
    Behind P back lastTree es' node.lastChild l stop behind

/-- A family with a hole stays one when each of its children does. -/
theorem Hole.imp {node : Node} (hole : Hole P front back lastTree node first f l stop before behind)
    (hPQ : ∀ kid id f l own, (∀ i ∈ own, i ∈ before ++ behind) → P kid id f l own →
      Q kid id f l own) :
    Hole Q front back lastTree node first f l stop before behind := by
  obtain ⟨es, es', hentries, hfront, hbehind⟩ := hole.split
  refine ⟨es, es', hentries, hfront.imp fun kid id f l own hown => ?_, ?_⟩
  · exact hPQ kid id f l own fun i hi => List.mem_append_left _ (hown i hi)
  · cases back with
    | nil => exact hbehind
    | cons old back =>
      obtain ⟨entry, more, hmore, hkey, hfamily⟩ := hbehind
      refine ⟨entry, more, hmore, hkey, hfamily.imp fun kid id f l own hown => ?_⟩
      exact hPQ kid id f l own fun i hi => List.mem_append_right _ (hown i hi)

/-- A node with a hole has an entry for each child beside it. -/
theorem Hole.length {node : Node}
    (hole : Hole P front back lastTree node first f l stop before behind) :
    node.entries.length = front.length + back.length := by
  obtain ⟨es, es', hentries, hfront, hbehind⟩ := hole.split
  rw [hentries, List.length_append, kids_length hfront]
  cases back with
  | nil => rw [hbehind.1]; rfl
  | cons old back =>
    obtain ⟨entry, more, rfl, -, middle, a, b, -, hkids, -⟩ := hbehind
    rw [List.length_cons, kids_length hkids]
    rfl

/-- A node is one of its children and what is around it. -/
theorem family_hole (hfamily : Family P (front ++ back, lastTree) entries last first stop ids) :
    ∃ f l before own behind, ids = before ++ (own ++ behind) ∧
      Hole P front back lastTree (innerNode type entries last) first f l stop before behind ∧
      P (BTree.pick back lastTree) ((innerNode type entries last).child front.length).toNat f l
        own := by
  obtain ⟨middle, a, b, rfl, hkids, hlast⟩ := hfamily
  obtain ⟨es, es', f, x, y, rfl, rfl, hfront, hback⟩ := kids_append.mp hkids
  have hlength := kids_length hfront
  cases back with
  | nil =>
    obtain ⟨rfl, rfl, rfl⟩ := hback
    refine ⟨f, stop, x, b, [], by simp, ⟨es, [], rfl, hfront, rfl, rfl, rfl⟩, ?_⟩
    have hchild : (innerNode type (es ++ []) last).child front.length = last := by
      have hnone : (es ++ [])[front.length]? = none := by
        rw [List.append_nil]
        exact List.getElem?_eq_none (by omega)
      unfold Node.child innerNode
      rw [hnone]
    rw [hchild]
    exact hlast
  | cons old back =>
    obtain ⟨entry, more, l, own, z, rfl, hkey, rfl, hkid, hrest⟩ := hback
    refine ⟨f, l, x, own, z ++ b, by simp, ⟨es, entry :: more, rfl, hfront, entry, more, rfl, hkey,
      middle, z, b, rfl, hrest, hlast⟩, ?_⟩
    have hchild : (innerNode type (es ++ entry :: more) last).child front.length = entry.payload := by
      unfold Node.child innerNode
      rw [← hlength, List.getElem?_append_right (Nat.le_refl _), Nat.sub_self]
      rfl
    rw [hchild]
    exact hkid

/-- The node with another tree in the place of the child. -/
theorem Hole.fill {node : Node} {own : List Nat}
    (hole : Hole P front back lastTree node first f l stop before behind)
    (hkid : P kid (node.child front.length).toNat f l own) :
    Family P (BTree.replace front back lastTree kid) node.entries node.lastChild first stop
      (before ++ (own ++ behind)) := by
  obtain ⟨es, es', hentries, hfront, hbehind⟩ := hole.split
  have hlength := kids_length hfront
  cases back with
  | nil =>
    obtain ⟨rfl, rfl, rfl⟩ := hbehind
    rw [List.append_nil] at hentries
    have hchild : node.child front.length = node.lastChild := by
      unfold Node.child
      rw [hentries, List.getElem?_eq_none (by omega)]
    rw [hchild] at hkid
    rw [hentries, List.append_nil]
    exact ⟨f, before, own, rfl, hfront, hkid⟩
  | cons old back =>
    obtain ⟨entry, more, rfl, hkey, middle, a, b, rfl, hrest, hlast⟩ := hbehind
    have hchild : node.child front.length = entry.payload := by
      unfold Node.child
      rw [hentries, ← hlength, List.getElem?_append_right (Nat.le_refl _), Nat.sub_self]
      rfl
    rw [hchild] at hkid
    rw [hentries]
    refine ⟨middle, before ++ (own ++ a), b, by simp, ?_, hlast⟩
    exact kids_append.mpr ⟨es, entry :: more, f, before, own ++ a, rfl, rfl, hfront, entry, more, l,
      own, a, rfl, hkey, rfl, hkid, hrest⟩

/-- The node with two trees in the place of the child. -/
theorem Hole.graft {node : Node} {own own' : List Nat} {m : UInt32} {separator : ColumnKey type}
    {rightId : Nat} (hole : Hole P front back lastTree node first f l stop before behind)
    (hkid : P kid (node.child front.length).toNat f m own) (hright : P right rightId m l own')
    (hid : rightId < 2 ^ 32) :
    Family P (BTree.graft front back lastTree kid separator right)
      (node.adopt front.length separator.1 rightId).entries
      (node.adopt front.length separator.1 rightId).lastChild first stop
      (before ++ ((own ++ own') ++ behind)) := by
  obtain ⟨es, es', hentries, hfront, hbehind⟩ := hole.split
  have hlength := kids_length hfront
  have hnumber : (UInt32.ofNat rightId).toNat = rightId := UInt32.toNat_ofNat_of_lt' hid
  cases back with
  | nil =>
    obtain ⟨rfl, rfl, rfl⟩ := hbehind
    rw [List.append_nil] at hentries
    have hadopt : node.adopt front.length separator.1 rightId
        = { node with
            entries := es ++ [{ payload := node.child front.length, key := separator.1 }],
            lastChild := UInt32.ofNat rightId } := by
      unfold Node.adopt
      rw [hentries, if_neg (by omega), ← hlength, List.insertIdx_length_self]
    rw [hadopt, List.append_nil]
    refine ⟨m, before ++ own, own', by simp, ?_, ?_⟩
    · exact kids_append.mpr ⟨es, _, f, before, own, rfl, rfl, hfront, _, [], m, own, [], rfl, rfl,
        (List.append_nil _).symm, hkid, rfl, rfl, rfl⟩
    · show P right (UInt32.ofNat rightId).toNat m l own'
      rw [hnumber]
      exact hright
  | cons old back =>
    obtain ⟨entry, more, rfl, hkey, middle, a, b, rfl, hrest, hlast⟩ := hbehind
    have hadopt : node.adopt front.length separator.1 rightId
        = { node with
            entries := es ++ { payload := node.child front.length, key := separator.1 } ::
              { entry with payload := UInt32.ofNat rightId } :: more } := by
      unfold Node.adopt
      have hlt : front.length < (es ++ entry :: more).length := by
        rw [List.length_append, List.length_cons]
        omega
      rw [hentries, if_pos hlt, ← hlength, insertIdx_length_append, modify_length_append]
    rw [hadopt]
    refine ⟨middle, before ++ ((own ++ own') ++ a), b, by simp, ?_, hlast⟩
    exact kids_append.mpr ⟨es, _, f, before, (own ++ own') ++ a, rfl, rfl, hfront, _, _, m, own,
      own' ++ a, rfl, rfl, List.append_assoc .., hkid, _, more, l, own', a, rfl, hkey, rfl, by
        show P right (UInt32.ofNat rightId).toNat m l own'
        rw [hnumber]
        exact hright, hrest⟩

/-- The leaves behind the child are linked. -/
theorem Hole.chain {node : Node}
    (hole : Hole P front back lastTree node first f l stop before behind)
    (hP : ∀ kid id f l own, (∀ i ∈ own, i ∈ behind) → P kid id f l own →
      LeafChain s type kid.leaves f l) :
    LeafChain s type ((BTree.rest back lastTree).flatMap BTree.leaves) l stop := by
  obtain ⟨es, es', -, -, hbehind⟩ := hole.split
  cases back with
  | nil => exact hbehind.2.1
  | cons old back =>
    obtain ⟨entry, more, -, -, hfamily⟩ := hbehind
    exact hfamily.chain hP

/-- The entries of a node have keys of the column. -/
theorem Family.keyed {t : ColumnTree type (h + 1)}
    (ht : Family P t entries last first stop ids) : ∀ entry ∈ entries, Keyed type entry.key := by
  obtain ⟨middle, a, b, -, hkids, -⟩ := ht
  intro entry hentry
  have hkey : entry.key ∈ entries.map Entry.key := List.mem_map_of_mem hentry
  rw [kids_keys hkids] at hkey
  obtain ⟨kid, -, heq⟩ := List.mem_map.mp hkey
  exact heq ▸ kid.2.2

/-- A node has as many entries as its tree. -/
theorem Family.length {t : ColumnTree type (h + 1)}
    (ht : Family P t entries last first stop ids) : entries.length = t.1.length := by
  obtain ⟨middle, a, b, -, hkids, -⟩ := ht
  exact kids_length hkids

/-- A node cut at one of its separators. -/
theorem Hole.cut {old : ColumnTree type h × ColumnKey type} {node : Node} {own : List Nat}
    (hole : Hole P front (old :: back) lastTree node first f l stop before behind)
    (hkid : P old.1 (node.child front.length).toNat f l own) :
    Family P (front, old.1) (node.entries.take front.length) (node.child front.length) first l
        (before ++ own) ∧
      Family P (back, lastTree) (node.entries.drop (front.length + 1)) node.lastChild l stop
        behind ∧
      ∃ entry, (node.entries.drop front.length).head? = some entry ∧ entry.key = old.2.1 := by
  obtain ⟨es, es', hentries, hfront, entry, more, rfl, hkey, hrest⟩ := hole.split
  have hlength := kids_length hfront
  rw [hentries]
  refine ⟨⟨f, before, own, rfl, ?_, hkid⟩, ?_, entry, ?_, hkey⟩
  · rw [← hlength, List.take_left']
    · exact hfront
    · rfl
  · rw [← hlength, ← List.drop_drop, List.drop_left']
    · exact hrest
    · rfl
  · rw [← hlength, List.drop_left']
    · rfl
    · rfl

/-- A node cut at the separator in its middle. -/
theorem Family.cut {t : ColumnTree type (h + 1)} {old : ColumnTree type h × ColumnKey type}
    (ht : Family P t entries last first stop ids) (hdrop : t.1.drop (t.1.length / 2) = old :: back) :
    ∃ m a b, ids = a ++ b ∧
      Family P (t.1.take (t.1.length / 2), old.1) (entries.take (entries.length / 2))
        ((innerNode type entries last).child (entries.length / 2)) first m a ∧
      Family P (back, t.2) (entries.drop (entries.length / 2 + 1)) last m stop b ∧
      ∃ entry, (entries.drop (entries.length / 2)).head? = some entry ∧ entry.key = old.2.1 := by
  have hlength := ht.length
  have hfront : (t.1.take (t.1.length / 2)).length = entries.length / 2 := by
    rw [List.length_take, hlength]
    omega
  have happ : t.1.take (t.1.length / 2) ++ old :: back = t.1 := by
    rw [← hdrop, List.take_append_drop]
  have hsplit : Family P (t.1.take (t.1.length / 2) ++ old :: back, t.2) entries last first stop
      ids := by
    rw [happ]
    exact ht
  obtain ⟨f, m, before, own, behind, rfl, hole, hkid⟩ := family_hole hsplit
  obtain ⟨hleft, hright, hseparator⟩ := hole.cut hkid
  rw [hfront] at hleft hright hseparator
  exact ⟨m, before ++ own, behind, (List.append_assoc ..).symm, hleft, hright, hseparator⟩

end

end

/-! ### The place of a key -/

section
variable {h : Nat} {P : Placing type h}

/-- In a sorted leaf the lower bound counts the entries before the key. -/
theorem lowerBound_leaf {l : List (ColumnKey type × UInt32)} (key : ColumnKey type)
    (hl : l.Pairwise fun a b => BTree.AtMost ColumnKey.compare a.1 b.1) :
    lowerBound (l.map leafEntry) key.1
      = (l.takeWhile fun e => ColumnKey.compare e.1 key = .lt).length := by
  rw [lowerBound_eq, List.takeWhile_map, List.length_map]
  · rfl
  · rw [List.pairwise_map]
    exact hl.imp fun hab hlt => BTree.AtMost.lt_of_lt (c := key) hab hlt

/-- The entry goes where the tree says. -/
theorem insertIdx_leaf {l : List (ColumnKey type × UInt32)} (e : ColumnKey type × UInt32)
    (hl : l.Pairwise fun a b => BTree.AtMost ColumnKey.compare a.1 b.1) :
    (l.map leafEntry).insertIdx (lowerBound (l.map leafEntry) e.1.1) (leafEntry e)
      = (BTree.enter ColumnKey.compare e l).map leafEntry := by
  have hsplit := List.takeWhile_append_dropWhile
    (p := fun x : ColumnKey type × UInt32 => decide (ColumnKey.compare x.1 e.1 = .lt)) (l := l)
  rw [lowerBound_leaf e.1 hl, BTree.enter_eq, List.map_append, List.map_cons]
  conv => lhs; rw [← hsplit, List.map_append]
  have hlength := @List.length_map _ _ (l.takeWhile fun x => decide (ColumnKey.compare x.1 e.1 = .lt))
    leafEntry
  rw [hsplit, ← hlength, insertIdx_length_append]

/-- The child is the one that the tree picks. -/
theorem lowerBound_inner {t : ColumnTree type (h + 1)} {entries : List Entry} {f stop : UInt32}
    {ids : List Nat} (key : ColumnKey type) (ht : t.Sorted ColumnKey.compare)
    (hkids : Kids P t.1 entries f stop ids) :
    lowerBound entries key.1 = (BTree.below ColumnKey.compare key t.1).length := by
  have hkeys := kids_keys hkids
  have hsorted : (t.1.map fun kid => kid.2).Pairwise (BTree.AtMost ColumnKey.compare) :=
    ht.sublist (BTree.separators_sublist t)
  have hentries : (entries.map Entry.key).Pairwise fun a b =>
      compareKeys b key.1 = .lt → compareKeys a key.1 = .lt := by
    rw [hkeys, List.pairwise_map]
    exact (List.pairwise_map.mp hsorted).imp fun hab hlt => BTree.AtMost.lt_of_lt (c := key) hab hlt
  rw [lowerBound_eq (List.pairwise_map.mp hentries)]
  have hwalk : ((entries.map Entry.key).takeWhile fun k => compareKeys k key.1 = .lt).length
      = ((t.1.map fun kid => kid.2.1).takeWhile fun k => compareKeys k key.1 = .lt).length := by
    rw [hkeys]
  rw [List.takeWhile_map, List.takeWhile_map, List.length_map, List.length_map] at hwalk
  exact hwalk

end

end

end DatabaseEngine
