import Mathlib.Data.List.Sort
import Mathlib.Data.List.TakeWhile
import Mathlib.Algebra.Order.Ring.Nat
import Mathlib.Tactic.Ring

/-!
# `DatabaseEngine.Library.SearchTree`: B+ trees

A tree of height `h` has all its leaves `h` levels below its root. A leaf is its entries, keys with
values, and an inner node is its children, each but the last with the separator behind it. Keys may
repeat, and a comparison may call different keys equal.

`insert` puts an entry before those that are not below it. A node that comes to hold `cap` entries
or separators is cut in two, and the key between the halves goes up.

* `entries_insert`: what a tree holds after an insertion.
* `sorted_insert`, `balanced_insert`: what an insertion keeps.
* `entries_seek`: what the leaves before the one that is sought hold is below the key.
* `Balanced.length_entries`: what a tree holds is exponential in its height.
* `Lawful.insertAll`: after a run of insertions the leaves hold what was inserted, in order.
-/

set_option autoImplicit false

namespace Library

/-- A tree with `h` levels above its leaves. -/
def BTree (κ ν : Type) : Nat → Type
  | 0 => List (κ × ν)
  | h + 1 => List (BTree κ ν h × κ) × BTree κ ν h

namespace BTree

variable {κ ν : Type}

/-- In the order of a comparison, `b` is not below `a`. -/
def AtMost (cmp : κ → κ → Ordering) (a b : κ) : Prop := cmp b a ≠ .lt

instance (cmp : κ → κ → Ordering) : DecidableRel (AtMost cmp) := fun a b =>
  inferInstanceAs (Decidable (cmp b a ≠ .lt))

/-! ### What is in a tree -/

/-- The subtrees below the root, from left to right. -/
def children {h : Nat} (t : BTree κ ν (h + 1)) : List (BTree κ ν h) := t.1.map Prod.fst ++ [t.2]

/-- The entries of the leaves, from left to right. -/
def entries : {h : Nat} → BTree κ ν h → List (κ × ν)
  | 0, l => l
  | _ + 1, t => (children t).flatMap entries

/-- The leaves, from left to right. -/
def leaves : {h : Nat} → BTree κ ν h → List (List (κ × ν))
  | 0, l => [l]
  | _ + 1, t => (children t).flatMap leaves

/-- Every key of the leaves, and every separator where it stands between them. -/
def keys : {h : Nat} → BTree κ ν h → List κ
  | 0, (l : List (κ × ν)) => l.map Prod.fst
  | _ + 1, t => t.1.flatMap (fun kid => keys kid.1 ++ [kid.2]) ++ keys t.2

/-- The keys of the leaves are in order, and so are the separators among them. -/
def Sorted (cmp : κ → κ → Ordering) {h : Nat} (t : BTree κ ν h) : Prop :=
  t.keys.Pairwise (AtMost cmp)

/-- How many entries or separators the root holds. -/
def size : {h : Nat} → BTree κ ν h → Nat
  | 0, (l : List (κ × ν)) => l.length
  | _ + 1, t => t.1.length

/-- No node is full, and every node but the root holds `m` entries or separators. -/
def Balanced (m cap : Nat) : {h : Nat} → BTree κ ν h → Prop
  | 0, (l : List (κ × ν)) => l.length < cap
  | _ + 1, t => t.1.length < cap ∧ ∀ kid ∈ children t, m ≤ kid.size ∧ Balanced m cap kid

/-! ### Going down -/

section
variable {h : Nat} (cmp : κ → κ → Ordering) (k : κ) (kids : List (BTree κ ν h × κ))

/-- The children whose separators are below a key. -/
def below : List (BTree κ ν h × κ) := kids.takeWhile fun kid => cmp kid.2 k = .lt

/-- The children from the first separator on that is not below the key. -/
def notBelow : List (BTree κ ν h × κ) := kids.dropWhile fun kid => cmp kid.2 k = .lt

end

section
variable {h : Nat} (front back : List (BTree κ ν h × κ)) (last kid : BTree κ ν h)

/-- The child behind `front`, where `back` and `last` are left. -/
def pick : BTree κ ν h :=
  match back with
  | [] => last
  | kid :: _ => kid.1

/-- The children behind that one. -/
def rest : List (BTree κ ν h) :=
  match back with
  | [] => []
  | _ :: back => back.map Prod.fst ++ [last]

/-- The node with another tree in the place of that child. -/
def replace : BTree κ ν (h + 1) :=
  match back with
  | [] => (front, kid)
  | old :: back => (front ++ (kid, old.2) :: back, last)

/-- The node with two trees in the place of that child, and a separator between them. -/
def graft (s : κ) (right : BTree κ ν h) : BTree κ ν (h + 1) :=
  match back with
  | [] => (front ++ [(kid, s)], right)
  | old :: back => (front ++ (kid, s) :: (right, old.2) :: back, last)

end

/-- The leaves from the one on that would hold the first key not below `k`. -/
def seek (cmp : κ → κ → Ordering) (k : κ) : {h : Nat} → BTree κ ν h → List (List (κ × ν))
  | 0, l => [l]
  | _ + 1, t =>
    seek cmp k (pick (notBelow cmp k t.1) t.2) ++ (rest (notBelow cmp k t.1) t.2).flatMap leaves

/-! ### Growing -/

/-- An entry put before the first one that is not below it. -/
def enter (cmp : κ → κ → Ordering) (e : κ × ν) (l : List (κ × ν)) : List (κ × ν) :=
  l.orderedInsert (fun a b => AtMost cmp a.1 b.1) e

/-- What becomes of a tree: a tree, and what was cut off to its right, with the key between. -/
abbrev Growth (κ ν : Type) (h : Nat) : Type := BTree κ ν h × Option (κ × BTree κ ν h)

/-- A leaf, cut in half if it is full. -/
def cutLeaf (cap : Nat) (l : List (κ × ν)) : Growth κ ν 0 :=
  if l.length = cap then
    match l.drop (cap / 2) with
    | [] => (l, none)
    | e :: right => (l.take (cap / 2), some (e.1, e :: right))
  else (l, none)

section
variable {h : Nat}

/-- An inner node, cut at its middle separator if it is full. -/
def cutInner (cap : Nat) (t : BTree κ ν (h + 1)) : Growth κ ν (h + 1) :=
  if t.1.length = cap then
    match t.1.drop (t.1.length / 2) with
    | [] => (t, none)
    | kid :: right => ((t.1.take (t.1.length / 2), kid.1), some (kid.2, (right, t.2)))
  else (t, none)

end

/-- Puts an entry into a tree. -/
def insert (cmp : κ → κ → Ordering) (cap : Nat) (e : κ × ν) :
    {h : Nat} → BTree κ ν h → Growth κ ν h
  | 0, l => cutLeaf cap (enter cmp e l)
  | _ + 1, t =>
    match insert cmp cap e (pick (notBelow cmp e.1 t.1) t.2) with
    | (kid, none) => (replace (below cmp e.1 t.1) (notBelow cmp e.1 t.1) t.2 kid, none)
    | (kid, some cut) =>
      cutInner cap (graft (below cmp e.1 t.1) (notBelow cmp e.1 t.1) t.2 kid cut.1 cut.2)

/-- A tree of some height. -/
abbrev Root (κ ν : Type) : Type := Σ h, BTree κ ν h

/-- An insertion at the root: the tree gains a level when the root is cut. -/
def insertRoot (cmp : κ → κ → Ordering) (cap : Nat) (e : κ × ν) (t : Root κ ν) : Root κ ν :=
  match insert cmp cap e t.2 with
  | (kid, none) => ⟨t.1, kid⟩
  | (kid, some cut) => ⟨t.1 + 1, ([(kid, cut.1)], cut.2)⟩

namespace Growth

variable {h : Nat}

/-- What both parts hold. -/
def entries (g : Growth κ ν h) : List (κ × ν) :=
  match g.2 with
  | none => BTree.entries g.1
  | some cut => BTree.entries g.1 ++ BTree.entries cut.2

/-- The keys of what has grown, those of both halves if it was cut. -/
def keys (g : Growth κ ν h) : List κ :=
  match g.2 with
  | none => BTree.keys g.1
  | some cut => BTree.keys g.1 ++ cut.1 :: BTree.keys cut.2

/-- A tree that was not cut has its own entries. -/
@[simp] theorem entries_uncut (t : BTree κ ν h) : entries (t, none) = t.entries := rfl

/-- A tree that was not cut has its own keys. -/
@[simp] theorem keys_uncut (t : BTree κ ν h) : keys (t, none) = t.keys := rfl

/-- The entries of the two trees that one was cut into. -/
theorem entries_cut (t : BTree κ ν h) (s : κ) (right : BTree κ ν h) :
    entries (t, some (s, right)) = t.entries ++ right.entries := rfl

/-- The keys of the two trees that one was cut into, with the separator between. -/
theorem keys_cut (t : BTree κ ν h) (s : κ) (right : BTree κ ν h) :
    keys (t, some (s, right)) = t.keys ++ s :: right.keys := rfl

/-- What becomes of a balanced tree: one that is as large, or two, in each of which there is
enough. -/
def Balanced (m cap n : Nat) (g : Growth κ ν h) : Prop :=
  g.1.Balanced m cap ∧
    match g.2 with
    | none => n ≤ g.1.size
    | some cut => m ≤ g.1.size ∧ m ≤ cut.2.size ∧ cut.2.Balanced m cap

end Growth

/-! ### The order -/

section Order
variable {cmp : κ → κ → Ordering} [Std.TransCmp cmp] {a b c : κ}

/-- What is below is at most. -/
theorem AtMost.of_lt (h : cmp a b = .lt) : AtMost cmp a b :=
  fun hlt => Std.OrientedCmp.not_lt_of_lt h hlt

/-- `AtMost` as the order has it. -/
theorem AtMost.isLE (h : AtMost cmp a b) : (cmp a b).isLE :=
  Std.OrientedCmp.isLE_of_isGE (Ordering.isGE_iff_ne_lt.mpr h)

/-- `AtMost` is transitive. -/
theorem AtMost.trans (hab : AtMost cmp a b) (hbc : AtMost cmp b c) : AtMost cmp a c :=
  fun hlt => hbc (Std.TransCmp.lt_of_lt_of_isLE hlt hab.isLE)

/-- `AtMost` is total. -/
theorem AtMost.total (a b : κ) : AtMost cmp a b ∨ AtMost cmp b a := by
  by_cases h : cmp b a = .lt
  · exact Or.inr (.of_lt h)
  · exact Or.inl h

/-- What is below something is below all that is above it. -/
theorem AtMost.lt_of_lt (hab : AtMost cmp a b) (hbc : cmp b c = .lt) : cmp a c = .lt :=
  Std.TransCmp.lt_of_isLE_of_lt hab.isLE hbc

end Order

/-! ### Entering a list -/

section Enter
variable {cmp : κ → κ → Ordering} {e : κ × ν}

/-- An entry goes in front of the first that is not below it. -/
theorem enter_cons_of_atMost {x : κ × ν} {l : List (κ × ν)} (h : AtMost cmp e.1 x.1) :
    enter cmp e (x :: l) = e :: x :: l :=
  List.orderedInsert_cons_of_le (fun a b : κ × ν => AtMost cmp a.1 b.1) l h

/-- An entry goes behind those that are below it. -/
theorem enter_cons_of_lt {x : κ × ν} {l : List (κ × ν)} (h : cmp x.1 e.1 = .lt) :
    enter cmp e (x :: l) = x :: enter cmp e l :=
  List.orderedInsert_of_not_le (fun a b : κ × ν => AtMost cmp a.1 b.1) l fun hle => hle h

/-- What is in the list afterwards. -/
theorem mem_enter {x : κ × ν} {l : List (κ × ν)} : x ∈ enter cmp e l ↔ x = e ∨ x ∈ l :=
  List.mem_orderedInsert _

/-- The list is longer by one. -/
theorem length_enter (l : List (κ × ν)) : (enter cmp e l).length = l.length + 1 :=
  List.orderedInsert_length _ _ _

/-- The place of an entry is behind those that are below it. -/
theorem enter_eq (l : List (κ × ν)) :
    enter cmp e l
      = l.takeWhile (fun x => cmp x.1 e.1 = .lt)
        ++ e :: l.dropWhile fun x => cmp x.1 e.1 = .lt := by
  induction l with
  | nil => rfl
  | cons x l ih =>
    by_cases hx : cmp x.1 e.1 = .lt
    · rw [enter_cons_of_lt hx, ih, List.takeWhile_cons_of_pos (by simpa using hx),
        List.dropWhile_cons_of_pos (by simpa using hx)]
      rfl
    · rw [enter_cons_of_atMost hx, List.takeWhile_cons_of_neg (by simpa using hx),
        List.dropWhile_cons_of_neg (by simpa using hx)]
      rfl

/-- Only the part of a list matters that lies around the key. -/
theorem enter_append {front l back : List (κ × ν)} (hfront : ∀ x ∈ front, cmp x.1 e.1 = .lt)
    (hback : ∀ x ∈ back, AtMost cmp e.1 x.1) :
    enter cmp e (front ++ (l ++ back)) = front ++ (enter cmp e l ++ back) := by
  induction front with
  | nil =>
    show enter cmp e (l ++ back) = enter cmp e l ++ back
    induction l with
    | nil =>
      cases back with
      | nil => rfl
      | cons x back => exact enter_cons_of_atMost (hback x List.mem_cons_self)
    | cons x l ih =>
      by_cases hx : cmp x.1 e.1 = .lt
      · rw [List.cons_append, enter_cons_of_lt hx, enter_cons_of_lt hx, ih, List.cons_append]
      · rw [List.cons_append, enter_cons_of_atMost hx, enter_cons_of_atMost hx]
        rfl
  | cons x front ih =>
    rw [List.cons_append, enter_cons_of_lt (hfront x List.mem_cons_self),
      ih fun y hy => hfront y (List.mem_cons_of_mem _ hy), List.cons_append]

end Enter

/-! ### The node around a child -/

section Around
variable {cmp : κ → κ → Ordering} {k : κ} {h : Nat} {front back : List (BTree κ ν h × κ)}
  {last kid right : BTree κ ν h} {s : κ}

/-- The keys of some children, each with its separator. -/
def kidKeys (kids : List (BTree κ ν h × κ)) : List κ :=
  kids.flatMap fun kid => kid.1.keys ++ [kid.2]

/-- The keys behind a child, from its separator on. -/
def restKeys (back : List (BTree κ ν h × κ)) (last : BTree κ ν h) : List κ :=
  match back with
  | [] => []
  | kid :: back => kid.2 :: (kidKeys back ++ last.keys)

/-- The keys of a node of which one child was replaced. -/
theorem keys_replace :
    (replace front back last kid).keys = kidKeys front ++ (kid.keys ++ restKeys back last) := by
  cases back with
  | nil => simp [replace, keys, kidKeys, restKeys]
  | cons old back => simp [replace, keys, kidKeys, restKeys]

/-- The keys of a node of which a child was cut in two. -/
theorem keys_graft :
    (graft front back last kid s right).keys
      = kidKeys front ++ ((kid.keys ++ s :: right.keys) ++ restKeys back last) := by
  cases back with
  | nil => simp [graft, keys, kidKeys, restKeys]
  | cons old back => simp [graft, keys, kidKeys, restKeys]

/-- The children of a node of which one was replaced. -/
theorem children_replace :
    (replace front back last kid).children = front.map Prod.fst ++ kid :: rest back last := by
  cases back with
  | nil => rfl
  | cons old back => simp [replace, children, rest]

/-- The children of a node of which one was cut in two. -/
theorem children_graft :
    (graft front back last kid s right).children
      = front.map Prod.fst ++ kid :: right :: rest back last := by
  cases back with
  | nil => simp [graft, children, rest]
  | cons old back => simp [graft, children, rest]

/-- A child that was replaced adds none. -/
theorem length_replace : (replace front back last kid).1.length = front.length + back.length := by
  cases back with
  | nil => rfl
  | cons old back => exact List.length_append

/-- A child that was cut adds one. -/
theorem length_graft :
    (graft front back last kid s right).1.length = front.length + back.length + 1 := by
  cases back with
  | nil => exact List.length_append
  | cons old back => exact List.length_append

/-- The children below a key, and the others. -/
theorem below_append_notBelow (cmp : κ → κ → Ordering) (k : κ) (kids : List (BTree κ ν h × κ)) :
    below cmp k kids ++ notBelow cmp k kids = kids := List.takeWhile_append_dropWhile

end Around

section Parts
variable (cmp : κ → κ → Ordering) (k : κ) {h : Nat} (t : BTree κ ν (h + 1))

/-- A node is the children around one of them, and that one. -/
theorem replace_pick :
    replace (below cmp k t.1) (notBelow cmp k t.1) t.2 (pick (notBelow cmp k t.1) t.2) = t := by
  have happ := below_append_notBelow cmp k t.1
  cases hback : notBelow cmp k t.1 with
  | nil =>
    rw [hback, List.append_nil] at happ
    exact Prod.ext happ rfl
  | cons old back =>
    rw [hback] at happ
    exact Prod.ext happ rfl

/-- The children of a node around the one that a key leads to. -/
theorem children_eq :
    t.children = (below cmp k t.1).map Prod.fst ++ pick (notBelow cmp k t.1) t.2 ::
      rest (notBelow cmp k t.1) t.2 := by
  rw [← children_replace, replace_pick]

/-- The keys of a node around those of the child that a key leads to. -/
theorem keys_eq :
    t.keys = kidKeys (below cmp k t.1) ++ ((pick (notBelow cmp k t.1) t.2).keys
      ++ restKeys (notBelow cmp k t.1) t.2) := by
  rw [← keys_replace, replace_pick]

/-- The number of separators below a key, and of the others. -/
theorem length_eq : t.1.length = (below cmp k t.1).length + (notBelow cmp k t.1).length := by
  rw [← List.length_append, below_append_notBelow]

/-- The child that a key leads to is one of the node's. -/
theorem pick_mem : pick (notBelow cmp k t.1) t.2 ∈ t.children := by
  rw [children_eq cmp k t]
  exact List.mem_append_right _ List.mem_cons_self

end Parts

/-! ### Entries and keys -/

section Keys
variable {cmp : κ → κ → Ordering} {k : κ} {e : κ × ν} {h cap : Nat}

/-- The keys of some children are those below them and the separators. -/
theorem mem_kidKeys {x : κ} {kids : List (BTree κ ν h × κ)} :
    x ∈ kidKeys kids ↔ ∃ kid ∈ kids, x ∈ kid.1.keys ∨ x = kid.2 := by
  simp [kidKeys]

/-- The keys of the entries stand among the keys in their order. -/
theorem entries_sublist : {h : Nat} → (t : BTree κ ν h) → (t.entries.map Prod.fst).Sublist t.keys
  | 0, _ => List.Sublist.refl _
  | h + 1, t => by
    have hkids : ∀ kids : List (BTree κ ν h × κ),
        (((kids.map Prod.fst).flatMap entries).map Prod.fst).Sublist (kidKeys kids) := by
      intro kids
      induction kids with
      | nil => exact List.Sublist.refl _
      | cons kid kids ih =>
        show ((kid.1.entries ++ (kids.map Prod.fst).flatMap entries).map Prod.fst).Sublist
          ((kid.1.keys ++ [kid.2]) ++ kidKeys kids)
        rw [List.map_append]
        exact ((entries_sublist kid.1).trans (List.sublist_append_left _ _)).append ih
    show (((t.1.map Prod.fst ++ [t.2]).flatMap entries).map Prod.fst).Sublist
      (kidKeys t.1 ++ t.2.keys)
    rw [List.flatMap_append, List.flatMap_singleton, List.map_append]
    exact (hkids t.1).append (entries_sublist t.2)

/-- The separators of the root stand among the keys in their order. -/
theorem separators_sublist (t : BTree κ ν (h + 1)) : (t.1.map Prod.snd).Sublist t.keys := by
  have hkids : ∀ kids : List (BTree κ ν h × κ), (kids.map Prod.snd).Sublist (kidKeys kids) := by
    intro kids
    induction kids with
    | nil => exact List.Sublist.refl _
    | cons kid kids ih =>
      show ([kid.2] ++ kids.map Prod.snd).Sublist ((kid.1.keys ++ [kid.2]) ++ kidKeys kids)
      exact (List.sublist_append_right _ _).append ih
  exact (hkids t.1).trans (List.sublist_append_left _ _)

/-- The key of an entry is one of the tree's. -/
theorem mem_keys_of_mem_entries {t : BTree κ ν h} {x : κ × ν} (hx : x ∈ t.entries) : x.1 ∈ t.keys :=
  (entries_sublist t).subset (List.mem_map_of_mem hx)

/-- The entries of a sorted tree are in order. -/
theorem Sorted.entries {t : BTree κ ν h} (ht : t.Sorted cmp) :
    t.entries.Pairwise fun a b => AtMost cmp a.1 b.1 :=
  List.pairwise_map.mp (ht.sublist (entries_sublist t))

/-- Lists of lists put together at once or one after the other. -/
theorem flatten_flatMap {α β : Type} {f : α → List (List β)} {g : α → List β} {l : List α}
    (hfg : ∀ x, (f x).flatten = g x) : (l.flatMap f).flatten = l.flatMap g := by
  rw [List.flatten_eq_flatMap, List.flatMap_assoc]
  refine List.flatMap_congr fun x _ => ?_
  rw [List.flatMap_id, hfg]

/-- The leaves hold the entries. -/
theorem flatten_leaves : {h : Nat} → (t : BTree κ ν h) → t.leaves.flatten = t.entries
  | 0, l => List.append_nil l
  | _ + 1, _ => flatten_flatMap fun kid => flatten_leaves kid

/-! ### Cutting -/

section
variable {l : List (κ × ν)} {t : BTree κ ν (h + 1)}

/-- To cut a leaf loses no entry. -/
theorem entries_cutLeaf : (cutLeaf cap l).entries = l := by
  unfold cutLeaf
  split
  · split
    · rfl
    · rename_i e right hdrop
      show l.take (cap / 2) ++ (e :: right) = l
      rw [← hdrop, List.take_append_drop]
  · rfl

/-- A full leaf is cut in the middle. -/
theorem cutLeaf_full {e : κ × ν} {right : List (κ × ν)} (hfull : l.length = cap)
    (hdrop : l.drop (cap / 2) = e :: right) :
    cutLeaf cap l = (l.take (cap / 2), some (e.1, e :: right)) := by
  unfold cutLeaf
  rw [if_pos hfull, hdrop]
  rfl

/-- A leaf with room is not cut. -/
theorem cutLeaf_few (hfew : l.length ≠ cap) : cutLeaf cap l = (l, none) := if_neg hfew

/-- A full inner node is cut in the middle. -/
theorem cutInner_full {kid : BTree κ ν h × κ} {right : List (BTree κ ν h × κ)}
    (hfull : t.1.length = cap) (hdrop : t.1.drop (t.1.length / 2) = kid :: right) :
    cutInner cap t = ((t.1.take (t.1.length / 2), kid.1), some (kid.2, (right, t.2))) := by
  unfold cutInner
  rw [if_pos hfull, hdrop]
  rfl

/-- An inner node with room is not cut. -/
theorem cutInner_few (hfew : t.1.length ≠ cap) : cutInner cap t = (t, none) := if_neg hfew

/-- The key that goes up is the first one of the right half. -/
theorem keys_cutLeaf (cap : Nat) (l : List (κ × ν)) :
    (cutLeaf cap l).keys = l.map Prod.fst ∨ ∃ front x back,
      l.map Prod.fst = front ++ x :: back ∧ (cutLeaf cap l).keys = front ++ x :: x :: back := by
  unfold cutLeaf
  split
  · split
    · exact Or.inl rfl
    · rename_i e right hdrop
      refine Or.inr ⟨(l.take (cap / 2)).map Prod.fst, e.1, right.map Prod.fst, ?_, rfl⟩
      conv => lhs; rw [← List.take_append_drop (cap / 2) l, hdrop, List.map_append, List.map_cons]
  · exact Or.inl rfl

/-- To cut an inner node loses no key. -/
theorem keys_cutInner : (cutInner cap t).keys = t.keys := by
  unfold cutInner
  split
  · split
    · rfl
    · rename_i kid right hdrop
      have happ := List.take_append_drop (t.1.length / 2) t.1
      rw [hdrop] at happ
      show (kidKeys (t.1.take _) ++ kid.1.keys) ++ kid.2 :: (kidKeys right ++ t.2.keys)
        = kidKeys t.1 ++ t.2.keys
      conv => rhs; rw [← happ]
      simp [kidKeys]
  · rfl

/-- The children of both halves are those of the node. -/
theorem children_cutInner (cap : Nat) (t : BTree κ ν (h + 1)) :
    (cutInner cap t = (t, none) ∧ (t.1.length = cap → cap = 0)) ∨
    ∃ left s right, cutInner cap t = (left, some (s, right)) ∧
      left.children ++ right.children = t.children ∧
      left.1.length = cap / 2 ∧ right.1.length + cap / 2 + 1 = cap := by
  unfold cutInner
  split
  · rename_i hfull
    split
    · rename_i hdrop
      have hlength := congrArg List.length hdrop
      rw [List.length_drop, List.length_nil, hfull] at hlength
      exact Or.inl ⟨rfl, fun _ => by omega⟩
    · rename_i kid right hdrop
      have happ := List.take_append_drop (t.1.length / 2) t.1
      have hlength := congrArg List.length hdrop
      rw [List.length_drop, List.length_cons, hfull] at hlength
      refine Or.inr ⟨_, _, _, rfl, ?_, ?_, ?_⟩
      · show ((t.1.take (t.1.length / 2)).map Prod.fst ++ [kid.1]) ++ (right.map Prod.fst ++ [t.2])
          = t.1.map Prod.fst ++ [t.2]
        conv => rhs; rw [← happ, hdrop]
        simp
      · show (t.1.take (t.1.length / 2)).length = cap / 2
        rw [List.length_take, hfull]
        omega
      · show right.length + cap / 2 + 1 = cap
        omega
  · rename_i hfew
    exact Or.inl ⟨rfl, fun hfull => absurd hfull hfew⟩

/-- To cut an inner node loses no entry. -/
theorem entries_cutInner : (cutInner cap t).entries = t.entries := by
  rcases children_cutInner cap t with ⟨heq, -⟩ | ⟨left, s, right, heq, hchildren, -⟩
  · rw [heq, Growth.entries_uncut]
  · rw [heq]
    show left.children.flatMap BTree.entries ++ right.children.flatMap BTree.entries
      = t.children.flatMap BTree.entries
    rw [← hchildren, List.flatMap_append]

end

/-! ### What is around a key -/

section
variable [Std.TransCmp cmp]

/-- What lies before the separators below a key is below it. -/
theorem lt_of_mem_kidKeys {front : List (BTree κ ν h × κ)}
    (hsorted : (kidKeys front).Pairwise (AtMost cmp)) (hfront : ∀ kid ∈ front, cmp kid.2 k = .lt)
    {x : κ} (hx : x ∈ kidKeys front) : cmp x k = .lt := by
  induction front with
  | nil => exact absurd hx (by simp [kidKeys])
  | cons kid front ih =>
    have hs : cmp kid.2 k = .lt := hfront kid List.mem_cons_self
    have happ : ((kid.1.keys ++ [kid.2]) ++ kidKeys front).Pairwise (AtMost cmp) := hsorted
    obtain ⟨hkid, hrest, -⟩ := List.pairwise_append.mp happ
    have hx : x ∈ (kid.1.keys ++ [kid.2]) ++ kidKeys front := hx
    rcases List.mem_append.mp hx with hx | hx
    · rcases List.mem_append.mp hx with hx | hx
      · have hle : AtMost cmp x kid.2 :=
          (List.pairwise_append.mp hkid).2.2 x hx kid.2 (List.mem_singleton_self _)
        exact hle.lt_of_lt hs
      · rwa [List.mem_singleton.mp hx]
    · exact ih hrest (fun kid hkid => hfront kid (List.mem_cons_of_mem _ hkid)) hx

variable {t : BTree κ ν (h + 1)}

omit [Std.TransCmp cmp] in
/-- The child that a key leads to is sorted. -/
theorem Sorted.pick (ht : t.Sorted cmp) : (pick (notBelow cmp k t.1) t.2).Sorted cmp := by
  rw [Sorted, keys_eq cmp k t] at ht
  exact (List.pairwise_append.mp (List.pairwise_append.mp ht).2.1).1

/-- What stands in front of that child is below the key. -/
theorem lt_of_mem_below (ht : t.Sorted cmp) {x : κ} (hx : x ∈ kidKeys (below cmp k t.1)) :
    cmp x k = .lt := by
  rw [Sorted, keys_eq cmp k t] at ht
  exact lt_of_mem_kidKeys (List.pairwise_append.mp ht).1
    (fun kid hkid => by simpa using List.mem_takeWhile_imp hkid) hx

/-- What lies behind the first separator that is not below a key is not below it either. -/
theorem atMost_of_mem_rest (ht : t.Sorted cmp) {x : κ}
    (hx : x ∈ restKeys (notBelow cmp k t.1) t.2) : AtMost cmp k x := by
  rw [Sorted, keys_eq cmp k t] at ht
  have hrest := (List.pairwise_append.mp (List.pairwise_append.mp ht).2.1).2.1
  cases hback : notBelow cmp k t.1 with
  | nil =>
    rw [hback] at hx
    exact absurd hx List.not_mem_nil
  | cons kid back =>
    rw [hback] at hx hrest
    have hs : AtMost cmp k kid.2 := by
      have hhead := List.head?_dropWhile_not
        (fun kid : BTree κ ν h × κ => decide (cmp kid.2 k = .lt)) t.1
      rw [show t.1.dropWhile _ = kid :: back from hback] at hhead
      exact fun hlt => by simp [hlt] at hhead
    rcases List.mem_cons.mp hx with rfl | hx
    · exact hs
    · exact hs.trans (List.rel_of_pairwise_cons hrest hx)

/-- The entries before the child that a key leads to. -/
theorem lt_of_mem_entries_below (ht : t.Sorted cmp) {x : κ × ν}
    (hx : x ∈ ((below cmp k t.1).map Prod.fst).flatMap entries) : cmp x.1 k = .lt := by
  obtain ⟨kid, hkid, hx⟩ := List.mem_flatMap.mp hx
  obtain ⟨pair, hpair, rfl⟩ := List.mem_map.mp hkid
  exact lt_of_mem_below ht (mem_kidKeys.mpr ⟨pair, hpair, Or.inl (mem_keys_of_mem_entries hx)⟩)

/-- The entries behind it. -/
theorem atMost_of_mem_entries_rest (ht : t.Sorted cmp) {x : κ × ν}
    (hx : x ∈ (rest (notBelow cmp k t.1) t.2).flatMap entries) : AtMost cmp k x.1 := by
  refine atMost_of_mem_rest ht ?_
  obtain ⟨kid, hkid, hx⟩ := List.mem_flatMap.mp hx
  have hkeys := mem_keys_of_mem_entries hx
  cases hback : notBelow cmp k t.1 with
  | nil =>
    rw [hback] at hkid
    exact absurd hkid List.not_mem_nil
  | cons old back =>
    rw [hback] at hkid
    refine List.mem_cons_of_mem _ (List.mem_append.mpr ?_)
    rcases List.mem_append.mp hkid with hkid | hkid
    · obtain ⟨pair, hpair, rfl⟩ := List.mem_map.mp hkid
      exact Or.inl (mem_kidKeys.mpr ⟨pair, hpair, Or.inl hkeys⟩)
    · exact Or.inr (List.mem_singleton.mp hkid ▸ hkeys)

end

/-! ### What an insertion keeps -/

/-- The two ways in which a node takes an entry: the child that took it stayed whole, or not. -/
theorem insert_cases (cmp : κ → κ → Ordering) (cap : Nat) (e : κ × ν) (t : BTree κ ν (h + 1)) :
    (∃ kid, insert cmp cap e (pick (notBelow cmp e.1 t.1) t.2) = (kid, none) ∧
      insert cmp cap e t
        = (replace (below cmp e.1 t.1) (notBelow cmp e.1 t.1) t.2 kid, none)) ∨
    ∃ kid s right, insert cmp cap e (pick (notBelow cmp e.1 t.1) t.2) = (kid, some (s, right)) ∧
      insert cmp cap e t
        = cutInner cap
          (graft (below cmp e.1 t.1) (notBelow cmp e.1 t.1) t.2 kid s right) := by
  rcases hgrown : insert cmp cap e (pick (notBelow cmp e.1 t.1) t.2) with ⟨kid, _ | ⟨s, right⟩⟩
  · refine Or.inl ⟨kid, rfl, ?_⟩
    rw [insert, hgrown]
  · refine Or.inr ⟨kid, s, right, rfl, ?_⟩
    rw [insert, hgrown]

/-- Nothing comes in but the new key. -/
theorem mem_keys_insert : {h : Nat} → {t : BTree κ ν h} → {x : κ} →
    x ∈ (insert cmp cap e t).keys → x = e.1 ∨ x ∈ t.keys
  | 0, l, x, hx => by
    have hl : x ∈ (enter cmp e l).map Prod.fst := by
      rcases keys_cutLeaf cap (enter cmp e l) with heq | ⟨front, y, back, heq, hcut⟩
      · exact heq ▸ hx
      · have hx : x ∈ (cutLeaf cap (enter cmp e l)).keys := hx
        rw [hcut] at hx
        rw [heq]
        simpa using hx
    obtain ⟨y, hy, rfl⟩ := List.mem_map.mp hl
    rcases mem_enter.mp hy with rfl | hy
    · exact Or.inl rfl
    · exact Or.inr (List.mem_map_of_mem hy)
  | h + 1, t, x, hx => by
    have hkid : ∀ y, y ∈ (insert cmp cap e (pick (notBelow cmp e.1 t.1) t.2)).keys →
        y = e.1 ∨ y ∈ (pick (notBelow cmp e.1 t.1) t.2).keys := fun y hy => mem_keys_insert hy
    have haround : x ∈ kidKeys (below cmp e.1 t.1)
        ++ ((insert cmp cap e (pick (notBelow cmp e.1 t.1) t.2)).keys
          ++ restKeys (notBelow cmp e.1 t.1) t.2) := by
      rcases insert_cases cmp cap e t with ⟨kid, hgrown, heq⟩ | ⟨kid, s, right, hgrown, heq⟩
      · rwa [heq, Growth.keys_uncut, keys_replace, ← Growth.keys_uncut kid, ← hgrown] at hx
      · rwa [heq, keys_cutInner, keys_graft, ← Growth.keys_cut, ← hgrown] at hx
    rw [keys_eq cmp e.1 t]
    rcases List.mem_append.mp haround with hx | hx
    · exact Or.inr (List.mem_append_left _ hx)
    · rcases List.mem_append.mp hx with hx | hx
      · exact (hkid x hx).imp id fun hx => List.mem_append_right _ (List.mem_append_left _ hx)
      · exact Or.inr (List.mem_append_right _ (List.mem_append_right _ hx))

/-- A list stays in order when a part of it is changed around one key. -/
theorem pairwise_around [Std.TransCmp cmp] {front part part' back : List κ}
    (hold : (front ++ (part ++ back)).Pairwise (AtMost cmp)) (hpart : part'.Pairwise (AtMost cmp))
    (hmem : ∀ x ∈ part', x = k ∨ x ∈ part) (hfront : ∀ x ∈ front, cmp x k = .lt)
    (hback : ∀ x ∈ back, AtMost cmp k x) :
    (front ++ (part' ++ back)).Pairwise (AtMost cmp) := by
  obtain ⟨hf, hrest, hcross⟩ := List.pairwise_append.mp hold
  obtain ⟨-, hb, hpb⟩ := List.pairwise_append.mp hrest
  refine List.pairwise_append.mpr ⟨hf, List.pairwise_append.mpr ⟨hpart, hb, ?_⟩, ?_⟩
  · intro x hx y hy
    rcases hmem x hx with rfl | hx
    · exact hback y hy
    · exact hpb x hx y hy
  · intro x hx y hy
    rcases List.mem_append.mp hy with hy | hy
    · rcases hmem y hy with rfl | hy
      · exact .of_lt (hfront x hx)
      · exact hcross x hx y (List.mem_append_left _ hy)
    · exact hcross x hx y (List.mem_append_right _ hy)

/-- A list stays in order when one of its elements is written twice. -/
theorem pairwise_double [Std.TransCmp cmp] {front back : List κ} {x : κ}
    (hold : (front ++ x :: back).Pairwise (AtMost cmp)) :
    (front ++ x :: x :: back).Pairwise (AtMost cmp) := by
  obtain ⟨hfront, hback, hcross⟩ := List.pairwise_append.mp hold
  have hself : AtMost cmp x x := (AtMost.total x x).elim id id
  refine List.pairwise_append.mpr ⟨hfront, List.pairwise_cons.mpr ⟨?_, hback⟩, ?_⟩
  · intro y hy
    rcases List.mem_cons.mp hy with rfl | hy
    · exact hself
    · exact List.rel_of_pairwise_cons hback hy
  · intro y hy z hz
    rcases List.mem_cons.mp hz with rfl | hz
    · exact hcross y hy z List.mem_cons_self
    · exact hcross y hy z hz

/-- A sorted list stays sorted. -/
theorem sorted_enter [Std.TransCmp cmp] (e : κ × ν) {l : List (κ × ν)}
    (hl : (l.map Prod.fst).Pairwise (AtMost cmp)) :
    ((enter cmp e l).map Prod.fst).Pairwise (AtMost cmp) := by
  have : IsTrans (κ × ν) fun a b => AtMost cmp a.1 b.1 := ⟨fun _ _ _ hab hbc => hab.trans hbc⟩
  have : Std.Total fun a b : κ × ν => AtMost cmp a.1 b.1 := ⟨fun a b => AtMost.total a.1 b.1⟩
  rw [List.pairwise_map] at hl ⊢
  exact List.Pairwise.orderedInsert e l hl

/-- An insertion keeps the keys and the separators in order. -/
theorem sorted_insert [Std.TransCmp cmp] : {h : Nat} → {t : BTree κ ν h} → t.Sorted cmp →
    (insert cmp cap e t).keys.Pairwise (AtMost cmp)
  | 0, l, ht => by
    have hl := sorted_enter e ht
    rcases keys_cutLeaf cap (enter cmp e l) with heq | ⟨front, x, back, heq, hcut⟩
    · exact heq ▸ hl
    · rw [heq] at hl
      exact hcut ▸ pairwise_double hl
  | h + 1, t, ht => by
    have hold := ht
    rw [Sorted, keys_eq cmp e.1 t] at hold
    have hkid : (insert cmp cap e (pick (notBelow cmp e.1 t.1) t.2)).keys.Pairwise (AtMost cmp) :=
      sorted_insert ht.pick
    have haround := pairwise_around hold hkid (fun x hx => mem_keys_insert hx)
      (fun x hx => lt_of_mem_below ht hx) fun x hx => atMost_of_mem_rest ht hx
    rcases insert_cases cmp cap e t with ⟨kid, hgrown, heq⟩ | ⟨kid, s, right, hgrown, heq⟩
    · rwa [heq, Growth.keys_uncut, keys_replace, ← Growth.keys_uncut kid, ← hgrown]
    · rwa [heq, keys_cutInner, keys_graft, ← Growth.keys_cut, ← hgrown]

/-- An insertion puts the entry at its place among the entries. -/
theorem entries_insert [Std.TransCmp cmp] : {h : Nat} → {t : BTree κ ν h} → t.Sorted cmp →
    (insert cmp cap e t).entries = enter cmp e t.entries
  | 0, l, _ => entries_cutLeaf
  | h + 1, t, ht => by
    have hkid : (insert cmp cap e (pick (notBelow cmp e.1 t.1) t.2)).entries
        = enter cmp e (pick (notBelow cmp e.1 t.1) t.2).entries := entries_insert ht.pick
    have hold : t.entries = ((below cmp e.1 t.1).map Prod.fst).flatMap entries
        ++ ((pick (notBelow cmp e.1 t.1) t.2).entries
          ++ (rest (notBelow cmp e.1 t.1) t.2).flatMap entries) := by
      show t.children.flatMap entries = _
      rw [children_eq cmp e.1 t, List.flatMap_append, List.flatMap_cons]
    rw [hold, enter_append (fun x hx => lt_of_mem_entries_below ht hx)
      (fun x hx => atMost_of_mem_entries_rest ht hx), ← hkid]
    rcases insert_cases cmp cap e t with ⟨kid, hgrown, heq⟩ | ⟨kid, s, right, hgrown, heq⟩
    · rw [heq, hgrown, Growth.entries_uncut, Growth.entries_uncut]
      show (replace _ _ _ kid).children.flatMap entries = _
      rw [children_replace, List.flatMap_append, List.flatMap_cons]
    · rw [heq, hgrown, entries_cutInner, Growth.entries_cut]
      show (graft _ _ _ kid s right).children.flatMap entries = _
      rw [children_graft, List.flatMap_append, List.flatMap_cons, List.flatMap_cons,
        List.append_assoc]

/-! ### Balance -/

section
variable {m : Nat}

/-- The halves of a leaf are full enough. -/
theorem balanced_cutLeaf {l : List (κ × ν)} (hm : 2 * m < cap) (hcap : 2 ≤ cap)
    (hl : l.length ≤ cap) : (cutLeaf cap l).Balanced m cap l.length := by
  unfold cutLeaf
  split
  · rename_i hfull
    have hright : (l.drop (cap / 2)).length = cap - cap / 2 := by rw [List.length_drop, hfull]
    split
    · rename_i hdrop
      rw [hdrop, List.length_nil] at hright
      omega
    · rename_i e right hdrop
      rw [hdrop] at hright
      have hleft : (l.take (cap / 2)).length = cap / 2 := by rw [List.length_take, hfull]; omega
      refine ⟨?_, ?_, ?_, ?_⟩
      · show (l.take (cap / 2)).length < cap
        omega
      · show m ≤ (l.take (cap / 2)).length
        omega
      · show m ≤ (e :: right).length
        omega
      · show (e :: right).length < cap
        omega
  · rename_i hfew
    refine ⟨?_, Nat.le_refl _⟩
    show l.length < cap
    omega

/-- The halves of an inner node are full enough. -/
theorem balanced_cutInner {t : BTree κ ν (h + 1)} (hm : 2 * m < cap) (ht : t.1.length ≤ cap)
    (hkids : ∀ kid ∈ t.children, m ≤ kid.size ∧ kid.Balanced m cap) :
    (cutInner cap t).Balanced m cap t.size := by
  rcases children_cutInner cap t with ⟨heq, hfew⟩ | ⟨left, s, right, heq, hchildren, hleft, hright⟩
  · rw [heq]
    have hlt : t.1.length < cap := by omega
    exact ⟨⟨hlt, hkids⟩, Nat.le_refl _⟩
  · rw [← hchildren] at hkids
    have hleftFew : left.1.length < cap := by omega
    have hrightFew : right.1.length < cap := by omega
    have hleftEnough : m ≤ left.1.length := by omega
    have hrightEnough : m ≤ right.1.length := by omega
    rw [heq]
    exact ⟨⟨hleftFew, fun kid hkid => hkids kid (List.mem_append_left _ hkid)⟩, hleftEnough,
      hrightEnough, hrightFew, fun kid hkid => hkids kid (List.mem_append_right _ hkid)⟩

/-- A node that is at least as large is enough where a smaller one was. -/
theorem Growth.Balanced.mono {g : Growth κ ν h} {n n' : Nat} (hg : g.Balanced m cap n)
    (hn : n' ≤ n) : g.Balanced m cap n' := by
  refine ⟨hg.1, ?_⟩
  have hsize := hg.2
  split at hsize
  · exact Nat.le_trans hn hsize
  · exact hsize

/-- An insertion keeps the tree balanced. -/
theorem balanced_insert (hm : 2 * m < cap) (hcap : 2 ≤ cap) : {h : Nat} → {t : BTree κ ν h} →
    t.Balanced m cap → (insert cmp cap e t).Balanced m cap t.size
  | 0, (l : List (κ × ν)), (ht : l.length < cap) => by
    have hlength : (enter cmp e l).length = l.length + 1 := length_enter l
    have hcut := balanced_cutLeaf (l := enter cmp e l) hm hcap (by omega)
    exact hcut.mono (by rw [hlength]; exact Nat.le_succ l.length)
  | h + 1, t, ht => by
    obtain ⟨hfew, hkids⟩ := ht
    have hpick := hkids _ (pick_mem cmp e.1 t)
    have hkid : (insert cmp cap e (pick (notBelow cmp e.1 t.1) t.2)).Balanced m cap
        (pick (notBelow cmp e.1 t.1) t.2).size := balanced_insert hm hcap hpick.2
    have hsize := length_eq cmp e.1 t
    rw [children_eq cmp e.1 t] at hkids
    have hfront : ∀ kid ∈ (below cmp e.1 t.1).map Prod.fst, m ≤ kid.size ∧ kid.Balanced m cap :=
      fun kid hkid => hkids kid (List.mem_append_left _ hkid)
    have hback : ∀ kid ∈ rest (notBelow cmp e.1 t.1) t.2, m ≤ kid.size ∧ kid.Balanced m cap :=
      fun kid hkid => hkids kid (List.mem_append_right _ (List.mem_cons_of_mem _ hkid))
    rcases insert_cases cmp cap e t with ⟨kid, hgrown, heq⟩ | ⟨kid, s, right, hgrown, heq⟩
    · rw [hgrown] at hkid
      rw [heq]
      refine ⟨⟨?_, ?_⟩, ?_⟩
      · show (replace _ _ _ kid).1.length < cap
        rw [length_replace]
        omega
      · rw [children_replace]
        intro other hother
        rcases List.mem_append.mp hother with hother | hother
        · exact hfront other hother
        · rcases List.mem_cons.mp hother with rfl | hother
          · exact ⟨hpick.1.trans hkid.2, hkid.1⟩
          · exact hback other hother
      · show t.1.length ≤ (replace _ _ _ kid).1.length
        rw [length_replace]
        omega
    · rw [hgrown] at hkid
      have hlength : (graft (below cmp e.1 t.1) (notBelow cmp e.1 t.1) t.2 kid s right).1.length
          = (below cmp e.1 t.1).length + (notBelow cmp e.1 t.1).length + 1 := length_graft
      rw [heq]
      refine (balanced_cutInner hm (by omega) ?_).mono ?_
      · rw [children_graft]
        intro other hother
        rcases List.mem_append.mp hother with hother | hother
        · exact hfront other hother
        · rcases List.mem_cons.mp hother with rfl | hother
          · exact ⟨hkid.2.1, hkid.1⟩
          · rcases List.mem_cons.mp hother with rfl | hother
            · exact hkid.2.2
            · exact hback other hother
      · show t.1.length ≤ (graft _ _ _ kid s right).1.length
        omega

/-- A subtree in which there is enough holds a power of its height. -/
theorem length_entries : {h : Nat} → {t : BTree κ ν h} → m ≤ t.size → t.Balanced m cap →
    m * (m + 1) ^ h ≤ t.entries.length
  | 0, (l : List (κ × ν)), (hsize : m ≤ l.length), _ => by
    show m * (m + 1) ^ 0 ≤ l.length
    rwa [Nat.pow_zero, Nat.mul_one]
  | h + 1, t, hsize, ht => by
    have hkids : ∀ kids : List (BTree κ ν h), (∀ kid ∈ kids, m ≤ kid.size ∧ kid.Balanced m cap) →
        kids.length * (m * (m + 1) ^ h) ≤ (kids.flatMap entries).length := by
      intro kids hkids
      induction kids with
      | nil => simp
      | cons kid kids ih =>
        have hkid := hkids kid List.mem_cons_self
        have hfirst := length_entries hkid.1 hkid.2
        have hrest := ih fun other hother => hkids other (List.mem_cons_of_mem _ hother)
        rw [List.flatMap_cons, List.length_append, List.length_cons, Nat.succ_mul]
        omega
    have hcount : t.children.length = t.1.length + 1 := by simp [children]
    have hall := hkids t.children ht.2
    have hmul : (m + 1) * (m * (m + 1) ^ h) ≤ t.children.length * (m * (m + 1) ^ h) :=
      Nat.mul_le_mul_right _ (by
        have hroot : m ≤ t.1.length := hsize
        omega)
    calc m * (m + 1) ^ (h + 1) = (m + 1) * (m * (m + 1) ^ h) := by ring
      _ ≤ _ := hmul.trans hall

/-- What a tree holds is exponential in its height. -/
theorem Balanced.length_entries {t : BTree κ ν (h + 1)} (ht : t.Balanced m cap) :
    m * (m + 1) ^ h ≤ t.entries.length := by
  have hmem : t.2 ∈ t.children := List.mem_append_right _ (List.mem_singleton_self _)
  have hlast := ht.2 t.2 hmem
  exact (BTree.length_entries hlast.1 hlast.2).trans
    (List.sublist_flatten_of_mem (List.mem_map_of_mem hmem)).length_le

end

/-! ### Seeking -/

/-- The leaves from the sought one on are the last ones. -/
theorem seek_suffix : {h : Nat} → (t : BTree κ ν h) → seek cmp k t <:+ t.leaves
  | 0, _ => List.suffix_rfl
  | _ + 1, t => by
    obtain ⟨front, hfront⟩ := seek_suffix (pick (notBelow cmp k t.1) t.2)
    refine ⟨((below cmp k t.1).map Prod.fst).flatMap leaves ++ front, ?_⟩
    show _ ++ (seek cmp k (pick _ _) ++ _) = t.children.flatMap leaves
    rw [children_eq cmp k t, List.flatMap_append, List.flatMap_cons, ← hfront, List.append_assoc,
      List.append_assoc]

/-- The leaves before the one that is sought hold only what is below the key. -/
theorem entries_seek [Std.TransCmp cmp] : {h : Nat} → {t : BTree κ ν h} → t.Sorted cmp →
    ∃ front, t.entries = front ++ (seek cmp k t).flatten ∧ ∀ x ∈ front, cmp x.1 k = .lt
  | 0, l, _ => ⟨[], (List.append_nil l).symm, fun x hx => absurd hx List.not_mem_nil⟩
  | h + 1, t, ht => by
    obtain ⟨front, hentries, hfront⟩ := entries_seek ht.pick
    refine ⟨((below cmp k t.1).map Prod.fst).flatMap entries ++ front, ?_, fun x hx => ?_⟩
    · show t.children.flatMap entries = _ ++ (seek cmp k (pick _ _) ++ _).flatten
      rw [children_eq cmp k t, List.flatMap_append, List.flatMap_cons, hentries,
        List.flatten_append, flatten_flatMap flatten_leaves, List.append_assoc, List.append_assoc]
    · rcases List.mem_append.mp hx with hx | hx
      · exact lt_of_mem_entries_below ht hx
      · exact hfront x hx

/-! ### A run of insertions -/

/-- A tree as insertions leave it: everything is in order, and the nodes are as large as they
should be. -/
structure Lawful (cmp : κ → κ → Ordering) (m cap : Nat) (t : Root κ ν) : Prop where
  sorted : t.2.Sorted cmp
  balanced : t.2.Balanced m cap

/-- The tree of a single leaf with nothing in it. -/
def empty : Root κ ν := ⟨0, []⟩

/-- The entries put into a tree one after the other. -/
def insertAll (cmp : κ → κ → Ordering) (cap : Nat) (es : List (κ × ν)) (t : Root κ ν) : Root κ ν :=
  es.foldl (fun t e => insertRoot cmp cap e t) t

section
variable [Std.TransCmp cmp] {m : Nat} {t : Root κ ν}

omit [Std.TransCmp cmp] in
/-- The tree without entries. -/
theorem lawful_empty (hcap : 0 < cap) : Lawful cmp m cap (empty : Root κ ν) :=
  ⟨List.Pairwise.nil, hcap⟩

omit [Std.TransCmp cmp] in
/-- A root that was not cut stays the root. -/
theorem insertRoot_uncut {kid : BTree κ ν t.1} (hgrown : insert cmp cap e t.2 = (kid, none)) :
    insertRoot cmp cap e t = ⟨t.1, kid⟩ := by
  unfold insertRoot
  rw [hgrown]

omit [Std.TransCmp cmp] in
/-- Above a root that was cut there is a new one. -/
theorem insertRoot_cut {kid right : BTree κ ν t.1} {s : κ}
    (hgrown : insert cmp cap e t.2 = (kid, some (s, right))) :
    insertRoot cmp cap e t = ⟨t.1 + 1, ([(kid, s)], right)⟩ := by
  unfold insertRoot
  rw [hgrown]

omit [Std.TransCmp cmp] in
/-- Entries entered one after the other. -/
theorem insertAll_append (es more : List (κ × ν)) :
    insertAll cmp cap (es ++ more) t = insertAll cmp cap more (insertAll cmp cap es t) :=
  List.foldl_append

omit [Std.TransCmp cmp] in
/-- A tree with another level holds more by a factor. -/
theorem Lawful.deep (ht : Lawful cmp m cap t) {h : Nat} (hheight : t.1 = h + 1) :
    m * (m + 1) ^ h ≤ t.2.entries.length := by
  obtain ⟨height, tree⟩ := t
  obtain rfl : height = h + 1 := hheight
  exact ht.balanced.length_entries

/-- One insertion at the root. -/
theorem Lawful.insertRoot (ht : Lawful cmp m cap t) (hm : 2 * m < cap) (hcap : 2 ≤ cap) :
    Lawful cmp m cap (insertRoot cmp cap e t) ∧
      (insertRoot cmp cap e t).2.entries = enter cmp e t.2.entries := by
  have hsorted : (insert cmp cap e t.2).keys.Pairwise (AtMost cmp) := sorted_insert ht.sorted
  have hentries : (insert cmp cap e t.2).entries = enter cmp e t.2.entries :=
    entries_insert ht.sorted
  have hbalanced : (insert cmp cap e t.2).Balanced m cap t.2.size :=
    balanced_insert hm hcap ht.balanced
  rcases hgrown : insert cmp cap e t.2 with ⟨kid, _ | ⟨s, right⟩⟩
  · rw [insertRoot_uncut hgrown]
    rw [hgrown] at hsorted hentries hbalanced
    exact ⟨⟨hsorted, hbalanced.1⟩, hentries⟩
  · rw [insertRoot_cut hgrown]
    rw [hgrown] at hsorted hentries hbalanced
    refine ⟨⟨?_, ?_, ?_⟩, ?_⟩
    · show (kidKeys [(kid, s)] ++ right.keys).Pairwise (AtMost cmp)
      have hkeys : kidKeys [(kid, s)] ++ right.keys = kid.keys ++ s :: right.keys := by
        simp [kidKeys]
      rw [hkeys]
      exact hsorted
    · show 1 < cap
      omega
    · intro other hother
      rcases List.mem_cons.mp hother with rfl | hother
      · exact ⟨hbalanced.2.1, hbalanced.1⟩
      · rw [List.mem_singleton.mp hother]
        exact hbalanced.2.2
    · show [kid, right].flatMap entries = enter cmp e t.2.entries
      rw [← hentries]
      show kid.entries ++ (right.entries ++ []) = kid.entries ++ right.entries
      rw [List.append_nil]

/-- After a run of insertions the leaves hold what was there and what was inserted, each entry at
the place that it had when it came. -/
theorem Lawful.insertAll (ht : Lawful cmp m cap t) (hm : 2 * m < cap) (hcap : 2 ≤ cap)
    (es : List (κ × ν)) :
    Lawful cmp m cap (insertAll cmp cap es t) ∧
      (insertAll cmp cap es t).2.entries
        = es.foldl (fun entries e => enter cmp e entries) t.2.entries := by
  induction es generalizing t with
  | nil => exact ⟨ht, rfl⟩
  | cons e es ih =>
    obtain ⟨hlawful, hentries⟩ := ht.insertRoot (e := e) hm hcap
    obtain ⟨hrun, heq⟩ := ih hlawful
    refine ⟨hrun, ?_⟩
    rw [List.foldl_cons, ← hentries]
    exact heq

omit [Std.TransCmp cmp] in
/-- Entries that enter an empty list one after the other are sorted, the last one first among those
that are equal. -/
theorem foldl_enter (es : List (κ × ν)) :
    es.foldl (fun entries e => enter cmp e entries) []
      = es.reverse.insertionSort fun a b => AtMost cmp a.1 b.1 := by
  rw [List.foldl_eq_foldr_reverse]
  rfl

end

end Keys

end BTree

end Library
