import Mathlib.Data.List.Sort
import Mathlib.Data.Finset.Card

/-!
# `DatabaseEngine.Library.Selecting`: the best few of a list, and rows put in an order

A heap in an array whose root is the last of what it holds, for a comparison that may be any; the
loop that keeps the first `wanted` elements of an array in it; and the moves that put an array in
the order that a permutation says, along the cycles of the permutation and with one spare place.

* `followCycle_settles`: a cycle is walked to its end, and settles the places on it.
* `reorder_eq`: the moves put at each place what the permutation says.
* `mem_reorder`, `mem_selectTop`: whatever the order says, nothing comes in that was not there.
-/

set_option autoImplicit false

namespace Library

universe u

variable {α : Type u}

/-- Two elements exchanged. -/
def swap (keys : List α) (i j : Nat) : List α :=
  match keys[i]?, keys[j]? with
  | some a, some b => (keys.set i b).set j a
  | _, _ => keys

/-- Whether the element at `i` comes after the one at `j`. -/
def after (compare : α → α → Ordering) (keys : List α) (i j : Nat) : Bool :=
  match keys[i]?, keys[j]? with
  | some a, some b => compare a b == .gt
  | _, _ => false

/-- The last of an element and its children among the first `count`. -/
def worst (compare : α → α → Ordering) (keys : List α) (count i : Nat) : Nat :=
  let left := i * 2 + 1
  let right := left + 1
  let last := if left < count ∧ after compare keys left i = true then left else i
  if right < count ∧ after compare keys right last = true then right else last

/-- Pushes an element down until the subtree below it is a heap again. -/
def siftDown (compare : α → α → Ordering) (count : Nat) : Nat → Nat → List α → List α
  | 0, _, keys => keys
  | fuel + 1, i, keys =>
    if worst compare keys count i = i then keys
    else siftDown compare count fuel (worst compare keys count i)
      (swap keys i (worst compare keys count i))

/-- Every element of the first `count` pushed down, from the `n`-th on downwards. -/
def heapify (compare : α → α → Ordering) (count : Nat) : Nat → List α → List α
  | 0, keys => keys
  | n + 1, keys => heapify compare count n (siftDown compare count count n keys)

/-- The elements from `i` on against the heap of the first `count`. -/
def challenge (compare : α → α → Ordering) (count : Nat) : Nat → Nat → List α → List α
  | 0, _, keys => keys
  | n + 1, i, keys =>
    match keys[i]? with
    | none => keys
    | some key =>
      -- no better than the worst that is kept
      if after compare keys 0 i = false then challenge compare count n (i + 1) keys
      else challenge compare count n (i + 1) (siftDown compare count count 0 (keys.set 0 key))

/-- The first `wanted` elements in the order of the comparison, in any order. -/
def selectTop (compare : α → α → Ordering) (wanted : Nat) (keys : List α) : List α :=
  (challenge compare wanted (keys.length - wanted) wanted
    (heapify compare wanted (wanted / 2) keys)).take wanted

/-- A cycle of `order` from `i` on: each place takes what belongs there, the last one takes what
was held back. -/
def followCycle (held : α) (i : Nat) : Nat → Nat → List Nat → List α → List Nat × List α
  | 0, _, order, rows => (order, rows)
  | fuel + 1, place, order, rows =>
    match order[place]? with
    | none => (order, rows)
    | some source =>
      let order := order.set place place
      if source = i then (order, rows.set place held)
      else
        match rows[source]? with
        | none => (order, rows)
        | some row => followCycle held i fuel source order (rows.set place row)

/-- Puts at each of the first places what `order` says. -/
def reorder : Nat → Nat → List Nat → List α → List α
  | 0, _, _, rows => rows
  | n + 1, i, order, rows =>
    match order[i]?, rows[i]? with
    | some source, some held =>
      if source = i then reorder n (i + 1) order rows
      else
        let (order, rows) := followCycle held i (order.length + 1) i order rows
        reorder n (i + 1) order rows
    | _, _ => rows

/-! ### What is there -/

section
variable {compare : α → α → Ordering} {keys rows : List α} {x : α}

/-- A swap brings nothing in. -/
theorem mem_swap {i j : Nat} (h : x ∈ swap keys i j) : x ∈ keys := by
  unfold swap at h
  split at h
  · rename_i a b ha hb
    rcases List.mem_or_eq_of_mem_set h with h | rfl
    · rcases List.mem_or_eq_of_mem_set h with h | rfl
      · exact h
      · exact List.mem_of_getElem? hb
    · exact List.mem_of_getElem? ha
  · exact h

/-- A key's way down brings nothing in. -/
theorem mem_siftDown {count fuel i : Nat} (h : x ∈ siftDown compare count fuel i keys) :
    x ∈ keys := by
  induction fuel generalizing i keys with
  | zero => exact h
  | succ fuel ih =>
    rw [siftDown] at h
    split at h
    · exact h
    · exact mem_swap (ih h)

/-- To make a heap brings nothing in. -/
theorem mem_heapify {count n : Nat} (h : x ∈ heapify compare count n keys) : x ∈ keys := by
  induction n generalizing keys with
  | zero => exact h
  | succ n ih => exact mem_siftDown (ih h)

/-- To try the others against the top brings nothing in. -/
theorem mem_challenge {count n i : Nat} (h : x ∈ challenge compare count n i keys) : x ∈ keys := by
  induction n generalizing i keys with
  | zero => exact h
  | succ n ih =>
    rw [challenge] at h
    split at h
    · exact h
    · rename_i key hkey
      split at h
      · exact ih h
      · rcases List.mem_or_eq_of_mem_set (mem_siftDown (ih h)) with h | rfl
        · exact h
        · exact List.mem_of_getElem? hkey

/-- What is selected was there. -/
theorem mem_selectTop {wanted : Nat} (h : x ∈ selectTop compare wanted keys) : x ∈ keys :=
  mem_heapify (mem_challenge (List.mem_of_mem_take h))

/-- The rows after a cycle are rows that were there. -/
theorem mem_followCycle {held : α} {i fuel place : Nat} {order : List Nat} (hheld : held ∈ rows)
    (h : x ∈ (followCycle held i fuel place order rows).2) : x ∈ rows := by
  -- what is held back was there, and stays allowed while the rows around it move
  have hwalk : ∀ (fuel place : Nat) (order : List Nat) (now : List α), (∀ y ∈ now, y ∈ rows) →
      x ∈ (followCycle held i fuel place order now).2 → x ∈ rows := by
    intro fuel
    induction fuel with
    | zero => exact fun place order now hnow hx => hnow x hx
    | succ fuel ih =>
      intro place order now hnow hx
      rw [followCycle] at hx
      have hset : ∀ y ∈ rows, ∀ z ∈ now.set place y, z ∈ rows := by
        intro y hy z hz
        rcases List.mem_or_eq_of_mem_set hz with hz | rfl
        · exact hnow z hz
        · exact hy
      split at hx
      · exact hnow x hx
      · dsimp only at hx
        split at hx
        · exact hset held hheld x hx
        · split at hx
          · exact hnow x hx
          · rename_i row hrow
            exact ih _ _ _ (hset row (hnow row (List.mem_of_getElem? hrow))) hx
  exact hwalk fuel place order rows (fun _ hy => hy) h

/-- The rows in their new order are rows that were there. -/
theorem mem_reorder {n i : Nat} {order : List Nat} (h : x ∈ reorder n i order rows) : x ∈ rows := by
  induction n generalizing i order rows with
  | zero => exact h
  | succ n ih =>
    rw [reorder] at h
    split at h
    · rename_i source held _ hheld
      split at h
      · exact ih h
      · have hrest : x ∈ reorder n (i + 1) (followCycle held i (order.length + 1) i order rows).1
            (followCycle held i (order.length + 1) i order rows).2 := h
        exact mem_followCycle (List.mem_of_getElem? hheld) (ih hrest)
    · exact h

end

/-! ### Rows put in an order -/

/-- `order` says where each place takes its row from: it is on the first `n` numbers and takes none
of them twice. -/
structure Arranges (n : Nat) (order : Nat → Nat) : Prop where
  range : ∀ i < n, order i < n
  inj : ∀ i < n, ∀ j < n, order i = order j → i = j

/-- In the middle of the moves: the places of `done` have their rows, and the others are as they
were, but for the rows at the places of `hole`. -/
structure Moved (n : Nat) (order₀ : Nat → Nat) (rows₀ : List α) (done : Finset Nat)
    (hole : Nat → Prop) (order : List Nat) (rows : List α) : Prop where
  lengths : order.length = n ∧ rows.length = n ∧ rows₀.length = n
  inside : ∀ i ∈ done, i < n
  settled : ∀ i ∈ done, order[i]? = some i ∧ rows[i]? = rows₀[order₀ i]?
  waiting : ∀ i < n, i ∉ done → order[i]? = some (order₀ i) ∧ (¬hole i → rows[i]? = rows₀[i]?)

section
variable {n i place : Nat} {order₀ : Nat → Nat} {rows₀ rows : List α} {order : List Nat}
  {done : Finset Nat} {held : α}

/-- A place takes its row. -/
theorem Moved.settle {hole : Nat → Prop} (h : Moved n order₀ rows₀ done hole order rows)
    (hplace : place < n) {row : α} (hrow : rows₀[order₀ place]? = some row)
    (hole' : Nat → Prop) (hhole : ∀ j, j ≠ place → hole j → hole' j) :
    Moved n order₀ rows₀ (insert place done) hole' (order.set place place)
      (rows.set place row) := by
  obtain ⟨hlen, hrows, hrows₀⟩ := h.lengths
  refine ⟨⟨by simpa using hlen, by simpa using hrows, hrows₀⟩, fun j hj => ?_, fun j hj => ?_,
    fun j hlt hj => ?_⟩
  · rcases Finset.mem_insert.mp hj with rfl | hj
    · exact hplace
    · exact h.inside j hj
  · by_cases hne : j = place
    · subst hne
      rw [List.getElem?_set_self (by omega), List.getElem?_set_self (by omega), hrow]
      exact ⟨rfl, rfl⟩
    · rw [List.getElem?_set_ne (Ne.symm hne), List.getElem?_set_ne (Ne.symm hne)]
      exact h.settled j ((Finset.mem_insert.mp hj).resolve_left hne)
  · obtain ⟨hne, hj⟩ := not_or.mp (fun hin => hj (Finset.mem_insert.mpr hin))
    rw [List.getElem?_set_ne (Ne.symm hne), List.getElem?_set_ne (Ne.symm hne)]
    obtain ⟨horder, hrow'⟩ := h.waiting j hlt hj
    exact ⟨horder, fun hno => hrow' fun hyes => hno (hhole j hne hyes)⟩

/-- From a place on a cycle that began at `i`, the walk settles places until it is back. The
induction is on the fuel, which is more than the places that are left; the place before each one
that is settled is settled too, so the walk never meets one of them. -/
theorem followCycle_settles {fuel : Nat} (hperm : Arranges n order₀)
    (h : Moved n order₀ rows₀ done (· = place) order rows) (hplace : place < n)
    (hout : place ∉ done)
    (hbefore : ∀ j, j ∈ done ∨ j = place → j ≠ i → ∃ k ∈ done, order₀ k = j)
    (hstart : i = place ∨ i ∈ done) (hheld : rows₀[i]? = some held)
    (hfuel : n < fuel + done.card) :
    ∃ done', done ⊆ done' ∧ i ∈ done' ∧ (∀ j ∈ done', ∃ k ∈ done', order₀ k = j) ∧
      Moved n order₀ rows₀ done' (fun _ => False) (followCycle held i fuel place order rows).1
        (followCycle held i fuel place order rows).2 := by
  induction fuel generalizing done place order rows with
  | zero =>
    have hsub : done ⊆ Finset.range n := fun j hj => Finset.mem_range.mpr (h.inside j hj)
    have := Finset.card_le_card hsub
    rw [Finset.card_range] at this
    omega
  | succ fuel ih =>
    obtain ⟨horder, -⟩ := h.waiting place hplace hout
    have hkept : ∀ j, j ∈ done ∨ j = place → j ≠ i → ∃ k ∈ insert place done, order₀ k = j := by
      intro j hj hne
      obtain ⟨k, hk, hkj⟩ := hbefore j hj hne
      exact ⟨k, Finset.mem_insert_of_mem hk, hkj⟩
    have hin : i ∈ insert place done := by
      rcases hstart with rfl | hin
      · exact Finset.mem_insert_self _ _
      · exact Finset.mem_insert_of_mem hin
    unfold followCycle
    rw [horder]
    dsimp only
    by_cases hback : order₀ place = i
    · -- the cycle is closed: the last place takes what was held back
      rw [if_pos hback]
      refine ⟨insert place done, Finset.subset_insert _ _, hin, fun j hj => ?_,
        h.settle hplace (by rw [hback]; exact hheld) _ fun j hne heq => hne heq⟩
      by_cases hji : j = i
      · exact ⟨place, Finset.mem_insert_self _ _, hback.trans hji.symm⟩
      · exact hkept j ((Finset.mem_insert.mp hj).symm) hji
    · have hlt := hperm.range place hplace
      have hnew : order₀ place ∉ done := by
        intro hdone
        obtain ⟨k, hk, hkj⟩ := hbefore _ (Or.inl hdone) hback
        exact hout (hperm.inj k (h.inside k hk) place hplace hkj ▸ hk)
      have hne : order₀ place ≠ place := by
        intro heq
        obtain ⟨k, hk, hkj⟩ := hbefore place (Or.inr rfl) (heq ▸ hback)
        exact hout (hperm.inj k (h.inside k hk) place hplace (hkj.trans heq.symm) ▸ hk)
      have hrow := (h.waiting _ hlt hnew).2 hne
      obtain ⟨row, hsome⟩ : ∃ row, rows₀[order₀ place]? = some row :=
        ⟨_, List.getElem?_eq_getElem (by have := h.lengths; omega)⟩
      rw [if_neg hback, hrow, hsome]
      have hmoved := h.settle hplace hsome (· = order₀ place) fun j hne heq => absurd heq hne
      obtain ⟨done', hsub, hclosed⟩ := ih hmoved hlt
        (by simp [hne, hnew]) (by
          rintro j (hj | rfl) hji
          · exact hkept j (Finset.mem_insert.mp hj).symm hji
          · exact ⟨place, Finset.mem_insert_self _ _, rfl⟩)
        (Or.inr hin) (by rw [Finset.card_insert_of_notMem hout]; omega)
      exact ⟨done', (Finset.subset_insert _ _).trans hsub, hclosed⟩

/-- From the `i`-th place on, with the places before it settled. -/
theorem reorder_settles {m : Nat} (hperm : Arranges n order₀)
    (h : Moved n order₀ rows₀ done (fun _ => False) order rows)
    (hbefore : ∀ j ∈ done, ∃ k ∈ done, order₀ k = j) (hfront : ∀ j < i, j ∈ done)
    (hcount : i + m = n) :
    ∀ j < n, (reorder m i order rows)[j]? = rows₀[order₀ j]? ∧
      (reorder m i order rows).length = n := by
  induction m generalizing i done order rows with
  | zero => exact fun j hj => ⟨(h.settled j (hfront j (by omega))).2, h.lengths.2.1⟩
  | succ m ih =>
    have hi : i < n := by omega
    obtain ⟨hlen, hrows, hrows₀⟩ := h.lengths
    obtain ⟨held, hheld⟩ : ∃ held, rows[i]? = some held :=
      ⟨_, List.getElem?_eq_getElem (by omega)⟩
    obtain ⟨source, hsource⟩ : ∃ source, order[i]? = some source :=
      ⟨_, List.getElem?_eq_getElem (by omega)⟩
    unfold reorder
    rw [hheld, hsource]
    dsimp only
    by_cases hdone : i ∈ done
    · have hself : source = i :=
        Option.some.inj (hsource.symm.trans (h.settled i hdone).1)
      rw [if_pos hself]
      refine ih h hbefore (fun j hj => ?_) (by omega)
      rcases Nat.lt_succ_iff_lt_or_eq.mp hj with hj | rfl
      · exact hfront j hj
      · exact hdone
    · obtain ⟨horder, hrow⟩ := h.waiting i hi hdone
      have hvalue : source = order₀ i := Option.some.inj (hsource.symm.trans horder)
      have hrow₀ : rows₀[i]? = some held := (hrow (fun h => h)).symm.trans hheld
      rw [hvalue]
      by_cases hfixed : order₀ i = i
      · -- a place that keeps its row is settled as it is
        rw [if_pos hfixed]
        have hset := h.settle hi (hfixed.symm ▸ hrow₀ : rows₀[order₀ i]? = some held)
          (fun _ => False) fun _ _ hno => hno
        have horder' : order.set i i = order := by
          refine List.ext_getElem? fun j => ?_
          by_cases hj : j = i
          · subst hj
            rw [List.getElem?_set_self (by omega), horder, hfixed]
          · rw [List.getElem?_set_ne (Ne.symm hj)]
        have hrows' : rows.set i held = rows := by
          refine List.ext_getElem? fun j => ?_
          by_cases hj : j = i
          · subst hj
            rw [List.getElem?_set_self (by omega), hheld]
          · rw [List.getElem?_set_ne (Ne.symm hj)]
        rw [horder', hrows'] at hset
        refine ih hset (fun j hj => ?_) (fun j hj => ?_) (by omega)
        · rcases Finset.mem_insert.mp hj with rfl | hj
          · exact ⟨j, Finset.mem_insert_self _ _, hfixed⟩
          · obtain ⟨k, hk, hkj⟩ := hbefore j hj
            exact ⟨k, Finset.mem_insert_of_mem hk, hkj⟩
        · rcases Nat.lt_succ_iff_lt_or_eq.mp hj with hj | rfl
          · exact Finset.mem_insert_of_mem (hfront j hj)
          · exact Finset.mem_insert_self _ _
      · rw [if_neg hfixed]
        have hhole : Moved n order₀ rows₀ done (· = i) order rows :=
          ⟨h.lengths, h.inside, h.settled, fun j hj hout =>
            ⟨(h.waiting j hj hout).1, fun _ => (h.waiting j hj hout).2 fun hno => hno⟩⟩
        have hfuel : n < order.length + 1 + done.card := by omega
        obtain ⟨done', hsub, hin, hclosed, hmoved⟩ :=
          followCycle_settles hperm hhole hi hdone (by
            rintro j (hj | rfl) hji
            · exact hbefore j hj
            · exact absurd rfl hji) (Or.inl rfl) hrow₀ hfuel
        refine ih hmoved hclosed (fun j hj => ?_) (by omega)
        rcases Nat.lt_succ_iff_lt_or_eq.mp hj with hj | rfl
        · exact hsub (hfront j hj)
        · exact hin

end

/-- The moves put at each place the row that the order names. -/
theorem reorder_eq {order : List Nat} {rows : List α} (horder : order.Perm (List.range rows.length))
    (spare : α) :
    reorder rows.length 0 order rows = order.map fun i => rows.getD i spare := by
  have hlen : order.length = rows.length := by simpa using horder.length_eq
  have hnodup : order.Nodup := horder.nodup_iff.mpr List.nodup_range
  have hget : ∀ i < rows.length, order[i]? = some (order.getD i 0) := fun i hi => by
    rw [List.getD_eq_getElem?_getD, List.getElem?_eq_getElem (by omega)]
    rfl
  have hrange : ∀ i < rows.length, order.getD i 0 < rows.length := fun i hi =>
    List.mem_range.mp (horder.mem_iff.mp (List.mem_of_getElem? (hget i hi)))
  have hperm : Arranges rows.length (order.getD · 0) := by
    refine ⟨hrange, fun i hi j hj heq => ?_⟩
    exact (List.getElem?_inj (by omega) hnodup).mp ((hget i hi).trans (heq ▸ (hget j hj).symm))
  have hstart : Moved rows.length (order.getD · 0) rows ∅ (fun _ => False) order rows :=
    ⟨⟨hlen, rfl, rfl⟩, by simp, by simp, fun i hi _ => ⟨hget i hi, fun _ => rfl⟩⟩
  have hdone := reorder_settles (m := rows.length) (i := 0) hperm hstart (by simp) (by simp)
    (Nat.zero_add _)
  refine List.ext_getElem? fun j => ?_
  by_cases hj : j < rows.length
  · rw [(hdone j hj).1, List.getElem?_map, hget j hj]
    show rows[order.getD j 0]? = some (rows.getD (order.getD j 0) spare)
    have hlt := hrange j hj
    generalize order.getD j 0 = source at hlt ⊢
    rw [List.getD_eq_getElem?_getD, List.getElem?_eq_getElem hlt]
    rfl
  · have hlength : (reorder rows.length 0 order rows).length = rows.length := by
      rcases Nat.eq_zero_or_pos rows.length with hzero | hpos
      · rw [hzero]
        exact hzero
      · exact (hdone 0 hpos).2
    rw [List.getElem?_eq_none (by omega), List.getElem?_eq_none (by simp; omega)]

end Library
