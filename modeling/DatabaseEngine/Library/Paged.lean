import Mathlib.Logic.Function.Basic

/-!
# `DatabaseEngine.Library.Paged`: programs over a store of numbered pages

A `PageM` program allocates pages, reads and writes them, frees them, and may ask how many
ids were ever used. It is a tree of
requests, so one text of a program runs on anything that answers the requests. `Store` is
the plain one: a map from page ids to contents, the number of ids ever used, and the freed
ids, the last one first.

`PageM.ReadOnly` programs only look, and `PageM.Looks` is what one of them answers, with the
pages it looks at.

`PageM.wp` is the weakest precondition on the plain store. It demands that every request is
legal there: what is read, written or freed is allocated, or out of range and read as
nothing. `wp_bind` and `wp_mono` are the rules for composing programs, `wp_run` connects to
the run, and `wp_sound` says that legal programs keep the store sound.

`Store.hide` forgets what some pages hold. What is legal without them leaves them alone:
`wp_hide` is the frame rule. `PageM.during` is about every store on the way of a run.

`Store.Moves` is the frame condition in use: a program that owned the pages `A` owns the
pages `B` afterwards, took the new ones from the unallocated, and left every other allocated
page as it was.
-/

set_option autoImplicit false

namespace Library

universe u

/-- A program over pages with contents `β`. -/
inductive PageM (β : Type) (α : Type u) : Type u
  | pure (a : α)
  | alloc (next : Nat → PageM β α)
  | read (id : Nat) (next : Option β → PageM β α)
  | write (id : Nat) (body : β) (next : PageM β α)
  | free (id : Nat) (next : PageM β α)
  | count (next : Nat → PageM β α)

namespace PageM

variable {β : Type} {α γ : Type u}

/-- One program behind another. -/
def bind : PageM β α → (α → PageM β γ) → PageM β γ
  | pure a, f => f a
  | alloc next, f => alloc fun id => (next id).bind f
  | read id next, f => read id fun body => (next body).bind f
  | write id body next, f => write id body (next.bind f)
  | free id next, f => free id (next.bind f)
  | count next, f => count fun n => (next n).bind f

/-- Three programs, one behind the other. -/
theorem bind_assoc {δ : Type u} (x : PageM β α) (f : α → PageM β γ) (g : γ → PageM β δ) :
    (x.bind f).bind g = x.bind fun a => (f a).bind g := by
  induction x with
  | pure a => rfl
  | alloc next ih => exact congrArg PageM.alloc (funext ih)
  | read id next ih => exact congrArg (PageM.read id) (funext ih)
  | write id body next ih => exact congrArg (PageM.write id body) ih
  | free id next ih => exact congrArg (PageM.free id) ih
  | count next ih => exact congrArg PageM.count (funext ih)

instance : Monad (PageM β) where
  pure := PageM.pure
  bind := PageM.bind

/-- The monad's answer is the constructor. -/
@[simp] theorem pure_eq (a : α) : (Pure.pure a : PageM β α) = PageM.pure a := rfl

/-- The monad's sequence is `bind`. -/
@[simp] theorem bind_eq (x : PageM β α) (f : α → PageM β γ) : x >>= f = x.bind f := rfl

end PageM

/-- The plain store. -/
structure Store (β : Type) where
  count : Nat
  free : List Nat
  body : Nat → Option β

namespace Store

variable {β : Type}

/-- The page is within the file and not free. -/
def Allocated (s : Store β) (id : Nat) : Prop := id < s.count ∧ id ∉ s.free

/-- The id the next allocation answers. -/
def nextId (s : Store β) : Nat := s.free.headD s.count

/-- Hands out the next id with a blank page. -/
def alloc (s : Store β) (zero : β) : Store β where
  count := if s.free.isEmpty then s.count + 1 else s.count
  free := s.free.tail
  body := Function.update s.body s.nextId (some zero)

/-- Gives a page another body. -/
def write (s : Store β) (id : Nat) (body : β) : Store β :=
  { s with body := Function.update s.body id (some body) }

/-- Puts a page on the list of free ones. -/
def release (s : Store β) (id : Nat) : Store β :=
  { s with free := id :: s.free, body := Function.update s.body id none }

/-- The free ids are in range and listed once, and exactly the allocated pages of which the
store knows the contents have some. -/
structure Sound (s : Store β) : Prop where
  freeInRange : ∀ id ∈ s.free, id < s.count
  freeNodup : s.free.Nodup
  unallocated : ∀ id, ¬s.Allocated id → s.body id = none

end Store

namespace PageM

variable {β : Type} {α γ : Type u}

/-- The run on the plain store. -/
def run (zero : β) : PageM β α → Store β → α × Store β
  | pure a, s => (a, s)
  | alloc next, s => (next s.nextId).run zero (s.alloc zero)
  | read id next, s => (next (s.body id)).run zero s
  | write id body next, s => next.run zero (s.write id body)
  | free id next, s => next.run zero (s.release id)
  | count next, s => (next s.count).run zero s

/-- Every request of the run is legal, and the run ends in `Q`. -/
def wp (zero : β) : PageM β α → (α → Store β → Prop) → Store β → Prop
  | pure a, Q, s => Q a s
  | alloc next, Q, s => (next s.nextId).wp zero Q (s.alloc zero)
  | read id next, Q, s =>
    ((s.body id).isSome ∨ s.count ≤ id) ∧ (next (s.body id)).wp zero Q s
  | write id body next, Q, s => (s.body id).isSome ∧ next.wp zero Q (s.write id body)
  | free id next, Q, s => (s.body id).isSome ∧ next.wp zero Q (s.release id)
  | count next, Q, s => (next s.count).wp zero Q s

/-- The rule for two programs. -/
theorem wp_bind {zero : β} (x : PageM β α) (f : α → PageM β γ) (Q : γ → Store β → Prop)
    (s : Store β) :
    (x.bind f).wp zero Q s ↔ x.wp zero (fun a s => (f a).wp zero Q s) s := by
  induction x generalizing s with
  | pure a => rfl
  | alloc next ih => exact ih _ _
  | read id next ih => exact and_congr_right fun _ => ih _ _
  | write id body next ih => exact and_congr_right fun _ => ih _
  | free id next ih => exact and_congr_right fun _ => ih _
  | count next ih => exact ih _ _

/-- A weaker postcondition. -/
theorem wp_mono {zero : β} {x : PageM β α} {Q Q' : α → Store β → Prop} {s : Store β}
    (h : x.wp zero Q s) (hQ : ∀ a s, Q a s → Q' a s) : x.wp zero Q' s := by
  induction x generalizing s with
  | pure a => exact hQ a s h
  | alloc next ih => exact ih _ h
  | read id next ih => exact ⟨h.1, ih _ h.2⟩
  | write id body next ih => exact ⟨h.1, ih h.2⟩
  | free id next ih => exact ⟨h.1, ih h.2⟩
  | count next ih => exact ih _ h

/-- What the precondition promises holds of the run. -/
theorem wp_run {zero : β} {x : PageM β α} {Q : α → Store β → Prop} {s : Store β}
    (h : x.wp zero Q s) : Q (x.run zero s).1 (x.run zero s).2 := by
  induction x generalizing s with
  | pure a => exact h
  | alloc next ih => exact ih _ h
  | read id next ih => exact ih _ h.2
  | write id body next ih => exact ih h.2
  | free id next ih => exact ih h.2
  | count next ih => exact ih _ h

/-- The store that the precondition promises of is the one that the run ends in. -/
theorem wp_ends {zero : β} {x : PageM β α} {Q : α → Store β → Prop} {s : Store β}
    (h : x.wp zero Q s) : x.wp zero (fun a s' => Q a s' ∧ s' = (x.run zero s).2) s := by
  induction x generalizing s with
  | pure a => exact ⟨h, rfl⟩
  | alloc next ih => exact ih _ h
  | read id next ih => exact ⟨h.1, ih _ h.2⟩
  | write id body next ih => exact ⟨h.1, ih h.2⟩
  | free id next ih => exact ⟨h.1, ih h.2⟩
  | count next ih => exact ih _ h

/-- A program that only looks. -/
def ReadOnly : PageM β α → Prop
  | pure _ => True
  | alloc _ => False
  | read _ next => ∀ body, (next body).ReadOnly
  | write _ _ _ => False
  | free _ _ => False
  | count next => ∀ n, (next n).ReadOnly

/-- Where page `id` reads as `body id`, the program looks at pages of `S` and at nothing else,
and answers `a`. -/
def Looks (S : Nat → Prop) (n : Nat) (body : Nat → Option β) : PageM β α → α → Prop
  | pure b, a => b = a
  | alloc _, _ => False
  | read id next, a => S id ∧ (next (body id)).Looks S n body a
  | write _ _ _, _ => False
  | free _ _, _ => False
  | count next, a => (next n).Looks S n body a

section
variable {S T : Nat → Prop} {n : Nat} {body body' : Nat → Option β}

/-- What two programs may see, one behind the other. -/
theorem looks_bind {x : PageM β α} {f : α → PageM β γ} {c : γ} :
    (x.bind f).Looks S n body c ↔ ∃ a, x.Looks S n body a ∧ (f a).Looks S n body c := by
  induction x with
  | pure b =>
    constructor
    · exact fun h => ⟨b, rfl, h⟩
    · rintro ⟨a, rfl, h⟩
      exact h
  | alloc next ih =>
    constructor
    · exact fun h => h.elim
    · rintro ⟨a, h, -⟩
      exact h.elim
  | read id next ih =>
    constructor
    · rintro ⟨hS, h⟩
      obtain ⟨a, ha, hc⟩ := (ih _).mp h
      exact ⟨a, ⟨hS, ha⟩, hc⟩
    · rintro ⟨a, ⟨hS, ha⟩, hc⟩
      exact ⟨hS, (ih _).mpr ⟨a, ha, hc⟩⟩
  | write id b next ih =>
    constructor
    · exact fun h => h.elim
    · rintro ⟨a, h, -⟩
      exact h.elim
  | free id next ih =>
    constructor
    · exact fun h => h.elim
    · rintro ⟨a, h, -⟩
      exact h.elim
  | count next ih => exact ih n

/-- A program that only looks answers something. -/
theorem ReadOnly.looks {x : PageM β α} (h : x.ReadOnly) (n : Nat) (body : Nat → Option β) :
    ∃ a, x.Looks (fun _ => True) n body a := by
  induction x with
  | pure b => exact ⟨b, rfl⟩
  | alloc next ih => exact h.elim
  | read id next ih =>
    obtain ⟨a, ha⟩ := ih (body id) (h (body id))
    exact ⟨a, trivial, ha⟩
  | write id b next ih => exact h.elim
  | free id next ih => exact h.elim
  | count next ih => exact ih n (h n)

/-- Only the pages that are looked at matter. -/
theorem Looks.congr {x : PageM β α} {a : α} (h : x.Looks S n body a)
    (hbody : ∀ id, S id → T id ∧ body' id = body id) : x.Looks T n body' a := by
  induction x with
  | pure b => exact h
  | alloc next ih => exact h.elim
  | read id next ih =>
    obtain ⟨hS, h⟩ := h
    obtain ⟨hT, heq⟩ := hbody id hS
    refine ⟨hT, ?_⟩
    rw [heq]
    exact ih _ h
  | write id b next ih => exact h.elim
  | free id next ih => exact h.elim
  | count next ih => exact ih n h

end

end PageM

namespace Store

variable {β : Type} {s s' : Store β} {id : Nat}

/-- A page with contents is allocated. -/
theorem Sound.allocated (h : s.Sound) (hbody : (s.body id).isSome) : s.Allocated id := by
  by_contra hid
  rw [h.unallocated id hid] at hbody
  exact absurd hbody (by simp)

/-- The next id is in range of what the store counts or just past it, and not allocated. -/
theorem Sound.nextId_fresh (h : s.Sound) (zero : β) :
    ¬s.Allocated s.nextId ∧ (s.alloc zero).Allocated s.nextId := by
  unfold Allocated nextId alloc
  cases hfree : s.free with
  | nil => simp
  | cons id rest =>
    have hrange := h.freeInRange id (by simp [hfree])
    have hnodup := h.freeNodup
    rw [hfree] at hnodup
    simpa using ⟨hrange, (List.nodup_cons.mp hnodup).1⟩

/-- An allocation adds the next id to the allocated ones. -/
theorem Sound.alloc_allocated (h : s.Sound) (zero : β) (id : Nat) :
    (s.alloc zero).Allocated id ↔ s.Allocated id ∨ id = s.nextId := by
  unfold Allocated nextId Store.alloc
  cases hfree : s.free with
  | nil =>
    simp
    omega
  | cons top rest =>
    have hrange := h.freeInRange top (by simp [hfree])
    have hnodup := h.freeNodup
    rw [hfree] at hnodup
    have htop := (List.nodup_cons.mp hnodup).1
    simp only [List.isEmpty_cons, Bool.false_eq_true, if_false, List.tail_cons, List.mem_cons,
      List.headD_cons, not_or]
    constructor
    · rintro ⟨hlt, hin⟩
      by_cases hid : id = top
      · exact Or.inr hid
      · exact Or.inl ⟨hlt, hid, hin⟩
    · rintro (⟨hlt, -, hin⟩ | rfl)
      · exact ⟨hlt, hin⟩
      · exact ⟨hrange, htop⟩

/-- An allocation keeps a store sound. -/
theorem Sound.alloc (h : s.Sound) (zero : β) : (s.alloc zero).Sound := by
  constructor
  · intro id hid
    have hold := h.freeInRange id (List.mem_of_mem_tail hid)
    show id < if s.free.isEmpty then s.count + 1 else s.count
    split <;> omega
  · exact h.freeNodup.tail
  · intro id hid
    rw [h.alloc_allocated] at hid
    have hne : id ≠ s.nextId := fun heq => hid (Or.inr heq)
    simpa [Store.alloc, hne] using h.unallocated id fun hal => hid (Or.inl hal)

/-- A write keeps a store sound. -/
theorem Sound.write (h : s.Sound) (hid : (s.body id).isSome) (body : β) :
    (s.write id body).Sound := by
  refine ⟨h.freeInRange, h.freeNodup, fun other hother => ?_⟩
  have hne : other ≠ id := by
    rintro rfl
    exact hother (h.allocated hid)
  simpa [Store.write, hne] using h.unallocated other hother

/-- A release keeps a store sound. -/
theorem Sound.release (h : s.Sound) (hid : (s.body id).isSome) : (s.release id).Sound := by
  have hal := h.allocated hid
  refine ⟨?_, List.nodup_cons.mpr ⟨hal.2, h.freeNodup⟩, fun other hother => ?_⟩
  · intro other hin
    rcases List.mem_cons.mp hin with rfl | hin
    · exact hal.1
    · exact h.freeInRange other hin
  · by_cases hne : other = id
    · simp [Store.release, hne]
    · have hold : ¬s.Allocated other := fun hold =>
        hother ⟨hold.1, fun hin => by
          rcases List.mem_cons.mp hin with heq | hin
          · exact hne heq
          · exact hold.2 hin⟩
      simpa [Store.release, hne] using h.unallocated other hold

/-- Every allocated page has contents. -/
def Full (s : Store β) : Prop := ∀ id, s.Allocated id → (s.body id).isSome

/-- An allocation leaves no page without contents. -/
theorem Full.alloc (h : s.Full) (hs : s.Sound) (zero : β) : (s.alloc zero).Full := by
  intro id hid
  by_cases hne : id = s.nextId
  · simp [Store.alloc, hne]
  · rcases (hs.alloc_allocated zero id).mp hid with hold | heq
    · simpa [Store.alloc, hne] using h id hold
    · exact absurd heq hne

/-- A write leaves no page without contents. -/
theorem Full.write (h : s.Full) (id : Nat) (body : β) : (s.write id body).Full := by
  intro other hother
  by_cases hne : other = id
  · simp [Store.write, hne]
  · simpa [Store.write, hne] using h other hother

/-- A release leaves no page without contents. -/
theorem Full.release (h : s.Full) (id : Nat) : (s.release id).Full := by
  intro other hother
  have hout : other ≠ id ∧ other ∉ s.free := by simpa [Store.release] using hother.2
  simpa [Store.release, hout.1] using h other ⟨hother.1, hout.2⟩

/-- The frame condition: a program that owned the pages `A` owns `B` afterwards. -/
structure Moves (s s' : Store β) (A B : List Nat) : Prop where
  nodup : B.Nodup
  allocated : ∀ id ∈ B, s'.Allocated id
  fresh : ∀ id ∈ B, id ∈ A ∨ ¬s.Allocated id
  keeps : ∀ id, s.Allocated id → id ∉ A → s'.Allocated id ∧ s'.body id = s.body id
  /-- No page is lost: what is allocated is owned, or was somebody else's before. -/
  accounts : ∀ id, s'.Allocated id → id ∈ B ∨ (s.Allocated id ∧ id ∉ A)

namespace Moves

variable {s'' : Store β} {A B C F : List Nat}

/-- No page has moved. -/
theorem refl (hnodup : A.Nodup) (halloc : ∀ id ∈ A, s.Allocated id) : Moves s s A A :=
  ⟨hnodup, halloc, fun _ h => Or.inl h, fun _ h _ => ⟨h, rfl⟩, fun id hal => by
    by_cases hid : id ∈ A
    · exact Or.inl hid
    · exact Or.inr ⟨hal, hid⟩⟩

/-- A page that somebody else owned is not among the new ones. -/
theorem notMem (h : Moves s s' A B) (hal : s.Allocated id) (hA : id ∉ A) : id ∉ B := by
  intro hB
  rcases h.fresh id hB with hin | hfree
  · exact hA hin
  · exact hfree hal

/-- Two changes of a structure's pages, one behind the other. -/
theorem trans (h : Moves s s' A B) (h' : Moves s' s'' B C) : Moves s s'' A C := by
  refine ⟨h'.nodup, h'.allocated, fun id hC => ?_, fun id hal hA => ?_, fun id hal => ?_⟩
  · by_cases hA : id ∈ A
    · exact Or.inl hA
    · refine Or.inr fun hal => ?_
      rcases h'.fresh id hC with hB | hfree
      · exact h.notMem hal hA hB
      · exact hfree (h.keeps id hal hA).1
  · obtain ⟨hal', hbody⟩ := h.keeps id hal hA
    obtain ⟨hal'', hbody'⟩ := h'.keeps id hal' (h.notMem hal hA)
    exact ⟨hal'', hbody'.trans hbody⟩
  · rcases h'.accounts id hal with hC | ⟨hal', hB⟩
    · exact Or.inl hC
    · exact Or.inr ((h.accounts id hal').resolve_left hB)

/-- What the program did not own, its owner still owns, unchanged and apart from the rest. -/
theorem frame (h : Moves s s' A B) (hnodup : (A ++ F).Nodup)
    (halloc : ∀ id ∈ A ++ F, s.Allocated id) : Moves s s' (A ++ F) (B ++ F) := by
  have happ := List.nodup_append.mp hnodup
  have hF : ∀ id ∈ F, s.Allocated id ∧ id ∉ A := fun id hid =>
    ⟨halloc id (List.mem_append.mpr (Or.inr hid)), fun hA => happ.2.2 id hA id hid rfl⟩
  refine ⟨List.nodup_append.mpr ⟨h.nodup, happ.2.1, ?_⟩, fun id hid => ?_, fun id hid => ?_,
    fun id hal hout => h.keeps id hal fun hA => hout (List.mem_append.mpr (Or.inl hA)),
    fun id hal => ?_⟩
  · rintro id hB other hother rfl
    obtain ⟨hal, hA⟩ := hF id hother
    exact h.notMem hal hA hB
  · rcases List.mem_append.mp hid with hB | hother
    · exact h.allocated id hB
    · obtain ⟨hal, hA⟩ := hF id hother
      exact (h.keeps id hal hA).1
  · rcases List.mem_append.mp hid with hB | hother
    · exact (h.fresh id hB).imp (fun hA => List.mem_append.mpr (Or.inl hA)) fun hfree => hfree
    · exact Or.inl (List.mem_append.mpr (Or.inr hother))
  · rcases h.accounts id hal with hB | ⟨hal', hA⟩
    · exact Or.inl (List.mem_append.mpr (Or.inl hB))
    · by_cases hF' : id ∈ F
      · exact Or.inl (List.mem_append.mpr (Or.inr hF'))
      · exact Or.inr ⟨hal', fun hin => (List.mem_append.mp hin).elim hA hF'⟩

/-- Only which pages are owned matters, not the order in which they are listed. -/
theorem perm (h : Moves s s' A B) {A' B' : List Nat} (hA : A.Perm A') (hB : B.Perm B') :
    Moves s s' A' B' :=
  ⟨hB.nodup_iff.mp h.nodup, fun id hid => h.allocated id (hB.mem_iff.mpr hid),
    fun id hid => (h.fresh id (hB.mem_iff.mpr hid)).imp_left hA.mem_iff.mp,
    fun id hal hid => h.keeps id hal fun hin => hid (hA.mem_iff.mp hin),
    fun id hal => (h.accounts id hal).imp hB.mem_iff.mp fun hother =>
      ⟨hother.1, fun hin => hother.2 (hA.mem_iff.mpr hin)⟩⟩

/-- A page is written by its owner. -/
theorem write (hnodup : A.Nodup) (halloc : ∀ id ∈ A, s.Allocated id)
    (hid : id ∈ A) (body : β) : Moves s (s.write id body) A A :=
  ⟨hnodup, halloc, fun _ h => Or.inl h, fun other hal hout => ⟨hal, by
    have hne : other ≠ id := fun heq => hout (heq ▸ hid)
    simp [Store.write, hne]⟩, fun other hal => by
    by_cases hother : other ∈ A
    · exact Or.inl hother
    · exact Or.inr ⟨hal, hother⟩⟩

/-- A page that is taken is one of the structure's. -/
theorem alloc (hs : s.Sound) (zero : β) (hnodup : A.Nodup) (halloc : ∀ id ∈ A, s.Allocated id) :
    Moves s (s.alloc zero) A (s.nextId :: A) := by
  obtain ⟨hfresh, hnew⟩ := hs.nextId_fresh zero
  refine ⟨List.nodup_cons.mpr ⟨fun hin => hfresh (halloc _ hin), hnodup⟩, fun id hid => ?_,
    fun id hid => ?_, fun id hal hout => ⟨(hs.alloc_allocated zero id).mpr (Or.inl hal), ?_⟩,
    fun id hal => ?_⟩
  · rcases List.mem_cons.mp hid with rfl | hin
    · exact hnew
    · exact (hs.alloc_allocated zero id).mpr (Or.inl (halloc id hin))
  · rcases List.mem_cons.mp hid with rfl | hin
    · exact Or.inr hfresh
    · exact Or.inl hin
  · have hne : id ≠ s.nextId := fun heq => hfresh (heq ▸ hal)
    simp [Store.alloc, hne]
  · by_cases hA : id ∈ A
    · exact Or.inl (List.mem_cons_of_mem _ hA)
    · rcases (hs.alloc_allocated zero id).mp hal with hold | rfl
      · exact Or.inr ⟨hold, hA⟩
      · exact Or.inl (List.mem_cons_self ..)

/-- A page that is given back is the structure's no longer. -/
theorem release (hnodup : (id :: A).Nodup)
    (halloc : ∀ other ∈ id :: A, s.Allocated other) : Moves s (s.release id) (id :: A) A := by
  have hcons := List.nodup_cons.mp hnodup
  have hstays : ∀ other, s.Allocated other → other ≠ id → (s.release id).Allocated other :=
    fun other hal hne => ⟨hal.1, fun hin => by
      rcases List.mem_cons.mp hin with heq | hin
      · exact hne heq
      · exact hal.2 hin⟩
  refine ⟨hcons.2, fun other hin => ?_, fun other hin => Or.inl (List.mem_cons.mpr (Or.inr hin)),
    fun other hal hout => ?_, fun other hal => ?_⟩
  · exact hstays other (halloc other (List.mem_cons.mpr (Or.inr hin)))
      fun heq => hcons.1 (heq ▸ hin)
  · have hne : other ≠ id := fun heq => hout (List.mem_cons.mpr (Or.inl heq))
    exact ⟨hstays other hal hne, by simp [Store.release, hne]⟩
  · have hout : other ≠ id ∧ other ∉ s.free := by simpa [Store.release] using hal.2
    by_cases hA : other ∈ A
    · exact Or.inl hA
    · exact Or.inr ⟨⟨hal.1, hout.2⟩, fun hin => (List.mem_cons.mp hin).elim hout.1 hA⟩

end Moves

end Store

/-- A program whose requests are legal keeps the store sound, and full when it was full. -/
theorem PageM.wp_sound {β : Type} {α : Type u} {zero : β} {x : PageM β α}
    {Q : α → Store β → Prop} {s : Store β} (h : x.wp zero Q s) (hs : s.Sound) :
    x.wp zero (fun a s' => Q a s' ∧ s'.Sound ∧ (s.Full → s'.Full)) s := by
  induction x generalizing s with
  | pure a => exact ⟨h, hs, fun hfull => hfull⟩
  | alloc next ih =>
    refine PageM.wp_mono (ih _ h (hs.alloc zero)) fun _ _ hdone => ?_
    exact ⟨hdone.1, hdone.2.1, fun hfull => hdone.2.2 (hfull.alloc hs zero)⟩
  | read id next ih => exact ⟨h.1, ih _ h.2 hs⟩
  | write id body next ih =>
    refine ⟨h.1, PageM.wp_mono (ih h.2 (hs.write h.1 body)) fun _ _ hdone => ?_⟩
    exact ⟨hdone.1, hdone.2.1, fun hfull => hdone.2.2 (hfull.write id body)⟩
  | free id next ih =>
    refine ⟨h.1, PageM.wp_mono (ih h.2 (hs.release h.1)) fun _ _ hdone => ?_⟩
    exact ⟨hdone.1, hdone.2.1, fun hfull => hdone.2.2 (hfull.release id)⟩
  | count next ih => exact ih _ h hs

/-! ### Pages that a program leaves alone -/

section
variable {β : Type} {α γ : Type u} {zero : β}

/-- The store, as one sees it who does not know what some of its pages hold. -/
def Store.hide (F : Nat → Prop) [DecidablePred F] (s : Store β) : Store β :=
  { s with body := fun id => if F id then none else s.body id }

namespace Store

variable {F : Nat → Prop} [DecidablePred F] {s : Store β} {id : Nat}

/-- Hidden pages count. -/
theorem hide_count : (s.hide F).count = s.count := rfl

/-- A page that is seen is not hidden. -/
theorem hide_isSome (h : ((s.hide F).body id).isSome) : ¬F id := by
  intro hF
  simp [hide, hF] at h

/-- A page that is not hidden is seen as it is. -/
theorem hide_body (h : ¬F id) : (s.hide F).body id = s.body id := if_neg h

/-- A sound store is so without the hidden pages' contents. -/
theorem Sound.hide (h : s.Sound) : (s.hide F).Sound := by
  refine ⟨h.freeInRange, h.freeNodup, fun id hid => ?_⟩
  show (if F id then none else s.body id) = none
  split
  · rfl
  · exact h.unallocated id hid

/-- An allocation does not see what is hidden. -/
theorem hide_alloc (hs : s.Sound) (hF : ∀ id, F id → s.Allocated id) :
    (s.alloc zero).hide F = (s.hide F).alloc zero := by
  have hnext : ¬F s.nextId := fun hin => (hs.nextId_fresh zero).1 (hF _ hin)
  have hbody : (fun id => if F id then none else Function.update s.body s.nextId (some zero) id)
      = Function.update (fun id => if F id then none else s.body id) s.nextId (some zero) := by
    funext id
    by_cases hid : id = s.nextId
    · subst hid
      rw [if_neg hnext, Function.update_self, Function.update_self]
    · rw [Function.update_of_ne hid, Function.update_of_ne hid]
  unfold Store.alloc
  exact congrArg (Store.mk _ _) hbody

/-- A write to a page that is not hidden does not see what is. -/
theorem hide_write (hid : ¬F id) (body : β) : (s.write id body).hide F = (s.hide F).write id body := by
  have hbody : (fun other => if F other then none else Function.update s.body id (some body) other)
      = Function.update (fun other => if F other then none else s.body other) id (some body) := by
    funext other
    by_cases hother : other = id
    · subst hother
      rw [if_neg hid, Function.update_self, Function.update_self]
    · rw [Function.update_of_ne hother, Function.update_of_ne hother]
  exact congrArg (Store.mk _ _) hbody

/-- Nor does the release of one. -/
theorem hide_release (hid : ¬F id) : (s.release id).hide F = (s.hide F).release id := by
  have hbody : (fun other => if F other then none else Function.update s.body id none other)
      = Function.update (fun other => if F other then none else s.body other) id none := by
    funext other
    by_cases hother : other = id
    · subst hother
      rw [if_neg hid, Function.update_self, Function.update_self]
    · rw [Function.update_of_ne hother, Function.update_of_ne hother]
  exact congrArg (Store.mk _ _) hbody

omit [DecidablePred F] in
/-- An id behind the last page is not hidden. -/
theorem allocated_of_range (hF : ∀ id, F id → s.Allocated id) (hid : s.count ≤ id) : ¬F id :=
  fun hin => absurd (hF id hin).1 (Nat.not_lt.mpr hid)

/-- What a legal read looks at is known. -/
theorem hide_known (hF : ∀ id, F id → s.Allocated id)
    (h : ((s.hide F).body id).isSome ∨ s.count ≤ id) : ¬F id :=
  h.elim hide_isSome (allocated_of_range hF)

/-- The pages are still allocated, and hold what they held. -/
def Spares (F : Nat → Prop) (s s' : Store β) : Prop :=
  ∀ id, F id → s'.Allocated id ∧ s'.body id = s.body id

section
omit [DecidablePred F]

/-- Nothing has changed. -/
theorem Spares.refl (hF : ∀ id, F id → s.Allocated id) : s.Spares F s := fun id hid =>
  ⟨hF id hid, rfl⟩

/-- Two changes that spare the hidden pages, one behind the other. -/
theorem Spares.trans {s' s'' : Store β} (h : s.Spares F s') (h' : s'.Spares F s'') :
    s.Spares F s'' := fun id hid =>
  ⟨(h' id hid).1, (h' id hid).2.trans (h id hid).2⟩

/-- An allocation spares them. -/
theorem Spares.alloc (hs : s.Sound) (zero : β) (hF : ∀ id, F id → s.Allocated id) :
    s.Spares F (s.alloc zero) := by
  intro id hid
  have hal := hF id hid
  have hne : id ≠ s.nextId := fun heq => (hs.nextId_fresh zero).1 (heq ▸ hal)
  exact ⟨(hs.alloc_allocated zero id).mpr (Or.inl hal), by simp [Store.alloc, hne]⟩

/-- A write to another page spares them. -/
theorem Spares.write (hF : ∀ id, F id → s.Allocated id) (hid : ¬F id) (body : β) :
    s.Spares F (s.write id body) := by
  intro other hother
  have hne : other ≠ id := fun heq => hid (heq ▸ hother)
  exact ⟨hF other hother, by simp [Store.write, hne]⟩

/-- The release of another page spares them. -/
theorem Spares.release (hF : ∀ id, F id → s.Allocated id) (hid : ¬F id) :
    s.Spares F (s.release id) := by
  intro other hother
  have hne : other ≠ id := fun heq => hid (heq ▸ hother)
  have hal := hF other hother
  refine ⟨⟨hal.1, fun hin => ?_⟩, by simp [Store.release, hne]⟩
  rcases List.mem_cons.mp hin with heq | hin
  · exact hne heq
  · exact hal.2 hin

/-- The hidden pages stay allocated. -/
theorem Spares.allocated {s' : Store β} (h : s.Spares F s') : ∀ id, F id → s'.Allocated id :=
  fun id hid => (h id hid).1

end

end Store

namespace PageM

variable {F : Nat → Prop} [DecidablePred F]

/-- The frame rule: what is legal without knowing some pages does the same with them there, and
leaves them alone. -/
theorem wp_hide {x : PageM β α} {Q : α → Store β → Prop} {s : Store β} (hs : s.Sound)
    (hF : ∀ id, F id → s.Allocated id) (h : x.wp zero Q (s.hide F)) :
    x.wp zero (fun a s' => Q a (s'.hide F) ∧ s.Spares F s') s := by
  induction x generalizing s with
  | pure a => exact ⟨h, .refl hF⟩
  | alloc next ih =>
    have hspares := Store.Spares.alloc hs zero hF
    rw [wp, ← Store.hide_alloc hs hF] at h
    exact wp_mono (ih _ (hs.alloc zero) hspares.allocated h) fun _ _ hdone =>
      ⟨hdone.1, hspares.trans hdone.2⟩
  | read id next ih =>
    obtain ⟨hlegal, h⟩ := h
    have hknown := Store.hide_known hF hlegal
    rw [Store.hide_body hknown] at hlegal h
    exact ⟨hlegal, ih _ hs hF h⟩
  | write id body next ih =>
    obtain ⟨hlegal, h⟩ := h
    have hknown := Store.hide_isSome hlegal
    have hspares := Store.Spares.write hF hknown body
    rw [Store.hide_body hknown] at hlegal
    rw [← Store.hide_write hknown] at h
    exact ⟨hlegal, wp_mono (ih (hs.write hlegal body) hspares.allocated h) fun _ _ hdone =>
      ⟨hdone.1, hspares.trans hdone.2⟩⟩
  | free id next ih =>
    obtain ⟨hlegal, h⟩ := h
    have hknown := Store.hide_isSome hlegal
    have hspares := Store.Spares.release hF hknown
    rw [Store.hide_body hknown] at hlegal
    rw [← Store.hide_release hknown] at h
    exact ⟨hlegal, wp_mono (ih (hs.release hlegal) hspares.allocated h) fun _ _ hdone =>
      ⟨hdone.1, hspares.trans hdone.2⟩⟩
  | count next ih => exact ih _ hs hF h

/-- No id is ever taken back. -/
theorem count_le_run (x : PageM β α) (s : Store β) : s.count ≤ (x.run zero s).2.count := by
  induction x generalizing s with
  | pure a => exact Nat.le_refl _
  | alloc next ih =>
    refine Nat.le_trans ?_ (ih s.nextId (s.alloc zero))
    show s.count ≤ if s.free.isEmpty then s.count + 1 else s.count
    split <;> omega
  | read id next ih => exact ih _ s
  | write id body next ih => exact ih (s.write id body)
  | free id next ih => exact ih (s.release id)
  | count next ih => exact ih _ s

/-- Every store on the way of the run satisfies `I`. -/
def during (zero : β) (I : Store β → Prop) : PageM β α → Store β → Prop
  | pure _, s => I s
  | alloc next, s => I s ∧ (next s.nextId).during zero I (s.alloc zero)
  | read id next, s => I s ∧ (next (s.body id)).during zero I s
  | write id body next, s => I s ∧ next.during zero I (s.write id body)
  | free id next, s => I s ∧ next.during zero I (s.release id)
  | count next, s => I s ∧ (next s.count).during zero I s

/-- The rule for two programs. -/
theorem during_bind {I : Store β → Prop} {x : PageM β α} {f : α → PageM β γ} {s : Store β}
    (h : x.during zero I s) (hf : (f (x.run zero s).1).during zero I (x.run zero s).2) :
    (x.bind f).during zero I s := by
  induction x generalizing s with
  | pure a => exact hf
  | alloc next ih => exact ⟨h.1, ih _ h.2 hf⟩
  | read id next ih => exact ⟨h.1, ih _ h.2 hf⟩
  | write id body next ih => exact ⟨h.1, ih h.2 hf⟩
  | free id next ih => exact ⟨h.1, ih h.2 hf⟩
  | count next ih => exact ⟨h.1, ih _ h.2 hf⟩

/-- The last store is on the way, too. -/
theorem during_end {I : Store β → Prop} {x : PageM β α} {s : Store β} (h : x.during zero I s) :
    I (x.run zero s).2 := by
  induction x generalizing s with
  | pure a => exact h
  | alloc next ih => exact ih _ h.2
  | read id next ih => exact ih _ h.2
  | write id body next ih => exact ih h.2
  | free id next ih => exact ih h.2
  | count next ih => exact ih _ h.2

/-- What holds of every store holds on the way. -/
theorem during_of_forall {I : Store β → Prop} {x : PageM β α} {s : Store β} (h : ∀ s, I s) :
    x.during zero I s := by
  induction x generalizing s with
  | pure a => exact h s
  | alloc next ih => exact ⟨h s, ih _⟩
  | read id next ih => exact ⟨h s, ih _⟩
  | write id body next ih => exact ⟨h s, ih⟩
  | free id next ih => exact ⟨h s, ih⟩
  | count next ih => exact ⟨h s, ih _⟩

/-- A weaker condition. -/
theorem during_mono {I J : Store β → Prop} {x : PageM β α} {s : Store β} (h : x.during zero I s)
    (hIJ : ∀ s, I s → J s) : x.during zero J s := by
  induction x generalizing s with
  | pure a => exact hIJ s h
  | alloc next ih => exact ⟨hIJ s h.1, ih _ h.2⟩
  | read id next ih => exact ⟨hIJ s h.1, ih _ h.2⟩
  | write id body next ih => exact ⟨hIJ s h.1, ih h.2⟩
  | free id next ih => exact ⟨hIJ s h.1, ih h.2⟩
  | count next ih => exact ⟨hIJ s h.1, ih _ h.2⟩

/-- Two conditions hold together. -/
theorem during_and {I J : Store β → Prop} {x : PageM β α} {s : Store β} (h : x.during zero I s)
    (h' : x.during zero J s) : x.during zero (fun s => I s ∧ J s) s := by
  induction x generalizing s with
  | pure a => exact ⟨h, h'⟩
  | alloc next ih => exact ⟨⟨h.1, h'.1⟩, ih _ h.2 h'.2⟩
  | read id next ih => exact ⟨⟨h.1, h'.1⟩, ih _ h.2 h'.2⟩
  | write id body next ih => exact ⟨⟨h.1, h'.1⟩, ih h.2 h'.2⟩
  | free id next ih => exact ⟨⟨h.1, h'.1⟩, ih h.2 h'.2⟩
  | count next ih => exact ⟨⟨h.1, h'.1⟩, ih _ h.2 h'.2⟩

/-- No store on the way counts more pages than the last one. -/
theorem during_count {x : PageM β α} {s : Store β} :
    x.during zero (fun t => t.count ≤ (x.run zero s).2.count) s := by
  have hfirst : ∀ {y : PageM β α} {t : Store β} {n : Nat},
      y.during zero (fun t => t.count ≤ n) t → t.count ≤ n := by
    intro y t n h
    cases y with
    | pure a => exact h
    | alloc next => exact h.1
    | read id next => exact h.1
    | write id body next => exact h.1
    | free id next => exact h.1
    | count next => exact h.1
  induction x generalizing s with
  | pure a => exact Nat.le_refl _
  | alloc next ih =>
    have hrest := ih s.nextId (s := s.alloc zero)
    refine ⟨Nat.le_trans ?_ (hfirst hrest), hrest⟩
    show s.count ≤ if s.free.isEmpty then s.count + 1 else s.count
    split <;> omega
  | read id next ih => exact ⟨hfirst (ih _), ih _⟩
  | write id body next ih =>
    have hrest := ih (s := s.write id body)
    exact ⟨hfirst (t := s.write id body) hrest, hrest⟩
  | free id next ih =>
    have hrest := ih (s := s.release id)
    exact ⟨hfirst (t := s.release id) hrest, hrest⟩
  | count next ih => exact ⟨hfirst (ih _), ih _⟩

/-- Pages that the program need not know hold all the way what they held. -/
theorem during_hide {x : PageM β α} {Q : α → Store β → Prop} {s s₀ : Store β} (hs : s.Sound)
    (hspared : s₀.Spares F s) (h : x.wp zero Q (s.hide F)) : x.during zero (s₀.Spares F) s := by
  induction x generalizing s with
  | pure a => exact hspared
  | alloc next ih =>
    rw [wp, ← Store.hide_alloc hs hspared.allocated] at h
    exact ⟨hspared, ih _ (hs.alloc zero) (hspared.trans (.alloc hs zero hspared.allocated)) h⟩
  | read id next ih =>
    obtain ⟨hlegal, h⟩ := h
    rw [Store.hide_body (Store.hide_known hspared.allocated hlegal)] at h
    exact ⟨hspared, ih _ hs hspared h⟩
  | write id body next ih =>
    obtain ⟨hlegal, h⟩ := h
    have hknown := Store.hide_isSome hlegal
    rw [Store.hide_body hknown] at hlegal
    rw [← Store.hide_write hknown] at h
    exact ⟨hspared, ih (hs.write hlegal body)
      (hspared.trans (.write hspared.allocated hknown body)) h⟩
  | free id next ih =>
    obtain ⟨hlegal, h⟩ := h
    have hknown := Store.hide_isSome hlegal
    rw [Store.hide_body hknown] at hlegal
    rw [← Store.hide_release hknown] at h
    exact ⟨hspared, ih (hs.release hlegal)
      (hspared.trans (.release hspared.allocated hknown)) h⟩
  | count next ih => exact ⟨hspared, ih _ hs hspared h⟩

/-! ### A store with a limit -/

variable {limit : Nat}

/-- `wp`, as long as no allocation reaches the limit. -/
def within (zero : β) (limit : Nat) : PageM β α → (α → Store β → Prop) → Store β → Prop
  | pure a, Q, s => Q a s
  | alloc next, Q, s =>
    s.nextId < limit → (next s.nextId).within zero limit Q (s.alloc zero)
  | read id next, Q, s =>
    ((s.body id).isSome ∨ s.count ≤ id) ∧ (next (s.body id)).within zero limit Q s
  | write id body next, Q, s => (s.body id).isSome ∧ next.within zero limit Q (s.write id body)
  | free id next, Q, s => (s.body id).isSome ∧ next.within zero limit Q (s.release id)
  | count next, Q, s => (next s.count).within zero limit Q s

/-- The rule for two programs. -/
theorem within_bind (x : PageM β α) (f : α → PageM β γ) (Q : γ → Store β → Prop)
    (s : Store β) :
    (x.bind f).within zero limit Q s ↔
      x.within zero limit (fun a s => (f a).within zero limit Q s) s := by
  induction x generalizing s with
  | pure a => rfl
  | alloc next ih => exact imp_congr_right fun _ => ih _ _
  | read id next ih => exact and_congr_right fun _ => ih _ _
  | write id body next ih => exact and_congr_right fun _ => ih _
  | free id next ih => exact and_congr_right fun _ => ih _
  | count next ih => exact ih _ _

/-- A weaker postcondition. -/
theorem within_mono {x : PageM β α} {Q Q' : α → Store β → Prop} {s : Store β}
    (h : x.within zero limit Q s) (hQ : ∀ a s, Q a s → Q' a s) :
    x.within zero limit Q' s := by
  induction x generalizing s with
  | pure a => exact hQ a s h
  | alloc next ih => exact fun hlimit => ih _ (h hlimit)
  | read id next ih => exact ⟨h.1, ih _ h.2⟩
  | write id body next ih => exact ⟨h.1, ih h.2⟩
  | free id next ih => exact ⟨h.1, ih h.2⟩
  | count next ih => exact ih _ h

/-- What is legal for every range of ids is so for one. -/
theorem within_of_wp {x : PageM β α} {Q : α → Store β → Prop} {s : Store β}
    (h : x.wp zero Q s) : x.within zero limit Q s := by
  induction x generalizing s with
  | pure a => exact h
  | alloc next ih => exact fun _ => ih _ h
  | read id next ih => exact ⟨h.1, ih _ h.2⟩
  | write id body next ih => exact ⟨h.1, ih h.2⟩
  | free id next ih => exact ⟨h.1, ih h.2⟩
  | count next ih => exact ih _ h

/-- The ids that a run takes are below the count of the store in which it ends. -/
theorem wp_of_within {x : PageM β α} {Q : α → Store β → Prop} {s : Store β}
    (h : x.within zero limit Q s) (hs : s.Sound) (hcount : (x.run zero s).2.count ≤ limit) :
    x.wp zero Q s := by
  induction x generalizing s with
  | pure a => exact h
  | alloc next ih =>
    have hnext : s.nextId < (s.alloc zero).count := ((hs.nextId_fresh zero).2).1
    have hfirst : (s.alloc zero).count ≤ ((next s.nextId).run zero (s.alloc zero)).2.count :=
      count_le_run _ _
    exact ih _ (h (by
      have : ((alloc next).run zero s).2.count = ((next s.nextId).run zero (s.alloc zero)).2.count :=
        rfl
      omega)) (hs.alloc zero) hcount
  | read id next ih => exact ⟨h.1, ih _ h.2 hs hcount⟩
  | write id body next ih => exact ⟨h.1, ih h.2 (hs.write h.1 body) hcount⟩
  | free id next ih => exact ⟨h.1, ih h.2 (hs.release h.1) hcount⟩
  | count next ih => exact ih _ h hs hcount

/-- A program whose requests are legal keeps the store sound, and full when it was full. -/
theorem within_sound {x : PageM β α} {Q : α → Store β → Prop} {s : Store β}
    (h : x.within zero limit Q s) (hs : s.Sound) :
    x.within zero limit (fun a s' => Q a s' ∧ s'.Sound ∧ (s.Full → s'.Full)) s := by
  induction x generalizing s with
  | pure a => exact ⟨h, hs, fun hfull => hfull⟩
  | alloc next ih =>
    refine fun hlimit => within_mono (ih _ (h hlimit) (hs.alloc zero)) fun _ _ hdone => ?_
    exact ⟨hdone.1, hdone.2.1, fun hfull => hdone.2.2 (hfull.alloc hs zero)⟩
  | read id next ih => exact ⟨h.1, ih _ h.2 hs⟩
  | write id body next ih =>
    refine ⟨h.1, within_mono (ih h.2 (hs.write h.1 body)) fun _ _ hdone => ?_⟩
    exact ⟨hdone.1, hdone.2.1, fun hfull => hdone.2.2 (hfull.write id body)⟩
  | free id next ih =>
    refine ⟨h.1, within_mono (ih h.2 (hs.release h.1)) fun _ _ hdone => ?_⟩
    exact ⟨hdone.1, hdone.2.1, fun hfull => hdone.2.2 (hfull.release id)⟩
  | count next ih => exact ih _ h hs

/-- A store that has not reached the limit does not reach it. -/
theorem within_count {x : PageM β α} {Q : α → Store β → Prop} {s : Store β}
    (h : x.within zero limit Q s) (hcount : s.count ≤ limit) :
    x.within zero limit (fun a s' => Q a s' ∧ s'.count ≤ limit) s := by
  induction x generalizing s with
  | pure a => exact ⟨h, hcount⟩
  | alloc next ih =>
    refine fun hlimit => ih _ (h hlimit) ?_
    show (if s.free.isEmpty then s.count + 1 else s.count) ≤ limit
    split
    · rename_i hfree
      have hnext : s.nextId = s.count := by
        unfold Store.nextId
        rw [List.isEmpty_iff.mp hfree]
        rfl
      omega
    · exact hcount
  | read id next ih => exact ⟨h.1, ih _ h.2 hcount⟩
  | write id body next ih => exact ⟨h.1, ih h.2 hcount⟩
  | free id next ih => exact ⟨h.1, ih h.2 hcount⟩
  | count next ih => exact ih _ h hcount

/-! ### What a run frees -/

/-- The program, that also answers the ids that it frees, in order. -/
def traced : PageM β α → PageM β (α × List Nat)
  | pure a => .pure (a, [])
  | alloc next => .alloc fun id => (next id).traced
  | read id next => .read id fun body => (next body).traced
  | write id body next => .write id body next.traced
  | free id next => .free id (next.traced.bind fun (a, freed) => .pure (a, id :: freed))
  | count next => .count fun n => (next n).traced

/-- What two programs free, one behind the other. -/
theorem traced_bind (x : PageM β α) (f : α → PageM β γ) :
    (x.bind f).traced = x.traced.bind fun (a, freed) =>
      (f a).traced.bind fun (c, more) => .pure (c, freed ++ more) := by
  have hnil : ∀ y : PageM β γ, y.traced = y.traced.bind fun (c, more) => .pure (c, [] ++ more) := by
    intro y
    generalize y.traced = z
    induction z with
    | pure a => rfl
    | alloc next ih => exact congrArg PageM.alloc (funext ih)
    | read id next ih => exact congrArg (PageM.read id) (funext ih)
    | write id body next ih => exact congrArg (PageM.write id body) ih
    | free id next ih => exact congrArg (PageM.free id) ih
    | count next ih => exact congrArg PageM.count (funext ih)
  induction x with
  | pure a => exact hnil (f a)
  | alloc next ih => exact congrArg PageM.alloc (funext ih)
  | read id next ih => exact congrArg (PageM.read id) (funext ih)
  | write id body next ih => exact congrArg (PageM.write id body) ih
  | free id next ih =>
    refine congrArg (PageM.free id) ?_
    rw [ih, bind_assoc, bind_assoc]
    refine congrArg _ (funext fun ⟨a, freed⟩ => ?_)
    rw [bind_assoc]
    rfl
  | count next ih => exact congrArg PageM.count (funext ih)

/-- The trace changes nothing. -/
theorem within_traced {x : PageM β α} {Q : α → Store β → Prop} {s : Store β} :
    x.traced.within zero limit (fun r s' => Q r.1 s') s ↔ x.within zero limit Q s := by
  induction x generalizing s with
  | pure a => rfl
  | alloc next ih => exact imp_congr_right fun _ => ih _
  | read id next ih => exact and_congr_right fun _ => ih _
  | write id body next ih => exact and_congr_right fun _ => ih
  | free id next ih =>
    refine and_congr_right fun _ => ?_
    rw [within_bind]
    exact ih
  | count next ih => exact ih _

/-- The run of two programs. -/
theorem run_bind (x : PageM β α) (f : α → PageM β γ) (s : Store β) :
    (x.bind f).run zero s = (f (x.run zero s).1).run zero (x.run zero s).2 := by
  induction x generalizing s with
  | pure a => rfl
  | alloc next ih => exact ih _ _
  | read id next ih => exact ih _ _
  | write id body next ih => exact ih _
  | free id next ih => exact ih _
  | count next ih => exact ih _ _

end PageM

end

end Library
