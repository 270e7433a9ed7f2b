import DatabaseEngine.Spec.Arena
import Mathlib.Data.List.Pairwise

/-!
# `DatabaseEngine.Proofs.Heap.Arena`: texts that are alive keep their bytes

`ArenaUse.Kept` is the invariant. It asks for the same of the arena as it is and of the arena as
each mark would leave it (`Lodged`): chunks in blocks of their own, filled no further than their
size, and every text that would be alive inside the filled part of a chunk.

* `roomFor_cases`: a copy fills the head further or puts a fresh chunk before it.
* `unwind_copied`: what a mark unwinds to is the same before and after a copy.
* `Kept.copy`, `Kept.mark`, `Kept.reset`: the invariant over each call.
* `texts_kept`: after any calls in the order of a stack, the texts that are alive have their
  bytes and share none of them, every mark can be unwound to, and unwinding to a mark leaves
  alive exactly the texts that were alive when it was taken.
-/

set_option autoImplicit false

namespace DatabaseEngine

open Library

/-! ### Unwinding -/

/-- Chunks are popped only down to a chunk whose block is the marked one. -/
theorem popTo_some {chunk : Option Nat} {chunks left : List ArenaChunk}
    (h : popTo chunk chunks = some left) (b : Nat) (hb : chunk = some b) :
    ∃ c ∈ chunks, c.block = b := by
  induction chunks with
  | nil => simp [popTo, hb] at h
  | cons head rest ih =>
    rw [popTo] at h
    split at h
    · rename_i heq
      rw [hb] at heq
      exact ⟨head, List.mem_cons_self, (Option.some.inj heq).symm⟩
    · obtain ⟨c, hc, hblock⟩ := ih h
      exact ⟨c, List.mem_cons_of_mem _ hc, hblock⟩

/-- A mark unwinds to where it was taken. -/
theorem unwind_textMark (arena : TextArena) :
    unwind (textMark arena) arena.chunks = some arena.chunks := by
  unfold textMark
  cases arena.chunks with
  | nil => rfl
  | cons head rest => simp [unwind, popTo, refill]

/-- How far the head is filled is nothing to a mark. -/
theorem unwind_filled (mark : ArenaMark) (head : ArenaChunk) (rest : List ArenaChunk) (n : Nat) :
    unwind mark ({ head with used := n } :: rest) = unwind mark (head :: rest) := by
  unfold unwind popTo
  dsimp only
  split
  · rfl
  · rfl

/-- A chunk that is not the marked one goes. -/
theorem unwind_fresh {mark : ArenaMark} {chunks left : List ArenaChunk} {fresh : ArenaChunk}
    (h : unwind mark chunks = some left) (hfresh : ∀ c ∈ chunks, fresh.block ≠ c.block) :
    unwind mark (fresh :: chunks) = some left := by
  obtain ⟨popped, hpop, -⟩ := Option.map_eq_some_iff.mp h
  have hother : mark.chunk ≠ some fresh.block := by
    intro hmark
    obtain ⟨c, hc, hblock⟩ := popTo_some hpop fresh.block hmark
    exact hfresh c hc hblock.symm
  unfold unwind
  rw [popTo, if_neg hother]
  exact h

/-! ### Copying -/

/-- A copy goes into the head if it has room, and into a fresh chunk otherwise. -/
theorem roomFor_cases {block : Option Nat} {need : Nat} {chunks rest : List ArenaChunk}
    {head : ArenaChunk} (h : roomFor block need chunks = some (head, rest)) :
    (chunks = head :: rest ∧ need ≤ head.size - head.used) ∨
      ∃ b, block = some b ∧ head = freshChunk b need ∧ rest = chunks := by
  unfold roomFor at h
  split at h
  · obtain ⟨b, hb, heq⟩ := Option.map_eq_some_iff.mp h
    obtain ⟨rfl, rfl⟩ := Prod.mk.inj heq
    exact .inr ⟨b, hb, rfl, rfl⟩
  · split at h
    · obtain ⟨b, hb, heq⟩ := Option.map_eq_some_iff.mp h
      obtain ⟨rfl, rfl⟩ := Prod.mk.inj heq
      exact .inr ⟨b, hb, rfl, rfl⟩
    · rename_i hroom
      obtain ⟨rfl, rfl⟩ := Prod.mk.inj (Option.some.inj h)
      exact .inl ⟨rfl, Nat.le_of_not_lt hroom⟩

/-- A fresh chunk has room for the text it is made for. -/
theorem freshChunk_room (b need : Nat) : need ≤ (freshChunk b need).size := by
  unfold freshChunk
  dsimp only
  split <;> omega

/-- Two chunks apart start in different places. -/
theorem ArenaChunk.Apart.ne {c d : ArenaChunk} (h : c.Apart d) : c.block ≠ d.block := by
  unfold ArenaChunk.Apart ArenaChunk.data at h
  intro heq
  have hheader : 0 < CHUNK_HEADER := by decide
  omega

/-! ### The invariant -/

/-- The filled part of a chunk has the text in it. -/
def ArenaChunk.Has (c : ArenaChunk) (t : ArenaText) : Prop :=
  c.data ≤ t.start ∧ t.start + t.stored.length ≤ c.data + c.used

/-- Chunks in blocks of their own that have the texts in them. -/
structure Lodged (chunks : List ArenaChunk) (texts : List ArenaText) : Prop where
  apart : chunks.Pairwise ArenaChunk.Apart
  fits : ∀ c ∈ chunks, c.used ≤ c.size
  inside : ∀ t ∈ texts, ∃ c ∈ chunks, c.Has t

/-- What holds of an arena and the account of its use. -/
structure ArenaUse.Kept (u : ArenaUse) : Prop where
  lodged : Lodged u.arena.chunks u.alive
  held : ∀ t ∈ u.alive, HoldsAt u.arena.memory t.start t.stored
  apart : u.alive.Pairwise ArenaText.Apart
  depth : ∀ t ∈ u.alive, t.depth ≤ u.marks.length
  /-- Each mark can be unwound to. The texts that are older than it are lodged then, and the marks
  below it unwind to the same as before. -/
  marked : ∀ (i : Nat) mark, u.marks[i]? = some mark → ∃ left,
    unwind mark u.arena.chunks = some left ∧
    Lodged left (u.alive.filter fun t => t.depth ≤ i) ∧
    ∀ (j : Nat) older, j ≤ i → u.marks[j]? = some older →
      unwind older left = unwind older u.arena.chunks

/-- The head is filled further, within its size. -/
theorem Lodged.fill {head : ArenaChunk} {rest : List ArenaChunk} {texts : List ArenaText} {n : Nat}
    (h : Lodged (head :: rest) texts) (hroom : head.used + n ≤ head.size) :
    Lodged ({ head with used := head.used + n } :: rest) texts where
  apart := by
    obtain ⟨hhead, hrest⟩ := List.pairwise_cons.mp h.apart
    exact List.pairwise_cons.mpr ⟨fun c hc => hhead c hc, hrest⟩
  fits := by
    intro c hc
    rcases List.mem_cons.mp hc with rfl | hc
    · exact hroom
    · exact h.fits c (List.mem_cons_of_mem _ hc)
  inside := by
    intro t ht
    obtain ⟨c, hc, hlow, hhigh⟩ := h.inside t ht
    rcases List.mem_cons.mp hc with rfl | hc
    · refine ⟨_, List.mem_cons_self, hlow, Nat.le_trans hhigh ?_⟩
      show c.data + c.used ≤ c.data + (c.used + n)
      omega
    · exact ⟨c, List.mem_cons_of_mem _ hc, hlow, hhigh⟩

/-- A fresh chunk, in a block that is clear of the others, is put before them. -/
theorem Lodged.fresh {chunks : List ArenaChunk} {texts : List ArenaText} {fresh : ArenaChunk}
    (h : Lodged chunks texts) (hclear : ∀ c ∈ chunks, fresh.Apart c)
    (hfits : fresh.used ≤ fresh.size) : Lodged (fresh :: chunks) texts where
  apart := List.pairwise_cons.mpr ⟨hclear, h.apart⟩
  fits := List.forall_mem_cons.mpr ⟨hfits, h.fits⟩
  inside := by
    intro t ht
    obtain ⟨c, hc, hhas⟩ := h.inside t ht
    exact ⟨c, List.mem_cons_of_mem _ hc, hhas⟩

/-- The chunk a copy goes into has room, the texts are lodged beside it, and the marks unwind as
before. -/
theorem Lodged.roomFor {block : Option Nat} {need : Nat} {chunks rest : List ArenaChunk}
    {head : ArenaChunk} {texts : List ArenaText} (h : Lodged chunks texts)
    (hclear : ∀ b ∈ block, ∀ c ∈ chunks, (freshChunk b need).Apart c)
    (hroom : DatabaseEngine.roomFor block need chunks = some (head, rest)) :
    Lodged (head :: rest) texts ∧ head.used + need ≤ head.size ∧
      ∀ mark left, unwind mark chunks = some left → unwind mark (head :: rest) = some left := by
  rcases roomFor_cases hroom with ⟨rfl, hneed⟩ | ⟨b, hb, rfl, rfl⟩
  · have hfits := h.fits head List.mem_cons_self
    exact ⟨h, by omega, fun _ _ hunwind => hunwind⟩
  · have hneed := freshChunk_room b need
    have hused : (freshChunk b need).used = 0 := rfl
    refine ⟨h.fresh (hclear b hb) (by omega), by omega, fun mark left hunwind => ?_⟩
    exact unwind_fresh hunwind fun c hc => (hclear b hb c hc).ne

/-- The texts lie where a copy does not write: below the fill of the head, or in the block of
another chunk. -/
theorem Lodged.beside {head : ArenaChunk} {rest : List ArenaChunk} {texts : List ArenaText}
    {n : Nat} {t : ArenaText} (h : Lodged (head :: rest) texts)
    (hroom : head.used + n ≤ head.size) (ht : t ∈ texts) :
    t.start + t.stored.length ≤ head.data + head.used ∨
      head.data + head.used + n ≤ t.start := by
  obtain ⟨c, hc, hlow, hhigh⟩ := h.inside t ht
  rcases List.mem_cons.mp hc with rfl | hc
  · exact .inl hhigh
  · have hfits := h.fits c (List.mem_cons_of_mem _ hc)
    have hapart := List.rel_of_pairwise_cons h.apart hc
    unfold ArenaChunk.Apart at hapart
    have hheader : head.block ≤ head.data ∧ c.block ≤ c.data :=
      ⟨Nat.le_add_right .., Nat.le_add_right ..⟩
    omega

namespace ArenaUse.Kept

variable {u : ArenaUse}

/-- The empty arena is in order. -/
theorem start (memory : Nat → UInt8) : (ArenaUse.start memory).Kept where
  lodged := ⟨.nil, by simp [ArenaUse.start], by simp [ArenaUse.start]⟩
  held := by simp [ArenaUse.start]
  apart := .nil
  depth := by simp [ArenaUse.start]
  marked := by simp [ArenaUse.start]

/-- A copy with room puts the text and its closing zero behind what the head chunk holds. -/
theorem step_copied {text : List UInt8} {block : Option Nat} {head : ArenaChunk}
    {rest : List ArenaChunk}
    (hroom : roomFor block (text.length + 1) u.arena.chunks = some (head, rest)) :
    u.step (.copy text block) =
      { arena :=
          { memory := putBytesAt u.arena.memory (head.data + head.used) (text ++ [0])
            chunks := { head with used := head.used + (text.length + 1) } :: rest }
        alive :=
          { start := head.data + head.used, bytes := text, depth := u.marks.length } :: u.alive
        marks := u.marks } := by
  simp only [ArenaUse.step, arenaCopy, hroom]

/-- A copy writes beside the texts that are alive, and nothing that a mark unwinds to moves. -/
theorem copy (hu : u.Kept) {text : List UInt8} {block : Option Nat}
    (hmeets : u.Meets (.copy text block)) : (u.step (.copy text block)).Kept := by
  cases hroom : roomFor block (text.length + 1) u.arena.chunks with
  | none =>
    have hsame : u.step (.copy text block) = u := by simp only [ArenaUse.step, arenaCopy, hroom]
    rw [hsame]
    exact hu
  | some chosen =>
    obtain ⟨head, rest⟩ := chosen
    rw [step_copied hroom]
    obtain ⟨hlodged, hfits, hunwinds⟩ := hu.lodged.roomFor hmeets hroom
    have hlength : (text ++ [0]).length = text.length + 1 := List.length_append
    have hbeside := fun t ht => hlodged.beside (t := t) hfits ht
    constructor
    case lodged =>
      have hfilled := hlodged.fill hfits
      refine ⟨hfilled.apart, hfilled.fits, List.forall_mem_cons.mpr ⟨?_, hfilled.inside⟩⟩
      -- the text takes up what the head is filled further
      refine ⟨_, List.mem_cons_self, Nat.le_add_right .., ?_⟩
      show head.data + head.used + (text ++ [0]).length ≤ head.data + (head.used + _)
      omega
    case held =>
      refine List.forall_mem_cons.mpr ⟨holdsAt_putBytesAt, fun t ht => ?_⟩
      exact (hu.held t ht).beside ((hbeside t ht).imp id fun h => by rw [hlength]; exact h)
    case apart =>
      refine List.pairwise_cons.mpr ⟨fun t ht address hboth => ?_, hu.apart⟩
      obtain ⟨⟨hlow, hhigh⟩, hlow', hhigh'⟩ := hboth
      have hnew : head.data + head.used ≤ address ∧
          address < head.data + head.used + (text ++ [0]).length := ⟨hlow, hhigh⟩
      rcases hbeside t ht with h | h
      · omega
      · omega
    case depth => exact List.forall_mem_cons.mpr ⟨Nat.le_refl _, hu.depth⟩
    case marked =>
      intro i mark hi
      obtain ⟨left, hleft, hlodges, hbelow⟩ := hu.marked i mark hi
      refine ⟨left, ?_, ?_, fun j older hj hold => ?_⟩
      · exact (unwind_filled mark head rest _).trans (hunwinds mark left hleft)
      · have hlt : i < u.marks.length := (List.getElem?_eq_some_iff.mp hi).1
        rw [List.filter_cons_of_neg (by simpa using hlt)]
        exact hlodges
      · obtain ⟨left', hleft', -⟩ := hu.marked j older hold
        rw [hbelow j older hj hold, hleft']
        exact ((unwind_filled older head rest _).trans (hunwinds older left' hleft')).symm

/-- A new mark unwinds to the arena as it is. -/
theorem mark (hu : u.Kept) : (u.step .mark).Kept := by
  constructor
  case lodged => exact hu.lodged
  case held => exact hu.held
  case apart => exact hu.apart
  case depth =>
    intro t ht
    have hdepth := hu.depth t ht
    show t.depth ≤ (u.marks ++ [textMark u.arena]).length
    rw [List.length_append]
    omega
  case marked =>
    intro i mark hi
    change (u.marks ++ [textMark u.arena])[i]? = some mark at hi
    rcases Nat.lt_or_ge i u.marks.length with hlt | hge
    · rw [List.getElem?_append_left hlt] at hi
      obtain ⟨left, hleft, hlodges, hbelow⟩ := hu.marked i mark hi
      refine ⟨left, hleft, hlodges, fun j older hj hold => hbelow j older hj ?_⟩
      rwa [← List.getElem?_append_left (Nat.lt_of_le_of_lt hj hlt)]
    · obtain ⟨hlast, rfl⟩ : i = u.marks.length ∧ textMark u.arena = mark := by
        rw [List.getElem?_append_right hge, List.getElem?_singleton] at hi
        split at hi
        · exact ⟨by omega, Option.some.inj hi⟩
        · exact absurd hi (by simp)
      have hall : (u.alive.filter fun t => t.depth ≤ i) = u.alive :=
        List.filter_eq_self.mpr fun t ht => by simpa [hlast] using hu.depth t ht
      refine ⟨u.arena.chunks, unwind_textMark u.arena, ?_, fun _ _ _ _ => rfl⟩
      show Lodged u.arena.chunks (u.alive.filter fun t => t.depth ≤ i)
      rw [hall]
      exact hu.lodged

/-- Every mark can be unwound to. -/
theorem resets (hu : u.Kept) {i : Nat} (hi : i < u.marks.length) :
    ∃ left, unwind u.marks[i] u.arena.chunks = some left ∧
      u.step (.reset i) =
        { arena := { u.arena with chunks := left }
          alive := u.alive.filter fun t => t.depth ≤ i
          marks := u.marks.take (i + 1) } := by
  obtain ⟨left, hleft, -⟩ := hu.marked i _ (List.getElem?_eq_getElem hi)
  refine ⟨left, hleft, ?_⟩
  simp [step, textReset, hi, hleft]

/-- Unwinding to a mark keeps the arena in order. -/
theorem reset (hu : u.Kept) {i : Nat} (hi : i < u.marks.length) :
    (u.step (.reset i)).Kept := by
  obtain ⟨left, hleft, hstep⟩ := hu.resets hi
  obtain ⟨left', hleft', hlodges, hbelow⟩ := hu.marked i _ (List.getElem?_eq_getElem hi)
  obtain rfl : left = left' := Option.some.inj (hleft.symm.trans hleft')
  -- the marks that remain were taken before this one or are this one
  have hmarks : ∀ (j : Nat) older, (u.marks.take (i + 1))[j]? = some older →
      j ≤ i ∧ u.marks[j]? = some older := by
    intro j older hj
    rw [List.getElem?_take] at hj
    split at hj
    · exact ⟨by omega, hj⟩
    · exact absurd hj (by simp)
  rw [hstep]
  constructor
  case lodged => exact hlodges
  case held => exact fun t ht => hu.held t (List.mem_filter.mp ht).1
  case apart => exact hu.apart.filter _
  case depth =>
    intro t ht
    have hdepth : t.depth ≤ i := by simpa using (List.mem_filter.mp ht).2
    show t.depth ≤ (u.marks.take (i + 1)).length
    rw [List.length_take]
    omega
  case marked =>
    intro j mark hj
    obtain ⟨hji, hj⟩ := hmarks j mark hj
    obtain ⟨below, hunwind, hlodged, hdeeper⟩ := hu.marked j mark hj
    refine ⟨below, (hbelow j mark hji hj).trans hunwind, ?_, fun k older hk hold => ?_⟩
    · have hfilter : ((u.alive.filter fun t => t.depth ≤ i).filter fun t => t.depth ≤ j) =
          u.alive.filter fun t => t.depth ≤ j := by
        rw [List.filter_filter]
        refine List.filter_congr fun t _ => ?_
        simp only [Bool.and_eq_left_iff_imp, decide_eq_true_eq]
        omega
      show Lodged below ((u.alive.filter fun t => t.depth ≤ i).filter fun t => t.depth ≤ j)
      rw [hfilter]
      exact hlodged
    · obtain ⟨hki, hold⟩ := hmarks k older hold
      exact (hdeeper k older hk hold).trans (hbelow k older hki hold).symm

/-- Every call whose blocks are fresh keeps the arena in order. -/
theorem step (hu : u.Kept) (call : ArenaCall) (hmeets : u.Meets call) :
    (u.step call).Kept := by
  cases call with
  | copy text block => exact hu.copy hmeets
  | mark => exact hu.mark
  | reset i => exact hu.reset hmeets

/-- A run of such calls keeps the arena in order, by the step lemma. -/
theorem run {calls : List ArenaCall} (hu : u.Kept)
    (h : StepsMeet ArenaUse.step ArenaUse.Meets u calls) :
    (Library.run ArenaUse.step u calls).Kept :=
  StepsMeet.invariant ArenaUse.Kept (fun _ call hu => hu.step call) hu h

end ArenaUse.Kept

/-! ### Between a mark and a reset to it -/

/-- The mark with the number `i` has not been given up, and these texts are the ones that are older
than it. -/
def ArenaUse.Since (i : Nat) (texts : List ArenaText) (u : ArenaUse) : Prop :=
  i < u.marks.length ∧ (u.alive.filter fun t => t.depth ≤ i) = texts

namespace ArenaUse.Since

variable {u : ArenaUse} {i : Nat} {texts : List ArenaText}

/-- Right behind a mark, the texts alive are those that were alive when it was taken. -/
theorem mark (hu : u.Kept) : (u.step .mark).Since u.marks.length u.alive := by
  refine ⟨?_, List.filter_eq_self.mpr fun t ht => by simpa using hu.depth t ht⟩
  show u.marks.length < (u.marks ++ [textMark u.arena]).length
  rw [List.length_append]
  exact Nat.lt_add_of_pos_right Nat.one_pos

/-- A copy is younger than the mark, and a reset to the mark or above it spares what is older. -/
theorem step (hu : u.Kept) (h : u.Since i texts) (call : ArenaCall) (hmeets : u.Meets call)
    (habove : ∀ j, call = .reset j → i ≤ j) : (u.step call).Since i texts := by
  obtain ⟨hi, hold⟩ := h
  cases call with
  | copy text block =>
    cases hroom : roomFor block (text.length + 1) u.arena.chunks with
    | none => simpa only [ArenaUse.step, arenaCopy, hroom] using ⟨hi, hold⟩
    | some chosen =>
      rw [Kept.step_copied hroom]
      refine ⟨hi, ?_⟩
      rw [List.filter_cons_of_neg (by simpa using hi)]
      exact hold
  | mark =>
    refine ⟨?_, hold⟩
    show i < (u.marks ++ [textMark u.arena]).length
    rw [List.length_append]
    omega
  | reset j =>
    have hij := habove j rfl
    have hj : j < u.marks.length := hmeets
    obtain ⟨left, -, hstep⟩ := hu.resets hj
    rw [hstep]
    constructor
    · show i < (u.marks.take (j + 1)).length
      rw [List.length_take]
      omega
    · show ((u.alive.filter fun t => t.depth ≤ j).filter fun t => t.depth ≤ i) = texts
      rw [List.filter_filter, ← hold]
      refine List.filter_congr fun t _ => ?_
      simp only [Bool.and_eq_left_iff_imp, decide_eq_true_eq]
      omega

/-- Calls that unwind no further than a mark keep the texts below it. -/
theorem run {calls : List ArenaCall} (hu : u.Kept) (h : u.Since i texts)
    (hmeets : StepsMeet ArenaUse.step ArenaUse.Meets u calls)
    (habove : ∀ j, .reset j ∈ calls → i ≤ j) :
    (Library.run ArenaUse.step u calls).Since i texts := by
  induction calls generalizing u with
  | nil => exact h
  | cons call rest ih =>
    have hnext := h.step hu call hmeets.1 fun j hj => habove j (hj ▸ List.mem_cons_self)
    exact ih (hu.step call hmeets.1) hnext hmeets.2 fun j hj =>
      habove j (List.mem_cons_of_mem _ hj)

end ArenaUse.Since

/-- Whatever is copied, marked and unwound in the order of a stack, the texts that are alive have
their bytes, no two of them share one, and every mark that has not been given up can be unwound to.
Unwinding to a mark leaves the texts that were alive when it was taken. -/
theorem texts_kept (memory : Nat → UInt8) (calls : List ArenaCall)
    (h : StepsMeet ArenaUse.step ArenaUse.Meets (.start memory) calls) :
    (∀ t ∈ (run ArenaUse.step (.start memory) calls).alive,
      HoldsAt (run ArenaUse.step (.start memory) calls).arena.memory t.start t.stored) ∧
    (run ArenaUse.step (.start memory) calls).alive.Pairwise ArenaText.Apart ∧
    (∀ mark ∈ (run ArenaUse.step (.start memory) calls).marks,
      (textReset mark (run ArenaUse.step (.start memory) calls).arena).isSome) ∧
    ∀ front mid i, calls = front ++ .mark :: (mid ++ [.reset i]) →
      i = (run ArenaUse.step (.start memory) front).marks.length →
      (∀ j, .reset j ∈ mid → i ≤ j) →
      (run ArenaUse.step (.start memory) calls).alive =
        (run ArenaUse.step (.start memory) front).alive := by
  have hkept := (ArenaUse.Kept.start memory).run h
  refine ⟨hkept.held, hkept.apart, fun mark hmark => ?_, fun front mid i hcalls hi habove => ?_⟩
  · obtain ⟨i, hi⟩ := List.getElem?_of_mem hmark
    obtain ⟨left, hleft, -⟩ := hkept.marked i mark hi
    simp [textReset, hleft]
  · subst hcalls
    obtain ⟨hfront, -, hrest⟩ := StepsMeet.append.mp h
    obtain ⟨hmid, hlast, -⟩ := StepsMeet.append.mp hrest
    have hbefore := (ArenaUse.Kept.start memory).run hfront
    have hmarked := hbefore.mark
    have hsince := ArenaUse.Since.run hmarked (hi ▸ ArenaUse.Since.mark hbefore) hmid habove
    obtain ⟨left, -, hstep⟩ := (hmarked.run hmid).resets hlast
    rw [run_append, run_cons, run_append, run_cons, run_nil, hstep]
    exact hsince.2

/-- A text, a mark, two texts of which the second needs a chunk of its own, and back. -/
def markedCalls : List ArenaCall :=
  [.copy [97] (some 4096), .mark, .copy [98, 99] none,
    .copy (List.replicate ARENA_CHUNK 100) (some 1000000), .reset 0]

/-- Back at the mark, the text copied before it is what is alive. -/
theorem texts_kept_marked :
    (run ArenaUse.step (.start fun _ => 0) markedCalls).alive =
      (run ArenaUse.step (.start fun _ => 0) [.copy [97] (some 4096)]).alive :=
  (texts_kept (fun _ => 0) markedCalls (by decide +kernel)).2.2.2 [.copy [97] (some 4096)]
    [.copy [98, 99] none, .copy (List.replicate ARENA_CHUNK 100) (some 1000000)] 0 rfl
    (by decide +kernel) (by simp)

end DatabaseEngine
