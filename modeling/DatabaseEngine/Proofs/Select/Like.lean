import DatabaseEngine.Spec.Like
import Mathlib.Data.List.Count

/-!
# `DatabaseEngine.Proofs.Select.Like`: LIKE decides the language of its pattern

`likeMatch` goes back to the last `%` only. That is enough: between two `%` the pattern matches
as many bytes as it has, so what an earlier `%` could still absorb, the later one can absorb as
well (`Likes.absorbed`).

* `Accepts`: what the state of the loop still stands for; a turn does not change it.
* `effort`: goes down with every turn, although the text and the pattern both move back.
* `likeMatch_decides`: the loop ends, and its answer is whether the text is in the language.
-/

set_option autoImplicit false

namespace DatabaseEngine

/-! ### The language -/

namespace Likes

variable {pattern text lit : List UInt8} {c p : UInt8}

/-- The empty pattern matches the empty text only. -/
theorem nil_iff : Likes [] text ↔ text = [] := by
  constructor
  · intro h
    cases h
    rfl
  · rintro rfl
    exact .nil

/-- A percent sign matches any number of bytes. -/
theorem run_iff : Likes (37 :: pattern) text ↔ ∃ skipped rest, text = skipped ++ rest ∧
    Likes pattern rest := by
  constructor
  · intro h
    cases h with
    | run skipped rest => exact ⟨skipped, _, rfl, rest⟩
    | same hrun _ _ => exact absurd rfl hrun
  · rintro ⟨skipped, rest, rfl, h⟩
    exact .run skipped h

/-- A byte that is no `%` stands for one byte. -/
theorem cons_iff (hp : p ≠ 37) :
    Likes (p :: pattern) text ↔ ∃ c rest, text = c :: rest ∧ (p = 95 ∨ p = c) ∧
      Likes pattern rest := by
  constructor
  · intro h
    cases h with
    | run _ _ => exact absurd rfl hp
    | one c rest => exact ⟨c, _, rfl, Or.inl rfl, rest⟩
    | same _ _ rest => exact ⟨p, _, rfl, Or.inr rfl, rest⟩
  · rintro ⟨c, rest, rfl, hmatch, h⟩
    by_cases hone : p = 95
    · subst hone
      exact .one c h
    · obtain rfl := hmatch.resolve_left hone
      exact .same hp hone h

/-- Only `%` matches nothing. -/
theorem empty_iff : Likes pattern [] ↔ pattern.all (· == 37) = true := by
  induction pattern with
  | nil => simp [nil_iff]
  | cons p rest ih =>
    by_cases hp : p = 37
    · subst hp
      rw [run_iff, List.all_cons, beq_self_eq_true, Bool.true_and, ← ih]
      constructor
      · rintro ⟨skipped, left, hnil, h⟩
        rw [(List.append_eq_nil_iff.mp hnil.symm).2] at h
        exact h
      · exact fun h => ⟨[], [], rfl, h⟩
    · rw [cons_iff hp]
      simp [hp]

/-- A part of the pattern without `%` matches as many bytes as it has. -/
theorem split_literal (hlit : 37 ∉ lit) (h : Likes (lit ++ pattern) text) :
    ∃ matched rest, text = matched ++ rest ∧ matched.length = lit.length ∧ Likes pattern rest := by
  induction lit generalizing text with
  | nil => exact ⟨[], text, rfl, rfl, h⟩
  | cons p lit ih =>
    obtain ⟨hp, hlit⟩ : 37 ≠ p ∧ 37 ∉ lit := by simpa using hlit
    obtain ⟨c, rest, rfl, -, h⟩ := (cons_iff hp.symm).mp h
    obtain ⟨matched, left, rfl, hlen, h⟩ := ih hlit h
    exact ⟨c :: matched, left, rfl, by simp [hlen], h⟩

/-- What an earlier `%` can absorb, a later one can absorb instead: `matched` is what the part
between them has matched, and the whole also matches behind `front`. -/
theorem absorbed {front matched behind : List UInt8} (hlit : 37 ∉ lit)
    (hlen : lit.length = matched.length) (hsplit : matched ++ text = front ++ behind)
    (h : Likes (lit ++ 37 :: pattern) behind) : Likes (37 :: pattern) text := by
  obtain ⟨matched', rest, rfl, hlen', h⟩ := split_literal hlit h
  obtain ⟨skipped, left, rfl, hleft⟩ := run_iff.mp h
  -- `rest` begins no earlier than `text`, since both lie behind as many bytes at least
  have hdrop : text = (front ++ matched').drop matched.length ++ (skipped ++ left) := by
    have hcut := congrArg (List.drop matched.length) hsplit
    rw [List.drop_left, ← List.append_assoc, List.drop_append_of_le_length (by
      rw [List.length_append]
      omega)] at hcut
    exact hcut
  rw [hdrop, ← List.append_assoc]
  exact .run _ hleft

end Likes

/-! ### What a state stands for -/

/-- The rest of the pattern matches the rest of the text, or it does so again behind the last `%`
when that absorbs more than it has. -/
def Accepts (s : LikeState) : Prop :=
  Likes s.pattern s.text ∨
    ∃ afterStar retry c front behind, s.star = some (afterStar, retry) ∧
      retry = c :: front ++ behind ∧ Likes afterStar behind

/-- Since the last `%` the pattern has matched as many bytes as it has, without another `%`. -/
def LikeState.Aligned (s : LikeState) : Prop :=
  ∀ afterStar retry, s.star = some (afterStar, retry) →
    ∃ lit matched, afterStar = lit ++ s.pattern ∧ retry = matched ++ s.text ∧
      lit.length = matched.length ∧ 37 ∉ lit

section
variable {text pattern : List UInt8} {star : Option (List UInt8 × List UInt8)} {c p : UInt8}

/-- At the end of the text the last `%` has nothing left to absorb. -/
theorem accepts_end (haligned : LikeState.Aligned ⟨[], pattern, star⟩) :
    Accepts ⟨[], pattern, star⟩ ↔ pattern.all (· == 37) = true := by
  rw [← Likes.empty_iff]
  constructor
  · rintro (h | ⟨afterStar, retry, c, front, behind, hstar, hretry, h⟩)
    · exact h
    · obtain ⟨lit, matched, rfl, hmatched, hlen, hlit⟩ := haligned _ _ hstar
      obtain ⟨matched', rest, rfl, hlen', -⟩ := h.split_literal hlit
      have hlengths := congrArg List.length (hmatched.symm.trans hretry)
      simp at hlengths
      omega
  · exact Or.inl

/-- The state behind a byte that matches. -/
theorem accepts_match (hp : p ≠ 37) (hmatch : p = 95 ∨ p = c) :
    Accepts ⟨c :: text, p :: pattern, star⟩ ↔ Accepts ⟨text, pattern, star⟩ := by
  refine or_congr_left ?_
  show Likes (p :: pattern) (c :: text) ↔ Likes pattern text
  rw [Likes.cons_iff hp]
  constructor
  · rintro ⟨d, rest, heq, -, h⟩
    obtain ⟨rfl, rfl⟩ := List.cons.inj heq
    exact h
  · exact fun h => ⟨c, text, rfl, hmatch, h⟩

/-- A new `%` takes the place of the one before. -/
theorem accepts_star (haligned : LikeState.Aligned ⟨text, 37 :: pattern, star⟩) :
    Accepts ⟨text, 37 :: pattern, star⟩ ↔ Accepts ⟨text, pattern, some (pattern, text)⟩ := by
  have hnew : Accepts ⟨text, pattern, some (pattern, text)⟩ ↔ Likes (37 :: pattern) text := by
    rw [Likes.run_iff]
    constructor
    · rintro (h | ⟨afterStar, retry, c, front, behind, hstar, hretry, h⟩)
      · exact ⟨[], text, rfl, h⟩
      · obtain ⟨rfl, rfl⟩ := Prod.mk.inj (Option.some.inj hstar)
        exact ⟨c :: front, behind, hretry, h⟩
    · rintro ⟨skipped, rest, rfl, h⟩
      cases skipped with
      | nil => exact Or.inl h
      | cons c front => exact Or.inr ⟨_, _, c, front, rest, rfl, rfl, h⟩
  rw [hnew]
  constructor
  · rintro (h | ⟨afterStar, retry, c, front, behind, hstar, hretry, h⟩)
    · exact h
    · obtain ⟨lit, matched, rfl, rfl, hlen, hlit⟩ := haligned _ _ hstar
      exact Likes.absorbed hlit hlen hretry h
  · exact Or.inl

/-- Where the pattern does not match, it matches only behind the last `%`. -/
theorem accepts_back {afterStar retry : List UInt8} (hfails : ¬Likes pattern text) :
    Accepts ⟨text, pattern, some (afterStar, c :: retry)⟩ ↔
      Accepts ⟨retry, afterStar, some (afterStar, retry)⟩ := by
  constructor
  · rintro (h | ⟨_, _, d, front, behind, hstar, hretry, h⟩)
    · exact absurd h hfails
    · obtain ⟨rfl, rfl⟩ := Prod.mk.inj (Option.some.inj hstar)
      obtain ⟨-, rfl⟩ := List.cons.inj hretry
      cases front with
      | nil => exact Or.inl h
      | cons e front => exact Or.inr ⟨_, _, e, front, behind, rfl, rfl, h⟩
  · rintro (h | ⟨_, _, d, front, behind, hstar, hretry, h⟩)
    · exact Or.inr ⟨_, _, c, [], retry, rfl, rfl, h⟩
    · obtain ⟨rfl, rfl⟩ := Prod.mk.inj (Option.some.inj hstar)
      exact Or.inr ⟨_, _, c, d :: front, behind, rfl, by rw [hretry]; rfl, h⟩

/-- A pattern that asks for a byte matches no empty text. -/
theorem fails_of_nil : ¬Likes [] (c :: text) := fun h => by
  have := Likes.nil_iff.mp h
  exact absurd this (by simp)

/-- An ordinary byte of the pattern matches itself only. -/
theorem fails_of_mismatch (hp : p ≠ 37) (hmatch : ¬(p = 95 ∨ p = c)) :
    ¬Likes (p :: pattern) (c :: text) := by
  intro h
  obtain ⟨d, rest, heq, hd, -⟩ := (Likes.cons_iff hp).mp h
  obtain ⟨rfl, -⟩ := List.cons.inj heq
  exact hmatch hd

end

/-! ### The loop -/

/-- How much more the last `%` can absorb; `limit` before there is any. -/
def LikeState.slack (limit : Nat) (s : LikeState) : Nat :=
  match s.star with
  | some (_, retry) => retry.length
  | none => limit

/-- Goes down with every turn: a match shortens the text, a mismatch leaves the last `%` less to
absorb, and a `%` is met once only. -/
def effort (limit : Nat) (s : LikeState) : Nat :=
  (s.slack limit + s.pattern.count 37) * (limit + 1) + s.text.length

/-- The loop that the model runs by fuel, on a state. -/
def LikeState.loop (fuel : Nat) (s : LikeState) : Bool := likeLoop fuel s.text s.pattern s.star

/-- Each turn back leaves less to do, since the pattern has moved on. -/
theorem effort_lt {limit k k' n n' : Nat} (hk : k' + 1 ≤ k) (hn : n' ≤ limit) :
    k' * (limit + 1) + n' < k * (limit + 1) + n := by
  have hmul := Nat.mul_le_mul_right (limit + 1) hk
  rw [Nat.succ_mul] at hmul
  omega

/-- What is true of a mismatch: the answer is no, or the last `%` absorbs one byte more. -/
theorem back_spec {limit : Nat} {s : LikeState} (haligned : s.Aligned) (htext : s.text ≠ [])
    (hlimit : s.slack limit ≤ limit) (hfails : ¬Likes s.pattern s.text) :
    (s.back = .inr false ∧ ¬Accepts s) ∨
      ∃ t, s.back = .inl t ∧ t.Aligned ∧ t.slack limit ≤ limit ∧
        t.text.length ≤ t.slack limit ∧ (Accepts s ↔ Accepts t) ∧
        effort limit t < effort limit s := by
  obtain ⟨text, pattern, star⟩ := s
  match star with
  | none =>
    refine Or.inl ⟨rfl, ?_⟩
    rintro (h | ⟨_, _, _, _, _, hstar, -⟩)
    · exact hfails h
    · exact absurd hstar (by simp)
  | some (afterStar, []) =>
    obtain ⟨lit, matched, -, hmatched, -, -⟩ := haligned _ _ rfl
    exact absurd (List.append_eq_nil_iff.mp hmatched.symm).2 htext
  | some (afterStar, d :: retry) =>
    have hcount : afterStar.count 37 = pattern.count 37 := by
      obtain ⟨lit, matched, hafter, -, -, hlit⟩ := haligned _ _ rfl
      rw [hafter, List.count_append, List.count_eq_zero.mpr hlit, Nat.zero_add]
    have hretry : retry.length + 1 ≤ limit := hlimit
    refine Or.inr ⟨⟨retry, afterStar, some (afterStar, retry)⟩, rfl, ?_, ?_, Nat.le_refl _,
      accepts_back hfails, ?_⟩
    · intro after again heq
      obtain ⟨rfl, rfl⟩ := Prod.mk.inj (Option.some.inj heq)
      exact ⟨[], [], rfl, rfl, rfl, by simp⟩
    · show retry.length ≤ limit
      omega
    · refine effort_lt ?_ (by show retry.length ≤ limit; omega)
      show retry.length + afterStar.count 37 + 1 ≤ retry.length + 1 + pattern.count 37
      omega

/-- The loop ends with the answer that the state stands for, as soon as there is fuel for the
effort. The induction is on the fuel; the alignment carries it past a new `%`. -/
theorem loop_spec {limit fuel : Nat} {s : LikeState} (haligned : s.Aligned)
    (hlimit : s.slack limit ≤ limit) (htext : s.text.length ≤ s.slack limit)
    (hfuel : effort limit s < fuel) :
    LikeEnds s (s.loop fuel) ∧ (s.loop fuel = true ↔ Accepts s) := by
  induction fuel generalizing s with
  | zero => omega
  | succ fuel ih =>
    -- both kinds of mismatch lead back in the same way
    have hback : likeStep s = s.back → s.text ≠ [] → ¬Likes s.pattern s.text →
        s.loop (fuel + 1) = (match s.back with
          | .inl t => t.loop fuel
          | .inr answer => answer) →
        LikeEnds s (s.loop (fuel + 1)) ∧ (s.loop (fuel + 1) = true ↔ Accepts s) := by
      intro hstep hne hfails hloop
      rw [hloop]
      rcases back_spec haligned hne hlimit hfails with ⟨hend, hno⟩ |
        ⟨t, hturn, halign, hslack, hlen, haccepts, hless⟩
      · rw [hend] at hstep ⊢
        exact ⟨.done hstep, by simpa using hno⟩
      · rw [hturn] at hstep ⊢
        obtain ⟨hends, hanswer⟩ := ih halign hslack hlen (by omega)
        exact ⟨.turn hstep hends, hanswer.trans haccepts.symm⟩
    obtain ⟨text, pattern, star⟩ := s
    match text, pattern with
    | [], pattern =>
      exact ⟨.done rfl, (accepts_end haligned).symm⟩
    | c :: text, [] =>
      refine hback rfl (by simp) fails_of_nil ?_
      match star with
      | none => rfl
      | some (_, []) => rfl
      | some (_, _ :: _) => rfl
    | c :: text, p :: rest =>
      by_cases hp : p = 37
      · subst hp
        have hloop : LikeState.loop (fuel + 1) ⟨c :: text, 37 :: rest, star⟩
            = LikeState.loop fuel ⟨c :: text, rest, some (rest, c :: text)⟩ := rfl
        have hslack : (c :: text).length ≤ limit := Nat.le_trans htext hlimit
        rw [hloop]
        obtain ⟨hends, hanswer⟩ := ih
          (s := ⟨c :: text, rest, some (rest, c :: text)⟩) (by
            intro after again heq
            obtain ⟨rfl, rfl⟩ := Prod.mk.inj (Option.some.inj heq)
            exact ⟨[], [], rfl, rfl, rfl, by simp⟩) hslack (Nat.le_refl _) (by
            refine Nat.lt_of_lt_of_le (effort_lt ?_ hslack) (Nat.le_of_lt_succ hfuel)
            show (c :: text).length + rest.count 37 + 1
              ≤ LikeState.slack limit ⟨c :: text, 37 :: rest, star⟩ + (37 :: rest).count 37
            rw [List.count_cons_self]
            have hlen : (c :: text).length ≤
              LikeState.slack limit ⟨c :: text, 37 :: rest, star⟩ := htext
            omega)
        exact ⟨.turn rfl hends, hanswer.trans (accepts_star haligned).symm⟩
      · by_cases hmatch : p = 95 ∨ p = c
        · have hstep : likeStep ⟨c :: text, p :: rest, star⟩ = .inl ⟨text, rest, star⟩ := by
            simp [likeStep, hp, hmatch]
          have hloop : LikeState.loop (fuel + 1) ⟨c :: text, p :: rest, star⟩
              = LikeState.loop fuel ⟨text, rest, star⟩ := by
            simp [LikeState.loop, likeLoop, hp, hmatch]
          rw [hloop]
          obtain ⟨hends, hanswer⟩ := ih (s := ⟨text, rest, star⟩) (by
            intro after again hstar
            obtain ⟨lit, matched, rfl, rfl, hlen, hlit⟩ := haligned _ _ hstar
            refine ⟨lit ++ [p], matched ++ [c], by simp, by simp, by simp [hlen], ?_⟩
            simp only [List.mem_append, List.mem_singleton, not_or]
            exact ⟨hlit, fun heq => hp heq.symm⟩) hlimit
            (Nat.le_trans (Nat.le_succ _) htext) (by
              refine Nat.lt_of_lt_of_le ?_ (Nat.le_of_lt_succ hfuel)
              show (LikeState.slack limit ⟨text, rest, star⟩ + rest.count 37) * (limit + 1)
                + text.length < (LikeState.slack limit ⟨text, rest, star⟩ + (p :: rest).count 37)
                  * (limit + 1) + (text.length + 1)
              rw [List.count_cons_of_ne hp]
              omega)
          exact ⟨.turn hstep hends, hanswer.trans (accepts_match hp hmatch).symm⟩
        · refine hback (by simp [likeStep, hp, hmatch]) (by simp) (fails_of_mismatch hp hmatch) ?_
          match star with
          | none => simp [LikeState.loop, likeLoop, LikeState.back, hp, hmatch]
          | some (_, []) => simp [LikeState.loop, likeLoop, LikeState.back, hp, hmatch]
          | some (_, _ :: _) => simp [LikeState.loop, likeLoop, LikeState.back, hp, hmatch]

/-- At the start there is no `%` behind. -/
theorem accepts_start (text pattern : List UInt8) :
    Accepts (.start text pattern) ↔ Likes (pattern.takeWhile (· ≠ 0)) text := by
  refine ⟨?_, Or.inl⟩
  rintro (h | ⟨_, _, _, _, _, hstar, -⟩)
  · exact h
  · exact absurd hstar (by simp [LikeState.start])

/-- The fuel of `likeMatch` is enough for the whole loop. -/
theorem likeMatch_loop (text pattern : List UInt8) :
    LikeEnds (.start text pattern) (likeMatch text pattern) ∧
      (likeMatch text pattern = true ↔ Accepts (.start text pattern)) := by
  have hcount : (pattern.takeWhile (· ≠ 0)).count 37 ≤ pattern.length :=
    Nat.le_trans List.count_le_length (List.takeWhile_sublist _).length_le
  refine loop_spec
    (s := .start text pattern) (fun _ _ hstar => absurd hstar (by simp [LikeState.start]))
    (Nat.le_refl _) (Nat.le_refl _) ?_
  show (text.length + (pattern.takeWhile (· ≠ 0)).count 37) * (text.length + 1) + text.length
    < (text.length + 1) * (text.length + pattern.length + 2)
  have hmul : (text.length + (pattern.takeWhile (· ≠ 0)).count 37) * (text.length + 1)
      ≤ (text.length + pattern.length) * (text.length + 1) :=
    Nat.mul_le_mul_right _ (by omega)
  rw [Nat.mul_comm (text.length + 1), Nat.add_mul _ 2]
  omega

/-- `likeMatch` ends on every text and every pattern, and answers whether the text is in the
language of the pattern. -/
theorem likeMatch_decides (text pattern : List UInt8) :
    LikeEnds (.start text pattern) (likeMatch text pattern) ∧
      (likeMatch text pattern = true ↔ Likes (pattern.takeWhile (· ≠ 0)) text) := by
  obtain ⟨hends, hanswer⟩ := likeMatch_loop text pattern
  exact ⟨hends, hanswer.trans (accepts_start text pattern)⟩

/-! ### The head of a pattern -/

/-- A part of the pattern without a wildcard stands for itself. -/
theorem Likes.literal {lit pattern text : List UInt8} (hlit : ∀ c ∈ lit, c ≠ 37 ∧ c ≠ 95)
    (h : Likes (lit ++ pattern) text) : lit <+: text := by
  induction lit generalizing text with
  | nil => exact List.nil_prefix
  | cons p lit ih =>
    obtain ⟨hrun, hone⟩ := hlit p List.mem_cons_self
    obtain ⟨c, rest, rfl, hmatch, hrest⟩ := (Likes.cons_iff hrun).mp h
    obtain rfl := hmatch.resolve_left hone
    exact List.cons_prefix_cons.mpr
      ⟨rfl, ih (fun c hc => hlit c (List.mem_cons_of_mem _ hc)) hrest⟩

/-- A text that matches begins with the literal head of the pattern. -/
theorem likePrefix_prefix {text pattern : List UInt8} (h : likeMatch text pattern = true) :
    likePrefix pattern <+: text := by
  have hlikes := (accepts_start text pattern).mp ((likeMatch_loop text pattern).2.mp h)
  have hhead : likePrefix pattern <+: pattern.takeWhile (· ≠ 0) := by
    refine (List.take_prefix _ _).trans ?_
    have hsplit : (pattern.takeWhile fun c => c ≠ 0 ∧ c ≠ 37 ∧ c ≠ 95) =
        (pattern.takeWhile (· ≠ 0)).takeWhile fun c => c ≠ 37 ∧ c ≠ 95 := by
      rw [List.takeWhile_takeWhile]
      refine congrArg (fun p => pattern.takeWhile p) (funext fun c => ?_)
      simp only [ne_eq, decide_not, Bool.decide_and]
      grind
    rw [hsplit]
    exact List.takeWhile_prefix _
  obtain ⟨rest, hrest⟩ := hhead
  rw [← hrest] at hlikes
  refine hlikes.literal fun c hc => ?_
  have hkept := List.mem_takeWhile_imp (List.mem_of_mem_take hc)
  exact (of_decide_eq_true hkept).2

end DatabaseEngine
