import DatabaseEngine.Model.Condition

/-!
# `DatabaseEngine.Spec.Like`: the language of a LIKE pattern

What a pattern means, and the loop of `likeMatch` as a machine: the pointers of the source
are what is left of the text and of the pattern, and `likeStep` is one turn of the loop.
-/

set_option autoImplicit false

namespace DatabaseEngine

/-- The texts of a pattern: `%` (37) stands for any bytes, `_` (95) for any one byte, and every
other byte for itself. -/
inductive Likes : List UInt8 → List UInt8 → Prop
  | nil : Likes [] []
  | run {pattern text : List UInt8} (skipped : List UInt8) (rest : Likes pattern text) :
      Likes (37 :: pattern) (skipped ++ text)
  | one {pattern text : List UInt8} (c : UInt8) (rest : Likes pattern text) :
      Likes (95 :: pattern) (c :: text)
  | same {pattern text : List UInt8} {c : UInt8} (hrun : c ≠ 37) (hone : c ≠ 95)
      (rest : Likes pattern text) : Likes (c :: pattern) (c :: text)

/-- The variables of `likeMatch`: what is left of the text and of the pattern, and
`afterStar` with `retry` once a `%` has been met. -/
structure LikeState where
  text : List UInt8
  pattern : List UInt8
  star : Option (List UInt8 × List UInt8)

/-- Where a mismatch leads: one character further on behind the last `%`, or to the end. -/
def LikeState.back (s : LikeState) : LikeState ⊕ Bool :=
  match s.star with
  | some (afterStar, _ :: retry) => .inl ⟨retry, afterStar, some (afterStar, retry)⟩
  | _ => .inr false

/-- One turn of the loop: the next state, or the answer. -/
def likeStep (s : LikeState) : LikeState ⊕ Bool :=
  match s.text, s.pattern with
  | [], pattern => .inr (pattern.all (· == 37))
  | _ :: _, [] => s.back
  | c :: text, p :: rest =>
    if p = 37 then .inl ⟨c :: text, rest, some (rest, c :: text)⟩
    else if p = 95 ∨ p = c then .inl ⟨text, rest, s.star⟩
    else s.back

/-- The loop ends, with an answer. -/
inductive LikeEnds : LikeState → Bool → Prop
  | done {s : LikeState} {answer : Bool} (h : likeStep s = .inr answer) : LikeEnds s answer
  | turn {s t : LikeState} {answer : Bool} (h : likeStep s = .inl t) (rest : LikeEnds t answer) :
      LikeEnds s answer

/-- How `likeMatch` begins. A pattern is a C string, so it ends at its first zero byte. -/
def LikeState.start (text pattern : List UInt8) : LikeState :=
  ⟨text, pattern.takeWhile (· ≠ 0), none⟩

end DatabaseEngine
