import DatabaseEngine.Model.Wire
import DatabaseEngine.Proofs.Wire.Lexing

/-!
# `DatabaseEngine.Proofs.Wire.Scan`: the scans agree with the lexer

Three functions go over a text byte by byte and keep track of quotes: the one that cuts it into
statements, the one that looks for holes, and the lexer itself. `Scans` is what they have in
common, and `Scans.lexes` says that such a scan passes over a text that the lexer reads to its
end as it passes over a blank.

* `nextStatement_reads`: the cut copies a text without semicolon and comment.
* `nextStatement_copies`: what it copies of the text behind a statement that has begun, and
  that the size of the buffer decides only whether it fits.
* `nextStatement_finish`: it finds no statement where there are only blanks, comments and
  semicolons.
* `statementsOf_single`: what a text with one statement looks like.
-/

set_option autoImplicit false

namespace DatabaseEngine

open Library

variable {β : Type}

/-- A scan with a flag for being inside a string. -/
structure Scans (S : Bool → List UInt8 → β) : Prop where
  quote : ∀ q r, S q (39 :: r) = S (!q) r
  inside : ∀ c r, c ≠ 39 → S true (c :: r) = S true r
  blank : ∀ c r, isspace c = true → S false (c :: r) = S false r
  quiet : ∀ c r, isQuiet c = true → S false (c :: r) = S false r
  minus : ∀ r, r.head? ≠ some 45 → S false (45 :: r) = S false r

/-- Whether a scan stands in a string after a text. -/
def inString : Bool → List UInt8 → Bool
  | q, [] => q
  | q, c :: rest => inString (if c = 39 then !q else q) rest

/-- The text from its first comment on. -/
def unread : Bool → List UInt8 → List UInt8
  | _, [] => []
  | q, c :: rest =>
    if q = false ∧ c = 45 ∧ rest.head? = some 45 then c :: rest
    else unread (if c = 39 then !q else q) rest

/-- Whether a text has a semicolon outside of strings. -/
def hasSemicolon : Bool → List UInt8 → Bool
  | _, [] => false
  | q, c :: rest => (!q && c == 59) || hasSemicolon (if c = 39 then !q else q) rest

/-- A blank is no quote, minus or semicolon. -/
theorem isspace_ne {c : UInt8} (h : isspace c = true) : c ≠ 39 ∧ c ≠ 45 ∧ c ≠ 59 := by
  have hall : ∀ c : UInt8, isspace c = true → c ≠ 39 ∧ c ≠ 45 ∧ c ≠ 59 :=
    forall_byte (by decide +kernel)
  exact hall c h

/-- A quiet byte is none of the bytes a scan asks for. -/
theorem isQuiet_ne {c : UInt8} (h : isQuiet c = true) :
    c ≠ 39 ∧ c ≠ 45 ∧ c ≠ 59 ∧ c ≠ 36 ∧ isspace c = false := by
  simpa [isQuiet, and_assoc] using h

/-- Being inside a text is a scan. -/
theorem inString_scans : Scans inString where
  quote q r := by simp [inString]
  inside c r hc := by simp [inString, hc]
  blank c r hc := by simp [inString, (isspace_ne hc).1]
  quiet c r hc := by simp [inString, (isQuiet_ne hc).1]
  minus r _ := by simp [inString]

/-- What is left unread is a scan. -/
theorem unread_scans : Scans unread where
  quote q r := by simp [unread]
  inside c r hc := by simp [unread, hc]
  blank c r hc := by simp [unread, (isspace_ne hc).1, (isspace_ne hc).2.1]
  quiet c r hc := by simp [unread, (isQuiet_ne hc).1, (isQuiet_ne hc).2.1]
  minus r hr := by simp [unread, hr]

/-- Looking for a semicolon is a scan. -/
theorem hasSemicolon_scans : Scans hasSemicolon where
  quote q r := by simp [hasSemicolon]
  inside c r hc := by simp [hasSemicolon, hc]
  blank c r hc := by simp [hasSemicolon, (isspace_ne hc).1, (isspace_ne hc).2.2]
  quiet c r hc := by simp [hasSemicolon, (isQuiet_ne hc).1, (isQuiet_ne hc).2.2.1]
  minus r _ := by simp [hasSemicolon]

namespace Scans

variable {S : Bool → List UInt8 → β}

/-- Quiet bytes in a row change nothing of a scan. -/
theorem quiets (h : Scans S) {w : List UInt8} (hw : ∀ c ∈ w, isQuiet c = true)
    (r : List UInt8) : S false (w ++ r) = S false r := by
  induction w with
  | nil => rfl
  | cons c w ih =>
    rw [List.cons_append, h.quiet c _ (hw c (by simp)), ih fun d hd => hw d (by simp [hd])]

/-- A string is passed over as one. -/
theorem string (h : Scans S) (n : Nat) (a : List UInt8) {text rest : List UInt8}
    (hread : readString n a = .ok (text, rest)) (b : List UInt8) :
    S true (a ++ b) = S false (rest ++ b) := by
  fun_induction readString n a generalizing text rest with
  | case1 n => exact absurd hread (by simp)
  | case2 n more hlong => exact absurd hread (by simp)
  | case3 n more hshort ih =>
    obtain ⟨inner, -, hmore⟩ := consText_ok hread
    rw [List.cons_append, List.cons_append, h.quote, h.quote]
    exact ih hmore
  | case4 n more hnot =>
    obtain ⟨-, rfl⟩ : [] = text ∧ more = rest := by simpa using hread
    rw [List.cons_append, h.quote]
    rfl
  | case5 n c more hpair hquote hlong => exact absurd hread (by simp)
  | case6 n c more hpair hquote hshort ih =>
    obtain ⟨inner, -, hmore⟩ := consText_ok hread
    rw [List.cons_append, h.inside c _ fun hc => hquote hc]
    exact ih hmore

/-- What the lexer reads to its end, a scan passes over. -/
theorem lexes (h : Scans S) {a : List UInt8} {ts : List Token} (hl : Lexes a ts)
    (hsemi : (∀ r, S false (59 :: r) = S false r) ∨ ∀ t ∈ ts, t.type ≠ .TOKEN_SEMICOLON)
    {b : List UInt8} (hmark : a.getLast? = some 45 → b.head? ≠ some 45) :
    S false (a ++ b) = S false b := by
  induction hl with
  | nil => rfl
  | @skip text rest ts hone _ ih =>
    obtain ⟨c, rfl, hc⟩ := lexOne_skip hone
    rw [List.cons_append, h.blank c _ hc]
    refine ih hsemi fun hlast => hmark ?_
    rw [List.getLast?_cons, hlast]
    rfl
  | @token text rest t ts hone _ ih =>
    have hrest : ∀ w, text = w ++ rest → rest.getLast? = some 45 → b.head? ≠ some 45 := by
      rintro w rfl hlast
      refine hmark ?_
      rw [List.getLast?_append, hlast]
      rfl
    have hmore : (∀ r, S false (59 :: r) = S false r) ∨ ∀ t ∈ ts, t.type ≠ .TOKEN_SEMICOLON :=
      hsemi.imp_right fun hall t ht => hall t (by simp [ht])
    rcases lexOne_token hone with ⟨w, -, rfl, hw, -⟩ | ⟨rfl, hhead, -⟩ | ⟨rfl, rfl⟩ |
      ⟨more, s, rfl, hread, -⟩
    · rw [List.append_assoc, h.quiets hw, ih hmore (hrest w rfl)]
    · rw [List.cons_append, h.minus, ih hmore (hrest [45] rfl)]
      cases rest with
      | nil => exact hmark rfl
      | cons d rest => exact hhead
    · rcases hsemi with hsemi | hall
      · rw [List.cons_append, hsemi, ih hmore (hrest [59] rfl)]
      · exact absurd rfl (hall ⟨.TOKEN_SEMICOLON, [59]⟩ (by simp))
    · obtain ⟨w, hw, -⟩ := readString_quote 0 more hread
      rw [List.cons_append, h.quote, Bool.not_false, h.string 0 more hread,
        ih hmore (hrest (39 :: w) (by rw [hw]; rfl))]

end Scans

/-! ### Cutting statements -/

/-- Where the cut stands, by the flag of the other scans. -/
def scanMode (q : Bool) : Scan := if q then .text else .plain

/-- In a string a quote is a quote, the first of two or not: the second one opens it again. -/
theorem nextStatement_quote (size : Nat) (out rest : List UInt8) :
    nextStatement size .text true out (39 :: rest)
      = if size ≤ out.length + 1 then .overflow
        else nextStatement size .plain true (out ++ [39]) rest := by
  cases rest with
  | nil => simp [nextStatement]
  | cons c more =>
    by_cases hc : c = 39
    · subst hc
      simp only [nextStatement, if_true, List.length_append, List.length_cons, List.length_nil,
        List.append_assoc, List.cons_append, List.nil_append]
      by_cases hone : size ≤ out.length + 1
      · rw [if_pos hone, if_pos (by omega)]
      · rw [if_neg hone]
    · rw [nextStatement.eq_def]
      split <;> simp_all

/-- A byte of a statement is copied while there is room. -/
theorem nextStatement_inside (size : Nat) (any : Bool) (out rest : List UInt8) {c : UInt8}
    (hc : c ≠ 39) :
    nextStatement size .text any out (c :: rest)
      = if size ≤ out.length + 1 then .overflow
        else nextStatement size .text any (out ++ [c]) rest := by
  rw [nextStatement.eq_def]
  split <;> simp_all

/-- Where no comment starts, a byte that is no semicolon is copied. -/
theorem nextStatement_plain (size : Nat) (any : Bool) (out rest : List UInt8) {c : UInt8}
    (hcomment : ¬(c = 45 ∧ rest.head? = some 45)) (hsemi : c ≠ 59) :
    nextStatement size .plain any out (c :: rest)
      = if size ≤ out.length + 1 then .overflow
        else nextStatement size (scanMode (decide (c = 39))) (any || !isspace c) (out ++ [c])
          rest := by
  rw [nextStatement]
  by_cases hquote : c = 39
  · subst hquote
    have hspace : isspace 39 = false := by decide
    simp [scanMode, hspace]
  · simp [hquote, hcomment, hsemi, scanMode]

/-- A text without semicolon and comment is copied. -/
theorem nextStatement_reads (size : Nat) {x d : List UInt8} {q any : Bool} {out : List UInt8}
    (hcomment : (unread q (x ++ d)).length ≤ d.length) (hsemi : hasSemicolon q x = false)
    (hsize : out.length + x.length < size) (hany : q = true → any = true) :
    nextStatement size (scanMode q) any out (x ++ d)
      = nextStatement size (scanMode (inString q x)) (any || x.any fun c => !isspace c)
          (out ++ x) d := by
  induction x generalizing q any out with
  | nil => simp [inString]
  | cons c x ih =>
    simp only [List.length_cons] at hsize
    have hnot : ¬(q = false ∧ c = 45 ∧ (x ++ d).head? = some 45) := by
      intro h
      rw [List.cons_append, unread, if_pos h] at hcomment
      simp only [List.length_cons, List.length_append] at hcomment
      omega
    rw [List.cons_append, unread, if_neg hnot] at hcomment
    simp only [hasSemicolon, Bool.or_eq_false_iff] at hsemi
    have hroom : ¬size ≤ out.length + 1 := by omega
    have hnext := @ih (if c = 39 then !q else q) (any || !isspace c) (out ++ [c])
      hcomment hsemi.2 (by simp; omega)
    rw [List.cons_append, inString, List.any_cons]
    cases q with
    | false =>
      have hc : c ≠ 59 := by
        rintro rfl
        simp at hsemi
      rw [scanMode, if_neg (by simp), nextStatement_plain size any out _ (fun h => hnot ⟨rfl, h⟩) hc,
        if_neg hroom]
      have hmode : (decide (c = 39)) = (if c = 39 then !false else false) := by
        by_cases h : c = 39 <;> simp [h]
      rw [hmode, hnext, Bool.or_assoc, List.append_assoc]
      · rfl
      · intro hq
        have hc : c = 39 := by
          by_contra h
          simp [h] at hq
        subst hc
        simp [show isspace 39 = false by decide]
    | true =>
      obtain rfl := hany rfl
      rw [scanMode, if_pos rfl]
      by_cases hc : c = 39
      · subst hc
        rw [nextStatement_quote, if_neg hroom]
        simpa [scanMode] using hnext fun _ => by simp
      · rw [nextStatement_inside size true out _ hc, if_neg hroom]
        simpa [scanMode, hc] using hnext fun _ => by simp

/-! ### What the cut copies -/

/-- What the cut copies of the text behind a statement that has begun, up to the end of the
statement, and what is left then. -/
inductive Copies : Scan → List UInt8 → List UInt8 → List UInt8 → Prop
  | finish (m : Scan) : Copies m [] [] []
  | semicolon (rest : List UInt8) : Copies .plain (59 :: rest) [] rest
  | inside {c : UInt8} {text more rest : List UInt8} (hc : c ≠ 39)
      (h : Copies .text text more rest) : Copies .text (c :: text) (c :: more) rest
  | close {text more rest : List UInt8} (h : Copies .plain text more rest) :
      Copies .text (39 :: text) (39 :: more) rest
  | dropped {c : UInt8} {text more rest : List UInt8} (hc : c ≠ 10)
      (h : Copies .comment text more rest) : Copies .comment (c :: text) more rest
  | line {text more rest : List UInt8} (h : Copies .plain text more rest) :
      Copies .comment (10 :: text) (10 :: more) rest
  | comment {text more rest : List UInt8} (hmark : text.head? = some 45)
      (h : Copies .comment text more rest) : Copies .plain (45 :: text) more rest
  | quote {text more rest : List UInt8} (h : Copies .text text more rest) :
      Copies .plain (39 :: text) (39 :: more) rest
  | plain {c : UInt8} {text more rest : List UInt8} (hquote : c ≠ 39) (hsemi : c ≠ 59)
      (hmark : ¬(c = 45 ∧ text.head? = some 45)) (h : Copies .plain text more rest) :
      Copies .plain (c :: text) (c :: more) rest

/-- One byte more was copied: the rest of the copy, with this byte on the statement. -/
theorem copies_cons {m m' : Scan} {c : UInt8} {size : Nat} {out x x' p rest : List UInt8}
    (hstep : ∀ {more}, Copies m (c :: x) more rest ↔ ∃ more', more = c :: more' ∧
      Copies m' x' more' rest) :
    (¬size ≤ out.length + 1 ∧ ∃ more, p = out ++ [c] ++ more ∧ Copies m' x' more rest ∧
        (more = [] ∨ p.length < size)) ↔
      ∃ more, p = out ++ more ∧ Copies m (c :: x) more rest ∧ (more = [] ∨ p.length < size) := by
  constructor
  · rintro ⟨hroom, more, rfl, hcopies, hfit⟩
    refine ⟨c :: more, by simp, hstep.mpr ⟨more, rfl, hcopies⟩, Or.inr ?_⟩
    rcases hfit with rfl | hfit
    · simp only [List.append_nil, List.length_append, List.length_cons, List.length_nil]
      omega
    · exact hfit
  · rintro ⟨more, rfl, hcopies, hfit⟩
    obtain ⟨more', rfl, hcopies'⟩ := hstep.mp hcopies
    have hfit : (out ++ c :: more').length < size := hfit.resolve_left (by simp)
    refine ⟨?_, more', by simp, hcopies', Or.inr hfit⟩
    simp only [List.length_append, List.length_cons] at hfit
    omega

/-- A statement comes out only if it fits. -/
theorem fits_iff {s : Next} {b : Prop} [Decidable b] {p rest : List UInt8} :
    (if b then .overflow else s) = .statement p rest ↔ ¬b ∧ s = .statement p rest := by
  by_cases hb : b <;> simp [hb]

/-- Behind a statement that has begun, the cut answers what it copies, unless it does not fit
the buffer. -/
theorem nextStatement_copies (size : Nat) (m : Scan) (out x p rest : List UInt8) :
    nextStatement size m true out x = .statement p rest ↔
      ∃ more, p = out ++ more ∧ Copies m x more rest ∧ (more = [] ∨ p.length < size) := by
  induction x generalizing m out with
  | nil =>
    have hnil : nextStatement size m true out [] = .statement out [] := by
      cases m <;> simp [nextStatement]
    rw [hnil]
    constructor
    · intro h
      obtain ⟨rfl, rfl⟩ : out = p ∧ [] = rest := by simpa using h
      exact ⟨[], by simp, .finish m, Or.inl rfl⟩
    · rintro ⟨more, rfl, hcopies, -⟩
      cases hcopies
      simp
  | cons c x ih =>
    cases m with
    | text =>
      by_cases hc : c = 39
      · subst hc
        rw [nextStatement_quote, fits_iff, ih]
        refine copies_cons ?_
        intro more
        constructor
        · intro h
          cases h with
          | inside hc => exact absurd rfl hc
          | close h => exact ⟨_, rfl, h⟩
        · rintro ⟨more', rfl, h⟩
          exact .close h
      · rw [nextStatement_inside size true out x hc, fits_iff, ih]
        refine copies_cons ?_
        intro more
        constructor
        · intro h
          cases h with
          | inside _ h => exact ⟨_, rfl, h⟩
          | close h => exact absurd rfl hc
        · rintro ⟨more', rfl, h⟩
          exact .inside hc h
    | comment =>
      by_cases hc : c = 10
      · subst hc
        rw [nextStatement, if_neg (by simp), fits_iff, ih]
        refine copies_cons ?_
        intro more
        constructor
        · intro h
          cases h with
          | dropped hc => exact absurd rfl hc
          | line h => exact ⟨_, rfl, h⟩
        · rintro ⟨more', rfl, h⟩
          exact .line h
      · rw [nextStatement, if_pos hc, ih]
        have hstep : ∀ {more}, Copies .comment (c :: x) more rest ↔ Copies .comment x more rest := by
          intro more
          constructor
          · intro h
            cases h with
            | dropped _ h => exact h
            | line h => exact absurd rfl hc
          · exact .dropped hc
        simp only [hstep]
    | plain =>
      by_cases hmark : c = 45 ∧ x.head? = some 45
      · obtain ⟨rfl, hhead⟩ := hmark
        rw [nextStatement, if_neg (by decide), if_pos ⟨rfl, hhead⟩, ih]
        have hstep : ∀ {more}, Copies .plain (45 :: x) more rest ↔ Copies .comment x more rest := by
          intro more
          constructor
          · intro h
            cases h with
            | comment _ h => exact h
            | plain _ _ hmark => exact absurd ⟨rfl, hhead⟩ hmark
          · exact .comment hhead
        simp only [hstep]
      by_cases hsemi : c = 59
      · subst hsemi
        have hcut : nextStatement size .plain true out (59 :: x) = .statement out x := by
          simp [nextStatement]
        rw [hcut]
        constructor
        · intro h
          obtain ⟨rfl, rfl⟩ : out = p ∧ x = rest := by simpa using h
          exact ⟨[], by simp, .semicolon x, Or.inl rfl⟩
        · rintro ⟨more, rfl, hcopies, -⟩
          cases hcopies with
          | semicolon => simp
          | plain _ hsemi => exact absurd rfl hsemi
      rw [nextStatement_plain size true out x hmark hsemi, fits_iff, Bool.true_or, ih]
      refine copies_cons ?_
      intro more
      by_cases hc : c = 39
      · subst hc
        constructor
        · intro h
          cases h with
          | quote h => exact ⟨_, rfl, h⟩
          | plain hquote => exact absurd rfl hquote
        · rintro ⟨more', rfl, h⟩
          exact .quote h
      · have hmode : scanMode (decide (c = 39)) = .plain := by simp [scanMode, hc]
        rw [hmode]
        constructor
        · intro h
          cases h with
          | semicolon => exact absurd rfl hsemi
          | comment hhead h => exact absurd ⟨rfl, hhead⟩ hmark
          | quote h => exact absurd rfl hc
          | plain _ _ _ h => exact ⟨_, rfl, h⟩
        · rintro ⟨more', rfl, h⟩
          exact .plain hc hsemi hmark h

/-- The bytes of a text that are no blank, no semicolon between tokens, and in no comment. -/
def bare : Scan → List UInt8 → List UInt8
  | _, [] => []
  | .text, c :: rest => c :: bare (if c = 39 then .plain else .text) rest
  | .comment, c :: rest => bare (if c = 10 then .plain else .comment) rest
  | .plain, c :: rest =>
    if c = 45 ∧ rest.head? = some 45 then bare .comment rest
    else if c = 39 then c :: bare .text rest
    else if isspace c || c == 59 then bare .plain rest
    else c :: bare .plain rest

namespace Copies

/-- Whether the copy starts in a string: a comment is not copied. -/
def inText : Scan → Bool
  | .text => true
  | _ => false

/-- There is one copy of a text. -/
theorem det {m : Scan} {x more rest more' rest' : List UInt8} (h : Copies m x more rest)
    (h' : Copies m x more' rest') : more = more' ∧ rest = rest' := by
  induction h generalizing more' rest' with
  | finish m => cases h'; exact ⟨rfl, rfl⟩
  | semicolon rest =>
    cases h' with
    | semicolon => exact ⟨rfl, rfl⟩
    | plain _ hsemi => exact absurd rfl hsemi
  | inside hc _ ih =>
    cases h' with
    | inside _ h' => exact ⟨by rw [(ih h').1], (ih h').2⟩
    | close h' => exact absurd rfl hc
  | close _ ih =>
    cases h' with
    | inside hc => exact absurd rfl hc
    | close h' => exact ⟨by rw [(ih h').1], (ih h').2⟩
  | dropped hc _ ih =>
    cases h' with
    | dropped _ h' => exact ih h'
    | line => exact absurd rfl hc
  | line _ ih =>
    cases h' with
    | dropped hc => exact absurd rfl hc
    | line h' => exact ⟨by rw [(ih h').1], (ih h').2⟩
  | comment hmark _ ih =>
    cases h' with
    | comment _ h' => exact ih h'
    | plain _ _ hmark' => exact absurd ⟨rfl, hmark⟩ hmark'
  | quote _ ih =>
    cases h' with
    | quote h' => exact ⟨by rw [(ih h').1], (ih h').2⟩
    | plain hquote => exact absurd rfl hquote
  | plain hquote hsemi hmark _ ih =>
    cases h' with
    | semicolon => exact absurd rfl hsemi
    | comment hmark' => exact absurd ⟨rfl, hmark'⟩ hmark
    | quote => exact absurd rfl hquote
    | plain _ _ _ h' => exact ⟨by rw [(ih h').1], (ih h').2⟩

/-- Of a comment, at most the end of its line is copied. -/
theorem line_head {x more rest : List UInt8} (h : Copies .comment x more rest) :
    more = [] ∨ more.head? = some 10 := by
  generalize hm : Scan.comment = m at h
  induction h with
  | finish => exact Or.inl rfl
  | dropped _ _ ih => exact ih hm
  | line => exact Or.inr rfl
  | _ => exact absurd hm (by simp)

/-- The copy starts as the text does, or with the end of a line. -/
theorem head {x more rest : List UInt8} (h : Copies .plain x more rest) :
    more = [] ∨ more.head? = some 10 ∨ more.head? = x.head? := by
  cases h with
  | finish => exact Or.inl rfl
  | semicolon => exact Or.inl rfl
  | comment _ h => exact h.line_head.imp id Or.inl
  | quote => exact Or.inr (Or.inr rfl)
  | plain => exact Or.inr (Or.inr rfl)

/-- A minus sign that starts no comment starts none in the copy. -/
theorem no_mark {c : UInt8} {x more rest : List UInt8} (h : Copies .plain x more rest)
    (hmark : ¬(c = 45 ∧ x.head? = some 45)) : ¬(c = 45 ∧ more.head? = some 45) := by
  rintro ⟨rfl, hhead⟩
  rcases h.head with rfl | hten | hsame
  · exact absurd hhead (by simp)
  · rw [hten] at hhead
    exact absurd hhead (by simp)
  · exact hmark ⟨rfl, by rw [← hsame, hhead]⟩

/-- No comment is copied. -/
theorem unread {m : Scan} {x more rest : List UInt8} (h : Copies m x more rest) :
    DatabaseEngine.unread (inText m) more = [] := by
  induction h with
  | finish m => simp [DatabaseEngine.unread]
  | semicolon rest => simp [DatabaseEngine.unread]
  | inside hc _ ih => simpa [DatabaseEngine.unread, inText, hc] using ih
  | close _ ih => simpa [DatabaseEngine.unread, inText] using ih
  | dropped _ _ ih => exact ih
  | line _ ih => simpa [DatabaseEngine.unread, inText] using ih
  | comment _ _ ih => exact ih
  | quote _ ih => simpa [DatabaseEngine.unread, inText] using ih
  | plain hquote _ hmark h ih =>
    have hnot := h.no_mark hmark
    simpa [DatabaseEngine.unread, inText, hquote, hnot] using ih

/-- No semicolon outside of strings is copied. -/
theorem hasSemicolon {m : Scan} {x more rest : List UInt8} (h : Copies m x more rest) :
    DatabaseEngine.hasSemicolon (inText m) more = false := by
  induction h with
  | finish m => simp [DatabaseEngine.hasSemicolon]
  | semicolon rest => simp [DatabaseEngine.hasSemicolon]
  | inside hc _ ih => simpa [DatabaseEngine.hasSemicolon, inText, hc] using ih
  | close _ ih => simpa [DatabaseEngine.hasSemicolon, inText] using ih
  | dropped _ _ ih => exact ih
  | line _ ih => simpa [DatabaseEngine.hasSemicolon, inText] using ih
  | comment _ _ ih => exact ih
  | quote _ ih => simpa [DatabaseEngine.hasSemicolon, inText] using ih
  | plain hquote hsemi _ _ ih => simpa [DatabaseEngine.hasSemicolon, inText, hquote, hsemi] using ih

/-- The bytes of a text are those that are copied and those behind the statement. -/
theorem bare {m : Scan} {x more rest : List UInt8} (h : Copies m x more rest) :
    DatabaseEngine.bare m x
      = DatabaseEngine.bare (scanMode (inText m)) more ++ DatabaseEngine.bare .plain rest := by
  induction h with
  | finish m => simp [DatabaseEngine.bare]
  | semicolon rest => simp [DatabaseEngine.bare, isspace]
  | inside hc _ ih => simpa [DatabaseEngine.bare, inText, scanMode, hc] using ih
  | close _ ih => simpa [DatabaseEngine.bare, inText, scanMode] using ih
  | dropped hc _ ih => simpa [DatabaseEngine.bare, hc] using ih
  | line _ ih => simpa [DatabaseEngine.bare, inText, scanMode, isspace] using ih
  | @comment x more rest hmark _ ih =>
    have ih : DatabaseEngine.bare .comment x
        = DatabaseEngine.bare .plain more ++ DatabaseEngine.bare .plain rest := ih
    simpa [DatabaseEngine.bare, hmark, inText, scanMode] using ih
  | quote _ ih => simpa [DatabaseEngine.bare, inText, scanMode] using ih
  | @plain c x more rest hquote hsemi hmark h ih =>
    have hnot := h.no_mark hmark
    have ih : DatabaseEngine.bare .plain x
        = DatabaseEngine.bare .plain more ++ DatabaseEngine.bare .plain rest := ih
    rw [show scanMode (inText .plain) = .plain from rfl, DatabaseEngine.bare, if_neg hmark,
      if_neg hquote, DatabaseEngine.bare, if_neg hnot, if_neg hquote, ih]
    split <;> rfl

end Copies

/-! ### Where no statement is left -/

/-- A statement that has begun is not the end. -/
theorem nextStatement_begun (size : Nat) (m : Scan) (out x : List UInt8) :
    nextStatement size m true out x ≠ .finish := by
  generalize hany : true = any
  fun_induction nextStatement size m any out x <;> simp_all

/-- With room for the whole text, the cut finds the end where nothing is left but blanks,
comments and semicolons. -/
theorem nextStatement_finish (size : Nat) {m : Scan} (hm : m ≠ .text) {out x : List UInt8}
    (hsize : out.length + x.length < size) :
    nextStatement size m false out x = .finish ↔ bare m x = [] := by
  induction x generalizing m out with
  | nil => cases m <;> simp [nextStatement, bare]
  | cons c x ih =>
    simp only [List.length_cons] at hsize
    have hroom : ¬size ≤ out.length + 1 := by omega
    cases m with
    | text => exact absurd rfl hm
    | comment =>
      by_cases hc : c = 10
      · subst hc
        rw [nextStatement, if_neg (by simp), if_neg hroom, bare, if_pos rfl]
        exact ih (by simp) (by simp; omega)
      · rw [nextStatement, if_pos hc, bare, if_neg hc]
        exact ih (by simp) (by omega)
    | plain =>
      by_cases hquote : c = 39
      · subst hquote
        rw [nextStatement, if_pos rfl, if_neg hroom, bare, if_neg (by simp), if_pos rfl]
        exact ⟨fun h => absurd h (nextStatement_begun size _ _ _), fun h => absurd h (by simp)⟩
      by_cases hmark : c = 45 ∧ x.head? = some 45
      · rw [nextStatement, if_neg hquote, if_pos hmark, bare, if_pos hmark]
        exact ih (by simp) (by omega)
      by_cases hsemi : c = 59
      · subst hsemi
        rw [nextStatement, if_neg hquote, if_neg hmark, if_pos rfl, if_neg (by simp), bare,
          if_neg hmark, if_neg hquote, if_pos (by simp)]
        exact ih (by simp) (by simp; omega)
      rw [nextStatement, if_neg hquote, if_neg hmark, if_neg hsemi, if_neg hroom, bare,
        if_neg hmark, if_neg hquote]
      by_cases hspace : isspace c = true
      · rw [if_pos (by simp [hspace]), hspace]
        exact ih (by simp) (by simp; omega)
      · rw [if_neg (by simp [hspace, hsemi]), Bool.eq_false_iff.mpr hspace]
        exact ⟨fun h => absurd h (nextStatement_begun size _ _ _), fun h => absurd h (by simp)⟩

/-- Nothing overflows a buffer longer than the text. -/
theorem nextStatement_roomy (size : Nat) (m : Scan) (any : Bool) {out x : List UInt8}
    (hsize : out.length + x.length < size) : nextStatement size m any out x ≠ .overflow := by
  fun_induction nextStatement size m any out x
  all_goals
    first
    | simp; done
    | rename_i ih; exact ih (by simp at *; omega)
    | simp at *; omega

/-- What is left is no longer than the text. -/
theorem nextStatement_rest (size : Nat) (m : Scan) (any : Bool) {out x p rest : List UInt8}
    (h : nextStatement size m any out x = .statement p rest) : rest.length ≤ x.length := by
  fun_induction nextStatement size m any out x
  all_goals
    first
    | cases h; simp
    | cases h
    | (rename_i ih; have := ih h; simp only [List.length_cons]; omega)

/-- A smaller buffer makes the cut refuse, or changes nothing. -/
theorem nextStatement_grow {size size' : Nat} (hsize : size ≤ size') (m : Scan) (any : Bool)
    (out x : List UInt8) :
    nextStatement size m any out x = .overflow ∨
      nextStatement size m any out x = nextStatement size' m any out x := by
  fun_induction nextStatement size m any out x with
  | case1 => exact Or.inr (by simp [nextStatement])
  | case2 => exact Or.inr (by simp [nextStatement, *])
  | case3 => exact Or.inl rfl
  | case4 any out rest hroom ih =>
    rw [nextStatement, if_neg (by omega)]
    exact ih
  | case5 => exact Or.inl rfl
  | case6 any out c rest hpair hroom ih =>
    rw [nextStatement.eq_3 _ _ _ _ _ hpair, if_neg (show ¬size' ≤ out.length + 1 by omega)]
    exact ih
  | case7 any out c rest hc ih =>
    rw [nextStatement, if_pos hc]
    exact ih
  | case8 => exact Or.inl rfl
  | case9 any out c rest hc hroom ih =>
    rw [nextStatement, if_neg hc, if_neg (by omega)]
    exact ih
  | case10 => exact Or.inl rfl
  | case11 any out rest hroom ih =>
    rw [nextStatement, if_pos rfl, if_neg (by omega)]
    exact ih
  | case12 any out c rest hquote hmark ih =>
    rw [nextStatement, if_neg hquote, if_pos hmark]
    exact ih
  | case13 => exact Or.inr (by simp [nextStatement])
  | case14 any out rest hquote hmark hany ih =>
    rw [nextStatement, if_neg hquote, if_neg hmark, if_pos rfl, if_neg hany]
    exact ih
  | case15 => exact Or.inl rfl
  | case16 any out c rest hquote hmark hsemi hroom ih =>
    rw [nextStatement, if_neg hquote, if_neg hmark, if_neg hsemi, if_neg (by omega)]
    exact ih

/-! ### A text with one statement -/

/-- The statements of a text, cut with a buffer that all of it fits in. -/
def statementsOf (text : List UInt8) : List (List UInt8) :=
  (queryStatements (text.length + 1) (text.length + 1) text).1

/-- Where nothing is left, no statement is cut off, whatever the size of the buffer. -/
theorem queryStatements_nothing (size fuel : Nat) {x : List UInt8} (h : bare .plain x = []) :
    (queryStatements size fuel x).1 = [] := by
  cases fuel with
  | zero => rfl
  | succ fuel =>
    have hfinish : nextStatement (size + x.length + 1) .plain false [] x = .finish :=
      (nextStatement_finish _ (by simp) (by simp only [List.length_nil]; omega)).mpr h
    rw [queryStatements]
    rcases nextStatement_grow (show size ≤ size + x.length + 1 by omega) .plain false
      [] x with hgrow | hgrow
    · rw [hgrow]
    · rw [hgrow, hfinish]

/-- Behind the one statement of a text there are only blanks, comments and semicolons. -/
theorem statementsOf_single {text p : List UInt8} (h : statementsOf text = [p]) :
    ∃ rest, nextStatement (text.length + 1) .plain false [] text = .statement p rest ∧
      bare .plain rest = [] := by
  rw [statementsOf, queryStatements] at h
  cases hnext : nextStatement (text.length + 1) .plain false [] text with
  | finish => simp [hnext] at h
  | overflow => simp [hnext] at h
  | statement out rest =>
    simp only [hnext] at h
    by_cases hrest : rest.isEmpty
    · rw [if_pos hrest] at h
      obtain rfl : out = p := by simpa using h
      obtain rfl : rest = [] := by simpa using hrest
      exact ⟨[], rfl, rfl⟩
    · rw [if_neg hrest] at h
      obtain ⟨rfl, hmore⟩ : out = p ∧ (queryStatements (text.length + 1) text.length rest).1 = [] := by
        simpa using h
      refine ⟨rest, rfl, ?_⟩
      have hshort := nextStatement_rest _ _ _ hnext
      have hpositive : 0 < rest.length := List.length_pos_iff.mpr (by simpa using hrest)
      obtain ⟨n, hn⟩ : ∃ n, text.length = n + 1 := ⟨text.length - 1, by omega⟩
      rw [← @nextStatement_finish (text.length + 1) .plain (by simp) [] _ (by simp; omega)]
      have hroomy := @nextStatement_roomy (text.length + 1) .plain false [] rest (by simp; omega)
      rw [hn, queryStatements, ← hn] at hmore
      cases hlast : nextStatement (text.length + 1) .plain false [] rest with
      | finish => rfl
      | overflow => exact absurd hlast hroomy
      | statement out' rest' =>
        rw [hlast] at hmore
        dsimp only at hmore
        split at hmore <;> simp at hmore

/-- What a Query message runs when its first statement is its last. -/
theorem runQuery_single {text p rest : List UInt8}
    (h : nextStatement LINE_LEN .plain false [] text = .statement p rest)
    (hrest : bare .plain rest = []) : (runQuery text).1 = [p] := by
  rw [runQuery, queryStatements, h]
  dsimp only
  split
  · rfl
  · rw [queryStatements_nothing _ _ hrest]

/-! ### Tokens and bytes -/

/-- A comment is left unread. -/
theorem unread_comment {c : List UInt8} (h : IsComment c) : unread false c = c := by
  rcases h with rfl | ⟨more, rfl⟩
  · rfl
  · simp [unread]

/-- No more is left unread than there is. -/
theorem unread_length (q : Bool) (x : List UInt8) : (unread q x).length ≤ x.length := by
  induction x generalizing q with
  | nil => simp [unread]
  | cons c x ih =>
    rw [unread]
    split
    · exact Nat.le_refl _
    · exact Nat.le_trans (ih _) (by simp)

/-- What is behind the text that was read is the first comment. -/
theorem ReadUpTo.unread {text a c : List UInt8} {ts : List Token} (h : ReadUpTo text ts a c) :
    DatabaseEngine.unread false text = c := by
  have hpass := unread_scans.lexes h.lexes (Or.inl fun r => by simp [DatabaseEngine.unread]) (b := c)
    fun hlast => by rw [h.mark hlast]; simp
  rw [h.append, hpass, unread_comment h.comment]

/-- In a text without semicolon no token is one, and none is behind it. -/
theorem token_no_semicolon {text rest : List UInt8} {t : Token} (hone : lexOne text = .token t rest)
    (hsemi : hasSemicolon false text = false) :
    hasSemicolon false rest = false ∧ t.type ≠ .TOKEN_SEMICOLON := by
  rcases lexOne_token hone with ⟨w, -, rfl, hw, htype, -⟩ | ⟨rfl, hhead, rfl⟩ | ⟨rfl, -⟩ |
    ⟨more, s, rfl, hread, rfl⟩
  · exact ⟨by rw [← hasSemicolon_scans.quiets hw]; exact hsemi, htype⟩
  · exact ⟨by rw [← hasSemicolon_scans.minus _ hhead]; exact hsemi, by simp⟩
  · simp [hasSemicolon] at hsemi
  · refine ⟨?_, by simp⟩
    have hpass := hasSemicolon_scans.string 0 more hread []
    rw [List.append_nil, List.append_nil] at hpass
    rw [← hpass, ← Bool.not_false, ← hasSemicolon_scans.quote]
    exact hsemi

/-- A text without semicolon has no token for one. -/
theorem Lexes.no_semicolon {a : List UInt8} {ts : List Token} (h : Lexes a ts)
    (hsemi : hasSemicolon false a = false) : ∀ t ∈ ts, t.type ≠ .TOKEN_SEMICOLON := by
  induction h with
  | nil => simp
  | skip hone _ ih =>
    obtain ⟨c, rfl, hc⟩ := lexOne_skip hone
    exact ih (by rw [← hasSemicolon_scans.blank c _ hc]; exact hsemi)
  | token hone _ ih =>
    obtain ⟨hrest, htype⟩ := token_no_semicolon hone hsemi
    intro u hu
    rcases List.mem_cons.mp hu with rfl | hu
    · exact htype
    · exact ih hrest u hu

/-- Blanks are nothing of a statement. -/
theorem bare_blank {a : List UInt8} (h : ∀ c ∈ a, isspace c = true) (r : List UInt8) :
    bare .plain (a ++ r) = bare .plain r := by
  induction a with
  | nil => rfl
  | cons c a ih =>
    have hc : isspace c = true := h c (by simp)
    obtain ⟨hquote, hminus, -⟩ := isspace_ne hc
    rw [List.cons_append, bare, if_neg (by simp [hminus]), if_neg hquote, if_pos (by simp [hc]),
      ih fun d hd => h d (by simp [hd])]

/-- Without comments and semicolons, a text of no bytes but blanks has no tokens. -/
theorem lexes_nil_of_bare {w : List UInt8} (hcomment : unread false w = [])
    (hsemi : hasSemicolon false w = false) (hbare : bare .plain w = []) : Lexes w [] := by
  refine lexes_blank ?_
  induction w with
  | nil => simp
  | cons c w ih =>
    by_cases hmark : c = 45 ∧ w.head? = some 45
    · simp [unread, hmark] at hcomment
    by_cases hquote : c = 39
    · subst hquote
      simp [bare] at hbare
    rw [bare, if_neg hmark, if_neg hquote] at hbare
    rw [unread, if_neg (by simpa using hmark), if_neg hquote] at hcomment
    rw [hasSemicolon, if_neg hquote] at hsemi
    simp only [Bool.not_false, Bool.true_and, Bool.or_eq_false_iff, beq_eq_false_iff_ne] at hsemi
    split at hbare
    · rename_i hspace
      have hc : isspace c = true := by simpa [hsemi.1] using hspace
      intro d hd
      rcases List.mem_cons.mp hd with rfl | hd
      · exact hc
      · exact ih hcomment hsemi.2 hbare d hd
    · exact absurd hbare (by simp)

/-- Where the one byte besides blanks is a minus sign, it is the one token. -/
theorem lexes_minus_of_bare {w : List UInt8} (hcomment : unread false w = [])
    (hsemi : hasSemicolon false w = false) (hbare : bare .plain w = [45]) :
    Lexes w [⟨.TOKEN_MINUS, [45]⟩] := by
  induction w with
  | nil => simp [bare] at hbare
  | cons c w ih =>
    by_cases hmark : c = 45 ∧ w.head? = some 45
    · simp [unread, hmark] at hcomment
    by_cases hquote : c = 39
    · subst hquote
      simp [bare] at hbare
    rw [bare, if_neg hmark, if_neg hquote] at hbare
    rw [unread, if_neg (by simpa using hmark), if_neg hquote] at hcomment
    rw [hasSemicolon, if_neg hquote] at hsemi
    simp only [Bool.not_false, Bool.true_and, Bool.or_eq_false_iff, beq_eq_false_iff_ne] at hsemi
    split at hbare
    · rename_i hspace
      have hc : isspace c = true := by simpa [hsemi.1] using hspace
      exact .skip (by simp [lexOne, hc]) (ih hcomment hsemi.2 hbare)
    · obtain ⟨rfl, hrest⟩ := List.cons.inj hbare
      refine .token ?_ (lexes_nil_of_bare hcomment hsemi.2 hrest)
      have hhead : w.head? ≠ some 45 := fun h => hmark ⟨rfl, h⟩
      have hkinds : isspace 45 = false ∧ isalpha 45 = false ∧ isdigit 45 = false := by decide
      simp [lexOne, hkinds, hhead, symbolType]

/-- A lone minus sign is the one byte besides blanks. -/
theorem Lexes.bare_minus {w : List UInt8} (h : Lexes w [⟨.TOKEN_MINUS, [45]⟩]) :
    bare .plain w = [45] := by
  generalize hts : [(⟨.TOKEN_MINUS, [45]⟩ : Token)] = ts at h
  induction h with
  | nil => exact absurd hts (by simp)
  | skip hone _ ih =>
    obtain ⟨c, rfl, hc⟩ := lexOne_skip hone
    obtain ⟨hquote, hminus, -⟩ := isspace_ne hc
    rw [bare, if_neg (by simp [hminus]), if_neg hquote, if_pos (by simp [hc])]
    exact ih hts
  | @token text rest t ts hone hmore _ =>
    obtain ⟨rfl, rfl⟩ := List.cons.inj hts
    rcases lexOne_token hone with ⟨w, -, -, -, -, hne⟩ | ⟨rfl, hhead, -⟩ | ⟨-, hne⟩ |
      ⟨more, s, -, -, hne⟩
    · exact absurd rfl hne
    · have hrest := bare_blank hmore.blank []
      rw [List.append_nil] at hrest
      rw [bare, if_neg (by simp [hhead]), if_neg (by simp), if_neg (by decide), hrest]
      rfl
    · exact absurd hne (by simp)
    · exact absurd hne (by simp)

/-- Blanks in front change nothing. -/
theorem unread_blank {out : List UInt8} (hout : ∀ c ∈ out, isspace c = true) (b : List UInt8) :
    unread false (out ++ b) = unread false b :=
  unread_scans.lexes (lexes_blank hout) (Or.inr (by simp)) fun hlast =>
    absurd (hout 45 (List.mem_of_getLast? hlast)) (by decide)

/-- A statement that is cut off has a byte that is no blank, and no comment. -/
theorem nextStatement_nonblank (size : Nat) {m : Scan} (hm : m ≠ .text) {out x p rest : List UInt8}
    (hout : ∀ c ∈ out, isspace c = true)
    (h : nextStatement size m false out x = .statement p rest) :
    unread false p = [] ∧ ∃ c ∈ p, isspace c = false := by
  -- one more blank before the statement begins
  have hblank : ∀ {out : List UInt8} {c : UInt8}, (∀ d ∈ out, isspace d = true) →
      isspace c = true → ∀ d ∈ out ++ [c], isspace d = true := by
    intro out c hout hc d hd
    rcases List.mem_append.mp hd with hd | hd
    · exact hout d hd
    · obtain rfl : d = c := by simpa using hd
      exact hc
  induction x generalizing m out with
  | nil => cases m <;> simp [nextStatement] at h
  | cons c x ih =>
    cases m with
    | text => exact absurd rfl hm
    | comment =>
      by_cases hc : c = 10
      · subst hc
        rw [nextStatement, if_neg (by simp), fits_iff] at h
        exact ih (by simp) (hblank hout (by decide)) h.2
      · rw [nextStatement, if_pos hc] at h
        exact ih (by simp) hout h
    | plain =>
      by_cases hmark : c = 45 ∧ x.head? = some 45
      · rw [nextStatement, if_neg (by simp [hmark]), if_pos hmark] at h
        exact ih (by simp) hout h
      by_cases hsemi : c = 59
      · subst hsemi
        rw [nextStatement, if_neg (by simp), if_neg hmark, if_pos rfl, if_neg (by simp)] at h
        exact ih (by simp) (by simp) h
      rw [nextStatement_plain size false out x hmark hsemi, fits_iff, Bool.false_or] at h
      by_cases hspace : isspace c = true
      · rw [hspace, show scanMode (decide (c = 39)) = .plain by simp [scanMode, (isspace_ne hspace).1]] at h
        exact ih (by simp) (hblank hout hspace) h.2
      rw [Bool.not_eq_true] at hspace
      rw [hspace, Bool.not_false, nextStatement_copies] at h
      obtain ⟨-, more, rfl, hcopies, -⟩ := h
      refine ⟨?_, c, by simp, hspace⟩
      rw [List.append_assoc, unread_blank hout]
      by_cases hquote : c = 39
      · subst hquote
        exact (Copies.quote hcopies).unread
      · rw [show scanMode (decide (c = 39)) = .plain by simp [scanMode, hquote]] at hcopies
        exact (Copies.plain hquote hsemi hmark hcopies).unread

end DatabaseEngine
