import DatabaseEngine.Proofs.Wire.Lexing

/-!
# `DatabaseEngine.Proofs.Wire.Spelling`: how a token is spelled

`Spells w t` says that the bytes `w` are a spelling of the token `t`. Whether the lexer reads
that token where the bytes stand depends on the one byte behind them: `stops` says which bytes
end a token of a type.

* `lexOne_spells`: what the lexer reads is the spelling of a token, and what is behind it ends it.
* `Spells.lexOne`: a spelling is read as its token in front of a byte that ends it.
* `Spells.goesOn`: in front of any other byte, a dot apart, it is not.
* `Spells.cut`: cut off at a zero byte, it is no token.
-/

set_option autoImplicit false

namespace DatabaseEngine

open Library

/-! ### What ends a token -/

/-- The tokens that are spelled as words. -/
def isWordType : TokenType → Bool
  | .TOKEN_NUMBER | .TOKEN_STRING | .TOKEN_STAR | .TOKEN_COMMA | .TOKEN_LPAREN | .TOKEN_RPAREN
  | .TOKEN_SEMICOLON | .TOKEN_MINUS | .TOKEN_PLUS | .TOKEN_SLASH | .TOKEN_PERCENT
  | .TOKEN_OPERATOR_EQ | .TOKEN_OPERATOR_NE | .TOKEN_OPERATOR_LT | .TOKEN_OPERATOR_LTE
  | .TOKEN_OPERATOR_GT | .TOKEN_OPERATOR_GTE | .TOKEN_UNKNOWN => false
  | _ => true

/-- Whether a token of a type ends in front of a byte, or of the end. A dot may go on with a
word or a number. -/
def stops (type : TokenType) (next : Option UInt8) : Bool :=
  if isWordType type then !next.any fun c => isWord c || c == 46
  else
    match type with
    | .TOKEN_NUMBER => !next.any fun c => isdigit c || c == 46
    | .TOKEN_STRING => next != some 39
    | .TOKEN_MINUS => next != some 45
    | .TOKEN_OPERATOR_LT => !next.any fun c => c == 61 || c == 62
    | .TOKEN_OPERATOR_GT => next != some 61
    | _ => true

/-- Every word has a word's type. -/
theorem classifyWord_isWordType (word : List UInt8) : isWordType (classifyWord word) = true := by
  have hall : ∀ keyword ∈ keywords, isWordType keyword.token = true := by decide
  unfold classifyWord
  split
  · rfl
  split
  · rfl
  · rename_i keyword hfind
    split
    · exact hall keyword (List.mem_of_find?_eq_some hfind)
    · rfl

/-! ### Words and numbers -/

/-- A text that starts with no word byte has no word. -/
theorem takeWord_nil {o : List UInt8} (h : headIs (fun c => isWord c || c == 46) o = false) :
    takeWord o = ([], o) := by
  cases o with
  | nil => rfl
  | cons c rest =>
    have hc : isWord c = false ∧ (c == 46) = false := by simpa [headIs] using h
    simp [takeWord, hc]

/-- Whatever ends a word behind its bytes leaves the word. -/
theorem takeWord_local {w r : List UInt8} (h : takeWord (w ++ r) = (w, r)) :
    takeWord r = ([], r) ∧
      (∀ o, takeWord o = ([], o) → takeWord (w ++ o) = (w, o)) ∧
      ∀ o, headIs isWord o = true → w.length < (takeWord (w ++ o)).1.length := by
  induction w with
  | nil =>
    refine ⟨h, fun o ho => ho, fun o ho => ?_⟩
    cases o with
    | nil => exact absurd ho (by simp [headIs])
    | cons c rest =>
      have hc : isWord c = true := by simpa [headIs] using ho
      simp [takeWord, hc]
  | cons c w ih =>
    rw [List.cons_append, takeWord] at h
    split at h
    · rename_i hc
      obtain ⟨hfst, hsnd⟩ := Prod.mk.inj h
      obtain ⟨hr, hclose, hmore⟩ := ih (Prod.ext (List.cons.inj hfst).2 hsnd)
      -- a dot is followed by a byte of the word itself
      have hcons : ∀ o, (isWord c || (c == 46 && headIs isWord (w ++ o))) = true := by
        intro o
        cases w with
        | nil =>
          rcases hword : isWord c with _ | _
          · rw [hword, Bool.false_or, Bool.and_eq_true] at hc
            rw [List.nil_append] at hc
            cases r with
            | nil => exact absurd hc.2 (by simp [headIs])
            | cons d more =>
              have hd : isWord d = true := by simpa [headIs] using hc.2
              simp [takeWord, hd] at hr
          · rfl
        | cons d w => exact hc
      refine ⟨hr, fun o ho => ?_, fun o ho => ?_⟩
      · rw [List.cons_append, takeWord, if_pos (hcons o), hclose o ho]
      · rw [List.cons_append, takeWord, if_pos (hcons o)]
        have := hmore o ho
        simp only [List.length_cons]
        omega
    · exact absurd (congrArg Prod.fst h) (by simp)

/-- A text that starts with no digit has no number. -/
theorem takeNumber_nil (dot : Bool) {o : List UInt8}
    (h : headIs (fun c => isdigit c || c == 46) o = false) : takeNumber dot o = ([], o) := by
  cases o with
  | nil => rfl
  | cons c rest =>
    have hc : isdigit c = false ∧ (c == 46) = false := by simpa [headIs] using h
    simp [takeNumber, hc]

/-- Whatever ends a number behind its bytes leaves the number. -/
theorem takeNumber_local {dot : Bool} {w r : List UInt8} (h : takeNumber dot (w ++ r) = (w, r)) :
    ∃ dot', takeNumber dot' r = ([], r) ∧
      (∀ o, takeNumber dot' o = ([], o) → takeNumber dot (w ++ o) = (w, o)) ∧
      ∀ o, headIs isdigit o = true → w.length < (takeNumber dot (w ++ o)).1.length := by
  induction w generalizing dot with
  | nil =>
    refine ⟨dot, h, fun o ho => ho, fun o ho => ?_⟩
    cases o with
    | nil => exact absurd ho (by simp [headIs])
    | cons c rest =>
      have hc : isdigit c = true := by simpa [headIs] using ho
      simp [takeNumber, hc]
  | cons c w ih =>
    rw [List.cons_append, takeNumber] at h
    split at h
    · rename_i hc
      obtain ⟨hfst, hsnd⟩ := Prod.mk.inj h
      obtain ⟨dot', hr, hclose, hmore⟩ := ih (Prod.ext (List.cons.inj hfst).2 hsnd)
      refine ⟨dot', hr, fun o ho => ?_, fun o ho => ?_⟩
      · rw [List.cons_append, takeNumber, if_pos hc, hclose o ho]
      · rw [List.cons_append, takeNumber, if_pos hc]
        have := hmore o ho
        simp only [List.length_cons]
        omega
    split at h
    · rename_i hnot hc
      obtain ⟨hfst, hsnd⟩ := Prod.mk.inj h
      obtain ⟨dot', hr, hclose, hmore⟩ := ih (Prod.ext (List.cons.inj hfst).2 hsnd)
      -- a dot is followed by a digit of the number itself
      have hcons : ∀ o, (c == 46 && !dot && headIs isdigit (w ++ o)) = true := by
        intro o
        cases w with
        | nil =>
          rw [Bool.and_eq_true] at hc
          cases r with
          | nil => exact absurd hc.2 (by simp [headIs])
          | cons d more =>
            have hd : isdigit d = true := by simpa [headIs] using hc.2
            simp [takeNumber, hd] at hr
        | cons d w => exact hc
      refine ⟨dot', hr, fun o ho => ?_, fun o ho => ?_⟩
      · rw [List.cons_append, takeNumber, if_neg hnot, if_pos (hcons o), hclose o ho]
      · rw [List.cons_append, takeNumber, if_neg hnot, if_pos (hcons o)]
        have := hmore o ho
        simp only [List.length_cons]
        omega
    · exact absurd (congrArg Prod.fst h) (by simp)

/-! ### Strings -/

/-- The bytes `w` of a string behind its first quote, of which `n` bytes are read, with the text
`s` that they are read as. -/
structure Quoted (n : Nat) (w s : List UInt8) : Prop where
  closes : ∀ o, o.head? ≠ some 39 → readString n (w ++ o) = .ok (s, o)
  goesOn : ∀ {o s' r'}, readString n (w ++ 39 :: o) = .ok (s', r') → s.length < s'.length
  cut : 0 ∈ w → ∃ code, readString n (w.takeWhile (· ≠ 0)) = .error code

/-- A string ends with a quote that no other quote follows. -/
theorem readString_quoted (n : Nat) (a : List UInt8) {s r : List UInt8}
    (h : readString n a = .ok (s, r)) : ∃ w, a = w ++ r ∧ r.head? ≠ some 39 ∧ Quoted n w s := by
  fun_induction readString n a generalizing s r with
  | case1 n => exact absurd h (by simp)
  | case2 n more hlong => exact absurd h (by simp)
  | case3 n more hshort ih =>
    obtain ⟨inner, rfl, hmore⟩ := consText_ok h
    obtain ⟨w, rfl, hhead, hquoted⟩ := ih hmore
    refine ⟨39 :: 39 :: w, rfl, hhead, ?_, ?_, ?_⟩
    · intro o ho
      simp [readString, hshort, hquoted.closes o ho, consText]
    · intro o s' r' hread
      simp only [List.cons_append, readString, if_neg hshort] at hread
      obtain ⟨inner', rfl, hmore'⟩ := consText_ok hread
      have := hquoted.goesOn hmore'
      simp only [List.length_cons]
      omega
    · intro hzero
      obtain ⟨code, hcode⟩ := hquoted.cut (by simpa using hzero)
      refine ⟨code, ?_⟩
      rw [List.takeWhile_cons_of_pos (by decide), List.takeWhile_cons_of_pos (by decide)]
      simp only [readString, if_neg hshort, hcode, consText]
  | case4 n more hnot =>
    obtain ⟨rfl, rfl⟩ : [] = s ∧ more = r := by simpa using h
    refine ⟨[39], rfl, ?_, ?_, ?_, ?_⟩
    · intro hhead
      obtain ⟨rest, rfl⟩ := List.head?_eq_some_iff.mp hhead
      exact hnot rest rfl
    · intro o ho
      exact readString_close n ho
    · intro o s' r' hread
      rw [List.cons_append, List.nil_append, readString] at hread
      split at hread
      · exact absurd hread (by simp)
      · obtain ⟨inner', rfl, -⟩ := consText_ok hread
        simp
    · intro hzero
      exact absurd hzero (by decide)
  | case5 n c more hpair hquote hlong => exact absurd h (by simp)
  | case6 n c more hpair hquote hshort ih =>
    have hc : c ≠ 39 := fun hc => hquote hc
    obtain ⟨inner, rfl, hmore⟩ := consText_ok h
    obtain ⟨w, rfl, hhead, hquoted⟩ := ih hmore
    refine ⟨c :: w, rfl, hhead, ?_, ?_, ?_⟩
    · intro o ho
      rw [List.cons_append, readString_byte n _ hc, if_neg hshort, hquoted.closes o ho]
      rfl
    · intro o s' r' hread
      rw [List.cons_append, readString_byte n _ hc, if_neg hshort] at hread
      obtain ⟨inner', rfl, hmore'⟩ := consText_ok hread
      have := hquoted.goesOn hmore'
      simp only [List.length_cons]
      omega
    · intro hzero
      by_cases hc0 : c = 0
      · subst hc0
        exact ⟨.UNTERMINATED_STRING, by simp [readString]⟩
      · obtain ⟨code, hcode⟩ := hquoted.cut (by simpa [Ne.symm hc0] using hzero)
        refine ⟨code, ?_⟩
        rw [List.takeWhile_cons_of_pos (by simp [hc0]), readString_byte n _ hc, if_neg hshort, hcode]
        rfl

/-! ### Spellings -/

/-- The operators. -/
def operators : List (List UInt8 × TokenType) :=
  [([60, 61], .TOKEN_OPERATOR_LTE), ([62, 61], .TOKEN_OPERATOR_GTE), ([60, 62], .TOKEN_OPERATOR_NE),
    ([33, 61], .TOKEN_OPERATOR_NE), ([60], .TOKEN_OPERATOR_LT), ([62], .TOKEN_OPERATOR_GT),
    ([61], .TOKEN_OPERATOR_EQ)]

/-- The spellings of a token. -/
inductive Spells : List UInt8 → Token → Prop
  | word {c : UInt8} {w : List UInt8} (hc : (isalpha c || c == 95) = true)
      (hw : takeWord (c :: w) = (c :: w, [])) (hlen : (c :: w).length < VALUE_LEN) :
      Spells (c :: w) ⟨classifyWord (c :: w), c :: w⟩
  | number {c : UInt8} {w : List UInt8} (hc : isdigit c = true)
      (hw : takeNumber false (c :: w) = (c :: w, [])) (hlen : (c :: w).length < VALUE_LEN) :
      Spells (c :: w) ⟨.TOKEN_NUMBER, c :: w⟩
  | text {w s : List UInt8} (hquoted : Quoted 0 w s) : Spells (39 :: w) ⟨.TOKEN_STRING, s⟩
  | operator {w : List UInt8} {type : TokenType} (h : (w, type) ∈ operators) : Spells w ⟨type, w⟩
  | symbol {c : UInt8} {type : TokenType} (h : symbolType c = some type) : Spells [c] ⟨type, [c]⟩

/-- A byte that starts a word starts nothing else. -/
theorem starts_word : ∀ c : UInt8, (isalpha c || c == 95) = true →
    isspace c = false ∧ c ≠ 45 ∧ c ≠ 0 :=
  forall_byte (by decide +kernel)

/-- A digit starts a number and nothing else. -/
theorem starts_number : ∀ c : UInt8, isdigit c = true →
    isspace c = false ∧ c ≠ 45 ∧ (isalpha c || c == 95) = false ∧ c ≠ 0 :=
  forall_byte (by decide +kernel)

/-- An operator's byte starts an operator and nothing else. -/
theorem starts_operator : ∀ c : UInt8, (c = 60 ∨ c = 62 ∨ c = 61 ∨ c = 33) →
    isspace c = false ∧ c ≠ 45 ∧ (isalpha c || c == 95) = false ∧ isdigit c = false ∧ c ≠ 39 :=
  forall_byte (by decide +kernel)

/-- A symbol's byte starts a symbol and nothing else. -/
theorem starts_symbol : ∀ c : UInt8, (symbolType c).isSome = true →
    isspace c = false ∧ (isalpha c || c == 95) = false ∧ isdigit c = false ∧ c ≠ 39 ∧
      ¬(c = 60 ∨ c = 62 ∨ c = 61 ∨ c = 33) ∧ c ≠ 0 ∧ c ≠ 46 :=
  forall_byte (by decide +kernel)

/-- A symbol other than a minus can be followed by anything. -/
theorem symbolType_stops : ∀ c : UInt8, ∀ type ∈ symbolType c, c ≠ 45 →
    isWordType type = false ∧ type ≠ .TOKEN_NUMBER ∧ type ≠ .TOKEN_STRING ∧
      type ≠ .TOKEN_MINUS ∧ type ≠ .TOKEN_OPERATOR_LT ∧ type ≠ .TOKEN_OPERATOR_GT :=
  forall_byte (by decide +kernel)

/-- The symbols besides the minus sign end in front of anything. -/
theorem stops_symbol {c : UInt8} {type : TokenType} (h : symbolType c = some type) (hc : c ≠ 45)
    (next : Option UInt8) : stops type next = true := by
  obtain ⟨hword, hnumber, hstring, hminus, hlt, hgt⟩ := symbolType_stops c type h hc
  unfold stops
  rw [hword, if_neg (by simp)]
  split <;> first | contradiction | rfl

/-- A word ends where no word byte follows. -/
theorem stops_word (word : List UInt8) (next : Option UInt8) :
    stops (classifyWord word) next = !next.any fun c => isWord c || c == 46 := by
  unfold stops
  rw [classifyWord_isWordType, if_pos rfl]

/-! ### One turn on a spelling -/

/-- A word at the front is the next token. -/
theorem lexOne_word {c : UInt8} {w o : List UInt8} (hc : (isalpha c || c == 95) = true)
    (hlen : (c :: w).length < VALUE_LEN) (h : takeWord (c :: w ++ o) = (c :: w, o)) :
    lexOne (c :: w ++ o) = .token ⟨classifyWord (c :: w), c :: w⟩ o := by
  obtain ⟨hspace, hminus, -⟩ := starts_word c hc
  rw [List.cons_append] at h ⊢
  rw [lexOne, if_neg (by simp [hspace]), if_neg (by simp [hminus]), if_pos hc, h, lexedWord,
    if_neg (by simpa using hlen)]

/-- A number at the front is the next token. -/
theorem lexOne_number {c : UInt8} {w o : List UInt8} (hc : isdigit c = true)
    (hlen : (c :: w).length < VALUE_LEN) (h : takeNumber false (c :: w ++ o) = (c :: w, o)) :
    lexOne (c :: w ++ o) = .token ⟨.TOKEN_NUMBER, c :: w⟩ o := by
  obtain ⟨hspace, hminus, hword, -⟩ := starts_number c hc
  rw [List.cons_append] at h ⊢
  rw [lexOne, if_neg (by simp [hspace]), if_neg (by simp [hminus]), if_neg (by simp [hword]),
    if_pos hc, h, lexedWord, if_neg (by simpa using hlen)]

/-- A quote at the front reads a text. -/
theorem lexOne_quote (o : List UInt8) :
    lexOne (39 :: o) =
      match readString 0 o with
      | .error code => .refuse code
      | .ok (text, rest) => .token ⟨.TOKEN_STRING, text⟩ rest := by
  have hkinds : isspace 39 = false ∧ (isalpha 39 || (39 : UInt8) == 95) = false ∧
      isdigit 39 = false := by decide
  rw [lexOne, if_neg (by simp [hkinds.1]), if_neg (by simp), if_neg (by rw [hkinds.2.1]; simp),
    if_neg (by simp [hkinds.2.2])]
  exact if_pos rfl

/-- An operator at the front is the next token. -/
theorem lexOne_operator {c : UInt8} (hc : c = 60 ∨ c = 62 ∨ c = 61 ∨ c = 33) (o : List UInt8) :
    lexOne (c :: o) =
      match readOperator (c :: o) with
      | .error code => .refuse code
      | .ok (token, rest) => .token token rest := by
  obtain ⟨hspace, hminus, hword, hdigit, hquote⟩ := starts_operator c hc
  rw [lexOne, if_neg (by simp [hspace]), if_neg (by simp [hminus]), if_neg (by simp [hword]),
    if_neg (by simp [hdigit]), if_neg hquote]
  exact if_pos hc

/-- A symbol at the front is the next token, unless it opens a comment. -/
theorem lexOne_symbol {c : UInt8} {type : TokenType} (h : symbolType c = some type)
    {o : List UInt8} (hmark : ¬(c = 45 ∧ o.head? = some 45)) :
    lexOne (c :: o) = .token ⟨type, [c]⟩ o := by
  obtain ⟨hspace, hword, hdigit, hquote, hoperator, -⟩ := starts_symbol c (by rw [h]; rfl)
  rw [lexOne, if_neg (by simp [hspace]), if_neg hmark, if_neg (by simp [hword]),
    if_neg (by simp [hdigit]), if_neg hquote, if_neg hoperator, h]

/-- What is read as an operator is one of them, the longer one where there are two. -/
theorem readOperator_spells {text r : List UInt8} {t : Token}
    (h : readOperator text = .ok (t, r)) :
    ∃ w, text = w ++ r ∧ (w, t.type) ∈ operators ∧ t.value = w ∧ stops t.type r.head? = true := by
  have hascii : ascii "<=" = [60, 61] ∧ ascii ">=" = [62, 61] ∧ ascii "<>" = [60, 62] ∧
      ascii "!=" = [33, 61] := by decide
  unfold readOperator at h
  rw [hascii.1, hascii.2.1, hascii.2.2.1, hascii.2.2.2] at h
  have htwo : ∀ {type : TokenType} {c d : UInt8}, text.take 2 = [c, d] →
      operatorOf type 2 text = .ok (t, r) → text = [c, d] ++ r ∧ t = ⟨type, [c, d]⟩ := by
    intro type c d htake hop
    obtain ⟨rfl, rfl⟩ : _ = t ∧ _ = r := by simpa [operatorOf] using hop
    rw [← htake]
    exact ⟨(List.take_append_drop 2 text).symm, rfl⟩
  have hone : ∀ {type : TokenType} {c : UInt8}, text.head? = some c →
      operatorOf type 1 text = .ok (t, r) → text = c :: r ∧ t = ⟨type, [c]⟩ := by
    intro type c hhead hop
    obtain ⟨rest, rfl⟩ := List.head?_eq_some_iff.mp hhead
    obtain ⟨rfl, rfl⟩ : _ = t ∧ _ = r := by simpa [operatorOf] using hop
    exact ⟨rfl, rfl⟩
  split at h
  · rename_i hc
    obtain ⟨htext, rfl⟩ := htwo hc h
    exact ⟨_, htext, by simp [operators], rfl, rfl⟩
  rename_i hle
  split at h
  · rename_i hc
    obtain ⟨htext, rfl⟩ := htwo hc h
    exact ⟨_, htext, by simp [operators], rfl, rfl⟩
  rename_i hge
  split at h
  · rename_i hc
    obtain ⟨htext, rfl⟩ := htwo hc h
    exact ⟨_, htext, by simp [operators], rfl, rfl⟩
  rename_i hne
  split at h
  · rename_i hc
    obtain ⟨htext, rfl⟩ := htwo hc h
    exact ⟨_, htext, by simp [operators], rfl, rfl⟩
  split at h
  · rename_i hc
    obtain ⟨rfl, rfl⟩ := hone hc h
    refine ⟨[60], rfl, by simp [operators], rfl, ?_⟩
    cases r with
    | nil => rfl
    | cons d r =>
      simp only [List.take_succ_cons, List.take_zero, List.cons.injEq, and_true, true_and] at hle hne
      simp [stops, isWordType, hle, hne]
  split at h
  · rename_i hc
    obtain ⟨rfl, rfl⟩ := hone hc h
    refine ⟨[62], rfl, by simp [operators], rfl, ?_⟩
    cases r with
    | nil => rfl
    | cons d r =>
      simp only [List.take_succ_cons, List.take_zero, List.cons.injEq, and_true, true_and] at hge
      simp [stops, isWordType, hge]
  split at h
  · rename_i hc
    obtain ⟨rfl, rfl⟩ := hone hc h
    exact ⟨[61], rfl, by simp [operators], rfl, rfl⟩
  · exact absurd h (by simp)

/-- An operator is read in front of a byte that does not make it longer. -/
theorem lexOne_operators {w o : List UInt8} {type : TokenType} (h : (w, type) ∈ operators)
    (hstops : stops type o.head? = true) : lexOne (w ++ o) = .token ⟨type, w⟩ o := by
  have hascii : ascii "<=" = [60, 61] ∧ ascii ">=" = [62, 61] ∧ ascii "<>" = [60, 62] ∧
      ascii "!=" = [33, 61] := by decide
  have hread : readOperator (w ++ o) = .ok (⟨type, w⟩, o) := by
    unfold readOperator
    rw [hascii.1, hascii.2.1, hascii.2.2.1, hascii.2.2.2]
    simp only [operators, List.mem_cons, Prod.mk.injEq, List.not_mem_nil, or_false] at h
    rcases h with ⟨rfl, rfl⟩ | ⟨rfl, rfl⟩ | ⟨rfl, rfl⟩ | ⟨rfl, rfl⟩ | ⟨rfl, rfl⟩ | ⟨rfl, rfl⟩ |
      ⟨rfl, rfl⟩ <;> cases o <;> simp_all [operatorOf, stops, isWordType]
  obtain ⟨c, w, rfl, hc⟩ : ∃ c w', w = c :: w' ∧ (c = 60 ∨ c = 62 ∨ c = 61 ∨ c = 33) := by
    simp only [operators, List.mem_cons, Prod.mk.injEq, List.not_mem_nil, or_false] at h
    rcases h with ⟨rfl, -⟩ | ⟨rfl, -⟩ | ⟨rfl, -⟩ | ⟨rfl, -⟩ | ⟨rfl, -⟩ | ⟨rfl, -⟩ | ⟨rfl, -⟩ <;>
      exact ⟨_, _, rfl, by decide⟩
  rw [List.cons_append] at hread ⊢
  rw [lexOne_operator hc, hread]

/-- What the lexer reads is a spelling, and what is behind it ends it, unless it is a dot. In any
case it is read as it is in front of two bytes that are the same. -/
theorem lexOne_spells {text r : List UInt8} {t : Token} (h : lexOne text = .token t r) :
    ∃ w, text = w ++ r ∧ Spells w t ∧ (r.head? ≠ some 46 → stops t.type r.head? = true) ∧
      ∀ o, r.head? = some 46 → o.head? = some 46 → o.tail.head? = r.tail.head? →
        lexOne (w ++ o) = .token t o := by
  cases text with
  | nil => exact absurd h (by simp [lexOne])
  | cons c more =>
    have hone := h
    unfold lexOne at h
    dsimp only at h
    split at h
    · exact absurd h (by simp)
    split at h
    · exact absurd h (by simp)
    rename_i hcomment
    split at h
    · -- a word
      rename_i hc
      unfold lexedWord at h
      split at h
      · exact absurd h (by simp)
      rename_i hlen
      obtain ⟨rfl, hr⟩ : _ = t ∧ _ = r := by simpa using h
      obtain ⟨hread, -⟩ := takeWord_reads (c :: more)
      have hfirst : isWord c = true := by
        unfold isWord isalnum
        simp only [Bool.or_eq_true, beq_iff_eq] at hc ⊢
        exact hc.imp Or.inl id
      obtain ⟨w, hw⟩ : ∃ w, (takeWord (c :: more)).1 = c :: w := by simp [takeWord, hfirst]
      rw [hw, hr] at hread
      rw [hw, not_le] at hlen
      have htake : takeWord (c :: w ++ r) = (c :: w, r) := by
        rw [← hread]
        exact Prod.ext hw hr
      obtain ⟨hnil, hclose, -⟩ := takeWord_local htake
      have hwhole := hclose [] rfl
      rw [List.append_nil] at hwhole
      rw [hw]
      refine ⟨c :: w, hread, .word hc hwhole hlen, fun hdot => ?_, fun o hdot ho htail => ?_⟩
      · rw [stops_word]
        cases r with
        | nil => rfl
        | cons d r =>
          have hd : d ≠ 46 := by simpa using hdot
          have hword : isWord d = false := by
            by_contra hword
            simp [takeWord, hword] at hnil
          simp [hword, hd]
      · refine lexOne_word hc hlen (hclose o ?_)
        obtain ⟨r', rfl⟩ := List.head?_eq_some_iff.mp hdot
        obtain ⟨o', rfl⟩ := List.head?_eq_some_iff.mp ho
        have hsame : headIs isWord o' = headIs isWord r' := by
          unfold headIs
          rw [show o'.head? = r'.head? from htail]
        have hdotword : isWord 46 = false := by decide
        have hnot : headIs isWord r' = false := by
          by_contra hword
          simp [takeWord, hdotword, hword] at hnil
        simp [takeWord, hdotword, hsame, hnot]
    split at h
    · -- a number
      rename_i hc
      unfold lexedWord at h
      split at h
      · exact absurd h (by simp)
      rename_i hlen
      obtain ⟨rfl, hr⟩ : _ = t ∧ _ = r := by simpa using h
      obtain ⟨hread, -⟩ := takeNumber_reads false (c :: more)
      obtain ⟨w, hw⟩ : ∃ w, (takeNumber false (c :: more)).1 = c :: w := by simp [takeNumber, hc]
      rw [hw, hr] at hread
      rw [hw, not_le] at hlen
      have htake : takeNumber false (c :: w ++ r) = (c :: w, r) := by
        rw [← hread]
        exact Prod.ext hw hr
      obtain ⟨dot, hnil, hclose, -⟩ := takeNumber_local htake
      have hwhole := hclose [] rfl
      rw [List.append_nil] at hwhole
      rw [hw]
      refine ⟨c :: w, hread, .number hc hwhole hlen, fun hdot => ?_, fun o hdot ho htail => ?_⟩
      · cases r with
        | nil => rfl
        | cons d r =>
          have hd : d ≠ 46 := by simpa using hdot
          have hdigit : isdigit d = false := by
            by_contra hdigit
            rw [Bool.not_eq_false] at hdigit
            simp [takeNumber, hdigit] at hnil
          simp [stops, isWordType, hdigit, hd]
      · refine lexOne_number hc hlen (hclose o ?_)
        obtain ⟨r', rfl⟩ := List.head?_eq_some_iff.mp hdot
        obtain ⟨o', rfl⟩ := List.head?_eq_some_iff.mp ho
        have hsame : headIs isdigit o' = headIs isdigit r' := by
          unfold headIs
          rw [show o'.head? = r'.head? from htail]
        have hdotdigit : isdigit 46 = false := by decide
        have hnot : (!dot && headIs isdigit r') = false := by
          by_contra hdigit
          rw [Bool.not_eq_false, Bool.and_eq_true, Bool.not_eq_true'] at hdigit
          simp [takeNumber, hdotdigit, hdigit] at hnil
        simp [takeNumber, hdotdigit, hsame, hnot]
    split at h
    · -- a string
      rename_i hquote
      subst hquote
      split at h
      · exact absurd h (by simp)
      · rename_i text rest' hread
        obtain ⟨rfl, rfl⟩ : _ = t ∧ _ = r := by simpa using h
        obtain ⟨w, rfl, hhead, hquoted⟩ := readString_quoted 0 more hread
        refine ⟨39 :: w, rfl, .text hquoted, fun _ => ?_, fun o _ ho _ => ?_⟩
        · simp [stops, isWordType, hhead]
        · rw [List.cons_append, lexOne_quote, hquoted.closes o (by rw [ho]; simp)]
    split at h
    · -- an operator
      rename_i hc
      split at h
      · exact absurd h (by simp)
      · rename_i t' rest' hread
        obtain ⟨rfl, rfl⟩ : t' = t ∧ rest' = r := by simpa using h
        obtain ⟨w, htext, hop, hvalue, hstops⟩ := readOperator_spells hread
        obtain ⟨type, value⟩ := t'
        obtain rfl : value = w := hvalue
        refine ⟨value, htext, .operator hop, fun _ => hstops, fun o hdot ho _ => ?_⟩
        refine lexOne_operators hop ?_
        rw [ho, ← hdot]
        exact hstops
    · -- a symbol
      split at h
      · exact absurd h (by simp)
      · rename_i type hsymbol
        obtain ⟨rfl, rfl⟩ : _ = t ∧ _ = r := by simpa using h
        refine ⟨[c], rfl, .symbol hsymbol, fun _ => ?_, fun o _ ho _ => ?_⟩
        · by_cases hminus : c = 45
          · subst hminus
            obtain rfl : TokenType.TOKEN_MINUS = type := by simpa [symbolType] using hsymbol
            have hhead : more.head? ≠ some 45 := fun hhead => hcomment ⟨rfl, hhead⟩
            simp [stops, isWordType, hhead]
          · exact stops_symbol hsymbol hminus _
        · refine lexOne_symbol hsymbol fun hmark => ?_
          exact absurd (ho.symm.trans hmark.2) (by decide)

namespace Spells

variable {w : List UInt8} {t : Token}

/-- A spelling has a byte. -/
theorem ne_nil (h : Spells w t) : w ≠ [] := by
  cases h with
  | operator h =>
    rintro rfl
    simp [operators] at h
  | _ => simp

/-- A spelling is read as its token in front of a byte that ends it. -/
theorem lexOne (h : Spells w t) {o : List UInt8} (hstops : stops t.type o.head? = true) :
    DatabaseEngine.lexOne (w ++ o) = .token t o := by
  have hhead : ∀ {kind : UInt8 → Bool}, (!o.head?.any kind) = true → headIs kind o = false := by
    intro kind hkind
    simpa [headIs] using hkind
  cases h with
  | @word c w hc hw hlen =>
    rw [stops_word] at hstops
    exact lexOne_word hc hlen
      ((takeWord_local (r := []) (by rw [List.append_nil, hw])).2.1 o (takeWord_nil (hhead hstops)))
  | @number c w hc hw hlen =>
    obtain ⟨dot, -, hclose, -⟩ := takeNumber_local (r := []) (by rw [List.append_nil, hw])
    exact lexOne_number hc hlen (hclose o (takeNumber_nil dot (hhead hstops)))
  | text hquoted =>
    rw [List.cons_append, lexOne_quote, hquoted.closes o (by simpa [stops, isWordType] using hstops)]
  | operator h => exact lexOne_operators h hstops
  | @symbol c type h =>
    refine lexOne_symbol h ?_
    rintro ⟨rfl, hmark⟩
    obtain rfl : TokenType.TOKEN_MINUS = type := by simpa [symbolType] using h
    have hmark : o.head? = some 45 := hmark
    rw [hmark] at hstops
    exact absurd hstops (by decide)

/-- In front of any other byte, a dot apart, it is read as something else. -/
theorem goesOn (h : Spells w t) {o : List UInt8} (hstops : stops t.type o.head? = false)
    (hdot : o.head? ≠ some 46) (r : List UInt8) : DatabaseEngine.lexOne (w ++ o) ≠ .token t r := by
  intro hone
  -- what is read is followed by what ends it, so it is longer than the spelling
  have hheadIs : ∀ {kind : UInt8 → Bool}, (!o.head?.any fun c => kind c || c == 46) = false →
      headIs kind o = true := by
    intro kind hkind
    cases o with
    | nil => exact absurd hkind (by simp)
    | cons c o =>
      have hc : c ≠ 46 := by simpa using hdot
      simpa [headIs, hc] using hkind
  cases h with
  | @word c w hc hw hlen =>
    rw [stops_word] at hstops
    obtain ⟨hspace, hminus, -⟩ := starts_word c hc
    rw [List.cons_append] at hone
    rw [DatabaseEngine.lexOne, if_neg (by simp [hspace]), if_neg (by simp [hminus]), if_pos hc,
      lexedWord] at hone
    split at hone
    · exact absurd hone (by simp)
    · have hlonger := (takeWord_local (r := []) (by rw [List.append_nil, hw])).2.2 o
        (hheadIs hstops)
      have hsame : (takeWord (c :: (w ++ o))).1 = c :: w :=
        congrArg Token.value (Lexed.token.inj hone).1
      rw [List.cons_append, hsame] at hlonger
      omega
  | @number c w hc hw hlen =>
    obtain ⟨hspace, hminus, hword, -⟩ := starts_number c hc
    rw [List.cons_append] at hone
    rw [DatabaseEngine.lexOne, if_neg (by simp [hspace]), if_neg (by simp [hminus]),
      if_neg (by simp [hword]), if_pos hc, lexedWord] at hone
    split at hone
    · exact absurd hone (by simp)
    · obtain ⟨dot, -, -, hmore⟩ := takeNumber_local (r := []) (by rw [List.append_nil, hw])
      have hlonger := hmore o (hheadIs (by simpa [stops, isWordType] using hstops))
      have hsame : (takeNumber false (c :: (w ++ o))).1 = c :: w :=
        congrArg Token.value (Lexed.token.inj hone).1
      rw [List.cons_append, hsame] at hlonger
      omega
  | text hquoted =>
    obtain ⟨o', rfl⟩ : ∃ o', o = 39 :: o' := by
      refine List.head?_eq_some_iff.mp ?_
      simpa [stops, isWordType] using hstops
    rw [List.cons_append, lexOne_quote] at hone
    split at hone
    · exact absurd hone (by simp)
    · rename_i s' r' hread
      have hlonger := hquoted.goesOn hread
      have hsame := congrArg Token.value (Lexed.token.inj hone).1
      dsimp only at hsame
      rw [hsame] at hlonger
      omega
  | @operator _ type h =>
    obtain ⟨c, w', rfl, hc⟩ : ∃ c w', w = c :: w' ∧ (c = 60 ∨ c = 62 ∨ c = 61 ∨ c = 33) := by
      simp only [operators, List.mem_cons, Prod.mk.injEq, List.not_mem_nil, or_false] at h
      rcases h with ⟨rfl, -⟩ | ⟨rfl, -⟩ | ⟨rfl, -⟩ | ⟨rfl, -⟩ | ⟨rfl, -⟩ | ⟨rfl, -⟩ | ⟨rfl, -⟩ <;>
        exact ⟨_, _, rfl, by decide⟩
    rw [List.cons_append, lexOne_operator hc] at hone
    split at hone
    · exact absurd hone (by simp)
    · rename_i t' r' hread
      obtain ⟨rfl, rfl⟩ := Lexed.token.inj hone
      obtain ⟨w'', htext, -, hvalue, hends⟩ := readOperator_spells hread
      obtain rfl : c :: w' = w'' := hvalue
      rw [← List.cons_append] at htext
      rw [← List.append_cancel_left htext] at hends
      rw [hends] at hstops
      exact absurd hstops (by simp)
  | @symbol c type h =>
    by_cases hminus : c = 45
    · subst hminus
      obtain rfl : TokenType.TOKEN_MINUS = type := by simpa [symbolType] using h
      have hmark : o.head? = some 45 := by simpa [stops, isWordType] using hstops
      rw [List.cons_append, List.nil_append, DatabaseEngine.lexOne, if_neg (by decide),
        if_pos ⟨rfl, hmark⟩] at hone
      exact absurd hone (by simp)
    · rw [stops_symbol h hminus] at hstops
      exact absurd hstops (by simp)

/-- Cut off at a zero byte, which only a string can have, it is refused. -/
theorem cut (h : Spells w t) (hzero : 0 ∈ w) :
    ∃ code, DatabaseEngine.lexOne (w.takeWhile (· ≠ 0)) = .refuse code := by
  have hnone : ∀ {kind : UInt8 → Bool}, kind 0 = false → (∀ c ∈ w, kind c = true) → False := by
    intro kind hkind hall
    have := hall 0 hzero
    rw [hkind] at this
    exact absurd this (by simp)
  cases h with
  | @word c w hc hw hlen =>
    have hread := (takeWord_reads (c :: w)).2
    rw [hw] at hread
    exact (@hnone (fun c => isWord c || c == 46) (by decide) fun d hd => by
      simpa using hread d hd).elim
  | @number c w hc hw hlen =>
    have hread := (takeNumber_reads false (c :: w)).2
    rw [hw] at hread
    exact (@hnone (fun c => isdigit c || c == 46) (by decide) fun d hd => by
      simpa using hread d hd).elim
  | text hquoted =>
    obtain ⟨code, hcode⟩ := hquoted.cut (by simpa using hzero)
    refine ⟨code, ?_⟩
    rw [List.takeWhile_cons_of_pos (by decide), lexOne_quote, hcode]
  | operator h =>
    simp only [operators, List.mem_cons, Prod.mk.injEq, List.not_mem_nil, or_false] at h
    rcases h with ⟨rfl, -⟩ | ⟨rfl, -⟩ | ⟨rfl, -⟩ | ⟨rfl, -⟩ | ⟨rfl, -⟩ | ⟨rfl, -⟩ | ⟨rfl, -⟩ <;>
      exact absurd hzero (by decide)
  | @symbol c type h =>
    obtain rfl : 0 = c := by simpa using hzero
    exact absurd (starts_symbol 0 (by rw [h]; rfl)).2.2.2.2.2.1 (by simp)

/-- A spelling starts with no zero byte, no dot and no blank. -/
theorem starts (h : Spells w t) :
    ∃ c w', w = c :: w' ∧ c ≠ 0 ∧ c ≠ 46 ∧ isspace c = false := by
  have hword : ∀ c : UInt8, (isalpha c || c == 95) = true → c ≠ 0 ∧ c ≠ 46 ∧ isspace c = false :=
    forall_byte (by decide +kernel)
  have hdigit : ∀ c : UInt8, isdigit c = true → c ≠ 0 ∧ c ≠ 46 ∧ isspace c = false :=
    forall_byte (by decide +kernel)
  cases h with
  | @word c w hc => exact ⟨c, w, rfl, hword c hc⟩
  | @number c w hc => exact ⟨c, w, rfl, hdigit c hc⟩
  | @text w => exact ⟨39, w, rfl, by decide⟩
  | operator h =>
    simp only [operators, List.mem_cons, Prod.mk.injEq, List.not_mem_nil, or_false] at h
    rcases h with ⟨rfl, -⟩ | ⟨rfl, -⟩ | ⟨rfl, -⟩ | ⟨rfl, -⟩ | ⟨rfl, -⟩ | ⟨rfl, -⟩ | ⟨rfl, -⟩ <;>
      exact ⟨_, _, rfl, by decide⟩
  | @symbol c type h =>
    obtain ⟨hspace, -, -, -, -, hzero, hdot⟩ := starts_symbol c (by rw [h]; rfl)
    exact ⟨c, [], rfl, hzero, hdot, hspace⟩

end Spells

end DatabaseEngine
