import DatabaseEngine.Model.Lexer

/-!
# `DatabaseEngine.Proofs.Wire.Lexing`: the lexer reads a text piece by piece

`Lexes a ts` says that a text is read to its end, without a comment and without an error, and
gives the tokens `ts`. What comes behind such a text can change nothing about it as long as it
starts with a byte that ends every token (`Breaks`).

* `lexOne_append`: one turn of the loop, with such a text behind it.
* `lexFrom_append`: the loop reads the first text, then the second.
* `lexFrom_split`: a text that the lexer accepts is one that `Lexes`, and a comment.
-/

set_option autoImplicit false

namespace DatabaseEngine

open Library

/-- What ends any token: a blank, a semicolon, a comment, or the end. -/
def Breaks (text : List UInt8) : Prop :=
  ∀ c, text.head? = some c → isspace c = true ∨ c = 59 ∨ c = 45

/-- A text that is read to its end gives these tokens. -/
inductive Lexes : List UInt8 → List Token → Prop
  | nil : Lexes [] []
  | skip {text rest : List UInt8} {tokens : List Token} (h : lexOne text = .skip rest)
      (more : Lexes rest tokens) : Lexes text tokens
  | token {text rest : List UInt8} {token : Token} {tokens : List Token}
      (h : lexOne text = .token token rest) (more : Lexes rest tokens) :
      Lexes text (token :: tokens)

/-! ### Kinds of bytes -/

/-- A byte that breaks tokens is of none of the other kinds. -/
theorem breaking_kinds (c : UInt8) (h : isspace c = true ∨ c = 59 ∨ c = 45) :
    isWord c = false ∧ isdigit c = false ∧ c ≠ 46 ∧ c ≠ 39 ∧ c ≠ 61 ∧ c ≠ 62 := by
  revert c
  exact forall_byte (by decide +kernel)

/-- A byte that breaks a token belongs to none. -/
theorem Breaks.kinds {c : UInt8} {rest : List UInt8} (h : Breaks (c :: rest)) :
    isWord c = false ∧ isdigit c = false ∧ c ≠ 46 ∧ c ≠ 39 ∧ c ≠ 61 ∧ c ≠ 62 :=
  breaking_kinds c (h c rfl)

/-- A break does not go on with a byte of any such kind. -/
theorem Breaks.headIs_false {kind : UInt8 → Bool} {text : List UInt8} (h : Breaks text)
    (hkind : ∀ c, isspace c = true ∨ c = 59 ∨ c = 45 → kind c = false) :
    headIs kind text = false := by
  cases text with
  | nil => rfl
  | cons c rest => exact hkind c (h c rfl)

/-- A break ends a word. -/
theorem Breaks.word {text : List UInt8} (h : Breaks text) : headIs isWord text = false :=
  h.headIs_false fun c hc => (breaking_kinds c hc).1

/-- A break ends a number. -/
theorem Breaks.digit {text : List UInt8} (h : Breaks text) : headIs isdigit text = false :=
  h.headIs_false fun c hc => (breaking_kinds c hc).2.1

/-- What follows counts only behind an empty text. -/
theorem headIs_append {kind : UInt8 → Bool} (a : List UInt8) {b : List UInt8}
    (hb : headIs kind b = false) : headIs kind (a ++ b) = headIs kind a := by
  cases a with
  | nil => exact hb
  | cons c rest => rfl

/-! ### The readers, with a text behind -/

section
variable {b : List UInt8}

/-- A word ends where a break follows it. -/
theorem takeWord_append (a : List UInt8) (hb : Breaks b) :
    takeWord (a ++ b) = ((takeWord a).1, (takeWord a).2 ++ b) := by
  induction a with
  | nil =>
    cases b with
    | nil => rfl
    | cons c rest =>
      obtain ⟨hword, -, hdot, -⟩ := hb.kinds
      simp [takeWord, hword, hdot]
  | cons c rest ih =>
    simp only [List.cons_append, takeWord, headIs_append rest hb.word, ih]
    split <;> rfl

/-- A number ends where a break follows it. -/
theorem takeNumber_append (dot : Bool) (a : List UInt8) (hb : Breaks b) :
    takeNumber dot (a ++ b) = ((takeNumber dot a).1, (takeNumber dot a).2 ++ b) := by
  induction a generalizing dot with
  | nil =>
    cases b with
    | nil => rfl
    | cons c rest =>
      obtain ⟨-, hdigit, hdot, -⟩ := hb.kinds
      simp [takeNumber, hdigit, hdot]
  | cons c rest ih =>
    simp only [List.cons_append, takeNumber, headIs_append rest hb.digit, ih]
    split
    · rfl
    · split <;> rfl

/-- A quote that no quote follows ends a text. -/
theorem readString_close (n : Nat) {rest : List UInt8} (h : rest.head? ≠ some 39) :
    readString n (39 :: rest) = .ok ([], rest) := by
  unfold readString
  split
  · rename_i heq
    simp at heq
  · rename_i heq
    obtain ⟨-, rfl⟩ := List.cons.inj heq
    exact absurd rfl h
  · rename_i heq
    obtain ⟨-, rfl⟩ := List.cons.inj heq
    rfl
  · rename_i _ hquote heq
    obtain ⟨rfl, rfl⟩ := List.cons.inj heq
    exact absurd rfl hquote

/-- Any other byte goes into the text while there is room. -/
theorem readString_byte (n : Nat) {c : UInt8} (rest : List UInt8) (h : c ≠ 39) :
    readString n (c :: rest)
      = if VALUE_LEN - 1 ≤ n then .error .TOKEN_TOO_LONG
        else consText c (readString (n + 1) rest) := by
  rw [readString.eq_def n (c :: rest)]
  split
  · rename_i heq
    simp at heq
  · rename_i heq
    exact absurd (List.cons.inj heq).1 h
  · rename_i heq
    exact absurd (List.cons.inj heq).1 h
  · rename_i heq
    obtain ⟨rfl, rfl⟩ := List.cons.inj heq
    rfl

/-- What a string with one more byte in front is read as. -/
theorem consText_ok {c : UInt8} {r : Except ErrorCode (List UInt8 × List UInt8)}
    {text rest : List UInt8} (h : consText c r = .ok (text, rest)) :
    ∃ more, text = c :: more ∧ r = .ok (more, rest) := by
  cases r with
  | error code => exact absurd h (by simp [consText])
  | ok read =>
    obtain ⟨more, rest'⟩ := read
    simp only [consText, Except.ok.injEq, Prod.mk.injEq] at h
    obtain ⟨rfl, rfl⟩ := h
    exact ⟨more, rfl, rfl⟩

/-- No quote follows at a break. -/
theorem Breaks.head_ne_quote (hb : Breaks b) : b.head? ≠ some 39 := by
  cases b with
  | nil => simp
  | cons c rest => simpa using hb.kinds.2.2.2.1

/-- Puts a text behind what is left after a string. -/
def behindText (b : List UInt8) :
    Except ErrorCode (List UInt8 × List UInt8) → Except ErrorCode (List UInt8 × List UInt8)
  | .error code => .error code
  | .ok (text, rest) => .ok (text, rest ++ b)

/-- A byte in front and a text behind can be put in either order. -/
theorem behindText_consText (c : UInt8) (r : Except ErrorCode (List UInt8 × List UInt8)) :
    behindText b (consText c r) = consText c (behindText b r) := by
  rcases r with code | ⟨text, rest⟩ <;> rfl

/-- A byte in front does not close a text. -/
theorem consText_unterminated {c : UInt8} {r : Except ErrorCode (List UInt8 × List UInt8)} :
    consText c r = .error .UNTERMINATED_STRING ↔ r = .error .UNTERMINATED_STRING := by
  rcases r with code | ⟨text, rest⟩ <;> simp [consText]

/-- Unless the string is still open at the end, it is read as if the text behind it were not
there. -/
theorem readString_append (n : Nat) (a : List UInt8) (hb : Breaks b)
    (h : readString n a ≠ .error .UNTERMINATED_STRING) :
    readString n (a ++ b) = behindText b (readString n a) := by
  fun_induction readString n a with
  | case1 n => exact absurd rfl h
  | case2 n more hlong => simp [readString, hlong, behindText]
  | case3 n more hshort ih =>
    have hmore := ih fun hopen => h (consText_unterminated.mpr hopen)
    simp [readString, hshort, hmore, behindText_consText]
  | case4 n more hnot =>
    refine readString_close n ?_
    cases more with
    | nil => exact hb.head_ne_quote
    | cons c rest =>
      intro hc
      obtain rfl : c = 39 := by simpa using hc
      exact hnot rest rfl
  | case5 n c more hpair hquote hlong =>
    rw [List.cons_append, readString_byte n _ fun hc => hquote hc, if_pos hlong]
    rfl
  | case6 n c more hpair hquote hshort ih =>
    have hmore := ih fun hopen => h (consText_unterminated.mpr hopen)
    rw [List.cons_append, readString_byte n _ fun hc => hquote hc, if_neg hshort, hmore,
      behindText_consText]

/-- A string ends with its closing quote. -/
theorem readString_quote (n : Nat) (a : List UInt8) {text rest : List UInt8}
    (h : readString n a = .ok (text, rest)) : ∃ w, a = w ++ rest ∧ w.getLast? = some 39 := by
  fun_induction readString n a generalizing text rest with
  | case1 n => exact absurd h (by simp)
  | case2 n more hlong => exact absurd h (by simp)
  | case3 n more hshort ih =>
    obtain ⟨inner, -, hmore⟩ := consText_ok h
    obtain ⟨w, rfl, hw⟩ := ih hmore
    exact ⟨39 :: 39 :: w, rfl, by rw [List.getLast?_cons, List.getLast?_cons, hw]; rfl⟩
  | case4 n more hnot =>
    obtain ⟨-, rfl⟩ : [] = text ∧ more = rest := by simpa using h
    exact ⟨[39], rfl, rfl⟩
  | case5 n c more hpair hquote hlong => exact absurd h (by simp)
  | case6 n c more hpair hquote hshort ih =>
    obtain ⟨inner, -, hmore⟩ := consText_ok h
    obtain ⟨w, rfl, hw⟩ := ih hmore
    exact ⟨c :: w, rfl, by rw [List.getLast?_cons, hw]; rfl⟩

/-- Reading a text uses up some bytes. -/
theorem readString_shrinks (n : Nat) (a : List UInt8) {text rest : List UInt8}
    (h : readString n a = .ok (text, rest)) : rest.length < a.length := by
  fun_induction readString n a generalizing text rest with
  | case1 n => exact absurd h (by simp)
  | case2 n more hlong => exact absurd h (by simp)
  | case3 n more hshort ih =>
    obtain ⟨inner, -, hmore⟩ := consText_ok h
    have := ih hmore
    simp only [List.length_cons]
    omega
  | case4 n more hnot =>
    obtain ⟨-, rfl⟩ : [] = text ∧ more = rest := by simpa using h
    simp
  | case5 n c more hpair hquote hlong => exact absurd h (by simp)
  | case6 n c more hpair hquote hshort ih =>
    obtain ⟨inner, -, hmore⟩ := consText_ok h
    have := ih hmore
    simp only [List.length_cons]
    omega

/-- A string that is open at the end of a text is closed, if at all, in the text behind it. -/
theorem readString_open (n : Nat) (a : List UInt8)
    (h : readString n a = .error .UNTERMINATED_STRING) {text rest : List UInt8}
    (hread : readString n (a ++ b) = .ok (text, rest)) : rest.length < b.length := by
  fun_induction readString n a generalizing text rest with
  | case1 n => exact readString_shrinks n b hread
  | case2 n more hlong => exact absurd h (by simp)
  | case3 n more hshort ih =>
    simp only [List.cons_append, readString, if_neg hshort] at hread
    obtain ⟨inner, -, hmore⟩ := consText_ok hread
    exact ih (consText_unterminated.mp h) hmore
  | case4 n more hnot => exact absurd h (by simp)
  | case5 n c more hpair hquote hlong => exact absurd h (by simp)
  | case6 n c more hpair hquote hshort ih =>
    rw [List.cons_append, readString_byte n _ fun hc => hquote hc, if_neg hshort] at hread
    obtain ⟨inner, -, hmore⟩ := consText_ok hread
    exact ih (consText_unterminated.mp h) hmore

/-! ### One turn -/

/-- Puts a text behind what a turn leaves. -/
def Lexed.behind (b : List UInt8) : Lexed → Lexed
  | .stop => .stop
  | .skip rest => .skip (rest ++ b)
  | .token t rest => .token t (rest ++ b)
  | .refuse code => .refuse code

/-- The byte behind an operator is no part of it. -/
theorem take_two_append {a : List UInt8} (ha : a ≠ []) (hb : Breaks b) (c : UInt8)
    {d : UInt8} (hd : d = 61 ∨ d = 62) : (a ++ b).take 2 = [c, d] ↔ a.take 2 = [c, d] := by
  rcases a with _ | ⟨e, _ | ⟨f, rest⟩⟩
  · exact absurd rfl ha
  · rcases b with _ | ⟨g, more⟩
    · simp
    · obtain ⟨-, -, -, -, heq, hgt⟩ := hb.kinds
      have hne : g ≠ d := by
        rintro rfl
        rcases hd with hd | hd
        · exact heq hd
        · exact hgt hd
      simp [hne]
  · simp

/-- An operator ends where a break follows it. -/
theorem readOperator_append {a : List UInt8} (ha : a ≠ []) (hb : Breaks b) :
    readOperator (a ++ b) =
      match readOperator a with
      | .error code => .error code
      | .ok (token, rest) => .ok (token, rest ++ b) := by
  have hle := take_two_append ha hb 60 (d := 61) (Or.inl rfl)
  have hge := take_two_append ha hb 62 (d := 61) (Or.inl rfl)
  have hne := take_two_append ha hb 60 (d := 62) (Or.inr rfl)
  have hbang := take_two_append ha hb 33 (d := 61) (Or.inl rfl)
  have hhead : (a ++ b).head? = a.head? := by
    obtain ⟨c, rest, rfl⟩ := List.exists_cons_of_ne_nil ha
    rfl
  -- what an operator takes, it takes from the first text
  have htake : ∀ type n, n ≤ a.length → operatorOf type n (a ++ b) =
      match operatorOf type n a with
      | .error code => .error code
      | .ok (token, rest) => .ok (token, rest ++ b) := by
    intro type n hn
    simp [operatorOf, List.take_append_of_le_length hn, List.drop_append_of_le_length hn]
  have hone : 1 ≤ a.length := List.length_pos_iff.mpr ha
  have htwo : ∀ {c d : UInt8}, a.take 2 = [c, d] → 2 ≤ a.length := by
    intro c d h
    have := congrArg List.length h
    simp only [List.length_take, List.length_cons, List.length_nil] at this
    omega
  have hascii : ascii "<=" = [60, 61] ∧ ascii ">=" = [62, 61] ∧ ascii "<>" = [60, 62] ∧
      ascii "!=" = [33, 61] := by decide
  unfold readOperator
  rw [hascii.1, hascii.2.1, hascii.2.2.1, hascii.2.2.2]
  simp only [hle, hge, hne, hbang, hhead]
  split
  · rename_i h
    exact htake _ _ (htwo h)
  split
  · rename_i h
    exact htake _ _ (htwo h)
  split
  · rename_i h
    exact htake _ _ (htwo h)
  split
  · rename_i h
    exact htake _ _ (htwo h)
  split
  · exact htake _ _ hone
  split
  · exact htake _ _ hone
  split
  · exact htake _ _ hone
  · rfl

/-- One token is the same with a break behind its text. -/
theorem lexOne_append {a : List UInt8} (ha : a ≠ []) (hb : Breaks b)
    (hmark : ¬(a = [45] ∧ b.head? = some 45))
    (hopen : lexOne a ≠ .refuse .UNTERMINATED_STRING) :
    lexOne (a ++ b) = (lexOne a).behind b := by
  obtain ⟨c, rest, rfl⟩ := List.exists_cons_of_ne_nil ha
  have hcomment : (c = 45 ∧ (rest ++ b).head? = some 45) ↔ (c = 45 ∧ rest.head? = some 45) := by
    cases rest with
    | nil =>
      simp only [List.nil_append, List.head?_nil]
      exact ⟨fun h => absurd ⟨by rw [h.1], h.2⟩ hmark, fun h => absurd h.2 (by simp)⟩
    | cons d more => simp
  rw [List.cons_append]
  unfold lexOne at hopen ⊢
  dsimp only at hopen ⊢
  by_cases hspace : isspace c
  · rw [if_pos hspace, if_pos hspace]
    rfl
  rw [if_neg hspace] at hopen ⊢
  rw [if_neg hspace]
  by_cases hc : c = 45 ∧ rest.head? = some 45
  · rw [if_pos hc, if_pos (hcomment.mpr hc)]
    rfl
  rw [if_neg hc] at hopen
  rw [if_neg hc, if_neg fun h => hc (hcomment.mp h)]
  by_cases hword : (isalpha c || c == 95) = true
  · rw [if_pos hword, if_pos hword, ← List.cons_append, takeWord_append _ hb]
    unfold lexedWord
    dsimp only
    split <;> rfl
  rw [if_neg hword] at hopen
  rw [if_neg hword, if_neg hword]
  by_cases hdigit : isdigit c
  · rw [if_pos hdigit, if_pos hdigit, ← List.cons_append, takeNumber_append _ _ hb]
    unfold lexedWord
    dsimp only
    split <;> rfl
  rw [if_neg hdigit] at hopen
  rw [if_neg hdigit, if_neg hdigit]
  by_cases hquote : c = 39
  · rw [if_pos hquote] at hopen
    rw [if_pos hquote, if_pos hquote]
    have hclosed : readString 0 rest ≠ .error .UNTERMINATED_STRING := fun h => by
      rw [h] at hopen
      exact hopen rfl
    rw [readString_append 0 rest hb hclosed]
    rcases readString 0 rest with code | ⟨text, more⟩ <;> rfl
  rw [if_neg hquote, if_neg hquote]
  by_cases hoperator : c = 60 ∨ c = 62 ∨ c = 61 ∨ c = 33
  · rw [if_pos hoperator, if_pos hoperator, ← List.cons_append,
      readOperator_append (by simp) hb]
    rcases readOperator (c :: rest) with code | ⟨token, more⟩ <;> rfl
  rw [if_neg hoperator, if_neg hoperator]
  cases symbolType c <;> rfl

end

/-! ### What a turn reads -/

/-- A byte that the scans for statements and holes pass over. -/
def isQuiet (c : UInt8) : Bool := c != 39 && c != 45 && c != 59 && c != 36 && !isspace c

/-- No word is a semicolon or a minus. -/
theorem classifyWord_ne (word : List UInt8) :
    classifyWord word ≠ .TOKEN_SEMICOLON ∧ classifyWord word ≠ .TOKEN_MINUS := by
  have hall : ∀ keyword ∈ keywords,
      keyword.token ≠ .TOKEN_SEMICOLON ∧ keyword.token ≠ .TOKEN_MINUS := by decide
  unfold classifyWord
  split
  · simp
  split
  · simp
  · rename_i keyword hfind
    split
    · exact hall keyword (List.mem_of_find?_eq_some hfind)
    · simp

/-- A word is the front of its text. -/
theorem takeWord_reads (text : List UInt8) :
    text = (takeWord text).1 ++ (takeWord text).2 ∧
      ∀ c ∈ (takeWord text).1, isWord c = true ∨ c = 46 := by
  induction text with
  | nil => simp [takeWord]
  | cons c rest ih =>
    unfold takeWord
    split
    · rename_i hc
      refine ⟨by rw [List.cons_append, ← ih.1], fun d hd => ?_⟩
      rcases List.mem_cons.mp hd with rfl | hd
      · simp only [Bool.or_eq_true, Bool.and_eq_true, beq_iff_eq] at hc
        exact hc.imp id And.left
      · exact ih.2 d hd
    · simp

/-- A number is the front of its text. -/
theorem takeNumber_reads (dot : Bool) (text : List UInt8) :
    text = (takeNumber dot text).1 ++ (takeNumber dot text).2 ∧
      ∀ c ∈ (takeNumber dot text).1, isdigit c = true ∨ c = 46 := by
  induction text generalizing dot with
  | nil => simp [takeNumber]
  | cons c rest ih =>
    unfold takeNumber
    split
    · rename_i hc
      refine ⟨by rw [List.cons_append, ← (ih dot).1], fun d hd => ?_⟩
      rcases List.mem_cons.mp hd with rfl | hd
      · exact Or.inl hc
      · exact (ih dot).2 d hd
    split
    · rename_i hc
      refine ⟨by rw [List.cons_append, ← (ih true).1], fun d hd => ?_⟩
      rcases List.mem_cons.mp hd with rfl | hd
      · simp only [Bool.and_eq_true, beq_iff_eq] at hc
        exact Or.inr hc.1.1
      · exact (ih true).2 d hd
    · simp

/-- Only blanks are skipped. -/
theorem lexOne_skip {text rest : List UInt8} (h : lexOne text = .skip rest) :
    ∃ c, text = c :: rest ∧ isspace c = true := by
  cases text with
  | nil => exact absurd h (by simp [lexOne])
  | cons c more =>
    unfold lexOne at h
    dsimp only at h
    split at h
    · rename_i hc
      obtain rfl : more = rest := by simpa using h
      exact ⟨c, rfl, hc⟩
    split at h
    · exact absurd h (by simp)
    split at h
    · exact absurd h (by unfold lexedWord; split <;> simp)
    split at h
    · exact absurd h (by unfold lexedWord; split <;> simp)
    split at h
    · split at h <;> exact absurd h (by simp)
    split at h
    · split at h <;> exact absurd h (by simp)
    · split at h <;> exact absurd h (by simp)

/-- Only a semicolon is one. -/
theorem symbolType_semicolon : ∀ c : UInt8, symbolType c = some .TOKEN_SEMICOLON → c = 59 :=
  forall_byte (by decide +kernel)

/-- Only a minus is one. -/
theorem symbolType_minus : ∀ c : UInt8, symbolType c = some .TOKEN_MINUS → c = 45 :=
  forall_byte (by decide +kernel)

/-- What a token is made of: bytes that no scan stops at, a minus sign, a semicolon, or a
string. -/
theorem lexOne_token {text rest : List UInt8} {t : Token} (h : lexOne text = .token t rest) :
    (∃ w, w ≠ [] ∧ text = w ++ rest ∧ (∀ c ∈ w, isQuiet c = true) ∧
        t.type ≠ .TOKEN_SEMICOLON ∧ t.type ≠ .TOKEN_MINUS) ∨
      (text = 45 :: rest ∧ rest.head? ≠ some 45 ∧ t = ⟨.TOKEN_MINUS, [45]⟩) ∨
      (text = 59 :: rest ∧ t = ⟨.TOKEN_SEMICOLON, [59]⟩) ∨
      ∃ more s, text = 39 :: more ∧ readString 0 more = .ok (s, rest) ∧ t = ⟨.TOKEN_STRING, s⟩ := by
  have hword : ∀ c : UInt8, isWord c = true ∨ c = 46 → isQuiet c = true :=
    forall_byte (by decide +kernel)
  have hdigit : ∀ c : UInt8, isdigit c = true ∨ c = 46 → isQuiet c = true :=
    forall_byte (by decide +kernel)
  cases text with
  | nil => exact absurd h (by simp [lexOne])
  | cons c more =>
    unfold lexOne at h
    dsimp only at h
    split at h
    · exact absurd h (by simp)
    rename_i hspace
    split at h
    · exact absurd h (by simp)
    rename_i hcomment
    split at h
    · -- a word
      rename_i hc
      left
      unfold lexedWord at h
      split at h
      · exact absurd h (by simp)
      obtain ⟨rfl, rfl⟩ : _ = t ∧ _ = rest := by simpa using h
      obtain ⟨hread, hbytes⟩ := takeWord_reads (c :: more)
      refine ⟨(takeWord (c :: more)).1, ?_, hread, fun d hd => hword d (hbytes d hd),
        classifyWord_ne _⟩
      have hfirst : isWord c = true := by
        unfold isWord isalnum
        simp only [Bool.or_eq_true, beq_iff_eq] at hc ⊢
        exact hc.imp Or.inl id
      simp [takeWord, hfirst]
    split at h
    · -- a number
      rename_i hc
      left
      unfold lexedWord at h
      split at h
      · exact absurd h (by simp)
      obtain ⟨rfl, rfl⟩ : _ = t ∧ _ = rest := by simpa using h
      obtain ⟨hread, hbytes⟩ := takeNumber_reads false (c :: more)
      exact ⟨(takeNumber false (c :: more)).1, by simp [takeNumber, hc], hread,
        fun d hd => hdigit d (hbytes d hd), by simp⟩
    split at h
    · -- a string
      rename_i hquote
      subst hquote
      split at h
      · exact absurd h (by simp)
      · rename_i text rest' hread
        obtain ⟨rfl, rfl⟩ : _ = t ∧ _ = rest := by simpa using h
        exact Or.inr (Or.inr (Or.inr ⟨more, text, rfl, hread, rfl⟩))
    split at h
    · -- an operator
      rename_i hc
      left
      split at h
      · exact absurd h (by simp)
      · rename_i t' rest' hread
        obtain ⟨rfl, rfl⟩ : t' = t ∧ rest' = rest := by simpa using h
        have hshape : ∃ type n, 0 < n ∧ (type ≠ .TOKEN_SEMICOLON ∧ type ≠ .TOKEN_MINUS) ∧
            (∀ d ∈ (c :: more).take n, d = 60 ∨ d = 61 ∨ d = 62 ∨ d = 33) ∧
            operatorOf type n (c :: more) = .ok (t', rest') := by
          unfold readOperator at hread
          have hascii : ascii "<=" = [60, 61] ∧ ascii ">=" = [62, 61] ∧ ascii "<>" = [60, 62] ∧
              ascii "!=" = [33, 61] := by decide
          rw [hascii.1, hascii.2.1, hascii.2.2.1, hascii.2.2.2] at hread
          split at hread
          · rename_i htwo
            exact ⟨_, 2, by omega, by simp, by rw [htwo]; simp, hread⟩
          split at hread
          · rename_i htwo
            exact ⟨_, 2, by omega, by simp, by rw [htwo]; simp, hread⟩
          split at hread
          · rename_i htwo
            exact ⟨_, 2, by omega, by simp, by rw [htwo]; simp, hread⟩
          split at hread
          · rename_i htwo
            exact ⟨_, 2, by omega, by simp, by rw [htwo]; simp, hread⟩
          have hone : ∀ d ∈ (c :: more).take 1, d = 60 ∨ d = 61 ∨ d = 62 ∨ d = 33 := by
            intro d hd
            obtain rfl : d = c := by simpa using hd
            rcases hc with hc | hc | hc | hc <;> simp [hc]
          split at hread
          · exact ⟨_, 1, by omega, by simp, hone, hread⟩
          split at hread
          · exact ⟨_, 1, by omega, by simp, hone, hread⟩
          split at hread
          · exact ⟨_, 1, by omega, by simp, hone, hread⟩
          · exact absurd hread (by simp)
        obtain ⟨type, n, hn, htype, hbytes, hoperator⟩ := hshape
        obtain ⟨rfl, rfl⟩ : _ = t' ∧ _ = rest' := by simpa [operatorOf] using hoperator
        refine ⟨(c :: more).take n, ?_, (List.take_append_drop n _).symm, fun d hd => ?_, htype⟩
        · obtain ⟨m, rfl⟩ : ∃ m, n = m + 1 := ⟨n - 1, by omega⟩
          simp
        · rcases hbytes d hd with rfl | rfl | rfl | rfl <;> decide
    · -- a symbol
      rename_i hquote _
      split at h
      · exact absurd h (by simp)
      · rename_i type hsymbol
        obtain ⟨rfl, rfl⟩ : _ = t ∧ _ = rest := by simpa using h
        by_cases hminus : c = 45
        · subst hminus
          obtain rfl : TokenType.TOKEN_MINUS = type := by simpa [symbolType] using hsymbol
          exact Or.inr (Or.inl ⟨rfl, fun hhead => hcomment ⟨rfl, hhead⟩, rfl⟩)
        by_cases hsemi : c = 59
        · subst hsemi
          obtain rfl : TokenType.TOKEN_SEMICOLON = type := by simpa [symbolType] using hsymbol
          exact Or.inr (Or.inr (Or.inl ⟨rfl, rfl⟩))
        refine Or.inl ⟨[c], by simp, rfl, fun d hd => ?_, ?_⟩
        · obtain rfl : d = c := by simpa using hd
          have hdollar : d ≠ 36 := by
            rintro rfl
            exact absurd hsymbol (by simp [symbolType])
          simp [isQuiet, hquote, hminus, hsemi, hdollar, hspace]
        · exact ⟨fun htype => hsemi (symbolType_semicolon c (hsymbol.trans (congrArg some htype))),
            fun htype => hminus (symbolType_minus c (hsymbol.trans (congrArg some htype)))⟩

/-- A text that is never closed starts with a quote. -/
theorem lexOne_unterminated {text : List UInt8}
    (h : lexOne text = .refuse .UNTERMINATED_STRING) :
    ∃ more, text = 39 :: more ∧ readString 0 more = .error .UNTERMINATED_STRING := by
  cases text with
  | nil => exact absurd h (by simp [lexOne])
  | cons c more =>
    unfold lexOne at h
    dsimp only at h
    split at h
    · exact absurd h (by simp)
    split at h
    · exact absurd h (by simp)
    split at h
    · exact absurd h (by unfold lexedWord; split <;> simp)
    split at h
    · exact absurd h (by unfold lexedWord; split <;> simp)
    split at h
    · rename_i hquote
      subst hquote
      split at h
      · rename_i code hread
        obtain rfl : code = .UNTERMINATED_STRING := by simpa using h
        exact ⟨more, rfl, hread⟩
      · exact absurd h (by simp)
    split at h
    · unfold readOperator at h
      split at h
      · rename_i code hread
        obtain rfl : code = .UNTERMINATED_STRING := by simpa using h
        repeat' split at hread
        all_goals exact absurd hread (by simp [operatorOf])
      · exact absurd h (by simp)
    · split at h <;> exact absurd h (by simp)

/-- A token that ends where the text behind begins, or before, is a token of the first text. -/
theorem lexOne_split {a b r : List UInt8} {t : Token} (ha : a ≠ []) (hb : Breaks b)
    (h : lexOne (a ++ b) = .token t (r ++ b)) : lexOne a = .token t r := by
  by_cases hopen : lexOne a = .refuse .UNTERMINATED_STRING
  · obtain ⟨more, rfl, hread⟩ := lexOne_unterminated hopen
    rcases lexOne_token h with ⟨w, hw, heq, hquiet, -⟩ | ⟨heq, -⟩ | ⟨heq, -⟩ |
      ⟨more', s, heq, hclosed, -⟩
    · obtain ⟨c, w, rfl⟩ := List.exists_cons_of_ne_nil hw
      obtain rfl : 39 = c := by
        rw [List.cons_append, List.cons_append] at heq
        exact (List.cons.inj heq).1
      exact absurd (hquiet 39 (by simp)) (by decide)
    · exact absurd (List.cons.inj heq).1 (by decide)
    · exact absurd (List.cons.inj heq).1 (by decide)
    · obtain rfl := (List.cons.inj heq).2
      have := readString_open 0 more hread hclosed
      rw [List.length_append] at this
      omega
  have hmark : ¬(a = [45] ∧ b.head? = some 45) := by
    rintro ⟨rfl, hhead⟩
    rw [List.cons_append, List.nil_append] at h
    unfold lexOne at h
    dsimp only at h
    rw [if_neg (by decide), if_pos ⟨rfl, hhead⟩] at h
    exact absurd h (by simp)
  rw [lexOne_append ha hb hmark hopen] at h
  cases hone : lexOne a with
  | stop => rw [hone] at h; exact absurd h (by simp [Lexed.behind])
  | skip rest => rw [hone] at h; exact absurd h (by simp [Lexed.behind])
  | refuse code => rw [hone] at h; exact absurd h (by simp [Lexed.behind])
  | token t' rest =>
    rw [hone] at h
    obtain ⟨rfl, hrest⟩ : t' = t ∧ rest ++ b = r ++ b := by simpa [Lexed.behind] using h
    rw [List.append_cancel_right hrest]

/-- What the lexer stops at without an error. -/
theorem lexOne_stop {text : List UInt8} (h : lexOne text = .stop) :
    text = [] ∨ ∃ more, text = 45 :: 45 :: more := by
  cases text with
  | nil => exact Or.inl rfl
  | cons c more =>
    right
    unfold lexOne at h
    dsimp only at h
    split at h
    · exact absurd h (by simp)
    split at h
    · rename_i hc
      obtain ⟨rfl, hhead⟩ := hc
      obtain ⟨more', rfl⟩ := List.head?_eq_some_iff.mp hhead
      exact ⟨more', rfl⟩
    split at h
    · exact absurd h (by unfold lexedWord; split <;> simp)
    split at h
    · exact absurd h (by unfold lexedWord; split <;> simp)
    split at h
    · split at h <;> exact absurd h (by simp)
    split at h
    · split at h <;> exact absurd h (by simp)
    · split at h <;> exact absurd h (by simp)

/-! ### The loop -/

/-- A token uses up some bytes. -/
theorem lexOne_shrinks {text rest : List UInt8}
    (h : lexOne text = .skip rest ∨ ∃ t, lexOne text = .token t rest) :
    rest.length < text.length := by
  rcases h with h | ⟨t, h⟩
  · obtain ⟨c, rfl, -⟩ := lexOne_skip h
    simp
  rcases lexOne_token h with ⟨w, hw, rfl, -⟩ | ⟨rfl, -⟩ | ⟨rfl, -⟩ | ⟨more, s, rfl, hread, -⟩
  · have := List.length_pos_iff.mpr hw
    rw [List.length_append]
    omega
  · simp
  · simp
  · have := readString_shrinks 0 more hread
    rw [List.length_cons]
    omega

/-- Fuel beyond the length of the text changes nothing. -/
theorem tokenizeFrom_fuel {fuel fuel' : Nat} {text : List UInt8} (tokens : List Token)
    (h : text.length < fuel) (h' : text.length < fuel') :
    tokenizeFrom fuel text tokens = tokenizeFrom fuel' text tokens := by
  induction fuel generalizing text fuel' tokens with
  | zero => omega
  | succ fuel ih =>
    obtain ⟨fuel', rfl⟩ : ∃ n, fuel' = n + 1 := ⟨fuel' - 1, by omega⟩
    unfold tokenizeFrom
    cases hone : lexOne text with
    | stop => rfl
    | refuse code => rfl
    | skip rest =>
      have := lexOne_shrinks (Or.inl hone)
      exact ih tokens (by omega) (by omega)
    | token t rest =>
      have := lexOne_shrinks (Or.inr ⟨t, hone⟩)
      dsimp only
      split
      · rfl
      · exact ih _ (by omega) (by omega)

/-- The loop with fuel enough. -/
def lexFrom (text : List UInt8) (tokens : List Token) : Except ErrorCode (List Token) :=
  tokenizeFrom (text.length + 1) text tokens

/-- A statement is lexed from no tokens. -/
theorem tokenizeStatement_eq (text : List UInt8) : tokenizeStatement text = lexFrom text [] := rfl

/-- One turn of the lexer. -/
theorem lexFrom_eq (text : List UInt8) (tokens : List Token) :
    lexFrom text tokens =
      match lexOne text with
      | .stop => .ok tokens
      | .skip rest => lexFrom rest tokens
      | .refuse code => .error code
      | .token t rest =>
        if tokens.length = MAX_TOKENS then .error .TOO_MANY_TOKENS
        else lexFrom rest (tokens ++ [t]) := by
  rw [lexFrom, tokenizeFrom]
  cases hone : lexOne text with
  | stop => rfl
  | refuse code => rfl
  | skip rest =>
    have := lexOne_shrinks (Or.inl hone)
    exact tokenizeFrom_fuel tokens (by omega) (by omega)
  | token t rest =>
    have := lexOne_shrinks (Or.inr ⟨t, hone⟩)
    dsimp only
    split
    · rfl
    · exact tokenizeFrom_fuel _ (by omega) (by omega)

/-- A text that is read to its end is read first, and then what is behind it. -/
theorem lexFrom_append {a b : List UInt8} {ts : List Token} (h : Lexes a ts) (hb : Breaks b)
    (hmark : a.getLast? = some 45 → b.head? ≠ some 45) (tokens : List Token)
    (hmax : tokens.length + ts.length ≤ MAX_TOKENS) :
    lexFrom (a ++ b) tokens = lexFrom b (tokens ++ ts) := by
  induction h generalizing tokens with
  | nil => simp
  | @skip text rest ts hone _ ih =>
    obtain ⟨c, rfl, hc⟩ := lexOne_skip hone
    have hrest : rest.getLast? = some 45 → b.head? ≠ some 45 := fun hlast =>
      hmark (by cases rest with
        | nil => exact absurd hlast (by simp)
        | cons d more => rw [List.getLast?_cons_cons]; exact hlast)
    have hturn := lexOne_append (a := c :: rest) (by simp) hb
      (fun hm => hmark (by rw [hm.1]; rfl) hm.2) (by rw [hone]; simp)
    rw [hone] at hturn
    rw [lexFrom_eq, hturn]
    exact ih hrest tokens hmax
  | @token text rest t ts hone _ ih =>
    have hne : text ≠ [] := by
      rintro rfl
      exact absurd hone (by simp [lexOne])
    have hsuffix : ∃ w, text = w ++ rest := by
      rcases lexOne_token hone with ⟨w, -, rfl, -⟩ | ⟨rfl, -⟩ | ⟨rfl, -⟩ | ⟨more, s, rfl, hread, -⟩
      · exact ⟨w, rfl⟩
      · exact ⟨[45], rfl⟩
      · exact ⟨[59], rfl⟩
      · obtain ⟨w, rfl, -⟩ := readString_quote 0 more hread
        exact ⟨39 :: w, rfl⟩
    have hrest : rest.getLast? = some 45 → b.head? ≠ some 45 := fun hlast => by
      obtain ⟨w, rfl⟩ := hsuffix
      refine hmark ?_
      rw [List.getLast?_append, hlast]
      rfl
    have hturn := lexOne_append hne hb (fun hm => hmark (by rw [hm.1]; rfl) hm.2)
      (by rw [hone]; simp)
    rw [hone] at hturn
    rw [lexFrom_eq, hturn]
    simp only [List.length_cons] at hmax
    show (if tokens.length = MAX_TOKENS then _ else lexFrom (rest ++ b) (tokens ++ [t])) = _
    rw [if_neg (by omega), ih hrest (tokens ++ [t]) (by simp; omega), List.append_assoc]
    rfl

/-- A comment, or nothing. -/
def IsComment (text : List UInt8) : Prop := text = [] ∨ ∃ more, text = 45 :: 45 :: more

/-- A comment breaks a token. -/
theorem IsComment.breaks {text : List UInt8} (h : IsComment text) : Breaks text := by
  rcases h with rfl | ⟨more, rfl⟩
  · exact fun c hc => absurd hc (by simp)
  · intro c hc
    obtain rfl : 45 = c := by simpa using hc
    exact Or.inr (Or.inr rfl)

/-- How an accepted text splits: into what is read and a comment. -/
structure ReadUpTo (text : List UInt8) (ts : List Token) (a c : List UInt8) : Prop where
  append : text = a ++ c
  lexes : Lexes a ts
  comment : IsComment c
  mark : a.getLast? = some 45 → c = []

/-- A text that the lexer accepts is one that is read to its end, and a comment. -/
theorem lexFrom_split {text : List UInt8} {tokens result : List Token}
    (h : lexFrom text tokens = .ok result) :
    ∃ a c ts, ReadUpTo text ts a c ∧ result = tokens ++ ts := by
  induction hlen : text.length using Nat.strongRecOn generalizing text tokens with
  | ind n ih =>
    subst hlen
    rw [lexFrom_eq] at h
    cases hone : lexOne text with
    | stop =>
      rw [hone] at h
      obtain rfl : tokens = result := by simpa using h
      exact ⟨[], text, [], ⟨rfl, .nil, lexOne_stop hone, by simp⟩, by simp⟩
    | refuse code =>
      rw [hone] at h
      exact absurd h (by simp)
    | skip rest =>
      rw [hone] at h
      obtain ⟨a, c, ts, hsplit, rfl⟩ := ih _ (lexOne_shrinks (Or.inl hone)) h rfl
      obtain ⟨s, rfl, hs⟩ := lexOne_skip hone
      refine ⟨s :: a, c, ts, ⟨by rw [hsplit.append]; rfl, .skip ?_ hsplit.lexes, hsplit.comment,
        fun hlast => ?_⟩, rfl⟩
      · simp [lexOne, hs]
      · cases a with
        | nil =>
          obtain rfl : s = 45 := by simpa using hlast
          exact absurd hs (by decide)
        | cons d more => exact hsplit.mark (by rw [List.getLast?_cons_cons] at hlast; exact hlast)
    | token t rest =>
      rw [hone] at h
      dsimp only at h
      split at h
      · exact absurd h (by simp)
      obtain ⟨a, c, ts, hsplit, rfl⟩ := ih _ (lexOne_shrinks (Or.inr ⟨t, hone⟩)) h rfl
      have hshape := lexOne_token hone
      -- the bytes of the token, and that the last of them starts no comment
      obtain ⟨w, hw, rfl, hlast⟩ : ∃ w, w ≠ [] ∧ text = w ++ rest ∧
          (w.getLast? = some 45 → rest.head? ≠ some 45) := by
        rcases hshape with ⟨w, hw, heq, hquiet, -⟩ | ⟨heq, hhead, -⟩ | ⟨heq, -⟩ |
          ⟨more, s, heq, hread, -⟩
        · refine ⟨w, hw, heq, fun hlast => ?_⟩
          exact absurd (hquiet 45 (List.mem_of_getLast? hlast)) (by decide)
        · exact ⟨[45], by simp, heq, fun _ => hhead⟩
        · exact ⟨[59], by simp, heq, fun hlast => absurd hlast (by simp)⟩
        · obtain ⟨w, hw, hend⟩ := readString_quote 0 more hread
          refine ⟨39 :: w, by simp, by rw [heq, hw]; rfl, fun hlast => ?_⟩
          rw [List.getLast?_cons, hend] at hlast
          exact absurd hlast (by simp)
      have hwhole : (w ++ a) ≠ [] := by simp [hw]
      refine ⟨w ++ a, c, t :: ts, ⟨by rw [hsplit.append, List.append_assoc], .token ?_ hsplit.lexes,
        hsplit.comment, fun hend => ?_⟩, by simp⟩
      · refine lexOne_split hwhole hsplit.comment.breaks ?_
        rw [List.append_assoc, ← hsplit.append]
        exact hone
      · cases ha : a with
        | nil =>
          subst ha
          rw [List.append_nil] at hend
          have hhead := hlast hend
          rw [hsplit.append, List.nil_append] at hhead
          rcases hsplit.comment with hc | ⟨more, rfl⟩
          · exact hc
          · exact absurd rfl hhead
        | cons d more =>
          refine hsplit.mark ?_
          rw [ha, List.getLast?_append] at hend
          rw [ha]
          cases hmore : (d :: more).getLast? with
          | none => exact absurd hmore (by simp)
          | some e => simpa [hmore] using hend

/-! ### Cutting what was read -/

/-- The bytes of a token, of which a last minus sign is a token of its own. -/
theorem lexOne_bytes {text rest : List UInt8} {t : Token} (h : lexOne text = .token t rest) :
    ∃ w, w ≠ [] ∧ text = w ++ rest ∧
      (w.getLast? = some 45 → t = ⟨.TOKEN_MINUS, [45]⟩ ∧ w = [45] ∧ rest.head? ≠ some 45) := by
  rcases lexOne_token h with ⟨w, hw, rfl, hquiet, -⟩ | ⟨rfl, hhead, rfl⟩ | ⟨rfl, rfl⟩ |
    ⟨more, s, rfl, hread, -⟩
  · refine ⟨w, hw, rfl, fun hlast => ?_⟩
    exact absurd (hquiet 45 (List.mem_of_getLast? hlast)) (by decide)
  · exact ⟨[45], by simp, rfl, fun _ => ⟨rfl, rfl, hhead⟩⟩
  · exact ⟨[59], by simp, rfl, fun hlast => absurd hlast (by simp)⟩
  · obtain ⟨w, rfl, hend⟩ := readString_quote 0 more hread
    refine ⟨39 :: w, by simp, rfl, fun hlast => ?_⟩
    rw [List.getLast?_cons, hend] at hlast
    exact absurd hlast (by simp)

/-- Blanks, semicolons and minus signs break a token. -/
theorem breaks_cons {c : UInt8} (rest : List UInt8)
    (hc : isspace c = true ∨ c = 59 ∨ c = 45) : Breaks (c :: rest) := by
  intro d hd
  obtain rfl : c = d := by simpa using hd
  exact hc

/-- A last minus sign is a token of its own, and what is before it is read as before. -/
theorem Lexes.cut_minus {a : List UInt8} {ts : List Token} (h : Lexes (a ++ [45]) ts) :
    ∃ ts', ts = ts' ++ [⟨.TOKEN_MINUS, [45]⟩] ∧ Lexes a ts' ∧ a.getLast? ≠ some 45 := by
  generalize htext : a ++ [45] = text at h
  induction h generalizing a with
  | nil => exact absurd htext (by simp)
  | @skip text rest ts hone hmore ih =>
    subst htext
    obtain ⟨c, heq, hc⟩ := lexOne_skip hone
    cases a with
    | nil =>
      obtain ⟨rfl, -⟩ := List.cons.inj heq
      exact absurd hc (by decide)
    | cons d a =>
      obtain ⟨rfl, rfl⟩ := List.cons.inj heq
      obtain ⟨ts', rfl, hread, hlast⟩ := ih rfl
      refine ⟨ts', rfl, .skip (by simp [lexOne, hc]) hread, fun hend => ?_⟩
      cases a with
      | nil =>
        obtain rfl : d = 45 := by simpa using hend
        exact absurd hc (by decide)
      | cons e a => exact hlast (by rw [List.getLast?_cons_cons] at hend; exact hend)
  | @token text rest t ts hone hmore ih =>
    subst htext
    obtain ⟨w, hw, heq, hlast⟩ := lexOne_bytes hone
    cases hrest : rest.getLast? with
    | none =>
      obtain rfl : rest = [] := by simpa using hrest
      rw [List.append_nil] at heq
      subst heq
      obtain ⟨rfl, ha, -⟩ := hlast (by simp)
      obtain rfl : a = [] := by simpa using ha
      cases hmore with
      | nil => exact ⟨[], rfl, .nil, by simp⟩
      | skip hone => exact absurd hone (by simp [lexOne])
      | token hone => exact absurd hone (by simp [lexOne])
    | some c =>
      obtain ⟨rest', rfl⟩ := List.getLast?_eq_some_iff.mp hrest
      rw [← List.append_assoc] at heq
      obtain ⟨rfl, hc⟩ := List.append_inj' heq rfl
      obtain rfl : 45 = c := by simpa using hc
      obtain ⟨ts', rfl, hread, hend⟩ := ih rfl
      refine ⟨t :: ts', rfl, .token ?_ hread, fun hmark => ?_⟩
      · exact lexOne_split (by simp [hw]) (breaks_cons [] (by simp)) hone
      · cases hrest' : rest'.getLast? with
        | none =>
          obtain rfl : rest' = [] := by simpa using hrest'
          rw [List.append_nil] at hmark
          exact (hlast hmark).2.2 rfl
        | some c =>
          rw [List.getLast?_append, hrest'] at hmark
          exact hend (by rw [hrest']; simpa using hmark)

/-- What is before a semicolon is read as before. -/
theorem Lexes.cut_semicolon {text : List UInt8} {us vs : List Token}
    (h : Lexes text (us ++ ⟨.TOKEN_SEMICOLON, [59]⟩ :: vs)) :
    ∃ a b, text = a ++ 59 :: b ∧ Lexes a us ∧ Lexes b vs := by
  generalize hts : us ++ ⟨.TOKEN_SEMICOLON, [59]⟩ :: vs = ts at h
  induction h generalizing us with
  | nil => exact absurd hts (by simp)
  | @skip text rest ts hone hmore ih =>
    obtain ⟨c, rfl, hc⟩ := lexOne_skip hone
    obtain ⟨a, b, rfl, ha, hb⟩ := ih hts
    exact ⟨c :: a, b, rfl, .skip (by simp [lexOne, hc]) ha, hb⟩
  | @token text rest t ts hone hmore ih =>
    cases us with
    | nil =>
      obtain ⟨rfl, rfl⟩ := List.cons.inj hts
      rcases lexOne_token hone with ⟨w, -, -, -, htype, -⟩ | ⟨-, -, htype⟩ | ⟨rfl, -⟩ |
        ⟨more, s, -, -, htype⟩
      · exact absurd rfl htype
      · exact absurd htype (by simp)
      · exact ⟨[], rest, rfl, .nil, hmore⟩
      · exact absurd htype (by simp)
    | cons u us =>
      obtain ⟨rfl, rfl⟩ := List.cons.inj hts
      obtain ⟨a, b, rfl, ha, hb⟩ := ih rfl
      obtain ⟨w, hw, rfl, -⟩ := lexOne_bytes hone
      refine ⟨w ++ a, b, by simp, .token ?_ ha, hb⟩
      refine lexOne_split (b := 59 :: b) (by simp [hw]) (breaks_cons b (by simp)) ?_
      rw [List.append_assoc]
      exact hone

/-- A text without a token is blank. -/
theorem Lexes.blank {a : List UInt8} (h : Lexes a []) : ∀ c ∈ a, isspace c = true := by
  generalize hts : ([] : List Token) = ts at h
  induction h with
  | nil => simp
  | skip hone _ ih =>
    obtain ⟨c, rfl, hc⟩ := lexOne_skip hone
    simpa [hc] using ih hts
  | token => exact absurd hts (by simp)

/-- Blanks are no tokens. -/
theorem lexes_blank {a : List UInt8} (h : ∀ c ∈ a, isspace c = true) : Lexes a [] := by
  induction a with
  | nil => exact .nil
  | cons c a ih =>
    exact .skip (by simp [lexOne, h c]) (ih fun d hd => h d (by simp [hd]))

/-- A text has one list of tokens. -/
theorem Lexes.det {a : List UInt8} {ts us : List Token} (h : Lexes a ts) (h' : Lexes a us) :
    ts = us := by
  induction h generalizing us with
  | nil =>
    cases h' with
    | nil => rfl
    | skip hone => exact absurd hone (by simp [lexOne])
    | token hone => exact absurd hone (by simp [lexOne])
  | skip hone _ ih =>
    cases h' with
    | nil => exact absurd hone (by simp [lexOne])
    | skip hone' more =>
      obtain rfl := Lexed.skip.inj (hone.symm.trans hone')
      exact ih more
    | token hone' => exact absurd (hone.symm.trans hone') (by simp)
  | token hone _ ih =>
    cases h' with
    | nil => exact absurd hone (by simp [lexOne])
    | skip hone' => exact absurd (hone.symm.trans hone') (by simp)
    | token hone' more =>
      obtain ⟨rfl, rfl⟩ := Lexed.token.inj (hone.symm.trans hone')
      rw [ih more]

/-- A text with a token is not blank. -/
theorem Lexes.nonblank {a : List UInt8} {ts : List Token} (h : Lexes a ts) (hts : ts ≠ []) :
    (a.any fun c => !isspace c) = true := by
  by_contra hany
  have hblank : ∀ c ∈ a, isspace c = true := by
    intro c hc
    by_contra hspace
    exact hany (List.any_eq_true.mpr ⟨c, hc, by simp [hspace]⟩)
  exact hts (h.det (lexes_blank hblank))

/-- A semicolon token is the byte. -/
theorem Lexes.semicolon {a : List UInt8} {ts : List Token} (h : Lexes a ts) {t : Token}
    (ht : t ∈ ts) (htype : t.type = .TOKEN_SEMICOLON) : t = ⟨.TOKEN_SEMICOLON, [59]⟩ := by
  induction h with
  | nil => exact absurd ht (by simp)
  | skip _ _ ih => exact ih ht
  | token hone _ ih =>
    rcases List.mem_cons.mp ht with rfl | ht
    · rcases lexOne_token hone with ⟨w, -, -, -, hne, -⟩ | ⟨-, -, rfl⟩ | ⟨-, rfl⟩ |
        ⟨more, s, -, -, rfl⟩
      · exact absurd htype hne
      · exact absurd htype (by simp)
      · rfl
      · exact absurd htype (by simp)
    · exact ih ht

/-- The lexer never gives more tokens than there is room for. -/
theorem lexFrom_length {text : List UInt8} {tokens result : List Token}
    (h : lexFrom text tokens = .ok result) (hmax : tokens.length ≤ MAX_TOKENS) :
    result.length ≤ MAX_TOKENS := by
  induction hlen : text.length using Nat.strongRecOn generalizing text tokens with
  | ind n ih =>
    subst hlen
    rw [lexFrom_eq] at h
    cases hone : lexOne text with
    | stop =>
      rw [hone] at h
      obtain rfl : tokens = result := by simpa using h
      exact hmax
    | refuse code =>
      rw [hone] at h
      exact absurd h (by simp)
    | skip rest =>
      rw [hone] at h
      exact ih _ (lexOne_shrinks (Or.inl hone)) h hmax rfl
    | token t rest =>
      rw [hone] at h
      dsimp only at h
      split at h
      · exact absurd h (by simp)
      · exact ih _ (lexOne_shrinks (Or.inr ⟨t, hone⟩)) h (by simp; omega) rfl

end DatabaseEngine
