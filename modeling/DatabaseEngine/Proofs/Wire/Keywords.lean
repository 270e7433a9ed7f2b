import DatabaseEngine.Model.Lexer

/-!
# `DatabaseEngine.Proofs.Wire.Keywords`: a word is a keyword exactly when it spells one

`classifyWord` folds the first four bytes of a word all at once, switches on the integer that
they make, and compares what is left of the word only for the one case it lands in. The fold sets
a bit of every byte, of digits, underscores, dots and the padding too.

* `classifyWord_switch`: the switch on the packed integers lands where the folded bytes agree.
* `fold_letter`: nothing that stands in a word but the letter itself, large or small, folds to a
  letter, and nothing folds to what the padding folds to.
* `Keyword.accepts_iff`: the test of one case.
* `classifyWord_exact`: the table as a whole, for words of any length.
-/

set_option autoImplicit false

namespace DatabaseEngine

open Library

/-! ### The words of the language -/

/-- How a keyword is spelled, none of the tokens that are no keywords. -/
def TokenType.spelling : TokenType → Option (List UInt8)
  | TOKEN_KEYWORD_SELECT => some (ascii "select")
  | TOKEN_KEYWORD_FROM => some (ascii "from")
  | TOKEN_KEYWORD_CREATE => some (ascii "create")
  | TOKEN_KEYWORD_TABLE => some (ascii "table")
  | TOKEN_KEYWORD_INSERT => some (ascii "insert")
  | TOKEN_KEYWORD_INTO => some (ascii "into")
  | TOKEN_KEYWORD_VALUES => some (ascii "values")
  | TOKEN_KEYWORD_INT => some (ascii "int")
  | TOKEN_KEYWORD_TEXT => some (ascii "text")
  | TOKEN_KEYWORD_WHERE => some (ascii "where")
  | TOKEN_KEYWORD_GROUP => some (ascii "group")
  | TOKEN_KEYWORD_BY => some (ascii "by")
  | TOKEN_KEYWORD_NULL => some (ascii "null")
  | TOKEN_KEYWORD_IS => some (ascii "is")
  | TOKEN_KEYWORD_NOT => some (ascii "not")
  | TOKEN_KEYWORD_INDEX => some (ascii "index")
  | TOKEN_KEYWORD_ON => some (ascii "on")
  | TOKEN_KEYWORD_DELETE => some (ascii "delete")
  | TOKEN_KEYWORD_UPDATE => some (ascii "update")
  | TOKEN_KEYWORD_SET => some (ascii "set")
  | TOKEN_KEYWORD_VACUUM => some (ascii "vacuum")
  | TOKEN_KEYWORD_ORDER => some (ascii "order")
  | TOKEN_KEYWORD_ASC => some (ascii "asc")
  | TOKEN_KEYWORD_DESC => some (ascii "desc")
  | TOKEN_KEYWORD_LIKE => some (ascii "like")
  | TOKEN_KEYWORD_AND => some (ascii "and")
  | TOKEN_KEYWORD_OR => some (ascii "or")
  | TOKEN_KEYWORD_LIMIT => some (ascii "limit")
  | TOKEN_KEYWORD_DISTINCT => some (ascii "distinct")
  | TOKEN_KEYWORD_HAVING => some (ascii "having")
  | TOKEN_KEYWORD_DROP => some (ascii "drop")
  | TOKEN_KEYWORD_DATABASE => some (ascii "database")
  | TOKEN_KEYWORD_USE => some (ascii "use")
  | TOKEN_KEYWORD_JOIN => some (ascii "join")
  | TOKEN_KEYWORD_INNER => some (ascii "inner")
  | TOKEN_KEYWORD_AS => some (ascii "as")
  | TOKEN_KEYWORD_BEGIN => some (ascii "begin")
  | TOKEN_KEYWORD_COMMIT => some (ascii "commit")
  | TOKEN_KEYWORD_ROLLBACK => some (ascii "rollback")
  | TOKEN_KEYWORD_FLOAT => some (ascii "float")
  | TOKEN_KEYWORD_DATE => some (ascii "date")
  | TOKEN_KEYWORD_VARCHAR => some (ascii "varchar")
  | TOKEN_KEYWORD_PRIMARY => some (ascii "primary")
  | TOKEN_KEYWORD_KEY => some (ascii "key")
  | TOKEN_KEYWORD_UNIQUE => some (ascii "unique")
  | TOKEN_KEYWORD_DEFAULT => some (ascii "default")
  | TOKEN_KEYWORD_CHECK => some (ascii "check")
  | TOKEN_KEYWORD_ALTER => some (ascii "alter")
  | TOKEN_KEYWORD_ADD => some (ascii "add")
  | TOKEN_KEYWORD_COLUMN => some (ascii "column")
  | TOKEN_KEYWORD_RENAME => some (ascii "rename")
  | TOKEN_KEYWORD_TO => some (ascii "to")
  | TOKEN_KEYWORD_LEFT => some (ascii "left")
  | TOKEN_KEYWORD_OUTER => some (ascii "outer")
  | TOKEN_KEYWORD_IN => some (ascii "in")
  | TOKEN_KEYWORD_EXISTS => some (ascii "exists")
  | _ => none

/-- The whole word of a case. -/
def Keyword.word (keyword : Keyword) : List UInt8 := keyword.head ++ keyword.rest

/-- A byte that can stand in a word. -/
def inWord (c : UInt8) : Bool := isWord c || c == 46

/-- A small letter. -/
def isSmall (c : UInt8) : Bool := decide (97 ≤ c) && decide (c ≤ 122)

/-! ### The integer that the switch is on -/

/-- Four bytes packed into one number. -/
theorem PACK_4_toNat (c0 c1 c2 c3 : UInt8) : (PACK_4 c0 c1 c2 c3).toNat =
    c0.toNat + 2 ^ 8 * c1.toNat + 2 ^ 16 * c2.toNat + 2 ^ 24 * c3.toNat := by
  have h0 := c0.toNat_lt
  have h1 := c1.toNat_lt
  have h2 := c2.toNat_lt
  have h3 := c3.toNat_lt
  -- no byte is shifted out of the integer
  have e1 : c1.toNat <<< ((8 : UInt32).toNat % 32) % 2 ^ 32 = c1.toNat <<< 8 := by
    rw [show (8 : UInt32).toNat % 32 = 8 from rfl, Nat.shiftLeft_eq]
    omega
  have e2 : c2.toNat <<< ((16 : UInt32).toNat % 32) % 2 ^ 32 = c2.toNat <<< 16 := by
    rw [show (16 : UInt32).toNat % 32 = 16 from rfl, Nat.shiftLeft_eq]
    omega
  have e3 : c3.toNat <<< ((24 : UInt32).toNat % 32) % 2 ^ 32 = c3.toNat <<< 24 := by
    rw [show (24 : UInt32).toNat % 32 = 24 from rfl, Nat.shiftLeft_eq]
    omega
  show (c0.toUInt32 ||| c1.toUInt32 <<< 8 ||| c2.toUInt32 <<< 16 ||| c3.toUInt32 <<< 24).toNat = _
  simp only [UInt32.toNat_or, UInt32.toNat_shiftLeft, UInt8.toNat_toUInt32]
  -- each byte lies above the ones before it, so that to set its bits is to add it
  rw [e1, e2, e3, Nat.or_comm c0.toNat, ← Nat.shiftLeft_add_eq_or_of_lt (by omega),
    Nat.or_comm _ (c2.toNat <<< 16),
    ← Nat.shiftLeft_add_eq_or_of_lt (by rw [Nat.shiftLeft_eq]; omega),
    Nat.or_comm _ (c3.toNat <<< 24),
    ← Nat.shiftLeft_add_eq_or_of_lt (by simp only [Nat.shiftLeft_eq]; omega)]
  simp only [Nat.shiftLeft_eq]
  omega

/-- Packed numbers tell their bytes apart. -/
theorem PACK_4_inj {a b c d a' b' c' d' : UInt8} :
    PACK_4 a b c d = PACK_4 a' b' c' d' ↔ a = a' ∧ b = b' ∧ c = c' ∧ d = d' := by
  constructor
  · intro h
    have h := congrArg UInt32.toNat h
    rw [PACK_4_toNat, PACK_4_toNat] at h
    have := a.toNat_lt; have := a'.toNat_lt
    have := b.toNat_lt; have := b'.toNat_lt
    have := c.toNat_lt; have := c'.toNat_lt
    have := d.toNat_lt; have := d'.toNat_lt
    refine ⟨?_, ?_, ?_, ?_⟩ <;> refine UInt8.toNat_inj.mp ?_ <;> omega
  · rintro ⟨rfl, rfl, rfl, rfl⟩
    rfl

/-- A shifted OR is the OR of the shifted. -/
theorem or_shifted (a b : UInt8) (n : UInt32) :
    (a ||| b).toUInt32 <<< n = a.toUInt32 <<< n ||| b.toUInt32 <<< n := by
  rw [UInt8.toUInt32_or, UInt32.shiftLeft_or]

/-- An OR of two fours is four ORs. -/
theorem or_paired (a b c d a' b' c' d' : UInt32) :
    (a ||| b ||| c ||| d) ||| (a' ||| b' ||| c' ||| d')
      = (a ||| a') ||| (b ||| b') ||| (c ||| c') ||| (d ||| d') := by
  ac_rfl

/-- Folding the packed integer folds its four bytes. -/
theorem PACK_4_fold (a b c d : UInt8) :
    PACK_4 a b c d ||| 0x20202020 = PACK_4 (fold a) (fold b) (fold c) (fold d) := by
  have hmask : (0x20202020 : UInt32) = PACK_4 0x20 0x20 0x20 0x20 := by decide
  rw [hmask]
  unfold PACK_4 fold
  rw [or_paired, or_shifted, or_shifted, or_shifted, UInt8.toUInt32_or]

/-- The prefix of a word is its first four bytes, folded. -/
theorem prefixOf_eq (word : List UInt8) : prefixOf word =
    [fold (word.getD 0 0), fold (word.getD 1 0), fold (word.getD 2 0), fold (word.getD 3 0)] := by
  unfold prefixOf
  match word with
  | [] => rfl
  | [_] => rfl
  | [_, _] => rfl
  | [_, _, _] => rfl
  | _ :: _ :: _ :: _ :: _ =>
    simp [List.take]

/-- The switch goes to the case whose folded characters are those of the word. -/
theorem packedPrefix_eq_label (word : List UInt8) (keyword : Keyword) :
    packedPrefix word = keyword.label ↔ prefixOf keyword.head = prefixOf word := by
  unfold packedPrefix Keyword.label
  rw [PACK_4_fold, PACK_4_inj, prefixOf_eq, prefixOf_eq]
  simp only [List.cons.injEq, and_true]
  constructor
  · rintro ⟨h0, h1, h2, h3⟩
    exact ⟨h0.symm, h1.symm, h2.symm, h3.symm⟩
  · rintro ⟨h0, h1, h2, h3⟩
    exact ⟨h0.symm, h1.symm, h2.symm, h3.symm⟩

/-- `classifyWord` as its `switch` on packed integers. -/
theorem classifyWord_switch (word : List UInt8) : classifyWord word =
    if KEYWORD_MAX < word.length then .TOKEN_IDENTIFIER
    else
      match keywords.find? fun keyword => keyword.label == packedPrefix word with
      | none => .TOKEN_IDENTIFIER
      | some keyword =>
        if word.length = keyword.length
            ∧ (keyword.length ≤ 4 ∨ sameText (word.drop 4) keyword.rest) then keyword.token
        else .TOKEN_IDENTIFIER := by
  have hcase : (fun keyword : Keyword => prefixOf keyword.head == prefixOf word) =
      fun keyword => keyword.label == packedPrefix word := by
    funext keyword
    rw [Bool.eq_iff_iff, beq_iff_eq, beq_iff_eq, eq_comm (a := keyword.label),
      packedPrefix_eq_label]
  unfold classifyWord
  exact hcase ▸ rfl

/-! ### One byte -/

/-- A letter folds to the small one, and what folds to a small letter is that letter. -/
theorem fold_kinds : ∀ c : UInt8, inWord c = true →
    fold c = tolower c ∨ isSmall (fold c) = false ∧ isSmall (tolower c) = false :=
  forall_byte (by decide +kernel)

/-- A small letter is folded to itself. -/
theorem fold_small : ∀ l : UInt8, isSmall l = true → fold l = l := forall_byte (by decide +kernel)

/-- Nothing in a word but the letter itself, large or small, folds to a letter. -/
theorem fold_letter {c l : UInt8} (hc : inWord c = true) (hl : isSmall l = true) :
    fold l = fold c ↔ tolower c = l := by
  rw [fold_small l hl]
  rcases fold_kinds c hc with heq | ⟨hfold, hlower⟩
  · rw [heq]
    exact eq_comm
  · constructor
    · intro h
      rw [← h, hl] at hfold
      exact absurd hfold (by decide)
    · intro h
      rw [h, hl] at hlower
      exact absurd hlower (by decide)

/-- Nothing in a word folds to what the padding folds to. -/
theorem fold_padding : ∀ c : UInt8, inWord c = true → fold c ≠ fold 0 :=
  forall_byte (by decide +kernel)

/-! ### One case -/

/-- A case as it stands in the table: small letters, of which the first four are in front. -/
structure Keyword.Spelled (keyword : Keyword) : Prop where
  small : keyword.word.all isSmall = true
  head : keyword.head = keyword.word.take 4
  rest : keyword.rest = keyword.word.drop 4
  length : keyword.word.length = keyword.length

instance (keyword : Keyword) : Decidable keyword.Spelled :=
  decidable_of_iff (_ ∧ _ ∧ _ ∧ _)
    ⟨fun ⟨h₁, h₂, h₃, h₄⟩ => ⟨h₁, h₂, h₃, h₄⟩, fun ⟨h₁, h₂, h₃, h₄⟩ => ⟨h₁, h₂, h₃, h₄⟩⟩

/-- The folded bytes agree where the letters do, and where one text is longer they differ. -/
theorem folded_iff (n : Nat) (letters word : List UInt8) (hletters : ∀ l ∈ letters, isSmall l = true)
    (hword : ∀ c ∈ word, inWord c = true) (hn : letters.length ≤ n) (hn' : word.length ≤ n) :
    (letters ++ List.replicate (n - letters.length) 0).map fold
        = (word ++ List.replicate (n - word.length) 0).map fold ↔
      word.map tolower = letters := by
  induction n generalizing letters word with
  | zero =>
    rw [List.eq_nil_of_length_eq_zero (Nat.le_zero.mp hn),
      List.eq_nil_of_length_eq_zero (Nat.le_zero.mp hn')]
    simp
  | succ n ih =>
    cases letters with
    | nil =>
      cases word with
      | nil => simp
      | cons c word =>
        -- a byte of the word beside the padding
        have hc := fold_padding c (hword c (List.mem_cons_self ..))
        simp [List.replicate_succ, Ne.symm hc]
    | cons l letters =>
      have hl := hletters l (List.mem_cons_self ..)
      cases word with
      | nil =>
        -- the padding beside a letter
        have hpad : fold l ≠ fold 0 := by
          intro h
          rw [fold_small l hl] at h
          rw [h] at hl
          exact absurd hl (by decide)
        simp [List.replicate_succ, hpad]
      | cons c word =>
        have hrest := ih letters word (fun l h => hletters l (List.mem_cons_of_mem _ h))
          (fun c h => hword c (List.mem_cons_of_mem _ h)) (Nat.le_of_succ_le_succ hn)
          (Nat.le_of_succ_le_succ hn')
        have hfirst := fold_letter (hword c (List.mem_cons_self ..)) hl
        simp only [List.length_cons, Nat.succ_sub_succ, List.cons_append, List.map_cons,
          List.cons.injEq]
        rw [hfirst, hrest]

/-- A shorter word is filled up with zeros. -/
theorem prefixOf_take (word : List UInt8) : prefixOf word =
    (word.take 4 ++ List.replicate (4 - (word.take 4).length) 0).map fold := by
  have hlength : 4 - (word.take 4).length = 4 - word.length := by
    rw [List.length_take]
    omega
  unfold prefixOf
  rw [hlength]

/-- A small letter is small. -/
theorem tolower_small : ∀ l : UInt8, isSmall l = true → tolower l = l :=
  forall_byte (by decide +kernel)

/-- A text equals small letters exactly if it is folded to them. -/
theorem sameText_small {text letters : List UInt8} (h : ∀ l ∈ letters, isSmall l = true) :
    sameText text letters = true ↔ text.map tolower = letters := by
  have hsmall : letters.map tolower = letters :=
    calc letters.map tolower = letters.map id :=
          List.map_congr_left fun l hl => tolower_small l (h l hl)
      _ = letters := List.map_id letters
  unfold sameText
  rw [beq_iff_eq, hsmall]

/-- The test of one case: the first four bytes in the switch, and the rest in the comparison. -/
theorem Keyword.accepts_iff {keyword : Keyword} (h : keyword.Spelled) {word : List UInt8}
    (hword : ∀ c ∈ word, inWord c = true) :
    (prefixOf keyword.head = prefixOf word ∧ word.length = keyword.length ∧
        (keyword.length ≤ 4 ∨ sameText (word.drop 4) keyword.rest = true)) ↔
      word.map tolower = keyword.word := by
  have hsmall := List.all_eq_true.mp h.small
  have hhead : keyword.head.length ≤ 4 := by
    rw [h.head, List.length_take]
    exact Nat.min_le_left ..
  -- the switch compares the first four bytes
  have hfront : prefixOf keyword.head = prefixOf word ↔
      (word.map tolower).take 4 = keyword.word.take 4 := by
    rw [prefixOf_take, prefixOf_take word, List.take_of_length_le hhead, ← List.map_take, h.head]
    refine folded_iff 4 _ _ (fun l hl => hsmall l (List.mem_of_mem_take hl))
      (fun c hc => hword c (List.mem_of_mem_take hc)) ?_ ?_
    · exact List.length_take_le ..
    · exact List.length_take_le ..
  -- the comparison is about the bytes behind them
  have hback : sameText (word.drop 4) keyword.rest = true ↔
      (word.map tolower).drop 4 = keyword.word.drop 4 := by
    rw [h.rest, ← List.map_drop]
    exact sameText_small fun l hl => hsmall l (List.mem_of_mem_drop hl)
  rw [hfront, hback]
  constructor
  · rintro ⟨htake, hlength, hdrop⟩
    have hdrop : (word.map tolower).drop 4 = keyword.word.drop 4 := by
      rcases hdrop with hshort | hdrop
      · -- a word of four letters has nothing behind them
        rw [List.drop_of_length_le (by rw [List.length_map]; omega),
          List.drop_of_length_le (by rw [h.length]; exact hshort)]
      · exact hdrop
    rw [← List.take_append_drop 4 (word.map tolower), htake, hdrop, List.take_append_drop]
  · intro heq
    rw [heq]
    refine ⟨rfl, ?_, Or.inr rfl⟩
    rw [← h.length, ← heq, List.length_map]

/-! ### The table -/

/-- Every keyword of the table is spelled as its token says. -/
theorem keywords_spelled : ∀ keyword ∈ keywords,
    keyword.Spelled ∧ keyword.token.spelling = some keyword.word ∧
      keyword.length ≤ KEYWORD_MAX := by
  decide +kernel

/-- The cases of the switch are apart. -/
theorem keywords_apart : ∀ a ∈ keywords, ∀ b ∈ keywords,
    prefixOf a.head = prefixOf b.head → a = b := by
  decide +kernel

/-- Every word of the language has a case. -/
theorem keywords_complete (type : TokenType) (word : List UInt8) (h : type.spelling = some word) :
    ∃ keyword ∈ keywords, keyword.token = type ∧ keyword.word = word := by
  have hall : type.spelling.all (fun word =>
      keywords.any fun keyword => decide (keyword.token = type ∧ keyword.word = word)) = true := by
    cases type <;> decide +kernel
  rw [h, Option.all_some, List.any_eq_true] at hall
  obtain ⟨keyword, hmem, heq⟩ := hall
  exact ⟨keyword, hmem, of_decide_eq_true heq⟩

/-- What the switch finds is the case with these first four bytes, if there is one. -/
theorem find_keyword {keyword : Keyword} (hmem : keyword ∈ keywords) {word : List UInt8}
    (h : prefixOf keyword.head = prefixOf word) :
    keywords.find? (fun k => prefixOf k.head == prefixOf word) = some keyword := by
  have hfound : (keywords.find? fun k => prefixOf k.head == prefixOf word).isSome = true := by
    rw [List.find?_isSome]
    exact ⟨keyword, hmem, beq_iff_eq.mpr h⟩
  obtain ⟨other, hother⟩ := Option.isSome_iff_exists.mp hfound
  have hmatch : prefixOf other.head = prefixOf word := by
    have := List.find?_some hother
    exact beq_iff_eq.mp this
  have hsame := keywords_apart other (List.mem_of_find?_eq_some hother) keyword hmem
    (hmatch.trans h.symm)
  rw [hother, hsame]

/-- A word folded to a keyword's spelling is that keyword. -/
theorem classifyWord_of_spelled {keyword : Keyword} (hmem : keyword ∈ keywords) {word : List UInt8}
    (hword : ∀ c ∈ word, inWord c = true) (h : word.map tolower = keyword.word) :
    classifyWord word = keyword.token := by
  obtain ⟨hspelled, -, hmax⟩ := keywords_spelled keyword hmem
  obtain ⟨hhead, hlength, hrest⟩ := (Keyword.accepts_iff hspelled hword).mpr h
  unfold classifyWord
  rw [if_neg (by omega), find_keyword hmem hhead]
  exact if_pos ⟨hlength, hrest⟩

/-- A word is an identifier, or it is spelled as the keyword that it is taken for. -/
theorem classifyWord_cases {word : List UInt8} (hword : ∀ c ∈ word, inWord c = true) :
    classifyWord word = .TOKEN_IDENTIFIER ∨
      ∃ keyword ∈ keywords, classifyWord word = keyword.token ∧ word.map tolower = keyword.word := by
  unfold classifyWord
  split
  · exact Or.inl rfl
  · cases hfind : keywords.find? fun k => prefixOf k.head == prefixOf word with
    | none => exact Or.inl rfl
    | some keyword =>
      have hmem := List.mem_of_find?_eq_some hfind
      have hmatch : prefixOf keyword.head = prefixOf word := by
        have := List.find?_some hfind
        exact beq_iff_eq.mp this
      dsimp only
      split
      · next htest =>
        refine Or.inr ⟨keyword, hmem, rfl, ?_⟩
        exact (Keyword.accepts_iff (keywords_spelled keyword hmem).1 hword).mp ⟨hmatch, htest⟩
      · exact Or.inl rfl

/-- A word of letters, digits, underscores and dots is the keyword that it spells, large letters
or small, and an identifier when it spells none. -/
theorem classifyWord_exact (word : List UInt8) (hword : ∀ c ∈ word, inWord c = true) :
    (∀ (type : TokenType) (spelling : List UInt8), type.spelling = some spelling →
      (classifyWord word = type ↔ word.map tolower = spelling)) ∧
    (classifyWord word = .TOKEN_IDENTIFIER ↔
      ∀ (type : TokenType) (spelling : List UInt8), type.spelling = some spelling →
        word.map tolower ≠ spelling) := by
  constructor
  · intro type spelling htype
    obtain ⟨keyword, hmem, htoken, hspelled⟩ := keywords_complete type spelling htype
    constructor
    · intro h
      rcases classifyWord_cases hword with hident | ⟨other, hother, heq, hlower⟩
      · -- an identifier has no spelling
        rw [← h, hident] at htype
        cases htype
      · have hsome := (keywords_spelled other hother).2.1
        rw [← heq, h, htype, Option.some.injEq] at hsome
        rw [hlower, hsome]
    · intro h
      rw [← htoken]
      exact classifyWord_of_spelled hmem hword (h.trans hspelled.symm)
  · constructor
    · intro h type spelling htype hlower
      obtain ⟨keyword, hmem, htoken, hspelled⟩ := keywords_complete type spelling htype
      have hkeyword := classifyWord_of_spelled hmem hword (hlower.trans hspelled.symm)
      rw [← htoken, ← hkeyword, h] at htype
      cases htype
    · intro h
      rcases classifyWord_cases hword with hident | ⟨keyword, hmem, -, hlower⟩
      · exact hident
      · exact absurd hlower (h _ _ (keywords_spelled keyword hmem).2.1)

/-- A keyword in mixed case, and a word that differs in one byte. -/
theorem classifyWord_exact_rollback :
    classifyWord (ascii "RollBack") = .TOKEN_KEYWORD_ROLLBACK ∧
      classifyWord (ascii "roll_ack") = .TOKEN_IDENTIFIER :=
  ⟨((classifyWord_exact (ascii "RollBack") (by decide +kernel)).1 _ (ascii "rollback") rfl).mpr
      (by decide),
    (classifyWord_exact (ascii "roll_ack") (by decide +kernel)).2.mpr (by
      intro type spelling
      cases type <;> simp only [TokenType.spelling] <;> intro h <;> cases h <;> decide)⟩

end DatabaseEngine
