import DatabaseEngine.Proofs.Wire.Scan
import DatabaseEngine.Spec.Statements

/-!
# `DatabaseEngine.Proofs.Wire.Splitting`: the statements that are cut are those the lexer sees

* `nextStatement_cuts`: the cut answers the next piece of the text that is not blank, and
  overflows at the first one that is too long.
* `statementsRead_cut`: a text without comments is tokenised piece by piece.
* `tokensBehindComments_eq`: removing the comments changes none of the tokens.
* `runQuery_splits`: what a Query message runs.
-/

set_option autoImplicit false

namespace DatabaseEngine

open Library

/-! ### Reading with an error -/

/-- A text that gives these tokens, and then this error. -/
inductive Fails : List UInt8 → List Token → ErrorCode → Prop
  | refuse {text : List UInt8} {code : ErrorCode} (h : lexOne text = .refuse code) :
      Fails text [] code
  | skip {text rest : List UInt8} {tokens : List Token} {code : ErrorCode}
      (h : lexOne text = .skip rest) (more : Fails rest tokens code) : Fails text tokens code
  | token {text rest : List UInt8} {token : Token} {tokens : List Token} {code : ErrorCode}
      (h : lexOne text = .token token rest) (more : Fails rest tokens code) :
      Fails text (token :: tokens) code

/-- What a scan makes of one token. -/
theorem Scans.token {β : Type} {S : Bool → List UInt8 → β} (h : Scans S)
    (hsemi : ∀ r, S false (59 :: r) = S false r) {text rest : List UInt8} {t : Token}
    (hone : lexOne text = .token t rest) : S false text = S false rest := by
  rcases lexOne_token hone with ⟨w, -, rfl, hw, -⟩ | ⟨rfl, hhead, -⟩ | ⟨rfl, -⟩ |
    ⟨more, s, rfl, hread, -⟩
  · exact h.quiets hw rest
  · exact h.minus rest hhead
  · exact hsemi rest
  · have hpass := h.string 0 more hread []
    rw [List.append_nil, List.append_nil] at hpass
    rw [h.quote, Bool.not_false, hpass]

/-- What the lexer skips changes nothing of a scan. -/
theorem Scans.skip {β : Type} {S : Bool → List UInt8 → β} (h : Scans S) {text rest : List UInt8}
    (hone : lexOne text = .skip rest) : S false text = S false rest := by
  obtain ⟨c, rfl, hc⟩ := lexOne_skip hone
  exact h.blank c rest hc

/-- A text without comments is read to its end, or to an error. -/
theorem reads_or_fails {text : List UInt8} (h : unread false text = []) :
    (∃ ts, Lexes text ts) ∨ ∃ ts code, Fails text ts code := by
  induction hlen : text.length using Nat.strongRecOn generalizing text with
  | ind n ih =>
    subst hlen
    cases hone : lexOne text with
    | stop =>
      rcases lexOne_stop hone with rfl | ⟨more, rfl⟩
      · exact Or.inl ⟨[], .nil⟩
      · exact absurd h (by simp [unread])
    | refuse code => exact Or.inr ⟨[], code, .refuse hone⟩
    | skip rest =>
      rw [unread_scans.skip hone] at h
      rcases ih _ (lexOne_shrinks (Or.inl hone)) h rfl with ⟨ts, hts⟩ | ⟨ts, code, hts⟩
      · exact Or.inl ⟨ts, .skip hone hts⟩
      · exact Or.inr ⟨ts, code, .skip hone hts⟩
    | token t rest =>
      rw [unread_scans.token (by simp [unread]) hone] at h
      rcases ih _ (lexOne_shrinks (Or.inr ⟨t, hone⟩)) h rfl with ⟨ts, hts⟩ | ⟨ts, code, hts⟩
      · exact Or.inl ⟨t :: ts, .token hone hts⟩
      · exact Or.inr ⟨t :: ts, code, .token hone hts⟩

/-- A string that is open at the end of the text is one for the scans too. -/
theorem readString_inString (n : Nat) (a : List UInt8)
    (h : readString n a = .error .UNTERMINATED_STRING) : inString true a = true := by
  fun_induction readString n a with
  | case1 n => rfl
  | case2 n more hlong => exact absurd h (by simp)
  | case3 n more hshort ih => exact ih (consText_unterminated.mp h)
  | case4 n more hnot => exact absurd h (by simp)
  | case5 n c more hpair hquote hlong => exact absurd h (by simp)
  | case6 n c more hpair hquote hshort ih =>
    rw [inString, if_neg fun hc => hquote hc]
    exact ih (consText_unterminated.mp h)

/-- A text that is never closed leaves the scan inside it. -/
theorem Fails.inString {a : List UInt8} {ts : List Token}
    (h : Fails a ts .UNTERMINATED_STRING) : DatabaseEngine.inString false a = true := by
  generalize hcode : ErrorCode.UNTERMINATED_STRING = code at h
  induction h with
  | refuse hone =>
    subst hcode
    obtain ⟨more, rfl, hread⟩ := lexOne_unterminated hone
    exact readString_inString 0 more hread
  | skip hone _ ih => rw [inString_scans.skip hone, ih hcode]
  | token hone _ ih => rw [inString_scans.token (by simp [DatabaseEngine.inString]) hone, ih hcode]

/-- A text that is lexed leaves the scan outside. -/
theorem Lexes.inString {a : List UInt8} {ts : List Token} (h : Lexes a ts) :
    DatabaseEngine.inString false a = false := by
  induction h with
  | nil => rfl
  | skip hone _ ih => rw [inString_scans.skip hone, ih]
  | token hone _ ih => rw [inString_scans.token (by simp [DatabaseEngine.inString]) hone, ih]

/-- Without a semicolon the tokens before a failure have none. -/
theorem Fails.no_semicolon {a : List UInt8} {ts : List Token} {code : ErrorCode}
    (h : Fails a ts code) (hsemi : hasSemicolon false a = false) :
    ∀ t ∈ ts, t.type ≠ .TOKEN_SEMICOLON := by
  induction h with
  | refuse => simp
  | skip hone _ ih => exact ih (by rw [← hasSemicolon_scans.skip hone]; exact hsemi)
  | token hone _ ih =>
    obtain ⟨hrest, htype⟩ := token_no_semicolon hone hsemi
    intro u hu
    rcases List.mem_cons.mp hu with rfl | hu
    · exact htype
    · exact ih hrest u hu

/-! ### The tokens of a text -/

/-- There are no tokens in nothing. -/
theorem tokensFrom_nil (behind : Bool) (fuel : Nat) : tokensFrom behind fuel [] = ([], none) := by
  induction fuel with
  | zero => rfl
  | succ fuel ih => cases behind <;> simp [tokensFrom, lexOne, ih]

/-- The line behind a comment is shorter than the comment. -/
theorem dropWhile_comment (more : List UInt8) :
    ((45 :: 45 :: more).dropWhile (· ≠ 10)).length ≤ more.length := by
  simpa using (List.dropWhile_sublist (l := more) fun c : UInt8 => !decide (c = 10)).length_le

/-- Fuel beyond the length of the text changes nothing. -/
theorem tokensFrom_fuel (behind : Bool) {fuel fuel' : Nat} {text : List UInt8}
    (h : text.length < fuel) (h' : text.length < fuel') :
    tokensFrom behind fuel text = tokensFrom behind fuel' text := by
  induction fuel generalizing text fuel' with
  | zero => omega
  | succ fuel ih =>
    obtain ⟨fuel', rfl⟩ : ∃ n, fuel' = n + 1 := ⟨fuel' - 1, by omega⟩
    unfold tokensFrom
    cases hone : lexOne text with
    | stop =>
      rcases lexOne_stop hone with rfl | ⟨more, rfl⟩
      · simp only [List.dropWhile_nil, tokensFrom_nil]
      · have hshort := dropWhile_comment more
        simp only [List.length_cons] at h h'
        simp only [@ih fuel' ((45 :: 45 :: more).dropWhile (· ≠ 10)) (by omega) (by omega)]
    | refuse code => rfl
    | skip rest =>
      have := lexOne_shrinks (Or.inl hone)
      exact ih (by omega) (by omega)
    | token t rest =>
      have := lexOne_shrinks (Or.inr ⟨t, hone⟩)
      simp only [@ih fuel' rest (by omega) (by omega)]

/-- The tokens of a text with fuel enough. -/
def streamOf (behind : Bool) (text : List UInt8) : List Token × Option ErrorCode :=
  tokensFrom behind (text.length + 1) text

/-- One turn of reading the tokens. -/
theorem streamOf_eq (behind : Bool) (text : List UInt8) :
    streamOf behind text =
      match lexOne text with
      | .stop => if behind then streamOf behind (text.dropWhile (· ≠ 10)) else ([], none)
      | .skip rest => streamOf behind rest
      | .refuse code => ([], some code)
      | .token t rest => (t :: (streamOf behind rest).1, (streamOf behind rest).2) := by
  rw [streamOf, tokensFrom]
  cases hone : lexOne text with
  | stop =>
    rcases lexOne_stop hone with rfl | ⟨more, rfl⟩
    · simp only [List.dropWhile_nil, streamOf, tokensFrom_nil]
    · have hshort := dropWhile_comment more
      simp only [List.length_cons, streamOf]
      rw [tokensFrom_fuel behind (by omega) (Nat.lt_succ_self _)]
  | refuse code => rfl
  | skip rest =>
    have := lexOne_shrinks (Or.inl hone)
    exact tokensFrom_fuel behind (by omega) (by omega)
  | token t rest =>
    have := lexOne_shrinks (Or.inr ⟨t, hone⟩)
    simp only [streamOf, tokensFrom_fuel behind (show rest.length < text.length by omega)
      (Nat.lt_succ_self _)]

/-- How the text behind may go on, so that the tokens in front of it stay as they are. -/
structure Continues (a b : List UInt8) : Prop where
  breaks : Breaks b
  mark : a.getLast? = some 45 → b.head? ≠ some 45

/-- What follows a text follows all that is left of it. -/
theorem Continues.rest {w a b : List UInt8} (h : Continues (w ++ a) b) : Continues a b where
  breaks := h.breaks
  mark hlast := h.mark (by rw [List.getLast?_append, hlast]; rfl)

/-- What is left behind a token is the back of the text. -/
theorem lexOne_suffix {text rest : List UInt8}
    (h : lexOne text = .skip rest ∨ ∃ t, lexOne text = .token t rest) :
    text ≠ [] ∧ ∃ w, text = w ++ rest := by
  rcases h with h | ⟨t, h⟩
  · obtain ⟨c, rfl, -⟩ := lexOne_skip h
    exact ⟨by simp, [c], rfl⟩
  · obtain ⟨w, hw, rfl, -⟩ := lexOne_bytes h
    exact ⟨by simp [hw], w, rfl⟩

/-- One token is the same with a continuation behind its text. -/
theorem Continues.lexOne {a b : List UInt8} (h : Continues a b) (ha : a ≠ [])
    (hopen : DatabaseEngine.lexOne a ≠ .refuse .UNTERMINATED_STRING) :
    DatabaseEngine.lexOne (a ++ b) = (DatabaseEngine.lexOne a).behind b :=
  lexOne_append ha h.breaks (fun hm => h.mark (by rw [hm.1]; rfl) hm.2) hopen

/-- The tokens of a continued text are those of both parts. -/
theorem Lexes.streamOf {a b : List UInt8} {ts : List Token} (h : Lexes a ts) (behind : Bool)
    (hb : Continues a b) :
    DatabaseEngine.streamOf behind (a ++ b)
      = (ts ++ (DatabaseEngine.streamOf behind b).1, (DatabaseEngine.streamOf behind b).2) := by
  induction h with
  | nil => rfl
  | @skip text rest ts hone _ ih =>
    obtain ⟨hne, w, heq⟩ := lexOne_suffix (Or.inl hone)
    have hturn := hb.lexOne hne (by simp [hone])
    rw [streamOf_eq, hturn, hone]
    exact ih (heq ▸ hb : Continues (w ++ rest) b).rest
  | @token text rest t ts hone _ ih =>
    obtain ⟨hne, w, heq⟩ := lexOne_suffix (Or.inr ⟨t, hone⟩)
    have hturn := hb.lexOne hne (by simp [hone])
    have hmore := ih (heq ▸ hb : Continues (w ++ rest) b).rest
    rw [streamOf_eq, hturn, hone]
    simp only [Lexed.behind, hmore, List.cons_append]

/-- A text that fails fails when it is continued. -/
theorem Fails.streamOf {a b : List UInt8} {ts : List Token} {code : ErrorCode}
    (h : Fails a ts code) (behind : Bool) (hb : Continues a b)
    (hopen : code = .UNTERMINATED_STRING → b = []) :
    DatabaseEngine.streamOf behind (a ++ b) = (ts, some code) := by
  induction h with
  | @refuse text code hone =>
    by_cases hcode : code = .UNTERMINATED_STRING
    · rw [hopen hcode, List.append_nil, streamOf_eq, hone]
    have hne : text ≠ [] := by
      rintro rfl
      exact absurd hone (by simp [DatabaseEngine.lexOne])
    have hturn := hb.lexOne hne (by simpa [hone] using hcode)
    rw [streamOf_eq, hturn, hone]
    rfl
  | @skip text rest ts code hone _ ih =>
    obtain ⟨hne, w, heq⟩ := lexOne_suffix (Or.inl hone)
    have hturn := hb.lexOne hne (by simp [hone])
    rw [streamOf_eq, hturn, hone]
    exact ih (heq ▸ hb : Continues (w ++ rest) b).rest hopen
  | @token text rest t ts code hone _ ih =>
    obtain ⟨hne, w, heq⟩ := lexOne_suffix (Or.inr ⟨t, hone⟩)
    have hturn := hb.lexOne hne (by simp [hone])
    have hmore := ih (heq ▸ hb : Continues (w ++ rest) b).rest hopen
    rw [streamOf_eq, hturn, hone]
    simp only [Lexed.behind, hmore]

/-- The lexer of the engine gives up at the error, or at one token too many. -/
theorem lexFrom_tokens (text : List UInt8) (tokens : List Token)
    (hmax : tokens.length ≤ MAX_TOKENS) :
    lexFrom text tokens
      = tokenised (tokens ++ (streamOf false text).1) (streamOf false text).2 := by
  induction hlen : text.length using Nat.strongRecOn generalizing text tokens with
  | ind n ih =>
    subst hlen
    rw [lexFrom_eq, streamOf_eq]
    cases hone : lexOne text with
    | stop =>
      show _ = tokenised (tokens ++ []) none
      rw [List.append_nil, tokenised, if_neg (by omega)]
    | refuse code =>
      show _ = tokenised (tokens ++ []) (some code)
      rw [List.append_nil, tokenised, if_neg (by omega)]
    | skip rest => exact ih _ (lexOne_shrinks (Or.inl hone)) rest tokens hmax rfl
    | token t rest =>
      dsimp only
      by_cases hfull : tokens.length = MAX_TOKENS
      · rw [if_pos hfull, tokenised.eq_def, if_pos]
        simp only [List.length_append, List.length_cons]
        omega
      · have hroom : (tokens ++ [t]).length ≤ MAX_TOKENS := by
          simp only [List.length_append, List.length_cons, List.length_nil]
          omega
        rw [if_neg hfull, ih _ (lexOne_shrinks (Or.inr ⟨t, hone⟩)) rest _ hroom rfl,
          List.append_assoc]
        rfl

/-- The lexer answers all tokens, or the first error. -/
theorem tokenizeStatement_tokens (text : List UInt8) :
    tokenizeStatement text = tokenised (allTokens text).1 (allTokens text).2 :=
  lexFrom_tokens text [] (by simp)

/-! ### The pieces of a text without comments -/

/-- A text is one piece, or a first piece and the text behind a semicolon. -/
theorem cutBytes_cases (q : Bool) (text : List UInt8) :
    (hasSemicolon q text = false ∧ cutBytes q text = [text]) ∨
      ∃ piece rest, text = piece ++ 59 :: rest ∧ hasSemicolon q piece = false ∧
        inString q piece = false ∧ cutBytes q text = piece :: cutBytes false rest := by
  induction text generalizing q with
  | nil => exact Or.inl ⟨rfl, rfl⟩
  | cons c text ih =>
    by_cases hcut : q = false ∧ c = 59
    · obtain ⟨rfl, rfl⟩ := hcut
      exact Or.inr ⟨[], text, rfl, rfl, rfl, by simp [cutBytes]⟩
    have hnot : (!q && c == 59) = false := by
      cases q with
      | true => rfl
      | false => simpa using hcut
    rw [cutBytes, if_neg hcut]
    rcases ih (if c = 39 then !q else q) with ⟨hsemi, hone⟩ | ⟨piece, rest, rfl, hsemi, hin, hmore⟩
    · refine Or.inl ⟨?_, by rw [hone]; rfl⟩
      rw [hasSemicolon, hnot, hsemi]
      rfl
    · refine Or.inr ⟨c :: piece, rest, rfl, ?_, hin, by rw [hmore]; rfl⟩
      rw [hasSemicolon, hnot, hsemi]
      rfl

/-- Without comments in the whole there are none in the parts. -/
theorem unread_append {q : Bool} {a b : List UInt8} (h : unread q (a ++ b) = []) :
    unread q a = [] ∧ unread (inString q a) b = [] := by
  induction a generalizing q with
  | nil => exact ⟨rfl, h⟩
  | cons c a ih =>
    rw [List.cons_append, unread] at h
    by_cases hmark : q = false ∧ c = 45 ∧ (a ++ b).head? = some 45
    · rw [if_pos hmark] at h
      exact absurd h (by simp)
    rw [if_neg hmark] at h
    obtain ⟨hfirst, hrest⟩ := ih h
    refine ⟨?_, hrest⟩
    rw [unread, if_neg, hfirst]
    rintro ⟨hq, hc, hhead⟩
    cases a with
    | nil => exact absurd hhead (by simp)
    | cons d a => exact hmark ⟨hq, hc, hhead⟩

/-- Nothing can follow any text. -/
theorem continues_nil (a : List UInt8) : Continues a [] where
  breaks c hc := absurd hc (by simp)
  mark _ := by simp

/-- A blank or a semicolon can follow any text. -/
theorem continues_cons (a rest : List UInt8) {c : UInt8} (hc : isspace c = true ∨ c = 59) :
    Continues a (c :: rest) where
  breaks := breaks_cons rest (hc.imp_right Or.inl)
  mark _ hhead := by
    obtain rfl : c = 45 := by simpa using hhead
    rcases hc with hc | hc
    · exact absurd hc (by decide)
    · exact absurd hc (by decide)

/-- The tokens of a text that is lexed. -/
theorem Lexes.allTokens {a : List UInt8} {ts : List Token} (h : Lexes a ts) :
    DatabaseEngine.allTokens a = (ts, none) := by
  have htokens := h.streamOf false (continues_nil a)
  rw [List.append_nil] at htokens
  exact htokens.trans (by simp [DatabaseEngine.streamOf, tokensFrom_nil])

/-- The tokens of a text that fails, and its error. -/
theorem Fails.allTokens {a : List UInt8} {ts : List Token} {code : ErrorCode}
    (h : Fails a ts code) : DatabaseEngine.allTokens a = (ts, some code) := by
  have htokens := h.streamOf false (continues_nil a) fun _ => rfl
  rwa [List.append_nil] at htokens

/-- A piece with nothing but blanks gives no token and no error, and no other does. -/
theorem allTokens_blank {piece : List UInt8} (h : unread false piece = []) :
    allTokens piece = ([], none) ↔ isBlank piece = true := by
  rw [isBlank, List.all_eq_true]
  constructor
  · intro hnone
    rcases reads_or_fails h with ⟨ts, hts⟩ | ⟨ts, code, hts⟩
    · obtain rfl : ts = [] := congrArg Prod.fst (hts.allTokens.symm.trans hnone)
      exact hts.blank
    · exact absurd (congrArg Prod.snd (hts.allTokens.symm.trans hnone)) (by simp)
  · intro hblank
    exact (lexes_blank hblank).allTokens

/-- The statement that one piece is. -/
theorem statementsRead_single {piece : List UInt8} (h : unread false piece = [])
    {ts : List Token} {error : Option ErrorCode} (htokens : allTokens piece = (ts, error))
    (hts : ∀ t ∈ ts, t.isSemicolon = false) :
    statementsRead (ts, error) = ([piece].filter fun p => !isBlank p).map tokenizeStatement := by
  have hone : ts.splitOnP Token.isSemicolon = [ts] := List.splitOnP_eq_singleton hts
  have hblank := allTokens_blank h
  rw [htokens] at hblank
  rw [statementsRead, hone]
  by_cases hnone : isBlank piece = true
  · obtain ⟨rfl, rfl⟩ := Prod.mk.inj (hblank.mpr hnone)
    simp [withError, hnone]
  · have hsome : ((ts, error) : List Token × Option ErrorCode) ≠ ([], none) := fun heq =>
      hnone (hblank.mp heq)
    simp [withError, hnone, hsome, tokenizeStatement_tokens, htokens]

/-- A first statement that is read to its end, and the others. -/
theorem statementsRead_cons {ts us : List Token} {error : Option ErrorCode} {t : Token}
    (hts : ∀ t ∈ ts, t.isSemicolon = false) (ht : t.isSemicolon = true) :
    statementsRead (ts ++ t :: us, error)
      = statementsRead (ts, none) ++ statementsRead (us, error) := by
  have hfirst : ts.splitOnP Token.isSemicolon = [ts] := List.splitOnP_eq_singleton hts
  obtain ⟨first, more, hmore⟩ :=
    List.exists_cons_of_ne_nil (List.splitOnP_ne_nil Token.isSemicolon us)
  simp only [statementsRead, List.splitOnP_append_cons_of_forall_mem hts t ht, hfirst, hmore,
    withError]
  rw [show (ts, none) :: withError error (first :: more)
      = [(ts, none)] ++ withError error (first :: more) from rfl, List.filter_append,
    List.map_append]

/-- A text without comments is tokenised piece by piece, up to the first error. -/
theorem statementsRead_cut {text : List UInt8} (h : unread false text = []) :
    statementsRead (allTokens text) <+:
        ((cutBytes false text).filter fun p => !isBlank p).map tokenizeStatement ∧
      ((allTokens text).2 = none →
        ((cutBytes false text).filter fun p => !isBlank p).map tokenizeStatement
          = statementsRead (allTokens text)) := by
  have hno : ∀ {ts : List Token}, (∀ t ∈ ts, t.type ≠ .TOKEN_SEMICOLON) →
      ∀ t ∈ ts, t.isSemicolon = false := by
    intro ts hts t ht
    simpa [Token.isSemicolon] using hts t ht
  induction hlen : text.length using Nat.strongRecOn generalizing text with
  | ind n ih =>
    subst hlen
    rcases cutBytes_cases false text with ⟨hsemi, hone⟩ | ⟨piece, rest, rfl, hsemi, hin, hmore⟩
    · -- the last piece
      have hread : ∀ {ts : List Token} {error : Option ErrorCode}, allTokens text = (ts, error) →
          (∀ t ∈ ts, t.type ≠ .TOKEN_SEMICOLON) →
          ((cutBytes false text).filter fun p => !isBlank p).map tokenizeStatement
            = statementsRead (allTokens text) := by
        intro ts error htokens hts
        rw [hone, htokens, statementsRead_single h htokens (hno hts)]
      rcases reads_or_fails h with ⟨ts, hts⟩ | ⟨ts, code, hts⟩
      · have heq := hread hts.allTokens (hts.no_semicolon hsemi)
        exact ⟨heq ▸ List.prefix_rfl, fun _ => heq⟩
      · have heq := hread hts.allTokens (hts.no_semicolon hsemi)
        exact ⟨heq ▸ List.prefix_rfl, fun _ => heq⟩
    · obtain ⟨hpiece, hbehind⟩ := unread_append h
      rw [hin] at hbehind
      have hrest : unread false rest = [] := by simpa [unread] using hbehind
      have hfollows : Continues piece (59 :: rest) := continues_cons piece rest (Or.inr rfl)
      rw [hmore, show piece :: cutBytes false rest = [piece] ++ cutBytes false rest from rfl,
        List.filter_append, List.map_append]
      rcases reads_or_fails hpiece with ⟨ts, hts⟩ | ⟨ts, code, hts⟩
      · -- the first statement is read, and the others behind it
        have hsingle := statementsRead_single hpiece hts.allTokens (hno (hts.no_semicolon hsemi))
        have hwhole : allTokens (piece ++ 59 :: rest)
            = (ts ++ ⟨.TOKEN_SEMICOLON, [59]⟩ :: (allTokens rest).1, (allTokens rest).2) := by
          refine (hts.streamOf false hfollows).trans ?_
          rw [streamOf_eq]
          rfl
        have hsplit := @statementsRead_cons ts (allTokens rest).1 (allTokens rest).2
          ⟨.TOKEN_SEMICOLON, [59]⟩ (hno (hts.no_semicolon hsemi)) rfl
        obtain ⟨hinit, hall⟩ := ih rest.length (by simp; omega) hrest rfl
        rw [hwhole, hsplit, hsingle]
        exact ⟨(List.prefix_append_right_inj _).mpr hinit, fun hnone => by rw [hall hnone]⟩
      · -- the error ends the last statement there is
        have hsingle := statementsRead_single hpiece hts.allTokens (hno (hts.no_semicolon hsemi))
        have hwhole : allTokens (piece ++ 59 :: rest) = (ts, some code) := by
          refine hts.streamOf false hfollows fun hcode => ?_
          subst hcode
          exact absurd hts.inString (by simp [hin])
        rw [hwhole, hsingle]
        exact ⟨List.prefix_append _ _, fun hnone => absurd hnone (by simp)⟩

/-! ### Removing the comments -/

/-- A comment ends with its line. -/
theorem withoutComments_comment (text : List UInt8) :
    withoutComments .comment text = withoutComments .plain (text.dropWhile (· ≠ 10)) := by
  induction text with
  | nil => rfl
  | cons c text ih =>
    by_cases hc : c = 10
    · subst hc
      simp [withoutComments]
    · rw [withoutComments, if_neg hc, ih, List.dropWhile_cons_of_pos (by simpa using hc)]

/-- Where a comment was, the text goes on with the end of its line. -/
theorem withoutComments_line (a text : List UInt8) :
    Continues a (withoutComments .plain (text.dropWhile (· ≠ 10))) := by
  cases hline : text.dropWhile (· ≠ 10) with
  | nil => exact continues_nil a
  | cons c rest =>
    have hhead := List.head?_dropWhile_not (fun c : UInt8 => decide (c ≠ 10)) text
    rw [hline] at hhead
    obtain rfl : c = 10 := by simpa using hhead
    rw [withoutComments, if_neg (by simp)]
    exact continues_cons a _ (Or.inl (by decide))

/-- A comment is not removed up to another one. -/
theorem withoutComments_head (text : List UInt8)
    (h : (withoutComments .plain text).head? = some 45) : text.head? = some 45 := by
  cases text with
  | nil => exact absurd h (by simp [withoutComments])
  | cons c text =>
    by_cases hmark : c = 45 ∧ text.head? = some 45
    · rw [hmark.1]
      rfl
    · rw [withoutComments, if_neg hmark] at h
      exact h

/-- Nothing that is left starts a comment. -/
theorem unread_withoutComments (m : Scan) (text : List UInt8) :
    unread (Copies.inText m) (withoutComments m text) = [] := by
  induction text generalizing m with
  | nil => cases m <;> rfl
  | cons c text ih =>
    cases m with
    | text =>
      have hnext := ih (if c = 39 then .plain else .text)
      rw [withoutComments, unread, if_neg (by simp [Copies.inText])]
      by_cases hc : c = 39
      · simpa [hc, Copies.inText] using hnext
      · simpa [hc, Copies.inText] using hnext
    | comment =>
      by_cases hc : c = 10
      · subst hc
        rw [withoutComments, if_pos rfl, unread, if_neg (by simp)]
        exact ih .plain
      · rw [withoutComments, if_neg hc]
        exact ih .comment
    | plain =>
      by_cases hmark : c = 45 ∧ text.head? = some 45
      · rw [withoutComments, if_pos hmark]
        exact ih .comment
      rw [withoutComments, if_neg hmark, unread]
      by_cases hc : c = 39
      · subst hc
        rw [if_neg (by simp)]
        exact ih .text
      · have hnot : ¬(Copies.inText .plain = false ∧ c = 45 ∧
            (withoutComments .plain text).head? = some 45) := fun h =>
          hmark ⟨h.2.1, withoutComments_head text h.2.2⟩
        rw [if_neg hc, if_neg hnot, if_neg hc]
        exact ih .plain

/-- How a text splits at its first comment. -/
structure UpToComment (q : Bool) (text a : List UInt8) : Prop where
  append : text = a ++ unread q text
  reads : unread q a = []
  copied : withoutComments (scanMode q) text = a ++ withoutComments .plain (unread q text)
  outside : unread q text = [] ∨ inString q a = false
  comment : IsComment (unread q text)
  mark : a.getLast? = some 45 → (unread q text).head? ≠ some 45

/-- Every text has a part up to its first comment. -/
theorem upToComment (q : Bool) (text : List UInt8) : ∃ a, UpToComment q text a := by
  induction text generalizing q with
  | nil => exact ⟨[], rfl, rfl, by cases q <;> rfl, Or.inl rfl, Or.inl rfl, by simp⟩
  | cons c text ih =>
    by_cases hmark : q = false ∧ c = 45 ∧ text.head? = some 45
    · have hall : unread q (c :: text) = c :: text := by rw [unread, if_pos hmark]
      obtain ⟨rfl, rfl, hhead⟩ := hmark
      obtain ⟨more, rfl⟩ := List.head?_eq_some_iff.mp hhead
      refine ⟨[], by rw [hall]; rfl, rfl, by rw [hall]; rfl, Or.inr rfl, ?_, by simp⟩
      rw [hall]
      exact Or.inr ⟨more, rfl⟩
    obtain ⟨a, h⟩ := ih (if c = 39 then !q else q)
    have hrest : unread q (c :: text) = unread (if c = 39 then !q else q) text := by
      rw [unread, if_neg hmark]
    refine ⟨c :: a, by rw [hrest, List.cons_append, ← h.append], ?_, ?_, ?_, hrest ▸ h.comment, ?_⟩
    · rw [unread, if_neg, h.reads]
      rintro ⟨hq, hc, hhead⟩
      refine hmark ⟨hq, hc, ?_⟩
      rw [h.append]
      cases a with
      | nil => exact absurd hhead (by simp)
      | cons d a => exact hhead
    · have hmode : scanMode (if c = 39 then !q else q)
          = if q then (if c = 39 then .plain else .text) else (if c = 39 then .text else .plain) := by
        cases q <;> by_cases hc : c = 39 <;> simp [scanMode, hc]
      rw [hrest, List.cons_append, ← h.copied, hmode]
      cases q with
      | true => rfl
      | false =>
        show withoutComments .plain (c :: text) = _
        rw [withoutComments, if_neg fun hm => hmark ⟨rfl, hm⟩]
        rfl
    · rw [hrest, inString]
      exact h.outside
    · intro hlast hhead
      rw [hrest] at hhead
      cases a with
      | nil =>
        obtain rfl : c = 45 := by simpa using hlast
        have hq : q = false := by
          rcases h.outside with hnone | hin
          · rw [hnone] at hhead
            exact absurd hhead (by simp)
          · simpa [inString] using hin
        have htext : text.head? = some 45 := by
          rw [h.append]
          exact hhead
        exact hmark ⟨hq, rfl, htext⟩
      | cons d a => exact h.mark (by rwa [List.getLast?_cons_cons] at hlast) hhead

/-- Removing the comments changes none of the tokens. -/
theorem tokensBehindComments_eq (text : List UInt8) :
    tokensBehindComments text = allTokens (withoutComments .plain text) := by
  show streamOf true text = streamOf false (withoutComments .plain text)
  induction hlen : text.length using Nat.strongRecOn generalizing text with
  | ind n ih =>
    subst hlen
    obtain ⟨a, h⟩ := upToComment false text
    have hfollows : Continues a (unread false text) := ⟨h.comment.breaks, h.mark⟩
    -- the text without comments goes on with the line behind the first
    have hline : Continues a (withoutComments .plain (unread false text)) ∧
        streamOf true (unread false text)
          = streamOf false (withoutComments .plain (unread false text)) := by
      rcases h.comment with hnone | ⟨more, hmore⟩
      · rw [hnone]
        exact ⟨continues_nil a, by simp [withoutComments, streamOf, tokensFrom_nil]⟩
      · have hshort := dropWhile_comment more
        have hlength := congrArg List.length h.append
        rw [hmore, List.length_append, List.length_cons, List.length_cons] at hlength
        have hcut : withoutComments .plain (45 :: 45 :: more)
            = withoutComments .plain ((45 :: 45 :: more).dropWhile (· ≠ 10)) := by
          rw [withoutComments, if_pos (by simp), withoutComments_comment,
            List.dropWhile_cons_of_pos (by decide), List.dropWhile_cons_of_pos (by decide),
            List.dropWhile_cons_of_pos (by decide)]
        have hstop : lexOne (45 :: 45 :: more) = .stop := by
          rw [lexOne, if_neg (by decide), if_pos (by simp)]
        rw [hmore, hcut, streamOf_eq true, hstop]
        exact ⟨withoutComments_line a _, ih _ (by omega) _ rfl⟩
    have hwhole : withoutComments .plain text = a ++ withoutComments .plain (unread false text) :=
      h.copied
    have hsplit : streamOf true text = streamOf true (a ++ unread false text) :=
      congrArg (streamOf true) h.append
    rw [hwhole, hsplit]
    rcases reads_or_fails h.reads with ⟨ts, hts⟩ | ⟨ts, code, hts⟩
    · rw [hts.streamOf true hfollows, hts.streamOf false hline.1, hline.2]
    · have hopen : code = .UNTERMINATED_STRING → unread false text = [] := by
        rintro rfl
        rcases h.outside with hnone | hin
        · exact hnone
        · exact absurd hts.inString (by simp [hin])
      rw [hts.streamOf true hfollows hopen, hts.streamOf false hline.1]
      intro hcode
      rw [hopen hcode]
      rfl

/-! ### The cut -/

/-- The pieces of the text from where a scan stands. -/
def piecesFrom (m : Scan) (text : List UInt8) : List (List UInt8) :=
  cutBytes (Copies.inText m) (withoutComments m text)

/-- A byte that is copied goes to the front of the first piece. -/
theorem piecesFrom_copy {m m' : Scan} {c : UInt8} {text : List UInt8}
    (hcopy : withoutComments m (c :: text) = c :: withoutComments m' text)
    (hcut : ¬(Copies.inText m = false ∧ c = 59))
    (hmode : Copies.inText m' = if c = 39 then !Copies.inText m else Copies.inText m) :
    piecesFrom m (c :: text) = (piecesFrom m' text).modifyHead (c :: ·) := by
  rw [piecesFrom, hcopy, cutBytes, if_neg hcut, piecesFrom, hmode]

/-- What the cut answers about the first piece: `piece` is the rest of it behind `out`. -/
def Answers (size : Nat) (any : Bool) (out text piece : List UInt8) (others : List (List UInt8))
    (answer : Next) : Prop :=
  if size ≤ (out ++ piece).length then answer = .overflow
  else
    ∃ rest, (others = [] ∧ rest = [] ∨ others = pieces rest ∧ rest.length < text.length) ∧
      answer = if any || !isBlank piece then .statement (out ++ piece) rest
        else nextStatement size .plain false [] rest

/-- One byte more of the first piece is copied. -/
theorem Answers.copy {size : Nat} {any : Bool} {out text piece : List UInt8} {c : UInt8}
    {others : List (List UInt8)} {answer : Next}
    (h : Answers size (any || !isspace c) (out ++ [c]) text piece others answer) :
    Answers size any out (c :: text) (c :: piece) others answer := by
  unfold Answers at h ⊢
  rw [show out ++ [c] ++ piece = out ++ c :: piece by simp] at h
  split at h
  · rwa [if_pos ‹_›]
  rw [if_neg ‹_›]
  obtain ⟨rest, hothers, hanswer⟩ := h
  have hblank : isBlank (c :: piece) = (isspace c && isBlank piece) := rfl
  refine ⟨rest, hothers.imp_right fun h => ⟨h.1, by simp; omega⟩, ?_⟩
  rw [hanswer, hblank, Bool.not_and, Bool.or_assoc]

/-- A byte of a comment makes no difference. -/
theorem Answers.drop {size : Nat} {any : Bool} {out text piece : List UInt8}
    {others : List (List UInt8)} {answer : Next} (c : UInt8)
    (h : Answers size any out text piece others answer) :
    Answers size any out (c :: text) piece others answer := by
  unfold Answers at h ⊢
  split at h
  · rwa [if_pos ‹_›]
  rw [if_neg ‹_›]
  obtain ⟨rest, hothers, hanswer⟩ := h
  exact ⟨rest, hothers.imp_right fun h => ⟨h.1, by simp; omega⟩, hanswer⟩

/-- A byte that does not fit ends the cut. -/
theorem answers_overflow {size : Nat} {any : Bool} {out text piece : List UInt8}
    {others : List (List UInt8)} (c : UInt8) (h : size ≤ out.length + 1) :
    Answers size any out text (c :: piece) others .overflow := by
  unfold Answers
  rw [if_pos (by simp; omega)]

/-- The splitter answers the first piece, or that it does not fit. -/
theorem nextStatement_piece (size : Nat) (m : Scan) (any : Bool) {out text piece : List UInt8}
    {others : List (List UInt8)} (hroom : out.length < size) (hany : m = .text → any = true)
    (hpieces : piecesFrom m text = piece :: others) :
    Answers size any out text piece others (nextStatement size m any out text) := by
  induction text generalizing m any out piece with
  | nil =>
    obtain ⟨rfl, rfl⟩ : [] = piece ∧ [] = others := by
      cases m <;> simpa [piecesFrom, withoutComments, cutBytes] using hpieces
    have hnil : nextStatement size m any out [] = if any then .statement out [] else .finish := by
      cases m <;> rw [nextStatement]
    unfold Answers
    rw [if_neg (by simpa using hroom), hnil]
    refine ⟨[], Or.inl ⟨rfl, rfl⟩, ?_⟩
    cases any <;> simp [isBlank, nextStatement]
  | cons c text ih =>
    -- a copied byte, and the answer for the rest of the text
    have hcopy : ∀ {m' : Scan}, withoutComments m (c :: text) = c :: withoutComments m' text →
        ¬(Copies.inText m = false ∧ c = 59) →
        (Copies.inText m' = if c = 39 then !Copies.inText m else Copies.inText m) →
        (m' = .text → (any || !isspace c) = true) →
        Answers size any out (c :: text) piece others
          (if size ≤ out.length + 1 then .overflow
            else nextStatement size m' (any || !isspace c) (out ++ [c]) text) := by
      intro m' hwithout hcut hmode hnext
      rw [piecesFrom_copy hwithout hcut hmode] at hpieces
      obtain ⟨first, more, hfirst⟩ : ∃ first more, piecesFrom m' text = first :: more := by
        cases hcase : piecesFrom m' text with
        | nil => rw [hcase] at hpieces; exact absurd hpieces (by simp)
        | cons first more => exact ⟨first, more, rfl⟩
      rw [hfirst] at hpieces
      obtain ⟨rfl, rfl⟩ : c :: first = piece ∧ more = others := by simpa using hpieces
      by_cases hfull : size ≤ out.length + 1
      · rw [if_pos hfull]
        exact answers_overflow c hfull
      · rw [if_neg hfull]
        exact (ih m' _ (by simp; omega) hnext hfirst).copy
    cases m with
    | text =>
      obtain rfl := hany rfl
      by_cases hc : c = 39
      · subst hc
        rw [nextStatement_quote]
        exact @hcopy .plain rfl (by simp [Copies.inText]) rfl (by simp)
      · rw [nextStatement_inside size true out text hc]
        exact @hcopy .text (by simp [withoutComments, hc]) (by simp [Copies.inText])
          (by simp [hc, Copies.inText]) (by simp)
    | comment =>
      by_cases hc : c = 10
      · subst hc
        rw [nextStatement, if_neg (by simp)]
        have := @hcopy .plain (by simp [withoutComments]) (by simp) (by simp [Copies.inText])
          (by simp)
        simpa [show isspace 10 = true by decide] using this
      · rw [nextStatement, if_pos hc]
        have hsame : piecesFrom .comment (c :: text) = piecesFrom .comment text := by
          simp [piecesFrom, withoutComments, hc]
        exact (ih .comment any hroom (by simp) (hsame ▸ hpieces)).drop c
    | plain =>
      by_cases hmark : c = 45 ∧ text.head? = some 45
      · obtain ⟨rfl, hhead⟩ := hmark
        rw [nextStatement, if_neg (by simp), if_pos ⟨rfl, hhead⟩]
        have hsame : piecesFrom .plain (45 :: text) = piecesFrom .comment text := by
          simp [piecesFrom, withoutComments, hhead, Copies.inText]
        exact (ih .comment any hroom (by simp) (hsame ▸ hpieces)).drop 45
      by_cases hsemi : c = 59
      · subst hsemi
        -- the piece ends here
        have hcut : piecesFrom .plain (59 :: text) = [] :: pieces text := by
          simp [piecesFrom, withoutComments, cutBytes, Copies.inText, pieces]
        obtain ⟨rfl, rfl⟩ : [] = piece ∧ pieces text = others := by
          simpa using hcut.symm.trans hpieces
        unfold Answers
        rw [if_neg (by simpa using hroom)]
        refine ⟨text, Or.inr ⟨rfl, by simp⟩, ?_⟩
        cases any <;> simp [nextStatement, isBlank]
      rw [nextStatement_plain size any out text hmark hsemi]
      by_cases hc : c = 39
      · subst hc
        exact @hcopy .text (by simp [withoutComments]) (by simp) rfl
          fun _ => by simp [show isspace 39 = false by decide]
      · rw [show scanMode (decide (c = 39)) = .plain by simp [scanMode, hc]]
        exact @hcopy .plain (by rw [withoutComments, if_neg hmark, if_neg hc])
          (fun h => hsemi h.2) (by simp [hc, Copies.inText]) (by simp)

/-- A piece that is passed over without a word: it fits, and is no statement. -/
def Passes (size : Nat) (piece : List UInt8) : Prop := piece.length < size ∧ isBlank piece = true

/-- What the cut answers about a text: the first of its pieces that is a statement, with the text
behind it, or that the first one to matter does not fit. -/
def Cuts (size : Nat) (text : List UInt8) : Next → Prop
  | .finish => ∀ piece ∈ pieces text, Passes size piece
  | .overflow => ∃ blanks piece others, pieces text = blanks ++ piece :: others ∧
      (∀ blank ∈ blanks, Passes size blank) ∧ size ≤ piece.length
  | .statement piece rest => ∃ blanks others, pieces text = blanks ++ piece :: others ∧
      (∀ blank ∈ blanks, Passes size blank) ∧ piece.length < size ∧ isBlank piece = false ∧
        (others = [] ∧ rest = [] ∨ others = pieces rest ∧ rest.length < text.length)

/-- A piece that is passed over leaves the cut of the rest. -/
theorem Cuts.behind {size : Nat} {text rest piece : List UInt8} {answer : Next}
    (hpieces : pieces text = piece :: pieces rest) (hpasses : Passes size piece)
    (hrest : rest.length < text.length) (h : Cuts size rest answer) : Cuts size text answer := by
  have hall : ∀ {blanks : List (List UInt8)}, (∀ blank ∈ blanks, Passes size blank) →
      ∀ blank ∈ piece :: blanks, Passes size blank := by
    intro blanks hblanks blank hblank
    rcases List.mem_cons.mp hblank with rfl | hblank
    · exact hpasses
    · exact hblanks blank hblank
  cases answer with
  | finish =>
    intro blank hblank
    rw [hpieces] at hblank
    exact hall h blank hblank
  | overflow =>
    obtain ⟨blanks, long, others, hsplit, hblanks, hlong⟩ := h
    exact ⟨piece :: blanks, long, others, by rw [hpieces, hsplit]; rfl, hall hblanks, hlong⟩
  | statement p more =>
    obtain ⟨blanks, others, hsplit, hblanks, hfits, hsome, hothers⟩ := h
    exact ⟨piece :: blanks, others, by rw [hpieces, hsplit]; rfl, hall hblanks, hfits, hsome,
      hothers.imp_right fun h => ⟨h.1, by omega⟩⟩

/-- The cut answers the first piece that is a statement, or that does not fit. -/
theorem nextStatement_cuts {size : Nat} (hsize : 0 < size) (text : List UInt8) :
    Cuts size text (nextStatement size .plain false [] text) := by
  induction hlen : text.length using Nat.strongRecOn generalizing text with
  | ind n ih =>
    subst hlen
    obtain ⟨piece, others, hpieces⟩ : ∃ piece others, pieces text = piece :: others := by
      rcases cutBytes_cases false (withoutComments .plain text) with ⟨-, h⟩ | ⟨piece, rest, -, -, -, h⟩
      · exact ⟨_, _, h⟩
      · exact ⟨_, _, h⟩
    have hfirst := @nextStatement_piece size .plain false [] text piece others hsize (by simp)
      hpieces
    unfold Answers at hfirst
    rw [List.nil_append, Bool.false_or] at hfirst
    split at hfirst
    · rename_i hlong
      rw [hfirst]
      exact ⟨[], piece, others, hpieces, by simp, hlong⟩
    rename_i hfits
    obtain ⟨rest, hothers, hanswer⟩ := hfirst
    rw [hanswer]
    cases hblank : isBlank piece with
    | false => exact ⟨[], others, hpieces, by simp, by omega, hblank, hothers⟩
    | true =>
      have hpasses : Passes size piece := ⟨by omega, hblank⟩
      rcases hothers with ⟨rfl, rfl⟩ | ⟨rfl, hrest⟩
      · show Cuts size text (nextStatement size .plain false [] [])
        rw [nextStatement]
        intro p hp
        rw [hpieces] at hp
        obtain rfl : p = piece := by simpa using hp
        exact hpasses
      · exact (ih rest.length hrest rest rfl).behind hpieces hpasses hrest

/-! ### A Query message -/

/-- Pieces that are passed over are none of the statements. -/
theorem filter_passes {size : Nat} {blanks : List (List UInt8)}
    (h : ∀ blank ∈ blanks, Passes size blank) (others : List (List UInt8)) :
    ((blanks ++ others).takeWhile fun p => p.length < size).filter (fun p => !isBlank p)
        = (others.takeWhile fun p => p.length < size).filter (fun p => !isBlank p) ∧
      ((blanks ++ others).any fun p => size ≤ p.length) = others.any fun p => size ≤ p.length := by
  induction blanks with
  | nil => exact ⟨rfl, rfl⟩
  | cons blank blanks ih =>
    obtain ⟨hfits, hblank⟩ := h blank (by simp)
    obtain ⟨hfilter, hany⟩ := ih fun b hb => h b (by simp [hb])
    constructor
    · rw [List.cons_append, List.takeWhile_cons_of_pos (by simpa using hfits),
        List.filter_cons_of_neg (by simp [hblank]), hfilter]
    · rw [List.cons_append, List.any_cons, hany, show decide (size ≤ blank.length) = false by
        simpa using hfits, Bool.false_or]

/-- The statements are the pieces that are not blank, up to the first that does not fit. -/
theorem queryStatements_pieces {size : Nat} (hsize : 0 < size) {fuel : Nat} {text : List UInt8}
    (hfuel : text.length < fuel) :
    queryStatements size fuel text
      = (((pieces text).takeWhile fun p => p.length < size).filter (fun p => !isBlank p),
          (pieces text).any fun p => size ≤ p.length) := by
  induction fuel generalizing text with
  | zero => omega
  | succ fuel ih =>
    have hcuts := nextStatement_cuts hsize text
    rw [queryStatements]
    cases hnext : nextStatement size .plain false [] text with
    | finish =>
      rw [hnext] at hcuts
      have hall := filter_passes hcuts []
      rw [List.append_nil] at hall
      rw [hall.1, hall.2]
      rfl
    | overflow =>
      rw [hnext] at hcuts
      obtain ⟨blanks, piece, others, hsplit, hblanks, hlong⟩ := hcuts
      have hall := filter_passes hblanks (piece :: others)
      rw [hsplit, hall.1, hall.2, List.takeWhile_cons_of_neg (by simpa using hlong)]
      simp [hlong]
    | statement piece rest =>
      rw [hnext] at hcuts
      obtain ⟨blanks, others, hsplit, hblanks, hfits, hsome, hothers⟩ := hcuts
      have hall := filter_passes hblanks (piece :: others)
      rw [hsplit, hall.1, hall.2, List.takeWhile_cons_of_pos (by simpa using hfits),
        List.filter_cons_of_pos (by simp [hsome])]
      have hlast : (if rest.isEmpty then ([], false) else queryStatements size fuel rest)
          = ((others.takeWhile fun p => p.length < size).filter (fun p => !isBlank p),
            others.any fun p => size ≤ p.length) := by
        rcases hothers with ⟨rfl, rfl⟩ | ⟨rfl, hrest⟩
        · rfl
        split
        · obtain rfl : rest = [] := by simpa using ‹rest.isEmpty = true›
          have hnone : pieces [] = [[]] := rfl
          rw [hnone, List.takeWhile_cons_of_pos (by simpa using hsize)]
          simp [isBlank, Nat.ne_of_gt hsize]
        · exact ih (by omega)
      rw [List.any_cons, show decide (size ≤ piece.length) = false by simpa using hfits,
        Bool.false_or]
      dsimp only
      split at hlast
      · rename_i hempty
        obtain ⟨hstatements, hover⟩ := Prod.mk.inj hlast
        rw [if_pos hempty, ← hstatements, ← hover]
      · rename_i hmore
        rw [if_neg hmore, hlast]

/-- What a Query message runs is the text's pieces without comments, none of them shortened, and
they are tokenised to what the lexer makes of the whole text. -/
theorem runQuery_splits (text : List UInt8) :
    (∀ size : Nat, Cuts (size + 1) text (nextStatement (size + 1) .plain false [] text)) ∧
      runQuery text
        = (((pieces text).takeWhile fun p => p.length < LINE_LEN).filter (fun p => !isBlank p),
          (pieces text).any fun p => LINE_LEN ≤ p.length) ∧
      tokensBehindComments text = allTokens (withoutComments .plain text) ∧
      ((runQuery text).2 = false →
        statementsRead (allTokens (withoutComments .plain text))
            <+: (runQuery text).1.map tokenizeStatement ∧
          ((allTokens (withoutComments .plain text)).2 = none →
            (runQuery text).1.map tokenizeStatement
              = statementsRead (allTokens (withoutComments .plain text)))) := by
  have hquery := @queryStatements_pieces LINE_LEN (by decide) (text.length + 1) text (by omega)
  refine ⟨fun size => nextStatement_cuts (Nat.succ_pos size) text, hquery,
    tokensBehindComments_eq text, fun hover => ?_⟩
  have hfit : ((pieces text).takeWhile fun p => p.length < LINE_LEN) = pieces text := by
    rw [runQuery, hquery] at hover
    refine List.takeWhile_eq_self_iff.mpr fun p hp => ?_
    have hp' := List.any_eq_false.mp hover p hp
    simpa using hp'
  have hsplits := statementsRead_cut (unread_withoutComments .plain text)
  rw [runQuery, hquery, hfit]
  exact hsplits

/-- A semicolon and two minus signs in a string stay where they are. -/
theorem runQuery_splits_quoted :
    statementsRead (allTokens (withoutComments .plain (ascii "use 'a;--b'; -- c;\nuse d")))
        <+: (runQuery (ascii "use 'a;--b'; -- c;\nuse d")).1.map tokenizeStatement :=
  ((runQuery_splits (ascii "use 'a;--b'; -- c;\nuse d")).2.2.2 (by decide +kernel)).1

end DatabaseEngine
