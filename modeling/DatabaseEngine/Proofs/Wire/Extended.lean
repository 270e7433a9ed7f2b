import DatabaseEngine.Model.Parser
import DatabaseEngine.Proofs.Wire.Scan

/-!
# `DatabaseEngine.Proofs.Wire.Extended`: the two ways to run a statement

A client can send a statement in a Query message, or with Parse, Bind and Execute. The first
way cuts the text into statements and drops its comments to the end of the line; the second one
copies what fits its buffer and leaves the comments to the lexer, which stops at the first one.

* `extendedSql_eq`: the text that Parse, Bind and Execute hand to the engine.
* `runs_iff`: when a Query message runs given tokens.
* `extended_runs_given_iff`: when both ways run the same tokens, or the second one reports an
  error, of the parser's and of what follows on it too.
-/

set_option autoImplicit false

namespace DatabaseEngine

open Library

/-- The tokens that a statement's text is parsed from, as `ProcessStatement` gets them. -/
def parsedTokens (sql : List UInt8) : Except ErrorCode (List Token) :=
  (tokenizeStatement sql).bind statementTokens

/-- What a Query message runs, one statement after the other. -/
def queryTokens (text : List UInt8) : List (Except ErrorCode (List Token)) :=
  (runQuery text).1.map parsedTokens

/-- A Parse message without parameter types. -/
def parseMessage (name text : List UInt8) : List UInt8 := name ++ 0 :: (text ++ [0, 0, 0])

/-- A Bind message without formats and values. -/
def bindMessage (portal source : List UInt8) : List UInt8 :=
  portal ++ 0 :: (source ++ [0, 0, 0, 0, 0, 0, 0])

/-- The text that Execute hands to the engine, after a Parse and a Bind. -/
def extendedSql (s : WireSession) (name portal text : List UInt8) :
    Except ErrorCode (Option (List UInt8)) :=
  match handleParse (parseMessage name text) s with
  | (.error code, _) => .error code
  | (.ok (), s) =>
    match handleBind (bindMessage portal name) s with
    | (.error code, _) => .error code
    | (.ok (), s) => runPortal s

/-- The tokens that `ProcessStatement` runs of a text, with the parser's errors and those of what
follows on it (`perform`). Nothing at all is nothing to do. -/
def runTokens (perform : ParsedStatement → Except ErrorCode Unit) (sql : List UInt8) :
    Except ErrorCode (List Token) :=
  (tokenizeStatement sql).bind fun read =>
    (statementTokens read).bind fun tokens =>
      if read.isEmpty then .ok tokens
      else ((parseStatement read).bind perform).map fun _ => tokens

/-- What Parse, Bind and Execute run; a portal that has run already runs nothing. -/
def extendedTokens (perform : ParsedStatement → Except ErrorCode Unit) (s : WireSession)
    (name portal text : List UInt8) : Except ErrorCode (List Token) :=
  match extendedSql s name portal text with
  | .error code => .error code
  | .ok none => .ok []
  | .ok (some sql) => runTokens perform sql

/-- The extended messages report an error, or run what the Query message runs. -/
def RunsGiven (perform : ParsedStatement → Except ErrorCode Unit) (s : WireSession)
    (name portal text : List UInt8) : Prop :=
  (∃ code, extendedTokens perform s name portal text = .error code) ∨
    ∃ tokens, extendedTokens perform s name portal text = .ok tokens ∧
      queryTokens text = [.ok tokens]

/-- What is run has been read for a statement. -/
theorem parsedTokens_of_run {perform : ParsedStatement → Except ErrorCode Unit} {sql : List UInt8}
    {tokens : List Token} (h : runTokens perform sql = .ok tokens) :
    parsedTokens sql = .ok tokens := by
  unfold runTokens at h
  unfold parsedTokens
  cases hread : tokenizeStatement sql with
  | error code =>
    rw [hread] at h
    exact absurd h (by simp [Except.bind])
  | ok read =>
    rw [hread] at h
    show statementTokens read = .ok tokens
    cases hstatement : statementTokens read with
    | error code =>
      have h : (statementTokens read).bind _ = .ok tokens := h
      rw [hstatement] at h
      exact absurd h (by simp [Except.bind])
    | ok found =>
      have h : (statementTokens read).bind _ = .ok tokens := h
      rw [hstatement] at h
      have h : (if read.isEmpty then .ok found
          else ((parseStatement read).bind perform).map fun _ => found) =
            (.ok tokens : Except ErrorCode (List Token)) := h
      split at h
      · exact h
      · generalize (parseStatement read).bind perform = ran at h
        cases ran with
        | error code => exact absurd h (by simp [Except.map])
        | ok u => exact h

/-! ### Parse, Bind and Execute -/

/-- What the buffer of a prepared statement takes of a text. -/
def seen (text : List UInt8) : List UInt8 := text.take (LINE_LEN - 1)

/-- Whether a text has a `$1`, `$2` ... outside of strings. -/
def hasHole : Bool → List UInt8 → Bool
  | _, [] => false
  | q, c :: rest =>
    (!q && c == 36 && headIs (fun d => isdigit d && d != 48) rest) ||
      hasHole (if c = 39 then !q else q) rest

/-- A text without a zero byte is read up to the one behind it. -/
theorem bodyString_zero (size : Nat) {text : List UInt8} (h : 0 ∉ text) (rest : List UInt8) :
    bodyString size (text ++ 0 :: rest) = some (text.take (size - 1), rest) := by
  have hall : ∀ c ∈ text, decide (c ≠ 0) = true := by
    intro c hc
    exact decide_eq_true fun hzero => h (hzero ▸ hc)
  have htake : (text ++ 0 :: rest).takeWhile (· ≠ 0) = text := by
    rw [List.takeWhile_append_of_pos hall]
    simp
  have hdrop : (text ++ 0 :: rest).dropWhile (· ≠ 0) = 0 :: rest := by
    rw [List.dropWhile_append_of_pos hall]
    simp
  unfold bodyString
  rw [htake, hdrop]

/-- A hole that is refused is refused for its value. -/
theorem readHole_error {n : Nat} {text : List UInt8} {code : ErrorCode}
    (h : readHole n text = .error code) : code = .SYNTAX_EXPECTED_VALUE := by
  fun_induction readHole n text with
  | case1 => exact absurd h (by simp)
  | case2 => exact (Except.error.inj h).symm
  | case3 _ _ _ _ _ ih => exact ih h
  | case4 => exact absurd h (by simp)

/-- With no values, substitution copies the text, or refuses it for a hole. -/
theorem substituteFrom_copies (types : List Int) (spelled : Bool) {size fuel : Nat} (q : Bool)
    {out text : List UInt8} (hfuel : text.length < fuel)
    (hsize : out.length + text.length < size) :
    if hasHole q text then
      (substituteFrom types [] spelled size fuel q out text).error = some .SYNTAX_EXPECTED_VALUE
    else substituteFrom types [] spelled size fuel q out text = ⟨none, out ++ text⟩ := by
  induction text generalizing fuel q out with
  | nil =>
    obtain ⟨fuel, rfl⟩ : ∃ n, fuel = n + 1 := ⟨fuel - 1, by omega⟩
    simp [hasHole, substituteFrom]
  | cons c text ih =>
    obtain ⟨fuel, rfl⟩ : ∃ n, fuel = n + 1 := ⟨fuel - 1, by omega⟩
    simp only [List.length_cons] at hfuel hsize
    rw [substituteFrom]
    by_cases hhole : q = false ∧ c = 36 ∧ headIs (fun d => isdigit d && d != 48) text = true
    · obtain ⟨rfl, rfl, hdigit⟩ := hhole
      rw [if_pos (by simp [hasHole, hdigit]), if_pos ⟨rfl, rfl, hdigit⟩]
      cases hread : readHole 0 text with
      | error code => rw [readHole_error hread]
      | ok read =>
        obtain ⟨n, rest⟩ := read
        dsimp only
        rw [if_pos (by rcases Nat.eq_zero_or_pos n with h | h <;> simp [h])]
    · rw [if_neg hhole, putInto, if_neg (show ¬size ≤ out.length + [c].length by simp; omega)]
      have hnot : (!q && c == 36 && headIs (fun d => isdigit d && d != 48) text) = false := by
        rw [Bool.eq_false_iff]
        intro h
        simp only [Bool.and_eq_true, Bool.not_eq_true', beq_iff_eq] at h
        exact hhole ⟨h.1.1, h.1.2, h.2⟩
      have hrest := @ih fuel (if c = 39 then !q else q) (out ++ [c]) (by omega)
        (by simp; omega)
      have hsame : hasHole q (c :: text) = hasHole (if c = 39 then !q else q) text := by
        rw [show hasHole q (c :: text) = (_ || hasHole (if c = 39 then !q else q) text) from rfl,
          hnot, Bool.false_or]
      rw [hsame]
      simpa [Written.andThen] using hrest

/-- A statement that was claimed is found again, whatever was put into it since. -/
theorem claimPrepared_finds {name : List UInt8} {prepared prepared' : List Prepared} {i : Nat}
    (hname : name.length ≤ NAME_LEN - 1) (h : claimPrepared name prepared = some (i, prepared'))
    (sql : List UInt8) (params : Nat) (types : List Int) :
    i < prepared'.length ∧
      findPrepared name (prepared'.set i
        { prepared'.getD i freePrepared with sql := sql, params := params, types := types })
        = some i := by
  unfold claimPrepared at h
  cases hfind : findPrepared name prepared with
  | some j =>
    rw [hfind] at h
    obtain ⟨rfl, rfl⟩ : j = i ∧ prepared = prepared' := by simpa using h
    obtain ⟨hj, hhere, hbefore⟩ := List.findIdx?_eq_some_iff_getElem.mp hfind
    refine ⟨hj, List.findIdx?_eq_some_iff_getElem.mpr ⟨by simpa using hj, ?_, fun k hk => ?_⟩⟩
    · simpa [hj] using hhere
    · have := hbefore k hk
      simpa [List.getElem_set, show j ≠ k by omega] using this
  | none =>
    rw [hfind] at h
    obtain ⟨j, hfree, heq⟩ := Option.map_eq_some_iff.mp h
    obtain ⟨rfl, rfl⟩ := Prod.mk.inj heq
    obtain ⟨hj, -, -⟩ := List.findIdx?_eq_some_iff_getElem.mp hfree
    have hnone := List.findIdx?_eq_none_iff.mp hfind
    have hlen : j < (prepared.modify j fun statement =>
        { statement with used := true, name := name.take (NAME_LEN - 1) }).length := by
      simpa using hj
    refine ⟨hlen, List.findIdx?_eq_some_iff_getElem.mpr ⟨by simpa using hj, ?_, fun k hk => ?_⟩⟩
    · simp [hj, List.take_of_length_le hname]
    · have hk' : k < prepared.length := by omega
      have := hnone _ (List.getElem_mem hk')
      simpa [List.getElem_set, List.getElem_modify, show j ≠ k by omega] using this

/-- What Execute hands to the engine after a Parse and a Bind: what the buffer took. -/
theorem extendedSql_eq (s : WireSession) {name portal text : List UInt8} (hname : 0 ∉ name)
    (hportal : 0 ∉ portal) (htext : 0 ∉ text) :
    extendedSql s name portal text =
      if claimPrepared (name.take (NAME_LEN - 1)) s.prepared = none then
        .error .EXEC_OUT_OF_MEMORY
      else if hasHole false (seen text) then .error .SYNTAX_EXPECTED_VALUE
      else .ok (some (seen text)) := by
  have hparse : parseFields (parseMessage name text)
      = some (name.take (NAME_LEN - 1), seen text, 0, []) := by
    unfold parseFields parseMessage
    rw [bodyString_zero NAME_LEN hname]
    simp only [Option.bind_eq_bind, Option.bind_some]
    rw [bodyString_zero LINE_LEN htext]
    rfl
  unfold extendedSql handleParse
  rw [hparse]
  dsimp only
  cases hclaim : claimPrepared (name.take (NAME_LEN - 1)) s.prepared with
  | none => simp [failExtended]
  | some claim =>
    obtain ⟨i, prepared⟩ := claim
    obtain ⟨hi, hfinds⟩ := claimPrepared_finds (List.length_take_le _ _) hclaim (seen text) (min 0 MAX_PARAMS)
      (prepared.getD i freePrepared).types
    rw [if_neg (by simp)]
    simp only [readTypes, if_true]
    generalize hs : ({ s with
      prepared := prepared.set i
        { prepared.getD i freePrepared with
          sql := seen text, params := min 0 MAX_PARAMS,
          types := (prepared.getD i freePrepared).types } } : WireSession) = s'
    have hfound : findPrepared (name.take (NAME_LEN - 1)) s'.prepared = some i := by
      subst hs
      exact hfinds
    have hbind : bindFields (bindMessage portal name) s'
        = .ok (portal.take (NAME_LEN - 1), s'.prepared.getD i freePrepared, []) := by
      unfold bindFields bindMessage
      rw [bodyString_zero NAME_LEN hportal]
      dsimp only
      rw [bodyString_zero NAME_LEN hname]
      simp [bodyI16, readFormats, bind, Except.bind, hfound, readValues, pure, Except.pure,
        MAX_PARAMS]
    have hsql : (s'.prepared.getD i freePrepared).sql = seen text := by
      subst hs
      simp [hi]
    unfold handleBind
    rw [hbind]
    dsimp only
    rw [hsql, substituteParameters]
    have hlen : (seen text).length ≤ LINE_LEN - 1 := List.length_take_le _ _
    have hcopies := @substituteFrom_copies (s'.prepared.getD i freePrepared).types false LINE_LEN
      ((seen text).length + 1) false [] (seen text) (by omega) (by simp [LINE_LEN] at hlen ⊢; omega)
    split at hcopies
    · rename_i hhole
      rw [hcopies, if_pos hhole]
      rfl
    · rename_i hhole
      rw [hcopies, if_neg hhole]
      have hzero : ∀ c ∈ seen text, decide (c ≠ 0) = true := by
        intro c hc
        exact decide_eq_true fun h => htext (h ▸ List.mem_of_mem_take hc)
      have hbuffer : (overlay (seen text ++ [0]) s'.portal.sql).takeWhile (· ≠ 0) = seen text := by
        rw [overlay, List.append_assoc, List.takeWhile_append_of_pos hzero]
        simp
      simp only [List.nil_append]
      rw [runPortal]
      simp only [Bool.not_true, Bool.false_eq_true, if_false, hbuffer]

/-! ### Tokens that are parsed as they are -/

/-- A statement's tokens: a keyword that starts one, and no semicolon. -/
def IsStatement (tokens : List Token) : Prop :=
  (∃ first, tokens.head? = some first ∧ first.type ∈ statementKeywords) ∧
    ∀ t ∈ tokens, t.type ≠ .TOKEN_SEMICOLON

/-- No token is taken for a semicolon exactly if none has its type. -/
theorem any_isSemicolon {tokens : List Token} :
    tokens.any Token.isSemicolon = false ↔ ∀ t ∈ tokens, t.type ≠ .TOKEN_SEMICOLON := by
  simp [List.any_eq_false, Token.isSemicolon]

/-- Without one there is none to take off. -/
theorem withoutSemicolon_none {tokens : List Token}
    (h : ∀ t ∈ tokens, t.type ≠ .TOKEN_SEMICOLON) : withoutSemicolon tokens = tokens := by
  unfold withoutSemicolon
  cases hlast : tokens.getLast? with
  | none => rfl
  | some t =>
    rw [if_neg]
    simp [Token.isSemicolon, h t (List.mem_of_getLast? hlast)]

/-- A statement's tokens are parsed as they are. -/
theorem IsStatement.parsed {tokens : List Token} (h : IsStatement tokens) :
    statementTokens tokens = .ok tokens := by
  obtain ⟨⟨first, hhead, hkeyword⟩, hsemi⟩ := h
  cases tokens with
  | nil => exact absurd hhead (by simp)
  | cons t rest =>
    obtain rfl : t = first := by simpa using hhead
    rw [statementTokens, if_neg (by simp [hkeyword]), withoutSemicolon_none hsemi,
      any_isSemicolon.mpr hsemi, if_neg (by simp)]

/-- What the parser takes for a statement: nothing at all, or a statement's tokens, closed with
a semicolon or not. -/
theorem statementTokens_ok {ts tokens : List Token} (h : statementTokens ts = .ok tokens) :
    (ts = [] ∧ tokens = []) ∨ (IsStatement tokens ∧
      (ts = tokens ∨ ∃ semi, semi.type = .TOKEN_SEMICOLON ∧ ts = tokens ++ [semi])) := by
  cases ts with
  | nil =>
    obtain rfl : [] = tokens := by simpa [statementTokens] using h
    exact Or.inl ⟨rfl, rfl⟩
  | cons first rest =>
    right
    rw [statementTokens] at h
    split at h
    · exact absurd h (by simp)
    rename_i hkeyword
    rw [Decidable.not_not] at hkeyword
    split at h
    · exact absurd h (by simp)
    rename_i hsemi
    rw [Bool.not_eq_true] at hsemi
    obtain rfl : withoutSemicolon (first :: rest) = tokens := by simpa using h
    have hnone := any_isSemicolon.mp hsemi
    unfold withoutSemicolon at hnone ⊢
    cases hlast : (first :: rest).getLast? with
    | none => exact absurd hlast (by simp)
    | some t =>
      rw [hlast] at hnone
      simp only [Option.any_some] at hnone ⊢
      by_cases ht : t.type = .TOKEN_SEMICOLON
      · have htrue : t.isSemicolon = true := by simp [Token.isSemicolon, ht]
        rw [if_pos htrue] at hnone ⊢
        have hsplit : (first :: rest).dropLast ++ [t] = first :: rest := by
          obtain ⟨ys, hys⟩ := List.getLast?_eq_some_iff.mp hlast
          rw [hys, List.dropLast_concat]
        cases rest with
        | nil =>
          obtain rfl : first = t := by simpa using hlast
          rw [ht] at hkeyword
          exact absurd hkeyword (by decide)
        | cons second rest =>
          exact ⟨⟨⟨first, by simp, hkeyword⟩, hnone⟩, Or.inr ⟨t, ht, hsplit.symm⟩⟩
      · have hfalse : ¬t.isSemicolon = true := by simp [Token.isSemicolon, ht]
        rw [if_neg hfalse] at hnone ⊢
        exact ⟨⟨⟨first, rfl, hkeyword⟩, hnone⟩, Or.inl rfl⟩

/-- Without semicolons, the tokens are parsed as they are. -/
theorem statementTokens_plain {ts tokens : List Token} (h : statementTokens ts = .ok tokens)
    (hsemi : ∀ t ∈ ts, t.type ≠ .TOKEN_SEMICOLON) : ts = tokens := by
  rcases statementTokens_ok h with ⟨rfl, rfl⟩ | ⟨-, rfl | ⟨semi, htype, rfl⟩⟩
  · rfl
  · rfl
  · exact absurd htype (hsemi semi (by simp))

/-- A statement has a token. -/
theorem IsStatement.ne_nil {tokens : List Token} (h : IsStatement tokens) : tokens ≠ [] := by
  rintro rfl
  exact absurd h.1.choose_spec.1 (by simp)

/-- Tokens that are parsed are those the text was lexed into. -/
theorem parsedTokens_ok {sql : List UInt8} {tokens : List Token}
    (h : parsedTokens sql = .ok tokens) :
    ∃ ts, lexFrom sql [] = .ok ts ∧ statementTokens ts = .ok tokens := by
  unfold parsedTokens at h
  rw [tokenizeStatement_eq] at h
  cases hlex : lexFrom sql [] with
  | error code =>
    rw [hlex] at h
    exact absurd h (by simp [Except.bind])
  | ok ts =>
    rw [hlex] at h
    exact ⟨ts, rfl, h⟩

/-! ### When the Query message runs given tokens -/

/-- A text whose statement begins with `b`: what the cut copies behind it. -/
structure Begun (b x p rest : List UInt8) (bs : List Token) : Prop where
  lexes : Lexes b bs
  nonempty : bs ≠ []
  plain : ∀ t ∈ bs, t.type ≠ .TOKEN_SEMICOLON
  mark : b.getLast? = some 45 → x.head? ≠ some 45
  fits : b.length < LINE_LEN
  next : nextStatement ((b ++ x).length + 1) .plain false [] (b ++ x) = .statement p rest
  single : bare .plain rest = []

namespace Begun

variable {b x p rest : List UInt8} {bs : List Token}

/-- The cut copies what the lexer reads, and goes on behind it. -/
theorem reads (h : Begun b x p rest bs) {size : Nat} (hsize : b.length < size) :
    nextStatement size .plain false [] (b ++ x) = nextStatement size .plain true b x := by
  have hunread := unread_scans.lexes h.lexes (Or.inl fun r => by simp [unread]) h.mark
  have hstring := inString_scans.lexes h.lexes (Or.inl fun r => by simp [inString]) (b := [])
    fun _ => by simp
  have hsemi := hasSemicolon_scans.lexes h.lexes (Or.inr h.plain) (b := []) fun _ => by simp
  rw [List.append_nil] at hstring hsemi
  have hread := @nextStatement_reads size b x false false []
    (by rw [hunread]; exact unread_length false x) hsemi (by simpa using hsize) (by simp)
  simpa [scanMode, hstring, inString, h.lexes.nonblank h.nonempty] using hread

/-- What was copied behind the start is a copy of the rest. -/
theorem copies (h : Begun b x p rest bs) :
    ∃ more, p = b ++ more ∧ Copies .plain x more rest := by
  have hnext := h.next
  rw [h.reads (by rw [List.length_append]; omega), nextStatement_copies] at hnext
  obtain ⟨more, hp, hcopies, -⟩ := hnext
  exact ⟨more, hp, hcopies⟩

/-- The Query message runs the statement, or finds that it does not fit. -/
theorem runs (h : Begun b x p rest bs) :
    (runQuery (b ++ x)).1 = if p.length < LINE_LEN then [p] else [] := by
  obtain ⟨more, rfl, hcopies⟩ := h.copies
  have hread := h.reads h.fits
  split
  · rename_i hfits
    refine @runQuery_single _ _ rest ?_ h.single
    rw [hread, nextStatement_copies]
    exact ⟨more, rfl, hcopies, Or.inr hfits⟩
  · rename_i hlong
    rw [runQuery, queryStatements, hread]
    cases hnext : nextStatement LINE_LEN .plain true b x with
    | finish => rfl
    | overflow => rfl
    | statement p' rest' =>
      obtain ⟨more', rfl, hcopies', hroom⟩ := (nextStatement_copies _ _ _ _ _ _).mp hnext
      obtain ⟨rfl, -⟩ := hcopies.det hcopies'
      rcases hroom with rfl | hroom
      · exact absurd h.fits (by simpa using hlong)
      · exact absurd hroom hlong

/-- The tokens of the statement are those of its beginning and those of what is copied behind
it. -/
theorem runs_iff (h : Begun b x p rest bs) {more : List UInt8} (hp : p = b ++ more)
    (hcopies : Copies .plain x more rest)
    (hbreaks : p.length < LINE_LEN →
      Breaks more ∧ (b.getLast? = some 45 → more.head? ≠ some 45))
    {ts : List Token} (hts : IsStatement ts) (hmax : ts.length ≤ MAX_TOKENS)
    (hlen : bs.length ≤ MAX_TOKENS) :
    queryTokens (b ++ x) = [.ok ts] ↔
      p.length < LINE_LEN ∧ ∃ us, ts = bs ++ us ∧ Lexes more us := by
  rw [queryTokens, h.runs]
  by_cases hfits : p.length < LINE_LEN
  · obtain ⟨hmore, hmark⟩ := hbreaks hfits
    rw [if_pos hfits, List.map_singleton, List.cons.injEq]
    simp only [and_true, hfits, true_and]
    have hlex : lexFrom p [] = lexFrom more bs := by
      rw [hp]
      simpa using lexFrom_append h.lexes hmore hmark [] (by simpa using hlen)
    have hcomment : unread false more = [] := hcopies.unread
    have hsemi : hasSemicolon false more = false := hcopies.hasSemicolon
    constructor
    · intro hparsed
      obtain ⟨ts', hread, hstatement⟩ := parsedTokens_ok hparsed
      rw [hlex] at hread
      obtain ⟨a, c, us, hsplit, rfl⟩ := lexFrom_split hread
      -- nothing that is copied is a comment
      obtain rfl : c = [] := by rw [← hsplit.unread, hcomment]
      obtain rfl : more = a := by rw [hsplit.append, List.append_nil]
      have hplain := hsplit.lexes.no_semicolon hsemi
      refine ⟨us, (statementTokens_plain hstatement fun t ht => ?_).symm, hsplit.lexes⟩
      exact (List.mem_append.mp ht).elim (h.plain t) (hplain t)
    · rintro ⟨us, rfl, hus⟩
      unfold parsedTokens
      rw [tokenizeStatement_eq, hlex]
      have hend := lexFrom_append hus (b := []) (fun c hc => absurd hc (by simp)) (fun _ => by simp)
        bs (by simpa using hmax)
      rw [List.append_nil] at hend
      rw [hend, lexFrom_eq]
      exact hts.parsed
  · rw [if_neg hfits]
    simp [hfits]

end Begun

/-! ### When both ways run the same -/

/-- What the extended messages leave of a text: what is behind its first comment mark, or behind
the end of the buffer. -/
def unseen (text : List UInt8) : List UInt8 :=
  unread false (seen text) ++ text.drop (LINE_LEN - 1)

/-- The end of the buffer cuts a comment mark in half, and its first minus sign is read as a
token. -/
def CutsMark (text : List UInt8) : Prop :=
  unread false (seen text) = [] ∧ (seen text).getLast? = some 45 ∧
    (text.drop (LINE_LEN - 1)).head? = some 45

/-- The extended messages read all of the one statement `p` of a text: it fits the buffer, and
what they leave holds nothing but blanks, comments and semicolons. Where the buffer ends in a
comment mark, what is left is the one minus sign that was read too many. -/
structure ReadWhole (text p : List UInt8) : Prop where
  fits : p.length < LINE_LEN
  whole : ¬CutsMark text → bare .plain (unseen text) = []
  half : CutsMark text → bare .plain (45 :: unseen text) = [45]

/-- The extended messages refuse a text: no slot is left for its name, it has holes, or what the
buffer has of it is refused. -/
def Refused (perform : ParsedStatement → Except ErrorCode Unit) (s : WireSession)
    (name text : List UInt8) : Prop :=
  claimPrepared (name.take (NAME_LEN - 1)) s.prepared = none ∨ hasHole false (seen text) = true ∨
    ∃ code, runTokens perform (seen text) = .error code

/-- Nothing to read in the buffer: the statement is behind it. -/
theorem given_iff_blank {text p a c : List UInt8} (hone : statementsOf text = [p])
    (hsplit : ReadUpTo (seen text) [] a c) :
    queryTokens text = [.ok []] ↔ ReadWhole text p := by
  have hblank := hsplit.lexes.blank
  constructor
  · intro hquery
    exfalso
    rw [queryTokens, runQuery, queryStatements] at hquery
    cases hnext : nextStatement LINE_LEN .plain false [] text with
    | finish => simp [hnext] at hquery
    | overflow => simp [hnext] at hquery
    | statement q rest =>
      have hparsed : parsedTokens q = .ok [] := by
        simp only [hnext] at hquery
        split at hquery
        · simpa using hquery
        · exact (List.cons.inj hquery).1
      obtain ⟨hcomment, d, hd, hspace⟩ := nextStatement_nonblank _ (by simp) (by simp) hnext
      obtain ⟨ts, hread, hstatement⟩ := parsedTokens_ok hparsed
      have hts : ts = [] := by
        rcases statementTokens_ok hstatement with ⟨hts, -⟩ | ⟨hnone, -⟩
        · exact hts
        · exact absurd rfl hnone.ne_nil
      obtain ⟨a', c', us, hq, heq⟩ := lexFrom_split hread
      obtain rfl : us = [] := by simpa [hts] using heq.symm
      obtain rfl : c' = [] := by rw [← hq.unread, hcomment]
      obtain rfl : q = a' := by rw [hq.append, List.append_nil]
      rw [hq.lexes.blank d hd] at hspace
      exact absurd hspace (by simp)
  · intro hwhole
    exfalso
    have hcut : ¬CutsMark text := by
      rintro ⟨hnone, hlast, -⟩
      obtain rfl : c = [] := by rw [← hsplit.unread, hnone]
      rw [hsplit.append, List.append_nil] at hlast
      exact absurd (hblank 45 (List.mem_of_getLast? hlast)) (by decide)
    have hbare := hwhole.whole hcut
    rw [unseen, hsplit.unread] at hbare
    have htext : text = a ++ (c ++ text.drop (LINE_LEN - 1)) := by
      rw [← List.append_assoc, ← hsplit.append, seen, List.take_append_drop]
    obtain ⟨rest, hnext, -⟩ := statementsOf_single hone
    have hfinish := (@nextStatement_finish (text.length + 1) .plain (by simp) [] text (by simp)).mpr
      (by rw [htext, bare_blank hblank, hbare])
    rw [hfinish] at hnext
    exact absurd hnext (by simp)

/-- How a text is put together from what the buffer holds. -/
theorem text_eq {text a c : List UInt8} {ts : List Token} (h : ReadUpTo (seen text) ts a c) :
    text = a ++ (c ++ text.drop (LINE_LEN - 1)) ∧ unseen text = c ++ text.drop (LINE_LEN - 1) := by
  refine ⟨?_, by rw [unseen, h.unread]⟩
  rw [← List.append_assoc, ← h.append, seen, List.take_append_drop]

/-- What the dispatcher sees of a text is shorter than its line. -/
theorem seen_length (text : List UInt8) : (seen text).length < LINE_LEN := by
  have : (seen text).length ≤ LINE_LEN - 1 := List.length_take_le _ _
  have : 0 < LINE_LEN := by decide
  omega

/-- The statement is closed within the buffer: both ways run it. -/
theorem given_iff_closed {text p a c : List UInt8} {tokens : List Token}
    (hone : statementsOf text = [p])
    (hsplit : ReadUpTo (seen text) (tokens ++ [⟨.TOKEN_SEMICOLON, [59]⟩]) a c)
    (hstatement : IsStatement tokens) (hmax : tokens.length ≤ MAX_TOKENS) :
    queryTokens text = [.ok tokens] ↔ ReadWhole text p := by
  obtain ⟨htext, hunseen⟩ := text_eq hsplit
  obtain ⟨b, e, rfl, hb, he⟩ := hsplit.lexes.cut_semicolon
  have hlength := seen_length text
  rw [hsplit.append] at hlength
  simp only [List.length_append, List.length_cons] at hlength
  obtain ⟨rest, hnext, hsingle⟩ := statementsOf_single hone
  rw [List.append_assoc, List.cons_append] at htext
  have hbegun : Begun b (59 :: (e ++ (c ++ text.drop (LINE_LEN - 1)))) p rest tokens :=
    { lexes := hb
      nonempty := hstatement.ne_nil
      plain := hstatement.2
      mark := fun _ => by simp
      fits := by omega
      next := by rw [← htext]; exact hnext
      single := hsingle }
  obtain ⟨more, rfl, hcopies⟩ := hbegun.copies
  obtain ⟨rfl, rfl⟩ := hcopies.det (.semicolon _)
  have hfits : (b ++ []).length < LINE_LEN := by simp; omega
  have hruns := hbegun.runs_iff rfl hcopies
    (fun _ => ⟨fun c hc => absurd hc (by simp), fun _ => by simp⟩) hstatement hmax hmax
  rw [← htext] at hruns
  refine iff_of_true (hruns.mpr ⟨hfits, [], by simp, .nil⟩) ⟨hfits, fun _ => ?_, fun hcut => ?_⟩
  · rw [hunseen, ← bare_blank he.blank, hsingle]
  · exfalso
    obtain ⟨hnone, hlast, -⟩ := hcut
    obtain rfl : c = [] := by rw [← hsplit.unread, hnone]
    rw [hsplit.append, List.append_nil] at hlast
    cases he' : e.getLast? with
    | none =>
      obtain rfl : e = [] := by simpa using he'
      simp at hlast
    | some d =>
      rw [List.getLast?_append, List.getLast?_cons, he'] at hlast
      obtain rfl : d = 45 := by simpa using hlast
      exact absurd (he.blank 45 (List.mem_of_getLast? he')) (by decide)

/-- The buffer ends in the middle of a comment mark. -/
theorem given_iff_cut {text p a c : List UInt8} {tokens : List Token}
    (hone : statementsOf text = [p]) (hsplit : ReadUpTo (seen text) tokens a c)
    (hstatement : IsStatement tokens) (hmax : tokens.length ≤ MAX_TOKENS) (hcut : CutsMark text) :
    queryTokens text = [.ok tokens] ↔ ReadWhole text p := by
  obtain ⟨htext, hunseen⟩ := text_eq hsplit
  obtain ⟨hnone, hlast, hhead⟩ := id hcut
  obtain rfl : c = [] := by rw [← hsplit.unread, hnone]
  have hlength := seen_length text
  rw [hsplit.append, List.append_nil] at hlast hlength
  rw [List.nil_append] at htext hunseen
  obtain ⟨b, rfl⟩ := List.getLast?_eq_some_iff.mp hlast
  obtain ⟨bs, rfl, hb, hbmark⟩ := hsplit.lexes.cut_minus
  rw [List.length_append, List.length_singleton] at hlength
  rw [List.append_assoc] at htext
  have hbs : bs ≠ [] := by
    rintro rfl
    obtain ⟨first, hfirst, hkeyword⟩ := hstatement.1
    obtain rfl : (⟨.TOKEN_MINUS, [45]⟩ : Token) = first := by simpa using hfirst
    exact absurd hkeyword (by decide)
  obtain ⟨rest, hnext, hsingle⟩ := statementsOf_single hone
  have hbegun : Begun b (45 :: text.drop (LINE_LEN - 1)) p rest bs :=
    { lexes := hb
      nonempty := hbs
      plain := fun t ht => hstatement.2 t (by simp [ht])
      mark := fun h => absurd h hbmark
      fits := by omega
      next := by
        have hsame : b ++ 45 :: text.drop (LINE_LEN - 1) = text := htext.symm
        rw [hsame]
        exact hnext
      single := hsingle }
  obtain ⟨more, hp, hcopies⟩ := hbegun.copies
  have hline : more = [] ∨ more.head? = some 10 := by
    cases hcopies with
    | comment _ h => exact h.line_head
    | plain _ _ hmark => exact absurd ⟨rfl, hhead⟩ hmark
  have hbreaks : Breaks more ∧ (b.getLast? = some 45 → more.head? ≠ some 45) := by
    refine ⟨fun c hc => ?_, fun h => absurd h hbmark⟩
    rcases hline with rfl | hten
    · exact absurd hc (by simp)
    · rw [hten] at hc
      obtain rfl := Option.some.inj hc
      exact Or.inl (by decide)
  have hruns := hbegun.runs_iff hp hcopies (fun _ => hbreaks) hstatement hmax
    (by simp only [List.length_append] at hmax; omega)
  have hbare := hcopies.bare
  rw [hsingle, List.append_nil, ← hunseen] at hbare
  rw [show b ++ 45 :: text.drop (LINE_LEN - 1) = text from htext.symm] at hruns
  rw [hruns]
  constructor
  · rintro ⟨hfits, us, hus, hmore⟩
    obtain rfl : [⟨.TOKEN_MINUS, [45]⟩] = us := List.append_cancel_left hus
    exact ⟨hfits, fun h => absurd hcut h, fun _ => by rw [hbare]; exact hmore.bare_minus⟩
  · intro hwhole
    refine ⟨hwhole.fits, _, rfl, ?_⟩
    exact lexes_minus_of_bare hcopies.unread hcopies.hasSemicolon
      (by rw [← hwhole.half hcut, hbare]; rfl)

/-- The statement is not closed within the buffer, which ends in no comment mark. -/
theorem given_iff_open {text p a c : List UInt8} {tokens : List Token}
    (hone : statementsOf text = [p]) (hsplit : ReadUpTo (seen text) tokens a c)
    (hstatement : IsStatement tokens) (hmax : tokens.length ≤ MAX_TOKENS) (hcut : ¬CutsMark text) :
    queryTokens text = [.ok tokens] ↔ ReadWhole text p := by
  obtain ⟨htext, hunseen⟩ := text_eq hsplit
  have hlength := seen_length text
  obtain ⟨rest, hnext, hsingle⟩ := statementsOf_single hone
  have hbegun : Begun a (c ++ text.drop (LINE_LEN - 1)) p rest tokens :=
    { lexes := hsplit.lexes
      nonempty := hstatement.ne_nil
      plain := hstatement.2
      mark := fun hlast hhead => by
        obtain rfl := hsplit.mark hlast
        refine hcut ⟨hsplit.unread, ?_, hhead⟩
        rw [hsplit.append, List.append_nil, hlast]
      fits := by
        rw [hsplit.append, List.length_append] at hlength
        omega
      next := by rw [← htext]; exact hnext
      single := hsingle }
  obtain ⟨more, hp, hcopies⟩ := hbegun.copies
  have hbreaks : p.length < LINE_LEN →
      Breaks more ∧ (a.getLast? = some 45 → more.head? ≠ some 45) := by
    intro hfits
    rcases hsplit.comment with rfl | ⟨comment, rfl⟩
    · -- without a comment, the buffer is full, or it holds all of the text
      have hmore : more = [] := by
        by_cases hshort : text.drop (LINE_LEN - 1) = []
        · rw [hshort] at hcopies
          cases hcopies
          rfl
        · have hfull : (seen text).length = LINE_LEN - 1 := by
            rw [seen, List.length_take]
            have := List.length_pos_iff.mpr hshort
            rw [List.length_drop] at this
            omega
          rw [hsplit.append, List.append_nil] at hfull
          rw [hp, List.length_append, hfull] at hfits
          exact List.length_eq_zero_iff.mp (by omega)
      subst hmore
      exact ⟨fun c hc => absurd hc (by simp), fun _ => by simp⟩
    · refine ⟨fun d hd => ?_, fun hlast => absurd (hsplit.mark hlast) (by simp)⟩
      have hline : more = [] ∨ more.head? = some 10 := by
        cases hcopies with
        | comment _ h => exact h.line_head
        | plain _ _ hmark => exact absurd ⟨rfl, rfl⟩ hmark
      rcases hline with rfl | hten
      · exact absurd hd (by simp)
      · rw [hten] at hd
        obtain rfl := Option.some.inj hd
        exact Or.inl (by decide)
  have hruns := hbegun.runs_iff hp hcopies hbreaks hstatement hmax hmax
  have hbare := hcopies.bare
  rw [hsingle, List.append_nil, ← hunseen] at hbare
  rw [← htext] at hruns
  rw [hruns]
  constructor
  · rintro ⟨hfits, us, hus, hmore⟩
    obtain rfl : us = [] := by simpa using hus
    refine ⟨hfits, fun _ => ?_, fun h => absurd h hcut⟩
    have hblank := bare_blank hmore.blank []
    rw [List.append_nil] at hblank
    rw [hbare]
    exact hblank
  · intro hwhole
    refine ⟨hwhole.fits, [], by simp, ?_⟩
    exact lexes_nil_of_bare hcopies.unread hcopies.hasSemicolon
      (by rw [← hwhole.whole hcut, hbare]; rfl)

/-- For a text with a single statement, the extended messages run what the Query message runs or
report an error if and only if they refuse it, or read all of the statement. -/
theorem extended_runs_given_iff (perform : ParsedStatement → Except ErrorCode Unit)
    (s : WireSession) {name portal text p : List UInt8} (hname : 0 ∉ name) (hportal : 0 ∉ portal)
    (htext : 0 ∉ text) (hone : statementsOf text = [p]) :
    RunsGiven perform s name portal text ↔ Refused perform s name text ∨ ReadWhole text p := by
  have htokens : extendedTokens perform s name portal text =
      if claimPrepared (name.take (NAME_LEN - 1)) s.prepared = none then
        .error .EXEC_OUT_OF_MEMORY
      else if hasHole false (seen text) then .error .SYNTAX_EXPECTED_VALUE
      else runTokens perform (seen text) := by
    unfold extendedTokens
    rw [extendedSql_eq s hname hportal htext]
    by_cases hroom : claimPrepared (name.take (NAME_LEN - 1)) s.prepared = none
    · simp [hroom]
    · by_cases hhole : hasHole false (seen text) = true <;> simp [hroom, hhole]
  unfold RunsGiven
  by_cases hrefused : Refused perform s name text
  · refine iff_of_true (Or.inl ?_) (Or.inl hrefused)
    rw [htokens]
    by_cases hroom : claimPrepared (name.take (NAME_LEN - 1)) s.prepared = none
    · exact ⟨_, by rw [if_pos hroom]⟩
    · by_cases hhole : hasHole false (seen text) = true
      · exact ⟨_, by rw [if_neg hroom, if_pos hhole]⟩
      · obtain ⟨code, hcode⟩ := (hrefused.resolve_left hroom).resolve_left hhole
        exact ⟨code, by rw [if_neg hroom, if_neg hhole, hcode]⟩
  · have hroom : ¬claimPrepared (name.take (NAME_LEN - 1)) s.prepared = none :=
      fun h => hrefused (Or.inl h)
    have hhole : ¬hasHole false (seen text) = true := fun h => hrefused (Or.inr (Or.inl h))
    rw [if_neg hroom, if_neg hhole] at htokens
    cases hran : runTokens perform (seen text) with
    | error code => exact absurd (Or.inr (Or.inr ⟨code, hran⟩)) hrefused
    | ok tokens =>
      have hgiven : queryTokens text = [.ok tokens] ↔ ReadWhole text p := by
        obtain ⟨ts, hlex, hstatement⟩ := parsedTokens_ok (parsedTokens_of_run hran)
        have hlen := lexFrom_length hlex (by simp)
        obtain ⟨a, c, us, hsplit, rfl⟩ := lexFrom_split hlex
        rcases statementTokens_ok hstatement with ⟨rfl, rfl⟩ | ⟨his, rfl | ⟨semi, htype, rfl⟩⟩
        · exact given_iff_blank hone hsplit
        · by_cases hcut : CutsMark text
          · exact given_iff_cut hone hsplit his hlen hcut
          · exact given_iff_open hone hsplit his hlen hcut
        · obtain rfl := hsplit.lexes.semicolon (by simp) htype
          exact given_iff_closed hone hsplit his
            (by rw [List.length_append] at hlen; omega)
      rw [htokens, hran]
      simp only [reduceCtorEq, exists_false, false_or, Except.ok.injEq, exists_eq_left', hgiven]
      exact ⟨Or.inr, fun h => h.resolve_left hrefused⟩

/-- A statement with a comment behind it is read whole, and both ways run it. -/
theorem extended_runs_given_iff_commented :
    ReadWhole (ascii "DELETE FROM t -- all of them") (ascii "DELETE FROM t ") ∧
      RunsGiven (fun _ => .ok ()) newSession [] [] (ascii "DELETE FROM t -- all of them") := by
  have hwhole : ReadWhole (ascii "DELETE FROM t -- all of them") (ascii "DELETE FROM t ") :=
    ⟨by decide, fun _ => by decide +kernel, fun h => absurd h.2.1 (by decide +kernel)⟩
  exact ⟨hwhole, (extended_runs_given_iff (fun _ => .ok ()) newSession (by simp) (by simp)
    (by decide) (by decide +kernel)).mpr (.inr hwhole)⟩

/-- A comment before the WHERE: the extended messages delete every row. -/
theorem extended_drops_where :
    statementsOf (ascii "DELETE FROM t -- some\nWHERE a = 1")
        = [ascii "DELETE FROM t \nWHERE a = 1"] ∧
      ¬RunsGiven (fun _ => .ok ()) newSession [] []
        (ascii "DELETE FROM t -- some\nWHERE a = 1") := by
  have hextended : extendedTokens (fun _ => .ok ()) newSession [] []
      (ascii "DELETE FROM t -- some\nWHERE a = 1")
      = .ok [⟨.TOKEN_KEYWORD_DELETE, ascii "DELETE"⟩, ⟨.TOKEN_KEYWORD_FROM, ascii "FROM"⟩,
          ⟨.TOKEN_IDENTIFIER, ascii "t"⟩] := by decide +kernel
  refine ⟨by decide +kernel, ?_⟩
  rintro (⟨code, hcode⟩ | ⟨tokens, htokens, hquery⟩)
  · rw [hextended] at hcode
    exact absurd hcode (by simp)
  · rw [hextended] at htokens
    obtain rfl := Except.ok.inj htokens
    exact absurd hquery (by decide +kernel)

end DatabaseEngine
