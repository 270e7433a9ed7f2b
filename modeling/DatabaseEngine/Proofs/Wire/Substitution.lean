import DatabaseEngine.Model.Wire
import DatabaseEngine.Proofs.Wire.Spelling

/-!
# `DatabaseEngine.Proofs.Wire.Substitution`: what parameters do to a statement

A template is a statement with holes. `readTemplate` reads it as the lexer does, with each `$n`
outside of strings as the literal that stands for its value, and cuts it into chunks: a blank, or
the spelling of a token. What `substituteParameters` writes is the bytes of these chunks one after
another (`filled`), and the question is whether the lexer cuts them where the template did.

* `substituteFrom_filled`: what is written, when it fits.
* `template_spec`: the chunks of a template, and where reading it stops.
* `ReadBy.lexes`: chunks that are each read as they are give their tokens.
* `separate_of_tokens`: where the tokens come out, the chunks are separate.
* `substitute_keeps_shape`: when substitution keeps the tokens of the template.
-/

set_option autoImplicit false

namespace DatabaseEngine

open Library

/-! ### Templates -/

/-- A piece of a statement: a blank or a token, and whether it comes from a parameter. -/
structure Chunk where
  bytes : List UInt8
  token : Option Token
  bound : Bool
  deriving DecidableEq

/-- The tokens of chunks. -/
def tokensOf (chunks : List Chunk) : List Token := chunks.filterMap Chunk.token

/-- The bytes of chunks. -/
def bytesOf (chunks : List Chunk) : List UInt8 := chunks.flatMap Chunk.bytes

/-- Whether the lexer reads all of a text as one number. -/
def isNumber (text : List UInt8) : Bool :=
  headIs isdigit text && (takeNumber false text).2.isEmpty

/-- A number, behind what is in front of it. -/
def numberLiteral (sign : List Chunk) (text : List UInt8) : Option (List Chunk) :=
  if isNumber text then some (sign ++ [⟨text, some ⟨.TOKEN_NUMBER, text⟩, true⟩]) else none

/-- A text with its quotes doubled. -/
def doubled (text : List UInt8) : List UInt8 :=
  text.flatMap fun c => if c = 39 then [39, 39] else [c]

/-- The one literal that stands for a value: NULL, a number with an optional sign, or a string.
A text that is written bare and is no number has none. -/
def literal (oid : Int) : Option (List UInt8) → Option (List Chunk)
  | none => some [⟨ascii "NULL", some ⟨.TOKEN_KEYWORD_NULL, ascii "NULL"⟩, true⟩]
  | some value =>
    if parameterIsNumeric oid value then
      if value.head? = some 45 then
        numberLiteral [⟨[45], some ⟨.TOKEN_MINUS, [45]⟩, true⟩] value.tail
      else if value.head? = some 43 then
        numberLiteral [⟨[43], some ⟨.TOKEN_PLUS, [43]⟩, true⟩] value.tail
      else numberLiteral [] value
    else some [⟨39 :: (doubled value ++ [39]), some ⟨.TOKEN_STRING, value⟩, true⟩]

/-- Whether a text starts with a parameter. -/
def startsHole (text : List UInt8) : Bool :=
  decide (text.head? = some 36) && headIs (fun d => isdigit d && d != 48) text.tail

/-- The declared type of a parameter. -/
def oidOf (types : List Int) (n : Nat) : Int := if n ≤ MAX_PARAMS then types.getD (n - 1) 0 else 0

/-- A template: its chunks, if every hole has a literal, where reading it stops, and the error it
stops with. -/
structure Template where
  chunks : Option (List Chunk)
  rest : List UInt8
  error : Option ErrorCode

/-- A template behind some chunks. -/
def Template.behind (front : Option (List Chunk)) (t : Template) : Template :=
  { t with chunks := front.bind fun a => t.chunks.map fun b => a ++ b }

/-- Reads a template as the lexer reads a text. -/
def readTemplate (types : List Int) (values : List (Option (List UInt8))) :
    Nat → List UInt8 → Template
  | 0, text => ⟨some [], text, none⟩
  | fuel + 1, text =>
    if startsHole text then
      match readHole 0 text.tail with
      | .error code => ⟨some [], text, some code⟩
      | .ok (n, rest) =>
        (readTemplate types values fuel rest).behind
          (literal (oidOf types n) (values.getD (n - 1) none))
    else
      match lexOne text with
      | .stop => ⟨some [], text, none⟩
      | .refuse code => ⟨some [], text, some code⟩
      | .skip rest =>
        (readTemplate types values fuel rest).behind
          (some [⟨text.take (text.length - rest.length), none, false⟩])
      | .token t rest =>
        (readTemplate types values fuel rest).behind
          (some [⟨text.take (text.length - rest.length), some t, false⟩])

/-- The template of a statement. -/
def templateOf (types : List Int) (values : List (Option (List UInt8))) (sql : List UInt8) :
    Template := readTemplate types values (sql.length + 1) sql

/-! ### What is written -/

/-- The bytes that stand for a value. -/
def literalBytes (oid : Int) : Option (List UInt8) → List UInt8
  | none => ascii "NULL"
  | some value =>
    if parameterIsNumeric oid value then value else 39 :: (doubled value ++ [39])

section
variable (types : List Int) (values : List (Option (List UInt8)))

/-- What substitution writes for a text, in a buffer without end. -/
def filledFrom : Nat → Bool → List UInt8 → Option (List UInt8)
  | 0, _, _ => some []
  | _ + 1, _, [] => some []
  | fuel + 1, q, c :: rest =>
    if q = false ∧ startsHole (c :: rest) = true then
      match readHole 0 rest with
      | .error _ => none
      | .ok (n, rest) =>
        if n < 1 ∨ values.length < n then none
        else
          (filledFrom fuel q rest).map fun more =>
            literalBytes (oidOf types n) (values.getD (n - 1) none) ++ more
    else (filledFrom fuel (if c = 39 then !q else q) rest).map fun more => c :: more

/-- The text with its parameters filled in. -/
def filled (q : Bool) (text : List UInt8) : Option (List UInt8) :=
  filledFrom types values (text.length + 1) q text

end

/-- Bytes that were put in fit. -/
theorem putInto_ok {size : Nat} {bytes out : List UInt8}
    (h : (putInto size bytes out).error = none) :
    (putInto size bytes out).out = out ++ bytes ∧ (out ++ bytes).length < size := by
  unfold putInto at h ⊢
  split at h
  · exact absurd h (by simp)
  · rename_i hroom
    rw [if_neg hroom]
    exact ⟨rfl, by simpa using hroom⟩

/-- A value that was quoted fits with its quotes doubled. -/
theorem quoteInto_ok {size : Nat} {value out : List UInt8} (hout : out.length < size)
    (h : (quoteInto size value out).error = none) :
    (quoteInto size value out).out = out ++ doubled value ∧
      (out ++ doubled value).length < size := by
  induction value generalizing out with
  | nil => simpa [quoteInto, doubled] using hout
  | cons c value ih =>
    rw [quoteInto] at h ⊢
    split at h
    · exact absurd h (by simp)
    · rename_i hroom
      have hstep : (out ++ if c = 39 then [39, 39] else [c]).length < size := by
        split <;> simp <;> omega
      obtain ⟨heq, hlen⟩ := ih hstep h
      rw [if_neg hroom, heq]
      have hsame : out ++ doubled (c :: value)
          = (out ++ if c = 39 then [39, 39] else [c]) ++ doubled value := by
        simp [doubled]
      rw [hsame]
      exact ⟨rfl, hlen⟩

/-- Two writes succeed one behind the other. -/
theorem andThen_ok {w : Written} {next : List UInt8 → Written} (h : (w.andThen next).error = none) :
    w.error = none ∧ (next w.out).error = none ∧ w.andThen next = next w.out := by
  unfold Written.andThen at h ⊢
  cases herror : w.error with
  | none =>
    rw [herror] at h
    exact ⟨rfl, h, rfl⟩
  | some code =>
    rw [herror] at h
    exact absurd (herror.symm.trans h) (by simp)

/-- A parameter that was put in fits as its literal. -/
theorem putParameter_ok {size : Nat} {oid : Int} {value : Option (List UInt8)} {out : List UInt8}
    (h : (putParameter size false oid out value).error = none) :
    (putParameter size false oid out value).out = out ++ literalBytes oid value ∧
      (out ++ literalBytes oid value).length < size := by
  cases value with
  | none => exact putInto_ok h
  | some value =>
    unfold putParameter literalBytes at *
    dsimp only at h ⊢
    rw [Bool.false_or] at h ⊢
    split at h
    · rename_i hnumeric
      rw [if_pos hnumeric, if_pos hnumeric]
      exact putInto_ok h
    · rename_i hnumeric
      rw [if_neg hnumeric, if_neg hnumeric]
      obtain ⟨hboth, hclose, heq⟩ := andThen_ok h
      obtain ⟨hopen, hquote, heq'⟩ := andThen_ok hboth
      obtain ⟨hout, hlen⟩ := putInto_ok hopen
      rw [hout] at heq' hquote
      obtain ⟨hout', hlen'⟩ := quoteInto_ok hlen hquote
      rw [heq', hout'] at hclose
      obtain ⟨hout'', hlen''⟩ := putInto_ok hclose
      rw [heq, heq', hout', hout'']
      simp only [List.append_assoc, List.cons_append, List.nil_append] at hlen'' ⊢
      exact ⟨trivial, hlen''⟩

section
variable {types : List Int} {values : List (Option (List UInt8))}

/-- When substitution succeeds, it has written `filled`, and it fits. -/
theorem substituteFrom_filled {size fuel : Nat} {q : Bool} {out text : List UInt8}
    (hout : out.length < size)
    (h : (substituteFrom types values false size fuel q out text).error = none) :
    ∃ more, filledFrom types values fuel q text = some more ∧
      (substituteFrom types values false size fuel q out text).out = out ++ more ∧
      (out ++ more).length < size := by
  induction fuel generalizing q out text with
  | zero => exact ⟨[], rfl, by simp [substituteFrom], by simpa using hout⟩
  | succ fuel ih =>
    cases text with
    | nil => exact ⟨[], rfl, by simp [substituteFrom], by simpa using hout⟩
    | cons c text =>
      rw [substituteFrom] at h ⊢
      rw [filledFrom]
      have hsame : (q = false ∧ c = 36 ∧ headIs (fun d => isdigit d && d != 48) text = true) ↔
          (q = false ∧ startsHole (c :: text) = true) := by simp [startsHole]
      by_cases hhole : q = false ∧ startsHole (c :: text) = true
      · rw [if_pos (hsame.mpr hhole)] at h ⊢
        rw [if_pos hhole]
        cases hread : readHole 0 text with
        | error code =>
          rw [hread] at h
          exact absurd h (by simp)
        | ok read =>
          obtain ⟨n, rest⟩ := read
          rw [hread] at h
          dsimp only at h ⊢
          split at h
          · exact absurd h (by simp)
          rename_i hrange
          rw [if_neg hrange, if_neg hrange]
          obtain ⟨hput, hmore, heq⟩ := andThen_ok h
          obtain ⟨hout', hlen'⟩ := putParameter_ok hput
          rw [hout'] at heq hmore
          obtain ⟨more, hfilled, hwritten, hlen⟩ := ih hlen' hmore
          refine ⟨_, by rw [hfilled]; rfl, ?_, ?_⟩
          · rw [heq, hwritten, List.append_assoc]
            rfl
          · rw [← List.append_assoc]
            exact hlen
      · rw [if_neg (fun hc => hhole (hsame.mp hc))] at h ⊢
        rw [if_neg hhole]
        obtain ⟨hput, hmore, heq⟩ := andThen_ok h
        obtain ⟨hout', hlen'⟩ := putInto_ok hput
        rw [hout'] at heq hmore
        obtain ⟨more, hfilled, hwritten, hlen⟩ := ih hlen' hmore
        refine ⟨c :: more, by rw [hfilled]; rfl, ?_, ?_⟩
        · rw [heq, hwritten]
          simp
        · simpa using hlen

/-- What is left behind a hole is the back of the text. -/
theorem readHole_suffix {m n : Nat} {text rest : List UInt8}
    (h : readHole m text = .ok (n, rest)) : rest <:+ text := by
  fun_induction readHole m text with
  | case1 => cases h; exact List.suffix_refl _
  | case2 => cases h
  | case3 _ _ _ _ _ ih => exact (ih h).trans (List.suffix_cons _ _)
  | case4 => cases h; exact List.suffix_refl _

/-- Fuel beyond the length of the text changes nothing. -/
theorem filledFrom_fuel {fuel fuel' : Nat} (q : Bool) {text : List UInt8} (h : text.length < fuel)
    (h' : text.length < fuel') :
    filledFrom types values fuel q text = filledFrom types values fuel' q text := by
  induction fuel generalizing fuel' q text with
  | zero => omega
  | succ fuel ih =>
    obtain ⟨fuel', rfl⟩ : ∃ n, fuel' = n + 1 := ⟨fuel' - 1, by omega⟩
    cases text with
    | nil => rfl
    | cons c text =>
      simp only [List.length_cons] at h h'
      rw [filledFrom, filledFrom]
      split
      · cases hread : readHole 0 text with
        | error code => rfl
        | ok read =>
          obtain ⟨n, rest⟩ := read
          have := (readHole_suffix hread).length_le
          dsimp only
          rw [@ih fuel' q rest (by omega) (by omega)]
      · rw [@ih fuel' _ _ (by omega) (by omega)]

/-- A byte that starts no hole is copied. -/
theorem filled_cons {q : Bool} {c : UInt8} {text : List UInt8}
    (h : ¬(q = false ∧ startsHole (c :: text) = true)) :
    filled types values q (c :: text)
      = (filled types values (if c = 39 then !q else q) text).map fun more => c :: more := by
  rw [filled, filledFrom, if_neg h]
  rfl

/-- A hole is filled. -/
theorem filled_hole {text more : List UInt8} (hhole : startsHole text = true)
    (h : filled types values false text = some more) :
    ∃ n rest more', readHole 0 text.tail = .ok (n, rest) ∧ rest <:+ text ∧
      rest.length < text.length ∧
      filled types values false rest = some more' ∧
      more = literalBytes (oidOf types n) (values.getD (n - 1) none) ++ more' := by
  cases text with
  | nil => exact absurd hhole (by simp [startsHole])
  | cons c text =>
    rw [filled, filledFrom, if_pos ⟨rfl, hhole⟩] at h
    cases hread : readHole 0 text with
    | error code =>
      rw [hread] at h
      exact absurd h (by simp)
    | ok read =>
      obtain ⟨n, rest⟩ := read
      have hsuffix := readHole_suffix hread
      have hlen := hsuffix.length_le
      rw [hread] at h
      dsimp only at h
      split at h
      · exact absurd h (by simp)
      · obtain ⟨more', hmore, rfl⟩ := Option.map_eq_some_iff.mp h
        refine ⟨n, rest, more', hread, hsuffix.trans (List.suffix_cons c text), by simp; omega, ?_,
          rfl⟩
        rw [filled, ← hmore]
        exact filledFrom_fuel false (by omega) (by simp; omega)

/-- In a string everything is copied. -/
theorem filled_inside (c : UInt8) (text : List UInt8) :
    filled types values true (c :: text)
      = (filled types values (if c = 39 then false else true) text).map fun more => c :: more := by
  rw [filled_cons (by simp)]
  rfl

/-- Bytes that are neither quotes nor dollar signs are copied. -/
theorem filled_quiets {w : List UInt8} (hw : ∀ c ∈ w, c ≠ 39 ∧ c ≠ 36) (r : List UInt8) :
    filled types values false (w ++ r) = (filled types values false r).map fun more => w ++ more := by
  induction w with
  | nil => simp
  | cons c w ih =>
    obtain ⟨hquote, hdollar⟩ := hw c (by simp)
    rw [List.cons_append, filled_cons (by simp [startsHole, hdollar]), if_neg hquote,
      ih fun d hd => hw d (by simp [hd])]
    simp [Function.comp_def]

/-- A string is copied. -/
theorem filled_string (n : Nat) (a : List UInt8) {s r : List UInt8}
    (h : readString n a = .ok (s, r)) :
    ∃ w, a = w ++ r ∧
      filled types values true a = (filled types values false r).map fun more => w ++ more := by
  fun_induction readString n a generalizing s r with
  | case1 n => exact absurd h (by simp)
  | case2 n more hlong => exact absurd h (by simp)
  | case3 n more hshort ih =>
    obtain ⟨inner, -, hmore⟩ := consText_ok h
    obtain ⟨w, rfl, hfilled⟩ := ih hmore
    refine ⟨39 :: 39 :: w, rfl, ?_⟩
    rw [filled_inside, if_pos rfl, filled_cons (by simp [startsHole]), if_pos rfl, Bool.not_false,
      hfilled]
    simp [Function.comp_def]
  | case4 n more hnot =>
    obtain ⟨-, rfl⟩ : [] = s ∧ more = r := by simpa using h
    exact ⟨[39], rfl, by rw [filled_inside, if_pos rfl]; rfl⟩
  | case5 n c more hpair hquote hlong => exact absurd h (by simp)
  | case6 n c more hpair hquote hshort ih =>
    obtain ⟨inner, -, hmore⟩ := consText_ok h
    obtain ⟨w, rfl, hfilled⟩ := ih hmore
    refine ⟨c :: w, rfl, ?_⟩
    rw [filled_inside, if_neg fun hc => hquote hc, hfilled]
    simp [Function.comp_def]

/-- A byte in front does not change an error. -/
theorem consText_error {c : UInt8} {r : Except ErrorCode (List UInt8 × List UInt8)}
    {code : ErrorCode} (h : consText c r = .error code) : r = .error code := by
  cases r with
  | error code' => exact h
  | ok read => exact absurd h (by simp [consText])

/-- A string that the lexer refuses is refused as it is copied. -/
theorem filled_string_error (n : Nat) (a : List UInt8) {code : ErrorCode}
    (h : readString n a = .error code) {o : List UInt8}
    (hfilled : filled types values true a = some o) :
    ∃ code', readString n o = .error code' := by
  fun_induction readString n a generalizing o with
  | case1 n =>
    obtain rfl : [] = o := by simpa [filled, filledFrom] using hfilled
    exact ⟨_, rfl⟩
  | case2 n more hlong =>
    rw [filled_inside, if_pos rfl, filled_cons (by simp [startsHole]), if_pos rfl,
      Bool.not_false, Option.map_map] at hfilled
    obtain ⟨more', -, rfl⟩ := Option.map_eq_some_iff.mp hfilled
    exact ⟨.TOKEN_TOO_LONG, by simp only [Function.comp, readString, if_pos hlong]⟩
  | case3 n more hshort ih =>
    rw [filled_inside, if_pos rfl, filled_cons (by simp [startsHole]), if_pos rfl,
      Bool.not_false, Option.map_map] at hfilled
    obtain ⟨more', hmore, rfl⟩ := Option.map_eq_some_iff.mp hfilled
    obtain ⟨code', hcode'⟩ := ih (consText_error h) hmore
    exact ⟨code', by simp only [Function.comp, readString, if_neg hshort, hcode', consText]⟩
  | case4 n more hnot => exact absurd h (by simp)
  | case5 n c more hpair hquote hlong =>
    have hc : c ≠ 39 := fun hc => hquote hc
    rw [filled_inside, if_neg hc] at hfilled
    obtain ⟨more', -, rfl⟩ := Option.map_eq_some_iff.mp hfilled
    exact ⟨_, by rw [readString_byte n _ hc, if_pos hlong]⟩
  | case6 n c more hpair hquote hshort ih =>
    have hc : c ≠ 39 := fun hc => hquote hc
    rw [filled_inside, if_neg hc] at hfilled
    obtain ⟨more', hmore, rfl⟩ := Option.map_eq_some_iff.mp hfilled
    obtain ⟨code', hcode'⟩ := ih (consText_error h) hmore
    exact ⟨code', by rw [readString_byte n _ hc, if_neg hshort, hcode']; rfl⟩

/-- A token of the template is copied. -/
theorem filled_token {text r : List UInt8} {t : Token} (h : lexOne text = .token t r)
    (hhole : startsHole text = false) {w : List UInt8} (htext : text = w ++ r) {o : List UInt8}
    (hfilled : filled types values false text = some o) :
    ∃ o', filled types values false r = some o' ∧ o = w ++ o' := by
  suffices hcopy : ∃ w', text = w' ++ r ∧
      filled types values false text = (filled types values false r).map fun more => w' ++ more by
    obtain ⟨w', htext', heq⟩ := hcopy
    obtain rfl := List.append_cancel_right (htext.symm.trans htext')
    rw [heq] at hfilled
    obtain ⟨o', ho', rfl⟩ := Option.map_eq_some_iff.mp hfilled
    exact ⟨o', ho', rfl⟩
  rcases lexOne_token h with ⟨w', -, rfl, hquiet, -⟩ | ⟨rfl, -⟩ | ⟨rfl, -⟩ | ⟨more, s, rfl, hread, -⟩
  · refine ⟨w', rfl, filled_quiets (fun c hc => ?_) r⟩
    have hc := hquiet c hc
    simp only [isQuiet, Bool.and_eq_true, bne_iff_ne] at hc
    exact ⟨hc.1.1.1.1, hc.1.2⟩
  · exact ⟨[45], rfl, filled_quiets (w := [45]) (by simp) r⟩
  · exact ⟨[59], rfl, filled_quiets (w := [59]) (by simp) r⟩
  · obtain ⟨w', rfl, hstring⟩ := @filled_string types values 0 more _ _ hread
    refine ⟨39 :: w', rfl, ?_⟩
    rw [filled_cons (by simp [startsHole]), if_pos rfl, Bool.not_false, hstring]
    simp [Function.comp_def]

end

/-! ### Literals -/

/-- The bytes of a chunk are one blank, or a spelling of its token. -/
def Chunk.Closed (u : Chunk) : Prop :=
  match u.token with
  | none => ∃ c, u.bytes = [c] ∧ isspace c = true
  | some t => Spells u.bytes t

/-- Doubling the quotes makes no value shorter. -/
theorem length_doubled (value : List UInt8) : value.length ≤ (doubled value).length := by
  induction value with
  | nil => simp
  | cons c value ih =>
    have hcons : doubled (c :: value) = (if c = 39 then [39, 39] else [c]) ++ doubled value := by
      simp [doubled]
    rw [hcons, List.length_append, List.length_cons]
    split <;> simp only [List.length_cons, List.length_nil] <;> omega

/-- A text with its quotes doubled is read as that text. -/
theorem readString_doubled (n : Nat) {value : List UInt8} (h : n + value.length ≤ VALUE_LEN - 1) :
    readString n (doubled value ++ [39]) = .ok (value, []) := by
  induction value generalizing n with
  | nil => exact readString_close n (by simp)
  | cons c value ih =>
    simp only [List.length_cons] at h
    have hroom : ¬VALUE_LEN - 1 ≤ n := by omega
    have hcons : doubled (c :: value) = (if c = 39 then [39, 39] else [c]) ++ doubled value := by
      simp [doubled]
    rw [hcons]
    by_cases hc : c = 39
    · subst hc
      simp only [if_true, List.cons_append, List.nil_append, readString, if_neg hroom,
        ih (n + 1) (by omega), consText]
    · rw [if_neg hc, List.append_assoc, List.singleton_append, readString_byte n _ hc,
        if_neg hroom, ih (n + 1) (by omega)]
      rfl

/-- A number is lexed back from its spelling. -/
theorem isNumber_spells {text : List UInt8} (h : isNumber text = true)
    (hlen : text.length < VALUE_LEN) : Spells text ⟨.TOKEN_NUMBER, text⟩ := by
  unfold isNumber at h
  rw [Bool.and_eq_true] at h
  cases text with
  | nil => exact absurd h.1 (by simp [headIs])
  | cons c text =>
    have hrest : (takeNumber false (c :: text)).2 = [] := by simpa using h.2
    have hread := (takeNumber_reads false (c :: text)).1
    rw [hrest, List.append_nil] at hread
    exact .number (by simpa [headIs] using h.1) (Prod.ext hread.symm hrest) hlen

/-- A number with its sign is one or two tokens. -/
theorem numberLiteral_spec {sign us : List Chunk} {text : List UInt8}
    (h : numberLiteral sign text = some us) (hlen : text.length < VALUE_LEN)
    (hsign : ∀ u ∈ sign, u.Closed ∧ u.bound = true) :
    bytesOf us = bytesOf sign ++ text ∧ (∀ u ∈ us, u.Closed ∧ u.bound = true) ∧ us ≠ [] := by
  unfold numberLiteral at h
  split at h
  · rename_i hnumber
    obtain rfl := Option.some.inj h
    refine ⟨by simp [bytesOf], fun u hu => ?_, by simp⟩
    rcases List.mem_append.mp hu with hu | hu
    · exact hsign u hu
    · obtain rfl := List.mem_singleton.mp hu
      exact ⟨isNumber_spells hnumber hlen, rfl⟩
  · exact absurd h (by simp)

/-- A literal is what is written for its value. -/
theorem literal_spec {oid : Int} {value : Option (List UInt8)} {us : List Chunk}
    (h : literal oid value = some us) (hlen : (literalBytes oid value).length < VALUE_LEN) :
    bytesOf us = literalBytes oid value ∧ (∀ u ∈ us, u.Closed ∧ u.bound = true) ∧ us ≠ [] := by
  cases value with
  | none =>
    obtain rfl := Option.some.inj h
    refine ⟨by simp [bytesOf, literalBytes], fun u hu => ?_, by simp⟩
    obtain rfl := List.mem_singleton.mp hu
    refine ⟨?_, rfl⟩
    show Spells (ascii "NULL") ⟨.TOKEN_KEYWORD_NULL, ascii "NULL"⟩
    exact Spells.word (c := 78) (w := [85, 76, 76]) (by decide) (by decide) (by decide)
  | some value =>
    have hminus : (⟨[45], some ⟨.TOKEN_MINUS, [45]⟩, true⟩ : Chunk).Closed :=
      Spells.symbol (c := 45) (by decide)
    have hplus : (⟨[43], some ⟨.TOKEN_PLUS, [43]⟩, true⟩ : Chunk).Closed :=
      Spells.symbol (c := 43) (by decide)
    unfold literal at h
    unfold literalBytes at hlen ⊢
    dsimp only at h hlen ⊢
    split at h
    · rename_i hnumeric
      rw [if_pos hnumeric] at hlen ⊢
      have htail : value.tail.length < VALUE_LEN := by
        rw [List.length_tail]
        omega
      split at h
      · rename_i hhead
        obtain ⟨hbytes, hrest⟩ := numberLiteral_spec h htail (by simp [hminus])
        refine ⟨?_, hrest⟩
        obtain ⟨rest, rfl⟩ := List.head?_eq_some_iff.mp hhead
        rw [hbytes]
        rfl
      split at h
      · rename_i hhead
        obtain ⟨hbytes, hrest⟩ := numberLiteral_spec h htail (by simp [hplus])
        refine ⟨?_, hrest⟩
        obtain ⟨rest, rfl⟩ := List.head?_eq_some_iff.mp hhead
        rw [hbytes]
        rfl
      · obtain ⟨hbytes, hrest⟩ := numberLiteral_spec h hlen (by simp)
        exact ⟨by rw [hbytes]; rfl, hrest⟩
    · rename_i hnumeric
      rw [if_neg hnumeric] at hlen ⊢
      obtain rfl := Option.some.inj h
      refine ⟨by simp [bytesOf], fun u hu => ?_, by simp⟩
      obtain rfl := List.mem_singleton.mp hu
      have hlength := length_doubled value
      simp only [List.length_cons, List.length_append, List.length_nil] at hlen
      have hread := @readString_doubled 0 value (by omega)
      obtain ⟨w, hw, -, hquoted⟩ := readString_quoted 0 _ hread
      rw [List.append_nil] at hw
      rw [← hw] at hquoted
      exact ⟨Spells.text hquoted, rfl⟩

/-! ### What reading a template gives -/

/-- The chunks `us` of a text as a template, what is written for it (`o`) and what is written
for the text where reading stops (`o'`). -/
structure TemplateSpec (types : List Int) (values : List (Option (List UInt8)))
    (text : List UInt8) (t : Template) (us : List Chunk) (o o' : List UInt8) : Prop where
  filled : filled types values false t.rest = some o'
  bytes : o = bytesOf us ++ o'
  closed : ∀ u ∈ us, u.Closed
  /-- A last token of the template's own ends before a dot that no hole follows. -/
  last : ∀ u, us.getLast? = some u → u.bound = false → ∀ tok, u.token = some tok →
    ∀ p, t.rest.head? = some 46 → p.head? = some 46 → p.tail.head? = t.rest.tail.head? →
      lexOne (u.bytes ++ p) = .token tok p
  nothing : us = [] → t.rest = text
  suffix : t.rest <:+ text
  hole : startsHole t.rest = false
  stop : match t.error with
    | none => lexOne t.rest = .stop
    | some code => lexOne t.rest = .refuse code

/-- One more chunk, or more, in front of a template. -/
theorem TemplateSpec.behind {types : List Int} {values : List (Option (List UInt8))}
    {text rest : List UInt8} {t : Template} {us vs : List Chunk} {o o' w : List UInt8}
    (h : TemplateSpec types values rest t us o o') (hsuffix : rest <:+ text)
    (hbytes : bytesOf vs = w)
    (hclosed : ∀ u ∈ vs, u.Closed) (hvs : vs ≠ [])
    (hlast : ∀ u, vs.getLast? = some u → u.bound = false → ∀ tok, u.token = some tok →
      ∀ p, rest.head? = some 46 → p.head? = some 46 → p.tail.head? = rest.tail.head? →
        lexOne (u.bytes ++ p) = .token tok p)
    (front : Option (List Chunk)) :
    TemplateSpec types values text (t.behind front) (vs ++ us) (w ++ o) o' where
  filled := h.filled
  bytes := by
    rw [h.bytes, ← hbytes, ← List.append_assoc]
    simp [bytesOf]
  closed u hu := (List.mem_append.mp hu).elim (hclosed u) (h.closed u)
  last u hu hbound tok htok p hdot hp htail := by
    cases us with
    | nil =>
      rw [List.append_nil] at hu
      have hrest : (t.behind front).rest = rest := h.nothing rfl
      rw [hrest] at hdot htail
      exact hlast u hu hbound tok htok p hdot hp htail
    | cons v us =>
      rw [List.getLast?_append, List.getLast?_cons] at hu
      exact h.last u (by rw [List.getLast?_cons]; simpa using hu) hbound tok htok p hdot hp htail
  nothing hnil := absurd (List.append_eq_nil_iff.mp hnil).1 hvs
  suffix := h.suffix.trans hsuffix
  hole := h.hole
  stop := h.stop

/-- What the template says of the filled text. -/
theorem template_spec {types : List Int} {values : List (Option (List UInt8))} {fuel : Nat}
    {text o : List UInt8} {us : List Chunk} (hfuel : text.length < fuel)
    (hfilled : filled types values false text = some o) (hlen : o.length < VALUE_LEN)
    (hchunks : (readTemplate types values fuel text).chunks = some us) :
    ∃ o', TemplateSpec types values text (readTemplate types values fuel text) us o o' := by
  induction fuel generalizing text o us with
  | zero => omega
  | succ fuel ih =>
    rw [readTemplate] at hchunks ⊢
    by_cases hhole : startsHole text = true
    · obtain ⟨n, rest, more, hread, hsuffix, hshort, hmore, rfl⟩ := filled_hole hhole hfilled
      rw [List.length_append] at hlen
      rw [if_pos hhole, hread] at hchunks ⊢
      dsimp only at hchunks ⊢
      obtain ⟨vs, hvs, hrest⟩ := Option.bind_eq_some_iff.mp hchunks
      obtain ⟨us, hus, rfl⟩ := Option.map_eq_some_iff.mp hrest
      obtain ⟨o', hspec⟩ := ih (by omega) hmore (by omega) hus
      obtain ⟨hbytes, hclosed, hne⟩ := literal_spec hvs (by omega)
      refine ⟨o', hspec.behind hsuffix hbytes (fun u hu => (hclosed u hu).1) hne
        (fun u hu hbound => ?_) _⟩
      rw [(hclosed u (List.mem_of_getLast? hu)).2] at hbound
      exact absurd hbound (by simp)
    · rw [Bool.not_eq_true] at hhole
      rw [if_neg (by simp [hhole])] at hchunks ⊢
      cases hone : lexOne text with
      | stop =>
        rw [hone] at hchunks
        obtain rfl := Option.some.inj hchunks
        exact ⟨o, hfilled, rfl, by simp, by simp, fun _ => rfl, List.suffix_refl _, hhole, hone⟩
      | refuse code =>
        rw [hone] at hchunks
        obtain rfl := Option.some.inj hchunks
        exact ⟨o, hfilled, rfl, by simp, by simp, fun _ => rfl, List.suffix_refl _, hhole, hone⟩
      | skip rest =>
        rw [hone] at hchunks
        obtain ⟨c, rfl, hc⟩ := lexOne_skip hone
        dsimp only at hchunks ⊢
        have hbytes : (c :: rest).take ((c :: rest).length - rest.length) = [c] := by
          rw [List.length_cons, Nat.add_sub_cancel_left]
          simp
        rw [hbytes] at hchunks ⊢
        obtain ⟨us, hus, rfl⟩ := Option.map_eq_some_iff.mp
          (show _ = some us from hchunks)
        have hquote : c ≠ 39 := by
          rintro rfl
          exact absurd hc (by decide)
        rw [filled_cons (by simp [hhole]), if_neg hquote] at hfilled
        obtain ⟨more, hmore, rfl⟩ := Option.map_eq_some_iff.mp hfilled
        simp only [List.length_cons] at hfuel hlen
        obtain ⟨o', hspec⟩ := ih (by omega) hmore (by omega) hus
        refine ⟨o', @TemplateSpec.behind _ _ _ _ _ _ [⟨[c], none, false⟩] _ _ [c] hspec
          (List.suffix_cons c rest) rfl ?_ (by simp) ?_ _⟩
        · intro u hu
          obtain rfl := List.mem_singleton.mp hu
          exact ⟨c, rfl, hc⟩
        · intro u hu _ tok htok
          obtain rfl : (⟨[c], none, false⟩ : Chunk) = u := by simpa using hu
          exact absurd htok (by simp)
      | token t rest =>
        rw [hone] at hchunks
        obtain ⟨w, rfl, hspells, -, hdot⟩ := lexOne_spells hone
        dsimp only at hchunks ⊢
        have hbytes : (w ++ rest).take ((w ++ rest).length - rest.length) = w := by
          rw [List.length_append, Nat.add_sub_cancel]
          simp
        rw [hbytes] at hchunks ⊢
        obtain ⟨us, hus, rfl⟩ := Option.map_eq_some_iff.mp
          (show _ = some us from hchunks)
        obtain ⟨more, hmore, rfl⟩ := filled_token hone hhole rfl hfilled
        have hpositive := List.length_pos_iff.mpr hspells.ne_nil
        rw [List.length_append] at hfuel hlen
        obtain ⟨o', hspec⟩ := ih (by omega) hmore (by omega) hus
        refine ⟨o', @TemplateSpec.behind _ _ _ _ _ _ [⟨w, some t, false⟩] _ _ w hspec
          (List.suffix_append w rest) (by simp [bytesOf]) ?_ (by simp) ?_ _⟩
        · intro u hu
          obtain rfl := List.mem_singleton.mp hu
          exact hspells
        · intro u hu _ tok htok p hd hp htail
          obtain rfl : (⟨w, some t, false⟩ : Chunk) = u := by simpa using hu
          obtain rfl : t = tok := by simpa using htok
          exact hdot p hd hp htail

/-! ### Where the chunks are read as they are -/

/-- What a turn of the lexer makes of a chunk. -/
def Chunk.turn (u : Chunk) (rest : List UInt8) : Lexed :=
  match u.token with
  | none => .skip rest
  | some t => .token t rest

/-- Each chunk is read as it is, in front of the chunks behind it and a text. -/
def ReadBy (o : List UInt8) : List Chunk → Prop
  | [] => True
  | u :: us => lexOne (u.bytes ++ (bytesOf us ++ o)) = u.turn (bytesOf us ++ o) ∧ ReadBy o us

/-- The bytes of chunks are those of the first and of the rest. -/
theorem bytesOf_cons (u : Chunk) (us : List Chunk) : bytesOf (u :: us) = u.bytes ++ bytesOf us := by
  simp [bytesOf]

/-- The tokens of chunks are those of the first and of the rest. -/
theorem tokensOf_cons (u : Chunk) (us : List Chunk) :
    tokensOf (u :: us) = u.token.toList ++ tokensOf us := by
  cases htoken : u.token <;> simp [tokensOf, htoken]

/-- Chunks that are read as they are give their tokens. -/
theorem ReadBy.lexes {o : List UInt8} {us : List Chunk} (h : ReadBy o us) {tokens : List Token}
    (hmax : tokens.length ≤ MAX_TOKENS) :
    lexFrom (bytesOf us ++ o) tokens =
      if tokens.length + (tokensOf us).length ≤ MAX_TOKENS then lexFrom o (tokens ++ tokensOf us)
      else .error .TOO_MANY_TOKENS := by
  induction us generalizing tokens with
  | nil => simp [bytesOf, tokensOf, hmax]
  | cons u us ih =>
    obtain ⟨hone, hmore⟩ := h
    rw [bytesOf_cons, List.append_assoc, lexFrom_eq, hone, tokensOf_cons]
    cases htoken : u.token with
    | none =>
      rw [Chunk.turn, htoken, Option.toList_none, List.nil_append]
      exact ih hmore hmax
    | some t =>
      rw [Chunk.turn, htoken]
      dsimp only
      split
      · rename_i hfull
        rw [if_neg (by simp; omega)]
      · rename_i hroom
        rw [ih hmore (by simp; omega)]
        simp only [List.length_append, List.length_cons, List.length_nil, Option.toList_some,
          List.append_assoc, Nat.add_assoc]

/-- No token of the chunks goes on with the byte behind it, `next` being the one behind them
all. -/
def Separate (next : Option UInt8) : List Chunk → Bool
  | [] => true
  | u :: us =>
    (u.token.all fun t => stops t.type ((bytesOf us).head?.or next)) && Separate next us

/-- A closed chunk has a byte. -/
theorem Chunk.Closed.ne_nil {u : Chunk} (h : u.Closed) : u.bytes ≠ [] := by
  unfold Chunk.Closed at h
  split at h
  · obtain ⟨c, hbytes, -⟩ := h
    simp [hbytes]
  · exact h.ne_nil

/-- A chunk starts with no zero byte and no dot. -/
theorem Chunk.Closed.starts {u : Chunk} (h : u.Closed) :
    ∃ c w, u.bytes = c :: w ∧ c ≠ 0 ∧ c ≠ 46 := by
  have hall : ∀ c : UInt8, isspace c = true → c ≠ 0 ∧ c ≠ 46 := forall_byte (by decide +kernel)
  unfold Chunk.Closed at h
  split at h
  · obtain ⟨c, hbytes, hc⟩ := h
    exact ⟨c, [], hbytes, hall c hc⟩
  · obtain ⟨c, w, hbytes, hzero, hdot, -⟩ := h.starts
    exact ⟨c, w, hbytes, hzero, hdot⟩

/-- Chunks that stand apart are lexed one by one. -/
theorem readBy_of_separate {o : List UInt8} {next : Option UInt8} {us : List Chunk}
    (hclosed : ∀ u ∈ us, u.Closed) (hseparate : Separate next us = true)
    (hnext : next = o.head? ∨ ∀ u, us.getLast? = some u → ∀ t, u.token = some t →
      lexOne (u.bytes ++ o) = .token t o) : ReadBy o us := by
  induction us with
  | nil => trivial
  | cons u us ih =>
    rw [Separate, Bool.and_eq_true] at hseparate
    have hmore : ReadBy o us := by
      refine ih (fun v hv => hclosed v (by simp [hv])) hseparate.2 (hnext.imp_right fun hlast v hv => ?_)
      refine hlast v ?_
      rw [List.getLast?_cons, hv]
      rfl
    refine ⟨?_, hmore⟩
    have hu := hclosed u (by simp)
    cases htoken : u.token with
    | none =>
      obtain ⟨c, hbytes, hc⟩ : ∃ c, u.bytes = [c] ∧ isspace c = true := by
        simpa [Chunk.Closed, htoken] using hu
      simp [hbytes, lexOne, hc, Chunk.turn, htoken]
    | some t =>
      have hspells : Spells u.bytes t := by simpa [Chunk.Closed, htoken] using hu
      have hstops : stops t.type ((bytesOf us).head?.or next) = true := by
        simpa [htoken] using hseparate.1
      rw [Chunk.turn, htoken]
      dsimp only
      cases us with
      | nil =>
        rcases hnext with rfl | hlast
        · exact hspells.lexOne (by simpa [bytesOf] using hstops)
        · exact hlast u (by simp) t htoken
      | cons v us =>
        obtain ⟨c, w, hbytes, -⟩ := (hclosed v (by simp)).starts
        refine hspells.lexOne ?_
        rw [bytesOf_cons, hbytes] at hstops ⊢
        exact hstops

/-! ### Where the tokens come out -/

/-- A buffer as the C string that it is read as. -/
def cstring (text : List UInt8) : List UInt8 := text.takeWhile (· ≠ 0)

/-- A text without a zero byte stands in front of the C string. -/
theorem cstring_append {a : List UInt8} (h : 0 ∉ a) (b : List UInt8) :
    cstring (a ++ b) = a ++ cstring b := by
  refine List.takeWhile_append_of_pos fun c hc => ?_
  exact decide_eq_true fun hzero => h (hzero ▸ hc)

/-- A zero byte cuts what is behind it. -/
theorem cstring_cut {a : List UInt8} (h : 0 ∈ a) (b : List UInt8) :
    cstring (a ++ b) = a.takeWhile (· ≠ 0) := by
  unfold cstring
  rw [List.takeWhile_append, if_neg]
  intro hall
  have heq := List.IsPrefix.eq_of_length (List.takeWhile_prefix _) hall
  rw [← heq] at h
  have := List.mem_takeWhile_imp h
  simp at this

/-- A C string starts as its text does. -/
theorem head_cstring {a : List UInt8} (h : a.head? ≠ some 0) : (cstring a).head? = a.head? := by
  cases a with
  | nil => rfl
  | cons c a =>
    have hc : c ≠ 0 := by simpa using h
    simp [cstring, hc]

/-- Where the tokens of the chunks come out, no zero byte is among them, and no token goes on
with the byte behind it. -/
theorem separate_of_tokens {o : List UInt8} {us : List Chunk} (hclosed : ∀ u ∈ us, u.Closed)
    (hzero : o.head? ≠ some 0) (hdot : o.head? ≠ some 46) {tokens : List Token}
    (h : lexFrom (cstring (bytesOf us ++ o)) tokens = .ok (tokens ++ tokensOf us)) :
    (∀ u ∈ us, 0 ∉ u.bytes) ∧ Separate o.head? us = true := by
  induction us generalizing tokens with
  | nil => exact ⟨by simp, rfl⟩
  | cons u us ih =>
    have hu := hclosed u (by simp)
    have hus : ∀ v ∈ us, v.Closed := fun v hv => hclosed v (by simp [hv])
    rw [bytesOf_cons, List.append_assoc, tokensOf_cons] at h
    -- what the byte behind the chunk is not
    have hnext : (bytesOf us ++ o).head? ≠ some 0 ∧ (bytesOf us ++ o).head? ≠ some 46 := by
      cases us with
      | nil => exact ⟨hzero, hdot⟩
      | cons v us =>
        obtain ⟨c, w, hbytes, hc⟩ := (hus v (by simp)).starts
        simpa [bytesOf_cons, hbytes] using hc
    by_cases hu0 : 0 ∈ u.bytes
    · exfalso
      rw [cstring_cut hu0] at h
      cases htoken : u.token with
      | none =>
        obtain ⟨c, hbytes, hc⟩ : ∃ c, u.bytes = [c] ∧ isspace c = true := by
          simpa [Chunk.Closed, htoken] using hu
        rw [hbytes] at hu0
        obtain rfl := List.mem_singleton.mp hu0
        exact absurd hc (by decide)
      | some t =>
        have hspells : Spells u.bytes t := by simpa [Chunk.Closed, htoken] using hu
        obtain ⟨code, hcode⟩ := hspells.cut hu0
        rw [lexFrom_eq, hcode] at h
        exact absurd h (by simp)
    · rw [cstring_append hu0] at h
      have hhead := head_cstring hnext.1
      cases htoken : u.token with
      | none =>
        obtain ⟨c, hbytes, hc⟩ : ∃ c, u.bytes = [c] ∧ isspace c = true := by
          simpa [Chunk.Closed, htoken] using hu
        rw [hbytes, htoken, lexFrom_eq] at h
        simp only [List.cons_append, List.nil_append, lexOne, hc, if_true, Option.toList_none] at h
        obtain ⟨hall, hseparate⟩ := ih hus h
        refine ⟨?_, by rw [Separate, htoken, hseparate]; rfl⟩
        intro v hv
        rcases List.mem_cons.mp hv with rfl | hv
        · exact hu0
        · exact hall v hv
      | some t =>
        have hspells : Spells u.bytes t := by simpa [Chunk.Closed, htoken] using hu
        rw [htoken, Option.toList_some] at h
        cases hstops : stops t.type (bytesOf us ++ o).head? with
        | true =>
          rw [lexFrom_eq, hspells.lexOne (by rw [hhead]; exact hstops)] at h
          dsimp only at h
          split at h
          · exact absurd h (by simp)
          obtain ⟨hall, hseparate⟩ := @ih hus (tokens ++ [t]) (by simpa using h)
          refine ⟨?_, ?_⟩
          · intro v hv
            rcases List.mem_cons.mp hv with rfl | hv
            · exact hu0
            · exact hall v hv
          · rw [Separate, htoken, hseparate, ← List.head?_append]
            simpa using hstops
        | false =>
          exfalso
          have hgoes := hspells.goesOn (o := cstring (bytesOf us ++ o)) (by rw [hhead]; exact hstops)
            (by rw [hhead]; exact hnext.2)
          rw [lexFrom_eq] at h
          cases hone : lexOne (u.bytes ++ cstring (bytesOf us ++ o)) with
          | stop =>
            rw [hone] at h
            simp at h
          | refuse code =>
            rw [hone] at h
            exact absurd h (by simp)
          | skip rest =>
            obtain ⟨c, heq, hc⟩ := lexOne_skip hone
            obtain ⟨d, w, hw, -, -, hd⟩ := hspells.starts
            rw [hw, List.cons_append] at heq
            rw [(List.cons.inj heq).1, hc] at hd
            exact absurd hd (by simp)
          | token t' rest =>
            rw [hone] at h
            dsimp only at h
            split at h
            · exact absurd h (by simp)
            obtain ⟨a, c, ts, -, heq⟩ := lexFrom_split h
            have hsame : t = t' := by
              rw [List.append_assoc] at heq
              have := List.append_cancel_left heq
              simpa using congrArg List.head? this
            exact hgoes rest (hsame ▸ hone)

/-! ### Where the template is refused -/

section
variable {types : List Int} {values : List (Option (List UInt8))}

/-- Only two bytes decide whether an operator is refused. -/
theorem readOperator_error {a b : List UInt8} {code : ErrorCode} (h : readOperator a = .error code)
    (hsame : a.take 2 = b.take 2) : readOperator b = .error code := by
  have hhead : a.head? = b.head? := by
    have := congrArg List.head? hsame
    simpa [List.head?_take] using this
  unfold readOperator at h ⊢
  rw [← hsame, ← hhead]
  split at h
  · exact absurd h (by simp [operatorOf])
  split at h
  · exact absurd h (by simp [operatorOf])
  split at h
  · exact absurd h (by simp [operatorOf])
  split at h
  · exact absurd h (by simp [operatorOf])
  split at h
  · exact absurd h (by simp [operatorOf])
  split at h
  · exact absurd h (by simp [operatorOf])
  split at h
  · exact absurd h (by simp [operatorOf])
  · rename_i hle hge hne hbang hlt hgt heq
    rw [if_neg hle, if_neg hge, if_neg hne, if_neg hbang, if_neg hlt, if_neg hgt, if_neg heq]
    exact h

/-- Without a hole in its first two bytes, a text keeps them. -/
theorem filled_heads {c : UInt8} {text o : List UInt8} (hhole : startsHole (c :: text) = false)
    (hnext : startsHole text = false) (hfilled : filled types values false (c :: text) = some o) :
    ∃ o', o = c :: o' ∧ o'.head? = text.head? ∧
      filled types values (if c = 39 then true else false) text = some o' := by
  rw [filled_cons (by simp [hhole])] at hfilled
  obtain ⟨o', ho', rfl⟩ := Option.map_eq_some_iff.mp hfilled
  refine ⟨o', rfl, ?_, by simpa using ho'⟩
  cases text with
  | nil =>
    obtain rfl : [] = o' := by simpa [filled, filledFrom] using ho'
    rfl
  | cons d text =>
    rw [filled_cons (by simp [hnext])] at ho'
    obtain ⟨o'', -, rfl⟩ := Option.map_eq_some_iff.mp ho'
    rfl

/-- A string that is refused is refused when it is cut off at a zero byte. -/
theorem readString_cstring (n : Nat) (a : List UInt8) {code : ErrorCode}
    (h : readString n a = .error code) : ∃ code', readString n (cstring a) = .error code' := by
  fun_induction readString n a with
  | case1 n => exact ⟨_, rfl⟩
  | case2 n more hlong =>
    refine ⟨.TOKEN_TOO_LONG, ?_⟩
    have hquotes : cstring (39 :: 39 :: more) = 39 :: 39 :: cstring more := by simp [cstring]
    simp only [hquotes, readString, if_pos hlong]
  | case3 n more hshort ih =>
    obtain ⟨code', hcode'⟩ := ih (consText_error h)
    have hquotes : cstring (39 :: 39 :: more) = 39 :: 39 :: cstring more := by simp [cstring]
    exact ⟨code', by simp only [hquotes, readString, if_neg hshort, hcode', consText]⟩
  | case4 n more hnot => exact absurd h (by simp)
  | case5 n c more hpair hquote hlong =>
    have hc : c ≠ 39 := fun hc => hquote hc
    by_cases hzero : c = 0
    · subst hzero
      exact ⟨.UNTERMINATED_STRING, by simp [cstring, readString]⟩
    · have hcut : cstring (c :: more) = c :: cstring more := by simp [cstring, hzero]
      exact ⟨.TOKEN_TOO_LONG, by rw [hcut, readString_byte n _ hc, if_pos hlong]⟩
  | case6 n c more hpair hquote hshort ih =>
    have hc : c ≠ 39 := fun hc => hquote hc
    by_cases hzero : c = 0
    · subst hzero
      exact ⟨.UNTERMINATED_STRING, by simp [cstring, readString]⟩
    · obtain ⟨code', hcode'⟩ := ih (consText_error h)
      have hcut : cstring (c :: more) = c :: cstring more := by simp [cstring, hzero]
      exact ⟨code', by rw [hcut, readString_byte n _ hc, if_neg hshort, hcode']; rfl⟩

/-- What the lexer refuses in the template it refuses in what is written for it. -/
theorem filled_refused {text o : List UInt8} {code : ErrorCode} (hone : lexOne text = .refuse code)
    (hzero : 0 ∉ text) (hhole : startsHole text = false) (hnext : startsHole text.tail = false)
    (hfilled : filled types values false text = some o) (hlen : o.length < VALUE_LEN) :
    ∃ code', lexOne (cstring o) = .refuse code' := by
  cases text with
  | nil => exact absurd hone (by simp [lexOne])
  | cons c text =>
    obtain ⟨o', rfl, hhead, hrest⟩ := filled_heads hhole hnext hfilled
    have hc : c ≠ 0 := fun h => hzero (by simp [h])
    have hcut : cstring (c :: o') = c :: cstring o' := by simp [cstring, hc]
    have hhead : (cstring o').head? = text.head? := by
      rw [head_cstring, hhead]
      rw [hhead]
      intro h
      exact hzero (by simp [List.mem_of_head? h])
    rw [hcut]
    -- a token of quiet bytes that is too long would be too long in what is written
    have hlong : ∀ {w r : List UInt8}, c :: text = w ++ r → (∀ d ∈ w, d ≠ 39 ∧ d ≠ 36) →
        VALUE_LEN ≤ w.length → False := by
      intro w r heq hw hwlong
      rw [heq, filled_quiets hw] at hfilled
      obtain ⟨more, -, hmore⟩ := Option.map_eq_some_iff.mp hfilled
      rw [← hmore, List.length_append] at hlen
      omega
    have hwordbytes : ∀ d : UInt8, isWord d = true ∨ d = 46 → d ≠ 39 ∧ d ≠ 36 :=
      forall_byte (by decide +kernel)
    have hdigitbytes : ∀ d : UInt8, isdigit d = true ∨ d = 46 → d ≠ 39 ∧ d ≠ 36 :=
      forall_byte (by decide +kernel)
    unfold lexOne at hone ⊢
    dsimp only at hone ⊢
    split at hone
    · exact absurd hone (by simp)
    rename_i hspace
    rw [if_neg hspace]
    split at hone
    · exact absurd hone (by simp)
    rename_i hcomment
    rw [hhead, if_neg hcomment]
    split at hone
    · exfalso
      unfold lexedWord at hone
      split at hone
      · rename_i hwlong
        obtain ⟨heq, hbytes⟩ := takeWord_reads (c :: text)
        exact hlong heq (fun d hd => hwordbytes d (hbytes d hd)) hwlong
      · exact absurd hone (by simp)
    rename_i hword
    rw [if_neg hword]
    split at hone
    · exfalso
      unfold lexedWord at hone
      split at hone
      · rename_i hwlong
        obtain ⟨heq, hbytes⟩ := takeNumber_reads false (c :: text)
        exact hlong heq (fun d hd => hdigitbytes d (hbytes d hd)) hwlong
      · exact absurd hone (by simp)
    rename_i hdigit
    rw [if_neg hdigit]
    split at hone
    · rename_i hquote
      rw [if_pos hquote]
      rw [if_pos hquote] at hrest
      split at hone
      · rename_i code' hread
        obtain ⟨filled, hfilled⟩ := filled_string_error 0 text hread hrest
        obtain ⟨cut, hcut⟩ := readString_cstring 0 o' hfilled
        rw [hcut]
        exact ⟨cut, rfl⟩
      · exact absurd hone (by simp)
    rename_i hquote
    rw [if_neg hquote]
    split at hone
    · rename_i hoperator
      rw [if_pos hoperator]
      split at hone
      · rename_i code' hread
        have hsame : (c :: text).take 2 = (c :: cstring o').take 2 := by
          cases text <;> cases hcstring : cstring o' <;> simp_all
        rw [readOperator_error hread hsame]
        exact ⟨code', rfl⟩
      · exact absurd hone (by simp)
    · rename_i hoperator
      rw [if_neg hoperator]
      split at hone
      · exact ⟨.UNKNOWN_TOKEN, rfl⟩
      · exact absurd hone (by simp)

end

/-! ### When substitution keeps the shape -/

/-- The output of substitution gives the tokens of the template, each hole being one literal. A
template that the lexer refuses, or with more tokens than there is room for, is refused. -/
def ShapeKept (types : List Int) (values : List (Option (List UInt8))) (sql out : List UInt8) :
    Prop :=
  ∃ us, (templateOf types values sql).chunks = some us ∧
    if (templateOf types values sql).error = none ∧ (tokensOf us).length ≤ MAX_TOKENS then
      tokenizeStatement (cstring out) = .ok (tokensOf us)
    else ∃ code, tokenizeStatement (cstring out) = .error code

/-- Every value has a literal, no value has a zero byte, and no token of the template or literal
goes on with what is behind it. Where the lexer refuses the template, no hole is next to the
byte it refuses. -/
def Fits (types : List Int) (values : List (Option (List UInt8))) (sql : List UInt8) : Prop :=
  let t := templateOf types values sql
  ∃ us, t.chunks = some us ∧ (∀ u ∈ us, 0 ∉ u.bytes) ∧
    Separate (t.rest.head?.filter fun c => c != 46) us = true ∧
    (t.error ≠ none → startsHole t.rest.tail = false ∧
      (t.rest.head? = some 46 → ∀ u ∈ us.getLast?, u.bound = false))

instance (types : List Int) (values : List (Option (List UInt8))) (sql : List UInt8) :
    Decidable (Fits types values sql) :=
  inferInstanceAs (Decidable (∃ us ∈ (templateOf types values sql).chunks,
    (∀ u ∈ us, 0 ∉ u.bytes) ∧
      Separate ((templateOf types values sql).rest.head?.filter fun c => c != 46) us = true ∧
      ((templateOf types values sql).error ≠ none →
        startsHole (templateOf types values sql).rest.tail = false ∧
          ((templateOf types values sql).rest.head? = some 46 →
            ∀ u ∈ us.getLast?, u.bound = false))))

/-- The template has tokens, and not too many. -/
def Accepted (types : List Int) (values : List (Option (List UInt8))) (sql : List UInt8) : Prop :=
  (templateOf types values sql).error = none ∧
    ∀ us, (templateOf types values sql).chunks = some us → (tokensOf us).length ≤ MAX_TOKENS

/-- What is written where reading a template stops without an error. -/
theorem filled_stopped {types : List Int} {values : List (Option (List UInt8))}
    {rest o : List UInt8} (hstop : lexOne rest = .stop)
    (hfilled : filled types values false rest = some o) :
    lexOne (cstring o) = .stop ∧ o.head? = rest.head? ∧ o.head? ≠ some 0 ∧ o.head? ≠ some 46 := by
  rcases lexOne_stop hstop with rfl | ⟨more, rfl⟩
  · obtain rfl : [] = o := by simpa [filled, filledFrom] using hfilled
    exact ⟨rfl, rfl, by simp, by simp⟩
  · obtain ⟨o', rfl, hhead, -⟩ := filled_heads (by simp [startsHole]) (by simp [startsHole]) hfilled
    obtain ⟨o'', rfl⟩ := List.head?_eq_some_iff.mp (show o'.head? = some 45 from hhead)
    refine ⟨?_, rfl, by simp, by simp⟩
    have hcut : cstring (45 :: 45 :: o'') = 45 :: 45 :: cstring o'' := by simp [cstring]
    rw [hcut, lexOne, if_neg (by decide), if_pos ⟨rfl, rfl⟩]

/-- The chunks fit together, so the lexer finds them again. -/
theorem shapeKept_of_fits {types : List Int} {values : List (Option (List UInt8))}
    {sql out : List UInt8} (hsql : 0 ∉ sql) (hfilled : filled types values false sql = some out)
    (hlen : out.length < VALUE_LEN) (h : Fits types values sql) :
    ShapeKept types values sql out := by
  obtain ⟨us, hus, hzero, hseparate, hrefused⟩ := h
  obtain ⟨o', hspec⟩ := template_spec (Nat.lt_succ_self _) hfilled hlen hus
  refine ⟨us, hus, ?_⟩
  have hnone : 0 ∉ bytesOf us := by
    intro h
    obtain ⟨u, hu, hbytes⟩ := List.mem_flatMap.mp h
    exact hzero u hu hbytes
  have hrest : 0 ∉ (templateOf types values sql).rest := fun h => hsql (hspec.suffix.mem h)
  have hlen' : o'.length < VALUE_LEN := by
    have := hlen
    rw [hspec.bytes, List.length_append] at this
    omega
  rw [tokenizeStatement_eq, hspec.bytes, cstring_append hnone]
  have hfirst : ∀ {next : Option UInt8}, next ≠ some 46 → next.filter (fun c => c != 46) = next := by
    intro next hnext
    cases next with
    | none => rfl
    | some c => simpa [Option.filter] using hnext
  have hstop := hspec.stop
  cases herror : (templateOf types values sql).error with
  | none =>
    rw [show (readTemplate types values (sql.length + 1) sql).error = none from herror] at hstop
    obtain ⟨hstop', hhead, hzero', hdot⟩ := filled_stopped hstop hspec.filled
    have hnext : (templateOf types values sql).rest.head?.filter (fun c => c != 46)
        = (cstring o').head? := by
      rw [head_cstring hzero', hhead]
      exact hfirst (hhead ▸ hdot)
    have hlexes := @ReadBy.lexes _ _ (readBy_of_separate hspec.closed hseparate (Or.inl hnext)) []
      (by simp)
    rw [hlexes]
    by_cases hmax : (tokensOf us).length ≤ MAX_TOKENS
    · rw [if_pos ⟨rfl, hmax⟩, if_pos (by simpa using hmax), lexFrom_eq, hstop', List.nil_append]
    · rw [if_neg (fun h => hmax h.2), if_neg (by simpa using hmax)]
      exact ⟨_, rfl⟩
  | some code =>
    rw [show (readTemplate types values (sql.length + 1) sql).error = some code from herror] at hstop
    obtain ⟨hhole, hlast⟩ := hrefused (by rw [herror]; simp)
    obtain ⟨code', hcode'⟩ := filled_refused hstop hrest hspec.hole hhole hspec.filled hlen'
    -- the byte that is refused, and the one behind it, are still there
    have hheads : (cstring o').head? = (templateOf types values sql).rest.head? ∧
        (cstring o').tail.head? = (templateOf types values sql).rest.tail.head? := by
      have hspecfilled := hspec.filled
      have hspechole := hspec.hole
      change filled types values false (templateOf types values sql).rest = some o' at hspecfilled
      change startsHole (templateOf types values sql).rest = false at hspechole
      cases hr : (templateOf types values sql).rest with
      | nil =>
        rw [hr] at hspecfilled
        obtain rfl : [] = o' := by simpa [filled, filledFrom] using hspecfilled
        exact ⟨rfl, rfl⟩
      | cons c text =>
        rw [hr] at hspecfilled hspechole hhole hrest
        obtain ⟨o'', rfl, hhead, -⟩ := filled_heads hspechole hhole hspecfilled
        have hc : c ≠ 0 := fun h => hrest (by simp [h])
        have hcut : cstring (c :: o'') = c :: cstring o'' := by simp [cstring, hc]
        rw [hcut]
        refine ⟨rfl, ?_⟩
        show (cstring o'').head? = text.head?
        rw [head_cstring, hhead]
        rw [hhead]
        intro h
        exact hrest (by simp [List.mem_of_head? h])
    have hread : ReadBy (cstring o') us := by
      refine readBy_of_separate hspec.closed hseparate ?_
      by_cases hdot : (templateOf types values sql).rest.head? = some 46
      · right
        intro u hu t ht
        exact hspec.last u hu (hlast hdot u hu) t ht _ hdot (hheads.1.trans hdot) hheads.2
      · left
        rw [hfirst hdot, hheads.1]
    have hlexes := @ReadBy.lexes _ _ hread [] (by simp)
    rw [hlexes, if_neg (fun h => absurd h.1 (by simp))]
    by_cases hmax : (tokensOf us).length ≤ MAX_TOKENS
    · rw [if_pos (by simpa using hmax), lexFrom_eq, hcode']
      exact ⟨code', rfl⟩
    · rw [if_neg (by simpa using hmax)]
      exact ⟨_, rfl⟩

/-- Where the lexer finds the tokens of the template, the chunks fit together. -/
theorem fits_of_shapeKept {types : List Int} {values : List (Option (List UInt8))}
    {sql out : List UInt8} (hfilled : filled types values false sql = some out)
    (hlen : out.length < VALUE_LEN) (haccepted : Accepted types values sql)
    (h : ShapeKept types values sql out) : Fits types values sql := by
  obtain ⟨us, hus, htokens⟩ := h
  obtain ⟨herror, hmax⟩ := haccepted
  obtain ⟨o', hspec⟩ := template_spec (Nat.lt_succ_self _) hfilled hlen hus
  rw [if_pos ⟨herror, hmax us hus⟩, tokenizeStatement_eq, hspec.bytes] at htokens
  have hstop := hspec.stop
  rw [show (readTemplate types values (sql.length + 1) sql).error = none from herror] at hstop
  obtain ⟨-, hhead, hzero, hdot⟩ := filled_stopped hstop hspec.filled
  obtain ⟨hnone, hseparate⟩ := @separate_of_tokens _ _ hspec.closed hzero hdot []
    (by simpa using htokens)
  refine ⟨us, hus, hnone, ?_, fun h => absurd herror h⟩
  rw [hhead] at hseparate hdot
  have hfirst : (templateOf types values sql).rest.head?.filter (fun c => c != 46)
      = (templateOf types values sql).rest.head? := by
    change (templateOf types values sql).rest.head? ≠ some 46 at hdot
    cases hnext : (templateOf types values sql).rest.head? with
    | none => rfl
    | some c =>
      rw [hnext] at hdot
      simpa [Option.filter] using hdot
  rw [hfirst]
  exact hseparate

/-- Substitution keeps the shape of the template if the literals fit into it; for a template that
has tokens, only then. -/
theorem substitute_keeps_shape (types : List Int) (values : List (Option (List UInt8)))
    {sql : List UInt8} (hsql : 0 ∉ sql)
    (hsuccess : (substituteParameters sql types values false LINE_LEN).error = none) :
    (Fits types values sql →
      ShapeKept types values sql (substituteParameters sql types values false LINE_LEN).out) ∧
    (Accepted types values sql →
      ShapeKept types values sql (substituteParameters sql types values false LINE_LEN).out →
        Fits types values sql) := by
  obtain ⟨out, hfilled, hout, hlen⟩ := @substituteFrom_filled _ _ LINE_LEN _ _ [] _ (by decide)
    hsuccess
  rw [List.nil_append] at hout hlen
  unfold substituteParameters
  rw [hout]
  exact ⟨shapeKept_of_fits hsql hfilled hlen, fits_of_shapeKept hfilled hlen⟩

/-- A quote in a text value changes nothing. -/
theorem substitute_keeps_shape_quoted :
    Fits [OID_TEXT] [some (ascii "it's")] (ascii "DELETE FROM t WHERE a = $1") ∧
      ShapeKept [OID_TEXT] [some (ascii "it's")] (ascii "DELETE FROM t WHERE a = $1")
        (substituteParameters (ascii "DELETE FROM t WHERE a = $1") [OID_TEXT]
          [some (ascii "it's")] false LINE_LEN).out := by
  have hfits : Fits [OID_TEXT] [some (ascii "it's")] (ascii "DELETE FROM t WHERE a = $1") := by
    decide +kernel
  have hsuccess : (substituteParameters (ascii "DELETE FROM t WHERE a = $1") [OID_TEXT]
      [some (ascii "it's")] false LINE_LEN).error = none := by decide +kernel
  exact ⟨hfits,
    (substitute_keeps_shape [OID_TEXT] [some (ascii "it's")] (by decide) hsuccess).1 hfits⟩

/-- The text of a parameter that is declared a number is written bare, whatever it is. -/
theorem substitute_injects :
    (substituteParameters (ascii "DELETE FROM t WHERE a = $1") [OID_INT4]
        [some (ascii "1 OR a <> 1")] false LINE_LEN).error = none ∧
      tokenizeStatement (cstring (substituteParameters (ascii "DELETE FROM t WHERE a = $1")
          [OID_INT4] [some (ascii "1 OR a <> 1")] false LINE_LEN).out)
        = tokenizeStatement (ascii "DELETE FROM t WHERE a = 1 OR a <> 1") ∧
      ¬ShapeKept [OID_INT4] [some (ascii "1 OR a <> 1")] (ascii "DELETE FROM t WHERE a = $1")
        (substituteParameters (ascii "DELETE FROM t WHERE a = $1") [OID_INT4]
          [some (ascii "1 OR a <> 1")] false LINE_LEN).out := by
  refine ⟨by decide +kernel, by decide +kernel, ?_⟩
  rintro ⟨us, hus, -⟩
  have hnone : (templateOf [OID_INT4] [some (ascii "1 OR a <> 1")]
      (ascii "DELETE FROM t WHERE a = $1")).chunks = none := by decide +kernel
  rw [hnone] at hus
  exact absurd hus (by simp)

/-- A minus sign in front of a hole and the sign of a value make a comment. -/
example :
    tokenizeStatement (cstring (substituteParameters (ascii "SELECT a FROM t WHERE a = -$1")
        [OID_INT4] [some (ascii "-5")] false LINE_LEN).out)
      = tokenizeStatement (ascii "SELECT a FROM t WHERE a =") := by decide +kernel

end DatabaseEngine
