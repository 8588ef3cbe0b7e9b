import CrazyCode.Library.Quoted

/-!
# The lexer of the config parser

`parseToken` is `NginxConfigParser::ParseToken` of `src/config_parser.cc`, a machine of seven states
that reads one token from the input. The stream is what is left of it: `get` takes a byte off the
front, and `unget` leaves the byte where it was. A stream at its end answers every further call with
`eof`.

The lexical grammar is stated beside it, as relations between an input and what is left of it: the
white space and comments between tokens (`Gap`), one token (`Lexeme`), and a whole reading
(`Tokens`). A bare word and a quoted string are tokens only in front of a `Delimited` rest. An input
can end in two ways that are no token. `Blank` is an end with nothing left, but for a comment.
`Unfinished` is an end inside a bare word, or behind the backslash of an escape; there the lexer
answers `eof` as well (`nextToken_unfinished`), and what it has read of the token is lost.
-/

namespace CrazyCode.Config

open Text

/-- `NginxConfigParser::TokenType`. -/
inductive TokenType where
  | start
  | normal
  | startBlock
  | endBlock
  | comment
  | statementEnd
  | eof
  | error
deriving DecidableEq, Repr

/-- `NginxConfigParser::TokenParserState`. -/
inductive TokenParserState where
  | initialWhitespace
  | singleQuote
  | doubleQuote
  | tokenTypeComment
  | tokenTypeNormal
  | escapeSingleQuote
  | escapeDoubleQuote
deriving DecidableEq, Repr

/-- The bytes that end a bare word, and that must follow a closing quote. -/
def isDelimiter (c : Char) : Bool :=
  c = ' ' || c = '\t' || c = '\n' || c = ';' || c = '{' || c = '}'

/-- The white space between tokens. -/
def isSpace (c : Char) : Bool := c = ' ' || c = '\t' || c = '\n' || c = '\r'

/-- Behind a closing quote: `get` and `unget` of a delimiter, and an error for any other byte and at
the end of the input. -/
def closeQuote (value : Str) : Str → TokenType × Str × Str
  | [] => (.error, value, [])
  | next :: input =>
    -- The delimiter is put back; a byte that is none is not.
    if isDelimiter next then (.normal, value, next :: input) else (.error, value, input)

/-- `NginxConfigParser::ParseToken` from one of its states: the type and value of the token, and
what is left of the input. -/
def parseToken : TokenParserState → Str → Str → TokenType × Str × Str
  | .singleQuote, value, [] => (.error, value, [])
  | .doubleQuote, value, [] => (.error, value, [])
  -- In every other state the loop is left, also with a word begun, and behind a backslash.
  | _, value, [] => (.eof, value, [])
  | .initialWhitespace, value, c :: input =>
    if c = '{' then (.startBlock, [c], input)
    else if c = '}' then (.endBlock, [c], input)
    else if c = '#' then parseToken .tokenTypeComment [c] input
    else if c = '"' then parseToken .doubleQuote [c] input
    else if c = '\'' then parseToken .singleQuote [c] input
    else if c = ';' then (.statementEnd, [c], input)
    else if isSpace c then parseToken .initialWhitespace value input
    else parseToken .tokenTypeNormal (value ++ [c]) input
  | .singleQuote, value, c :: input =>
    if c = '\'' then closeQuote (value ++ [c]) input
    -- The backslash has been added to the value, and `pop_back` takes it off again.
    else if c = '\\' then parseToken .escapeSingleQuote (value ++ [c]).dropLast input
    else parseToken .singleQuote (value ++ [c]) input
  | .doubleQuote, value, c :: input =>
    if c = '"' then closeQuote (value ++ [c]) input
    else if c = '\\' then parseToken .escapeDoubleQuote (value ++ [c]).dropLast input
    else parseToken .doubleQuote (value ++ [c]) input
  | .tokenTypeComment, value, c :: input =>
    -- The line break is taken with the comment.
    if c = '\n' || c = '\r' then (.comment, value, input)
    else parseToken .tokenTypeComment (value ++ [c]) input
  | .tokenTypeNormal, value, c :: input =>
    -- The delimiter is put back.
    if isDelimiter c then (.normal, value, c :: input)
    else parseToken .tokenTypeNormal (value ++ [c]) input
  | .escapeSingleQuote, value, c :: input => parseToken .singleQuote (value ++ [c]) input
  | .escapeDoubleQuote, value, c :: input => parseToken .doubleQuote (value ++ [c]) input

/-- One call of `ParseToken`, as `Parse` makes it: from the initial state, with an empty value. -/
def nextToken (input : Str) : TokenType × Str × Str := parseToken .initialWhitespace [] input

/-! ## Progress -/

/-- Behind a closing quote nothing is added to the input. -/
theorem closeQuote_length (value input : Str) :
    (closeQuote value input).2.2.length ≤ input.length := by
  cases input with
  | nil => simp [closeQuote]
  | cons c input =>
    rw [closeQuote]
    split <;> simp

/-- No call leaves more input than it was given. -/
theorem parseToken_length (state : TokenParserState) (value input : Str) :
    (parseToken state value input).2.2.length ≤ input.length := by
  -- The machine reads byte by byte, and its state is whatever the bytes before have led to.
  induction input generalizing state value with
  | nil => cases state <;> simp [parseToken]
  | cons c input ih =>
    have hlt := fun state value => Nat.le_succ_of_le (ih state value)
    have hclose := Nat.le_succ_of_le (closeQuote_length (value ++ [c]) input)
    cases state <;> simp only [parseToken] <;> (repeat' split) <;>
      first | exact hlt _ _ | exact hclose | simp

/-- A call that does not report the end of the input takes a byte off it. -/
theorem parseToken_length_lt {value input : Str}
    (h : (parseToken .initialWhitespace value input).1 ≠ .eof) :
    (parseToken .initialWhitespace value input).2.2.length < input.length := by
  cases input with
  | nil => simp [parseToken] at h
  | cons c input =>
    -- The first byte is taken in any case, and behind it no call adds to the input.
    have hlt := fun state value => Nat.lt_succ_of_le (parseToken_length state value input)
    simp only [parseToken]
    (repeat' split) <;> first | exact hlt _ _ | simp

/-- A call from `Parse` that does not report the end of the input takes a byte off it. -/
theorem nextToken_length {input : Str} (h : (nextToken input).1 ≠ .eof) :
    (nextToken input).2.2.length < input.length := parseToken_length_lt h

/-! ## The lexical grammar -/

/-- A token as the grammar has it. -/
inductive Token where
  | word (value : Str)
  | semicolon
  | opening
  | closing
deriving DecidableEq, Repr

/-- The type under which the lexer reports a token. -/
def Token.type : Token → TokenType
  | .word _ => .normal
  | .semicolon => .statementEnd
  | .opening => .startBlock
  | .closing => .endBlock

/-- The value under which the lexer reports a token. -/
def Token.value : Token → Str
  | .word value => value
  | .semicolon => [';']
  | .opening => ['{']
  | .closing => ['}']

@[simp] theorem Token.type_word (w : Str) : (word w).type = .normal := rfl
@[simp] theorem Token.type_semicolon : semicolon.type = .statementEnd := rfl
@[simp] theorem Token.type_opening : opening.type = .startBlock := rfl
@[simp] theorem Token.type_closing : closing.type = .endBlock := rfl
@[simp] theorem Token.value_word (w : Str) : (word w).value = w := rfl

/-- The white space and the comments in front of a token, up to the rest. A comment ends at a line
break. -/
inductive Gap : Str → Str → Prop
  | refl (s : Str) : Gap s s
  | space {c : Char} {s rest : Str} : isSpace c = true → Gap s rest → Gap (c :: s) rest
  | comment {body : Str} {c : Char} {s rest : Str} : '\n' ∉ body → '\r' ∉ body →
      c = '\n' ∨ c = '\r' → Gap s rest → Gap ('#' :: (body ++ c :: s)) rest

/-- A rest that ends a bare word or a quoted string. -/
def Delimited (rest : Str) : Prop := ∃ c s, rest = c :: s ∧ isDelimiter c = true

/-- A byte that starts a bare word. -/
def isWordStart (c : Char) : Bool :=
  !isSpace c && !(c = '{' || c = '}' || c = ';' || c = '#' || c = '"' || c = '\'')

/-- A bare word: a byte that starts one, and no delimiters behind it. -/
def BareWord (w : Str) : Prop :=
  ∃ c s, w = c :: s ∧ isWordStart c = true ∧ ∀ d ∈ s, isDelimiter d = false

/-- A quote. -/
def IsQuote (q : Char) : Prop := q = '"' ∨ q = '\''

/-- One token at the front of the input, and what is left. -/
inductive Lexeme : Str → Token → Str → Prop
  | semicolon (rest : Str) : Lexeme (';' :: rest) .semicolon rest
  | opening (rest : Str) : Lexeme ('{' :: rest) .opening rest
  | closing (rest : Str) : Lexeme ('}' :: rest) .closing rest
  | bare {w rest : Str} : BareWord w → Delimited rest → Lexeme (w ++ rest) (.word w) rest
  | quoted {q : Char} {raw value rest : Str} : IsQuote q → QuotedBody q raw value →
      Delimited rest → Lexeme (q :: (raw ++ q :: rest)) (.word (q :: (value ++ [q]))) rest

/-- An input read token by token, up to a rest. -/
inductive Tokens : Str → List Token → Str → Prop
  | nil {s rest : Str} : Gap s rest → Tokens s [] rest
  | cons {s s₁ s₂ rest : Str} {t : Token} {ts : List Token} : Gap s s₁ → Lexeme s₁ t s₂ →
      Tokens s₂ ts rest → Tokens s (t :: ts) rest

/-- An end with nothing left, but for a comment. -/
def Blank (rest : Str) : Prop :=
  rest = [] ∨ ∃ body, rest = '#' :: body ∧ '\n' ∉ body ∧ '\r' ∉ body

/-- An end inside a bare word, or behind the backslash of an escape in an open quoted string. -/
def Unfinished (rest : Str) : Prop :=
  BareWord rest ∨ ∃ q raw value, IsQuote q ∧ QuotedBody q raw value ∧ rest = q :: (raw ++ ['\\'])

/-- A quoted string that is never closed, or that is not followed by a delimiter. -/
def Malformed (rest : Str) : Prop :=
  ∃ q raw value, IsQuote q ∧ QuotedBody q raw value ∧
    (rest = q :: raw ∨ ∃ s, rest = q :: (raw ++ q :: s) ∧ ¬ Delimited s)

/-! ## What the lexer makes of the grammar -/

/-- White space is passed over. -/
theorem nextToken_space {c : Char} (hc : isSpace c = true) (s : Str) :
    nextToken (c :: s) = nextToken s := by
  have hne : ∀ d, isSpace d = false → c ≠ d := by
    rintro d hd rfl
    rw [hc] at hd
    cases hd
  simp only [nextToken, parseToken]
  rw [if_neg (hne _ (by decide)), if_neg (hne _ (by decide)), if_neg (hne _ (by decide)),
    if_neg (hne _ (by decide)), if_neg (hne _ (by decide)), if_neg (hne _ (by decide)), if_pos hc]

/-- The text of a comment is read on. -/
theorem parseToken_comment_append {body : Str} (hn : '\n' ∉ body) (hr : '\r' ∉ body)
    (value s : Str) :
    parseToken .tokenTypeComment value (body ++ s) =
      parseToken .tokenTypeComment (value ++ body) s := by
  induction body generalizing value with
  | nil => simp
  | cons c body ih =>
    simp only [List.mem_cons, not_or] at hn hr
    rw [List.cons_append, parseToken, if_neg (by simp [Ne.symm hn.1, Ne.symm hr.1]), ih hn.2 hr.2,
      List.append_assoc]
    rfl

/-- A comment is reported with its text, and its line break is taken with it. -/
theorem nextToken_comment {body : Str} {c : Char} (hn : '\n' ∉ body) (hr : '\r' ∉ body)
    (hc : c = '\n' ∨ c = '\r') (s : Str) :
    nextToken ('#' :: (body ++ c :: s)) = (.comment, '#' :: body, s) := by
  have hstart : nextToken ('#' :: (body ++ c :: s)) =
      parseToken .tokenTypeComment ['#'] (body ++ c :: s) := by
    simp [nextToken, parseToken]
  rw [hstart, parseToken_comment_append hn hr, parseToken, if_pos (by simpa using hc)]
  rfl

/-- The bytes of a bare word are read on. -/
theorem parseToken_normal_append {w : Str} (hw : ∀ d ∈ w, isDelimiter d = false) (value s : Str) :
    parseToken .tokenTypeNormal value (w ++ s) = parseToken .tokenTypeNormal (value ++ w) s := by
  induction w generalizing value with
  | nil => simp
  | cons c w ih =>
    simp only [List.mem_cons, forall_eq_or_imp] at hw
    rw [List.cons_append, parseToken, if_neg (by simp [hw.1]), ih hw.2, List.append_assoc]
    rfl

/-- A byte that starts a bare word starts one in the lexer. -/
theorem nextToken_wordStart {c : Char} (hc : isWordStart c = true) (s : Str) :
    nextToken (c :: s) = parseToken .tokenTypeNormal [c] s := by
  simp only [isWordStart, Bool.and_eq_true, Bool.not_eq_true', Bool.or_eq_false_iff,
    decide_eq_false_iff_not] at hc
  obtain ⟨hspace, ⟨⟨⟨⟨h1, h2⟩, h3⟩, h4⟩, h5⟩, h6⟩ := hc
  simp only [nextToken, parseToken]
  rw [if_neg h1, if_neg h2, if_neg h4, if_neg h5, if_neg h6, if_neg h3, if_neg (by simp [hspace])]
  rfl

/-- The state in which the lexer reads a string quoted by `q`. -/
def quoteState (q : Char) : TokenParserState := if q = '"' then .doubleQuote else .singleQuote

/-- The state in which the lexer reads the byte behind a backslash in a string quoted by `q`. -/
def escapeState (q : Char) : TokenParserState :=
  if q = '"' then .escapeDoubleQuote else .escapeSingleQuote

/-- A quote starts a quoted string. -/
theorem nextToken_quote {q : Char} (hq : IsQuote q) (s : Str) :
    nextToken (q :: s) = parseToken (quoteState q) [q] s := by
  rcases hq with rfl | rfl <;> rfl

/-- The closing quote. -/
theorem parseToken_quote_close {q : Char} (hq : IsQuote q) (value s : Str) :
    parseToken (quoteState q) value (q :: s) = closeQuote (value ++ [q]) s := by
  rcases hq with rfl | rfl <;> rfl

/-- A backslash is dropped. -/
theorem parseToken_quote_backslash {q : Char} (hq : IsQuote q) (value s : Str) :
    parseToken (quoteState q) value ('\\' :: s) = parseToken (escapeState q) value s := by
  rcases hq with rfl | rfl <;> simp [quoteState, escapeState, parseToken]

/-- The byte behind a backslash is taken as it is. -/
theorem parseToken_escape {q : Char} (hq : IsQuote q) (value : Str) (c : Char) (s : Str) :
    parseToken (escapeState q) value (c :: s) = parseToken (quoteState q) (value ++ [c]) s := by
  rcases hq with rfl | rfl <;> rfl

/-- Any other byte of a quoted string is taken as it is. -/
theorem parseToken_quote_plain {q c : Char} (hq : IsQuote q) (hcq : c ≠ q) (hc : c ≠ '\\')
    (value s : Str) :
    parseToken (quoteState q) value (c :: s) = parseToken (quoteState q) (value ++ [c]) s := by
  rcases hq with rfl | rfl
  · simp [quoteState, parseToken, hcq, hc]
  · simp [quoteState, parseToken, hcq, hc]

/-- The text of a quoted string is read on, with its escapes resolved. -/
theorem parseToken_quote_append {q : Char} (hq : IsQuote q) {raw body : Str}
    (h : QuotedBody q raw body) (value s : Str) :
    parseToken (quoteState q) value (raw ++ s) =
      parseToken (quoteState q) (value ++ body) s := by
  induction h generalizing value with
  | nil => simp
  | plain hcq hc _ ih =>
    rw [List.cons_append, parseToken_quote_plain hq hcq hc, ih, List.append_assoc]
    rfl
  | @escape c raw body _ ih =>
    calc parseToken (quoteState q) value ('\\' :: c :: (raw ++ s))
        = parseToken (escapeState q) value (c :: (raw ++ s)) := parseToken_quote_backslash hq _ _
      _ = parseToken (quoteState q) (value ++ [c]) (raw ++ s) := parseToken_escape hq _ _ _
      _ = parseToken (quoteState q) (value ++ [c] ++ body) s := ih _
      _ = parseToken (quoteState q) (value ++ c :: body) s := by rw [← List.append_cons]

/-- A token of the grammar is what the lexer reports. -/
theorem nextToken_lexeme {s rest : Str} {t : Token} (h : Lexeme s t rest) :
    nextToken s = (t.type, t.value, rest) := by
  cases h with
  | semicolon => rfl
  | opening => rfl
  | closing => rfl
  | bare hw hrest =>
    -- The word is read up to the delimiter behind it, which is put back.
    obtain ⟨c, w, rfl, hc, hw⟩ := hw
    obtain ⟨d, r, rfl, hd⟩ := hrest
    calc nextToken (c :: (w ++ d :: r))
        = parseToken .tokenTypeNormal [c] (w ++ d :: r) := nextToken_wordStart hc _
      _ = parseToken .tokenTypeNormal (c :: w) (d :: r) := parseToken_normal_append hw [c] _
      _ = (.normal, c :: w, d :: r) := by rw [parseToken, if_pos hd]
  | @quoted q raw value _ hq hbody hrest =>
    -- The text is read with its escapes, then the quote, then the delimiter is put back.
    obtain ⟨d, r, rfl, hd⟩ := hrest
    calc nextToken (q :: (raw ++ q :: d :: r))
        = parseToken (quoteState q) [q] (raw ++ q :: d :: r) := nextToken_quote hq _
      _ = parseToken (quoteState q) (q :: value) (q :: d :: r) :=
          parseToken_quote_append hq hbody [q] _
      _ = closeQuote (q :: value ++ [q]) (d :: r) := parseToken_quote_close hq _ _
      _ = (.normal, q :: value ++ [q], d :: r) := by rw [closeQuote, if_pos hd]

/-- At a blank end the lexer reports the end of the input. -/
theorem nextToken_blank {rest : Str} (h : Blank rest) : (nextToken rest).1 = .eof := by
  rcases h with rfl | ⟨body, rfl, hn, hr⟩
  · rfl
  · have hstart : nextToken ('#' :: body) = parseToken .tokenTypeComment ['#'] (body ++ []) := by
      simp [nextToken, parseToken]
    rw [hstart, parseToken_comment_append hn hr]
    rfl

/-- At an unfinished end the lexer reports the end of the input too: the word or string that has
begun is lost. -/
theorem nextToken_unfinished {rest : Str} (h : Unfinished rest) : (nextToken rest).1 = .eof := by
  rcases h with ⟨c, w, rfl, hc, hw⟩ | ⟨q, raw, value, hq, hbody, rfl⟩
  · -- The end comes in the state of a bare word.
    rw [nextToken_wordStart hc, ← List.append_nil w, parseToken_normal_append hw]
    rfl
  · -- The end comes in the state of an escape.
    rw [nextToken_quote hq, parseToken_quote_append hq hbody, parseToken_quote_backslash hq]
    rcases hq with rfl | rfl <;> rfl

/-- Behind a closing quote an input that is not delimited is an error. -/
theorem closeQuote_error {rest : Str} (h : ¬ Delimited rest) (value : Str) :
    (closeQuote value rest).1 = .error := by
  cases rest with
  | nil => rfl
  | cons c rest =>
    rw [closeQuote, if_neg fun hc => h ⟨c, rest, rfl, hc⟩]

/-- At a malformed end the lexer reports an error. -/
theorem nextToken_malformed {rest : Str} (h : Malformed rest) : (nextToken rest).1 = .error := by
  obtain ⟨q, raw, value, hq, hbody, rfl | ⟨s, rfl, hs⟩⟩ := h
  · rw [nextToken_quote hq, ← List.append_nil raw, parseToken_quote_append hq hbody]
    rcases hq with rfl | rfl <;> rfl
  · rw [nextToken_quote hq, parseToken_quote_append hq hbody, parseToken_quote_close hq]
    exact closeQuote_error hs _

end CrazyCode.Config
