import CrazyCode.Config.Acceptance

/-!
# Printing a config and parsing it again

`toString` is `NginxConfig::ToString` of `src/config_parser.cc`. It writes the tokens of a tree with
white space between them, and each token as it stands (`Written`). The lexer has taken the
backslashes of a quoted string out of its value and has left the quotes on, so a quoted string is
written with its quotes and without its escapes.

What is written is read back as the same tokens when every word is a bare word, or a quoted string
in which neither its quote nor a backslash occurs (`Written.tokens`), so a tree of such words
survives (`parse_toString_plain`). For any other word the closing quote is found elsewhere
(`QuotedBody.plain_of_append`), and the tokens differ (`Written.not_escaped`). `parse_toString_iff`
puts both together: a config survives exactly if its text has no quoted string that escapes its own
quote or a backslash.
-/

namespace CrazyCode.Config

open Text

/-- `depth` times two blanks. -/
def indent (depth : ℕ) : Str := (List.replicate depth [' ', ' ']).flatten

mutual

/-- `NginxConfigStatement::ToString`. -/
def NginxConfigStatement.toString : NginxConfigStatement → ℕ → Str
  | .mk tokens none, depth => indent depth ++ [' '].intercalate tokens ++ [';'] ++ ['\n']
  | .mk tokens (some childBlock), depth =>
    indent depth ++ [' '].intercalate tokens ++ [' ', '{', '\n'] ++
      toStringAll childBlock (depth + 1) ++ indent depth ++ ['}'] ++ ['\n']

/-- The statements of a config, one after the other. -/
def toStringAll : List NginxConfigStatement → ℕ → Str
  | [], _ => []
  | statement :: config, depth => statement.toString depth ++ toStringAll config depth

end

/-- `NginxConfig::ToString`. -/
def NginxConfig.toString (config : NginxConfig) (depth : ℕ) : Str := toStringAll config depth

/-! ## What is written -/

/-- Nothing but white space. -/
def Space (s : Str) : Prop := ∀ c ∈ s, isSpace c = true

/-- A text of tokens with white space between them, each written as its value, and a word in front
of a delimiter. -/
inductive Written : Str → List Token → Prop
  | nil {s : Str} : Space s → Written s []
  | cons {space s : Str} {t : Token} {ts : List Token} : Space space →
      (∀ w, t = .word w → Delimited s) → Written s ts → Written (space ++ (t.value ++ s)) (t :: ts)

/-- White space in front changes nothing. -/
theorem Written.space {s space : Str} {ts : List Token} (h : Written s ts) (hspace : Space space) :
    Written (space ++ s) ts := by
  cases h with
  | nil hs =>
    refine .nil fun c hc => ?_
    rcases List.mem_append.mp hc with hc | hc
    · exact hspace c hc
    · exact hs c hc
  | cons hs hword h =>
    rw [← List.append_assoc]
    refine .cons (fun c hc => ?_) hword h
    rcases List.mem_append.mp hc with hc | hc
    · exact hspace c hc
    · exact hs c hc

/-- The indentation is white space. -/
theorem space_indent (depth : ℕ) : Space (indent depth) := by
  intro c hc
  obtain ⟨two, htwo, hc⟩ := List.mem_flatten.mp hc
  rw [List.eq_of_mem_replicate htwo] at hc
  have : c = ' ' := by simpa using hc
  rw [this]
  decide

/-- A blank is white space. -/
theorem space_blank : Space [' '] := by simp [Space, isSpace]

/-- A line break is white space. -/
theorem space_newline : Space ['\n'] := by simp [Space, isSpace]

/-- A token in front. -/
theorem Written.token {s : Str} {t : Token} {ts : List Token} (h : Written s ts)
    (hword : ∀ w, t = .word w → Delimited s) : Written (t.value ++ s) (t :: ts) := by
  have hspace : Space [] := by simp [Space]
  exact .cons hspace hword h

/-- The words of a statement, with a blank between them. -/
theorem Written.words {s : Str} {ts : List Token} (h : Written s ts) (hs : Delimited s)
    (tokens : List Str) :
    Written ([' '].intercalate tokens ++ s) (tokens.map .word ++ ts) := by
  induction tokens with
  | nil => simpa using h
  | cons w tokens ih =>
    cases tokens with
    | nil => simpa using h.token (t := .word w) fun _ _ => hs
    | cons w' tokens =>
      -- The blank in front of the next word ends this one.
      have hblank : Delimited (' ' :: ([' '].intercalate (w' :: tokens) ++ s)) :=
        ⟨' ', _, rfl, by decide⟩
      have hrest := ih.space space_blank
      simpa using hrest.token (t := .word w) fun _ _ => hblank

/-- `ToString` writes the tokens of the tree. -/
theorem written_toString (config : NginxConfig) (depth : ℕ) {s : Str} {ts : List Token}
    (h : Written s ts) : Written (config.toString depth ++ s) (config.flatten ++ ts) := by
  -- Any text stands behind the config, and behind the block of a statement.
  induction config using NginxConfig.induction generalizing depth s ts with
  | nil => simpa [NginxConfig.toString, toStringAll] using h
  | simple tokens config ih =>
    have hend := ((ih depth h).space space_newline).token (t := .semicolon) (by simp)
    have := (hend.words ⟨';', _, rfl, by decide⟩ tokens).space (space_indent depth)
    simpa [NginxConfig.toString, toStringAll, NginxConfigStatement.toString, Token.value] using this
  | block tokens childBlock config ihchild ih =>
    -- From the closing brace back to the indentation of the first word.
    have hclose := (((ih depth h).space space_newline).token (t := .closing) (by simp)).space
      (space_indent depth)
    have hbody := ihchild (depth + 1) hclose
    have hopen := ((hbody.space space_newline).token (t := .opening) (by simp)).space space_blank
    have := (hopen.words ⟨' ', _, rfl, by decide⟩ tokens).space (space_indent depth)
    simpa [NginxConfig.toString, toStringAll, NginxConfigStatement.toString, Token.value] using this

/-! ## What is read back -/

/-- A word that is written with an escape missing: a quoted string with its own quote or a backslash
in it. -/
def Escaped (w : Str) : Prop :=
  ∃ q value, IsQuote q ∧ w = q :: (value ++ [q]) ∧ (q ∈ value ∨ '\\' ∈ value)

/-- A quote is not a backslash. -/
theorem IsQuote.ne_backslash {q : Char} (h : IsQuote q) : q ≠ '\\' := by
  rcases h with rfl | rfl <;> decide

/-- A word that is written as it is read: a bare word, or a quoted string with neither its quote nor
a backslash in it. -/
def PlainWord (w : Str) : Prop :=
  BareWord w ∨ ∃ q value, IsQuote q ∧ w = q :: (value ++ [q]) ∧ q ∉ value ∧ '\\' ∉ value

/-- A plain word is found where it is written. -/
theorem PlainWord.lexeme {w : Str} (h : PlainWord w) {s : Str} (hs : Delimited s) :
    Lexeme (w ++ s) (.word w) s := by
  rcases h with hw | ⟨q, value, hq, rfl, hqv, hb⟩
  · exact .bare hw hs
  · have hlex := Lexeme.quoted hq (quotedBody_self hqv hb) hs
    simpa using hlex

/-- A bare word does not start with a quote. -/
theorem BareWord.not_escaped {w : Str} (h : BareWord w) : ¬ Escaped w := by
  rintro ⟨q, value, hq, rfl, -⟩
  obtain ⟨c, s, heq, hc, -⟩ := h
  rw [← (List.cons.inj heq).1] at hc
  rcases hq with rfl | rfl <;> exact absurd hc (by decide)

/-- The words of the lexer that are not escaped are plain. -/
theorem IsWord.plainWord {w : Str} (h : IsWord w) (hplain : ¬ Escaped w) : PlainWord w := by
  rcases h.cases with hw | ⟨q, value, hq, rfl⟩
  · exact .inl hw
  · have hqv : q ∉ value := fun hmem => hplain ⟨q, value, hq, rfl, .inl hmem⟩
    have hb : '\\' ∉ value := fun hmem => hplain ⟨q, value, hq, rfl, .inr hmem⟩
    exact .inr ⟨q, value, hq, rfl, hqv, hb⟩

/-- White space in front of a text is a gap. -/
theorem gap_space {space : Str} (h : Space space) (s : Str) : Gap (space ++ s) s := by
  induction space with
  | nil => exact .refl s
  | cons c space ih =>
    exact .space (h c (by simp)) (ih fun d hd => h d (by simp [hd]))

/-- What is written is read back, when every word of it is plain. -/
theorem Written.tokens {s : Str} {ts : List Token} (h : Written s ts)
    (hword : ∀ w, .word w ∈ ts → PlainWord w) : Tokens s ts [] := by
  induction h with
  | @nil s hs => exact .nil (by simpa using gap_space hs [])
  | @cons space s t ts hspace hdelim _ ih =>
    have htoks := ih fun w hw => hword w (by simp [hw])
    refine .cons (gap_space hspace _) ?_ htoks
    cases t with
    | word w => exact (hword w (by simp)).lexeme (hdelim w rfl)
    | semicolon => exact .semicolon s
    | opening => exact .opening s
    | closing => exact .closing s

/-- A token found where its value is written is not escaped, and ends where it was written. -/
theorem Lexeme.not_escaped {s rest : Str} {t : Token} (h : Lexeme (t.value ++ s) t rest) :
    rest = s ∧ ∀ w, t = .word w → ¬ Escaped w := by
  generalize hs : t.value ++ s = s₁ at h
  cases h with
  | semicolon => exact ⟨(List.cons.inj hs).2.symm, by simp⟩
  | opening => exact ⟨(List.cons.inj hs).2.symm, by simp⟩
  | closing => exact ⟨(List.cons.inj hs).2.symm, by simp⟩
  | bare hw _ =>
    refine ⟨(List.append_cancel_left hs).symm, fun w heq => ?_⟩
    rw [← Token.word.inj heq]
    exact hw.not_escaped
  | @quoted q raw value rest hq hbody _ =>
    have hvalue : value ++ q :: s = raw ++ q :: rest := by simpa using hs
    obtain ⟨rfl, hqv, hb⟩ := hbody.plain_of_append hq.ne_backslash hvalue
    refine ⟨by simpa using hvalue.symm, ?_⟩
    rintro w heq ⟨q', value', hq', rfl, hmem⟩
    obtain ⟨rfl, heq⟩ := List.cons.inj (Token.word.inj heq)
    obtain ⟨rfl, -⟩ := List.append_inj' heq rfl
    tauto

/-- If what is written is read back as the same tokens, no word of it is escaped. -/
theorem Written.not_escaped {s : Str} {ts : List Token} (h : Written s ts) {rest : Str}
    (htoks : Tokens s ts rest) {w : Str} (hw : .word w ∈ ts) : ¬ Escaped w := by
  induction h with
  | nil => simp at hw
  | @cons space s t ts hspace _ _ ih =>
    cases htoks with
    | @cons _ s₁ s₂ _ _ _ hgap hlex htoks =>
      -- The token is found behind the white space in front of it, and nowhere else.
      have hsettled : Settled (t.value ++ s) := by
        cases t with
        | word w => exact IsWord.settled ⟨_, _, hlex⟩ s
        | semicolon => exact settled_of_head (by decide) (by decide) _
        | opening => exact settled_of_head (by decide) (by decide) _
        | closing => exact settled_of_head (by decide) (by decide) _
      obtain rfl := (gap_space hspace _).unique hgap hsettled hlex.settled
      obtain ⟨rfl, hplain⟩ := hlex.not_escaped
      rcases List.mem_cons.mp hw with rfl | hw
      · exact hplain w rfl
      · exact ih htoks hw

/-! ## The round trip -/

/-- What is printed is the tokens of the tree. -/
theorem written_flatten (config : NginxConfig) : Written (config.toString 0) config.flatten := by
  simpa using written_toString config 0 (.nil (s := []) (by simp [Space]))

/-- A tree whose words are plain is parsed where it is written. -/
theorem Written.parse {config : NginxConfig} (hproper : config.Proper) {s : Str}
    (h : Written s config.flatten) (hword : ∀ w, .word w ∈ config.flatten → PlainWord w) :
    parse s = .valid config :=
  parse_flatten hproper (h.tokens hword) (.inl (.inl rfl))

/-- A tree of statements with some token each, in which every token is a plain word, is printed and
parsed to itself. -/
theorem parse_toString_plain {config : NginxConfig} (hproper : config.Proper)
    (hword : ∀ w, .word w ∈ config.flatten → PlainWord w) :
    parse (config.toString 0) = .valid config :=
  (written_flatten config).parse hproper hword

/-- A block without statements is printed and parsed as one, beside a statement without a block. -/
theorem parse_toString_block :
    parse (NginxConfig.toString [.mk [['a']] (some []), .mk [['a'], ['"', '"']] none] 0) =
      .valid [.mk [['a']] (some []), .mk [['a'], ['"', '"']] none] := by
  refine parse_toString_plain (by simp) fun w hw => ?_
  have hmem : w = ['a'] ∨ w = ['"', '"'] := by simpa using hw
  rcases hmem with rfl | rfl
  · exact .inl ⟨'a', [], rfl, by decide, by simp⟩
  · exact .inr ⟨'"', [], .inl rfl, rfl, by simp, by simp⟩

/-- The text has a quoted string in which its own quote or a backslash is escaped. -/
def HasEscape (input : Str) : Prop :=
  ∃ ts rest w, Tokens input ts rest ∧ Ended rest ∧ .word w ∈ ts ∧ Escaped w

/-- A config that is parsed is printed and parsed again to the same tree, exactly if its text has no
quoted string in which its own quote or a backslash is escaped. -/
theorem parse_toString_iff {input : Str} {config : NginxConfig} (h : parse input = .valid config) :
    parse (config.toString 0) = .valid config ↔ ¬ HasEscape input := by
  obtain ⟨ts, rest, htoks, hend⟩ := exists_tokens input
  obtain ⟨hproper, rfl, -⟩ := parse_valid h htoks hend
  have hwritten := written_flatten config
  constructor
  · -- Both the text and what is printed are read as the tokens of the tree.
    rintro hagain ⟨ts, rest', w, htoks', hend', hw, hescaped⟩
    obtain ⟨rfl, -⟩ := tokens_unique htoks htoks' hend hend'
    obtain ⟨ts₂, rest₂, htoks₂, hend₂⟩ := exists_tokens (config.toString 0)
    obtain ⟨-, rfl, -⟩ := parse_valid hagain htoks₂ hend₂
    exact hwritten.not_escaped htoks₂ hw hescaped
  · intro hnone
    exact hwritten.parse hproper fun w hw =>
      (htoks.isWord hw).plainWord fun hescaped => hnone ⟨_, rest, w, htoks, hend, hw, hescaped⟩

/-- A quoted word without escapes is printed as it was written. -/
theorem parse_toString_quoted :
    parse (NginxConfig.toString [.mk [['a'], ['"', 'b', '"']] none] 0) =
        .valid [.mk [['a'], ['"', 'b', '"']] none] ↔
      ¬ HasEscape ['a', ' ', '"', 'b', '"', ';'] :=
  parse_toString_iff (by rfl)

/-- A quote that is escaped in the text is not escaped in what is printed, and ends the string. -/
theorem not_parse_toString : ¬ ∀ input config, parse input = .valid config →
    parse (NginxConfig.toString config 0) = .valid config := by
  intro h
  have hagain := h ['a', ' ', '"', 'x', '\\', '"', 'y', '"', ';']
    [.mk [['a'], ['"', 'x', '"', 'y', '"']] none] rfl
  have hinvalid : parse (NginxConfig.toString [.mk [['a'], ['"', 'x', '"', 'y', '"']] none] 0) =
      .invalid := rfl
  rw [hinvalid] at hagain
  cases hagain

end CrazyCode.Config
