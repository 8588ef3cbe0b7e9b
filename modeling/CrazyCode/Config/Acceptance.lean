import CrazyCode.Config.Parser

/-!
# What the config parser accepts

`Reached ts stack last` says what the stack and the last token type are behind the tokens `ts`. The
stack holds the blocks that are open (`Opened`), and the parser is either between two statements, or
within one, or behind a closing brace that was one too many. That brace pops the base of the stack,
and nothing notices: `last_token_type` is the same as behind any other block.

`Reached.step` is what one token does, and `Reached.run` what a list of them does. In the other
direction `onTokens_flatten` takes the parser through the tokens of a tree. With the one reading of
an input (`tokens_unique`) they give both results:

- `parse_defined_iff`: the calls of the parser are defined unless the input has a surplus brace;
- `acceptsExactly_iff`: the parser accepts the grammar unless the input has a surplus brace, or ends
  inside a word or an escape behind its statements.
-/

namespace CrazyCode.Config

open Text Outcome

/-! ## One token -/

/-- A token type between two statements. -/
def IsBetween (last : TokenType) : Prop :=
  last = .start ∨ last = .statementEnd ∨ last = .startBlock ∨ last = .endBlock

/-- The token type behind a statement. -/
def IsBehind (last : TokenType) : Prop := last = .statementEnd ∨ last = .endBlock

/-- Behind a statement is between two. -/
theorem IsBehind.isBetween {last : TokenType} (h : IsBehind last) : IsBetween last := by
  rcases h with rfl | rfl
  · exact .inr (.inl rfl)
  · exact .inr (.inr (.inr rfl))

@[simp] theorem back_append (config : NginxConfig) (statement : NginxConfigStatement) :
    back (config ++ [statement]) = .ok (config, statement) := by
  simp [back]

@[simp] theorem pushToken_append (config : NginxConfig) (tokens : List Str)
    (childBlock : Option NginxConfig) (token : Str) :
    pushToken (config ++ [.mk tokens childBlock]) token =
      .ok (config ++ [.mk (tokens ++ [token]) childBlock]) := by
  rw [pushToken, back_append]
  rfl

@[simp] theorem setChild_append (config child : NginxConfig) (tokens : List Str)
    (childBlock : Option NginxConfig) :
    setChild (config ++ [.mk tokens childBlock]) child =
      .ok (config ++ [.mk tokens (some child)]) := by
  rw [setChild, back_append]
  rfl

/-- The check of a closed block reads the tokens of proper statements only. -/
theorem checkListen_proper {config : NginxConfig} (h : config.Proper) :
    checkListen config = .ok () := by
  induction config with
  | nil => rfl
  | cons statement config ih =>
    obtain ⟨_ | ⟨token, tokens⟩, childBlock⟩ := statement
    · exact absurd rfl h.1.tokens_ne_nil
    · rw [checkListen]
      split
      · rfl
      · exact ih h.2

/-- Between two statements a word starts one. -/
theorem onToken_word {last : TokenType} (h : IsBetween last) (w : Str) (config : NginxConfig)
    (parents : List NginxConfig) :
    onToken .normal w (config :: parents) last = .ok ((config ++ [.mk [w] none]) :: parents) := by
  rcases h with rfl | rfl | rfl | rfl <;> simp [onToken, top]

/-- Within a statement a word is added to it. -/
theorem onToken_word_within (w : Str) (config : NginxConfig) (tokens : List Str)
    (childBlock : Option NginxConfig) (parents : List NginxConfig) :
    onToken .normal w ((config ++ [.mk tokens childBlock]) :: parents) .normal =
      .ok ((config ++ [.mk (tokens ++ [w]) childBlock]) :: parents) := by
  simp [onToken, top]

/-- Within a statement an opening brace opens its block. -/
theorem onToken_opening (token : Str) (config : NginxConfig) (tokens : List Str)
    (childBlock : Option NginxConfig) (parents : List NginxConfig) :
    onToken .startBlock token ((config ++ [.mk tokens childBlock]) :: parents) .normal =
      .ok ([] :: (config ++ [.mk tokens (some [])]) :: parents) := by
  simp [onToken, top]

/-- Behind an opening brace or a statement a closing brace closes the block. -/
theorem onToken_closing {last : TokenType} (h : last = .startBlock ∨ IsBehind last) (token : Str)
    {child : NginxConfig} (hchild : child.Proper) (config : NginxConfig) (tokens : List Str)
    (childBlock : Option NginxConfig) (parents : List NginxConfig) :
    onToken .endBlock token (child :: (config ++ [.mk tokens childBlock]) :: parents) last =
      .ok ((config ++ [.mk tokens (some child)]) :: parents) := by
  have hlisten := checkListen_proper hchild
  rcases h with rfl | rfl | rfl <;> simp [onToken, top, hlisten, pop]

/-- With no block open, a closing brace behind a statement pops the base of the stack. -/
theorem onToken_surplus {last : TokenType} (h : IsBehind last) (token : Str) {config : NginxConfig}
    (hconfig : config.Proper) : onToken .endBlock token [config] last = .ok [] := by
  have hlisten := checkListen_proper hconfig
  rcases h with rfl | rfl <;> simp [onToken, top, hlisten, pop]

/-! ## The tokens of a tree -/

/-- Words are added to the statement that has begun. -/
theorem onTokens_words (words : List Str) (config : NginxConfig) (tokens : List Str)
    (childBlock : Option NginxConfig) (parents : List NginxConfig) :
    onTokens (words.map .word) ((config ++ [.mk tokens childBlock]) :: parents) .normal =
      .ok ((config ++ [.mk (tokens ++ words) childBlock]) :: parents, .normal) := by
  induction words generalizing tokens with
  | nil => simp [onTokens]
  | cons w words ih =>
    simp only [List.map_cons, onTokens, Token.type_word, Token.value_word, onToken_word_within,
      ok_bind]
    rw [ih, List.append_assoc]
    rfl

/-- Between two statements the words of a statement start it. -/
theorem onTokens_head {last : TokenType} (h : IsBetween last) {words : List Str}
    (hne : words ≠ []) (ts : List Token) (config : NginxConfig) (parents : List NginxConfig) :
    onTokens (words.map .word ++ ts) (config :: parents) last =
      onTokens ts ((config ++ [.mk words none]) :: parents) .normal := by
  obtain ⟨w, words, rfl⟩ := List.exists_cons_of_ne_nil hne
  simp only [List.map_cons, List.cons_append, onTokens, Token.type_word, Token.value_word,
    onToken_word h, ok_bind]
  rw [onTokens_append, onTokens_words]
  rfl

/-- The parser goes through the tokens of a proper tree, and adds the tree to the open block. -/
theorem onTokens_flatten {config : NginxConfig} (h : config.Proper) {last : TokenType}
    (hlast : IsBetween last) (top : NginxConfig) (parents : List NginxConfig) :
    ∃ last', (IsBehind last' ∨ config = [] ∧ last' = last) ∧
      onTokens config.flatten (top :: parents) last = .ok ((top ++ config) :: parents, last') := by
  -- One motive for a statement and one for a config: the last type behind it is that of its end.
  refine flattenAll.induct
    (fun statement => statement.Proper → ∀ (last : TokenType) top parents, IsBetween last →
      ∃ last', IsBehind last' ∧ onTokens statement.flatten (top :: parents) last =
        .ok ((top ++ [statement]) :: parents, last'))
    (fun config => ProperAll config → ∀ (last : TokenType) top parents, IsBetween last →
      ∃ last', (IsBehind last' ∨ config = [] ∧ last' = last) ∧
        onTokens (flattenAll config) (top :: parents) last =
          .ok ((top ++ config) :: parents, last')) ?_ ?_ ?_ ?_ config h last top parents hlast
  · intro tokens hne last top parents hlast
    refine ⟨.statementEnd, .inl rfl, ?_⟩
    rw [NginxConfigStatement.flatten_simple, onTokens_head hlast hne]
    simp [onTokens, onToken]
  · -- The block is filled in a frame of its own, and the closing brace puts it into its statement.
    intro tokens config ih hproper last top parents hlast
    obtain ⟨last', hlast', hconfig⟩ := ih hproper.2 .startBlock []
      ((top ++ [.mk tokens (some [])]) :: parents) (.inr (.inr (.inl rfl)))
    refine ⟨.endBlock, .inr rfl, ?_⟩
    rw [NginxConfigStatement.flatten_block, onTokens_head hlast hproper.1, onTokens]
    simp only [Token.type_opening, onToken_opening, ok_bind]
    have hbehind : last' = .startBlock ∨ IsBehind last' := by tauto
    have hclose := onToken_closing hbehind Token.closing.value hproper.2 top tokens (some [])
      parents
    change onTokens (NginxConfig.flatten config) _ _ = _ at hconfig
    rw [onTokens_append, hconfig]
    simp [Except.bind, onTokens, hclose]
  · intro _ last top parents _
    exact ⟨last, .inr ⟨rfl, rfl⟩, by simp [flattenAll, onTokens]⟩
  · intro statement config ih₁ ih₂ hproper last top parents hlast
    obtain ⟨last₁, hlast₁, h₁⟩ := ih₁ hproper.1 last top parents hlast
    obtain ⟨last₂, hlast₂, h₂⟩ := ih₂ hproper.2 last₁ (top ++ [statement]) parents hlast₁.isBetween
    refine ⟨last₂, .inl ?_, ?_⟩
    · rcases hlast₂ with h | ⟨-, rfl⟩
      · exact h
      · exact hlast₁
    · rw [flattenAll, onTokens_append, h₁]
      simpa [Except.bind] using h₂

/-! ## What is reached behind some tokens -/

/-- The blocks that are open: the frames below the top, and the tokens up to the last opening
brace. -/
inductive Opened : List NginxConfig → List Token → Prop
  | base : Opened [] []
  | block {parents : List NginxConfig} {pre : List Token} {config : NginxConfig}
      {words : List Str} : Opened parents pre → config.Proper → words ≠ [] →
      Opened ((config ++ [.mk words (some [])]) :: parents)
        (pre ++ config.flatten ++ words.map .word ++ [.opening])

/-- Statements, and then a closing brace that closes no block. -/
def Surplus (ts : List Token) : Prop :=
  ∃ pre, Statements pre ∧ pre ≠ [] ∧ ts = pre ++ [.closing]

/-- A token for which the parser looks at the top of its stack, whatever came before. -/
def UsesTop (t : Token) : Prop := t = .closing ∨ ∃ w, t = .word w

/-- The tokens read, the stack and the last token type, at the places the parser can be. -/
inductive Reached : List Token → List NginxConfig → TokenType → Prop
  | start : Reached [] [[]] .start
  | opened {parents : List NginxConfig} {pre : List Token} : Opened parents pre → parents ≠ [] →
      Reached pre ([] :: parents) .startBlock
  | behind {parents : List NginxConfig} {pre : List Token} {config : NginxConfig}
      {last : TokenType} : Opened parents pre → config.Proper → config ≠ [] → IsBehind last →
      Reached (pre ++ config.flatten) (config :: parents) last
  | within {parents : List NginxConfig} {pre : List Token} {config : NginxConfig}
      {words : List Str} : Opened parents pre → config.Proper → words ≠ [] →
      Reached (pre ++ config.flatten ++ words.map .word) ((config ++ [.mk words none]) :: parents)
        .normal
  | surplus {ts : List Token} : Surplus ts → Reached ts [] .endBlock

/-- A statement is started in an open block. -/
theorem Opened.word {parents : List NginxConfig} {pre : List Token} (h : Opened parents pre)
    {config : NginxConfig} (hconfig : config.Proper) (w : Str) :
    Reached (pre ++ config.flatten ++ [.word w])
      ((config ++ [.mk [w] none]) :: parents) .normal := by
  have hne : [w] ≠ [] := by simp
  exact .within h hconfig hne

/-- The last open block is closed. -/
theorem Opened.closing {parents : List NginxConfig} {pre : List Token} (h : Opened parents pre)
    (hne : parents ≠ []) {child : NginxConfig} (hchild : child.Proper) {last : TokenType}
    (hlast : last = .startBlock ∨ IsBehind last) (token : Str) :
    ∃ stack, onToken .endBlock token (child :: parents) last = .ok stack ∧
      Reached (pre ++ child.flatten ++ [.closing]) stack .endBlock := by
  cases h with
  | base => exact absurd rfl hne
  | @block parents pre config words h hconfig hwords =>
    refine ⟨_, onToken_closing hlast token hchild config words (some []) parents, ?_⟩
    have hproper := hconfig.concat (NginxConfigStatement.proper_block.mpr ⟨hwords, hchild⟩)
    simpa using Reached.behind h hproper (by simp) (.inr rfl)

/-- What one token does: the parser goes on, or it reports an invalid config, or it looks at the top
of an empty stack behind a surplus brace. -/
theorem Reached.step {ts : List Token} {stack : List NginxConfig} {last : TokenType}
    (h : Reached ts stack last) (t : Token) :
    (∃ stack', onToken t.type t.value stack last = .ok stack' ∧
      Reached (ts ++ [t]) stack' t.type) ∨
    onToken t.type t.value stack last = .error .invalid ∨
    (onToken t.type t.value stack last = .error (.undefined .emptyStackTop) ∧ Surplus ts ∧
      UsesTop t) := by
  cases h with
  | start =>
    cases t with
    | word w =>
      exact .inl ⟨_, onToken_word (.inl rfl) w [] [], Opened.base.word NginxConfig.proper_nil w⟩
    | semicolon | opening | closing => exact .inr (.inl rfl)
  | opened hopen hne =>
    -- Behind an opening brace: a statement begins, or the block is closed empty.
    cases t with
    | word w =>
      refine .inl ⟨_, onToken_word (.inr (.inr (.inl rfl))) w [] _, ?_⟩
      simpa using hopen.word NginxConfig.proper_nil w
    | closing =>
      exact .inl (by
        simpa using hopen.closing hne NginxConfig.proper_nil (.inl rfl) Token.closing.value)
    | semicolon | opening => exact .inr (.inl rfl)
  | @behind parents pre config last hopen hproper hne hlast =>
    cases t with
    | word w => exact .inl ⟨_, onToken_word hlast.isBetween w config _, hopen.word hproper w⟩
    | closing =>
      by_cases hparents : parents = []
      · -- No block is open: the brace pops the base.
        subst hparents
        cases hopen with
        | base =>
          refine .inl ⟨[], onToken_surplus hlast _ hproper, .surplus ?_⟩
          exact ⟨_, statements_flatten hproper, NginxConfig.flatten_ne_nil hne, rfl⟩
      · exact .inl (hopen.closing hparents hproper (.inr hlast) _)
    | semicolon | opening => rcases hlast with rfl | rfl <;> exact .inr (.inl rfl)
  | @within parents pre config words hopen hproper hne =>
    cases t with
    | word w =>
      refine .inl ⟨_, onToken_word_within w config words none _, ?_⟩
      have hne : words ++ [w] ≠ [] := by simp
      simpa using Reached.within hopen hproper hne
    | semicolon =>
      refine .inl ⟨_, rfl, ?_⟩
      have hproper := hproper.concat (NginxConfigStatement.proper_simple.mpr hne)
      simpa using Reached.behind hopen hproper (by simp) (.inl rfl)
    | opening =>
      exact .inl ⟨_, onToken_opening _ config words none _, .opened (.block hopen hproper hne)
        (by simp)⟩
    | closing => exact .inr (.inl rfl)
  | surplus hsurplus =>
    -- The stack is empty. A semicolon or an opening brace is refused for the last type alone.
    cases t with
    | word w => exact .inr (.inr ⟨rfl, hsurplus, .inr ⟨w, rfl⟩⟩)
    | closing => exact .inr (.inr ⟨rfl, hsurplus, .inl rfl⟩)
    | semicolon | opening => exact .inr (.inl rfl)

/-- What a list of tokens does. -/
theorem Reached.run {pre : List Token} {stack : List NginxConfig} {last : TokenType}
    (h : Reached pre stack last) (ts : List Token) :
    (∃ stack' last', onTokens ts stack last = .ok (stack', last') ∧
      Reached (pre ++ ts) stack' last') ∨
    onTokens ts stack last = .error .invalid ∨
    (onTokens ts stack last = .error (.undefined .emptyStackTop) ∧
      ∃ ts' t, Surplus ts' ∧ UsesTop t ∧ ts' ++ [t] <+: pre ++ ts) := by
  induction ts generalizing pre stack last with
  | nil => exact .inl ⟨stack, last, rfl, by simpa using h⟩
  | cons t ts ih =>
    rcases h.step t with ⟨stack', hstep, h'⟩ | hstep | ⟨hstep, hsurplus, ht⟩
    -- Only a token that the parser goes on behind leaves the rest of the list to it.
    · simpa [onTokens, hstep] using ih h'
    · exact .inr (.inl (by simp [onTokens, hstep]))
    · exact .inr (.inr ⟨by simp [onTokens, hstep], pre, t, hsurplus, ht, by simp⟩)

/-! ## What `Parse` comes to -/

/-- The result of `Parse` on an input, from the tokens of its reading and its end. -/
theorem parse_reading {input rest : Str} {ts : List Token} (h : Tokens input ts rest) :
    parse input =
      match onTokens ts [[]] .start with
      | .error result => result
      | .ok (stack, last) => parseFrom stack last rest :=
  parseFrom_tokens h _ _

/-- An end is blank or unfinished when the lexer reports the end of the input there. -/
theorem Ended.eof_iff {rest : Str} (h : Ended rest) :
    (nextToken rest).1 = .eof ↔ Blank rest ∨ Unfinished rest := by
  constructor
  · intro heof
    rcases h with h | h | h
    · exact .inl h
    · exact .inr h
    · rw [nextToken_malformed h] at heof
      cases heof
  · rintro (h | h)
    · exact nextToken_blank h
    · exact nextToken_unfinished h

/-- Only the base of the stack has no tokens in front of it. -/
theorem Opened.base_eq {pre : List Token} (h : Opened [] pre) : pre = [] := by
  cases h
  rfl

/-- Behind all tokens: the parser accepts the config on its stack, or reports an invalid config, or
pops the empty stack behind a surplus brace. -/
theorem Reached.finish {ts : List Token} {stack : List NginxConfig} {last : TokenType}
    (h : Reached ts stack last) {rest : Str} (hend : Ended rest) :
    (∃ config, parseFrom stack last rest = .valid config ∧ config.Proper ∧ config.flatten = ts ∧
      (Blank rest ∨ Unfinished rest)) ∨
    parseFrom stack last rest = .invalid ∨
    (parseFrom stack last rest = .undefined .emptyStackPop ∧ Surplus ts ∧
      (Blank rest ∨ Unfinished rest)) := by
  rcases hend.type with heof | herror
  · rw [parseFrom_eof heof]
    have hend := hend.eof_iff.mp heof
    -- A block that is open leaves a second frame, and a statement that is open the wrong last type.
    cases h with
    | start => exact .inl ⟨[], rfl, trivial, rfl, hend⟩
    | opened => exact .inr (.inl rfl)
    | @behind parents pre config last hopen hproper _ hlast =>
      rw [if_neg (by rcases hlast with rfl | rfl <;> simp)]
      cases parents with
      | nil => exact .inl ⟨config, rfl, hproper, by rw [hopen.base_eq]; rfl, hend⟩
      | cons parent parents => exact .inr (.inl rfl)
    | within => exact .inr (.inl rfl)
    | surplus hsurplus => exact .inr (.inr ⟨rfl, hsurplus, hend⟩)
  · exact .inr (.inl (parseFrom_error herror _ _))

/-- What `Parse` comes to on an input with a given reading. -/
theorem parse_cases {input rest : Str} {ts : List Token} (h : Tokens input ts rest)
    (hend : Ended rest) :
    (∃ config, parse input = .valid config ∧ config.Proper ∧ config.flatten = ts ∧
      (Blank rest ∨ Unfinished rest)) ∨
    parse input = .invalid ∨
    ((∃ fault, parse input = .undefined fault) ∧
      (Surplus ts ∧ (Blank rest ∨ Unfinished rest) ∨
        ∃ ts' t, Surplus ts' ∧ UsesTop t ∧ ts' ++ [t] <+: ts)) := by
  rw [parse_reading h]
  rcases Reached.start.run ts with ⟨stack, last, hrun, hreached⟩ | hrun | ⟨hrun, hsurplus⟩
  · rw [hrun]
    rcases hreached.finish hend with h | h | ⟨h, hsurplus, hend⟩
    · exact .inl h
    · exact .inr (.inl h)
    · exact .inr (.inr ⟨⟨_, h⟩, .inl ⟨hsurplus, hend⟩⟩)
  · exact .inr (.inl (by rw [hrun]))
  · exact .inr (.inr ⟨⟨_, by rw [hrun]⟩, .inr hsurplus⟩)

/-- A config that is accepted is a proper tree of the tokens of the input. -/
theorem parse_valid {input rest : Str} {ts : List Token} {config : NginxConfig}
    (h : parse input = .valid config) (htoks : Tokens input ts rest) (hend : Ended rest) :
    config.Proper ∧ config.flatten = ts ∧ (Blank rest ∨ Unfinished rest) := by
  rcases parse_cases htoks hend with ⟨config', hvalid, htree⟩ | hinvalid | ⟨⟨fault, hfault⟩, -⟩
  · rw [ParseResult.valid.inj (h.symm.trans hvalid)]
    exact htree
  · simp [h] at hinvalid
  · simp [h] at hfault

/-- The words of a config that is accepted are words of the lexer. -/
theorem parse_isWord {input : Str} {config : NginxConfig} (h : parse input = .valid config)
    {w : Str} (hw : .word w ∈ config.flatten) : IsWord w := by
  obtain ⟨ts, rest, htoks, hend⟩ := exists_tokens input
  obtain ⟨-, rfl, -⟩ := parse_valid h htoks hend
  exact htoks.isWord hw

/-- A config that is accepted is proper. -/
theorem parse_proper {input : Str} {config : NginxConfig} (h : parse input = .valid config) :
    config.Proper := by
  obtain ⟨ts, rest, htoks, hend⟩ := exists_tokens input
  exact (parse_valid h htoks hend).1

/-- `Parse` accepts the tokens of a proper tree in front of a blank or unfinished end. -/
theorem parse_flatten {input rest : Str} {config : NginxConfig} (hproper : config.Proper)
    (h : Tokens input config.flatten rest) (hend : Blank rest ∨ Unfinished rest) :
    parse input = .valid config := by
  obtain ⟨last, hlast, hrun⟩ := onTokens_flatten hproper (.inl rfl) [] []
  have heof : (nextToken rest).1 = .eof := by
    rcases hend with h | h
    · exact nextToken_blank h
    · exact nextToken_unfinished h
  rw [parse_reading h, hrun]
  simp only [List.nil_append]
  rw [parseFrom_eof heof, if_neg]
  rcases hlast with (rfl | rfl) | ⟨-, rfl⟩ <;> simp

/-- Behind a surplus brace the stack is empty. -/
theorem Surplus.onTokens {ts : List Token} (h : Surplus ts) :
    onTokens ts [[]] .start = .ok ([], .endBlock) := by
  obtain ⟨pre, hpre, hne, rfl⟩ := h
  obtain ⟨config, hproper, rfl⟩ := exists_flatten hpre
  obtain ⟨last, hlast, hrun⟩ := onTokens_flatten hproper (.inl rfl) [] []
  have hlast : IsBehind last := by
    rcases hlast with h | ⟨rfl, -⟩
    · exact h
    · exact absurd rfl hne
  rw [onTokens_append, hrun]
  simp [Except.bind, CrazyCode.Config.onTokens, onToken_surplus hlast _ hproper]

/-- Behind a surplus brace, a token for which the parser looks at the top of its stack is a
fault. -/
theorem parse_surplus_token {input rest : Str} {ts ts' : List Token} {t : Token}
    (h : Tokens input ts rest) (hsurplus : Surplus ts') (ht : UsesTop t) (hle : ts' ++ [t] <+: ts) :
    parse input = .undefined .emptyStackTop := by
  obtain ⟨post, rfl⟩ := hle
  rw [parse_reading h, List.append_assoc, onTokens_append, hsurplus.onTokens]
  rcases ht with rfl | ⟨w, rfl⟩ <;> rfl

/-- Behind a surplus brace the end of the input is a fault. -/
theorem parse_surplus_eof {input rest : Str} {ts : List Token} (h : Tokens input ts rest)
    (hsurplus : Surplus ts) (hend : Blank rest ∨ Unfinished rest) :
    parse input = .undefined .emptyStackPop := by
  have heof : (nextToken rest).1 = .eof := by
    rcases hend with h | h
    · exact nextToken_blank h
    · exact nextToken_unfinished h
  rw [parse_reading h, hsurplus.onTokens]
  simp only
  rw [parseFrom_eof heof]
  rfl

/-! ## The calls of the parser -/

/-- The input has a closing brace behind its statements that closes no block, and behind it a word,
a further closing brace, or the end of the input. -/
def SurplusBrace (input : Str) : Prop :=
  ∃ ts rest, Tokens input ts rest ∧ Ended rest ∧
    (Surplus ts ∧ (Blank rest ∨ Unfinished rest) ∨
      ∃ ts' t, Surplus ts' ∧ UsesTop t ∧ ts' ++ [t] <+: ts)

/-- A surplus brace is a fault. -/
theorem SurplusBrace.undefined {input : Str} (h : SurplusBrace input) :
    ∃ fault, parse input = .undefined fault := by
  obtain ⟨ts, rest, htoks, -, ⟨hsurplus, hend⟩ | ⟨ts', t, hsurplus, ht, hle⟩⟩ := h
  · exact ⟨_, parse_surplus_eof htoks hsurplus hend⟩
  · exact ⟨_, parse_surplus_token htoks hsurplus ht hle⟩

/-- The loop of `Parse` ends. -/
theorem parse_ne_unfinished (input : Str) : parse input ≠ .unfinished := by
  obtain ⟨ts, rest, htoks, hend⟩ := exists_tokens input
  rcases parse_cases htoks hend with ⟨config, h, -⟩ | h | ⟨⟨fault, h⟩, -⟩ <;> simp [h]

/-- Every call of the parser on its stack and its lists is defined, unless the input has a surplus
closing brace. -/
theorem parse_defined_iff (input : Str) :
    (∀ fault, parse input ≠ .undefined fault) ↔ ¬ SurplusBrace input := by
  constructor
  · intro h hsurplus
    obtain ⟨fault, hfault⟩ := hsurplus.undefined
    exact h fault hfault
  · intro h fault hfault
    obtain ⟨ts, rest, htoks, hend⟩ := exists_tokens input
    rcases parse_cases htoks hend with ⟨config, h', -⟩ | h' | ⟨-, hsurplus⟩
    · simp [hfault] at h'
    · simp [hfault] at h'
    · exact h ⟨ts, rest, htoks, hend, hsurplus⟩

/-- A surplus brace at the end of the input pops the empty stack. -/
theorem parse_not_defined : ¬ ∀ input fault, parse input ≠ .undefined fault := fun h =>
  h ['a', ';', '}'] .emptyStackPop rfl

/-! ## The configs that are accepted -/

/-- The input is a sequence of statements, with these tokens: nothing is left of it but white space
and comments. -/
def IsConfig (input : Str) (ts : List Token) : Prop :=
  ∃ rest, Tokens input ts rest ∧ Blank rest ∧ Statements ts

/-- `Parse` returns `true` with a tree of all the tokens of a sequence of statements, or it returns
`false` and the input is no sequence of statements. -/
def AcceptsExactly (input : Str) : Prop :=
  (∃ config, parse input = .valid config ∧ IsConfig input config.flatten) ∨
    (parse input = .invalid ∧ ¬ ∃ ts, IsConfig input ts)

/-- The input is a sequence of statements, and behind them it ends inside a bare word, or behind the
backslash of an escape in an open quoted string. -/
def Truncated (input : Str) : Prop :=
  ∃ ts rest, Tokens input ts rest ∧ Unfinished rest ∧ Statements ts

/-- No end is both blank and unfinished. -/
theorem Blank.not_unfinished {rest : Str} (h : Blank rest) : ¬ Unfinished rest := by
  rintro (⟨c, w, rfl, hc, -⟩ | ⟨q, raw, value, hq, -, rfl⟩)
  · rcases h with h | ⟨body, h, -⟩
    · cases h
    · rw [(List.cons.inj h).1] at hc
      exact absurd hc (by decide)
  · rcases h with h | ⟨body, h, -⟩
    · cases h
    · rw [(List.cons.inj h).1] at hq
      rcases hq with h | h <;> exact absurd h (by decide)

/-- `Parse` does not accept exactly the grammar on a truncated input: it returns `true`. -/
theorem Truncated.not_acceptsExactly {input : Str} (h : Truncated input) :
    ¬ AcceptsExactly input := by
  obtain ⟨ts, rest, htoks, hend, hts⟩ := h
  obtain ⟨config, hproper, rfl⟩ := exists_flatten hts
  have hvalid := parse_flatten hproper htoks (.inr hend)
  rintro (⟨_, -, rest', htoks', hblank, -⟩ | ⟨hinvalid, -⟩)
  · -- There is one reading only, and its end is unfinished.
    obtain ⟨-, rfl⟩ := tokens_unique htoks htoks' (.inr (.inl hend)) (.inl hblank)
    exact hblank.not_unfinished hend
  · simp [hvalid] at hinvalid

/-- `Parse` returns nothing on an input with a surplus closing brace. -/
theorem SurplusBrace.not_acceptsExactly {input : Str} (h : SurplusBrace input) :
    ¬ AcceptsExactly input := by
  obtain ⟨fault, hfault⟩ := h.undefined
  rintro (⟨config, hvalid, -⟩ | ⟨hinvalid, -⟩)
  · simp [hfault] at hvalid
  · simp [hfault] at hinvalid

/-- `Parse` accepts exactly the grammar and drops nothing, unless the input has a surplus closing
brace or is truncated behind its statements. -/
theorem acceptsExactly_iff (input : Str) :
    AcceptsExactly input ↔ ¬ SurplusBrace input ∧ ¬ Truncated input := by
  constructor
  · intro h
    exact ⟨fun hsurplus => hsurplus.not_acceptsExactly h, fun htrunc => htrunc.not_acceptsExactly h⟩
  · rintro ⟨hsurplus, htrunc⟩
    obtain ⟨ts, rest, htoks, hend⟩ := exists_tokens input
    rcases parse_cases htoks hend with ⟨config, hvalid, hproper, rfl, hblank | hunf⟩ | hinvalid |
      ⟨-, h⟩
    · exact .inl ⟨config, hvalid, rest, htoks, hblank, statements_flatten hproper⟩
    · exact absurd ⟨_, rest, htoks, hunf, statements_flatten hproper⟩ htrunc
    · -- Were the input a sequence of statements, it would be accepted.
      refine .inr ⟨hinvalid, ?_⟩
      rintro ⟨ts', rest', htoks', hblank, hts⟩
      obtain ⟨config, hproper, rfl⟩ := exists_flatten hts
      simp [parse_flatten hproper htoks' (.inl hblank)] at hinvalid
    · exact absurd ⟨ts, rest, htoks, hend, h⟩ hsurplus

/-- A last statement without its semicolon is accepted, and its word is lost. -/
theorem not_acceptsExactly_missing_semicolon : ¬ ∀ input, AcceptsExactly input := by
  intro h
  have hfoo : Lexeme "foo; baz".toList (.word "foo".toList) "; baz".toList :=
    .bare (w := "foo".toList) ⟨'f', "oo".toList, rfl, by decide, by simp [isDelimiter]⟩
      ⟨';', _, rfl, by decide⟩
  have hbaz : Unfinished "baz".toList :=
    .inl ⟨'b', "az".toList, rfl, by decide, by simp [isDelimiter]⟩
  have htoks : Tokens "foo; baz".toList [.word "foo".toList, .semicolon] "baz".toList :=
    .cons (.refl _) hfoo (.cons (.refl _) (.semicolon _) (.nil (.space (by decide) (.refl _))))
  have hne : ["foo".toList] ≠ [] := by simp
  have hts : Statements [.word "foo".toList, .semicolon] := .simple hne .nil
  exact Truncated.not_acceptsExactly ⟨_, _, htoks, hbaz, hts⟩ (h "foo; baz".toList)

end CrazyCode.Config
