import CrazyCode.Config.Reading
import CrazyCode.Config.Tree
import CrazyCode.Library.Outcome

/-!
# The config parser

`parse` is `NginxConfigParser::Parse` of `src/config_parser.cc` on an empty `NginxConfig`. Its loop
calls `ParseToken` and looks at the type of the token before, which it keeps in `last_token_type`,
and at the top of `config_stack`. A call that the C++ library leaves undefined is a `Fault`.

The stack is a list with the top first, and the base is the config that is filled. While a block is
open its statements are those of a frame of the stack, and in the frame below its statement has an
empty block; when the frame is popped its statements are put there. (In the source the two are one
object, which nothing reads through the statement while it is on the stack.)

The loop has fuel, one unit for each call of `ParseToken`. A call that does not end the loop takes a
byte off the input, so one unit more than the bytes of the input is always enough
(`parseCalls_eq`). `parseFrom_tokens` then says what `Parse` does with an input that is read as some
tokens up to a rest: it goes through the tokens with `onTokens`, and on from there.
-/

namespace CrazyCode.Config

open Text

/-- The calls of `Parse` that have no defined behaviour. -/
inductive Fault where
  /-- `top()` of an empty `config_stack` -/
  | emptyStackTop
  /-- `pop()` of an empty `config_stack` -/
  | emptyStackPop
  /-- `back()` of an empty `statements_` -/
  | emptyStatementsBack
  /-- `tokens_[0]` of a statement without tokens -/
  | emptyTokensFront
deriving DecidableEq, Repr

/-- What `Parse` comes to: `true` with the config it has filled, `false`, or a fault. `unfinished`
stands for a loop that has no fuel left. -/
inductive ParseResult where
  | valid (config : NginxConfig)
  | invalid
  | undefined (fault : Fault)
  | unfinished

/-- `config_stack.top()`, and the rest of the stack. -/
def top : List NginxConfig → Except ParseResult (NginxConfig × List NginxConfig)
  | [] => .error (.undefined .emptyStackTop)
  | config :: stack => .ok (config, stack)

/-- `statements_.back()`, and the statements before it. -/
def back (config : NginxConfig) :
    Except ParseResult (NginxConfig × NginxConfigStatement) :=
  match config.getLast? with
  | none => .error (.undefined .emptyStatementsBack)
  | some statement => .ok (config.dropLast, statement)

/-- `statements_.back()->tokens_.push_back(token)`. -/
def pushToken (config : NginxConfig) (token : Str) : Except ParseResult NginxConfig := do
  let (before, .mk tokens childBlock) ← back config
  return before ++ [.mk (tokens ++ [token]) childBlock]

/-- `statements_.back()->child_block_` is set. -/
def setChild (config child : NginxConfig) : Except ParseResult NginxConfig := do
  let (before, .mk tokens _) ← back config
  return before ++ [.mk tokens (some child)]

/-- `config_stack.pop()`: the statements of the frame are those of the open block below it. -/
def pop : List NginxConfig → Except ParseResult (List NginxConfig)
  | [] => .error (.undefined .emptyStackPop)
  | [_] => .ok []
  | child :: parent :: stack => do return (← setChild parent child) :: stack

/-- The loop over the statements of a block that is closed. It reads the first token of each, and
the `break` in it leaves this loop only. -/
def checkListen : NginxConfig → Except ParseResult Unit
  | [] => .ok ()
  | .mk [] _ :: _ => .error (.undefined .emptyTokensFront)
  | .mk (token :: tokens) _ :: config =>
    -- A `listen` with other than one argument ends the check, and nothing else.
    if token = "listen".toList ∧ (token :: tokens).length ≠ 2 then .ok () else checkListen config

/-- The body of the loop of `Parse` for a token that is no comment: the next stack, or the result
that ends the loop. -/
def onToken (type : TokenType) (token : Str) (stack : List NginxConfig) (last : TokenType) :
    Except ParseResult (List NginxConfig) :=
  match type with
  | .normal =>
    if last = .start ∨ last = .statementEnd ∨ last = .startBlock ∨ last = .endBlock ∨
        last = .normal then do
      let (config, stack) ← top stack
      -- A word behind no other word begins a statement.
      let config := if last ≠ .normal then config ++ [.mk [] none] else config
      return (← pushToken config token) :: stack
    else .error .invalid
  | .statementEnd => if last ≠ .normal then .error .invalid else .ok stack
  | .startBlock =>
    if last ≠ .normal then .error .invalid
    else do
      let (config, stack) ← top stack
      return [] :: (← setChild config []) :: stack
  | .endBlock =>
    -- Nothing here asks whether a block is open.
    if last ≠ .startBlock ∧ last ≠ .statementEnd ∧ last ≠ .endBlock then .error .invalid
    else do
      let (config, _) ← top stack
      checkListen config
      pop stack
  | .eof =>
    if last ≠ .statementEnd ∧ last ≠ .endBlock ∧ last ≠ .start then .error .invalid
    else
      -- `pop`, and then the stack must be empty.
      match stack with
      | [] => .error (.undefined .emptyStackPop)
      | [config] => .error (.valid config)
      | _ :: _ :: _ => .error .invalid
  -- The loop goes on at a comment before it comes here.
  | .start | .comment | .error => .error .invalid

/-- The loop of `Parse`, with a bound on the calls of `ParseToken`. -/
def parseCalls : ℕ → List NginxConfig → TokenType → Str → ParseResult
  | 0, _, _, _ => .unfinished
  | calls + 1, stack, last, input =>
    let (type, token, input) := nextToken input
    -- At a comment the loop goes on with the last token type as it was.
    if type = .comment then parseCalls calls stack last input
    else
      match onToken type token stack last with
      | .error result => result
      | .ok stack => parseCalls calls stack type input

/-- The loop of `Parse` from a stack and a last token on. -/
def parseFrom (stack : List NginxConfig) (last : TokenType) (input : Str) : ParseResult :=
  parseCalls (input.length + 1) stack last input

/-- `NginxConfigParser::Parse` on an empty config. -/
def parse (input : Str) : ParseResult := parseFrom [[]] .start input

/-! ## The fuel is enough -/

/-- The end of the input ends the loop. -/
theorem onToken_eof (token : Str) (stack : List NginxConfig) (last : TokenType) :
    ∃ result, onToken .eof token stack last = .error result := by
  by_cases hlast : last ≠ .statementEnd ∧ last ≠ .endBlock ∧ last ≠ .start
  · exact ⟨_, if_pos hlast⟩
  · simp only [onToken, if_neg hlast]
    rcases stack with _ | ⟨config, _ | ⟨parent, stack⟩⟩ <;> exact ⟨_, rfl⟩

/-- Fuel for one call more than the input has bytes is as good as any more. -/
theorem parseCalls_eq {calls calls' : ℕ} {input : Str} (h : input.length < calls)
    (h' : input.length < calls') (stack : List NginxConfig) (last : TokenType) :
    parseCalls calls stack last input = parseCalls calls' stack last input := by
  induction calls generalizing calls' input stack last with
  | zero => simp at h
  | succ calls ih =>
    cases calls' with
    | zero => simp at h'
    | succ calls' =>
      simp only [parseCalls]
      by_cases heof : (nextToken input).1 = .eof
      · obtain ⟨result, hresult⟩ := onToken_eof (nextToken input).2.1 stack last
        simp [heof, hresult]
      -- The call has taken a byte, so both bounds go down by one.
      have hlt := Nat.lt_of_lt_of_le (nextToken_length heof) (Nat.lt_succ_iff.mp h)
      have hlt' := Nat.lt_of_lt_of_le (nextToken_length heof) (Nat.lt_succ_iff.mp h')
      split
      · exact ih hlt hlt' _ _
      · cases onToken (nextToken input).1 (nextToken input).2.1 stack last with
        | error result => rfl
        | ok stack => exact ih hlt hlt' _ _

/-- One round of the loop. -/
theorem parseFrom_eq (stack : List NginxConfig) (last : TokenType) (input : Str) :
    parseFrom stack last input =
      if (nextToken input).1 = .comment then parseFrom stack last (nextToken input).2.2
      else
        match onToken (nextToken input).1 (nextToken input).2.1 stack last with
        | .error result => result
        | .ok stack => parseFrom stack (nextToken input).1 (nextToken input).2.2 := by
  rw [parseFrom, parseCalls]
  by_cases heof : (nextToken input).1 = .eof
  · obtain ⟨result, hresult⟩ := onToken_eof (nextToken input).2.1 stack last
    simp [heof, hresult]
  have hlt := nextToken_length heof
  simp only
  split
  · exact parseCalls_eq hlt (by omega) _ _
  · cases onToken (nextToken input).1 (nextToken input).2.1 stack last with
    | error result => rfl
    | ok stack => exact parseCalls_eq hlt (by omega) _ _

/-! ## The loop over the tokens of an input -/

/-- The loop of `Parse` over tokens: the stack and the last type behind them, or the result that
ends the loop among them. -/
def onTokens : List Token → List NginxConfig → TokenType →
    Except ParseResult (List NginxConfig × TokenType)
  | [], stack, last => .ok (stack, last)
  | t :: ts, stack, last => do
    let stack ← onToken t.type t.value stack last
    onTokens ts stack t.type

/-- One token after the other. -/
theorem onTokens_append (ts ts' : List Token) (stack : List NginxConfig) (last : TokenType) :
    onTokens (ts ++ ts') stack last =
      (onTokens ts stack last).bind fun p => onTokens ts' p.1 p.2 := by
  induction ts generalizing stack last with
  | nil => rfl
  | cons t ts ih =>
    rw [List.cons_append, onTokens, onTokens]
    cases onToken t.type t.value stack last with
    | error result => rfl
    | ok stack => exact ih _ _

/-- White space and comments are passed over. -/
theorem parseFrom_gap {s rest : Str} (h : Gap s rest) (stack : List NginxConfig)
    (last : TokenType) : parseFrom stack last s = parseFrom stack last rest := by
  induction h with
  | refl => rfl
  | space hc _ ih => rw [← ih, parseFrom_eq, nextToken_space hc, ← parseFrom_eq]
  | comment hn hr hc _ ih => rw [← ih, parseFrom_eq, nextToken_comment hn hr hc, if_pos rfl]

/-- A token is passed on with its type and value. -/
theorem parseFrom_lexeme {s rest : Str} {t : Token} (h : Lexeme s t rest)
    (stack : List NginxConfig) (last : TokenType) :
    parseFrom stack last s =
      match onToken t.type t.value stack last with
      | .error result => result
      | .ok stack => parseFrom stack t.type rest := by
  rw [parseFrom_eq, nextToken_lexeme h, if_neg (by cases t <;> simp [Token.type])]

/-- The loop over an input that is read as some tokens up to a rest. -/
theorem parseFrom_tokens {s rest : Str} {ts : List Token} (h : Tokens s ts rest)
    (stack : List NginxConfig) (last : TokenType) :
    parseFrom stack last s =
      match onTokens ts stack last with
      | .error result => result
      | .ok (stack, last) => parseFrom stack last rest := by
  induction h generalizing stack last with
  | nil hgap => exact parseFrom_gap hgap stack last
  | cons hgap hlex _ ih =>
    rw [parseFrom_gap hgap, parseFrom_lexeme hlex, onTokens]
    cases onToken _ _ stack last with
    | error result => rfl
    | ok stack => exact ih stack _

/-- An end at which the lexer reports the end of the input. -/
theorem parseFrom_eof {rest : Str} (h : (nextToken rest).1 = .eof) (stack : List NginxConfig)
    (last : TokenType) :
    parseFrom stack last rest =
      if last ≠ .statementEnd ∧ last ≠ .endBlock ∧ last ≠ .start then .invalid
      else
        match stack with
        | [] => .undefined .emptyStackPop
        | [config] => .valid config
        | _ :: _ :: _ => .invalid := by
  rw [parseFrom_eq, h, if_neg (by simp)]
  simp only [onToken]
  by_cases hlast : last ≠ .statementEnd ∧ last ≠ .endBlock ∧ last ≠ .start
  · rw [if_pos hlast, if_pos hlast]
  · rw [if_neg hlast, if_neg hlast]
    rcases stack with _ | ⟨config, _ | ⟨parent, stack⟩⟩ <;> rfl

/-- An end at which the lexer reports an error. -/
theorem parseFrom_error {rest : Str} (h : (nextToken rest).1 = .error) (stack : List NginxConfig)
    (last : TokenType) : parseFrom stack last rest = .invalid := by
  rw [parseFrom_eq, h, if_neg (by simp)]
  rfl

end CrazyCode.Config
