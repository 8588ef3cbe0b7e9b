import CrazyCode.Config.Parser
import CrazyCode.Library.Run

/-!
# The rounds of the config parser

The `while(true)` of `Parse`, without fuel: `Round` is a round that goes on to the next one, and
`Leaves` one that leaves the loop. Each of them makes one call of `ParseToken`. A call on the stack
that has no defined behaviour may come back with any stack, so that the bound on the rounds does not
rest on what such a call does.

A round that goes on has taken a byte off the input (`Round.length_lt`), which bounds the rounds
(`length_of_run`), and from every state of the loop there is a way out, on which `Parse` comes to
its result (`exists_leaves`).
-/

namespace CrazyCode.Config

open Text

/-- Where the loop of `Parse` stands: the stack, the type of the last token, and what is left of the
input. -/
structure LoopState where
  stack : List NginxConfig
  last : TokenType
  input : Str

/-- A round of the loop of `Parse` that goes on, with the type and the value of the token that
`ParseToken` has reported in it. -/
inductive Round : LoopState → TokenType → Str → LoopState → Prop
  | comment {stack : List NginxConfig} {last : TokenType} {input : Str} :
      (nextToken input).1 = .comment →
      Round ⟨stack, last, input⟩ (nextToken input).1 (nextToken input).2.1
        ⟨stack, last, (nextToken input).2.2⟩
  | token {stack stack' : List NginxConfig} {last : TokenType} {input : Str} :
      (nextToken input).1 ≠ .comment →
      onToken (nextToken input).1 (nextToken input).2.1 stack last = .ok stack' →
      Round ⟨stack, last, input⟩ (nextToken input).1 (nextToken input).2.1
        ⟨stack', (nextToken input).1, (nextToken input).2.2⟩
  -- At the end of the input the loop is left, whatever `pop` does.
  | undefined {stack stack' : List NginxConfig} {last : TokenType} {input : Str} {fault : Fault} :
      (nextToken input).1 ≠ .eof →
      onToken (nextToken input).1 (nextToken input).2.1 stack last = .error (.undefined fault) →
      Round ⟨stack, last, input⟩ (nextToken input).1 (nextToken input).2.1
        ⟨stack', (nextToken input).1, (nextToken input).2.2⟩

/-- The last round of the loop of `Parse`, with the result of `Parse`. -/
def Leaves (s : LoopState) (result : ParseResult) : Prop :=
  (nextToken s.input).1 ≠ .comment ∧
    onToken (nextToken s.input).1 (nextToken s.input).2.1 s.stack s.last = .error result

/-- A round that goes on has taken a byte off the input. -/
theorem Round.length_lt {s s' : LoopState} {type : TokenType} {token : Str}
    (h : Round s type token s') : s'.input.length < s.input.length := by
  cases h with
  | comment hcomment => exact nextToken_length (by simp [hcomment])
  | @token stack stack' last input _ hok =>
    -- The end of the input ends the loop, so the token is another one.
    refine nextToken_length fun heof => ?_
    obtain ⟨result, hresult⟩ := onToken_eof (nextToken input).2.1 stack last
    rw [heof, hresult] at hok
    cases hok
  | undefined heof _ => exact nextToken_length heof

/-- The rounds of a run of the loop are no more than the bytes that they have taken. -/
theorem length_of_run {s s' : LoopState} {tr : List (TokenType × Str)} (h : Run Round s tr s') :
    tr.length + s'.input.length ≤ s.input.length := by
  refine h.invariant (fun tr s' => tr.length + s'.input.length ≤ s.input.length) (by simp) ?_
  intro tr t type token t' _ hle hround
  have hlt := hround.length_lt
  rw [List.length_append, List.length_singleton]
  omega

/-- From every state of the loop some rounds lead to the last one, which has the result of
`Parse`. -/
theorem exists_leaves (stack : List NginxConfig) (last : TokenType) (input : Str) :
    ∃ tr s, Run Round ⟨stack, last, input⟩ tr s ∧ Leaves s (parseFrom stack last input) := by
  -- The induction is on what is left of the input.
  induction hn : input.length using Nat.strongRecOn generalizing stack last input with
  | ind n ih =>
    subst hn
    rw [parseFrom_eq]
    by_cases hcomment : (nextToken input).1 = .comment
    · have hround : Round ⟨stack, last, input⟩ _ _ _ := .comment hcomment
      obtain ⟨tr, s, hrun, hleaves⟩ := ih _ hround.length_lt stack last _ rfl
      exact ⟨_, s, (Run.nil.snoc hround).append hrun, by rwa [if_pos hcomment]⟩
    · rw [if_neg hcomment]
      cases hstep : onToken (nextToken input).1 (nextToken input).2.1 stack last with
      | error result => exact ⟨[], _, .nil, hcomment, hstep⟩
      | ok stack' =>
        have hround : Round ⟨stack, last, input⟩ _ _ _ := .token hcomment hstep
        obtain ⟨tr, s, hrun, hleaves⟩ := ih _ hround.length_lt stack' _ _ rfl
        exact ⟨_, s, (Run.nil.snoc hround).append hrun, hleaves⟩

/-- Every call of `ParseToken` that does not report the end of the input takes a byte off it; so the
loop of `Parse` goes on for no more rounds than the input has bytes, and it is left in one more. -/
theorem parse_terminates :
    (∀ value input, (parseToken .initialWhitespace value input).1 ≠ .eof →
      (parseToken .initialWhitespace value input).2.2.length < input.length) ∧
    ∀ input,
      (∀ tr s, Run Round ⟨[[]], .start, input⟩ tr s → tr.length ≤ input.length ∧
        ∃ tr' s' result, Run Round s tr' s' ∧ Leaves s' result) ∧
      ∃ tr s, Run Round ⟨[[]], .start, input⟩ tr s ∧ Leaves s (parse input) ∧
        tr.length + 1 ≤ input.length + 1 := by
  refine ⟨fun value input => parseToken_length_lt, fun input => ⟨fun tr s hrun => ⟨?_, ?_⟩, ?_⟩⟩
  · have hle := length_of_run hrun
    simp only at hle
    omega
  · obtain ⟨tr', s', hrun', hleaves⟩ := exists_leaves s.stack s.last s.input
    exact ⟨tr', s', _, hrun', hleaves⟩
  · obtain ⟨tr, s, hrun, hleaves⟩ := exists_leaves [[]] .start input
    have hle := length_of_run hrun
    simp only at hle
    exact ⟨tr, s, hrun, hleaves, by omega⟩

end CrazyCode.Config
