import CrazyCode.Config.Lexer

/-!
# Every input is read in one way

Behind the white space and the comments at its front an input has a token, or it is at an end:
blank, unfinished, or malformed (`exists_gap`). So every input is read token by token up to such an
end (`exists_tokens`), and there is one reading only (`tokens_unique`). The proofs about `Parse`
therefore speak of the tokens of an input, and of its end. A word of a reading is bare, or has
quotes around the value of a quoted string (`IsWord.cases`).
-/

namespace CrazyCode.Config

open Text

/-! ## There is a reading -/

/-- At a quote there is a quoted string, or the input ends inside it. -/
theorem lexeme_of_quote {q : Char} (hq : IsQuote q) (s : Str) :
    Unfinished (q :: s) ∨ Malformed (q :: s) ∨ ∃ t rest, Lexeme (q :: s) t rest := by
  obtain ⟨raw, value, hbody, rfl | rfl | ⟨rest, rfl⟩⟩ := exists_quotedBody q s
  · exact .inr (.inl ⟨q, s, value, hq, hbody, .inl rfl⟩)
  · exact .inl (.inr ⟨q, raw, value, hq, hbody, rfl⟩)
  · by_cases hrest : Delimited rest
    · exact .inr (.inr ⟨_, rest, .quoted hq hbody hrest⟩)
    · exact .inr (.inl ⟨q, raw, value, hq, hbody, .inr ⟨rest, rfl, hrest⟩⟩)

/-- At a byte that starts a bare word there is a bare word, or the input ends inside it. -/
theorem lexeme_of_wordStart {c : Char} (hc : isWordStart c = true) (s : Str) :
    Unfinished (c :: s) ∨ ∃ t rest, Lexeme (c :: s) t rest := by
  obtain ⟨w, rest, rfl, hw, rfl | ⟨d, r, rfl, hd⟩⟩ := exists_break isDelimiter s
  · exact .inl (.inl ⟨c, w, by simp, hc, hw⟩)
  · exact .inr ⟨_, _, .bare (w := c :: w) ⟨c, w, rfl, hc, hw⟩ ⟨d, r, rfl, hd⟩⟩

/-- The line breaks that end a comment. -/
def isBreak (c : Char) : Bool := c = '\n' || c = '\r'

/-- A text without line breaks has neither of the two. -/
theorem not_mem_of_isBreak {body : Str} (h : ∀ c ∈ body, isBreak c = false) :
    '\n' ∉ body ∧ '\r' ∉ body :=
  ⟨fun hc => by simpa [isBreak] using h _ hc, fun hc => by simpa [isBreak] using h _ hc⟩

/-- An end of an input at which no token follows. -/
def Ended (rest : Str) : Prop := Blank rest ∨ Unfinished rest ∨ Malformed rest

/-- A byte that is neither white space nor the beginning of a comment begins a token, or an end. -/
theorem ended_or_lexeme {c : Char} (hspace : ¬ isSpace c = true) (hhash : c ≠ '#') (s : Str) :
    Ended (c :: s) ∨ ∃ t s', Lexeme (c :: s) t s' := by
  by_cases hsemi : c = ';'
  · subst hsemi
    exact .inr ⟨_, _, .semicolon s⟩
  by_cases hopen : c = '{'
  · subst hopen
    exact .inr ⟨_, _, .opening s⟩
  by_cases hclose : c = '}'
  · subst hclose
    exact .inr ⟨_, _, .closing s⟩
  by_cases hquote : IsQuote c
  · rcases lexeme_of_quote hquote s with h | h | h
    · exact .inl (.inr (.inl h))
    · exact .inl (.inr (.inr h))
    · exact .inr h
  · -- Whatever is not excluded so far starts a bare word.
    have hstart : isWordStart c = true := by
      rw [IsQuote, not_or] at hquote
      simp only [isWordStart, Bool.and_eq_true, Bool.not_eq_true', Bool.or_eq_false_iff,
        decide_eq_false_iff_not]
      exact ⟨by simpa using hspace, ⟨⟨⟨⟨hopen, hclose⟩, hsemi⟩, hhash⟩, hquote.1⟩, hquote.2⟩
    rcases lexeme_of_wordStart hstart s with h | h
    · exact .inl (.inr (.inl h))
    · exact .inr h

/-- Behind white space and comments there is a token or an end. -/
theorem exists_gap (s : Str) :
    ∃ rest, Gap s rest ∧ (Ended rest ∨ ∃ t s', Lexeme rest t s') := by
  -- On the length again: a comment takes more than one byte.
  induction hn : s.length using Nat.strongRecOn generalizing s with
  | ind n ih =>
    cases s with
    | nil => exact ⟨[], .refl _, .inl (.inl (.inl rfl))⟩
    | cons c s =>
      by_cases hspace : isSpace c = true
      · obtain ⟨rest, hgap, h⟩ := ih s.length (by simp at hn; omega) s rfl
        exact ⟨rest, .space hspace hgap, h⟩
      by_cases hhash : c = '#'
      · subst hhash
        obtain ⟨body, r, rfl, hbody, rfl | ⟨d, r', rfl, hd⟩⟩ := exists_break isBreak s
        · -- A comment up to the end of the input is a blank end.
          obtain ⟨hn, hr⟩ := not_mem_of_isBreak hbody
          exact ⟨_, .refl _, .inl (.inl (.inr ⟨body, by simp, hn, hr⟩))⟩
        · obtain ⟨hn', hr⟩ := not_mem_of_isBreak hbody
          obtain ⟨rest, hgap, h⟩ := ih r'.length (by simp at hn; omega) r' rfl
          exact ⟨rest, .comment hn' hr (by simpa [isBreak] using hd) hgap, h⟩
      exact ⟨c :: s, .refl _, ended_or_lexeme hspace hhash s⟩

/-- White space and comments leave no more input than there was. -/
theorem Gap.length_le {s rest : Str} (h : Gap s rest) : rest.length ≤ s.length := by
  induction h with
  | refl => exact le_rfl
  | space _ _ ih => simp only [List.length_cons]; omega
  | comment _ _ _ _ ih => simp only [List.length_cons, List.length_append]; omega

/-- A token takes input. -/
theorem Lexeme.length_lt {s rest : Str} {t : Token} (h : Lexeme s t rest) :
    rest.length < s.length := by
  -- The lexer takes a byte for it.
  have hnext := nextToken_lexeme h
  have hne : (nextToken s).1 ≠ .eof := by
    rw [hnext]
    cases t <;> simp
  simpa only [hnext] using nextToken_length hne

/-- Every input is read token by token up to an end. -/
theorem exists_tokens (s : Str) : ∃ ts rest, Tokens s ts rest ∧ Ended rest := by
  induction hn : s.length using Nat.strongRecOn generalizing s with
  | ind n ih =>
    obtain ⟨s₁, hgap, hend | ⟨t, s₂, hlex⟩⟩ := exists_gap s
    · exact ⟨[], s₁, .nil hgap, hend⟩
    · have h₁ := hgap.length_le
      have h₂ := hlex.length_lt
      obtain ⟨ts, rest, htoks, hend⟩ := ih s₂.length (by omega) s₂ rfl
      exact ⟨t :: ts, rest, .cons hgap hlex htoks, hend⟩

/-! ## There is one reading only -/

/-- A place at which no white space and no comment follows. -/
def Settled (s : Str) : Prop := ∀ rest, Gap s rest → rest = s

/-- An input that starts with neither white space nor a comment is settled. -/
theorem settled_of_head {c : Char} (hspace : isSpace c = false) (hhash : c ≠ '#') (s : Str) :
    Settled (c :: s) := fun rest h => by
  cases h with
  | refl => rfl
  | space hc _ => rw [hspace] at hc; cases hc
  | comment => exact absurd rfl hhash

/-- A quote is neither white space nor the start of a comment. -/
theorem settled_of_quote {q : Char} (hq : IsQuote q) (s : Str) : Settled (q :: s) := by
  rcases hq with rfl | rfl
  · exact settled_of_head (by decide) (by decide) s
  · exact settled_of_head (by decide) (by decide) s

/-- A bare word starts with neither white space nor a comment. -/
theorem settled_of_bareWord {w : Str} (hw : BareWord w) (s : Str) : Settled (w ++ s) := by
  obtain ⟨c, w, rfl, hc, -⟩ := hw
  simp only [isWordStart, Bool.and_eq_true, Bool.not_eq_true', Bool.or_eq_false_iff,
    decide_eq_false_iff_not] at hc
  exact settled_of_head hc.1 hc.2.1.1.2 _

/-- A token is at a settled place. -/
theorem Lexeme.settled {s rest : Str} {t : Token} (h : Lexeme s t rest) : Settled s := by
  cases h with
  | semicolon => exact settled_of_head (by decide) (by decide) _
  | opening => exact settled_of_head (by decide) (by decide) _
  | closing => exact settled_of_head (by decide) (by decide) _
  | bare hw _ => exact settled_of_bareWord hw _
  | quoted hq _ _ => exact settled_of_quote hq _

/-- The end of an input is a settled place. -/
theorem Ended.settled {rest : Str} (h : Ended rest) : Settled rest := by
  rcases h with (rfl | ⟨body, rfl, hn, hr⟩) | (hw | ⟨q, raw, value, hq, -, rfl⟩) |
    ⟨q, raw, value, hq, -, rfl | ⟨s, rfl, -⟩⟩
  · intro rest h
    cases h
    rfl
  · -- A comment without a line break is no gap.
    intro rest h
    generalize hs : '#' :: body = s at h
    cases h with
    | refl => rfl
    | space hc _ =>
      rw [← (List.cons.inj hs).1] at hc
      exact absurd hc (by decide)
    | comment _ _ hc _ =>
      rw [(List.cons.inj hs).2] at hn hr
      rcases hc with rfl | rfl
      · simp at hn
      · simp at hr
  · rw [← List.append_nil rest]
    exact settled_of_bareWord hw []
  · exact settled_of_quote hq _
  · exact settled_of_quote hq _
  · exact settled_of_quote hq _

/-- The gap in front of a settled place is determined. -/
theorem Gap.unique {s rest rest' : Str} (h : Gap s rest) (h' : Gap s rest') (hs : Settled rest)
    (hs' : Settled rest') : rest = rest' := by
  induction h with
  | refl s => exact (hs _ h').symm
  | space hc hgap ih =>
    cases h' with
    | refl => exact hs' _ (.space hc hgap)
    | space _ hgap' => exact ih hgap' hs
    | comment => exact absurd hc (by decide)
  | comment hn hr hc hgap ih =>
    generalize hs₀ : '#' :: (_ ++ _ :: _) = s₀ at h'
    cases h' with
    | refl =>
      subst hs₀
      exact hs' _ (.comment hn hr hc hgap)
    | space hc' _ =>
      rw [← (List.cons.inj hs₀).1] at hc'
      exact absurd hc' (by decide)
    | comment hn' hr' hc' hgap' =>
      -- Both comments end at the first line break.
      have hbreak : ∀ {body : Str}, '\n' ∉ body → '\r' ∉ body → ∀ d ∈ body, isBreak d = false := by
        intro body hn hr d hd
        simp only [isBreak, Bool.or_eq_false_iff, decide_eq_false_iff_not]
        exact ⟨fun he => hn (he ▸ hd), fun he => hr (he ▸ hd)⟩
      obtain ⟨-, rfl⟩ := break_unique (List.cons.inj hs₀).2 (hbreak hn hr) (hbreak hn' hr')
        (by simpa [isBreak] using hc) (by simpa [isBreak] using hc')
      exact ih hgap' hs

/-- At an end the lexer reports no token. -/
theorem Ended.type {rest : Str} (h : Ended rest) :
    (nextToken rest).1 = .eof ∨ (nextToken rest).1 = .error := by
  rcases h with h | h | h
  · exact .inl (nextToken_blank h)
  · exact .inl (nextToken_unfinished h)
  · exact .inr (nextToken_malformed h)

/-- A place with a token is no end. -/
theorem Lexeme.not_ended {s rest : Str} {t : Token} (h : Lexeme s t rest) :
    ¬ Ended s := fun hend => by
  have hnext := hend.type
  rw [nextToken_lexeme h] at hnext
  cases t <;> simp [Token.type] at hnext

/-- A token and what is left of the input are determined. -/
theorem Lexeme.unique {s rest rest' : Str} {t t' : Token} (h : Lexeme s t rest)
    (h' : Lexeme s t' rest') : t = t' ∧ rest = rest' := by
  have heq := (nextToken_lexeme h).symm.trans (nextToken_lexeme h')
  simp only [Prod.mk.injEq] at heq
  obtain ⟨htype, hvalue, hrest⟩ := heq
  refine ⟨?_, hrest⟩
  cases t <;> cases t' <;> simp_all [Token.type, Token.value]

/-- The tokens of an input up to its end, and the end, are determined. -/
theorem tokens_unique {s rest rest' : Str} {ts ts' : List Token} (h : Tokens s ts rest)
    (h' : Tokens s ts' rest') (hend : Ended rest) (hend' : Ended rest') :
    ts = ts' ∧ rest = rest' := by
  induction h generalizing ts' with
  | nil hgap =>
    cases h' with
    | nil hgap' => exact ⟨rfl, hgap.unique hgap' hend.settled hend'.settled⟩
    | cons hgap' hlex' _ =>
      -- One reading ends where the other has a token.
      obtain rfl := hgap.unique hgap' hend.settled hlex'.settled
      exact absurd hend hlex'.not_ended
  | cons hgap hlex _ ih =>
    cases h' with
    | nil hgap' =>
      obtain rfl := hgap.unique hgap' hlex.settled hend'.settled
      exact absurd hend' hlex.not_ended
    | cons hgap' hlex' htoks' =>
      obtain rfl := hgap.unique hgap' hlex.settled hlex'.settled
      obtain ⟨rfl, rfl⟩ := hlex.unique hlex'
      obtain ⟨rfl, rfl⟩ := ih htoks' hend
      exact ⟨rfl, rfl⟩

/-! ## The words of a reading -/

/-- A word that the lexer can find. -/
def IsWord (w : Str) : Prop := ∃ s rest, Lexeme s (.word w) rest

/-- A word is bare, or it has quotes around the value of a quoted string. -/
theorem IsWord.cases {w : Str} (h : IsWord w) :
    BareWord w ∨ ∃ q value, IsQuote q ∧ w = q :: (value ++ [q]) := by
  obtain ⟨s, rest, h⟩ := h
  cases h with
  | bare hw _ => exact .inl hw
  | quoted hq _ _ => exact .inr ⟨_, _, hq, rfl⟩

/-- At a word there is neither white space nor a comment. -/
theorem IsWord.settled {w : Str} (h : IsWord w) (s : Str) : Settled (w ++ s) := by
  rcases h.cases with hw | ⟨q, value, hq, rfl⟩
  · exact settled_of_bareWord hw s
  · exact settled_of_quote hq _

/-- A word has a byte. -/
theorem IsWord.ne_nil {w : Str} (h : IsWord w) : w ≠ [] := by
  rcases h.cases with ⟨c, s, rfl, -⟩ | ⟨q, value, -, rfl⟩ <;> simp

/-- The tokens of a reading are words that the lexer can find. -/
theorem Tokens.isWord {s rest : Str} {ts : List Token} (h : Tokens s ts rest) {w : Str}
    (hw : .word w ∈ ts) : IsWord w := by
  induction h with
  | nil => simp at hw
  | cons _ hlex _ ih =>
    rcases List.mem_cons.mp hw with rfl | hw
    · exact ⟨_, _, hlex⟩
    · exact ih hw

end CrazyCode.Config
