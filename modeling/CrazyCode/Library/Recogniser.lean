import Mathlib.Data.List.Infix
import Mathlib.Tactic.Common

/-!
# Recognisers that read symbol by symbol

A recogniser reads an input symbol by symbol, and behind each symbol it has a verdict: a word of its
language is complete (`good`), no word begins like this (`bad`), or it needs more. `feed` reads up
to the first verdict that ends the reading, and `Reads` is the part of the reading before it.

What a reading should come to is a matter of the language alone (`Outcome`): the first prefix that
is a word, or else the first prefix with which no word begins (`Viable`), or else all of the input.
There is one outcome only (`Outcome.unique`).

`Recognises` has what is to be shown of a machine: an invariant of what has been read and the state,
which every symbol keeps, and a reading of every word. `Recognises.feed` then gives the outcome of
every input.
-/

namespace CrazyCode.Recogniser

variable {α σ : Type*}

/-- What a recogniser has to say behind a symbol. -/
inductive Verdict where
  | good
  | bad
  | indeterminate
deriving DecidableEq, Repr

/-! ## Languages -/

/-- A word of the language begins with this text. -/
def Viable (L : List α → Prop) (s : List α) : Prop := ∃ t, L (s ++ t)

/-- A prefix of the input that has a property, and the shortest one. -/
def IsFirst (P : List α → Prop) (input pre : List α) : Prop :=
  pre <+: input ∧ P pre ∧ ∀ p, p <+: pre → P p → p = pre

variable {L : List α → Prop}

/-- What a viable text begins with is viable. -/
theorem Viable.of_isPrefix {p s : List α} (h : Viable L s) (hp : p <+: s) : Viable L p := by
  obtain ⟨t, ht⟩ := h
  obtain ⟨r, rfl⟩ := hp
  exact ⟨r ++ t, by rwa [← List.append_assoc]⟩

/-- The shortest prefix with a property is determined. -/
theorem IsFirst.unique {P : List α → Prop} {input pre pre' : List α} (h : IsFirst P input pre)
    (h' : IsFirst P input pre') : pre = pre' := by
  rcases List.prefix_or_prefix_of_prefix h.1 h'.1 with hle | hle
  · exact h'.2.2 pre hle h.2.1
  · exact (h.2.2 pre' hle h'.2.1).symm

/-- What a reading of an input comes to: the verdict, and the part that has been read. -/
def Outcome (L : List α → Prop) (input : List α) : Verdict → List α → Prop
  | .good, pre => IsFirst L input pre
  | .bad, pre => IsFirst (fun s => ¬ Viable L s) input pre ∧ ∀ p, p <+: input → ¬ L p
  | .indeterminate, pre => pre = input ∧ Viable L input ∧ ∀ p, p <+: input → ¬ L p

/-- An input has one outcome only. -/
theorem Outcome.unique {input pre pre' : List α} {v v' : Verdict} (h : Outcome L input v pre)
    (h' : Outcome L input v' pre') : v = v' ∧ pre = pre' := by
  cases v with
  | good =>
    cases v' with
    | good => exact ⟨rfl, IsFirst.unique h h'⟩
    | bad => exact absurd h.2.1 (h'.2 _ h.1)
    | indeterminate => exact absurd h.2.1 (h'.2.2 _ h.1)
  | bad =>
    cases v' with
    | good => exact absurd h'.2.1 (h.2 _ h'.1)
    | bad => exact ⟨rfl, h.1.unique h'.1⟩
    | indeterminate => exact absurd (h'.2.1.of_isPrefix h.1.1) h.1.2.1
  | indeterminate =>
    cases v' with
    | good => exact absurd h'.2.1 (h.2.2 _ h'.1)
    | bad => exact absurd (h.2.1.of_isPrefix h'.1.1) h'.1.2.1
    | indeterminate => exact ⟨rfl, h.1.trans h'.1.symm⟩

/-! ## Machines -/

/-- Reading up to the first verdict that is not `indeterminate`: the verdict, what is left of the
input, and the state. `none` is a step that has no meaning. -/
def feed (step : σ → α → Option (Verdict × σ)) : σ → List α → Option (Verdict × List α × σ)
  | s, [] => some (.indeterminate, [], s)
  | s, c :: input =>
    match step s c with
    | none => none
    | some (.indeterminate, s') => feed step s' input
    | some (verdict, s') => some (verdict, input, s')

/-- Symbols that are read with no verdict, from a state to a state. -/
inductive Reads (step : σ → α → Option (Verdict × σ)) : σ → List α → σ → Prop
  | nil {s : σ} : Reads step s [] s
  | cons {s s' s'' : σ} {c : α} {w : List α} : step s c = some (.indeterminate, s') →
      Reads step s' w s'' → Reads step s (c :: w) s''

variable {step : σ → α → Option (Verdict × σ)}

/-- A symbol that is read with no verdict. -/
theorem Reads.one {s s' : σ} {c : α} (h : step s c = some (.indeterminate, s')) :
    Reads step s [c] s' := .cons h .nil

/-- Symbols read one after the other. -/
theorem Reads.append {s s' s'' : σ} {w w' : List α} (h : Reads step s w s')
    (h' : Reads step s' w' s'') : Reads step s (w ++ w') s'' := by
  induction h with
  | nil => exact h'
  | cons hs _ ih => exact .cons hs (ih h')

/-- A state that goes on over the symbols of a kind reads any number of them. -/
theorem Reads.loop {P : α → Prop} {f : List α → σ}
    (hstep : ∀ v c, P c → step (f v) c = some (.indeterminate, f (v ++ [c]))) {w : List α}
    (hw : ∀ c ∈ w, P c) (v : List α) : Reads step (f v) w (f (v ++ w)) := by
  induction w generalizing v with
  | nil => rw [List.append_nil]; exact .nil
  | cons c w ih =>
    obtain ⟨hc, hw⟩ := List.forall_mem_cons.mp hw
    rw [List.append_cons]
    exact .cons (hstep v c hc) (ih hw _)

/-- A state that begins with a symbol of a kind, and goes on over such symbols, reads any number of
them but none. -/
theorem Reads.loop_of_ne_nil {P : α → Prop} {f : List α → σ} {s : σ}
    (hfirst : ∀ c, P c → step s c = some (.indeterminate, f [c]))
    (hstep : ∀ v c, P c → step (f v) c = some (.indeterminate, f (v ++ [c]))) {w : List α}
    (hne : w ≠ []) (hw : ∀ c ∈ w, P c) : Reads step s w (f w) := by
  obtain ⟨c, w, rfl⟩ := List.exists_cons_of_ne_nil hne
  obtain ⟨hc, hw⟩ := List.forall_mem_cons.mp hw
  exact .cons (hfirst c hc) (.loop hstep hw [c])

/-- Behind symbols that are read with no verdict the reading goes on. -/
theorem Reads.feed {s s' : σ} {w : List α} (h : Reads step s w s') (input : List α) :
    feed step s (w ++ input) = Recogniser.feed step s' input := by
  induction h with
  | nil => rfl
  | cons hs _ ih => rw [List.cons_append, Recogniser.feed, hs]; exact ih

/-- A symbol with a verdict that ends the reading. -/
theorem feed_cons {s s' : σ} {c : α} {verdict : Verdict} (hne : verdict ≠ .indeterminate)
    (h : step s c = some (verdict, s')) (input : List α) :
    feed step s (c :: input) = some (verdict, input, s') := by
  rw [feed, h]
  cases verdict with
  | indeterminate => exact absurd rfl hne
  | good | bad => rfl

/-- Reading an input in two parts: the second part is read on from where the first one has led,
unless that has had a verdict, and then is left. -/
theorem feed_append (s : σ) (input more : List α) :
    feed step s (input ++ more) = (feed step s input).bind fun out =>
      match out with
      | (.indeterminate, _, s') => feed step s' more
      | (verdict, rest, s') => some (verdict, rest ++ more, s') := by
  induction input generalizing s with
  | nil => rfl
  | cons c input ih =>
    rw [List.cons_append, feed, feed]
    cases step s c with
    | none => rfl
    | some out =>
      obtain ⟨verdict, s'⟩ := out
      cases verdict with
      | indeterminate => exact ih s'
      | good | bad => rfl

/-- Nothing is left of an input without a verdict. -/
theorem rest_eq_nil {s s' : σ} {input rest : List α}
    (h : feed step s input = some (.indeterminate, rest, s')) : rest = [] := by
  induction input generalizing s with
  | nil => exact (Prod.mk.inj (Prod.mk.inj (Option.some.inj h)).2).1.symm
  | cons c input ih =>
    rw [feed] at h
    cases hstep : step s c with
    | none =>
      rw [hstep] at h
      cases h
    | some out =>
      obtain ⟨verdict, s''⟩ := out
      rw [hstep] at h
      cases verdict with
      | indeterminate => exact ih h
      | good | bad => cases h

/-- What is to be shown of a machine that recognises a language: `Reached` is an invariant of what
has been read and the state. -/
structure Recognises (step : σ → α → Option (Verdict × σ)) (start : σ) (L : List α → Prop)
    (Reached : List α → σ → Prop) : Prop where
  /-- The invariant holds at the start. -/
  reached_start : Reached [] start
  /-- A symbol has a verdict; the invariant is kept if it is no verdict yet, and what is good is a
  word. -/
  reached_step : ∀ {pre s}, Reached pre s → ∀ c, ∃ verdict s', step s c = some (verdict, s') ∧
    (verdict = .indeterminate → Reached (pre ++ [c]) s') ∧ (verdict = .good → L (pre ++ [c]))
  /-- What has been read can be completed. -/
  viable : ∀ {pre s}, Reached pre s → Viable L pre
  /-- A word is read, and its last symbol is good. -/
  complete : ∀ {w}, L w → ∃ u c s s', w = u ++ [c] ∧ Reads step start u s ∧
    step s c = some (.good, s')

namespace Recognises

variable {start : σ} {Reached : List α → σ → Prop}

/-- A word at the front of an input is read. -/
theorem feed_word (h : Recognises step start L Reached) {w : List α} (hw : L w) :
    ∃ s, ∀ input, feed step start (w ++ input) = some (.good, input, s) := by
  obtain ⟨u, c, s, s', rfl, hreads, hgood⟩ := h.complete hw
  refine ⟨s', fun input => ?_⟩
  rw [List.append_assoc, hreads.feed]
  exact feed_cons (by simp) hgood input

/-- What the machine does with an input from a state that it has reached: it reads all of it, or it
ends behind a symbol. -/
theorem feed_reached (h : Recognises step start L Reached) {pre : List α} {s : σ}
    (hs : Reached pre s) (input : List α) :
    (∃ s', Reads step s input s' ∧ Reached (pre ++ input) s') ∨
      ∃ u c rest s' verdict s'', input = u ++ c :: rest ∧ Reads step s u s' ∧
        Reached (pre ++ u) s' ∧ step s' c = some (verdict, s'') ∧ verdict ≠ .indeterminate ∧
        (verdict = .good → L (pre ++ u ++ [c])) := by
  induction input generalizing pre s with
  | nil => exact .inl ⟨s, .nil, by rwa [List.append_nil]⟩
  | cons c input ih =>
    obtain ⟨verdict, s', hstep, hmore, hgood⟩ := h.reached_step hs c
    by_cases hv : verdict = .indeterminate
    · subst hv
      rcases ih (hmore rfl) with
        ⟨t, hreads, ht⟩ | ⟨u, d, rest, t, verdict, t', rfl, hreads, ht, hrest⟩
      · exact .inl ⟨t, .cons hstep hreads, by rwa [List.append_cons]⟩
      · refine .inr ⟨c :: u, d, rest, t, verdict, t', rfl, .cons hstep hreads, ?_⟩
        rw [List.append_cons]
        exact ⟨ht, hrest⟩
    · exact .inr ⟨[], c, input, s, verdict, s', rfl, .nil, by rwa [List.append_nil], hstep, hv,
        by simpa using hgood⟩

/-- Without the verdict `good` no prefix of the input is a word: a word would have been good. -/
theorem not_mem_of_feed (h : Recognises step start L Reached) {input rest : List α}
    {verdict : Verdict} {s : σ} (hfeed : feed step start input = some (verdict, rest, s))
    (hne : verdict ≠ .good) : ∀ p, p <+: input → ¬ L p := by
  rintro p ⟨r, rfl⟩ hp
  obtain ⟨s', hword⟩ := h.feed_word hp
  rw [hword r] at hfeed
  exact hne (Prod.mk.inj (Option.some.inj hfeed)).1.symm

/-- No word is shorter than one that is good. -/
theorem isFirst_good (h : Recognises step start L Reached) {u : List α} {c : α} {s s' : σ}
    (hreads : Reads step start u s) (hstep : step s c = some (.good, s')) (hword : L (u ++ [c]))
    (rest : List α) : IsFirst L (u ++ c :: rest) (u ++ [c]) := by
  refine ⟨⟨rest, by simp⟩, hword, fun p hp hshort => ?_⟩
  rcases List.prefix_concat_iff.mp hp with heq | ⟨t, rfl⟩
  · exact heq
  · -- A shorter word would have been good behind itself, with more of the input left.
    exfalso
    obtain ⟨s'', hfeed⟩ := h.feed_word hshort
    have hgood := hreads.feed (c :: rest)
    rw [feed_cons (by simp) hstep, List.append_assoc, hfeed] at hgood
    have hlength := congrArg List.length (Prod.mk.inj (Prod.mk.inj (Option.some.inj hgood)).2).1
    simp only [List.length_append, List.length_cons] at hlength
    omega

/-- No word begins like what is bad, and what is shorter can be completed. -/
theorem isFirst_bad (h : Recognises step start L Reached) {u : List α} {c : α} {s s' : σ}
    (hreads : Reads step start u s) (hstep : step s c = some (.bad, s')) (hs : Reached u s)
    (rest : List α) : IsFirst (fun s => ¬ Viable L s) (u ++ c :: rest) (u ++ [c]) := by
  refine ⟨⟨rest, by simp⟩, ?_, fun p hp hdead => ?_⟩
  · -- A word that begins like this would be good.
    rintro ⟨t, ht⟩
    obtain ⟨s'', hfeed⟩ := h.feed_word ht
    have hbad := hreads.feed (c :: t)
    rw [feed_cons (by simp) hstep, List.append_cons, ← List.append_nil (u ++ [c] ++ t),
      hfeed] at hbad
    cases (Prod.mk.inj (Option.some.inj hbad)).1
  · rcases List.prefix_concat_iff.mp hp with heq | hle
    · exact heq
    · exact absurd ((h.viable hs).of_isPrefix hle) hdead

/-- The machine comes to the outcome of every input. -/
theorem feed (h : Recognises step start L Reached) (input : List α) :
    ∃ verdict pre rest s, Recogniser.feed step start input = some (verdict, rest, s) ∧
      input = pre ++ rest ∧ Outcome L input verdict pre := by
  rcases h.feed_reached h.reached_start input with ⟨s, hreads, hs⟩ |
    ⟨u, c, rest, s, verdict, s', rfl, hreads, hs, hstep, hne, hgood⟩
  · have hfeed : Recogniser.feed step start input = some (.indeterminate, [], s) := by
      rw [← List.append_nil input, hreads.feed]
      rfl
    exact ⟨_, input, [], s, hfeed, by simp, rfl, h.viable hs, h.not_mem_of_feed hfeed (by simp)⟩
  · rw [List.nil_append] at hs hgood
    have hfeed : Recogniser.feed step start (u ++ c :: rest) = some (verdict, rest, s') := by
      rw [hreads.feed]
      exact feed_cons hne hstep rest
    refine ⟨verdict, u ++ [c], rest, s', hfeed, List.append_cons .., ?_⟩
    cases verdict with
    | indeterminate => exact absurd rfl hne
    | good => exact h.isFirst_good hreads hstep (hgood rfl) rest
    | bad => exact ⟨h.isFirst_bad hreads hstep hs rest, h.not_mem_of_feed hfeed (by simp)⟩

end Recognises

end CrazyCode.Recogniser
