import CrazyCode.Library.Text

/-!
# Quoted strings

The text between two quotes, in which a backslash takes the next byte as it is. Every text that
stands behind an opening quote is one up to its closing quote, or is open (`exists_quotedBody`). A
value that is written between quotes without escapes is read back only if it has neither its quote
nor a backslash (`QuotedBody.plain_of_append`).
-/

namespace CrazyCode.Text

/-- The text between the quotes `q`, and the value it stands for: a backslash is dropped, and the
byte behind it is taken as it is. -/
inductive QuotedBody (q : Char) : Str → Str → Prop
  | nil : QuotedBody q [] []
  | plain {c : Char} {raw value : Str} : c ≠ q → c ≠ '\\' → QuotedBody q raw value →
      QuotedBody q (c :: raw) (c :: value)
  | escape {c : Char} {raw value : Str} : QuotedBody q raw value →
      QuotedBody q ('\\' :: c :: raw) (c :: value)

/-- A quoted string is open to the end of the input, or to the backslash that ends it, or it is
closed. -/
theorem exists_quotedBody (q : Char) (s : Str) :
    ∃ raw value, QuotedBody q raw value ∧
      (s = raw ∨ s = raw ++ ['\\'] ∨ ∃ rest, s = raw ++ q :: rest) := by
  -- The induction is on the length, since an escape takes two bytes.
  induction hn : s.length using Nat.strongRecOn generalizing s with
  | ind n ih =>
    cases s with
    | nil => exact ⟨[], [], .nil, .inl rfl⟩
    | cons c s =>
      by_cases hq : c = q
      · exact ⟨[], [], .nil, .inr (.inr ⟨s, by rw [hq]; rfl⟩)⟩
      by_cases hc : c = '\\'
      · subst hc
        cases s with
        | nil => exact ⟨[], [], .nil, .inr (.inl rfl)⟩
        | cons d s =>
          obtain ⟨raw, value, hbody, h⟩ := ih s.length (by simp at hn; omega) s rfl
          refine ⟨'\\' :: d :: raw, d :: value, .escape hbody, ?_⟩
          rcases h with rfl | rfl | ⟨rest, rfl⟩
          · exact .inl rfl
          · exact .inr (.inl rfl)
          · exact .inr (.inr ⟨rest, rfl⟩)
      · obtain ⟨raw, value, hbody, h⟩ := ih s.length (by simp at hn; omega) s rfl
        refine ⟨c :: raw, c :: value, .plain hq hc hbody, ?_⟩
        rcases h with rfl | rfl | ⟨rest, rfl⟩
        · exact .inl rfl
        · exact .inr (.inl rfl)
        · exact .inr (.inr ⟨rest, rfl⟩)

/-- A text without its quote and without a backslash stands for itself. -/
theorem quotedBody_self {q : Char} {value : Str} (hq : q ∉ value) (hb : '\\' ∉ value) :
    QuotedBody q value value := by
  induction value with
  | nil => exact .nil
  | cons c value ih =>
    simp only [List.mem_cons, not_or] at hq hb
    exact .plain (Ne.symm hq.1) (Ne.symm hb.1) (ih hq.2 hb.2)

/-- The text between quotes does not begin with a backslash more than its value: each of them would
take the next one as its escape. -/
theorem QuotedBody.not_replicate {q : Char} (hq : q ≠ '\\') {raw value : Str}
    (h : QuotedBody q raw value) (n : ℕ) (r r' : Str) :
    value ++ q :: r ≠ List.replicate (n + 1) '\\' ++ (raw ++ q :: r') := by
  induction h generalizing n with
  | nil =>
    rw [List.replicate_succ]
    intro heq
    exact hq (List.cons.inj heq).1
  | plain _ hc _ _ =>
    rw [List.replicate_succ]
    intro heq
    exact hc (List.cons.inj heq).1
  | @escape c raw value _ ih =>
    -- The byte behind the escape is a backslash itself, so one more of them is in front.
    intro heq
    rw [List.replicate_succ, List.cons_append, List.cons_append] at heq
    obtain ⟨hc, heq⟩ := List.cons.inj heq
    refine ih (n + 1) ?_
    rw [heq, hc, List.replicate_succ', List.replicate_succ']
    simp

/-- A value that is found between its quotes again has neither its quote nor a backslash. -/
theorem QuotedBody.plain_of_append {q : Char} (hq : q ≠ '\\') {raw value r r' : Str}
    (h : QuotedBody q raw value) (heq : value ++ q :: r = raw ++ q :: r') :
    raw = value ∧ q ∉ value ∧ '\\' ∉ value := by
  induction h with
  | nil => simp
  | @plain c raw value hcq hc _ ih =>
    obtain ⟨rfl, hqv, hb⟩ := ih (List.cons.inj heq).2
    exact ⟨rfl, by simp [Ne.symm hcq, hqv], by simp [Ne.symm hc, hb]⟩
  | @escape c raw value h _ =>
    -- The value begins with the escaped byte, so that is a backslash in front of the raw text.
    obtain ⟨rfl, heq⟩ := List.cons.inj heq
    exact absurd heq (h.not_replicate hq 0 r r')

/-- A value is not longer than its text. -/
theorem QuotedBody.length_le {q : Char} {raw value : Str} (h : QuotedBody q raw value) :
    value.length ≤ raw.length := by
  induction h with
  | nil => exact le_rfl
  | plain _ _ _ ih =>
    simp only [List.length_cons]
    omega
  | escape _ ih =>
    simp only [List.length_cons]
    omega

/-- A text that begins without its quote and without a backslash has a value that begins like it. -/
theorem QuotedBody.of_plain_append {q : Char} {a raw value r r' : Str} (hq : q ∉ a) (hb : '\\' ∉ a)
    (h : QuotedBody q raw value) (heq : a ++ r = raw ++ q :: r') :
    ∃ raw' value', raw = a ++ raw' ∧ value = a ++ value' ∧ QuotedBody q raw' value' := by
  induction a generalizing raw value with
  | nil => exact ⟨raw, value, rfl, rfl, h⟩
  | cons c a ih =>
    simp only [List.mem_cons, not_or] at hq hb
    cases h with
    | nil => exact absurd (List.cons.inj heq).1.symm hq.1
    | plain _ _ h =>
      obtain ⟨rfl, hrest⟩ := List.cons.inj heq
      obtain ⟨raw', value', rfl, rfl, h'⟩ := ih hq.2 hb.2 h hrest
      exact ⟨raw', value', rfl, rfl, h'⟩
    | escape _ => exact absurd (List.cons.inj heq).1.symm hb.1

end CrazyCode.Text
