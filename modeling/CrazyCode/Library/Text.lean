import Mathlib.Data.List.DropRight
import Mathlib.Data.List.TakeWhile
import Mathlib.Tactic.Common

/-!
# Byte strings

A byte string is a list of characters, one for each byte. This module has the operations that a
program in the style of `std::string` is written in: `find` and `substr` on positions, the split at
the last separator, and `pieces`, the loop that reads a string separator by separator and leaves an
empty last piece out. `std::getline` is that loop for the line break, and a hand-written field
splitter is it for its own separator.

`pieces_append` is the law that the proofs about files use: what stands behind a separator is read
on its own, and what stands before it is split by `List.splitOn`.
-/

namespace CrazyCode.Text

/-- A byte string: one character for each byte. -/
abbrev Str := List Char

/-- The byte that ends a C string. -/
def nul : Char := Char.ofNat 0

/-- What a system call sees of a path: `c_str()` ends at the first zero byte. -/
def cstr (s : Str) : Str := s.takeWhile (· ≠ nul)

/-- A string without a zero byte is seen whole. -/
theorem cstr_of_not_mem {s : Str} (h : nul ∉ s) : cstr s = s := by
  rw [cstr, List.takeWhile_eq_self_iff]
  intro c hc
  simp only [ne_eq, decide_eq_true_eq]
  rintro rfl
  exact h hc

/-- No zero byte is left in what a system call sees. -/
theorem nul_not_mem_cstr (s : Str) : nul ∉ cstr s := fun h => by
  have := List.mem_takeWhile_imp h
  simp at this

/-- What is not in a string is not in what a system call sees of it. -/
theorem not_mem_cstr {s : Str} {c : Char} (h : c ∉ s) : c ∉ cstr s := fun hc =>
  h ((List.takeWhile_sublist _).subset hc)

/-- A prefix without a zero byte is seen, and then what follows it. -/
theorem cstr_append {s t : Str} (h : nul ∉ s) : cstr (s ++ t) = s ++ cstr t := by
  rw [cstr, List.takeWhile_append_of_pos]
  · rfl
  · intro c hc
    simp only [ne_eq, decide_eq_true_eq]
    rintro rfl
    exact h hc

/-- A prefix and one more byte are seen, and then what follows them. -/
theorem cstr_append_cons {s : Str} {c : Char} (h : nul ∉ s) (hc : c ≠ nul) (t : Str) :
    cstr (s ++ c :: t) = s ++ c :: cstr t := by
  rw [List.append_cons, cstr_append, ← List.append_cons]
  simp only [List.mem_append, List.mem_singleton, not_or]
  exact ⟨h, Ne.symm hc⟩

/-- Behind a zero byte nothing is seen. -/
theorem cstr_append_of_mem {s : Str} (h : nul ∈ s) (t : Str) : cstr (s ++ t) = cstr s := by
  induction s with
  | nil => simp at h
  | cons c s ih =>
    by_cases hc : c = nul
    · simp [cstr, hc]
    · have hs : nul ∈ s := by simpa [Ne.symm hc] using h
      simpa [cstr, hc] using ih hs

/-- A string is what a system call sees of it, and what stands behind that begins with a zero
byte. -/
theorem exists_cstr_append (s : Str) : ∃ r, s = cstr s ++ r ∧ ∀ c ∈ r.head?, c = nul := by
  refine ⟨s.dropWhile (· ≠ nul), (List.takeWhile_append_dropWhile).symm, fun c hc => ?_⟩
  have := List.head?_dropWhile_not (· ≠ nul) s
  rw [Option.mem_def.mp hc] at this
  simpa using this

/-! ## Positions -/

/-- `s.find(c, pos)`: the first position of `c` from `pos` on, and `none` for `npos`. -/
def find (s : Str) (c : Char) (pos : ℕ) : Option ℕ :=
  ((s.drop pos).idxOf? c).map (pos + ·)

/-- `pos + 1` as `size_t`: `npos + 1` is zero. -/
def next : Option ℕ → ℕ
  | none => 0
  | some pos => pos + 1

/-- `stop - start` as a length: up to `npos` it reaches the end of every string. -/
def span (start : ℕ) : Option ℕ → Option ℕ
  | none => none
  | some stop => some (stop - start)

/-- `s.substr(pos, len)`, with `none` for `npos`, at a position inside the string. -/
def substr (s : Str) (pos : ℕ) : Option ℕ → Str
  | none => s.drop pos
  | some len => (s.drop pos).take len

/-- `find` passes over a part without the character and stops behind it. -/
theorem find_append {a b s : Str} {c : Char} (h : c ∉ b) :
    find (a ++ (b ++ c :: s)) c a.length = some (a.length + b.length) := by
  have hidx : (b ++ c :: s).idxOf? c = some b.length := by
    rw [List.idxOf?_eq_some_iff]
    refine ⟨by simp, by simp, ?_⟩
    intro j hj hjc
    rw [List.getElem_append_left hj] at hjc
    exact h (hjc ▸ List.getElem_mem hj)
  simp [find, hidx]

/-- `find` reports `npos` when the rest of the string has no such character. -/
theorem find_eq_none {a b : Str} {c : Char} (h : c ∉ b) : find (a ++ b) c a.length = none := by
  simp [find, List.idxOf?_eq_none_iff.mpr h]

/-- `substr` from the end of a part to the end of the next one is the next one. -/
theorem substr_append (a b s : Str) :
    substr (a ++ (b ++ s)) a.length (some b.length) = b := by
  simp [substr]

/-! ## The last separator -/

variable {α : Type*} [DecidableEq α]

/-- The parts before and behind the last separator, and `none` when there is no separator. -/
def splitLast (sep : α) : List α → Option (List α × List α)
  | [] => none
  | c :: s =>
    match splitLast sep s with
    -- A separator further behind wins over this one.
    | some (before, behind) => some (c :: before, behind)
    | none => if c = sep then some ([], s) else none

/-- Without a separator there is no last one. -/
theorem splitLast_eq_none {sep : α} {s : List α} : splitLast sep s = none ↔ sep ∉ s := by
  induction s with
  | nil => simp [splitLast]
  | cons c s ih =>
    cases hs : splitLast sep s with
    | some p =>
      have hmem : sep ∈ s := by
        by_contra hn
        rw [ih.mpr hn] at hs
        cases hs
      simp [splitLast, hs, hmem]
    | none =>
      have hn := ih.mp hs
      by_cases hc : c = sep
      · simp [splitLast, hs, hc]
      · simp [splitLast, hs, hc, hn, Ne.symm hc]

/-- The last separator is the one behind which there is none. -/
theorem splitLast_append_cons {sep : α} {behind : List α} (h : sep ∉ behind) (before : List α) :
    splitLast sep (before ++ sep :: behind) = some (before, behind) := by
  induction before with
  | nil => simp [splitLast, splitLast_eq_none.mpr h]
  | cons c before ih => simp [splitLast, ih]

/-- `splitLast` cuts at a separator behind which there is none. -/
theorem splitLast_eq_some {sep : α} {s before behind : List α} :
    splitLast sep s = some (before, behind) ↔ s = before ++ sep :: behind ∧ sep ∉ behind := by
  constructor
  · intro h
    induction s generalizing before with
    | nil => cases h
    | cons c s ih =>
      cases hs : splitLast sep s with
      | some p =>
        -- The tail has a separator, so the head stands before the cut, whatever it is.
        simp only [splitLast, hs, Option.some.injEq, Prod.mk.injEq] at h
        obtain ⟨rfl, rfl⟩ := h
        obtain ⟨hsplit, hbehind⟩ := ih hs
        exact ⟨by rw [List.cons_append, ← hsplit], hbehind⟩
      | none =>
        -- The tail has no separator, so only the head can be one.
        simp only [splitLast, hs, Option.ite_none_right_eq_some, Option.some.injEq,
          Prod.mk.injEq] at h
        obtain ⟨rfl, rfl, rfl⟩ := h
        exact ⟨rfl, splitLast_eq_none.mp hs⟩
  · rintro ⟨rfl, hbehind⟩
    exact splitLast_append_cons hbehind before

/-! ## Slashes at the end -/

/-- A string up to its last byte that is no slash, or the string itself when there is none. -/
def trimSlashes (s : Str) : Str :=
  match s.rdropWhile (· = '/') with
  | [] => s
  | t => t

/-- A string of slashes is left as it is. -/
theorem trimSlashes_of_slashes {s : Str} (h : ∀ c ∈ s, c = '/') : trimSlashes s = s := by
  have hdrop : s.rdropWhile (· = '/') = [] := List.rdropWhile_eq_nil_iff.mpr (by simpa using h)
  rw [trimSlashes, hdrop]

/-- The slashes behind another byte are cut off. -/
theorem trimSlashes_append {before slashes : Str} {c : Char} (hc : c ≠ '/')
    (h : ∀ d ∈ slashes, d = '/') : trimSlashes (before ++ c :: slashes) = before ++ [c] := by
  have hdrop : (before ++ c :: slashes).rdropWhile (· = '/') = before ++ [c] := by
    induction slashes using List.reverseRecOn with
    | nil => exact List.rdropWhile_concat_neg _ _ _ (by simpa using hc)
    | append_singleton slashes d ih =>
      rw [← List.cons_append, ← List.append_assoc,
        List.rdropWhile_concat_pos _ _ _ (by simpa using h d (by simp))]
      exact ih fun e he => h e (by simp [he])
  rw [trimSlashes, hdrop]
  cases before <;> rfl

/-- A string consists of slashes, or it has a last byte that is none. -/
theorem trimSlashes_cases (s : Str) :
    (∀ c ∈ s, c = '/') ∧ trimSlashes s = s ∨
      ∃ before c slashes, c ≠ '/' ∧ (∀ d ∈ slashes, d = '/') ∧ s = before ++ c :: slashes ∧
        trimSlashes s = before ++ [c] := by
  induction s using List.reverseRecOn with
  | nil => exact .inl ⟨by simp, rfl⟩
  | append_singleton s d ih =>
    by_cases hd : d = '/'
    · rcases ih with ⟨hs, -⟩ | ⟨before, c, slashes, hc, hslashes, rfl, -⟩
      · have hall : ∀ c ∈ s ++ [d], c = '/' := by simpa [or_imp, forall_and, hd] using hs
        exact .inl ⟨hall, trimSlashes_of_slashes hall⟩
      · have hall : ∀ e ∈ slashes ++ [d], e = '/' := by
          simpa [or_imp, forall_and, hd] using hslashes
        have heq : before ++ c :: slashes ++ [d] = before ++ c :: (slashes ++ [d]) := by simp
        exact .inr ⟨before, c, slashes ++ [d], hc, hall, heq, heq ▸ trimSlashes_append hc hall⟩
    · exact .inr ⟨s, d, [], hd, by simp, rfl, trimSlashes_append hd (by simp)⟩

/-- What is cut off are slashes. -/
theorem exists_trimSlashes_append (s : Str) :
    ∃ slashes, s = trimSlashes s ++ slashes ∧ ∀ c ∈ slashes, c = '/' := by
  rcases trimSlashes_cases s with ⟨-, heq⟩ | ⟨before, c, slashes, -, hslashes, hs, heq⟩
  · exact ⟨[], by rw [heq, List.append_nil], by simp⟩
  · refine ⟨slashes, ?_, hslashes⟩
    rw [heq, hs]
    simp

/-- A string that loses slashes loses all that stand behind what is left. -/
theorem trimSlashes_trimSlashes_append {s slashes : Str} (hs : trimSlashes s ≠ s)
    (h : ∀ c ∈ slashes, c = '/') : trimSlashes (trimSlashes s ++ slashes) = trimSlashes s := by
  rcases trimSlashes_cases s with ⟨-, heq⟩ | ⟨before, c, slashes', hc, -, -, heq⟩
  · exact absurd heq hs
  · rw [heq, List.append_assoc, List.singleton_append]
    exact trimSlashes_append hc h

/-- What is trimmed is left as it is. -/
@[simp] theorem trimSlashes_trimSlashes (s : Str) :
    trimSlashes (trimSlashes s) = trimSlashes s := by
  by_cases h : trimSlashes s = s
  · rw [h, h]
  · have hnone : ∀ c ∈ ([] : Str), c = '/' := by simp
    simpa using trimSlashes_trimSlashes_append h hnone

/-- A trimmed prefix of a string that loses slashes is no longer than what is left of it. -/
theorem eq_trimSlashes_of_isPrefix {s r : Str} (hs : trimSlashes s ≠ s) (hr : trimSlashes r = r)
    (h : r <+: s) (hle : (trimSlashes s).length ≤ r.length) : r = trimSlashes s := by
  obtain ⟨slashes, heq, hslashes⟩ := exists_trimSlashes_append s
  have htrim : trimSlashes s <+: s := ⟨slashes, heq.symm⟩
  obtain ⟨more, rfl⟩ := List.prefix_of_prefix_length_le htrim h hle
  have hmore : more <+: slashes := by
    generalize trimSlashes s = left at h heq
    rw [heq] at h
    exact (List.prefix_append_right_inj left).mp h
  rw [← hr, trimSlashes_trimSlashes_append hs fun c hc => hslashes c (hmore.subset hc)]

/-- A trimmed prefix of a string is a prefix of what is left of it. -/
theorem isPrefix_trimSlashes {s r : Str} (hr : trimSlashes r = r) (h : r <+: s) :
    r <+: trimSlashes s := by
  by_cases hs : trimSlashes s = s
  · rwa [hs]
  obtain ⟨slashes, heq, -⟩ := exists_trimSlashes_append s
  have htrim : trimSlashes s <+: s := ⟨slashes, heq.symm⟩
  rcases Nat.le_total r.length (trimSlashes s).length with hle | hle
  · exact List.prefix_of_prefix_length_le h htrim hle
  · exact ⟨[], by rw [List.append_nil, eq_trimSlashes_of_isPrefix hs hr h hle]⟩

/-- Only the slash is trimmed to a slash. -/
theorem trimSlashes_eq_slash {s : Str} : trimSlashes s = ['/'] ↔ s = ['/'] := by
  rcases trimSlashes_cases s with ⟨-, heq⟩ | ⟨before, c, slashes, hc, -, rfl, heq⟩
  · rw [heq]
  · rw [heq]
    constructor
    · intro h
      have hlast : before ++ [c] = [] ++ ['/'] := h
      obtain ⟨-, hlast⟩ := List.append_inj' hlast rfl
      exact absurd (List.cons.inj hlast).1 hc
    · intro h
      have hmem : c ∈ before ++ c :: slashes := by simp
      rw [h] at hmem
      exact absurd (by simpa using hmem) hc

/-- A string with a byte is trimmed to one. -/
theorem trimSlashes_ne_nil {s : Str} (h : s ≠ []) : trimSlashes s ≠ [] := by
  rcases trimSlashes_cases s with ⟨-, heq⟩ | ⟨before, c, slashes, -, -, -, heq⟩
  · rw [heq]
    exact h
  · rw [heq]
    simp

/-! ## Reading up to a byte -/

/-- A string up to the first element with a property, or whole. -/
theorem exists_break {α : Type*} (p : α → Bool) (s : List α) :
    ∃ a r, s = a ++ r ∧ (∀ c ∈ a, p c = false) ∧ (r = [] ∨ ∃ c r', r = c :: r' ∧ p c = true) := by
  induction s with
  | nil => exact ⟨[], [], rfl, by simp, .inl rfl⟩
  | cons c s ih =>
    cases hc : p c with
    | true => exact ⟨[], c :: s, rfl, by simp, .inr ⟨c, s, rfl, hc⟩⟩
    | false =>
      obtain ⟨a, r, rfl, ha, hr⟩ := ih
      exact ⟨c :: a, r, rfl, by simpa [hc] using ha, hr⟩

/-- The part before the first element with a property is determined. -/
theorem break_unique {α : Type*} {p : α → Bool} {a a' r r' : List α} {c c' : α}
    (h : a ++ c :: r = a' ++ c' :: r') (ha : ∀ d ∈ a, p d = false) (ha' : ∀ d ∈ a', p d = false)
    (hc : p c = true) (hc' : p c' = true) : a = a' ∧ r = r' := by
  induction a generalizing a' with
  | nil =>
    cases a' with
    | nil => exact ⟨rfl, (List.cons.inj h).2⟩
    | cons d a' =>
      -- The element at which the one part ends would be inside the other.
      have := ha' c (by rw [(List.cons.inj h).1]; simp)
      simp [hc] at this
  | cons d a ih =>
    cases a' with
    | nil =>
      have := ha c' (by rw [← (List.cons.inj h).1]; simp)
      simp [hc'] at this
    | cons d' a' =>
      obtain ⟨hd, h⟩ := List.cons.inj h
      obtain ⟨rfl, rfl⟩ := ih h (fun e he => ha e (by simp [he])) (fun e he => ha' e (by simp [he]))
      exact ⟨by rw [hd], rfl⟩

/-! ## Reading piece by piece -/

/-- The pieces of a string at a separator, read one after the other: `cur` is the piece that has
begun, and at the end of the string it counts only if it has a byte. -/
def piecesFrom (sep : α) : List α → List α → List (List α)
  -- `std::getline` reports no line behind the last line break of a file.
  | cur, [] => if cur = [] then [] else [cur]
  | cur, c :: s => if c = sep then cur :: piecesFrom sep [] s else piecesFrom sep (cur ++ [c]) s

/-- The pieces of a string at a separator, without an empty last one: what a loop over
`std::getline` reads. -/
def pieces (sep : α) (s : List α) : List (List α) := piecesFrom sep [] s

@[simp] theorem pieces_nil (sep : α) : pieces sep [] = [] := by simp [pieces, piecesFrom]

/-- A piece that has begun is the beginning of the next piece. -/
theorem piecesFrom_append {sep : α} {a : List α} (h : sep ∉ a) (cur s : List α) :
    piecesFrom sep cur (a ++ s) = piecesFrom sep (cur ++ a) s := by
  induction a generalizing cur with
  | nil => simp
  | cons c a ih =>
    simp only [List.mem_cons, not_or] at h
    rw [List.cons_append, piecesFrom, if_neg (Ne.symm h.1), ih h.2, List.append_assoc]
    rfl

/-- The first piece ends at the first separator. -/
theorem pieces_append_cons {sep : α} {a : List α} (h : sep ∉ a) (s : List α) :
    pieces sep (a ++ sep :: s) = a :: pieces sep s := by
  rw [pieces, piecesFrom_append h, List.nil_append, piecesFrom, if_pos rfl, pieces]

/-- A string without a separator is one piece, if it has a byte. -/
theorem pieces_of_not_mem {sep : α} {a : List α} (h : sep ∉ a) :
    pieces sep a = if a = [] then [] else [a] := by
  rw [pieces, ← List.append_nil a, piecesFrom_append h, List.nil_append, piecesFrom,
    List.append_nil]

omit [DecidableEq α] in
/-- The empty piece in front of the first piece changes nothing. -/
theorem modifyHead_nil_append (ps : List (List α)) : ps.modifyHead ([] ++ ·) = ps := by
  cases ps <;> rfl

/-- The loop from a piece that has begun, up to a separator: what stands before the separator is
split, with the piece begun in front, and what stands behind it is read on its own. -/
theorem piecesFrom_append_cons (sep : α) (cur s t : List α) :
    piecesFrom sep cur (s ++ sep :: t) =
      (s.splitOn sep).modifyHead (cur ++ ·) ++ pieces sep t := by
  induction s generalizing cur with
  | nil => simp [piecesFrom, pieces]
  | cons c s ih =>
    rw [List.cons_append, piecesFrom, List.splitOn_cons_eq_if_modifyHead]
    by_cases hc : c = sep
    · -- The piece that has begun ends here, and the next one begins empty.
      rw [if_pos hc, ih, if_pos (beq_iff_eq.mpr hc), modifyHead_nil_append]
      simp
    · -- The byte joins the piece that has begun.
      rw [if_neg hc, ih, if_neg (by simpa using hc)]
      simp [Function.comp_def]

/-- What stands behind a separator is read on its own, and what stands before it is split. -/
theorem pieces_append (sep : α) (s t : List α) :
    pieces sep (s ++ sep :: t) = s.splitOn sep ++ pieces sep t := by
  rw [pieces, piecesFrom_append_cons, modifyHead_nil_append]

/-- Pieces with single separators between them are read back, if the last one has a byte in it. -/
theorem pieces_intercalate {sep : α} {ps : List (List α)} (h : ∀ p ∈ ps, sep ∉ p)
    (hlast : ∀ p ∈ ps.getLast?, p ≠ []) : pieces sep ([sep].intercalate ps) = ps := by
  induction ps with
  | nil => exact pieces_nil sep
  | cons p ps ih =>
    obtain ⟨hsep, hps⟩ := List.forall_mem_cons.mp h
    cases ps with
    | nil => rw [List.intercalate_singleton, pieces_of_not_mem hsep, if_neg (hlast p rfl)]
    | cons q qs =>
      rw [List.intercalate_cons_cons, List.append_assoc, List.singleton_append,
        pieces_append_cons hsep, ih hps (by simpa using hlast)]

omit [DecidableEq α] in
/-- Pieces that each have a separator behind them have single separators between them, and one more
at the end. -/
theorem flatMap_concat {ps : List (List α)} (h : ps ≠ []) (sep : α) :
    (ps.flatMap fun p => p ++ [sep]) = [sep].intercalate ps ++ [sep] := by
  induction ps with
  | nil => exact absurd rfl h
  | cons p ps ih =>
    cases ps with
    | nil => simp
    | cons q qs =>
      rw [List.flatMap_cons, ih (by simp), List.intercalate_cons_cons]
      simp only [List.append_assoc]

/-- A piece of a split string is part of it. -/
theorem sublist_of_mem_splitOn {sep : α} {s p : List α} (hp : p ∈ s.splitOn sep) :
    p.Sublist s := by
  induction s generalizing p with
  | nil => simp_all
  | cons c s ih =>
    rw [List.splitOn_cons_eq_if_modifyHead] at hp
    split at hp
    · rcases List.mem_cons.mp hp with rfl | hp
      · exact List.nil_sublist _
      · exact (ih hp).cons _
    · -- The byte joins the first piece of the tail.
      obtain ⟨q, qs, hqs⟩ := List.exists_cons_of_ne_nil (List.splitOn_ne_nil sep s)
      rw [hqs, List.modifyHead_cons] at hp
      rcases List.mem_cons.mp hp with rfl | hp
      · exact (ih (by simp [hqs])).cons_cons _
      · exact (ih (by simp [hqs, hp])).cons _

/-- A piece of a split string has no separator. -/
theorem not_mem_of_mem_splitOn {sep : α} {s p : List α} (hp : p ∈ s.splitOn sep) : sep ∉ p := by
  induction s generalizing p with
  | nil => simp_all
  | cons c s ih =>
    rw [List.splitOn_cons_eq_if_modifyHead] at hp
    split at hp
    · rcases List.mem_cons.mp hp with rfl | hp
      · simp
      · exact ih hp
    · next hc =>
      obtain ⟨q, qs, hqs⟩ := List.exists_cons_of_ne_nil (List.splitOn_ne_nil sep s)
      rw [hqs, List.modifyHead_cons] at hp
      rcases List.mem_cons.mp hp with rfl | hp
      · have hq := ih (p := q) (by simp [hqs])
        have hne : sep ≠ c := by
          rintro rfl
          simp at hc
        simp [hne, hq]
      · exact ih (by simp [hqs, hp])

/-- No piece has a separator, if the piece that has begun has none. -/
theorem not_mem_of_mem_piecesFrom {sep : α} {cur s p : List α} (hcur : sep ∉ cur)
    (hp : p ∈ piecesFrom sep cur s) : sep ∉ p := by
  induction s generalizing cur with
  | nil =>
    rw [piecesFrom] at hp
    split at hp
    · simp at hp
    · rw [List.mem_singleton] at hp
      exact hp ▸ hcur
  | cons c s ih =>
    rw [piecesFrom] at hp
    split at hp
    · rcases List.mem_cons.mp hp with rfl | hp
      · exact hcur
      · exact ih (by simp) hp
    · next hc => exact ih (by simp [hcur, Ne.symm hc]) hp

/-- No piece has a separator. -/
theorem not_mem_of_mem_pieces {sep : α} {s p : List α} (hp : p ∈ pieces sep s) : sep ∉ p :=
  not_mem_of_mem_piecesFrom (by simp) hp

/-- A text that is read as some pieces is these pieces with single separators between them, the last
one with a byte in it, or has one more separator behind them. -/
theorem eq_of_pieces {sep : α} {s : List α} {ps : List (List α)} (hne : ps ≠ [])
    (h : pieces sep s = ps) :
    (∀ p ∈ ps.getLast?, p ≠ []) ∧ s = [sep].intercalate ps ∨ s = [sep].intercalate ps ++ [sep] := by
  by_cases hs : sep ∈ s
  · obtain ⟨⟨a, r⟩, hsplit⟩ := Option.ne_none_iff_exists'.mp fun hnone =>
      splitLast_eq_none.mp hnone hs
    obtain ⟨rfl, hr⟩ := splitLast_eq_some.mp hsplit
    rw [pieces_append, pieces_of_not_mem hr] at h
    split at h
    · -- The last separator is the last byte.
      next hnil =>
      rw [List.append_nil] at h
      rw [← h, List.intercalate_splitOn, hnil]
      exact .inr rfl
    · -- The last piece stands behind the last separator.
      next hnil =>
      have hps : ps = (a ++ sep :: r).splitOn sep := by
        rw [← h, List.splitOn_append_cons_self, List.splitOn_eq_singleton hr]
      refine .inl ⟨by simpa [← h] using hnil, ?_⟩
      rw [hps, List.intercalate_splitOn]
  · rw [pieces_of_not_mem hs] at h
    split at h
    · exact absurd h.symm hne
    · next hnil => exact .inl ⟨by simpa [← h] using hnil, by simp [← h]⟩

/-- A text is read as some pieces exactly if it is these pieces with single separators between them,
the last one with a byte in it, or with one more separator behind them. -/
theorem pieces_eq_iff {sep : α} {s : List α} {ps : List (List α)} (hne : ps ≠ []) :
    pieces sep s = ps ↔ (∀ p ∈ ps, sep ∉ p) ∧
      ((∀ p ∈ ps.getLast?, p ≠ []) ∧ s = [sep].intercalate ps ∨
        s = [sep].intercalate ps ++ [sep]) := by
  constructor
  · rintro rfl
    exact ⟨fun p hp => not_mem_of_mem_pieces hp, eq_of_pieces hne rfl⟩
  · rintro ⟨hmem, ⟨hlast, rfl⟩ | rfl⟩
    · exact pieces_intercalate hmem hlast
    · rw [pieces_append, pieces_nil, List.append_nil, List.splitOn_intercalate sep hmem hne]

end CrazyCode.Text
