import CrazyCode.Library.Text

/-!
# Tables of segment prefixes

A word is cut into segments by a separator, and a key covers a word when it is all of it or stands
before one of its separators (`Covers`). A table maps some keys to values, and a word is looked up
in it under the longest key that covers it (`IsLongest`), or under a home key when there is none; a
home key that the table does not have leads to a value of its own (`Leads`). What a word leads to
exists and is determined (`exists_leads`, `Leads.unique`).

`cut` is the loop that looks a word up: it goes back from separator to separator until it meets a
key, and it meets the longest one (`cut_isLongest`).
-/

namespace CrazyCode.Segments

open Text

variable {α β : Type*} {sep : α}

/-! ## Keys that cover a word -/

/-- The key is all of the word, or stands before one of its separators. -/
def Covers (sep : α) (key word : List α) : Prop := word = key ∨ key ++ [sep] <+: word

/-- A word covers itself. -/
theorem Covers.refl (word : List α) : Covers sep word word := .inl rfl

/-- A key that covers a word is a prefix of it. -/
theorem Covers.isPrefix {key word : List α} (h : Covers sep key word) : key <+: word := by
  rcases h with rfl | h
  · exact List.prefix_rfl
  · exact (List.prefix_append key [sep]).trans h

/-- A key is no longer than the words it covers. -/
theorem Covers.length_le {key word : List α} (h : Covers sep key word) :
    key.length ≤ word.length := h.isPrefix.length_le

/-- Keys of one length that cover a word are equal. -/
theorem Covers.eq_of_length {key key' word : List α} (h : Covers sep key word)
    (h' : Covers sep key' word) (hlen : key.length = key'.length) : key = key' :=
  List.IsPrefix.eq_of_length (List.prefix_of_prefix_length_le h.isPrefix h'.isPrefix hlen.le) hlen

/-- A key that covers a key of a word covers the word. -/
theorem Covers.trans {key key' word : List α} (h : Covers sep key key')
    (h' : Covers sep key' word) : Covers sep key word := by
  rcases h with rfl | h
  · exact h'
  · exact .inr (h.trans h'.isPrefix)

/-- A key that covers a word covers the longer prefixes of the word. -/
theorem Covers.of_isPrefix {key key' word : List α} (h : Covers sep key word) (h' : key' <+: word)
    (hlt : key.length < key'.length) : Covers sep key key' := by
  rcases h with rfl | h
  · exact absurd h'.length_le (by omega)
  · exact .inr (List.prefix_of_prefix_length_le h h' (by simpa using Nat.succ_le_of_lt hlt))

/-- A key with a separator behind it covers no less than the key does. -/
theorem Covers.of_append {key rest word : List α} (h : Covers sep (key ++ rest) word)
    (hrest : ∀ c ∈ rest, c = sep) : Covers sep key word := by
  cases rest with
  | nil => simpa using h
  | cons c rest =>
    obtain rfl := hrest c (by simp)
    refine .inr (List.IsPrefix.trans ?_ h.isPrefix)
    exact ⟨rest, by simp⟩

/-! ## The longest key -/

/-- The key is in the set and covers the word, and no longer one does. -/
def IsLongest (sep : α) (keys : List α → Prop) (word key : List α) : Prop :=
  keys key ∧ Covers sep key word ∧ ∀ key', keys key' → Covers sep key' word →
    key'.length ≤ key.length

/-- The longest key is determined. -/
theorem IsLongest.unique {keys : List α → Prop} {word key key' : List α}
    (h : IsLongest sep keys word key) (h' : IsLongest sep keys word key') : key = key' :=
  h.2.1.eq_of_length h'.2.1 (le_antisymm (h'.2.2 key h.1 h.2.1) (h.2.2 key' h'.1 h'.2.1))

/-- If a key covers the word, there is a longest one. -/
theorem exists_isLongest {keys : List α → Prop} {word key : List α} (hkey : keys key)
    (hcovers : Covers sep key word) : ∃ key, IsLongest sep keys word key := by
  -- No key is longer than the word, so the induction is on what the word has more than the key.
  induction hn : word.length - key.length using Nat.strongRecOn generalizing key with
  | ind n ih =>
    by_cases hmax : ∀ key', keys key' → Covers sep key' word → key'.length ≤ key.length
    · exact ⟨key, hkey, hcovers, hmax⟩
    · push Not at hmax
      obtain ⟨key', hkey', hcovers', hlt⟩ := hmax
      have := hcovers'.length_le
      exact ih _ (by omega) hkey' hcovers' rfl

/-! ## Looking a word up -/

/-- What a word leads to in a table: the value of the longest key that covers it, and if no key
does, the value of the home key, or another one where the home key has none. -/
def Leads (sep : α) (home : List α) (other : β) (table : List α → Option β) (word : List α)
    (value : β) : Prop :=
  (∃ key, IsLongest sep (fun key => (table key).isSome) word key ∧ table key = some value) ∨
    ((∀ key, (table key).isSome → ¬ Covers sep key word) ∧ (table home).getD other = value)

section

variable {home : List α} {other : β} {table : List α → Option β} {word : List α}

/-- A key leads to its own value. -/
theorem leads_of_key {value : β} (h : table word = some value) :
    Leads sep home other table word value :=
  .inl ⟨word, ⟨Option.isSome_of_eq_some h, .refl word, fun _ _ hcovers => hcovers.length_le⟩, h⟩

/-- A table whose values are mapped leads to the mapped values. -/
theorem Leads.map {γ : Type*} (f : β → γ) {value : β} (h : Leads sep home other table word value) :
    Leads sep home (f other) (fun key => (table key).map f) word (f value) := by
  have hkeys : ∀ key, ((table key).map f).isSome = (table key).isSome := by simp
  rcases h with ⟨key, hlongest, hvalue⟩ | ⟨hnone, hvalue⟩
  · exact .inl ⟨key, by simpa only [hkeys] using hlongest, by simp only [hvalue, Option.map_some]⟩
  · exact .inr ⟨by simpa only [hkeys] using hnone, by simp only [Option.getD_map, hvalue]⟩

/-- Every word leads somewhere. -/
theorem exists_leads (sep : α) (home : List α) (other : β) (table : List α → Option β)
    (word : List α) : ∃ value, Leads sep home other table word value := by
  by_cases h : ∃ key, (table key).isSome ∧ Covers sep key word
  · obtain ⟨key, hkey, hcovers⟩ := h
    obtain ⟨key, hlongest⟩ : ∃ key, IsLongest sep (fun key => (table key).isSome) word key :=
      exists_isLongest hkey hcovers
    obtain ⟨value, hvalue⟩ := Option.isSome_iff_exists.mp hlongest.1
    exact ⟨value, .inl ⟨key, hlongest, hvalue⟩⟩
  · exact ⟨_, .inr ⟨fun key hkey hcovers => h ⟨key, hkey, hcovers⟩, rfl⟩⟩

/-- What a word leads to is determined. -/
theorem Leads.unique {value value' : β} (h : Leads sep home other table word value)
    (h' : Leads sep home other table word value') : value = value' := by
  rcases h with ⟨key, hlongest, hvalue⟩ | ⟨hnone, hvalue⟩ <;>
    rcases h' with ⟨key', hlongest', hvalue'⟩ | ⟨hnone', hvalue'⟩
  · obtain rfl := hlongest.unique hlongest'
    exact Option.some.inj (hvalue.symm.trans hvalue')
  · exact absurd hlongest.2.1 (hnone' key hlongest.1)
  · exact absurd hlongest'.2.1 (hnone key' hlongest'.1)
  · exact hvalue.symm.trans hvalue'

end

/-! ## Going back from separator to separator -/

section

variable [DecidableEq α]

/-- The word up to its last separators, one after the other, until it is a key. -/
def cut (sep : α) (isKey : List α → Bool) (word : List α) : Option (List α) :=
  if isKey word then some word
  else
    match _h : splitLast sep word with
    | some (before, _) => cut sep isKey before
    | none => none
termination_by word.length
decreasing_by
  rw [(splitLast_eq_some.mp _h).1]
  simp

/-- A key shorter than the word covers it exactly if it covers what stands before the last
separator. -/
theorem covers_before_iff {word before behind : List α}
    (h : splitLast sep word = some (before, behind)) {key : List α} (hne : key ≠ word) :
    Covers sep key word ↔ Covers sep key before := by
  obtain ⟨rfl, hbehind⟩ := splitLast_eq_some.mp h
  have hbefore : Covers sep before (before ++ sep :: behind) := .inr ⟨behind, by simp⟩
  constructor
  · rintro (heq | hpre)
    · exact absurd heq.symm hne
    · -- The separator behind the key is not one of those behind the last one.
      obtain ⟨rest, hrest⟩ := hpre
      rw [List.append_assoc, List.singleton_append] at hrest
      have hle : key.length ≤ before.length := by
        by_contra hlt
        have hdrop := congrArg (List.drop (before.length + 1)) hrest
        rw [List.drop_append, List.drop_append] at hdrop
        have hmem : sep ∈ List.drop (before.length + 1 - key.length) (sep :: rest) := by
          rw [show before.length + 1 - key.length = 0 by omega]
          simp
        refine hbehind ?_
        have htail : List.drop (before.length + 1) (before ++ sep :: behind) = behind := by simp
        rw [← htail, ← hrest, List.drop_append]
        exact List.mem_append_right _ hmem
      rcases Nat.lt_or_eq_of_le hle with hlt | heq
      · have hcovers : Covers sep key (before ++ sep :: behind) :=
          .inr ⟨rest, by simpa using hrest⟩
        exact hcovers.of_isPrefix (List.prefix_append _ _) hlt
      · exact .inl (List.append_inj_left hrest heq).symm
  · intro hcovers
    exact hcovers.trans hbefore

/-- The loop meets the longest key that covers the word, and it meets none only if there is none. -/
theorem cut_isLongest (sep : α) (isKey : List α → Bool) (word : List α) :
    (∃ key, cut sep isKey word = some key ∧ IsLongest sep (fun key => isKey key) word key) ∨
      (cut sep isKey word = none ∧ ∀ key, isKey key → ¬ Covers sep key word) := by
  fun_induction cut sep isKey word with
  | case1 word hkey =>
    exact .inl ⟨word, rfl, hkey, .refl word, fun key' _ hcovers => hcovers.length_le⟩
  | case2 word hkey before behind hsplit ih =>
    have hne : ∀ key, isKey key = true → key ≠ word := by
      rintro key h rfl
      exact hkey h
    rcases ih with ⟨key, hcut, hisKey, hcovers, hmax⟩ | ⟨hcut, hnone⟩
    · refine .inl ⟨key, hcut, hisKey, (covers_before_iff hsplit (hne key hisKey)).mpr hcovers, ?_⟩
      intro key' hkey' hcovers'
      exact hmax key' hkey' ((covers_before_iff hsplit (hne key' hkey')).mp hcovers')
    · refine .inr ⟨hcut, fun key' hkey' hcovers' => ?_⟩
      exact hnone key' hkey' ((covers_before_iff hsplit (hne key' hkey')).mp hcovers')
  | case3 word hkey hsplit =>
    -- Without a separator only the word itself covers it.
    refine .inr ⟨rfl, fun key' hkey' hcovers' => ?_⟩
    rcases hcovers' with rfl | hpre
    · exact hkey hkey'
    · exact splitLast_eq_none.mp hsplit (hpre.subset (by simp))

/-- In a table that has been given another value for its home key the loop finds what the word
leads to, if no key is shorter than the home key. -/
theorem cut_leads {home : List α} {other : β} {table full : List α → Option β}
    (hfull : ∀ key, full key = (table key).or (if home = key then some other else none))
    (hhome : ∀ key, (table key).isSome → home.length ≤ key.length) (word : List α) :
    ∃ value, full ((cut sep (fun key => (full key).isSome) word).getD home) = some value ∧
      Leads sep home other table word value := by
  have hsome : ∀ key, (table key).isSome → full key = table key := by
    intro key hkey
    obtain ⟨value, hvalue⟩ := Option.isSome_iff_exists.mp hkey
    rw [hfull, hvalue]
    rfl
  have hkeys : ∀ key, (table key).isSome → (full key).isSome := by
    intro key hkey
    rw [hsome key hkey]
    exact hkey
  rcases cut_isLongest sep (fun key => (full key).isSome) word with
    ⟨key, hcut, hkey, hcovers, hmax⟩ | ⟨hcut, hnone⟩
  · rw [hcut, Option.getD_some]
    by_cases htable : (table key).isSome
    · obtain ⟨value, hvalue⟩ := Option.isSome_iff_exists.mp htable
      refine ⟨value, (hsome key htable).trans hvalue, .inl ⟨key, ⟨htable, hcovers, ?_⟩, hvalue⟩⟩
      exact fun key' hkey' => hmax key' (hkeys key' hkey')
    · -- The key is the home key, so a key of the table that covers the word would be the same.
      have hnone : table key = none := by simpa using htable
      have hhere : home = key := by
        by_contra hne
        rw [hfull, hnone, if_neg hne] at hkey
        simp at hkey
      subst hhere
      refine ⟨other, by rw [hfull, hnone, if_pos rfl]; rfl, .inr ⟨fun key' hkey' hcovers' => ?_,
        by rw [hnone]; rfl⟩⟩
      have hle := hmax key' (hkeys key' hkey') hcovers'
      rw [hcovers'.eq_of_length hcovers (le_antisymm hle (hhome key' hkey')), hnone] at hkey'
      cases hkey'
  · rw [hcut, Option.getD_none]
    refine ⟨(table home).getD other, ?_, .inr ⟨fun key hkey => ?_, rfl⟩⟩
    · rw [hfull, if_pos rfl]
      cases table home <;> rfl
    · exact hnone key (hkeys key hkey)

end

end CrazyCode.Segments
