import CrazyCode.Profile.Manager

/-!
# Records of three fields

The pages join three fields with a separator between them, and so does `update_cookie`;
`signup_string`, `update_cookie` and `update_user` split such a record with one loop each, which is
the same in all three (`fields`). Behind the last separator the loop takes a field only
`if (begin < data.size())`, and so it loses an empty last field, while it keeps the other empty
ones.

`fields_eq_three` says which texts are read as three fields. They are more and fewer than the
records (`fields_joined_iff`): a record with an empty last field is read as two fields, and a record
with one more separator behind it as three.
-/

namespace CrazyCode.Profile

open Text

/-- Three fields with a separator between them. -/
def joined (f₁ f₂ f₃ : Str) : Str := f₁ ++ '|' :: (f₂ ++ '|' :: f₃)

variable {data f₁ f₂ f₃ : Str}

/-- The texts that are read as three fields: a record with a last field, and any record with one
more separator behind it. -/
theorem fields_eq_three : fields data = [f₁, f₂, f₃] ↔
    ('|' ∉ f₁ ∧ '|' ∉ f₂ ∧ '|' ∉ f₃) ∧
      (f₃ ≠ [] ∧ data = joined f₁ f₂ f₃ ∨ data = joined f₁ f₂ f₃ ++ ['|']) := by
  have hjoined : ['|'].intercalate [f₁, f₂, f₃] = joined f₁ f₂ f₃ := by simp [joined]
  rw [fields_eq, pieces_eq_iff (by simp), hjoined]
  simp

/-- A text with two separators is a record. -/
theorem exists_joined (h : data.count '|' = 2) :
    ∃ f₁ f₂ f₃, data = joined f₁ f₂ f₃ ∧ '|' ∉ f₁ ∧ '|' ∉ f₂ ∧ '|' ∉ f₃ := by
  have hdata : '|' ∈ data := List.count_pos_iff.mp (by omega)
  obtain ⟨f₁, r, rfl, h₁⟩ := List.eq_append_cons_of_mem hdata
  rw [List.count_append, List.count_eq_zero.mpr h₁, List.count_cons_self] at h
  have hr : '|' ∈ r := List.count_pos_iff.mp (by omega)
  obtain ⟨f₂, f₃, rfl, h₂⟩ := List.eq_append_cons_of_mem hr
  rw [List.count_append, List.count_eq_zero.mpr h₂, List.count_cons_self] at h
  exact ⟨f₁, f₂, f₃, rfl, h₁, h₂, List.count_eq_zero.mp (by omega)⟩

/-- A record has two separators. -/
theorem count_joined (h₁ : '|' ∉ f₁) (h₂ : '|' ∉ f₂) (h₃ : '|' ∉ f₃) :
    (joined f₁ f₂ f₃).count '|' = 2 := by
  simp [joined, List.count_eq_zero.mpr h₁, List.count_eq_zero.mpr h₂, List.count_eq_zero.mpr h₃]

/-- A text that is read as three fields is the record of these fields, unless it has three
separators with the last of them at its end. -/
theorem eq_joined_iff (data : Str) :
    (∀ f₁ f₂ f₃, fields data = [f₁, f₂, f₃] → data = joined f₁ f₂ f₃) ↔
      ¬ (data.count '|' = 3 ∧ ∃ s, data = s ++ ['|']) := by
  constructor
  · rintro h ⟨hcount, s, rfl⟩
    have htwo : s.count '|' = 2 := by simpa using hcount
    obtain ⟨f₁, f₂, f₃, rfl, hbars⟩ := exists_joined htwo
    -- The text is longer than the record by its last byte.
    simpa using h f₁ f₂ f₃ (fields_eq_three.mpr ⟨hbars, .inr rfl⟩)
  · intro h f₁ f₂ f₃ hfields
    obtain ⟨⟨h₁, h₂, h₃⟩, ⟨-, hdata⟩ | hdata⟩ := fields_eq_three.mp hfields
    · exact hdata
    · refine absurd ⟨?_, _, hdata⟩ h
      rw [hdata, List.count_append, count_joined h₁ h₂ h₃]
      rfl

/-- The fields of a record are read back exactly if the last one is not empty; and a text that is
read as three fields is their record, unless it has three separators with the last of them at its
end. -/
theorem fields_joined_iff (f₁ f₂ f₃ data : Str) (h₁ : '|' ∉ f₁) (h₂ : '|' ∉ f₂) (h₃ : '|' ∉ f₃) :
    (fields (joined f₁ f₂ f₃) = [f₁, f₂, f₃] ↔ f₃ ≠ []) ∧
    ((∀ g₁ g₂ g₃, fields data = [g₁, g₂, g₃] → data = joined g₁ g₂ g₃) ↔
      ¬ (data.count '|' = 3 ∧ ∃ s, data = s ++ ['|'])) := by
  refine ⟨?_, eq_joined_iff data⟩
  rw [fields_eq_three]
  constructor
  · rintro ⟨-, ⟨hne, -⟩ | hlong⟩
    · exact hne
    · simp at hlong
  · exact fun hne => ⟨⟨h₁, h₂, h₃⟩, .inl ⟨hne, rfl⟩⟩

/-- A record with an empty field in it is read back, and only this record is read as its fields. -/
theorem fields_joined_iff_three :
    fields (joined "n".toList [] "e@x".toList) = ["n".toList, [], "e@x".toList] ∧
    ∀ g₁ g₂ g₃, fields "n||e@x".toList = [g₁, g₂, g₃] → "n||e@x".toList = joined g₁ g₂ g₃ := by
  obtain ⟨hback, hjoined⟩ := fields_joined_iff "n".toList [] "e@x".toList "n||e@x".toList
    (by decide) (by decide) (by decide)
  exact ⟨hback.mpr (by decide), hjoined.mpr fun h => absurd h.1 (by decide)⟩

/-- An empty last field is lost, and a fourth field that is empty is not noticed. -/
theorem not_fields_joined :
    (¬ ∀ f₁ f₂ f₃, '|' ∉ f₁ → '|' ∉ f₂ → '|' ∉ f₃ →
      fields (joined f₁ f₂ f₃) = [f₁, f₂, f₃]) ∧
    ¬ ∀ data f₁ f₂ f₃, fields data = [f₁, f₂, f₃] → data = joined f₁ f₂ f₃ := by
  constructor
  · intro h
    exact absurd (h ['a'] ['b'] [] (by decide) (by decide) (by decide)) (by decide)
  · intro h
    exact absurd (h "a|b|c|".toList ['a'] ['b'] ['c'] rfl) (by decide)

end CrazyCode.Profile
