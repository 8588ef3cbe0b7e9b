import CrazyCode.Session.Session

/-!
# Decoding a cookie

What `session::update_user` makes of a header that its client has chosen. `Decodes` is what it
should come to: the profile of a `crazyCode` parameter that has the numeral of an `int` for its
first field, or a refusal with the profile as it was. `update_user` hands the first field to `stoi`
and catches nothing, so a field without a number is an exception (`not_decodes`), and `stoi` reads
more than numerals. `decodes_iff` has the headers for which neither happens.
-/

namespace CrazyCode.Session

open Text Decimal Profile

/-- A header is decoded whole or not at all: the profile is that of the first parameter `crazyCode`,
which has three fields with the numeral of an `int` first, or the answer is no and the profile is
left as it was. -/
def Decodes (paramList : Str → List (Str × Str)) (cookieString : Str) (user : UserProfile) : Prop :=
  (∃ value userId username email, crazyCode paramList cookieString = some value ∧
    fields value = [decimal userId, username, email] ∧ (intMin ≤ userId ∧ userId ≤ intMax) ∧
    updateUser paramList cookieString user = .ok (true, ⟨userId, username, email, true⟩)) ∨
  updateUser paramList cookieString user = .ok (false, user)

variable {paramList : Str → List (Str × Str)} {cookieString : Str}

/-- Without three fields in the parameter, or without the parameter, the answer is no. -/
theorem updateUser_refused (user : UserProfile)
    (h : ∀ value id username email, crazyCode paramList cookieString = some value →
      fields value ≠ [id, username, email]) :
    updateUser paramList cookieString user = .ok (false, user) := by
  unfold updateUser
  cases hvalue : crazyCode paramList cookieString with
  | none => rfl
  | some value =>
    dsimp only
    split
    · next id username email hfields => exact absurd hfields (h value id username email hvalue)
    · rfl

/-- With three fields in the parameter the answer is up to `stoi`. -/
theorem updateUser_fields {value id username email : Str} (user : UserProfile)
    (hvalue : crazyCode paramList cookieString = some value)
    (hfields : fields value = [id, username, email]) :
    updateUser paramList cookieString user =
      (stoi id).map fun userId => (true, ⟨userId, username, email, true⟩) := by
  unfold updateUser
  simp only [hvalue, hfields]
  cases stoi id <;> rfl

/-- A header is decoded whole or not at all exactly if a first parameter `crazyCode` of three fields
has the numeral of an `int` for its first field. -/
theorem decodes_iff (paramList : Str → List (Str × Str)) (cookieString : Str) (user : UserProfile) :
    Decodes paramList cookieString user ↔
      ∀ value id username email, crazyCode paramList cookieString = some value →
        fields value = [id, username, email] →
        ∃ userId, (intMin ≤ userId ∧ userId ≤ intMax) ∧ id = decimal userId := by
  constructor
  · rintro (⟨value', userId, username', email', hvalue', hfields', hrange, -⟩ | hrefused) value id
      username email hvalue hfields
    · obtain rfl := Option.some.inj (hvalue'.symm.trans hvalue)
      exact ⟨userId, hrange, (List.cons.inj (hfields.symm.trans hfields')).1⟩
    · -- With three fields the answer is never no.
      rw [updateUser_fields user hvalue hfields] at hrefused
      cases hstoi : stoi id <;> simp [hstoi, Except.map] at hrefused
  · intro h
    by_cases hthree : ∃ value id username email,
        crazyCode paramList cookieString = some value ∧ fields value = [id, username, email]
    · obtain ⟨value, id, username, email, hvalue, hfields⟩ := hthree
      obtain ⟨userId, hrange, rfl⟩ := h value id username email hvalue hfields
      refine .inl ⟨value, userId, username, email, hvalue, hfields, hrange, ?_⟩
      rw [updateUser_fields user hvalue hfields, stoi_decimal hrange.1 hrange.2]
      rfl
    · refine .inr (updateUser_refused user fun value id username email hvalue hfields => ?_)
      exact hthree ⟨value, id, username, email, hvalue, hfields⟩

/-- The parameters of a header with letters where the id belongs. -/
def letterParams : Str → List (Str × Str) := fun s =>
  if s = ";crazyCode=a|b|c".toList then [("crazyCode".toList, "a|b|c".toList)] else []

/-- Letters where the id belongs are an exception. -/
theorem not_decodes : ¬ ∀ (paramList : Str → List (Str × Str)) (cookieString : Str)
    (user : UserProfile), Decodes paramList cookieString user := fun h => by
  have hthrows : updateUser letterParams "crazyCode=a|b|c".toList ⟨0, [], [], false⟩ =
      .error .invalidArgument := rfl
  rcases h letterParams "crazyCode=a|b|c".toList ⟨0, [], [], false⟩ with
    ⟨_, _, _, _, -, -, -, hok⟩ | hrefused
  · rw [hthrows] at hok
    cases hok
  · rw [hthrows] at hrefused
    cases hrefused

end CrazyCode.Session
