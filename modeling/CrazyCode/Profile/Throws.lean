import CrazyCode.Profile.Emails

/-!
# Logins that do not throw

`login` reads the number of an account off its line with `stoi`, and catches nothing. A line that a
sign-up writes begins with a numeral, unless its email has a line break: then a client has chosen
what stands there. So a database stays `Orderly` under sign-ups without line breaks in their emails
(`Orderly.signup`), and no login to an orderly database throws (`Orderly.login`).
-/

namespace CrazyCode.Profile

open Text Decimal Outcome

/-- A line on which no login throws. -/
def Numeric (line : Str) : Prop :=
  ∀ (hash : PasswordHash) (email password : Str) (error : StoiError),
    loginLine hash email password line ≠ some (.error error)

/-- A database that ends with a line break, if there is something in it, with lines on which no
login throws. -/
structure Orderly (database : Option Str) : Prop where
  endsLine : EndsLine database
  numeric : ∀ line ∈ linesOf database, Numeric line

section

variable {hash : PasswordHash} {database : Option Str}

/-- Nobody logs in with a line without a column. -/
theorem numeric_of_column {line : Str} (h : column line = none) : Numeric line :=
  fun hash email password error => by
    have hnone : loginLine hash email password line = none :=
      loginLine_eq_none.mpr (by rw [h]; simp)
    rw [hnone]
    simp

/-- No login throws on a line with a number in front of its first separator. -/
theorem numeric_two {a b r : Str} (ha : '|' ∉ a) (hb : '|' ∉ b) {id : ℤ} (hid : stoi a = .ok id) :
    Numeric (a ++ '|' :: (b ++ '|' :: r)) := fun hash email password error => by
  by_cases hemail : b = email
  · rw [← hemail, loginLine_column ha hb hash password rfl, hid]
    split
    · simp [Except.map]
    · simp
  · have hnone : loginLine hash email password (a ++ '|' :: (b ++ '|' :: r)) = none :=
      loginLine_eq_none.mpr (by simpa [column_two ha hb] using hemail)
    rw [hnone]
    simp

/-- No login throws on the lines of a record whose email has no line break. -/
theorem numeric_record {userId : ℤ} {email name password line : Str} (hbar : '|' ∉ email)
    (hname : '|' ∉ name) (he : '\n' ∉ email) (hrange : intMin ≤ userId ∧ userId ≤ intMax)
    (hline : line ∈ (record userId email name (hash.hashPass password)).splitOn '\n') :
    Numeric line := by
  have hid := stoi_decimal hrange.1 hrange.2
  by_cases hn : '\n' ∈ name
  · obtain ⟨n₀, n₁, rfl, hn₀⟩ := List.eq_append_cons_of_mem hn
    have hn₁ : '|' ∉ n₁ := fun h => hname (by simp [h])
    obtain ⟨lines, hlines, hcolumn⟩ := splitOn_record_name userId he hn₀ hn₁
      (hash.bar_not_mem password)
    rw [hlines] at hline
    rcases List.mem_cons.mp hline with rfl | hline
    · exact numeric_two (bar_not_mem_decimal userId) hbar hid
    · exact numeric_of_column (hcolumn line hline)
  · rw [splitOn_record he hn (hash.newline_not_mem password)] at hline
    obtain rfl := List.mem_singleton.mp hline
    exact numeric_two (bar_not_mem_decimal userId) hbar hid

/-- A database that is not there is orderly. -/
theorem orderly_none : Orderly none := ⟨.inl rfl, by simp [linesOf]⟩

/-- A sign-up without a line break in its email leaves the database orderly. -/
theorem Orderly.signup (h : Orderly database) {body : Str}
    (hplain : ∀ name password email, fields body = [name, password, email] → '\n' ∉ email) :
    Orderly (signupString hash database body).2 := by
  rcases signupString_cases hash database body with heq |
    ⟨name, password, email, userId, hfields, -, hrange, heq⟩ <;> rw [heq]
  · exact h
  · obtain ⟨hname, hbar⟩ := bar_not_mem_of_fields hfields
    refine ⟨.inr (.inr ⟨_, by rw [← List.append_assoc]⟩), fun line hline => ?_⟩
    rw [h.endsLine.linesOf_append, List.mem_append] at hline
    rcases hline with hline | hline
    · exact h.numeric line hline
    · exact numeric_record hbar hname (hplain _ _ _ hfields) hrange hline

/-- No login to an orderly database throws. -/
theorem Orderly.login (h : Orderly database) (hash : PasswordHash) (email password : Str) :
    ∃ result, Profile.login hash database email password = .ok result := by
  cases database with
  | none => exact ⟨_, rfl⟩
  | some content =>
    rw [Profile.login]
    cases hfind : (pieces '\n' content).findSome? (loginLine hash email password) with
    | none => exact ⟨_, rfl⟩
    | some result =>
      obtain ⟨line, hline, hfound⟩ := List.exists_of_findSome?_eq_some hfind
      cases result with
      | ok result => exact ⟨result, rfl⟩
      | error error => exact absurd hfound (h.numeric line hline hash email password error)

/-- So `update_cookie` returns. -/
theorem Orderly.updateCookie (h : Orderly database) (hash : PasswordHash) (body : Str) :
    ∃ cookie, Profile.updateCookie hash database body = .ok cookie := by
  unfold Profile.updateCookie
  split
  · next kind email password _ =>
    split
    · obtain ⟨⟨_ | _, profile⟩, hlogin⟩ := h.login hash email password <;> rw [hlogin]
      · exact ⟨_, rfl⟩
      · exact ⟨_, rfl⟩
    · exact ⟨_, rfl⟩
  · exact ⟨_, rfl⟩

end

end CrazyCode.Profile
