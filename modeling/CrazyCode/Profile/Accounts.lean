import CrazyCode.Profile.Database
import Mathlib.Data.List.Induction

/-!
# Accounts over a sequence of sign-ups

`signupStrings` is the user database behind a sequence of calls of `signup_string`, from a missing
file on. A call that returns `true` writes one record behind the lines there are
(`signupString_accepted`), so the lines of the database only ever grow (`lines_prefix`).

The three results say when the accounts are what they should be:

- `emailsUnique_iff`: an email has one account, unless a line break in it hides it from the scan;
- `loginComplete_iff`: an account can log in, unless a line break in its email or name splits its
  record;
- `loginSound_iff`: a login is one of an account, unless an earlier sign-up forges one (`Forges`).
-/

namespace CrazyCode.Profile

open Text Decimal

variable {hash : PasswordHash}

/-- The database behind calls of `signup_string` with these bodies, from a missing file. -/
def signupStrings (hash : PasswordHash) (bodies : List Str) : Option Str :=
  bodies.foldl (fun database body => (signupString hash database body).2) none

/-- The call with `body` behind the calls with `pre` returns `true`. -/
def Accepted (hash : PasswordHash) (pre : List Str) (body : Str) : Prop :=
  (signupString hash (signupStrings hash pre) body).1 = true

/-- One call more. -/
theorem signupStrings_concat (pre : List Str) (body : Str) :
    signupStrings hash (pre ++ [body]) = (signupString hash (signupStrings hash pre) body).2 := by
  simp [signupStrings]

/-! ## One sign-up -/

/-- A call of `signup_string` leaves the database as it is, or writes a record for an email that is
the mark of no line. -/
theorem signupString_cases (hash : PasswordHash) (database : Option Str) (body : Str) :
    signupString hash database body = (false, database) ∨
    ∃ name password email userId, fields body = [name, password, email] ∧
      (∀ line ∈ linesOf database, mark line ≠ some email) ∧ (intMin ≤ userId ∧ userId ≤ intMax) ∧
      signupString hash database body = (true, some (database.getD [] ++
        (record userId email name (hash.hashPass password) ++ ['\n']))) := by
  unfold signupString
  split
  · next name password email hfields =>
    rw [signup_eq]
    cases hscan : scan email (linesOf database) 0 with
    | none => exact .inl rfl
    | some numUsers =>
      refine .inr ⟨name, password, email, wrap (numUsers + 1), hfields, fun line hline hmark => ?_,
        wrap_mem _, rfl⟩
      rw [scan_eq_none.mpr ⟨line, hline, hmark⟩] at hscan
      cases hscan
  · exact .inl rfl

/-- What a call of `signup_string` that returns `true` does with its three fields. -/
theorem signupString_accepted {database : Option Str} {body name password email : Str}
    (h : (signupString hash database body).1 = true)
    (hfields : fields body = [name, password, email]) :
    (∀ line ∈ linesOf database, mark line ≠ some email) ∧
    ∃ userId, (intMin ≤ userId ∧ userId ≤ intMax) ∧
      (signupString hash database body).2 = some (database.getD [] ++
        (record userId email name (hash.hashPass password) ++ ['\n'])) := by
  rcases signupString_cases hash database body with hcase |
    ⟨name', password', email', userId, hfields', hmark, hrange, hcase⟩
  · rw [hcase] at h
    cases h
  · rw [hfields] at hfields'
    obtain ⟨rfl, rfl, rfl⟩ : name = name' ∧ password = password' ∧ email = email' := by
      simpa using hfields'
    exact ⟨hmark, userId, hrange, by rw [hcase]⟩

/-- The email of a line is part of the line. -/
theorem sublist_of_mark {line email : Str} (h : mark line = some email) : email.Sublist line := by
  unfold mark at h
  cases hid : find line '|' 0 with
  | none => simp [hid] at h
  | some idEnd =>
    simp only [hid, Option.bind_eq_bind, Option.bind_some, Option.pure_def, Option.some.injEq] at h
    rw [← h]
    cases span (idEnd + 1) (find line '|' (idEnd + 1)) with
    | none => exact List.drop_sublist _ _
    | some len => exact (List.take_sublist _ _).trans (List.drop_sublist _ _)

/-- The column of a line is its mark. -/
theorem mark_of_column {line email : Str} (h : column line = some email) :
    mark line = some email := by
  obtain ⟨a, r, rfl, ha, hemail⟩ := column_eq_some h
  exact mark_two ha hemail

/-- No line of the database has a line break in it. -/
theorem newline_not_mem_lines {database : Option Str} {line : Str} (h : line ∈ linesOf database) :
    '\n' ∉ line := by
  cases database with
  | none => simp [linesOf] at h
  | some content => exact not_mem_of_mem_pieces h

/-! ## A sequence of sign-ups -/

/-- The database behind a sequence of calls is closed. -/
theorem closed_signupStrings (bodies : List Str) : Closed (signupStrings hash bodies) := by
  induction bodies using List.reverseRecOn with
  | nil => intro content h; simp [signupStrings] at h
  | append_singleton bodies body ih =>
    rw [signupStrings_concat]
    rcases signupString_cases hash (signupStrings hash bodies) body with h |
      ⟨_, _, _, _, -, -, -, h⟩
    · rw [h]
      exact ih
    · rw [h]
      intro content hcontent
      cases hcontent
      exact ⟨_, by rw [← List.append_assoc]⟩

/-- The lines that an accepted sign-up writes. -/
theorem lines_accepted {pre : List Str} {body name password email : Str}
    (h : Accepted hash pre body) (hfields : fields body = [name, password, email]) :
    (∀ line ∈ linesOf (signupStrings hash pre), mark line ≠ some email) ∧
    ∃ userId, (intMin ≤ userId ∧ userId ≤ intMax) ∧
      signupStrings hash (pre ++ [body]) = some ((signupStrings hash pre).getD [] ++
        (record userId email name (hash.hashPass password) ++ ['\n'])) ∧
      linesOf (signupStrings hash (pre ++ [body])) = linesOf (signupStrings hash pre) ++
        (record userId email name (hash.hashPass password)).splitOn '\n' := by
  obtain ⟨hmark, userId, hrange, hcontent⟩ := signupString_accepted h hfields
  refine ⟨hmark, userId, hrange, by rw [signupStrings_concat, hcontent], ?_⟩
  rw [signupStrings_concat, hcontent, linesOf_append (closed_signupStrings pre)]

/-- An accepted sign-up has three fields. -/
theorem Accepted.fields {pre : List Str} {body : Str} (h : Accepted hash pre body) :
    ∃ name password email, fields body = [name, password, email] := by
  rcases signupString_cases hash (signupStrings hash pre) body with hcase |
    ⟨name, password, email, _, hfields, -⟩
  · rw [Accepted, hcase] at h
    cases h
  · exact ⟨name, password, email, hfields⟩

/-- A sign-up that is not accepted changes nothing. -/
theorem signupStrings_rejected {pre : List Str} {body : Str} (h : ¬ Accepted hash pre body) :
    signupStrings hash (pre ++ [body]) = signupStrings hash pre := by
  rw [signupStrings_concat]
  rcases signupString_cases hash (signupStrings hash pre) body with hcase |
    ⟨_, _, _, _, -, -, -, hcase⟩
  · rw [hcase]
  · exact absurd (by rw [Accepted, hcase]) h

/-- The lines of the database only ever grow. -/
theorem lines_prefix (hash : PasswordHash) (pre post : List Str) :
    linesOf (signupStrings hash pre) <+: linesOf (signupStrings hash (pre ++ post)) := by
  induction post using List.reverseRecOn with
  | nil => simp
  | append_singleton post body ih =>
    rw [← List.append_assoc]
    refine ih.trans ?_
    by_cases h : Accepted hash (pre ++ post) body
    · obtain ⟨name, password, email, hfields⟩ := h.fields
      obtain ⟨-, userId, -, -, hlines⟩ := lines_accepted h hfields
      rw [hlines]
      exact List.prefix_append _ _
    · exact (congrArg linesOf (signupStrings_rejected h)).symm ▸ List.prefix_rfl

/-- The first line of a record whose email has no line break has the email as its column. -/
theorem exists_column (hash : PasswordHash) (userId : ℤ) {email name : Str} (password : Str)
    (hbar : '|' ∉ email) (hname : '|' ∉ name) (he : '\n' ∉ email) :
    ∃ line ∈ (record userId email name (hash.hashPass password)).splitOn '\n',
      column line = some email := by
  by_cases hn : '\n' ∈ name
  · obtain ⟨n₀, n₁, rfl, hn₀⟩ := List.eq_append_cons_of_mem hn
    have hn₁ : '|' ∉ n₁ := fun h => hname (by simp [h])
    obtain ⟨lines, hlines, -⟩ := splitOn_record_name userId he hn₀ hn₁
      (hash.bar_not_mem password)
    rw [hlines]
    exact ⟨_, List.mem_cons_self, column_two (bar_not_mem_decimal _) hbar⟩
  · rw [splitOn_record he hn (hash.newline_not_mem _)]
    exact ⟨_, List.mem_singleton_self _, column_two (bar_not_mem_decimal _) hbar⟩

/-- An accepted sign-up whose email has no line break writes a line whose column is the email. -/
theorem Accepted.column {pre : List Str} {body name password email : Str}
    (h : Accepted hash pre body) (hfields : Profile.fields body = [name, password, email])
    (he : '\n' ∉ email) (post : List Str) :
    ∃ line ∈ linesOf (signupStrings hash (pre ++ body :: post)), column line = some email := by
  obtain ⟨-, userId, -, -, hlines⟩ := lines_accepted h hfields
  obtain ⟨hname, hbar⟩ := bar_not_mem_of_fields hfields
  obtain ⟨line, hline, hcolumn⟩ := exists_column hash userId password hbar hname he
  refine ⟨line, ?_, hcolumn⟩
  have hle := lines_prefix hash (pre ++ [body]) post
  rw [List.append_assoc, List.singleton_append] at hle
  exact hle.subset (by rw [hlines]; exact List.mem_append_right _ hline)

/-- An email that is the column of a line is not accepted again. -/
theorem not_accepted_of_column {pre : List Str} {body name password email line : Str}
    (hline : line ∈ linesOf (signupStrings hash pre)) (hcolumn : column line = some email)
    (hfields : fields body = [name, password, email]) : ¬ Accepted hash pre body := fun h =>
  (lines_accepted h hfields).1 line hline (mark_of_column hcolumn)

/-- An email with a line break is always accepted. -/
theorem accepted_of_newline (hash : PasswordHash) {body name password email : Str}
    (hfields : fields body = [name, password, email]) (he : '\n' ∈ email) (pre : List Str) :
    Accepted hash pre body := by
  rw [Accepted, signupString, hfields]
  simp only
  rw [signup_eq]
  cases hscan : scan email (linesOf (signupStrings hash pre)) 0 with
  | some numUsers => rfl
  | none =>
    -- A line that the email is the mark of would have a line break in it.
    obtain ⟨line, hline, hmark⟩ := scan_eq_none.mp hscan
    exact absurd ((sublist_of_mark hmark).subset he) (newline_not_mem_lines hline)

/-- The record of an accepted sign-up, and the lines of the database behind it and further calls. -/
theorem Accepted.lines {pre : List Str} {body name password email : Str}
    (h : Accepted hash pre body) (hfields : Profile.fields body = [name, password, email]) :
    ∃ userId, (intMin ≤ userId ∧ userId ≤ intMax) ∧
      signupStrings hash (pre ++ [body]) = some ((signupStrings hash pre).getD [] ++
        (record userId email name (hash.hashPass password) ++ ['\n'])) ∧
      ∀ post, ∃ lines, linesOf (signupStrings hash (pre ++ body :: post)) =
        linesOf (signupStrings hash pre) ++
          ((record userId email name (hash.hashPass password)).splitOn '\n' ++ lines) := by
  obtain ⟨-, userId, hrange, hcontent, hlines⟩ := lines_accepted h hfields
  refine ⟨userId, hrange, hcontent, fun post => ?_⟩
  obtain ⟨lines, hle⟩ := lines_prefix hash (pre ++ [body]) post
  refine ⟨lines, ?_⟩
  rw [← List.append_assoc, ← hlines, hle, List.append_assoc, List.singleton_append]

/-- Lines whose column is another are passed over. -/
theorem findSome_eq_none {email : Str} {lines : List Str}
    (h : ∀ line ∈ lines, Profile.column line ≠ some email) (password : Str) :
    lines.findSome? (loginLine hash email password) = none :=
  List.findSome?_eq_none_iff.mpr fun line hline => loginLine_eq_none.mpr (h line hline)

/-- A hash is not read from the start of a line whose first separator is among 64 characters. -/
theorem hash_ne_take (hash : PasswordHash) (password : Str) {a r : Str} (h : a.length < 64) :
    hash.hashPass password ≠ (a ++ '|' :: r).take 64 := fun heq => by
  obtain ⟨k, hk⟩ : ∃ k, 64 - a.length = k + 1 := ⟨63 - a.length, by omega⟩
  have hmem : '|' ∈ (a ++ '|' :: r).take 64 := by
    rw [List.take_append, hk]
    simp
  exact hash.bar_not_mem password (heq ▸ hmem)

/-- What `login` finds in the lines of a record whose email has no line break. -/
theorem findSome_record {userId : ℤ} {email name password : Str} (hbar : '|' ∉ email)
    (hname : '|' ∉ name) (he : '\n' ∉ email) (hrange : intMin ≤ userId ∧ userId ≤ intMax)
    (password' : Str) :
    ((record userId email name (hash.hashPass password)).splitOn '\n').findSome?
        (loginLine hash email password') =
      if '\n' ∉ name ∧ hash.hashPass password' = hash.hashPass password then
        some (.ok (true, ⟨userId, name, email, true⟩))
      else some (.ok (false, ⟨-1, [], [], false⟩)) := by
  by_cases hn : '\n' ∈ name
  · -- The record is cut in its name, so the hash is read from the number of its first line.
    obtain ⟨n₀, n₁, rfl, hn₀⟩ := List.eq_append_cons_of_mem hn
    have hn₁ : '|' ∉ n₁ := fun h => hname (by simp [h])
    have hbar₀ : '|' ∉ n₀ := fun h => hname (by simp [h])
    obtain ⟨lines, hlines, -⟩ := splitOn_record_name userId he hn₀ hn₁
      (hash.bar_not_mem password)
    have hne := hash_ne_take hash password' (a := decimal userId) (r := email ++ '|' :: n₀)
      (Nat.lt_of_le_of_lt (length_decimal_le hrange.1 hrange.2) (by decide))
    rw [hlines, List.findSome?_cons, loginLine_two (bar_not_mem_decimal _) hbar hbar₀,
      if_neg hne, if_neg (by simp)]
  · have hpass : (hash.hashPass password).take 64 = hash.hashPass password :=
      List.take_of_length_le (hash.length_hashPass password).le
    rw [splitOn_record he hn (hash.newline_not_mem _), List.findSome?_singleton, record,
      loginLine_three (bar_not_mem_decimal _) hbar hname, hpass, stoi_decimal hrange.1 hrange.2]
    simp [hn, Except.map]

/-! ## Emails are unique -/

/-- No two calls that return `true` carry the same email. -/
def EmailsUnique (hash : PasswordHash) (bodies : List Str) : Prop :=
  ∀ pre body₁ mid body₂ post name₁ password₁ name₂ password₂ email,
    bodies = pre ++ body₁ :: (mid ++ body₂ :: post) →
    fields body₁ = [name₁, password₁, email] → fields body₂ = [name₂, password₂, email] →
    Accepted hash pre body₁ → ¬ Accepted hash (pre ++ body₁ :: mid) body₂

/-- Two of the bodies carry the same email, with a line break in it. -/
def RepeatsBrokenEmail (bodies : List Str) : Prop :=
  ∃ pre body₁ mid body₂ post name₁ password₁ name₂ password₂ email,
    bodies = pre ++ body₁ :: (mid ++ body₂ :: post) ∧
    fields body₁ = [name₁, password₁, email] ∧ fields body₂ = [name₂, password₂, email] ∧
    '\n' ∈ email

/-- Emails are unique, unless two bodies carry the same email with a line break in it. -/
theorem emailsUnique_iff (hash : PasswordHash) (bodies : List Str) :
    EmailsUnique hash bodies ↔ ¬ RepeatsBrokenEmail bodies := by
  constructor
  · rintro hunique ⟨pre, body₁, mid, body₂, post, n₁, p₁, n₂, p₂, email, hbodies, h₁, h₂, he⟩
    exact hunique pre body₁ mid body₂ post n₁ p₁ n₂ p₂ email hbodies h₁ h₂
      (accepted_of_newline hash h₁ he _) (accepted_of_newline hash h₂ he _)
  · -- Without a line break the first of the two calls writes a line that the second one finds.
    intro hrepeat pre body₁ mid body₂ post n₁ p₁ n₂ p₂ email hbodies h₁ h₂ haccept
    by_cases he : '\n' ∈ email
    · exact absurd ⟨pre, body₁, mid, body₂, post, n₁, p₁, n₂, p₂, email, hbodies, h₁, h₂, he⟩
        hrepeat
    · obtain ⟨line, hline, hcolumn⟩ := haccept.column h₁ he mid
      exact not_accepted_of_column hline hcolumn h₂

/-- A password hash that is right for the password `password`. -/
def sampleHash : PasswordHash where
  hashPass _ := "5e884898da28047151d0e56f8dc6292773603d0d6aabbdd62a11ef721d1542d8".toList
  length_hashPass _ := by decide
  bar_not_mem _ := by decide
  newline_not_mem _ := by decide

/-- Two accounts for one email, with a line break in it. -/
theorem not_emailsUnique : ¬ ∀ hash bodies, EmailsUnique hash bodies := fun h =>
  h sampleHash ["a|pw|e\nx".toList, "b|pw|e\nx".toList] [] "a|pw|e\nx".toList []
    "b|pw|e\nx".toList [] "a".toList "pw".toList "b".toList "pw".toList "e\nx".toList
    rfl rfl rfl rfl rfl

/-! ## Accounts can log in -/

/-- Behind a call that returns `true`, and behind every call after it, `login` with the email and
the password succeeds, with the id that was written, the name and the email. -/
def LoginComplete (hash : PasswordHash) (bodies : List Str) : Prop :=
  ∀ pre body post name password email, bodies = pre ++ body :: post →
    fields body = [name, password, email] → Accepted hash pre body →
    ∃ userId, signupStrings hash (pre ++ [body]) = some ((signupStrings hash pre).getD [] ++
        (record userId email name (hash.hashPass password) ++ ['\n'])) ∧
      ∀ mid, mid <+: post → login hash (signupStrings hash (pre ++ body :: mid)) email password =
        .ok (true, ⟨userId, name, email, true⟩)

/-- What `login` finds behind an accepted sign-up whose email has no line break. -/
theorem Accepted.findSome {pre : List Str} {body name password email : Str}
    (h : Accepted hash pre body) (hfields : Profile.fields body = [name, password, email])
    (he : '\n' ∉ email) :
    ∃ userId, signupStrings hash (pre ++ [body]) = some ((signupStrings hash pre).getD [] ++
        (record userId email name (hash.hashPass password) ++ ['\n'])) ∧
      ∀ post password', (linesOf (signupStrings hash (pre ++ body :: post))).findSome?
          (loginLine hash email password') =
        if '\n' ∉ name ∧ hash.hashPass password' = hash.hashPass password then
          some (.ok (true, ⟨userId, name, email, true⟩))
        else some (.ok (false, ⟨-1, [], [], false⟩)) := by
  obtain ⟨hname, hbar⟩ := bar_not_mem_of_fields hfields
  obtain ⟨userId, hrange, hcontent, hpost⟩ := h.lines hfields
  refine ⟨userId, hcontent, fun post password' => ?_⟩
  obtain ⟨lines, hlines⟩ := hpost post
  have hbefore : ∀ line ∈ linesOf (signupStrings hash pre), Profile.column line ≠ some email :=
    fun line hline hcolumn => (lines_accepted h hfields).1 line hline (mark_of_column hcolumn)
  -- The first line with the email as its column is one of this record.
  rw [hlines, List.findSome?_append, findSome_eq_none hbefore, List.findSome?_append,
    findSome_record hbar hname he hrange]
  split <;> rfl

/-- The email of a successful login is the column of a line. -/
theorem exists_column_of_login {database : Option Str} {email password : Str}
    {profile : UserProfile} (h : login hash database email password = .ok (true, profile)) :
    ∃ line ∈ linesOf database, column line = some email := by
  by_contra hnot
  rw [login_eq_true, findSome_eq_none fun line hline hcolumn => hnot ⟨line, hline, hcolumn⟩] at h
  cases h

/-- Nobody logs in with an email that has a line break. -/
theorem newline_not_mem_of_login {database : Option Str} {email password : Str}
    {profile : UserProfile} (h : login hash database email password = .ok (true, profile)) :
    '\n' ∉ email := fun he => by
  obtain ⟨line, hline, hcolumn⟩ := exists_column_of_login h
  exact newline_not_mem_lines hline ((sublist_of_mark (mark_of_column hcolumn)).subset he)

/-- Every account can log in, unless its email or its name has a line break. -/
theorem loginComplete_iff (hash : PasswordHash) (bodies : List Str) :
    LoginComplete hash bodies ↔
      ∀ pre body post name password email, bodies = pre ++ body :: post →
        fields body = [name, password, email] → Accepted hash pre body →
        '\n' ∉ name ∧ '\n' ∉ email := by
  constructor
  · intro hcomplete pre body post name password email hbodies hfields haccept
    obtain ⟨userId, -, hlogin⟩ :=
      hcomplete pre body post name password email hbodies hfields haccept
    have hlogin := hlogin [] List.nil_prefix
    have he := newline_not_mem_of_login hlogin
    obtain ⟨_, -, hfind⟩ := haccept.findSome hfields he
    rw [login_eq_true, hfind] at hlogin
    split at hlogin
    · next h => exact ⟨h.1, he⟩
    · cases hlogin
  · intro hplain pre body post name password email hbodies hfields haccept
    obtain ⟨hn, he⟩ := hplain pre body post name password email hbodies hfields haccept
    obtain ⟨userId, hcontent, hfind⟩ := haccept.findSome hfields he
    refine ⟨userId, hcontent, fun mid _ => ?_⟩
    rw [login_eq_true, hfind, if_pos ⟨hn, rfl⟩]

/-- An account that cannot log in: its name has a line break. -/
theorem not_loginComplete : ¬ ∀ hash bodies, LoginComplete hash bodies := fun h => by
  obtain ⟨userId, -, hlogin⟩ := h sampleHash ["na\nme|pw|e@x".toList] [] "na\nme|pw|e@x".toList []
    "na\nme".toList "pw".toList "e@x".toList rfl rfl rfl
  have hfalse : login sampleHash (signupStrings sampleHash ["na\nme|pw|e@x".toList]) "e@x".toList
      "pw".toList = .ok (false, ⟨-1, [], [], false⟩) := rfl
  have htrue := hlogin [] List.nil_prefix
  rw [List.nil_append, hfalse] at htrue
  cases htrue

/-! ## Logins are logins of accounts -/

/-- A login succeeds only with the email of an earlier call that returned `true`, and with a
password that has the same hash as the one of that call. -/
def LoginSound (hash : PasswordHash) (bodies : List Str) : Prop :=
  ∀ email password profile,
    login hash (signupStrings hash bodies) email password = .ok (true, profile) →
    ∃ pre body post name password', bodies = pre ++ body :: post ∧ Accepted hash pre body ∧
      fields body = [name, password', email] ∧ hash.hashPass password' = hash.hashPass password

/-- The sign-up `body` forges an account behind the calls with `pre`: its email has a line break,
the part behind the last one starts with the hash of a password and with a number, and its name has
no line break and is the column of no line. The last line of its record is then taken for the record
of an account with the name as its email. -/
def Forges (hash : PasswordHash) (pre : List Str) (body : Str) : Prop :=
  ∃ name password e₀ c stolen userId, fields body = [name, password, e₀ ++ '\n' :: c] ∧ '\n' ∉ c ∧
    '\n' ∉ name ∧ hash.hashPass stolen = c.take 64 ∧ stoi c = .ok userId ∧
    ∀ line ∈ linesOf (signupStrings hash pre), column line ≠ some name

/-- The columns of the lines of a record whose email has no line break: the email, or none. -/
theorem column_record {userId : ℤ} {email name password line : Str} (hbar : '|' ∉ email)
    (hname : '|' ∉ name) (he : '\n' ∉ email)
    (hline : line ∈ (record userId email name (hash.hashPass password)).splitOn '\n') :
    column line = some email ∨ column line = none := by
  by_cases hn : '\n' ∈ name
  · obtain ⟨n₀, n₁, rfl, hn₀⟩ := List.eq_append_cons_of_mem hn
    have hn₁ : '|' ∉ n₁ := fun h => hname (by simp [h])
    obtain ⟨lines, hlines, hnone⟩ := splitOn_record_name userId he hn₀ hn₁
      (hash.bar_not_mem password)
    rw [hlines] at hline
    rcases List.mem_cons.mp hline with rfl | hline
    · exact .inl (column_two (bar_not_mem_decimal _) hbar)
    · exact .inr (hnone line hline)
  · rw [splitOn_record he hn (hash.newline_not_mem _), List.mem_singleton] at hline
    rw [hline]
    exact .inl (column_two (bar_not_mem_decimal _) hbar)

/-- A login that succeeds with a line of a record whose email has no line break is one of its
account. -/
theorem login_record_plain {userId : ℤ} {e n p email password : Str} {profile : UserProfile}
    (hbar : '|' ∉ e) (hname : '|' ∉ n) (he : '\n' ∉ e) (hrange : intMin ≤ userId ∧ userId ≤ intMax)
    (h : ((record userId e n (hash.hashPass p)).splitOn '\n').findSome?
      (loginLine hash email password) = some (.ok (true, profile))) :
    email = e ∧ hash.hashPass p = hash.hashPass password := by
  have hemail : email = e := by
    by_contra hne
    rw [findSome_eq_none] at h
    · cases h
    · intro line hline
      rcases column_record hbar hname he hline with hcolumn | hcolumn
      · rw [hcolumn]
        exact fun heq => hne (Option.some.inj heq).symm
      · simp [hcolumn]
  subst hemail
  rw [findSome_record hbar hname he hrange] at h
  split at h
  · next hcond => exact ⟨rfl, hcond.2.symm⟩
  · cases h

/-- A login that succeeds with a line of a record whose email has a line break is one with its name,
and with a hash that its email carries. -/
theorem login_record_broken {userId : ℤ} {e n p email password : Str} {profile : UserProfile}
    (hbar : '|' ∉ e) (hname : '|' ∉ n) (he : '\n' ∈ e)
    (h : ((record userId e n (hash.hashPass p)).splitOn '\n').findSome?
      (loginLine hash email password) = some (.ok (true, profile))) :
    ∃ e₀ c forged, e = e₀ ++ '\n' :: c ∧ '\n' ∉ c ∧ '\n' ∉ n ∧ email = n ∧
      hash.hashPass password = c.take 64 ∧ stoi c = .ok forged := by
  -- `c` is what stands behind the last line break of the email.
  obtain ⟨⟨e₀, c⟩, hsplit⟩ := Option.ne_none_iff_exists'.mp fun h => splitLast_eq_none.mp h he
  obtain ⟨rfl, hc⟩ := splitLast_eq_some.mp hsplit
  have he₀ : '|' ∉ e₀ := fun h => hbar (by simp [h])
  have hcbar : '|' ∉ c := fun h => hbar (by simp [h])
  by_cases hn : '\n' ∈ n
  · obtain ⟨n₀, n₁, rfl, -⟩ := List.eq_append_cons_of_mem hn
    have hn₀ : '|' ∉ n₀ := fun h => hname (by simp [h])
    have hn₁ : '|' ∉ n₁ := fun h => hname (by simp [h])
    rw [findSome_eq_none fun line hline => by
      simp [splitOn_record_both he₀ hcbar hn₀ hn₁ (hash.bar_not_mem p) hline]] at h
    cases h
  · obtain ⟨lines, hlines, hnone⟩ := splitOn_record_email userId he₀ hc hn (hash.newline_not_mem p)
    rw [hlines, List.findSome?_append,
      findSome_eq_none fun line hline => by simp [hnone line hline], Option.none_or,
      List.findSome?_singleton] at h
    have hemail : email = n := by
      by_contra hne
      rw [loginLine_eq_none.mpr] at h
      · cases h
      · rw [column_two hcbar hname]
        exact fun heq => hne (Option.some.inj heq).symm
    subst hemail
    rw [loginLine_two hcbar hname (hash.bar_not_mem p)] at h
    split at h
    · next hhash =>
      -- The 64 bytes that are compared have no separator, so all of them are in the email.
      have hlen : 64 ≤ c.length := by
        by_contra hlt
        exact hash_ne_take hash password (by omega) hhash
      rw [List.take_append_of_le_length hlen] at hhash
      cases hstoi : stoi c with
      | error _ => simp [hstoi, Except.map] at h
      | ok forged => exact ⟨e₀, c, forged, rfl, hc, hn, rfl, hhash, hstoi⟩
    · cases h

/-- Behind a forging sign-up, and behind every call after it, the forged account can log in. -/
theorem Forges.login {pre : List Str} {body : Str} (h : Forges hash pre body) :
    ∃ name password email stolen, fields body = [name, password, email] ∧ '\n' ∈ email ∧
      '\n' ∉ name ∧ (∀ line ∈ linesOf (signupStrings hash pre), column line ≠ some name) ∧
      ∀ post, ∃ profile, Profile.login hash (signupStrings hash (pre ++ body :: post)) name stolen =
        .ok (true, profile) := by
  obtain ⟨name, password, e₀, c, stolen, userId, hfields, hc, hn, hhash, hstoi, hnone⟩ := h
  have hbar : ∀ s ∈ [name, password, e₀ ++ '\n' :: c], '|' ∉ s := fun s hs =>
    bar_not_mem_fields (hfields ▸ hs)
  have hname : '|' ∉ name := hbar name (by simp)
  have he₀ : '|' ∉ e₀ := fun h => hbar (e₀ ++ '\n' :: c) (by simp) (by simp [h])
  have hcbar : '|' ∉ c := fun h => hbar (e₀ ++ '\n' :: c) (by simp) (by simp [h])
  have haccept := accepted_of_newline hash hfields (by simp) pre
  obtain ⟨id, -, -, hpost⟩ := haccept.lines hfields
  refine ⟨name, password, e₀ ++ '\n' :: c, stolen, hfields, by simp, hn, hnone, fun post =>
    ⟨⟨userId, hash.hashPass password, name, true⟩, ?_⟩⟩
  obtain ⟨lines, hlines⟩ := hpost post
  obtain ⟨before, hrecord, hbefore⟩ := splitOn_record_email id
    he₀ hc hn (hash.newline_not_mem password)
  have hlen : 64 ≤ c.length := by
    have := hash.length_hashPass stolen
    rw [hhash, List.length_take] at this
    omega
  have hforged : loginLine hash name stolen (c ++ '|' :: (name ++ '|' :: hash.hashPass password)) =
      some (.ok (true, ⟨userId, hash.hashPass password, name, true⟩)) := by
    rw [loginLine_two hcbar hname (hash.bar_not_mem password),
      List.take_append_of_le_length hlen, if_pos hhash, hstoi]
    rfl
  -- No line in front of the forged one has the name as its column.
  rw [login_eq_true, hlines, hrecord, List.findSome?_append, findSome_eq_none hnone,
    Option.none_or, List.findSome?_append, List.findSome?_append,
    findSome_eq_none fun line hline => by simp [hbefore line hline], Option.none_or,
    List.findSome?_singleton, hforged]
  rfl

/-- No call with the name of a forging sign-up as its email returns `true`: the earlier ones have
left no line with it, and the later ones are refused for the forged line. -/
theorem Forges.not_loginSound_append {pre : List Str} {body : Str} (h : Forges hash pre body)
    (post : List Str) : ¬ LoginSound hash (pre ++ body :: post) := fun hsound => by
  obtain ⟨name, password, email, stolen, hfields, he, hn, hnone, hpost⟩ := h.login
  obtain ⟨profile, hlogin⟩ := hpost post
  obtain ⟨pre', body', post', name', password', hbodies, haccept, hfields', -⟩ :=
    hsound _ _ _ hlogin
  have hother : body' ≠ body := by
    rintro rfl
    rw [hfields] at hfields'
    obtain ⟨-, -, rfl⟩ : name = name' ∧ password = password' ∧ email = name := by
      simpa using hfields'
    exact hn he
  rcases List.append_eq_append_iff.mp hbodies with ⟨mid, rfl, hmid⟩ | ⟨mid, rfl, hmid⟩
  · cases mid with
    | nil => exact hother (List.cons.inj hmid).1.symm
    | cons b mid =>
      -- A later call: the forged line has its email as its column.
      obtain ⟨rfl, -⟩ := List.cons.inj hmid
      obtain ⟨_, hmid⟩ := hpost mid
      obtain ⟨line, hline, hcolumn⟩ := exists_column_of_login hmid
      exact not_accepted_of_column hline hcolumn hfields' haccept
  · cases mid with
    | nil => exact hother (List.cons.inj hmid).1
    | cons b mid =>
      -- An earlier call: it has written a line with its email as its column.
      obtain ⟨rfl, -⟩ := List.cons.inj hmid
      obtain ⟨line, hline, hcolumn⟩ := haccept.column hfields' hn mid
      exact hnone line hline hcolumn

/-- A login that is one of an account stays one when calls are added. -/
theorem LoginSound.concat {bodies : List Str} {body : Str} (h : LoginSound hash bodies)
    (hforges : ¬ Forges hash bodies body) : LoginSound hash (bodies ++ [body]) := by
  intro email password profile hlogin
  -- The login succeeds with a line that was there before, or with one of the new record.
  have hold : login hash (signupStrings hash bodies) email password = .ok (true, profile) →
      ∃ pre b post n p, bodies ++ [body] = pre ++ b :: post ∧ Accepted hash pre b ∧
        fields b = [n, p, email] ∧ hash.hashPass p = hash.hashPass password := fun hold => by
    obtain ⟨pre, b, post, n, p, rfl, haccount⟩ := h _ _ _ hold
    exact ⟨pre, b, post ++ [body], n, p, by simp, haccount⟩
  by_cases haccept : Accepted hash bodies body
  · obtain ⟨n, p, e, hfields⟩ := haccept.fields
    obtain ⟨hname, hbar⟩ := bar_not_mem_of_fields hfields
    obtain ⟨-, userId, hrange, -, hlines⟩ := lines_accepted haccept hfields
    rw [login_eq_true, hlines, List.findSome?_append] at hlogin
    cases hfind : (linesOf (signupStrings hash bodies)).findSome?
        (loginLine hash email password) with
    | some result =>
      rw [hfind, Option.some_or] at hlogin
      exact hold (login_eq_true.mpr (hfind.trans hlogin))
    | none =>
      rw [hfind, Option.none_or] at hlogin
      by_cases he : '\n' ∈ e
      · obtain ⟨e₀, c, forged, rfl, hc, hn, rfl, hhash, hstoi⟩ :=
          login_record_broken hbar hname he hlogin
        refine absurd ?_ hforges
        exact ⟨_, p, e₀, c, password, forged, hfields, hc, hn, hhash, hstoi, fun line hline =>
          loginLine_eq_none.mp (List.findSome?_eq_none_iff.mp hfind line hline)⟩
      · obtain ⟨rfl, hhash⟩ := login_record_plain hbar hname he hrange hlogin
        exact ⟨bodies, body, [], n, p, rfl, haccept, hfields, hhash⟩
  · rw [signupStrings_rejected haccept] at hlogin
    exact hold hlogin

/-- Without a line break in the emails of the sign-ups, the logins of a database are those of its
accounts. -/
theorem loginSound_of_plain (hash : PasswordHash) {bodies : List Str}
    (h : ∀ body ∈ bodies, ∀ name password email, fields body = [name, password, email] →
      '\n' ∉ email) : LoginSound hash bodies := by
  induction bodies using List.reverseRecOn with
  | nil =>
    intro email password profile hlogin
    simp [login, signupStrings] at hlogin
  | append_singleton bodies body ih =>
    refine (ih fun b hb => h b (by simp [hb])).concat ?_
    rintro ⟨name, password, e₀, c, stolen, userId, hfields, -⟩
    exact h body (by simp) name password _ hfields (by simp)

/-- Login is sound, unless one of the sign-ups forges an account. -/
theorem loginSound_iff (hash : PasswordHash) (bodies : List Str) :
    LoginSound hash bodies ↔
      ∀ pre body post, bodies = pre ++ body :: post → ¬ Forges hash pre body := by
  constructor
  · rintro hsound pre body post rfl hforges
    exact hforges.not_loginSound_append post hsound
  · intro hnot
    induction bodies using List.reverseRecOn with
    | nil =>
      intro email password profile h
      simp [login, signupStrings] at h
    | append_singleton bodies body ih =>
      refine LoginSound.concat (ih fun pre b post hbodies => ?_) (hnot bodies body [] rfl)
      exact hnot pre b (post ++ [body]) (by simp [hbodies])

/-- A sign-up that forges an account for `victim@x`. -/
def forgingBody : Str :=
  "victim@x|password|A\n5e884898da28047151d0e56f8dc6292773603d0d6aabbdd62a11ef721d1542d8".toList

/-- Its fields: behind the line break the email is the hash of `password`. -/
theorem fields_forgingBody : fields forgingBody = ["victim@x".toList, "password".toList,
    "A".toList ++ '\n' :: sampleHash.hashPass "password".toList] := by
  decide +kernel

/-- A login to an account that nobody signed up for. -/
theorem not_loginSound : ¬ ∀ hash bodies, LoginSound hash bodies := fun h => by
  have hforges : Forges sampleHash [] forgingBody :=
    ⟨_, _, _, _, "password".toList, 5, fields_forgingBody, by decide, by decide, by decide, by rfl,
      by simp [signupStrings, linesOf]⟩
  obtain ⟨name, password, email, stolen, hfields, he, hn, -, hpost⟩ := hforges.login
  obtain ⟨profile, hlogin⟩ := hpost []
  obtain ⟨pre, body, post, name', password', hbodies, -, hfields', -⟩ := h _ _ _ _ _ hlogin
  obtain ⟨-, rfl, -⟩ : pre = [] ∧ body = forgingBody ∧ post = [] := by
    simpa [List.singleton_eq_append_iff, and_assoc] using hbodies
  rw [hfields] at hfields'
  obtain ⟨-, -, rfl⟩ : name = name' ∧ password = password' ∧ email = name := by
    simpa using hfields'
  exact hn he

end CrazyCode.Profile
