import CrazyCode.Profile.Accounts

/-!
# The emails of the database

`emailExists` is `profile_manager::email_exists` of `src/profile_manager.cc`, which a client asks
before a verification mail is sent, and which scans the file with a loop of its own. It looks at the
same part of a line as `signup` does, the `mark`, and skips the same lines, so the two agree on
every file (`emailExists_iff_signup`).

Behind a sign-up the email is there (`emailExists_of_signup`), if it is one that stays in one piece:
the file ends where a line can begin, and the email has neither a separator nor a line break.
-/

namespace CrazyCode.Profile

open Text Decimal

/-- The loop of `email_exists` over the lines of the file. -/
def hasEmail (email : Str) : List Str → Bool
  | [] => false
  | line :: lines =>
    match find line '|' 0 with
    | none => hasEmail email lines
    | some idEnd =>
      let emailEnd := find line '|' (idEnd + 1)
      let dbEmail := substr line (idEnd + 1) (span (idEnd + 1) emailEnd)
      if email = dbEmail then true else hasEmail email lines

/-- `profile_manager::email_exists`. -/
def emailExists (database : Option Str) (email : Str) : Bool :=
  match database with
  | some content => hasEmail email (pieces '\n' content)
  | none => false

/-- The loop finds the emails that are the mark of a line. -/
theorem hasEmail_iff {email : Str} {lines : List Str} :
    hasEmail email lines = true ↔ ∃ line ∈ lines, mark line = some email := by
  induction lines with
  | nil => simp [hasEmail]
  | cons line lines ih =>
    rw [hasEmail]
    simp only [List.mem_cons, exists_eq_or_imp]
    cases hid : find line '|' 0 with
    | none =>
      have hmark : mark line = none := by simp [mark, hid]
      simpa [hmark] using ih
    | some idEnd =>
      have hmark : mark line =
          some (substr line (idEnd + 1) (span (idEnd + 1) (find line '|' (idEnd + 1)))) := by
        simp [mark, hid]
      by_cases heq : email = substr line (idEnd + 1) (span (idEnd + 1) (find line '|' (idEnd + 1)))
      · simp [hmark, ← heq]
      · simpa [hmark, heq, Ne.symm heq] using ih

/-- The emails of the database are the marks of its lines. -/
theorem emailExists_iff {database : Option Str} {email : Str} :
    emailExists database email = true ↔ ∃ line ∈ linesOf database, mark line = some email := by
  cases database with
  | none => simp [emailExists, linesOf]
  | some content => exact hasEmail_iff

variable {hash : PasswordHash}

/-- `signup` writes a record behind the database, or refuses an email that is there. -/
theorem signup_cases (hash : PasswordHash) (database : Option Str) (email name password : Str) :
    (emailExists database email = true ∧
      signup hash database email name password = (false, database)) ∨
    (emailExists database email = false ∧ ∃ userId,
      signup hash database email name password = (true, some (database.getD [] ++
        (record userId email name (hash.hashPass password) ++ ['\n'])))) := by
  rw [signup_eq]
  cases hscan : scan email (linesOf database) 0 with
  | none => exact .inl ⟨emailExists_iff.mpr (scan_eq_none.mp hscan), rfl⟩
  | some numUsers =>
    refine .inr ⟨?_, _, rfl⟩
    rw [Bool.eq_false_iff, Ne, emailExists_iff, ← scan_eq_none, hscan]
    simp

/-- The first line of a record with an email in one piece has the email as its mark. -/
theorem exists_mark_record (hash : PasswordHash) (userId : ℤ) {email : Str} (name password : Str)
    (hbar : '|' ∉ email) (hnewline : '\n' ∉ email) :
    ∃ line ∈ (record userId email name (hash.hashPass password)).splitOn '\n',
      mark line = some email := by
  -- The line ends where the record does, or at the first line break of the name.
  have hmark : ∀ r, mark (decimal userId ++ '|' :: (email ++ '|' :: r)) = some email := fun r =>
    mark_two (bar_not_mem_decimal userId) hbar
  by_cases hn : '\n' ∈ name
  · obtain ⟨n₀, n₁, rfl, hn₀⟩ := List.eq_append_cons_of_mem hn
    have hrecord : record userId email (n₀ ++ '\n' :: n₁) (hash.hashPass password) =
        (decimal userId ++ '|' :: (email ++ '|' :: n₀)) ++
          '\n' :: (n₁ ++ '|' :: hash.hashPass password) := by
      simp [record]
    rw [hrecord, List.splitOn_append_cons_self_of_not_mem
      (by simp [newline_not_mem_decimal, hnewline, hn₀])]
    exact ⟨_, List.mem_cons_self, hmark _⟩
  · rw [splitOn_record hnewline hn (hash.newline_not_mem password)]
    exact ⟨_, List.mem_singleton_self _, hmark _⟩

/-- The database is missing or empty, or ends with a line break. -/
def EndsLine (database : Option Str) : Prop :=
  database = none ∨ database = some [] ∨ ∃ s, database = some (s ++ ['\n'])

/-- What is written behind such a database is read as lines of its own. -/
theorem EndsLine.linesOf_append {database : Option Str} (h : EndsLine database) (s : Str) :
    linesOf (some (database.getD [] ++ (s ++ ['\n']))) = linesOf database ++ s.splitOn '\n' := by
  rcases h with rfl | rfl | ⟨t, rfl⟩
  · exact Profile.linesOf_append closed_none s
  · -- An empty file is read like a missing one.
    exact Profile.linesOf_append closed_none s
  · refine Profile.linesOf_append ?_ s
    rintro content ⟨⟩
    exact ⟨t, rfl⟩

/-- Behind a sign-up the email is there, if it is in one piece. -/
theorem emailExists_of_signup {database : Option Str} (h : EndsLine database) {email : Str}
    (hbar : '|' ∉ email) (hnewline : '\n' ∉ email) (name password : Str)
    (haccept : (signup hash database email name password).1 = true) :
    emailExists (signup hash database email name password).2 email = true := by
  rcases signup_cases hash database email name password with ⟨-, hsignup⟩ | ⟨-, userId, hsignup⟩
  · rw [hsignup] at haccept
    cases haccept
  · obtain ⟨line, hline, hmark⟩ := exists_mark_record hash userId name password hbar hnewline
    rw [hsignup, emailExists_iff, h.linesOf_append]
    exact ⟨line, List.mem_append_right _ hline, hmark⟩

/-- `email_exists` and `signup` agree on every database: an email is there exactly if it is refused.
A refusal leaves the file as it is, and a record is written behind the file; the email is there
then, if it is in one piece. -/
theorem emailExists_iff_signup (hash : PasswordHash) (database : Option Str)
    (email name password : Str) :
    (emailExists database email = true ↔
      (signup hash database email name password).1 = false) ∧
    ((signup hash database email name password).1 = false →
      (signup hash database email name password).2 = database) ∧
    ((signup hash database email name password).1 = true →
      ∃ content, (signup hash database email name password).2 = some content ∧
        database.getD [] <+: content) ∧
    (EndsLine database → '|' ∉ email → '\n' ∉ email →
      (signup hash database email name password).1 = true →
      emailExists (signup hash database email name password).2 email = true) := by
  have hthere : EndsLine database → '|' ∉ email → '\n' ∉ email →
      (signup hash database email name password).1 = true →
      emailExists (signup hash database email name password).2 email = true :=
    fun h hbar hnewline haccept => emailExists_of_signup h hbar hnewline name password haccept
  rcases signup_cases hash database email name password with ⟨hemail, hsignup⟩ |
    ⟨hemail, userId, hsignup⟩
  · refine ⟨by simp [hemail, hsignup], by simp [hsignup], by simp [hsignup], hthere⟩
  · refine ⟨by simp [hemail, hsignup], by simp [hsignup], fun _ => ?_, hthere⟩
    rw [hsignup]
    exact ⟨_, rfl, List.prefix_append _ _⟩

/-- Behind the first sign-up its email is there. -/
theorem emailExists_iff_signup_first :
    emailExists (signup sampleHash none "a@b".toList "n".toList "p".toList).2 "a@b".toList = true :=
  (emailExists_iff_signup sampleHash none "a@b".toList "n".toList "p".toList).2.2.2 (.inl rfl)
    (by decide) (by decide) rfl

end CrazyCode.Profile
