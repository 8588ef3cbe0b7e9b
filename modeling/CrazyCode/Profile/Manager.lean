import CrazyCode.Library.Decimal
import CrazyCode.Library.Outcome

/-!
# The profile manager

`signupString`, `signup`, `login` and `updateCookie` are the functions of `profile_manager` in
`src/profile_manager.cc`. The user database is one text file, with a record for each account:
`id|email|name|hash`, and a line break behind it. `none` is a missing file. A write to the file
succeeds.

A body is split into its fields by a loop over the positions of the separator (`fields`), and what
the loop yields are the pieces of the body (`fields_eq`). Positions are natural numbers: no request
body is as long as the greatest `int`.

A line of the file is looked at through two columns. `column` is what `login` compares with an
email: the text between the first two separators. `mark` is what `signup` compares with it: the text
behind the first separator, up to the second one if there is one. `login` passes over the lines
whose column is another (`loginLine_eq_none`), and `signup` refuses an email that is the mark of a
line (`scan_eq_none`).
-/

namespace CrazyCode.Profile

open Text Decimal Outcome

/-- `user_profile`. -/
structure UserProfile where
  userId : ℤ
  username : Str
  email : Str
  loginStatus : Bool
deriving DecidableEq

/-- `profile_manager::hash_pass`, of which only the shape of its values is used: 64 characters,
with no separator and no line break among them. -/
structure PasswordHash where
  hashPass : Str → Str
  length_hashPass : ∀ password, (hashPass password).length = 64
  bar_not_mem : ∀ password, '|' ∉ hashPass password
  newline_not_mem : ∀ password, '\n' ∉ hashPass password

/-! ## Splitting a body -/

/-- The loop that splits a string at its separators, from the position `start`, with a bound on its
rounds. -/
def fieldsFrom (data : Str) : ℕ → ℕ → List Str
  | 0, _ => []
  | rounds + 1, start =>
    match find data '|' start with
    -- `substr(start, end - start)`, and the next round starts behind the separator.
    | some stop => substr data start (some (stop - start)) :: fieldsFrom data rounds (stop + 1)
    | none => if start < data.length then [substr data start (some data.length)] else []

/-- The fields of a string. -/
def fields (data : Str) : List Str := fieldsFrom data (data.length + 1) 0

/-- The loop reads the pieces of the rest of the string. -/
theorem fieldsFrom_eq (a s : Str) {rounds : ℕ} (h : s.length < rounds) :
    fieldsFrom (a ++ s) rounds a.length = pieces '|' s := by
  induction rounds generalizing a s with
  | zero => simp at h
  | succ rounds ih =>
    by_cases hs : '|' ∈ s
    · -- One round reads the first piece, and leaves the loop behind its separator.
      obtain ⟨b, r, rfl, hb⟩ := List.eq_append_cons_of_mem hs
      have hrest := ih (a ++ (b ++ ['|'])) r (by simp at h; omega)
      simp only [List.length_append, List.length_singleton, List.append_assoc,
        List.singleton_append, ← Nat.add_assoc] at hrest
      simp only [fieldsFrom, find_append hb, Nat.add_sub_cancel_left, substr_append, hrest]
      rw [pieces_append_cons hb]
    · rw [fieldsFrom, find_eq_none hs, pieces_of_not_mem hs]
      by_cases hnil : s = []
      · simp [hnil]
      · have htake : List.take (a.length + s.length) s = s := List.take_of_length_le (by omega)
        simp [hnil, substr, List.length_pos_iff.mpr hnil, htake]

/-- The fields of a string are its pieces. -/
theorem fields_eq (data : Str) : fields data = pieces '|' data :=
  fieldsFrom_eq [] data (Nat.lt_succ_self _)

/-- No field has a separator. -/
theorem bar_not_mem_fields {data s : Str} (h : s ∈ fields data) : '|' ∉ s := by
  rw [fields_eq] at h
  exact not_mem_of_mem_pieces h

/-- The name and the email of a sign-up have no separator. -/
theorem bar_not_mem_of_fields {body name password email : Str}
    (h : fields body = [name, password, email]) : '|' ∉ name ∧ '|' ∉ email := by
  have hbar : ∀ s ∈ [name, password, email], '|' ∉ s := fun s hs => bar_not_mem_fields (h ▸ hs)
  exact ⟨hbar name (by simp), hbar email (by simp)⟩

/-! ## The database -/

/-- A record of the user database. -/
def record (userId : ℤ) (email name hash : Str) : Str :=
  decimal userId ++ '|' :: (email ++ '|' :: (name ++ '|' :: hash))

/-- The scan of `signup` over the lines of the file, from a number of users on: the number of users
of the file, and `none` when the email is there. -/
def scan (email : Str) : List Str → ℤ → Option ℤ
  | [], numUsers => some numUsers
  | line :: lines, numUsers =>
    let idEnd := find line '|' 0
    let emailEnd := find line '|' (next idEnd)
    match idEnd with
    -- A line without a separator counts as no user.
    | none => scan email lines numUsers
    | some idEnd =>
      -- Without a second separator the email is compared with all the rest of the line.
      if substr line (idEnd + 1) (span (idEnd + 1) emailEnd) = email then none
      else scan email lines (wrap (numUsers + 1))

/-- `profile_manager::signup`: its answer, and the file behind it. -/
def signup (hash : PasswordHash) (database : Option Str) (email name password : Str) :
    Bool × Option Str :=
  match database with
  | some content =>
    match scan email (pieces '\n' content) 0 with
    | none => (false, some content)
    | some numUsers =>
      -- One more than the number of lines with a separator.
      let userId := wrap (numUsers + 1)
      (true, some (content ++ (record userId email name (hash.hashPass password) ++ ['\n'])))
  | none => (true, some (record 1 email name (hash.hashPass password) ++ ['\n']))

/-- `profile_manager::signup_string`: three fields, with the email last. -/
def signupString (hash : PasswordHash) (database : Option Str) (data : Str) : Bool × Option Str :=
  match fields data with
  | [name, password, email] => signup hash database email name password
  | _ => (false, database)

/-- What `login` makes of one line: `none` when it goes on to the next. -/
def loginLine (hash : PasswordHash) (email password line : Str) :
    Option (Except StoiError (Bool × UserProfile)) := do
  let idEnd ← find line '|' 0
  let emailEnd ← find line '|' (idEnd + 1)
  -- The test behind this `find` is for `email_end` once more: a missing separator is not noticed,
  -- and the hash is then read from the start of the line.
  let nameEnd := find line '|' (emailEnd + 1)
  let lineEmail := substr line (idEnd + 1) (some (emailEnd - idEnd - 1))
  -- The first line with this email decides, also when the password is wrong.
  if lineEmail = email then
    if hash.hashPass password = substr line (next nameEnd) (some 64) then
      some do
        let userId ← stoi (substr line 0 (some idEnd))
        return (true, ⟨userId, substr line (emailEnd + 1) (span (emailEnd + 1) nameEnd), lineEmail,
          true⟩)
    else some (.ok (false, ⟨-1, [], [], false⟩))
  else none

/-- `profile_manager::login`: its answer, and the profile it sets. -/
def login (hash : PasswordHash) (database : Option Str) (email password : Str) :
    Except StoiError (Bool × UserProfile) :=
  match database with
  | some content =>
    ((pieces '\n' content).findSome? (loginLine hash email password)).getD
      (.ok (false, ⟨-1, "Email address not present within database".toList, [], false⟩))
  | none => .ok (false, ⟨-1, "Database file does not exist".toList, [], false⟩)

/-- `profile_manager::update_cookie`: the value of the cookie for a login with three fields, the
first of which is `crazyCode`, and an empty string when there is none. -/
def updateCookie (hash : PasswordHash) (database : Option Str) (cookieString : Str) :
    Except StoiError Str :=
  match fields cookieString with
  | [kind, email, password] =>
    if kind = "crazyCode".toList then
      match login hash database email password with
      | .ok (true, user) =>
        .ok ('"' :: (decimal user.userId ++ '|' :: (user.username ++ '|' :: (user.email ++ ['"']))))
      | .ok (false, _) => .ok []
      | .error error => .error error
    else .ok []
  | _ => .ok []

/-! ## The columns of a line -/

/-- What `login` compares with an email: the text between the first two separators. -/
def column (line : Str) : Option Str := do
  let idEnd ← find line '|' 0
  let emailEnd ← find line '|' (idEnd + 1)
  return substr line (idEnd + 1) (some (emailEnd - idEnd - 1))

/-- What `signup` compares with an email: the text behind the first separator, up to the second. -/
def mark (line : Str) : Option Str := do
  let idEnd ← find line '|' 0
  return substr line (idEnd + 1) (span (idEnd + 1) (find line '|' (idEnd + 1)))

/-- `login` goes on behind the lines whose column is not the email. -/
theorem loginLine_eq_none {hash : PasswordHash} {email password line : Str} :
    loginLine hash email password line = none ↔ column line ≠ some email := by
  unfold loginLine column
  cases hid : find line '|' 0 with
  | none => simp
  | some idEnd =>
    cases hemail : find line '|' (idEnd + 1) with
    | none => simp [hemail]
    | some emailEnd =>
      simp only [Option.bind_eq_bind, Option.bind_some, hemail, Option.pure_def, ne_eq,
        Option.some.injEq]
      split
      · split <;> simp_all
      · simp_all

/-- `signup` refuses an email that is the mark of a line. -/
theorem scan_eq_none {email : Str} {lines : List Str} {numUsers : ℤ} :
    scan email lines numUsers = none ↔ ∃ line ∈ lines, mark line = some email := by
  induction lines generalizing numUsers with
  | nil => simp [scan]
  | cons line lines ih =>
    rw [scan]
    simp only [List.mem_cons, exists_eq_or_imp]
    cases hid : find line '|' 0 with
    | none =>
      have hmark : mark line = none := by simp [mark, hid]
      simpa [hmark] using ih
    | some idEnd =>
      generalize hend : find line '|' (next (some idEnd)) = emailEnd
      have hmark : mark line = some (substr line (idEnd + 1) (span (idEnd + 1) emailEnd)) := by
        simp [mark, hid, ← hend, next]
      by_cases heq : substr line (idEnd + 1) (span (idEnd + 1) emailEnd) = email
      · simp [hmark, heq]
      · simpa [hmark, heq] using ih

end CrazyCode.Profile
