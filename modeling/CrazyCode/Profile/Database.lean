import CrazyCode.Profile.Manager

/-!
# Records and the lines of the database

A record is written as `id|email|name|hash`, and read back line by line. Its email and its name are
taken from the request as they are. They have no separator, since the body was split at the
separators, but they can have line breaks, and then the record is several lines. Of these at most
one has two separators, which is what `login` asks of a line:

- with no line break in the email, it is the first one, and its column is the email;
- with a line break in the email and none in the name, it is the last one, and its column is the
  *name*: the line is `rest of the email|name|hash`, and lacks the third separator;
- with line breaks in both there is none.

`signup_eq` puts the two branches of `signup` together: an account is written behind the lines of
the database (`linesOf`), whether or not the file was there.
-/

namespace CrazyCode.Profile

open Text Decimal Outcome

/-! ## Lines with separators -/

section Separators

variable {a b c r : Str}

/-- The first separator of a line. -/
theorem find_first (ha : '|' ∉ a) : find (a ++ '|' :: r) '|' 0 = some a.length := by
  simpa using find_append (a := []) (s := r) ha

/-- The second separator of a line. -/
theorem find_second (hb : '|' ∉ b) :
    find (a ++ '|' :: (b ++ '|' :: r)) '|' (a.length + 1) = some (a.length + 1 + b.length) := by
  simpa using find_append (a := a ++ ['|']) (s := r) hb

/-- No second separator. -/
theorem find_second_eq_none (hb : '|' ∉ b) :
    find (a ++ '|' :: b) '|' (a.length + 1) = none := by
  simpa using find_eq_none (a := a ++ ['|']) hb

/-- The text between two separators. -/
theorem substr_second : substr (a ++ '|' :: (b ++ '|' :: r)) (a.length + 1)
    (some (a.length + 1 + b.length - a.length - 1)) = b := by
  have := substr_append (a ++ ['|']) b ('|' :: r)
  have hlen : a.length + 1 + b.length - a.length - 1 = b.length := by omega
  rw [hlen]
  simpa using this

/-- A line with two separators has the text between them as its column. -/
theorem column_two (ha : '|' ∉ a) (hb : '|' ∉ b) :
    column (a ++ '|' :: (b ++ '|' :: r)) = some b := by
  simp [column, find_first ha, find_second hb, substr_second]

/-- A line with two separators has the text between them as its mark, too. -/
theorem mark_two (ha : '|' ∉ a) (hb : '|' ∉ b) :
    mark (a ++ '|' :: (b ++ '|' :: r)) = some b := by
  have := substr_append (a ++ ['|']) b ('|' :: r)
  simpa [mark, find_first ha, find_second hb, span] using this

/-- A line with fewer than two separators has no column. -/
theorem column_eq_none {line : Str} (h : line.count '|' ≤ 1) : column line = none := by
  by_cases hline : '|' ∈ line
  · obtain ⟨a, r, rfl, ha⟩ := List.eq_append_cons_of_mem hline
    rw [List.count_append, List.count_cons_self] at h
    have hr : '|' ∉ r := List.count_eq_zero.mp (by omega)
    simp [column, find_first ha, find_second_eq_none hr]
  · have := find_eq_none (a := []) hline
    simp only [List.nil_append, List.length_nil] at this
    simp [column, this]

/-- A line with a column has the column between its first two separators. -/
theorem column_eq_some {line email : Str} (h : column line = some email) :
    ∃ a r, line = a ++ '|' :: (email ++ '|' :: r) ∧ '|' ∉ a ∧ '|' ∉ email := by
  have htwo : 1 < line.count '|' := by
    by_contra hle
    rw [column_eq_none (by omega)] at h
    cases h
  have hline : '|' ∈ line := List.count_pos_iff.mp (by omega)
  obtain ⟨a, r, rfl, ha⟩ := List.eq_append_cons_of_mem hline
  rw [List.count_append, List.count_eq_zero.mpr ha, List.count_cons_self] at htwo
  have hr : '|' ∈ r := List.count_pos_iff.mp (by omega)
  obtain ⟨b, r, rfl, hb⟩ := List.eq_append_cons_of_mem hr
  obtain rfl := Option.some.inj ((column_two ha hb).symm.trans h)
  exact ⟨a, r, rfl, ha, hb⟩

/-- `login` on a line whose column is the email. The hash is read behind the third separator. -/
theorem loginLine_column (ha : '|' ∉ a) (hb : '|' ∉ b) (hash : PasswordHash) (password : Str)
    {nameEnd : Option ℕ}
    (hname : find (a ++ '|' :: (b ++ '|' :: r)) '|' (a.length + 1 + b.length + 1) = nameEnd) :
    loginLine hash b password (a ++ '|' :: (b ++ '|' :: r)) =
      if hash.hashPass password =
          substr (a ++ '|' :: (b ++ '|' :: r)) (next nameEnd) (some 64) then
        some ((stoi a).map fun userId => (true, ⟨userId, substr (a ++ '|' :: (b ++ '|' :: r))
          (a.length + 1 + b.length + 1) (span (a.length + 1 + b.length + 1) nameEnd), b, true⟩))
      else some (.ok (false, ⟨-1, [], [], false⟩)) := by
  have hid : substr (a ++ '|' :: (b ++ '|' :: r)) 0 (some a.length) = a := by simp [substr]
  simp only [loginLine, find_first ha, find_second hb, hname, substr_second, hid,
    Option.bind_eq_bind, Option.bind_some, if_true]
  cases stoi a <;> rfl

/-- The place behind the second separator. -/
theorem length_two : a.length + 1 + b.length + 1 = (a ++ '|' :: (b ++ ['|'])).length := by
  simp only [List.length_append, List.length_cons, List.length_nil]
  omega

/-- What stands behind the second separator. -/
theorem append_two : a ++ '|' :: (b ++ '|' :: r) = (a ++ '|' :: (b ++ ['|'])) ++ r := by simp

/-- `login` on a line with three separators compares the hashes. -/
theorem loginLine_three (ha : '|' ∉ a) (hb : '|' ∉ b) (hc : '|' ∉ c) (hash : PasswordHash)
    (password : Str) :
    loginLine hash b password (a ++ '|' :: (b ++ '|' :: (c ++ '|' :: r))) =
      if hash.hashPass password = r.take 64 then
        some ((stoi a).map fun userId => (true, ⟨userId, c, b, true⟩))
      else some (.ok (false, ⟨-1, [], [], false⟩)) := by
  have hthird : find (a ++ '|' :: (b ++ '|' :: (c ++ '|' :: r))) '|' (a.length + 1 + b.length + 1) =
      some (a.length + 1 + b.length + 1 + c.length) := by
    rw [append_two, length_two]
    exact find_append hc
  have hname : substr (a ++ '|' :: (b ++ '|' :: (c ++ '|' :: r))) (a.length + 1 + b.length + 1)
      (some c.length) = c := by
    rw [append_two, length_two]
    exact substr_append _ _ _
  have hpass : substr (a ++ '|' :: (b ++ '|' :: (c ++ '|' :: r)))
      (a.length + 1 + b.length + 1 + c.length + 1) (some 64) = r.take 64 := by
    rw [substr, append_two, length_two, Nat.add_assoc, ← List.drop_drop, List.drop_left,
      ← List.drop_drop, List.drop_left]
    rfl
  rw [loginLine_column ha hb hash password hthird]
  simp only [next, span, Nat.add_sub_cancel_left, hname]
  rw [hpass]

/-- `login` on a line without the third separator reads the hash from the start of the line. -/
theorem loginLine_two (ha : '|' ∉ a) (hb : '|' ∉ b) (hc : '|' ∉ c) (hash : PasswordHash)
    (password : Str) :
    loginLine hash b password (a ++ '|' :: (b ++ '|' :: c)) =
      if hash.hashPass password = (a ++ '|' :: (b ++ '|' :: c)).take 64 then
        some ((stoi a).map fun userId => (true, ⟨userId, c, b, true⟩))
      else some (.ok (false, ⟨-1, [], [], false⟩)) := by
  have hthird : find (a ++ '|' :: (b ++ '|' :: c)) '|' (a.length + 1 + b.length + 1) = none := by
    rw [append_two, length_two]
    exact find_eq_none hc
  have hname : substr (a ++ '|' :: (b ++ '|' :: c)) (a.length + 1 + b.length + 1) none = c := by
    rw [substr, append_two, length_two, List.drop_left]
  rw [loginLine_column ha hb hash password hthird]
  simp only [next, span, hname]
  rfl

end Separators

/-! ## The lines of a record -/

section Record

variable {userId : ℤ} {e n hash : Str}

/-- The separator and the line break are in no numeral. -/
theorem bar_not_mem_decimal (z : ℤ) : '|' ∉ decimal z := not_mem_decimal (by decide) (by decide) z

/-- The line break is in no numeral. -/
theorem newline_not_mem_decimal (z : ℤ) : '\n' ∉ decimal z :=
  not_mem_decimal (by decide) (by decide) z

/-- The lines of a text with fewer than two separators have no column. -/
theorem column_of_mem_splitOn {s line : Str} (h : s.count '|' ≤ 1)
    (hline : line ∈ s.splitOn '\n') : column line = none :=
  column_eq_none (((sublist_of_mem_splitOn hline).count_le '|').trans h)

/-- Without line breaks in the email and the name a record is one line. -/
theorem splitOn_record (he : '\n' ∉ e) (hn : '\n' ∉ n) (hhash : '\n' ∉ hash) :
    (record userId e n hash).splitOn '\n' = [record userId e n hash] :=
  List.splitOn_eq_singleton (by simp [record, newline_not_mem_decimal, he, hn, hhash])

/-- With a line break in the name, but none in the email, a record starts with a line that ends in
its name, and the other lines have no column. -/
theorem splitOn_record_name (userId : ℤ) {n₀ n₁ : Str} (he : '\n' ∉ e) (hn₀ : '\n' ∉ n₀)
    (hn₁ : '|' ∉ n₁) (hhash : '|' ∉ hash) :
    ∃ lines, (record userId e (n₀ ++ '\n' :: n₁) hash).splitOn '\n' =
      (decimal userId ++ '|' :: (e ++ '|' :: n₀)) :: lines ∧
      ∀ line ∈ lines, column line = none := by
  -- Behind the line break only the separator in front of the hash is left.
  refine ⟨(n₁ ++ '|' :: hash).splitOn '\n', ?_, fun line hline => column_of_mem_splitOn ?_ hline⟩
  · have hrecord : record userId e (n₀ ++ '\n' :: n₁) hash =
        (decimal userId ++ '|' :: (e ++ '|' :: n₀)) ++ '\n' :: (n₁ ++ '|' :: hash) := by
      simp [record]
    rw [hrecord, List.splitOn_append_cons_self_of_not_mem]
    simp [newline_not_mem_decimal, he, hn₀]
  · simp [List.count_eq_zero.mpr hn₁, List.count_eq_zero.mpr hhash]

/-- With a line break in the email, but none in the name, a record ends with a line that starts in
its email, and the other lines have no column. -/
theorem splitOn_record_email (userId : ℤ) {e₀ c : Str} (he₀ : '|' ∉ e₀) (hc : '\n' ∉ c)
    (hn : '\n' ∉ n)
    (hhash : '\n' ∉ hash) :
    ∃ lines, (record userId (e₀ ++ '\n' :: c) n hash).splitOn '\n' =
      lines ++ [c ++ '|' :: (n ++ '|' :: hash)] ∧ ∀ line ∈ lines, column line = none := by
  -- Before the line break there is only the separator behind the id.
  refine ⟨(decimal userId ++ '|' :: e₀).splitOn '\n', ?_,
    fun line hline => column_of_mem_splitOn ?_ hline⟩
  · have hrecord : record userId (e₀ ++ '\n' :: c) n hash =
        (decimal userId ++ '|' :: e₀) ++ '\n' :: (c ++ '|' :: (n ++ '|' :: hash)) := by
      simp [record]
    have hlast : '\n' ∉ c ++ '|' :: (n ++ '|' :: hash) := by simp [hc, hn, hhash]
    rw [hrecord, List.splitOn_append_cons_self,
      List.splitOn_eq_singleton hlast]
  · simp [List.count_eq_zero.mpr he₀, List.count_eq_zero.mpr (bar_not_mem_decimal userId)]

/-- With line breaks in both, no line of a record has a column. -/
theorem splitOn_record_both {e₀ c n₀ n₁ : Str} (he₀ : '|' ∉ e₀) (hc : '|' ∉ c) (hn₀ : '|' ∉ n₀)
    (hn₁ : '|' ∉ n₁) (hhash : '|' ∉ hash) {line : Str}
    (hline : line ∈ (record userId (e₀ ++ '\n' :: c) (n₀ ++ '\n' :: n₁) hash).splitOn '\n') :
    column line = none := by
  have hrecord : record userId (e₀ ++ '\n' :: c) (n₀ ++ '\n' :: n₁) hash =
      (decimal userId ++ '|' :: e₀) ++ '\n' ::
        ((c ++ '|' :: n₀) ++ '\n' :: (n₁ ++ '|' :: hash)) := by
    simp [record]
  rw [hrecord, List.splitOn_append_cons_self, List.splitOn_append_cons_self, List.mem_append,
    List.mem_append] at hline
  rcases hline with hline | hline | hline
  · refine column_of_mem_splitOn ?_ hline
    simp [List.count_eq_zero.mpr he₀, List.count_eq_zero.mpr (bar_not_mem_decimal userId)]
  · refine column_of_mem_splitOn ?_ hline
    simp [List.count_eq_zero.mpr hc, List.count_eq_zero.mpr hn₀]
  · refine column_of_mem_splitOn ?_ hline
    simp [List.count_eq_zero.mpr hn₁, List.count_eq_zero.mpr hhash]

end Record

/-! ## The lines of the database -/

/-- The lines of the database: a missing file has none. -/
def linesOf : Option Str → List Str
  | some content => pieces '\n' content
  | none => []

/-- A database that ends with a line break, if it is there. -/
def Closed (database : Option Str) : Prop :=
  ∀ content, database = some content → ∃ s, content = s ++ ['\n']

/-- A database that is not there is closed. -/
theorem closed_none : Closed none := fun _ h => by cases h

/-- `signup`, whether or not the database is there. -/
theorem signup_eq (hash : PasswordHash) (database : Option Str) (email name password : Str) :
    signup hash database email name password =
      match scan email (linesOf database) 0 with
      | none => (false, database)
      | some numUsers => (true, some (database.getD [] ++
          (record (wrap (numUsers + 1)) email name (hash.hashPass password) ++ ['\n']))) := by
  cases database with
  | none => rfl
  | some content =>
    cases hscan : scan email (pieces '\n' content) 0 <;> simp [signup, linesOf, hscan]

/-- `login` succeeds with the first line whose column is the email. -/
theorem login_eq_true {hash : PasswordHash} {database : Option Str} {email password : Str}
    {profile : UserProfile} :
    login hash database email password = .ok (true, profile) ↔
      (linesOf database).findSome? (loginLine hash email password) =
        some (.ok (true, profile)) := by
  cases database with
  | none => simp [login, linesOf]
  | some content =>
    simp only [login, linesOf]
    cases (pieces '\n' content).findSome? (loginLine hash email password) with
    | none => simp
    | some result => simp

/-- The profile of a successful login: neither its name nor its email has a separator, and its id is
an `int`. -/
theorem login_profile {hash : PasswordHash} {database : Option Str} {email password : Str}
    {profile : UserProfile} (h : login hash database email password = .ok (true, profile)) :
    '|' ∉ profile.username ∧ '|' ∉ profile.email ∧
      (intMin ≤ profile.userId ∧ profile.userId ≤ intMax) ∧ profile.loginStatus = true := by
  obtain ⟨line, -, hline⟩ := List.exists_of_findSome?_eq_some (login_eq_true.mp h)
  have hcolumn : column line = some email := by
    by_contra hne
    rw [loginLine_eq_none.mpr hne] at hline
    cases hline
  obtain ⟨a, r, rfl, ha, hb⟩ := column_eq_some hcolumn
  -- The name ends at the third separator, or with the line.
  have hread : ∀ {c : Str}, '|' ∉ c →
      some ((stoi a).map fun userId => (true, (⟨userId, c, email, true⟩ : UserProfile))) =
        some (.ok (true, profile)) → '|' ∉ profile.username ∧ '|' ∉ profile.email ∧
          (intMin ≤ profile.userId ∧ profile.userId ≤ intMax) ∧ profile.loginStatus = true := by
    intro c hc heq
    cases hstoi : stoi a with
    | error _ => simp [hstoi, Except.map] at heq
    | ok userId =>
      simp only [hstoi, Except.map, Option.some.injEq, Except.ok.injEq, Prod.mk.injEq, true_and]
        at heq
      rw [← heq]
      exact ⟨hc, hb, stoi_mem hstoi, rfl⟩
  by_cases hr : '|' ∈ r
  · obtain ⟨c, r, rfl, hc⟩ := List.eq_append_cons_of_mem hr
    rw [loginLine_three ha hb hc] at hline
    split at hline
    · exact hread hc hline
    · simp at hline
  · rw [loginLine_two ha hb hr] at hline
    split at hline
    · exact hread hr hline
    · simp at hline

/-- A record is written behind the lines of the database. -/
theorem linesOf_append {database : Option Str} (h : Closed database) (s : Str) :
    linesOf (some (database.getD [] ++ (s ++ ['\n']))) = linesOf database ++ s.splitOn '\n' := by
  cases database with
  | none => simpa [linesOf] using pieces_append '\n' s []
  | some content =>
    -- The last line break of the old file ends its last line, so no old line grows.
    obtain ⟨t, rfl⟩ := h content rfl
    have hold := pieces_append '\n' t []
    have hnew := pieces_append '\n' t (s ++ ['\n'])
    have hs := pieces_append '\n' s []
    simp only [pieces_nil, List.append_nil] at hold hs
    simp [linesOf, hold, hnew, hs]

end CrazyCode.Profile
