import CrazyCode.Profile.Accounts

/-!
# User ids over a sequence of sign-ups

`signup` takes the number of lines with a separator for the number of users, and the next number for
the id of the new one. A record can be several lines, so the number of lines with a separator
(`users`) may go up by more than one, but it goes up by one at least, and that is all that the ids
need: each is above the number of lines before it, and not above the number behind it
(`writtenIds_between`). So the ids that are written go up (`writtenIds_increasing`).
-/

namespace CrazyCode.Profile

open Text Decimal

variable {hash : PasswordHash}

/-! ## The number of users -/

/-- The number of lines with a separator. -/
def users (lines : List Str) : ℕ := lines.countP fun line => '|' ∈ line

/-- Lines that are added count. -/
theorem users_append (lines lines' : List Str) :
    users (lines ++ lines') = users lines + users lines' := List.countP_append

/-- There are no more users than lines. -/
theorem users_le_length (lines : List Str) : users lines ≤ lines.length := List.countP_le_length

/-- The scan of `signup` counts the lines with a separator, as long as the number is an `int`. -/
theorem scan_eq_some {email : Str} {lines : List Str} {numUsers n : ℤ}
    (h : scan email lines numUsers = some n) (h₀ : 0 ≤ numUsers)
    (h₁ : numUsers + lines.length ≤ intMax) : n = numUsers + users lines := by
  induction lines generalizing numUsers with
  | nil =>
    obtain rfl := Option.some.inj h
    simp [users]
  | cons line lines ih =>
    rw [List.length_cons, Nat.cast_succ] at h₁
    rw [scan] at h
    by_cases hline : '|' ∈ line
    · obtain ⟨a, r, rfl, ha⟩ := List.eq_append_cons_of_mem hline
      have husers : users ((a ++ '|' :: r) :: lines) = users lines + 1 :=
        List.countP_cons_of_pos (by simp)
      have hwrap : wrap (numUsers + 1) = numUsers + 1 := by
        have hmin : intMin = -2147483648 := rfl
        exact wrap_of_mem (by omega) (by omega)
      simp only [find_first ha] at h
      split at h
      · cases h
      · rw [hwrap] at h
        rw [ih h (by omega) (by omega), husers]
        push_cast
        ring
    · have husers : users (line :: lines) = users lines :=
        List.countP_cons_of_neg (by simpa using hline)
      have hnone : find line '|' 0 = none := by
        simpa using find_eq_none (a := []) hline
      simp only [hnone] at h
      rw [ih h h₀ (by omega), husers]

/-- A text with a separator has a line with one. -/
theorem users_splitOn_pos {s : Str} (h : '|' ∈ s) : 0 < users (s.splitOn '\n') := by
  by_cases hs : '\n' ∈ s
  · -- The separator is in the first line, or in the rest.
    obtain ⟨a, r, rfl, ha⟩ := List.eq_append_cons_of_mem hs
    rw [List.splitOn_append_cons_self_of_not_mem ha]
    by_cases hbar : '|' ∈ a
    · exact List.countP_pos_iff.mpr ⟨a, by simp, by simpa using hbar⟩
    · have hr : '|' ∈ r := by simpa [hbar] using h
      have hlt : r.length < (a ++ '\n' :: r).length := by
        simp
        omega
      have hpos := users_splitOn_pos hr
      rw [show a :: r.splitOn '\n' = [a] ++ r.splitOn '\n' from rfl, users_append]
      omega
  · rw [List.splitOn_eq_singleton hs]
    exact List.countP_pos_iff.mpr ⟨s, by simp, by simpa using h⟩
termination_by s.length

/-! ## The ids -/

/-- The id in what a call adds to the file: it stands before the first separator. -/
def writtenId (before after : Option Str) : Option ℤ :=
  (stoi (((after.getD []).drop (before.getD []).length).takeWhile (· ≠ '|'))).toOption

/-- The ids that calls of `signup_string` with these bodies write to a database, one for each call
that returns `true`. -/
def writtenIds (hash : PasswordHash) : Option Str → List Str → List (Option ℤ)
  | _, [] => []
  | database, body :: bodies =>
    let (answer, database') := signupString hash database body
    let ids := writtenIds hash database' bodies
    if answer then writtenId database database' :: ids else ids

/-- The id that a record is written with. -/
theorem writtenId_record (database : Option Str) {userId : ℤ} (email name hash : Str)
    (hrange : intMin ≤ userId ∧ userId ≤ intMax) :
    writtenId database (some (database.getD [] ++ (record userId email name hash ++ ['\n']))) =
      some userId := by
  have htake : (record userId email name hash ++ ['\n']).takeWhile (· ≠ '|') = decimal userId := by
    rw [record, List.append_assoc, List.takeWhile_append_of_pos]
    · simp
    · intro c hc
      have : c ≠ '|' := by
        rintro rfl
        exact bar_not_mem_decimal userId hc
      simpa using this
  rw [writtenId, Option.getD_some, List.drop_left, htake, stoi_decimal hrange.1 hrange.2]
  rfl

/-- A call that returns `true` adds a line with a separator, and every call leaves a file that is
closed. -/
theorem signupString_grows (hash : PasswordHash) {database : Option Str} (hclosed : Closed database)
    (body : Str) :
    signupString hash database body = (false, database) ∨
    ∃ database', signupString hash database body = (true, database') ∧ Closed database' ∧
      ∃ lines, linesOf database' = linesOf database ++ lines ∧ 0 < users lines := by
  rcases signupString_cases hash database body with h | ⟨name, password, email, userId, -, -, -, h⟩
  · exact .inl h
  · refine .inr ⟨_, h, ?_, _, linesOf_append hclosed _, users_splitOn_pos (by simp [record])⟩
    intro content hcontent
    cases hcontent
    exact ⟨database.getD [] ++ record userId email name (hash.hashPass password), by simp⟩

/-- A call that returns `true` writes the number of the next user. -/
theorem writtenId_eq {database database' : Option Str} {body : Str}
    (h : signupString hash database body = (true, database'))
    (hlines : (linesOf database).length < intMax) :
    writtenId database database' = some (users (linesOf database) + 1 : ℤ) := by
  unfold signupString at h
  split at h
  · next name password email _ =>
    rw [signup_eq] at h
    cases hscan : scan email (linesOf database) 0 with
    | none =>
      rw [hscan] at h
      cases h
    | some numUsers =>
      have hle := users_le_length (linesOf database)
      have hnum := scan_eq_some hscan le_rfl (by omega)
      rw [zero_add] at hnum
      rw [hscan] at h
      obtain rfl := (Prod.mk.inj h).2
      have hwrap : wrap (numUsers + 1) = users (linesOf database) + 1 := by
        have hmin : intMin = -2147483648 := rfl
        rw [hnum]
        exact wrap_of_mem (by omega) (by omega)
      rw [writtenId_record database _ _ _ (wrap_mem _), hwrap]
  · cases h

/-- The ids that calls write are above the number of users before the calls, and not above the one
behind them. -/
theorem writtenIds_between (hash : PasswordHash) {database : Option Str} (hclosed : Closed database)
    (bodies : List Str) {final : Option Str}
    (hfinal : bodies.foldl (fun database body => (signupString hash database body).2) database =
      final)
    (hlines : (linesOf final).length < 2 ^ 31) :
    linesOf database <+: linesOf final ∧
    ∃ ids : List ℤ, writtenIds hash database bodies = ids.map some ∧ ids.Pairwise (· < ·) ∧
      ∀ id ∈ ids, users (linesOf database) < id ∧ id ≤ users (linesOf final) := by
  induction bodies generalizing database with
  | nil =>
    obtain rfl : database = final := hfinal
    exact ⟨List.prefix_rfl, [], rfl, .nil, by simp⟩
  | cons body bodies ih =>
    rw [List.foldl_cons] at hfinal
    rcases signupString_grows hash hclosed body with
      h | ⟨database', h, hclosed', lines, hgrown, hpos⟩
    · -- Refused: nothing is written.
      rw [h] at hfinal
      have hids : writtenIds hash database (body :: bodies) = writtenIds hash database bodies := by
        simp [writtenIds, h]
      rw [hids]
      exact ih hclosed hfinal
    · -- Accepted: the id is one more than the users before, and later ids count this one, too.
      rw [h] at hfinal
      obtain ⟨hpre, ids, hids, hpair, hbetween⟩ := ih hclosed' hfinal
      rw [hgrown] at hpre hbetween
      have hlen := hpre.length_le
      rw [List.length_append] at hlen
      have hlong := users_le_length lines
      have hid := writtenId_eq h (by
        have hmax : intMax = 2147483647 := rfl
        omega)
      have husers : users (linesOf database ++ lines) ≤ users (linesOf final) := by
        obtain ⟨more, hmore⟩ := hpre
        rw [← hmore, users_append _ more]
        exact Nat.le_add_right _ _
      rw [users_append] at hbetween husers
      refine ⟨(List.prefix_append _ _).trans hpre, (users (linesOf database) + 1 : ℤ) :: ids, ?_,
        List.pairwise_cons.mpr ⟨fun id hmem => ?_, hpair⟩, fun id hmem => ?_⟩
      · simp [writtenIds, h, hid, hids]
      · have := (hbetween id hmem).1
        omega
      · rcases List.mem_cons.mp hmem with rfl | hmem
        · omega
        · have := hbetween id hmem
          omega

/-- Whatever the bodies of calls from a missing file are, the ids that are written go up, if the
file has fewer than 2^31 lines in the end. -/
theorem writtenIds_increasing (hash : PasswordHash) (bodies : List Str)
    (hlines : (linesOf (signupStrings hash bodies)).length < 2 ^ 31) :
    ∃ ids : List ℤ, writtenIds hash none bodies = ids.map some ∧ ids.Pairwise (· < ·) := by
  obtain ⟨-, ids, hids, hpair, -⟩ :=
    writtenIds_between hash closed_none bodies rfl hlines
  exact ⟨ids, hids, hpair⟩

/-- Three accounts, the first of which has a line break in its name, with a separator behind it: the
ids are 1, 3 and 4. -/
theorem writtenIds_increasing_three : ∃ ids : List ℤ, writtenIds sampleHash none
    ["a\nb|pw|e".toList, "c|pw|f".toList, "d|pw|g".toList] = ids.map some ∧
      ids.Pairwise (· < ·) :=
  writtenIds_increasing sampleHash _ (by decide +kernel)

end CrazyCode.Profile
