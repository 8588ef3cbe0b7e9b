import CrazyCode.Library.Interleaving
import CrazyCode.Profile.Ids
import Mathlib.Data.List.Nodup

/-!
# Two sign-ups at once

`signup` tests whether the database file is there, scans it, and then appends a record; or it makes
the file, with one record, if it was not there. Requests are handled on several threads, and nothing
keeps two of them from doing this at once. `SignupStep` has these steps, and a call that is left
alone takes them to what `signup` returns (`signup_alone`).

A call that is about to write (`Phase.Writing`) knows the file as it was when it read it. As long as
no two calls are about to write at once this is the file as it is: then emails stay unique, ids
distinct, and no record is lost (`signups_consistent`). Two calls that both find the file missing
both make it, and the one that comes first loses its record (`not_signups_consistent`).
-/

namespace CrazyCode.Profile

open Text Decimal

/-! ## The steps of a call -/

/-- The arguments of a call of `signup`. -/
structure SignupCall where
  email : Str
  name : Str
  password : Str

/-- How far a call of `signup` has got. -/
inductive Phase where
  | start
  /-- The database file was there. -/
  | present
  /-- The database file was not there. -/
  | missing
  /-- The scan has not found the email, and has counted the users. -/
  | scanned (numUsers : ℤ)
  /-- The call has returned `false`. -/
  | refused
  /-- The call has returned `true`, and has written a record with its `user_id`. -/
  | registered (userId : ℤ)
deriving DecidableEq

/-- What a call writes. -/
def SignupCall.line (hash : PasswordHash) (call : SignupCall) (userId : ℤ) : Str :=
  record userId call.email call.name (hash.hashPass call.password) ++ ['\n']

/-- One step of a call of `signup` on the database. -/
inductive SignupStep (hash : PasswordHash) (call : SignupCall) :
    Option Str → Phase → Option Str → Phase → Prop
  | present (content : Str) : SignupStep hash call (some content) .start (some content) .present
  | missing : SignupStep hash call none .start none .missing
  | refuse {database : Option Str} : scan call.email (linesOf database) 0 = none →
      SignupStep hash call database .present database .refused
  | scan {database : Option Str} {numUsers : ℤ} :
      scan call.email (linesOf database) 0 = some numUsers →
      SignupStep hash call database .present database (.scanned numUsers)
  | append (database : Option Str) (numUsers : ℤ) :
      SignupStep hash call database (.scanned numUsers)
        (some (database.getD [] ++ call.line hash (wrap (numUsers + 1))))
        (.registered (wrap (numUsers + 1)))
  -- `std::ofstream` without a mode: what is in the file by now is cut off.
  | create (database : Option Str) :
      SignupStep hash call database .missing (some (call.line hash 1)) (.registered 1)

/-- What a call returns. -/
def Phase.answer : Phase → Option Bool
  | .refused => some false
  | .registered _ => some true
  | _ => none

/-- A call that is left alone does what `signup` does. -/
theorem signup_alone (hash : PasswordHash) (call : SignupCall) (database : Option Str) :
    ∃ tr phase, phase.answer = some (signup hash database call.email call.name call.password).1 ∧
      Run (Alone (SignupStep hash call)) (database, .start) tr
        ((signup hash database call.email call.name call.password).2, phase) := by
  cases database with
  | none =>
    have htest : Alone (SignupStep hash call) (none, .start) () () (none, .missing) := .missing
    have hcreate : Alone (SignupStep hash call) (none, .missing) () ()
      (some (call.line hash 1), .registered 1) := .create none
    exact ⟨_, .registered 1, rfl, (Run.nil.snoc htest).snoc hcreate⟩
  | some content =>
    have htest : Alone (SignupStep hash call) (some content, .start) () ()
      (some content, .present) := .present content
    rw [signup_eq]
    cases hscan : scan call.email (linesOf (some content)) 0 with
    | none =>
      have hrefuse : Alone (SignupStep hash call) (some content, .present) () ()
        (some content, .refused) := .refuse hscan
      exact ⟨_, .refused, rfl, (Run.nil.snoc htest).snoc hrefuse⟩
    | some numUsers =>
      have hread : Alone (SignupStep hash call) (some content, .present) () ()
        (some content, .scanned numUsers) := .scan hscan
      have happend : Alone (SignupStep hash call) (some content, .scanned numUsers) () ()
        (some (content ++ call.line hash (wrap (numUsers + 1))),
          .registered (wrap (numUsers + 1))) := .append _ _
      exact ⟨_, .registered (wrap (numUsers + 1)), rfl,
        ((Run.nil.snoc htest).snoc hread).snoc happend⟩

/-- A call is about to write. -/
def Phase.Writing (phase : Phase) : Prop := phase = .missing ∨ ∃ numUsers, phase = .scanned numUsers

/-- Two calls are about to write. -/
def Racing (φ ψ : Phase) : Prop := φ.Writing ∧ ψ.Writing

/-- It is the same for the other call. -/
theorem Racing.symm {φ ψ : Phase} (h : Racing φ ψ) : Racing ψ φ := ⟨h.2, h.1⟩

/-! ## What two calls leave -/

variable (hash : PasswordHash) (bodies : List Str) (calls : Side → SignupCall)

/-- The records that calls have written, each with its id. -/
def added (written : List (ℤ × Side)) : Str :=
  written.flatMap fun w => (calls w.2).line hash w.1

/-- What two calls have left, behind earlier sign-ups: the accounts are those of these sign-ups and
of the calls that have returned `true`. -/
structure Consistent (p : Pair (Option Str) Phase) : Prop where
  /-- At most one of two calls with the same email returns `true`. -/
  emails : ∀ u v, p.phase .left = .registered u → p.phase .right = .registered v →
    (calls .left).email ≠ (calls .right).email
  /-- The file has the records of the earlier sign-ups and then those of the calls, all with
  distinct ids, and every call that has returned `true` has its record there. -/
  records : ∃ (ids : List ℤ) (written : List (ℤ × Side)),
    writtenIds hash none bodies = ids.map some ∧
    p.memory.getD [] = (signupStrings hash bodies).getD [] ++ added hash calls written ∧
    (ids ++ written.map (·.1)).Nodup ∧ ∀ i u, p.phase i = .registered u → (u, i) ∈ written

/-- The database is that of the earlier sign-ups with the records of `written`, and no id is above
the number of users. -/
structure Holds (ids : List ℤ) (written : List (ℤ × Side)) (database : Option Str) : Prop where
  closed : Closed database
  content : database.getD [] = (signupStrings hash bodies).getD [] ++ added hash calls written
  nodup : (ids ++ written.map (·.1)).Nodup
  le_users : ∀ id ∈ ids ++ written.map (·.1), id ≤ users (linesOf database)

/-- What a call knows of the database: what it has read, if it is about to write, and that its
record is there, if it has written it. -/
structure Knows (i : Side) (written : List (ℤ × Side)) (database : Option Str) (phase : Phase) :
    Prop where
  missing : phase = .missing → database = none
  scanned : ∀ numUsers, phase = .scanned numUsers →
    scan (calls i).email (linesOf database) 0 = some numUsers
  registered : ∀ userId, phase = .registered userId →
    (userId, i) ∈ written ∧ ∃ line ∈ linesOf database, mark line = some (calls i).email

/-- The assertion about the database and two calls. -/
def Asserts (ids : List ℤ) (i : Side) (database : Option Str) (φ ψ : Phase) : Prop :=
  ∃ written, Holds hash bodies calls ids written database ∧ Knows calls i written database φ ∧
    Knows calls i.other written database ψ ∧
    ∀ u v, φ = .registered u → ψ = .registered v → (calls i).email ≠ (calls i.other).email

variable {hash bodies calls}

/-- The assertion is the same for the other call. -/
theorem Asserts.symm {ids : List ℤ} {i : Side} {database : Option Str} {φ ψ : Phase}
    (h : Asserts hash bodies calls ids i database φ ψ) :
    Asserts hash bodies calls ids i.other database ψ φ := by
  obtain ⟨written, hholds, hi, hother, hemails⟩ := h
  refine ⟨written, hholds, hother, ?_, fun u v hu hv => ?_⟩
  · rwa [Side.other_other]
  · rw [Side.other_other]
    exact (hemails v u hv hu).symm

/-- A call that reads changes nothing. -/
theorem Asserts.read {ids : List ℤ} {i : Side} {database : Option Str} {φ φ' ψ : Phase}
    (h : Asserts hash bodies calls ids i database φ ψ) (hmissing : φ' = .missing → database = none)
    (hscanned : ∀ numUsers, φ' = .scanned numUsers →
      scan (calls i).email (linesOf database) 0 = some numUsers)
    (hreads : ∀ userId, φ' ≠ .registered userId) :
    Asserts hash bodies calls ids i database φ' ψ := by
  obtain ⟨written, hholds, -, hother, -⟩ := h
  exact ⟨written, hholds, ⟨hmissing, hscanned, fun u hu => absurd hu (hreads u)⟩, hother,
    fun u _ hu => absurd hu (hreads u)⟩

/-- The record of a call without line breaks is one line, and its mark is the email. -/
theorem SignupCall.line_mark (hash : PasswordHash) {call : SignupCall}
    (hemail : '|' ∉ call.email ∧ '\n' ∉ call.email) (hname : '\n' ∉ call.name)
    {database : Option Str} (hclosed : Closed database) (userId : ℤ) :
    ∃ line,
      linesOf (some (database.getD [] ++ call.line hash userId)) = linesOf database ++ [line] ∧
      mark line = some call.email ∧ '|' ∈ line := by
  refine ⟨record userId call.email call.name (hash.hashPass call.password), ?_, ?_,
    by simp [record]⟩
  · rw [SignupCall.line, linesOf_append hclosed,
      splitOn_record hemail.2 hname (hash.newline_not_mem _)]
  · exact mark_two (bar_not_mem_decimal _) hemail.1

/-- A record that has the number of the next user, and one line, leaves distinct ids. -/
theorem Holds.write {ids : List ℤ} {written : List (ℤ × Side)} {database : Option Str} {i : Side}
    {line : Str} (h : Holds hash bodies calls ids written database)
    (hlines : linesOf (some (database.getD [] ++
      (calls i).line hash (users (linesOf database) + 1))) = linesOf database ++ [line])
    (hbar : '|' ∈ line) :
    Holds hash bodies calls ids (written ++ [((users (linesOf database) + 1 : ℤ), i)])
      (some (database.getD [] ++ (calls i).line hash (users (linesOf database) + 1))) := by
  have husers : users (linesOf database ++ [line]) = users (linesOf database) + 1 := by
    rw [users_append, users, users, List.countP_cons_of_pos (by simpa using hbar)]
    rfl
  have hids : ids ++ (written ++ [((users (linesOf database) + 1 : ℤ), i)]).map (·.1) =
      ids ++ written.map (·.1) ++ [(users (linesOf database) + 1 : ℤ)] := by simp
  refine ⟨?_, ?_, ?_, ?_⟩
  · intro content hcontent
    cases hcontent
    exact ⟨_, (List.append_assoc _ _ _).symm⟩
  · simp [added, h.content]
  · rw [hids]
    refine List.nodup_append.mpr
      ⟨h.nodup, List.pairwise_singleton _ _, fun id hid id' hid' => ?_⟩
    have := h.le_users id hid
    rw [List.mem_singleton.mp hid']
    omega
  · rw [hids, hlines, husers]
    intro id hid
    rcases List.mem_append.mp hid with hid | hid
    · have := h.le_users id hid
      omega
    · rw [List.mem_singleton.mp hid]
      push_cast
      exact le_rfl

/-- A call that writes behind the file as it is, with the number of the next user, keeps the
assertion if the other one is not about to write. -/
theorem Asserts.write {ids : List ℤ} {i : Side} {database : Option Str} {φ ψ : Phase}
    (h : Asserts hash bodies calls ids i database φ ψ)
    (hplain : '|' ∉ (calls i).email ∧ '\n' ∉ (calls i).email) (hname : '\n' ∉ (calls i).name)
    (hfree : ∀ line ∈ linesOf database, mark line ≠ some (calls i).email) (hψ : ¬ ψ.Writing) :
    Asserts hash bodies calls ids i
      (some (database.getD [] ++ (calls i).line hash (users (linesOf database) + 1)))
      (.registered (users (linesOf database) + 1)) ψ := by
  obtain ⟨written, hholds, -, hother, -⟩ := h
  obtain ⟨line, hlines, hmark, hbar⟩ :=
    SignupCall.line_mark hash hplain hname hholds.closed (users (linesOf database) + 1)
  refine ⟨written ++ [((users (linesOf database) + 1 : ℤ), i)], hholds.write hlines hbar,
    ⟨by simp, by simp, fun u hu => ?_⟩, ⟨fun h => ?_, fun n h => ?_, fun v hv => ?_⟩,
    fun u v _ hv => ?_⟩
  · obtain rfl := Phase.registered.inj hu
    exact ⟨by simp, line, by simp [hlines], hmark⟩
  -- The other call is not about to write, so all that it knows is that its record is there.
  · exact absurd (.inl h) hψ
  · exact absurd (.inr ⟨n, h⟩) hψ
  · obtain ⟨hmem, line', hline', hmark'⟩ := hother.registered v hv
    exact ⟨List.mem_append_left _ hmem, line', by simp [hlines, hline'], hmark'⟩
  · obtain ⟨-, line', hline', hmark'⟩ := hother.registered v hv
    exact fun heq => hfree line' hline' (heq ▸ hmark')

/-! ## Runs of two calls -/

/-- The email and the name of a call have neither a separator nor a line break. -/
structure SignupCall.Plain (call : SignupCall) : Prop where
  email : '|' ∉ call.email ∧ '\n' ∉ call.email
  name : '|' ∉ call.name ∧ '\n' ∉ call.name

/-- One step of one of the calls, behind which the file has fewer than 2^31 lines. -/
def CallStep (hash : PasswordHash) (calls : Side → SignupCall) (i : Side) (database : Option Str)
    (φ : Phase) (database' : Option Str) (φ' : Phase) : Prop :=
  SignupStep hash (calls i) database φ database' φ' ∧ (linesOf database').length < 2 ^ 31

/-- A step of a call keeps the assertion, unless the other one is about to write as well. -/
theorem Asserts.step {ids : List ℤ} {i : Side} {database database' : Option Str} {φ φ' ψ : Phase}
    (h : Asserts hash bodies calls ids i database φ ψ) (hplain : (calls i).Plain)
    (hapart : ¬ Racing φ ψ) (hstep : CallStep hash calls i database φ database' φ') :
    Asserts hash bodies calls ids i database' φ' ψ := by
  obtain ⟨hstep, hlines⟩ := hstep
  cases hstep with
  | present content => exact h.read (by simp) (by simp) (by simp)
  | missing => exact h.read (fun _ => rfl) (by simp) (by simp)
  | refuse => exact h.read (by simp) (by simp) (by simp)
  | scan hscan =>
    refine h.read (by simp) (fun numUsers heq => ?_) (by simp)
    rw [← Phase.scanned.inj heq]
    exact hscan
  | append _ numUsers =>
    have hψ : ¬ ψ.Writing := fun hwriting => hapart ⟨.inr ⟨numUsers, rfl⟩, hwriting⟩
    obtain ⟨written, hholds, hknows, -⟩ := id h
    have hscan := hknows.scanned numUsers rfl
    have hfree : ∀ line ∈ linesOf database, mark line ≠ some (calls i).email :=
      fun line hline hmark => by
        rw [scan_eq_none.mpr ⟨line, hline, hmark⟩] at hscan
        cases hscan
    -- The number that was counted is still the number of users, and does not wrap around.
    have hwrap : wrap (numUsers + 1) = users (linesOf database) + 1 := by
      obtain ⟨line, hgrown, -⟩ := SignupCall.line_mark hash hplain.email hplain.name.2
        hholds.closed (wrap (numUsers + 1))
      rw [hgrown, List.length_append] at hlines
      have hmax : intMax = 2147483647 := rfl
      have hmin : intMin = -2147483648 := rfl
      have hle := users_le_length (linesOf database)
      have hone : [line].length = 1 := rfl
      have hnum := scan_eq_some hscan le_rfl (by omega)
      rw [hnum, zero_add]
      exact wrap_of_mem (by omega) (by omega)
    rw [hwrap]
    exact h.write hplain.email hplain.name.2 hfree hψ
  | create _ =>
    have hψ : ¬ ψ.Writing := fun hwriting => hapart ⟨.inl rfl, hwriting⟩
    obtain ⟨written, -, hknows, -⟩ := id h
    -- The file is still missing, so nothing is cut off.
    obtain rfl := hknows.missing rfl
    have hwrite := h.write hplain.email hplain.name.2 (by simp [linesOf]) hψ
    simpa [linesOf, users] using hwrite

/-- As long as two calls are never about to write at once, they leave the database consistent,
behind any sign-ups. -/
theorem signups_consistent (hash : PasswordHash) (bodies : List Str) (calls : Side → SignupCall)
    (hplain : ∀ i, (calls i).Plain)
    (hlines : (linesOf (signupStrings hash bodies)).length < 2 ^ 31)
    {tr : List (Side × Unit)} {p : Pair (Option Str) Phase}
    (hrun : Run (Exclusive Racing (CallStep hash calls))
      ⟨signupStrings hash bodies, fun _ => .start⟩ tr p) : Consistent hash bodies calls p := by
  obtain ⟨-, ids, hids, hpair, hbetween⟩ :=
    writtenIds_between hash closed_none bodies rfl hlines
  have hinit : Asserts hash bodies calls ids .left (signupStrings hash bodies) .start .start := by
    refine ⟨[], ⟨closed_signupStrings bodies, by simp [added], ?_, ?_⟩, ⟨by simp, by simp, by simp⟩,
      ⟨by simp, by simp, by simp⟩, by simp⟩
    · rw [List.map_nil, List.append_nil]
      exact hpair.imp fun h => h.ne
    · intro id hid
      exact (hbetween id (by simpa using hid)).2
  have hstart : ¬ Racing .start .start := by simp [Racing, Phase.Writing]
  have hassert : Asserts hash bodies calls ids .left p.memory (p.phase .left) (p.phase .right) := by
    refine hrun.exclusive (Asserts hash bodies calls ids) (fun _ _ => Racing.symm)
      (fun _ _ _ _ => Asserts.symm) hstart hinit ?_ .left
    intro i database φ ψ database' φ' hapart h hstep _
    exact h.step (hplain i) hapart hstep
  obtain ⟨written, hholds, hleft, hright, hemails⟩ := hassert
  refine ⟨hemails, ids, written, hids, hholds.content, hholds.nodup, fun i u hu => ?_⟩
  cases i with
  | left => exact (hleft.registered u hu).1
  | right => exact (hright.registered u hu).1

/-! Two calls from a missing file. -/

/-- Calls for two accounts. -/
def twoCalls : Side → SignupCall
  | .left => ⟨"e".toList, "n".toList, "pw".toList⟩
  | .right => ⟨"f".toList, "m".toList, "pw".toList⟩

/-- Neither has a separator or a line break in a field. -/
theorem plain_twoCalls (i : Side) : (twoCalls i).Plain := by
  cases i <;> exact ⟨⟨by decide, by decide⟩, ⟨by decide, by decide⟩⟩

/-- No call has begun. -/
def noSignups : Pair (Option Str) Phase := ⟨none, fun _ => .start⟩

/-- The record of a call. -/
def soleLine (i : Side) : Str := (twoCalls i).line sampleHash 1

/-- One call after the other. -/
theorem signups_consistent_turns :
    Consistent sampleHash [] twoCalls (((((noSignups.move .left none .missing).move .left
      (some (soleLine .left)) (.registered 1)).move .right (some (soleLine .left)) .present).move
        .right (some (soleLine .left)) (.scanned 1)).move .right
          (some (soleLine .left ++ (twoCalls .right).line sampleHash 2)) (.registered 2)) := by
  have hone : (linesOf (some (soleLine .left))).length < 2 ^ 31 := by decide +kernel
  have hapart : ∀ {φ ψ : Phase}, ¬ ψ.Writing → ¬ Racing φ ψ := fun hψ h => hψ h.2
  have hstart : ¬ Phase.start.Writing := by simp [Phase.Writing]
  have hregistered : ¬ (Phase.registered 1).Writing := by simp [Phase.Writing]
  -- The last step comes first.
  obtain ⟨tr, hrun⟩ : ∃ tr, Run (Exclusive Racing (CallStep sampleHash twoCalls)) noSignups tr
      (((((noSignups.move .left none .missing).move .left (some (soleLine .left))
        (.registered 1)).move .right (some (soleLine .left)) .present).move .right
          (some (soleLine .left)) (.scanned 1)).move .right
            (some (soleLine .left ++ (twoCalls .right).line sampleHash 2)) (.registered 2)) := by
    refine Run.exists_snoc ?_ (.move ⟨.append _ 1, by decide +kernel⟩ (hapart hregistered))
    refine Run.exists_snoc ?_ (.move ⟨.scan (by decide +kernel), hone⟩ (hapart hregistered))
    refine Run.exists_snoc ?_ (.move ⟨.present _, hone⟩ (hapart hregistered))
    refine Run.exists_snoc ?_ (.move ⟨.create none, hone⟩ (hapart hstart))
    exact ⟨_, Run.nil.snoc (.move ⟨.missing, by decide⟩ (hapart hstart))⟩
  exact signups_consistent sampleHash [] twoCalls plain_twoCalls (by decide) hrun

/-- Both calls find the file missing, and both make it. -/
theorem not_signups_consistent : ¬ ∀ (hash : PasswordHash) (bodies : List Str)
    (calls : Side → SignupCall), (∀ i, (calls i).Plain) →
    (linesOf (signupStrings hash bodies)).length < 2 ^ 31 →
    ∀ (tr : List (Side × Unit)) (p : Pair (Option Str) Phase),
      Run (Interleaved (CallStep hash calls)) ⟨signupStrings hash bodies, fun _ => .start⟩ tr p →
      Consistent hash bodies calls p := fun h => by
  have hone : ∀ i, (linesOf (some (soleLine i))).length < 2 ^ 31 := fun i => by
    cases i <;> decide +kernel
  obtain ⟨tr, hrun⟩ : ∃ tr, Run (Interleaved (CallStep sampleHash twoCalls)) noSignups tr
      ((((noSignups.move .left none .missing).move .right none .missing).move .left
        (some (soleLine .left)) (.registered 1)).move .right (some (soleLine .right))
          (.registered 1)) := by
    refine Run.exists_snoc ?_ (.move ⟨.create _, hone .right⟩)
    refine Run.exists_snoc ?_ (.move ⟨.create none, hone .left⟩)
    refine Run.exists_snoc ?_ (.move ⟨.missing, by decide⟩)
    exact ⟨_, Run.nil.snoc (.move ⟨.missing, by decide⟩)⟩
  have hconsistent := h sampleHash [] twoCalls plain_twoCalls (by decide) tr _ hrun
  -- Both records have the id 1.
  obtain ⟨ids, written, -, -, hnodup, hwritten⟩ := hconsistent.records
  have heq := List.inj_on_of_nodup_map (List.nodup_append.mp hnodup).2.1 (hwritten .left 1 rfl)
    (hwritten .right 1 rfl) rfl
  cases heq

end CrazyCode.Profile
