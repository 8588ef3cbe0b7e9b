import CrazyCode.Session.Cookie
import CrazyCode.Site.Files

/-!
# Accounts in a run of the server

A server that starts without a user database, and then gets requests of any kind in any order, and
may be restarted between any two of them. Behind every run the database is what `signupStrings`
makes of the sign-ups to it (`FirstRun.database`), so what holds of the functions of the profile
manager holds of the server: an email signs up once (`signs_up_once`), whoever has signed up can log
in for the rest of the run, with a cookie that `update_user` reads as the account
(`login_after_signup`), nobody else can (`login_needs_signup`), and verification mails go to
addresses without an account only (`mails_free`).
-/

namespace CrazyCode.Site

open Text Decimal Posix Profile Session
open Server hiding Location

/-- A run, with restarts or without, from a server whose database is not there yet. -/
structure FirstRun (paramList : Str → List (Str × Str)) (hash : PasswordHash) (routes : Routes)
    (loc : Location) (s₀ : State) (tr : List (Incoming × Output)) (s : State) : Prop where
  ready : Ready routes s₀.fs
  guarded : Guarded routes s₀.fs loc
  missing : fileAt s₀.fs loc = none
  targets : ∀ io ∈ tr, nul ∉ io.1.request.target
  run : Run (Lived paramList hash routes) s₀ tr s

section

variable {paramList : Str → List (Str × Str)} {hash : PasswordHash} {routes : Routes}
variable {loc : Location} {s₀ s : State} {tr pre mid post : List (Incoming × Output)}
variable {e e' : Incoming} {o o' : Output}

/-! ## The database of a run -/

/-- The database is the one that the calls of `signup_string` make. -/
theorem FirstRun.database (h : FirstRun paramList hash routes loc s₀ tr s) :
    fileAt s.fs loc = signupStrings hash (signups routes s₀.fs loc tr) := by
  rw [fileAt_of_run h.ready h.guarded h.run h.targets, h.missing]
  rfl

/-- A request in the middle of a run, and the run before it. -/
theorem FirstRun.middle (h : FirstRun paramList hash routes loc s₀ (pre ++ (e, o) :: post) s) :
    ∃ t pathCounts t', FirstRun paramList hash routes loc s₀ pre t ∧
      Step paramList hash routes ⟨t.fs, pathCounts⟩ e o t' := by
  obtain ⟨t, t', hpre, ⟨pathCounts, -, hstep⟩, -⟩ := h.run.middle
  exact ⟨t, pathCounts, t', ⟨h.ready, h.guarded, h.missing,
    fun io hio => h.targets io (by simp [hio]), hpre⟩, hstep⟩

/-- The sign-ups of a run in two parts. -/
theorem signups_append (routes : Routes) (fs : FileSystem) (loc : Location)
    (pre post : List (Incoming × Output)) :
    signups routes fs loc (pre ++ post) =
      signups routes fs loc pre ++ signups routes fs loc post := by
  simp [signups]

/-- The sign-ups from a sign-up on. -/
theorem signups_cons {fs : FileSystem} (he : Asks routes fs loc .signupSubmit e) (o : Output)
    (post : List (Incoming × Output)) :
    signups routes fs loc ((e, o) :: post) = e.request.body :: signups routes fs loc post := by
  simp [signups, he]

/-- The sign-ups from another request on. -/
theorem signups_cons_of_not {fs : FileSystem} (he : ¬ Asks routes fs loc .signupSubmit e)
    (o : Output)
    (post : List (Incoming × Output)) :
    signups routes fs loc ((e, o) :: post) = signups routes fs loc post := by
  simp [signups, he]

/-- A request is of one kind. -/
theorem Asks.kind_eq {fs : FileSystem} {kind kind' : RequestKind} (h : Asks routes fs loc kind e)
    (h' : Asks routes fs loc kind' e) : kind = kind' := by
  obtain ⟨handler, hmem, rfl, -⟩ := h
  obtain ⟨handler', hmem', rfl, -⟩ := h'
  obtain rfl := Option.some.inj (Eq.trans (Eq.symm hmem) hmem')
  rfl

/-- What a handler reads of the database behind a run. -/
theorem FirstRun.readDatabase (h : FirstRun paramList hash routes loc s₀ tr s) {kind : RequestKind}
    (he : Asks routes s₀.fs loc kind e) :
    ∃ handler, authentication routes e = some handler ∧
      handler.requestKind e.request.target = kind ∧
      Session.readDatabase s.fs handler.database =
        signupStrings hash (signups routes s₀.fs loc tr) := by
  obtain ⟨-, hguarded, hasks, -⟩ := guarded_of_run h.ready h.guarded h.run h.targets
  obtain ⟨handler, hmem, hkind, hloc⟩ := (hasks kind e).mpr he
  exact ⟨handler, hmem, hkind, by rw [readDatabase_eq hloc hguarded.not_directory, h.database]⟩

/-- What a request for an authentication handler is answered with, in the middle of a run: what the
handler makes of it, with the database that the sign-ups before it have made. -/
theorem FirstRun.respond (h : FirstRun paramList hash routes loc s₀ (pre ++ (e, o) :: post) s)
    {kind : RequestKind} (he : Asks routes s₀.fs loc kind e) :
    ∃ (handler : AuthenticationHandler) (fs fs' : FileSystem),
      handler.requestKind e.request.target = kind ∧
      handler.respond hash e.smtp fs e.request = .ok (o, fs') ∧
      Session.readDatabase fs handler.database =
        signupStrings hash (signups routes s₀.fs loc pre) := by
  obtain ⟨t, pathCounts, t', hpre, hstep⟩ := h.middle
  obtain ⟨handler, hmem, hkind, hread⟩ := hpre.readDatabase he
  refine ⟨handler, t.fs, t'.fs, hkind, ?_, hread⟩
  obtain ⟨-, profile, -, ⟨config, res, api, happ⟩ | ⟨handler', fs, he', hrespond, rfl⟩ |
    ⟨hnone, -, -⟩⟩ := handleRead_cases hstep.read
  · rw [authentication_of_api happ.route] at hmem
    cases hmem
  · obtain rfl := Option.some.inj (hmem.symm.trans he')
    exact hrespond
  · rw [hmem] at hnone
    cases hnone

/-- One request more. -/
theorem FirstRun.snoc (h : FirstRun paramList hash routes loc s₀ tr s) {s' : State}
    (hnul : nul ∉ e.request.target) (hstep : Step paramList hash routes s e o s') :
    FirstRun paramList hash routes loc s₀ (tr ++ [(e, o)]) s' where
  ready := h.ready
  guarded := h.guarded
  missing := h.missing
  targets io hio := by
    rcases List.mem_append.mp hio with hio | hio
    · exact h.targets io hio
    · rw [List.mem_singleton.mp hio]
      exact hnul
  run := h.run.snoc hstep.lived

section Answered

variable {answer : Bool} {profile : UserProfile}

/-- A sign-up of a client with a cookie that is read is answered. -/
theorem FirstRun.exists_signup (h : FirstRun paramList hash routes loc s₀ tr s)
    (huser : updateUser paramList e.cookie ⟨0, [], [], false⟩ = .ok (answer, profile))
    (hfits : ∀ handler ∈ authentication routes e, handler.DatabaseFits)
    (hnul : nul ∉ e.request.target) (he : Asks routes s₀.fs loc .signupSubmit e) {accepted : Bool}
    (haccepted : (signupString hash (signupStrings hash (signups routes s₀.fs loc tr))
      e.request.body).1 = accepted) :
    ∃ s', FirstRun paramList hash routes loc s₀ (tr ++ [(e, ((if accepted
      then ⟨200, [], "OK".toList⟩ else badRequest, []), []))]) s' := by
  obtain ⟨handler, hmem, hkind, hread⟩ := h.readDatabase he
  obtain ⟨fs, hrespond⟩ := AuthenticationHandler.respond_signupSubmit hkind hread
  rw [haccepted] at hrespond
  exact ⟨_, h.snoc hnul (step_authentication huser hmem hrespond
    ((hfits handler hmem).not_tooLong (by simp [hkind]) _))⟩

/-- A login of such a client is answered, if it does not throw. -/
theorem FirstRun.exists_login (h : FirstRun paramList hash routes loc s₀ tr s)
    (huser : updateUser paramList e.cookie ⟨0, [], [], false⟩ = .ok (answer, profile))
    (hfits : ∀ handler ∈ authentication routes e, handler.DatabaseFits)
    (hnul : nul ∉ e.request.target) (he : Asks routes s₀.fs loc .loginSubmit e) {cookie : Str}
    (hcookie : updateCookie hash (signupStrings hash (signups routes s₀.fs loc tr)) e.request.body =
      .ok cookie) :
    ∃ s', FirstRun paramList hash routes loc s₀ (tr ++ [(e, if cookie ≠ [] then
      ((bare 200, "crazyCode=".toList ++ cookie ++ "; Path=/".toList), [])
      else ((bare 400, []), []))]) s' := by
  obtain ⟨handler, hmem, hkind, hread⟩ := h.readDatabase he
  exact ⟨_, h.snoc hnul (step_authentication huser hmem
    (AuthenticationHandler.respond_loginSubmit hkind hread hcookie)
    ((hfits handler hmem).not_tooLong (by simp [hkind]) _))⟩

/-- A request for a mail of such a client is answered, if the connection to the mail server does not
throw. -/
theorem FirstRun.exists_verification (h : FirstRun paramList hash routes loc s₀ tr s)
    (huser : updateUser paramList e.cookie ⟨0, [], [], false⟩ = .ok (answer, profile))
    (hfits : ∀ handler ∈ authentication routes e, handler.DatabaseFits)
    (hnul : nul ∉ e.request.target) (he : Asks routes s₀.fs loc .sendVerification e)
    {res : Response}
    {mails : List Mail} (hsend : sendVerification (signupStrings hash (signups routes s₀.fs loc tr))
      e.smtp e.request.body = some (res, mails)) :
    ∃ s', FirstRun paramList hash routes loc s₀ (tr ++ [(e, ((res, []), mails))]) s' := by
  obtain ⟨handler, hmem, hkind, hread⟩ := h.readDatabase he
  exact ⟨_, h.snoc hnul (step_authentication huser hmem
    (AuthenticationHandler.respond_sendVerification hkind hread hsend)
    ((hfits handler hmem).not_tooLong (by simp [hkind]) _))⟩

end Answered

/-! ## Sign-ups -/

/-- A sign-up is answered by whether the call of `signup_string` behind those before it is
accepted. -/
theorem FirstRun.signup (h : FirstRun paramList hash routes loc s₀ (pre ++ (e, o) :: post) s)
    (he : Asks routes s₀.fs loc .signupSubmit e) :
    Accepted hash (signups routes s₀.fs loc pre) e.request.body ∧
        o = ((⟨200, [], "OK".toList⟩, []), []) ∨
      ¬ Accepted hash (signups routes s₀.fs loc pre) e.request.body ∧
        o = ((badRequest, []), []) := by
  obtain ⟨handler, fs, fs', hkind, hrespond, hdatabase⟩ := h.respond he
  rcases respond_cases hrespond with ⟨hother, -⟩ | ⟨-, accepted, database, hsignup, -, rfl⟩
  · exact absurd hkind hother
  · rw [hdatabase] at hsignup
    rw [Accepted, hsignup]
    cases accepted with
    | true => exact .inl ⟨rfl, rfl⟩
    | false => exact .inr ⟨by simp, rfl⟩

/-- A sign-up that is answered 200 is accepted. -/
theorem FirstRun.accepted (h : FirstRun paramList hash routes loc s₀ (pre ++ (e, o) :: post) s)
    (he : Asks routes s₀.fs loc .signupSubmit e) (hok : o.1.1.status = 200) :
    Accepted hash (signups routes s₀.fs loc pre) e.request.body := by
  rcases h.signup he with ⟨haccept, -⟩ | ⟨-, rfl⟩
  · exact haccept
  · cases hok

/-- In every run an email without a line break signs up once: behind a sign-up that is answered 200,
each one with the same email is a bad request. -/
theorem signs_up_once
    (h : FirstRun paramList hash routes loc s₀ (pre ++ (e, o) :: (mid ++ (e', o') :: post)) s)
    (he : Asks routes s₀.fs loc .signupSubmit e) (he' : Asks routes s₀.fs loc .signupSubmit e')
    {name password name' password' email : Str}
    (hfields : fields e.request.body = [name, password, email])
    (hfields' : fields e'.request.body = [name', password', email]) (hemail : '\n' ∉ email)
    (hok : o.1.1.status = 200) : o' = ((badRequest, []), []) := by
  have haccept := h.accepted he hok
  obtain ⟨line, hline, hcolumn⟩ := haccept.column hfields hemail (signups routes s₀.fs loc mid)
  have h' : FirstRun paramList hash routes loc s₀
      ((pre ++ (e, o) :: mid) ++ (e', o') :: post) s := by
    simpa using h
  rcases h'.signup he' with ⟨haccept', -⟩ | ⟨-, rfl⟩
  · rw [signups_append, signups_cons he] at haccept'
    exact absurd haccept' (not_accepted_of_column hline hcolumn hfields')
  · rfl

/-! ## Logins -/

/-- What a login is answered with: the cookie that `update_cookie` makes, or a bad request. -/
theorem FirstRun.login (h : FirstRun paramList hash routes loc s₀ (pre ++ (e, o) :: post) s)
    (he : Asks routes s₀.fs loc .loginSubmit e) :
    ∃ cookie, updateCookie hash (signupStrings hash (signups routes s₀.fs loc pre)) e.request.body =
        .ok cookie ∧
      o = if cookie ≠ [] then ((bare 200, "crazyCode=".toList ++ cookie ++ "; Path=/".toList), [])
        else ((bare 400, []), []) := by
  obtain ⟨handler, fs, fs', hkind, hrespond, hdatabase⟩ := h.respond he
  unfold AuthenticationHandler.respond at hrespond
  simp only [hkind, hdatabase] at hrespond
  split at hrespond
  · next cookie hcookie =>
    refine ⟨cookie, hcookie, ?_⟩
    split at hrespond
    · next hne => rw [if_pos hne, (Prod.mk.inj (Except.ok.inj hrespond)).1]
    · next hne => rw [if_neg hne, (Prod.mk.inj (Except.ok.inj hrespond)).1]
  · cases hrespond

/-- Behind a sign-up that is answered 200 its email and password are those of an account. -/
theorem FirstRun.account (h : FirstRun paramList hash routes loc s₀ (pre ++ (e, o) :: post) s)
    (he : Asks routes s₀.fs loc .signupSubmit e) {name password email : Str}
    (hfields : fields e.request.body = [name, password, email]) (hname : '\n' ∉ name)
    (hemail : '\n' ∉ email) (hok : o.1.1.status = 200) (mid : List (Incoming × Output)) :
    ∃ userId, Profile.login hash (signupStrings hash
        (signups routes s₀.fs loc (pre ++ (e, o) :: mid))) email password =
      .ok (true, ⟨userId, name, email, true⟩) := by
  obtain ⟨userId, -, hfind⟩ := (h.accepted he hok).findSome hfields hemail
  refine ⟨userId, ?_⟩
  rw [signups_append, signups_cons he, login_eq_true, hfind, if_pos ⟨hname, rfl⟩]

/-- A login to an account is answered with a cookie that `update_user` reads as the account. -/
theorem FirstRun.cookie (hparams : PlainParams paramList)
    (h : FirstRun paramList hash routes loc s₀ (pre ++ (e, o) :: post) s)
    (he : Asks routes s₀.fs loc .loginSubmit e) {userId : ℤ} {name password email : Str}
    (hfields : fields e.request.body = ["crazyCode".toList, email, password])
    (hlogin : Profile.login hash (signupStrings hash (signups routes s₀.fs loc pre)) email
      password = .ok (true, ⟨userId, name, email, true⟩))
    (hne : email ≠ []) (hplain : ∀ c ∈ name ++ email, Qdtext c) :
    ∃ cookie, o = ((bare 200, "crazyCode=".toList ++ cookie ++ "; Path=/".toList), []) ∧
      ∀ user, updateUser paramList ("crazyCode=".toList ++ cookie) user =
        .ok (true, ⟨userId, name, email, true⟩) := by
  obtain ⟨cookie, hcookie, ho⟩ := h.login he
  obtain rfl := Except.ok.inj (hcookie.symm.trans (updateCookie_login hfields hlogin))
  obtain ⟨hbar, hbar', hrange, -⟩ := login_profile hlogin
  exact ⟨_, by rw [ho, if_pos (by simp)], updateUser_qdtext hparams hbar hbar' hrange hne hplain⟩

/-- The sign-up that a body in the list of them comes from. -/
theorem exists_signup {fs : FileSystem} {before after : List Str} {body : Str}
    (h : signups routes fs loc tr = before ++ body :: after) :
    ∃ pre e o post, tr = pre ++ (e, o) :: post ∧ Asks routes fs loc .signupSubmit e ∧
      e.request.body = body ∧ signups routes fs loc pre = before := by
  induction tr generalizing before with
  | nil => simp [signups] at h
  | cons io tr ih =>
    obtain ⟨e, o⟩ := io
    by_cases he : Asks routes fs loc .signupSubmit e
    · rw [signups_cons he] at h
      cases before with
      | nil =>
        obtain ⟨hbody, -⟩ := List.cons.inj h
        exact ⟨[], e, o, tr, rfl, he, hbody, rfl⟩
      | cons b before =>
        obtain ⟨rfl, hrest⟩ := List.cons.inj h
        obtain ⟨pre, e', o', post, rfl, he', hbody, hpre⟩ := ih hrest
        exact ⟨(e, o) :: pre, e', o', post, rfl, he', hbody, by rw [signups_cons he, hpre]⟩
    · rw [signups_cons_of_not he] at h
      obtain ⟨pre, e', o', post, rfl, he', hbody, hpre⟩ := ih h
      exact ⟨(e, o) :: pre, e', o', post, rfl, he', hbody, by rw [signups_cons_of_not he, hpre]⟩

/-- In every run whose sign-ups have no line break in their emails, a login that gets a cookie is
one of an account: there was a sign-up with its email that was answered 200, with a password that
has the same hash. -/
theorem login_needs_signup
    (h : FirstRun paramList hash routes loc s₀ (pre ++ (e, o) :: post) s)
    (hplain : ∀ io ∈ pre, Asks routes s₀.fs loc .signupSubmit io.1 →
      ∀ name password email, fields io.1.request.body = [name, password, email] → '\n' ∉ email)
    (he : Asks routes s₀.fs loc .loginSubmit e) (hcookie : o.1.2 ≠ []) :
    ∃ email password, fields e.request.body = ["crazyCode".toList, email, password] ∧
      ∃ before e' o' after name password', pre = before ++ (e', o') :: after ∧
        Asks routes s₀.fs loc .signupSubmit e' ∧ o'.1.1.status = 200 ∧
        fields e'.request.body = [name, password', email] ∧
        hash.hashPass password' = hash.hashPass password := by
  obtain ⟨cookie, hupdate, ho⟩ := h.login he
  have hne : cookie ≠ [] := by
    rintro rfl
    simp [ho] at hcookie
  obtain ⟨email, password, profile, hfields, hlogin, -⟩ := updateCookie_ok hupdate hne
  refine ⟨email, password, hfields, ?_⟩
  have hsound : LoginSound hash (signups routes s₀.fs loc pre) :=
    loginSound_of_plain hash fun body hbody => by
      obtain ⟨io, hio, rfl⟩ := List.mem_map.mp hbody
      obtain ⟨hmem, hasks⟩ := List.mem_filter.mp hio
      exact hplain io hmem (by simpa using hasks)
  obtain ⟨before, body, after, name, password', hbodies, haccept, hfields', hhash⟩ :=
    hsound _ _ _ hlogin
  obtain ⟨pre', e', o', post', rfl, he', rfl, rfl⟩ := exists_signup hbodies
  have h' : FirstRun paramList hash routes loc s₀
      (pre' ++ (e', o') :: (post' ++ (e, o) :: post)) s := by simpa using h
  refine ⟨pre', e', o', post', name, password', rfl, he', ?_, hfields', hhash⟩
  rcases h'.signup he' with ⟨-, rfl⟩ | ⟨hnot, -⟩
  · rfl
  · exact absurd haccept hnot

/-! ## Verification mails -/

/-- A mail goes to an address that no line of the database has, as the sign-ups before have made
it. -/
theorem FirstRun.recipient (h : FirstRun paramList hash routes loc s₀ (pre ++ (e, o) :: post) s)
    (he : Asks routes s₀.fs loc .sendVerification e) {mail : Mail} (hmail : mail ∈ o.2) :
    emailExists (signupStrings hash (signups routes s₀.fs loc pre)) mail.recipient = false := by
  obtain ⟨handler, fs, fs', hkind, hrespond, hdatabase⟩ := h.respond he
  unfold AuthenticationHandler.respond at hrespond
  simp only [hkind, hdatabase] at hrespond
  split at hrespond
  · next res mails hsend =>
    obtain ⟨rfl, -⟩ := Prod.mk.inj (Except.ok.inj hrespond)
    exact recipient_of_sendVerification hsend hmail
  · cases hrespond

/-- The email of a sign-up that is refused is there. -/
theorem emailExists_of_refused {bodies : List Str} {body name password email : Str}
    (hfields : fields body = [name, password, email]) (h : ¬ Accepted hash bodies body) :
    emailExists (signupStrings hash bodies) email = true := by
  have hsignup : signupString hash (signupStrings hash bodies) body =
      signup hash (signupStrings hash bodies) email name password := by
    rw [signupString, hfields]
  rw [Accepted, hsignup] at h
  rcases signup_cases hash (signupStrings hash bodies) email name password with ⟨hthere, -⟩ |
    ⟨-, userId, heq⟩
  · exact hthere
  · exact absurd (by rw [heq]) h

/-- An email that the database has got between two calls is the one of an accepted sign-up between
them, if neither their names nor their emails have line breaks. -/
theorem exists_accepted_of_emailExists {before bodies : List Str} {email : Str}
    (hplain : ∀ body ∈ bodies, ∀ name password email, fields body = [name, password, email] →
      '\n' ∉ name ∧ '\n' ∉ email)
    (hfree : emailExists (signupStrings hash before) email = false)
    (hthere : emailExists (signupStrings hash (before ++ bodies)) email = true) :
    ∃ b₁ body b₂ name password, bodies = b₁ ++ body :: b₂ ∧ Accepted hash (before ++ b₁) body ∧
      fields body = [name, password, email] := by
  induction bodies using List.reverseRecOn with
  | nil => simp [hfree] at hthere
  | append_singleton bodies body ih =>
    have hearlier : emailExists (signupStrings hash (before ++ bodies)) email = true →
        ∃ b₁ b b₂ name password, bodies ++ [body] = b₁ ++ b :: b₂ ∧ Accepted hash (before ++ b₁) b ∧
          fields b = [name, password, email] := fun hearlier => by
      obtain ⟨b₁, b, b₂, name, password, rfl, h⟩ :=
        ih (fun b hb => hplain b (by simp [hb])) hearlier
      exact ⟨b₁, b, b₂ ++ [body], name, password, by simp, h⟩
    rw [← List.append_assoc] at hthere
    by_cases haccept : Accepted hash (before ++ bodies) body
    · obtain ⟨name, password, email', hfields⟩ := haccept.fields
      obtain ⟨hname, hemail⟩ := hplain body (by simp) name password email' hfields
      obtain ⟨-, userId, -, -, hlines⟩ := lines_accepted haccept hfields
      rw [splitOn_record hemail hname (hash.newline_not_mem password)] at hlines
      obtain ⟨line, hline, hmark⟩ := emailExists_iff.mp hthere
      rw [hlines, List.mem_append, List.mem_singleton] at hline
      rcases hline with hline | rfl
      · exact hearlier (emailExists_iff.mpr ⟨line, hline, hmark⟩)
      · -- The line is the record, whose mark is its email.
        have hbar : '|' ∉ email' := (bar_not_mem_of_fields hfields).2
        rw [record, mark_two (bar_not_mem_decimal userId) hbar] at hmark
        obtain rfl := Option.some.inj hmark
        exact ⟨bodies, body, [], name, password, rfl, haccept, hfields⟩
    · rw [signupStrings_rejected haccept] at hthere
      exact hearlier hthere

/-- In every run, verification mails go to addresses without an account: none goes to an address
that has signed up before. Behind a mail, a sign-up with its address is refused only if another one
with this address was accepted in between. -/
theorem mails_free
    (h : FirstRun paramList hash routes loc s₀ (pre ++ (e, o) :: (mid ++ (e', o') :: post)) s)
    {name password email : Str} (hemail : '\n' ∉ email) :
    (Asks routes s₀.fs loc .signupSubmit e → fields e.request.body = [name, password, email] →
      o.1.1.status = 200 → Asks routes s₀.fs loc .sendVerification e' →
      ∀ mail ∈ o'.2, mail.recipient ≠ email) ∧
    (Asks routes s₀.fs loc .sendVerification e → (∃ mail ∈ o.2, mail.recipient = email) →
      Asks routes s₀.fs loc .signupSubmit e' → fields e'.request.body = [name, password, email] →
      (∀ io ∈ mid, Asks routes s₀.fs loc .signupSubmit io.1 →
        ∀ name password email, fields io.1.request.body = [name, password, email] →
          '\n' ∉ name ∧ '\n' ∉ email) →
      o'.1.1.status ≠ 200 →
      ∃ b₁ e'' o'' b₂ name' password', mid = b₁ ++ (e'', o'') :: b₂ ∧
        Asks routes s₀.fs loc .signupSubmit e'' ∧ o''.1.1.status = 200 ∧
        fields e''.request.body = [name', password', email]) := by
  have h' : FirstRun paramList hash routes loc s₀
      ((pre ++ (e, o) :: mid) ++ (e', o') :: post) s := by
    simpa using h
  constructor
  · -- The line of the account is still there, and a mail goes to no address that a line has.
    rintro he hfields hok he' mail hmail rfl
    have hfree := h'.recipient he' hmail
    obtain ⟨line, hline, hcolumn⟩ := (h.accepted he hok).column hfields hemail
      (signups routes s₀.fs loc mid)
    rw [signups_append, signups_cons he, emailExists_iff.mpr ⟨line, hline, mark_of_column hcolumn⟩]
      at hfree
    cases hfree
  · -- The address has got its line between the mail and the sign-up that is refused.
    rintro he ⟨mail, hmail, rfl⟩ he' hfields hplain hrefused
    have hfree := h.recipient he hmail
    have hnot : ¬ Asks routes s₀.fs loc .signupSubmit e :=
      fun hsignup => by cases he.kind_eq hsignup
    have hthere : emailExists (signupStrings hash (signups routes s₀.fs loc pre ++
        signups routes s₀.fs loc mid)) mail.recipient = true := by
      rcases h'.signup he' with ⟨-, rfl⟩ | ⟨hrefuse, -⟩
      · exact absurd rfl hrefused
      · rw [signups_append, signups_cons_of_not hnot] at hrefuse
        exact emailExists_of_refused hfields hrefuse
    obtain ⟨b₁, body, b₂, name', password', hbodies, haccept, hfields'⟩ :=
      exists_accepted_of_emailExists (fun body hbody => by
        obtain ⟨io, hio, rfl⟩ := List.mem_map.mp hbody
        obtain ⟨hmem, hasks⟩ := List.mem_filter.mp hio
        exact hplain io hmem (by simpa using hasks)) hfree hthere
    obtain ⟨pre', e'', o'', post', rfl, he'', rfl, rfl⟩ := exists_signup hbodies
    refine ⟨pre', e'', o'', post', name', password', rfl, he'', ?_, hfields'⟩
    have h'' : FirstRun paramList hash routes loc s₀
        ((pre ++ (e, o) :: pre') ++ (e'', o'') :: (post' ++ (e', o') :: post)) s := by simpa using h
    rcases h''.signup he'' with ⟨-, rfl⟩ | ⟨hrefuse, -⟩
    · rfl
    · rw [signups_append, signups_cons_of_not hnot] at hrefuse
      exact absurd haccept hrefuse

end

/-! Runs of a server that starts without accounts. -/

section Sample

/-- A sign-up, which is answered 200. -/
def sampleSignup : Incoming × Output :=
  (sampleRequest "signup-submit".toList "n|pw|e@x".toList, ((⟨200, [], "OK".toList⟩, []), []))

/-- The same one, refused. -/
def sampleRefused : Incoming × Output :=
  (sampleRequest "signup-submit".toList "n|pw|e@x".toList, ((badRequest, []), []))

/-- A login to this account, and its cookie. -/
def sampleLogin : Incoming × Output :=
  (sampleRequest "login-submit".toList "crazyCode|e@x|pw".toList,
    ((bare 200, "crazyCode=\"1|n|e@x\"; Path=/".toList), []))

/-- A request for a mail to its address, which is sent. -/
def sampleMail : Incoming × Output :=
  (sampleRequest "signup-send-verification".toList "e@x|n|77".toList,
    ((bare 200, []), [⟨"e@x".toList, verificationContent "n".toList "77".toList⟩]))

/-- The run of these requests. -/
abbrev SampleRun (tr : List (Incoming × Output)) : Prop :=
  ∃ s, FirstRun quotedParams sampleHash sampleRoutes sampleDatabase sampleStart tr s

/-- Without a cookie nobody is logged in. -/
theorem updateUser_sample (name body : Str) : updateUser quotedParams
    (sampleRequest name body).cookie ⟨0, [], [], false⟩ = .ok (false, ⟨0, [], [], false⟩) := by
  show updateUser quotedParams [] ⟨0, [], [], false⟩ = _
  decide

/-- The path of the database is not too long. -/
theorem fits_authentication (e : Incoming) :
    ∀ handler ∈ authentication sampleRoutes e, handler.DatabaseFits := fun handler he => by
  rw [authentication_sample he]
  exact fits_sample

/-- The sign-up is for the database. -/
theorem asks_sampleSignup :
    Asks sampleRoutes sampleStart.fs sampleDatabase .signupSubmit sampleSignup.1 :=
  asks_sample (by decide) (by decide) _

/-- So is the login. -/
theorem asks_sampleLogin :
    Asks sampleRoutes sampleStart.fs sampleDatabase .loginSubmit sampleLogin.1 :=
  asks_sample (by decide) (by decide) _

/-- So is the request for a mail. -/
theorem asks_sampleMail :
    Asks sampleRoutes sampleStart.fs sampleDatabase .sendVerification sampleMail.1 :=
  asks_sample (by decide) (by decide) _

/-- The start. -/
theorem sampleRun_nil : SampleRun [] :=
  ⟨_, ready_sample, guarded_sample, by decide, by simp, .nil⟩

/-- The mail can be sent as long as nobody has signed up. -/
theorem sampleRun_mail : SampleRun [sampleMail] := by
  obtain ⟨s, h⟩ := sampleRun_nil
  exact h.exists_verification (updateUser_sample _ _) (fits_authentication _) (by decide)
    asks_sampleMail (by decide)

/-- The first sign-up is accepted. -/
theorem SampleRun.signup {tr : List (Incoming × Output)} (h : SampleRun tr)
    (hnone : signups sampleRoutes sampleStart.fs sampleDatabase tr = []) :
    SampleRun (tr ++ [sampleSignup]) := by
  obtain ⟨s, h⟩ := h
  have haccepted : (signupString sampleHash (signupStrings sampleHash
      (signups sampleRoutes sampleStart.fs sampleDatabase tr)) "n|pw|e@x".toList).1 = true := by
    rw [hnone]
    exact congrArg Prod.fst signupString_sample
  exact h.exists_signup (updateUser_sample _ _) (fits_authentication _) (by decide)
    asks_sampleSignup haccepted

/-- The second one is not. -/
theorem SampleRun.refused {tr : List (Incoming × Output)} (h : SampleRun tr)
    (hone : signups sampleRoutes sampleStart.fs sampleDatabase tr = ["n|pw|e@x".toList]) :
    SampleRun (tr ++ [sampleRefused]) := by
  obtain ⟨s, h⟩ := h
  have haccepted : (signupString sampleHash (signupStrings sampleHash
      (signups sampleRoutes sampleStart.fs sampleDatabase tr)) "n|pw|e@x".toList).1 = false := by
    rw [hone]
    decide
  exact h.exists_signup (updateUser_sample _ _) (fits_authentication _) (by decide)
    asks_sampleSignup haccepted

/-- The login to the account. -/
theorem SampleRun.login {tr : List (Incoming × Output)} (h : SampleRun tr)
    (hone : signups sampleRoutes sampleStart.fs sampleDatabase tr = ["n|pw|e@x".toList]) :
    SampleRun (tr ++ [sampleLogin]) := by
  obtain ⟨s, h⟩ := h
  have hcookie : updateCookie sampleHash (signupStrings sampleHash ["n|pw|e@x".toList])
      "crazyCode|e@x|pw".toList = .ok "\"1|n|e@x\"".toList := by decide
  exact h.exists_login (updateUser_sample _ _) (fits_authentication _) (by decide) asks_sampleLogin
    (by rwa [hone])

/-- The sign-ups of a run that begins with the first one. -/
theorem signups_sample : signups sampleRoutes sampleStart.fs sampleDatabase [sampleSignup] =
    ["n|pw|e@x".toList] := signups_cons asks_sampleSignup _ []

/-- The fields of the sign-up. -/
theorem fields_sampleSignup : fields sampleSignup.1.request.body =
    ["n".toList, "pw".toList, "e@x".toList] := by decide

/-- Its name and its email are plain. -/
theorem qdtext_sampleSignup : ∀ c ∈ "n".toList ++ "e@x".toList, Qdtext c := by
  have hall : ("n".toList ++ "e@x".toList).all (fun c => decide (Qdtext c)) = true := by decide
  simpa only [List.all_eq_true, decide_eq_true_eq] using hall

/-- A second sign-up with the same email. -/
theorem signs_up_once_two : sampleRefused.2 = ((badRequest, []), []) := by
  obtain ⟨s, h⟩ := (sampleRun_nil.signup rfl).refused signups_sample
  exact @signs_up_once _ _ _ _ _ _ [] [] [] _ _ _ _ h asks_sampleSignup asks_sampleSignup _ _ _ _ _
    fields_sampleSignup fields_sampleSignup (by decide) rfl

/-- The account behind a login. -/
theorem login_needs_signup_sample : ∃ email password,
    fields sampleLogin.1.request.body = ["crazyCode".toList, email, password] ∧
      ∃ before e o after name password', [sampleSignup] = before ++ (e, o) :: after ∧
        Asks sampleRoutes sampleStart.fs sampleDatabase .signupSubmit e ∧ o.1.1.status = 200 ∧
        fields e.request.body = [name, password', email] ∧
        sampleHash.hashPass password' = sampleHash.hashPass password := by
  obtain ⟨s, h⟩ := (sampleRun_nil.signup rfl).login signups_sample
  refine @login_needs_signup _ _ _ _ _ _ [sampleSignup] [] _ _ h ?_ asks_sampleLogin (by decide)
  rintro io hio - name password email hfields
  obtain rfl := List.mem_singleton.mp hio
  obtain ⟨-, -, rfl⟩ : "n".toList = name ∧ "pw".toList = password ∧ "e@x".toList = email := by
    simpa using fields_sampleSignup.symm.trans hfields
  decide

/-- A mail to an address with which another sign-up is accepted before the second one. -/
theorem mails_free_sample : ∃ b₁ e o b₂ name password, [sampleSignup] = b₁ ++ (e, o) :: b₂ ∧
    Asks sampleRoutes sampleStart.fs sampleDatabase .signupSubmit e ∧ o.1.1.status = 200 ∧
    fields e.request.body = [name, password, "e@x".toList] := by
  have hnot : ¬ Asks sampleRoutes sampleStart.fs sampleDatabase .signupSubmit sampleMail.1 :=
    fun h => by cases asks_sampleMail.kind_eq h
  have hnone : signups sampleRoutes sampleStart.fs sampleDatabase [sampleMail] = [] :=
    signups_cons_of_not hnot _ []
  have hone : signups sampleRoutes sampleStart.fs sampleDatabase [sampleMail, sampleSignup] =
      ["n|pw|e@x".toList] := (signups_cons_of_not hnot _ _).trans signups_sample
  obtain ⟨s, h⟩ := (sampleRun_mail.signup hnone).refused hone
  refine (@mails_free _ _ _ _ _ _ [] [sampleSignup] [] _ _ _ _ h _ _ _ (by decide)).2
    asks_sampleMail ⟨_, List.mem_singleton_self _, rfl⟩ asks_sampleSignup fields_sampleSignup ?_
    (by decide)
  rintro io hio - name password email hfields
  obtain rfl := List.mem_singleton.mp hio
  obtain ⟨rfl, -, rfl⟩ : "n".toList = name ∧ "pw".toList = password ∧ "e@x".toList = email := by
    simpa using fields_sampleSignup.symm.trans hfields
  decide

end Sample

end CrazyCode.Site
