import CrazyCode.Profile.Emails
import CrazyCode.Session.Authentication

/-!
# The authentication handler and its mails

All of `request_authentication_handler::handle_request`, with the request for a verification mail,
which `AuthenticationHandler.handleRequest` leaves out. The handler compares the target with its own
ones, one after the other, and the first one that is equal decides (`requestKind`).

The mail goes out over a connection to another server. How that one takes it is an input (`Smtp`),
and the mails that it has taken are part of the answer. `handleRequest_eq_respond` ties the two
functions together.
-/

namespace CrazyCode.Session

open Text Decimal Posix Profile Server

/-! ## Mails -/

/-- What becomes of a connection to the mail server: whether it is made and its login accepted,
whether the mail is taken, and whether the connection is closed in order. -/
structure Smtp where
  opens : Bool
  sends : Bool
  closes : Bool
deriving DecidableEq

/-- A verification mail. -/
structure Mail where
  recipient : Str
  content : Str
deriving DecidableEq

/-- The content of a verification mail. -/
def verificationContent (username verificationCode : Str) : Str :=
  "Hello ".toList ++ username ++
    (",\n\nPlease enter the following verification code in the Crazy " ++
      "Code website:\n\n").toList ++ verificationCode

/-- An answer without a page or a cookie. -/
def bare (status : ℕ) : Response := ⟨status, [], []⟩

/-- The branch for `-send-verification`: the response, and the mails that were sent; `none` is an
exception of the connection. -/
def sendVerification (database : Option Str) (smtp : Smtp) (data : Str) :
    Option (Response × List Mail) :=
  if ¬ smtp.opens then none
  else
    match find data '|' 0 with
    | none => some (bare 400, [])
    | some emailEnd =>
      match find data '|' (emailEnd + 1) with
      | none => some (bare 400, [])
      | some usernameEnd =>
        let verificationCodeEnd := find data '|' (usernameEnd + 1)
        let email := substr data 0 (some emailEnd)
        let username := substr data (emailEnd + 1) (some (usernameEnd - emailEnd - 1))
        let verificationCode :=
          substr data (usernameEnd + 1) (span (usernameEnd + 1) verificationCodeEnd)
        let outcome :=
          if emailExists database email then (badRequest, [])
          -- An exception of `sendMessage` is caught.
          else if smtp.sends then
            (bare 200, [⟨email, verificationContent username verificationCode⟩])
          else (bare 400, [])
        -- One of `close` is not.
        if smtp.closes then some outcome else none

/-- A mail goes to an address that no line of the database has. -/
theorem recipient_of_sendVerification {database : Option Str} {smtp : Smtp} {data : Str}
    {res : Response} {mails : List Mail}
    (h : sendVerification database smtp data = some (res, mails))
    {mail : Mail} (hmail : mail ∈ mails) : emailExists database mail.recipient = false := by
  unfold sendVerification at h
  split at h
  · cases h
  · split at h
    · obtain ⟨-, rfl⟩ := Prod.mk.inj (Option.some.inj h)
      cases hmail
    · split at h
      · obtain ⟨-, rfl⟩ := Prod.mk.inj (Option.some.inj h)
        cases hmail
      · dsimp only at h
        split_ifs at h with hcloses hthere hsends
        · obtain ⟨-, rfl⟩ := Prod.mk.inj (Option.some.inj h)
          cases hmail
        · obtain ⟨-, rfl⟩ := Prod.mk.inj (Option.some.inj h)
          obtain rfl := List.mem_singleton.mp hmail
          exact Bool.eq_false_iff.mpr hthere
        · obtain ⟨-, rfl⟩ := Prod.mk.inj (Option.some.inj h)
          cases hmail

/-! ## The handler -/

/-- The targets that the handler has an answer of its own for. -/
inductive RequestKind where
  | loginPage
  | loginSubmit
  | logout
  | signupPage
  | signupSubmit
  | sendVerification
  | other
deriving DecidableEq, Repr

namespace AuthenticationHandler

variable (h : AuthenticationHandler)

/-- The comparisons of `handle_request`, in their order. -/
def requestKind (target : Str) : RequestKind :=
  if h.location ++ h.login = target then .loginPage
  else if h.location ++ h.login ++ "-submit".toList = target then .loginSubmit
  else if h.location ++ h.logout = target then .logout
  else if h.location ++ h.signup = target then .signupPage
  else if h.location ++ h.signup ++ "-submit".toList = target then .signupSubmit
  else if h.location ++ h.signup ++ "-send-verification".toList = target then .sendVerification
  else .other

/-- The path of the user database. -/
def database : Str := h.dataPath ++ "/".toList ++ "user_database.txt".toList

/-- The path for which `handle_request`, or the profile manager, asks the system whether it
exists. -/
def checkedPath (req : Request) : Option Str :=
  match h.requestKind req.target with
  | .loginPage => some (h.root ++ "/login.html".toList)
  | .signupPage => some (h.root ++ "/signup.html".toList)
  | .loginSubmit =>
    match fields req.body with
    | [kind, _, _] => if kind = "crazyCode".toList then some h.database else none
    | _ => none
  | .signupSubmit => if (fields req.body).length = 3 then some h.database else none
  -- `email_exists` is asked when both separators are found.
  | .sendVerification => if 1 < req.body.count '|' then some h.database else none
  | .logout | .other => none

/-- The path of the database is one that the system does not find too long. -/
def DatabaseFits : Prop := nul ∉ h.database ∧ FileSystem.WithinLimits h.database

instance : Decidable h.DatabaseFits := inferInstanceAs (Decidable (_ ∧ _))

variable {h} in
/-- What needs the database checks no other path. -/
theorem DatabaseFits.not_tooLong (hfits : h.DatabaseFits) {req : Request}
    (hkind : h.requestKind req.target ≠ .loginPage ∧ h.requestKind req.target ≠ .signupPage)
    (fs : FileSystem) : ∀ path ∈ h.checkedPath req, fs.tooLong path = false := by
  have hdatabase : ∀ path ∈ h.checkedPath req, path = h.database := fun path hpath => by
    unfold checkedPath at hpath
    cases hreq : h.requestKind req.target with
    | loginPage => exact absurd hreq hkind.1
    | signupPage => exact absurd hreq hkind.2
    | loginSubmit =>
      simp only [hreq] at hpath
      split at hpath
      · exact (Option.some.inj (Option.ite_none_right_eq_some.mp hpath).2).symm
      · cases hpath
    | signupSubmit | sendVerification =>
      simp only [hreq] at hpath
      exact (Option.some.inj (Option.ite_none_right_eq_some.mp hpath).2).symm
    | logout | other =>
      simp only [hreq] at hpath
      cases hpath
  intro path hpath
  rw [hdatabase path hpath]
  exact FileSystem.tooLong_of_withinLimits hfits.1 hfits.2 fs

/-- The exceptions that leave `handle_request`. -/
inductive Fault where
  /-- an exception of `std::stoi` -/
  | stoi (error : StoiError)
  /-- an exception of the connection to the mail server -/
  | smtp
deriving DecidableEq

/-- `request_authentication_handler::handle_request`: the answer, the mails that were sent, and the
files. -/
def respond (hash : PasswordHash) (smtp : Smtp) (fs : FileSystem) (req : Request) :
    Except Fault ((Answer × List Mail) × FileSystem) :=
  match h.requestKind req.target with
  | .loginPage => .ok (((html 200 (readPage fs (h.root ++ "/login.html".toList)), []), []), fs)
  | .loginSubmit =>
    match updateCookie hash (readDatabase fs h.database) req.body with
    | .ok newCookie =>
      if newCookie ≠ [] then
        .ok (((bare 200, "crazyCode=".toList ++ newCookie ++ "; Path=/".toList), []), fs)
      else .ok (((bare 400, []), []), fs)
    | .error error => .error (.stoi error)
  | .logout => .ok (((bare 200, "crazyCode=; Path=/; Max-Age=0".toList), []), fs)
  | .signupPage => .ok (((html 200 (readPage fs (h.root ++ "/signup.html".toList)), []), []), fs)
  | .signupSubmit =>
    match signupString hash (readDatabase fs h.database) req.body with
    | (false, _) => .ok (((badRequest, []), []), fs)
    | (true, database) =>
      .ok (((⟨200, [], "OK".toList⟩, []), []), writeDatabase fs h.database database)
  | .sendVerification =>
    match sendVerification (readDatabase fs h.database) smtp req.body with
    | some (res, mails) => .ok (((res, []), mails), fs)
    | none => .error .smtp
  | .other => .ok (((notFound, []), []), fs)

/-- Apart from the mails this is `handleRequest`. -/
theorem handleRequest_eq_respond (hash : PasswordHash) (smtp : Smtp) (fs : FileSystem)
    {req : Request} (hkind : h.requestKind req.target ≠ .sendVerification) :
    h.handleRequest hash fs req =
      (h.respond hash smtp fs req).toOption.map fun out => (out.1.1, out.2) := by
  unfold respond handleRequest requestKind database at *
  dsimp only
  split_ifs at hkind ⊢ with h₁ h₂ h₃ h₄ h₅ h₆
  · rfl
  · dsimp only
    cases updateCookie hash (readDatabase fs _) req.body with
    | error _ => rfl
    | ok newCookie => by_cases hempty : newCookie = [] <;> simp [hempty, Except.toOption, bare]
  · rfl
  · rfl
  · dsimp only
    rcases signupString hash (readDatabase fs _) req.body with ⟨_ | _, database⟩ <;> rfl
  · exact absurd rfl hkind
  · rfl

variable {h} {hash : PasswordHash} {smtp : Smtp} {fs : FileSystem} {req : Request}
variable {content : Option Str}

/-- A sign-up is answered by what `signup_string` says. -/
theorem respond_signupSubmit (hkind : h.requestKind req.target = .signupSubmit)
    (hdatabase : readDatabase fs h.database = content) :
    ∃ fs', h.respond hash smtp fs req =
      .ok (((if (signupString hash content req.body).1 then ⟨200, [], "OK".toList⟩ else badRequest,
        []), []), fs') := by
  unfold respond
  simp only [hkind, hdatabase]
  rcases signupString hash content req.body with ⟨_ | _, database⟩
  · exact ⟨fs, rfl⟩
  · exact ⟨_, rfl⟩

/-- A login is answered with the cookie of `update_cookie`, if that does not throw. -/
theorem respond_loginSubmit (hkind : h.requestKind req.target = .loginSubmit)
    (hdatabase : readDatabase fs h.database = content) {cookie : Str}
    (hcookie : updateCookie hash content req.body = .ok cookie) :
    h.respond hash smtp fs req = .ok (if cookie ≠ [] then
      ((bare 200, "crazyCode=".toList ++ cookie ++ "; Path=/".toList), [])
      else ((bare 400, []), []), fs) := by
  unfold respond
  simp only [hkind, hdatabase, hcookie]
  split <;> rfl

/-- A request for a mail is answered if the connection to the mail server does not throw. -/
theorem respond_sendVerification (hkind : h.requestKind req.target = .sendVerification)
    (hdatabase : readDatabase fs h.database = content) {res : Response} {mails : List Mail}
    (hsend : Session.sendVerification content smtp req.body = some (res, mails)) :
    h.respond hash smtp fs req = .ok (((res, []), mails), fs) := by
  unfold respond
  simp only [hkind, hdatabase, hsend]

end AuthenticationHandler

end CrazyCode.Session
