import CrazyCode.Server.Configured
import CrazyCode.Server.Replies
import CrazyCode.Session.Session
import CrazyCode.Session.Verification

/-!
# The whole server

`session::handle_read` with all handlers. A request is answered by the handler that the table of
routes has for its target, which is made for the profile of its cookie. The handlers work on one
file system, and each API location has an index of its own. An exception ends the server
(`Failure`), and is no step of a run; the check of a path that is too long for the system is one
(`checked`). Requests are handled one after the other, each on a connection that takes the response.

`handleRead_eq_session` says that on the handlers of `Session/Session` this is the function there.
-/

namespace CrazyCode.Site

open Text Decimal Posix Profile Server Session

/-! ## The handlers without a state -/

/-- What `request_echo_handler` and `request_health_handler` have in common: they answer their
location only, with any slashes behind it. -/
def answerExactly (location target : Str) (res : Response) : Response :=
  if location ≠ trimSlashes target then notFound else res

/-- `request_echo_handler::handle_request`, for a request that is printed as `text`. -/
def handleEcho (location text target : Str) : Response :=
  answerExactly location target ⟨200, "text/plain".toList, text⟩

/-- `request_health_handler::handle_request`. -/
def handleHealth (location target : Str) : Response :=
  answerExactly location target ⟨200, "text/plain".toList, "OK".toList⟩

/-- `request_sleep_handler::handle_request`, which sleeps for ten times as long as it says. -/
def handleSleep : Response :=
  ⟨200, "text/plain".toList, "This request slept: 200000 microseconds".toList⟩

/-- `request_404_handler::handle_request`. -/
def handle404 : Response := notFound

/-- `api_console_handler::handle_request`: the console is for users that have logged in. -/
def handleConsole (h : ApiConsoleHandler) (profile : UserProfile) (fs : FileSystem) : Response :=
  if profile.loginStatus = false then html 401 (stockReply 401)
  else html 200 (readPage fs (h.root ++ "/console.html".toList))

/-! ## One request -/

/-- A request with the `Cookie` header of its client and the listing for its handler, the text that
it is printed as, and what becomes of a connection to the mail server. -/
structure Incoming extends Event where
  text : Str
  smtp : Smtp

/-- What ends the server: an exception that nothing catches, or a call through a null pointer. -/
inductive Failure where
  /-- `stoi` on the id of a cookie -/
  | cookie (error : StoiError)
  /-- the constructor of the API handler -/
  | scan (error : Api.ScanError)
  /-- the authentication handler -/
  | authentication (fault : AuthenticationHandler.Fault)
  /-- `substr` in the static handler -/
  | outOfRange
  /-- `exists` or `is_directory`, for a path that is too long -/
  | tooLong
  /-- `routes_[location]->create` without a factory -/
  | nullFactory
deriving DecidableEq

/-- What a request is answered with: the response, its `Set-Cookie` header, and the mails that are
sent. -/
abbrev Output := Answer × List Mail

variable (paramList : Str → List (Str × Str)) (hash : PasswordHash) (routes : Routes)

/-- A handler is made by a factory, and handles the request. -/
def handle (factory : Factory) (location : Str) (profile : UserProfile) (s : State) (e : Incoming) :
    Except Failure (Output × State) :=
  let plain : Response → Except Failure (Output × State) := fun res => .ok (((res, []), []), s)
  match factory.kind with
  | .staticHandler =>
    match (Static.create factory location).handleRequest s.fs e.request.target with
    | some res => plain res
    | none => .error .outOfRange
  | .echo => plain (handleEcho location e.text e.request.target)
  | .api =>
    match Api.serve (getRoot factory.config location) e.listing profile
      ⟨s.fs, s.pathCounts location⟩ e.request with
    | .ok (res, api) =>
      .ok (((res, []), []), ⟨api.fs, Function.update s.pathCounts location api.pathCounts⟩)
    | .error error => .error (.scan error)
  | .health => plain (handleHealth location e.request.target)
  | .sleep => plain handleSleep
  | .authentication =>
    match (createAuthentication factory location).respond hash e.smtp s.fs e.request with
    | .ok (output, fs) => .ok (output, ⟨fs, s.pathCounts⟩)
    | .error fault => .error (.authentication fault)
  | .apiConsole => plain (handleConsole (createApiConsole factory location) profile s.fs)
  | .handler404 => plain handle404

/-- The path for which a handler asks the system whether it exists, or is a directory. -/
def checkedPath (factory : Factory) (location : Str) (profile : UserProfile) (e : Incoming) :
    Option Str :=
  match factory.kind with
  | .staticHandler => (Static.create factory location).checkedPath e.request.target
  | .api => Api.checkedPath (getRoot factory.config location) profile e.request
  | .authentication => (createAuthentication factory location).checkedPath e.request
  | .apiConsole =>
    if profile.loginStatus = false then none
    else some ((createApiConsole factory location).root ++ "/console.html".toList)
  | .echo | .health | .sleep | .handler404 => none

/-- `session::handle_read`. -/
def handleRead (s : State) (e : Incoming) : Except Failure (Output × State) :=
  match updateUser paramList e.cookie ⟨0, [], [], false⟩ with
  | .error error => .error (.cookie error)
  | .ok (_, profile) =>
    let location := matchRoute routes e.request.target
    match routes location with
    | some factory =>
      match handle hash factory location profile s e with
      | .ok out =>
        -- The files are as they were when the path is checked.
        if (checkedPath factory location profile e).any s.fs.tooLong then .error .tooLong
        else .ok out
      | .error error => .error error
    | none => .error .nullFactory

/-- One request. For an API request the listing is one of the entries below the root. -/
structure Step (s : State) (e : Incoming) (o : Output) (s' : State) : Prop where
  listed : ∀ config top, routes (matchRoute routes e.request.target) = some ⟨.api, config⟩ →
    s.fs.resolve (getRoot config (matchRoute routes e.request.target)) = some top →
    Api.IsListing s.fs top e.listing
  read : handleRead paramList hash routes s e = .ok (o, s')

variable {paramList hash routes}

/-- The profile that the handler of a request gets. -/
def profileOf (paramList : Str → List (Str × Str)) (e : Incoming) : UserProfile :=
  match updateUser paramList e.cookie ⟨0, [], [], false⟩ with
  | .ok (_, profile) => profile
  | .error _ => ⟨0, [], [], false⟩

/-- The path that the handler of a request checks. -/
def checked (paramList : Str → List (Str × Str)) (routes : Routes) (e : Incoming) : Option Str :=
  (routes (matchRoute routes e.request.target)).bind fun factory =>
    checkedPath factory (matchRoute routes e.request.target) (profileOf paramList e) e

/-- A request is answered if its cookie is read, its handler answers it, and the path that the
handler checks is not too long. -/
theorem handleRead_eq_ok_iff {s s' : State} {e : Incoming} {o : Output} :
    handleRead paramList hash routes s e = .ok (o, s') ↔
      (∃ answer profile factory, updateUser paramList e.cookie ⟨0, [], [], false⟩ =
          .ok (answer, profile) ∧ routes (matchRoute routes e.request.target) = some factory ∧
        handle hash factory (matchRoute routes e.request.target) profile s e = .ok (o, s')) ∧
      ∀ path ∈ checked paramList routes e, s.fs.tooLong path = false := by
  unfold handleRead checked profileOf
  cases updateUser paramList e.cookie ⟨0, [], [], false⟩ with
  | error error => simp
  | ok user =>
    obtain ⟨answer, profile⟩ := user
    cases hroute : routes (matchRoute routes e.request.target) with
    | none => simp [hroute]
    | some factory =>
      cases hhandle : handle hash factory (matchRoute routes e.request.target) profile s e with
      | error error => simp [hroute, hhandle]
      | ok out =>
        cases hpath : checkedPath factory (matchRoute routes e.request.target) profile e with
        | none => simp [hroute, hhandle, hpath]
        | some path => cases hlong : s.fs.tooLong path <;> simp [hroute, hhandle, hpath, hlong]

/-! What a request does to the state: an API request is served, a sign-up that is accepted writes
the database of its handler, and nothing else changes anything. -/

/-- The request is for an API handler, which answers it. -/
structure ServedByApi (routes : Routes) (s : State) (e : Incoming) (profile : UserProfile)
    (o : Output)
    (s' : State) (config : List Path) (res : Response) (api : Api.State) : Prop where
  route : routes (matchRoute routes e.request.target) = some ⟨.api, config⟩
  serve : Api.serve (getRoot config (matchRoute routes e.request.target)) e.listing profile
    ⟨s.fs, s.pathCounts (matchRoute routes e.request.target)⟩ e.request = .ok (res, api)
  output : o = ((res, []), [])
  state : s' = ⟨api.fs, Function.update s.pathCounts (matchRoute routes e.request.target)
    api.pathCounts⟩

/-- The authentication handler that a request is for. -/
def authentication (routes : Routes) (e : Incoming) : Option AuthenticationHandler :=
  let location := matchRoute routes e.request.target
  match routes location with
  | some ⟨.authentication, config⟩ => some (createAuthentication ⟨.authentication, config⟩ location)
  | _ => none

/-- A request for an API handler is for no authentication handler. -/
theorem authentication_of_api {e : Incoming} {config : List Path}
    (hroute : routes (matchRoute routes e.request.target) = some ⟨.api, config⟩) :
    authentication routes e = none := by
  simp only [authentication, hroute]

/-- A request that a handler for authentication answers does not change the index, and it changes
files only if it is a sign-up. -/
theorem respond_cases {h : AuthenticationHandler} {smtp : Smtp} {fs fs' : FileSystem}
    {req : Request}
    {output : Output} (hrespond : h.respond hash smtp fs req = .ok (output, fs')) :
    (h.requestKind req.target ≠ .signupSubmit ∧ fs' = fs) ∨
    h.requestKind req.target = .signupSubmit ∧ ∃ accepted database,
      signupString hash (readDatabase fs h.database) req.body = (accepted, database) ∧
      fs' = (if accepted then writeDatabase fs h.database database else fs) ∧
      output = ((if accepted then ⟨200, [], "OK".toList⟩ else badRequest, []), []) := by
  unfold AuthenticationHandler.respond at hrespond
  cases hkind : h.requestKind req.target with
  | signupSubmit =>
    simp only [hkind] at hrespond
    refine .inr ⟨rfl, ?_⟩
    rcases hsignup : signupString hash (readDatabase fs h.database) req.body with
      ⟨_ | _, database⟩ <;>
      simp only [hsignup, Except.ok.injEq, Prod.mk.injEq] at hrespond <;>
      exact ⟨_, _, rfl, hrespond.2.symm, hrespond.1.symm⟩
  | loginSubmit =>
    simp only [hkind] at hrespond
    refine .inl ⟨by simp, ?_⟩
    split at hrespond
    · split at hrespond <;> exact (Prod.mk.inj (Except.ok.inj hrespond)).2.symm
    · cases hrespond
  | sendVerification =>
    simp only [hkind] at hrespond
    refine .inl ⟨by simp, ?_⟩
    split at hrespond
    · exact (Prod.mk.inj (Except.ok.inj hrespond)).2.symm
    · cases hrespond
  | loginPage | logout | signupPage | other =>
    simp only [hkind] at hrespond
    exact .inl ⟨by simp, (Prod.mk.inj (Except.ok.inj hrespond)).2.symm⟩

/-- What a step comes to: it is one of the API, or of the authentication handler, or it leaves the
state as it is. -/
theorem handleRead_cases {s s' : State} {e : Incoming} {o : Output}
    (h : handleRead paramList hash routes s e = .ok (o, s')) :
    ∃ answer profile, updateUser paramList e.cookie ⟨0, [], [], false⟩ = .ok (answer, profile) ∧
      ((∃ config res api, ServedByApi routes s e profile o s' config res api) ∨
      (∃ handler fs, authentication routes e = some handler ∧
        handler.respond hash e.smtp s.fs e.request = .ok (o, fs) ∧ s' = ⟨fs, s.pathCounts⟩) ∨
      (authentication routes e = none ∧
        (∀ config, routes (matchRoute routes e.request.target) ≠ some ⟨.api, config⟩) ∧
        s' = s)) := by
  obtain ⟨⟨answer, profile, ⟨kind, config⟩, huser, hroute, h⟩, -⟩ := handleRead_eq_ok_iff.mp h
  refine ⟨answer, profile, huser, ?_⟩
  unfold handle at h
  have hauthentication : authentication routes e = if kind = .authentication then
      some (createAuthentication ⟨.authentication, config⟩ (matchRoute routes e.request.target))
      else none := by
    simp only [authentication, hroute]
    cases kind <;> rfl
  cases kind with
  | api =>
    simp only at h
    split at h
    · next res api hserve =>
      obtain ⟨ho, hs⟩ := Prod.mk.inj (Except.ok.inj h)
      exact .inl ⟨config, res, api, hroute, hserve, ho.symm, hs.symm⟩
    · cases h
  | authentication =>
    simp only at h
    split at h
    · next output fs hrespond =>
      obtain ⟨ho, hs⟩ := Prod.mk.inj (Except.ok.inj h)
      exact .inr (.inl ⟨_, fs, by simp [hauthentication], ho ▸ hrespond, hs.symm⟩)
    · cases h
  | staticHandler =>
    simp only at h
    split at h
    · exact .inr (.inr ⟨by simp [hauthentication], by simp [hroute],
        (Prod.mk.inj (Except.ok.inj h)).2.symm⟩)
    · cases h
  | echo | health | sleep | apiConsole | handler404 =>
    exact .inr (.inr ⟨by simp [hauthentication], by simp [hroute],
      (Prod.mk.inj (Except.ok.inj h)).2.symm⟩)

/-- A request for an authentication handler has its factory. -/
theorem exists_factory {e : Incoming} {handler : AuthenticationHandler}
    (he : authentication routes e = some handler) :
    ∃ config, routes (matchRoute routes e.request.target) = some ⟨.authentication, config⟩ ∧
      createAuthentication ⟨.authentication, config⟩ (matchRoute routes e.request.target) =
        handler := by
  unfold authentication at he
  dsimp only at he
  split at he
  · next config hroute => exact ⟨config, hroute, Option.some.inj he⟩
  · cases he

/-- It checks what its handler checks. -/
theorem checked_of_authentication {e : Incoming} {handler : AuthenticationHandler}
    (he : authentication routes e = some handler) :
    checked paramList routes e = handler.checkedPath e.request := by
  obtain ⟨config, hroute, rfl⟩ := exists_factory he
  rw [checked, hroute]
  rfl

/-- A request for an API handler checks what that checks. -/
theorem checked_of_api {e : Incoming} {config : List Path}
    (hroute : routes (matchRoute routes e.request.target) = some ⟨.api, config⟩) :
    checked paramList routes e = Api.checkedPath
      (getRoot config (matchRoute routes e.request.target)) (profileOf paramList e) e.request := by
  rw [checked, hroute]
  rfl

/-- A request that an authentication handler answers is a step. -/
theorem step_authentication {s : State} {e : Incoming} {profile : UserProfile} {answer : Bool}
    {handler : AuthenticationHandler} {o : Output} {fs : FileSystem}
    (huser : updateUser paramList e.cookie ⟨0, [], [], false⟩ = .ok (answer, profile))
    (he : authentication routes e = some handler)
    (hrespond : handler.respond hash e.smtp s.fs e.request = .ok (o, fs))
    (hshort : ∀ path ∈ handler.checkedPath e.request, s.fs.tooLong path = false) :
    Step paramList hash routes s e o ⟨fs, s.pathCounts⟩ where
  listed config top hroute := by
    rw [authentication_of_api hroute] at he
    cases he
  read := by
    rw [← checked_of_authentication he] at hshort
    obtain ⟨config, hroute, rfl⟩ := exists_factory he
    refine handleRead_eq_ok_iff.mpr ⟨⟨answer, profile, _, huser, hroute, ?_⟩, hshort⟩
    simp only [handle, hrespond]

/-- A request that an API handler answers is a step. -/
theorem step_api {s : State} {e : Incoming} {profile : UserProfile} {answer : Bool}
    {config : List Path} {res : Response} {api : Api.State}
    (huser : updateUser paramList e.cookie ⟨0, [], [], false⟩ = .ok (answer, profile))
    (hroute : routes (matchRoute routes e.request.target) = some ⟨.api, config⟩)
    (hlisted : ∀ top,
      s.fs.resolve (getRoot config (matchRoute routes e.request.target)) = some top →
      Api.IsListing s.fs top e.listing)
    (hserve : Api.serve (getRoot config (matchRoute routes e.request.target)) e.listing profile
      ⟨s.fs, s.pathCounts (matchRoute routes e.request.target)⟩ e.request = .ok (res, api))
    (hshort : ∀ path ∈ Api.checkedPath (getRoot config (matchRoute routes e.request.target)) profile
      e.request, s.fs.tooLong path = false) :
    Step paramList hash routes s e ((res, []), []) ⟨api.fs, Function.update s.pathCounts
      (matchRoute routes e.request.target) api.pathCounts⟩ where
  listed config' top hroute' htop := by
    obtain rfl : config = config' := by simpa using hroute.symm.trans hroute'
    exact hlisted top htop
  read := by
    refine handleRead_eq_ok_iff.mpr ⟨⟨answer, profile, _, huser, hroute, ?_⟩, ?_⟩
    · simp only [handle, hserve]
    · rwa [checked_of_api hroute, profileOf, huser]

/-- On the API and the authentication handler, apart from its mails and from paths that are too
long, this is the function of `Session/Session`. -/
theorem handleRead_eq_session {s : State} {e : Incoming} {factory : Factory}
    (hroute : routes (matchRoute routes e.request.target) = some factory)
    (hkind : factory.kind = .api ∨ factory.kind = .authentication ∧
      (createAuthentication factory (matchRoute routes e.request.target)).requestKind
        e.request.target ≠ .sendVerification)
    (hshort : ∀ path ∈ checked paramList routes e, s.fs.tooLong path = false) :
    Session.handleRead paramList hash routes s e.toEvent =
      (handleRead paramList hash routes s e).toOption.map fun out => (out.1.1, out.2) := by
  obtain ⟨kind, config⟩ := factory
  rw [checked, hroute, Option.bind_some] at hshort
  unfold profileOf at hshort
  unfold Session.handleRead handleRead
  cases huser : updateUser paramList e.cookie ⟨0, [], [], false⟩ with
  | error _ => rfl
  | ok out =>
    rw [huser] at hshort
    have hany : (checkedPath ⟨kind, config⟩ (matchRoute routes e.request.target) out.2 e).any
        s.fs.tooLong = false := (Option.any_eq_false ..).mpr hshort
    simp only [hroute, hany, Bool.false_eq_true, if_false]
    rcases hkind with hkind | ⟨hkind, hverification⟩ <;> obtain rfl := hkind <;>
      simp only [handle]
    · cases Api.serve _ e.listing out.2 _ e.request with
      | error _ => rfl
      | ok _ => rfl
    · rw [AuthenticationHandler.handleRequest_eq_respond _ hash e.smtp s.fs hverification]
      cases AuthenticationHandler.respond _ hash e.smtp s.fs e.request with
      | error _ => rfl
      | ok _ => rfl

end CrazyCode.Site
