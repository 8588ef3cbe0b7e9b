import CrazyCode.Api.Runs
import CrazyCode.Profile.Accounts
import CrazyCode.Session.Authentication

/-!
# Sessions

`session::update_user` of `src/session.cc` makes a profile of a `Cookie` header, and
`session::handle_read` hands it to the handler that the table of routes has for the target. The
splitting of the header into parameters is Boost.Beast's `param_list`, of which nothing is known
here.

The runs are those of sign-ups, logins, logouts and API requests, each with a header that its client
chooses. All handlers work on one file system, and each API location has its own index. An exception
ends the server, and is no step. `writes_need_cookie` says what a client needs to change API data: a
`crazyCode` parameter of the shape that the cookies of logins have. It need not be one that the
server has issued (`not_writes_need_issued`): the server keeps no record of them.
-/

namespace CrazyCode.Session

open Text Decimal Posix Profile Server

variable (paramList : Str → List (Str × Str))

/-- The value of the first parameter `crazyCode` of a `Cookie` header. -/
def crazyCode (cookieString : Str) : Option Str :=
  ((paramList (';' :: cookieString)).find? fun param => param.1 = "crazyCode".toList).map (·.2)

/-- `session::update_user`: its answer, and the profile it sets. -/
def updateUser (cookieString : Str) (user : UserProfile) :
    Except StoiError (Bool × UserProfile) :=
  match crazyCode paramList cookieString with
  | some data =>
    match fields data with
    | [id, username, email] =>
      match stoi id with
      | .ok userId => .ok (true, ⟨userId, username, email, true⟩)
      | .error error => .error error
    | _ => .ok (false, user)
  | none => .ok (false, user)

/-- The shape of a cookie's value: three fields, and a number for the first. -/
def IsProfile (value : Str) : Prop :=
  ∃ id username email userId, fields value = [id, username, email] ∧ stoi id = .ok userId

variable {paramList} in
/-- A user is logged in by a parameter `crazyCode` of the shape of a cookie's value, or was
before. -/
theorem updateUser_logged_in {cookieString : Str} {user user' : UserProfile} {answer : Bool}
    (h : updateUser paramList cookieString user = .ok (answer, user'))
    (hlogin : user'.loginStatus = true) :
    user.loginStatus = true ∨
      ∃ value, crazyCode paramList cookieString = some value ∧ IsProfile value := by
  unfold updateUser at h
  cases hvalue : crazyCode paramList cookieString with
  | none =>
    simp only [hvalue, Except.ok.injEq, Prod.mk.injEq] at h
    exact .inl (h.2 ▸ hlogin)
  | some value =>
    simp only [hvalue] at h
    split at h
    · next id username email hfields =>
      split at h
      · next userId hid => exact .inr ⟨value, rfl, id, username, email, userId, hfields, hid⟩
      · cases h
    · obtain ⟨-, rfl⟩ := Prod.mk.inj (Except.ok.inj h)
      exact .inl hlogin

/-! ## Runs -/

/-- A request, the `Cookie` header that its client has chosen, and the order in which the system
lists the entries below the root to the handler of an API request. -/
structure Event where
  cookie : Str
  request : Request
  listing : List (List Str)

/-- The file system, and the index of each API location. -/
structure State where
  fs : FileSystem
  pathCounts : Str → Api.PathCounts

variable (hash : PasswordHash) (routes : Routes)

/-- `session::handle_read`, with the profile that a session begins with; `none` is an exception, or
a request for a handler that has to do with neither accounts nor API data. -/
def handleRead (s : State) (e : Event) : Option (Answer × State) :=
  match updateUser paramList e.cookie ⟨0, [], [], false⟩ with
  | .error _ => none
  | .ok (_, profile) =>
    let location := matchRoute routes e.request.target
    match routes location with
    | some ⟨.api, config⟩ =>
      match Api.serve (getRoot config location) e.listing profile ⟨s.fs, s.pathCounts location⟩
        e.request with
      | .ok (res, api) =>
        some ((res, []), ⟨api.fs, Function.update s.pathCounts location api.pathCounts⟩)
      | .error _ => none
    | some ⟨.authentication, config⟩ =>
      match (createAuthentication ⟨.authentication, config⟩ location).handleRequest hash s.fs
        e.request with
      | some (answer, fs) => some (answer, ⟨fs, s.pathCounts⟩)
      | none => none
    | _ => none

/-- One request. For an API request the listing is one of the entries below the root. -/
def Step (s : State) (e : Event) (o : Answer) (s' : State) : Prop :=
  (∀ config top, routes (matchRoute routes e.request.target) = some ⟨.api, config⟩ →
    s.fs.resolve (getRoot config (matchRoute routes e.request.target)) = some top →
    Api.IsListing s.fs top e.listing) ∧
  handleRead paramList hash routes s e = some (o, s')

/-- A request for the API that may change data. -/
def Event.Writes (e : Event) : Prop :=
  (∃ config, routes (matchRoute routes e.request.target) = some ⟨.api, config⟩) ∧
    (e.request.method = .post ∨ e.request.method = .put ∨ e.request.method = .delete)

/-- A cookie with this content has been issued. -/
def IssuedIn (tr : List (Event × Answer)) (value : Str) : Prop :=
  ∃ e res, (e, (res, "crazyCode=\"".toList ++ value ++ "\"; Path=/".toList)) ∈ tr

variable {paramList hash routes}

/-- `handle_read` of a request that the table sends to the API. -/
theorem handleRead_api {s : State} {e : Event} {profile : UserProfile} {answer : Bool}
    {config : List Path} {res : Response} {api : Api.State}
    (huser : updateUser paramList e.cookie ⟨0, [], [], false⟩ = .ok (answer, profile))
    (hroute : routes (matchRoute routes e.request.target) = some ⟨.api, config⟩)
    (hserve : Api.serve (getRoot config (matchRoute routes e.request.target)) e.listing profile
      ⟨s.fs, s.pathCounts (matchRoute routes e.request.target)⟩ e.request = .ok (res, api)) :
    handleRead paramList hash routes s e = some ((res, []), ⟨api.fs, Function.update s.pathCounts
      (matchRoute routes e.request.target) api.pathCounts⟩) := by
  unfold handleRead
  simp only [huser, hroute, hserve]

/-- A step in which API data is changed is one of a client with a cookie of the right shape. -/
theorem Step.cookie {s s' : State} {e : Event} {o : Answer}
    (h : Step paramList hash routes s e o s') (hwrites : e.Writes routes)
    (hok : o.1.status = 200 ∨ o.1.status = 201) :
    ∃ value, crazyCode paramList e.cookie = some value ∧ IsProfile value := by
  obtain ⟨-, hread⟩ := h
  obtain ⟨⟨config, hroute⟩, hmethod⟩ := hwrites
  unfold handleRead at hread
  split at hread
  · cases hread
  · next answer profile huser =>
    cases hlogin : profile.loginStatus with
    | true => exact (updateUser_logged_in huser hlogin).resolve_left (by simp)
    | false =>
      -- Without a login the answer would be a bad request.
      exfalso
      simp only [hroute] at hread
      split at hread
      · next res api hserve =>
        obtain ⟨rfl, -⟩ := Prod.mk.inj (Option.some.inj hread)
        unfold Api.serve at hserve
        split at hserve
        · next pathCounts _ =>
          rw [Api.handleRequest_logged_out _ ⟨s.fs, pathCounts⟩ hlogin
            (by rintro hget; simp [hget] at hmethod)] at hserve
          obtain ⟨rfl, -⟩ := Prod.mk.inj (Except.ok.inj hserve)
          rcases hok with hok | hok <;> cases hok
        · cases hserve
      · cases hread

/-- In every run, an API request that may change data is answered 200 or 201 only if the first
parameter `crazyCode` of its `Cookie` header has the shape of a cookie's value. -/
theorem writes_need_cookie {s₀ s : State} {tr : List (Event × Answer)}
    (hrun : Run (Step paramList hash routes) s₀ tr s) {e : Event} {o : Answer}
    (hmem : (e, o) ∈ tr) (hwrites : e.Writes routes)
    (hok : o.1.status = 200 ∨ o.1.status = 201) :
    ∃ value, crazyCode paramList e.cookie = some value ∧ IsProfile value := by
  obtain ⟨_, _, _, _, hstep, _⟩ := hrun.exists_step hmem
  exact hstep.cookie hwrites hok

/-! A client that has never logged in, and chooses its cookie. -/

/-- The parameters of the client's header. -/
def forgedParams : Str → List (Str × Str) := fun s =>
  if s = ";crazyCode=\"1|x|y\"".toList then [("crazyCode".toList, "1|x|y".toList)] else []

/-- A configuration with one API location `/api`, whose root is `/r`. -/
def apiPaths : List Path := [{ type := .api, endpoint := "/api".toList, root := "/r".toList }]

/-- The table of this configuration. -/
def apiRoutes : Routes := fun location =>
  if location = "/api".toList then some ⟨.api, apiPaths⟩ else none

/-- The client's request. -/
def forgedPost : Event :=
  ⟨"crazyCode=\"1|x|y\"".toList, ⟨.post, "/api/E".toList, "x".toList⟩, Api.listingOf []⟩

/-- A server with no accounts, and an entity without files. -/
def noAccounts : State := ⟨(Api.storedIds []).fs, fun _ => (Api.storedIds []).pathCounts⟩

/-- The location of the client's request. -/
theorem matchRoute_forgedPost : matchRoute apiRoutes forgedPost.request.target = "/api".toList := by
  show matchRoute apiRoutes "/api/E".toList = "/api".toList
  rw [matchRoute, if_neg (by decide)]
  show matchRoute apiRoutes "/api".toList = "/api".toList
  rw [matchRoute, if_pos (by decide)]

/-- The table sends it to the API. -/
theorem route_forgedPost :
    apiRoutes (matchRoute apiRoutes forgedPost.request.target) = some ⟨.api, apiPaths⟩ := by
  rw [matchRoute_forgedPost]
  exact if_pos rfl

/-- The root of its location. -/
theorem root_forgedPost :
    getRoot apiPaths (matchRoute apiRoutes forgedPost.request.target) = "/r".toList := by
  rw [matchRoute_forgedPost]
  rfl

/-- The request makes a file. -/
theorem step_forgedPost : ∃ s', Step forgedParams sampleHash apiRoutes noAccounts forgedPost
    (Api.created "/r/E".toList 1, []) s' := by
  have huser : updateUser forgedParams forgedPost.cookie ⟨0, [], [], false⟩ =
      .ok (true, ⟨1, "x".toList, "y".toList, true⟩) := rfl
  have hlisting : Api.IsListing (Api.storedIds []).fs [['r']] (Api.listingOf []) :=
    Api.isListing_storedIds .nil
  have hstore : Api.Store [['r']] (Api.storedIds []).fs := Api.store_storedIds (by decide)
  have hanswer : (Api.handleRequest "/r".toList ⟨1, "x".toList, "y".toList, true⟩
      ⟨(Api.storedIds []).fs, Api.indexed (Api.listingOf []) (Api.storedIds []).pathCounts⟩
      forgedPost.request).1 = Api.created "/r/E".toList 1 := by decide +kernel
  obtain ⟨api, hserve⟩ : ∃ api, Api.serve
      (getRoot apiPaths (matchRoute apiRoutes forgedPost.request.target)) forgedPost.listing
      ⟨1, "x".toList, "y".toList, true⟩ ⟨noAccounts.fs, noAccounts.pathCounts
        (matchRoute apiRoutes forgedPost.request.target)⟩ forgedPost.request =
      .ok (Api.created "/r/E".toList 1, api) := by
    rw [root_forgedPost, ← hanswer]
    exact ⟨_, Api.serve_eq (Api.resolve_storedIds []) hstore hlisting _ _⟩
  refine ⟨_, fun config top hroute htop => ?_, handleRead_api huser route_forgedPost hserve⟩
  obtain rfl : apiPaths = config := by simpa using route_forgedPost.symm.trans hroute
  rw [root_forgedPost] at htop
  obtain rfl := Option.some.inj ((Api.resolve_storedIds []).symm.trans htop)
  exact hlisting

/-- The cookie of this client has the shape of a cookie's value. -/
theorem writes_need_cookie_forged :
    ∃ value, crazyCode forgedParams forgedPost.cookie = some value ∧ IsProfile value := by
  obtain ⟨s', hstep⟩ := step_forgedPost
  exact writes_need_cookie (Run.nil.snoc hstep) (List.mem_singleton_self _)
    ⟨⟨_, route_forgedPost⟩, .inl rfl⟩ (.inr rfl)

/-- No cookie has been issued to this client, and its request is answered 201. -/
theorem not_writes_need_issued : ¬ ∀ (hash : PasswordHash) (routes : Routes) (s₀ s : State)
    (tr post : List (Event × Answer)) (e : Event) (o : Answer),
    Run (Step forgedParams hash routes) s₀ (tr ++ (e, o) :: post) s → e.Writes routes →
    (o.1.status = 200 ∨ o.1.status = 201) →
    ∃ value, crazyCode forgedParams e.cookie = some value ∧ IssuedIn tr value := fun h => by
  obtain ⟨s', hstep⟩ := step_forgedPost
  obtain ⟨value, -, e, res, hmem⟩ := h sampleHash apiRoutes noAccounts s' [] [] forgedPost _
    (Run.nil.snoc hstep) ⟨⟨_, route_forgedPost⟩, .inl rfl⟩ (.inr rfl)
  simp at hmem

end CrazyCode.Session
