import CrazyCode.Api.Shared
import CrazyCode.Profile.Throws
import CrazyCode.Session.Decoding
import CrazyCode.Site.Stores
import CrazyCode.Static.Handler

/-!
# What ends the server

An exception that no handler catches ends the server, and with it all sessions. `Running` is what
the files, the indexes and the databases keep as long as ids stay below `INT_MAX`, nothing is posted
to `.` or `..`, and nobody signs up with a line break in the email (`OrderlyStep`): every API root
is an indexed store, and every database is orderly. In such a state the next request ends the server
for three reasons only, a cookie with an id that `stoi` does not read, the check of a path that is
too long, and a connection to the mail server that throws (`answered_iff`). Targets with `..` may be
among the requests.
-/

namespace CrazyCode.Site

open Text Decimal Posix Profile Session
open Server hiding Location

/-- A table with a factory for what no key covers, whose keys are trimmed and whose data paths have
no zero byte. -/
structure Tidy (routes : Routes) : Prop where
  home : (routes ['/']).isSome
  trimmed : ∀ key, (routes key).isSome → trimSlashes key = key
  dataPath : ∀ e handler, authentication routes e = some handler → nul ∉ handler.dataPath

/-- The API roots are indexed stores, and the databases are orderly files. -/
structure Running (routes : Routes) (top : Str → Location) (s : State) : Prop where
  layout : Layout routes top s.fs
  index : ∀ location root, apiRoot routes location = some root →
    Api.Indexed (top location) ⟨s.fs, s.pathCounts location⟩
  database : ∀ e handler, authentication routes e = some handler →
    ∃ loc, s.fs.resolve handler.database = some loc ∧ s.fs.node loc ≠ some .directory ∧
      Orderly (fileAt s.fs loc)

/-- One request. If it is for an API location, no id there is `INT_MAX` yet, and it does not post to
`.` or `..`. If it is a sign-up, its email has no line break. -/
structure OrderlyStep (paramList : Str → List (Str × Str)) (hash : PasswordHash) (routes : Routes)
    (top : Str → Location) (s : State) (e : Incoming) (o : Output) (s' : State) : Prop where
  step : Step paramList hash routes s e o s'
  target : nul ∉ e.request.target
  bounded : (apiRoot routes (matchRoute routes e.request.target)).isSome →
    Api.State.Bounded (top (matchRoute routes e.request.target))
      ⟨s.fs, s.pathCounts (matchRoute routes e.request.target)⟩
  not_dots : e.request.method = .post →
    e.request.target ≠ "/api/.".toList ∧ e.request.target ≠ "/api/..".toList
  email : ∀ handler ∈ authentication routes e,
    handler.requestKind e.request.target = .signupSubmit →
    ∀ name password email, fields e.request.body = [name, password, email] → '\n' ∉ email

section

variable {paramList : Str → List (Str × Str)} {hash : PasswordHash} {routes : Routes}
variable {top : Str → Location} {s s' : State} {e : Incoming} {o : Output}

/-! ## What the requests keep -/

/-- The paths of the configuration lead somewhere. -/
theorem Running.ready (h : Running routes top s) : Ready routes s.fs where
  api _ config hroute :=
    ⟨_, (h.layout.root _ _ (apiRoot_eq_some.mpr ⟨config, hroute, rfl⟩)).2⟩
  database e handler he := (h.database e handler he).imp fun _ => And.left

/-- The databases are guarded. -/
theorem Running.guarded (h : Running routes top s) {handler : AuthenticationHandler}
    (he : authentication routes e = some handler) (hdata : nul ∉ handler.dataPath) {loc : Location}
    (hloc : s.fs.resolve handler.database = some loc) : Guarded routes s.fs loc := by
  obtain ⟨loc', hloc', hdir, -⟩ := h.database e handler he
  obtain rfl : loc' = loc := Option.some.inj (hloc'.symm.trans hloc)
  have hlast : loc'.getLast? = some "user_database.txt".toList := by
    have hpath : handler.database = handler.dataPath ++ '/' :: "user_database.txt".toList := by
      rw [AuthenticationHandler.database, List.append_assoc]
      rfl
    rw [hpath] at hloc
    exact FileSystem.getLast?_of_resolve hdata (by decide) (by decide) hloc hdir
  refine ⟨fun name hname id => ?_, hdir, fun _ location config hroute hroot => ?_⟩
  · obtain rfl := Option.some.inj (hlast.symm.trans hname)
    have hstoi : stoi "user_database.txt".toList = .error .invalidArgument := by decide
    rw [hstoi]
    simp
  · -- A root above the database would be a prefix of its place.
    have happ := apiRoot_eq_some.mpr ⟨config, hroute, rfl⟩
    obtain ⟨loc, hloc', hapart⟩ := h.layout.database e handler location _ he happ
    obtain rfl := Option.some.inj (hloc.symm.trans hloc')
    rw [(h.layout.root _ _ happ).2] at hroot
    exact hapart (Option.some.inj hroot ▸ List.dropLast_prefix _)

/-- A store stays indexed when a file anywhere is replaced. -/
theorem indexed_of_replaces {top : Location} {fs fs' : FileSystem} {pathCounts : Api.PathCounts}
    (h : Api.Indexed top ⟨fs, pathCounts⟩) (hreplaces : Api.Replaces fs fs') :
    Api.Indexed top ⟨fs', pathCounts⟩ := by
  obtain ⟨body, hfile, -⟩ := hreplaces
  cases body with
  | some body => exact h.overwrite hfile body
  | none =>
    refine ⟨h.store.remove _, h.key, h.nodup, h.one_le, h.inOrder, fun entity id hnode => ?_⟩
    rcases fs.set_node_cases _ none (top ++ [entity, decimal id]) with hsame | ⟨-, hgone⟩
    · exact h.files entity id (hsame ▸ hnode)
    · exact absurd hgone hnode

/-- An API request leaves every API root an indexed store: its own by what it does to the index, and
another one since it changes nothing there or replaces a file. -/
theorem OrderlyStep.index_api (hstep : OrderlyStep paramList hash routes top s e o s')
    (h : Running routes top s) {profile : UserProfile} {config : List Path} {res : Response}
    {api : Api.State} (happ : ServedByApi routes s e profile o s' config res api)
    {location root : Str} (hroot : apiRoot routes location = some root) :
    Api.Indexed (top location) ⟨s'.fs, s'.pathCounts location⟩ := by
  have hown := apiRoot_eq_some.mpr ⟨config, happ.route, rfl⟩
  obtain ⟨hnul, hresolve⟩ := h.layout.root _ _ hown
  have hindexed := h.index _ _ hown
  have hlisted := hstep.step.listed config _ happ.route hresolve
  have hbounded := hstep.bounded (by rw [hown]; rfl)
  have hserve := happ.serve
  rw [Api.serve_eq hresolve hindexed.store hlisted, hindexed.indexed_eq hlisted] at hserve
  have heq : Api.handleRequest _ profile _ e.request = (res, api) := Except.ok.inj hserve
  rw [happ.state]
  by_cases hlocation : location = matchRoute routes e.request.target
  · subst hlocation
    have hkeeps := hindexed.handleRequest hresolve profile
      (fun entity _ _ _ => hindexed.hasNext hbounded entity) hstep.not_dots
    rw [heq] at hkeeps
    simpa using hkeeps.1
  · dsimp only
    rw [Function.update_of_ne hlocation]
    have heffect := hindexed.store.effect hresolve profile ⟨hnul, hstep.target⟩ hstep.not_dots
    rw [heq] at heffect
    rcases heffect with houtside | hreplaces
    · refine (h.index location root hroot).of_same fun names => houtside _ ?_
      exact Api.not_below_of_apart (h.layout.apart _ _ _ _ hroot hown hlocation)
        (h.layout.apart _ _ _ _ hown hroot (Ne.symm hlocation)) names
    · exact indexed_of_replaces (h.index location root hroot) hreplaces

/-- The server keeps running. -/
theorem Running.step (h : Running routes top s) (htidy : Tidy routes)
    (hstep : OrderlyStep paramList hash routes top s e o s') : Running routes top s' where
  layout := h.layout.step hstep.step
  index location root hroot := by
    obtain ⟨-, profile, -, ⟨config, res, api, happ⟩ | ⟨handler, fs, he, hrespond, rfl⟩ |
      ⟨-, -, rfl⟩⟩ := handleRead_cases hstep.step.read
    · exact hstep.index_api h happ hroot
    · refine (h.index location root hroot).of_same fun names => ?_
      rcases respond_cases hrespond with ⟨-, rfl⟩ | ⟨-, accepted, database, -, rfl, -⟩
      · rfl
      · obtain ⟨loc, hloc, hapart⟩ := h.layout.database e handler location root he hroot
        dsimp only
        split
        · refine writeDatabase_node hloc ?_ database
          rintro rfl
          exact hapart (List.prefix_append _ _)
        · rfl
    · exact h.index location root hroot
  database e' handler he := by
    obtain ⟨loc, hloc, -, horderly⟩ := h.database e' handler he
    obtain ⟨hdir, -, hfile⟩ := hstep.step.fileAt_eq h.ready
      (h.guarded he (htidy.dataPath e' handler he) hloc) hstep.target
    refine ⟨loc, hstep.step.resolve hloc, hdir, ?_⟩
    rw [hfile]
    split
    · next hasks =>
      obtain ⟨signup, hmem, hkind, -⟩ := hasks
      exact horderly.signup (hstep.email signup hmem hkind)
    · exact horderly

/-! ## The next request -/

/-- A factory is found for every target. -/
theorem Tidy.exists_factory (h : Tidy routes) (url : Str) :
    ∃ factory, routes (matchRoute routes url) = some factory := by
  refine Option.isSome_iff_exists.mp ?_
  rcases matchRoute_isLongest routes url with ⟨hkey, -, -⟩ | ⟨-, hhome⟩
  · exact hkey
  · rw [hhome]
    exact h.home

/-- A server that starts with empty roots and without databases is running. -/
theorem running_of_fresh (hlayout : Layout routes top s.fs)
    (hfresh : ∀ location root, apiRoot routes location = some root →
      Api.Fresh root (top location) ⟨s.fs, s.pathCounts location⟩)
    (hdatabase : ∀ e handler, authentication routes e = some handler →
      ∃ loc, s.fs.resolve handler.database = some loc ∧ s.fs.node loc = none) :
    Running routes top s where
  layout := hlayout
  index location root hroot := (hfresh location root hroot).refines.index
  database e handler he := by
    obtain ⟨loc, hloc, hnone⟩ := hdatabase e handler he
    have hfile : fileAt s.fs loc = none := by rw [fileAt, hnone]
    exact ⟨loc, hloc, by rw [hnone]; simp, hfile ▸ orderly_none⟩

end

/-- The sample server is tidy. -/
theorem tidy_sample : Tidy sampleRoutes where
  home := by decide
  trimmed key hkey := by
    unfold sampleRoutes at hkey
    split_ifs at hkey with h₁ h₂ h₃
    · rw [h₁]
      decide
    · rw [h₂]
      decide
    · rw [h₃]
      decide
    · cases hkey
  dataPath e handler he := by
    rw [authentication_sample he]
    decide

/-- It is running when it starts. -/
theorem running_sample : Running sampleRoutes (fun _ => [['r']]) sampleStart :=
  running_of_fresh layout_sample (fun location root h => by
      rw [(apiRoot_sample h).2]
      exact fresh_sample) fun e handler he => by
    rw [authentication_sample he]
    exact ⟨sampleDatabase, resolve_sampleDatabase, by decide⟩

end CrazyCode.Site
