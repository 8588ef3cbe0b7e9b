import CrazyCode.Api.Shared
import CrazyCode.Session.Cookie
import CrazyCode.Site.Files

/-!
# The stores of a server

A server with any number of API locations, whose roots are apart, and with any other locations
besides. Requests for them come in any order, mixed with sign-ups, logins and all others. What an
API location sees of such a run are the requests for it (`seen`), and of these the run is one of
`Crud` (`stores_refine`): each location is a store of its own, and no request for another location
changes what it stores.
-/

namespace CrazyCode.Site

open Text Decimal Posix Profile Session
open Server hiding Location
open Api (Crud Call)

/-- The root of an API location. -/
def apiRoot (routes : Routes) (location : Str) : Option Str :=
  match routes location with
  | some ⟨.api, config⟩ => some (getRoot config location)
  | _ => none

/-- The roots of the API locations are apart, each at its place, and the databases are not below
them. -/
structure Layout (routes : Routes) (top : Str → Location) (fs : FileSystem) : Prop where
  root : ∀ location root, apiRoot routes location = some root →
    nul ∉ root ∧ fs.resolve root = some (top location)
  apart : ∀ location root location' root', apiRoot routes location = some root →
    apiRoot routes location' = some root' → location ≠ location' → ¬ top location <+: top location'
  database : ∀ e handler location root, authentication routes e = some handler →
    apiRoot routes location = some root →
    ∃ loc, fs.resolve handler.database = some loc ∧ ¬ top location <+: loc

/-- What an API location sees of a request and its answer. -/
def seen (paramList : Str → List (Str × Str)) (routes : Routes) (location : Str)
    (io : Incoming × Output) : Option (Call × Response) :=
  if matchRoute routes io.1.request.target = location then
    (Api.Target.parse io.1.request.target).map fun target =>
      (⟨io.1.listing, profileOf paramList io.1, io.1.request.method, target, io.1.request.body⟩,
        io.2.1.1)
  else none

/-- One request. If it is for an API location, no id there is `INT_MAX` yet, and the names in its
target are plain. -/
structure PlainStep (paramList : Str → List (Str × Str)) (hash : PasswordHash) (routes : Routes)
    (top : Str → Location) (s : State) (e : Incoming) (o : Output) (s' : State) : Prop where
  step : Step paramList hash routes s e o s'
  bounded : (apiRoot routes (matchRoute routes e.request.target)).isSome →
    Api.State.Bounded (top (matchRoute routes e.request.target))
      ⟨s.fs, s.pathCounts (matchRoute routes e.request.target)⟩
  plain : (apiRoot routes (matchRoute routes e.request.target)).isSome →
    ∀ target ∈ Api.Target.parse e.request.target, target.Plain

section

variable {paramList : Str → List (Str × Str)} {hash : PasswordHash} {routes : Routes}
variable {top : Str → Location} {s s' : State} {e : Incoming} {o : Output}

/-- The root of an API location is that of its factory. -/
theorem apiRoot_eq_some {location root : Str} :
    apiRoot routes location = some root ↔
      ∃ config, routes location = some ⟨.api, config⟩ ∧ getRoot config location = root := by
  unfold apiRoot
  split
  · next config hroute => simp [hroute]
  · next hnot =>
    refine iff_of_false (by simp) ?_
    rintro ⟨config, hroute, -⟩
    exact hnot config hroute

/-- The layout of the files is kept by every step. -/
theorem Layout.step (h : Layout routes top s.fs) (hstep : Step paramList hash routes s e o s') :
    Layout routes top s'.fs where
  root location root hroot := (h.root location root hroot).imp_right hstep.resolve
  apart := h.apart
  database e handler location root he hroot :=
    (h.database e handler location root he hroot).imp fun _ => And.imp_left hstep.resolve

/-- What a step that is not for an API location does below the root of one: nothing. -/
theorem PlainStep.same_of_other (hstep : PlainStep paramList hash routes top s e o s')
    (hlayout : Layout routes top s.fs)
    (hother : ∀ config, routes (matchRoute routes e.request.target) ≠ some ⟨.api, config⟩)
    {location root : Str} (hroot : apiRoot routes location = some root) :
    Api.SameBelow (top location) s.fs s'.fs ∧ s'.pathCounts = s.pathCounts := by
  obtain ⟨-, profile, -, ⟨config, res, api, happ⟩ | ⟨handler, fs, he, hrespond, rfl⟩ |
    ⟨-, -, rfl⟩⟩ := handleRead_cases hstep.step.read
  · exact absurd happ.route (hother config)
  · refine ⟨fun names => ?_, rfl⟩
    rcases respond_cases hrespond with ⟨-, rfl⟩ | ⟨-, accepted, database, -, rfl, -⟩
    · rfl
    · obtain ⟨loc, hloc, hapart⟩ := hlayout.database e handler location root he hroot
      dsimp only
      split
      · refine writeDatabase_node hloc ?_ database
        rintro rfl
        exact hapart (List.prefix_append _ _)
      · rfl
  · exact ⟨fun _ => rfl, rfl⟩

/-- A step for an API location serves its request, and leaves the indexes of the others. -/
theorem Step.served (hstep : Step paramList hash routes s e o s') {config : List Path}
    (hroute : routes (matchRoute routes e.request.target) = some ⟨.api, config⟩) :
    Api.serve (getRoot config (matchRoute routes e.request.target)) e.listing
        (profileOf paramList e) ⟨s.fs, s.pathCounts (matchRoute routes e.request.target)⟩
        e.request =
      .ok (o.1.1, ⟨s'.fs, s'.pathCounts (matchRoute routes e.request.target)⟩) ∧
    ∀ location, location ≠ matchRoute routes e.request.target →
      s'.pathCounts location = s.pathCounts location := by
  obtain ⟨answer, profile, huser,
      ⟨config', res, api, happ⟩ | ⟨handler, fs, he, -⟩ | ⟨-, hnot, -⟩⟩ :=
    handleRead_cases hstep.read
  · obtain rfl : config = config' := by simpa using hroute.symm.trans happ.route
    rw [happ.output, happ.state, profileOf, huser]
    dsimp only
    rw [Function.update_self]
    exact ⟨happ.serve, fun location hne => Function.update_of_ne hne _ _⟩
  · rw [authentication_of_api hroute] at he
    cases he
  · exact absurd hroute (hnot config)

/-- A step for an API location is a call of its store, if its target is read, and changes nothing
otherwise. -/
theorem PlainStep.call (hstep : PlainStep paramList hash routes top s e o s')
    (hlayout : Layout routes top s.fs) {config : List Path}
    (hroute : routes (matchRoute routes e.request.target) = some ⟨.api, config⟩) {a : Crud}
    (h : Api.Refines (getRoot config (matchRoute routes e.request.target))
      (top (matchRoute routes e.request.target))
      ⟨s.fs, s.pathCounts (matchRoute routes e.request.target)⟩ a) :
    Api.Target.parse e.request.target = none ∧ s' = s ∨
    ∃ target, Api.Target.parse e.request.target = some target ∧
      Api.CallStep (getRoot config (matchRoute routes e.request.target))
        (top (matchRoute routes e.request.target))
        ⟨s.fs, s.pathCounts (matchRoute routes e.request.target)⟩
        ⟨e.listing, profileOf paramList e, e.request.method, target, e.request.body⟩ o.1.1
        ⟨s'.fs, s'.pathCounts (matchRoute routes e.request.target)⟩ := by
  have hroot := apiRoot_eq_some.mpr ⟨config, hroute, rfl⟩
  have hresolve := (hlayout.root _ _ hroot).2
  have hlisted := hstep.step.listed config _ hroute hresolve
  have hsome : (apiRoot routes (matchRoute routes e.request.target)).isSome := by rw [hroot]; rfl
  obtain ⟨hserve, hcounts⟩ := hstep.step.served hroute
  cases hparse : Api.Target.parse e.request.target with
  | none =>
    -- The scan finds nothing new, and the request is a bad one.
    refine .inl ⟨rfl, ?_⟩
    rw [Api.serve_eq hresolve h.index.store hlisted, h.index.indexed_eq hlisted,
      Api.handleRequest_of_parse_none hparse] at hserve
    obtain ⟨hfs, hsame⟩ := Api.State.mk.inj (Prod.mk.inj (Except.ok.inj hserve)).2
    obtain ⟨fs, pathCounts⟩ := s
    obtain ⟨fs', pathCounts'⟩ := s'
    refine congrArg₂ State.mk hfs.symm (funext fun location => ?_)
    by_cases hlocation : location = matchRoute routes e.request.target
    · rw [hlocation]
      exact hsame.symm
    · exact hcounts location hlocation
  | some target =>
    have hplain : target.Plain := hstep.plain hsome target hparse
    have htext := Api.Target.text_of_parse hparse
    refine .inr ⟨target, rfl, hplain, hstep.bounded hsome, ?_, ?_, hlisted, ?_⟩
    · exact hplain.text_ne (s := ['.']) (by decide) (by decide)
    · exact hplain.text_ne (s := ['.', '.']) (by decide) (by decide)
    · have hinput : (⟨e.request.method, target.text, e.request.body⟩ : Request) = e.request := by
        rw [← htext]
      show Api.serve _ e.listing (profileOf paramList e) _
        ⟨e.request.method, target.text, e.request.body⟩ = _
      rw [hinput]
      exact hserve

/-- One step of the server, as each API location sees it: a call of its own, or nothing. -/
theorem PlainStep.refines (hstep : PlainStep paramList hash routes top s e o s')
    (hlayout : Layout routes top s.fs)
    (hall : ∀ location root, apiRoot routes location = some root →
      ∃ a, Api.Refines root (top location) ⟨s.fs, s.pathCounts location⟩ a)
    {location root : Str} (hroot : apiRoot routes location = some root) {a : Crud}
    (h : Api.Refines root (top location) ⟨s.fs, s.pathCounts location⟩ a) :
    (∀ c res, seen paramList routes location (e, o) = some (c, res) →
      ∃ a', a.Step root c res a' ∧
        Api.Refines root (top location) ⟨s'.fs, s'.pathCounts location⟩ a') ∧
    (seen paramList routes location (e, o) = none →
      Api.Refines root (top location) ⟨s'.fs, s'.pathCounts location⟩ a) := by
  have hresolve' := ((hlayout.step hstep.step).root location root hroot).2
  by_cases hother : ∀ config, routes (matchRoute routes e.request.target) ≠ some ⟨.api, config⟩
  · -- Nothing is below the root that the step changes.
    obtain ⟨hsame, hcounts⟩ := hstep.same_of_other hlayout hother hroot
    refine ⟨fun c res hseen => ?_, fun _ => ?_⟩
    · unfold seen at hseen
      split at hseen
      · next hlocation =>
        obtain ⟨config, hroute, -⟩ := apiRoot_eq_some.mp hroot
        exact absurd (hlocation ▸ hroute) (hother config)
      · cases hseen
    · rw [hcounts]
      exact h.of_same hsame hresolve'
  · -- The step is a call of the store at its own location, which may be this one or not.
    push Not at hother
    obtain ⟨config, hroute⟩ := hother
    have hroot' := apiRoot_eq_some.mpr ⟨config, hroute, rfl⟩
    obtain ⟨b, hb⟩ := hall _ _ hroot'
    have hcall := hstep.call hlayout hroute hb
    by_cases hlocation : matchRoute routes e.request.target = location
    · -- This location, which sees the call, unless its target is not read.
      subst hlocation
      obtain rfl := Option.some.inj (hroot'.symm.trans hroot)
      unfold seen
      rw [if_pos rfl]
      rcases hcall with ⟨hparse, rfl⟩ | ⟨target, hparse, hcall⟩ <;> rw [hparse]
      · exact ⟨by simp, fun _ => h⟩
      · refine ⟨?_, by simp⟩
        rintro c res hseen
        obtain ⟨rfl, rfl⟩ := Prod.mk.inj (Option.some.inj hseen)
        exact h.step (hlayout.root _ _ hroot).1 hcall
    · -- Another location, whose root is apart.
      have hnone : seen paramList routes location (e, o) = none := if_neg hlocation
      refine ⟨fun c res hseen => (by simp [hnone] at hseen), fun _ => ?_⟩
      rw [(hstep.step.served hroute).2 location (Ne.symm hlocation)]
      rcases hcall with ⟨-, rfl⟩ | ⟨target, -, hcall⟩
      · exact h
      · refine h.of_same (fun names => ?_) hresolve'
        exact hcall.below hb (Api.not_below_of_apart
          (hlayout.apart _ _ _ _ hroot hroot' (Ne.symm hlocation))
          (hlayout.apart _ _ _ _ hroot' hroot hlocation) names)

/-- A step leaves all API locations stores. -/
theorem PlainStep.all_refine (hstep : PlainStep paramList hash routes top s e o s')
    (hlayout : Layout routes top s.fs)
    (hall : ∀ location root, apiRoot routes location = some root →
      ∃ a, Api.Refines root (top location) ⟨s.fs, s.pathCounts location⟩ a) :
    ∀ location root, apiRoot routes location = some root →
      ∃ a, Api.Refines root (top location) ⟨s'.fs, s'.pathCounts location⟩ a := by
  intro location root hroot
  obtain ⟨a, h⟩ := hall location root hroot
  obtain ⟨hseen, hunseen⟩ := hstep.refines hlayout hall hroot h
  cases hio : seen paramList routes location (e, o) with
  | none => exact ⟨a, hunseen hio⟩
  | some io =>
    obtain ⟨a', -, h'⟩ := hseen io.1 io.2 hio
    exact ⟨a', h'⟩

/-- In every run of a server whose API locations have empty roots that are apart, each of them is a
store of its own: what it sees of the run is a run of `Crud`, with the same answers. -/
theorem stores_refine {s₀ : State} (hlayout : Layout routes top s₀.fs)
    (hfresh : ∀ location root, apiRoot routes location = some root →
      Api.Fresh root (top location) ⟨s₀.fs, s₀.pathCounts location⟩)
    {tr : List (Incoming × Output)} (hrun : Run (PlainStep paramList hash routes top) s₀ tr s)
    {location root : Str} (hroot : apiRoot routes location = some root) :
    ∃ a, Run (Crud.Step root) Crud.empty (tr.filterMap (seen paramList routes location)) a ∧
      Api.Refines root (top location) ⟨s.fs, s.pathCounts location⟩ a := by
  -- All locations are stores in every state, which the step of one of them rests on.
  obtain ⟨a, habstract, -, -, h⟩ := hrun.part (fun s a => Layout routes top s.fs ∧
      (∀ location root, apiRoot routes location = some root →
        ∃ b, Api.Refines root (top location) ⟨s.fs, s.pathCounts location⟩ b) ∧
      Api.Refines root (top location) ⟨s.fs, s.pathCounts location⟩ a)
    (seen paramList routes location)
    ⟨hlayout, fun location root hroot => ⟨_, (hfresh location root hroot).refines⟩,
      (hfresh location root hroot).refines⟩
    (fun s a e o s' c res ⟨hlayout, hall, h⟩ hstep hseen => by
      obtain ⟨a', hspec, h'⟩ := (hstep.refines hlayout hall hroot h).1 c res hseen
      exact ⟨a', hspec, hlayout.step hstep.step, hstep.all_refine hlayout hall, h'⟩)
    (fun s a e o s' ⟨hlayout, hall, h⟩ hstep hseen =>
      ⟨hlayout.step hstep.step, hstep.all_refine hlayout hall,
        (hstep.refines hlayout hall hroot h).2 hseen⟩)
  exact ⟨a, habstract, h⟩

end

/-! A POST to a server with an API location and an authentication location. -/

/-- The request. -/
def samplePost : Incoming where
  cookie := "crazyCode=\"1|x|y\"".toList
  request := ⟨.post, "/api/E".toList, "x".toList⟩
  listing := []
  text := []
  smtp := ⟨true, true, true⟩

/-- The API location of this server. -/
theorem apiRoot_sample {location root : Str} (h : apiRoot sampleRoutes location = some root) :
    location = "/api".toList ∧ root = "/r".toList := by
  obtain ⟨config, hroute, rfl⟩ := apiRoot_eq_some.mp h
  unfold sampleRoutes at hroute
  split_ifs at hroute with h₁ h₂ h₃
  · obtain rfl : samplePaths = config := by simpa using hroute
    subst h₁
    exact ⟨rfl, by decide⟩
  · cases hroute
  · cases hroute

/-- Its files are laid out. -/
theorem layout_sample : Layout sampleRoutes (fun _ => [['r']]) sampleStart.fs where
  root location root hroot := by
    obtain ⟨rfl, rfl⟩ := apiRoot_sample hroot
    exact ⟨by decide, by decide⟩
  apart location root location' root' hroot hroot' hne := by
    rw [(apiRoot_sample hroot).1, (apiRoot_sample hroot').1] at hne
    exact absurd rfl hne
  database e handler location root he _ := by
    rw [authentication_sample he]
    exact ⟨sampleDatabase, resolve_sampleDatabase, by decide⟩

/-- Nothing is stored. -/
theorem fresh_sample : Api.Fresh "/r".toList [['r']] ⟨sampleStart.fs, fun _ => none⟩ where
  resolve := by decide
  directory := by decide
  nothing names hne := by
    have hapart : ¬ [['r']] <+: [['d']] := by decide
    have hempty :
        (FileSystem.empty.set [['r']] (some .directory)).node ([['r']] ++ names) = none := by
      rw [FileSystem.set_node_of_ne (by simpa using hne)]
      rfl
    exact (FileSystem.set_node_append hapart names).trans hempty
  index _ := rfl

/-- The location of the request. -/
theorem matchRoute_samplePost :
    matchRoute sampleRoutes samplePost.request.target = "/api".toList :=
  @matchRoute_append sampleRoutes "/api".toList ['E'] (by decide) (by decide) (by decide)

/-- Its factory. -/
theorem route_samplePost : sampleRoutes (matchRoute sampleRoutes samplePost.request.target) =
    some ⟨.api, samplePaths⟩ := by
  rw [matchRoute_samplePost]
  rfl

/-- Its root. -/
theorem root_samplePost :
    getRoot samplePaths (matchRoute sampleRoutes samplePost.request.target) = "/r".toList := by
  rw [matchRoute_samplePost]
  decide

/-- Its client has logged in. -/
theorem updateUser_samplePost : updateUser quotedParams samplePost.cookie ⟨0, [], [], false⟩ =
    .ok (true, ⟨1, "x".toList, "y".toList, true⟩) := by decide

/-- The path that is checked for it is not too long. -/
theorem tooLong_samplePost (fs : FileSystem) : ∀ path ∈ Api.checkedPath (getRoot samplePaths
    (matchRoute sampleRoutes samplePost.request.target)) ⟨1, "x".toList, "y".toList, true⟩
      samplePost.request, fs.tooLong path = false := by
  rw [root_samplePost]
  intro path hpath
  obtain rfl : "/r/E".toList = path := Option.some.inj hpath
  exact FileSystem.tooLong_of_withinLimits (by decide) (by decide) fs

/-- Nothing is listed for it. -/
theorem isListing_sampleStart : Api.IsListing sampleStart.fs [['r']] [] := by
  refine ⟨.nil, fun names => ?_⟩
  simp only [List.not_mem_nil, false_iff, not_and, not_not]
  exact fresh_sample.nothing names

/-- A run with this request. -/
theorem run_samplePost : ∃ s, Run (PlainStep quotedParams sampleHash sampleRoutes fun _ => [['r']])
    sampleStart [(samplePost, ((Api.created "/r/E".toList 1, []), []))] s := by
  have hfresh := fresh_sample
  have hserve := Api.serve_eq hfresh.resolve hfresh.refines.index.store isListing_sampleStart
    ⟨1, "x".toList, "y".toList, true⟩ samplePost.request
  obtain ⟨api, hanswer⟩ : ∃ api, Api.handleRequest "/r".toList ⟨1, "x".toList, "y".toList, true⟩
      ⟨sampleStart.fs, Api.indexed [] fun _ => none⟩ samplePost.request =
        (Api.created "/r/E".toList 1, api) := by
    have hres : (Api.handleRequest "/r".toList ⟨1, "x".toList, "y".toList, true⟩
      ⟨sampleStart.fs, Api.indexed [] fun _ => none⟩ samplePost.request).1 =
        Api.created "/r/E".toList 1 := by decide
    exact ⟨_, Prod.ext hres rfl⟩
  have hstep := @step_api _ sampleHash _ sampleStart _ _ _ _ _ _ updateUser_samplePost
    route_samplePost (fun top htop => by
      rw [root_samplePost, hfresh.resolve] at htop
      rw [← Option.some.inj htop]
      exact isListing_sampleStart)
    (by rw [root_samplePost]; exact hserve.trans (congrArg Except.ok hanswer))
    (tooLong_samplePost _)
  refine ⟨_, Run.nil.snoc ⟨hstep, fun _ => ⟨fun entity id hid => ?_, fun entity => ?_⟩,
    fun _ target htarget => ?_⟩⟩
  · simp [Api.State.ids, sampleStart] at hid
  · exact hfresh.nothing _ (by simp)
  · have hparse : Api.Target.parse samplePost.request.target = some (.entity ['E']) := by decide
    obtain rfl := Option.some.inj (hparse.symm.trans htarget)
    exact (by decide : PlainName ['E'])

/-- What the API location sees of it. -/
theorem stores_refine_post : ∃ s a, Run (Crud.Step "/r".toList) Crud.empty
    [(⟨[], ⟨1, "x".toList, "y".toList, true⟩, .post, .entity ['E'], "x".toList⟩,
      Api.created "/r/E".toList 1)] a ∧
    Api.Refines "/r".toList [['r']] s a := by
  obtain ⟨s, hrun⟩ := run_samplePost
  have hroot : apiRoot sampleRoutes "/api".toList = some "/r".toList := by decide
  have hfresh : ∀ location root, apiRoot sampleRoutes location = some root →
      Api.Fresh root [['r']] ⟨sampleStart.fs, sampleStart.pathCounts location⟩ :=
    fun location root h => by
      rw [(apiRoot_sample h).2]
      exact fresh_sample
  obtain ⟨a, ha, hrefines⟩ := stores_refine layout_sample hfresh hrun hroot
  have hseen : seen quotedParams sampleRoutes "/api".toList
      (samplePost, ((Api.created "/r/E".toList 1, []), [])) =
      some (⟨[], ⟨1, "x".toList, "y".toList, true⟩, .post, .entity ['E'], "x".toList⟩,
        Api.created "/r/E".toList 1) := by
    rw [seen, if_pos matchRoute_samplePost]
    rfl
  refine ⟨_, a, ?_, hrefines⟩
  rwa [List.filterMap_cons_some hseen] at ha

end CrazyCode.Site
