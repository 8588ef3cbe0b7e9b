import CrazyCode.Api.Restarts
import CrazyCode.Site.Accounts
import CrazyCode.Site.Startup

/-!
# The life of a server

A server is started, answers requests, and is started again with the same config, any number of
times. What is in memory, the indexes of the API locations, is gone each time, and
`server::init_server` makes the factories anew (`LifeStep`).

Over such a life each API location is one store with restarts (`life_refines`), from an empty one,
and each user database is what the sign-ups have made of it. So a GET is answered with what was
written last, in whichever life that was (`life_reads`), and whoever has signed up and logged in can
post (`writes_after_login`).

A request finds an index in memory or makes one from the files, and what it then does is what the
abstract store does (`LifeRequest.call`). A request for another location, whose root is apart,
changes nothing of what is stored (`LifeRequest.survives`).
-/

namespace CrazyCode.Site

open Text Decimal Posix Profile Session Config
open Server hiding Location
open Api (Crud Call)

/-- What happens to a server: a request, or a restart. -/
inductive LifeEvent where
  | request (e : Incoming)
  | restart

/-- One request of a life. The names in the target of an API request are plain, and no id there is
`INT_MAX` yet. If there is no index, the files are listed in an order that makes lists in order. -/
structure LifeRequest (paramList : Str → List (Str × Str)) (hash : PasswordHash) (routes : Routes)
    (top : Str → Location) (s : State) (e : Incoming) (o : Output) (s' : State) : Prop where
  step : PlainStep paramList hash routes top s e o s'
  target : nul ∉ e.request.target
  ordered : (apiRoot routes (matchRoute routes e.request.target)).isSome →
    (∀ entity, s.pathCounts (matchRoute routes e.request.target) entity = none) →
    Api.ListedInOrder e.listing

/-- One request, or a restart: the server is started again with its config, on the files that are
there. -/
def LifeStep (paramList : Str → List (Str × Str)) (hash : PasswordHash) (config : NginxConfig)
    (routes : Routes) (top : Str → Location) (s : State) (e : LifeEvent) (o : Option Output)
    (s' : State) : Prop :=
  match e, o with
  | .request e, some o => LifeRequest paramList hash routes top s e o s'
  | .restart, none => startServer config s.fs = .ok (routes, s')
  | _, _ => False

/-- What an API location sees of a life: its calls, and all restarts. -/
def seenOfLife (paramList : Str → List (Str × Str)) (routes : Routes) (location : Str) :
    LifeEvent × Option Output → Option (Api.LifeEvent × Option Response)
  | (.request e, some o) =>
    (seen paramList routes location (e, o)).map fun io => (.call io.1, some io.2)
  | (.restart, none) => some (.restart, none)
  | _ => none

/-- The requests of a life, with their answers. -/
def requested : LifeEvent × Option Output → Option (Incoming × Output)
  | (.request e, some o) => some (e, o)
  | _ => none

section

variable {paramList : Str → List (Str × Str)} {hash : PasswordHash} {config : NginxConfig}
variable {routes : Routes} {top : Str → Location} {s s' : State} {e : Incoming} {o : Output}

/-! ## One request -/

/-- A request for an API location changes nothing outside of its root. It is a call of its store, if
its target is read, and changes nothing of what is stored otherwise. -/
theorem LifeRequest.call (hstep : LifeRequest paramList hash routes top s e o s')
    (hlayout : Layout routes top s.fs) {paths : List Path}
    (hroute : routes (matchRoute routes e.request.target) = some ⟨.api, paths⟩) {a : Crud}
    (h : Api.Survives (getRoot paths (matchRoute routes e.request.target))
      (top (matchRoute routes e.request.target))
      ⟨s.fs, s.pathCounts (matchRoute routes e.request.target)⟩ a) :
    (∀ loc, ¬ Below (top (matchRoute routes e.request.target)) loc →
      s'.fs.node loc = s.fs.node loc) ∧
    (Api.Target.parse e.request.target = none ∧
        Api.Survives (getRoot paths (matchRoute routes e.request.target))
          (top (matchRoute routes e.request.target))
          ⟨s'.fs, s'.pathCounts (matchRoute routes e.request.target)⟩ a ∨
      ∃ target, Api.Target.parse e.request.target = some target ∧
        ∃ a', a.Step (getRoot paths (matchRoute routes e.request.target))
            ⟨e.listing, profileOf paramList e, e.request.method, target, e.request.body⟩ o.1.1 a' ∧
          Api.Survives (getRoot paths (matchRoute routes e.request.target))
            (top (matchRoute routes e.request.target))
            ⟨s'.fs, s'.pathCounts (matchRoute routes e.request.target)⟩ a') := by
  have hroot := apiRoot_eq_some.mpr ⟨paths, hroute, rfl⟩
  have hsome : (apiRoot routes (matchRoute routes e.request.target)).isSome := by rw [hroot]; rfl
  obtain ⟨hnul, hresolve⟩ := hlayout.root _ _ hroot
  obtain ⟨pathCounts, hscan, hbounded, hserve⟩ := h.scan (hstep.step.bounded hsome)
    (hstep.step.step.listed paths _ hroute hresolve) (hstep.ordered hsome)
  have hserved := (hstep.step.step.served hroute).1
  rw [hserve] at hserved
  have heq := Except.ok.inj hserved
  cases hparse : Api.Target.parse e.request.target with
  | none =>
    rw [Api.handleRequest_of_parse_none hparse] at heq
    obtain ⟨hfs, hcounts⟩ := Api.State.mk.inj (Prod.mk.inj heq).2
    rw [← hfs, ← hcounts]
    exact ⟨fun _ _ => rfl, .inl ⟨rfl, .inl hscan⟩⟩
  | some target =>
    have hplain : target.Plain := hstep.step.plain hsome target hparse
    let c : Call := ⟨e.listing, profileOf paramList e, e.request.method, target, e.request.body⟩
    have hinput : c.input.request = e.request := by
      show (⟨e.request.method, target.text, e.request.body⟩ : Request) = e.request
      rw [← Api.Target.text_of_parse hparse]
    have hcall : Api.handleRequest (getRoot paths (matchRoute routes e.request.target)) c.profile
        ⟨s.fs, pathCounts⟩ c.input.request =
        (o.1.1, ⟨s'.fs, s'.pathCounts (matchRoute routes e.request.target)⟩) := by
      rw [hinput]
      exact heq
    obtain ⟨a', hspec, h'⟩ := hscan.request (c := c) hnul hbounded hplain
    rw [hcall] at hspec h'
    refine ⟨fun loc hloc => ?_, .inr ⟨target, rfl, a', hspec, .inl h'⟩⟩
    have hbelow := hscan.index.below hscan.resolve (c := c) hplain hloc
    rwa [hcall] at hbelow

/-- One request, as each API location sees it: a call of its own, or nothing. -/
theorem LifeRequest.survives (hstep : LifeRequest paramList hash routes top s e o s')
    (hlayout : Layout routes top s.fs)
    (hall : ∀ location root, apiRoot routes location = some root →
      ∃ a, Api.Survives root (top location) ⟨s.fs, s.pathCounts location⟩ a)
    {location root : Str} (hroot : apiRoot routes location = some root) {a : Crud}
    (h : Api.Survives root (top location) ⟨s.fs, s.pathCounts location⟩ a) :
    (∀ c res, seen paramList routes location (e, o) = some (c, res) →
      ∃ a', a.Step root c res a' ∧
        Api.Survives root (top location) ⟨s'.fs, s'.pathCounts location⟩ a') ∧
    (seen paramList routes location (e, o) = none →
      Api.Survives root (top location) ⟨s'.fs, s'.pathCounts location⟩ a) := by
  have hresolve' := ((hlayout.step hstep.step.step).root location root hroot).2
  by_cases hother : ∀ config, routes (matchRoute routes e.request.target) ≠ some ⟨.api, config⟩
  · -- Nothing is below the root that the request changes.
    obtain ⟨hsame, hcounts⟩ := hstep.step.same_of_other hlayout hother hroot
    refine ⟨fun c res hseen => ?_, fun _ => ?_⟩
    · unfold seen at hseen
      split at hseen
      · next hlocation =>
        obtain ⟨config, hroute, -⟩ := apiRoot_eq_some.mp hroot
        exact absurd (hlocation ▸ hroute) (hother config)
      · cases hseen
    · rw [hcounts]
      exact h.of_same hsame hresolve'
  · push Not at hother
    obtain ⟨paths, hroute⟩ := hother
    have hroot' := apiRoot_eq_some.mpr ⟨paths, hroute, rfl⟩
    by_cases hlocation : matchRoute routes e.request.target = location
    · subst hlocation
      obtain rfl := Option.some.inj (hroot'.symm.trans hroot)
      unfold seen
      rw [if_pos rfl]
      obtain ⟨-, ⟨hparse, h'⟩ | ⟨target, hparse, a', hspec, h'⟩⟩ := hstep.call hlayout hroute h
      · rw [hparse]
        exact ⟨by simp, fun _ => h'⟩
      · rw [hparse]
        refine ⟨?_, by simp⟩
        rintro c res hseen
        obtain ⟨rfl, rfl⟩ := Prod.mk.inj (Option.some.inj hseen)
        exact ⟨a', hspec, h'⟩
    · -- Another location, whose root is apart.
      have hnone : seen paramList routes location (e, o) = none := if_neg hlocation
      refine ⟨fun c res hseen => (by simp [hnone] at hseen), fun _ => ?_⟩
      obtain ⟨b, hb⟩ := hall _ _ hroot'
      obtain ⟨hbelow, -⟩ := hstep.call hlayout hroute hb
      rw [(hstep.step.step.served hroute).2 location (Ne.symm hlocation)]
      refine h.of_same (fun names => hbelow _ ?_) hresolve'
      exact Api.not_below_of_apart (hlayout.apart _ _ _ _ hroot hroot' (Ne.symm hlocation))
        (hlayout.apart _ _ _ _ hroot' hroot hlocation) names

/-! ## Lives -/

/-- What a life keeps: the roots are made, apart from each other and from the databases, and each is
a store. -/
structure Alive (paths : List Path) (top : Str → Location) (s : State) : Prop where
  made : Made paths top s.fs
  layout : Layout (table paths) top s.fs
  stores : ∀ location root, apiRoot (table paths) location = some root →
    ∃ a, Api.Survives root (top location) ⟨s.fs, s.pathCounts location⟩ a

section Alive

variable {paths : List Path}

/-- A restart leaves the files as they are. -/
theorem Alive.restarted (h : Alive paths top s) (hpaths : getPaths config = .ok paths)
    (hstart : startServer config s.fs = .ok (routes, s')) : s' = ⟨s.fs, fun _ _ => none⟩ := by
  refine @startServer_again top _ _ _ _ (fun paths' hpaths' => ?_) hstart
  obtain rfl := Except.ok.inj (hpaths.symm.trans hpaths')
  exact h.made

/-- One request, or a restart, as an API location sees it. -/
theorem Alive.survives (h : Alive paths top s) (hpaths : getPaths config = .ok paths)
    {e : LifeEvent}
    {o : Option Output} (hstep : LifeStep paramList hash config (table paths) top s e o s')
    {location root : Str} (hroot : apiRoot (table paths) location = some root) {a : Crud}
    (ha : Api.Survives root (top location) ⟨s.fs, s.pathCounts location⟩ a) :
    (∀ e' o', seenOfLife paramList (table paths) location (e, o) = some (e', o') →
      ∃ a', a.LifeStep root e' o' a' ∧
        Api.Survives root (top location) ⟨s'.fs, s'.pathCounts location⟩ a') ∧
    (seenOfLife paramList (table paths) location (e, o) = none →
      Api.Survives root (top location) ⟨s'.fs, s'.pathCounts location⟩ a) := by
  cases e with
  | request e =>
    obtain _ | o := o
    · exact hstep.elim
    have hstep : LifeRequest paramList hash (table paths) top s e o s' := hstep
    obtain ⟨hseen, hunseen⟩ := hstep.survives h.layout h.stores hroot ha
    have hlife : seenOfLife paramList (table paths) location (.request e, some o) =
        (seen paramList (table paths) location (e, o)).map fun io => (.call io.1, some io.2) := rfl
    rw [hlife]
    cases hio : seen paramList (table paths) location (e, o) with
    | none => exact ⟨by simp, fun _ => hunseen hio⟩
    | some io =>
      refine ⟨fun e' o' heq => ?_, by simp⟩
      obtain ⟨rfl, rfl⟩ := Prod.mk.inj (Option.some.inj heq)
      exact hseen io.1 io.2 hio
  | restart =>
    obtain _ | o := o
    · obtain rfl := h.restarted hpaths hstep
      obtain ⟨hresolve, hstore, hrestart⟩ := ha.restart
      refine ⟨fun e' o' heq => ?_, by simp [seenOfLife]⟩
      obtain ⟨rfl, rfl⟩ := Prod.mk.inj (Option.some.inj heq)
      exact ⟨a.restart, rfl, .inr ⟨hresolve, hstore, fun _ => rfl, hrestart⟩⟩
    · exact hstep.elim

/-- The server stays alive. -/
theorem Alive.step (h : Alive paths top s) (hpaths : getPaths config = .ok paths) {e : LifeEvent}
    {o : Option Output} (hstep : LifeStep paramList hash config (table paths) top s e o s') :
    Alive paths top s' := by
  have hstores : ∀ location root, apiRoot (table paths) location = some root →
      ∃ a, Api.Survives root (top location) ⟨s'.fs, s'.pathCounts location⟩ a := by
    intro location root hroot
    obtain ⟨a, ha⟩ := h.stores location root hroot
    obtain ⟨hseen, hunseen⟩ := h.survives hpaths hstep hroot ha
    cases hio : seenOfLife paramList (table paths) location (e, o) with
    | none => exact ⟨a, hunseen hio⟩
    | some io =>
      obtain ⟨a', -, ha'⟩ := hseen io.1 io.2 hio
      exact ⟨a', ha'⟩
  cases e with
  | request e =>
    obtain _ | o := o
    · exact hstep.elim
    have hstep : LifeRequest paramList hash (table paths) top s e o s' := hstep
    exact ⟨hstep.step.step.keeps (fun _ loc n hmade => hmade.set loc n) h.made,
      h.layout.step hstep.step.step, hstores⟩
  | restart =>
    obtain _ | o := o
    · obtain rfl := h.restarted hpaths hstep
      exact ⟨h.made, h.layout, hstores⟩
    · exact hstep.elim

/-- A server that is started on files that are prepared for it is alive. -/
theorem Prepared.alive {fs : FileSystem} (h : Prepared paths (table paths) top fs) :
    Alive paths top ⟨paths.foldl (makeFactory paths) fs, fun _ _ => none⟩ :=
  ⟨h.roots, h.layout, fun _ _ hroot => ⟨Crud.empty, (h.fresh hroot).survives⟩⟩

variable {s₀ : State} {tr : List (LifeEvent × Option Output)}

/-- Each API location sees a run of a store with restarts. -/
theorem Alive.life (h : Alive paths top s₀) (hpaths : getPaths config = .ok paths)
    (hrun : Run (LifeStep paramList hash config (table paths) top) s₀ tr s) {location root : Str}
    (hroot : apiRoot (table paths) location = some root) {a₀ : Crud}
    (ha₀ : Api.Survives root (top location) ⟨s₀.fs, s₀.pathCounts location⟩ a₀) :
    ∃ a, Run (Crud.LifeStep root) a₀
        (tr.filterMap (seenOfLife paramList (table paths) location)) a ∧
      Alive paths top s ∧ Api.Survives root (top location) ⟨s.fs, s.pathCounts location⟩ a :=
  hrun.part (fun s a => Alive paths top s ∧
      Api.Survives root (top location) ⟨s.fs, s.pathCounts location⟩ a)
    (seenOfLife paramList (table paths) location) ⟨h, ha₀⟩
    (fun s a e o s' e' o' ⟨h, ha⟩ hstep hseen => by
      obtain ⟨a', hspec, ha'⟩ := (h.survives hpaths hstep hroot ha).1 e' o' hseen
      exact ⟨a', hspec, h.step hpaths hstep, ha'⟩)
    (fun s a e o s' ⟨h, ha⟩ hstep hseen =>
      ⟨h.step hpaths hstep, (h.survives hpaths hstep hroot ha).2 hseen⟩)

/-- The requests of a life, with a restart before each of them or without one. -/
theorem Alive.lived (h : Alive paths top s₀) (hpaths : getPaths config = .ok paths)
    (hrun : Run (LifeStep paramList hash config (table paths) top) s₀ tr s) :
    ∃ t, Run (Lived paramList hash (table paths)) s₀ (tr.filterMap requested) t ∧ t.fs = s.fs := by
  obtain ⟨t, hlived, -, hfs, -⟩ := @Run.part _ _ _ _ _ _ _ _ (Lived paramList hash (table paths)) s₀
    (fun s t => Alive paths top s ∧ t.fs = s.fs ∧
      (s.pathCounts = t.pathCounts ∨ s.pathCounts = fun _ _ => none))
    requested ⟨h, rfl, .inl rfl⟩
    (fun s t e o s' e' o' ⟨h, hfs, hcounts⟩ hstep hseen => by
      cases e with
      | request e =>
        obtain _ | o := o
        · exact hstep.elim
        obtain ⟨rfl, rfl⟩ := Prod.mk.inj (Option.some.inj hseen)
        have hrequest : LifeRequest paramList hash (table paths) top s e o s' := hstep
        refine ⟨s', ⟨s.pathCounts, hcounts, ?_⟩, h.step hpaths hstep, rfl, .inl rfl⟩
        rw [hfs]
        exact hrequest.step.step
      | restart => cases o <;> cases hseen)
    (fun s t e o s' ⟨h, hfs, hcounts⟩ hstep hseen => by
      cases e with
      | request e =>
        obtain _ | o := o
        · exact hstep.elim
        · cases hseen
      | restart =>
        obtain _ | o := o
        · obtain rfl := h.restarted hpaths hstep
          exact ⟨h.step hpaths hstep, hfs, .inr rfl⟩
        · exact hstep.elim) _ _ hrun
  exact ⟨t, hlived, hfs⟩

/-- The requests of a life have no zero byte in their targets. -/
theorem target_of_life (hrun : Run (LifeStep paramList hash config routes top) s₀ tr s) :
    ∀ io ∈ tr.filterMap requested, nul ∉ io.1.request.target := by
  intro io hio
  obtain ⟨⟨e, o⟩, hmem, hrequested⟩ := List.mem_filterMap.mp hio
  obtain ⟨-, t, t', -, hstep, -⟩ := hrun.exists_step hmem
  cases e with
  | request e =>
    obtain _ | o := o
    · exact hstep.elim
    obtain rfl := Option.some.inj hrequested
    exact LifeRequest.target hstep
  | restart => cases o <;> cases hrequested

end Alive

/-! ## From the start on -/

variable {s₀ : State} {fs : FileSystem} {tr pre mid mid' post : List (LifeEvent × Option Output)}

/-- The requests of a life, as those of a run from a server without accounts. -/
theorem firstRun_of_life (hstart : startServer config fs = .ok (routes, s₀))
    (hprepared : ∀ paths, getPaths config = .ok paths → Prepared paths routes top fs)
    (hrun : Run (LifeStep paramList hash config routes top) s₀ tr s) {e : Incoming}
    {handler : AuthenticationHandler} (he : authentication routes e = some handler) {loc : Location}
    (hloc : s₀.fs.resolve handler.database = some loc) :
    ∃ t, FirstRun paramList hash routes loc s₀ (tr.filterMap requested) t ∧ t.fs = s.fs := by
  obtain ⟨paths, hpaths, rfl, rfl⟩ := startServer_eq hstart
  have h := hprepared paths hpaths
  obtain ⟨t, hlived, hfs⟩ := h.alive.lived hpaths hrun
  obtain ⟨loc', hloc', hnone⟩ := h.missing he
  obtain rfl := Option.some.inj (hloc'.symm.trans hloc)
  exact ⟨t, ⟨h.running.ready, h.running.guarded he (h.database e handler he).1 hloc,
    by simp only [fileAt, hnone], target_of_life hrun, hlived⟩, hfs⟩

/-- What an API location sees of a request is a call of a store that has what was written last. -/
theorem call_of_life (hstart : startServer config fs = .ok (routes, s₀))
    (hprepared : ∀ paths, getPaths config = .ok paths → Prepared paths routes top fs)
    (hrun : Run (LifeStep paramList hash config routes top) s₀
      (pre ++ (.request e, some o) :: post) s)
    {location root : Str} (hroot : apiRoot routes location = some root) {c : Call} {res : Response}
    (hseen : seen paramList routes location (e, o) = some (c, res)) :
    ∃ a a' : Crud, a.Step root c res a' ∧
      a.items = Api.lastWrite root Crud.empty
        (pre.filterMap (seenOfLife paramList routes location)) ∧
      ∀ entity id, a.items entity id ≠ none → entity ∈ a.entities := by
  obtain ⟨paths, hpaths, rfl, rfl⟩ := startServer_eq hstart
  have h := hprepared paths hpaths
  obtain ⟨t, t', hpre, hstep, -⟩ := hrun.middle
  obtain ⟨a, habstract, halive, ha⟩ := h.alive.life hpaths hpre hroot (h.fresh hroot).survives
  obtain ⟨a', hspec, -⟩ := (LifeRequest.survives hstep halive.layout halive.stores
    hroot ha).1 c res hseen
  exact ⟨a, a', hspec, funext fun entity => funext fun id => Api.items_of_run habstract entity id,
    fun _ _ => ha.entity_of_item⟩

/-- Over the whole life of a server, from a start on files that are prepared for it, with requests
for all its locations and with restarts, in any order: each API location is a store with restarts,
and its files are the items of this store; and each user database is what the sign-ups to it have
made of it. -/
theorem life_refines (hstart : startServer config fs = .ok (routes, s₀))
    (hprepared : ∀ paths, getPaths config = .ok paths → Prepared paths routes top fs)
    (hrun : Run (LifeStep paramList hash config routes top) s₀ tr s) :
    (∀ location root, apiRoot routes location = some root →
      ∃ a, Run (Crud.LifeStep root) Crud.empty
          (tr.filterMap (seenOfLife paramList routes location)) a ∧
        a.restart = Api.stored (top location) s.fs) ∧
    (∀ e handler loc, authentication routes e = some handler →
      s₀.fs.resolve handler.database = some loc →
      fileAt s.fs loc =
        signupStrings hash (signups routes s₀.fs loc (tr.filterMap requested))) := by
  refine ⟨fun location root hroot => ?_, fun e handler loc he hloc => ?_⟩
  · obtain ⟨paths, hpaths, rfl, rfl⟩ := startServer_eq hstart
    have h := hprepared paths hpaths
    obtain ⟨a, habstract, -, ha⟩ := h.alive.life hpaths hrun hroot (h.fresh hroot).survives
    exact ⟨a, habstract, ha.restart.2.2⟩
  · obtain ⟨t, hfirst, hfs⟩ := firstRun_of_life hstart hprepared hrun he hloc
    rw [← hfs]
    exact hfirst.database

/-- Over the whole life of a server a GET to an API location is answered with what was written last,
whatever was requested from other locations and however often the server was restarted in
between. -/
theorem life_reads (hstart : startServer config fs = .ok (routes, s₀))
    (hprepared : ∀ paths, getPaths config = .ok paths → Prepared paths routes top fs)
    (hrun : Run (LifeStep paramList hash config routes top) s₀
      (pre ++ (.request e, some o) :: post) s)
    {location root : Str} (hroot : apiRoot routes location = some root) {c : Call} {res : Response}
    (hseen : seen paramList routes location (e, o) = some (c, res)) (hget : c.method = .get) :
    Api.Reads (Api.lastWrite root Crud.empty
      (pre.filterMap (seenOfLife paramList routes location))) c res := by
  obtain ⟨a, a', hspec, hitems, hentity⟩ := call_of_life hstart hprepared hrun hroot hseen
  rw [← hitems]
  exact hspec.reads hget hentity

/-- Over the whole life of a server, whoever has signed up and logged in can post: behind a sign-up
that is answered 200 and a login to it, a POST to an entity with the cookie of this login is
answered 201, with an id that had no item, whatever was requested and however often the server was
restarted in between. -/
theorem writes_after_login (hparams : PlainParams paramList)
    (hstart : startServer config fs = .ok (routes, s₀))
    (hprepared : ∀ paths, getPaths config = .ok paths → Prepared paths routes top fs)
    {e₁ e₂ e₃ : Incoming} {o₁ o₂ o₃ : Output}
    (hrun : Run (LifeStep paramList hash config routes top) s₀
      (pre ++ (.request e₁, some o₁) :: (mid ++ (.request e₂, some o₂) :: (mid' ++
        (.request e₃, some o₃) :: post))) s) {loc : Location}
    (he₁ : Asks routes s₀.fs loc .signupSubmit e₁) (he₂ : Asks routes s₀.fs loc .loginSubmit e₂)
    {name password email : Str} (hfields₁ : fields e₁.request.body = [name, password, email])
    (hfields₂ : fields e₂.request.body = ["crazyCode".toList, email, password]) (hne : email ≠ [])
    (hplain : ∀ c ∈ name ++ email, Qdtext c) (hok : o₁.1.1.status = 200)
    {cookie : Str} (hset : o₂.1.2 = "crazyCode=".toList ++ cookie ++ "; Path=/".toList)
    (hsent : e₃.cookie = "crazyCode=".toList ++ cookie) {root entity : Str}
    (hroot : apiRoot routes (matchRoute routes e₃.request.target) = some root)
    (hpost : e₃.request.method = .post) (htarget : e₃.request.target = "/api/".toList ++ entity)
    (hentity : entity ≠ [] ∧ '/' ∉ entity) :
    ∃ id, 1 ≤ id ∧ o₃.1.1 = Api.created (root ++ '/' :: entity) id ∧
      Api.lastWrite root Crud.empty ((pre ++ (.request e₁, some o₁) :: (mid ++
          (.request e₂, some o₂) :: mid')).filterMap
        (seenOfLife paramList routes (matchRoute routes e₃.request.target))) entity id = none := by
  have hline := newline_not_mem_of_qdtext hplain
  have hname : '\n' ∉ name := fun hmem => hline (List.mem_append_left _ hmem)
  have hemail : '\n' ∉ email := fun hmem => hline (List.mem_append_right _ hmem)
  -- The cookie is that of the account.
  obtain ⟨handler, he, -, hloc⟩ := id he₁
  obtain ⟨t, hfirst, -⟩ := firstRun_of_life hstart hprepared hrun he hloc
  have hfirst₁ : FirstRun paramList hash routes loc s₀ (pre.filterMap requested ++ (e₁, o₁) ::
      (mid.filterMap requested ++ (e₂, o₂) :: (mid' ++ (.request e₃, some o₃) :: post).filterMap
        requested)) t := by
    simpa [requested] using hfirst
  have hfirst₂ : FirstRun paramList hash routes loc s₀ ((pre.filterMap requested ++ (e₁, o₁) ::
      mid.filterMap requested) ++ (e₂, o₂) :: (mid' ++ (.request e₃, some o₃) :: post).filterMap
        requested) t := by
    simpa using hfirst₁
  obtain ⟨userId, hlogin⟩ := hfirst₁.account he₁ hfields₁ hname hemail hok (mid.filterMap requested)
  obtain ⟨cookie', ho₂, huser⟩ := hfirst₂.cookie hparams he₂ hfields₂ hlogin hne hplain
  obtain rfl : cookie' = cookie := by
    rw [ho₂] at hset
    exact List.append_cancel_left (List.append_cancel_right hset)
  have hprofile : profileOf paramList e₃ = ⟨userId, name, email, true⟩ := by
    rw [profileOf, hsent, huser]
  -- So the POST is a call of somebody who is logged in.
  have hseen : seen paramList routes (matchRoute routes e₃.request.target) (e₃, o₃) =
      some (⟨e₃.listing, ⟨userId, name, email, true⟩, .post, .entity entity, e₃.request.body⟩,
        o₃.1.1) := by
    rw [seen, if_pos rfl, htarget, Api.Target.parse_entity hentity.1 hentity.2, hprofile, hpost]
    rfl
  have hrun₃ : Run (LifeStep paramList hash config routes top) s₀ ((pre ++ (.request e₁, some o₁) ::
      (mid ++ (.request e₂, some o₂) :: mid')) ++ (.request e₃, some o₃) :: post) s := by
    simpa using hrun
  obtain ⟨a, a', hspec, hitems, -⟩ := call_of_life hstart hprepared hrun₃ hroot hseen
  rw [← hitems]
  rcases hspec with ⟨-, id, hid, hfree, hres, -⟩ | ⟨hlogout, -⟩
  · exact ⟨id, hid, hres, hfree⟩
  · cases hlogout

end

/-! Requests to a server that has just been started. -/

/-- The files behind its start. -/
def startedFiles : FileSystem := startPaths.foldl (makeFactory startPaths) startFiles

/-- It is started, again and again. -/
theorem startServer_started :
    startServer startConfig startFiles = .ok (table startPaths, ⟨startedFiles, fun _ _ => none⟩) :=
  startServer_of_getPaths getPaths_startConfig startFiles

/-- The paths of its config. -/
theorem prepared_of_started (paths : List Path) (hpaths : getPaths startConfig = .ok paths) :
    Prepared paths (table startPaths) (fun _ => [['r']]) startFiles :=
  prepared_startFiles startServer_started hpaths

/-- The root of its API location. -/
theorem apiRoot_started : apiRoot (table startPaths) "/api".toList = some "/r/".toList := by decide

/-- A request for its API location, with a target that is read, is answered in every store. -/
theorem lifeRequest_started {s : State} {e : Incoming} {answer : Bool} {profile : UserProfile}
    {target : Api.Target} (hresolve : s.fs.resolve "/r/".toList = some [['r']])
    (hstore : Api.Store [['r']] s.fs)
    (hbounded : Api.State.Bounded [['r']] ⟨s.fs, s.pathCounts "/api".toList⟩)
    (huser : updateUser quotedParams e.cookie ⟨0, [], [], false⟩ = .ok (answer, profile))
    (hmatch : matchRoute (table startPaths) e.request.target = "/api".toList)
    (hlisted : Api.IsListing s.fs [['r']] e.listing) (hordered : Api.ListedInOrder e.listing)
    (hparse : Api.Target.parse e.request.target = some target) (hplain : target.Plain)
    (hnul : nul ∉ e.request.target)
    (hshort : ∀ path ∈ Api.checkedPath "/r/".toList profile e.request, s.fs.tooLong path = false) :
    let out := Api.handleRequest "/r/".toList profile
      ⟨s.fs, Api.indexed e.listing (s.pathCounts "/api".toList)⟩ e.request
    LifeRequest quotedParams sampleHash (table startPaths) (fun _ => [['r']]) s e
      ((out.1, []), [])
      ⟨out.2.fs, Function.update s.pathCounts "/api".toList out.2.pathCounts⟩ := by
  have hroute : table startPaths (matchRoute (table startPaths) e.request.target) =
      some ⟨.api, startPaths⟩ := by
    rw [hmatch]
    rfl
  have hroot : getRoot startPaths (matchRoute (table startPaths) e.request.target) =
      "/r/".toList := by
    rw [hmatch]
    decide
  have hserve := @Api.serve_eq _ _ ⟨s.fs, s.pathCounts "/api".toList⟩ hresolve hstore _ hlisted
    profile e.request
  have hstep := @step_api _ sampleHash _ s _ _ _ _ _ _ huser hroute (fun top htop => by
    rw [hroot, hresolve] at htop
    rw [← Option.some.inj htop]
    exact hlisted) (by rw [hroot, hmatch]; exact hserve) (by rw [hroot]; exact hshort)
  rw [hmatch] at hstep
  refine ⟨⟨hstep, fun _ => ?_, fun _ target' htarget => ?_⟩, hnul, fun _ _ => hordered⟩
  · rw [hmatch]
    exact hbounded
  · obtain rfl := Option.some.inj (hparse.symm.trans htarget)
    exact hplain

/-- At the start nothing is stored. -/
theorem fresh_started : Api.Fresh "/r/".toList [['r']] ⟨startedFiles, fun _ => none⟩ :=
  (prepared_of_started _ getPaths_startConfig).fresh apiRoot_started

/-- As long as nothing is stored, nothing is listed, -/
theorem isListing_of_fresh {fs : FileSystem} {root : Str} {top : Location}
    (h : Api.Fresh root top ⟨fs, fun _ => none⟩) : Api.IsListing fs top [] := by
  refine ⟨.nil, fun names => ?_⟩
  simp only [List.not_mem_nil, false_iff, not_and, not_not]
  exact h.nothing names

/-- and no id is in the way. -/
theorem bounded_of_fresh {fs : FileSystem} {root : Str} {top : Location}
    (h : Api.Fresh root top ⟨fs, fun _ => none⟩) : Api.State.Bounded top ⟨fs, fun _ => none⟩ :=
  ⟨fun entity id hid => by simp [Api.State.ids] at hid, fun entity => h.nothing _ (by simp)⟩

/-- A POST of a client with this cookie. -/
def postWith (cookie : Str) : Incoming where
  cookie := cookie
  request := ⟨.post, "/api/E".toList, "x".toList⟩
  listing := []
  text := []
  smtp := ⟨true, true, true⟩

/-- Its location. -/
theorem matchRoute_postWith (cookie : Str) :
    matchRoute (table startPaths) (postWith cookie).request.target = "/api".toList :=
  @matchRoute_append (table startPaths) "/api".toList ['E'] (by decide) (by decide)
    (by decide)

/-- The first one to a root, of somebody who has logged in. -/
theorem lifeRequest_post {fs : FileSystem} {cookie name email : Str} {userId : ℤ}
    (hfresh : Api.Fresh "/r/".toList [['r']] ⟨fs, fun _ => none⟩)
    (huser : updateUser quotedParams cookie ⟨0, [], [], false⟩ =
      .ok (true, ⟨userId, name, email, true⟩)) :
    let out := Api.handleRequest "/r/".toList ⟨userId, name, email, true⟩
      ⟨fs, Api.indexed [] fun _ => none⟩ (postWith cookie).request
    LifeRequest quotedParams sampleHash (table startPaths) (fun _ => [['r']]) ⟨fs, fun _ _ => none⟩
      (postWith cookie) ((out.1, []), [])
      ⟨out.2.fs, Function.update (fun _ _ => none) "/api".toList out.2.pathCounts⟩ := by
  have hparse : Api.Target.parse (postWith cookie).request.target = some (.entity ['E']) := by
    show Api.Target.parse "/api/E".toList = some (.entity ['E'])
    decide
  have hnul : nul ∉ (postWith cookie).request.target := by
    show nul ∉ "/api/E".toList
    decide
  refine @lifeRequest_started ⟨fs, fun _ _ => none⟩ (postWith cookie) _ _ _ hfresh.resolve
    hfresh.refines.index.store (bounded_of_fresh hfresh) huser (matchRoute_postWith cookie)
    (isListing_of_fresh hfresh) (fun entity => ?_) hparse (by decide : PlainName ['E']) hnul
    fun path hpath => ?_
  · exact Api.inOrder_of_length_lt (by simp [Api.listedIds, postWith])
  · obtain rfl : "/r//E".toList = path := Option.some.inj hpath
    exact FileSystem.tooLong_of_withinLimits (by decide) (by decide) fs

/-- A client that has logged in. -/
def sampleCookie : Str := "crazyCode=\"1|x|y\"".toList

/-- The files behind its POST. -/
def postedFiles : FileSystem :=
  (startedFiles.set [['r'], ['E']] (some .directory)).set [['r'], ['E'], ['1']]
    (some (.file "x".toList))

/-- The POST. -/
theorem lifeRequest_first : ∃ counts, LifeRequest quotedParams sampleHash (table startPaths)
    (fun _ => [['r']]) ⟨startedFiles, fun _ _ => none⟩ (postWith sampleCookie)
    ((Api.created "/r//E".toList 1, []), []) ⟨postedFiles, counts⟩ := by
  have huser : updateUser quotedParams sampleCookie ⟨0, [], [], false⟩ =
      .ok (true, ⟨1, "x".toList, "y".toList, true⟩) := by decide
  have hanswer : (Api.handleRequest "/r/".toList ⟨1, "x".toList, "y".toList, true⟩
      ⟨startedFiles, Api.indexed [] fun _ => none⟩ (postWith sampleCookie).request).1 =
      Api.created "/r//E".toList 1 := by decide
  have hpost := lifeRequest_post fresh_started huser
  dsimp only at hpost
  rw [hanswer] at hpost
  exact ⟨_, hpost⟩

/-- What is listed behind it. -/
theorem isListing_postedFiles : Api.IsListing postedFiles [['r']] [[['E'], ['1']], [['E']]] := by
  have hdir : startedFiles.Writable ([['r']] ++ [['E']]) := by decide
  have hfile : (startedFiles.set [['r'], ['E']] (some .directory)).Writable
      ([['r']] ++ [['E'], ['1']]) := by decide
  exact ((isListing_of_fresh fresh_started).cons (by simp) hdir (by decide) .directory).cons
    (by simp) hfile (by decide) (.file "x".toList)

/-- A GET of the item. -/
def sampleGet : Incoming where
  cookie := []
  request := ⟨.get, "/api/E/1".toList, []⟩
  listing := [[['E'], ['1']], [['E']]]
  text := []
  smtp := ⟨true, true, true⟩

/-- Its location. -/
theorem matchRoute_sampleGet :
    matchRoute (table startPaths) sampleGet.request.target = "/api".toList := by
  have hcut : matchRoute (table startPaths) ("/api/E".toList ++ '/' :: ['1']) =
      matchRoute (table startPaths) ("/api".toList ++ '/' :: ['E']) :=
    matchRoute_cut (by decide) (by decide)
  exact hcut.trans (matchRoute_append (by decide) (by decide) (by decide))

/-- Behind a restart it is answered. -/
theorem lifeRequest_sampleGet (hstore : Api.Store [['r']] postedFiles) :
    ∃ res s, LifeRequest quotedParams sampleHash (table startPaths) (fun _ => [['r']])
      ⟨postedFiles, fun _ _ => none⟩ sampleGet ((res, []), []) s := by
  have huser : updateUser quotedParams sampleGet.cookie ⟨0, [], [], false⟩ =
      .ok (false, ⟨0, [], [], false⟩) := by decide
  have hparse : Api.Target.parse sampleGet.request.target = some (.item ['E'] ['1']) := by decide
  have hplain : (Api.Target.item ['E'] ['1']).Plain := by
    show PlainName ['E'] ∧ '/' ∉ ['1'] ∧ nul ∉ ['1'] ∧ ['1'] ≠ ['.'] ∧ ['1'] ≠ ['.', '.']
    decide
  have hbounded : Api.State.Bounded [['r']] ⟨postedFiles, fun _ => none⟩ := by
    refine ⟨fun entity id hid => by simp [Api.State.ids] at hid, fun entity => ?_⟩
    have hnot : [['r']] ++ [entity, decimal intMax] ≠ [['r'], ['E'], ['1']] := by
      simp only [List.singleton_append, ne_eq, List.cons.injEq, not_and]
      exact fun _ _ => by decide
    rw [postedFiles, FileSystem.set_node_of_ne hnot, FileSystem.set_node_of_ne (by simp)]
    exact fresh_started.nothing _ (by simp)
  have hordered : Api.ListedInOrder sampleGet.listing := fun entity => by
    refine Api.inOrder_of_length_lt ?_
    by_cases hentity : ['E'] = entity
    · subst hentity
      decide
    · simp [sampleGet, Api.listedIds, hentity]
  have hresolve : postedFiles.resolve "/r/".toList = some [['r']] :=
    FileSystem.resolve_set (FileSystem.resolve_set fresh_started.resolve _ _) _ _
  exact ⟨_, _, @lifeRequest_started ⟨postedFiles, fun _ _ => none⟩ sampleGet _ _ _ hresolve hstore
    hbounded huser matchRoute_sampleGet isListing_postedFiles hordered hparse hplain (by decide)
    fun path hpath => by
      obtain rfl : "/r//E/1".toList = path := Option.some.inj hpath
      exact FileSystem.tooLong_of_withinLimits (by decide) (by decide) _⟩

/-- A life with a POST and a restart. -/
theorem run_posted : Run (LifeStep quotedParams sampleHash startConfig (table startPaths)
    fun _ => [['r']]) ⟨startedFiles, fun _ _ => none⟩
    [(.request (postWith sampleCookie), some ((Api.created "/r//E".toList 1, []), [])),
      (.restart, none)] ⟨postedFiles, fun _ _ => none⟩ := by
  obtain ⟨counts, hpost⟩ := lifeRequest_first
  have hlife : LifeStep quotedParams sampleHash startConfig (table startPaths) (fun _ => [['r']])
      ⟨startedFiles, fun _ _ => none⟩ (.request (postWith sampleCookie))
      (some ((Api.created "/r//E".toList 1, []), [])) ⟨postedFiles, counts⟩ := hpost
  have halive := (prepared_of_started _ getPaths_startConfig).alive.step getPaths_startConfig hlife
  have hagain := startServer_of_getPaths getPaths_startConfig postedFiles
  have hrestart : LifeStep quotedParams sampleHash startConfig (table startPaths) (fun _ => [['r']])
      ⟨postedFiles, counts⟩ .restart none ⟨postedFiles, fun _ _ => none⟩ :=
    hagain.trans (congrArg (fun s => Except.ok (table startPaths, s))
      (halive.restarted getPaths_startConfig hagain))
  exact (Run.nil.snoc hlife).snoc hrestart

/-- What its API location sees of the POST. -/
theorem seen_postWith (res : Response) : seen quotedParams (table startPaths) "/api".toList
    (postWith sampleCookie, ((res, []), [])) =
    some (⟨[], ⟨1, "x".toList, "y".toList, true⟩, .post, .entity ['E'], "x".toList⟩, res) := by
  rw [seen, if_pos (matchRoute_postWith _)]
  rfl

/-- Each API location sees a run of a store. -/
theorem life_refines_post : ∃ (s : State) (a : Crud),
    Run (Crud.LifeStep "/r/".toList) Crud.empty
      [(.call ⟨[], ⟨1, "x".toList, "y".toList, true⟩, .post, .entity ['E'], "x".toList⟩,
        some (Api.created "/r//E".toList 1)), (.restart, none)] a ∧
    a.restart = Api.stored [['r']] s.fs := by
  obtain ⟨a, habstract, hstored⟩ := (life_refines startServer_started prepared_of_started
    run_posted).1 _ _ apiRoot_started
  have hseen : seenOfLife quotedParams (table startPaths) "/api".toList
      (.request (postWith sampleCookie), some ((Api.created "/r//E".toList 1, []), [])) =
      some (.call ⟨[], ⟨1, "x".toList, "y".toList, true⟩, .post, .entity ['E'], "x".toList⟩,
        some (Api.created "/r//E".toList 1)) := by
    rw [seenOfLife, seen_postWith]
    rfl
  refine ⟨_, a, ?_, hstored⟩
  rw [List.filterMap_cons_some hseen] at habstract
  exact habstract

/-- Behind the restart the item is read that was posted before. -/
theorem life_reads_get : ∃ s, Run (LifeStep quotedParams sampleHash startConfig (table startPaths)
    fun _ => [['r']]) ⟨startedFiles, fun _ _ => none⟩
    [(.request (postWith sampleCookie), some ((Api.created "/r//E".toList 1, []), [])),
      (.restart, none), (.request sampleGet, some ((html 200 "x".toList, []), []))] s := by
  obtain ⟨a, -, -, ha⟩ := (prepared_of_started _ getPaths_startConfig).alive.life
    getPaths_startConfig run_posted apiRoot_started fresh_started.survives
  obtain ⟨res, s, hget⟩ := lifeRequest_sampleGet ha.restart.2.1
  have hlife : LifeStep quotedParams sampleHash startConfig (table startPaths) (fun _ => [['r']])
      ⟨postedFiles, fun _ _ => none⟩ (.request sampleGet) (some ((res, []), [])) s := hget
  have hrun := run_posted.snoc hlife
  have hseen : seen quotedParams (table startPaths) "/api".toList (sampleGet, ((res, []), [])) =
      some (⟨sampleGet.listing, ⟨0, [], [], false⟩, .get, .item ['E'] ['1'], []⟩, res) := by
    rw [seen, if_pos matchRoute_sampleGet]
    rfl
  have hposted : seenOfLife quotedParams (table startPaths) "/api".toList
      (.request (postWith sampleCookie), some ((Api.created "/r//E".toList 1, []), [])) =
      some (.call ⟨[], ⟨1, "x".toList, "y".toList, true⟩, .post, .entity ['E'], "x".toList⟩,
        some (Api.created "/r//E".toList 1)) := by
    rw [seenOfLife, seen_postWith]
    rfl
  have hreads := (@life_reads _ _ _ _ _ _ _ _ _ _ _ [] startServer_started
    prepared_of_started hrun _ _ apiRoot_started _ _ hseen rfl).1 ['E'] 1 rfl
  rw [List.filterMap_cons_some hposted] at hreads
  obtain rfl : res = html 200 "x".toList := hreads
  exact ⟨s, hrun⟩

/-! A life in which somebody signs up, logs in, and posts behind a restart. -/

/-- Its requests for accounts are for their handler. -/
theorem authentication_started {name : Str} (hname : '/' ∉ name)
    (hnone : table startPaths ("/auth".toList ++ '/' :: name) = none) (body : Str) :
    authentication (table startPaths) (sampleRequest name body) = some startHandler := by
  have hmatch : matchRoute (table startPaths) (sampleRequest name body).request.target =
      "/auth".toList := matchRoute_append (by decide) hnone hname
  unfold authentication
  rw [hmatch]
  rfl

/-- They are answered as their handler does it. -/
theorem lifeRequest_authentication {s : State} {name body : Str} {o : Output} {fs : FileSystem}
    (hname : '/' ∉ name) (hnone : table startPaths ("/auth".toList ++ '/' :: name) = none)
    (hnul : nul ∉ name)
    (hkind : startHandler.requestKind ("/auth/".toList ++ name) ≠ .loginPage ∧
      startHandler.requestKind ("/auth/".toList ++ name) ≠ .signupPage)
    (hrespond : startHandler.respond sampleHash (sampleRequest name body).smtp s.fs
      (sampleRequest name body).request = .ok (o, fs)) :
    LifeRequest quotedParams sampleHash (table startPaths) (fun _ => [['r']]) s
      (sampleRequest name body) o ⟨fs, s.pathCounts⟩ := by
  have he := authentication_started hname hnone body
  have hfits : startHandler.DatabaseFits := by decide
  have hapi : apiRoot (table startPaths)
      (matchRoute (table startPaths) (sampleRequest name body).request.target) = none := by
    cases hroot : apiRoot (table startPaths)
        (matchRoute (table startPaths) (sampleRequest name body).request.target) with
    | none => rfl
    | some root =>
      obtain ⟨config, hroute, -⟩ := apiRoot_eq_some.mp hroot
      rw [authentication_of_api hroute] at he
      cases he
  have hnul' : nul ∉ "/auth/".toList ++ name := by
    rw [List.mem_append, not_or]
    exact ⟨by decide, hnul⟩
  exact ⟨⟨step_authentication (updateUser_sample _ _) he hrespond (hfits.not_tooLong hkind _),
    fun hsome => (by simp [hapi] at hsome), fun hsome => (by simp [hapi] at hsome)⟩, hnul',
    fun hsome => (by simp [hapi] at hsome)⟩

/-- The place of the database. -/
theorem resolve_startHandler :
    startedFiles.resolve startHandler.database = some sampleDatabase := by decide

/-- The files behind the sign-up. -/
def signedFiles : FileSystem :=
  writeDatabase startedFiles startHandler.database (some sampleRecord)

/-- Paths still lead where they did. -/
theorem resolve_signedFiles {path : Str} {loc : Location}
    (h : startedFiles.resolve path = some loc) : signedFiles.resolve path = some loc := by
  rw [signedFiles, writeDatabase, FileSystem.writeFile_eq resolve_startHandler]
  exact FileSystem.resolve_set h _ _

/-- The sign-up. -/
theorem lifeRequest_signup : LifeRequest quotedParams sampleHash (table startPaths)
    (fun _ => [['r']]) ⟨startedFiles, fun _ _ => none⟩ sampleSignup.1 sampleSignup.2
    ⟨signedFiles, fun _ _ => none⟩ := by
  have hread : readDatabase startedFiles startHandler.database = none := by decide
  have hrespond : startHandler.respond sampleHash sampleSignup.1.smtp startedFiles
      sampleSignup.1.request = .ok (sampleSignup.2, signedFiles) := by
    have hkind : startHandler.requestKind sampleSignup.1.request.target = .signupSubmit := by decide
    have hsignup : signupString sampleHash none sampleSignup.1.request.body =
      (true, some sampleRecord) := signupString_sample
    unfold AuthenticationHandler.respond
    simp only [hkind, hread, hsignup]
    rfl
  exact lifeRequest_authentication (by decide) (by decide) (by decide) (by decide) hrespond

/-- The login behind it. -/
theorem lifeRequest_login : LifeRequest quotedParams sampleHash (table startPaths)
    (fun _ => [['r']]) ⟨signedFiles, fun _ _ => none⟩ sampleLogin.1 sampleLogin.2
    ⟨signedFiles, fun _ _ => none⟩ := by
  have hdir : startedFiles.node sampleDatabase ≠ some .directory := by decide
  have hwritten := writeDatabase_node_self resolve_startHandler hdir sampleRecord
  have hread : readDatabase signedFiles startHandler.database = some sampleRecord := by
    rw [readDatabase_eq (resolve_signedFiles resolve_startHandler)
      (by rw [signedFiles, hwritten]; simp), fileAt, signedFiles, hwritten]
  have hcookie : updateCookie sampleHash (some sampleRecord) sampleLogin.1.request.body =
      .ok "\"1|n|e@x\"".toList := by decide
  have hkind : startHandler.requestKind sampleLogin.1.request.target = .loginSubmit := by decide
  have hrespond : startHandler.respond sampleHash sampleLogin.1.smtp signedFiles
      sampleLogin.1.request = .ok (sampleLogin.2, signedFiles) :=
    AuthenticationHandler.respond_loginSubmit hkind hread hcookie
  exact lifeRequest_authentication (by decide) (by decide) (by decide) (by decide) hrespond

/-- The cookie that it gets. -/
def loginCookie : Str := "\"1|n|e@x\"".toList

/-- The whole life. -/
theorem run_login : ∃ res s, Run (LifeStep quotedParams sampleHash startConfig (table startPaths)
    fun _ => [['r']]) ⟨startedFiles, fun _ _ => none⟩
    [(.request sampleSignup.1, some sampleSignup.2), (.request sampleLogin.1, some sampleLogin.2),
      (.restart, none), (.request (postWith ("crazyCode=".toList ++ loginCookie)),
        some ((res, []), []))] s := by
  have hsignup : LifeStep quotedParams sampleHash startConfig (table startPaths) (fun _ => [['r']])
      ⟨startedFiles, fun _ _ => none⟩ (.request sampleSignup.1) (some sampleSignup.2)
      ⟨signedFiles, fun _ _ => none⟩ := lifeRequest_signup
  have hlogin : LifeStep quotedParams sampleHash startConfig (table startPaths) (fun _ => [['r']])
      ⟨signedFiles, fun _ _ => none⟩ (.request sampleLogin.1) (some sampleLogin.2)
      ⟨signedFiles, fun _ _ => none⟩ := lifeRequest_login
  have halive := ((prepared_of_started _ getPaths_startConfig).alive.step getPaths_startConfig
    hsignup).step getPaths_startConfig hlogin
  have hagain := startServer_of_getPaths getPaths_startConfig signedFiles
  have hrestart : LifeStep quotedParams sampleHash startConfig (table startPaths) (fun _ => [['r']])
      ⟨signedFiles, fun _ _ => none⟩ .restart none ⟨signedFiles, fun _ _ => none⟩ :=
    hagain.trans (congrArg (fun s => Except.ok (table startPaths, s))
      (halive.restarted getPaths_startConfig hagain))
  -- Nothing is stored yet: the database is not below the root.
  have hfresh : Api.Fresh "/r/".toList [['r']] ⟨signedFiles, fun _ => none⟩ := by
    have hsame : ∀ names, signedFiles.node ([['r']] ++ names) =
        startedFiles.node ([['r']] ++ names) := fun names =>
      writeDatabase_node resolve_startHandler (by simp [sampleDatabase]) _
    exact ⟨resolve_signedFiles fresh_started.resolve,
      (hsame []).trans fresh_started.directory,
      fun names hne => (hsame names).trans (fresh_started.nothing names hne), fun _ => rfl⟩
  have huser : updateUser quotedParams ("crazyCode=".toList ++ loginCookie) ⟨0, [], [], false⟩ =
      .ok (true, ⟨1, "n".toList, "e@x".toList, true⟩) := by decide
  have hpost := lifeRequest_post hfresh huser
  exact ⟨_, _, (((Run.nil.snoc hsignup).snoc hlogin).snoc hrestart).snoc hpost⟩

/-- The POST gets an id. -/
theorem writes_after_login_post : ∃ id s, 1 ≤ id ∧
    Run (LifeStep quotedParams sampleHash startConfig (table startPaths) fun _ => [['r']])
      ⟨startedFiles, fun _ _ => none⟩
      [(.request sampleSignup.1, some sampleSignup.2), (.request sampleLogin.1, some sampleLogin.2),
        (.restart, none), (.request (postWith ("crazyCode=".toList ++ loginCookie)),
          some ((Api.created "/r//E".toList id, []), []))] s := by
  obtain ⟨res, s, hrun⟩ := run_login
  have hsignup : Asks (table startPaths) startedFiles sampleDatabase .signupSubmit sampleSignup.1 :=
    ⟨startHandler, authentication_started (by decide) (by decide) _, by decide,
      resolve_startHandler⟩
  have hlogin : Asks (table startPaths) startedFiles sampleDatabase .loginSubmit sampleLogin.1 :=
    ⟨startHandler, authentication_started (by decide) (by decide) _, by decide,
      resolve_startHandler⟩
  have hfields : fields sampleLogin.1.request.body =
      ["crazyCode".toList, "e@x".toList, "pw".toList] := by decide
  have hroot := apiRoot_started
  rw [← matchRoute_postWith ("crazyCode=".toList ++ loginCookie)] at hroot
  obtain ⟨id, hid, hres, -⟩ := @writes_after_login _ _ _ _ _ _ _ _ [] [] [(.restart, none)] []
    quotedParams_quotedParams.plain startServer_started prepared_of_started _ _ _ _ _ _ hrun _
    hsignup hlogin _ _ _ fields_sampleSignup hfields (by decide) qdtext_sampleSignup rfl
    loginCookie rfl rfl _ ['E'] hroot rfl rfl (by decide)
  obtain rfl : res = Api.created "/r//E".toList id := hres
  exact ⟨id, s, hid, hrun⟩

end CrazyCode.Site
