import CrazyCode.Site.Progress

/-!
# Starting the server

`server::init_server` makes a factory for each path of the config. That of an API location makes the
directory of its root, if there is nothing (`makeRoot`), also when another location has the key in
the table already. The directories above the root are not made, and an error is only logged. The
indexes are empty at first.

`startServer_node` says what this changes. Where the API roots are apart from each other, and
missing or empty, the server is then in the state that the results about its runs begin with
(`started_running`).
-/

namespace CrazyCode.Site

open Text Decimal Posix Profile Session Config Outcome
open Server hiding Location

/-! ## The roots that are made -/

/-- The constructor of `api_handler_factory`. `mkdir` does not look at slashes at the end of a path,
and what it reports is only logged. -/
def makeRoot (paths : List Path) (fs : FileSystem) (location : Str) : FileSystem :=
  let root := getRoot paths location
  if fs.pathExists root then fs else (fs.createDirectory (trimSlashes (cstr root))).getD fs

/-- What is done to the files when the factory for a path is made. -/
def makeFactory (paths : List Path) (fs : FileSystem) (p : Path) : FileSystem :=
  if p.type = .api then makeRoot paths fs p.endpoint else fs

/-- A server and its state behind `server::init_server`, which goes through the paths once. -/
def startServer (config : NginxConfig) (fs : FileSystem) : Except PathsFault (Routes × State) := do
  let routes ← initServer config
  let paths ← getPaths config
  return (routes, ⟨paths.foldl (makeFactory paths) fs, fun _ _ => none⟩)

section

variable {paths ps : List Path} {fs : FileSystem} {location : Str} {top : Str → Location}

/-- A root is made, or nothing is done. -/
theorem makeRoot_cases (paths : List Path) (fs : FileSystem) (location : Str) :
    makeRoot paths fs location = fs ∨ ∃ loc,
      fs.resolve (trimSlashes (cstr (getRoot paths location))) = some loc ∧ fs.Writable loc ∧
        fs.node loc = none ∧ makeRoot paths fs location = fs.set loc (some .directory) := by
  unfold makeRoot
  dsimp only
  split
  · exact .inl rfl
  · cases hmake : fs.createDirectory (trimSlashes (cstr (getRoot paths location))) with
    | none => exact .inl rfl
    | some fs' =>
      obtain ⟨loc, hloc, hwritable, hnone, rfl⟩ := FileSystem.createDirectory_eq_some hmake
      exact .inr ⟨loc, hloc, hwritable, hnone, rfl⟩

/-- A factory is made, and a root with it, or nothing is done. -/
theorem makeFactory_cases (paths : List Path) (fs : FileSystem) (p : Path) :
    makeFactory paths fs p = fs ∨ ∃ loc, p.type = .api ∧
      fs.resolve (trimSlashes (cstr (getRoot paths p.endpoint))) = some loc ∧ fs.Writable loc ∧
        fs.node loc = none ∧ makeFactory paths fs p = fs.set loc (some .directory) := by
  unfold makeFactory
  split
  · next htype =>
    rcases makeRoot_cases paths fs p.endpoint with hsame | ⟨loc, hloc⟩
    · exact .inl hsame
    · exact .inr ⟨loc, htype, hloc⟩
  · exact .inl rfl

/-- What a path names goes on to be what it names. -/
theorem resolve_foldl_makeFactory {path : Str} {loc : Location} (h : fs.resolve path = some loc) :
    (ps.foldl (makeFactory paths) fs).resolve path = some loc := by
  induction ps generalizing fs with
  | nil => exact h
  | cons p ps ih =>
    refine ih ?_
    rcases makeFactory_cases paths fs p with hsame | ⟨loc', -, -, -, -, hmake⟩
    · rwa [hsame]
    · rw [hmake]
      exact FileSystem.resolve_set h loc' _

/-- Nothing is changed but roots that were missing. -/
theorem foldl_makeFactory_node (loc : Location) :
    (ps.foldl (makeFactory paths) fs).node loc = fs.node loc ∨
      fs.node loc = none ∧ (ps.foldl (makeFactory paths) fs).node loc = some .directory ∧
        ∃ p ∈ ps, p.type = .api ∧ (ps.foldl (makeFactory paths) fs).resolve
          (trimSlashes (cstr (getRoot paths p.endpoint))) = some loc := by
  induction ps generalizing fs with
  | nil => exact .inl rfl
  | cons p ps ih =>
    rw [List.foldl_cons]
    rcases makeFactory_cases paths fs p with hsame | ⟨loc', htype, hloc', hwritable, hnone, hmake⟩
    · rw [hsame]
      rcases ih with heq | ⟨hnone, hdir, q, hq, hroot⟩
      · exact .inl heq
      · exact .inr ⟨hnone, hdir, q, List.mem_cons_of_mem p hq, hroot⟩
    · rw [hmake]
      rcases @ih (fs.set loc' (some .directory)) with heq | ⟨hnone', hdir, q, hq, hroot⟩
      · by_cases hsame : loc = loc'
        · subst hsame
          rw [FileSystem.set_node_self hwritable] at heq
          refine .inr ⟨hnone, heq, p, List.mem_cons_self, htype, ?_⟩
          exact resolve_foldl_makeFactory (FileSystem.resolve_set hloc' loc _)
        · rw [FileSystem.set_node_of_ne hsame] at heq
          exact .inl heq
      · refine .inr ⟨?_, hdir, q, List.mem_cons_of_mem p hq, hroot⟩
        by_cases hsame : loc = loc'
        · rw [hsame, hnone]
        · rwa [FileSystem.set_node_of_ne hsame] at hnone'

/-- Behind `server::init_server`, a place holds what it held before, or it is the root of an API
location, where nothing was, and is a directory. -/
theorem startServer_node {config : NginxConfig} {routes : Routes} {s : State}
    (hstart : startServer config fs = .ok (routes, s)) (loc : Location) :
    s.fs.node loc = fs.node loc ∨ fs.node loc = none ∧ s.fs.node loc = some .directory ∧
      ∃ paths, getPaths config = .ok paths ∧ ∃ p ∈ paths, p.type = .api ∧
        s.fs.resolve (trimSlashes (cstr (getRoot paths p.endpoint))) = some loc := by
  unfold startServer at hstart
  obtain ⟨routes', -, hstart⟩ := bind_eq_ok.mp hstart
  obtain ⟨paths, hpaths, hstart⟩ := bind_eq_ok.mp hstart
  obtain ⟨-, rfl⟩ := Prod.mk.inj (Except.ok.inj hstart)
  rcases @foldl_makeFactory_node paths paths fs loc with hsame | ⟨hnone, hdir, p, hp, hroot⟩
  · exact .inl hsame
  · exact .inr ⟨hnone, hdir, paths, hpaths, p, hp, hroot⟩

/-! ## A server that is ready -/

/-- The roots of the API locations are apart, and each is in a directory, and missing or empty. The
databases are in directories, not below a root, and missing. -/
structure Prepared (paths : List Path) (routes : Routes) (top : Str → Location) (fs : FileSystem) :
    Prop where
  root : ∀ p ∈ paths, p.type = .api → nul ∉ getRoot paths p.endpoint ∧
    fs.resolve (trimSlashes (getRoot paths p.endpoint)) = some (top p.endpoint)
  empty : ∀ p ∈ paths, p.type = .api →
    (fs.node (top p.endpoint) = none ∨ fs.node (top p.endpoint) = some .directory) ∧
      ∀ names, names ≠ [] → fs.node (top p.endpoint ++ names) = none
  apart : ∀ p ∈ paths, ∀ q ∈ paths, p.type = .api → q.type = .api → p.endpoint ≠ q.endpoint →
    ¬ top p.endpoint <+: top q.endpoint
  database : ∀ e handler, authentication routes e = some handler → nul ∉ handler.dataPath ∧
    ∃ loc, fs.resolve handler.database = some loc ∧ fs.node loc = none ∧
      ∀ p ∈ paths, p.type = .api → ¬ top p.endpoint <+: loc

/-- A directory stays one. -/
theorem foldl_makeFactory_directory {loc : Location} (h : fs.node loc = some .directory) :
    (ps.foldl (makeFactory paths) fs).node loc = some .directory := by
  rcases @foldl_makeFactory_node paths ps fs loc with hsame | ⟨-, hdir, -⟩
  · rw [hsame, h]
  · exact hdir

/-- A root that is missing in a directory is made. -/
theorem makeRoot_directory {loc : Location} (hnul : nul ∉ getRoot paths location)
    (hroot : fs.resolve (trimSlashes (getRoot paths location)) = some loc)
    (hnode : fs.node loc = none ∨ fs.node loc = some .directory) :
    (makeRoot paths fs location).node loc = some .directory := by
  rcases hnode with hnone | hdir
  · -- What the path names, with slashes at its end or not, is missing.
    have hexists : fs.pathExists (getRoot paths location) = false := by
      rw [FileSystem.pathExists, Option.isSome_eq_false_iff, Option.isNone_iff_eq_none]
      cases hlookup : fs.lookup (getRoot paths location) with
      | none => rfl
      | some n =>
        obtain ⟨loc', hloc', hn⟩ := FileSystem.lookup_eq_some.mp hlookup
        have htrim := ((FileSystem.resolve_trimSlashes_iff hnul).mp hloc').1
        obtain rfl := Option.some.inj (hroot.symm.trans htrim)
        rw [hnone] at hn
        cases hn
    have hwritable : fs.Writable loc := FileSystem.writable_of_resolve hroot (by simp [hnone])
    have hmake : fs.createDirectory (trimSlashes (cstr (getRoot paths location))) =
        some (fs.set loc (some .directory)) := by
      rw [cstr_of_not_mem hnul]
      simp [FileSystem.createDirectory, hroot, hwritable, hnone]
    simp only [makeRoot, hexists, hmake]
    exact FileSystem.set_node_self hwritable
  · rcases makeRoot_cases paths fs location with hsame | ⟨loc', -, hwritable, -, hmake⟩
    · rw [hsame, hdir]
    · rw [hmake]
      exact FileSystem.set_directory hdir

/-- The roots of API locations are directories, when they were missing or empty. -/
theorem Prepared.made {routes : Routes} (h : Prepared paths routes top fs) {p : Path}
    (hp : p ∈ paths) (htype : p.type = .api) :
    (paths.foldl (makeFactory paths) fs).node (top p.endpoint) = some .directory := by
  obtain ⟨before, after, hpaths⟩ := List.append_of_mem hp
  obtain ⟨hnul, hroot⟩ := h.root p hp htype
  have hnode : (before.foldl (makeFactory paths) fs).node (top p.endpoint) = none ∨
      (before.foldl (makeFactory paths) fs).node (top p.endpoint) = some .directory := by
    rcases @foldl_makeFactory_node paths before fs (top p.endpoint) with hsame | ⟨-, hdir, -⟩
    · rw [hsame]
      exact (h.empty p hp htype).1
    · exact .inr hdir
  have hmade := makeRoot_directory hnul (resolve_foldl_makeFactory hroot) hnode
  have hfold : ∀ all, all = before ++ p :: after → all.foldl (makeFactory paths) fs =
      after.foldl (makeFactory paths)
        (makeFactory paths (before.foldl (makeFactory paths) fs) p) := by
    rintro all rfl
    rw [List.foldl_append, List.foldl_cons]
  rw [hfold paths hpaths]
  refine foldl_makeFactory_directory ?_
  rwa [makeFactory, if_pos htype]

/-- Nothing else is changed. -/
theorem Prepared.same {routes : Routes} (h : Prepared paths routes top fs) {loc : Location}
    (hloc : ∀ p ∈ paths, p.type = .api → top p.endpoint ≠ loc) :
    (paths.foldl (makeFactory paths) fs).node loc = fs.node loc := by
  rcases @foldl_makeFactory_node paths paths fs loc with hsame | ⟨-, -, p, hp, htype, hroot⟩
  · exact hsame
  · obtain ⟨hnul, hplace⟩ := h.root p hp htype
    rw [cstr_of_not_mem hnul, resolve_foldl_makeFactory hplace] at hroot
    exact absurd (Option.some.inj hroot) (hloc p hp htype)

/-- The table of the factories for some paths. -/
def table (paths : List Path) : Routes :=
  emplace (paths.foldl (addRoute paths) fun _ => none) ['/'] ⟨.handler404, paths⟩

/-- A server is started when its paths are read. -/
theorem startServer_of_getPaths {config : NginxConfig} (h : getPaths config = .ok paths)
    (fs : FileSystem) : startServer config fs =
      .ok (table paths, ⟨paths.foldl (makeFactory paths) fs, fun _ _ => none⟩) := by
  rw [startServer, initServer, h]
  rfl

/-- What is started is the table of the paths, with the files that its factories leave. -/
theorem startServer_eq {config : NginxConfig} {routes : Routes} {s : State}
    (hstart : startServer config fs = .ok (routes, s)) : ∃ paths, getPaths config = .ok paths ∧
      routes = table paths ∧ s = ⟨paths.foldl (makeFactory paths) fs, fun _ _ => none⟩ := by
  cases hpaths : getPaths config with
  | error fault =>
    rw [startServer, initServer, hpaths] at hstart
    cases hstart
  | ok paths =>
    rw [startServer_of_getPaths hpaths] at hstart
    obtain ⟨rfl, rfl⟩ := Prod.mk.inj (Except.ok.inj hstart)
    exact ⟨paths, rfl, rfl, rfl⟩

/-- What is in the table is the factory of a path, or the one that `/` has in any case. -/
theorem exists_path_of_route {kind : FactoryKind} {config : List Path}
    (h : table paths location = some ⟨kind, config⟩) :
    config = paths ∧ (kind = .handler404 ∨
      ∃ p ∈ paths, factoryKind p.type = some kind ∧ p.endpoint = location) := by
  rw [table, emplace_apply, foldl_addRoute, Option.none_or] at h
  cases hfound : paths.findSome? (pathFactory paths location) with
  | none =>
    rw [hfound] at h
    split at h
    · obtain ⟨rfl, rfl⟩ := Factory.mk.inj (Option.some.inj h)
      exact ⟨rfl, .inl rfl⟩
    · cases h
  | some factory =>
    rw [hfound] at h
    obtain rfl := Option.some.inj h
    obtain ⟨p, hp, hfactory⟩ := List.exists_of_findSome?_eq_some hfound
    unfold pathFactory at hfactory
    split at hfactory
    · next hendpoint =>
      obtain ⟨kind, hkind, heq⟩ := Option.map_eq_some_iff.mp hfactory
      obtain ⟨rfl, rfl⟩ := Factory.mk.inj heq
      exact ⟨rfl, .inr ⟨p, hp, hkind, hendpoint⟩⟩
    · cases hfactory

/-- An API location in the table has a path. -/
theorem exists_path_of_apiRoot {root : Str}
    (h : apiRoot (table paths) location = some root) :
    ∃ p ∈ paths, p.type = .api ∧ p.endpoint = location ∧ root = getRoot paths location := by
  obtain ⟨config, hroute, rfl⟩ := apiRoot_eq_some.mp h
  obtain ⟨rfl, hkind | ⟨p, hp, hkind, hendpoint⟩⟩ := exists_path_of_route hroute
  · cases hkind
  · refine ⟨p, hp, ?_, hendpoint, rfl⟩
    cases htype : p.type <;> rw [htype] at hkind <;> cases hkind

/-- The roots of the API locations are directories at their places. -/
def Made (paths : List Path) (top : Str → Location) (fs : FileSystem) : Prop :=
  ∀ p ∈ paths, p.type = .api → fs.resolve (getRoot paths p.endpoint) = some (top p.endpoint) ∧
    fs.node (top p.endpoint) = some .directory

/-- The roots are made. -/
theorem Prepared.roots {routes : Routes} (h : Prepared paths routes top fs) :
    Made paths top (paths.foldl (makeFactory paths) fs) := by
  intro p hp htype
  obtain ⟨hnul, hresolve⟩ := h.root p hp htype
  have hdir := h.made hp htype
  exact ⟨(FileSystem.resolve_trimSlashes_iff hnul).mpr
    ⟨resolve_foldl_makeFactory hresolve, fun _ => hdir⟩, hdir⟩

/-- Nothing is stored below a root. -/
theorem Prepared.fresh (h : Prepared paths (table paths) top fs) {root : Str}
    (hroot : apiRoot (table paths) location = some root) :
    Api.Fresh root (top location) ⟨paths.foldl (makeFactory paths) fs, fun _ => none⟩ := by
  obtain ⟨p, hp, htype, rfl, rfl⟩ := exists_path_of_apiRoot hroot
  obtain ⟨hresolve, hdir⟩ := h.roots p hp htype
  refine ⟨hresolve, hdir, fun names hne => ?_, fun _ => rfl⟩
  refine (h.same fun q hq hapi heq => ?_).trans ((h.empty p hp htype).2 names hne)
  -- Another root is not below this one, and this one is not below itself.
  by_cases hendpoint : p.endpoint = q.endpoint
  · rw [hendpoint] at heq
    exact hne (List.append_cancel_left (heq.symm.trans (List.append_nil _).symm))
  · exact h.apart p hp q hq htype hapi hendpoint (heq ▸ List.prefix_append _ _)

/-- The roots are apart, and the databases are not below them. -/
theorem Prepared.layout (h : Prepared paths (table paths) top fs) :
    Layout (table paths) top (paths.foldl (makeFactory paths) fs) where
  root location root hroot := by
    obtain ⟨p, hp, htype, rfl, rfl⟩ := exists_path_of_apiRoot hroot
    exact ⟨(h.root p hp htype).1, (h.roots p hp htype).1⟩
  apart location root location' root' hroot hroot' hne := by
    obtain ⟨p, hp, htype, rfl, -⟩ := exists_path_of_apiRoot hroot
    obtain ⟨q, hq, hapi, rfl, -⟩ := exists_path_of_apiRoot hroot'
    exact h.apart p hp q hq htype hapi hne
  database e handler location root he hroot := by
    obtain ⟨-, loc, hloc, -, hapart⟩ := h.database e handler he
    obtain ⟨p, hp, htype, rfl, -⟩ := exists_path_of_apiRoot hroot
    exact ⟨loc, resolve_foldl_makeFactory hloc, hapart p hp htype⟩

/-- The databases are missing. -/
theorem Prepared.missing {routes : Routes} (h : Prepared paths routes top fs) {e : Incoming}
    {handler : AuthenticationHandler} (he : authentication routes e = some handler) :
    ∃ loc, (paths.foldl (makeFactory paths) fs).resolve handler.database = some loc ∧
      (paths.foldl (makeFactory paths) fs).node loc = none := by
  obtain ⟨-, loc, hloc, hnone, hapart⟩ := h.database e handler he
  refine ⟨loc, resolve_foldl_makeFactory hloc, (h.same fun p hp htype heq => ?_).trans hnone⟩
  exact hapart p hp htype (heq ▸ List.prefix_rfl)

/-- The server is running. -/
theorem Prepared.running (h : Prepared paths (table paths) top fs) :
    Running (table paths) top ⟨paths.foldl (makeFactory paths) fs, fun _ _ => none⟩ :=
  running_of_fresh h.layout (fun _ _ hroot => h.fresh hroot) fun _ _ he => h.missing he

/-- A server that is started with a well-formed config, where no console has slashes at the end of
its URL, on files that are prepared for it, has a store with nothing in it for every API location,
and is running. -/
theorem started_running {input : Str} {config : NginxConfig} (hparse : parse input = .valid config)
    (hwf : WellFormed config) (htrimmed : ∀ l ∈ locations config, ¬ l.Untrimmed) {routes : Routes}
    {s : State} (hstart : startServer config fs = .ok (routes, s))
    (hprepared : ∀ paths, getPaths config = .ok paths → Prepared paths routes top fs) :
    Tidy routes ∧ Running routes top s ∧ ∀ location root, apiRoot routes location = some root →
      Api.Fresh root (top location) ⟨s.fs, s.pathCounts location⟩ := by
  obtain ⟨paths, hpaths, rfl, rfl⟩ := startServer_eq hstart
  have h := hprepared paths hpaths
  refine ⟨⟨?_, fun key hkey => ?_, fun e handler he => (h.database e handler he).1⟩, h.running,
    fun location root hroot => h.fresh hroot⟩
  · rw [table, emplace_apply, if_pos rfl]
    cases paths.foldl (addRoute paths) (fun _ => none) ['/'] <;> rfl
  · -- The keys are those of the locations, which are trimmed, and `/`.
    obtain ⟨routes, paths', -, htable, hinit⟩ := initServer_eq (parse_proper hparse) hwf
    have hsame : initServer config = .ok (table paths) := by
      rw [initServer, hpaths]
      rfl
    rw [Except.ok.inj (hsame.symm.trans hinit), emplace_apply] at hkey
    by_cases hhome : key = ['/']
    · rw [hhome]
      decide
    · rw [if_neg (Ne.symm hhome), htable] at hkey
      have hregistered : (registered (locations config) key).isSome := by simpa using hkey
      obtain ⟨l, hl, rfl⟩ := registered_isSome.mp hregistered
      rw [Location.key_eq (htrimmed l hl), trimSlashes_trimSlashes]

/-! ## Starting it again -/

/-- A change at one location keeps the roots that are made. -/
theorem Made.set (h : Made paths top fs) (loc : Location) (n : Option Node) :
    Made paths top (fs.set loc n) := fun p hp htype =>
  ⟨FileSystem.resolve_set (h p hp htype).1 loc n, FileSystem.set_directory (h p hp htype).2⟩

/-- A root that is there is not made. -/
theorem makeFactory_eq_self {p : Path}
    (h : p.type = .api → fs.node (top p.endpoint) = some .directory ∧
      fs.resolve (getRoot paths p.endpoint) = some (top p.endpoint)) :
    makeFactory paths fs p = fs := by
  unfold makeFactory
  split
  · next htype =>
    obtain ⟨hdir, hresolve⟩ := h htype
    have hexists : fs.pathExists (getRoot paths p.endpoint) = true := by
      rw [FileSystem.pathExists, FileSystem.lookup_eq hresolve, hdir]
      rfl
    simp only [makeRoot, hexists, if_true]
  · rfl

/-- A server that is started again with the same config, and finds its roots, leaves the files as
they are. -/
theorem startServer_again {config : NginxConfig} {routes : Routes} {s s' : State}
    (hmade : ∀ paths, getPaths config = .ok paths → Made paths top s.fs)
    (hstart : startServer config s.fs = .ok (routes, s')) : s' = ⟨s.fs, fun _ _ => none⟩ := by
  obtain ⟨paths, hpaths, -, rfl⟩ := startServer_eq hstart
  have hfold : ∀ ps, ps ⊆ paths → ps.foldl (makeFactory paths) s.fs = s.fs := by
    intro ps hps
    induction ps with
    | nil => rfl
    | cons p ps ih =>
      obtain ⟨hp, hps⟩ := List.cons_subset.mp hps
      rw [List.foldl_cons, makeFactory_eq_self fun htype => (hmade paths hpaths p hp htype).symm]
      exact ih hps
  rw [hfold paths (List.Subset.refl paths)]

end

/-- A config with an API location and accounts. -/
def startConfig : NginxConfig :=
  [.mk [kUrlPathKeyword, "/api".toList, kAPIHandler]
      (some [.mk [kResourcePathKeyword, "/r/".toList] none]),
    .mk [kUrlPathKeyword, "/auth".toList, kAuthenticationHandler]
      (some [.mk [kResourcePathKeyword, "/p".toList] none,
        .mk ["data_path".toList, "/d".toList] none,
        .mk ["signup".toList, "/signup".toList] none,
        .mk ["login".toList, "/login".toList] none])]

/-- The directory of its database, and not that of its API location. -/
def startFiles : FileSystem := FileSystem.empty.set [['d']] (some .directory)

set_option maxRecDepth 2000 in
/-- It is read back from its text. -/
theorem parse_startConfig : parse (NginxConfig.toString startConfig 0) = .valid startConfig := by
  rfl

/-- It is well-formed. -/
theorem wellFormed_startConfig : WellFormed startConfig := by
  intro statement hstatement _
  rcases List.mem_cons.mp hstatement with rfl | hstatement
  · exact ⟨⟨"/api".toList, .api, _⟩, rfl, fun _ => ⟨[], "/r/".toList, none, [], rfl, by simp⟩⟩
  · rw [List.mem_singleton.mp hstatement]
    refine ⟨⟨"/auth".toList, .authentication, _⟩, rfl, fun _ =>
      ⟨[], "/p".toList, none, [_, _, _], rfl, ?_⟩⟩
    decide

/-- No console of it has slashes at the end. -/
theorem trimmed_startConfig : ∀ l ∈ locations startConfig, ¬ l.Untrimmed := by
  intro l hl huntrimmed
  obtain ⟨statement, hmem, hl⟩ := List.mem_filterMap.mp hl
  rcases List.mem_cons.mp hmem with rfl | hmem
  · obtain rfl := Option.some.inj hl
    cases huntrimmed.1
  · rw [List.mem_singleton.mp hmem] at hl
    obtain rfl := Option.some.inj hl
    cases huntrimmed.1

/-- Its paths. -/
def startPaths : List Path := (locations startConfig).flatMap Location.paths

/-- They are what the config says. -/
theorem getPaths_startConfig : getPaths startConfig = .ok startPaths :=
  getPaths_eq (parse_proper parse_startConfig) wellFormed_startConfig

/-- Its server. -/
theorem exists_startServer : ∃ routes s, startServer startConfig startFiles = .ok (routes, s) :=
  ⟨_, _, rfl⟩

/-- The handler of its accounts. -/
def startHandler : AuthenticationHandler :=
  createAuthentication ⟨.authentication, startPaths⟩ "/auth".toList

/-- There is no other one. -/
theorem authentication_start {e : Incoming} {handler : AuthenticationHandler}
    (h : authentication (table startPaths) e = some handler) : handler = startHandler := by
  unfold authentication at h
  dsimp only at h
  split at h
  · next config hroute =>
    obtain ⟨rfl, hkind | ⟨p, hp, hkind, hendpoint⟩⟩ := exists_path_of_route hroute
    · cases hkind
    · rcases List.mem_cons.mp hp with rfl | hp
      · cases hkind
      · rw [List.mem_singleton.mp hp] at hendpoint
        rw [← hendpoint] at h
        exact (Option.some.inj h).symm
  · cases h

/-- Its API location. -/
theorem endpoint_start {p : Path} (hp : p ∈ startPaths) (htype : p.type = .api) :
    p.endpoint = "/api".toList := by
  rcases List.mem_cons.mp hp with rfl | hp
  · rfl
  · rw [List.mem_singleton.mp hp] at htype
    cases htype

/-- The files are prepared for it. -/
theorem prepared_startFiles {routes : Routes} {s : State}
    (hstart : startServer startConfig startFiles = .ok (routes, s)) {paths : List Path}
    (hpaths : getPaths startConfig = .ok paths) :
    Prepared paths routes (fun _ => [['r']]) startFiles := by
  obtain rfl : startPaths = paths := Except.ok.inj (getPaths_startConfig.symm.trans hpaths)
  obtain ⟨paths, hpaths, hroutes, -⟩ := startServer_eq hstart
  obtain rfl : startPaths = paths := Except.ok.inj (getPaths_startConfig.symm.trans hpaths)
  subst hroutes
  have hnone : ∀ names, names ≠ [['d']] → names ≠ [] → startFiles.node names = none := by
    intro names hd hne
    rw [startFiles, FileSystem.set_node_of_ne hd]
    exact if_neg hne
  refine ⟨fun p hp htype => ?_, fun p hp htype => ⟨.inl (hnone _ (by decide) (by decide)), ?_⟩,
    fun p hp q hq htype htype' hne => ?_, fun e handler he => ?_⟩
  · rw [endpoint_start hp htype]
    exact ⟨by decide, by decide⟩
  · intro names hne
    exact hnone _ (by simp) (by simp)
  · exact absurd ((endpoint_start hp htype).trans (endpoint_start hq htype').symm) hne
  · rw [authentication_start he]
    exact ⟨by decide, sampleDatabase, by decide, by decide, fun _ _ _ => by decide⟩

/-- Its start makes the root, as that of an API location, and nothing at another place. -/
theorem startServer_node_start : ∃ routes s, startServer startConfig startFiles = .ok (routes, s) ∧
    (s.fs.node [['r']] = some .directory ∧ ∃ paths, getPaths startConfig = .ok paths ∧
      ∃ p ∈ paths, p.type = .api ∧
        s.fs.resolve (trimSlashes (cstr (getRoot paths p.endpoint))) = some [['r']]) ∧
    s.fs.node [['x']] = none := by
  obtain ⟨routes, s, hstart⟩ := exists_startServer
  obtain ⟨paths, hpaths, -, hs⟩ := startServer_eq hstart
  obtain rfl := Except.ok.inj (getPaths_startConfig.symm.trans hpaths)
  refine ⟨routes, s, hstart, ?_, ?_⟩
  · rcases startServer_node hstart [['r']] with hsame | ⟨-, hmade⟩
    · -- It was not there before.
      have hdir : s.fs.node [['r']] = some .directory := by
        subst hs
        decide
      rw [hdir] at hsame
      cases hsame
    · exact hmade
  · rcases startServer_node hstart [['x']] with hsame | ⟨-, -, paths, hpaths, p, hp, htype, hroot⟩
    · exact hsame
    · -- The API location has another root.
      obtain rfl := Except.ok.inj (getPaths_startConfig.symm.trans hpaths)
      have hother : s.fs.resolve (trimSlashes (cstr (getRoot startPaths "/api".toList))) =
          some [['r']] := by
        subst hs
        decide
      rw [endpoint_start hp htype, hother] at hroot
      cases hroot

/-- It is running when it is started. -/
theorem started_running_start : ∃ routes s, startServer startConfig startFiles = .ok (routes, s) ∧
    Tidy routes ∧ Running routes (fun _ => [['r']]) s ∧
      ∀ location root, apiRoot routes location = some root →
        Api.Fresh root [['r']] ⟨s.fs, s.pathCounts location⟩ := by
  obtain ⟨routes, s, hstart⟩ := exists_startServer
  exact ⟨routes, s, hstart, started_running parse_startConfig wellFormed_startConfig
    trimmed_startConfig hstart fun paths hpaths => prepared_startFiles hstart hpaths⟩

end CrazyCode.Site
