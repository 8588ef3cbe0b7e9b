import CrazyCode.Server.Routes
import CrazyCode.Session.Authentication
import CrazyCode.Static.Handler

/-!
# What the handlers are configured with

A factory keeps the config with all its paths, and looks the values of its location up again when it
makes a handler. `get_root` finds the first path at the location, which is that of the statement
that has registered it. `get_auth_path_map` stops at the first path at the location or of the
authentication type, whichever comes first. So an authentication handler, and a console behind an
authentication block, have the values of the first authentication block of the file. A console with
none before it has the map of its own first path, which holds the first child of its block only.

`configuredFromOwnBlock_iff` says exactly when every handler still has the values of its own block.
-/

namespace CrazyCode.Server

open Text Config Segments

/-- `api_console_handler`, as far as its factory sets it. -/
structure ApiConsoleHandler where
  location : Str
  root : Str

/-- `api_console_handler_factory::create`. -/
def createApiConsole (factory : Factory) (location : Str) : ApiConsoleHandler :=
  ⟨location, getAuthPathMap factory.config location "root".toList⟩

/-- The keys of an authentication block that its handler reads. -/
def authKeys : List Str :=
  ["root".toList, "data_path".toList, "signup".toList, "login".toList, "logout".toList]

/-- The values of its location that a factory makes a handler with. -/
def configuredValues (factory : Factory) (location : Str) : List Str :=
  match factory.kind with
  | .staticHandler => [(Static.create factory location).root]
  | .api => [getRoot factory.config location]
  | .authentication =>
    let h := Session.createAuthentication factory location
    [h.root, h.dataPath, h.signup, h.login, h.logout]
  | .apiConsole => [(createApiConsole factory location).root]
  | .echo | .health | .sleep | .handler404 => []

/-- The values of its location that a handler is to have: those that are written in its block. -/
def writtenValues (l : Location) : List Str :=
  match l.kind with
  | .staticHandler | .api | .apiConsole => [blockValue l.children "root".toList]
  | .authentication => authKeys.map (blockValue l.children)
  | .echo | .health | .sleep | .handler404 => []

/-- The location that has registered a key: the first one that has it. -/
def registrar (ls : List Location) (key : Str) : Option Location := ls.find? fun l => l.key = key

/-- The handler that is made for a key has the values of the block that has registered the key. -/
def ConfiguredFromOwnBlock (config : NginxConfig) (routes : Routes) : Prop :=
  ∀ key factory l, routes key = some factory → registrar (locations config) key = some l →
    configuredValues factory key = writtenValues l

/-! ## The lookups -/

/-- `get_root` passes over the paths at other locations. -/
theorem getRoot_append {ps : List Path} {location : Str} (h : ∀ p ∈ ps, p.endpoint ≠ location)
    (rest : List Path) : getRoot (ps ++ rest) location = getRoot rest location := by
  induction ps with
  | nil => rfl
  | cons p ps ih =>
    have htype : p.type ≠ .static_ ∨ p.type ≠ .api := by
      by_cases hp : p.type = .static_
      · exact .inr (by rw [hp]; decide)
      · exact .inl hp
    rw [List.cons_append, getRoot, if_pos ⟨h p (by simp), htype⟩]
    exact ih fun q hq => h q (by simp [hq])

/-- `get_root` stops at the first path at the location. -/
theorem getRoot_cons {p : Path} {location : Str} (h : p.endpoint = location) (rest : List Path) :
    getRoot (p :: rest) location = p.root := by
  rw [getRoot, if_neg fun hp => hp.1 h]

/-- `get_auth_path_map` passes over the paths at other locations that are not of the authentication
type. -/
theorem getAuthPathMap_append {ps : List Path} {location : Str}
    (h : ∀ p ∈ ps, p.endpoint ≠ location ∧ p.type ≠ .auth) (rest : List Path) :
    getAuthPathMap (ps ++ rest) location = getAuthPathMap rest location := by
  induction ps with
  | nil => rfl
  | cons p ps ih =>
    rw [List.cons_append, getAuthPathMap, if_pos (h p (by simp))]
    exact ih fun q hq => h q (by simp [hq])

/-- `get_auth_path_map` stops at a path at the location, and at one of the authentication type. -/
theorem getAuthPathMap_cons {p : Path} {location : Str}
    (h : p.endpoint = location ∨ p.type = .auth) (rest : List Path) :
    getAuthPathMap (p :: rest) location = p.configKeyToPathMap := by
  rw [getAuthPathMap, if_neg]
  rintro ⟨hendpoint, htype⟩
  exact h.elim hendpoint htype

/-! ## The first authentication block -/

/-- The first authentication location among some. -/
def firstAuth (ls : List Location) : Option Location := ls.find? fun l => l.kind = .authentication

/-- The values that a location is looked up with, behind the locations before it, are its own. -/
def OwnValues (before : List Location) (l : Location) : Prop :=
  match l.kind with
  | .authentication => ∀ first, firstAuth before = some first →
      authKeys.map (blockValue first.children) = authKeys.map (blockValue l.children)
  | .apiConsole =>
      (∀ first, firstAuth before = some first →
        blockValue first.children "root".toList = blockValue l.children "root".toList) ∧
      (firstAuth before = none →
        ∃ child children, l.children = child :: children ∧ child.tokens.head? = some "root".toList)
  | _ => True

/-- Every location that registers its key has its own values. -/
def OwnBlocks (ls : List Location) : Prop :=
  ∀ before l behind, ls = before ++ l :: behind → (∀ l' ∈ before, l'.key ≠ l.key) →
    OwnValues before l

/-- The path of a location is of the authentication type exactly if the location is. -/
theorem Location.type_eq_auth {l : Location} {p : Path} (h : p ∈ l.paths) :
    p.type = .auth ↔ l.kind = .authentication := by
  obtain ⟨-, hkind⟩ := mem_paths h
  constructor
  · intro htype
    rw [htype] at hkind
    exact (Option.some.inj hkind).symm
  · intro hauth
    rw [hauth] at hkind
    cases htype : p.type <;> rw [htype] at hkind <;> simp [factoryKind] at hkind

/-- The paths of locations with other keys are at other locations. -/
theorem endpoint_ne {before : List Location} {key : Str} (h : ∀ l ∈ before, l.key ≠ key) {p : Path}
    (hp : p ∈ before.flatMap Location.paths) : p.endpoint ≠ key := by
  obtain ⟨l, hl, hp⟩ := List.mem_flatMap.mp hp
  rw [(Location.mem_paths hp).1]
  exact h l hl

/-- The root of a location is found at its key. -/
theorem getRoot_location {before behind : List Location} {l : Location} {p : Path} {ps : List Path}
    (hbefore : ∀ l' ∈ before, l'.key ≠ l.key) (hpaths : l.paths = p :: ps) :
    getRoot ((before ++ l :: behind).flatMap Location.paths) l.key = p.root := by
  rw [List.flatMap_append, getRoot_append fun q hq => endpoint_ne hbefore hq, List.flatMap_cons,
    hpaths, List.cons_append]
  exact getRoot_cons (Location.mem_paths (hpaths ▸ List.mem_cons_self)).1 _

/-- Behind an authentication block the map of the first one is found. -/
theorem getAuthPathMap_of_firstAuth {before behind : List Location} {l first : Location}
    (hbefore : ∀ l' ∈ before, l'.key ≠ l.key) (h : firstAuth before = some first) :
    getAuthPathMap ((before ++ l :: behind).flatMap Location.paths) l.key =
      blockValue first.children := by
  obtain ⟨hfirst, pre, post, rfl, hpre⟩ := List.find?_eq_some_iff_append.mp h
  have hkind : first.kind = .authentication := by simpa using hfirst
  have hskip : ∀ p ∈ pre.flatMap Location.paths, p.endpoint ≠ l.key ∧ p.type ≠ .auth := by
    intro p hp
    refine ⟨endpoint_ne (fun l' hl' => hbefore l' (by simp [hl'])) hp, ?_⟩
    obtain ⟨l', hl', hp⟩ := List.mem_flatMap.mp hp
    rw [Ne, Location.type_eq_auth hp]
    simpa using hpre l' hl'
  rw [List.append_assoc, List.cons_append, List.flatMap_append, getAuthPathMap_append hskip,
    List.flatMap_cons]
  simp only [Location.paths, hkind, List.cons_append]
  exact getAuthPathMap_cons (.inr rfl) _

/-- With no authentication block before it the map of a location's own first path is found. -/
theorem getAuthPathMap_of_none {before behind : List Location} {l : Location} {p : Path}
    {ps : List Path} (hbefore : ∀ l' ∈ before, l'.key ≠ l.key) (h : firstAuth before = none)
    (hpaths : l.paths = p :: ps) :
    getAuthPathMap ((before ++ l :: behind).flatMap Location.paths) l.key =
      p.configKeyToPathMap := by
  have hskip : ∀ p ∈ before.flatMap Location.paths, p.endpoint ≠ l.key ∧ p.type ≠ .auth := by
    intro p hp
    refine ⟨endpoint_ne hbefore hp, ?_⟩
    obtain ⟨l', hl', hp⟩ := List.mem_flatMap.mp hp
    rw [Ne, Location.type_eq_auth hp]
    simpa using List.find?_eq_none.mp h l' hl'
  rw [List.flatMap_append, getAuthPathMap_append hskip, List.flatMap_cons, hpaths, List.cons_append]
  exact getAuthPathMap_cons (.inl (Location.mem_paths (hpaths ▸ List.mem_cons_self)).1) _

/-! ## The values of one location -/

/-- A console with a block of children of two tokens is made of the first of them when no
authentication block is before it, so it has its root exactly if that is the `root` statement. -/
theorem consoleRoot_iff {l : Location} (hkind : l.kind = .apiConsole) (hroot : RootOnce l.children)
    (htwo : ∀ child ∈ l.children, child.tokens.length = 2)
    (hvalue : blockValue l.children "root".toList ≠ []) :
    ∃ p ps, l.paths = p :: ps ∧
      (p.configKeyToPathMap "root".toList = blockValue l.children "root".toList ↔
        ∃ child children, l.children = child :: children ∧
          child.tokens.head? = some "root".toList) := by
  obtain ⟨url, kind, children⟩ := l
  simp only at hkind hroot htwo hvalue ⊢
  subst hkind
  obtain ⟨before, root, block, behind, rfl, hother⟩ := hroot
  have hfilter := List.filter_eq_self.mpr fun child hc => decide_eq_true (htwo child hc)
  have hwritten : blockValue (before ++ .mk [kResourcePathKeyword, root] block :: behind)
      kResourcePathKeyword = root := blockValue_root hother
  rw [show kResourcePathKeyword = "root".toList from rfl] at hwritten hother hfilter hvalue ⊢
  simp only [Location.paths, hfilter, hwritten]
  rw [hwritten] at hvalue
  cases before with
  | nil =>
    refine ⟨_, _, rfl, ?_⟩
    have hfirst : blockValue [.mk ["root".toList, root] block] "root".toList = root := by
      simp [blockValue, argument]
    exact ⟨fun _ => ⟨_, _, rfl, rfl⟩, fun _ => hfirst⟩
  | cons child before =>
    -- The first child is another one, and its map has no root.
    refine ⟨_, _, rfl, ?_⟩
    have hchild := hother child (by simp)
    have hfirst : blockValue [child] "root".toList = [] := by
      rw [blockValue, List.filterMap_cons, argument_of_head hchild]
      rfl
    constructor
    · intro heq
      exact absurd (heq.symm.trans hfirst) hvalue
    · rintro ⟨child', children', heq, hhead⟩
      rw [(List.cons.inj heq).1] at hchild
      exact absurd hhead hchild

/-- The one path of a location for static files or the API has the root of its block. -/
theorem Location.exists_path_root {l : Location} (h : l.kind = .staticHandler ∨ l.kind = .api) :
    ∃ p, l.paths = [p] ∧ p.root = blockValue l.children "root".toList := by
  rcases h with hkind | hkind <;>
  · unfold paths
    rw [hkind]
    exact ⟨_, rfl, rfl⟩

/-- The one path of an authentication location has the map of its block. -/
theorem Location.exists_path_map {l : Location} (h : l.kind = .authentication) :
    ∃ p, l.paths = [p] ∧ p.configKeyToPathMap = blockValue l.children := by
  unfold paths
  rw [h]
  exact ⟨_, rfl, rfl⟩

/-- A handler has the values of its own block exactly if its location is looked up with them. -/
theorem configuredValues_iff {before behind : List Location} {l : Location}
    (hbefore : ∀ l' ∈ before, l'.key ≠ l.key) (hroot : l.HasRoot)
    (htwo : NeedsRoot l.kind → ∀ child ∈ l.children, child.tokens.length = 2)
    (hvalue : NeedsRoot l.kind → blockValue l.children "root".toList ≠ []) :
    configuredValues ⟨l.kind, (before ++ l :: behind).flatMap Location.paths⟩ l.key =
      writtenValues l ↔ OwnValues before l := by
  -- What the lookups find: the root of the location, and the map of the first block for accounts or
  -- consoles.
  have hfound : ∀ p ps, l.paths = p :: ps →
      getRoot ((before ++ l :: behind).flatMap Location.paths) l.key = p.root :=
    fun _ _ => getRoot_location hbefore
  have hfirst : ∀ first, firstAuth before = some first →
      getAuthPathMap ((before ++ l :: behind).flatMap Location.paths) l.key =
        blockValue first.children := fun _ => getAuthPathMap_of_firstAuth hbefore
  have hnone : ∀ p ps, firstAuth before = none → l.paths = p :: ps →
      getAuthPathMap ((before ++ l :: behind).flatMap Location.paths) l.key =
        p.configKeyToPathMap := fun _ _ => getAuthPathMap_of_none hbefore
  cases hkind : l.kind with
  | staticHandler | api =>
    obtain ⟨p, hpaths, hp⟩ := Location.exists_path_root (l := l) (by simp [hkind])
    simp only [configuredValues, writtenValues, OwnValues, hkind, Static.create]
    rw [hfound p [] hpaths, hp]
    exact iff_of_true rfl trivial
  | authentication =>
    simp only [configuredValues, writtenValues, OwnValues, hkind, Session.createAuthentication]
    cases hauth : firstAuth before with
    | none =>
      obtain ⟨p, hpaths, hp⟩ := Location.exists_path_map hkind
      rw [hnone p [] hauth hpaths, hp]
      exact iff_of_true rfl fun first h => by cases h
    | some first =>
      rw [hfirst first hauth]
      exact ⟨fun heq first' h => Option.some.inj h ▸ heq, fun h => h first rfl⟩
  | apiConsole =>
    have hneeds : NeedsRoot l.kind := .inr (.inr (.inr hkind))
    simp only [configuredValues, writtenValues, OwnValues, hkind, createApiConsole, List.cons.injEq,
      and_true]
    cases hauth : firstAuth before with
    | none =>
      -- The map is that of its own block, in which the console's root was changed.
      obtain ⟨p, ps, hpaths, hiff⟩ := consoleRoot_iff hkind (hroot hneeds) (htwo hneeds)
        (hvalue hneeds)
      rw [hnone p ps hauth hpaths, hiff]
      exact ⟨fun h => ⟨fun first hfirst => (nomatch hfirst), fun _ => h⟩, fun h => h.2 rfl⟩
    | some first =>
      rw [hfirst first hauth]
      exact ⟨fun heq => ⟨fun first' h => Option.some.inj h ▸ heq, fun h => nomatch h⟩,
        fun h => h.1 first rfl⟩
  | echo | health | sleep | handler404 =>
    simp [configuredValues, writtenValues, OwnValues, hkind]

/-! ## All handlers -/

/-- Every block whose handler needs a root has children of two tokens only. -/
def TwoTokens (config : NginxConfig) : Prop :=
  ∀ l ∈ locations config, NeedsRoot l.kind → ∀ child ∈ l.children, child.tokens.length = 2

/-- The root that is written in a block of a config that is accepted has a byte. -/
theorem root_ne_nil {input : Str} {config : NginxConfig} (h : parse input = .valid config)
    {l : Location} (hl : l ∈ locations config) (hroot : RootOnce l.children) :
    blockValue l.children "root".toList ≠ [] := by
  obtain ⟨before, root, block, behind, hchildren, hother⟩ := hroot
  have hwritten : blockValue (before ++ .mk [kResourcePathKeyword, root] block :: behind)
      kResourcePathKeyword = root := blockValue_root hother
  rw [hchildren, show "root".toList = kResourcePathKeyword from rfl, hwritten]
  obtain ⟨statement, hmem, hl⟩ := List.mem_filterMap.mp hl
  obtain ⟨handler, rfl, -⟩ := locationOf_eq_some.mp hl
  have hword : .word root ∈ NginxConfig.flatten l.children := by
    rw [hchildren]
    have hchild : NginxConfigStatement.mk [kResourcePathKeyword, root] block ∈
        before ++ .mk [kResourcePathKeyword, root] block :: behind := by simp
    exact word_mem_flatten hchild (by simp [NginxConfigStatement.tokens])
  obtain ⟨pre, post, rfl⟩ := List.append_of_mem hmem
  exact (parse_isWord h (w := root) (by simp [hword])).ne_nil

/-- In the table of a well-formed config the first location with a key has its factory there. -/
theorem exists_registered_routes {config : NginxConfig} (hproper : config.Proper)
    (hwf : WellFormed config) :
    ∃ routes, initServer config = .ok routes ∧ ∀ before l behind,
      locations config = before ++ l :: behind → (∀ l' ∈ before, l'.key ≠ l.key) →
        routes l.key = some ⟨l.kind, (locations config).flatMap Location.paths⟩ := by
  obtain ⟨table, paths, rfl, htable, hinit⟩ := initServer_eq hproper hwf
  refine ⟨_, hinit, fun before l behind heq hbefore => ?_⟩
  have hkind : registered (locations config) l.key = some l.kind := by
    rw [heq]
    exact registered_append hbefore
  rw [emplace_apply, htable, hkind]
  rfl

/-- Every handler that the server of a well-formed config makes has the values of its own block,
exactly if every location that registers its key is looked up with them. -/
theorem configuredFromOwnBlock_iff {input : Str} {config : NginxConfig}
    (h : parse input = .valid config) (hwf : WellFormed config) (htwo : TwoTokens config) :
    ∃ routes, initServer config = .ok routes ∧
      (ConfiguredFromOwnBlock config routes ↔ OwnBlocks (locations config)) := by
  obtain ⟨routes, hinit, hroutes⟩ := exists_registered_routes (parse_proper h) hwf
  refine ⟨routes, hinit, ?_⟩
  -- What is known of a location that registers its key.
  have hown : ∀ before l behind, locations config = before ++ l :: behind →
      (∀ l' ∈ before, l'.key ≠ l.key) →
      (configuredValues ⟨l.kind, (locations config).flatMap Location.paths⟩ l.key =
        writtenValues l ↔ OwnValues before l) := by
    intro before l behind heq hbefore
    have hl : l ∈ locations config := by simp [heq]
    rw [heq]
    exact configuredValues_iff hbefore (hwf.hasRoot hl) (htwo l hl) fun hneeds =>
      root_ne_nil h hl (hwf.hasRoot hl hneeds)
  constructor
  · intro hconfigured before l behind heq hbefore
    refine (hown before l behind heq hbefore).mp
      (hconfigured l.key _ l (hroutes before l behind heq hbefore) ?_)
    exact List.find?_eq_some_iff_append.mpr ⟨by simp, before, behind, heq, by simpa using hbefore⟩
  · intro hblocks key factory l hfactory hl
    obtain ⟨hkey, before, behind, heq, hbefore⟩ := List.find?_eq_some_iff_append.mp hl
    have hkey : l.key = key := by simpa using hkey
    subst hkey
    have hbefore : ∀ l' ∈ before, l'.key ≠ l.key := by simpa using hbefore
    obtain rfl := Option.some.inj (hfactory.symm.trans (hroutes before l behind heq hbefore))
    exact (hown before l behind heq hbefore).mpr (hblocks before l behind heq hbefore)

/-- A config with two authentication locations, each with a root of its own. -/
def twoSites : NginxConfig :=
  [.mk [kUrlPathKeyword, ['/', 'a'], kAuthenticationHandler]
      (some [.mk [kResourcePathKeyword, ['r']] none]),
    .mk [kUrlPathKeyword, ['/', 'b'], kAuthenticationHandler]
      (some [.mk [kResourcePathKeyword, ['s']] none])]

/-- It is well-formed. -/
theorem wellFormed_twoSites : WellFormed twoSites := by
  intro statement hstatement _
  rcases List.mem_cons.mp hstatement with rfl | hstatement
  · exact ⟨⟨['/', 'a'], .authentication, _⟩, rfl, fun _ => ⟨[], ['r'], none, [], rfl, by simp⟩⟩
  · rw [List.mem_singleton.mp hstatement]
    exact ⟨⟨['/', 'b'], .authentication, _⟩, rfl, fun _ => ⟨[], ['s'], none, [], rfl, by simp⟩⟩

/-- Its blocks have children of two tokens. -/
theorem twoTokens_twoSites : TwoTokens twoSites := by
  intro l hl _ child hchild
  obtain ⟨statement, hmem, hl⟩ := List.mem_filterMap.mp hl
  rcases List.mem_cons.mp hmem with rfl | hmem
  · obtain rfl := Option.some.inj hl
    rw [List.mem_singleton.mp hchild]
    rfl
  · rw [List.mem_singleton.mp hmem] at hl
    obtain rfl := Option.some.inj hl
    rw [List.mem_singleton.mp hchild]
    rfl

/-- A config with a second authentication location, to which the condition applies. -/
theorem configuredFromOwnBlock_twoSites :
    ∃ routes, initServer twoSites = .ok routes ∧
      (ConfiguredFromOwnBlock twoSites routes ↔ OwnBlocks (locations twoSites)) :=
  @configuredFromOwnBlock_iff (NginxConfig.toString twoSites 0) _ rfl wellFormed_twoSites
    twoTokens_twoSites

/-- The handler of the second site is made with the root of the first one. -/
theorem not_configuredFromOwnBlock : ¬ ∀ input config routes, parse input = .valid config →
    WellFormed config → TwoTokens config → initServer config = .ok routes →
    ConfiguredFromOwnBlock config routes := by
  intro h
  have hparse : parse (NginxConfig.toString twoSites 0) = .valid twoSites := rfl
  obtain ⟨routes, hinit, hroutes⟩ :=
    exists_registered_routes (parse_proper hparse) wellFormed_twoSites
  have hfactory := hroutes [⟨['/', 'a'], .authentication, _⟩] ⟨['/', 'b'], .authentication, _⟩ []
    rfl (by decide)
  have hvalues := h _ _ routes hparse wellFormed_twoSites twoTokens_twoSites hinit _ _ _ hfactory
    rfl
  exact absurd hvalues (by decide)

end CrazyCode.Server
