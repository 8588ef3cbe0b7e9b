import CrazyCode.Config.Printer
import CrazyCode.Server.Locations

/-!
# Requests reach the location that the config names

`initServer` is `server::init_server` of `src/server.cc`. It puts a factory into the table of routes
for each path of the config, and the first one at a key stays. For a well-formed config the table
maps the key of each location to the kind of its handler (`initServer_eq`), and a request target
leads to the factory at the longest key that covers it.

The config names a location by its URL without the slashes at its end. For all handlers but the
console this is the key, so the two tables differ only where a console has slashes at the end of its
URL: it is registered under a longer key than the one it is named by. `reachesNamed_iff` says
exactly when no request notices.
-/

namespace CrazyCode.Server

open Text Config Outcome Segments

/-! ## What is found first -/

section

variable {α β γ : Type}

/-- What is found first in joined lists is found in the first list that has it. -/
theorem findSome?_flatMap (xs : List α) (f : α → List β) (g : β → Option γ) :
    (xs.flatMap f).findSome? g = xs.findSome? fun x => (f x).findSome? g := by
  induction xs with
  | nil => rfl
  | cons x xs ih =>
    rw [List.flatMap_cons, List.findSome?_append, ih, List.findSome?_cons]
    cases (f x).findSome? g <;> rfl

/-- What is found first depends on the elements of the list only. -/
theorem findSome?_congr {f g : α → Option β} {xs : List α} (h : ∀ x ∈ xs, f x = g x) :
    xs.findSome? f = xs.findSome? g := by
  induction xs with
  | nil => rfl
  | cons x xs ih =>
    rw [List.findSome?_cons, List.findSome?_cons, h x (by simp), ih fun y hy => h y (by simp [hy])]

/-- In a list whose elements all give the same, the first one does. -/
theorem findSome?_const {f : α → Option β} {xs : List α} {value : Option β} (hne : xs ≠ [])
    (h : ∀ x ∈ xs, f x = value) : xs.findSome? f = value := by
  obtain ⟨x, xs, rfl⟩ := List.exists_cons_of_ne_nil hne
  rw [findSome?_congr h, List.findSome?_cons]
  cases value with
  | none => simp
  | some v => rfl

end

/-! ## The table of routes -/

/-- The factory that `init_server` makes for a path: its `switch` has no case for the last two
types. -/
def factoryKind : EndpointType → Option FactoryKind
  | .static_ => some .staticHandler
  | .echo => some .echo
  | .api => some .api
  | .health => some .health
  | .sleep_ => some .sleep
  | .auth => some .authentication
  | .console => some .apiConsole
  | .profile => none
  | .invalid => none

/-- The body of the loop of `init_server`: every factory has a copy of the config with all its
paths. -/
def addRoute (paths : List Path) (routes : Routes) (p : Path) : Routes :=
  match factoryKind p.type with
  | some kind => emplace routes p.endpoint ⟨kind, paths⟩
  | none => routes

/-- `server::init_server`. -/
def initServer (config : NginxConfig) : Except PathsFault Routes := do
  let paths ← getPaths config
  return emplace (paths.foldl (addRoute paths) fun _ => none) ['/'] ⟨.handler404, paths⟩

/-- The factory that a path has for a key. -/
def pathFactory (paths : List Path) (r : Str) (p : Path) : Option Factory :=
  if p.endpoint = r then (factoryKind p.type).map (Factory.mk · paths) else none

/-- The table has the factory of the first path at each key. -/
theorem foldl_addRoute (paths ps : List Path) (routes : Routes) (r : Str) :
    ps.foldl (addRoute paths) routes r = (routes r).or (ps.findSome? (pathFactory paths r)) := by
  induction ps generalizing routes with
  | nil => simp
  | cons p ps ih =>
    rw [List.foldl_cons, ih, List.findSome?_cons, addRoute, pathFactory]
    cases hkind : factoryKind p.type with
    | none => simp
    | some kind =>
      simp only [emplace_apply, Option.map_some]
      by_cases hr : p.endpoint = r
      · rw [if_pos hr]
        cases routes r <;> rfl
      · rw [if_neg hr]
        cases routes r <;> rfl

/-! ## The two tables of a config -/

/-- The kind of the first location with a given URL, slashes at the end left out. -/
def named (ls : List Location) (r : Str) : Option FactoryKind :=
  ls.findSome? fun l => if trimSlashes l.url = r then some l.kind else none

/-- The kind of the first location with a given key. -/
def registered (ls : List Location) (r : Str) : Option FactoryKind :=
  ls.findSome? fun l => if l.key = r then some l.kind else none

/-- A well-formed location of a config: where its handler needs a root, the block has one. -/
def Location.HasRoot (l : Location) : Prop := NeedsRoot l.kind → RootOnce l.children

/-- The locations of a well-formed config have the root they need. -/
theorem WellFormed.hasRoot {config : NginxConfig} (h : WellFormed config) {l : Location}
    (hl : l ∈ locations config) : l.HasRoot := by
  obtain ⟨statement, hmem, hl⟩ := List.mem_filterMap.mp hl
  obtain ⟨handler, rfl, -⟩ := locationOf_eq_some.mp hl
  obtain ⟨l', hl', hroot⟩ := h _ hmem rfl
  obtain rfl := Option.some.inj (hl.symm.trans hl')
  exact hroot

/-- A location names one of the handlers of a config. -/
theorem kind_ne_handler404 {config : NginxConfig} {l : Location} (hl : l ∈ locations config) :
    l.kind ≠ .handler404 := by
  obtain ⟨statement, -, hl⟩ := List.mem_filterMap.mp hl
  obtain ⟨handler, -, hkind⟩ := locationOf_eq_some.mp hl
  intro heq
  rw [heq, handlerKind] at hkind
  split_ifs at hkind <;> cases hkind

/-- A path of a location is at its key, and for its handler. -/
theorem Location.mem_paths {l : Location} {p : Path} (h : p ∈ l.paths) :
    p.endpoint = l.key ∧ factoryKind p.type = some l.kind := by
  obtain ⟨url, kind, children⟩ := l
  cases kind <;> simp only [paths, key, List.mem_singleton, List.mem_map, List.not_mem_nil] at h ⊢
  case apiConsole =>
    obtain ⟨child, -, rfl⟩ := h
    exact ⟨rfl, rfl⟩
  all_goals
    rw [h]
    exact ⟨by simp, rfl⟩

/-- A location with the root it needs has a path. -/
theorem Location.paths_ne_nil {l : Location} (hkind : l.kind ≠ .handler404) (h : l.HasRoot) :
    l.paths ≠ [] := by
  obtain ⟨url, kind, children⟩ := l
  cases kind with
  | handler404 => exact absurd rfl hkind
  | apiConsole =>
    have hany := (h (.inr (.inr (.inr rfl)))).any
    simpa [paths, List.any_eq_true] using hany
  | _ => simp [paths]

/-- The factory that the paths of a location have for a key. -/
theorem findSome?_pathFactory (all : List Path) (r : Str) {l : Location} (h : l.paths ≠ []) :
    l.paths.findSome? (pathFactory all r) =
      if l.key = r then some ⟨l.kind, all⟩ else none := by
  refine findSome?_const h fun p hp => ?_
  obtain ⟨hendpoint, htype⟩ := Location.mem_paths hp
  rw [pathFactory, hendpoint, htype]
  rfl

/-- The table of routes of a well-formed config: each key has the factory of the first location that
has it, with all the paths of the config, and `/` has one in any case. -/
theorem initServer_eq {config : NginxConfig} (hproper : config.Proper) (hwf : WellFormed config) :
    ∃ routes paths, paths = (locations config).flatMap Location.paths ∧
      (∀ r, routes r = (registered (locations config) r).map (Factory.mk · paths)) ∧
      initServer config = .ok (emplace routes ['/'] ⟨.handler404, paths⟩) := by
  set paths := (locations config).flatMap Location.paths with hpaths
  refine ⟨paths.foldl (addRoute paths) fun _ => none, paths, rfl, fun r => ?_, ?_⟩
  · rw [foldl_addRoute, Option.none_or, hpaths, findSome?_flatMap, registered, List.map_findSome?]
    refine findSome?_congr fun l hl => ?_
    rw [findSome?_pathFactory _ _ (Location.paths_ne_nil (kind_ne_handler404 hl) (hwf.hasRoot hl))]
    simp only [Function.comp]
    split_ifs <;> rfl
  · rw [initServer, getPaths_eq hproper hwf]
    rfl

/-! ## Where the two tables differ -/

/-- A console with slashes at the end of its URL. -/
def Location.Untrimmed (l : Location) : Prop := l.kind = .apiConsole ∧ trimSlashes l.url ≠ l.url

/-- A console with slashes at the end of its URL is registered with them. -/
theorem Location.Untrimmed.key_eq {l : Location} (h : l.Untrimmed) : l.key = l.url := if_pos h.1

/-- Any other location is registered without them. -/
theorem Location.key_eq {l : Location} (h : ¬ l.Untrimmed) : l.key = trimSlashes l.url := by
  unfold key
  split
  · next hkind =>
    by_contra hne
    exact h ⟨hkind, Ne.symm hne⟩
  · rfl

/-- The key is the trimmed URL and some slashes. -/
theorem Location.exists_key_eq (l : Location) :
    ∃ slashes, l.key = trimSlashes l.url ++ slashes ∧ ∀ c ∈ slashes, c = '/' := by
  by_cases h : l.Untrimmed
  · rw [h.key_eq]
    exact exists_trimSlashes_append l.url
  · exact ⟨[], by rw [key_eq h, List.append_nil], by simp⟩

/-- Only consoles are registered with slashes at the end. -/
theorem Location.untrimmed_of_key {l : Location} {r : Str} (h : l.key = r)
    (hr : trimSlashes r ≠ r) :
    l.Untrimmed := by
  by_contra hl
  rw [← h, key_eq hl, trimSlashes_trimSlashes] at hr
  exact hr rfl

section

variable {ls : List Location}

/-- The keys of the table of a config are those of its locations. -/
theorem registered_isSome {r : Str} : (registered ls r).isSome ↔ ∃ l ∈ ls, l.key = r := by
  rw [registered, List.findSome?_isSome_iff]
  refine exists_congr fun l => and_congr_right fun _ => ?_
  split_ifs with h <;> simp [h]

/-- The URLs that a config names are those of its locations, trimmed. -/
theorem named_isSome {r : Str} : (named ls r).isSome ↔ ∃ l ∈ ls, trimSlashes l.url = r := by
  rw [named, List.findSome?_isSome_iff]
  refine exists_congr fun l => and_congr_right fun _ => ?_
  split_ifs with h <;> simp [h]

/-- What is registered at a key is a location with this key. -/
theorem exists_of_registered {r : Str} {kind : FactoryKind} (h : registered ls r = some kind) :
    ∃ l ∈ ls, l.key = r ∧ l.kind = kind := by
  obtain ⟨l, hl, h⟩ := List.exists_of_findSome?_eq_some h
  split_ifs at h with hkey
  exact ⟨l, hl, hkey, Option.some.inj h⟩

/-- The first location with a key is registered there. -/
theorem registered_append {before behind : List Location} {l : Location}
    (h : ∀ l' ∈ before, l'.key ≠ l.key) :
    registered (before ++ l :: behind) l.key = some l.kind := by
  have hbefore :
      before.findSome? (fun l' => if l'.key = l.key then some l'.kind else none) = none :=
    List.findSome?_eq_none_iff.mpr fun l' hl' => if_neg (h l' hl')
  rw [registered, List.findSome?_append, hbefore, Option.none_or, List.findSome?_cons, if_pos rfl]

/-- A URL that is named is trimmed. -/
theorem trimSlashes_of_named {r : Str} (h : (named ls r).isSome) : trimSlashes r = r := by
  obtain ⟨l, -, rfl⟩ := named_isSome.mp h
  exact trimSlashes_trimSlashes l.url

/-- At a key with slashes at its end there is a console. -/
theorem registered_of_trimSlashes_ne {r : Str} (hr : trimSlashes r ≠ r) {kind : FactoryKind}
    (h : registered ls r = some kind) :
    kind = .apiConsole ∧ ∃ l ∈ ls, l.Untrimmed ∧ l.url = r := by
  obtain ⟨l, hl, hkey, rfl⟩ := exists_of_registered h
  have huntrimmed := Location.untrimmed_of_key hkey hr
  exact ⟨huntrimmed.1, l, hl, huntrimmed, huntrimmed.key_eq.symm.trans hkey⟩

/-- The two tables agree where no console has lost slashes. -/
theorem named_eq_registered {r : Str} (hr : trimSlashes r = r)
    (h : ∀ l ∈ ls, l.Untrimmed → trimSlashes l.url ≠ r) : named ls r = registered ls r := by
  refine findSome?_congr fun l hl => ?_
  by_cases hl' : l.Untrimmed
  · have hkey : l.key ≠ r := by
      rw [hl'.key_eq]
      rintro rfl
      exact hl'.2 hr
    rw [if_neg (h l hl hl'), if_neg hkey]
  · rw [Location.key_eq hl']

/-- A location is named by the longest URL that covers its own. -/
theorem isLongest_named {l : Location} (hl : l ∈ ls) (h : trimSlashes l.url ≠ l.url) :
    IsLongest '/' (fun r => (named ls r).isSome) l.url (trimSlashes l.url) := by
  refine ⟨named_isSome.mpr ⟨l, hl, rfl⟩, ?_, fun r hr hcovers => ?_⟩
  · obtain ⟨slashes, heq, hslashes⟩ := exists_trimSlashes_append l.url
    have hcovers : Covers '/' (trimSlashes l.url ++ slashes) l.url := by
      rw [← heq]
      exact .refl l.url
    exact hcovers.of_append hslashes
  · by_contra hlt
    have heq := eq_trimSlashes_of_isPrefix h (trimSlashes_of_named hr) hcovers.isPrefix (by omega)
    rw [heq] at hlt
    exact hlt le_rfl

/-- A key of the table covers a target only if the trimmed URL of its location does. -/
theorem exists_named_of_covers {r t : Str} (hr : (registered ls r).isSome) (h : Covers '/' r t) :
    ∃ l ∈ ls, l.key = r ∧ (named ls (trimSlashes l.url)).isSome ∧
      Covers '/' (trimSlashes l.url) t := by
  obtain ⟨l, hl, rfl⟩ := registered_isSome.mp hr
  obtain ⟨slashes, hkey, hslashes⟩ := l.exists_key_eq
  rw [hkey] at h
  exact ⟨l, hl, rfl, named_isSome.mpr ⟨l, hl, rfl⟩, h.of_append hslashes⟩

/-- Every console that has lost slashes is the first location with its trimmed URL, or behind
another console with it, and the trimmed URL itself leads to a console. -/
def ConsolesReached (ls : List Location) : Prop :=
  ∀ l ∈ ls, l.Untrimmed → named ls (trimSlashes l.url) = some .apiConsole ∧
    Leads '/' ['/'] .handler404 (registered ls) (trimSlashes l.url) .apiConsole

/-- If every target leads to what the config names, it does so for a console's own URL. -/
theorem named_of_leads {l : Location} (hl : l ∈ ls) (huntrimmed : l.Untrimmed)
    (h : ∀ kind, Leads '/' ['/'] .handler404 (registered ls) l.url kind →
      Leads '/' ['/'] .handler404 (named ls) l.url kind) :
    named ls (trimSlashes l.url) = some .apiConsole := by
  have hkey : (registered ls l.url).isSome := registered_isSome.mpr ⟨l, hl, huntrimmed.key_eq⟩
  obtain ⟨kind, hkind⟩ := Option.isSome_iff_exists.mp hkey
  obtain ⟨rfl, -⟩ := registered_of_trimSlashes_ne huntrimmed.2 hkind
  have hlongest := isLongest_named hl huntrimmed.2
  rcases h _ (leads_of_key hkind) with ⟨r, hr, hvalue⟩ | ⟨hnone, -⟩
  · rw [hlongest.unique hr]
    exact hvalue
  · exact absurd hlongest.2.1 (hnone _ hlongest.1)

/-- A key that is longer than the URL that names the location of a target, and covers the target,
too, is that of a console which has lost its slashes. -/
theorem apiConsole_of_longer {t e r : Str} {kind : FactoryKind}
    (he : IsLongest '/' (fun r => (named ls r).isSome) t e) (hr : registered ls r = some kind)
    (hcovers : Covers '/' r t) (hlt : e.length < r.length) :
    kind = .apiConsole ∧ ∃ l ∈ ls, l.Untrimmed ∧ trimSlashes l.url = e := by
  have htrim := trimSlashes_of_named he.1
  obtain ⟨l, hl, hkey, hsome, hcovers'⟩ := exists_named_of_covers (by rw [hr]; rfl) hcovers
  have hle := he.2.2 _ hsome hcovers'
  have huntrimmed : l.Untrimmed := by
    by_contra hl'
    rw [← hkey, Location.key_eq hl'] at hlt
    omega
  have hurl : l.url = r := huntrimmed.key_eq.symm.trans hkey
  have hpre : e <+: l.url := by
    rw [hurl]
    exact List.prefix_of_prefix_length_le he.2.1.isPrefix hcovers.isPrefix hlt.le
  refine ⟨(registered_of_trimSlashes_ne (hurl ▸ huntrimmed.2) hr).1, l, hl, huntrimmed, ?_⟩
  exact (eq_trimSlashes_of_isPrefix huntrimmed.2 htrim hpre hle).symm

/-- A target that the config sends to a location leads to its handler, when the consoles are
reached. -/
theorem ConsolesReached.leads (h : ConsolesReached ls) {t e : Str}
    (he : IsLongest '/' (fun r => (named ls r).isSome) t e) {kind kind' : FactoryKind}
    (hleads : Leads '/' ['/'] .handler404 (registered ls) t kind)
    (hnamed : named ls e = some kind') :
    kind = kind' := by
  have htrim := trimSlashes_of_named he.1
  by_cases hlost : ∃ l ∈ ls, l.Untrimmed ∧ trimSlashes l.url = e
  · obtain ⟨l, hl, huntrimmed, rfl⟩ := hlost
    obtain ⟨hconsole, hreached⟩ := h l hl huntrimmed
    obtain rfl := Option.some.inj (hconsole.symm.trans hnamed)
    rcases hleads with ⟨r, ⟨hr, hcovers, hmax⟩, hvalue⟩ | ⟨hnone, hvalue⟩
    · rcases Nat.lt_or_ge (trimSlashes l.url).length r.length with hlt | hle
      · exact (apiConsole_of_longer he hvalue hcovers hlt).1
      · -- No key is longer than the trimmed URL, so the target leads where that leads.
        have hcovers' : Covers '/' r (trimSlashes l.url) := by
          rcases Nat.lt_or_eq_of_le hle with hlt | heq
          · exact hcovers.of_isPrefix he.2.1.isPrefix hlt
          · exact .inl (hcovers.eq_of_length he.2.1 heq).symm
        refine Leads.unique (.inl ⟨r, ⟨hr, hcovers', fun r' hr' hc => ?_⟩, hvalue⟩) hreached
        exact hmax r' hr' (hc.trans he.2.1)
    · exact Leads.unique (.inr ⟨fun r hr hc => hnone r hr (hc.trans he.2.1), hvalue⟩) hreached
  · -- The URL is a key itself, and no key is longer.
    have hsame := named_eq_registered htrim fun l hl huntrimmed heq =>
      hlost ⟨l, hl, huntrimmed, heq⟩
    rw [hsame] at hnamed
    rcases hleads with ⟨r, ⟨hr, hcovers, hmax⟩, hvalue⟩ | ⟨hnone, -⟩
    · have hle := hmax e (Option.isSome_of_eq_some hnamed) he.2.1
      rcases Nat.lt_or_eq_of_le hle with hlt | heq
      · exact absurd (apiConsole_of_longer he hvalue hcovers hlt).2 hlost
      · rw [← he.2.1.eq_of_length hcovers heq, hnamed] at hvalue
        exact (Option.some.inj hvalue).symm
    · exact absurd he.2.1 (hnone e (by rw [hnamed]; rfl))

/-- Every target leads to what the config names, exactly if the consoles are reached. -/
theorem leads_named_iff (hurl : ∀ l ∈ ls, l.url ≠ []) :
    (∀ t, t ≠ [] → ∀ kind, Leads '/' ['/'] .handler404 (registered ls) t kind →
      Leads '/' ['/'] .handler404 (named ls) t kind) ↔ ConsolesReached ls := by
  constructor
  · intro h l hl huntrimmed
    have hconsole := named_of_leads hl huntrimmed (h l.url (hurl l hl))
    obtain ⟨kind, hkind⟩ := exists_leads '/' ['/'] .handler404 (registered ls) (trimSlashes l.url)
    have hnamed := h _ (trimSlashes_ne_nil (hurl l hl)) kind hkind
    exact ⟨hconsole, (leads_of_key hconsole).unique hnamed ▸ hkind⟩
  · intro h t _ kind hkind
    obtain ⟨kind', hkind'⟩ := exists_leads '/' ['/'] .handler404 (named ls) t
    suffices kind = kind' from this ▸ hkind'
    rcases hkind' with ⟨e, he, hnamed⟩ | ⟨hnone, hvalue⟩
    · exact h.leads he hkind hnamed
    · rcases hkind with ⟨r, ⟨hr, hcovers, -⟩, -⟩ | ⟨-, hvalue'⟩
      · obtain ⟨l, -, -, hsome, hcovers'⟩ := exists_named_of_covers hr hcovers
        exact absurd hcovers' (hnone _ hsome)
      · -- Only the URL `/` is trimmed to `/`, and it keeps its slash.
        have hsame : named ls ['/'] = registered ls ['/'] := by
          refine named_eq_registered (trimSlashes_eq_slash.mpr rfl) fun l _ huntrimmed heq => ?_
          exact huntrimmed.2 (heq.trans (trimSlashes_eq_slash.mp heq).symm)
        rw [← hvalue, ← hvalue', hsame]

end

/-! ## The locations of a config that is accepted -/

/-- The URL of a location has a byte. -/
theorem url_ne_nil {input : Str} {config : NginxConfig} (h : parse input = .valid config)
    {l : Location} (hl : l ∈ locations config) : l.url ≠ [] := by
  obtain ⟨statement, hmem, hl⟩ := List.mem_filterMap.mp hl
  obtain ⟨handler, rfl, -⟩ := locationOf_eq_some.mp hl
  have hurl : l.url ∈ [kUrlPathKeyword, l.url, handler] := by simp
  exact (parse_isWord h (word_mem_flatten hmem hurl)).ne_nil

/-- Every request target reaches a factory, of the kind that the config names for it. -/
def ReachesNamed (config : NginxConfig) (routes : Routes) : Prop :=
  ∀ t, t ≠ [] → ∃ factory, routes (matchRoute routes t) = some factory ∧
    Leads '/' ['/'] .handler404 (named (locations config)) t factory.kind

/-- In the table of a well-formed config every target leads to what is registered. -/
theorem exists_routes {input : Str} {config : NginxConfig} (h : parse input = .valid config)
    (hwf : WellFormed config) :
    ∃ routes, initServer config = .ok routes ∧ ∀ t, ∃ factory,
      routes (matchRoute routes t) = some factory ∧
        Leads '/' ['/'] .handler404 (registered (locations config)) t factory.kind := by
  obtain ⟨table, paths, -, htable, hinit⟩ := initServer_eq (parse_proper h) hwf
  refine ⟨_, hinit, fun t => ?_⟩
  have hnil : table [] = none := by
    rw [htable, Option.map_eq_none_iff, ← Option.not_isSome_iff_eq_none, registered_isSome]
    rintro ⟨l, hl, hkey⟩
    obtain ⟨slashes, heq, -⟩ := l.exists_key_eq
    rw [hkey] at heq
    exact trimSlashes_ne_nil (url_ne_nil h hl) (List.append_eq_nil_iff.mp heq.symm).1
  obtain ⟨factory, hfactory, hleads⟩ := matchRoute_leads hnil ⟨.handler404, paths⟩ t
  refine ⟨factory, hfactory, ?_⟩
  have hkinds := hleads.map Factory.kind
  simpa [htable, Function.comp_def] using hkinds

/-- So the targets reach what the config names exactly if both tables lead to the same. -/
theorem reachesNamed_iff_leads {config : NginxConfig} {routes : Routes}
    (h : ∀ t, ∃ factory, routes (matchRoute routes t) = some factory ∧
      Leads '/' ['/'] .handler404 (registered (locations config)) t factory.kind) :
    ReachesNamed config routes ↔ ∀ t, t ≠ [] → ∀ kind,
      Leads '/' ['/'] .handler404 (registered (locations config)) t kind →
        Leads '/' ['/'] .handler404 (named (locations config)) t kind := by
  constructor
  · intro hreaches t ht kind hkind
    obtain ⟨factory, hfactory, hnamed⟩ := hreaches t ht
    obtain ⟨factory', hfactory', hregistered⟩ := h t
    obtain rfl := Option.some.inj (hfactory.symm.trans hfactory')
    rw [hkind.unique hregistered]
    exact hnamed
  · intro hnamed t ht
    obtain ⟨factory, hfactory, hregistered⟩ := h t
    exact ⟨factory, hfactory, hnamed t ht _ hregistered⟩

/-- Every request to the server of a well-formed config reaches the location that the config names,
exactly if its consoles are reached. -/
theorem reachesNamed_iff {input : Str} {config : NginxConfig} (h : parse input = .valid config)
    (hwf : WellFormed config) :
    ∃ routes, initServer config = .ok routes ∧
      (ReachesNamed config routes ↔ ConsolesReached (locations config)) := by
  obtain ⟨routes, hinit, hleads⟩ := exists_routes h hwf
  refine ⟨routes, hinit, ?_⟩
  rw [reachesNamed_iff_leads hleads, leads_named_iff fun l hl => url_ne_nil h hl]

/-- A config with one location, a console at a given URL. -/
def consoleConfig (url : Str) : NginxConfig :=
  [.mk [kUrlPathKeyword, url, apiConsoleHandler]
    (some [.mk [kResourcePathKeyword, ['r']] none])]

/-- It is well-formed. -/
theorem wellFormed_consoleConfig (url : Str) : WellFormed (consoleConfig url) := by
  intro statement hstatement _
  rw [List.mem_singleton.mp hstatement]
  refine ⟨⟨url, .apiConsole, _⟩, rfl, fun _ => ⟨[], ['r'], none, [], rfl, ?_⟩⟩
  simp

/-- A console without a slash at the end of its URL. -/
theorem reachesNamed_consoleConfig :
    ∃ routes, initServer (consoleConfig ['/', 'c']) = .ok routes ∧
      (ReachesNamed (consoleConfig ['/', 'c']) routes ↔
        ConsolesReached (locations (consoleConfig ['/', 'c']))) :=
  @reachesNamed_iff (NginxConfig.toString (consoleConfig ['/', 'c']) 0) _ rfl
    (wellFormed_consoleConfig _)

/-- A console with a slash at the end of its URL is not reached by a request for the URL without
it. -/
theorem not_reachesNamed : ¬ ∀ input config routes, parse input = .valid config →
    WellFormed config → initServer config = .ok routes → ReachesNamed config routes := by
  intro h
  have hparse : parse (NginxConfig.toString (consoleConfig ['/', 'c', '/']) 0) =
      .valid (consoleConfig ['/', 'c', '/']) := rfl
  have hwf := wellFormed_consoleConfig ['/', 'c', '/']
  obtain ⟨routes, hinit, hleads⟩ := exists_routes hparse hwf
  have hreaches := (reachesNamed_iff_leads hleads).mp (h _ _ routes hparse hwf hinit)
  -- The key `/c/` does not cover `/c`.
  have hregistered : Leads '/' ['/'] .handler404
      (registered (locations (consoleConfig ['/', 'c', '/']))) ['/', 'c'] .handler404 := by
    refine .inr ⟨fun key hkey hcovers => ?_, rfl⟩
    obtain ⟨l, hl, rfl⟩ := registered_isSome.mp hkey
    rw [List.mem_singleton.mp hl] at hcovers
    exact absurd hcovers.length_le (by decide)
  have hnamed : named (locations (consoleConfig ['/', 'c', '/'])) ['/', 'c'] = some .apiConsole :=
    rfl
  have := (leads_of_key hnamed).unique (hreaches ['/', 'c'] (by simp) _ hregistered)
  cases this

end CrazyCode.Server
