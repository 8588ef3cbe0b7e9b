import CrazyCode.Library.Segments

/-!
# The table of routes

`session::match` of `src/session.cc`, which finds the location of a request target in the table of
routes, and the part of the configuration that a handler factory asks for the location's root. The
location is a key of the table and the target up to one of its slashes, or `/` when there is none
(`matchRoute_eq_cut`).
-/

namespace CrazyCode.Server

open Text Segments

/-- `endpoint_type`. -/
inductive EndpointType where
  | static_
  | echo
  | api
  | health
  | sleep_
  | profile
  | auth
  | console
  | invalid
deriving DecidableEq, Repr

/-- `path`: what a location statement of the configuration says. -/
structure Path where
  type : EndpointType := .echo
  endpoint : Str := []
  root : Str := []
  configKeyToPathMap : Str → Str := fun _ => []

/-- `NginxConfig::get_root`: the condition on the type is there, and is always true. -/
def getRoot : List Path → Str → Str
  | [], _ => []
  | p :: paths, location =>
    if p.endpoint ≠ location ∧ (p.type ≠ .static_ ∨ p.type ≠ .api) then getRoot paths location
    else p.root

/-- `NginxConfig::get_auth_path_map`. A key that the map does not have is mapped to an empty
string. -/
def getAuthPathMap : List Path → Str → Str → Str
  | [], _ => fun _ => []
  | p :: paths, location =>
    if p.endpoint ≠ location ∧ p.type ≠ .auth then getAuthPathMap paths location
    else p.configKeyToPathMap

/-- The factories of handlers. -/
inductive FactoryKind where
  | staticHandler
  | echo
  | api
  | health
  | sleep
  | authentication
  | apiConsole
  | handler404
deriving DecidableEq, Repr

/-- A factory, and the paths of the configuration that it has a copy of. -/
structure Factory where
  kind : FactoryKind
  config : List Path

/-- `std::map<std::string, std::shared_ptr<request_handler_factory>>`. -/
abbrev Routes := Str → Option Factory

/-- `session::match`: the target is cut at its last slash until it is in the table. -/
def matchRoute (routes : Routes) (url : Str) : Str :=
  if (routes url).isSome then url
  else
    match _h : splitLast '/' url with
    | some (before, _) => matchRoute routes before
    | none => ['/']
termination_by url.length
decreasing_by
  rw [(splitLast_eq_some.mp _h).1]
  simp

/-- The loop of `match` is the one that goes back from slash to slash until it meets a key. -/
theorem matchRoute_eq_cut (routes : Routes) (url : Str) :
    matchRoute routes url = (cut '/' (fun key => (routes key).isSome) url).getD ['/'] := by
  fun_induction matchRoute routes url with
  | case1 url hkey => rw [cut, if_pos hkey]; rfl
  | case2 url hkey before behind hsplit ih => rw [ih, cut.eq_def _ _ url, if_neg hkey, hsplit]
  | case3 url hkey hsplit => rw [cut, if_neg hkey, hsplit]; rfl

/-- `match` returns the longest key that is all of the target or stands before one of its slashes,
and `/` when there is no such key. -/
theorem matchRoute_isLongest (routes : Routes) (url : Str) :
    IsLongest '/' (fun key => (routes key).isSome) url (matchRoute routes url) ∨
      (∀ key, (routes key).isSome → ¬ Covers '/' key url) ∧ matchRoute routes url = ['/'] := by
  rw [matchRoute_eq_cut]
  rcases cut_isLongest '/' (fun key => (routes key).isSome) url with
    ⟨key, hcut, hlongest⟩ | ⟨hcut, hnone⟩
  · rw [hcut, Option.getD_some]
    exact .inl hlongest
  · rw [hcut, Option.getD_none]
    exact .inr ⟨hnone, rfl⟩

/-- `routes_.emplace`: a key that the table has keeps its factory. -/
def emplace (routes : Routes) (key : Str) (factory : Factory) : Routes :=
  if (routes key).isSome then routes else Function.update routes key (some factory)

/-- The factory at a key is the one that was there, and otherwise the one that is put there. -/
theorem emplace_apply (routes : Routes) (key : Str) (factory : Factory) (r : Str) :
    emplace routes key factory r =
      (routes r).or (if key = r then some factory else none) := by
  unfold emplace
  cases hkey : routes key with
  | none =>
    by_cases hr : key = r
    · subst hr
      simp [hkey]
    · simp [Function.update_of_ne (Ne.symm hr), hr]
  | some old =>
    by_cases hr : key = r
    · subst hr
      simp [hkey]
    · simp [hr]

/-- With a factory at `/` for what no key covers, a target leads to the factory at its match. -/
theorem matchRoute_leads {routes : Routes} (hnil : routes [] = none) (other : Factory) (url : Str) :
    ∃ factory, emplace routes ['/'] other (matchRoute (emplace routes ['/'] other) url) =
        some factory ∧
      Leads '/' ['/'] other routes url factory := by
  have hhome : ∀ key, (routes key).isSome → ['/'].length ≤ key.length := by
    rintro (_ | ⟨c, key⟩) hkey
    · simp [hnil] at hkey
    · simp
  rw [matchRoute_eq_cut]
  exact cut_leads (emplace_apply routes ['/'] other) hhome url

end CrazyCode.Server
