import CrazyCode.Config.Tree
import CrazyCode.Library.Outcome
import CrazyCode.Server.Router
import Mathlib.Logic.Function.Basic

/-!
# The locations of a config

`getPaths` is `NginxConfig::get_paths` of `src/config_parser.cc`. It goes through the top-level
statements and makes a path of each `location` statement by the name of its handler, with a branch
of its own for each handler. An access to a token or a block that is not there is a `PathsFault`.

A statement `location U H { .. }` is read as a `Location`. When every location statement of a config
has this form, with one `root R;` where the handler needs it (`WellFormed`), no access fails, and
the paths are those of the locations, one after the other (`getPaths_eq`). All paths of a location
have its key as their endpoint, which is the URL without the slashes at its end, except that the
branch of the console leaves them on (`Location.key`).
-/

namespace CrazyCode.Server

open Text Config Outcome

def kUrlPathKeyword : Str := "location".toList
def kResourcePathKeyword : Str := "root".toList
def kStaticHandler : Str := "StaticHandler".toList
def kEchoHandler : Str := "EchoHandler".toList
def kAPIHandler : Str := "APIHandler".toList
def kHealthHandler : Str := "HealthHandler".toList
def kSleepHandler : Str := "SleepHandler".toList
def kAuthenticationHandler : Str := "AuthenticationHandler".toList

/-- The name of the console's handler is written out where it is compared; the constant
`kAPIConsoleHandler` has another spelling, and is not used. -/
def apiConsoleHandler : Str := "ApiConsoleHandler".toList

/-! ## `get_paths` -/

/-- The accesses of `get_paths` that have no defined behaviour. -/
inductive PathsFault where
  /-- `tokens_[i]` behind the last token -/
  | tokensRange
  /-- `child_block_->statements_` of a statement without a block -/
  | nullChildBlock
deriving DecidableEq, Repr

/-- `tokens_[i]`. -/
def tokenAt (statement : NginxConfigStatement) (i : ℕ) : Except PathsFault Str :=
  match statement.tokens[i]? with
  | some token => .ok token
  | none => .error .tokensRange

/-- `child_block_->statements_`. -/
def childStatements : NginxConfigStatement → Except PathsFault NginxConfig
  | .mk _ (some childBlock) => .ok childBlock
  | .mk _ none => .error .nullChildBlock

/-- The branches for the echo, health and sleep handlers: a path with the endpoint only. -/
def plainPath (type : EndpointType) (statement : NginxConfigStatement) :
    Except PathsFault Path := do
  return { type := type, endpoint := trimSlashes (← tokenAt statement 1) }

/-- The loop over the block in the branches for the static and API handlers. Without a `root` the
path keeps its default type and an empty endpoint. -/
def rootedPath (type : EndpointType) (statement : NginxConfigStatement) :
    NginxConfig → Path → Except PathsFault Path
  | [], p => .ok p
  | child :: children, p => do
    if (← tokenAt child 0) = kResourcePathKeyword then
      let endpoint := trimSlashes (← tokenAt statement 1)
      let root ← tokenAt child 1
      rootedPath type statement children { p with type := type, endpoint := endpoint, root := root }
    else rootedPath type statement children p

/-- The loop over the block in the branch for the authentication handler. It reads all children of
two tokens into the map of the path. -/
def authPath (statement : NginxConfigStatement) : NginxConfig → Path → Except PathsFault Path
  | [], p => .ok p
  | child :: children, p => do
    if child.tokens.length = 2 then
      let endpoint := trimSlashes (← tokenAt statement 1)
      let pathMap := Function.update p.configKeyToPathMap (← tokenAt child 0) (← tokenAt child 1)
      authPath statement children
        { type := .auth, endpoint := endpoint, root := pathMap kResourcePathKeyword,
          configKeyToPathMap := pathMap }
    else authPath statement children p

/-- The loop over the block in the branch for the console. It makes a path of each child of two
tokens, and leaves the slashes on the endpoint. -/
def consolePaths (statement : NginxConfigStatement) : NginxConfig → Except PathsFault (List Path)
  | [] => .ok []
  | child :: children => do
    if child.tokens.length = 2 then
      let endpoint ← tokenAt statement 1
      let pathMap := Function.update (fun _ => []) (← tokenAt child 0) (← tokenAt child 1)
      return { type := .console, endpoint := endpoint, root := pathMap kResourcePathKeyword,
               configKeyToPathMap := pathMap } :: (← consolePaths statement children)
    else consolePaths statement children

/-- The body of the loop of `get_paths`: the paths that a top-level statement adds. -/
def statementPaths (statement : NginxConfigStatement) : Except PathsFault (List Path) := do
  if (← tokenAt statement 0) ≠ kUrlPathKeyword then return []
  let handler ← tokenAt statement 2
  if handler = kStaticHandler then
    return [← rootedPath .static_ statement (← childStatements statement) {}]
  else if handler = kEchoHandler then return [← plainPath .echo statement]
  else if handler = kAPIHandler then
    return [← rootedPath .api statement (← childStatements statement) {}]
  else if handler = kHealthHandler then return [← plainPath .health statement]
  else if handler = kSleepHandler then return [← plainPath .sleep_ statement]
  else if handler = kAuthenticationHandler then
    return [← authPath statement (← childStatements statement) { type := .auth }]
  else if handler = apiConsoleHandler then
    consolePaths statement (← childStatements statement)
  else return []

/-- `NginxConfig::get_paths`, as it is called once on a config that has no paths yet. -/
def getPaths : NginxConfig → Except PathsFault (List Path)
  | [] => .ok []
  | statement :: config => do
    let paths ← statementPaths statement
    return paths ++ (← getPaths config)

/-! ## Location statements -/

/-- The handler that a location statement names. -/
def handlerKind (handler : Str) : Option FactoryKind :=
  if handler = kStaticHandler then some .staticHandler
  else if handler = kEchoHandler then some .echo
  else if handler = kAPIHandler then some .api
  else if handler = kHealthHandler then some .health
  else if handler = kSleepHandler then some .sleep
  else if handler = kAuthenticationHandler then some .authentication
  else if handler = apiConsoleHandler then some .apiConsole
  else none

/-- A statement `location U H { .. }`: its URL, the handler it names, and its block. -/
structure Location where
  url : Str
  kind : FactoryKind
  children : NginxConfig

/-- The location that a statement has written, if it has the form of one. -/
def locationOf : NginxConfigStatement → Option Location
  | .mk [keyword, url, handler] (some children) =>
    if keyword = kUrlPathKeyword then
      (handlerKind handler).map fun kind => ⟨url, kind, children⟩
    else none
  | _ => none

/-- The locations of a config, in the order of the file. -/
def locations (config : NginxConfig) : List Location := config.filterMap locationOf

/-- The block has exactly one `root` statement, and it has one argument. -/
def RootOnce (children : NginxConfig) : Prop :=
  ∃ before root block behind,
    children = before ++ .mk [kResourcePathKeyword, root] block :: behind ∧
      ∀ child ∈ before ++ behind, child.tokens.head? ≠ some kResourcePathKeyword

/-- The handlers that are given the root of their location. -/
def NeedsRoot (kind : FactoryKind) : Prop :=
  kind = .staticHandler ∨ kind = .api ∨ kind = .authentication ∨ kind = .apiConsole

/-- Every location statement of the config has the form `location U H { .. }`, with exactly one
`root R;` in its block where the handler needs it. -/
def WellFormed (config : NginxConfig) : Prop :=
  ∀ statement ∈ config, statement.tokens.head? = some kUrlPathKeyword →
    ∃ l, locationOf statement = some l ∧ (NeedsRoot l.kind → RootOnce l.children)

/-- The argument of a child with one, if the child is for this key. -/
def argument (key : Str) : NginxConfigStatement → Option Str
  | .mk [name, value] _ => if name = key then some value else none
  | _ => none

/-- What is written in a block for a key: the argument of the last child for it, and nothing if
there is none. -/
def blockValue (children : NginxConfig) (key : Str) : Str :=
  (children.filterMap (argument key)).getLast?.getD []

namespace Location

/-- The key under which the paths of a location are registered. -/
def key (l : Location) : Str := if l.kind = .apiConsole then l.url else trimSlashes l.url

/-- The path of a console for a child of its block. -/
def consolePath (l : Location) (child : NginxConfigStatement) : Path :=
  { type := .console, endpoint := l.url, root := blockValue [child] kResourcePathKeyword,
    configKeyToPathMap := blockValue [child] }

/-- The paths of a location. -/
def paths (l : Location) : List Path :=
  match l.kind with
  | .staticHandler =>
    [{ type := .static_, endpoint := trimSlashes l.url,
       root := blockValue l.children kResourcePathKeyword }]
  | .api =>
    [{ type := .api, endpoint := trimSlashes l.url,
       root := blockValue l.children kResourcePathKeyword }]
  | .echo => [{ type := .echo, endpoint := trimSlashes l.url }]
  | .health => [{ type := .health, endpoint := trimSlashes l.url }]
  | .sleep => [{ type := .sleep_, endpoint := trimSlashes l.url }]
  | .authentication =>
    [{ type := .auth, endpoint := trimSlashes l.url,
       root := blockValue l.children kResourcePathKeyword,
       configKeyToPathMap := blockValue l.children }]
  | .apiConsole => (l.children.filter fun child => child.tokens.length = 2).map l.consolePath
  | .handler404 => []

end Location

/-! ## What is written in a block -/

/-- A block without children has nothing written in it. -/
@[simp] theorem blockValue_nil : blockValue [] = fun _ => [] := rfl

/-- A child that does not have two tokens writes nothing. -/
theorem argument_eq_none {child : NginxConfigStatement} (h : child.tokens.length ≠ 2) (key : Str) :
    argument key child = none := by
  obtain ⟨_ | ⟨name, _ | ⟨value, _ | ⟨other, tokens⟩⟩⟩, block⟩ := child
  · rfl
  · rfl
  · exact absurd rfl h
  · rfl

/-- A child for another key writes nothing for this one. -/
theorem argument_of_head {child : NginxConfigStatement} {key : Str}
    (h : child.tokens.head? ≠ some key) : argument key child = none := by
  obtain ⟨_ | ⟨name, _ | ⟨value, _ | ⟨other, tokens⟩⟩⟩, block⟩ := child
  · rfl
  · rfl
  · rw [argument, if_neg]
    rintro rfl
    exact h rfl
  · rfl

/-- The last child of two tokens overwrites its key, and any other child changes nothing. -/
theorem blockValue_concat_of_ne {child : NginxConfigStatement} (h : child.tokens.length ≠ 2)
    (children : NginxConfig) : blockValue (children ++ [child]) = blockValue children := by
  funext key
  simp [blockValue, argument_eq_none h]

theorem blockValue_concat (children : NginxConfig) (name value : Str) (block : Option NginxConfig) :
    blockValue (children ++ [.mk [name, value] block]) =
      Function.update (blockValue children) name value := by
  funext key
  by_cases h : name = key
  · subst h
    simp [blockValue, argument]
  · simp [blockValue, argument, h, Function.update_of_ne (Ne.symm h)]

/-- With one `root` statement its argument is what is written. -/
theorem blockValue_root {before behind : NginxConfig} {root : Str} {block : Option NginxConfig}
    (h : ∀ child ∈ before ++ behind, child.tokens.head? ≠ some kResourcePathKeyword) :
    blockValue (before ++ .mk [kResourcePathKeyword, root] block :: behind) kResourcePathKeyword =
      root := by
  have hnone : ∀ children : NginxConfig, (∀ child ∈ children, child ∈ before ++ behind) →
      children.filterMap (argument kResourcePathKeyword) = [] := by
    intro children hsub
    rw [List.filterMap_eq_nil_iff]
    exact fun child hchild => argument_of_head (h child (hsub child hchild))
  have hbefore := hnone before fun child hc => List.mem_append_left _ hc
  have hbehind := hnone behind fun child hc => List.mem_append_right _ hc
  simp [blockValue, hbefore, hbehind, argument]

/-! ## The branches -/

@[simp] theorem tokenAt_zero (token : Str) (tokens : List Str) (block : Option NginxConfig) :
    tokenAt (.mk (token :: tokens) block) 0 = .ok token := rfl

@[simp] theorem tokenAt_one (token₀ token : Str) (tokens : List Str) (block : Option NginxConfig) :
    tokenAt (.mk (token₀ :: token :: tokens) block) 1 = .ok token := rfl

@[simp] theorem tokenAt_two (token₀ token₁ token : Str) (tokens : List Str)
    (block : Option NginxConfig) :
    tokenAt (.mk (token₀ :: token₁ :: token :: tokens) block) 2 = .ok token := rfl

@[simp] theorem childStatements_block (tokens : List Str) (children : NginxConfig) :
    childStatements (.mk tokens (some children)) = .ok children := rfl

section

variable {keyword url handler : Str} {block : Option NginxConfig}

/-- Children that are no `root` are passed over. -/
theorem rootedPath_skip (type : EndpointType) (statement : NginxConfigStatement)
    {before : NginxConfig} (hproper : before.Proper)
    (h : ∀ child ∈ before, child.tokens.head? ≠ some kResourcePathKeyword) (rest : NginxConfig)
    (p : Path) :
    rootedPath type statement (before ++ rest) p = rootedPath type statement rest p := by
  induction before with
  | nil => rfl
  | cons child before ih =>
    obtain ⟨_ | ⟨token, tokens⟩, childBlock⟩ := child
    · exact absurd rfl hproper.1.tokens_ne_nil
    · have hne : token ≠ kResourcePathKeyword := by
        rintro rfl
        exact h _ List.mem_cons_self rfl
      rw [List.cons_append, rootedPath]
      simp only [tokenAt_zero, ok_bind, if_neg hne]
      exact ih hproper.2 fun child hc => h child (by simp [hc])

/-- The path of a block with one `root` statement. -/
theorem rootedPath_eq (type : EndpointType) {children : NginxConfig} (hproper : children.Proper)
    (h : RootOnce children) (p : Path) :
    rootedPath type (.mk [keyword, url, handler] block) children p =
      .ok { p with type := type, endpoint := trimSlashes url,
                   root := blockValue children kResourcePathKeyword } := by
  obtain ⟨before, root, childBlock, behind, rfl, hother⟩ := h
  obtain ⟨hbefore, -, hbehind⟩ := NginxConfig.proper_append.mp hproper
  rw [rootedPath_skip _ _ hbefore fun child hc => hother child (List.mem_append_left _ hc),
    blockValue_root hother, rootedPath]
  simp only [tokenAt_zero, tokenAt_one, ok_bind, if_true]
  have hskip := fun p => rootedPath_skip type (.mk [keyword, url, handler] block) hbehind
    (fun child hc => hother child (List.mem_append_right _ hc)) [] p
  simp only [List.append_nil] at hskip
  rw [hskip]
  rfl

/-- The path of an authentication block when some of its children have been read. -/
def authAfter (url : Str) (children : NginxConfig) : Path :=
  { type := .auth,
    endpoint := if children.any fun child => child.tokens.length = 2 then trimSlashes url else [],
    root := blockValue children kResourcePathKeyword, configKeyToPathMap := blockValue children }

/-- The children of an authentication block are read into its path. -/
theorem authPath_authAfter (before children : NginxConfig) :
    authPath (.mk [keyword, url, handler] block) children (authAfter url before) =
      .ok (authAfter url (before ++ children)) := by
  induction children generalizing before with
  | nil => rw [List.append_nil]; rfl
  | cons child children ih =>
    rw [List.append_cons, ← ih, authPath]
    by_cases h : child.tokens.length = 2
    · obtain ⟨_ | ⟨name, _ | ⟨value, _ | ⟨other, tokens⟩⟩⟩, childBlock⟩ := child <;>
        simp [NginxConfigStatement.tokens] at h
      simp [authAfter, blockValue_concat, NginxConfigStatement.tokens]
    · simp [authAfter, blockValue_concat_of_ne h, h]

/-- The paths of a console block. -/
theorem consolePaths_eq (children : NginxConfig) (l : Location) :
    consolePaths (.mk [keyword, l.url, handler] block) children =
      .ok ((children.filter fun child => child.tokens.length = 2).map l.consolePath) := by
  induction children with
  | nil => rfl
  | cons child children ih =>
    rw [consolePaths, ih]
    by_cases h : child.tokens.length = 2
    · obtain ⟨_ | ⟨name, _ | ⟨value, _ | ⟨other, tokens⟩⟩⟩, childBlock⟩ := child <;>
        simp [NginxConfigStatement.tokens] at h
      have hvalue := blockValue_concat [] name value childBlock
      rw [List.nil_append, blockValue_nil] at hvalue
      simp [NginxConfigStatement.tokens, Location.consolePath, hvalue]
    · simp [h]

end

/-! ## The paths of a well-formed config -/

/-- A statement that is read as a location has its form. -/
theorem locationOf_eq_some {statement : NginxConfigStatement} {l : Location} :
    locationOf statement = some l ↔ ∃ handler,
      statement = .mk [kUrlPathKeyword, l.url, handler] (some l.children) ∧
        handlerKind handler = some l.kind := by
  constructor
  · intro h
    unfold locationOf at h
    split at h
    · next keyword url handler children =>
      split at h
      · next hkeyword =>
        obtain ⟨kind, hkind, rfl⟩ := Option.map_eq_some_iff.mp h
        exact ⟨handler, by rw [hkeyword], hkind⟩
      · cases h
    · cases h
  · rintro ⟨handler, rfl, hkind⟩
    simp [locationOf, hkind]

/-- A block with a `root` statement has a child of two tokens. -/
theorem RootOnce.any {children : NginxConfig} (h : RootOnce children) :
    (children.any fun child => child.tokens.length = 2) = true := by
  obtain ⟨before, root, block, behind, rfl, -⟩ := h
  simp [NginxConfigStatement.tokens]

/-- The paths of a location statement are those of its location. -/
theorem statementPaths_eq {statement : NginxConfigStatement} {l : Location}
    (h : locationOf statement = some l) (hproper : l.children.Proper)
    (hroot : NeedsRoot l.kind → RootOnce l.children) :
    statementPaths statement = .ok l.paths := by
  obtain ⟨url, kind, children⟩ := l
  obtain ⟨handler, rfl, hkind⟩ := locationOf_eq_some.mp h
  simp only at hkind hproper hroot ⊢
  simp only [handlerKind] at hkind
  simp only [statementPaths, tokenAt_zero, tokenAt_two, ok_bind, childStatements_block, ne_eq,
    not_true_eq_false, if_false]
  -- One case for each name, in the order in which both compare them.
  split_ifs at hkind with h₁ h₂ h₃ h₄ h₅ h₆ h₇ <;> obtain rfl := Option.some.inj hkind
  · rw [if_pos h₁, rootedPath_eq _ hproper (hroot (.inl rfl))]
    rfl
  · rw [if_neg h₁, if_pos h₂]
    rfl
  · rw [if_neg h₁, if_neg h₂, if_pos h₃, rootedPath_eq _ hproper (hroot (.inr (.inl rfl)))]
    rfl
  · rw [if_neg h₁, if_neg h₂, if_neg h₃, if_pos h₄]
    rfl
  · rw [if_neg h₁, if_neg h₂, if_neg h₃, if_neg h₄, if_pos h₅]
    rfl
  · rw [if_neg h₁, if_neg h₂, if_neg h₃, if_neg h₄, if_neg h₅, if_pos h₆]
    have hauth : authPath (.mk [kUrlPathKeyword, url, handler] (some children)) children
        (authAfter url []) = .ok (authAfter url ([] ++ children)) := authPath_authAfter [] children
    have hany := (hroot (.inr (.inr (.inl rfl)))).any
    simp only [List.nil_append, authAfter, hany, if_true, List.any_nil] at hauth
    rw [show ({ type := .auth } : Path) = authAfter url [] from rfl]
    simp only [authAfter, List.any_nil, hauth]
    rfl
  · rw [if_neg h₁, if_neg h₂, if_neg h₃, if_neg h₄, if_neg h₅, if_neg h₆, if_pos h₇]
    exact consolePaths_eq children ⟨url, .apiConsole, children⟩

/-- A statement that is no location adds no path. -/
theorem statementPaths_of_head {statement : NginxConfigStatement} (hproper : statement.Proper)
    (h : statement.tokens.head? ≠ some kUrlPathKeyword) : statementPaths statement = .ok [] := by
  obtain ⟨_ | ⟨token, tokens⟩, block⟩ := statement
  · exact absurd rfl hproper.tokens_ne_nil
  · have hne : token ≠ kUrlPathKeyword := by
      rintro rfl
      exact h rfl
    simp only [statementPaths, tokenAt_zero, ok_bind, ne_eq, hne, not_false_eq_true, if_true]
    rfl

/-- A statement that is no location is not read as one. -/
theorem locationOf_of_head {statement : NginxConfigStatement}
    (h : statement.tokens.head? ≠ some kUrlPathKeyword) : locationOf statement = none := by
  cases hl : locationOf statement with
  | none => rfl
  | some l =>
    obtain ⟨handler, rfl, -⟩ := locationOf_eq_some.mp hl
    exact absurd rfl h

/-- The paths of a well-formed config are those of its locations. -/
theorem getPaths_eq {config : NginxConfig} (hproper : config.Proper) (hwf : WellFormed config) :
    getPaths config = .ok ((locations config).flatMap Location.paths) := by
  induction config with
  | nil => rfl
  | cons statement config ih =>
    have ih := ih hproper.2 fun s hs => hwf s (by simp [hs])
    by_cases h : statement.tokens.head? = some kUrlPathKeyword
    · obtain ⟨l, hl, hroot⟩ := hwf statement (by simp) h
      have hchildren : l.children.Proper := by
        obtain ⟨handler, rfl, -⟩ := locationOf_eq_some.mp hl
        exact hproper.1.2
      simp only [getPaths, statementPaths_eq hl hchildren hroot, ih, ok_bind, locations,
        List.filterMap_cons, hl, List.flatMap_cons]
      rfl
    · simp only [getPaths, statementPaths_of_head hproper.1 h, ih, ok_bind, locations,
        List.filterMap_cons, locationOf_of_head h]
      rfl

end CrazyCode.Server
