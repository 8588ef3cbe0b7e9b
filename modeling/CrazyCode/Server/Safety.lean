import CrazyCode.Config.Acceptance
import CrazyCode.Server.Locations

/-!
# The accesses of `get_paths`

`Parse` gives every statement a token, and no more than that. `get_paths` reads the first token of a
top-level statement, and of one that begins with `location` the third, then the second, then the
block and the tokens of its children, each without asking whether it is there. All of these accesses
are defined exactly if every location statement is `Complete`: it has a URL and a handler, and a
block if the handler has a loop over it, in which no `root` is without its argument where the branch
reads it.
-/

namespace CrazyCode.Server

open Text Config Outcome

/-- The handlers whose branch goes through the block. -/
def ReadsBlock (handler : Str) : Prop :=
  handler = kStaticHandler ∨ handler = kAPIHandler ∨ handler = kAuthenticationHandler ∨
    handler = apiConsoleHandler

/-- The handlers whose branch reads the argument of a `root` without looking at its length. -/
def ReadsRoot (handler : Str) : Prop := handler = kStaticHandler ∨ handler = kAPIHandler

/-- Every `root` of a block has an argument. -/
def RootsComplete (children : NginxConfig) : Prop :=
  ∀ child ∈ children, child.tokens.head? = some kResourcePathKeyword → 2 ≤ child.tokens.length

/-- A statement has all that `get_paths` reads of it: one that begins with `location` has a URL and
a handler behind that, and the block that the branch of its handler reads. -/
def Complete : NginxConfigStatement → Prop
  | .mk (keyword :: _ :: handler :: _) block => keyword = kUrlPathKeyword → ReadsBlock handler →
    ∃ children, block = some children ∧ (ReadsRoot handler → RootsComplete children)
  | .mk tokens _ => tokens.head? ≠ some kUrlPathKeyword

section

variable {keyword url : Str} {tokens : List Str} {block : Option NginxConfig}

/-- The loop of the static and API handlers reads what is there exactly if every `root` has an
argument. -/
theorem rootedPath_ok_iff (type : EndpointType) {children : NginxConfig} (h : children.Proper)
    (p : Path) :
    (∃ q, rootedPath type (.mk (keyword :: url :: tokens) block) children p = .ok q) ↔
      RootsComplete children := by
  induction children generalizing p with
  | nil => simp [rootedPath, RootsComplete]
  | cons child children ih =>
    have hcons : RootsComplete (child :: children) ↔
        (child.tokens.head? = some kResourcePathKeyword → 2 ≤ child.tokens.length) ∧
          RootsComplete children := by
      simp only [RootsComplete, List.forall_mem_cons]
    obtain ⟨_ | ⟨token, _ | ⟨value, rest⟩⟩, childBlock⟩ := child
    · exact absurd rfl h.1.tokens_ne_nil
    · -- A child of one token: it must not be a `root`.
      rw [hcons, rootedPath]
      by_cases hroot : token = kResourcePathKeyword
      · simp [hroot, tokenAt, NginxConfigStatement.tokens]
      · simp [hroot, NginxConfigStatement.tokens, ih h.2]
    · rw [hcons, rootedPath]
      by_cases hroot : token = kResourcePathKeyword
      · simp [hroot, NginxConfigStatement.tokens, ih h.2]
      · simp [hroot, NginxConfigStatement.tokens, ih h.2]

/-- The loop of the authentication handler reads children of two tokens only. -/
theorem authPath_ok (children : NginxConfig) (p : Path) :
    ∃ q, authPath (.mk (keyword :: url :: tokens) block) children p = .ok q := by
  induction children generalizing p with
  | nil => exact ⟨p, rfl⟩
  | cons child children ih =>
    rw [authPath]
    by_cases h : child.tokens.length = 2
    · obtain ⟨_ | ⟨name, _ | ⟨value, _ | ⟨other, rest⟩⟩⟩, childBlock⟩ := child <;>
        simp [NginxConfigStatement.tokens] at h
      simp [NginxConfigStatement.tokens, ih]
    · simp [h, ih]

/-- So does the loop of the console. -/
theorem consolePaths_ok (children : NginxConfig) :
    ∃ paths, consolePaths (.mk (keyword :: url :: tokens) block) children = .ok paths := by
  induction children with
  | nil => exact ⟨[], rfl⟩
  | cons child children ih =>
    obtain ⟨paths, hpaths⟩ := ih
    rw [consolePaths, hpaths]
    by_cases h : child.tokens.length = 2
    · obtain ⟨_ | ⟨name, _ | ⟨value, _ | ⟨other, rest⟩⟩⟩, childBlock⟩ := child <;>
        simp [NginxConfigStatement.tokens] at h
      exact ⟨_, by simp [NginxConfigStatement.tokens]; rfl⟩
    · exact ⟨paths, by simp [h]⟩

/-- A branch with a loop over the block, of which every run ends well: only the block must be
there. -/
theorem blockBranch_ok_iff {f : NginxConfig → Except PathsFault (List Path)}
    (h : ∀ children, ∃ paths, f children = .ok paths) :
    (∃ paths, (childStatements (.mk tokens block) >>= f) = .ok paths) ↔
      ∃ children, block = some children := by
  rw [exists_bind_ok]
  cases block with
  | none => simp [childStatements]
  | some children => simp [h]

/-- A branch for static files or the API: the block must be there, with an argument for every
`root`. -/
theorem rootedBranch_ok_iff (type : EndpointType) (p : Path)
    (h : (NginxConfigStatement.mk (keyword :: url :: tokens) block).Proper) :
    (∃ paths, (do
      return [← rootedPath type (.mk (keyword :: url :: tokens) block)
        (← childStatements (.mk (keyword :: url :: tokens) block)) p]) = .ok paths) ↔
      ∃ children, block = some children ∧ RootsComplete children := by
  cases block with
  | none => simp [childStatements]
  | some children =>
    have hloop : (∃ q, rootedPath type (.mk (keyword :: url :: tokens) (some children)) children p =
        .ok q) ↔ RootsComplete children := rootedPath_ok_iff type h.2 p
    simp only [childStatements_block, ok_bind, exists_bind_ok, Option.some.injEq, exists_eq_left',
      ← hloop]
    exact ⟨fun ⟨q, hq, _⟩ => ⟨q, hq⟩, fun ⟨q, hq⟩ => ⟨q, hq, _, rfl⟩⟩

end

/-- The branches for the other handlers read the URL only. -/
theorem not_readsBlock : ¬ ReadsBlock kEchoHandler ∧ ¬ ReadsBlock kHealthHandler ∧
    ¬ ReadsBlock kSleepHandler := by
  unfold ReadsBlock
  decide

/-- The accesses for a statement are defined exactly if the statement is complete. -/
theorem statementPaths_ok_iff {statement : NginxConfigStatement} (h : statement.Proper) :
    (∃ paths, statementPaths statement = .ok paths) ↔ Complete statement := by
  by_cases hhead : statement.tokens.head? = some kUrlPathKeyword
  · obtain ⟨_ | ⟨keyword, _ | ⟨url, _ | ⟨handler, tokens⟩⟩⟩, block⟩ := statement
    · cases hhead
    · obtain rfl := Option.some.inj hhead
      simp [statementPaths, tokenAt, NginxConfigStatement.tokens, Complete]
    · obtain rfl := Option.some.inj hhead
      simp [statementPaths, tokenAt, NginxConfigStatement.tokens, Complete]
    · obtain rfl := Option.some.inj hhead
      obtain ⟨hecho, hhealth, hsleep⟩ := not_readsBlock
      simp only [statementPaths, tokenAt_zero, tokenAt_two, ok_bind, ne_eq, not_true_eq_false,
        if_false, Complete, true_implies]
      -- One case for each branch, in the order of the source.
      split_ifs with h₁ h₂ h₃ h₄ h₅ h₆ h₇
      · rw [rootedBranch_ok_iff _ _ h]
        simp [ReadsBlock, ReadsRoot, h₁]
      · exact ⟨fun _ hreads => absurd (h₂ ▸ hreads) hecho, fun _ => ⟨_, rfl⟩⟩
      · rw [rootedBranch_ok_iff _ _ h]
        simp [ReadsBlock, ReadsRoot, h₃]
      · exact ⟨fun _ hreads => absurd (h₄ ▸ hreads) hhealth, fun _ => ⟨_, rfl⟩⟩
      · exact ⟨fun _ hreads => absurd (h₅ ▸ hreads) hsleep, fun _ => ⟨_, rfl⟩⟩
      · rw [blockBranch_ok_iff fun children => ?_]
        · have hreads : ReadsBlock handler := .inr (.inr (.inl h₆))
          have hroot : ¬ ReadsRoot handler := fun hreads => hreads.elim h₁ h₃
          simp [hreads, hroot]
        · obtain ⟨q, hq⟩ : ∃ q, authPath (.mk (kUrlPathKeyword :: url :: handler :: tokens) block)
              children { type := .auth } = .ok q := authPath_ok children _
          exact ⟨[q], by rw [hq]; rfl⟩
      · rw [blockBranch_ok_iff fun children => consolePaths_ok children]
        have hreads : ReadsBlock handler := .inr (.inr (.inr h₇))
        have hroot : ¬ ReadsRoot handler := fun hreads => hreads.elim h₁ h₃
        simp [hreads, hroot]
      · simp [ReadsBlock, h₁, h₃, h₆, h₇]
        exact ⟨_, rfl⟩
  · refine iff_of_true ⟨_, statementPaths_of_head h hhead⟩ ?_
    obtain ⟨_ | ⟨keyword, _ | ⟨url, _ | ⟨handler, tokens⟩⟩⟩, block⟩ := statement
    · exact hhead
    · exact hhead
    · exact hhead
    · have hne : keyword ≠ kUrlPathKeyword := fun heq => hhead (congrArg some heq)
      exact fun heq => absurd heq hne

/-- The paths of a config are made exactly if those of each of its statements are. -/
theorem getPaths_ok_iff {config : NginxConfig} : (∃ paths, getPaths config = .ok paths) ↔
    ∀ statement ∈ config, ∃ paths, statementPaths statement = .ok paths := by
  induction config with
  | nil => simp [getPaths]
  | cons statement config ih =>
    rw [List.forall_mem_cons, ← ih, getPaths, exists_bind_ok]
    simp only [exists_bind_ok]
    constructor
    · rintro ⟨paths, hpaths, rest, hrest, -⟩
      exact ⟨⟨paths, hpaths⟩, rest, hrest⟩
    · rintro ⟨⟨paths, hpaths⟩, rest, hrest⟩
      exact ⟨paths, hpaths, rest, hrest, _, rfl⟩

/-- On a config that `Parse` accepts, every access of `get_paths` is defined exactly if every
statement of the config is complete. -/
theorem getPaths_defined_iff {input : Str} {config : NginxConfig}
    (h : parse input = .valid config) :
    (∀ fault, getPaths config ≠ .error fault) ↔ ∀ statement ∈ config, Complete statement := by
  rw [forall_ne_error_iff, getPaths_ok_iff]
  exact forall₂_congr fun statement hs => statementPaths_ok_iff ((parse_proper h).of_mem hs)

/-- A location for echo needs no block. -/
theorem getPaths_defined_echo :
    (∀ fault, getPaths [.mk ["location".toList, ['/'], kEchoHandler] none] ≠ .error fault) ↔
      ∀ statement ∈ [NginxConfigStatement.mk ["location".toList, ['/'], kEchoHandler] none],
        Complete statement := by
  refine @getPaths_defined_iff "location / EchoHandler;".toList _ ?_
  rfl

/-- A location without a URL and a handler is accepted, and its third token is read. -/
theorem getPaths_not_defined : ¬ ∀ input config, parse input = .valid config →
    ∀ fault, getPaths config ≠ .error fault := fun h =>
  h "location;".toList [.mk ["location".toList] none] rfl .tokensRange rfl

end CrazyCode.Server
