import CrazyCode.Api.Effects
import CrazyCode.Api.Refinement

/-!
# A store among other things

What an API location does with plain names stays below its root (`CallStep.below`), and what it
stores is a matter of what is below its root only (`Refines.of_same`). So stores whose roots are
apart do not see each other.

`Target.parse` is how `handle_request` reads a target.
-/

namespace CrazyCode.Api

open Text Decimal Posix Profile Server

/-! ## Targets -/

/-- What a target asks for, as `handle_request` reads it. -/
def Target.parse (target : Str) : Option Target :=
  if target.take 5 ≠ "/api/".toList ∨ target = "/api/".toList then none
  else
    let directory := target.drop 5
    if '/' ∈ directory then some (.item (beforeSlash directory) (behindSlash directory))
    else some (.entity directory)

/-- A target that is read is the text of what is read. -/
theorem Target.text_of_parse {target : Str} {t : Target} (h : Target.parse target = some t) :
    target = t.text := by
  unfold Target.parse at h
  split at h
  · cases h
  · next hapi =>
    rw [not_or, not_not] at hapi
    have htarget : target = "/api/".toList ++ target.drop 5 := by
      rw [← hapi.1, List.take_append_drop]
    dsimp only at h
    split at h
    · next hslash =>
      obtain ⟨before, behind, hdirectory, hbehind⟩ := exists_slash hslash
      obtain rfl := Option.some.inj h
      rw [hdirectory, beforeSlash_append _ hbehind, behindSlash_append _ hbehind, Target.text,
        ← hdirectory, ← htarget]
    · obtain rfl := Option.some.inj h
      exact htarget

/-- The target of an entity is read. -/
theorem Target.parse_entity {entity : Str} (hne : entity ≠ []) (hentity : '/' ∉ entity) :
    Target.parse ("/api/".toList ++ entity) = some (.entity entity) := by
  have htake : ("/api/".toList ++ entity).take 5 = "/api/".toList := List.take_left' rfl
  have hdrop : ("/api/".toList ++ entity).drop 5 = entity := List.drop_left' rfl
  have hnot : ¬ (("/api/".toList ++ entity).take 5 ≠ "/api/".toList ∨
      "/api/".toList ++ entity = "/api/".toList) := by
    rw [htake, List.append_right_eq_self]
    simp [hne]
  rw [Target.parse, if_neg hnot]
  dsimp only
  rw [hdrop, if_neg hentity]

/-- A target that is not read is a bad request. -/
theorem handleRequest_of_parse_none {req : Request} (h : Target.parse req.target = none)
    (root : Str)
    (profile : UserProfile) (st : State) :
    handleRequest root profile st req = (badRequest, st) := by
  unfold Target.parse at h
  split at h
  · next hapi => exact if_pos hapi
  · dsimp only at h
    split at h <;> cases h

/-! ## Below the root -/

section

variable {root : Str} {top : Location} {st : State} {fs fs' : FileSystem}

/-- A store is a matter of what is below its root. -/
theorem Store.of_same (h : Store top fs) (hsame : SameBelow top fs fs') : Store top fs' where
  top_directory := by
    have htop := hsame []
    rw [List.append_nil] at htop
    rw [htop]
    exact h.top_directory
  fits names n hne hn := h.fits names n hne (by rwa [hsame names] at hn)

/-- So is its index. -/
theorem Indexed.of_same {pathCounts : PathCounts} (h : Indexed top ⟨fs, pathCounts⟩)
    (hsame : SameBelow top fs fs') : Indexed top ⟨fs', pathCounts⟩ :=
  ⟨h.store.of_same hsame, h.key, h.nodup, h.one_le, h.inOrder, fun entity id hnode =>
    h.files entity id (by rwa [hsame] at hnode)⟩

/-- So is what it stores. -/
theorem Refines.of_same {pathCounts : PathCounts} {a : Crud}
    (h : Refines root top ⟨fs, pathCounts⟩ a)
    (hsame : SameBelow top fs fs') (hroot : fs'.resolve root = some top) :
    Refines root top ⟨fs', pathCounts⟩ a where
  resolve := hroot
  index := h.index.of_same hsame
  stored :=
    ⟨⟨fun entity => by rw [hsame]; exact h.stored.stores.entities entity,
      fun entity id => by rw [hsame]; exact h.stored.stores.items entity id⟩,
      h.stored.keys, h.stored.ids⟩

/-- What stands below one root does not stand below another one that is apart from it. -/
theorem not_below_of_apart {top' : Location} (h : ¬ top <+: top') (h' : ¬ top' <+: top)
    (names : List Str) : ¬ Below top' (top ++ names) := fun hbelow =>
  (List.prefix_or_prefix_of_prefix (List.prefix_append top names) hbelow.1).elim h h'

/-- Nothing outside of a store is changed by a request for an entity or an item with plain names. -/
theorem Indexed.below (h : Indexed top st) (hroot : st.fs.resolve root = some top) {c : Call}
    (hplain : c.target.Plain) {loc : Location} (hloc : ¬ Below top loc) :
    (Api.handleRequest root c.profile st c.input.request).2.fs.node loc = st.fs.node loc := by
  obtain ⟨listing, profile, method, target, body⟩ := c
  have hset : ∀ (entity : Str) (id : ℤ) (n : Option Node),
      (st.fs.set (top ++ [entity, decimal id]) n).node loc = st.fs.node loc := fun entity id n =>
    FileSystem.set_node_of_ne fun heq => hloc (heq ▸ below_append top (by simp))
  rcases handleRequest_inversion root profile st ⟨method, target.text, body⟩ with ⟨hsame, -⟩ |
    ⟨directory, hne, htarget, -, hmethod⟩
  · exact congrArg (fun st : State => st.fs.node loc) hsame
  cases target with
  | entity dir =>
    obtain rfl : dir = directory := List.append_cancel_left htarget
    have hplain : PlainName dir := hplain
    rcases hmethod with ⟨-, -, heq⟩ | ⟨-, hslash, -⟩ | ⟨-, hslash, -⟩
    · refine (congrArg (fun out : Response × State => out.2.fs.node loc) heq).trans ?_
      exact h.store.handlePost_below hroot (entityName_of_plain hplain) body hloc
    · exact absurd hslash hplain.2.2.2.1
    · exact absurd hslash hplain.2.2.2.1
  | item dir name =>
    obtain rfl : dir ++ '/' :: name = directory := List.append_cancel_left htarget
    obtain ⟨hdir, hslash, -⟩ := hplain
    have hentity := entityName_of_plain hdir
    rcases hmethod with ⟨-, hno, -⟩ | ⟨-, -, heq⟩ | ⟨-, -, heq⟩
    · exact absurd (by simp) hno
    · refine (congrArg (fun out : Response × State => out.2.fs.node loc) heq).trans ?_
      rcases h.handlePut_eq hroot hentity hslash body with ⟨-, hput⟩ | ⟨id, content, -, -, hput⟩ <;>
        rw [hput]
      exact hset dir id _
    · refine (congrArg (fun out : Response × State => out.2.fs.node loc) heq).trans ?_
      rcases h.handleDelete_eq hroot hentity hslash with ⟨-, hdelete⟩ |
        ⟨id, content, -, -, hdelete⟩ <;>
        rw [hdelete]
      exact hset dir id _

/-- Nothing outside of a store is changed by a call. -/
theorem CallStep.below {s s' : State} {a : Crud} {c : Call} {o : Response}
    (hstep : CallStep root top s c o s') (h : Refines root top s a) {loc : Location}
    (hloc : ¬ Below top loc) : s'.fs.node loc = s.fs.node loc := by
  obtain ⟨hplain, hstep⟩ := hstep
  have hserved := hstep.served
  rw [serve_eq h.resolve h.index.store hstep.listed, h.index.indexed_eq hstep.listed] at hserved
  have heq : handleRequest root c.profile s c.input.request = (o, s') := Except.ok.inj hserved
  have hbelow := h.index.below h.resolve hplain hloc
  rwa [heq] at hbelow

end

end CrazyCode.Api
