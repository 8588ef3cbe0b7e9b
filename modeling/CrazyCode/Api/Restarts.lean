import CrazyCode.Api.Shared

/-!
# Restarts

The index is kept in the memory of the server only. A restart forgets it, and the next request makes
it again from the files. A run with restarts (`LifeStep`) is one of `Crud` with restarts, from what
is stored at the start (`lives_refine`): no item is lost, but an entity without an item is
forgotten, so that its listing is a bad request until the next POST to it.

So every GET of a run is answered with what the last request before it has written
(`reads_last_write`), whether the server was restarted in between or not.

The proof compares a state with the one in which every directory has a list (`completed`), which is
what a server without restarts has. A request makes the same of both, apart from the listings
(`handleRequest_completed`).
-/

namespace CrazyCode.Api

open Text Decimal Posix Profile Server

/-! ## Restarts -/

/-- What happens to a server: a call, or a restart. -/
inductive LifeEvent where
  | call (c : Call)
  | restart

/-- One call, or a restart, which forgets the index. If a call finds no index, the files are listed
to its handler in an order that makes lists in order. -/
def LifeStep (root : Str) (top : Location) (s : State) (e : LifeEvent) (o : Option Response)
    (s' : State) : Prop :=
  match e, o with
  | .call c, some res =>
    CallStep root top s c res s' ∧
      ((∀ entity, s.pathCounts entity = none) → ListedInOrder c.listing)
  | .restart, none => s' = ⟨s.fs, fun _ => none⟩
  | _, _ => False

namespace Crud

/-- A restart forgets the entities without an item. -/
def restart (a : Crud) : Crud := ⟨{entity | ∃ id, a.items entity id ≠ none}, a.items⟩

/-- One call, or a restart, of the store. -/
def LifeStep (root : Str) (a : Crud) (e : LifeEvent) (o : Option Response) (a' : Crud) : Prop :=
  match e, o with
  | .call c, some res => a.Step root c res a'
  | .restart, none => a' = a.restart
  | _, _ => False

end Crud

/-- What is stored in the files below a root. -/
def stored (top : Location) (fs : FileSystem) : Crud :=
  Crud.restart ⟨∅, fun entity id =>
    match fs.node (top ++ [entity, decimal id]) with
    | some (.file content) => some content
    | _ => none⟩

/-- The items of a store are its files. -/
theorem Store.stored_items {top : Location} {fs : FileSystem} (hstore : Store top fs) (entity : Str)
    (id : ℤ) :
    fs.node (top ++ [entity, decimal id]) = ((stored top fs).items entity id).map .file := by
  simp only [stored, Crud.restart]
  cases hnode : fs.node (top ++ [entity, decimal id]) with
  | none => rfl
  | some n =>
    obtain ⟨_, content, -, -, rfl⟩ := (hstore.fits _ n (by simp) hnode).exists_item
    rfl

/-- An item of a store is stored if there is a file. -/
theorem Store.stored_ne_none {top : Location} {fs : FileSystem} (hstore : Store top fs)
    (entity : Str)
    (id : ℤ) :
    (stored top fs).items entity id ≠ none ↔ fs.node (top ++ [entity, decimal id]) ≠ none := by
  rw [hstore.stored_items entity id]
  simp

/-- What is stored is what the files say. -/
theorem stored_eq {top : Location} {fs : FileSystem} {a : Crud}
    (h : ∀ entity id, fs.node (top ++ [entity, decimal id]) = (a.items entity id).map .file) :
    a.restart = stored top fs := by
  have hitems : a.items = (stored top fs).items := by
    funext entity id
    simp only [stored, Crud.restart, h entity id]
    cases a.items entity id <;> rfl
  simp only [stored, Crud.restart] at hitems ⊢
  rw [hitems]

/-! ## Directories without a list -/

/-- Every directory has a list, if need be an empty one. -/
def completed (top : Location) (st : State) : State where
  fs := st.fs
  pathCounts entity :=
    if st.fs.node (top ++ [entity]) = some .directory then some (st.ids entity)
    else st.pathCounts entity

section Completed

variable {root : Str} {top : Location} {st : State} {entity name : Str}

/-- The files are the same. -/
@[simp] theorem completed_fs : (completed top st).fs = st.fs := rfl

/-- The ids are the same. -/
@[simp] theorem completed_ids : (completed top st).ids entity = st.ids entity := by
  simp only [State.ids, completed]
  split <;> rfl

/-- A list that is there stays as it is. -/
theorem completed_of_ne_none (h : st.pathCounts entity ≠ none) :
    (completed top st).pathCounts entity = st.pathCounts entity := by
  obtain ⟨ids, hids⟩ := Option.ne_none_iff_exists'.mp h
  simp [completed, State.ids, hids]

/-- What has a list has a directory, or had a list before. -/
theorem completed_ne_none_iff : (completed top st).pathCounts entity ≠ none ↔
    st.fs.node (top ++ [entity]) = some .directory ∨ st.pathCounts entity ≠ none := by
  by_cases hdir : st.fs.node (top ++ [entity]) = some .directory <;> simp [completed, hdir]

/-- The index stays one. -/
theorem Indexed.completed (h : Indexed top st) : Indexed top (completed top st) where
  store := h.store
  key entity hkey := by
    rcases completed_ne_none_iff.mp hkey with hdir | hkey
    · exact entityName_of_plain (plain_of_directory entity (by rw [hdir]; simp))
    · exact h.key entity hkey
  nodup entity := by simpa using h.nodup entity
  one_le entity := by simpa using h.one_le entity
  inOrder entity := by simpa using h.inOrder entity
  files entity id := by simpa using h.files entity id

/-- No id gets to `INT_MAX`. -/
theorem State.Bounded.completed (h : st.Bounded top) : (completed top st).Bounded top :=
  ⟨fun entity id hid => h.1 entity id (by simpa using hid), h.2⟩

/-- The lists are the same if the directories are. -/
theorem completed_of_same {fs : FileSystem}
    (h : ∀ entity, fs.node (top ++ [entity]) = st.fs.node (top ++ [entity])) :
    completed top ⟨fs, st.pathCounts⟩ = ⟨fs, (completed top st).pathCounts⟩ := by
  simp only [completed, State.ids, h]

/-- A list is replaced. -/
theorem completed_update {fs : FileSystem} {ids : List ℤ}
    (h : ∀ entity', entity' ≠ entity → fs.node (top ++ [entity']) = st.fs.node (top ++ [entity'])) :
    completed top ⟨fs, Function.update st.pathCounts entity (some ids)⟩ =
      ⟨fs, Function.update (completed top st).pathCounts entity (some ids)⟩ := by
  refine congrArg (State.mk fs) (funext fun entity' => ?_)
  by_cases he : entity' = entity
  · rw [he]
    simp [State.ids]
  · simp [completed, State.ids, Function.update_of_ne he, h entity' he]

/-! ## Requests to both -/

/-- The keys that a call adds to the index. -/
def Call.Adds (c : Call) (entity : Str) : Prop :=
  c.method = .post ∧ c.target = .entity entity ∧ c.profile.loginStatus = true

/-- What two answers have in common: both are that of one request, to a state and to the one with
all lists, and the keys that are new are those that the call adds. -/
structure SameRequest (top : Location) (st : State) (c : Call) (out out' : Response × State) :
    Prop where
  response : out'.1 = out.1
  state : out'.2 = completed top out.2
  keys : ∀ entity, out.2.pathCounts entity ≠ none ↔ st.pathCounts entity ≠ none ∨ c.Adds entity

/-- A request that changes nothing. -/
theorem SameRequest.of_same {c : Call} (hadds : ∀ entity, ¬ c.Adds entity) (res : Response) :
    SameRequest top st c (res, st) (res, completed top st) :=
  ⟨rfl, rfl, fun entity => by simp [hadds entity]⟩

/-- A POST to an entity. -/
theorem Indexed.handlePost_completed (h : Indexed top st) (hroot : st.fs.resolve root = some top)
    (hnul : nul ∉ root) (hentity : PlainName entity) {c : Call} (hadds : c.Adds entity)
    (body : Str) :
    SameRequest top st c (Api.handlePost root st entity body)
      (Api.handlePost root (Api.completed top st) entity body) := by
  have hpath : nul ∉ root ++ '/' :: entity := by
    simp only [List.mem_append, List.mem_cons, not_or]
    exact ⟨hnul, by decide, hentity.2.2.2.2⟩
  obtain ⟨loc, -, hloc, hpost⟩ := handlePost_store hroot h.store (entityName_of_plain hentity) body
  obtain ⟨loc', -, hloc', hpost'⟩ := @handlePost_store root top (Api.completed top st) entity hroot
    h.store (entityName_of_plain hentity) body
  obtain rfl := hloc hpath
  obtain rfl := hloc' hpath
  rw [if_neg hpath] at hpost hpost'
  rw [hpost, hpost', completed_ids]
  refine ⟨rfl, (completed_update fun entity' he => ?_).symm, fun entity' => ?_⟩
  · rw [List.append_assoc, List.singleton_append, FileSystem.set_node_of_ne (by simp),
      FileSystem.set_node_of_ne (by simpa using he), completed_fs]
  · have hiff : c.Adds entity' ↔ entity' = entity := by
      simp only [Call.Adds, hadds.1, hadds.2.1, hadds.2.2, Target.entity.injEq, true_and, and_true]
      exact eq_comm
    by_cases he : entity' = entity
    · simp [he, hadds]
    · simp [hiff, he]

/-- A GET of an item. -/
theorem handleGet_completed (directory : Str) :
    handleGet root (completed top st) directory = handleGet root st directory := by
  rw [handleGet_eq, handleGet_eq, completed_fs]
  cases hids : st.pathCounts (beforeSlash directory) with
  | some ids =>
    rw [completed_of_ne_none (by simp [hids]), hids]
  | none =>
    -- A list that is added is empty.
    have hcompleted : (completed top st).pathCounts (beforeSlash directory) = none ∨
        (completed top st).pathCounts (beforeSlash directory) = some [] := by
      by_cases hdir : st.fs.node (top ++ [beforeSlash directory]) = some .directory <;>
        simp [completed, State.ids, hdir, hids]
    rcases hcompleted with heq | heq <;> simp [heq]

/-- A PUT of an item. -/
theorem Indexed.handlePut_completed (h : Indexed top st) (hroot : st.fs.resolve root = some top)
    (hentity : PlainName entity) (hslash : '/' ∉ name) {c : Call}
    (hadds : ∀ entity, ¬ c.Adds entity)
    (body : Str) :
    SameRequest top st c (Api.handlePut root st (entity ++ '/' :: name) body)
      (Api.handlePut root (Api.completed top st) (entity ++ '/' :: name) body) := by
  -- The index is not looked at.
  have hsame : Api.handlePut root (Api.completed top st) (entity ++ '/' :: name) body =
      ((Api.handlePut root st (entity ++ '/' :: name) body).1,
        ⟨(Api.handlePut root st (entity ++ '/' :: name) body).2.fs,
          (Api.completed top st).pathCounts⟩) := by
    rw [Api.handlePut_eq, Api.handlePut_eq, completed_fs]
    split
    · split <;> rfl
    · rfl
  rw [hsame]
  rcases h.handlePut_eq hroot (entityName_of_plain hentity) hslash body with
    ⟨-, heq⟩ | ⟨id, content, -, -, heq⟩ <;> rw [heq]
  · exact .of_same hadds _
  · refine ⟨rfl, (completed_of_same fun entity' => ?_).symm, fun entity' => by simp [hadds]⟩
    exact FileSystem.set_node_of_ne (by simp)

/-- A DELETE of an item. -/
theorem Indexed.handleDelete_completed (h : Indexed top st) (hroot : st.fs.resolve root = some top)
    (hentity : PlainName entity) (hslash : '/' ∉ name) {c : Call}
    (hadds : ∀ entity, ¬ c.Adds entity) :
    SameRequest top st c (Api.handleDelete root st (entity ++ '/' :: name))
      (Api.handleDelete root (Api.completed top st) (entity ++ '/' :: name)) := by
  by_cases hfile : ∃ content,
      st.fs.lookup (root ++ '/' :: (entity ++ '/' :: name)) = some (.file content)
  · obtain ⟨content, hlookup⟩ := hfile
    rcases h.handleDelete_eq hroot (entityName_of_plain hentity) hslash with
      ⟨hno, -⟩ | ⟨id, content₁, hid, hnode, heq⟩
    · exact absurd hlookup (hno content)
    rcases h.completed.handleDelete_eq hroot (entityName_of_plain hentity) hslash with
      ⟨hno, -⟩ | ⟨id', content₂, hid', -, heq'⟩
    · exact absurd hlookup (hno content)
    obtain rfl := decimal_injective (hid.symm.trans hid')
    -- The entity of a file has a list.
    have hkey : st.pathCounts entity ≠ none := fun hnone => by
      have hmem := h.files entity id (by rw [hnode]; simp)
      simp [State.ids, hnone] at hmem
    rw [heq, heq', completed_ids]
    refine ⟨rfl, (completed_update fun entity' _ => ?_).symm, fun entity' => ?_⟩
    · exact FileSystem.set_node_of_ne (by simp)
    · by_cases he : entity' = entity
      · simp [he, hkey]
      · simp [Function.update_of_ne he, hadds]
  · have hsame : ∀ s : State, s.fs = st.fs →
        Api.handleDelete root s (entity ++ '/' :: name) = (badRequest, s) := fun s hs => by
      rw [Api.handleDelete_eq, hs]
      split
      · next content hlookup => exact absurd ⟨content, hlookup⟩ hfile
      · rfl
    rw [hsame st rfl, hsame _ completed_fs]
    exact .of_same hadds _

/-- A call is answered alike, apart from a listing, and leaves the same files and lists. -/
theorem Indexed.handleRequest_completed (h : Indexed top st) (hroot : st.fs.resolve root = some top)
    (hnul : nul ∉ root) {c : Call} (hplain : c.target.Plain)
    (hlist : ∀ entity, c.method = .get → c.target = .entity entity →
      st.pathCounts entity ≠ none) :
    SameRequest top st c (Api.handleRequest root c.profile st c.input.request)
      (Api.handleRequest root c.profile (Api.completed top st) c.input.request) := by
  rw [handleRequest_call root st hplain, handleRequest_call root _ hplain]
  obtain ⟨listing, profile, method, target, body⟩ := c
  -- Only a POST to an entity can add a key.
  have hadds : (∀ entity, target ≠ .entity entity) ∨ method ≠ .post →
      ∀ entity, ¬ Call.Adds ⟨listing, profile, method, target, body⟩ entity := by
    rintro (hno | hno) entity ⟨hpost, htarget, -⟩
    · exact hno entity htarget
    · exact hno hpost
  cases target with
  | entity dir =>
    have hslash : '/' ∉ dir := hplain.2.2.2.1
    cases method with
    | post =>
      cases hlogin : profile.loginStatus with
      | true =>
        have hdir : Call.Adds ⟨listing, profile, .post, .entity dir, body⟩ dir := ⟨rfl, rfl, hlogin⟩
        simpa [dispatch, hslash] using h.handlePost_completed hroot hnul hplain hdir body
      | false =>
        have hno : ∀ entity, ¬ Call.Adds ⟨listing, profile, .post, .entity dir, body⟩ entity :=
          fun entity => by simp [Call.Adds, hlogin]
        simpa [dispatch, hslash] using SameRequest.of_same hno _
    | get =>
      have hkey : st.pathCounts dir ≠ none := hlist dir rfl rfl
      have hsame : handleList root (Api.completed top st) dir = handleList root st dir := by
        rw [handleList, handleList, beforeSlash_of_not_mem hslash, completed_of_ne_none hkey,
          completed_fs]
      simpa [dispatch, hslash, hsame] using SameRequest.of_same (hadds (.inr (by simp))) _
    | put | delete | other =>
      simpa [dispatch, hslash] using SameRequest.of_same (hadds (.inr (by simp))) _
  | item dir name =>
    obtain ⟨hdir, hslash, -⟩ := hplain
    have hadds := hadds (.inl (by simp))
    cases method with
    | post | other => simpa [dispatch] using SameRequest.of_same hadds _
    | get => simpa [dispatch, handleGet_completed] using SameRequest.of_same hadds _
    | put =>
      cases hlogin : profile.loginStatus with
      | true => simpa [dispatch] using h.handlePut_completed hroot hdir hslash hadds body
      | false => simpa [dispatch] using SameRequest.of_same hadds _
    | delete =>
      cases hlogin : profile.loginStatus with
      | true => simpa [dispatch] using h.handleDelete_completed hroot hdir hslash hadds
      | false => simpa [dispatch] using SameRequest.of_same hadds _

end Completed

/-! ## What is remembered -/

section Steps

variable {root : Str} {top : Location} {s s' : State} {a b b' : Crud} {c : Call} {o : Response}

/-- A call for the store that has the same items, and other entities. -/
theorem Crud.Step.of_items (hstep : b.Step root c o b') (hitems : b.items = a.items)
    (hlist : ∀ entity, c.method = .get → c.target = .entity entity →
      (entity ∈ b.entities ↔ entity ∈ a.entities)) :
    ∃ a', a.Step root c o a' ∧ a'.items = b'.items ∧
      ∀ entity, entity ∈ a'.entities ↔ entity ∈ a.entities ∨ c.Adds entity := by
  -- The two stores have the items in common, so each branch of the step is one for both of them.
  obtain ⟨entities, items⟩ := a
  obtain ⟨entities', items'⟩ := b
  obtain rfl : items' = items := hitems
  obtain ⟨listing, profile, method, target, body⟩ := c
  -- Only a POST makes an entity.
  have hno : method ≠ .post → ∀ entity, entity ∈ entities ↔
      entity ∈ entities ∨ Call.Adds ⟨listing, profile, method, target, body⟩ entity :=
    fun hpost entity => by simp [Call.Adds, hpost]
  cases method with
  | post =>
    cases target with
    | entity dir =>
      rcases hstep with ⟨hlogin, id, hid, hfree, hres, rfl⟩ | ⟨hlogin, hres, rfl⟩
      · refine ⟨_, .inl ⟨hlogin, id, hid, hfree, hres, rfl⟩, rfl, fun entity => ?_⟩
        have hlogin : profile.loginStatus = true := hlogin
        simp only [Crud.set, Crud.add, Call.Adds, Target.entity.injEq, hlogin, Set.mem_insert_iff,
          true_and, and_true]
        rw [or_comm, eq_comm]
      · refine ⟨_, .inr ⟨hlogin, hres, rfl⟩, rfl, fun entity => ?_⟩
        have hlogin : profile.loginStatus = false := hlogin
        simp [Call.Adds, hlogin]
    | item dir name =>
      obtain ⟨hres, rfl⟩ := hstep
      exact ⟨_, ⟨hres, rfl⟩, rfl, fun entity => by simp [Call.Adds]⟩
  | get =>
    cases target with
    | entity dir =>
      -- The one branch that looks at the entities.
      have hiff : dir ∈ entities' ↔ dir ∈ entities := hlist dir rfl rfl
      rcases hstep with ⟨hmem, ids, hnodup, hids, hres, rfl⟩ | ⟨hmem, hres, rfl⟩
      · exact ⟨_, .inl ⟨hiff.mp hmem, ids, hnodup, hids, hres, rfl⟩, rfl, hno (by simp)⟩
      · exact ⟨_, .inr ⟨fun h => hmem (hiff.mpr h), hres, rfl⟩, rfl, hno (by simp)⟩
    | item dir name =>
      rcases hstep with ⟨id, content, hpresent, hres, rfl⟩ | ⟨habsent, hres, rfl⟩
      · exact ⟨_, .inl ⟨id, content, hpresent, hres, rfl⟩, rfl, hno (by simp)⟩
      · exact ⟨_, .inr ⟨habsent, hres, rfl⟩, rfl, hno (by simp)⟩
  | put | delete =>
    cases target with
    | entity dir =>
      obtain ⟨hres, rfl⟩ := hstep
      exact ⟨_, ⟨hres, rfl⟩, rfl, hno (by simp)⟩
    | item dir name =>
      rcases hstep with ⟨hlogin, id, content, hpresent, hres, rfl⟩ | ⟨hbad, hres, rfl⟩
      · exact ⟨_, .inl ⟨hlogin, id, content, hpresent, hres, rfl⟩, rfl, hno (by simp)⟩
      · exact ⟨_, .inr ⟨hbad, hres, rfl⟩, rfl, hno (by simp)⟩
  | other =>
    obtain ⟨hres, rfl⟩ := hstep
    exact ⟨_, ⟨hres, rfl⟩, rfl, hno (by simp)⟩

/-- The relation behind the first request of a life: the files are the items, and the keys of the
index are the entities. There may be directories that are no entities. -/
structure Remembers (root : Str) (top : Location) (s : State) (a : Crud) : Prop where
  index : Indexed top s
  full : Refines root top (completed top s)
    ⟨{entity | s.fs.node (top ++ [entity]) = some .directory}, a.items⟩
  keys : ∀ entity, entity ∈ a.entities ↔ s.pathCounts entity ≠ none

/-- The root is at its place. -/
theorem Remembers.resolve (h : Remembers root top s a) : s.fs.resolve root = some top :=
  h.full.resolve

/-- A call is answered as it is to be. -/
theorem Remembers.request (h : Remembers root top s a) (hnul : nul ∉ root)
    (hbounded : s.Bounded top) (hplain : c.target.Plain) :
    ∃ a', a.Step root c (handleRequest root c.profile s c.input.request).1 a' ∧
      Remembers root top (handleRequest root c.profile s c.input.request).2 a' := by
  by_cases hlist : ∀ entity, c.method = .get → c.target = .entity entity →
      s.pathCounts entity ≠ none
  · -- The call is answered as by the completed index, which is that of a store.
    have hsame := h.index.handleRequest_completed h.resolve hnul hplain hlist
    obtain ⟨b', hstep, hmatches⟩ := h.full.dispatch hnul hbounded.completed hplain
    rw [hsame.response] at hstep
    rw [hsame.state] at hmatches
    obtain ⟨a', hspec, hitems, hentities⟩ := hstep.of_items (a := a) rfl
      fun entity hget htarget => by
      have hkey := hlist entity hget htarget
      have hfull := (h.full.stored.keys entity).mpr (completed_ne_none_iff.mpr (.inr hkey))
      exact iff_of_true hfull ((h.keys entity).mpr hkey)
    have hdots : c.input.request.target ≠ "/api/.".toList ∧
        c.input.request.target ≠ "/api/..".toList :=
      ⟨hplain.text_ne (s := ['.']) (by decide) (by decide),
        hplain.text_ne (s := ['.', '.']) (by decide) (by decide)⟩
    have hindex := (h.index.handleRequest h.resolve c.profile
      (fun entity _ _ _ => h.index.hasNext hbounded entity) fun _ => hdots).1
    refine ⟨a', hspec, hindex, ⟨?_, hindex.completed, ⟨⟨fun _ => .rfl, ?_⟩, ?_, ?_⟩⟩, ?_⟩
    · exact handleRequest_resolve root s h.resolve c.profile c.input.request
    · rw [hitems]
      exact hmatches.stores.items
    · exact fun entity => (hmatches.stores.entities entity).symm.trans (hmatches.keys entity)
    · rw [hitems]
      exact hmatches.ids
    · exact fun entity => by rw [hentities, hsame.keys, h.keys]
  · -- The listing of a directory without a list is a bad request.
    push Not at hlist
    obtain ⟨entity, hget, htarget, hnone⟩ := hlist
    have hslash : '/' ∉ entity := by
      rw [htarget] at hplain
      exact hplain.2.2.2.1
    have hbad : handleRequest root c.profile s c.input.request = (badRequest, s) := by
      rw [handleRequest_call root s hplain, hget, htarget]
      have hhandle : handleList root s entity = badRequest := by
        rw [handleList, beforeSlash_of_not_mem hslash, hnone]
        exact ite_self _
      simp [dispatch, hslash, hhandle]
    rw [hbad]
    refine ⟨a, ?_, h⟩
    obtain ⟨listing, profile, method, target, body⟩ := c
    obtain rfl : method = .get := hget
    obtain rfl : target = .entity entity := htarget
    exact .inr ⟨fun hmem => (h.keys entity).mp hmem hnone, rfl, rfl⟩

/-- The first request of a life makes the index of what is stored. -/
theorem remembers_scan (hroot : s.fs.resolve root = some top) (hstore : Store top s.fs)
    (hbounded : s.Bounded top) {listing : List (List Str)} (hlisting : IsListing s.fs top listing)
    (hord : ListedInOrder listing) :
    Remembers root top ⟨s.fs, indexed listing fun _ => none⟩ (stored top s.fs) := by
  have hindex := Indexed.of_scan hstore hbounded.2 hlisting hord
  -- A key is made for each entity with an item.
  have hkeys : ∀ entity, entity ∈ (stored top s.fs).entities ↔
      indexed listing (fun _ => none) entity ≠ none := fun entity => by
    have hkey : indexed listing (fun _ => none) entity ≠ none ↔ listedIds listing entity ≠ [] := by
      by_cases hnil : listedIds listing entity = [] <;> simp [indexed, hnil]
    rw [hkey]
    constructor
    · rintro ⟨id, hitem⟩
      have hnode := (hstore.stored_ne_none entity id).mp hitem
      exact List.ne_nil_of_mem
        ((mem_listedIds hstore hlisting).mpr ⟨hstore.item_range hnode, hnode⟩)
    · intro hne
      obtain ⟨id, hid⟩ := List.exists_mem_of_ne_nil _ hne
      exact ⟨id, (hstore.stored_ne_none entity id).mpr ((mem_listedIds hstore hlisting).mp hid).2⟩
  refine ⟨hindex, ⟨hroot, hindex.completed, ⟨⟨fun _ => .rfl, hstore.stored_items⟩, fun entity => ?_,
    fun entity id hid => ?_⟩⟩, hkeys⟩
  · rw [completed_ne_none_iff]
    refine ⟨.inl, fun h => h.elim id fun hkey => ?_⟩
    obtain ⟨id, hitem⟩ := (hkeys entity).mpr hkey
    have hnode := (hstore.stored_ne_none entity id).mp hitem
    refine s.fs.parent_directory _ (decimal id) ?_
    rwa [List.append_assoc]
  · rw [completed_ids] at hid
    exact (hstore.stored_ne_none entity id).mpr (((scan_files hstore hbounded.2 hlisting entity).2
      id).mp hid).2

/-- The relation between a server and the store: there is an index, or there is none yet, and the
store has what the files say. -/
def Survives (root : Str) (top : Location) (s : State) (a : Crud) : Prop :=
  Remembers root top s a ∨
    s.fs.resolve root = some top ∧ Store top s.fs ∧ (∀ entity, s.pathCounts entity = none) ∧
      a = stored top s.fs

/-- What is stored is what the files say. -/
theorem Survives.restart (h : Survives root top s a) :
    s.fs.resolve root = some top ∧ Store top s.fs ∧ a.restart = stored top s.fs := by
  rcases h with h | ⟨hroot, hstore, -, rfl⟩
  · exact ⟨h.resolve, h.index.store, stored_eq h.full.stored.stores.items⟩
  · exact ⟨hroot, hstore, rfl⟩

/-- An empty root is a store with nothing in it. -/
theorem Fresh.survives (h : Fresh root top s) : Survives root top s Crud.empty := by
  have hempty : Crud.empty.restart = Crud.empty := by simp [Crud.restart, Crud.empty]
  refine .inr ⟨h.resolve, h.refines.index.store, h.index, ?_⟩
  rw [← hempty]
  exact stored_eq fun entity id => h.nothing _ (by simp)

/-- The handler of a request has an index of what is stored, which it finds or makes. -/
theorem Survives.scan (h : Survives root top s a) (hbounded : s.Bounded top)
    {listing : List (List Str)} (hlisting : IsListing s.fs top listing)
    (hord : (∀ entity, s.pathCounts entity = none) → ListedInOrder listing) :
    ∃ pathCounts, Remembers root top ⟨s.fs, pathCounts⟩ a ∧ State.Bounded top ⟨s.fs, pathCounts⟩ ∧
      ∀ profile req, serve root listing profile s req =
        .ok (handleRequest root profile ⟨s.fs, pathCounts⟩ req) := by
  rcases h with h | ⟨hroot, hstore, hempty, rfl⟩
  · refine ⟨s.pathCounts, h, hbounded, fun profile req => ?_⟩
    rw [serve_eq h.resolve h.index.store hlisting, h.index.indexed_eq hlisting]
  · have hfiles := scan_files hstore hbounded.2 hlisting
    refine ⟨_, remembers_scan hroot hstore hbounded hlisting (hord hempty),
      ⟨fun entity id hid => (((hfiles entity).2 id).mp hid).1.2, hbounded.2⟩, fun profile req => ?_⟩
    rw [serve_eq hroot hstore hlisting, show s.pathCounts = fun _ => none from funext hempty]

/-- One call, or a restart. -/
theorem Survives.step (hnul : nul ∉ root) (h : Survives root top s a) {e : LifeEvent}
    {o : Option Response} (hstep : LifeStep root top s e o s') :
    ∃ a', Crud.LifeStep root a e o a' ∧ Survives root top s' a' := by
  cases e with
  | restart =>
    cases o with
    | some res => exact hstep.elim
    | none =>
      obtain rfl : s' = ⟨s.fs, fun _ => none⟩ := hstep
      obtain ⟨hroot, hstore, hrestart⟩ := h.restart
      exact ⟨a.restart, rfl, .inr ⟨hroot, hstore, fun _ => rfl, hrestart⟩⟩
  | call c =>
    cases o with
    | none => exact hstep.elim
    | some res =>
      obtain ⟨⟨hplain, hstep⟩, hord⟩ := hstep
      have hserved := hstep.served
      obtain ⟨pathCounts, hscan, hbounded, hserve⟩ := h.scan hstep.bounded hstep.listed hord
      rw [hserve] at hserved
      obtain ⟨a', hspec, h'⟩ := hscan.request hnul hbounded hplain
      rw [show handleRequest root c.profile _ c.input.request = (res, s') from
        Except.ok.inj hserved] at hspec h'
      exact ⟨a', hspec, .inl h'⟩

/-- What is stored is a matter of what is below the root. -/
theorem stored_of_same {fs fs' : FileSystem} (hsame : SameBelow top fs fs') :
    stored top fs' = stored top fs := by
  simp only [stored, hsame _]

/-- So is what is remembered. -/
theorem Remembers.of_same {fs fs' : FileSystem} {pathCounts : PathCounts}
    (h : Remembers root top ⟨fs, pathCounts⟩ a) (hsame : SameBelow top fs fs')
    (hroot : fs'.resolve root = some top) : Remembers root top ⟨fs', pathCounts⟩ a where
  index := h.index.of_same hsame
  full := by
    have hcompleted := @completed_of_same top ⟨fs, pathCounts⟩ fs' fun entity => hsame [entity]
    rw [hcompleted]
    simp only [hsame _]
    exact h.full.of_same hsame hroot
  keys := h.keys

/-- So is what survives. -/
theorem Survives.of_same {fs fs' : FileSystem} {pathCounts : PathCounts}
    (h : Survives root top ⟨fs, pathCounts⟩ a) (hsame : SameBelow top fs fs')
    (hroot : fs'.resolve root = some top) : Survives root top ⟨fs', pathCounts⟩ a := by
  rcases h with h | ⟨-, hstore, hempty, rfl⟩
  · exact .inl (h.of_same hsame hroot)
  · exact .inr ⟨hroot, hstore.of_same hsame, hempty, (stored_of_same hsame).symm⟩

/-- Every run with restarts, from any store that an earlier server left, is one of `Crud` with
restarts, with the same calls and answers. At its end the files are the items, and every further
call is answered. -/
theorem lives_refine (hnul : nul ∉ root) {st : State} (hroot : st.fs.resolve root = some top)
    (hstore : Store top st.fs) (hempty : ∀ entity, st.pathCounts entity = none)
    {tr : List (LifeEvent × Option Response)} (hrun : Run (LifeStep root top) st tr s) :
    (∃ a, Run (Crud.LifeStep root) (stored top st.fs) tr a ∧ a.restart = stored top s.fs) ∧
      ∀ c : Call, c.target.Plain → IsListing s.fs top c.listing → s.Bounded top →
        ((∀ entity, s.pathCounts entity = none) → ListedInOrder c.listing) →
        ∃ o s', LifeStep root top s (.call c) (some o) s' := by
  have hsimulate : ∀ s a e o s', Survives root top s a → LifeStep root top s e o s' →
      ∃ a', Crud.LifeStep root a e o a' ∧ Survives root top s' a' :=
    fun _ _ _ _ _ h hstep => h.step hnul hstep
  obtain ⟨a, habstract, h⟩ := Run.simulation (Survives root top)
    (.inr ⟨hroot, hstore, hempty, rfl⟩) hsimulate hrun
  obtain ⟨hroot', hstore', hrestart⟩ := h.restart
  refine ⟨⟨a, habstract, hrestart⟩, fun c hplain hlisting hbounded hord => ?_⟩
  exact ⟨_, _, ⟨hplain, hbounded, hplain.text_ne (s := ['.']) (by decide) (by decide),
    hplain.text_ne (s := ['.', '.']) (by decide) (by decide), hlisting,
    serve_eq hroot' hstore' hlisting c.profile c.input.request⟩, hord⟩

end Steps

/-! ## What a GET is answered with -/

/-- What an answered request writes to an item, if it does: its new bytes, or that it is removed. -/
def writes (root entity : Str) (id : ℤ) : LifeEvent × Option Response → Option (Option Str)
  | (.call ⟨_, _, .post, .entity dir, body⟩, some res) =>
    if entity = dir ∧ res = created (root ++ '/' :: dir) id then some (some body) else none
  | (.call ⟨_, _, .put, .item dir name, body⟩, some res) =>
    if entity = dir ∧ name = decimal id ∧ res = html 200 body then some (some body) else none
  | (.call ⟨_, _, .delete, .item dir name, _⟩, some res) =>
    if entity = dir ∧ name = decimal id ∧ res = deleted then some none else none
  | _ => none

/-- What the last request of a trace that writes an item has left there. -/
def lastWrite (root : Str) (a : Crud) (tr : List (LifeEvent × Option Response)) (entity : Str)
    (id : ℤ) : Option Str :=
  tr.foldl (fun content io => (writes root entity id io).getD content) (a.items entity id)

/-- A GET of an item is answered with what is there, if anything is. A GET of an entity that has an
item lists the ids of all its items, each of them once. -/
def Reads (items : Str → ℤ → Option Str) (c : Call) (o : Response) : Prop :=
  (∀ entity id, c.target = .item entity (decimal id) →
    o = match items entity id with
      | some content => html 200 content
      | none => badRequest) ∧
  (∀ entity id, c.target = .entity entity → items entity id ≠ none →
    ∃ ids : List ℤ, ids.Nodup ∧ (∀ id, id ∈ ids ↔ items entity id ≠ none) ∧
      o = html 200 (idsPage ids))

section LastWrite

variable {root : Str} {a a' : Crud} {e : LifeEvent} {o : Option Response}
variable {tr : List (LifeEvent × Option Response)}

/-- A bad request is no page. -/
theorem badRequest_ne_html (body : Str) : badRequest ≠ html 200 body := fun h => by
  cases congrArg Response.status h

/-- A PUT or a DELETE of an item that is there replaces it. -/
theorem Crud.Present.set_items {dir name : Str} {id' : ℤ} {content : Str}
    (h : a.Present dir name id' content) (v : Option Str) (entity : Str) (id : ℤ) :
    (a.set dir id' v).items entity id =
      if entity = dir ∧ name = decimal id then v else a.items entity id := by
  have hname : name = decimal id ↔ id = id' := by
    rw [h.1, decimal_injective.eq_iff, eq_comm]
  simp only [Crud.set, hname]

/-- One call, or a restart, changes an item if it writes it. -/
theorem Crud.LifeStep.items (h : Crud.LifeStep root a e o a') (entity : Str) (id : ℤ) :
    a'.items entity id = (writes root entity id (e, o)).getD (a.items entity id) := by
  cases e with
  | restart =>
    cases o with
    | some res => exact h.elim
    | none =>
      obtain rfl : a' = a.restart := h
      rfl
  | call c =>
    obtain _ | res := o
    · exact h.elim
    obtain ⟨listing, profile, method, target, body⟩ := c
    have h : a.Step root ⟨listing, profile, method, target, body⟩ res a' := h
    -- In each branch, `writes` reads off the answer whether the item was written.
    cases method with
    | post =>
      cases target with
      | item dir name => rw [h.2]; rfl
      | entity dir =>
        rcases h with ⟨-, id', -, -, rfl, rfl⟩ | ⟨-, rfl, rfl⟩
        · -- The answer names the id.
          have hid : created (root ++ '/' :: dir) id' = created (root ++ '/' :: dir) id ↔
              id = id' :=
            (created_injective _).eq_iff.trans eq_comm
          simp only [Crud.set, Crud.add, writes, hid]
          split <;> rfl
        · simp [writes, badRequest_ne_created]
    | get =>
      -- Nothing is written, whatever the answer is.
      have hsame : a' = a := by
        cases target with
        | item dir name =>
          rcases h with ⟨id', content, -, -, rfl⟩ | ⟨-, -, rfl⟩ <;> rfl
        | entity dir =>
          rcases h with ⟨-, ids, -, -, -, rfl⟩ | ⟨-, -, rfl⟩ <;> rfl
      rw [hsame]
      rfl
    | put =>
      cases target with
      | entity dir => rw [h.2]; rfl
      | item dir name =>
        rcases h with ⟨-, id', content, hpresent, rfl, rfl⟩ | ⟨-, rfl, rfl⟩
        · rw [hpresent.set_items]
          simp only [writes, and_true]
          split <;> rfl
        · -- A PUT that is refused has another answer.
          simp [writes, badRequest_ne_html]
    | delete =>
      cases target with
      | entity dir => rw [h.2]; rfl
      | item dir name =>
        rcases h with ⟨-, id', content, hpresent, rfl, rfl⟩ | ⟨-, rfl, rfl⟩
        · rw [hpresent.set_items]
          simp only [writes, and_true]
          split <;> rfl
        · have hne : badRequest ≠ deleted := badRequest_ne_html _
          simp [writes, hne]
    | other => rw [h.2]; rfl

/-- The items behind a run are what was written last. -/
theorem items_of_run (h : Run (Crud.LifeStep root) a tr a') (entity : Str) (id : ℤ) :
    a'.items entity id = lastWrite root a tr entity id := by
  refine h.invariant (fun tr a' => a'.items entity id = lastWrite root a tr entity id) rfl
    fun tr b e o b' _ ih hstep => ?_
  rw [hstep.items entity id, ih, lastWrite, lastWrite, List.foldl_append]
  rfl

variable {top : Location} {st s : State}

/-- What has an item is an entity. -/
theorem Survives.entity_of_item (h : Survives root top s a) {entity : Str} {id : ℤ}
    (hitem : a.items entity id ≠ none) : entity ∈ a.entities := by
  rcases h with h | ⟨-, -, -, rfl⟩
  · refine (h.keys entity).mpr fun hnone => ?_
    have hmem := h.index.files entity id (by
      have hnode := h.full.stored.stores.items entity id
      rw [completed_fs] at hnode
      rw [hnode]
      simpa using hitem)
    simp [State.ids, hnone] at hmem
  · exact ⟨id, hitem⟩

/-- A GET of a store reads its items. -/
theorem Crud.Step.reads {c : Call} {o : Response} (h : a.Step root c o a') (hget : c.method = .get)
    (hentity : ∀ entity id, a.items entity id ≠ none → entity ∈ a.entities) :
    Reads a.items c o := by
  obtain ⟨listing, profile, method, target, body⟩ := c
  obtain rfl : method = .get := hget
  constructor
  · rintro entity id rfl
    rcases h with ⟨id', content, ⟨hid, hitem⟩, rfl, -⟩ | ⟨habsent, rfl, -⟩
    · obtain rfl := decimal_injective hid
      rw [hitem]
    · cases hitem : a.items entity id with
      | none => rfl
      | some content => exact absurd ⟨rfl, hitem⟩ (habsent id content)
  · rintro entity id rfl hitem
    rcases h with ⟨-, ids, hnodup, hids, rfl, -⟩ | ⟨hno, -⟩
    · exact ⟨ids, hnodup, hids, rfl⟩
    · exact absurd (hentity entity id hitem) hno

/-- In every run with restarts a GET is answered with what was written last. -/
theorem reads_last_write (hnul : nul ∉ root) (hroot : st.fs.resolve root = some top)
    (hstore : Store top st.fs) (hempty : ∀ entity, st.pathCounts entity = none)
    {pre post : List (LifeEvent × Option Response)} {c : Call} {o : Response}
    (hrun : Run (LifeStep root top) st (pre ++ (.call c, some o) :: post) s)
    (hget : c.method = .get) :
    Reads (lastWrite root (stored top st.fs) pre) c o := by
  obtain ⟨t, t', hpre, hstep, -⟩ := hrun.middle
  have hsimulate : ∀ s a e o s', Survives root top s a → LifeStep root top s e o s' →
      ∃ a', Crud.LifeStep root a e o a' ∧ Survives root top s' a' :=
    fun _ _ _ _ _ h hstep => h.step hnul hstep
  obtain ⟨a, habstract, h⟩ := Run.simulation (Survives root top)
    (.inr ⟨hroot, hstore, hempty, rfl⟩) hsimulate hpre
  obtain ⟨a', hspec, -⟩ := h.step hnul hstep
  have hitems : a.items = lastWrite root (stored top st.fs) pre :=
    funext fun entity => funext fun id => items_of_run habstract entity id
  rw [← hitems]
  exact Crud.Step.reads hspec hget fun _ _ => h.entity_of_item

end LastWrite

/-! A PUT, a restart, and a GET, in a store with one file. -/

/-- A PUT of the file. -/
def putCall : Call := ⟨listingOf [1], loggedIn, .put, .item "E".toList ['1'], "x".toList⟩

/-- A GET of it. -/
def getCall : Call := ⟨listingOf [1], loggedIn, .get, .item "E".toList ['1'], []⟩

/-- The two ids of the listing are in order. -/
theorem listedInOrder_one : ListedInOrder (listingOf [1]) := fun entity => by
  refine inOrder_of_length_lt ?_
  by_cases hentity : ['E'] = entity
  · subst hentity
    decide +kernel
  · simp [listingOf, listedIds, hentity]

/-- The files behind the PUT. -/
def putFiles : FileSystem :=
  (storedIds [1]).fs.set ([['r']] ++ [['E'], decimal 1]) (some (.file "x".toList))

/-- The file is there. -/
theorem storedIds_one :
    (storedIds [1]).fs.node ([['r']] ++ [['E'], decimal 1]) = some (.file []) := by
  rw [storedIds_below]
  exact if_pos ⟨1, by simp, rfl⟩

/-- The files behind the PUT are listed as those before. -/
theorem isListing_putFiles : IsListing putFiles [['r']] (listingOf [1]) := by
  have hlisting := @isListing_storedIds [1] (by decide)
  refine ⟨hlisting.1, fun names => ?_⟩
  rw [hlisting.2]
  rcases FileSystem.set_node_cases (storedIds [1]).fs ([['r']] ++ [['E'], decimal 1])
    (some (.file "x".toList)) ([['r']] ++ names) with hsame | ⟨heq, hset⟩
  · rw [putFiles, hsame]
  · rw [putFiles, hset, heq, storedIds_one]
    simp

/-- The names in the target of the PUT are plain. -/
theorem plain_putCall : putCall.target.Plain := by
  show PlainName "E".toList ∧ '/' ∉ ['1'] ∧ nul ∉ ['1'] ∧ ['1'] ≠ ['.'] ∧ ['1'] ≠ ['.', '.']
  decide

/-- The PUT. -/
theorem step_putCall : LifeStep "/r".toList [['r']] (storedIds [1]) (.call putCall)
    (some (html 200 "x".toList)) ⟨putFiles, indexed (listingOf [1]) fun _ => none⟩ := by
  have hrange : InRange [1] := by decide
  have hplain := plain_putCall
  have hlisting := @isListing_storedIds [1] (by decide)
  have hindex := Indexed.of_scan (store_storedIds hrange) (bounded_storedIds hrange).2 hlisting
    listedInOrder_one
  refine ⟨⟨hplain, bounded_storedIds hrange, by decide, by decide, hlisting, ?_⟩,
    fun _ => listedInOrder_one⟩
  refine (serve_eq (resolve_storedIds _) (store_storedIds hrange) hlisting _ _).trans ?_
  refine congrArg Except.ok ((handleRequest_call _ _ hplain).trans ?_)
  rcases hindex.handlePut_eq (resolve_storedIds _) (entityName_of_plain hplain.1)
    (by decide : '/' ∉ ['1']) "x".toList with ⟨hno, -⟩ | ⟨id, content, hid, -, heq⟩
  · exact absurd (by decide +kernel) (hno [])
  · obtain rfl : 1 = id := decimal_injective hid
    exact heq

/-- What the GET comes to. -/
def getResult : Response × State :=
  handleRequest "/r".toList getCall.profile ⟨putFiles, indexed (listingOf [1]) fun _ => none⟩
    getCall.input.request

/-- The restart and the GET behind it. -/
theorem run_getCall : ∃ o s, Run (LifeStep "/r".toList [['r']]) (storedIds [1])
    [(.call putCall, some (html 200 "x".toList)), (.restart, none), (.call getCall, some o)] s := by
  have hrange : InRange [1] := by decide
  have hstore : Store [['r']] putFiles := (store_storedIds hrange).overwrite storedIds_one _
  have hroot : putFiles.resolve "/r".toList = some [['r']] :=
    FileSystem.resolve_set (resolve_storedIds _) _ _
  have hbounded : State.Bounded [['r']] ⟨putFiles, fun _ => none⟩ := by
    refine ⟨by simp [State.ids], fun entity => ?_⟩
    show putFiles.node ([['r']] ++ [entity, decimal intMax]) = none
    rw [putFiles, FileSystem.set_node_of_ne]
    · exact (bounded_storedIds hrange).2 entity
    · rw [ne_eq, item_inj]
      exact fun h => absurd h.2 (by decide)
  have hrestart : LifeStep "/r".toList [['r']] ⟨putFiles, indexed (listingOf [1]) fun _ => none⟩
    .restart none ⟨putFiles, fun _ => none⟩ := rfl
  have hget : LifeStep "/r".toList [['r']] ⟨putFiles, fun _ => none⟩ (.call getCall)
      (some getResult.1) getResult.2 :=
    ⟨⟨plain_putCall, hbounded, by decide, by decide, isListing_putFiles,
      serve_eq hroot hstore isListing_putFiles _ _⟩, fun _ => listedInOrder_one⟩
  exact ⟨_, _, ((Run.nil.snoc step_putCall).snoc hrestart).snoc hget⟩

/-- This run is one of `Crud`. -/
theorem lives_refine_get : ∃ o a, Run (Crud.LifeStep "/r".toList)
    (stored [['r']] (storedIds [1]).fs)
    [(.call putCall, some (html 200 "x".toList)), (.restart, none), (.call getCall, some o)] a := by
  obtain ⟨o, s, hrun⟩ := run_getCall
  obtain ⟨⟨a, habstract, -⟩, -⟩ := lives_refine (by decide) (resolve_storedIds _)
    (store_storedIds (by decide)) (fun _ => rfl) hrun
  exact ⟨o, a, habstract⟩

/-- The GET reads what was put before the restart. -/
theorem reads_last_write_get : ∃ s, Run (LifeStep "/r".toList [['r']]) (storedIds [1])
    [(.call putCall, some (html 200 "x".toList)), (.restart, none),
      (.call getCall, some (html 200 "x".toList))] s := by
  obtain ⟨o, s, hrun⟩ := run_getCall
  have hread := (@reads_last_write _ _ _ _ (by decide) (resolve_storedIds _)
    (store_storedIds (by decide)) (fun _ => rfl)
    [(.call putCall, some (html 200 "x".toList)), (.restart, none)] [] _ _ hrun rfl).1
    "E".toList 1 rfl
  have hwritten : lastWrite "/r".toList (stored [['r']] (storedIds [1]).fs)
      [(.call putCall, some (html 200 "x".toList)), (.restart, none)] "E".toList 1 =
      some "x".toList := rfl
  rw [hwritten] at hread
  obtain rfl : o = html 200 "x".toList := hread
  exact ⟨s, hrun⟩

end CrazyCode.Api
