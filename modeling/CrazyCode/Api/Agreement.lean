import CrazyCode.Api.Refinement

/-!
# The index and the files agree

`Agrees` adds the other half to the invariant of the API: every id of the index has its file. It
needs the stream of each POST to open, since a POST is answered with an id, and the id stays in the
index, when nothing could be written (`RequestStep.opens`).

Every request keeps it, method by method (`Agrees.handleRequest`). So after every run from an empty
root the list of an entity has exactly the ids of the files in its directory, each of them once
(`index_agrees`).
-/

namespace CrazyCode.Api

open Text Decimal Posix Profile Server

/-- If a request is a POST that goes as far as its file, the stream for it opens. -/
def PostOpens (root : Str) (profile : UserProfile) (st : State) (req : Request) : Prop :=
  ∀ entity fs, req.method = .post → profile.loginStatus = true →
    req.target = "/api/".toList ++ entity →
    (if st.fs.pathExists (root ++ '/' :: entity) then some st.fs
      else st.fs.createDirectory (root ++ '/' :: entity)) = some fs →
    fs.Opens (root ++ '/' :: entity ++ '/' :: decimal (nextId (st.ids entity)))

/-- One request is handled, by a new handler, before an id gets to `INT_MAX`. A POST is not for `.`
or `..`, and its stream opens. -/
structure RequestStep (root : Str) (top : Location) (st : State) (i : Input) (o : Response)
    (st' : State) : Prop where
  bounded : st.Bounded top
  entity : i.request.method = .post →
    i.request.target ≠ "/api/.".toList ∧ i.request.target ≠ "/api/..".toList
  listed : IsListing st.fs top i.listing
  opens : ∀ pathCounts, construct root i.listing st = .ok pathCounts →
    PostOpens root i.profile ⟨st.fs, pathCounts⟩ i.request
  served : serve root i.listing i.profile st i.request = .ok (o, st')

/-- The index of a store, and a file for every id in it. -/
structure Agrees (root : Str) (top : Location) (st : State) : Prop where
  resolve : st.fs.resolve root = some top
  index : Indexed top st
  present : ∀ entity, ∀ id ∈ st.ids entity,
    nul ∉ root ∧ ∃ content, st.fs.node (top ++ [entity, decimal id]) = some (.file content)

section

variable {root : Str} {top : Location} {st : State}

/-- A file stays one when another file or a directory is set. -/
theorem file_set {fs : FileSystem} {loc loc' : Location} {n : Node}
    (h : ∃ content, fs.node loc' = some (.file content))
    (hn : (∃ content, n = .file content) ∨ loc' ≠ loc) :
    ∃ content, (fs.set loc (some n)).node loc' = some (.file content) := by
  rcases fs.set_node_cases loc (some n) loc' with hsame | ⟨heq, hset⟩
  · rwa [hsame]
  · rcases hn with ⟨content, rfl⟩ | hne
    · exact ⟨content, hset⟩
    · exact absurd heq hne

/-- A stream opens in the directory of a POST only if no zero byte cuts its path off. -/
theorem Indexed.post_opens (h : Indexed top st) (hroot : st.fs.resolve root = some top)
    {entity : Str} (hentity : EntityName entity)
    (hopens : ∀ fs, (if st.fs.pathExists (root ++ '/' :: entity) then some st.fs
      else st.fs.createDirectory (root ++ '/' :: entity)) = some fs →
      fs.Opens (root ++ '/' :: entity ++ '/' :: decimal (nextId (st.ids entity)))) :
    nul ∉ root ++ '/' :: entity := by
  obtain ⟨loc, hresolve, hloc, -⟩ := post_location hroot h.store hentity
  obtain ⟨hdirectory, hdir⟩ := post_directory h.store hresolve hloc
  intro hnul
  obtain ⟨loc', hloc', hnode⟩ := hopens _ hdirectory
  rw [FileSystem.resolve_append_of_mem hnul, FileSystem.resolve_set hresolve] at hloc'
  rw [← Option.some.inj hloc', hdir] at hnode
  exact hnode rfl

/-- A POST whose stream opens keeps the agreement. -/
theorem Agrees.handlePost (h : Agrees root top st) {entity : Str} (hentity : EntityName entity)
    (hnext : HasNext (st.ids entity)) (body : Str)
    (hopens : ∀ fs, (if st.fs.pathExists (root ++ '/' :: entity) then some st.fs
      else st.fs.createDirectory (root ++ '/' :: entity)) = some fs →
      fs.Opens (root ++ '/' :: entity ++ '/' :: decimal (nextId (st.ids entity)))) :
    Agrees root top (handlePost root st entity body).2 := by
  have hnul := h.index.post_opens h.resolve hentity hopens
  refine ⟨handlePost_resolve root h.resolve entity body,
    h.index.handlePost h.resolve hentity hnext body, ?_⟩
  obtain ⟨loc, -, hplain, hpost⟩ := handlePost_store h.resolve h.index.store hentity body
  obtain rfl := hplain hnul
  rw [hpost, if_neg hnul]
  simp only [List.mem_append, List.mem_cons, not_or] at hnul
  -- What was a file is one, and the id that is picked has the new one.
  have hold : ∀ entity', ∀ id ∈ st.ids entity', ∃ content,
      ((st.fs.set (top ++ [entity]) (some .directory)).set
        (top ++ [entity] ++ [decimal (nextId (st.ids entity))]) (some (.file body))).node
          (top ++ [entity', decimal id]) = some (.file content) := fun entity' id hid =>
    file_set (file_set (h.present entity' id hid).2 (.inr (by simp))) (.inl ⟨body, rfl⟩)
  have hentity' : PlainName entity :=
    ⟨hentity.1, hentity.2.1, hentity.2.2.1, hentity.2.2.2, hnul.2.2⟩
  have hnew : ((st.fs.set (top ++ [entity]) (some .directory)).set
      (top ++ [entity] ++ [decimal (nextId (st.ids entity))]) (some (.file body))).node
        (top ++ [entity, decimal (nextId (st.ids entity))]) = some (.file body) := by
    have hw := (h.index.store.set_entity entity).writable_item
      (set_entity_self h.index.store hentity') (nextId (st.ids entity))
    rw [List.append_assoc, List.singleton_append]
    exact FileSystem.set_node_self hw
  intro entity' id hid
  refine ⟨hnul.1, ?_⟩
  by_cases he : entity' = entity
  · subst he
    rw [ids_update_self, (perm_takeId _).mem_iff] at hid
    rcases List.mem_cons.mp hid with rfl | hid
    · exact ⟨body, hnew⟩
    · exact hold _ id hid
  · rw [ids_update_of_ne he] at hid
    exact hold entity' id hid

/-- A DELETE keeps the agreement. -/
theorem Agrees.handleDelete (h : Agrees root top st) {directory : Str} (hslash : '/' ∈ directory) :
    Agrees root top (handleDelete root st directory).2 := by
  refine ⟨handleDelete_resolve root h.resolve directory, h.index.handleDelete h.resolve hslash, ?_⟩
  obtain ⟨entity, name, rfl, hname⟩ := exists_slash hslash
  cases hids : st.pathCounts entity with
  | none =>
    rw [handleDelete_of_none (by rwa [beforeSlash_append _ hname])]
    exact h.present
  | some ids =>
    have hentity := h.index.key entity (by rw [hids]; simp)
    rcases h.index.handleDelete_eq h.resolve hentity hname with ⟨-, heq⟩ | ⟨id, content, -, -, heq⟩
      <;> rw [heq]
    · exact h.present
    · -- The one file that is gone is that of the id that is taken off the list.
      have hleft : ∀ entity' id', ¬ (entity' = entity ∧ id' = id) → id' ∈ st.ids entity' →
          nul ∉ root ∧ ∃ content, (st.fs.set (top ++ [entity, decimal id]) none).node
            (top ++ [entity', decimal id']) = some (.file content) := by
        intro entity' id' hne hid'
        rw [FileSystem.set_node_of_ne]
        · exact h.present entity' id' hid'
        · exact fun hloc => hne (item_inj.mp hloc)
      intro entity' id' hid'
      by_cases he : entity' = entity
      · subst he
        rw [ids_update_self, (h.index.nodup _).mem_erase_iff] at hid'
        exact hleft _ id' (fun hboth => hid'.1 hboth.2) hid'.2
      · rw [ids_update_of_ne he] at hid'
        exact hleft entity' id' (fun hboth => he hboth.1) hid'

/-- A PUT keeps the agreement. -/
theorem Agrees.handlePut (h : Agrees root top st) (directory body : Str) :
    Agrees root top (handlePut root st directory body).2 := by
  refine ⟨handlePut_resolve root h.resolve directory body, h.index.handlePut directory body, ?_⟩
  rw [Api.handlePut_eq]
  cases hlookup : st.fs.lookup (root ++ '/' :: directory) with
  | none => exact h.present
  | some n =>
    cases n with
    | directory => exact h.present
    | file content =>
      obtain ⟨loc, hloc, -⟩ := FileSystem.lookup_eq_some.mp hlookup
      cases stoi (behindSlash directory) with
      | error _ => exact h.present
      | ok _ =>
        rw [FileSystem.writeFile_eq hloc]
        exact fun entity id hid => ⟨(h.present entity id hid).1,
          file_set (h.present entity id hid).2 (.inl ⟨body, rfl⟩)⟩

/-- A request keeps the agreement. -/
theorem Agrees.handleRequest (h : Agrees root top st) (hbounded : st.Bounded top)
    {profile : UserProfile} {req : Request}
    (hdot : req.method = .post → req.target ≠ "/api/.".toList ∧ req.target ≠ "/api/..".toList)
    (hopens : PostOpens root profile st req) :
    Agrees root top (handleRequest root profile st req).2 := by
  rcases handleRequest_inversion root profile st req with ⟨heq, -⟩ |
    ⟨directory, hne, htarget, hlogin, ⟨hpost, hslash, heq⟩ | ⟨-, -, heq⟩ | ⟨-, hslash, heq⟩⟩ <;>
    rw [heq]
  · exact h
  · have hentity := entityName_of_target htarget (hdot hpost) hne hslash
    exact h.handlePost hentity (h.index.hasNext hbounded directory) req.body
      fun fs hfs => hopens directory fs hpost hlogin htarget hfs
  · exact h.handlePut directory req.body
  · exact h.handleDelete hslash

/-! ## Runs -/

/-- At the start there are no ids and no files. -/
theorem Fresh.agrees (h : Fresh root top st) : Agrees root top st where
  resolve := h.resolve
  index := h.refines.index
  present entity id hid := by simp [State.ids, h.index] at hid

/-- A step keeps the agreement. -/
theorem Agrees.step {s s' : State} {i : Input} {o : Response} (h : Agrees root top s)
    (hstep : RequestStep root top s i o s') : Agrees root top s' := by
  have hserved := hstep.served
  have hsame := h.index.indexed_eq hstep.listed
  have hopens := hstep.opens _ (construct_eq h.resolve h.index.store hstep.listed)
  rw [serve_eq h.resolve h.index.store hstep.listed, hsame] at hserved
  rw [hsame] at hopens
  have hreq := h.handleRequest hstep.bounded hstep.entity hopens
  rwa [Except.ok.inj hserved] at hreq

/-- The ids that the index has for an entity are those of its files. -/
theorem Agrees.mem_ids_iff (h : Agrees root top st) {entity : Str} (hentity : EntityName entity)
    (id : ℤ) :
    id ∈ st.ids entity ↔
      st.fs.isRegularFile (root ++ '/' :: (entity ++ '/' :: decimal id)) = true := by
  constructor
  · intro hid
    obtain ⟨hnul, content, hnode⟩ := h.present entity id hid
    have hdir := st.fs.parent_directory (top ++ [entity]) (decimal id) (by
      rw [List.append_assoc, List.singleton_append, hnode]
      simp)
    have hlookup : st.fs.lookup (root ++ '/' :: (entity ++ '/' :: decimal id)) =
        some (.file content) :=
      FileSystem.lookup_eq_some.mpr ⟨_, h.index.store.resolve_item hnul h.resolve hdir id, hnode⟩
    rw [FileSystem.isRegularFile, FileSystem.readFile_eq_some.mpr hlookup]
    rfl
  · intro hregular
    obtain ⟨content, hread⟩ := Option.isSome_iff_exists.mp hregular
    obtain ⟨-, id', -, hname, -, hnode⟩ := h.index.store.lookup_item h.resolve hentity
      (plainName_decimal id).2.2.2.1 (FileSystem.readFile_eq_some.mp hread)
    rw [cstr_of_not_mem (plainName_decimal id).2.2.2.2] at hname
    rw [decimal_injective hname]
    exact h.index.files entity id' (by rw [hnode]; simp)

/-- After every run from an empty root and an empty index, the list of each entity has no id twice,
and has exactly the ids of its files; and every further request is handled, whatever the order in
which its handler's constructor lists the files. -/
theorem index_agrees (hfresh : Fresh root top st) {tr : List (Input × Response)} {s : State}
    (hrun : Run (RequestStep root top) st tr s) :
    (∀ entity, EntityName entity → (s.ids entity).Nodup ∧ ∀ id, id ∈ s.ids entity ↔
      s.fs.isRegularFile (root ++ '/' :: (entity ++ '/' :: decimal id)) = true) ∧
    ∀ i : Input, IsListing s.fs top i.listing →
      ∃ o s', serve root i.listing i.profile s i.request = .ok (o, s') := by
  have h : Agrees root top s :=
    hrun.invariant (fun _ s => Agrees root top s) hfresh.agrees
      fun _ _ _ _ _ _ h hstep => h.step hstep
  exact ⟨fun entity hentity => ⟨h.index.nodup entity, h.mem_ids_iff hentity⟩, fun i hlisting =>
    ⟨_, _, serve_eq h.resolve h.index.store hlisting i.profile i.request⟩⟩

end

/-- The first POST to an empty root: its directory is made, and its stream opens. -/
theorem requestStep_post :
    RequestStep "/r".toList [['r']] emptyRoot postCall.input (created "/r/E".toList 1)
      (handleRequest "/r".toList postCall.profile emptyRoot postCall.input.request).2 where
  bounded := ⟨fun entity id hid => by simp [State.ids, emptyRoot] at hid,
    fun entity => fresh_emptyRoot.nothing _ (by simp)⟩
  entity _ := by decide
  listed := isListing_emptyRoot
  opens pathCounts hconstruct entity fs _ _ htarget hfs := by
    obtain rfl : ['E'] = entity :=
      List.append_cancel_left (show "/api/".toList ++ ['E'] = "/api/".toList ++ entity from htarget)
    have hempty : construct "/r".toList [] emptyRoot = .ok (indexed [] emptyRoot.pathCounts) :=
      construct_eq fresh_emptyRoot.resolve fresh_emptyRoot.refines.index.store isListing_emptyRoot
    obtain rfl := Except.ok.inj (hempty.symm.trans hconstruct)
    have hdirectory : (if emptyRoot.fs.pathExists "/r/E".toList then some emptyRoot.fs
        else emptyRoot.fs.createDirectory "/r/E".toList) =
        some (emptyRoot.fs.set [['r'], ['E']] (some .directory)) := by rfl
    obtain rfl := Option.some.inj (hdirectory.symm.trans hfs)
    exact ⟨[['r'], ['E'], ['1']], by decide +kernel, by decide +kernel⟩
  served := by
    have hserved := serve_eq fresh_emptyRoot.resolve fresh_emptyRoot.refines.index.store
      isListing_emptyRoot postCall.profile postCall.input.request
    have hanswer : (handleRequest "/r".toList postCall.profile emptyRoot postCall.input.request).1 =
        created "/r/E".toList 1 := by decide +kernel
    rw [← hanswer]
    exact hserved

/-- A run with one POST. -/
theorem index_agrees_post :
    let s := (handleRequest "/r".toList postCall.profile emptyRoot postCall.input.request).2
    (∀ entity, EntityName entity → (s.ids entity).Nodup ∧ ∀ id, id ∈ s.ids entity ↔
      s.fs.isRegularFile ("/r".toList ++ '/' :: (entity ++ '/' :: decimal id)) = true) ∧
    ∀ i : Input, IsListing s.fs [['r']] i.listing →
      ∃ o s', serve "/r".toList i.listing i.profile s i.request = .ok (o, s') :=
  index_agrees fresh_emptyRoot (Run.nil.snoc requestStep_post)

end CrazyCode.Api
