import CrazyCode.Api.Store

/-!
# The index of a store

`Indexed` is the invariant of the API: what is below the root is a store, and the index has the ids
of all its files, in lists that are in order. The first scan of a store makes such an index if the
lists that it makes are in order (`Indexed.of_scan`), and a later scan changes nothing
(`Indexed.indexed_eq`). Every request keeps it, and none that is a POST overwrites a file
(`Indexed.handleRequest`).
-/

namespace CrazyCode.Api

open Text Decimal Posix Profile Server

/-! ## The index of a store -/

/-- No file and no id of the index is named `INT_MAX`, so that no sum overflows. -/
def State.Bounded (top : Location) (st : State) : Prop :=
  (∀ entity, ∀ id ∈ st.ids entity, id < intMax) ∧
    ∀ entity, st.fs.node (top ++ [entity, decimal intMax]) = none

/-- A store whose files are all in the index, in lists that are in order. -/
structure Indexed (top : Location) (st : State) : Prop where
  store : Store top st.fs
  key : ∀ entity, st.pathCounts entity ≠ none → EntityName entity
  nodup : ∀ entity, (st.ids entity).Nodup
  one_le : ∀ entity, ∀ id ∈ st.ids entity, 1 ≤ id
  inOrder : ∀ entity, InOrder (st.ids entity)
  files : ∀ entity id, st.fs.node (top ++ [entity, decimal id]) ≠ none → id ∈ st.ids entity

section Index

variable {top : Location} {st : State}

/-- The ids of the index are in range. -/
theorem Indexed.inRange (h : Indexed top st) (hbounded : st.Bounded top) (entity : Str) :
    InRange (st.ids entity) := fun id hid => ⟨h.one_le entity id hid, hbounded.1 entity id hid⟩

/-- Each list of the index has a next id. -/
theorem Indexed.hasNext (h : Indexed top st) (hbounded : st.Bounded top) (entity : Str) :
    HasNext (st.ids entity) := (h.inRange hbounded entity).hasNext

/-- The ids of an entity whose list is replaced. -/
@[simp] theorem ids_update_self (fs : FileSystem) (pathCounts : PathCounts) (entity : Str)
    (ids : List ℤ) : State.ids ⟨fs, Function.update pathCounts entity (some ids)⟩ entity = ids := by
  simp [State.ids]

/-- The ids of another entity. -/
theorem ids_update_of_ne {entity entity' : Str} (h : entity' ≠ entity) (fs : FileSystem)
    (pathCounts : PathCounts) (ids : List ℤ) :
    State.ids ⟨fs, Function.update pathCounts entity (some ids)⟩ entity' =
      (pathCounts entity').getD [] := by
  simp [State.ids, Function.update_of_ne h]

/-- The index stays one when the list of an entity is replaced by another list in order, which has
the ids of all its files. -/
theorem Indexed.update (h : Indexed top st) {fs : FileSystem} {entity : Str} {ids : List ℤ}
    (hstore : Store top fs) (hentity : EntityName entity) (hnodup : ids.Nodup)
    (hone : ∀ id ∈ ids, 1 ≤ id) (hord : InOrder ids)
    (hfiles : ∀ id, fs.node (top ++ [entity, decimal id]) ≠ none → id ∈ ids)
    (hother : ∀ entity' id, entity' ≠ entity →
      fs.node (top ++ [entity', decimal id]) ≠ none → id ∈ st.ids entity') :
    Indexed top ⟨fs, Function.update st.pathCounts entity (some ids)⟩ := by
  have hids : ∀ entity', entity' = entity ∧
        State.ids ⟨fs, Function.update st.pathCounts entity (some ids)⟩ entity' = ids ∨
      entity' ≠ entity ∧ State.ids ⟨fs, Function.update st.pathCounts entity (some ids)⟩ entity' =
        st.ids entity' := fun entity' => by
    by_cases he : entity' = entity
    · exact .inl ⟨he, by rw [he, ids_update_self]⟩
    · exact .inr ⟨he, ids_update_of_ne he _ _ _⟩
  refine ⟨hstore, fun entity' hkey => ?_, fun entity' => ?_, fun entity' => ?_, fun entity' => ?_,
    fun entity' id hnode => ?_⟩
  · by_cases he : entity' = entity
    · rwa [he]
    · exact h.key entity' (by simpa [Function.update_of_ne he] using hkey)
  · rcases hids entity' with ⟨-, heq⟩ | ⟨-, heq⟩ <;> rw [heq]
    · exact hnodup
    · exact h.nodup entity'
  · rcases hids entity' with ⟨-, heq⟩ | ⟨-, heq⟩ <;> rw [heq]
    · exact hone
    · exact h.one_le entity'
  · rcases hids entity' with ⟨-, heq⟩ | ⟨-, heq⟩ <;> rw [heq]
    · exact hord
    · exact h.inOrder entity'
  · rcases hids entity' with ⟨rfl, heq⟩ | ⟨hne, heq⟩ <;> rw [heq]
    · exact hfiles id hnode
    · exact hother entity' id hne hnode

/-- A scan puts the ids of an entity into its list, in the order in which its files are listed. -/
theorem ids_indexed (fs : FileSystem) (listing : List (List Str)) (pathCounts : PathCounts)
    (entity : Str) : State.ids ⟨fs, indexed listing pathCounts⟩ entity =
      (listedIds listing entity).foldl insertId ((pathCounts entity).getD []) :=
  getD_filled (listedIds listing) pathCounts entity

/-- A scan of a store adds positive ids to a list of positive ids. -/
theorem Store.positive_indexed {fs : FileSystem} (hstore : Store top fs) {listing : List (List Str)}
    (hlisting : IsListing fs top listing) {pathCounts : PathCounts} {entity : Str}
    (h : Positive ((pathCounts entity).getD [])) :
    Positive (State.ids ⟨fs, indexed listing pathCounts⟩ entity) := fun id hid => by
  have hnew : Positive (listedIds listing entity) := fun id hid =>
    ((mem_listedIds hstore hlisting).mp hid).1
  rw [ids_indexed] at hid
  rcases mem_foldl_insertId.mp hid with hid | hid
  · exact h id hid
  · exact hnew id hid

/-- The first scan of a store makes lists of its files. -/
theorem scan_ids (fs : FileSystem) (listing : List (List Str)) (entity : Str) :
    State.ids ⟨fs, indexed listing fun _ => none⟩ entity =
      (listedIds listing entity).foldl insertId [] := ids_indexed fs listing _ entity

/-- The first scan of a store makes lists of its files, each of which is listed once. -/
theorem scan_files {fs : FileSystem} (hstore : Store top fs)
    (hbounded : ∀ entity, fs.node (top ++ [entity, decimal intMax]) = none)
    {listing : List (List Str)} (hlisting : IsListing fs top listing) (entity : Str) :
    (State.ids ⟨fs, indexed listing fun _ => none⟩ entity).Nodup ∧
      ∀ id, id ∈ State.ids ⟨fs, indexed listing fun _ => none⟩ entity ↔
        (1 ≤ id ∧ id < intMax) ∧ fs.node (top ++ [entity, decimal id]) ≠ none := by
  have hrange : ∀ id ∈ listedIds listing entity, 1 ≤ id ∧ id < intMax := fun id hid => by
    obtain ⟨hid, hnode⟩ := (mem_listedIds hstore hlisting).mp hid
    refine ⟨hid.1, hid.2.lt_of_ne ?_⟩
    rintro rfl
    exact hnode (hbounded entity)
  rw [scan_ids]
  refine ⟨nodup_foldl_insertId _ .nil, fun id => ?_⟩
  rw [mem_foldl_insertId, mem_listedIds hstore hlisting]
  constructor
  · rintro (hid | ⟨hid, hnode⟩)
    · simp at hid
    · exact ⟨hrange id ((mem_listedIds hstore hlisting).mpr ⟨hid, hnode⟩), hnode⟩
  · exact fun ⟨hid, hnode⟩ => .inr ⟨⟨hid.1, hid.2.le⟩, hnode⟩

/-- The first scan of a store makes its index, if the lists that it makes are in order. -/
theorem Indexed.of_scan {fs : FileSystem} (hstore : Store top fs)
    (hbounded : ∀ entity, fs.node (top ++ [entity, decimal intMax]) = none)
    {listing : List (List Str)} (hlisting : IsListing fs top listing)
    (hord : ∀ entity, InOrder ((listedIds listing entity).foldl insertId [])) :
    Indexed top ⟨fs, indexed listing fun _ => none⟩ := by
  have hfiles := scan_files hstore hbounded hlisting
  refine ⟨hstore, fun entity hkey => ?_, fun entity => (hfiles entity).1,
    fun entity id hid => (((hfiles entity).2 id).mp hid).1.1, fun entity => ?_,
    fun entity id hnode => ?_⟩
  · -- A list is made only for an entity with a file, and so with a directory.
    have hne : listedIds listing entity ≠ [] := fun hnil => hkey (by simp [indexed, hnil])
    obtain ⟨id, hid⟩ := List.exists_mem_of_ne_nil _ hne
    have hdir := fs.parent_directory (top ++ [entity]) (decimal id) (by
      rw [List.append_assoc]
      exact ((mem_listedIds hstore hlisting).mp hid).2)
    obtain ⟨h₀, h₁, h₂, h₃, -⟩ := plain_of_directory entity (by rw [hdir]; simp)
    exact ⟨h₀, h₁, h₂, h₃⟩
  · rw [scan_ids]
    exact hord entity
  · have hid := hstore.item_range hnode
    refine ((hfiles entity).2 id).mpr ⟨⟨hid.1, hid.2.lt_of_ne ?_⟩, hnode⟩
    rintro rfl
    exact hnode (hbounded entity)

/-- A later scan changes nothing. -/
theorem Indexed.indexed_eq (h : Indexed top st) {listing : List (List Str)}
    (hlisting : IsListing st.fs top listing) : indexed listing st.pathCounts = st.pathCounts :=
  indexed_of_subset fun entity id hid =>
    h.files entity id ((mem_listedIds h.store hlisting).mp hid).2

end Index

/-! ## Requests to a store -/

/-- A POST that is answered with an id has overwritten nothing: there was no file of that id, and
every other file keeps its content. -/
def PostSafe (root : Str) (st : State) (req : Request) (res : Response) (st' : State) : Prop :=
  ∀ entity id, req.method = .post → req.target = "/api/".toList ++ entity →
    res = created (root ++ '/' :: entity) id →
    let path := root ++ '/' :: entity ++ '/' :: decimal id
    st.fs.readFile path = none ∧
      ∀ loc content, st.fs.resolve path ≠ some loc → st.fs.node loc = some (.file content) →
        st'.fs.node loc = some (.file content)

section Requests

variable {root : Str} {top : Location} {st : State}

/-- The answer to a POST tells its id. -/
theorem created_injective (path : Str) : Function.Injective (created path) := fun id id' h => by
  have hbody := congrArg Response.body h
  simp only [created, html, List.append_assoc, List.append_cancel_left_eq] at hbody
  exact decimal_injective (List.append_cancel_right hbody)

/-- The id that a POST picks is free: there is no such file. -/
theorem Indexed.nextId_free (h : Indexed top st) {entity : Str} (hnext : HasNext (st.ids entity)) :
    st.fs.node (top ++ [entity, decimal (nextId (st.ids entity))]) = none := by
  by_contra hnode
  exact nextId_not_mem hnext (h.inOrder entity) (h.files entity _ hnode)

/-- A POST to a store with an index overwrites nothing. -/
theorem Indexed.handlePost_safe (h : Indexed top st) (hroot : st.fs.resolve root = some top)
    {entity : Str} (hentity : EntityName entity) (hnext : HasNext (st.ids entity)) (body : Str) :
    PostSafe root st ⟨.post, "/api/".toList ++ entity, body⟩ (handlePost root st entity body).1
      (handlePost root st entity body).2 := by
  intro entity' id _ htarget hres
  obtain rfl := List.append_cancel_left htarget
  obtain ⟨loc, hloc, hplain, hpost⟩ := handlePost_store hroot h.store hentity body
  rw [hpost] at hres ⊢
  obtain rfl := created_injective _ hres
  have hfree := h.nextId_free hnext
  have hpath : root ++ '/' :: entity ++ '/' :: decimal (nextId (st.ids entity)) =
      root ++ '/' :: (entity ++ '/' :: decimal (nextId (st.ids entity))) := by simp
  refine ⟨?_, fun loc' content _ hfile => ?_⟩
  · -- A file at the path would be one of the entity, with the id that is free.
    unfold FileSystem.readFile
    split
    · next content hlookup =>
      rw [hpath] at hlookup
      obtain ⟨-, id, -, hid, -, hnode⟩ :=
        h.store.lookup_item hroot hentity (plainName_decimal _).2.2.2.1 hlookup
      rw [cstr_of_not_mem (plainName_decimal _).2.2.2.2] at hid
      rw [← decimal_injective hid, hfree] at hnode
      cases hnode
    · rfl
  · -- The places that change had no file.
    have hdir : (st.fs.set loc (some .directory)).node loc' = some (.file content) := by
      refine (FileSystem.set_node_of_ne ?_).trans hfile
      rintro rfl
      rcases hloc with hdir | rfl
      · rw [hdir] at hfile
        cases hfile
      · rcases h.store.entity_cases (cstr entity) with hnode | hnode <;> rw [hnode] at hfile <;>
          cases hfile
    show (if _ then _ else _ : FileSystem).node loc' = _
    split
    · exact hdir
    · next hnul =>
      refine (FileSystem.set_node_of_ne ?_).trans hdir
      rintro rfl
      rw [hplain hnul, List.append_assoc, List.singleton_append, hfree] at hfile
      cases hfile

/-- A POST keeps the index of a store. -/
theorem Indexed.handlePost (h : Indexed top st) (hroot : st.fs.resolve root = some top)
    {entity : Str} (hentity : EntityName entity) (hnext : HasNext (st.ids entity)) (body : Str) :
    Indexed top (handlePost root st entity body).2 := by
  obtain ⟨loc, -, -, hpost⟩ := handlePost_store hroot h.store hentity body
  have hstore := h.store.handlePost hroot hentity hnext body
  have hperm := perm_takeId (st.ids entity)
  have hmem : ∀ id ∈ st.ids entity, id ∈ takeId (st.ids entity) := fun id hid =>
    hperm.mem_iff.mpr (List.mem_cons_of_mem _ hid)
  -- The index gets the id of the file that is written, if one is.
  have hfile : ∀ entity' id,
      (Api.handlePost root st entity body).2.fs.node (top ++ [entity', decimal id]) ≠ none →
      id ∈ st.ids entity' ∨ entity' = entity ∧ id = nextId (st.ids entity) :=
    fun entity' id hnode =>
      (handlePost_node hroot h.store hentity body hnode).imp_left (h.files entity' id)
  rw [hpost] at hstore hfile ⊢
  refine h.update hstore hentity ?_ ?_ (inOrder_takeId hnext (h.nodup entity) (h.inOrder entity))
    ?_ ?_
  · exact hperm.nodup_iff.mpr (List.nodup_cons.mpr
      ⟨nextId_not_mem hnext (h.inOrder entity), h.nodup entity⟩)
  · intro id hid
    rcases List.mem_cons.mp (hperm.mem_iff.mp hid) with rfl | hid
    · exact one_le_nextId hnext
    · exact h.one_le entity id hid
  · intro id hnode
    rcases hfile entity id hnode with hid | ⟨-, rfl⟩
    · exact hmem id hid
    · exact hperm.mem_iff.mpr List.mem_cons_self
  · intro entity' id hne hnode
    exact (hfile entity' id hnode).resolve_right fun heq => hne heq.1

/-- A GET of a name in an entity reads the file that is there. -/
theorem Indexed.handleGet_eq (h : Indexed top st) (hroot : st.fs.resolve root = some top)
    {entity name : Str} (hentity : EntityName entity) (hslash : '/' ∉ name) :
    (∀ content, st.fs.lookup (root ++ '/' :: (entity ++ '/' :: name)) ≠ some (.file content)) ∧
      handleGet root st (entity ++ '/' :: name) = badRequest ∨
    ∃ id content, cstr name = decimal id ∧
      st.fs.node (top ++ [entity, decimal id]) = some (.file content) ∧
      handleGet root st (entity ++ '/' :: name) = html 200 content := by
  rw [Api.handleGet_eq, behindSlash_append _ hslash, beforeSlash_append _ hslash]
  cases hlookup : st.fs.lookup (root ++ '/' :: (entity ++ '/' :: name)) with
  | none => exact .inl ⟨by simp, rfl⟩
  | some n =>
    cases n with
    | directory => exact .inl ⟨by simp, rfl⟩
    | file content =>
      obtain ⟨-, id, hid, hname, -, hnode⟩ := h.store.lookup_item hroot hentity hslash hlookup
      have hmem := h.files entity id (by rw [hnode]; simp)
      refine .inr ⟨id, content, hname, hnode, ?_⟩
      cases hids : st.pathCounts entity with
      | none => simp [State.ids, hids] at hmem
      | some ids =>
        rw [State.ids, hids, Option.getD_some] at hmem
        simp [stoi_name hid hname, hmem]

/-- A PUT of a name in an entity replaces the bytes of the file that is there. -/
theorem Indexed.handlePut_eq (h : Indexed top st) (hroot : st.fs.resolve root = some top)
    {entity name : Str} (hentity : EntityName entity) (hslash : '/' ∉ name) (body : Str) :
    (∀ content, st.fs.lookup (root ++ '/' :: (entity ++ '/' :: name)) ≠ some (.file content)) ∧
      handlePut root st (entity ++ '/' :: name) body = (badRequest, st) ∨
    ∃ id content, cstr name = decimal id ∧
      st.fs.node (top ++ [entity, decimal id]) = some (.file content) ∧
      handlePut root st (entity ++ '/' :: name) body =
        (html 200 body,
          ⟨st.fs.set (top ++ [entity, decimal id]) (some (.file body)), st.pathCounts⟩) := by
  rw [Api.handlePut_eq, behindSlash_append _ hslash]
  cases hlookup : st.fs.lookup (root ++ '/' :: (entity ++ '/' :: name)) with
  | none => exact .inl ⟨by simp, rfl⟩
  | some n =>
    cases n with
    | directory => exact .inl ⟨by simp, rfl⟩
    | file content =>
      obtain ⟨-, id, hid, hname, hresolve, hnode⟩ :=
        h.store.lookup_item hroot hentity hslash hlookup
      refine .inr ⟨id, content, hname, hnode, ?_⟩
      simp [stoi_name hid hname, FileSystem.writeFile_eq hresolve]

/-- A DELETE of an entity that the index does not have changes nothing. -/
theorem handleDelete_of_none {directory : Str} (h : st.pathCounts (beforeSlash directory) = none) :
    handleDelete root st directory = (badRequest, st) := by
  rw [handleDelete_eq, h]
  split
  · split <;> rfl
  · rfl

/-- A DELETE of a name in an entity removes the file that is there, and its id from the index. -/
theorem Indexed.handleDelete_eq (h : Indexed top st) (hroot : st.fs.resolve root = some top)
    {entity name : Str} (hentity : EntityName entity) (hslash : '/' ∉ name) :
    (∀ content, st.fs.lookup (root ++ '/' :: (entity ++ '/' :: name)) ≠ some (.file content)) ∧
      handleDelete root st (entity ++ '/' :: name) = (badRequest, st) ∨
    ∃ id content, cstr name = decimal id ∧
      st.fs.node (top ++ [entity, decimal id]) = some (.file content) ∧
      handleDelete root st (entity ++ '/' :: name) =
        (deleted, ⟨st.fs.set (top ++ [entity, decimal id]) none,
          Function.update st.pathCounts entity (some ((st.ids entity).erase id))⟩) := by
  rw [Api.handleDelete_eq, behindSlash_append _ hslash, beforeSlash_append _ hslash]
  cases hlookup : st.fs.lookup (root ++ '/' :: (entity ++ '/' :: name)) with
  | none => exact .inl ⟨by simp, rfl⟩
  | some n =>
    cases n with
    | directory => exact .inl ⟨by simp, rfl⟩
    | file content =>
      obtain ⟨-, id, hid, hname, hresolve, hnode⟩ :=
        h.store.lookup_item hroot hentity hslash hlookup
      have hmem := h.files entity id (by rw [hnode]; simp)
      refine .inr ⟨id, content, hname, hnode, ?_⟩
      cases hids : st.pathCounts entity with
      | none => simp [State.ids, hids] at hmem
      | some ids =>
        have heq : st.ids entity = ids := by rw [State.ids, hids, Option.getD_some]
        rw [heq] at hmem ⊢
        simp [stoi_name hid hname, hmem, FileSystem.removeFile_eq hresolve hnode]

/-- A DELETE keeps the index of a store. -/
theorem Indexed.handleDelete (h : Indexed top st) (hroot : st.fs.resolve root = some top)
    {directory : Str} (hslash : '/' ∈ directory) :
    Indexed top (handleDelete root st directory).2 := by
  obtain ⟨entity, name, rfl, hname⟩ := exists_slash hslash
  cases hids : st.pathCounts entity with
  | none =>
    rw [handleDelete_of_none (by rwa [beforeSlash_append _ hname])]
    exact h
  | some ids =>
    have hentity := h.key entity (by rw [hids]; simp)
    rcases h.handleDelete_eq hroot hentity hname with ⟨-, heq⟩ | ⟨id, content, -, hnode, heq⟩ <;>
      rw [heq]
    · exact h
    · have hgone : (st.fs.set (top ++ [entity, decimal id]) none).node
          (top ++ [entity, decimal id]) = none :=
        FileSystem.set_node_self (FileSystem.writable_of_file hnode)
      have hleft : ∀ entity' id', (st.fs.set (top ++ [entity, decimal id]) none).node
          (top ++ [entity', decimal id']) ≠ none → id' ∈ st.ids entity' :=
        fun entity' id' hnode' => by
        rcases st.fs.set_node_cases (top ++ [entity, decimal id]) none
          (top ++ [entity', decimal id']) with hsame | ⟨-, hnone⟩
        · exact h.files entity' id' (hsame ▸ hnode')
        · exact absurd hnone hnode'
      refine h.update (h.store.remove _) hentity
        ((h.nodup entity).erase id)
        (fun id' hid' => h.one_le entity id' (List.mem_of_mem_erase hid'))
        ((h.inOrder entity).sublist List.erase_sublist) (fun id' hnode' => ?_)
        fun entity' id' _ hnode' => hleft entity' id' hnode'
      refine (List.mem_erase_of_ne ?_).mpr (hleft entity id' hnode')
      rintro rfl
      exact hnode' hgone

/-- A file that is overwritten keeps the index of a store. -/
theorem Indexed.overwrite (h : Indexed top st) {loc : Location} {content : Str}
    (hfile : st.fs.node loc = some (.file content)) (body : Str) :
    Indexed top ⟨st.fs.set loc (some (.file body)), st.pathCounts⟩ := by
  refine ⟨h.store.overwrite hfile body, h.key, h.nodup, h.one_le, h.inOrder,
    fun entity id hnode => ?_⟩
  rcases st.fs.set_node_cases loc (some (.file body)) (top ++ [entity, decimal id])
    with hsame | ⟨rfl, -⟩
  · exact h.files entity id (hsame ▸ hnode)
  · exact h.files entity id (by rw [hfile]; simp)

/-- A PUT keeps the index of a store. -/
theorem Indexed.handlePut (h : Indexed top st) (directory body : Str) :
    Indexed top (handlePut root st directory body).2 := by
  rw [Api.handlePut_eq]
  cases hlookup : st.fs.lookup (root ++ '/' :: directory) with
  | none => exact h
  | some n =>
    cases n with
    | directory => exact h
    | file content =>
      obtain ⟨loc, hloc, hfile⟩ := FileSystem.lookup_eq_some.mp hlookup
      cases stoi (behindSlash directory) with
      | error _ => exact h
      | ok _ =>
        rw [FileSystem.writeFile_eq hloc]
        exact h.overwrite hfile body

/-- Only a POST that made a file is answered with an id. -/
theorem badRequest_ne_created (path : Str) (id : ℤ) : badRequest ≠ created path id := fun h => by
  have := congrArg Response.status h
  cases this

/-- A request keeps the index of a store, and overwrites nothing if it is a POST. -/
theorem Indexed.handleRequest (h : Indexed top st) (hroot : st.fs.resolve root = some top)
    (profile : UserProfile) {req : Request}
    (hnext : ∀ entity, req.method = .post → profile.loginStatus = true →
      req.target = "/api/".toList ++ entity → HasNext (st.ids entity))
    (hdot : req.method = .post → req.target ≠ "/api/.".toList ∧ req.target ≠ "/api/..".toList) :
    Indexed top (handleRequest root profile st req).2 ∧
      PostSafe root st req (handleRequest root profile st req).1
        (handleRequest root profile st req).2 := by
  -- Only a POST can be answered with an id that it picked.
  have hother : ∀ res st', req.method ≠ .post → PostSafe root st req res st' :=
    fun _ _ hmethod _ _ hpost => absurd hpost hmethod
  rcases handleRequest_inversion root profile st req with ⟨hsame, hbad⟩ |
    ⟨directory, hne, htarget, hlogin,
      ⟨hpost, hslash, heq⟩ | ⟨hput, -, heq⟩ | ⟨hdelete, hslash, heq⟩⟩
  · rw [hsame]
    refine ⟨h, fun entity id hpost _ hres => ?_⟩
    rw [hbad hpost] at hres
    exact absurd hres (badRequest_ne_created _ _)
  · have hentity := entityName_of_target htarget (hdot hpost) hne hslash
    have hfirst := hnext directory hpost hlogin htarget
    rw [heq]
    refine ⟨h.handlePost hroot hentity hfirst req.body, ?_⟩
    obtain ⟨method, target, body⟩ := req
    obtain rfl : method = .post := hpost
    obtain rfl : target = "/api/".toList ++ directory := htarget
    exact h.handlePost_safe hroot hentity hfirst body
  · rw [heq]
    exact ⟨h.handlePut directory req.body, hother _ _ (by simp [hput])⟩
  · rw [heq]
    exact ⟨h.handleDelete hroot hslash, hother _ _ (by simp [hdelete])⟩

end Requests

end CrazyCode.Api
