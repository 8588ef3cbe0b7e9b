import CrazyCode.Api.Crud
import CrazyCode.Api.Runs

/-!
# The API is what it is for

From an empty root and an empty index, every run of the API is a run of `Crud`, with the same calls
and the same answers (`crud_refines`). The two states are in the relation `Refines`: the files are
the items that are stored, and the directories and the keys of the index are the entities. It holds
at the start, and each step keeps it (`Refines.step`), which is proved method by method.
-/

namespace CrazyCode.Api

open Text Decimal Posix Profile Server

/-- The input of the API that a call is. -/
def Call.input (c : Call) : Input := ⟨c.listing, c.profile, ⟨c.method, c.target.text, c.body⟩⟩

/-- A step of the API that is a call with plain names. -/
def CallStep (root : Str) (top : Location) (s : State) (c : Call) (o : Response) (s' : State) :
    Prop :=
  c.target.Plain ∧ Step root top s c.input o s'

/-- The directories and files below the root are the entities and items that are stored. -/
structure Stores (top : Location) (fs : FileSystem) (a : Crud) : Prop where
  entities : ∀ entity, entity ∈ a.entities ↔ fs.node (top ++ [entity]) = some .directory
  items : ∀ entity id, fs.node (top ++ [entity, decimal id]) = (a.items entity id).map .file

/-- The files and the index of the API are what is stored. -/
structure Matches (top : Location) (s : State) (a : Crud) : Prop where
  stores : Stores top s.fs a
  keys : ∀ entity, entity ∈ a.entities ↔ s.pathCounts entity ≠ none
  ids : ∀ entity, ∀ id ∈ s.ids entity, a.items entity id ≠ none

/-- The relation between a state of the API and what is stored. -/
structure Refines (root : Str) (top : Location) (s : State) (a : Crud) : Prop where
  resolve : s.fs.resolve root = some top
  index : Indexed top s
  stored : Matches top s a

/-! ## Changes -/

section Changes

variable {top : Location} {fs : FileSystem} {a : Crud} {entity : Str}

/-- A directory that is made is an entity that is added. -/
theorem Stores.add (h : Stores top fs a) (hstore : Store top fs) (hentity : PlainName entity) :
    Stores top (fs.set (top ++ [entity]) (some .directory)) (a.add entity) where
  entities entity' := by
    by_cases he : entity' = entity
    · rw [he, set_entity_self hstore hentity]
      simp [Crud.add]
    · rw [FileSystem.set_node_of_ne (by simpa using he), ← h.entities]
      simp [Crud.add, he]
  items entity' id := by
    rw [FileSystem.set_node_of_ne (by simp)]
    exact h.items entity' id

/-- A file that is written or removed is an item that is replaced or removed. -/
theorem Stores.set (h : Stores top fs a) {id : ℤ} {v : Option Str}
    (hw : fs.Writable (top ++ [entity, decimal id])) :
    Stores top (fs.set (top ++ [entity, decimal id]) (v.map .file)) (a.set entity id v) where
  entities entity' := by
    rw [FileSystem.set_node_of_ne (by simp)]
    exact h.entities entity'
  items entity' id' := by
    by_cases he : entity' = entity ∧ id' = id
    · rw [he.1, he.2, FileSystem.set_node_self hw]
      simp [Crud.set]
    · rw [FileSystem.set_node_of_ne fun heq => he (item_inj.mp heq), h.items]
      simp [Crud.set, he]

end Changes

/-! ## The methods -/

section Methods

variable {root : Str} {top : Location} {s : State} {a : Crud} {entity name : Str}

/-- A plain name is one that a POST takes for an entity. -/
theorem entityName_of_plain (h : PlainName entity) : EntityName entity :=
  ⟨h.1, h.2.1, h.2.2.1, h.2.2.2.1⟩

/-- A file is an item that is stored. -/
theorem Refines.present (h : Refines root top s a) {id : ℤ} {content : Str}
    (hnode : s.fs.node (top ++ [entity, decimal id]) = some (.file content)) :
    a.items entity id = some content := by
  have hitem := h.stored.stores.items entity id
  rw [hnode] at hitem
  cases hcontent : a.items entity id with
  | none => simp [hcontent] at hitem
  | some content' =>
    rw [hcontent] at hitem
    simpa using hitem.symm

/-- Where there is no file, no item is stored. -/
theorem Refines.absent (h : Refines root top s a) (hnul : nul ∉ root)
    (hlookup : ∀ content,
      s.fs.lookup (root ++ '/' :: (entity ++ '/' :: name)) ≠ some (.file content)) :
    a.Absent entity name := by
  rintro id content ⟨rfl, hitem⟩
  have hnode : s.fs.node (top ++ [entity, decimal id]) = some (.file content) := by
    rw [h.stored.stores.items, hitem]
    rfl
  have hdir := s.fs.parent_directory (top ++ [entity]) (decimal id) (by
    rw [List.append_assoc, List.singleton_append, hnode]
    simp)
  exact hlookup content (FileSystem.lookup_eq_some.mpr
    ⟨_, h.index.store.resolve_item hnul h.resolve hdir id, hnode⟩)

/-- A POST picks an id that is free, and stores the bytes there. -/
theorem Refines.handlePost (h : Refines root top s a) (hnul : nul ∉ root)
    (hbounded : s.Bounded top) (hentity : PlainName entity) (body : Str) :
    ∃ id, 1 ≤ id ∧ a.items entity id = none ∧
      (handlePost root s entity body).1 = created (root ++ '/' :: entity) id ∧
      Matches top (handlePost root s entity body).2
        ((a.add entity).set entity id (some body)) := by
  obtain ⟨loc, -, hloc, hpost⟩ :=
    handlePost_store h.resolve h.index.store (entityName_of_plain hentity) body
  have hpath : nul ∉ root ++ '/' :: entity := by
    simp only [List.mem_append, List.mem_cons, not_or]
    exact ⟨hnul, by decide, hentity.2.2.2.2⟩
  obtain rfl := hloc hpath
  rw [if_neg hpath] at hpost
  have hnext := h.index.hasNext hbounded entity
  have hfree := h.index.nextId_free hnext
  have hfreeItem : a.items entity (nextId (s.ids entity)) = none := by
    have hitem := h.stored.stores.items entity (nextId (s.ids entity))
    rw [hfree] at hitem
    simpa using hitem.symm
  refine ⟨nextId (s.ids entity), one_le_nextId hnext, hfreeItem, by rw [hpost], ?_⟩
  rw [hpost]
  refine ⟨?_, fun entity' => ?_, fun entity' id hid => ?_⟩
  · -- The directory is there, and the file is new in it.
    have hw := (h.index.store.set_entity entity).writable_item
      (set_entity_self h.index.store hentity) (nextId (s.ids entity))
    rw [List.append_assoc, List.singleton_append]
    exact (h.stored.stores.add h.index.store hentity).set (v := some body) hw
  · by_cases he : entity' = entity
    · simp [Crud.add, Crud.set, he]
    · simpa [Crud.add, Crud.set, he, Function.update_of_ne he] using h.stored.keys entity'
  · by_cases he : entity' = entity
    · subst he
      rw [ids_update_self] at hid
      by_cases hnew : id = nextId (s.ids entity')
      · simp [Crud.set, hnew]
      · have hold : id ∈ s.ids entity' :=
          (List.mem_cons.mp ((perm_takeId _).mem_iff.mp hid)).resolve_left hnew
        simpa [Crud.set, Crud.add, hnew] using h.stored.ids entity' id hold
    · rw [ids_update_of_ne he] at hid
      simpa [Crud.set, Crud.add, he] using h.stored.ids entity' id hid

/-- A GET of an item reads the bytes that are stored. -/
theorem Refines.handleGet (h : Refines root top s a) (hnul : nul ∉ root)
    (hentity : PlainName entity) (hslash : '/' ∉ name) (hname : nul ∉ name) :
    (∃ id content, a.Present entity name id content ∧
      handleGet root s (entity ++ '/' :: name) = html 200 content) ∨
    a.Absent entity name ∧ handleGet root s (entity ++ '/' :: name) = badRequest := by
  rcases h.index.handleGet_eq h.resolve (entityName_of_plain hentity) hslash with
    ⟨hlookup, heq⟩ | ⟨id, content, hid, hnode, heq⟩
  · exact .inr ⟨h.absent hnul hlookup, heq⟩
  · rw [cstr_of_not_mem hname] at hid
    exact .inl ⟨id, content, ⟨hid, h.present hnode⟩, heq⟩

/-- A PUT replaces the bytes of an item. -/
theorem Refines.handlePut (h : Refines root top s a) (hnul : nul ∉ root)
    (hentity : PlainName entity) (hslash : '/' ∉ name) (hname : nul ∉ name) (body : Str) :
    (∃ id content, a.Present entity name id content ∧
      (handlePut root s (entity ++ '/' :: name) body).1 = html 200 body ∧
      Matches top (handlePut root s (entity ++ '/' :: name) body).2
        (a.set entity id (some body))) ∨
    a.Absent entity name ∧ handlePut root s (entity ++ '/' :: name) body = (badRequest, s) := by
  rcases h.index.handlePut_eq h.resolve (entityName_of_plain hentity) hslash body with
    ⟨hlookup, heq⟩ | ⟨id, content, hid, hnode, heq⟩
  · exact .inr ⟨h.absent hnul hlookup, heq⟩
  · rw [cstr_of_not_mem hname] at hid
    refine .inl ⟨id, content, ⟨hid, h.present hnode⟩, by rw [heq], ?_⟩
    rw [heq]
    refine ⟨h.stored.stores.set (v := some body) (FileSystem.writable_of_file hnode), h.stored.keys,
      fun entity' id' hid' => ?_⟩
    have hitem := h.stored.ids entity' id' hid'
    simp only [Crud.set]
    split
    · simp
    · exact hitem

/-- A DELETE removes an item. -/
theorem Refines.handleDelete (h : Refines root top s a) (hnul : nul ∉ root)
    (hentity : PlainName entity) (hslash : '/' ∉ name) (hname : nul ∉ name) :
    (∃ id content, a.Present entity name id content ∧
      (handleDelete root s (entity ++ '/' :: name)).1 = deleted ∧
      Matches top (handleDelete root s (entity ++ '/' :: name)).2 (a.set entity id none)) ∨
    a.Absent entity name ∧ handleDelete root s (entity ++ '/' :: name) = (badRequest, s) := by
  rcases h.index.handleDelete_eq h.resolve (entityName_of_plain hentity) hslash with
    ⟨hlookup, heq⟩ | ⟨id, content, hid, hnode, heq⟩
  · exact .inr ⟨h.absent hnul hlookup, heq⟩
  · rw [cstr_of_not_mem hname] at hid
    refine .inl ⟨id, content, ⟨hid, h.present hnode⟩, by rw [heq], ?_⟩
    rw [heq]
    refine ⟨h.stored.stores.set (v := none) (FileSystem.writable_of_file hnode), fun entity' => ?_,
      fun entity' id' hid' => ?_⟩
    · by_cases he : entity' = entity
      · -- The entity of a file has a list, and keeps it when the list is empty.
        have hmem := h.index.files entity id (by rw [hnode]; simp)
        have hkey : s.pathCounts entity ≠ none := fun hnone => by simp [State.ids, hnone] at hmem
        simpa [he, Crud.set] using (h.stored.keys entity).mpr hkey
      · simpa [Crud.set, Function.update_of_ne he] using h.stored.keys entity'
    · by_cases he : entity' = entity
      · subst he
        rw [ids_update_self] at hid'
        have hne : id' ≠ id := fun heq =>
          (List.Nodup.not_mem_erase (h.index.nodup entity')) (heq ▸ hid')
        simpa [Crud.set, hne] using h.stored.ids entity' id' (List.mem_of_mem_erase hid')
      · rw [ids_update_of_ne he] at hid'
        simpa [Crud.set, he] using h.stored.ids entity' id' hid'

/-- A GET of an entity lists its ids. -/
theorem Refines.handleList (h : Refines root top s a) (hnul : nul ∉ root)
    (hentity : PlainName entity) :
    (entity ∈ a.entities ∧ ∃ ids : List ℤ, ids.Nodup ∧
      (∀ id, id ∈ ids ↔ a.items entity id ≠ none) ∧
      handleList root s entity = html 200 (idsPage ids)) ∨
    entity ∉ a.entities ∧ handleList root s entity = badRequest := by
  have hresolve := FileSystem.resolve_child h.resolve h.index.store.top_directory
    hentity.2.2.2.1
  rw [if_neg hnul, cstr_of_not_mem hentity.2.2.2.2, climb_plain hentity] at hresolve
  have hisDirectory : s.fs.isDirectory (root ++ '/' :: entity) = true ↔ entity ∈ a.entities := by
    rw [h.stored.stores.entities]
    simp [FileSystem.isDirectory, FileSystem.lookup, hresolve]
  rw [Api.handleList, beforeSlash_of_not_mem hentity.2.2.2.1]
  by_cases hmem : entity ∈ a.entities
  · refine .inl ⟨hmem, s.ids entity, h.index.nodup entity, fun id => ?_, ?_⟩
    · refine ⟨h.stored.ids entity id, fun hitem => h.index.files entity id ?_⟩
      rw [h.stored.stores.items]
      simpa using hitem
    · obtain ⟨ids, hids⟩ := Option.ne_none_iff_exists'.mp ((h.stored.keys entity).mp hmem)
      simp [hisDirectory.mpr hmem, State.ids, hids]
  · refine .inr ⟨hmem, ?_⟩
    simp [hisDirectory, hmem]

/-- A request of a call is dispatched on what its target is for. -/
theorem handleRequest_call (root : Str) (s : State) {c : Call} (hplain : c.target.Plain) :
    handleRequest root c.profile s c.input.request =
      dispatch root c.profile.loginStatus s c.method
        (match c.target with
        | .entity dir => dir
        | .item dir name => dir ++ '/' :: name) c.body := by
  obtain ⟨listing, profile, method, target, body⟩ := c
  cases target with
  | entity dir => exact handleRequest_eq root profile s method hplain.1 body
  | item dir name => exact handleRequest_eq root profile s method (by simp) body

/-- A call for an entity is answered as it is to be. -/
theorem Refines.dispatch_entity (h : Refines root top s a) (hnul : nul ∉ root)
    (hbounded : s.Bounded top) (listing : List (List Str)) (profile : UserProfile) (method : Verb)
    (hentity : PlainName entity) (body : Str) :
    ∃ a', a.Step root ⟨listing, profile, method, .entity entity, body⟩
        (Api.dispatch root profile.loginStatus s method entity body).1 a' ∧
      Matches top (Api.dispatch root profile.loginStatus s method entity body).2 a' := by
  have hslash : '/' ∉ entity := hentity.2.2.2.1
  cases method with
  | post =>
    cases hlogin : profile.loginStatus with
    | false =>
      refine ⟨a, .inr ⟨hlogin, ?_⟩, ?_⟩ <;> simp [Api.dispatch, hslash, h.stored]
    | true =>
      obtain ⟨id, hid, hfree, hres, hmatches⟩ := h.handlePost hnul hbounded hentity body
      refine ⟨_, .inl ⟨hlogin, id, hid, hfree, ?_, rfl⟩, ?_⟩
      · simpa [Api.dispatch, hslash] using hres
      · simpa [Api.dispatch, hslash] using hmatches
  | get =>
    rcases h.handleList hnul hentity with ⟨hmem, ids, hnodup, hids, hres⟩ | ⟨hmem, hres⟩
    · refine ⟨a, .inl ⟨hmem, ids, hnodup, hids, ?_, rfl⟩, ?_⟩
      · simpa [Api.dispatch, hslash] using hres
      · simpa [Api.dispatch, hslash] using h.stored
    · refine ⟨a, .inr ⟨hmem, ?_, rfl⟩, ?_⟩
      · simpa [Api.dispatch, hslash] using hres
      · simpa [Api.dispatch, hslash] using h.stored
  | put | delete | other =>
    refine ⟨a, ⟨?_, rfl⟩, ?_⟩ <;> simp [Api.dispatch, hslash, h.stored]

/-- A call for a name in an entity is answered as it is to be. -/
theorem Refines.dispatch_item (h : Refines root top s a) (hnul : nul ∉ root)
    (listing : List (List Str)) (profile : UserProfile) (method : Verb) (hentity : PlainName entity)
    (hslash : '/' ∉ name) (hname : nul ∉ name) (body : Str) :
    ∃ a', a.Step root ⟨listing, profile, method, .item entity name, body⟩
        (Api.dispatch root profile.loginStatus s method (entity ++ '/' :: name) body).1 a' ∧
      Matches top
        (Api.dispatch root profile.loginStatus s method (entity ++ '/' :: name) body).2 a' := by
  -- Each handler answers for an item that is there or not, behind the check of the login.
  cases method with
  | post | other => refine ⟨a, ⟨?_, rfl⟩, ?_⟩ <;> simp [Api.dispatch, h.stored]
  | get =>
    rcases h.handleGet hnul hentity hslash hname with
      ⟨id, content, hpresent, hres⟩ | ⟨habsent, hres⟩
    · refine ⟨a, .inl ⟨id, content, hpresent, ?_, rfl⟩, ?_⟩
      · simpa [Api.dispatch] using hres
      · simpa [Api.dispatch] using h.stored
    · refine ⟨a, .inr ⟨habsent, ?_, rfl⟩, ?_⟩
      · simpa [Api.dispatch] using hres
      · simpa [Api.dispatch] using h.stored
  | put =>
    cases hlogin : profile.loginStatus with
    | false =>
      refine ⟨a, .inr ⟨.inl hlogin, ?_, rfl⟩, ?_⟩ <;> simp [Api.dispatch, h.stored]
    | true =>
      rcases h.handlePut hnul hentity hslash hname body with
        ⟨id, content, hpresent, hres, hmatches⟩ | ⟨habsent, hres⟩
      · refine ⟨_, .inl ⟨hlogin, id, content, hpresent, ?_, rfl⟩, ?_⟩
        · simpa [Api.dispatch] using hres
        · simpa [Api.dispatch] using hmatches
      · refine ⟨a, .inr ⟨.inr habsent, ?_, rfl⟩, ?_⟩ <;> simp [Api.dispatch, hres, h.stored]
  | delete =>
    cases hlogin : profile.loginStatus with
    | false =>
      refine ⟨a, .inr ⟨.inl hlogin, ?_, rfl⟩, ?_⟩ <;> simp [Api.dispatch, h.stored]
    | true =>
      rcases h.handleDelete hnul hentity hslash hname with
        ⟨id, content, hpresent, hres, hmatches⟩ | ⟨habsent, hres⟩
      · refine ⟨_, .inl ⟨hlogin, id, content, hpresent, ?_, rfl⟩, ?_⟩
        · simpa [Api.dispatch] using hres
        · simpa [Api.dispatch] using hmatches
      · refine ⟨a, .inr ⟨.inr habsent, ?_, rfl⟩, ?_⟩ <;> simp [Api.dispatch, hres, h.stored]

/-- A call is answered as it is to be, and what is stored behind it is what the files and the index
are. -/
theorem Refines.dispatch (h : Refines root top s a) (hnul : nul ∉ root)
    (hbounded : s.Bounded top) {c : Call} (hplain : c.target.Plain) :
    ∃ a', a.Step root c (handleRequest root c.profile s c.input.request).1 a' ∧
      Matches top (handleRequest root c.profile s c.input.request).2 a' := by
  rw [handleRequest_call root s hplain]
  obtain ⟨listing, profile, method, target, body⟩ := c
  cases target with
  | entity dir => exact h.dispatch_entity hnul hbounded listing profile method hplain body
  | item dir name =>
    obtain ⟨hdir, hslash, hname, -⟩ := hplain
    exact h.dispatch_item hnul listing profile method hdir hslash hname body

end Methods

/-! ## Runs -/

section Runs

variable {root : Str} {top : Location}

/-- The target of a call is not one that names no entity. -/
theorem Target.Plain.text_ne {t : Target} (h : t.Plain) {s : Str} (hs : ¬ PlainName s)
    (hslash : '/' ∉ s) : t.text ≠ "/api/".toList ++ s := fun heq => by
  cases t with
  | entity dir =>
    obtain rfl := List.append_cancel_left heq
    exact hs h
  | item dir name =>
    rw [← List.append_cancel_left heq] at hslash
    simp at hslash

/-- Nothing is below the root, and nothing is in the index. -/
structure Fresh (root : Str) (top : Location) (st : State) : Prop where
  resolve : st.fs.resolve root = some top
  directory : st.fs.node top = some .directory
  nothing : ∀ names, names ≠ [] → st.fs.node (top ++ names) = none
  index : ∀ entity, st.pathCounts entity = none

/-- At the start nothing is stored. -/
theorem Fresh.refines {st : State} (h : Fresh root top st) : Refines root top st Crud.empty := by
  have hids : ∀ entity, st.ids entity = [] := fun entity => by simp [State.ids, h.index]
  refine ⟨h.resolve,
    ⟨⟨h.directory, fun names n hne hn => ?_⟩, fun entity hkey => ?_, ?_, ?_, ?_, ?_⟩,
    ⟨⟨?_, ?_⟩, ?_, ?_⟩⟩
  · rw [h.nothing names hne] at hn
    cases hn
  · exact absurd (h.index entity) hkey
  · simp [hids]
  · simp [hids]
  · exact fun entity => inOrder_of_length_lt (by simp [hids])
  · exact fun entity id hnode => absurd (h.nothing _ (by simp)) hnode
  · simp [Crud.empty, h.nothing]
  · simp [Crud.empty, h.nothing]
  · simp [Crud.empty, h.index]
  · simp [hids]

/-- One call of the API is one call of what it is for. -/
theorem Refines.step (hnul : nul ∉ root) {s s' : State} {a : Crud} {c : Call} {o : Response}
    (h : Refines root top s a) (hstep : CallStep root top s c o s') :
    ∃ a', a.Step root c o a' ∧ Refines root top s' a' := by
  obtain ⟨hplain, hstep⟩ := hstep
  obtain ⟨a', hspec, hmatches⟩ := h.dispatch hnul hstep.bounded hplain
  have hserved := hstep.served
  rw [serve_eq h.resolve h.index.store hstep.listed, h.index.indexed_eq hstep.listed] at hserved
  have heq : handleRequest root c.profile s c.input.request = (o, s') := Except.ok.inj hserved
  rw [heq] at hspec hmatches
  exact ⟨a', hspec, hstep.resolve h.resolve, (hstep.of_indexed h.resolve h.index).1, hmatches⟩

/-- Every run from an empty root is one of what the API is for, with the same calls and answers, and
every further call is answered. -/
theorem crud_refines (hnul : nul ∉ root) {st : State} (hfresh : Fresh root top st)
    {tr : List (Call × Response)} {s : State} (hrun : Run (CallStep root top) st tr s) :
    (∃ a, Run (Crud.Step root) Crud.empty tr a) ∧
      ∀ c : Call, c.target.Plain → IsListing s.fs top c.listing → s.Bounded top →
        ∃ o s', CallStep root top s c o s' := by
  have hsimulate : ∀ s a c o s', Refines root top s a → CallStep root top s c o s' →
      ∃ a', Crud.Step root a c o a' ∧ Refines root top s' a' :=
    fun _ _ _ _ _ hs hstep => hs.step hnul hstep
  obtain ⟨a, habstract, h⟩ := Run.simulation _ hfresh.refines hsimulate hrun
  refine ⟨⟨a, habstract⟩, fun c hplain hlisting hbounded => ?_⟩
  exact ⟨_, _, hplain, hbounded, hplain.text_ne (s := ['.']) (by decide) (by decide),
    hplain.text_ne (s := ['.', '.']) (by decide) (by decide), hlisting,
    serve_eq h.resolve h.index.store hlisting c.profile c.input.request⟩

end Runs

/-- An empty root `/r`, and an empty index. -/
def emptyRoot : State := ⟨FileSystem.empty.set [['r']] (some .directory), fun _ => none⟩

/-- A POST to an entity, by a client that has logged in. -/
def postCall : Call := ⟨[], ⟨1, [], [], true⟩, .post, .entity "E".toList, "x".toList⟩

/-- The empty root is one. -/
theorem fresh_emptyRoot : Fresh "/r".toList [['r']] emptyRoot where
  resolve := by decide
  directory := by decide
  nothing names hne := by
    show (FileSystem.empty.set [['r']] (some .directory)).node ([['r']] ++ names) = none
    rw [FileSystem.set_node_of_ne (by simpa using hne)]
    rfl
  index _ := rfl

/-- Nothing is listed below it. -/
theorem isListing_emptyRoot : IsListing emptyRoot.fs [['r']] [] := by
  refine ⟨.nil, fun names => ?_⟩
  simp only [List.not_mem_nil, false_iff, not_and, not_not]
  exact fresh_emptyRoot.nothing names

/-- A run with one POST. -/
theorem crud_refines_post :
    (∃ a, Run (Crud.Step "/r".toList) Crud.empty [(postCall, created "/r/E".toList 1)] a) ∧
      ∀ c : Call, c.target.Plain →
        IsListing (handleRequest "/r".toList postCall.profile emptyRoot
          postCall.input.request).2.fs [['r']] c.listing →
        (handleRequest "/r".toList postCall.profile emptyRoot
          postCall.input.request).2.Bounded [['r']] →
        ∃ o s', CallStep "/r".toList [['r']] (handleRequest "/r".toList postCall.profile emptyRoot
          postCall.input.request).2 c o s' := by
  have hlisting := isListing_emptyRoot
  have hbounded : emptyRoot.Bounded [['r']] :=
    ⟨fun entity id hid => by simp [State.ids, emptyRoot] at hid,
      fun entity => fresh_emptyRoot.nothing _ (by simp)⟩
  have hserved := serve_eq fresh_emptyRoot.resolve fresh_emptyRoot.refines.index.store hlisting
    postCall.profile postCall.input.request
  have hanswer : (handleRequest "/r".toList postCall.profile emptyRoot postCall.input.request).1 =
      created "/r/E".toList 1 := by decide +kernel
  rw [← hanswer]
  exact crud_refines (by decide) fresh_emptyRoot (Run.nil.snoc (i := postCall)
    ⟨(by decide : PlainName "E".toList), hbounded, by decide, by decide, hlisting, hserved⟩)

end CrazyCode.Api
