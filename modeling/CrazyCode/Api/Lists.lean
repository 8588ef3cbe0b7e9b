import CrazyCode.Api.Runs

/-!
# The lists of ids over a run

What a request does to the list of an entity does not depend on the files: a POST puts an id into
the list of its entity, a DELETE removes one, and no other request changes a list
(`handleRequest_ids`). In a run from any store, in which no sum of `getNextID` overflows, the files
stay a store, and the ids positive (`counted_of_run`). This needs no order of the lists.
-/

namespace CrazyCode.Api

open Text Decimal Posix Profile Server

/-! ## What a request does to a list -/

section Requests

variable (root : Str) (st : State) (directory : Str)

/-- A POST puts an id into the list of its entity, or changes no list. -/
theorem handlePost_ids (body : Str) (entity : Str) :
    (handlePost root st directory body).2.ids entity = st.ids entity ∨
      entity = directory ∧
        (handlePost root st directory body).2.ids entity = takeId (st.ids entity) := by
  cases hdirectory : (if st.fs.pathExists (root ++ '/' :: directory) then some st.fs
    else st.fs.createDirectory (root ++ '/' :: directory)) with
  | none =>
    rw [handlePost_eq_bad hdirectory]
    exact .inl rfl
  | some fs =>
    rw [handlePost_eq hdirectory]
    by_cases he : entity = directory
    · subst he
      exact .inr ⟨rfl, ids_update_self _ _ _ _⟩
    · exact .inl (ids_update_of_ne he _ _ _)

/-- A DELETE removes an id from one list, or changes no list. -/
theorem handleDelete_ids (entity : Str) :
    (handleDelete root st directory).2.ids entity = st.ids entity ∨
      ∃ id, (handleDelete root st directory).2.ids entity = (st.ids entity).erase id := by
  rw [handleDelete_eq]
  split
  · split
    · exact .inl rfl
    · next id _ =>
      split
      · exact .inl rfl
      · next ids hids =>
        dsimp only
        split
        · exact .inl rfl
        · by_cases he : entity = beforeSlash directory
          · subst he
            refine .inr ⟨id, ?_⟩
            rw [ids_update_self, State.ids, hids, Option.getD_some]
          · exact .inl (ids_update_of_ne he _ _ _)
  · exact .inl rfl

/-- A PUT changes no list. -/
theorem handlePut_ids (body : Str) (entity : Str) :
    (handlePut root st directory body).2.ids entity = st.ids entity := by
  rw [handlePut_eq]
  split
  · split <;> rfl
  · rfl

/-- A request puts an id into a list, if it is a POST to its entity, removes one, or leaves the list
as it is. -/
theorem handleRequest_ids (profile : UserProfile) (req : Request) (entity : Str) :
    (handleRequest root profile st req).2.ids entity = st.ids entity ∨
      req.method = .post ∧ profile.loginStatus = true ∧ req.target = "/api/".toList ++ entity ∧
        (handleRequest root profile st req).2.ids entity = takeId (st.ids entity) ∨
      ∃ id, (handleRequest root profile st req).2.ids entity = (st.ids entity).erase id := by
  rcases handleRequest_inversion root profile st req with ⟨heq, -⟩ |
    ⟨directory, -, htarget, hlogin, ⟨hpost, -, heq⟩ | ⟨-, -, heq⟩ | ⟨-, -, heq⟩⟩ <;> rw [heq]
  · exact .inl rfl
  · rcases handlePost_ids root st directory req.body entity with h | ⟨rfl, h⟩
    · exact .inl h
    · exact .inr (.inl ⟨hpost, hlogin, htarget, h⟩)
  · exact .inl (handlePut_ids root st directory req.body entity)
  · exact (handleDelete_ids root st directory entity).imp_right .inr

variable {root st} {top : Location}

/-! ## What a request does to the files -/

/-- A PUT leaves a store. -/
theorem Store.handlePut (hstore : Store top st.fs) (directory body : Str) :
    Store top (handlePut root st directory body).2.fs := by
  rw [Api.handlePut_eq]
  split
  · next content hlookup =>
    obtain ⟨loc, hloc, hfile⟩ := FileSystem.lookup_eq_some.mp hlookup
    split
    · exact hstore
    · rw [FileSystem.writeFile_eq hloc]
      exact hstore.overwrite hfile body
  · exact hstore

/-- A DELETE leaves a store. -/
theorem Store.handleDelete (hstore : Store top st.fs) (directory : Str) :
    Store top (handleDelete root st directory).2.fs := by
  rw [Api.handleDelete_eq]
  split
  · next content hlookup =>
    obtain ⟨loc, hloc, hfile⟩ := FileSystem.lookup_eq_some.mp hlookup
    rw [FileSystem.removeFile_eq hloc hfile]
    split
    · exact hstore
    · split
      · exact hstore
      · dsimp only
        split <;> exact hstore.remove loc
  · exact hstore

/-- A request leaves a store, if it is not a POST for `.` or `..`, or one whose sum overflows. -/
theorem Store.handleRequest (hstore : Store top st.fs) (hroot : st.fs.resolve root = some top)
    (profile : UserProfile) {req : Request}
    (hnext : ∀ entity, req.method = .post → profile.loginStatus = true →
      req.target = "/api/".toList ++ entity → HasNext (st.ids entity))
    (hdot : req.method = .post → req.target ≠ "/api/.".toList ∧ req.target ≠ "/api/..".toList) :
    Store top (handleRequest root profile st req).2.fs := by
  rcases handleRequest_inversion root profile st req with ⟨heq, -⟩ |
    ⟨directory, hne, htarget, hlogin, ⟨hpost, hslash, heq⟩ | ⟨-, -, heq⟩ | ⟨-, -, heq⟩⟩ <;> rw [heq]
  · exact hstore
  · have hentity := entityName_of_target htarget (hdot hpost) hne hslash
    exact hstore.handlePost hroot hentity (hnext directory hpost hlogin htarget) req.body
  · exact hstore.handlePut directory req.body
  · exact hstore.handleDelete directory

end Requests

/-! ## Runs -/

/-- One request is handled, by a new handler. A POST is not for `.` or `..`, and the sum of
`getNextID` does not overflow. -/
structure CountedStep (root : Str) (top : Location) (st : State) (i : Input) (o : Response)
    (st' : State) : Prop where
  entity : i.request.method = .post →
    i.request.target ≠ "/api/.".toList ∧ i.request.target ≠ "/api/..".toList
  next : ∀ entity, i.request.method = .post → i.profile.loginStatus = true →
    i.request.target = "/api/".toList ++ entity →
    2 ≤ (State.ids ⟨st.fs, indexed i.listing st.pathCounts⟩ entity).length →
    ∀ e, FirstRun (State.ids ⟨st.fs, indexed i.listing st.pathCounts⟩ entity) e → e < intMax
  listed : IsListing st.fs top i.listing
  served : serve root i.listing i.profile st i.request = .ok (o, st')

/-- A store, with lists of positive ids. -/
structure Counted (root : Str) (top : Location) (st : State) : Prop where
  resolve : st.fs.resolve root = some top
  store : Store top st.fs
  positive : ∀ entity, Positive (st.ids entity)

section Runs

variable {root : Str} {top : Location} {s s' : State} {i : Input} {o : Response}

/-- A store and an empty index. -/
theorem Counted.of_empty {st : State} (hroot : st.fs.resolve root = some top)
    (hstore : Store top st.fs) (hempty : ∀ entity, st.pathCounts entity = none) :
    Counted root top st :=
  ⟨hroot, hstore, fun entity id hid => by simp [State.ids, hempty] at hid⟩

/-- A scan leaves positive ids. -/
theorem Counted.scan (h : Counted root top s) {listing : List (List Str)}
    (hlisting : IsListing s.fs top listing) :
    Counted root top ⟨s.fs, indexed listing s.pathCounts⟩ :=
  ⟨h.resolve, h.store, fun entity => h.store.positive_indexed hlisting (h.positive entity)⟩

/-- A request behind a scan leaves a store, and positive ids. -/
theorem CountedStep.keeps (hstep : CountedStep root top s i o s')
    (h : Counted root top ⟨s.fs, indexed i.listing s.pathCounts⟩) : Counted root top s' := by
  have hserved := hstep.served
  have hroot : s.fs.resolve root = some top := h.resolve
  have hstore : Store top s.fs := h.store
  rw [serve_eq hroot hstore hstep.listed] at hserved
  have hnext : ∀ entity, i.request.method = .post → i.profile.loginStatus = true →
      i.request.target = "/api/".toList ++ entity →
      HasNext (State.ids ⟨s.fs, indexed i.listing s.pathCounts⟩ entity) :=
    fun entity hpost hlogin htarget => ⟨h.positive entity, hstep.next entity hpost hlogin htarget⟩
  have hkept := h.store.handleRequest h.resolve i.profile hnext hstep.entity
  have hresolve := handleRequest_resolve root _ h.resolve i.profile i.request
  have hids := handleRequest_ids root ⟨s.fs, indexed i.listing s.pathCounts⟩ i.profile i.request
  rw [Except.ok.inj hserved] at hkept hresolve hids
  refine ⟨hresolve, hkept, fun entity => ?_⟩
  rcases hids entity with heq | ⟨hpost, hlogin, htarget, heq⟩ | ⟨id, heq⟩ <;>
    rw [show s'.ids entity = _ from heq]
  · exact h.positive entity
  · exact positive_takeId (hnext entity hpost hlogin htarget)
  · exact (h.positive entity).subset List.erase_subset

/-- As long as no id gets to `INT_MAX`, no sum overflows. -/
theorem Step.counted (hstep : Step root top s i o s') (h : Counted root top s) :
    CountedStep root top s i o s' := by
  refine ⟨fun _ => ⟨hstep.not_dot, hstep.not_dots⟩, fun entity _ _ _ _ e he => ?_, hstep.listed,
    hstep.served⟩
  have hmem := he.mem
  rw [ids_indexed, mem_foldl_insertId] at hmem
  rcases hmem with hid | hid
  · exact hstep.bounded.1 entity e hid
  · obtain ⟨hrange, hnode⟩ := (mem_listedIds h.store hstep.listed).mp hid
    refine hrange.2.lt_of_ne ?_
    rintro rfl
    exact hnode (hstep.bounded.2 entity)

/-- In every run from a store and an empty index the files stay a store, and the ids are
positive. -/
theorem counted_of_run {st : State} (hroot : st.fs.resolve root = some top)
    (hstore : Store top st.fs) (hempty : ∀ entity, st.pathCounts entity = none)
    {tr : List (Input × Response)} (hrun : Run (CountedStep root top) st tr s) :
    Counted root top s :=
  hrun.invariant (fun _ s => Counted root top s) (.of_empty hroot hstore hempty)
    fun _ _ _ _ _ _ h hstep => hstep.keeps (h.scan hstep.listed)

end Runs

end CrazyCode.Api
