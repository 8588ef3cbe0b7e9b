import CrazyCode.Api.Lists

/-!
# Runs of any requests

The weakest step of the API: a request of any kind is served, by a new handler, whose constructor
does not throw (`Served`). The files below the root are any, and so are the targets.

In every run the root stays a directory at its place (`rooted_of_run`), and the ids of the index are
those of `int` (`ints_of_run`). Nothing more is kept: a POST for `.` makes a file of the root
itself, and a sum of `getNextID` can wrap around.
-/

namespace CrazyCode.Api

open Text Decimal Posix Profile Server

/-- One request is handled, by a new handler. -/
structure Served (root : Str) (top : Location) (st : State) (i : Input) (o : Response)
    (st' : State) :
    Prop where
  listed : IsListing st.fs top i.listing
  served : serve root i.listing i.profile st i.request = .ok (o, st')

/-- The root is a directory. -/
structure Rooted (root : Str) (top : Location) (st : State) : Prop where
  resolve : st.fs.resolve root = some top
  directory : st.fs.node top = some .directory

/-- Ids that are those of `int`. -/
def Ints (ids : List ℤ) : Prop := ∀ id ∈ ids, intMin ≤ id ∧ id ≤ intMax

instance (ids : List ℤ) : Decidable (Ints ids) :=
  inferInstanceAs (Decidable (∀ id ∈ ids, _))

/-- The id that is picked is an `int`. -/
theorem nextId_mem_int (ids : List ℤ) : intMin ≤ nextId ids ∧ nextId ids ≤ intMax := by
  match ids with
  | [] => exact (by decide : intMin ≤ 1 ∧ 1 ≤ intMax)
  | [a] =>
    rw [nextId]
    split <;> decide
  | a :: b :: ids => exact wrap_mem _

/-- `getNextID` leaves `int`s. -/
theorem Ints.takeId {ids : List ℤ} (h : Ints ids) : Ints (takeId ids) := fun id hid => by
  rcases List.mem_cons.mp ((perm_takeId ids).mem_iff.mp hid) with rfl | hid
  · exact nextId_mem_int ids
  · exact h id hid

/-- The id that `getNextID` picks is in the list behind it. -/
theorem nextId_mem_takeId (ids : List ℤ) : nextId ids ∈ takeId ids :=
  (perm_takeId ids).mem_iff.mpr List.mem_cons_self

section

variable {root : Str} {top : Location} {s s' : State} {i : Input} {o : Response}

/-- The index that the constructor has made, and what the request comes to behind it. -/
theorem Served.exists_scan (h : Served root top s i o s') :
    ∃ pathCounts, construct root i.listing s = .ok pathCounts ∧
      handleRequest root i.profile ⟨s.fs, pathCounts⟩ i.request = (o, s') := by
  have hserved := h.served
  unfold serve at hserved
  split at hserved
  · next pathCounts hscan => exact ⟨pathCounts, hscan, Except.ok.inj hserved⟩
  · cases hserved

/-- What a step comes to, with the index that its constructor has made. -/
theorem Served.eq_handleRequest (h : Served root top s i o s') {pathCounts : PathCounts}
    (hscan : construct root i.listing s = .ok pathCounts) :
    handleRequest root i.profile ⟨s.fs, pathCounts⟩ i.request = (o, s') := by
  obtain ⟨pathCounts', hscan', heq⟩ := h.exists_scan
  obtain rfl := Except.ok.inj (hscan.symm.trans hscan')
  exact heq

/-- A request behind a scan is a step, with the answer that it comes to. -/
theorem served_of_scan (hlisting : IsListing s.fs top i.listing) {pathCounts : PathCounts}
    (hscan : construct root i.listing s = .ok pathCounts)
    (hanswer : (handleRequest root i.profile ⟨s.fs, pathCounts⟩ i.request).1 = o) :
    Served root top s i o (handleRequest root i.profile ⟨s.fs, pathCounts⟩ i.request).2 := by
  refine ⟨hlisting, ?_⟩
  rw [serve, hscan]
  exact congrArg Except.ok (Prod.ext hanswer rfl)

/-- A request leaves the root where it is. -/
theorem Rooted.step (h : Rooted root top s) (hstep : Served root top s i o s') :
    Rooted root top s' := by
  obtain ⟨pathCounts, -, heq⟩ := hstep.exists_scan
  have hresolve := handleRequest_resolve root ⟨s.fs, pathCounts⟩ h.resolve i.profile i.request
  have hdirectory := @handleRequest_directory ⟨s.fs, pathCounts⟩ top root h.directory i.profile
    i.request
  rw [heq] at hresolve hdirectory
  exact ⟨hresolve, hdirectory⟩

/-- The root of a run stays where it is. -/
theorem rooted_of_run {st : State} (hroot : Rooted root top st) {tr : List (Input × Response)}
    (hrun : Run (Served root top) st tr s) : Rooted root top s :=
  hrun.invariant (fun _ s => Rooted root top s) hroot fun _ _ _ _ _ _ h hstep => h.step hstep

/-- A list that is filled with ids that are read has `int`s, since `stoi` reads nothing else. -/
theorem ints_filled {fs : FileSystem} {pathCounts : PathCounts} {entity : Str}
    (h : Ints ((pathCounts entity).getD [])) (listing : List (List Str)) :
    Ints ((filled (scannedIds fs root top listing) pathCounts entity).getD []) := by
  intro id hid
  rcases mem_filled.mp hid with hold | hnew
  · exact h id hold
  · obtain ⟨names, -, hread, -⟩ := mem_scannedIds.mp hnew
    obtain ⟨-, name, -, -, -, -, hstoi⟩ := readId_eq_some.mp hread
    exact stoi_mem hstoi

/-- A scan leaves `int`s. -/
theorem ints_scan (hroot : Rooted root top s) {listing : List (List Str)} {pathCounts : PathCounts}
    (hscan : construct root listing s = .ok pathCounts) {entity : Str} (h : Ints (s.ids entity)) :
    Ints (State.ids ⟨s.fs, pathCounts⟩ entity) := by
  obtain ⟨-, rfl⟩ := (construct_eq_ok_iff hroot.resolve hroot.directory).mp hscan
  exact ints_filled h listing

/-- A request leaves `int`s. -/
theorem ints_step (hroot : Rooted root top s) (hstep : Served root top s i o s')
    (h : ∀ entity, Ints (s.ids entity)) (entity : Str) : Ints (s'.ids entity) := by
  obtain ⟨pathCounts, hscan, heq⟩ := hstep.exists_scan
  have hscanned := ints_scan hroot hscan (h entity)
  have hids := handleRequest_ids root ⟨s.fs, pathCounts⟩ i.profile i.request entity
  rw [heq] at hids
  rcases hids with hsame | ⟨-, -, -, htake⟩ | ⟨id, herase⟩
  · rw [hsame]
    exact hscanned
  · rw [htake]
    exact hscanned.takeId
  · rw [herase]
    exact fun id' hid => hscanned id' (List.erase_subset hid)

/-- In every run from an empty index the ids are those of `int`. -/
theorem ints_of_run {st : State} (hroot : Rooted root top st)
    (hempty : ∀ entity, st.pathCounts entity = none) {tr : List (Input × Response)}
    (hrun : Run (Served root top) st tr s) (entity : Str) : Ints (s.ids entity) := by
  have hinv : Rooted root top s ∧ ∀ entity, Ints (s.ids entity) :=
    hrun.invariant (fun _ s => Rooted root top s ∧ ∀ entity, Ints (s.ids entity))
      ⟨hroot, fun entity id hid => by simp [State.ids, hempty] at hid⟩
      fun _ _ _ _ _ _ h hstep => ⟨h.1.step hstep, ints_step h.1 hstep h.2⟩
  exact hinv.2 entity

end

end CrazyCode.Api
