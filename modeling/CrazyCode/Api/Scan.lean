import CrazyCode.Api.Entries

/-!
# The scan of a store

A `Store` is what an earlier run leaves below the root: directories of entities, with files that are
named by numerals. On a store the constructor does not throw, and what it does to the index does not
depend on the paths (`construct_eq`): the ids of each entity are put into its list, in the order in
which their files are listed (`listedIds`).

A scan changes nothing when the index has all ids of the store (`indexed_of_subset`), so only the
first handler of a server does any work.
-/

namespace CrazyCode.Api

open Text Decimal Posix Outcome Profile Server

/-- What stands below the root of a store, at the names on the way down to it. -/
inductive Fits : List Str → Node → Prop
  /-- The directory of an entity. -/
  | entity (name : Str) : Fits [name] .directory
  /-- A file of an entity. -/
  | item (entity : Str) {id : ℤ} (hid : 1 ≤ id ∧ id ≤ intMax) (content : Str) :
      Fits [entity, decimal id] (.file content)

/-- A directory with directories of entities in it, and these with files that are named by
positive numerals. -/
structure Store (top : Location) (fs : FileSystem) : Prop where
  top_directory : fs.node top = some .directory
  fits : ∀ names n, names ≠ [] → fs.node (top ++ names) = some n → Fits names n

/-- What stands in the directory of an entity is a file, named by a positive numeral. -/
theorem Fits.exists_item {entity name : Str} {n : Node} (h : Fits [entity, name] n) :
    ∃ id content, (1 ≤ id ∧ id ≤ intMax) ∧ name = decimal id ∧ n = .file content := by
  cases h with
  | item _ hid content => exact ⟨_, content, hid, rfl, rfl⟩

/-- A file of an entity that is named by a numeral has a positive id. -/
theorem Store.item_range {top : Location} {fs : FileSystem} (hstore : Store top fs) {entity : Str}
    {id : ℤ} (hnode : fs.node (top ++ [entity, decimal id]) ≠ none) : 1 ≤ id ∧ id ≤ intMax := by
  obtain ⟨n, hn⟩ := Option.ne_none_iff_exists'.mp hnode
  obtain ⟨id', -, hid, hname, -⟩ := (hstore.fits _ n (by simp) hn).exists_item
  rwa [← decimal_injective hname] at hid

/-- The ids of an entity, in the order in which its files are listed. -/
def listedIds (listing : List (List Str)) (entity : Str) : List ℤ :=
  listing.filterMap fun
    | [dir, name] => if dir = entity then (stoi name).toOption else none
    | _ => none

/-- The index in which the listed ids have been put. -/
def indexed (listing : List (List Str)) (pathCounts : PathCounts) : PathCounts := fun entity =>
  if listedIds listing entity = [] then pathCounts entity
  else some ((listedIds listing entity).foldl insertId ((pathCounts entity).getD []))

/-- The id that stands in the name of a file, behind which a zero byte may stand. -/
theorem stoi_name {id : ℤ} (hid : 1 ≤ id ∧ id ≤ intMax) {name : Str} (h : cstr name = decimal id) :
    stoi name = .ok id := by
  have hmin : intMin = -2147483648 := rfl
  exact stoi_of_cstr (by omega) hid.2 h

/-- The id that a file is named by. -/
theorem stoi_decimal_pos {id : ℤ} (hid : 1 ≤ id ∧ id ≤ intMax) : stoi (decimal id) = .ok id :=
  stoi_name hid (cstr_of_not_mem (plainName_decimal id).2.2.2.2)

/-! ## The constructor on a store -/

section

variable {fs : FileSystem} {root : Str} {top : Location}

/-- What is read off an entry of a store: the id of a file, which is put into the list of the entity
in whose directory the file is. -/
theorem Store.readId (hstore : Store top fs) (root : Str) {names : List Str} (hne : names ≠ [])
    (hnode : fs.node (top ++ names) ≠ none) :
    (∃ entity, names = [entity] ∧ Api.readId fs top names = none) ∨
      ∃ entity id, names = [entity, decimal id] ∧ stoi (decimal id) = .ok id ∧
        Api.readId fs top names = some (.ok id) ∧ entityName fs root names = entity := by
  obtain ⟨n, hn⟩ := Option.ne_none_iff_exists'.mp hnode
  cases hstore.fits names n hne hn with
  | entity name =>
    refine .inl ⟨name, rfl, ?_⟩
    rw [Api.readId, hn]
  | @item entity id hid content =>
    have hentity := @entityName_append fs root top [] entity (decimal id) hnode
    refine .inr ⟨entity, id, rfl, stoi_decimal_pos hid, ?_, hentity⟩
    refine (@readId_file fs top [entity] _ _ hn).trans ?_
    rw [if_pos (endsWithDigit_decimal id), stem_decimal, stoi_decimal_pos hid]

/-- The ids that are read off a store are those in the names of its files. -/
theorem Store.scannedIds_eq (hstore : Store top fs) {listing : List (List Str)}
    (hlisting : ∀ names ∈ listing, names ≠ [] ∧ fs.node (top ++ names) ≠ none) :
    scannedIds fs root top listing = listedIds listing := by
  funext entity
  refine List.filterMap_congr fun names hnames => ?_
  obtain ⟨hne, hnode⟩ := hlisting names hnames
  rcases hstore.readId root hne hnode with ⟨name, rfl, hread⟩ |
    ⟨dir, id, rfl, hstoi, hread, hentity⟩
  · rw [hread]
  · rw [hread, hentity]
    simp [hstoi, Except.toOption]

/-- The constructor on a store: the ids are put into the index in the order in which their files are
listed. -/
theorem construct_eq {st : State} (hroot : st.fs.resolve root = some top)
    (hstore : Store top st.fs) {listing : List (List Str)}
    (hlisting : IsListing st.fs top listing) :
    construct root listing st = .ok (indexed listing st.pathCounts) := by
  have hentry : ∀ names ∈ listing, names ≠ [] ∧ st.fs.node (top ++ names) ≠ none :=
    fun names hnames => (hlisting.2 names).mp hnames
  rw [construct_eq_ok_iff hroot hstore.top_directory, hstore.scannedIds_eq hentry]
  refine ⟨fun names hnames error hread => ?_, rfl⟩
  obtain ⟨hne, hnode⟩ := hentry names hnames
  -- What is read is nothing, or an id.
  rcases hstore.readId root hne hnode with ⟨name, -, hnone⟩ | ⟨dir, id, -, -, hid, -⟩
  · rw [hnone] at hread
    cases hread
  · rw [hid] at hread
    cases hread

/-- A request to a store: the constructor does not throw. -/
theorem serve_eq {st : State} (hroot : st.fs.resolve root = some top) (hstore : Store top st.fs)
    {listing : List (List Str)} (hlisting : IsListing st.fs top listing) (profile : UserProfile)
    (req : Request) :
    serve root listing profile st req =
      .ok (handleRequest root profile ⟨st.fs, indexed listing st.pathCounts⟩ req) := by
  rw [serve, construct_eq hroot hstore hlisting]

/-- The ids that are listed are those of the files. -/
theorem mem_listedIds (hstore : Store top fs) {listing : List (List Str)}
    (hlisting : IsListing fs top listing) {entity : Str} {id : ℤ} :
    id ∈ listedIds listing entity ↔
      (1 ≤ id ∧ id ≤ intMax) ∧ fs.node (top ++ [entity, decimal id]) ≠ none := by
  rw [listedIds, List.mem_filterMap]
  constructor
  · rintro ⟨names, hnames, hid⟩
    obtain ⟨hne, hnode⟩ := (hlisting.2 names).mp hnames
    obtain ⟨n, hn⟩ := Option.ne_none_iff_exists'.mp hnode
    cases hstore.fits names n hne hn with
    | entity name => simp at hid
    | item dir hrange content =>
      simp only [stoi_decimal_pos hrange, Except.toOption, Option.ite_none_right_eq_some,
        Option.some.injEq] at hid
      obtain ⟨rfl, rfl⟩ := hid
      exact ⟨hrange, hnode⟩
  · rintro ⟨hrange, hnode⟩
    refine ⟨_, (hlisting.2 _).mpr ⟨by simp, hnode⟩, ?_⟩
    simp [stoi_decimal_pos hrange, Except.toOption]

/-- A scan does not change a list that has all ids of its entity. -/
theorem indexed_entity_of_subset {listing : List (List Str)} {pathCounts : PathCounts}
    {entity : Str}
    (h : listedIds listing entity ⊆ (pathCounts entity).getD []) :
    indexed listing pathCounts entity = pathCounts entity := by
  rw [indexed]
  split
  · rfl
  · next hne =>
    rw [foldl_insertId_of_subset h]
    obtain ⟨id, hid⟩ := List.exists_mem_of_ne_nil _ hne
    have hmem := h hid
    cases hids : pathCounts entity with
    | none => simp [hids] at hmem
    | some ids => rfl

/-- A scan changes nothing when the index has all ids of the store. -/
theorem indexed_of_subset {listing : List (List Str)} {pathCounts : PathCounts}
    (h : ∀ entity, listedIds listing entity ⊆ (pathCounts entity).getD []) :
    indexed listing pathCounts = pathCounts :=
  funext fun entity => indexed_entity_of_subset (h entity)

end

end CrazyCode.Api
