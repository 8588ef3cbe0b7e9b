import CrazyCode.Api.Index

/-!
# The scan of any files

What the constructor makes of the files below the root, whatever their names are. It passes over a
directory, and over a file whose name does not end with a digit. Off any other file it reads an id,
which is what `stoi` makes of the stem of its name (`readId`), and puts it into the list of its
entity, which is the name in front of its own in its absolute path (`entityName`).

The constructor throws exactly if `stoi` throws for one of these files, and otherwise it fills the
lists with the ids that it reads, in the order of the listing (`construct_eq_ok_iff`).
-/

namespace CrazyCode.Api

open Text Decimal Posix Outcome

/-! ## Filling an index -/

/-- The index with more ids for each entity, put into its list one after the other. -/
def filled (new : Str → List ℤ) (pathCounts : PathCounts) : PathCounts := fun entity =>
  if new entity = [] then pathCounts entity
  else some ((new entity).foldl insertId ((pathCounts entity).getD []))

/-- The list of an entity in an index that is filled. -/
theorem getD_filled (new : Str → List ℤ) (pathCounts : PathCounts) (entity : Str) :
    (filled new pathCounts entity).getD [] =
      (new entity).foldl insertId ((pathCounts entity).getD []) := by
  unfold filled
  split
  · next hnil => rw [hnil, List.foldl_nil]
  · rfl

/-- The ids of an index that is filled are those that it had and those that are new. -/
theorem mem_filled {new : Str → List ℤ} {pathCounts : PathCounts} {entity : Str} {id : ℤ} :
    id ∈ (filled new pathCounts entity).getD [] ↔
      id ∈ (pathCounts entity).getD [] ∨ id ∈ new entity := by
  rw [getD_filled, mem_foldl_insertId]

/-- An index is filled in two parts. -/
theorem filled_append (new new' : Str → List ℤ) (pathCounts : PathCounts) :
    filled (fun entity => new entity ++ new' entity) pathCounts =
      filled new' (filled new pathCounts) := by
  funext entity
  by_cases hnew : new entity = []
  · simp [filled, hnew]
  · by_cases hnew' : new' entity = []
    · simp [filled, hnew, hnew']
    · simp [filled, hnew, hnew']

/-- Without new ids an index stays as it is. -/
theorem filled_nil (pathCounts : PathCounts) : filled (fun _ => []) pathCounts = pathCounts := by
  funext entity
  simp [filled]

/-- One id for one entity. -/
theorem filled_single (entity : Str) (id : ℤ) (pathCounts : PathCounts) :
    filled (fun e => if entity = e then [id] else []) pathCounts =
      Function.update pathCounts entity (some (insertId ((pathCounts entity).getD []) id)) := by
  funext e
  by_cases he : entity = e
  · subst he
    simp [filled]
  · simp [filled, he, Function.update_of_ne (Ne.symm he)]

/-! ## What is read off an entry -/

/-- `isdigit` of the last byte of a name. -/
def endsWithDigit (name : Str) : Bool := name.getLast?.any Char.isDigit

/-- A numeral ends with a digit. -/
theorem endsWithDigit_decimal (id : ℤ) : endsWithDigit (decimal id) = true := by
  rw [endsWithDigit, List.getLast?_eq_some_getLast (decimal_ne_nil id)]
  exact isDigit_getLast_decimal id

/-- What the constructor reads off an entry: nothing off a directory, and off a file whose name does
not end with a digit; and what `stoi` comes to for any other. -/
def readId (fs : FileSystem) (top : Location) (names : List Str) : Option (Except StoiError ℤ) :=
  match fs.node (top ++ names) with
  | some (.file _) =>
    if endsWithDigit (names.getLast?.getD []) then some (stoi (stem (names.getLast?.getD [])))
    else none
  | _ => none

/-- The entity of an entry: the name in front of its own, in its absolute path. -/
def entityName (fs : FileSystem) (root : Str) (names : List Str) : Str :=
  behindSlash (beforeSlash (filePath fs root names))

/-- It is the same from the same working directory. -/
theorem entityName_of_cwd {fs fs' : FileSystem} (h : fs'.cwd = fs.cwd) (root : Str)
    (names : List Str) : entityName fs' root names = entityName fs root names := by
  simp only [entityName, filePath, absolute, h]

/-- The ids that are read for an entity, in the order of the listing. -/
def scannedIds (fs : FileSystem) (root : Str) (top : Location) (listing : List (List Str))
    (entity : Str) : List ℤ :=
  listing.filterMap fun names =>
    match readId fs top names with
    | some (.ok id) => if entityName fs root names = entity then some id else none
    | _ => none

/-- The absolute path of an entry ends with its name. -/
theorem filePath_concat (fs : FileSystem) (root : Str) (parents : List Str) (name : Str) :
    filePath fs root (parents ++ [name]) = joinPath (filePath fs root parents) name := by
  simp [filePath]

section

variable {fs : FileSystem} {root : Str} {top : Location}

/-- What is read off a file. -/
theorem readId_file {parents : List Str} {name content : Str}
    (h : fs.node (top ++ (parents ++ [name])) = some (.file content)) :
    readId fs top (parents ++ [name]) =
      if endsWithDigit name = true then some (stoi (stem name)) else none := by
  simp [readId, h]

/-- An entry off which something is read is a file whose name ends with a digit. -/
theorem readId_eq_some {names : List Str} {result : Except StoiError ℤ} :
    readId fs top names = some result ↔ ∃ parents name content, names = parents ++ [name] ∧
      fs.node (top ++ names) = some (.file content) ∧ endsWithDigit name = true ∧
      stoi (stem name) = result := by
  constructor
  · intro h
    unfold readId at h
    split at h
    · next content hnode =>
      split at h
      · next hdigit =>
        rcases List.eq_nil_or_concat' names with rfl | ⟨parents, name, rfl⟩
        · cases hdigit
        · have hlast : (parents ++ [name]).getLast?.getD [] = name := by simp
          rw [hlast] at h hdigit
          exact ⟨parents, name, content, rfl, hnode, hdigit, Option.some.inj h⟩
      · cases h
    · cases h
  · rintro ⟨parents, name, content, rfl, hnode, hdigit, rfl⟩
    exact (readId_file hnode).trans (if_pos hdigit)

/-- The name of an entry is one that a directory entry can have. -/
theorem plainName_entry {parents : List Str} {name : Str}
    (h : fs.node (top ++ (parents ++ [name])) ≠ none) : PlainName name :=
  fs.plain_name (top ++ parents) name (by rwa [List.append_assoc])

/-- The entity of an entry in a directory is the name of that. -/
theorem entityName_append {parents : List Str} {entity name : Str}
    (h : fs.node (top ++ (parents ++ [entity, name])) ≠ none) :
    entityName fs root (parents ++ [entity, name]) = entity := by
  have hname : PlainName name :=
    fs.plain_name (top ++ (parents ++ [entity])) name (by simpa using h)
  have hdir : fs.node (top ++ (parents ++ [entity])) = some .directory :=
    fs.parent_directory _ name (by simpa using h)
  have hentity : PlainName entity := plainName_entry (by rw [hdir]; simp)
  -- The source cuts the name and then the entity off the path, at its last two slashes.
  have hpath : filePath fs root (parents ++ [entity, name]) =
      joinPath (joinPath (filePath fs root parents) entity) name := by
    rw [← filePath_concat, ← filePath_concat, List.append_assoc]
    rfl
  have hne : joinPath (filePath fs root parents) entity ≠ [] := fun hnil => by
    have := getLast?_joinPath (filePath fs root parents) hentity.1
    rw [hnil] at this
    exact hentity.1 (List.getLast?_eq_none_iff.mp this.symm)
  have hlast : (joinPath (filePath fs root parents) entity).getLast? ≠ some '/' := fun hslash => by
    rw [getLast?_joinPath _ hentity.1] at hslash
    exact hentity.2.2.2.1 (List.mem_of_getLast? hslash)
  rw [entityName, hpath, beforeSlash_joinPath hne hlast hname.2.2.2.1,
    behindSlash_joinPath _ hentity.2.2.2.1]

/-- The ids that are read for an entity, from the entries of a listing. -/
theorem mem_scannedIds {listing : List (List Str)} {entity : Str} {id : ℤ} :
    id ∈ scannedIds fs root top listing entity ↔ ∃ names ∈ listing,
      readId fs top names = some (.ok id) ∧ entityName fs root names = entity := by
  rw [scannedIds, List.mem_filterMap]
  refine exists_congr fun names => and_congr_right fun _ => ?_
  split
  · next found hread => simp [hread, and_comm]
  · next hread =>
    simp only [reduceCtorEq, false_iff, not_and]
    exact fun h => absurd h (hread id)

/-- Entries are read one after the other. -/
theorem scannedIds_cons (names : List Str) (listing : List (List Str)) (entity : Str) :
    scannedIds fs root top (names :: listing) entity =
      scannedIds fs root top [names] entity ++ scannedIds fs root top listing entity := by
  rw [scannedIds, ← List.singleton_append, List.filterMap_append]
  rfl

/-- The index is filled with the ids of one entry, and then with those of the others. -/
theorem filled_scannedIds_cons (names : List Str) (listing : List (List Str))
    (pathCounts : PathCounts) :
    filled (scannedIds fs root top (names :: listing)) pathCounts =
      filled (scannedIds fs root top listing)
        (filled (scannedIds fs root top [names]) pathCounts) := by
  rw [← filled_append]
  exact congrArg (filled · pathCounts) (funext fun entity => scannedIds_cons names listing entity)

/-! ## The constructor -/

/-- An entry off which nothing is read leaves the index as it is. -/
theorem filled_of_readId_none {names : List Str} (h : readId fs top names = none)
    (pathCounts : PathCounts) :
    filled (scannedIds fs root top [names]) pathCounts = pathCounts := by
  have hnil : scannedIds fs root top [names] = fun _ => [] := by
    funext entity
    simp [scannedIds, h]
  rw [hnil, filled_nil]

/-- An entry off which an id is read puts it into the list of its entity. -/
theorem filled_of_readId_ok {names : List Str} {id : ℤ} (h : readId fs top names = some (.ok id))
    (pathCounts : PathCounts) :
    filled (scannedIds fs root top [names]) pathCounts =
      Function.update pathCounts (entityName fs root names)
        (some (insertId ((pathCounts (entityName fs root names)).getD []) id)) := by
  have hsingle : scannedIds fs root top [names] =
      fun entity => if entityName fs root names = entity then [id] else [] := by
    funext entity
    simp only [scannedIds, List.filterMap_cons, h, List.filterMap_nil]
    split_ifs <;> rfl
  rw [hsingle, filled_single]

/-- Nothing is read off what is no file. -/
theorem readId_eq_none {names : List Str}
    (h : ∀ content, fs.node (top ++ names) ≠ some (.file content)) :
    readId fs top names = none := by
  unfold readId
  split
  · next content hfile => exact absurd hfile (h content)
  · rfl

/-- The last byte of the path of an entry is that of its name. -/
theorem endsWithDigit_filePath (parents : List Str) {name : Str} (hname : PlainName name) :
    ((filePath fs root (parents ++ [name])).getLast?.any Char.isDigit) = endsWithDigit name := by
  rw [filePath_concat, getLast?_joinPath _ hname.1, endsWithDigit]

/-- Behind the last slash of the path of an entry stands its name. -/
theorem behindSlash_filePath (parents : List Str) {name : Str} (hname : PlainName name) :
    behindSlash (filePath fs root (parents ++ [name])) = name := by
  rw [filePath_concat, behindSlash_joinPath _ hname.2.2.2.1]

/-- The constructor on one entry below a directory. -/
theorem scanFile_eq_readId (hdir : fs.node top = some .directory) (pathCounts : PathCounts)
    (names : List Str) :
    scanFile fs root top pathCounts names =
      match readId fs top names with
      | some (.error error) => .error (.stoi error)
      | _ => .ok (filled (scannedIds fs root top [names]) pathCounts) := by
  unfold scanFile
  split
  · next content hnode =>
    obtain ⟨parents, name, rfl⟩ := (List.eq_nil_or_concat' names).resolve_left fun hnil => by
      rw [hnil, List.append_nil, hdir] at hnode
      cases hnode
    have hname : PlainName name := plainName_entry (by rw [hnode]; simp)
    have hread := readId_file hnode
    simp only [endsWithDigit_filePath parents hname, behindSlash_filePath parents hname]
    by_cases hdigit : endsWithDigit name = true
    · rw [if_pos hdigit] at hread ⊢
      rw [hread]
      cases hstoi : stoi (stem name) with
      | error error => rfl
      | ok id =>
        rw [hstoi] at hread
        exact congrArg Except.ok (filled_of_readId_ok hread pathCounts).symm
    · rw [if_neg hdigit] at hread ⊢
      rw [hread, filled_of_readId_none hread]
  · next hnode =>
    have hnone : readId fs top names = none := readId_eq_none hnode
    rw [hnone, filled_of_readId_none hnone]

/-- The constructor over some entries. -/
theorem foldlM_scanFile_eq_ok (hdir : fs.node top = some .directory) {listing : List (List Str)}
    {pathCounts pathCounts' : PathCounts} :
    listing.foldlM (scanFile fs root top) pathCounts = .ok pathCounts' ↔
      (∀ names ∈ listing, ∀ error, readId fs top names ≠ some (.error error)) ∧
        pathCounts' = filled (scannedIds fs root top listing) pathCounts := by
  induction listing generalizing pathCounts with
  | nil =>
    have hnil : scannedIds fs root top [] = fun _ => [] := rfl
    simp [hnil, filled_nil, pure, Except.pure, eq_comm]
  | cons names listing ih =>
    rw [List.foldlM_cons, scanFile_eq_readId hdir, List.forall_mem_cons,
      filled_scannedIds_cons names listing]
    split
    · next error hread =>
      rw [error_bind]
      simp [hread]
    · next hread =>
      rw [ok_bind, ih]
      exact ⟨fun ⟨hall, heq⟩ => ⟨⟨hread, hall⟩, heq⟩, fun ⟨⟨_, hall⟩, heq⟩ => ⟨hall, heq⟩⟩

/-- The constructor throws exactly if `stoi` throws for an entry, and otherwise it fills the index
with the ids that it reads. -/
theorem construct_eq_ok_iff {st : State} (hroot : st.fs.resolve root = some top)
    (hdir : st.fs.node top = some .directory) {listing : List (List Str)}
    {pathCounts : PathCounts} :
    construct root listing st = .ok pathCounts ↔
      (∀ names ∈ listing, ∀ error, readId st.fs top names ≠ some (.error error)) ∧
        pathCounts = filled (scannedIds st.fs root top listing) st.pathCounts := by
  rw [construct, hroot]
  simp only [hdir, if_true]
  exact foldlM_scanFile_eq_ok hdir

/-- The constructor does not throw when each entry is passed over or has an id. -/
theorem construct_of_isOk {st : State} (hroot : st.fs.resolve root = some top)
    (hdir : st.fs.node top = some .directory) {listing : List (List Str)}
    (h : ∀ names ∈ listing, (readId st.fs top names).all Except.isOk = true) :
    construct root listing st =
      .ok (filled (scannedIds st.fs root top listing) st.pathCounts) := by
  refine (construct_eq_ok_iff hroot hdir).mpr ⟨fun names hnames error herror => ?_, rfl⟩
  have hok := h names hnames
  rw [herror] at hok
  cases hok

end

end CrazyCode.Api
