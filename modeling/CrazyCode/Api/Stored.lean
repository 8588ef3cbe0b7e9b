import CrazyCode.Api.Refinement
import CrazyCode.Api.Served

/-!
# What a POST has stored

A POST is answered 201 with an id whether or not the stream for its file opens. Behind the answer
the file is there, and a GET of it is answered with the body of the POST, exactly if the stream
opens (`stored_iff_opens`).

It does when the path of the entity is no file, and the path of the id no directory; and if a zero
byte ends the path of the entity, which hides the id, when that path is a file (`opens_iff`). In a
run neither goes without saying: a POST for `.` makes a file of the root itself, to which another
POST then comes as to an entity (`not_stored`).
-/

namespace CrazyCode.Api

open Text Decimal Posix Profile Server

/-- The body of a POST is in the file of its id, and a GET of that is answered with it. -/
def Stored (root : Str) (top : Location) (st : State) (entity : Str) (id : ℤ) (body : Str) : Prop :=
  st.fs.readFile (root ++ '/' :: (entity ++ '/' :: decimal id)) = some body ∧
    ∀ listing, IsListing st.fs top listing → ∀ profile content, ∃ st',
      serve root listing profile st
        ⟨.get, "/api/".toList ++ (entity ++ '/' :: decimal id), content⟩ = .ok (html 200 body, st')

/-- The path of an entity is no file, and that of its next id no directory; and if a zero byte ends
the path of the entity, it is a file. -/
def CanStore (root : Str) (st : State) (entity : Str) : Prop :=
  if nul ∈ root ++ '/' :: entity then st.fs.isRegularFile (root ++ '/' :: entity) = true
  else st.fs.isRegularFile (root ++ '/' :: entity) = false ∧
    st.fs.isDirectory (root ++ '/' :: entity ++ '/' :: decimal (nextId (st.ids entity))) = false

/-- The same for a file of any id. -/
def CanWrite (root : Str) (fs : FileSystem) (entity : Str) (id : ℤ) : Prop :=
  if nul ∈ root ++ '/' :: entity then fs.isRegularFile (root ++ '/' :: entity) = true
  else fs.isRegularFile (root ++ '/' :: entity) = false ∧
    fs.isDirectory (root ++ '/' :: entity ++ '/' :: decimal id) = false

instance (root : Str) (fs : FileSystem) (entity : Str) (id : ℤ) :
    Decidable (CanWrite root fs entity id) := inferInstanceAs (Decidable (ite _ _ _))

section

variable {root entity : Str} {top : Location} {st : State} {fs : FileSystem}

/-- What the check of its directory comes to in a POST: the path of the entity names a directory
behind it, unless it names a file, and what is in the directory is as before. -/
theorem post_node (h : (if st.fs.pathExists (root ++ '/' :: entity) then some st.fs
      else st.fs.createDirectory (root ++ '/' :: entity)) = some fs) {loc : Location}
    (hloc : st.fs.resolve (root ++ '/' :: entity) = some loc) :
    fs.resolve (root ++ '/' :: entity) = some loc ∧
      (fs.node loc = some .directory ↔ ¬ ∃ content, st.fs.node loc = some (.file content)) ∧
      ∀ name, fs.node (loc ++ [name]) = st.fs.node (loc ++ [name]) := by
  split at h
  · next hexists =>
    obtain rfl := Option.some.inj h
    obtain ⟨n, hn⟩ := Option.isSome_iff_exists.mp hexists
    rw [FileSystem.lookup_eq hloc] at hn
    refine ⟨hloc, ?_, fun _ => rfl⟩
    cases n <;> simp [hn]
  · obtain ⟨loc', hloc', hw, hnone, rfl⟩ := FileSystem.createDirectory_eq_some h
    obtain rfl := Option.some.inj (hloc.symm.trans hloc')
    refine ⟨FileSystem.resolve_set hloc _ _, ?_, fun _ => FileSystem.set_node_of_ne (by simp)⟩
    simp [FileSystem.set_node_self hw, hnone]

/-- The stream for the file of an id opens exactly if the path of the entity is no file and that of
the id no directory, or if the path of the entity is a file that a zero byte ends. -/
theorem opens_iff (hroot : st.fs.resolve root = some top) (hdir : st.fs.node top = some .directory)
    (hslash : '/' ∉ entity)
    (h : (if st.fs.pathExists (root ++ '/' :: entity) then some st.fs
      else st.fs.createDirectory (root ++ '/' :: entity)) = some fs) (id : ℤ) :
    fs.Opens (root ++ '/' :: entity ++ '/' :: decimal id) ↔ CanWrite root st.fs entity id := by
  have hloc := FileSystem.resolve_child hroot hdir hslash
  generalize (if nul ∈ root then top else climb top (cstr entity)) = loc at hloc
  obtain ⟨hloc', hnode, hchild⟩ := post_node h hloc
  have hname : PlainName (decimal id) := plainName_decimal _
  unfold CanWrite FileSystem.Opens
  rw [← Bool.not_eq_true, ← Bool.not_eq_true, FileSystem.isRegularFile_iff,
    FileSystem.isDirectory_iff, FileSystem.lookup_eq hloc]
  split
  · -- The id is hidden, and the stream is for the path of the entity.
    next hnul =>
    rw [FileSystem.resolve_append_of_mem hnul, hloc']
    simp [hnode]
  · next hnul =>
    -- What is a directory has its parent for one.
    have hparent : st.fs.node (loc ++ [decimal id]) = some .directory →
        st.fs.node loc = some .directory := fun hid =>
      st.fs.parent_directory _ _ (by rw [hid]; simp)
    have hlookup : st.fs.lookup (root ++ '/' :: entity ++ '/' :: decimal id) = some .directory ↔
        st.fs.node (loc ++ [decimal id]) = some .directory := by
      rw [FileSystem.lookup, FileSystem.resolve_name hnul hloc hname]
      split
      · rfl
      · next hst => exact iff_of_false (by simp) fun hid => hst (hparent hid)
    rw [FileSystem.resolve_name hnul hloc' hname, hlookup, ← hnode]
    by_cases hfs : fs.node loc = some .directory
    · simp [hfs, hchild]
    · simp [hfs]

/-- A directory that is made for a POST is no file: what is a file behind it was the same before. -/
theorem post_directory_file (h : (if st.fs.pathExists (root ++ '/' :: entity) then some st.fs
      else st.fs.createDirectory (root ++ '/' :: entity)) = some fs) {loc : Location}
      {content : Str}
    (hfile : fs.node loc = some (.file content)) : st.fs.node loc = some (.file content) := by
  split at h
  · exact Option.some.inj h ▸ hfile
  · obtain ⟨new, -, -, -, rfl⟩ := FileSystem.createDirectory_eq_some h
    rcases FileSystem.set_node_cases st.fs new (some .directory) loc with hsame | ⟨-, hset⟩
    · exact hsame ▸ hfile
    · rw [hset] at hfile
      cases hfile

/-- When the file of an id is written below a path that names something, what is a file behind it
was one before, or has the numeral of the id for a name. -/
theorem writeFile_file {path : Str} (hpath : fs.pathExists path = true) {id : ℤ}
    {body content : Str} {loc' : Location}
    (hfile : (fs.writeFile (path ++ '/' :: decimal id) body).node loc' = some (.file content)) :
    (∃ content', fs.node loc' = some (.file content')) ∨
      ∃ parent, loc' = parent ++ [decimal id] := by
  obtain ⟨n, hn⟩ := Option.isSome_iff_exists.mp hpath
  obtain ⟨loc, hloc, hnode⟩ := FileSystem.lookup_eq_some.mp hn
  cases hid : fs.resolve (path ++ '/' :: decimal id) with
  | none =>
    rw [FileSystem.writeFile, hid] at hfile
    exact .inl ⟨content, hfile⟩
  | some l =>
    rw [FileSystem.writeFile_eq hid] at hfile
    rcases FileSystem.set_node_cases fs l (some (.file body)) loc' with hsame | ⟨rfl, -⟩
    · exact .inl ⟨content, hsame ▸ hfile⟩
    · by_cases hnul : nul ∈ path
      · -- The id is hidden, and what is written is the file of the path, if it is one.
        rw [FileSystem.resolve_append_of_mem hnul, hloc] at hid
        obtain rfl := Option.some.inj hid
        cases n with
        | file content' => exact .inl ⟨content', hnode⟩
        | directory =>
          rw [FileSystem.set_directory hnode] at hfile
          cases hfile
      · rw [FileSystem.resolve_name hnul hloc (plainName_decimal id)] at hid
        split at hid
        · exact .inr ⟨loc, (Option.some.inj hid).symm⟩
        · cases hid

/-- The files of two ids of a path are at two locations, where one of them is there. -/
theorem resolve_item_ne {path : Str} (hnul : nul ∉ path) (hpath : fs.pathExists path = true)
    {id id' : ℤ} (hne : id ≠ id') {content : Str}
    (hfile : fs.readFile (path ++ '/' :: decimal id') = some content) :
    fs.resolve (path ++ '/' :: decimal id) ≠ fs.resolve (path ++ '/' :: decimal id') := by
  obtain ⟨n, hn⟩ := Option.isSome_iff_exists.mp hpath
  obtain ⟨loc, hloc, -⟩ := FileSystem.lookup_eq_some.mp hn
  obtain ⟨loc', hloc', -⟩ := FileSystem.lookup_eq_some.mp (FileSystem.readFile_eq_some.mp hfile)
  rw [FileSystem.resolve_name hnul hloc (plainName_decimal id')] at hloc' ⊢
  rw [FileSystem.resolve_name hnul hloc (plainName_decimal id)]
  obtain ⟨hdir, -⟩ := Option.ite_none_right_eq_some.mp hloc'
  rw [if_pos hdir, if_pos hdir]
  intro heq
  have hname := List.append_cancel_left (Option.some.inj heq)
  exact hne (decimal_injective (List.singleton_inj.mp hname))

/-- The directory of its entity is there behind the check of a POST, or something else is. -/
theorem post_exists (h : (if st.fs.pathExists (root ++ '/' :: entity) then some st.fs
      else st.fs.createDirectory (root ++ '/' :: entity)) = some fs) :
    fs.pathExists (root ++ '/' :: entity) = true := by
  split at h
  · next hexists => exact Option.some.inj h ▸ hexists
  · obtain ⟨loc, hloc, hw, -, rfl⟩ := FileSystem.createDirectory_eq_some h
    rw [FileSystem.pathExists, FileSystem.lookup_eq (FileSystem.resolve_set hloc _ _),
      FileSystem.set_node_self hw]
    rfl

/-- The check of the directory leaves the root where it is. -/
theorem Rooted.check (hroot : Rooted root top st)
    (h : (if st.fs.pathExists (root ++ '/' :: entity) then some st.fs
      else st.fs.createDirectory (root ++ '/' :: entity)) = some fs) (pathCounts : PathCounts) :
    Rooted root top ⟨fs, pathCounts⟩ := by
  split at h
  · obtain rfl := Option.some.inj h
    exact ⟨hroot.resolve, hroot.directory⟩
  · obtain ⟨loc, -, -, -, rfl⟩ := FileSystem.createDirectory_eq_some h
    exact ⟨FileSystem.resolve_set hroot.resolve _ _, FileSystem.set_directory hroot.directory⟩

/-- It leaves the working directory. -/
theorem post_cwd (h : (if st.fs.pathExists (root ++ '/' :: entity) then some st.fs
      else st.fs.createDirectory (root ++ '/' :: entity)) = some fs) : fs.cwd = st.fs.cwd := by
  split at h
  · rw [Option.some.inj h]
  · obtain ⟨loc, -, -, -, rfl⟩ := FileSystem.createDirectory_eq_some h
    exact FileSystem.set_cwd _ _ _

/-- What the constructor reads off an entry when the file of an id is written, it read before, or it
reads that id. -/
theorem readId_writeFile {path : Str} (hpath : fs.pathExists path = true) {id : ℤ}
    (hid : intMin ≤ id ∧ id ≤ intMax) {body : Str} {names : List Str} {result : Except StoiError ℤ}
    (hread : readId (fs.writeFile (path ++ '/' :: decimal id) body) top names = some result) :
    readId fs top names = some result ∨ result = .ok id := by
  obtain ⟨parents, name, content, rfl, hfile, hdigit, hstoi⟩ := readId_eq_some.mp hread
  rcases writeFile_file hpath hfile with ⟨content', hfile'⟩ | ⟨parent, heq⟩
  · exact .inl (readId_eq_some.mpr ⟨parents, name, content', rfl, hfile', hdigit, hstoi⟩)
  · rw [← List.append_assoc] at heq
    obtain ⟨-, hname⟩ := List.append_inj' heq rfl
    rw [List.singleton_inj.mp hname, stem_decimal, stoi_decimal hid.1 hid.2] at hstoi
    exact .inr hstoi.symm

/-- What it reads behind the check of the directory, it read before. -/
theorem readId_directory (h : (if st.fs.pathExists (root ++ '/' :: entity) then some st.fs
      else st.fs.createDirectory (root ++ '/' :: entity)) = some fs) {names : List Str}
    {result : Except StoiError ℤ} (hread : readId fs top names = some result) :
    readId st.fs top names = some result := by
  obtain ⟨parents, name, content, rfl, hfile, hdigit, hstoi⟩ := readId_eq_some.mp hread
  exact readId_eq_some.mpr
    ⟨parents, name, content, rfl, post_directory_file h hfile, hdigit, hstoi⟩

/-- The constructor does not throw behind a POST for an entry for which it did not throw before: the
numeral of an `int` is read. -/
theorem readId_post
    (h : (if st.fs.pathExists (root ++ '/' :: entity) then some st.fs
      else st.fs.createDirectory (root ++ '/' :: entity)) = some fs) {id : ℤ}
    (hid : intMin ≤ id ∧ id ≤ intMax) {body : Str} {names : List Str} {error : StoiError}
    (hread : readId (fs.writeFile (root ++ '/' :: entity ++ '/' :: decimal id) body) top names =
      some (.error error)) :
    readId st.fs top names = some (.error error) := by
  rcases readId_writeFile (post_exists h) hid hread with hold | hnew
  · exact readId_directory h hold
  · cases hnew

/-- A GET of a file whose id is in the list is answered with its bytes. -/
theorem handleGet_file {id : ℤ} (hid : intMin ≤ id ∧ id ≤ intMax) (hmem : id ∈ st.ids entity)
    {body : Str}
    (hfile : st.fs.readFile (root ++ '/' :: (entity ++ '/' :: decimal id)) = some body) :
    handleGet root st (entity ++ '/' :: decimal id) = html 200 body := by
  have hslash : '/' ∉ decimal id := not_mem_decimal (by decide) (by decide) id
  obtain ⟨ids, hids⟩ : ∃ ids, st.pathCounts entity = some ids := by
    refine Option.ne_none_iff_exists'.mp fun hnone => ?_
    simp [State.ids, hnone] at hmem
  rw [State.ids, hids, Option.getD_some] at hmem
  rw [handleGet_eq, FileSystem.readFile_eq_some.mp hfile, behindSlash_append _ hslash,
    beforeSlash_append _ hslash, stoi_decimal hid.1 hid.2, hids]
  exact if_neg (not_not.mpr hmem)

/-- A GET of it is answered so by a new handler, whose constructor only fills the list. -/
theorem serve_get (hroot : Rooted root top st) {listing : List (List Str)}
    (hreads : ∀ names ∈ listing, ∀ error, readId st.fs top names ≠ some (.error error)) {id : ℤ}
    (hid : intMin ≤ id ∧ id ≤ intMax) (hmem : id ∈ st.ids entity) {body : Str}
    (hfile : st.fs.readFile (root ++ '/' :: (entity ++ '/' :: decimal id)) = some body)
    (profile : UserProfile) (content : Str) :
    ∃ st', serve root listing profile st
      ⟨.get, "/api/".toList ++ (entity ++ '/' :: decimal id), content⟩ =
        .ok (html 200 body, st') := by
  have hscan := (construct_eq_ok_iff hroot.resolve hroot.directory).mpr ⟨hreads, rfl⟩
  have hmem' : id ∈
      State.ids ⟨st.fs, filled (scannedIds st.fs root top listing) st.pathCounts⟩ entity :=
    mem_filled.mpr (.inl hmem)
  rw [serve, hscan]
  refine ⟨_, congrArg Except.ok (Prod.ext ?_ rfl)⟩
  dsimp only
  rw [handleRequest_eq _ _ _ _ (by simp), dispatch, if_pos (by simp)]
  exact handleGet_file hid hmem' hfile

/-- Behind a POST its body is stored exactly if the stream opens. -/
theorem stored_iff_opens (hroot : Rooted root top st)
    {listing : List (List Str)} (hlisting : IsListing st.fs top listing)
    (hreads : ∀ names ∈ listing, ∀ error, readId st.fs top names ≠ some (.error error))
    (h : (if st.fs.pathExists (root ++ '/' :: entity) then some st.fs
      else st.fs.createDirectory (root ++ '/' :: entity)) = some fs) (body : Str) :
    Stored root top (handlePost root st entity body).2 entity (nextId (st.ids entity)) body ↔
      fs.Opens (root ++ '/' :: entity ++ '/' :: decimal (nextId (st.ids entity))) := by
  have hid := nextId_mem_int (st.ids entity)
  have hroot' : Rooted root top (handlePost root st entity body).2 :=
    ⟨handlePost_resolve root hroot.resolve entity body,
      handlePost_keeps (P := fun fs => fs.node top = some .directory)
        (fun _ _ _ hdir => FileSystem.set_directory hdir) root hroot.directory entity body⟩
  have hmem : nextId (st.ids entity) ∈ (handlePost root st entity body).2.ids entity := by
    rw [handlePost_eq h]
    exact (ids_update_self _ _ _ _).symm ▸ nextId_mem_takeId _
  have hfs : (handlePost root st entity body).2.fs =
      fs.writeFile (root ++ '/' :: entity ++ '/' :: decimal (nextId (st.ids entity))) body := by
    rw [handlePost_eq h]
    rfl
  have hpath : root ++ '/' :: (entity ++ '/' :: decimal (nextId (st.ids entity))) =
      root ++ '/' :: entity ++ '/' :: decimal (nextId (st.ids entity)) := by simp
  have hread : (handlePost root st entity body).2.fs.readFile
      (root ++ '/' :: (entity ++ '/' :: decimal (nextId (st.ids entity)))) = some body ↔
      fs.Opens (root ++ '/' :: entity ++ '/' :: decimal (nextId (st.ids entity))) := by
    rw [hfs, hpath]
    exact FileSystem.readFile_writeFile_iff
  refine ⟨fun hstored => hread.mp hstored.1, fun hopens => ⟨hread.mpr hopens, ?_⟩⟩
  intro listing' _ profile content
  refine serve_get hroot' (fun names _ error herror => ?_) hid hmem (hread.mpr hopens) profile
    content
  -- What is no file of the POST was scanned before.
  rw [hfs] at herror
  have hold := readId_post h hid herror
  obtain ⟨parents, name, content', rfl, hnode, -⟩ := readId_eq_some.mp hold
  exact hreads _ ((hlisting.2 _).mpr ⟨by simp, by rw [hnode]; simp⟩) error hold

/-- A POST that is answered 201. -/
theorem handleRequest_created {profile : UserProfile} {req : Request} (hmethod : req.method = .post)
    (htarget : req.target = "/api/".toList ++ entity)
    (hstatus : (handleRequest root profile st req).1.status = 201) :
    '/' ∉ entity ∧ handleRequest root profile st req = handlePost root st entity req.body ∧
      ∃ fs, (if st.fs.pathExists (root ++ '/' :: entity) then some st.fs
        else st.fs.createDirectory (root ++ '/' :: entity)) = some fs := by
  have hbad : badRequest.status ≠ 201 := by decide
  rcases handleRequest_inversion root profile st req with ⟨-, hres⟩ |
    ⟨directory, -, htarget', -, ⟨-, hslash, heq⟩ | ⟨hput, -, -⟩ | ⟨hdelete, -, -⟩⟩
  · rw [hres hmethod] at hstatus
    exact absurd hstatus hbad
  · obtain rfl := List.append_cancel_left (htarget.symm.trans htarget')
    refine ⟨hslash, heq, Option.ne_none_iff_exists'.mp fun hnone => ?_⟩
    rw [heq, handlePost_eq_bad hnone] at hstatus
    exact absurd hstatus hbad
  · rw [hmethod] at hput
    cases hput
  · rw [hmethod] at hdelete
    cases hdelete

/-- Wherever a run of requests has come to, with a root that is a directory, the body of a POST that
is answered 201 is stored under the id of the answer exactly if it can be. -/
theorem stored_of_run_iff {s s' : State} {i : Input} {o : Response}
    (hroot : st.fs.resolve root = some top) (hdir : st.fs.node top = some .directory)
    {tr : List (Input × Response)} (hrun : Run (Served root top) st tr s)
    (hstep : Served root top s i o s') (hmethod : i.request.method = .post)
    (htarget : i.request.target = "/api/".toList ++ entity) (hstatus : o.status = 201)
    {pathCounts : PathCounts} (hscan : construct root i.listing s = .ok pathCounts) :
    (∃ id, o = created (root ++ '/' :: entity) id ∧ Stored root top s' entity id i.request.body) ↔
      CanStore root ⟨s.fs, pathCounts⟩ entity := by
  have hrooted := rooted_of_run ⟨hroot, hdir⟩ hrun
  obtain ⟨hreads, -⟩ := (construct_eq_ok_iff hrooted.resolve hrooted.directory).mp hscan
  have heq := hstep.eq_handleRequest hscan
  have hstatus' : (handleRequest root i.profile ⟨s.fs, pathCounts⟩ i.request).1.status = 201 := by
    rw [heq]
    exact hstatus
  obtain ⟨hslash, hpost, fs', hfs⟩ := handleRequest_created hmethod htarget hstatus'
  rw [hpost] at heq
  have hanswer : o =
      created (root ++ '/' :: entity) (nextId (State.ids ⟨s.fs, pathCounts⟩ entity)) := by
    rw [handlePost_eq hfs] at heq
    exact (congrArg Prod.fst heq).symm
  have hstate : s' = (handlePost root ⟨s.fs, pathCounts⟩ entity i.request.body).2 := by rw [heq]
  have hready : Rooted root top ⟨s.fs, pathCounts⟩ := ⟨hrooted.resolve, hrooted.directory⟩
  have hopens : fs'.Opens (root ++ '/' :: entity ++ '/' ::
      decimal (nextId (State.ids ⟨s.fs, pathCounts⟩ entity))) ↔
      CanStore root ⟨s.fs, pathCounts⟩ entity :=
    opens_iff hready.resolve hready.directory hslash hfs _
  rw [← hopens, ← stored_iff_opens hready hstep.listed hreads hfs i.request.body, hstate]
  constructor
  · rintro ⟨id, hid, hstored⟩
    rwa [← created_injective _ (hid.symm.trans hanswer)]
  · exact fun hstored => ⟨_, hanswer, hstored⟩

end

/-- The first POST to an empty root. -/
theorem stored_of_run_post :
    (∃ id, created "/r/E".toList 1 = created ("/r".toList ++ '/' :: "E".toList) id ∧
      Stored "/r".toList [['r']] (handleRequest "/r".toList loggedIn
        ⟨emptyRoot.fs, indexed [] emptyRoot.pathCounts⟩ ⟨.post, "/api/E".toList, "x".toList⟩).2
        "E".toList id "x".toList) ↔
      CanStore "/r".toList ⟨emptyRoot.fs, indexed [] emptyRoot.pathCounts⟩ "E".toList := by
  have hstore := fresh_emptyRoot.refines.index.store
  have hscan := construct_eq fresh_emptyRoot.resolve hstore isListing_emptyRoot
  exact stored_of_run_iff (i := ⟨[], loggedIn, ⟨.post, "/api/E".toList, "x".toList⟩⟩)
    fresh_emptyRoot.resolve fresh_emptyRoot.directory .nil
    (served_of_scan isListing_emptyRoot hscan (by decide +kernel)) rfl rfl rfl hscan

/-- What a POST for `.` makes of an empty root. -/
def dotPosted : State :=
  (handleRequest "/r".toList loggedIn ⟨emptyRoot.fs, indexed [] emptyRoot.pathCounts⟩
    ⟨.post, "/api/.".toList, "x".toList⟩).2

/-- It is a file of the root itself. -/
theorem isListing_dotPosted : IsListing dotPosted.fs [['r']] [[['1']]] :=
  have hw : emptyRoot.fs.Writable ([['r']] ++ [['1']]) := by decide
  isListing_emptyRoot.cons (by simp) hw (by decide) (.file "x".toList)

/-- The index behind it: the constructor takes the name of the root for an entity. -/
def dotCounts : PathCounts :=
  filled (scannedIds dotPosted.fs "/r".toList [['r']] [[['1']]]) dotPosted.pathCounts

/-- The constructor reads the id of the file. -/
theorem construct_dotPosted : construct "/r".toList [[['1']]] dotPosted = .ok dotCounts := by
  have hroot : dotPosted.fs.resolve "/r".toList = some [['r']] :=
    handleRequest_resolve "/r".toList ⟨emptyRoot.fs, indexed [] emptyRoot.pathCounts⟩
      fresh_emptyRoot.resolve loggedIn _
  exact construct_of_isOk hroot (by decide +kernel) (by decide +kernel)

/-- Behind a POST for `.` another one comes to a file as to an entity, and its body is lost. -/
theorem not_stored : ¬ ∀ (root : Str) (top : Location) (st s s' : State)
    (tr : List (Input × Response)) (i : Input) (o : Response) (entity : Str), Fresh root top st →
    (∀ e ∈ tr, e.1.profile.loginStatus = true) → Run (Served root top) st tr s →
    Served root top s i o s' → i.profile.loginStatus = true → i.request.method = .post →
    i.request.target = "/api/".toList ++ entity → o.status = 201 →
    ∃ id, o = created (root ++ '/' :: entity) id ∧ Stored root top s' entity id i.request.body := by
  intro h
  have hstore := fresh_emptyRoot.refines.index.store
  have hdot : Served "/r".toList [['r']] emptyRoot
      ⟨[], loggedIn, ⟨.post, "/api/.".toList, "x".toList⟩⟩ (created "/r/.".toList 1) dotPosted :=
    served_of_scan isListing_emptyRoot
      (construct_eq fresh_emptyRoot.resolve hstore isListing_emptyRoot) (by decide +kernel)
  have hpost : Served "/r".toList [['r']] dotPosted
      ⟨[[['1']]], loggedIn, ⟨.post, "/api/1".toList, "y".toList⟩⟩ (created "/r/1".toList 1)
      (handleRequest "/r".toList loggedIn ⟨dotPosted.fs, dotCounts⟩
        ⟨.post, "/api/1".toList, "y".toList⟩).2 :=
    served_of_scan isListing_dotPosted construct_dotPosted (by decide +kernel)
  obtain ⟨id, hid, hread, -⟩ := h _ _ _ _ _ _ _ _ ['1'] fresh_emptyRoot (by simp [loggedIn])
    (.snoc .nil hdot) hpost rfl rfl rfl rfl
  obtain rfl := created_injective _ hid
  exact absurd hread (by decide +kernel)

end CrazyCode.Api
