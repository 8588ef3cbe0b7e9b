import CrazyCode.Api.Served

/-!
# What a request does to the files

The paths of the API can lead out of its root, but what a request does there is little. It
overwrites or removes a file that is there, and only one whose name `stoi` reads as a number;
everything else that it does to a store is below the root (`Store.effect`). So a file with another
name is kept, whatever the target (`serve_keeps_named`).
-/

namespace CrazyCode.Api

open Text Decimal Posix Profile Server

/-- The name of a file is not one that `stoi` reads. -/
def Named (loc : Location) : Prop := ∀ name ∈ loc.getLast?, ∀ id, stoi name ≠ .ok id

/-- Below a directory nothing is changed, and all directories stay. -/
def SameBelow (top : Location) (fs fs' : FileSystem) : Prop :=
  ∀ names, fs'.node (top ++ names) = fs.node (top ++ names)

/-- One file is overwritten or removed. -/
inductive Replaces (fs : FileSystem) : FileSystem → Prop
  | intro {loc : Location} {content : Str} (body : Option Str) :
      fs.node loc = some (.file content) → ¬ Named loc →
      Replaces fs (fs.set loc (body.map .file))

section

variable {root : Str} {top : Location} {st : State} {directory : Str}

/-- A path that names a file, with a number as its last component, names a file that is not
`Named`. -/
theorem not_named {path content : Str} {loc : Location} {id : ℤ} (hnul : nul ∉ path)
    (hslash : '/' ∈ path) (hid : stoi (behindSlash path) = .ok id)
    (hloc : st.fs.resolve path = some loc) (hfile : st.fs.node loc = some (.file content)) :
    ¬ Named loc := by
  obtain ⟨before, name, rfl, hname⟩ := exists_slash hslash
  rw [behindSlash_append _ hname] at hid
  simp only [List.mem_append, List.mem_cons, not_or] at hnul
  have hlast := FileSystem.getLast?_of_resolve hnul.1 hnul.2.2 hname hloc (by rw [hfile]; simp)
  exact fun h => h name hlast id hid

/-- What stands behind the last slash of a target stands behind that of the path. -/
theorem behindSlash_path (root : Str) (hslash : '/' ∈ directory) :
    behindSlash (root ++ '/' :: directory) = behindSlash directory := by
  obtain ⟨before, name, rfl, hname⟩ := exists_slash hslash
  have hpath : root ++ '/' :: (before ++ '/' :: name) = (root ++ '/' :: before) ++ '/' :: name := by
    simp
  rw [hpath, behindSlash_append _ hname, behindSlash_append _ hname]

/-- A PUT replaces a file, or changes nothing. -/
theorem handlePut_replaces (st : State) (hnul : nul ∉ root ++ '/' :: directory)
    (hslash : '/' ∈ directory)
    (body : Str) :
    (handlePut root st directory body).2.fs = st.fs ∨
      Replaces st.fs (handlePut root st directory body).2.fs := by
  rw [handlePut_eq]
  split
  · next content hlookup =>
    obtain ⟨loc, hloc, hfile⟩ := FileSystem.lookup_eq_some.mp hlookup
    cases hid : stoi (behindSlash directory) with
    | error _ => exact .inl rfl
    | ok id =>
      right
      rw [FileSystem.writeFile_eq hloc]
      exact .intro (some body) hfile
        (not_named hnul (by simp) (by rwa [behindSlash_path root hslash]) hloc hfile)
  · exact .inl rfl

/-- A DELETE replaces a file, or changes nothing. -/
theorem handleDelete_replaces (st : State) (hnul : nul ∉ root ++ '/' :: directory)
    (hslash : '/' ∈ directory) :
    (handleDelete root st directory).2.fs = st.fs ∨
      Replaces st.fs (handleDelete root st directory).2.fs := by
  rw [handleDelete_eq]
  split
  · next content hlookup =>
    obtain ⟨loc, hloc, hfile⟩ := FileSystem.lookup_eq_some.mp hlookup
    cases hid : stoi (behindSlash directory) with
    | error _ => exact .inl rfl
    | ok id =>
      have hremoved : Replaces st.fs (st.fs.removeFile (root ++ '/' :: directory)).2 := by
        rw [FileSystem.removeFile_eq hloc hfile]
        exact .intro none hfile
          (not_named hnul (by simp) (by rwa [behindSlash_path root hslash]) hloc hfile)
      cases st.pathCounts (beforeSlash directory) with
      | none => exact .inl rfl
      | some ids =>
        right
        dsimp only
        split
        · exact hremoved
        · exact hremoved
  · exact .inl rfl

/-- A POST to a store changes something below its root only. -/
theorem Store.handlePost_below (hstore : Store top st.fs) (hroot : st.fs.resolve root = some top)
    (hentity : EntityName directory) (body : Str) {loc : Location} (hloc : ¬ Below top loc) :
    (Api.handlePost root st directory body).2.fs.node loc = st.fs.node loc := by
  obtain ⟨dir, hdir, hplain, hpost⟩ := handlePost_store hroot hstore hentity body
  have hmade : (st.fs.set dir (some .directory)).node loc = st.fs.node loc := by
    rcases hdir with hdir | rfl
    · rw [FileSystem.set_of_not_writable fun hw => hw.2.2.1 hdir]
    · exact FileSystem.set_node_of_ne fun heq => hloc (heq ▸ below_append top (by simp))
  rw [hpost]
  dsimp only
  split
  · exact hmade
  · next hnul =>
    rw [hplain hnul] at hmade ⊢
    rw [FileSystem.set_node_of_ne, hmade]
    rintro rfl
    rw [List.append_assoc] at hloc
    exact hloc (below_append top (by simp))

/-- What a request does to the files of a store: it leaves all that is not below the root as it was,
or it replaces one file. -/
theorem Store.effect (hstore : Store top st.fs) (hroot : st.fs.resolve root = some top)
    (profile : UserProfile) {req : Request} (hnul : nul ∉ root ∧ nul ∉ req.target)
    (hdot : req.method = .post → req.target ≠ "/api/.".toList ∧ req.target ≠ "/api/..".toList) :
    (∀ loc, ¬ Below top loc →
      (Api.handleRequest root profile st req).2.fs.node loc = st.fs.node loc) ∨
      Replaces st.fs (Api.handleRequest root profile st req).2.fs := by
  rcases handleRequest_inversion root profile st req with ⟨heq, -⟩ |
    ⟨directory, hne, htarget, -, hmethod⟩
  · rw [heq]
    exact .inl fun _ _ => rfl
  · have hpath : nul ∉ root ++ '/' :: directory := by
      have hdirectory := hnul.2
      rw [htarget] at hdirectory
      simp only [List.mem_append, List.mem_cons, not_or] at hdirectory ⊢
      exact ⟨hnul.1, by decide, hdirectory.2⟩
    rcases hmethod with ⟨hpost, hslash, heq⟩ | ⟨-, hslash, heq⟩ | ⟨-, hslash, heq⟩ <;> rw [heq]
    · have hentity := entityName_of_target htarget (hdot hpost) hne hslash
      exact .inl fun _ hloc => hstore.handlePost_below hroot hentity req.body hloc
    · exact (handlePut_replaces st hpath hslash req.body).imp_left fun hsame _ _ => by rw [hsame]
    · exact (handleDelete_replaces st hpath hslash).imp_left fun hsame _ _ => by rw [hsame]

end

/-! ## Files with other names -/

/-- A file with another name is kept where a file is replaced. -/
theorem Replaces.keeps {fs fs' : FileSystem} (h : Replaces fs fs') {loc : Location}
    (hnamed : Named loc) : fs'.node loc = fs.node loc := by
  obtain ⟨body, hfile, hloc⟩ := h
  refine FileSystem.set_node_of_ne ?_
  rintro rfl
  exact hloc hnamed

section

variable {root : Str} {top : Location} {st : State} {loc : Location}

/-- A numeral is a name that `stoi` reads. -/
theorem not_named_decimal {ids : List ℤ} (h : loc.getLast? = some (decimal (nextId ids))) :
    ¬ Named loc := fun hnamed =>
  hnamed _ h _ (stoi_decimal (nextId_mem_int ids).1 (nextId_mem_int ids).2)

/-- What is not a directory and has another name is kept by a POST, unless nothing is there and a
directory of the root can be made there. -/
theorem handlePost_keeps_named (st : State) (hroot : st.fs.resolve root = some top)
    (htop : st.fs.node top = some .directory) {directory : Str}
    (hnul : nul ∉ root ++ '/' :: directory) (hslash : '/' ∉ directory) (hnamed : Named loc)
    (hdir : st.fs.node loc ≠ some .directory) (hnew : st.fs.node loc = none → top ≠ loc.dropLast)
    (body : Str) : (handlePost root st directory body).2.fs.node loc = st.fs.node loc := by
  cases hfs : (if st.fs.pathExists (root ++ '/' :: directory) then some st.fs
      else st.fs.createDirectory (root ++ '/' :: directory)) with
  | none => rw [handlePost_eq_bad hfs]
  | some fs =>
    rw [handlePost_eq hfs]
    have hkept : fs.node loc = st.fs.node loc := by
      split at hfs
      · rw [Option.some.inj hfs]
      · obtain ⟨made, hmade, -, hnone, rfl⟩ := FileSystem.createDirectory_eq_some hfs
        refine FileSystem.set_node_of_ne ?_
        rintro rfl
        -- The directory that is made is one of the root.
        have hplace := FileSystem.resolve_child hroot htop hslash
        simp only [List.mem_append, List.mem_cons, not_or] at hnul
        rw [if_neg hnul.1, cstr_of_not_mem hnul.2.2, hmade, Option.some.injEq] at hplace
        rw [hplace] at hnone
        have hplain : PlainName directory :=
          climb_of_none hslash hnul.2.2 (by rw [htop]; simp)
            (by rw [st.fs.dropLast_of_directory htop]; simp) hnone
        refine hnew (hplace ▸ hnone) ?_
        rw [hplace, climb_plain hplain, List.dropLast_concat]
    dsimp only
    -- The file that is written has a numeral for its name.
    unfold FileSystem.writeFile
    split
    · next loc' hloc' =>
      refine (FileSystem.set_node_of_ne ?_).trans hkept
      rintro rfl
      exact not_named_decimal (FileSystem.getLast?_of_resolve hnul (plainName_decimal _).2.2.2.2
        (plainName_decimal _).2.2.2.1 hloc' (by rwa [hkept])) hnamed
    · exact hkept

/-- A request that is served is one behind a scan of a root that is a directory. -/
theorem exists_root_of_serve {listing : List (List Str)} {profile : UserProfile} {req : Request}
    {res : Response} {st' : State} (hserve : serve root listing profile st req = .ok (res, st')) :
    ∃ top pathCounts, st.fs.resolve root = some top ∧ st.fs.node top = some .directory ∧
      handleRequest root profile ⟨st.fs, pathCounts⟩ req = (res, st') := by
  unfold serve at hserve
  split at hserve
  · next pathCounts hconstruct =>
    unfold construct at hconstruct
    split at hconstruct
    · next top hroot =>
      split at hconstruct
      · next hdir => exact ⟨top, pathCounts, hroot, hdir, Except.ok.inj hserve⟩
      · cases hconstruct
    · cases hconstruct
  · cases hserve

/-- A root with a zero byte in it hides the rest of every path: if it leads to a directory, no
request changes a file. -/
theorem handleRequest_fs_of_nul (st : State) (hroot : st.fs.resolve root = some top)
    (htop : st.fs.node top = some .directory) (hnul : nul ∈ root) (profile : UserProfile)
    (req : Request) : (handleRequest root profile st req).2.fs = st.fs := by
  have hresolve : ∀ rest, st.fs.resolve (root ++ rest) = some top := fun rest => by
    rw [FileSystem.resolve_append_of_mem hnul, hroot]
  have hlookup : ∀ rest, st.fs.lookup (root ++ rest) = some .directory := fun rest =>
    FileSystem.lookup_eq_some.mpr ⟨top, hresolve rest, htop⟩
  rcases handleRequest_inversion root profile st req with ⟨heq, -⟩ |
    ⟨directory, -, -, -, ⟨-, -, heq⟩ | ⟨-, -, heq⟩ | ⟨-, -, heq⟩⟩ <;> rw [heq]
  · have hexists : st.fs.pathExists (root ++ '/' :: directory) = true := by
      rw [FileSystem.pathExists, hlookup]
      rfl
    rw [handlePost_eq (if_pos hexists)]
    -- The stream does not open on a directory.
    rw [List.append_assoc]
    exact FileSystem.writeFile_directory (hresolve _) htop _
  · rw [handlePut_eq, hlookup]
  · rw [handleDelete_eq, hlookup]

/-- A file with another name is kept by every request whose handler can be made, whatever the
target: the root of a handler that is made is a directory, so that a zero byte in it leads to no
file. Where nothing is, nothing is made, unless the root is the directory of that place. -/
theorem serve_keeps_named {listing : List (List Str)} {profile : UserProfile} {req : Request}
    {res : Response} {st' : State} (hserve : serve root listing profile st req = .ok (res, st'))
    (hnul : nul ∉ req.target) (hnamed : Named loc) (hdir : st.fs.node loc ≠ some .directory)
    (hnew : st.fs.node loc = none → st.fs.resolve root ≠ some loc.dropLast) :
    st'.fs.node loc = st.fs.node loc := by
  obtain ⟨top, pathCounts, hroot, htop, heq⟩ := exists_root_of_serve hserve
  obtain rfl : (handleRequest root profile ⟨st.fs, pathCounts⟩ req).2 = st' := by rw [heq]
  by_cases hmem : nul ∈ root
  · have hsame := handleRequest_fs_of_nul ⟨st.fs, pathCounts⟩ hroot htop hmem profile req
    rw [hsame]
  · rcases handleRequest_inversion root profile ⟨st.fs, pathCounts⟩ req with ⟨hsame, -⟩ |
      ⟨directory, -, htarget, -, hmethod⟩
    · rw [hsame]
    · have hpath : nul ∉ root ++ '/' :: directory := by
        rw [htarget] at hnul
        simp only [List.mem_append, List.mem_cons, not_or] at hnul ⊢
        exact ⟨hmem, by decide, hnul.2⟩
      rcases hmethod with ⟨-, hslash, heq⟩ | ⟨-, hslash, heq⟩ | ⟨-, hslash, heq⟩ <;> rw [heq]
      · refine handlePost_keeps_named ⟨st.fs, pathCounts⟩ hroot htop hpath hslash hnamed hdir
          (fun hnone heq => hnew hnone ?_) req.body
        rw [hroot, heq]
      · rcases handlePut_replaces ⟨st.fs, pathCounts⟩ hpath hslash req.body with
          hsame | hreplaces
        · rw [hsame]
        · exact hreplaces.keeps hnamed
      · rcases handleDelete_replaces ⟨st.fs, pathCounts⟩ hpath hslash with
          hsame | hreplaces
        · rw [hsame]
        · exact hreplaces.keeps hnamed

end

end CrazyCode.Api
