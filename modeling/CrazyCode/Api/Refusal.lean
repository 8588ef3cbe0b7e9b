import CrazyCode.Api.Runs

/-!
# Refused requests

A request that is answered 400 is to change no data. For a POST and a PUT this is so, since nothing
is changed before the last check. `handle_delete` removes the file, and only then looks for its id
in the list of the entity. A path can name a file whose id is not in that list: `stoi` reads an id
off `1x`, which the constructor does not put into the index. Such a file is gone behind a request
that is refused (`refused_keeps_iff`).
-/

namespace CrazyCode.Api

open Text Decimal Posix Profile Server

/-- The files of two file systems and their contents are the same. -/
def SameFiles (fs fs' : FileSystem) : Prop :=
  ∀ loc content, fs'.node loc = some (.file content) ↔ fs.node loc = some (.file content)

/-- The requests of a logged-in client that delete a file, and find that the list of its entity does
not have its id. -/
def DeletesUnlisted (root : Str) (profile : UserProfile) (st : State) (req : Request) : Prop :=
  ∃ directory id ids, profile.loginStatus = true ∧ req.method = .delete ∧
    req.target = "/api/".toList ++ directory ∧ '/' ∈ directory ∧
    st.fs.isRegularFile (root ++ '/' :: directory) = true ∧ stoi (behindSlash directory) = .ok id ∧
    st.pathCounts (beforeSlash directory) = some ids ∧ id ∉ ids

section Methods

variable {root : Str} {st : State} {directory : Str}

/-- A POST that is refused has not made its directory. -/
theorem handlePost_refused {body : Str} (h : (handlePost root st directory body).1.status = 400) :
    (handlePost root st directory body).2 = st := by
  cases hfs : (if st.fs.pathExists (root ++ '/' :: directory) then some st.fs
      else st.fs.createDirectory (root ++ '/' :: directory)) with
  | none => rw [handlePost_eq_bad hfs]
  | some fs =>
    rw [handlePost_eq hfs] at h
    cases h

/-- A PUT that is refused has not written its file. -/
theorem handlePut_refused {body : Str} (h : (handlePut root st directory body).1.status = 400) :
    (handlePut root st directory body).2 = st := by
  rw [handlePut_eq] at h ⊢
  split
  · next content hlookup =>
    rw [hlookup] at h
    cases hstoi : stoi (behindSlash directory) with
    | error e => rfl
    | ok id =>
      rw [hstoi] at h
      cases h
  · rfl

/-- A DELETE of a file whose id is not in its list is refused, and has removed the file. -/
theorem handleDelete_unlisted {content : Str} {id : ℤ} {ids : List ℤ}
    (hfile : st.fs.lookup (root ++ '/' :: directory) = some (.file content))
    (hread : stoi (behindSlash directory) = .ok id)
    (hids : st.pathCounts (beforeSlash directory) = some ids) (hid : id ∉ ids) :
    handleDelete root st directory =
      (badRequest, ⟨(st.fs.removeFile (root ++ '/' :: directory)).2, st.pathCounts⟩) := by
  rw [handleDelete_eq, hfile, hread, hids]
  exact if_pos hid

/-- A DELETE that is refused has changed nothing, unless the list does not have the id. -/
theorem handleDelete_refused (h : (handleDelete root st directory).1.status = 400) :
    (handleDelete root st directory).2 = st ∨
      ∃ content id ids, st.fs.lookup (root ++ '/' :: directory) = some (.file content) ∧
        stoi (behindSlash directory) = .ok id ∧
        st.pathCounts (beforeSlash directory) = some ids ∧ id ∉ ids := by
  rw [handleDelete_eq] at h ⊢
  split
  · next content hlookup =>
    rw [hlookup] at h
    cases hstoi : stoi (behindSlash directory) with
    | error e => exact .inl rfl
    | ok id =>
      cases hids : st.pathCounts (beforeSlash directory) with
      | none => exact .inl rfl
      | some ids =>
        simp only [hstoi, hids] at h
        by_cases hid : id ∈ ids
        · rw [if_neg (by simpa using hid)] at h
          cases h
        · exact .inr ⟨content, id, ids, hlookup, rfl, rfl, hid⟩
  · exact .inl rfl

end Methods

/-- What is refused has changed nothing, unless it is a DELETE of a file that is not listed. -/
theorem handleRequest_refused {root : Str} {profile : UserProfile} {st : State} {req : Request}
    (hnot : ¬ DeletesUnlisted root profile st req)
    (h : (handleRequest root profile st req).1.status = 400) :
    (handleRequest root profile st req).2 = st := by
  rcases handleRequest_inversion root profile st req with ⟨hsame, -⟩ |
    ⟨directory, -, htarget, hlogin, ⟨-, -, heq⟩ | ⟨-, -, heq⟩ | ⟨hmethod, hslash, heq⟩⟩
  · exact hsame
  · rw [heq] at h ⊢
    exact handlePost_refused h
  · rw [heq] at h ⊢
    exact handlePut_refused h
  · rw [heq] at h ⊢
    rcases handleDelete_refused h with hsame | ⟨content, id, ids, hfile, hread, hids, hid⟩
    · exact hsame
    · have hregular : st.fs.isRegularFile (root ++ '/' :: directory) = true := by
        rw [FileSystem.isRegularFile, FileSystem.readFile_eq_some.mpr hfile]
        rfl
      exact absurd ⟨directory, id, ids, hlogin, hmethod, htarget, hslash, hregular, hread, hids,
        hid⟩
        hnot

/-- A DELETE of a file that is not listed is refused, and the file is gone. -/
theorem DeletesUnlisted.removes {root : Str} {profile : UserProfile} {st : State} {req : Request}
    (h : DeletesUnlisted root profile st req) :
    (handleRequest root profile st req).1.status = 400 ∧
      ¬ SameFiles st.fs (handleRequest root profile st req).2.fs := by
  obtain ⟨directory, id, ids, hlogin, hmethod, htarget, hslash, hregular, hread, hids, hid⟩ := h
  obtain ⟨content, hfile⟩ := Option.isSome_iff_exists.mp hregular
  have hlookup := FileSystem.readFile_eq_some.mp hfile
  have heq : handleRequest root profile st req = handleDelete root st directory := by
    obtain ⟨method, target, body⟩ := req
    simp only at hmethod htarget
    rw [hmethod, htarget, handleRequest_eq root profile st .delete (List.ne_nil_of_mem hslash),
      hlogin]
    simp [dispatch, hslash]
  rw [heq, handleDelete_unlisted hlookup hread hids hid]
  refine ⟨rfl, fun hsame => ?_⟩
  -- The path names a location, at which nothing is left.
  obtain ⟨loc, hloc, hnode⟩ := FileSystem.lookup_eq_some.mp hlookup
  have hgone := (hsame loc content).mpr hnode
  rw [FileSystem.removeFile_eq hloc hnode,
    FileSystem.set_node_self (FileSystem.writable_of_file hnode)] at hgone
  cases hgone

/-- A request that is answered 400 leaves all files and their contents as they were, and the index
as the constructor left it, exactly unless it deletes a file whose id is not in the list of its
entity. -/
theorem refused_keeps_iff {root : Str} {listing : List (List Str)} {st : State}
    {pathCounts : PathCounts} (h : construct root listing st = .ok pathCounts)
    (profile : UserProfile) (req : Request) :
    (∀ res st', serve root listing profile st req = .ok (res, st') → res.status = 400 →
      SameFiles st.fs st'.fs ∧ st'.pathCounts = pathCounts) ↔
      ¬ DeletesUnlisted root profile ⟨st.fs, pathCounts⟩ req := by
  have hserve : serve root listing profile st req =
      .ok (handleRequest root profile ⟨st.fs, pathCounts⟩ req) := by
    rw [serve, h]
  constructor
  · intro hkeeps hdeletes
    obtain ⟨hstatus, hchanged⟩ := hdeletes.removes
    exact hchanged (hkeeps _ _ hserve hstatus).1
  · intro hnot res st' hserved hstatus
    rw [hserve] at hserved
    have hpair := Except.ok.inj hserved
    have hsame := handleRequest_refused hnot (by rw [hpair]; exact hstatus)
    rw [hpair] at hsame
    simp only at hsame
    rw [hsame]
    exact ⟨fun _ _ => Iff.rfl, rfl⟩

/-- A file of an entity, and one whose name does not end with a digit. -/
def besideUnlisted : State := storedNames [['2'], ['1', 'x']]

/-- The index of these files. -/
def besideCounts : PathCounts :=
  filled (scannedIds besideUnlisted.fs "/r".toList [['r']] (listingOfNames [['2'], ['1', 'x']]))
    fun _ => none

/-- The constructor passes over the file whose name does not end with a digit. -/
theorem construct_besideUnlisted :
    construct "/r".toList (listingOfNames [['2'], ['1', 'x']]) besideUnlisted =
      .ok besideCounts := by
  exact construct_of_isOk (resolve_storedNames _) (by decide +kernel) (by decide +kernel)

/-- A DELETE without an id is refused, and changes nothing. -/
theorem refused_keeps_directory :
    (∀ res st', serve "/r".toList (listingOfNames [['2'], ['1', 'x']]) loggedIn besideUnlisted
        ⟨.delete, "/api/E".toList, []⟩ = .ok (res, st') → res.status = 400 →
      SameFiles besideUnlisted.fs st'.fs ∧ st'.pathCounts = besideCounts) ↔
      ¬ DeletesUnlisted "/r".toList loggedIn ⟨besideUnlisted.fs, besideCounts⟩
        ⟨.delete, "/api/E".toList, []⟩ :=
  refused_keeps_iff construct_besideUnlisted loggedIn ⟨.delete, "/api/E".toList, []⟩

/-- A DELETE of the file `1x` is refused, since its id is not in the list, and the file is gone. -/
theorem not_refused_keeps : ¬ ∀ (root : Str) (top : Location) (listing : List (List Str))
    (profile : UserProfile) (st : State) (req : Request) (pathCounts : PathCounts) (res : Response)
    (st' : State), st.fs.resolve root = some top → IsListing st.fs top listing →
    construct root listing st = .ok pathCounts →
    serve root listing profile st req = .ok (res, st') →
    res.status = 400 → SameFiles st.fs st'.fs ∧ st'.pathCounts = pathCounts := by
  intro h
  have hdeletes : DeletesUnlisted "/r".toList loggedIn ⟨besideUnlisted.fs, besideCounts⟩
      ⟨.delete, "/api/E/1x".toList, []⟩ :=
    ⟨"E/1x".toList, 1, [2], rfl, rfl, rfl, by decide, by decide +kernel, by decide +kernel,
      by decide +kernel, by decide⟩
  obtain ⟨hstatus, hchanged⟩ := hdeletes.removes
  refine hchanged (h "/r".toList [['r']] (listingOfNames [['2'], ['1', 'x']]) loggedIn
    besideUnlisted ⟨.delete, "/api/E/1x".toList, []⟩ besideCounts _ _ (resolve_storedNames _)
    (isListing_storedNames (by decide) (by decide)) construct_besideUnlisted ?_ hstatus).1
  rw [serve, construct_besideUnlisted]

end CrazyCode.Api
