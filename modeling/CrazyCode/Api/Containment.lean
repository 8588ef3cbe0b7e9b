import CrazyCode.Api.Handler

/-!
# The API and its storage root

A request is `Contained` when all that it creates, overwrites or removes is strictly below the root,
and everything else stays as it was. The path that a handler works on is the root, a slash and the
rest of the target, and a rest with `..` in it can lead out of the root.

`handleRequest_contained_iff` says exactly when it does (`Escapes`). GET and LIST change nothing.
POST allows no slash in the rest, so only `..` itself is left. DELETE looks the entity up in the
index, which has no such keys unless a POST to `..` has made one. PUT looks nothing up: it
overwrites whatever file its path names.
-/

namespace CrazyCode.Api

open Text Decimal Posix Profile Server

/-- All that was touched on the way from one file system to another is strictly below a directory,
and all else is as it was. -/
def Contained (top : Location) (fs fs' : FileSystem) : Prop :=
  (∃ new, fs'.touched = fs.touched ++ new ∧ ∀ loc ∈ new, Below top loc) ∧
    ∀ loc, ¬ Below top loc → fs'.node loc = fs.node loc

/-- The path names a place outside a directory at which there is no directory. -/
def Outside (top : Location) (fs : FileSystem) (path : Str) : Prop :=
  ∃ loc, fs.resolve path = some loc ∧ fs.node loc ≠ some .directory ∧ ¬ Below top loc

/-- The requests that work on a file outside the root: of a logged-in client, a POST for an existing
directory in which the file of the next id is outside, and a PUT or DELETE of an existing file
outside, with a number as its last component, and for DELETE with the rest of its path as a key of
the index. -/
def Escapes (root : Str) (top : Location) (profile : UserProfile) (st : State) (req : Request) :
    Prop :=
  let directory := req.target.drop 5
  let path := root ++ '/' :: directory
  profile.loginStatus = true ∧ req.target.take 5 = "/api/".toList ∧ directory ≠ [] ∧
    st.fs.pathExists path = true ∧
    match req.method with
    | .post => '/' ∉ directory ∧
        Outside top st.fs (path ++ '/' :: decimal (getNextID st.pathCounts directory).1)
    | .put => '/' ∈ directory ∧ (∃ id, stoi (behindSlash directory) = .ok id) ∧
        Outside top st.fs path
    | .delete => '/' ∈ directory ∧ (∃ id, stoi (behindSlash directory) = .ok id) ∧
        st.pathCounts (beforeSlash directory) ≠ none ∧ Outside top st.fs path
    | _ => False

/-! ## Single changes -/

section Changes

variable {top : Location} {fs fs' fs'' : FileSystem}

/-- No change is contained. -/
theorem Contained.refl (top : Location) (fs : FileSystem) : Contained top fs fs :=
  ⟨⟨[], by simp, by simp⟩, fun _ _ => rfl⟩

/-- One contained change after another. -/
theorem Contained.trans (h : Contained top fs fs') (h' : Contained top fs' fs'') :
    Contained top fs fs'' := by
  obtain ⟨⟨new, htouched, hnew⟩, hnode⟩ := h
  obtain ⟨⟨new', htouched', hnew'⟩, hnode'⟩ := h'
  refine ⟨⟨new ++ new', by rw [htouched', htouched, List.append_assoc], fun loc hloc => ?_⟩,
    fun loc hloc => (hnode' loc hloc).trans (hnode loc hloc)⟩
  rcases List.mem_append.mp hloc with hloc | hloc
  · exact hnew loc hloc
  · exact hnew' loc hloc

/-- A change at one place is contained exactly when the place is below. -/
theorem contained_set_iff {loc : Location} (hw : fs.Writable loc) (n : Option Node) :
    Contained top fs (fs.set loc n) ↔ Below top loc := by
  constructor
  · rintro ⟨⟨new, htouched, hnew⟩, -⟩
    rw [FileSystem.set_touched hw, List.append_right_inj] at htouched
    exact hnew loc (by rw [← htouched]; simp)
  · intro hbelow
    refine ⟨⟨[loc], FileSystem.set_touched hw, by simpa using hbelow⟩, fun loc' hloc' => ?_⟩
    refine FileSystem.set_node_of_ne ?_
    rintro rfl
    exact hloc' hbelow

/-- A file that is written is contained unless its path is outside. -/
theorem contained_writeFile_iff (path content : Str) :
    Contained top fs (fs.writeFile path content) ↔ ¬ Outside top fs path := by
  cases hloc : fs.resolve path with
  | none =>
    have hsame : fs.writeFile path content = fs := by simp [FileSystem.writeFile, hloc]
    rw [hsame]
    refine iff_of_true (.refl top fs) ?_
    rintro ⟨loc, h, -⟩
    simp [hloc] at h
  | some loc =>
    by_cases hdir : fs.node loc = some .directory
    · rw [FileSystem.writeFile_directory hloc hdir]
      refine iff_of_true (.refl top fs) ?_
      rintro ⟨loc', h, hnot, -⟩
      rw [hloc] at h
      exact hnot (Option.some.inj h ▸ hdir)
    · rw [FileSystem.writeFile_eq hloc,
        contained_set_iff (FileSystem.writable_of_resolve hloc hdir)]
      constructor
      · rintro hbelow ⟨loc', h, -, hnot⟩
        rw [hloc] at h
        exact hnot (Option.some.inj h ▸ hbelow)
      · intro hnot
        by_contra hbelow
        exact hnot ⟨loc, hloc, hdir, hbelow⟩

/-- A file that is removed is contained unless its path is outside. -/
theorem contained_removeFile_iff (top : Location) {path content : Str} {loc : Location}
    (hloc : fs.resolve path = some loc) (hfile : fs.node loc = some (.file content)) :
    Contained top fs (fs.removeFile path).2 ↔ ¬ Outside top fs path := by
  rw [FileSystem.removeFile_eq hloc hfile, contained_set_iff (FileSystem.writable_of_file hfile)]
  constructor
  · rintro hbelow ⟨loc', h, -, hnot⟩
    rw [hloc] at h
    exact hnot (Option.some.inj h ▸ hbelow)
  · intro hnot
    by_contra hbelow
    exact hnot ⟨loc, hloc, by rw [hfile]; simp, hbelow⟩

end Changes

/-! ## The methods -/

section Methods

variable {root : Str} {top : Location} {st : State} {directory : Str}

/-- A name that does not exist in the root is made below it, with the file in it. -/
theorem contained_createDirectory (hroot : st.fs.resolve root = some top)
    (hdir : st.fs.node top = some .directory) (hslash : '/' ∉ directory) {fs : FileSystem}
    (hnew : st.fs.createDirectory (root ++ '/' :: directory) = some fs) (id : ℤ) (body : Str) :
    Contained top st.fs
      (fs.writeFile (root ++ '/' :: directory ++ '/' :: decimal id) body) := by
  obtain ⟨loc, hloc, hw, hnone, rfl⟩ := FileSystem.createDirectory_eq_some hnew
  have hchild := FileSystem.resolve_child hroot hdir hslash
  have hnul : nul ∉ root := fun hnul => by
    rw [if_pos hnul, hloc] at hchild
    rw [Option.some.inj hchild, hdir] at hnone
    cases hnone
  rw [if_neg hnul, hloc] at hchild
  obtain rfl := Option.some.inj hchild
  have hplain : PlainName (cstr directory) :=
    climb_of_none (not_mem_cstr hslash) (nul_not_mem_cstr _)
      (by rw [hdir]; simp) (by rw [st.fs.dropLast_of_directory hdir]; simp) hnone
  rw [climb_plain hplain] at hloc hw ⊢
  -- The new directory is below the root, and so is the file in it.
  have hbelow : Below top (top ++ [cstr directory]) := below_append top (by simp)
  have hloc' := FileSystem.resolve_set hloc (top ++ [cstr directory]) (some .directory)
  have hdir' := FileSystem.set_node_self (n := some .directory) hw
  have hfile := FileSystem.resolve_child hloc' hdir' (plainName_decimal id).2.2.2.1
  refine ((contained_set_iff hw _).mpr hbelow).trans ((contained_writeFile_iff _ _).mpr ?_)
  rintro ⟨file, hresolve, hnot, hout⟩
  rw [hfile] at hresolve
  obtain rfl := Option.some.inj hresolve
  split at hnot
  · exact hnot hdir'
  · next hnul' =>
    rw [if_neg hnul', cstr_of_not_mem (plainName_decimal id).2.2.2.2,
      climb_plain (plainName_decimal id), List.append_assoc] at hout
    exact hout (below_append top (by simp))

/-- A POST is contained unless the file of the next id is outside the root. -/
theorem handlePost_contained_iff (hroot : st.fs.resolve root = some top)
    (hdir : st.fs.node top = some .directory) (hslash : '/' ∉ directory) (body : Str) :
    Contained top st.fs (handlePost root st directory body).2.fs ↔
      ¬ (st.fs.pathExists (root ++ '/' :: directory) = true ∧
        Outside top st.fs (root ++ '/' :: directory ++ '/' ::
          decimal (getNextID st.pathCounts directory).1)) := by
  by_cases hexists : st.fs.pathExists (root ++ '/' :: directory) = true
  · rw [handlePost_eq (if_pos hexists)]
    simpa [hexists] using contained_writeFile_iff _ _
  · refine iff_of_true ?_ fun h => hexists h.1
    cases hnew : st.fs.createDirectory (root ++ '/' :: directory) with
    | none =>
      rw [handlePost_eq_bad ((if_neg hexists).trans hnew)]
      exact .refl _ _
    | some fs =>
      rw [handlePost_eq ((if_neg hexists).trans hnew)]
      exact contained_createDirectory hroot hdir hslash hnew _ body

/-- A PUT is contained unless it overwrites a file outside the root. -/
theorem handlePut_contained_iff (body : Str) :
    Contained top st.fs (handlePut root st directory body).2.fs ↔
      ¬ (st.fs.pathExists (root ++ '/' :: directory) = true ∧
        (∃ id, stoi (behindSlash directory) = .ok id) ∧
        Outside top st.fs (root ++ '/' :: directory)) := by
  rw [handlePut_eq, FileSystem.pathExists]
  cases hlookup : st.fs.lookup (root ++ '/' :: directory) with
  | none => simp [Contained.refl]
  | some n =>
    cases n with
    | directory =>
      obtain ⟨loc, hloc, hnode⟩ := FileSystem.lookup_eq_some.mp hlookup
      simp [Contained.refl, Outside, hloc, hnode]
    | file content =>
      cases stoi (behindSlash directory) with
      | error _ => simp [Contained.refl]
      | ok id => simpa using contained_writeFile_iff _ _

/-- A DELETE is contained unless it removes a file outside the root. -/
theorem handleDelete_contained_iff :
    Contained top st.fs (handleDelete root st directory).2.fs ↔
      ¬ (st.fs.pathExists (root ++ '/' :: directory) = true ∧
        (∃ id, stoi (behindSlash directory) = .ok id) ∧
        st.pathCounts (beforeSlash directory) ≠ none ∧
        Outside top st.fs (root ++ '/' :: directory)) := by
  rw [handleDelete_eq, FileSystem.pathExists]
  cases hlookup : st.fs.lookup (root ++ '/' :: directory) with
  | none => simp [Contained.refl]
  | some n =>
    obtain ⟨loc, hloc, hnode⟩ := FileSystem.lookup_eq_some.mp hlookup
    cases n with
    | directory => simp [Contained.refl, Outside, hloc, hnode]
    | file content =>
      cases stoi (behindSlash directory) with
      | error _ => simp [Contained.refl]
      | ok id =>
        cases st.pathCounts (beforeSlash directory) with
        | none => simp [Contained.refl]
        | some ids =>
          have hremove := contained_removeFile_iff top hloc hnode
          by_cases hid : id ∈ ids
          · simpa [hid] using hremove
          · simpa [hid] using hremove

end Methods

/-- A request is contained unless it works on a file outside the root. -/
theorem handleRequest_contained_iff {root : Str} {top : Location} {st : State}
    (hroot : st.fs.resolve root = some top) (hdir : st.fs.node top = some .directory)
    (profile : UserProfile) (req : Request) :
    Contained top st.fs (handleRequest root profile st req).2.fs ↔
      ¬ Escapes root top profile st req := by
  rcases handleRequest_cases root profile st req with ⟨hbad, heq⟩ | ⟨htake, hne, heq⟩
  · rw [heq]
    refine iff_of_true (.refl _ _) fun ⟨_, htake, hne, _⟩ => ?_
    rcases hbad with h | h
    · exact h htake
    · exact hne h
  rw [heq]
  obtain ⟨method, target, body⟩ := req
  simp only [Escapes, htake, ne_eq, hne, not_false_eq_true, true_and]
  cases hlogin : profile.loginStatus with
  | false =>
    have hsame : (dispatch root false st method (target.drop 5) body).2 = st := by
      cases method <;> by_cases hslash : '/' ∈ target.drop 5 <;> simp [dispatch, hslash]
    rw [hsame]
    exact iff_of_true (.refl _ _) fun h => by simp at h
  | true =>
    by_cases hslash : '/' ∈ target.drop 5
    · cases method with
      | put => simpa [dispatch, hslash] using handlePut_contained_iff body
      | delete => simpa [dispatch, hslash] using handleDelete_contained_iff
      | post | get | other => simp [dispatch, hslash, Contained.refl]
    · cases method with
      | post => simpa [dispatch, hslash] using handlePost_contained_iff hroot hdir hslash body
      | put | delete | get | other => simp [dispatch, hslash, Contained.refl]

/-- A storage root `/r`, a file `/7` beside it, and an empty index. -/
def besideRoot : State where
  fs := (FileSystem.empty.set ["r".toList] (some .directory)).set ["7".toList] (some (.file []))
  pathCounts _ := none

/-- A POST to an entity is contained. -/
theorem contained_post_entity :
    Contained ["r".toList] besideRoot.fs (handleRequest "/r".toList ⟨1, [], [], true⟩ besideRoot
      ⟨.post, "/api/E".toList, "x".toList⟩).2.fs := by
  have hroot : besideRoot.fs.resolve "/r".toList = some ["r".toList] := by decide
  have hdir : besideRoot.fs.node ["r".toList] = some .directory := by decide
  refine (handleRequest_contained_iff hroot hdir _ _).mpr ?_
  rintro ⟨-, -, -, hexists, -⟩
  exact absurd hexists (by decide)

/-- A PUT overwrites a file outside the root. -/
theorem not_contained : ¬ ∀ (root : Str) (top : Location) (st : State) (profile : UserProfile)
    (req : Request), st.fs.resolve root = some top → st.fs.node top = some .directory →
    Contained top st.fs (handleRequest root profile st req).2.fs := fun h => by
  have hput := h "/r".toList ["r".toList] besideRoot ⟨1, [], [], true⟩
    ⟨.put, "/api/../7".toList, "x".toList⟩ (by decide) (by decide)
  exact absurd (hput.2 ["7".toList] (by decide)) (by decide)

end CrazyCode.Api
