import CrazyCode.Library.Decimal
import CrazyCode.Library.FileSystem
import CrazyCode.Library.Outcome
import CrazyCode.Profile.Manager
import CrazyCode.Server.Message

/-!
# The API handler

`request_api_handler` of `src/request_api_handler.cc`: a store of files `root/entity/id`, with an
index of the ids of each entity in `path_counts`, which all handlers share.

A handler is made for each request. `construct` is its constructor: it goes through the files below
the root, in the order in which the system lists them, and adds the ids that are not in the index.
`handleRequest` then dispatches on the method. Both take the state and return the next one. A path
is the root, a slash and the rest of the request target; it is resolved by the file system.

Integers are those of `int`, and their sums wrap around. Names have no greatest length. An
exception of the constructor (`ScanError`) ends the request; what it did to the index before is not
recorded.
-/

namespace CrazyCode.Api

open Text Decimal Posix Outcome Profile Server

/-- `std::map<std::string, std::vector<int>>`. -/
abbrev PathCounts := Str → Option (List ℤ)

/-- The file system, and the index that the handlers share. -/
structure State where
  fs : FileSystem
  pathCounts : PathCounts

/-! ## Names and paths -/

/-- `s.substr(0, s.find_last_of("/"))`. -/
def beforeSlash (s : Str) : Str :=
  match splitLast '/' s with
  | some (before, _) => before
  | none => s

/-- `s.substr(s.find_last_of("/") + 1)`. -/
def behindSlash (s : Str) : Str :=
  match splitLast '/' s with
  | some (_, behind) => behind
  | none => s

/-- A string with a slash is cut at the last one. -/
theorem exists_slash {s : Str} (h : '/' ∈ s) : ∃ a b, s = a ++ '/' :: b ∧ '/' ∉ b := by
  cases hs : splitLast '/' s with
  | none => exact absurd h (splitLast_eq_none.mp hs)
  | some p => exact ⟨p.1, p.2, splitLast_eq_some.mp hs⟩

/-- Before the last slash. -/
theorem beforeSlash_append (a : Str) {b : Str} (hb : '/' ∉ b) :
    beforeSlash (a ++ '/' :: b) = a := by
  rw [beforeSlash, splitLast_eq_some.mpr ⟨rfl, hb⟩]

/-- Behind the last slash. -/
theorem behindSlash_append (a : Str) {b : Str} (hb : '/' ∉ b) :
    behindSlash (a ++ '/' :: b) = b := by
  rw [behindSlash, splitLast_eq_some.mpr ⟨rfl, hb⟩]

/-- Without a slash, all is behind it. -/
theorem behindSlash_of_not_mem {b : Str} (hb : '/' ∉ b) : behindSlash b = b := by
  rw [behindSlash, splitLast_eq_none.mpr hb]

/-- Without a slash, `npos` is the length of what is before it. -/
theorem beforeSlash_of_not_mem {b : Str} (hb : '/' ∉ b) : beforeSlash b = b := by
  rw [beforeSlash, splitLast_eq_none.mpr hb]

/-- `operator/` of `boost::filesystem::path`, for a plain name. -/
def joinPath (dir name : Str) : Str :=
  if dir = [] ∨ dir.getLast? = some '/' then dir ++ name else dir ++ '/' :: name

/-- The name behind the last slash of a path that it is appended to. -/
theorem behindSlash_joinPath (dir : Str) {name : Str} (hname : '/' ∉ name) :
    behindSlash (joinPath dir name) = name := by
  unfold joinPath
  split
  · next h =>
    rcases h with rfl | h
    · exact behindSlash_of_not_mem hname
    · obtain ⟨before, rfl⟩ := List.getLast?_eq_some_iff.mp h
      rw [List.append_assoc]
      exact behindSlash_append before hname
  · exact behindSlash_append dir hname

/-- A path that ends with a name is what stands before the next one. -/
theorem beforeSlash_joinPath {dir name : Str} (hdir : dir ≠ []) (hlast : dir.getLast? ≠ some '/')
    (hname : '/' ∉ name) : beforeSlash (joinPath dir name) = dir := by
  rw [joinPath, if_neg (by tauto)]
  exact beforeSlash_append dir hname

/-- A path ends with the name that is appended to it. -/
theorem getLast?_joinPath (dir : Str) {name : Str} (hname : name ≠ []) :
    (joinPath dir name).getLast? = name.getLast? := by
  unfold joinPath
  split
  · exact List.getLast?_append_of_ne_nil _ hname
  · rw [List.getLast?_append_of_ne_nil _ (by simp), ← List.singleton_append,
      List.getLast?_append_of_ne_nil _ hname]

/-- `boost::filesystem::path::stem` of a file name. -/
def stem (name : Str) : Str :=
  -- `.` and `..` are names without an extension.
  if name = ['.'] ∨ name = ['.', '.'] then name
  else
    match splitLast '.' name with
    | some (before, _) => before
    | none => name

/-- `boost::filesystem::absolute`: a relative path is one from the working directory. -/
def absolute (fs : FileSystem) (path : Str) : Str :=
  if path.head? = some '/' then path else joinPath ('/' :: ['/'].intercalate fs.cwd) path

/-- The absolute path of what is listed below the root, at the names on the way down to it. -/
def filePath (fs : FileSystem) (root : Str) (names : List Str) : Str :=
  names.foldl joinPath (absolute fs root)

/-- A numeral is the name of a file. -/
theorem plainName_decimal (id : ℤ) : PlainName (decimal id) := by
  have hdot : '.' ∉ decimal id := not_mem_decimal (by decide) (by decide) id
  refine ⟨decimal_ne_nil id, fun h => hdot (by simp [h]), fun h => hdot (by simp [h]),
    not_mem_decimal (by decide) (by decide) id, not_mem_decimal (by decide) (by decide) id⟩

/-- A numeral has no extension. -/
theorem stem_decimal (id : ℤ) : stem (decimal id) = decimal id := by
  have hdot : '.' ∉ decimal id := not_mem_decimal (by decide) (by decide) id
  unfold stem
  split
  · rfl
  · rw [splitLast_eq_none.mpr hdot]

/-! ## The lists of ids -/

/-- `index` behind the loop that starts at 1 and goes on while the list does not end at `index` and
`ids[index]` is `ids[index - 1] + 1`. -/
def runEnd : List ℤ → ℕ
  | a :: b :: ids => if b = wrap (a + 1) then runEnd (b :: ids) + 1 else 1
  | _ => 1

/-- What the constructor makes of a list of ids and an id that it reads off a file. -/
def insertId (ids : List ℤ) (id : ℤ) : List ℤ :=
  if id ∈ ids then ids
  else
    match ids with
    | [] => [id]
    | [a] => if a < id then [a, id] else [id, a]
    -- From the third id on, the place is behind the first run, whatever the id is.
    | ids => ids.insertIdx (runEnd ids) id

/-- The id that `getNextID` picks for a list of ids. -/
def nextId : List ℤ → ℤ
  | [] => 1
  | [a] => if a = 1 then 2 else 1
  | ids => wrap (ids.getD (runEnd ids - 1) 0 + 1)

/-- The list of ids in which `getNextID` has put the id that it picks. -/
def takeId : List ℤ → List ℤ
  | [] => [1]
  | [a] => [nextId [a], a]
  | ids => ids.insertIdx (runEnd ids) (nextId ids)

/-- `request_api_handler::getNextID`. -/
def getNextID (pathCounts : PathCounts) (directory : Str) : ℤ × PathCounts :=
  -- `operator[]`: an entity without a list gets an empty one.
  let idList := (pathCounts directory).getD []
  (nextId idList, Function.update pathCounts directory (some (takeId idList)))

/-! ## The constructor -/

/-- The exceptions of the constructor. -/
inductive ScanError where
  /-- `boost::filesystem::filesystem_error`: the root is no directory. -/
  | notDirectory
  /-- An exception of `std::stoi`. -/
  | stoi (error : StoiError)
deriving DecidableEq, Repr

/-- The constructor on one listed entry below the root at `top`. -/
def scanFile (fs : FileSystem) (root : Str) (top : Location) (pathCounts : PathCounts)
    (names : List Str) : Except ScanError PathCounts :=
  match fs.node (top ++ names) with
  | some (.file _) =>
    let filePathStr := filePath fs root names
    -- `isdigit(file_path_str.back())`: other files are no items.
    if (filePathStr.getLast?.any Char.isDigit) = true then
      match stoi (stem (behindSlash filePathStr)) with
      | .ok id =>
        let entity := behindSlash (beforeSlash filePathStr)
        let ids := (pathCounts entity).getD []
        .ok (Function.update pathCounts entity (some (insertId ids id)))
      | .error error => .error (.stoi error)
    else .ok pathCounts
  | _ => .ok pathCounts

/-- The constructor `request_api_handler::request_api_handler`, for the order in which the entries
below the root are listed. -/
def construct (root : Str) (listing : List (List Str)) (st : State) :
    Except ScanError PathCounts :=
  match st.fs.resolve root with
  | some top =>
    -- The iterator throws when the root is no directory.
    if st.fs.node top = some .directory then
      listing.foldlM (scanFile st.fs root top) st.pathCounts
    else .error .notDirectory
  | none => .error .notDirectory

/-- An order in which `boost::filesystem::recursive_directory_iterator` can list the entries below a
directory, each by the names on the way down to it. -/
def IsListing (fs : FileSystem) (top : Location) (listing : List (List Str)) : Prop :=
  listing.Nodup ∧ ∀ names, names ∈ listing ↔ names ≠ [] ∧ fs.node (top ++ names) ≠ none

/-- What is made at a place where nothing is is listed, first or anywhere else. -/
theorem IsListing.cons {fs : FileSystem} {top : Location} {listing : List (List Str)}
    (h : IsListing fs top listing) {names : List Str} (hne : names ≠ [])
    (hw : fs.Writable (top ++ names)) (hnone : fs.node (top ++ names) = none) (n : Node) :
    IsListing (fs.set (top ++ names) (some n)) top (names :: listing) := by
  have hnew : names ∉ listing := fun hmem => ((h.2 names).mp hmem).2 hnone
  refine ⟨List.nodup_cons.mpr ⟨hnew, h.1⟩, fun names' => ?_⟩
  by_cases heq : names' = names
  · rw [heq, FileSystem.set_node_self hw]
    simpa using hne
  · rw [FileSystem.set_node_of_ne (by simpa using heq), ← h.2]
    simp [heq]

/-- What is removed is not listed any more. -/
theorem IsListing.erase {fs : FileSystem} {top : Location} {listing : List (List Str)}
    (h : IsListing fs top listing) {names : List Str} (hw : fs.Writable (top ++ names)) :
    IsListing (fs.set (top ++ names) none) top (listing.erase names) := by
  refine ⟨h.1.erase names, fun names' => ?_⟩
  rw [h.1.mem_erase_iff, h.2]
  by_cases heq : names' = names
  · rw [heq, FileSystem.set_node_self hw]
    simp
  · rw [FileSystem.set_node_of_ne (by simpa using heq)]
    simp [heq]

/-! ## Responses -/

/-- The answer to a POST. -/
def created (path : Str) (id : ℤ) : Response :=
  html 201 ("<html><head><title>Created</title></head><body><h1>201 Created file at ".toList ++
    path ++ " with ID ".toList ++ decimal id ++ "</h1></body></html>".toList)

/-- The answer to a DELETE. -/
def deleted : Response :=
  html 200 ("<html><head><title>Deleted</title></head>" ++
    "<body><h1>File Deleted.</h1></body></html>").toList

/-- The answer to a GET of an entity: the ids, each with a comma behind it, and then the last byte
written is replaced by the closing bracket. -/
def idsPage (ids : List ℤ) : Str :=
  ('[' :: ids.flatMap fun id => decimal id ++ [',']).dropLast ++ [']']

/-! ## The methods -/

section Methods

variable (root : Str) (st : State) (directory : Str)

/-- `request_api_handler::handle_post`. -/
def handlePost (body : Str) : Response × State :=
  let path := root ++ '/' :: directory
  match (if st.fs.pathExists path then some st.fs else st.fs.createDirectory path) with
  | none => (badRequest, st)
  | some fs =>
    let (id, pathCounts) := getNextID st.pathCounts directory
    -- The answer does not depend on the stream: a file that does not open is answered 201 as well.
    (created path id, ⟨fs.writeFile (path ++ '/' :: decimal id) body, pathCounts⟩)

/-- `request_api_handler::handle_delete`. -/
def handleDelete : Response × State :=
  let path := root ++ '/' :: directory
  if ¬ st.fs.pathExists path then (badRequest, st)
  else if st.fs.isDirectory path then (badRequest, st)
  else
    let idStr := behindSlash directory
    let entity := beforeSlash directory
    match stoi idStr with
    | .error _ => (badRequest, st)
    | .ok id =>
      match st.pathCounts entity with
      | none => (badRequest, st)
      | some ids =>
        let (removed, fs) := st.fs.removeFile path
        if ¬ removed then (badRequest, st)
        -- The file is gone by now, whether or not its id is in the index.
        else if id ∉ ids then (badRequest, ⟨fs, st.pathCounts⟩)
        else (deleted, ⟨fs, Function.update st.pathCounts entity (some (ids.erase id))⟩)

/-- `request_api_handler::handle_get`. -/
def handleGet : Response :=
  let path := root ++ '/' :: directory
  if ¬ st.fs.pathExists path then badRequest
  else if st.fs.isDirectory path then badRequest
  else
    let idStr := behindSlash directory
    let entity := beforeSlash directory
    match stoi idStr with
    | .error _ => badRequest
    | .ok id =>
      match st.pathCounts entity with
      | none => badRequest
      | some ids => if id ∉ ids then badRequest else html 200 ((st.fs.readFile path).getD [])

/-- `request_api_handler::handle_list`. -/
def handleList : Response :=
  let path := root ++ '/' :: directory
  if ¬ st.fs.isDirectory path then badRequest
  else
    match st.pathCounts (beforeSlash directory) with
    | none => badRequest
    | some ids => html 200 (idsPage ids)

/-- `request_api_handler::handle_put`. Unlike its siblings it does not look the entity up. -/
def handlePut (body : Str) : Response × State :=
  let path := root ++ '/' :: directory
  if ¬ st.fs.pathExists path then (badRequest, st)
  else if st.fs.isDirectory path then (badRequest, st)
  else
    match stoi (behindSlash directory) with
    | .error _ => (badRequest, st)
    -- The entity in front of the slash is cut off, and not used.
    | .ok _ => (html 200 body, ⟨st.fs.writeFile path body, st.pathCounts⟩)

/-! What the checks of a path come to: only for a file does a method go on. -/

variable {root st directory} in
/-- `handle_post` behind the check of its directory: a file is written. -/
theorem handlePost_eq {fs : FileSystem}
    (h : (if st.fs.pathExists (root ++ '/' :: directory) then some st.fs
      else st.fs.createDirectory (root ++ '/' :: directory)) = some fs) (body : Str) :
    handlePost root st directory body =
      (created (root ++ '/' :: directory) (getNextID st.pathCounts directory).1,
        ⟨fs.writeFile (root ++ '/' :: directory ++ '/' ::
          decimal (getNextID st.pathCounts directory).1) body,
          (getNextID st.pathCounts directory).2⟩) := by
  simp only [handlePost, h]

variable {root st directory} in
/-- `handle_post` when the directory cannot be made. -/
theorem handlePost_eq_bad
    (h : (if st.fs.pathExists (root ++ '/' :: directory) then some st.fs
      else st.fs.createDirectory (root ++ '/' :: directory)) = none) (body : Str) :
    handlePost root st directory body = (badRequest, st) := by
  simp only [handlePost, h]

/-- `handle_delete` by what its path names. -/
theorem handleDelete_eq :
    handleDelete root st directory =
      match st.fs.lookup (root ++ '/' :: directory) with
      | some (.file _) =>
        match stoi (behindSlash directory) with
        | .error _ => (badRequest, st)
        | .ok id =>
          match st.pathCounts (beforeSlash directory) with
          | none => (badRequest, st)
          | some ids =>
            let fs := (st.fs.removeFile (root ++ '/' :: directory)).2
            if id ∉ ids then (badRequest, ⟨fs, st.pathCounts⟩)
            else (deleted, ⟨fs, Function.update st.pathCounts (beforeSlash directory)
              (some (ids.erase id))⟩)
      | _ => (badRequest, st) := by
  unfold handleDelete FileSystem.pathExists FileSystem.isDirectory
  cases hlookup : st.fs.lookup (root ++ '/' :: directory) with
  | none => simp [hlookup]
  | some n =>
    cases n with
    | directory => simp [hlookup]
    | file content =>
      -- A file that is there is removed, so that check of the source never fails.
      obtain ⟨loc, hloc, hfile⟩ := FileSystem.lookup_eq_some.mp hlookup
      have hremove := FileSystem.removeFile_eq hloc hfile
      cases hstoi : stoi (behindSlash directory) with
      | error _ => simp [hlookup, hstoi]
      | ok id =>
        cases hids : st.pathCounts (beforeSlash directory) with
        | none => simp [hlookup, hstoi, hids]
        | some ids => simp [hlookup, hstoi, hids, hremove]

/-- `handle_get` by what its path names. -/
theorem handleGet_eq :
    handleGet root st directory =
      match st.fs.lookup (root ++ '/' :: directory) with
      | some (.file content) =>
        match stoi (behindSlash directory) with
        | .error _ => badRequest
        | .ok id =>
          match st.pathCounts (beforeSlash directory) with
          | none => badRequest
          | some ids => if id ∉ ids then badRequest else html 200 content
      | _ => badRequest := by
  unfold handleGet FileSystem.pathExists FileSystem.isDirectory FileSystem.readFile
  cases hlookup : st.fs.lookup (root ++ '/' :: directory) with
  | none => simp [hlookup]
  | some n => cases n <;> simp [hlookup]

/-- `handle_put` by what its path names. -/
theorem handlePut_eq (body : Str) :
    handlePut root st directory body =
      match st.fs.lookup (root ++ '/' :: directory) with
      | some (.file _) =>
        match stoi (behindSlash directory) with
        | .error _ => (badRequest, st)
        | .ok _ => (html 200 body, ⟨st.fs.writeFile (root ++ '/' :: directory) body, st.pathCounts⟩)
      | _ => (badRequest, st) := by
  unfold handlePut FileSystem.pathExists FileSystem.isDirectory
  cases hlookup : st.fs.lookup (root ++ '/' :: directory) with
  | none => simp [hlookup]
  | some n => cases n <;> simp [hlookup]

end Methods

/-- The `switch` of `handle_request` on the method, for what stands behind `/api/`. -/
def dispatch (root : Str) (loggedIn : Bool) (st : State) (method : Verb) (directory body : Str) :
    Response × State :=
  match method with
  | .post =>
    -- There is an entity, and no id.
    if '/' ∈ directory then (badRequest, st)
    else if ¬ loggedIn then (badRequest, st)
    else handlePost root st directory body
  | .get =>
    -- A GET needs no login.
    if '/' ∈ directory then (handleGet root st directory, st)
    else (handleList root st directory, st)
  | .put =>
    if '/' ∉ directory then (badRequest, st)
    else if ¬ loggedIn then (badRequest, st)
    else handlePut root st directory body
  | .delete =>
    if '/' ∉ directory then (badRequest, st)
    else if ¬ loggedIn then (badRequest, st)
    else handleDelete root st directory
  | .other => (badRequest, st)

/-- `request_api_handler::handle_request`. -/
def handleRequest (root : Str) (profile : UserProfile) (st : State) (req : Request) :
    Response × State :=
  if req.target.take 5 ≠ "/api/".toList ∨ req.target = "/api/".toList then (badRequest, st)
  else dispatch root profile.loginStatus st req.method (req.target.drop 5) req.body

/-- The path for which `handle_request` asks the system whether it exists, or is a directory. -/
def checkedPath (root : Str) (profile : UserProfile) (req : Request) : Option Str :=
  if req.target.take 5 ≠ "/api/".toList ∨ req.target = "/api/".toList then none
  else
    let directory := req.target.drop 5
    let checked : Bool := match req.method with
      | .post => profile.loginStatus && decide ('/' ∉ directory)
      | .get => true
      | .put => profile.loginStatus && decide ('/' ∈ directory)
      | .delete => profile.loginStatus && decide ('/' ∈ directory)
      | .other => false
    if checked then some (root ++ '/' :: directory) else none

/-- What `handle_request` takes for a directory is what stands behind `/api/`, if something does. -/
theorem handleRequest_cases (root : Str) (profile : UserProfile) (st : State) (req : Request) :
    (req.target.take 5 ≠ "/api/".toList ∨ req.target.drop 5 = []) ∧
      handleRequest root profile st req = (badRequest, st) ∨
    req.target.take 5 = "/api/".toList ∧ req.target.drop 5 ≠ [] ∧
      handleRequest root profile st req =
        dispatch root profile.loginStatus st req.method (req.target.drop 5) req.body := by
  by_cases htake : req.target.take 5 = "/api/".toList
  · by_cases hdrop : req.target.drop 5 = []
    · refine .inl ⟨.inr hdrop, if_pos (.inr ?_)⟩
      rw [← List.take_append_drop 5 req.target, hdrop, htake, List.append_nil]
    · refine .inr ⟨htake, hdrop, if_neg ?_⟩
      rintro (h | h)
      · exact h htake
      · exact hdrop (by rw [h]; rfl)
  · exact .inl ⟨.inl htake, if_pos (.inl htake)⟩

/-- Without a login only a GET is more than a bad request. -/
theorem handleRequest_logged_out (root : Str) {profile : UserProfile} (st : State) {req : Request}
    (hlogin : profile.loginStatus = false) (hget : req.method ≠ .get) :
    handleRequest root profile st req = (badRequest, st) := by
  rcases handleRequest_cases root profile st req with ⟨-, heq⟩ | ⟨-, -, heq⟩
  · exact heq
  · rw [heq, hlogin]
    unfold dispatch
    cases hmethod : req.method with
    | get => exact absurd hmethod hget
    | post | put | delete => simp
    | other => rfl

/-- What a request can do. It leaves the state as it is, and is a bad request if it is a POST; or a
client that has logged in sends a POST for an entity, or a PUT or a DELETE for something in one. -/
theorem handleRequest_inversion (root : Str) (profile : UserProfile) (st : State) (req : Request) :
    (handleRequest root profile st req).2 = st ∧
      (req.method = .post → (handleRequest root profile st req).1 = badRequest) ∨
    ∃ directory, directory ≠ [] ∧ req.target = "/api/".toList ++ directory ∧
      profile.loginStatus = true ∧
      (req.method = .post ∧ '/' ∉ directory ∧
        handleRequest root profile st req = handlePost root st directory req.body ∨
      req.method = .put ∧ '/' ∈ directory ∧
        handleRequest root profile st req = handlePut root st directory req.body ∨
      req.method = .delete ∧ '/' ∈ directory ∧
        handleRequest root profile st req = handleDelete root st directory) := by
  rcases handleRequest_cases root profile st req with ⟨-, heq⟩ | ⟨htake, hne, heq⟩ <;> rw [heq]
  · exact .inl ⟨rfl, fun _ => rfl⟩
  have htarget : req.target = "/api/".toList ++ req.target.drop 5 := by
    rw [← htake, List.take_append_drop]
  -- The switch: each method tests the slash first, and the login behind it.
  unfold dispatch
  cases hmethod : req.method with
  | post =>
    simp only
    split_ifs with hslash hlogin
    · exact .inl ⟨rfl, fun _ => rfl⟩
    · exact .inr ⟨_, hne, htarget, hlogin, .inl ⟨trivial, hslash, rfl⟩⟩
    · exact .inl ⟨rfl, fun _ => rfl⟩
  | get =>
    simp only
    split_ifs <;> exact .inl ⟨rfl, by simp⟩
  | put =>
    simp only
    split_ifs with hslash hlogin
    · exact .inr ⟨_, hne, htarget, hlogin, .inr (.inl ⟨trivial, hslash, rfl⟩)⟩
    · exact .inl ⟨rfl, by simp⟩
    · exact .inl ⟨rfl, by simp⟩
  | delete =>
    simp only
    split_ifs with hslash hlogin
    · exact .inr ⟨_, hne, htarget, hlogin, .inr (.inr ⟨trivial, hslash, rfl⟩)⟩
    · exact .inl ⟨rfl, by simp⟩
    · exact .inl ⟨rfl, by simp⟩
  | other => exact .inl ⟨rfl, by simp⟩

/-! What a request does to the files is a few changes at one location each. What all of these keep
is kept by the request: a path goes on to name the same location, and directories stay. -/

section Keeps

variable {P : FileSystem → Prop} (hset : ∀ fs loc n, P fs → P (fs.set loc n))

include hset

/-- What changes at one location keep is kept by a POST. -/
theorem handlePost_keeps {st : State} (root : Str) (h : P st.fs) (directory body : Str) :
    P (handlePost root st directory body).2.fs := by
  cases hfs : (if st.fs.pathExists (root ++ '/' :: directory) then some st.fs
      else st.fs.createDirectory (root ++ '/' :: directory)) with
  | none => rwa [handlePost_eq_bad hfs]
  | some fs =>
    rw [handlePost_eq hfs]
    refine FileSystem.writeFile_keeps hset ?_ _ _
    split at hfs
    · exact Option.some.inj hfs ▸ h
    · exact FileSystem.createDirectory_keeps hset h hfs

/-- It is kept by a DELETE. -/
theorem handleDelete_keeps {st : State} (root : Str) (h : P st.fs) (directory : Str) :
    P (handleDelete root st directory).2.fs := by
  have hremove := FileSystem.removeFile_keeps hset h (root ++ '/' :: directory)
  rw [handleDelete_eq]
  split
  · split
    · exact h
    · split
      · exact h
      · -- The file is removed whether or not its id is in the index.
        dsimp only
        split
        · exact hremove
        · exact hremove
  · exact h

/-- It is kept by a PUT. -/
theorem handlePut_keeps {st : State} (root : Str) (h : P st.fs) (directory body : Str) :
    P (handlePut root st directory body).2.fs := by
  rw [handlePut_eq]
  split
  · split
    · exact h
    · exact FileSystem.writeFile_keeps hset h _ _
  · exact h

/-- It is kept by every request. -/
theorem handleRequest_keeps {st : State} (root : Str) (h : P st.fs) (profile : UserProfile)
    (req : Request) : P (handleRequest root profile st req).2.fs := by
  rcases handleRequest_inversion root profile st req with ⟨heq, -⟩ |
    ⟨directory, -, -, -, ⟨-, -, heq⟩ | ⟨-, -, heq⟩ | ⟨-, -, heq⟩⟩ <;> rw [heq]
  · exact h
  · exact handlePost_keeps hset root h directory req.body
  · exact handlePut_keeps hset root h directory req.body
  · exact handleDelete_keeps hset root h directory

end Keeps

section Resolve

variable {st : State} {path : Str} {loc : Location}

/-- Behind a POST a path names the same location. -/
theorem handlePost_resolve (root : Str) (h : st.fs.resolve path = some loc) (directory body : Str) :
    (handlePost root st directory body).2.fs.resolve path = some loc :=
  handlePost_keeps (P := fun fs => fs.resolve path = some loc)
    (fun _ _ _ h => FileSystem.resolve_set h _ _) root h directory body

/-- Behind a DELETE a path names the same location. -/
theorem handleDelete_resolve (root : Str) (h : st.fs.resolve path = some loc) (directory : Str) :
    (handleDelete root st directory).2.fs.resolve path = some loc :=
  handleDelete_keeps (P := fun fs => fs.resolve path = some loc)
    (fun _ _ _ h => FileSystem.resolve_set h _ _) root h directory

/-- Behind a PUT a path names the same location. -/
theorem handlePut_resolve (root : Str) (h : st.fs.resolve path = some loc) (directory body : Str) :
    (handlePut root st directory body).2.fs.resolve path = some loc :=
  handlePut_keeps (P := fun fs => fs.resolve path = some loc)
    (fun _ _ _ h => FileSystem.resolve_set h _ _) root h directory body

/-- Behind a request a path names the same location. -/
theorem handleRequest_resolve (root : Str) (st : State) (h : st.fs.resolve path = some loc)
    (profile : UserProfile) (req : Request) :
    (handleRequest root profile st req).2.fs.resolve path = some loc :=
  handleRequest_keeps (P := fun fs => fs.resolve path = some loc)
    (fun _ _ _ h => FileSystem.resolve_set h _ _) root h profile req

/-- Behind a request a directory is one. -/
theorem handleRequest_directory (root : Str) (h : st.fs.node loc = some .directory)
    (profile : UserProfile) (req : Request) :
    (handleRequest root profile st req).2.fs.node loc = some .directory :=
  handleRequest_keeps (P := fun fs => fs.node loc = some .directory)
    (fun _ _ _ h => FileSystem.set_directory h) root h profile req

end Resolve

/-- A target `/api/` with something behind it. -/
theorem handleRequest_eq (root : Str) (profile : UserProfile) (st : State) (method : Verb)
    {directory : Str} (hne : directory ≠ []) (body : Str) :
    handleRequest root profile st ⟨method, "/api/".toList ++ directory, body⟩ =
      dispatch root profile.loginStatus st method directory body := by
  rcases handleRequest_cases root profile st ⟨method, "/api/".toList ++ directory, body⟩ with
    ⟨h | h, -⟩ | ⟨-, -, h⟩
  · exact absurd rfl h
  · exact absurd h hne
  · exact h

/-- One request: a handler is made, over the entries below the root in the order of the listing, and
it handles the request. -/
def serve (root : Str) (listing : List (List Str)) (profile : UserProfile) (st : State)
    (req : Request) : Except ScanError (Response × State) :=
  match construct root listing st with
  | .ok pathCounts => .ok (handleRequest root profile ⟨st.fs, pathCounts⟩ req)
  | .error error => .error error

end CrazyCode.Api
