import CrazyCode.Library.FileSystem
import CrazyCode.Server.Message
import CrazyCode.Server.Router

/-!
# Static files

`request_static_handler` of `src/request_static_handler.cc`, and the factory that makes it for a
location and its root. The path of the file is the root, a slash, and what is left of the target
when the location is cut off its front and the slashes off its end.

The target that is cut is never too short for the location, if the router has sent it there by a
table of trimmed endpoints (`fileName_of_match`): the router shortens a target at its slashes and
the handler trims it, and both leave what the location has to be a prefix of.

`..` is not looked for. `serves_below_iff` says exactly for which targets a file that is served is
below the root: for those that lead back below it (`StaysBelow`).
-/

namespace CrazyCode.Static

open Text Posix Server

/-- `mime_types::mappings`. -/
def mappings : List (Str × Str) :=
  [("gif", "image/gif"), ("htm", "text/html"), ("html", "text/html"), ("jpg", "image/jpeg"),
    ("jpeg", "image/jpeg"), ("png", "image/png"), ("txt", "text/plain"),
    ("zip", "application/zip")].map fun m => (m.1.toList, m.2.toList)

/-- `mime_types::extension_to_type`. -/
def extensionToType (extension : Str) : Str :=
  match mappings.find? fun m => m.1 = extension with
  | some m => m.2
  | none => "text/plain".toList

/-- `request_static_handler`. -/
structure StaticHandler where
  location : Str
  root : Str

/-- `static_handler_factory::create`. -/
def create (factory : Factory) (location : Str) : StaticHandler :=
  ⟨location, getRoot factory.config location⟩

namespace StaticHandler

/-- What is left of a target behind the location, and `none` for the `std::out_of_range` of
`substr`. -/
def fileName (h : StaticHandler) (target : Str) : Option Str :=
  if h.location.length ≤ (trimSlashes target).length then
    some ((trimSlashes target).drop h.location.length)
  else none

/-- The path for which `handle_request` asks the system whether it exists. -/
def checkedPath (h : StaticHandler) (target : Str) : Option Str :=
  (h.fileName target).map fun fileName => h.root ++ '/' :: fileName

/-- The extension of a file name, without its dot. -/
def extension (fileName : Str) : Str :=
  match splitLast '.' fileName with
  | some (_, behind) => behind
  | none => []

/-- `request_static_handler::handle_request`; `none` is an exception. -/
def handleRequest (h : StaticHandler) (fs : FileSystem) (target : Str) : Option Response :=
  match h.fileName target with
  | none => none
  | some fileName =>
    let fullPath := h.root ++ '/' :: fileName
    if ¬ fs.pathExists fullPath ∨ ¬ fs.isRegularFile fullPath then some notFound
    else some ⟨200, extensionToType (extension fileName), (fs.readFile fullPath).getD []⟩

end StaticHandler

/-- If the answer is 200, its body is the bytes of a file below the root, with the `.` and `..` of
its path resolved. -/
def ServesBelow (h : StaticHandler) (fs : FileSystem) (target : Str) : Prop :=
  ∀ res, h.handleRequest fs target = some res → res.status = 200 →
    ∃ fileName, h.fileName target = some fileName ∧
      fs.node (fs.place (h.root ++ '/' :: fileName)) = some (.file res.body) ∧
      Below (fs.place (h.root ++ ['/'])) (fs.place (h.root ++ '/' :: fileName))

/-- The components of a path behind those of the root. A zero byte in the root hides them. -/
def behindRoot (root fileName : Str) : List Str :=
  if nul ∈ root then [] else (cstr fileName).splitOn '/'

section

variable {fs : FileSystem}

/-- A file is below the root when the components behind the root lead back below it. -/
theorem below_place_iff (root fileName : Str) :
    Below (fs.place (root ++ ['/'])) (fs.place (root ++ '/' :: fileName)) ↔
      StaysBelow (fs.place (root ++ ['/'])) (behindRoot root fileName) := by
  rw [behindRoot, ← below_normalize_iff]
  split
  · next hnul =>
    rw [FileSystem.place_append_of_mem hnul, FileSystem.place_append_of_mem hnul]
    rfl
  · next hnul => rw [FileSystem.place_append hnul fileName]

/-- The answer is 200 exactly for a regular file, whose bytes it has. -/
theorem handleRequest_eq (fs : FileSystem) (h : StaticHandler) {target fileName : Str}
    (hname : h.fileName target = some fileName) :
    h.handleRequest fs target = some
      (match fs.readFile (h.root ++ '/' :: fileName) with
      | some content => ⟨200, extensionToType (StaticHandler.extension fileName), content⟩
      | none => notFound) := by
  unfold StaticHandler.handleRequest
  rw [hname]
  simp only [FileSystem.isRegularFile]
  rcases (fs.readFile (h.root ++ '/' :: fileName)).eq_none_or_eq_some with hread | ⟨content, hread⟩
  · simp [hread]
  · have hexists : fs.pathExists (h.root ++ '/' :: fileName) = true := by
      rw [FileSystem.pathExists, FileSystem.readFile_eq_some.mp hread]
      rfl
    simp [hread, hexists]

/-- What is served for a table of routes, and a target that it sends to a static location: a file
below the root exactly when there is no regular file, or the target leads back below the root. -/
theorem serves_below_iff (routes : Routes) (target : Str) (factory : Factory) :
    routes (matchRoute routes target) = some factory → factory.kind = .staticHandler →
    let h := create factory (matchRoute routes target)
    ServesBelow h fs target ↔ ∀ fileName, h.fileName target = some fileName →
      fs.isRegularFile (h.root ++ '/' :: fileName) = true →
      StaysBelow (fs.place (h.root ++ ['/'])) (behindRoot h.root fileName) := by
  intro _ _ h
  constructor
  · intro hserves fileName hname hregular
    obtain ⟨content, hread⟩ := Option.isSome_iff_exists.mp hregular
    have heq := handleRequest_eq fs h hname
    rw [hread] at heq
    obtain ⟨fileName', hname', -, hbelow⟩ := hserves _ heq rfl
    obtain rfl := Option.some.inj (hname.symm.trans hname')
    exact (below_place_iff _ _).mp hbelow
  · intro hstays res hres hok
    cases hname : h.fileName target with
    | none => simp [StaticHandler.handleRequest, hname] at hres
    | some fileName =>
      rw [handleRequest_eq fs h hname] at hres
      cases hread : fs.readFile (h.root ++ '/' :: fileName) with
      | none =>
        rw [hread] at hres
        rw [← Option.some.inj hres] at hok
        cases hok
      | some content =>
        rw [hread] at hres
        obtain ⟨loc, hloc, hnode⟩ :=
          FileSystem.lookup_eq_some.mp (FileSystem.readFile_eq_some.mp hread)
        refine ⟨fileName, rfl, ?_, (below_place_iff _ _).mpr (hstays fileName hname ?_)⟩
        · rw [FileSystem.place_eq_of_resolve hloc, ← Option.some.inj hres]
          exact hnode
        · rw [FileSystem.isRegularFile, hread]
          rfl

end

/-! ## The cut of the target -/

/-- The location that a target is sent to is no longer than the trimmed target, and a prefix of it
if it is one of the target, when all keys of the table are trimmed. -/
theorem match_trimSlashes {routes : Routes}
    (hkeys : ∀ key, (routes key).isSome → trimSlashes key = key) {target : Str}
    (hne : target ≠ []) :
    (matchRoute routes target).length ≤ (trimSlashes target).length ∧
      (matchRoute routes target <+: target → matchRoute routes target <+: trimSlashes target) := by
  rcases matchRoute_isLongest routes target with ⟨hkey, hcovers, -⟩ | ⟨-, hhome⟩
  · have hpre := isPrefix_trimSlashes (hkeys _ hkey) hcovers.isPrefix
    exact ⟨hpre.length_le, fun _ => hpre⟩
  · -- Without a key the location is `/`, which need not be a prefix: the target may be `*`.
    rw [hhome]
    have hpos : 0 < (trimSlashes target).length :=
      List.length_pos_iff.mpr (trimSlashes_ne_nil hne)
    exact ⟨hpos, isPrefix_trimSlashes (by decide)⟩

/-- With trimmed keys, a target that is sent to a static location is never too short for it, and the
file name that is looked up is what stands behind the location in the trimmed target, if the
location is a prefix of the target. -/
theorem fileName_of_match {routes : Routes}
    (hkeys : ∀ key, (routes key).isSome → trimSlashes key = key) {target : Str} (hne : target ≠ [])
    (factory : Factory) : routes (matchRoute routes target) = some factory →
    factory.kind = .staticHandler →
    let h := create factory (matchRoute routes target)
    h.location.length ≤ (trimSlashes target).length ∧ (h.fileName target).isSome ∧
      (h.location <+: target →
        ∃ fileName, h.fileName target = some fileName ∧
          trimSlashes target = h.location ++ fileName) := by
  intro _ _ h
  obtain ⟨hle, hpre⟩ := match_trimSlashes hkeys hne
  have hcut : h.fileName target = some ((trimSlashes target).drop h.location.length) := if_pos hle
  refine ⟨hle, by rw [hcut]; rfl, fun hlocation => ⟨_, hcut, ?_⟩⟩
  exact List.prefix_append_drop (hpre hlocation)

/-- A factory for static files, with one location `/static1`, whose root is `/r`. -/
def static1 : Factory :=
  ⟨.staticHandler, [{ type := .static_, endpoint := "/static1".toList, root := "/r".toList }]⟩

/-- A table with this location. -/
def oneLocation : Routes := fun location =>
  if location = "/static1".toList then some static1 else none

/-- A target with a slash behind the location: nothing is left of it. -/
theorem fileName_of_match_slash :
    let h := create static1 "/static1".toList
    h.location.length ≤ (trimSlashes "/static1/".toList).length ∧
      (h.fileName "/static1/".toList).isSome ∧
      (h.location <+: "/static1/".toList →
        ∃ fileName, h.fileName "/static1/".toList = some fileName ∧
          trimSlashes "/static1/".toList = h.location ++ fileName) := by
  have hmatch : matchRoute oneLocation "/static1/".toList = "/static1".toList := by
    rw [matchRoute, if_neg (by decide)]
    show matchRoute oneLocation "/static1".toList = "/static1".toList
    rw [matchRoute, if_pos (by decide)]
  have hkeys : ∀ key, (oneLocation key).isSome → trimSlashes key = key := by
    intro key hkey
    by_cases hstatic : key = "/static1".toList
    · rw [hstatic]
      decide
    · rw [oneLocation, if_neg hstatic] at hkey
      cases hkey
  have hcut := @fileName_of_match oneLocation hkeys "/static1/".toList (by simp) static1
  rw [hmatch] at hcut
  exact hcut rfl rfl

/-- A file `/r/a.txt`, and a file `/secret` beside the root. -/
def besideStatic : FileSystem :=
  ((FileSystem.empty.set ["r".toList] (some .directory)).set ["r".toList, "a.txt".toList]
    (some (.file "a".toList))).set ["secret".toList] (some (.file "s".toList))

/-- A file below the root is served. -/
theorem serves_below_file :
    ServesBelow (create static1 (matchRoute oneLocation "/static1/a.txt".toList)) besideStatic
      "/static1/a.txt".toList := by
  have hmatch : matchRoute oneLocation "/static1/a.txt".toList = "/static1".toList := by
    rw [matchRoute, if_neg (by decide)]
    show matchRoute oneLocation "/static1".toList = "/static1".toList
    rw [matchRoute, if_pos (by decide)]
  refine (serves_below_iff oneLocation _ static1 (by rw [hmatch]; rfl) rfl).mpr ?_
  rw [hmatch]
  intro fileName hname _
  obtain rfl : "/a.txt".toList = fileName := by
    have hcut : (create static1 "/static1".toList).fileName "/static1/a.txt".toList =
      some "/a.txt".toList := by decide +kernel
    exact Option.some.inj (hcut.symm.trans hname)
  decide +kernel

/-- A target with `..` in it gets the bytes of a file beside the root. -/
theorem not_serves_below : ¬ ∀ (routes : Routes) (target : Str) (factory : Factory)
    (fs : FileSystem), routes (matchRoute routes target) = some factory →
    factory.kind = .staticHandler →
    ServesBelow (create factory (matchRoute routes target)) fs target := fun h => by
  have hmatch : matchRoute oneLocation "/static1/../secret".toList = "/static1".toList := by
    rw [matchRoute, if_neg (by decide)]
    show matchRoute oneLocation "/static1/..".toList = "/static1".toList
    rw [matchRoute, if_neg (by decide)]
    show matchRoute oneLocation "/static1".toList = "/static1".toList
    rw [matchRoute, if_pos (by decide)]
  have hserves := h oneLocation "/static1/../secret".toList static1 besideStatic
    (by rw [hmatch]; rfl) rfl
  rw [hmatch] at hserves
  have hanswer : (create static1 "/static1".toList).handleRequest besideStatic
      "/static1/../secret".toList = some ⟨200, "text/plain".toList, "s".toList⟩ := by
    decide +kernel
  obtain ⟨fileName, hname, -, hbelow⟩ := hserves _ hanswer rfl
  obtain rfl : "/../secret".toList = fileName := by
    have hcut : (create static1 "/static1".toList).fileName "/static1/../secret".toList =
      some "/../secret".toList := by decide +kernel
    exact Option.some.inj (hcut.symm.trans hname)
  exact absurd hbelow (by decide +kernel)

end CrazyCode.Static
