import CrazyCode.Library.FileSystem
import CrazyCode.Profile.Manager
import CrazyCode.Server.Message
import CrazyCode.Server.Router

/-!
# The authentication handler

`request_authentication_handler` of `src/request_authentication_handler.cc`, and the factory that
makes it. The user database is the file `user_database.txt` in the directory of its data path, which
the functions of the profile manager work on.

An answer is a response and its `Set-Cookie` header, which is empty if there is none. A request for
a verification mail is answered by another server, and has no answer here.
-/

namespace CrazyCode.Session

open Text Posix Profile Server

/-- A response and its `Set-Cookie` header. -/
abbrev Answer := Response × Str

/-- `request_authentication_handler`. -/
structure AuthenticationHandler where
  location : Str
  root : Str
  dataPath : Str
  signup : Str
  login : Str
  logout : Str

/-- `authentication_handler_factory::create`. -/
def createAuthentication (factory : Factory) (location : Str) : AuthenticationHandler :=
  let pathMap := getAuthPathMap factory.config location
  ⟨location, pathMap "root".toList, pathMap "data_path".toList, pathMap "signup".toList,
    pathMap "login".toList, pathMap "logout".toList⟩

/-- The bytes of a page, and none if it is not there. -/
def readPage (fs : FileSystem) (path : Str) : Str :=
  if fs.pathExists path ∧ fs.isRegularFile path then (fs.readFile path).getD [] else []

/-- What the profile manager sees of the database at a path. -/
def readDatabase (fs : FileSystem) (path : Str) : Option Str :=
  if fs.pathExists path then some ((fs.readFile path).getD []) else none

/-- The database that the profile manager writes. -/
def writeDatabase (fs : FileSystem) (path : Str) : Option Str → FileSystem
  | some content => fs.writeFile path content
  | none => fs

/-- `request_authentication_handler::handle_request`; `none` is an exception, or the request for a
mail. -/
def AuthenticationHandler.handleRequest (h : AuthenticationHandler) (hash : PasswordHash)
    (fs : FileSystem) (req : Request) : Option (Answer × FileSystem) :=
  let dataPath := h.dataPath ++ "/".toList ++ "user_database.txt".toList
  if h.location ++ h.login = req.target then
    some ((html 200 (readPage fs (h.root ++ "/login.html".toList)), []), fs)
  else if h.location ++ h.login ++ "-submit".toList = req.target then
    match updateCookie hash (readDatabase fs dataPath) req.body with
    | .ok newCookie =>
      if newCookie ≠ [] then
        some ((⟨200, [], []⟩, "crazyCode=".toList ++ newCookie ++ "; Path=/".toList), fs)
      else some ((⟨400, [], []⟩, []), fs)
    | .error _ => none
  else if h.location ++ h.logout = req.target then
    some ((⟨200, [], []⟩, "crazyCode=; Path=/; Max-Age=0".toList), fs)
  else if h.location ++ h.signup = req.target then
    some ((html 200 (readPage fs (h.root ++ "/signup.html".toList)), []), fs)
  else if h.location ++ h.signup ++ "-submit".toList = req.target then
    match signupString hash (readDatabase fs dataPath) req.body with
    | (false, _) => some ((badRequest, []), fs)
    | (true, database) => some ((⟨200, [], "OK".toList⟩, []), writeDatabase fs dataPath database)
  else if h.location ++ h.signup ++ "-send-verification".toList = req.target then none
  else some ((notFound, []), fs)

end CrazyCode.Session
