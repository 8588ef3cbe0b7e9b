import CrazyCode.Library.Text

/-!
# Requests and responses

What the handlers read of a `bhttp::request`, and what they write to a `bhttp::response`.
-/

namespace CrazyCode.Server

open Text

/-- `bhttp::verb`, as far as the handlers tell its values apart. -/
inductive Verb where
  | post
  | get
  | put
  | delete
  | other
deriving DecidableEq, Repr

/-- What the handlers read of a request. -/
structure Request where
  method : Verb
  target : Str
  body : Str
deriving DecidableEq

/-- A response: its status, its content type and its body. The content length is that of the
body. -/
structure Response where
  status : ℕ
  contentType : Str
  body : Str
deriving DecidableEq

/-- A response with an HTML page. -/
def html (status : ℕ) (body : Str) : Response := ⟨status, "text/html".toList, body⟩

/-- `reply::stock_reply(400)`, as the handlers send it. -/
def badRequest : Response :=
  html 400 ("<html><head><title>Bad Request</title></head>" ++
    "<body><h1>400 Bad Request</h1></body></html>").toList

/-- `reply::stock_reply(404)`, as the handlers send it. -/
def notFound : Response :=
  html 404 ("<html><head><title>Not Found</title></head>" ++
    "<body><h1>404 Not Found</h1></body></html>").toList

end CrazyCode.Server
