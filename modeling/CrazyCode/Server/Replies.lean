import CrazyCode.Library.Decimal
import CrazyCode.Server.Message

/-!
# Stock replies

`reply::stock_reply` of `src/reply.cc`: a page for each status code that it knows, and nothing for
the others. The two pages that `Server/Message` writes out are those of their codes.
-/

namespace CrazyCode.Server

open Text Decimal

/-- The codes that have a page, with its title and its heading behind the code. -/
def stockReplies : List (ℕ × String × String) :=
  [(201, "Created", "Created"), (202, "Accepted", "Accepted"), (204, "No Content", "Content"),
    (300, "Multiple Choices", "Multiple Choices"), (301, "Moved Permanently", "Moved Permanently"),
    (302, "Moved Temporarily", "Moved Temporarily"), (304, "Not Modified", "Not Modified"),
    (400, "Bad Request", "Bad Request"), (401, "Unauthorized", "Unauthorized"),
    (403, "Forbidden", "Forbidden"), (404, "Not Found", "Not Found"),
    (500, "Internal Server Error", "Internal Server Error"),
    (501, "Not Implemented", "Not Implemented"), (502, "Bad Gateway", "Bad Gateway"),
    (503, "Service Unavailable", "Service Unavailable")]

/-- A page with a title, and a heading that begins with the code. -/
def stockPage (errCode : ℕ) (title heading : String) : Str :=
  "<html><head><title>".toList ++ title.toList ++ "</title></head><body><h1>".toList ++
    decimal errCode ++ ' ' :: heading.toList ++ "</h1></body></html>".toList

/-- `reply::stock_reply`. -/
def stockReply (errCode : ℕ) : Str :=
  match stockReplies.find? fun m => m.1 = errCode with
  | some m => stockPage errCode m.2.1 m.2.2
  | none => []

/-- The page for a bad request. -/
theorem badRequest_eq : badRequest = html 400 (stockReply 400) := by decide

/-- The page for a target that is not found. -/
theorem notFound_eq : notFound = html 404 (stockReply 404) := by decide

end CrazyCode.Server
