import CrazyCode.Library.Decimal
import CrazyCode.Library.Recogniser

/-!
# The request parser

`request_parser` of `src/request_parser.cc`, a machine of twenty states that reads a request byte by
byte. `consume` is one byte, and `parse` the loop over an input: it returns the result, and its
second iterator as what is left of the input. `parse_eq_feed` is the loop as that of a recogniser.

A byte is handed to the tests of characters as a `char` that is promoted to `int`, so the bytes
above 127 are negative. The two numbers of the version are `int`s, which a `request` leaves unset at
first. `headers.back()` of an empty list has no defined behaviour, and is `none`.
-/

namespace CrazyCode.Http

open Decimal Recogniser

/-- A string of bytes. -/
abbrev Bytes := List UInt8

/-- The byte of a character. -/
def byte (c : Char) : UInt8 := c.toUInt8

/-- `header`. -/
structure Header where
  name : Bytes
  value : Bytes
deriving DecidableEq, Repr

/-- `request`. -/
structure Request where
  originalReq : Bytes
  method : Bytes
  uri : Bytes
  httpVersionMajor : ℤ
  httpVersionMinor : ℤ
  headers : List Header
deriving DecidableEq, Repr

/-- An empty request. Its version numbers are not initialised. -/
def Request.empty (major minor : ℤ) : Request := ⟨[], [], [], major, minor, []⟩

/-- `request_parser::parse_result`. -/
abbrev ParseResult := Verdict

/-- `request_parser::state`. -/
inductive State where
  | methodStart
  | method
  | uri
  | httpVersionH
  | httpVersionT1
  | httpVersionT2
  | httpVersionP
  | httpVersionSlash
  | httpVersionMajorStart
  | httpVersionMajor
  | httpVersionMinorStart
  | httpVersionMinor
  | expectingNewline1
  | headerLineStart
  | headerLws
  | headerName
  | spaceBeforeHeaderValue
  | headerValue
  | expectingNewline2
  | expectingNewline3
deriving DecidableEq, Repr

/-! ## Characters -/

/-- A `char` as an `int`. -/
def toInt (input : UInt8) : ℤ := if input.toNat < 128 then input.toNat else input.toNat - 256

/-- `request_parser::is_char`. -/
def isChar (c : ℤ) : Bool := 0 ≤ c && c ≤ 127

/-- `request_parser::is_ctl`. -/
def isCtl (c : ℤ) : Bool := (0 ≤ c && c ≤ 31) || c = 127

/-- The cases of `request_parser::is_tspecial`. -/
def tspecials : List Char :=
  ['(', ')', '<', '>', '@', ',', ';', ':', '\\', '"', '/', '[', ']', '?', '=', '\x7b', '\x7d',
    ' ', '\t']

/-- `request_parser::is_tspecial`. -/
def isTspecial (c : ℤ) : Bool := tspecials.any fun d => c = d.toNat

/-- `request_parser::is_digit`. -/
def isDigit (c : ℤ) : Bool := '0'.toNat ≤ c && c ≤ '9'.toNat

/-- The test that the states of methods and of header names make of a byte. -/
def isRefused (input : UInt8) : Bool :=
  !isChar (toInt input) || isCtl (toInt input) || isTspecial (toInt input)

/-! ## The machine -/

/-- `version * 10 + input - '0'`, from left to right. For the numbers from 2147483600 on the sum is
not one of `int`, so that it is formally undefined; it is taken to wrap, and the difference wraps
back. -/
def pushDigit (version : ℤ) (input : UInt8) : ℤ :=
  wrap (wrap (wrap (version * 10) + toInt input) - '0'.toNat)

/-- `headers.back().name.push_back(input)`. -/
def pushName (headers : List Header) (input : UInt8) : Option (List Header) :=
  headers.getLast?.map fun back =>
    headers.dropLast ++ [{ back with name := back.name ++ [input] }]

/-- `headers.back().value.push_back(input)`. -/
def pushValue (headers : List Header) (input : UInt8) : Option (List Header) :=
  headers.getLast?.map fun back =>
    headers.dropLast ++ [{ back with value := back.value ++ [input] }]

/-- `request_parser::consume`: the result, the next state, and the request. -/
def consume (state : State) (req : Request) (input : UInt8) :
    Option (ParseResult × State × Request) :=
  -- The byte is kept in any case, also when it is bad.
  let req := { req with originalReq := req.originalReq ++ [input] }
  match state with
  | .methodStart =>
    if isRefused input then some (.bad, state, req)
    else some (.indeterminate, .method, { req with method := req.method ++ [input] })
  | .method =>
    if input = byte ' ' then some (.indeterminate, .uri, req)
    else if isRefused input then some (.bad, state, req)
    else some (.indeterminate, state, { req with method := req.method ++ [input] })
  | .uri =>
    if input = byte ' ' then some (.indeterminate, .httpVersionH, req)
    else if isCtl (toInt input) then some (.bad, state, req)
    else some (.indeterminate, state, { req with uri := req.uri ++ [input] })
  | .httpVersionH =>
    if input = byte 'H' then some (.indeterminate, .httpVersionT1, req) else some (.bad, state, req)
  | .httpVersionT1 =>
    if input = byte 'T' then some (.indeterminate, .httpVersionT2, req) else some (.bad, state, req)
  | .httpVersionT2 =>
    if input = byte 'T' then some (.indeterminate, .httpVersionP, req) else some (.bad, state, req)
  | .httpVersionP =>
    if input = byte 'P' then some (.indeterminate, .httpVersionSlash, req)
    else some (.bad, state, req)
  | .httpVersionSlash =>
    if input = byte '/' then
      some (.indeterminate, .httpVersionMajorStart,
        { req with httpVersionMajor := 0, httpVersionMinor := 0 })
    else some (.bad, state, req)
  | .httpVersionMajorStart =>
    if isDigit (toInt input) then
      some (.indeterminate, .httpVersionMajor,
        { req with httpVersionMajor := pushDigit req.httpVersionMajor input })
    else some (.bad, state, req)
  | .httpVersionMajor =>
    if input = byte '.' then some (.indeterminate, .httpVersionMinorStart, req)
    else if isDigit (toInt input) then
      some (.indeterminate, state,
        { req with httpVersionMajor := pushDigit req.httpVersionMajor input })
    else some (.bad, state, req)
  | .httpVersionMinorStart =>
    if isDigit (toInt input) then
      some (.indeterminate, .httpVersionMinor,
        { req with httpVersionMinor := pushDigit req.httpVersionMinor input })
    else some (.bad, state, req)
  | .httpVersionMinor =>
    if input = byte '\r' then some (.indeterminate, .expectingNewline1, req)
    else if isDigit (toInt input) then
      some (.indeterminate, state,
        { req with httpVersionMinor := pushDigit req.httpVersionMinor input })
    else some (.bad, state, req)
  | .expectingNewline1 =>
    if input = byte '\n' then some (.indeterminate, .headerLineStart, req)
    else some (.bad, state, req)
  | .headerLineStart =>
    if input = byte '\r' then some (.indeterminate, .expectingNewline3, req)
    -- A line that begins with white space goes on with the last header, if there is one.
    else if req.headers ≠ [] ∧ (input = byte ' ' ∨ input = byte '\t') then
      some (.indeterminate, .headerLws, req)
    else if isRefused input then some (.bad, state, req)
    else some (.indeterminate, .headerName, { req with headers := req.headers ++ [⟨[input], []⟩] })
  | .headerLws =>
    if input = byte '\r' then some (.indeterminate, .expectingNewline2, req)
    else if input = byte ' ' ∨ input = byte '\t' then some (.indeterminate, state, req)
    else if isCtl (toInt input) then some (.bad, state, req)
    else (pushValue req.headers input).map fun headers =>
      (.indeterminate, .headerValue, { req with headers })
  | .headerName =>
    if input = byte ':' then some (.indeterminate, .spaceBeforeHeaderValue, req)
    else if isRefused input then some (.bad, state, req)
    else (pushName req.headers input).map fun headers =>
      (.indeterminate, state, { req with headers })
  | .spaceBeforeHeaderValue =>
    if input = byte ' ' then some (.indeterminate, .headerValue, req) else some (.bad, state, req)
  | .headerValue =>
    if input = byte '\r' then some (.indeterminate, .expectingNewline2, req)
    else if isCtl (toInt input) then some (.bad, state, req)
    else (pushValue req.headers input).map fun headers =>
      (.indeterminate, state, { req with headers })
  | .expectingNewline2 =>
    if input = byte '\n' then some (.indeterminate, .headerLineStart, req)
    else some (.bad, state, req)
  | .expectingNewline3 =>
    -- Behind the request the state is not reset.
    if input = byte '\n' then some (.good, state, req) else some (.bad, state, req)

/-- `request_parser::parse`: the result, what is left of the input, the state, and the request. -/
def parse (state : State) (req : Request) :
    Bytes → Option (ParseResult × Bytes × State × Request)
  | [] => some (.indeterminate, [], state, req)
  | input :: rest =>
    match consume state req input with
    | none => none
    | some (result, state, req) =>
      if result ≠ .indeterminate then some (result, rest, state, req) else parse state req rest

/-- `consume` as the step of a recogniser. -/
def step (s : State × Request) (input : UInt8) : Option (Verdict × State × Request) :=
  consume s.1 s.2 input

/-- `parse` is the loop of a recogniser. -/
theorem parse_eq_feed (state : State) (req : Request) (input : Bytes) :
    parse state req input = feed step (state, req) input := by
  induction input generalizing state req with
  | nil => rfl
  | cons c input ih =>
    rw [parse, feed]
    have hstep : step (state, req) c = consume state req c := rfl
    rw [hstep]
    cases consume state req c with
    | none => rfl
    | some out =>
      obtain ⟨result, state', req'⟩ := out
      cases result with
      | indeterminate => exact ih state' req'
      | good | bad => rfl

/-- A byte that is read is behind those that were read before. -/
theorem originalReq_consume {state state' : State} {req req' : Request} {input : UInt8}
    {result : ParseResult} (h : consume state req input = some (result, state', req')) :
    req'.originalReq = req.originalReq ++ [input] := by
  unfold consume at h
  cases state <;> dsimp only at h <;> split_ifs at h <;>
    simp only [Option.some.injEq, Prod.mk.injEq, Option.map_eq_some_iff] at h <;>
    first
      | exact h.2.2 ▸ rfl
      | (obtain ⟨headers, -, -, -, rfl⟩ := h; rfl)

/-- `parse` keeps what it reads, and leaves the rest. -/
theorem originalReq_parse {state state' : State} {req req' : Request} {input rest : Bytes}
    {result : ParseResult} (h : parse state req input = some (result, rest, state', req')) :
    ∃ pre, input = pre ++ rest ∧ req'.originalReq = req.originalReq ++ pre := by
  induction input generalizing state req with
  | nil =>
    obtain ⟨-, rfl, -, rfl⟩ := by simpa [parse] using h
    exact ⟨[], rfl, (List.append_nil _).symm⟩
  | cons c input ih =>
    rw [parse] at h
    split at h
    · cases h
    · next result₁ state₁ req₁ hconsume =>
      have hreq := originalReq_consume hconsume
      split at h
      · simp only [Option.some.injEq, Prod.mk.injEq] at h
        obtain ⟨-, rfl, -, rfl⟩ := h
        exact ⟨[c], rfl, hreq⟩
      · obtain ⟨pre, rfl, hpre⟩ := ih h
        exact ⟨c :: pre, rfl, by rw [hpre, hreq, List.append_assoc]; rfl⟩

end CrazyCode.Http
