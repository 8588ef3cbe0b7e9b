import CrazyCode.Http.Reading

/-!
# What the request parser recognises

`Begun pre state req` says what the state and the request are behind the bytes `pre` while there is
no verdict: `pre` is the beginning of a message, and the request has its parts. Every byte keeps it,
and the last one of a message is good (`Begun.step`); and what has begun can be completed
(`Begun.viable`). Together with the reading of every message these are what a recogniser needs
(`recognises`), and `parse_recognises` is the outcome of every input.
-/

namespace CrazyCode.Http

open Decimal Recogniser

/-- The beginnings of `HTTP/`, and the states behind them. -/
inductive VersionPrefix : Bytes → State → Prop
  | h : VersionPrefix [] .httpVersionH
  | t1 : VersionPrefix [byte 'H'] .httpVersionT1
  | t2 : VersionPrefix [byte 'H', byte 'T'] .httpVersionT2
  | p : VersionPrefix [byte 'H', byte 'T', byte 'T'] .httpVersionP
  | slash : VersionPrefix [byte 'H', byte 'T', byte 'T', byte 'P'] .httpVersionSlash

/-- A beginning of `HTTP/` can be completed. -/
theorem VersionPrefix.exists_append {h : Bytes} {state : State} (hh : VersionPrefix h state) :
    ∃ t, h ++ t = httpSlash := by
  cases hh <;> exact ⟨_, rfl⟩

/-- The method, the URI and `HTTP/`. -/
def versionText (m u : Bytes) : Bytes := m ++ byte ' ' :: (u ++ byte ' ' :: httpSlash)

/-- A request line and the header lines behind it. -/
def linedText (line : RequestLine) (lines : List HeaderLine) : Bytes :=
  line.text ++ linesText lines

/-- The state and the request behind some bytes with which a message can begin, from a request with
the version numbers `a` and `b`. -/
inductive Begun (a b : ℤ) : Bytes → State → Request → Prop
  | methodStart : Begun a b [] .methodStart (.empty a b)
  | method {m : Bytes} : IsToken m → Begun a b m .method ⟨m, m, [], a, b, []⟩
  | uri {pre m u : Bytes} : IsToken m → IsUri u → pre = m ++ byte ' ' :: u →
      Begun a b pre .uri ⟨pre, m, u, a, b, []⟩
  | http {pre m u h : Bytes} {state : State} : IsToken m → IsUri u → VersionPrefix h state →
      pre = m ++ byte ' ' :: (u ++ byte ' ' :: h) → Begun a b pre state ⟨pre, m, u, a, b, []⟩
  | majorStart {pre m u : Bytes} : IsToken m → IsUri u → pre = versionText m u →
      Begun a b pre .httpVersionMajorStart ⟨pre, m, u, 0, 0, []⟩
  | major {pre m u d : Bytes} : IsToken m → IsUri u → IsDigits d → pre = versionText m u ++ d →
      Begun a b pre .httpVersionMajor ⟨pre, m, u, version d, 0, []⟩
  | minorStart {pre m u d : Bytes} : IsToken m → IsUri u → IsDigits d →
      pre = versionText m u ++ d ++ [byte '.'] →
      Begun a b pre .httpVersionMinorStart ⟨pre, m, u, version d, 0, []⟩
  | minor {pre m u d e : Bytes} : IsToken m → IsUri u → IsDigits d → IsDigits e →
      pre = versionText m u ++ d ++ [byte '.'] ++ e →
      Begun a b pre .httpVersionMinor ⟨pre, m, u, version d, version e, []⟩
  | newline1 {pre : Bytes} (line : RequestLine) : pre ++ [byte '\n'] = line.text →
      Begun a b pre .expectingNewline1 (line.request pre [])
  | lineStart {pre : Bytes} (line : RequestLine) (lines : List HeaderLine) : FieldFirst lines →
      pre = linedText line lines →
      Begun a b pre .headerLineStart (line.request pre (headersOf lines))
  | lws {pre blanks : Bytes} (line : RequestLine) (lines : List HeaderLine) {headers : List Header}
      {header : Header} : FieldFirst lines → headersOf lines = headers ++ [header] →
      IsBlanks blanks → pre = linedText line lines ++ blanks →
      Begun a b pre .headerLws (line.request pre (headers ++ [header]))
  | name {pre name : Bytes} (line : RequestLine) (lines : List HeaderLine) : FieldFirst lines →
      IsToken name → pre = linedText line lines ++ name →
      Begun a b pre .headerName (line.request pre (headersOf lines ++ [⟨name, []⟩]))
  | space {pre name : Bytes} (line : RequestLine) (lines : List HeaderLine) : FieldFirst lines →
      IsToken name → pre = linedText line lines ++ name ++ [byte ':'] →
      Begun a b pre .spaceBeforeHeaderValue (line.request pre (headersOf lines ++ [⟨name, []⟩]))
  | value {pre name value : Bytes} (line : RequestLine) (lines : List HeaderLine) :
      FieldFirst lines → IsToken name → IsValue value →
      pre = linedText line lines ++ name ++ [byte ':', byte ' '] ++ value →
      Begun a b pre .headerValue (line.request pre (headersOf lines ++ [⟨name, value⟩]))
  | folded {pre blanks rest : Bytes} (line : RequestLine) (lines : List HeaderLine)
      {headers : List Header} {header : Header} : FieldFirst lines →
      headersOf lines = headers ++ [header] → IsBlanks blanks → IsRest rest → rest ≠ [] →
      pre = linedText line lines ++ blanks ++ rest →
      Begun a b pre .headerValue
        (line.request pre (headers ++ [⟨header.name, header.value ++ rest⟩]))
  | newline2 {pre : Bytes} (line : RequestLine) (lines : List HeaderLine) : FieldFirst lines →
      pre ++ [byte '\n'] = linedText line lines →
      Begun a b pre .expectingNewline2 (line.request pre (headersOf lines))
  | newline3 {pre : Bytes} (line : RequestLine) (lines : List HeaderLine) : FieldFirst lines →
      pre = linedText line lines ++ [byte '\r'] →
      Begun a b pre .expectingNewline3 (line.request pre (headersOf lines))

/-! ## What has begun can be completed -/

/-- What can go on to a request line and some header lines can be completed. -/
theorem viable_of_append {pre : Bytes} (line : RequestLine) (t : Bytes) {lines : List HeaderLine}
    (hlines : FieldFirst lines) (h : pre ++ t = linedText line lines) : Viable Formed pre := by
  refine ⟨t ++ crlf, ⟨line, lines, hlines⟩, ?_⟩
  calc line.text ++ (linesText lines ++ crlf)
      = linedText line lines ++ crlf := by rw [linedText, List.append_assoc]
    _ = pre ++ (t ++ crlf) := by rw [← h, List.append_assoc]

/-- One digit is a number. -/
theorem isDigits_zero : IsDigits [byte '0'] := by
  refine ⟨by simp, fun c hc => ?_⟩
  rw [List.mem_singleton.mp hc]
  decide

/-- What can go on to a request line can be completed. -/
theorem viable_of_requestLine {pre m u d e : Bytes} (t : Bytes) (hm : IsToken m) (hu : IsUri u)
    (hd : IsDigits d) (he : IsDigits e)
    (h : pre ++ t = versionText m u ++ d ++ [byte '.'] ++ e ++ crlf) : Viable Formed pre := by
  refine viable_of_append ⟨m, u, d, e, hm, hu, hd, he⟩ t fieldFirst_nil ?_
  rw [h]
  simp [linedText, linesText, RequestLine.text, versionText]

/-- What has begun can be completed. -/
theorem Begun.viable {a b : ℤ} {pre : Bytes} {state : State} {req : Request}
    (h : Begun a b pre state req) : Viable Formed pre := by
  have hd := isDigits_zero
  have hmethod : ∀ {m}, IsToken m → Viable Formed m := fun {m} hm =>
    viable_of_requestLine (byte ' ' :: byte ' ' :: (httpSlash ++
      ([byte '0'] ++ byte '.' :: ([byte '0'] ++ crlf)))) hm (u := []) (by simp [IsUri]) hd hd
      (by simp [versionText])
  cases h with
  | methodStart =>
    have hm : IsToken [byte 'G'] := ⟨by simp, by simp only [List.mem_singleton, forall_eq]; decide⟩
    exact (hmethod hm).of_isPrefix List.nil_prefix
  | method hm => exact hmethod hm
  | uri hm hu hpre =>
    exact viable_of_requestLine (byte ' ' :: (httpSlash ++
      ([byte '0'] ++ byte '.' :: ([byte '0'] ++ crlf)))) hm hu hd hd (by simp [hpre, versionText])
  | http hm hu hh hpre =>
    obtain ⟨t, ht⟩ := hh.exists_append
    exact viable_of_requestLine (t ++ ([byte '0'] ++ byte '.' :: ([byte '0'] ++ crlf))) hm hu hd hd
      (by simp [hpre, versionText, ← ht])
  | majorStart hm hu hpre =>
    exact viable_of_requestLine ([byte '0'] ++ byte '.' :: ([byte '0'] ++ crlf)) hm hu hd hd
      (by simp [hpre])
  | major hm hu hd' hpre =>
    exact viable_of_requestLine (byte '.' :: ([byte '0'] ++ crlf)) hm hu hd' hd (by simp [hpre])
  | minorStart hm hu hd' hpre =>
    exact viable_of_requestLine ([byte '0'] ++ crlf) hm hu hd' hd (by simp [hpre])
  | minor hm hu hd' he hpre => exact viable_of_requestLine crlf hm hu hd' he (by simp [hpre])
  | newline1 line hpre =>
    refine viable_of_append line [byte '\n'] fieldFirst_nil ?_
    rw [hpre]
    simp [linedText, linesText]
  | lineStart line lines hlines hpre =>
    exact viable_of_append line [] hlines (by rw [hpre, List.append_nil])
  | lws line lines hlines hheaders hblanks hpre =>
    -- An empty rest is enough.
    refine viable_of_append line crlf (hlines.concat (by simp [hheaders])
      (.folded _ [] hblanks ⟨by simp [IsValue], by simp⟩)) ?_
    simp [hpre, linedText, linesText_concat, HeaderLine.text]
  | @name pre name line lines hlines hname hpre =>
    refine viable_of_append line (byte ':' :: byte ' ' :: crlf) (hlines.concat_field
      (l := .field name [] hname (by simp [IsValue])) trivial) ?_
    simp [hpre, linedText, linesText_concat, HeaderLine.text]
  | @space pre name line lines hlines hname hpre =>
    refine viable_of_append line (byte ' ' :: crlf) (hlines.concat_field
      (l := .field name [] hname (by simp [IsValue])) trivial) ?_
    simp [hpre, linedText, linesText_concat, HeaderLine.text]
  | value line lines hlines hname hvalue hpre =>
    refine viable_of_append line crlf (hlines.concat_field (l := .field _ _ hname hvalue) trivial)
      ?_
    simp [hpre, linedText, linesText_concat, HeaderLine.text]
  | folded line lines hlines hheaders hblanks hrest _ hpre =>
    refine viable_of_append line crlf
      (hlines.concat (by simp [hheaders]) (.folded _ _ hblanks hrest)) ?_
    simp [hpre, linedText, linesText_concat, HeaderLine.text]
  | newline2 line lines hlines hpre => exact viable_of_append line [byte '\n'] hlines hpre
  | newline3 line lines hlines hpre =>
    refine ⟨[byte '\n'], ⟨line, lines, hlines⟩, ?_⟩
    simp [hpre, Message.text, linedText, crlf]

/-! ## One byte -/

/-- What a byte behind `pre` should do: it has a verdict, with no verdict yet the message goes on,
and what is good is a message. -/
def Keeps (a b : ℤ) (pre : Bytes) (c : UInt8)
    (out : Option (ParseResult × State × Request)) : Prop :=
  ∃ verdict state req, out = some (verdict, state, req) ∧
    (verdict = .indeterminate → Begun a b (pre ++ [c]) state req) ∧
    (verdict = .good → Formed (pre ++ [c]))

section Keeps

variable {a b : ℤ} {pre : Bytes} {c : UInt8} {state : State} {req : Request}

/-- A bad byte. -/
theorem Keeps.bad : Keeps a b pre c (some (.bad, state, req)) :=
  ⟨.bad, state, req, rfl, by simp, by simp⟩

/-- A byte with which the message goes on. -/
theorem Keeps.more (h : Begun a b (pre ++ [c]) state req) :
    Keeps a b pre c (some (.indeterminate, state, req)) :=
  ⟨.indeterminate, state, req, rfl, fun _ => h, by simp⟩

/-- The last byte of a message. -/
theorem Keeps.good (h : Formed (pre ++ [c])) : Keeps a b pre c (some (.good, state, req)) :=
  ⟨.good, state, req, rfl, by simp, fun _ => h⟩

/-! ### The request line -/

/-- A byte of the method at its start. -/
theorem keeps_methodStart : Keeps a b [] c (consume .methodStart (.empty a b) c) := by
  dsimp only [consume, Request.empty]
  split_ifs with hc
  · exact .bad
  · exact .more (.method (.single (isTokenByte_of_not_isRefused hc)))

/-- A byte behind a part of the method. -/
theorem keeps_method {m : Bytes} (hm : IsToken m) :
    Keeps a b m c (consume .method ⟨m, m, [], a, b, []⟩ c) := by
  dsimp only [consume]
  split_ifs with hspace hc
  · have huri : IsUri [] := by simp [IsUri]
    exact .more (.uri hm huri (by rw [hspace]))
  · exact .bad
  · exact .more (.method (hm.concat (isTokenByte_of_not_isRefused hc)))

/-- A byte behind a part of the URI. -/
theorem keeps_uri {m u : Bytes} (hm : IsToken m) (hu : IsUri u) (hpre : pre = m ++ byte ' ' :: u) :
    Keeps a b pre c (consume .uri ⟨pre, m, u, a, b, []⟩ c) := by
  dsimp only [consume]
  split_ifs with hspace hc
  · exact .more (.http hm hu .h (by simp [hpre, hspace]))
  · exact .bad
  · have huri : IsUri (u ++ [c]) := forall_mem_concat hu ⟨mt isCtl_toInt.mpr hc, hspace⟩
    exact .more (.uri hm huri (by simp [hpre]))

/-- A byte behind a beginning of `HTTP/`: only the next one of it goes on. -/
theorem keeps_http {m u h : Bytes} (hm : IsToken m) (hu : IsUri u) (hh : VersionPrefix h state)
    (hpre : pre = m ++ byte ' ' :: (u ++ byte ' ' :: h)) :
    Keeps a b pre c (consume state ⟨pre, m, u, a, b, []⟩ c) := by
  cases hh <;> dsimp only [consume] <;> split_ifs with hc
  · exact .more (.http hm hu .t1 (by simp [hpre, hc]))
  · exact .bad
  · exact .more (.http hm hu .t2 (by simp [hpre, hc]))
  · exact .bad
  · exact .more (.http hm hu .p (by simp [hpre, hc]))
  · exact .bad
  · exact .more (.http hm hu .slash (by simp [hpre, hc]))
  · exact .bad
  · exact .more (.majorStart hm hu (by simp [hpre, hc, versionText, httpSlash]))
  · exact .bad

/-- A byte of the first version number at its start. -/
theorem keeps_majorStart {m u : Bytes} (hm : IsToken m) (hu : IsUri u)
    (hpre : pre = versionText m u) :
    Keeps a b pre c (consume .httpVersionMajorStart ⟨pre, m, u, 0, 0, []⟩ c) := by
  dsimp only [consume]
  split_ifs with hc
  · exact .more (.major hm hu (.single (isDigit_toInt.mp hc)) (by rw [hpre]))
  · exact .bad

/-- A byte behind a part of the first version number. -/
theorem keeps_major {m u d : Bytes} (hm : IsToken m) (hu : IsUri u) (hd : IsDigits d)
    (hpre : pre = versionText m u ++ d) :
    Keeps a b pre c (consume .httpVersionMajor ⟨pre, m, u, version d, 0, []⟩ c) := by
  dsimp only [consume]
  split_ifs with hdot hc
  · exact .more (.minorStart hm hu hd (by rw [hpre, hdot]))
  · rw [← version_concat]
    exact .more (.major hm hu (hd.concat (isDigit_toInt.mp hc)) (by simp [hpre]))
  · exact .bad

/-- A byte of the second version number at its start. -/
theorem keeps_minorStart {m u d : Bytes} (hm : IsToken m) (hu : IsUri u) (hd : IsDigits d)
    (hpre : pre = versionText m u ++ d ++ [byte '.']) :
    Keeps a b pre c (consume .httpVersionMinorStart ⟨pre, m, u, version d, 0, []⟩ c) := by
  dsimp only [consume]
  split_ifs with hc
  · exact .more (.minor hm hu hd (.single (isDigit_toInt.mp hc)) (by rw [hpre]))
  · exact .bad

/-- A byte behind a part of the second version number. -/
theorem keeps_minor {m u d e : Bytes} (hm : IsToken m) (hu : IsUri u) (hd : IsDigits d)
    (he : IsDigits e) (hpre : pre = versionText m u ++ d ++ [byte '.'] ++ e) :
    Keeps a b pre c (consume .httpVersionMinor ⟨pre, m, u, version d, version e, []⟩ c) := by
  dsimp only [consume]
  split_ifs with hcr hc
  · refine .more (.newline1 ⟨_, _, _, _, hm, hu, hd, he⟩ ?_)
    simp [hpre, hcr, RequestLine.text, versionText, crlf]
  · rw [← version_concat]
    exact .more (.minor hm hu hd (he.concat (isDigit_toInt.mp hc)) (by simp [hpre]))
  · exact .bad

/-- A byte behind the `\r` of the request line. -/
theorem keeps_newline1 (line : RequestLine) (hpre : pre ++ [byte '\n'] = line.text) :
    Keeps a b pre c (consume .expectingNewline1 (line.request pre []) c) := by
  dsimp only [consume, RequestLine.request]
  split_ifs with hc
  · exact .more (.lineStart line [] fieldFirst_nil (by rw [hc, hpre]; simp [linedText, linesText]))
  · exact .bad

/-! ### The header lines -/

section HeaderLines

variable (line : RequestLine) {lines : List HeaderLine} (hlines : FieldFirst lines)

include hlines

/-- A byte behind some lines. A line that goes on with a value needs a header. -/
theorem keeps_lineStart (hpre : pre = linedText line lines) :
    Keeps a b pre c (consume .headerLineStart (line.request pre (headersOf lines)) c) := by
  dsimp only [consume, RequestLine.request]
  split_ifs with hcr hfold hc
  · exact .more (.newline3 line lines hlines (by rw [hpre, hcr]))
  · obtain ⟨hne, hblank⟩ := hfold
    obtain ⟨headers, header, hheaders⟩ := (List.eq_nil_or_concat' _).resolve_left hne
    rw [hheaders]
    exact .more (.lws line lines hlines hheaders (.single hblank) (by rw [hpre]))
  · exact .bad
  · exact .more (.name line lines hlines (.single (isTokenByte_of_not_isRefused hc)) (by rw [hpre]))

/-- A byte behind the white space of a line. If the line ends there, it adds nothing to the
value. -/
theorem keeps_lws {headers : List Header} {header : Header} {blanks : Bytes}
    (hheaders : headersOf lines = headers ++ [header]) (hblanks : IsBlanks blanks)
    (hpre : pre = linedText line lines ++ blanks) :
    Keeps a b pre c (consume .headerLws (line.request pre (headers ++ [header])) c) := by
  have hne : headersOf lines ≠ [] := by simp [hheaders]
  dsimp only [consume, RequestLine.request]
  split_ifs with hcr hblank hc
  · have hrest : IsRest [] := ⟨by simp [IsValue], by simp⟩
    have hheaders' : headersOf (lines ++ [.folded blanks [] hblanks hrest]) =
        headers ++ [header] := by
      simp [headersOf_concat, hheaders, HeaderLine.addTo, List.modifyLast_concat]
    rw [← hheaders']
    exact .more (.newline2 line _ (hlines.concat hne _)
      (by simp [hpre, hcr, linedText, linesText_concat, HeaderLine.text, crlf]))
  · exact .more (.lws line lines hlines hheaders (hblanks.concat hblank) (by simp [hpre]))
  · exact .bad
  · have hrest : IsRest [c] := ⟨by simpa [IsValue] using mt isCtl_toInt.mpr hc, by
      simpa using fun h => hblank (.inl h)⟩
    rw [pushValue_concat]
    exact .more (.folded line lines hlines hheaders hblanks hrest (by simp) (by rw [hpre]))

/-- A byte behind a part of a header name. -/
theorem keeps_name {name : Bytes} (hname : IsToken name)
    (hpre : pre = linedText line lines ++ name) :
    Keeps a b pre c
      (consume .headerName (line.request pre (headersOf lines ++ [⟨name, []⟩])) c) := by
  dsimp only [consume, RequestLine.request]
  split_ifs with hcolon hc
  · exact .more (.space line lines hlines hname (by rw [hpre, hcolon]))
  · exact .bad
  · rw [pushName_concat]
    exact .more (.name line lines hlines (hname.concat (isTokenByte_of_not_isRefused hc))
      (by simp [hpre]))

/-- A byte behind the colon of a header. -/
theorem keeps_space {name : Bytes} (hname : IsToken name)
    (hpre : pre = linedText line lines ++ name ++ [byte ':']) :
    Keeps a b pre c
      (consume .spaceBeforeHeaderValue (line.request pre (headersOf lines ++ [⟨name, []⟩])) c) := by
  dsimp only [consume, RequestLine.request]
  split_ifs with hc
  · have hvalue : IsValue [] := by simp [IsValue]
    exact .more (.value line lines hlines hname hvalue (by simp [hpre, hc]))
  · exact .bad

/-- A byte behind a part of a header value. -/
theorem keeps_value {name value : Bytes} (hname : IsToken name) (hvalue : IsValue value)
    (hpre : pre = linedText line lines ++ name ++ [byte ':', byte ' '] ++ value) :
    Keeps a b pre c
      (consume .headerValue (line.request pre (headersOf lines ++ [⟨name, value⟩])) c) := by
  dsimp only [consume, RequestLine.request]
  split_ifs with hcr hc
  · have hheaders' : headersOf (lines ++ [.field name value hname hvalue]) =
        headersOf lines ++ [⟨name, value⟩] := by
      simp [headersOf_concat, HeaderLine.addTo]
    rw [← hheaders']
    exact .more (.newline2 line _ (hlines.concat_field trivial)
      (by simp [hpre, hcr, linedText, linesText_concat, HeaderLine.text, crlf]))
  · exact .bad
  · have hvalue' : IsValue (value ++ [c]) := forall_mem_concat hvalue (mt isCtl_toInt.mpr hc)
    rw [pushValue_concat]
    exact .more (.value line lines hlines hname hvalue' (by simp [hpre]))

/-- A byte behind a part of what a line adds to the value of the last header. -/
theorem keeps_folded {headers : List Header} {header : Header} {blanks rest : Bytes}
    (hheaders : headersOf lines = headers ++ [header]) (hblanks : IsBlanks blanks)
    (hrest : IsRest rest) (hne : rest ≠ []) (hpre : pre = linedText line lines ++ blanks ++ rest) :
    Keeps a b pre c (consume .headerValue
      (line.request pre (headers ++ [⟨header.name, header.value ++ rest⟩])) c) := by
  dsimp only [consume, RequestLine.request]
  split_ifs with hcr hc
  · have hheaders' : headersOf (lines ++ [.folded blanks rest hblanks hrest]) =
        headers ++ [⟨header.name, header.value ++ rest⟩] := by
      simp [headersOf_concat, hheaders, HeaderLine.addTo, List.modifyLast_concat]
    rw [← hheaders']
    exact .more (.newline2 line _ (hlines.concat (by simp [hheaders]) _)
      (by simp [hpre, hcr, linedText, linesText_concat, HeaderLine.text, crlf]))
  · exact .bad
  · have hrest' : IsRest (rest ++ [c]) :=
      ⟨forall_mem_concat hrest.1 (mt isCtl_toInt.mpr hc), by
        rw [List.head?_append_of_ne_nil _ hne]
        exact hrest.2⟩
    rw [pushValue_concat, List.append_assoc]
    exact .more (.folded line lines hlines hheaders hblanks hrest' (by simp) (by simp [hpre]))

/-- A byte behind the `\r` of a header line. -/
theorem keeps_newline2 (hpre : pre ++ [byte '\n'] = linedText line lines) :
    Keeps a b pre c (consume .expectingNewline2 (line.request pre (headersOf lines)) c) := by
  dsimp only [consume, RequestLine.request]
  split_ifs with hc
  · exact .more (.lineStart line lines hlines (by rw [hc, hpre]))
  · exact .bad

/-- A byte behind the `\r` of the empty line. -/
theorem keeps_newline3 (hpre : pre = linedText line lines ++ [byte '\r']) :
    Keeps a b pre c (consume .expectingNewline3 (line.request pre (headersOf lines)) c) := by
  dsimp only [consume, RequestLine.request]
  split_ifs with hc
  · refine .good ⟨⟨line, lines, hlines⟩, ?_⟩
    simp [hpre, hc, Message.text, linedText, crlf]
  · exact .bad

end HeaderLines

/-- What was begun is begun behind another byte, or it is a message, or there is none. -/
theorem Begun.step (h : Begun a b pre state req) (c : UInt8) :
    Keeps a b pre c (consume state req c) := by
  cases h with
  | methodStart => exact keeps_methodStart
  | method hm => exact keeps_method hm
  | uri hm hu hpre => exact keeps_uri hm hu hpre
  | http hm hu hh hpre => exact keeps_http hm hu hh hpre
  | majorStart hm hu hpre => exact keeps_majorStart hm hu hpre
  | major hm hu hd hpre => exact keeps_major hm hu hd hpre
  | minorStart hm hu hd hpre => exact keeps_minorStart hm hu hd hpre
  | minor hm hu hd he hpre => exact keeps_minor hm hu hd he hpre
  | newline1 line hpre => exact keeps_newline1 line hpre
  | lineStart line lines hlines hpre => exact keeps_lineStart line hlines hpre
  | lws line lines hlines hheaders hblanks hpre =>
    exact keeps_lws line hlines hheaders hblanks hpre
  | name line lines hlines hname hpre => exact keeps_name line hlines hname hpre
  | space line lines hlines hname hpre => exact keeps_space line hlines hname hpre
  | value line lines hlines hname hvalue hpre =>
    exact keeps_value line hlines hname hvalue hpre
  | folded line lines hlines hheaders hblanks hrest hne hpre =>
    exact keeps_folded line hlines hheaders hblanks hrest hne hpre
  | newline2 line lines hlines hpre => exact keeps_newline2 line hlines hpre
  | newline3 line lines hlines hpre => exact keeps_newline3 line hlines hpre

end Keeps

/-! ## The outcome of every input -/

/-- The parser recognises the texts that have the form of a request. -/
theorem recognises (a b : ℤ) : Recognises step (.methodStart, .empty a b) Formed
    fun pre s => Begun a b pre s.1 s.2 where
  reached_start := .methodStart
  reached_step h c := by
    obtain ⟨verdict, state, req, hstep, hmore, hgood⟩ := h.step c
    exact ⟨verdict, (state, req), hstep, hmore, hgood⟩
  viable h := h.viable
  complete := by
    rintro _ ⟨m, rfl⟩
    obtain ⟨u, htext, hreads, hgood⟩ := reads_message m a b
    exact ⟨u, _, _, _, htext, hreads, hgood⟩

/-- What the parser records of a message whose version numbers are `int`s is what there is to record
of it. -/
theorem request_eq (m : Message) (hmajor : number m.line.major < 2 ^ 31)
    (hminor : number m.line.minor < 2 ^ 31) :
    m.line.request m.text (headersOf m.lines) = m.request := by
  have hversion : ∀ {d}, IsDigits d → number d < 2 ^ 31 → version d = number d :=
    fun {d} hd hlt => by
    rw [version_eq hd.2]
    exact wrap_of_mem (by unfold intMin; omega) (by unfold intMax; omega)
  rw [RequestLine.request, hversion m.line.isDigits_major hmajor,
    hversion m.line.isDigits_minor hminor]
  rfl

/-- `parse` on the text of a message, with anything behind it. -/
theorem parse_message (m : Message) (a b : ℤ) (rest : Bytes) :
    parse .methodStart (.empty a b) (m.text ++ rest) = some (.good, rest, .expectingNewline3,
      m.line.request m.text (headersOf m.lines)) := by
  obtain ⟨u, htext, hreads, hgood⟩ := reads_message m a b
  calc parse .methodStart (.empty a b) (m.text ++ rest)
      = feed step (.methodStart, .empty a b) (u ++ byte '\n' :: rest) := by
        rw [parse_eq_feed, htext, List.append_assoc, List.singleton_append]
    _ = feed step (.expectingNewline3, m.line.request u (headersOf m.lines)) (byte '\n' :: rest) :=
        hreads.feed _
    _ = _ := feed_cons (by simp) hgood rest

/-- What goes on with a value is added to it with no space, and the body is left. -/
example : (parse .methodStart (.empty 0 0)
    ("GET / HTTP/1.0\r\nA: b\r\n c\r\n\r\nbody".toList.map byte)).map
      (fun out => (out.1, out.2.1, out.2.2.2.headers)) =
    some (.good, "body".toList.map byte, [⟨[byte 'A'], "bc".toList.map byte⟩]) := by decide

/-- `parse` on a fresh parser and an empty request is defined on every input. It reads a part `pre`
of the input, which it keeps in the request, and leaves the rest; and the result and this part are
those of the grammar: the first prefix that is a request, or else the first prefix with which no
request begins, or else all of the input. Of a request whose version numbers are `int`s it records
the parts. -/
theorem parse_recognises (a b : ℤ) (input : Bytes) :
    ∃ result pre rest state req,
      parse .methodStart (.empty a b) input = some (result, rest, state, req) ∧
      input = pre ++ rest ∧ req.originalReq = pre ∧
      (∀ p, result = .good ∧ pre = p ↔ IsFirst Formed input p) ∧
      (∀ p, result = .bad ∧ pre = p ↔
        IsFirst (fun s => ¬ Viable Formed s) input p ∧ ∀ q, q <+: input → ¬ Formed q) ∧
      (result = .indeterminate ∧ pre = input ↔
        Viable Formed input ∧ ∀ q, q <+: input → ¬ Formed q) ∧
      (result = .good → ∀ m : Message, m.text = pre → number m.line.major < 2 ^ 31 →
        number m.line.minor < 2 ^ 31 → req = m.request) := by
  obtain ⟨result, pre, rest, ⟨state, req⟩, hfeed, rfl, houtcome⟩ := (recognises a b).feed input
  rw [← parse_eq_feed] at hfeed
  obtain ⟨pre', hpre', hreq⟩ := originalReq_parse hfeed
  obtain rfl := List.append_cancel_right hpre'
  -- The outcome is unique, so each verdict has its own condition.
  have hiff : ∀ v p, Outcome Formed (pre ++ rest) v p ↔ result = v ∧ pre = p := by
    intro v p
    constructor
    · exact fun h => houtcome.unique h
    · rintro ⟨rfl, rfl⟩
      exact houtcome
  refine ⟨result, pre, rest, state, req, hfeed, rfl, hreq, fun p => (hiff .good p).symm,
    fun p => (hiff .bad p).symm, ?_, ?_⟩
  · rw [← hiff]
    exact ⟨fun h => h.2, fun h => ⟨rfl, h⟩⟩
  · rintro - m rfl hmajor hminor
    have hmessage := parse_message m a b rest
    rw [hfeed, request_eq m hmajor hminor] at hmessage
    exact (Prod.mk.inj (Prod.mk.inj (Prod.mk.inj (Option.some.inj hmessage)).2).2).2

end CrazyCode.Http
