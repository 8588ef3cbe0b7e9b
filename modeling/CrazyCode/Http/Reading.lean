import CrazyCode.Http.Grammar
import Mathlib.Data.List.ModifyLast

/-!
# The parser on a request

The tests of characters are those of the grammar (`isCtl_toInt`, `isRefused_iff`, `isDigit_toInt`),
and the version numbers are those that the digits denote, reduced to `int`s (`version_eq`). With
these the parser is taken through the text of a message, part by part (`reads_requestLine`,
`reads_headerLine`), up to its last byte, which is good (`reads_message`).
-/

namespace CrazyCode.Http

open Decimal Recogniser

/-! ## Characters -/

/-- A byte is a character of seven bits exactly if the two are equal as integers. -/
theorem toInt_eq_iff {input : UInt8} {d : Char} (hd : d.toNat < 128) :
    toInt input = d.toNat ↔ input = byte d := by
  have hlt : input.toNat < 256 := input.toNat_lt
  have hbyte : (byte d).toNat = d.toNat := by
    simp only [byte, Char.toUInt8, UInt32.toNat_toUInt8]
    exact Nat.mod_eq_of_lt (by have : d.val.toNat = d.toNat := rfl; omega)
  rw [← UInt8.toNat_inj, hbyte]
  unfold toInt
  split <;> omega

/-- `is_ctl` is the test for control characters. -/
theorem isCtl_toInt {input : UInt8} : isCtl (toInt input) = true ↔ IsControl input := by
  have hlt : input.toNat < 256 := input.toNat_lt
  simp only [isCtl, IsControl, Bool.or_eq_true, Bool.and_eq_true, decide_eq_true_eq]
  unfold toInt
  split <;> omega

/-- `is_digit` is the test for digits. -/
theorem isDigit_toInt {input : UInt8} : isDigit (toInt input) = true ↔ IsDigit input := by
  have hlt : input.toNat < 256 := input.toNat_lt
  have h0 : '0'.toNat = 48 := rfl
  have h9 : '9'.toNat = 57 := rfl
  simp only [isDigit, IsDigit, Bool.and_eq_true, decide_eq_true_eq, h0, h9]
  unfold toInt
  split <;> omega

/-- The bytes of tokens are those that are not refused. -/
theorem isRefused_iff {input : UInt8} : isRefused input = true ↔ ¬ IsTokenByte input := by
  have hlt : input.toNat < 256 := input.toNat_lt
  have hchar : isChar (toInt input) = true ↔ input.toNat ≤ 127 := by
    simp only [isChar, Bool.and_eq_true, decide_eq_true_eq]
    unfold toInt
    split <;> omega
  have hspecial : isTspecial (toInt input) = true ↔ ∃ d ∈ tspecials, input = byte d := by
    have hlt : (tspecials.all fun d => decide (d.toNat < 128)) = true := by decide
    simp only [isTspecial, List.any_eq_true, decide_eq_true_eq]
    refine exists_congr fun d => and_congr_right fun hd => toInt_eq_iff ?_
    simpa using List.all_eq_true.mp hlt d hd
  simp only [isRefused, Bool.or_eq_true, Bool.not_eq_true', IsTokenByte, isCtl_toInt, hspecial,
    ← hchar, not_and_or, not_not, not_forall, Bool.not_eq_true, exists_prop]
  rw [or_assoc]

/-- A byte of a token is not refused. -/
theorem IsTokenByte.isRefused {c : UInt8} (h : IsTokenByte c) : isRefused c = false := by
  rw [Bool.eq_false_iff, Ne, isRefused_iff, not_not]
  exact h

/-- A byte that is not refused is one of a token. -/
theorem isTokenByte_of_not_isRefused {c : UInt8} (hc : ¬ isRefused c = true) : IsTokenByte c := by
  rwa [isRefused_iff, not_not] at hc

/-- A byte that is no control character is no `is_ctl`. -/
theorem isCtl_eq_false {c : UInt8} (h : ¬ IsControl c) : isCtl (toInt c) = false := by
  rwa [Bool.eq_false_iff, Ne, isCtl_toInt]

/-- A byte that is no control character is none of those that end a line. -/
theorem ne_byte_of_not_isControl {c : UInt8} (h : ¬ IsControl c) {d : Char}
    (hd : IsControl (byte d)) : c ≠ byte d := by
  rintro rfl
  exact h hd

/-- A digit is no other byte. -/
theorem IsDigit.ne_byte {c : UInt8} (h : IsDigit c) {d : Char} (hd : ¬ IsDigit (byte d)) :
    c ≠ byte d := by
  rintro rfl
  exact hd h

/-! ## Version numbers -/

/-- The `int` that the parser makes of some digits. -/
def version (digits : Bytes) : ℤ := digits.foldl pushDigit 0

/-- One more digit. -/
theorem version_concat (digits : Bytes) (c : UInt8) :
    version (digits ++ [c]) = pushDigit (version digits) c := by
  simp [version]

/-- The parser's arithmetic is that of numbers, reduced to an `int`. -/
theorem pushDigit_wrap (n : ℕ) {c : UInt8} (hc : IsDigit c) :
    pushDigit (wrap n) c = wrap (n * 10 + (c.toNat - '0'.toNat) : ℕ) := by
  have h0 : '0'.toNat = 48 := rfl
  have h9 : '9'.toNat = 57 := rfl
  unfold IsDigit at hc
  have hint : toInt c = c.toNat := if_pos (by omega)
  have hsum : ((n * 10 + (c.toNat - '0'.toNat) : ℕ) : ℤ) =
      n * 10 + ((c.toNat : ℤ) - '0'.toNat) := by omega
  -- Each reduction on the way is undone by the next one.
  calc pushDigit (wrap n) c
      = wrap (wrap (wrap (wrap n * 10) + c.toNat) - '0'.toNat) := by rw [pushDigit, hint]
    _ = wrap (wrap (n * 10) + c.toNat - '0'.toNat) := by
        unfold wrap; rw [Int.bmod_mul_bmod, Int.bmod_sub_bmod]
    _ = wrap (n * 10 + ((c.toNat : ℤ) - '0'.toNat)) := by
        unfold wrap; rw [Int.add_sub_assoc, Int.bmod_add_bmod]
    _ = wrap (n * 10 + (c.toNat - '0'.toNat) : ℕ) := by rw [hsum]

/-- The version that the parser makes of digits is their number, reduced to an `int`. -/
theorem version_eq {digits : Bytes} (h : ∀ c ∈ digits, IsDigit c) :
    version digits = wrap (number digits) := by
  induction digits using List.reverseRecOn with
  | nil => rfl
  | append_singleton digits c ih =>
    obtain ⟨hdigits, hc⟩ := List.forall_mem_append.mp h
    rw [version_concat, ih hdigits, pushDigit_wrap _ (hc c (by simp))]
    simp [number]

/-! ## The request line -/

section RequestLine

variable {m u : Bytes} {a b : ℤ}

/-- A method is read. -/
theorem reads_method (hm : IsToken m) :
    Reads step (.methodStart, .empty a b) m (.method, ⟨m, m, [], a, b, []⟩) := by
  refine Reads.loop_of_ne_nil (f := fun v => (State.method, (⟨v, v, [], a, b, []⟩ : Request)))
    (fun c hc => ?_) (fun v c hc => ?_) hm.1 hm.2
  · simp [step, consume, Request.empty, hc.isRefused]
  · have hspace : c ≠ byte ' ' := hc.2.2 ' ' (by decide)
    simp [step, consume, hc.isRefused, hspace]

/-- A URI is read. -/
theorem reads_uri (hu : IsUri u) (pre : Bytes) :
    Reads step (.uri, ⟨pre, m, [], a, b, []⟩) u (.uri, ⟨pre ++ u, m, u, a, b, []⟩) := by
  have hloop : Reads step (.uri, ⟨pre ++ [], m, [], a, b, []⟩) u
      (.uri, ⟨pre ++ ([] ++ u), m, [] ++ u, a, b, []⟩) := by
    refine Reads.loop (f := fun v => (State.uri, (⟨pre ++ v, m, v, a, b, []⟩ : Request)))
      (fun v c hc => ?_) hu []
    simp [step, consume, isCtl_eq_false hc.1, hc.2]
  simpa using hloop

/-- What stands in front of the version is read, and the version is set to zero. -/
theorem reads_httpSlash (pre : Bytes) :
    Reads step (.httpVersionH, ⟨pre, m, u, a, b, []⟩) httpSlash
      (.httpVersionMajorStart, ⟨pre ++ httpSlash, m, u, 0, 0, []⟩) := by
  refine .cons rfl (.cons rfl (.cons rfl (.cons rfl (.cons ?_ .nil))))
  simp [step, consume, httpSlash]

/-- The first number of a version is read. -/
theorem reads_major {d : Bytes} (hd : IsDigits d) (pre : Bytes) :
    Reads step (.httpVersionMajorStart, ⟨pre, m, u, 0, b, []⟩) d
      (.httpVersionMajor, ⟨pre ++ d, m, u, version d, b, []⟩) := by
  refine Reads.loop_of_ne_nil
    (f := fun v => (State.httpVersionMajor, (⟨pre ++ v, m, u, version v, b, []⟩ : Request)))
    (fun c hc => ?_) (fun v c hc => ?_) hd.1 hd.2
  · simp [step, consume, isDigit_toInt.mpr hc, version]
  · have hdot : c ≠ byte '.' := hc.ne_byte (by decide)
    simp [step, consume, isDigit_toInt.mpr hc, hdot, version_concat]

/-- The second number of a version is read. -/
theorem reads_minor {d : Bytes} (hd : IsDigits d) (pre : Bytes) :
    Reads step (.httpVersionMinorStart, ⟨pre, m, u, a, 0, []⟩) d
      (.httpVersionMinor, ⟨pre ++ d, m, u, a, version d, []⟩) := by
  refine Reads.loop_of_ne_nil
    (f := fun v => (State.httpVersionMinor, (⟨pre ++ v, m, u, a, version v, []⟩ : Request)))
    (fun c hc => ?_) (fun v c hc => ?_) hd.1 hd.2
  · simp [step, consume, isDigit_toInt.mpr hc, version]
  · have hcr : c ≠ byte '\r' := hc.ne_byte (by decide)
    simp [step, consume, isDigit_toInt.mpr hc, hcr, version_concat]

/-- What the parser has recorded of a request line and some headers, behind the bytes `pre`. -/
def RequestLine.request (line : RequestLine) (pre : Bytes) (headers : List Header) : Request :=
  ⟨pre, line.method, line.uri, version line.major, version line.minor, headers⟩

/-- A request line is read. -/
theorem reads_requestLine (line : RequestLine) (a b : ℤ) :
    Reads step (.methodStart, .empty a b) line.text
      (.headerLineStart, line.request line.text []) := by
  have hend : ∀ pre, Reads step (.httpVersionMinor, line.request pre []) crlf
      (.headerLineStart, line.request (pre ++ crlf) []) := fun pre => by
    refine .cons rfl (.cons ?_ .nil)
    simp [step, consume, RequestLine.request, crlf]
  have hline : Reads step (.methodStart, .empty a b) line.text (.headerLineStart, line.request
      (line.method ++ [byte ' '] ++ line.uri ++ [byte ' '] ++ httpSlash ++ line.major ++
        [byte '.'] ++ line.minor ++ crlf) []) :=
    (reads_method line.isToken_method).append
      (.cons rfl ((reads_uri line.isUri_uri _).append
        (.cons rfl ((reads_httpSlash _).append
          ((reads_major line.isDigits_major _).append
            (.cons rfl ((reads_minor line.isDigits_minor _).append (hend _))))))))
  simpa [RequestLine.text] using hline

end RequestLine

/-! ## Header lines -/

section HeaderLines

variable {line : RequestLine} {headers : List Header}

@[simp] theorem pushName_concat (headers : List Header) (name value : Bytes) (c : UInt8) :
    pushName (headers ++ [⟨name, value⟩]) c = some (headers ++ [⟨name ++ [c], value⟩]) := by
  simp [pushName]

@[simp] theorem pushValue_concat (headers : List Header) (name value : Bytes) (c : UInt8) :
    pushValue (headers ++ [⟨name, value⟩]) c = some (headers ++ [⟨name, value ++ [c]⟩]) := by
  simp [pushValue]

/-- The name of a header is read. -/
theorem reads_name {name : Bytes} (hname : IsToken name) (pre : Bytes) :
    Reads step (.headerLineStart, line.request pre headers) name
      (.headerName, line.request (pre ++ name) (headers ++ [⟨name, []⟩])) := by
  refine Reads.loop_of_ne_nil
    (f := fun v => (State.headerName, line.request (pre ++ v) (headers ++ [⟨v, []⟩])))
    (fun c hc => ?_) (fun v c hc => ?_) hname.1 hname.2
  · have hcr : c ≠ byte '\r' := ne_byte_of_not_isControl hc.2.1 (by decide)
    have hspace : c ≠ byte ' ' := hc.2.2 ' ' (by decide)
    have htab : c ≠ byte '\t' := hc.2.2 '\t' (by decide)
    simp [step, consume, RequestLine.request, hc.isRefused, hcr, hspace, htab]
  · have hcolon : c ≠ byte ':' := hc.2.2 ':' (by decide)
    simp [step, consume, RequestLine.request, hc.isRefused, hcolon]

/-- More of a value is read. -/
theorem reads_value {value : Bytes} (hvalue : IsValue value) (pre name begun : Bytes) :
    Reads step (.headerValue, line.request pre (headers ++ [⟨name, begun⟩])) value
      (.headerValue, line.request (pre ++ value) (headers ++ [⟨name, begun ++ value⟩])) := by
  have hloop : Reads step
      (.headerValue, line.request (pre ++ []) (headers ++ [⟨name, begun ++ []⟩])) value
      (.headerValue, line.request (pre ++ ([] ++ value))
        (headers ++ [⟨name, begun ++ ([] ++ value)⟩])) := by
    refine Reads.loop
      (f := fun v => (State.headerValue, line.request (pre ++ v) (headers ++ [⟨name, begun ++ v⟩])))
      (fun v c hc => ?_) hvalue []
    have hcr : c ≠ byte '\r' := ne_byte_of_not_isControl hc (by decide)
    simp [step, consume, RequestLine.request, isCtl_eq_false hc, hcr]
  simpa using hloop

/-- White space in front of more of a value is read. -/
theorem reads_blanks {blanks : Bytes} (hblanks : IsBlanks blanks) (hne : headers ≠ [])
    (pre : Bytes) :
    Reads step (.headerLineStart, line.request pre headers) blanks
      (.headerLws, line.request (pre ++ blanks) headers) := by
  have hcr : ∀ c, c = byte ' ' ∨ c = byte '\t' → c ≠ byte '\r' := by
    rintro c (rfl | rfl) <;> decide
  refine Reads.loop_of_ne_nil (f := fun v => (State.headerLws, line.request (pre ++ v) headers))
    (fun c hc => ?_) (fun v c hc => ?_) hblanks.1 hblanks.2
  · simp [step, consume, RequestLine.request, hcr c hc, hc, hne]
  · simp [step, consume, RequestLine.request, hcr c hc, hc]

/-- A line that goes on with the value of a header is read, up to its end. -/
theorem reads_folded {blanks rest : Bytes} (hblanks : IsBlanks blanks) (hrest : IsRest rest)
    (pre name value : Bytes) :
    ∃ state, (state = .headerLws ∨ state = .headerValue) ∧
      Reads step (.headerLineStart, line.request pre (headers ++ [⟨name, value⟩])) (blanks ++ rest)
        (state, line.request (pre ++ (blanks ++ rest)) (headers ++ [⟨name, value ++ rest⟩])) := by
  have hread : Reads step (.headerLineStart, line.request pre (headers ++ [⟨name, value⟩])) blanks
      (.headerLws, line.request (pre ++ blanks) (headers ++ [⟨name, value⟩])) :=
    reads_blanks hblanks (by simp) pre
  cases rest with
  | nil => exact ⟨_, .inl rfl, by simpa using hread⟩
  | cons c rest =>
    obtain ⟨hbytes, hspace⟩ := hrest
    obtain ⟨hc, hv⟩ := List.forall_mem_cons.mp hbytes
    have hcr : c ≠ byte '\r' := ne_byte_of_not_isControl hc (by decide)
    have htab : c ≠ byte '\t' := ne_byte_of_not_isControl hc (by decide)
    have hspace : c ≠ byte ' ' := by simpa using hspace
    -- The first byte of the rest leaves the white space.
    have hfirst : step (.headerLws,
          line.request (pre ++ blanks) (headers ++ [⟨name, value⟩])) c =
        some (.indeterminate, .headerValue,
          line.request (pre ++ blanks ++ [c]) (headers ++ [⟨name, value ++ [c]⟩])) := by
      simp [step, consume, RequestLine.request, isCtl_eq_false hc, hcr, htab, hspace]
    have hline := hread.append (.cons hfirst (reads_value hv _ name _))
    exact ⟨_, .inr rfl, by simpa using hline⟩

/-- The end of a header line is read. -/
theorem reads_crlf {state : State} (hstate : state = .headerLws ∨ state = .headerValue)
    (pre : Bytes) :
    Reads step (state, line.request pre headers) crlf
      (.headerLineStart, line.request (pre ++ crlf) headers) := by
  have hend : Reads step (.expectingNewline2, line.request (pre ++ [byte '\r']) headers) [byte '\n']
      (.headerLineStart, line.request (pre ++ crlf) headers) := .one (by
    simp [step, consume, RequestLine.request, crlf])
  rcases hstate with rfl | rfl <;> exact .cons rfl hend

/-- A header line is read, if it is a field or there is a header before it. -/
theorem reads_headerLine (l : HeaderLine) (hl : l.IsField ∨ headers ≠ []) (pre : Bytes) :
    Reads step (.headerLineStart, line.request pre headers) l.text
      (.headerLineStart, line.request (pre ++ l.text) (l.addTo headers)) := by
  cases l with
  | field name value hname hvalue =>
    have hline : Reads step (.headerLineStart, line.request pre headers)
        (name ++ byte ':' :: byte ' ' :: (value ++ crlf)) (.headerLineStart, line.request
          (pre ++ name ++ [byte ':'] ++ [byte ' '] ++ value ++ crlf)
          (headers ++ [⟨name, [] ++ value⟩])) :=
      (reads_name hname pre).append (.cons rfl (.cons rfl
        ((reads_value hvalue _ name []).append (reads_crlf (.inr rfl) _))))
    simpa [HeaderLine.text, HeaderLine.addTo] using hline
  | folded blanks rest hblanks hrest =>
    have hne : headers ≠ [] := hl.resolve_left fun h => h
    obtain ⟨init, ⟨name, value⟩, rfl⟩ := (List.eq_nil_or_concat headers).resolve_left hne
    obtain ⟨state, hstate, hread⟩ := @reads_folded line init _ _ hblanks hrest pre name value
    simpa [HeaderLine.text, HeaderLine.addTo, List.modifyLast_concat] using
      hread.append (reads_crlf hstate _)

/-- Behind a header line there is a header. -/
theorem addTo_ne_nil (l : HeaderLine) (hl : l.IsField ∨ headers ≠ []) : l.addTo headers ≠ [] := by
  cases l with
  | field name value => simp [HeaderLine.addTo]
  | folded blanks rest =>
    have hne : headers ≠ [] := hl.resolve_left fun h => h
    obtain ⟨init, header, rfl⟩ := (List.eq_nil_or_concat headers).resolve_left hne
    simp [HeaderLine.addTo, List.modifyLast_concat]

/-- Header lines are read, if the first one is a field or there is a header before it. -/
theorem reads_headerLines (lines : List HeaderLine) (hl : FieldFirst lines ∨ headers ≠ [])
    (pre : Bytes) :
    Reads step (.headerLineStart, line.request pre headers) (linesText lines)
      (.headerLineStart,
        line.request (pre ++ linesText lines) (lines.foldl HeaderLine.addTo headers)) := by
  induction lines generalizing headers pre with
  | nil =>
    simp only [linesText, List.flatMap_nil, List.append_nil, List.foldl_nil]
    exact .nil
  | cons l lines ih =>
    have hfirst : l.IsField ∨ headers ≠ [] := hl.imp_left fun h => h l rfl
    have hlines := (@reads_headerLine line _ l hfirst pre).append
      (ih (.inr (addTo_ne_nil l hfirst)) (pre ++ l.text))
    simpa [linesText] using hlines

end HeaderLines

/-- A request is read, and its last byte is good. -/
theorem reads_message (m : Message) (a b : ℤ) : ∃ u, m.text = u ++ [byte '\n'] ∧
    Reads step (.methodStart, .empty a b) u
      (.expectingNewline3, m.line.request u (headersOf m.lines)) ∧
    step (.expectingNewline3, m.line.request u (headersOf m.lines)) (byte '\n') =
      some (.good, .expectingNewline3, m.line.request m.text (headersOf m.lines)) := by
  refine ⟨m.line.text ++ linesText m.lines ++ [byte '\r'], by simp [Message.text, crlf], ?_, ?_⟩
  · exact ((reads_requestLine m.line a b).append
      (reads_headerLines m.lines (.inl m.fieldFirst) _)).append (.one rfl)
  · simp [step, consume, RequestLine.request, Message.text, crlf]

end CrazyCode.Http
