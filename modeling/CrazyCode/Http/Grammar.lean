import CrazyCode.Http.RequestParser

/-!
# The request grammar

The form of a request, apart from the machine that reads it: a request line, header lines, and an
empty line. A header line is a field, or it goes on with the value of the last header behind some
white space; the first one is a field. The parts carry the proofs that their bytes are of the right
kind, so every `Message` has the form, and a text has it if it is the text of one (`Formed`).

`Message.request` is what there is to record of a message.
-/

namespace CrazyCode.Http

/-! ## Bytes -/

/-- A control character. -/
def IsControl (c : UInt8) : Prop := c.toNat ≤ 31 ∨ c.toNat = 127

instance (c : UInt8) : Decidable (IsControl c) :=
  inferInstanceAs (Decidable (c.toNat ≤ 31 ∨ c.toNat = 127))

/-- A digit. -/
def IsDigit (c : UInt8) : Prop := '0'.toNat ≤ c.toNat ∧ c.toNat ≤ '9'.toNat

instance (c : UInt8) : Decidable (IsDigit c) :=
  inferInstanceAs (Decidable ('0'.toNat ≤ c.toNat ∧ c.toNat ≤ '9'.toNat))

/-- A byte of a method or of a header name: it has seven bits, and is neither a control character
nor a special one. -/
def IsTokenByte (c : UInt8) : Prop :=
  c.toNat ≤ 127 ∧ ¬ IsControl c ∧ ∀ d ∈ tspecials, c ≠ byte d

instance (c : UInt8) : Decidable (IsTokenByte c) :=
  decidable_of_iff
    (c.toNat ≤ 127 ∧ ¬ IsControl c ∧ (tspecials.all fun d => decide (c ≠ byte d)) = true)
    (by simp only [IsTokenByte, List.all_eq_true, decide_eq_true_eq])

/-- A method, or a header name. -/
def IsToken (s : Bytes) : Prop := s ≠ [] ∧ ∀ c ∈ s, IsTokenByte c

/-- A URI, which can be empty. -/
def IsUri (s : Bytes) : Prop := ∀ c ∈ s, ¬ IsControl c ∧ c ≠ byte ' '

/-- A number. -/
def IsDigits (s : Bytes) : Prop := s ≠ [] ∧ ∀ c ∈ s, IsDigit c

/-- The value of a header, which can be empty. -/
def IsValue (s : Bytes) : Prop := ∀ c ∈ s, ¬ IsControl c

/-- The white space in front of a line that goes on with a value. -/
def IsBlanks (s : Bytes) : Prop := s ≠ [] ∧ ∀ c ∈ s, c = byte ' ' ∨ c = byte '\t'

/-- What such a line adds to the value. -/
def IsRest (s : Bytes) : Prop := IsValue s ∧ s.head? ≠ some (byte ' ')

/-- The number that some digits denote. -/
def number (digits : Bytes) : ℕ := digits.foldl (fun n c => n * 10 + (c.toNat - '0'.toNat)) 0

/-- The end of a line. -/
def crlf : Bytes := [byte '\r', byte '\n']

/-- What stands in front of the version. -/
def httpSlash : Bytes := [byte 'H', byte 'T', byte 'T', byte 'P', byte '/']

/-! ## One more byte -/

section Concat

variable {s : Bytes} {c : UInt8}

/-- A kind of bytes, and one more of them. -/
theorem forall_mem_concat {P : UInt8 → Prop} (h : ∀ d ∈ s, P d) (hc : P c) :
    ∀ d ∈ s ++ [c], P d := by
  intro d hd
  rcases List.mem_append.mp hd with hd | hd
  · exact h d hd
  · rwa [List.mem_singleton.mp hd]

/-- A token, and one more byte. -/
theorem IsToken.concat (h : IsToken s) (hc : IsTokenByte c) : IsToken (s ++ [c]) :=
  ⟨by simp, forall_mem_concat h.2 hc⟩

/-- A token of one byte. -/
theorem IsToken.single (hc : IsTokenByte c) : IsToken [c] := ⟨by simp, by simpa using hc⟩

/-- A number, and one more digit. -/
theorem IsDigits.concat (h : IsDigits s) (hc : IsDigit c) : IsDigits (s ++ [c]) :=
  ⟨by simp, forall_mem_concat h.2 hc⟩

/-- A number of one digit. -/
theorem IsDigits.single (hc : IsDigit c) : IsDigits [c] := ⟨by simp, by simpa using hc⟩

/-- White space, and one more byte of it. -/
theorem IsBlanks.concat (h : IsBlanks s) (hc : c = byte ' ' ∨ c = byte '\t') :
    IsBlanks (s ++ [c]) := ⟨by simp, forall_mem_concat h.2 hc⟩

/-- White space of one byte. -/
theorem IsBlanks.single (hc : c = byte ' ' ∨ c = byte '\t') : IsBlanks [c] :=
  ⟨by simp, by simpa using hc⟩

end Concat

/-! ## Messages -/

/-- A request line. -/
structure RequestLine where
  method : Bytes
  uri : Bytes
  major : Bytes
  minor : Bytes
  isToken_method : IsToken method
  isUri_uri : IsUri uri
  isDigits_major : IsDigits major
  isDigits_minor : IsDigits minor

/-- The text of a request line. -/
def RequestLine.text (line : RequestLine) : Bytes :=
  line.method ++ byte ' ' :: (line.uri ++ byte ' ' :: (httpSlash ++
    (line.major ++ byte '.' :: (line.minor ++ crlf))))

/-- A header line: a field, or a line that goes on with the value of the last header. -/
inductive HeaderLine where
  | field (name value : Bytes) (isToken_name : IsToken name) (isValue_value : IsValue value)
  | folded (blanks rest : Bytes) (isBlanks_blanks : IsBlanks blanks) (isRest_rest : IsRest rest)

/-- The text of a header line. -/
def HeaderLine.text : HeaderLine → Bytes
  | .field name value _ _ => name ++ byte ':' :: byte ' ' :: (value ++ crlf)
  | .folded blanks rest _ _ => blanks ++ (rest ++ crlf)

/-- What a header line makes of the headers before it. -/
def HeaderLine.addTo (headers : List Header) : HeaderLine → List Header
  | .field name value _ _ => headers ++ [⟨name, value⟩]
  | .folded _ rest _ _ =>
    headers.modifyLast fun header => { header with value := header.value ++ rest }

/-- A header line that is a field. -/
def HeaderLine.IsField : HeaderLine → Prop
  | .field _ _ _ _ => True
  | .folded _ _ _ _ => False

/-- The first header line is a field. -/
def FieldFirst (lines : List HeaderLine) : Prop := ∀ l ∈ lines.head?, l.IsField

/-- The text of some header lines. -/
def linesText (lines : List HeaderLine) : Bytes := lines.flatMap HeaderLine.text

/-- The headers of some header lines. -/
def headersOf (lines : List HeaderLine) : List Header := lines.foldl HeaderLine.addTo []

/-- A request: a request line, header lines, and an empty line. -/
structure Message where
  line : RequestLine
  lines : List HeaderLine
  fieldFirst : FieldFirst lines

/-- The text of a request. -/
def Message.text (m : Message) : Bytes := m.line.text ++ (linesText m.lines ++ crlf)

/-- What there is to record of a request. -/
def Message.request (m : Message) : Request :=
  ⟨m.text, m.line.method, m.line.uri, number m.line.major, number m.line.minor, headersOf m.lines⟩

/-- A text has the form of a request. -/
def Formed (s : Bytes) : Prop := ∃ m : Message, m.text = s

/-! ## Header lines at the end -/

/-- A line behind others. -/
theorem linesText_concat (lines : List HeaderLine) (l : HeaderLine) :
    linesText (lines ++ [l]) = linesText lines ++ l.text := by
  simp [linesText]

/-- The headers with a line behind the others. -/
theorem headersOf_concat (lines : List HeaderLine) (l : HeaderLine) :
    headersOf (lines ++ [l]) = l.addTo (headersOf lines) := by
  simp [headersOf]

/-- No header lines. -/
theorem fieldFirst_nil : FieldFirst [] := fun l hl => by cases hl

/-- A field can stand behind any lines. -/
theorem FieldFirst.concat_field {lines : List HeaderLine} (h : FieldFirst lines) {l : HeaderLine}
    (hl : l.IsField) : FieldFirst (lines ++ [l]) := by
  cases lines with
  | nil => rintro l' ⟨⟩; exact hl
  | cons l' lines => exact h

/-- Any line can stand behind a header. -/
theorem FieldFirst.concat {lines : List HeaderLine} (h : FieldFirst lines)
    (hne : headersOf lines ≠ []) (l : HeaderLine) : FieldFirst (lines ++ [l]) := by
  cases lines with
  | nil => exact absurd rfl hne
  | cons l' lines => exact h

end CrazyCode.Http
