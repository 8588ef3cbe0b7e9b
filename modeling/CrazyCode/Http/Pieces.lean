import CrazyCode.Http.Recognition

/-!
# Requests in pieces

A connection brings its bytes in pieces, cut anywhere, and any number of requests one behind the
other. `parse` is called for each piece, and goes on where the last call has ended. Behind a request
the parser is reset, and parses the rest of the piece (`Receives`).

How the bytes are cut makes no difference (`receives_flatten`). Whatever they are, each of them is
in one request, in order, and none is lost (`receives_sound`); and requests that are sent are
received (`receives_messages`).
-/

namespace CrazyCode.Http

open Decimal Recogniser

/-- `request_parser::reset`, and a request for the next one. -/
def reset (a b : ℤ) : State × Request := (.methodStart, .empty a b)

/-- From a state of the parser and the request that it is filling, pieces of input are parsed to a
number of requests. -/
inductive Receives (a b : ℤ) : State × Request → List Bytes → List Request → State × Request → Prop
  | done {s : State × Request} : Receives a b s [] [] s
  | more {s s' s'' : State × Request} {piece : Bytes} {pieces : List Bytes} {reqs : List Request} :
      parse s.1 s.2 piece = some (.indeterminate, [], s') → Receives a b s' pieces reqs s'' →
      Receives a b s (piece :: pieces) reqs s''
  | good {s s'' : State × Request} {piece rest : Bytes} {pieces : List Bytes} {reqs : List Request}
      {state : State} {req : Request} :
      parse s.1 s.2 piece = some (.good, rest, state, req) →
      Receives a b (reset a b) (rest :: pieces) reqs s'' →
      Receives a b s (piece :: pieces) (req :: reqs) s''

section

variable {a b : ℤ} {s s' s'' : State × Request} {pieces pieces' : List Bytes}
variable {reqs reqs' : List Request}

/-- Pieces behind others. -/
theorem Receives.append (h : Receives a b s pieces reqs s')
    (h' : Receives a b s' pieces' reqs' s'') :
    Receives a b s (pieces ++ pieces') (reqs ++ reqs') s'' := by
  induction h with
  | done => exact h'
  | more hparse _ ih => exact .more hparse (ih h')
  | good hparse _ ih => exact .good hparse (ih h')

/-- The same pieces are parsed to the same requests. -/
theorem Receives.unique (h : Receives a b s pieces reqs s') (h' : Receives a b s pieces reqs' s'') :
    reqs = reqs' ∧ s' = s'' := by
  induction h generalizing reqs' with
  | done =>
    cases h'
    exact ⟨rfl, rfl⟩
  | more hparse _ ih =>
    cases h' with
    | more hparse' h' =>
      obtain rfl : _ = _ :=
        (Prod.mk.inj (Prod.mk.inj (Option.some.inj (hparse.symm.trans hparse'))).2).2
      exact ih h'
    | good hparse' _ =>
      rw [hparse] at hparse'
      cases hparse'
  | good hparse _ ih =>
    cases h' with
    | more hparse' _ =>
      rw [hparse] at hparse'
      cases hparse'
    | good hparse' h' =>
      rw [hparse] at hparse'
      cases hparse'
      obtain ⟨rfl, rfl⟩ := ih h'
      exact ⟨rfl, rfl⟩

/-- `parse` in two parts. -/
theorem parse_append (u v : Bytes) : parse s.1 s.2 (u ++ v) = (parse s.1 s.2 u).bind fun out =>
    match out with
    | (.indeterminate, _, s') => parse s'.1 s'.2 v
    | (result, rest, s') => some (result, rest ++ v, s') := by
  rw [parse_eq_feed, parse_eq_feed, feed_append]
  refine congrArg _ (funext fun out => ?_)
  obtain ⟨_ | _ | _, rest, s'⟩ := out
  · rfl
  · rfl
  · exact (parse_eq_feed s'.1 s'.2 v).symm

/-- A first part without a result is a piece that is read to its end. -/
theorem parse_indeterminate {u rest : Bytes}
    (h : parse s.1 s.2 u = some (.indeterminate, rest, s')) :
    rest = [] := by
  rw [parse_eq_feed] at h
  exact rest_eq_nil h

/-- A piece can be cut in two. -/
theorem Receives.cut {u v : Bytes} (h : Receives a b s [u ++ v] reqs s'') :
    ∃ reqs₁ reqs₂ s', reqs = reqs₁ ++ reqs₂ ∧ Receives a b s [u] reqs₁ s' ∧
      Receives a b s' [v] reqs₂ s'' := by
  generalize hpieces : [u ++ v] = pieces at h
  induction h generalizing u with
  | done => cases hpieces
  | @more s s₁ s'' piece pieces reqs hparse h _ =>
    obtain ⟨rfl, rfl⟩ := List.cons.inj hpieces
    rw [parse_append] at hparse
    obtain ⟨⟨result, rest, s'⟩, hu, hparse⟩ := Option.bind_eq_some_iff.mp hparse
    cases result with
    | indeterminate =>
      obtain rfl := parse_indeterminate hu
      exact ⟨[], reqs, s', rfl, .more hu .done, .more hparse h⟩
    | good => cases hparse
    | bad => cases hparse
  | @good s s'' piece rest pieces reqs state req hparse h ih =>
    obtain ⟨rfl, rfl⟩ := List.cons.inj hpieces
    rw [parse_append] at hparse
    obtain ⟨⟨result, rest', s'⟩, hu, hparse⟩ := Option.bind_eq_some_iff.mp hparse
    cases result with
    | indeterminate =>
      obtain rfl := parse_indeterminate hu
      exact ⟨[], req :: reqs, s', rfl, .more hu .done, .good hparse h⟩
    | good =>
      cases hparse
      obtain ⟨reqs₁, reqs₂, s', rfl, h₁, h₂⟩ := ih rfl
      exact ⟨req :: reqs₁, reqs₂, s', rfl, .good hu h₁, h₂⟩
    | bad => cases hparse

/-- Two pieces can be joined. -/
theorem Receives.join {u v : Bytes} (h : Receives a b s [u] reqs s')
    (h' : Receives a b s' [v] reqs' s'') : Receives a b s [u ++ v] (reqs ++ reqs') s'' := by
  generalize hpieces : [u] = pieces at h
  induction h generalizing u with
  | done => cases hpieces
  | @more s s₁ s' piece pieces reqs hparse h _ =>
    obtain ⟨rfl, rfl⟩ := List.cons.inj hpieces
    cases h
    have hjoin := @parse_append s u v
    rw [hparse] at hjoin
    cases h' with
    | more hparse' h' => exact .more (hjoin.trans hparse') h'
    | good hparse' h' => exact .good (hjoin.trans hparse') h'
  | @good s s' piece rest pieces reqs state req hparse h ih =>
    obtain ⟨rfl, rfl⟩ := List.cons.inj hpieces
    have hjoin := @parse_append s u v
    rw [hparse] at hjoin
    exact .good hjoin (ih h' rfl)

/-- The first piece is parsed before the others. -/
theorem Receives.head {piece : Bytes} (h : Receives a b s (piece :: pieces) reqs s'') :
    ∃ reqs₁ reqs₂ s', reqs = reqs₁ ++ reqs₂ ∧ Receives a b s [piece] reqs₁ s' ∧
      Receives a b s' pieces reqs₂ s'' := by
  generalize hpieces : piece :: pieces = all at h
  induction h generalizing piece with
  | done => cases hpieces
  | @more s s' s'' piece pieces reqs hparse h _ =>
    obtain ⟨rfl, rfl⟩ := List.cons.inj hpieces
    exact ⟨[], reqs, s', rfl, .more hparse .done, h⟩
  | @good s s'' piece rest pieces reqs state req hparse h ih =>
    obtain ⟨rfl, rfl⟩ := List.cons.inj hpieces
    obtain ⟨reqs₁, reqs₂, s', rfl, h₁, h₂⟩ := ih rfl
    exact ⟨req :: reqs₁, reqs₂, s', rfl, .good hparse h₁, h₂⟩

/-- However an input is cut into pieces, it is parsed to the same requests, and leads to the same
state. -/
theorem receives_flatten :
    Receives a b s pieces reqs s'' ↔ Receives a b s [pieces.flatten] reqs s'' := by
  induction pieces generalizing s reqs with
  | nil =>
    have hnil : parse s.1 s.2 [] = some (.indeterminate, [], s) := rfl
    constructor
    · rintro ⟨⟩
      exact .more hnil .done
    · intro h
      cases h with
      | more hparse h =>
        cases h
        cases hparse
        exact .done
      | good hparse _ => cases hparse
  | cons piece pieces ih =>
    rw [List.flatten_cons]
    constructor
    · intro h
      obtain ⟨reqs₁, reqs₂, s', rfl, h₁, h₂⟩ := h.head
      exact h₁.join (ih.mp h₂)
    · intro h
      obtain ⟨reqs₁, reqs₂, s', rfl, h₁, h₂⟩ := h.cut
      exact h₁.append (ih.mpr h₂)

/-- What a fresh parser has read is in the request, and the result is that of the grammar for it. -/
theorem outcome_of_parse {input rest : Bytes} {result : ParseResult}
    (h : parse (reset a b).1 (reset a b).2 input = some (result, rest, s)) :
    input = s.2.originalReq ++ rest ∧ Outcome Formed input result s.2.originalReq := by
  obtain ⟨result', pre, rest', s', hfeed, hinput, houtcome⟩ := (recognises a b).feed input
  obtain ⟨pre', hpre', hreq⟩ := originalReq_parse h
  rw [parse_eq_feed] at h
  obtain ⟨rfl, rfl, rfl⟩ : result' = result ∧ rest' = rest ∧ s' = s := by
    simpa using hfeed.symm.trans h
  have hread : s'.2.originalReq = pre' := hreq
  obtain rfl : pre = pre' := List.append_cancel_right (hinput.symm.trans hpre')
  rw [hread]
  exact ⟨hinput, houtcome⟩

/-- The bytes of a connection, however they are cut, are those of the requests that are received,
each in the form of a request, and of the one that is being received, which can be completed. -/
theorem receives_sound (h : Receives a b (reset a b) pieces reqs s) :
    pieces.flatten = reqs.flatMap Request.originalReq ++ s.2.originalReq ∧
      (∀ req ∈ reqs, Formed req.originalReq) ∧ Viable Formed s.2.originalReq ∧
      ∀ q, q <+: s.2.originalReq → ¬ Formed q := by
  replace h := receives_flatten.mp h
  generalize pieces.flatten = input at h ⊢
  generalize hstart : reset a b = start, hpieces : [input] = pieces at h
  induction h generalizing input with
  | done => cases hpieces
  | @more s s' s'' piece pieces reqs hparse h _ =>
    obtain ⟨rfl, rfl⟩ := List.cons.inj hpieces
    cases h
    subst hstart
    obtain ⟨hread, hsame, hviable, hnone⟩ := outcome_of_parse hparse
    rw [← hsame] at hviable hnone
    exact ⟨hsame.symm, by simp, hviable, hnone⟩
  | @good s s'' piece rest pieces reqs state req hparse h ih =>
    obtain ⟨rfl, rfl⟩ := List.cons.inj hpieces
    subst hstart
    obtain ⟨hread, -, hformed, -⟩ := outcome_of_parse hparse
    obtain ⟨hrest, hall, hviable, hnone⟩ := ih rest rfl rfl
    refine ⟨?_, List.forall_mem_cons.mpr ⟨hformed, hall⟩, hviable, hnone⟩
    rw [List.flatMap_cons, List.append_assoc, ← hrest]
    exact hread

/-- Requests that are sent one behind the other are received, and nothing else, however their bytes
are cut into pieces. -/
theorem receives_messages {messages : List Message}
    (hversion : ∀ m ∈ messages, number m.line.major < 2 ^ 31 ∧ number m.line.minor < 2 ^ 31)
    (hpieces : pieces.flatten = messages.flatMap Message.text) :
    Receives a b (reset a b) pieces reqs s ↔
      reqs = messages.map Message.request ∧ s = reset a b := by
  have hreceives : Receives a b (reset a b) pieces (messages.map Message.request) (reset a b) := by
    rw [receives_flatten, hpieces]
    clear hpieces
    induction messages with
    | nil => exact .more rfl .done
    | cons m messages ih =>
      obtain ⟨⟨hmajor, hminor⟩, hversion⟩ := List.forall_mem_cons.mp hversion
      have hparse := parse_message m a b (messages.flatMap Message.text)
      rw [request_eq m hmajor hminor] at hparse
      exact .good hparse (ih hversion)
  constructor
  · exact fun h => h.unique hreceives
  · rintro ⟨rfl, rfl⟩
    exact hreceives

end

/-- The bytes of a request, and the first one of another. -/
def sampleStream : List Bytes := ["GET / HT".toList.map byte, "TP/1.0\r\n\r\nP".toList.map byte]

/-- The request in them. -/
def sampleReceived : Request :=
  ⟨"GET / HTTP/1.0\r\n\r\n".toList.map byte, "GET".toList.map byte, [byte '/'], 1, 0, []⟩

/-- They are received as one request. -/
theorem receives_sampleStream : Receives 0 0 (reset 0 0) sampleStream [sampleReceived]
    (.method, ⟨[byte 'P'], [byte 'P'], [], 0, 0, []⟩) :=
  .more rfl (.good rfl (.more rfl .done))

/-- Their bytes are those of the request, and one more. -/
theorem receives_sound_stream : sampleStream.flatten =
    [sampleReceived].flatMap Request.originalReq ++ [byte 'P'] ∧
    (∀ req ∈ [sampleReceived], Formed req.originalReq) ∧ Viable Formed [byte 'P'] ∧
    ∀ q, q <+: [byte 'P'] → ¬ Formed q :=
  receives_sound receives_sampleStream

/-- A request without a URI and without headers. -/
def sampleMessage : Message where
  line := ⟨[byte 'G'], [], [byte '1'], [byte '0'], .single (by decide), by simp [IsUri],
    .single (by decide), isDigits_zero⟩
  lines := []
  fieldFirst := fieldFirst_nil

/-- It is received twice. -/
theorem receives_messages_twice : Receives 0 0 (reset 0 0) [sampleMessage.text, sampleMessage.text]
    [sampleMessage.request, sampleMessage.request] (reset 0 0) :=
  (@receives_messages 0 0 _ _ _ [sampleMessage, sampleMessage] (by decide +kernel) (by simp)).mpr
    ⟨rfl, rfl⟩

end CrazyCode.Http
