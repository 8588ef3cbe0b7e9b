import CrazyCode.Session.Session
import CrazyCode.Library.Quoted

/-!
# The login cookie

`update_cookie` writes the profile of a login between two quotes, and `update_user` reads the value
of a `Cookie` header as a quoted string, in which a backslash takes the next byte as it is. Nothing
is escaped on the way out. So the profile comes back exactly if its name and its email have neither
a quote nor a backslash, and its email is not empty: an empty last field is no field
(`cookieRoundTrips_iff`).

Of Boost.Beast's `param_list` it is assumed that a quoted string that is closed is yielded without
its quotes and escapes, and that one that is not closed is no value (`QuotedParams`). The first is
documented for the text that its grammar allows in such a string (`PlainParams`), which is enough
for a profile of such text to come back (`updateUser_qdtext`).
-/

namespace CrazyCode.Session

open Text Decimal Profile Server

/-- A header that begins with a parameter `crazyCode` and an opening quote. -/
def quotedHeader (s : Str) : Str := ";crazyCode=\"".toList ++ s

/-- What is assumed of `param_list` for any text. It is more than its grammar says, in which no byte
below the blank but the tab is part of a quoted string (`PlainParams`). -/
structure QuotedParams (paramList : Str → List (Str × Str)) : Prop where
  /-- The value of a quoted string is its text up to the first quote that is not escaped, without
  the backslashes of its escapes. -/
  closed : ∀ {raw value : Str} (rest : Str), QuotedBody '"' raw value →
    (paramList (quotedHeader (raw ++ '"' :: rest))).head? = some ("crazyCode".toList, value)
  /-- A quoted string that is not closed is a syntax error, at which the list ends. -/
  unclosed : ∀ {raw value s : Str}, QuotedBody '"' raw value → s = raw ∨ s = raw ++ ['\\'] →
    ∀ param ∈ paramList (quotedHeader s), param.2 = []

/-- `qdtext` of the grammar of `param_list`: a tab, or a byte from the blank on that is no quote, no
backslash and no `DEL`. -/
def Qdtext (c : Char) : Prop := c = '\t' ∨ 32 ≤ c.toNat ∧ c ≠ '"' ∧ c ≠ '\\' ∧ c.toNat ≠ 127

instance (c : Char) : Decidable (Qdtext c) := inferInstanceAs (Decidable (_ ∨ _))

/-- What is assumed of `param_list` for such text: in quotes it is yielded as it is. -/
def PlainParams (paramList : Str → List (Str × Str)) : Prop :=
  ∀ value, (∀ c ∈ value, Qdtext c) →
    (paramList (quotedHeader (value ++ ['"']))).head? = some ("crazyCode".toList, value)

/-- The value of a login's cookie, sent back, gives the profile of the login. -/
def CookieRoundTrips (paramList : Str → List (Str × Str)) (hash : PasswordHash)
    (database : Option Str) (body : Str) : Prop :=
  ∀ cookie, updateCookie hash database body = .ok cookie → cookie ≠ [] →
    ∃ email password profile, fields body = ["crazyCode".toList, email, password] ∧
      login hash database email password = .ok (true, profile) ∧
      ∀ user, updateUser paramList ("crazyCode=".toList ++ cookie) user =
        .ok (true, ⟨profile.userId, profile.username, profile.email, true⟩)

/-- The profile of the login has an email, and neither a quote nor a backslash. -/
def PlainProfile (hash : PasswordHash) (database : Option Str) (body : Str) : Prop :=
  ∀ email password profile, fields body = ["crazyCode".toList, email, password] →
    login hash database email password = .ok (true, profile) →
    profile.email ≠ [] ∧ ∀ c ∈ profile.username ++ profile.email, c ≠ '"' ∧ c ≠ '\\'

/-! ## What `update_cookie` writes -/

section Value

variable {hash : PasswordHash} {database : Option Str} {body : Str}

/-- The value of a cookie, without its quotes. -/
def cookieValue (profile : UserProfile) : Str :=
  decimal profile.userId ++ '|' :: (profile.username ++ '|' :: profile.email)

/-- Only a login that succeeds gets a cookie, with its profile between quotes. -/
theorem updateCookie_ok {cookie : Str} (h : updateCookie hash database body = .ok cookie)
    (hne : cookie ≠ []) :
    ∃ email password profile, fields body = ["crazyCode".toList, email, password] ∧
      login hash database email password = .ok (true, profile) ∧
      cookie = '"' :: (cookieValue profile ++ ['"']) := by
  unfold updateCookie at h
  split at h
  · next kind email password hfields =>
    split at h
    · next hkind =>
      subst hkind
      cases hlogin : login hash database email password with
      | error error => simp [hlogin] at h
      | ok result =>
        obtain ⟨answer, profile⟩ := result
        cases answer with
        | false =>
          simp only [hlogin, Except.ok.injEq] at h
          exact absurd h.symm hne
        | true =>
          simp only [hlogin, Except.ok.injEq] at h
          exact ⟨email, password, profile, hfields, hlogin, by simp [← h, cookieValue]⟩
    · exact absurd (Except.ok.inj h).symm hne
  · exact absurd (Except.ok.inj h).symm hne

/-- A login that succeeds gets a cookie. -/
theorem updateCookie_login {email password : Str} {profile : UserProfile}
    (hfields : fields body = ["crazyCode".toList, email, password])
    (hlogin : login hash database email password = .ok (true, profile)) :
    updateCookie hash database body = .ok ('"' :: (cookieValue profile ++ ['"'])) := by
  simp [updateCookie, hfields, hlogin, cookieValue]

/-- The header in which a cookie is sent back, behind the semicolon that `update_user` adds. -/
theorem header_cookie (value : Str) :
    ';' :: ("crazyCode=".toList ++ '"' :: value) = quotedHeader value := rfl

end Value

/-! ## What `update_user` reads -/

section Read

variable {paramList : Str → List (Str × Str)}

/-- The first field of a text, and the others. -/
theorem fields_cons {a : Str} (ha : '|' ∉ a) (s : Str) :
    fields (a ++ '|' :: s) = a :: fields s := by
  rw [fields_eq, fields_eq, pieces_append_cons ha]

/-- The fields of the value of a cookie with an email. -/
theorem fields_cookieValue {profile : UserProfile} (hname : '|' ∉ profile.username)
    (hbar : '|' ∉ profile.email) (hne : profile.email ≠ []) :
    fields (cookieValue profile) = [decimal profile.userId, profile.username, profile.email] := by
  rw [cookieValue, fields_cons (bar_not_mem_decimal _), fields_cons hname, fields_eq,
    pieces_of_not_mem hbar, if_neg hne]

/-- Two fields are the text before its first separator, and the text behind it, with or without
another separator at the end. -/
theorem eq_of_fields_pair {s b c : Str} (h : fields s = [b, c]) :
    c ≠ [] ∧ s = b ++ '|' :: c ∨ s = b ++ '|' :: (c ++ ['|']) := by
  rw [fields_eq] at h
  rcases eq_of_pieces (by simp) h with ⟨hlast, hs⟩ | hs
  · exact .inl ⟨hlast c rfl, by simpa using hs⟩
  · exact .inr (by simpa using hs)

/-- The value of the first parameter of a header, if that is `crazyCode`. -/
theorem crazyCode_of_head {s value : Str}
    (h : (paramList (quotedHeader s)).head? = some ("crazyCode".toList, value)) :
    crazyCode paramList ("crazyCode=".toList ++ '"' :: s) = some value := by
  rw [crazyCode, header_cookie]
  obtain ⟨params, hparams⟩ := List.head?_eq_some_iff.mp h
  rw [hparams, List.find?_cons_of_pos (by simp)]
  rfl

/-- The value of the parameter of a quoted header. -/
theorem crazyCode_closed (hparams : QuotedParams paramList) {raw value : Str} (rest : Str)
    (h : QuotedBody '"' raw value) :
    crazyCode paramList ("crazyCode=".toList ++ '"' :: (raw ++ '"' :: rest)) = some value :=
  crazyCode_of_head (hparams.closed rest h)

/-- The bytes of a numeral are `qdtext`. -/
theorem qdtext_of_mem_decimal {id : ℤ} {c : Char} (hc : c ∈ decimal id) : Qdtext c := by
  rcases isDigit_of_mem_decimal hc with rfl | hdigit
  · decide
  · have hrange : 48 ≤ c.toNat ∧ c.toNat ≤ 57 := by
      simpa [Char.isDigit, UInt32.le_iff_toNat_le] using hdigit
    refine .inr ⟨by omega, ?_, ?_, by omega⟩ <;> rintro rfl <;> simp at hrange

/-- A line break is not. -/
theorem newline_not_mem_of_qdtext {s : Str} (h : ∀ c ∈ s, Qdtext c) : '\n' ∉ s := fun hmem =>
  absurd (h _ hmem) (by decide)

/-- Text without quotes and backslashes is yielded as it is. -/
theorem QuotedParams.plain (h : QuotedParams paramList) :
    PlainParams paramList := fun value hvalue => by
  refine h.closed [] (quotedBody_self (fun hmem => ?_) fun hmem => ?_)
  · exact absurd (hvalue _ hmem) (by decide)
  · exact absurd (hvalue _ hmem) (by decide)

/-- Without a closing quote nobody is logged in. -/
theorem updateUser_unclosed (hparams : QuotedParams paramList) {raw value s : Str}
    (h : QuotedBody '"' raw value) (hs : s = raw ∨ s = raw ++ ['\\']) (user : UserProfile) :
    updateUser paramList ("crazyCode=".toList ++ '"' :: s) user = .ok (false, user) := by
  have hempty := hparams.unclosed h hs
  unfold updateUser
  cases hvalue : crazyCode paramList ("crazyCode=".toList ++ '"' :: s) with
  | none => rfl
  | some data =>
    rw [crazyCode, header_cookie] at hvalue
    obtain ⟨param, hfind, rfl⟩ := Option.map_eq_some_iff.mp hvalue
    have hnil : param.2 = [] := hempty param (List.mem_of_find?_eq_some hfind)
    rw [hnil]
    rfl

end Read

/-! ## The round trip -/

section RoundTrip

variable {paramList : Str → List (Str × Str)} {hash : PasswordHash} {database : Option Str}

/-- The bytes of the value of a cookie are those of the profile, and of the id and its
separators. -/
theorem forall_mem_cookieValue {P : Char → Prop} {profile : UserProfile}
    (hid : ∀ c ∈ decimal profile.userId, P c) (hbar : P '|')
    (hprofile : ∀ c ∈ profile.username ++ profile.email, P c) :
    ∀ c ∈ cookieValue profile, P c := by
  intro c hc
  simp only [cookieValue, List.mem_append, List.mem_cons] at hc
  rcases hc with hc | rfl | hc | rfl | hc
  · exact hid c hc
  · exact hbar
  · exact hprofile c (by simp [hc])
  · exact hbar
  · exact hprofile c (by simp [hc])

/-- A value that is yielded as it is comes back. -/
theorem updateUser_value {profile : UserProfile}
    (hvalue : crazyCode paramList ("crazyCode=".toList ++ '"' :: (cookieValue profile ++ ['"'])) =
      some (cookieValue profile))
    (hname : '|' ∉ profile.username) (hbar : '|' ∉ profile.email)
    (hrange : intMin ≤ profile.userId ∧ profile.userId ≤ intMax) (hne : profile.email ≠ [])
    (user : UserProfile) :
    updateUser paramList ("crazyCode=".toList ++ '"' :: (cookieValue profile ++ ['"'])) user =
      .ok (true, ⟨profile.userId, profile.username, profile.email, true⟩) := by
  unfold updateUser
  simp only [hvalue, fields_cookieValue hname hbar hne, stoi_decimal hrange.1 hrange.2]

/-- A plain value comes back. -/
theorem updateUser_plain (hparams : QuotedParams paramList) {profile : UserProfile}
    (hname : '|' ∉ profile.username) (hbar : '|' ∉ profile.email)
    (hrange : intMin ≤ profile.userId ∧ profile.userId ≤ intMax) (hne : profile.email ≠ [])
    (hplain : ∀ c ∈ profile.username ++ profile.email, c ≠ '"' ∧ c ≠ '\\') (user : UserProfile) :
    updateUser paramList ("crazyCode=".toList ++ '"' :: (cookieValue profile ++ ['"'])) user =
      .ok (true, ⟨profile.userId, profile.username, profile.email, true⟩) := by
  have hmem : ∀ c ∈ cookieValue profile, c ≠ '"' ∧ c ≠ '\\' := by
    refine forall_mem_cookieValue (fun c hc => ⟨?_, ?_⟩) (by decide) hplain <;> rintro rfl <;>
      exact not_mem_decimal (by decide) (by decide) _ hc
  have hbody : QuotedBody '"' (cookieValue profile) (cookieValue profile) :=
    quotedBody_self (fun h => (hmem _ h).1 rfl) fun h => (hmem _ h).2 rfl
  exact updateUser_value (crazyCode_closed hparams [] hbody) hname hbar hrange hne user

/-- So does one of `qdtext`, of which less is assumed. -/
theorem updateUser_qdtext (hparams : PlainParams paramList) {profile : UserProfile}
    (hname : '|' ∉ profile.username) (hbar : '|' ∉ profile.email)
    (hrange : intMin ≤ profile.userId ∧ profile.userId ≤ intMax) (hne : profile.email ≠ [])
    (hplain : ∀ c ∈ profile.username ++ profile.email, Qdtext c) (user : UserProfile) :
    updateUser paramList ("crazyCode=".toList ++ '"' :: (cookieValue profile ++ ['"'])) user =
      .ok (true, ⟨profile.userId, profile.username, profile.email, true⟩) :=
  updateUser_value (crazyCode_of_head (hparams _ (forall_mem_cookieValue
    (fun _ hc => qdtext_of_mem_decimal hc) (by decide) hplain))) hname hbar hrange hne user

/-- Only a plain value comes back. -/
theorem plain_of_updateUser (hparams : QuotedParams paramList) {profile user : UserProfile}
    (h : updateUser paramList ("crazyCode=".toList ++ '"' :: (cookieValue profile ++ ['"'])) user =
      .ok (true, ⟨profile.userId, profile.username, profile.email, true⟩)) :
    profile.email ≠ [] ∧ ∀ c ∈ profile.username ++ profile.email, c ≠ '"' ∧ c ≠ '\\' := by
  obtain ⟨raw, value, hbody, hopen⟩ := exists_quotedBody '"' (cookieValue profile ++ ['"'])
  rcases or_assoc.mpr hopen with hopen | ⟨rest, hclosed⟩
  · rw [updateUser_unclosed hparams hbody hopen] at h
    cases h
  · -- The value begins with the id and its separator, which are plain.
    obtain ⟨raw, value, rfl, rfl, hbody'⟩ := QuotedBody.of_plain_append
      (a := decimal profile.userId ++ ['|'])
      (r := profile.username ++ '|' :: (profile.email ++ ['"']))
      (by simpa using not_mem_decimal (by decide) (by decide) _)
      (by simpa using not_mem_decimal (by decide) (by decide) _) hbody
      (by rw [← hclosed]; simp [cookieValue])
    have htail : (profile.username ++ '|' :: profile.email) ++ '"' :: [] = raw ++ '"' :: rest := by
      have := hclosed
      simp only [cookieValue, List.append_assoc, List.cons_append, List.nil_append,
        List.append_cancel_left_eq, List.cons.injEq, true_and] at this
      simpa using this
    rw [hclosed] at h
    unfold updateUser at h
    rw [crazyCode_closed hparams rest hbody] at h
    have hfields : fields (decimal profile.userId ++ ['|'] ++ value) =
        decimal profile.userId :: fields value := by
      rw [List.append_assoc]
      exact fields_cons (bar_not_mem_decimal _) value
    simp only [hfields] at h
    split at h
    · next id username email heq =>
      split at h
      · obtain ⟨rfl, hpair⟩ := List.cons.inj heq
        simp only [Except.ok.injEq, Prod.mk.injEq, UserProfile.mk.injEq, true_and, and_true] at h
        obtain ⟨-, rfl, rfl⟩ := h
        rcases eq_of_fields_pair hpair with ⟨hne, rfl⟩ | rfl
        · obtain ⟨-, hq, hb⟩ := hbody'.plain_of_append (by decide) htail
          refine ⟨hne, fun c hc => ⟨?_, ?_⟩⟩ <;> rintro rfl
          · exact hq (by simpa using hc)
          · exact hb (by simpa using hc)
        · -- A separator more would need more bytes than there are.
          have hlen := hbody'.length_le
          have hlen' := congrArg List.length htail
          simp only [List.length_append, List.length_cons, List.length_nil] at hlen hlen'
          omega
      · cases h
    · cases h

/-- The cookie of a login round-trips exactly if the profile has an email, and neither a quote nor a
backslash in its name and its email. -/
theorem cookieRoundTrips_iff (hparams : QuotedParams paramList) (hash : PasswordHash)
    (database : Option Str) (body : Str) :
    CookieRoundTrips paramList hash database body ↔ PlainProfile hash database body := by
  constructor
  · intro hround email password profile hfields hlogin
    obtain ⟨email', password', profile', hfields', hlogin', huser⟩ :=
      hround _ (updateCookie_login hfields hlogin) (by simp)
    obtain ⟨rfl, rfl⟩ : email = email' ∧ password = password' := by
      simpa using hfields.symm.trans hfields'
    obtain rfl : profile = profile' := by simpa using hlogin.symm.trans hlogin'
    exact plain_of_updateUser hparams (huser ⟨0, [], [], false⟩)
  · intro hplain cookie hcookie hne
    obtain ⟨email, password, profile, hfields, hlogin, rfl⟩ := updateCookie_ok hcookie hne
    obtain ⟨hemail, hchars⟩ := hplain email password profile hfields hlogin
    obtain ⟨hname, hbar, hrange, -⟩ := login_profile hlogin
    exact ⟨email, password, profile, hfields, hlogin,
      updateUser_plain hparams hname hbar hrange hemail hchars⟩

end RoundTrip

/-! A list of parameters for the headers of logins. -/

/-- The value of a quoted string, from behind its opening quote. -/
def readQuoted : Str → Option Str
  | [] => none
  | '"' :: _ => some []
  | ['\\'] => none
  | '\\' :: c :: s => (readQuoted s).map (c :: ·)
  | c :: s => (readQuoted s).map (c :: ·)

/-- The parameter of a quoted header. -/
def quotedParams (s : Str) : List (Str × Str) :=
  if quotedHeader [] <+: s then
    (readQuoted (s.drop (quotedHeader []).length)).toList.map fun value =>
      ("crazyCode".toList, value)
  else []

/-- Any byte that is no quote and no backslash is read as it is. -/
theorem readQuoted_plain {c : Char} (hq : c ≠ '"') (hb : c ≠ '\\') (s : Str) :
    readQuoted (c :: s) = (readQuoted s).map (c :: ·) := by
  rw [readQuoted]
  · exact hq
  · rintro rfl
    exact absurd rfl hb
  · rintro _ _ rfl
    exact absurd rfl hb

/-- A quoted string is read up to its closing quote. -/
theorem readQuoted_append {raw value : Str} (h : QuotedBody '"' raw value) (s : Str) :
    readQuoted (raw ++ s) = (readQuoted s).map (value ++ ·) := by
  induction h with
  | nil => simp
  | plain hq hb _ ih =>
    rw [List.cons_append, readQuoted_plain hq hb, ih, Option.map_map]
    rfl
  | escape _ ih =>
    rw [List.cons_append, List.cons_append, readQuoted, ih, Option.map_map]
    rfl

/-- These parameters are as assumed. -/
theorem quotedParams_quotedParams : QuotedParams quotedParams where
  closed {raw value} rest h := by
    have hpre : quotedHeader [] <+: quotedHeader (raw ++ '"' :: rest) := List.prefix_append _ _
    have hdrop : (quotedHeader (raw ++ '"' :: rest)).drop (quotedHeader []).length =
        raw ++ '"' :: rest := rfl
    rw [quotedParams, if_pos hpre, hdrop, readQuoted_append h]
    simp [readQuoted]
  unclosed {raw value s} h hs param hparam := by
    have hpre : quotedHeader [] <+: quotedHeader s := List.prefix_append _ _
    have hdrop : (quotedHeader s).drop (quotedHeader []).length = s := rfl
    rw [quotedParams, if_pos hpre, hdrop] at hparam
    have hnone : readQuoted s = none := by
      rcases hs with rfl | rfl
      · have := readQuoted_append h []
        rw [List.append_nil] at this
        rw [this]
        rfl
      · rw [readQuoted_append h]
        rfl
    rw [hnone] at hparam
    cases hparam

/-- The cookie of an account `n`. -/
theorem cookieRoundTrips_plain :
    CookieRoundTrips quotedParams sampleHash (signupStrings sampleHash ["n|pw|e@x".toList])
      "crazyCode|e@x|pw".toList := by
  refine (cookieRoundTrips_iff quotedParams_quotedParams _ _ _).mpr fun email password profile
    hfields hlogin => ?_
  obtain ⟨rfl, rfl⟩ : "e@x".toList = email ∧ "pw".toList = password := by
    have hbody : fields "crazyCode|e@x|pw".toList =
        ["crazyCode".toList, "e@x".toList, "pw".toList] := by decide +kernel
    simpa using hbody.symm.trans hfields
  have hprofile : login sampleHash (signupStrings sampleHash ["n|pw|e@x".toList]) "e@x".toList
      "pw".toList = .ok (true, ⟨1, "n".toList, "e@x".toList, true⟩) := by decide +kernel
  obtain rfl : (⟨1, "n".toList, "e@x".toList, true⟩ : UserProfile) = profile := by
    simpa using hprofile.symm.trans hlogin
  refine ⟨by decide, fun c hc => ?_⟩
  have hc : c ∈ ['n', 'e', '@', 'x'] := hc
  simp only [List.mem_cons, List.not_mem_nil, or_false] at hc
  rcases hc with rfl | rfl | rfl | rfl <;> decide

/-- The cookie of an account `n"x` is cut off at the quote, and has one field only. -/
theorem not_cookieRoundTrips : ¬ ∀ (paramList : Str → List (Str × Str)) (hash : PasswordHash)
    (bodies : List Str) (body : Str), QuotedParams paramList →
    CookieRoundTrips paramList hash (signupStrings hash bodies) body := fun h => by
  have hcookie : updateCookie sampleHash (signupStrings sampleHash ["n\"x|pw|e@x".toList])
      "crazyCode|e@x|pw".toList = .ok "\"1|n\"x|e@x\"".toList := by decide +kernel
  obtain ⟨_, _, profile, -, -, huser⟩ := h quotedParams sampleHash ["n\"x|pw|e@x".toList]
    "crazyCode|e@x|pw".toList quotedParams_quotedParams _ hcookie (by decide)
  have hanswer : updateUser quotedParams ("crazyCode=".toList ++ "\"1|n\"x|e@x\"".toList)
      ⟨0, [], [], false⟩ = .ok (false, ⟨0, [], [], false⟩) := by decide +kernel
  have := hanswer.symm.trans (huser ⟨0, [], [], false⟩)
  simp at this

end CrazyCode.Session
