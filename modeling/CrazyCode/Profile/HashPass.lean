import CrazyCode.Profile.Accounts

/-!
# The hash of a password

`profile_manager::hash_pass` writes the 32 bytes of the SHA-256 digest of a password as hexadecimal
digits, two for each byte. So its values have the shape that the database relies on
(`passwordHash`), and two passwords have the same hash exactly if they have the same digest
(`hashPass_eq_iff`). What a login compares is therefore the digests: behind sign-ups without a line
break in their emails it is accepted exactly if its password has the digest of an account's
(`login_iff_digest`).

The digest is made by a library, and is a parameter.
-/

namespace CrazyCode.Profile

open Text Decimal

/-- `std::hex << std::setw(2) << std::setfill('0')`, for a number. -/
def hexDigits (n : ℕ) : Str :=
  List.replicate (2 - (Nat.toDigits 16 n).length) '0' ++ Nat.toDigits 16 n

/-- `profile_manager::hash_pass`. -/
def hashPass (sha256 : Str → Vector UInt8 32) (password : Str) : Str :=
  (sha256 password).toList.flatMap fun c => hexDigits c.toNat

/-- The value of a hexadecimal digit. -/
def hexValue (c : Char) : ℕ := if c.isDigit then c.toNat - '0'.toNat else c.toNat - 'a'.toNat + 10

/-- The bytes that hexadecimal digits say, by twos. -/
def readHex : Str → List UInt8
  | c :: d :: digits => UInt8.ofNat (16 * hexValue c + hexValue d) :: readHex digits
  | _ => []

/-- A byte has two digits, which are none of the bytes that separate fields and records, and which
say what it is. -/
theorem hexDigits_byte : ∀ n < 256, (hexDigits n).length = 2 ∧ '|' ∉ hexDigits n ∧
    '\n' ∉ hexDigits n ∧ readHex (hexDigits n) = [UInt8.ofNat n] := by
  decide +kernel

section

variable (bytes : List UInt8)

/-- The digits of some bytes. -/
theorem length_flatMap_hexDigits :
    (bytes.flatMap fun c => hexDigits c.toNat).length = 2 * bytes.length := by
  induction bytes with
  | nil => rfl
  | cons c bytes ih =>
    rw [List.flatMap_cons, List.length_append, ih, (hexDigits_byte c.toNat c.toNat_lt).1,
      List.length_cons]
    omega

/-- They are read back. -/
theorem readHex_flatMap_hexDigits : readHex (bytes.flatMap fun c => hexDigits c.toNat) = bytes := by
  induction bytes with
  | nil => rfl
  | cons c bytes ih =>
    obtain ⟨hlength, -, -, hread⟩ := hexDigits_byte c.toNat c.toNat_lt
    obtain ⟨d, e, hde⟩ := List.length_eq_two.mp hlength
    rw [hde, UInt8.ofNat_toNat] at hread
    rw [List.flatMap_cons, hde]
    exact congrArg₂ List.cons (List.head_eq_of_cons_eq hread) ih

end

variable (sha256 : Str → Vector UInt8 32)

/-- The hash of a password has the shape that the database relies on. -/
def passwordHash : PasswordHash where
  hashPass := hashPass sha256
  length_hashPass password := by
    rw [hashPass, length_flatMap_hexDigits, Vector.length_toList]
  bar_not_mem password hmem := by
    obtain ⟨c, -, hc⟩ := List.mem_flatMap.mp hmem
    exact (hexDigits_byte c.toNat c.toNat_lt).2.1 hc
  newline_not_mem password hmem := by
    obtain ⟨c, -, hc⟩ := List.mem_flatMap.mp hmem
    exact (hexDigits_byte c.toNat c.toNat_lt).2.2.1 hc

variable {sha256} in
/-- Two passwords have the same hash exactly if they have the same digest, which is read back from
it. -/
theorem hashPass_eq_iff {password password' : Str} :
    (passwordHash sha256).hashPass password = (passwordHash sha256).hashPass password' ↔
      sha256 password = sha256 password' := by
  constructor
  · intro h
    have hread := congrArg readHex h
    have heq : (sha256 password).toList = (sha256 password').toList := by
      simpa only [passwordHash, hashPass, readHex_flatMap_hexDigits] using hread
    exact Vector.toList_inj.mp heq
  · exact fun h => congrArg (fun digest => digest.toList.flatMap fun c => hexDigits c.toNat) h

variable {sha256} in
/-- Behind any sign-ups without a line break in their emails, a login is accepted, with a profile,
exactly if one of them was accepted with this email and a name without a line break, the digest of
its password is that of the login's, and the profile is that of the record that it wrote. -/
theorem login_iff_digest {bodies : List Str} (hplain : ∀ body ∈ bodies, ∀ name password email,
      fields body = [name, password, email] → '\n' ∉ email)
    {email password : Str} {profile : UserProfile} :
    login (passwordHash sha256) (signupStrings (passwordHash sha256) bodies) email password =
        .ok (true, profile) ↔
      ∃ pre body post name password' userId, bodies = pre ++ body :: post ∧
        Accepted (passwordHash sha256) pre body ∧ fields body = [name, password', email] ∧
        '\n' ∉ name ∧ sha256 password = sha256 password' ∧
        signupStrings (passwordHash sha256) (pre ++ [body]) =
          some ((signupStrings (passwordHash sha256) pre).getD [] ++
            (record userId email name (hashPass sha256 password') ++ ['\n'])) ∧
        profile = ⟨userId, name, email, true⟩ := by
  constructor
  · intro hlogin
    obtain ⟨pre, body, post, name, password', rfl, haccept, hfields, -⟩ :=
      loginSound_of_plain _ hplain _ _ _ hlogin
    have hemail := hplain body (by simp) _ _ _ hfields
    obtain ⟨userId, hcontent, hfind⟩ := haccept.findSome hfields hemail
    -- The first line with the email is that of this sign-up, and it decides.
    rw [login_eq_true, hfind] at hlogin
    split at hlogin
    · next hmatch =>
      obtain ⟨-, rfl⟩ := Prod.mk.inj (Except.ok.inj (Option.some.inj hlogin))
      exact ⟨pre, body, post, name, password', userId, rfl, haccept, hfields, hmatch.1,
        hashPass_eq_iff.mp hmatch.2, hcontent, rfl⟩
    · cases hlogin
  · rintro ⟨pre, body, post, name, password', userId, rfl, haccept, hfields, hname, hdigest,
      hcontent, rfl⟩
    have hemail := hplain body (by simp) _ _ _ hfields
    obtain ⟨userId', hcontent', hfind⟩ := haccept.findSome hfields hemail
    obtain rfl : userId = userId' := by
      have hrecord := List.append_cancel_right (List.append_cancel_left
        (Option.some.inj (hcontent.symm.trans hcontent')))
      exact decimal_injective (List.append_cancel_right hrecord)
    rw [login_eq_true, hfind, if_pos ⟨hname, hashPass_eq_iff.mpr hdigest⟩]

/-- A digest that is right for the passwords `password` and `pw`. -/
def sampleDigest (password : Str) : Vector UInt8 32 :=
  if password = "password".toList then
    #v[0x5e, 0x88, 0x48, 0x98, 0xda, 0x28, 0x04, 0x71, 0x51, 0xd0, 0xe5,
      0x6f, 0x8d, 0xc6, 0x29, 0x27, 0x73, 0x60, 0x3d, 0x0d, 0x6a, 0xab,
      0xbd, 0xd6, 0x2a, 0x11, 0xef, 0x72, 0x1d, 0x15, 0x42, 0xd8]
  else
    #v[0x30, 0xc9, 0x52, 0xfa, 0xb1, 0x22, 0xc3, 0xf9, 0x75, 0x9f, 0x02,
      0xa6, 0xd9, 0x5c, 0x37, 0x58, 0xb2, 0x46, 0xb4, 0xfe, 0xe2, 0x39,
      0x95, 0x7b, 0x2d, 0x4f, 0xee, 0x46, 0xe2, 0x61, 0x70, 0xc4]

/-- An account logs in with its password, and with no other one that has another digest. -/
theorem login_iff_digest_password :
    login (passwordHash sampleDigest) (signupStrings (passwordHash sampleDigest)
        ["n|password|e@x".toList]) "e@x".toList "password".toList =
      .ok (true, ⟨1, "n".toList, "e@x".toList, true⟩) ∧
    ∀ profile, login (passwordHash sampleDigest) (signupStrings (passwordHash sampleDigest)
        ["n|password|e@x".toList]) "e@x".toList "pw".toList ≠ .ok (true, profile) := by
  have hfields : fields "n|password|e@x".toList =
      ["n".toList, "password".toList, "e@x".toList] := by
    decide +kernel
  have hplain : ∀ body ∈ ["n|password|e@x".toList], ∀ name password email,
      fields body = [name, password, email] → '\n' ∉ email := by
    intro body hbody name password email heq
    rw [List.mem_singleton.mp hbody, hfields] at heq
    obtain ⟨-, -, rfl⟩ : "n".toList = name ∧ "password".toList = password ∧
        "e@x".toList = email := by simpa using heq
    decide
  have haccept :
      (signupString (passwordHash sampleDigest) none "n|password|e@x".toList).1 = true := by
    decide +kernel
  have hcontent : signupStrings (passwordHash sampleDigest) ["n|password|e@x".toList] =
      some (record 1 "e@x".toList "n".toList (hashPass sampleDigest "password".toList) ++
        ['\n']) := by decide +kernel
  refine ⟨(login_iff_digest hplain).mpr ⟨[], _, [], _, _, 1, rfl, haccept, hfields, by decide, rfl,
    hcontent, rfl⟩, fun profile hlogin => ?_⟩
  obtain ⟨pre, body, post, name, password, -, hbodies, -, hfields', -, hdigest, -⟩ :=
    (login_iff_digest hplain).mp hlogin
  have hbody : body ∈ ["n|password|e@x".toList] := hbodies ▸ by simp
  rw [List.mem_singleton.mp hbody, hfields] at hfields'
  obtain rfl : "password".toList = password := (by simpa using hfields' : _ ∧ _).2
  exact absurd hdigest (by decide +kernel)

end CrazyCode.Profile
