import CrazyCode.Library.Text
import Mathlib.Data.Nat.Digits.Defs
import Mathlib.Tactic.Ring

/-!
# Decimal numerals of 32-bit integers

`std::to_string` and `std::stoi` for `int`. The numeral of an integer is its digits behind an
optional minus sign (`decimal`). `stoi` skips white space, reads a sign and digits, and stops at the
first other byte, so it accepts far more than numerals; it throws when there are no digits and when
the value does not fit. `stoi_decimal` is the round trip, and `decimal_injective` makes a numeral a
name of its integer.

Integers are `ℤ`. A sum of `int`s is reduced into range by `wrap`, in two's complement.
-/

namespace CrazyCode.Decimal

open Text

/-- The least `int`. -/
def intMin : ℤ := -2147483648

/-- The greatest `int`. -/
def intMax : ℤ := 2147483647

/-- An integer reduced to an `int`, in two's complement. -/
def wrap (z : ℤ) : ℤ := z.bmod 4294967296

/-- An `int` is its own reduction. -/
theorem wrap_of_mem {z : ℤ} (h₀ : intMin ≤ z) (h₁ : z ≤ intMax) : wrap z = z := by
  unfold intMin at h₀
  unfold intMax at h₁
  exact Int.bmod_eq_of_le (by omega) (by omega)

/-- The successor of an `int` below the greatest one is an `int`. -/
theorem wrap_int_succ {z : ℤ} (h : intMin ≤ z ∧ z < intMax) : wrap (z + 1) = z + 1 :=
  wrap_of_mem (by omega) (by omega)

/-- A reduced integer is an `int`. -/
theorem wrap_mem (z : ℤ) : intMin ≤ wrap z ∧ wrap z ≤ intMax := by
  have h₀ := Int.le_bmod (x := z) (m := 4294967296) (by omega)
  have h₁ := Int.bmod_lt (x := z) (m := 4294967296) (by omega)
  unfold intMin intMax wrap
  omega

/-! ## Numerals -/

/-- `std::to_string` of an `int`. -/
def decimal (z : ℤ) : Str :=
  if z < 0 then '-' :: Nat.toDigits 10 z.natAbs else Nat.toDigits 10 z.natAbs

/-- A numeral has a byte. -/
theorem decimal_ne_nil (z : ℤ) : decimal z ≠ [] := by
  unfold decimal
  split <;> simp

/-- The bytes of a numeral are digits, but for the minus sign. -/
theorem isDigit_of_mem_decimal {z : ℤ} {c : Char} (hc : c ∈ decimal z) :
    c = '-' ∨ c.isDigit = true := by
  unfold decimal at hc
  split at hc
  · rcases List.mem_cons.mp hc with rfl | hc
    · exact .inl rfl
    · exact .inr (Nat.isDigit_of_mem_toDigits (by norm_num) le_rfl hc)
  · exact .inr (Nat.isDigit_of_mem_toDigits (by norm_num) le_rfl hc)

/-- A byte that is neither a digit nor the minus sign is in no numeral. -/
theorem not_mem_decimal {c : Char} (hminus : c ≠ '-') (hdigit : c.isDigit = false) (z : ℤ) :
    c ∉ decimal z := fun hc => by
  rcases isDigit_of_mem_decimal hc with h | h
  · exact hminus h
  · rw [hdigit] at h
    cases h

/-- The last byte of a numeral is a digit. -/
theorem isDigit_getLast_decimal (z : ℤ) :
    ((decimal z).getLast (decimal_ne_nil z)).isDigit = true := by
  have key : ∀ n, ((Nat.toDigits 10 n).getLast Nat.toDigits_ne_nil).isDigit = true := fun n =>
    Nat.isDigit_of_mem_toDigits (by norm_num) le_rfl (List.getLast_mem _)
  unfold decimal
  split
  · rw [List.getLast_cons Nat.toDigits_ne_nil]
    exact key _
  · exact key _

/-- Digits do not begin with a minus sign. -/
theorem toDigits_head_ne {n : ℕ} {s : Str} (h : Nat.toDigits 10 n = '-' :: s) : False := by
  have := Nat.isDigit_of_mem_toDigits (b := 10) (n := n) (c := '-') (by norm_num) le_rfl
    (by rw [h]; simp)
  exact absurd this (by decide)

/-- A numeral names its integer. -/
theorem decimal_injective : Function.Injective decimal := by
  have key : ∀ {m n : ℕ}, Nat.toDigits 10 m = Nat.toDigits 10 n → m = n := fun {m n} h => by
    rw [← Nat.ofDigitChars_ten_toDigits (n := m), h, Nat.ofDigitChars_ten_toDigits]
  intro x y h
  unfold decimal at h
  -- The signs agree, since digits do not begin with a minus sign.
  split at h <;> split at h
  · have := key (List.cons.inj h).2
    omega
  · exact (toDigits_head_ne h.symm).elim
  · exact (toDigits_head_ne h).elim
  · have := key h
    omega

/-- The numeral of an `int` has at most eleven bytes. -/
theorem length_decimal_le {z : ℤ} (h₀ : intMin ≤ z) (h₁ : z ≤ intMax) :
    (decimal z).length ≤ 11 := by
  unfold intMin at h₀
  unfold intMax at h₁
  -- Ten digits, and one byte for the sign.
  have hd : (Nat.toDigits 10 z.natAbs).length ≤ 10 :=
    Nat.toDigits_length 10 z.natAbs 10 (by norm_num) (by norm_num; omega)
  unfold decimal
  split
  · simp only [List.length_cons]
    omega
  · omega

/-! ## Reading a numeral -/

/-- The exceptions of `std::stoi`. -/
inductive StoiError where
  /-- `std::invalid_argument`: no digits. -/
  | invalidArgument
  /-- `std::out_of_range`: the value is no `int`. -/
  | outOfRange
deriving DecidableEq, Repr

/-- `isspace` in the C locale. -/
def isSpace (c : Char) : Bool :=
  c = ' ' || c = '\t' || c = '\n' || c = '\r' || c.toNat = 11 || c.toNat = 12

/-- The sign of a numeral, and what stands behind it. -/
def readSign : Str → Bool × Str
  | '-' :: s => (true, s)
  | '+' :: s => (false, s)
  -- A second sign is no digit, so `--1` has no value.
  | s => (false, s)

/-- `std::stoi`: white space, a sign and digits; what stands behind the digits is not read. -/
def stoi (s : Str) : Except StoiError ℤ :=
  let (negative, s) := readSign (s.dropWhile isSpace)
  let digits := s.takeWhile Char.isDigit
  if digits = [] then
    .error .invalidArgument
  else
    -- `strtol` reads the value in a wider type, and the range is checked behind it.
    let n : ℤ := Nat.ofDigitChars 10 digits 0
    let z := if negative then -n else n
    if intMin ≤ z ∧ z ≤ intMax then .ok z else .error .outOfRange

/-- What `stoi` reads is an `int`. -/
theorem stoi_mem {s : Str} {z : ℤ} (h : stoi s = .ok z) : intMin ≤ z ∧ z ≤ intMax := by
  unfold stoi at h
  dsimp only at h
  split_ifs at h with _ hneg hrange hrange
  · exact Except.ok.inj h ▸ hrange
  · exact Except.ok.inj h ▸ hrange

/-- A digit is neither white space nor a sign. -/
theorem of_isDigit {c : Char} (h : c.isDigit = true) : isSpace c = false ∧ c ≠ '-' ∧ c ≠ '+' := by
  simp only [Char.isDigit, Bool.and_eq_true, decide_eq_true_eq, ge_iff_le, UInt32.le_iff_toNat_le]
    at h
  have h48 : 48 ≤ c.toNat := h.1
  have hne : ∀ d : Char, d.toNat < 48 → c ≠ d := fun d hd hcd => by
    rw [hcd] at h48
    omega
  have hspace : isSpace c = false := by
    simp only [isSpace, Bool.or_eq_false_iff, decide_eq_false_iff_not]
    exact ⟨⟨⟨⟨⟨hne _ (by decide), hne _ (by decide)⟩, hne _ (by decide)⟩, hne _ (by decide)⟩,
      by omega⟩, by omega⟩
  exact ⟨hspace, hne _ (by decide), hne _ (by decide)⟩

/-- Digits are read whole, without a sign. -/
theorem readSign_dropWhile_digits {d : Char} (h : d.isDigit = true) (s : Str) :
    readSign ((d :: s).dropWhile isSpace) = (false, d :: s) := by
  obtain ⟨hspace, hminus, hplus⟩ := of_isDigit h
  rw [List.dropWhile_cons_of_neg (by simp [hspace])]
  unfold readSign
  split
  · next heq => exact absurd (List.cons.inj heq).1 hminus
  · next heq => exact absurd (List.cons.inj heq).1 hplus
  · rfl

/-- `stoi` reads the digits of a number up to the first byte that is no digit. -/
theorem takeWhile_toDigits (n : ℕ) {r : Str} (hr : ∀ c ∈ r.head?, c.isDigit = false) :
    (Nat.toDigits 10 n ++ r).takeWhile Char.isDigit = Nat.toDigits 10 n := by
  rw [List.takeWhile_append_of_pos fun c hc =>
    Nat.isDigit_of_mem_toDigits (by norm_num) le_rfl hc]
  cases r with
  | nil => simp
  | cons c r => rw [List.takeWhile_cons_of_neg (by simp [hr c (by simp)]), List.append_nil]

/-- `stoi` reads back what `to_string` writes, whatever stands behind it that does not begin with a
digit. -/
theorem stoi_decimal_append {z : ℤ} (h₀ : intMin ≤ z) (h₁ : z ≤ intMax) {r : Str}
    (hr : ∀ c ∈ r.head?, c.isDigit = false) : stoi (decimal z ++ r) = .ok z := by
  have hne : Nat.toDigits 10 z.natAbs ≠ [] := Nat.toDigits_ne_nil
  have hread : readSign ((decimal z ++ r).dropWhile isSpace) =
      (decide (z < 0), Nat.toDigits 10 z.natAbs ++ r) := by
    unfold decimal
    split
    · next hz =>
      rw [List.cons_append, List.dropWhile_cons_of_neg (by decide)]
      simp [readSign, hz]
    · -- The first digit is neither white space nor a sign.
      next hz =>
      obtain ⟨d, s, hds⟩ := List.exists_cons_of_ne_nil hne
      have hd : d.isDigit = true :=
        Nat.isDigit_of_mem_toDigits (b := 10) (n := z.natAbs) (by norm_num) le_rfl
          (by rw [hds]; simp)
      rw [hds, List.cons_append, readSign_dropWhile_digits hd]
      simp [hz]
  have hval : (if decide (z < 0) = true then -(z.natAbs : ℤ) else (z.natAbs : ℤ)) = z := by
    split
    · next hz => rw [decide_eq_true_eq] at hz; omega
    · next hz => rw [decide_eq_true_eq] at hz; omega
  unfold stoi
  rw [hread]
  simp only [takeWhile_toDigits _ hr, if_neg hne, Nat.ofDigitChars_ten_toDigits, hval]
  rw [if_pos ⟨h₀, h₁⟩]

/-- `stoi` reads back what `to_string` writes. -/
theorem stoi_decimal {z : ℤ} (h₀ : intMin ≤ z) (h₁ : z ≤ intMax) : stoi (decimal z) = .ok z := by
  rw [← List.append_nil (decimal z)]
  exact stoi_decimal_append h₀ h₁ (by simp)

/-- `stoi` reads an integer off what a system call sees as its numeral. -/
theorem stoi_of_cstr {z : ℤ} (h₀ : intMin ≤ z) (h₁ : z ≤ intMax) {s : Str}
    (h : cstr s = decimal z) :
    stoi s = .ok z := by
  -- Behind the numeral stands a zero byte, which is no digit, or nothing.
  obtain ⟨r, hs, hr⟩ := exists_cstr_append s
  rw [hs, h]
  refine stoi_decimal_append h₀ h₁ fun c hc => ?_
  rw [hr c hc]
  rfl

end CrazyCode.Decimal
