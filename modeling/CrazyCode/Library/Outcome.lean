import Mathlib.Tactic.Common

/-!
# Computations that can fail

The rules for `Except` that take a `do` block apart: a computation that goes on, and one that ends
with an error. A computation in parts ends well exactly if each of its parts does
(`exists_bind_ok`).
-/

namespace CrazyCode.Outcome

variable {ε α β : Type}

/-- A computation that goes on. -/
@[simp] theorem ok_bind (a : α) (f : α → Except ε β) : (Except.ok a >>= f) = f a := rfl

/-- A computation that has ended. -/
@[simp] theorem error_bind (e : ε) (f : α → Except ε β) :
    (Except.error e >>= f : Except ε β) = .error e := rfl

/-- A computation in two parts ends with a value exactly if the first part ends with one from which
the second part comes to it. -/
theorem bind_eq_ok {x : Except ε α} {f : α → Except ε β} {b : β} :
    (x >>= f) = .ok b ↔ ∃ a, x = .ok a ∧ f a = .ok b := by
  cases x with
  | error e => simp
  | ok a => simp

/-- A computation in two parts ends well exactly if both of them do. -/
theorem exists_bind_ok {x : Except ε α} {f : α → Except ε β} :
    (∃ b, (x >>= f) = .ok b) ↔ ∃ a, x = .ok a ∧ ∃ b, f a = .ok b := by
  cases x with
  | error e => simp
  | ok a => simp

/-- A computation whose errors are renamed ends with the values of the other. -/
@[simp] theorem mapError_eq_ok {ε' : Type} {f : ε → ε'} {x : Except ε α} {a : α} :
    x.mapError f = .ok a ↔ x = .ok a := by
  cases x <;> simp [Except.mapError]

/-- A computation ends well exactly if it ends with no error. -/
theorem forall_ne_error_iff {x : Except ε α} : (∀ e, x ≠ .error e) ↔ ∃ a, x = .ok a := by
  cases x with
  | error e => simp
  | ok a => simp

end CrazyCode.Outcome
