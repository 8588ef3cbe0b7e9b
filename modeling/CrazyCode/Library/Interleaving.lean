import CrazyCode.Library.Run

/-!
# Two processes on one memory

Two processes take their steps in any order. What they share is the memory; each has a phase
besides, in which it keeps what it has read. `step i` is what process `i` can do, and
`Interleaved step` is what the pair can do.

A process that has read the memory and is to write it back loses what the other one writes in
between. `Exclusive` steps are those that leave no two phases in such a conflict. Over runs of them
an invariant is proved from the point of view of one process (`Run.exclusive`): it is enough that a
step of that process keeps it, since the invariant is the same for the other one.
-/

namespace CrazyCode

/-- One of two processes. -/
inductive Side where
  | left
  | right
deriving DecidableEq, Repr

/-- The other process. -/
def Side.other : Side → Side
  | left => right
  | right => left

@[simp] theorem Side.other_other (i : Side) : i.other.other = i := by cases i <;> rfl

@[simp] theorem Side.other_ne (i : Side) : i.other ≠ i := by cases i <;> decide

/-- There are two processes. -/
theorem Side.eq_or (i j : Side) : j = i ∨ j = i.other := by cases i <;> cases j <;> decide

/-- The memory that two processes share, and the phase of each. -/
structure Pair (σ π : Type*) where
  memory : σ
  phase : Side → π

section

variable {σ π : Type*}

/-- A process that is left alone. -/
def Alone (step : σ → π → σ → π → Prop) (s : σ × π) (_ _ : Unit) (s' : σ × π) : Prop :=
  step s.1 s.2 s'.1 s'.2

/-- One process takes a step, and the other one stays in its phase. -/
structure Interleaved (step : Side → σ → π → σ → π → Prop) (p : Pair σ π) (i : Side) (_ : Unit)
    (p' : Pair σ π) : Prop where
  moves : step i p.memory (p.phase i) p'.memory (p'.phase i)
  stays : p'.phase i.other = p.phase i.other

/-- One process takes a step, behind which the two are not in conflict. -/
structure Exclusive (conflict : π → π → Prop) (step : Side → σ → π → σ → π → Prop) (p : Pair σ π)
    (i : Side) (u : Unit) (p' : Pair σ π) : Prop extends Interleaved step p i u p' where
  apart : ¬ conflict (p'.phase i) (p'.phase i.other)

/-- The pair in which process `i` has taken a step to a memory and a phase. -/
def Pair.move (p : Pair σ π) (i : Side) (memory : σ) (phase : π) : Pair σ π :=
  ⟨memory, Function.update p.phase i phase⟩

@[simp] theorem Pair.move_memory (p : Pair σ π) (i : Side) (memory : σ) (phase : π) :
    (p.move i memory phase).memory = memory := rfl

@[simp] theorem Pair.move_self (p : Pair σ π) (i : Side) (memory : σ) (phase : π) :
    (p.move i memory phase).phase i = phase := by simp [Pair.move]

@[simp] theorem Pair.move_other (p : Pair σ π) (i : Side) (memory : σ) (phase : π) :
    (p.move i memory phase).phase i.other = p.phase i.other := by simp [Pair.move]

/-- What a process can do, the pair can do. -/
theorem Interleaved.move {step : Side → σ → π → σ → π → Prop} {p : Pair σ π} {i : Side} {memory : σ}
    {phase : π} (h : step i p.memory (p.phase i) memory phase) :
    Interleaved step p i () (p.move i memory phase) := ⟨by simpa using h, by simp⟩

/-- What a process can do without a conflict, the pair can do without one. -/
theorem Exclusive.move {conflict : π → π → Prop} {step : Side → σ → π → σ → π → Prop} {p : Pair σ π}
    {i : Side} {memory : σ} {phase : π} (h : step i p.memory (p.phase i) memory phase)
    (hapart : ¬ conflict phase (p.phase i.other)) :
    Exclusive conflict step p i () (p.move i memory phase) :=
  ⟨.move h, by simpa using hapart⟩

/-- An assertion about the memory and the phases of both processes holds behind every run without a
conflict, if it holds at the start and a step of the process that it speaks of keeps it. -/
theorem Run.exclusive {conflict : π → π → Prop} {step : Side → σ → π → σ → π → Prop} {p₀ : Pair σ π}
    {tr : List (Side × Unit)} {p : Pair σ π} (h : Run (Exclusive conflict step) p₀ tr p)
    (K : Side → σ → π → π → Prop) (hcomm : ∀ φ ψ, conflict φ ψ → conflict ψ φ)
    (hsymm : ∀ i s φ ψ, K i s φ ψ → K i.other s ψ φ)
    (hapart : ¬ conflict (p₀.phase .left) (p₀.phase .right))
    (hinit : K .left p₀.memory (p₀.phase .left) (p₀.phase .right))
    (hstep : ∀ i s φ ψ s' φ', ¬ conflict φ ψ → K i s φ ψ → step i s φ s' φ' → ¬ conflict φ' ψ →
      K i s' φ' ψ)
    (i : Side) : K i p.memory (p.phase i) (p.phase i.other) := by
  have hboth : (∀ i, ¬ conflict (p.phase i) (p.phase i.other)) ∧
      ∀ i, K i p.memory (p.phase i) (p.phase i.other) := by
    refine h.invariant (fun _ p => (∀ i, ¬ conflict (p.phase i) (p.phase i.other)) ∧
      ∀ i, K i p.memory (p.phase i) (p.phase i.other)) ⟨fun i => ?_, fun i => ?_⟩ ?_
    · cases i with
      | left => exact hapart
      | right => exact fun h => hapart (hcomm _ _ h)
    · cases i with
      | left => exact hinit
      | right => exact hsymm _ _ _ _ hinit
    · rintro tr p i _ p' - ⟨hfree, hK⟩ hmove
      have hother := hmove.stays
      have happart := hmove.apart
      have hkept : K i p'.memory (p'.phase i) (p'.phase i.other) := by
        rw [hother] at happart ⊢
        exact hstep i _ _ _ _ _ (hfree i) (hK i) hmove.moves happart
      refine ⟨fun j => ?_, fun j => ?_⟩
      · rcases i.eq_or j with rfl | rfl
        · exact happart
        · rw [Side.other_other]
          exact fun h => happart (hcomm _ _ h)
      · rcases i.eq_or j with rfl | rfl
        · exact hkept
        · have := hsymm i _ _ _ hkept
          rwa [Side.other_other]
  exact hboth.2 i

end

end CrazyCode
