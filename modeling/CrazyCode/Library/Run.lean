import Mathlib.Data.List.Infix
import Mathlib.Tactic.Common

/-!
# Runs of a labelled transition system

A step relation `step s i o s'` says that in state `s` the input `i` can be answered by the output
`o`, with `s'` as the next state. `Run step s₀ tr s` says that the inputs and outputs of `tr`, in
this order, lead from `s₀` to `s`. Runs grow at the end, so that "earlier in the run" is "in the
trace so far".

The rules that the proofs about runs use are an invariant of the trace and the state
(`Run.invariant`), the step behind an entry of the trace (`Run.exists_step`), a simulation, which
gives a run of another system with the same trace (`Run.simulation`), and its form for a system that
sees only a part of the trace (`Run.part`). Steps that change nothing can be left out of a run
(`Run.without`).
-/

namespace CrazyCode

variable {σ τ ι ο : Type*}

/-- The runs of a step relation from `s₀`: the inputs and outputs so far, and the state reached. -/
inductive Run (step : σ → ι → ο → σ → Prop) (s₀ : σ) : List (ι × ο) → σ → Prop
  | nil : Run step s₀ [] s₀
  | snoc {tr : List (ι × ο)} {s : σ} {i : ι} {o : ο} {s' : σ} :
      Run step s₀ tr s → step s i o s' → Run step s₀ (tr ++ [(i, o)]) s'

namespace Run

variable {step : σ → ι → ο → σ → Prop} {s₀ : σ}

/-- A property of the trace and the state that holds at the start and that every step keeps holds
after every run. The step rule may use that the state was reached. -/
theorem invariant (I : List (ι × ο) → σ → Prop) (hinit : I [] s₀)
    (hstep : ∀ tr s i o s', Run step s₀ tr s → I tr s → step s i o s' → I (tr ++ [(i, o)]) s')
    {tr : List (ι × ο)} {s : σ} (h : Run step s₀ tr s) : I tr s := by
  induction h with
  | nil => exact hinit
  | snoc hrun hs ih => exact hstep _ _ _ _ _ hrun ih hs

/-- A state one step behind a state that a run reaches is reached. -/
theorem exists_snoc {s s' : σ} {i : ι} {o : ο} (h : ∃ tr, Run step s₀ tr s) (hs : step s i o s') :
    ∃ tr, Run step s₀ tr s' := h.imp' _ fun _ hrun => hrun.snoc hs

/-- A run behind another one. -/
theorem append {tr tr' : List (ι × ο)} {s s' : σ} (h : Run step s₀ tr s) (h' : Run step s tr' s') :
    Run step s₀ (tr ++ tr') s' := by
  induction h' with
  | nil => simpa using h
  | snoc _ hs ih =>
    rw [← List.append_assoc]
    exact ih.snoc hs

/-- Every entry of a trace is a step from a state that an earlier part of the run reached. -/
theorem exists_step {tr : List (ι × ο)} {s : σ} (h : Run step s₀ tr s) {i : ι} {o : ο}
    (hmem : (i, o) ∈ tr) :
    ∃ pre t t', Run step s₀ pre t ∧ step t i o t' ∧ pre ++ [(i, o)] <+: tr := by
  induction h with
  | nil => simp at hmem
  | @snoc tr s j p s' hrun hs ih =>
    rcases List.mem_append.mp hmem with hmem | hmem
    · obtain ⟨pre, t, t', hpre, ht, hle⟩ := ih hmem
      exact ⟨pre, t, t', hpre, ht, hle.trans (List.prefix_append _ _)⟩
    · obtain ⟨rfl, rfl⟩ := Prod.mk.inj (List.mem_singleton.mp hmem)
      exact ⟨tr, s, s', hrun, hs, List.prefix_rfl⟩

/-- A simulation: when related states answer an input alike and stay related, every run has a run
of the other system with the same inputs and outputs. -/
theorem simulation {step' : τ → ι → ο → τ → Prop} {t₀ : τ} (R : σ → τ → Prop) (hinit : R s₀ t₀)
    (hstep : ∀ s t i o s', R s t → step s i o s' → ∃ t', step' t i o t' ∧ R s' t')
    {tr : List (ι × ο)} {s : σ} (h : Run step s₀ tr s) : ∃ t, Run step' t₀ tr t ∧ R s t := by
  induction h with
  | nil => exact ⟨t₀, .nil, hinit⟩
  | snoc _ hs ih =>
    obtain ⟨t, hrun, hR⟩ := ih
    obtain ⟨t', ht', hR'⟩ := hstep _ _ _ _ _ hR hs
    exact ⟨t', hrun.snoc ht', hR'⟩

/-- A simulation by a part of the system. What the part sees of an input and its output is `sees`: a
step that it sees is one of its own, and one that it does not see keeps the relation. So a run has a
run of the part, with what the part sees of the trace. -/
theorem part {ι' ο' : Type*} {step' : τ → ι' → ο' → τ → Prop} {t₀ : τ} (R : σ → τ → Prop)
    (sees : ι × ο → Option (ι' × ο')) (hinit : R s₀ t₀)
    (hseen : ∀ s t i o s' i' o', R s t → step s i o s' → sees (i, o) = some (i', o') →
      ∃ t', step' t i' o' t' ∧ R s' t')
    (hunseen : ∀ s t i o s', R s t → step s i o s' → sees (i, o) = none → R s' t)
    {tr : List (ι × ο)} {s : σ} (h : Run step s₀ tr s) :
    ∃ t, Run step' t₀ (tr.filterMap sees) t ∧ R s t := by
  induction h with
  | nil => exact ⟨t₀, .nil, hinit⟩
  | @snoc tr s i o s' _ hs ih =>
    obtain ⟨t, hrun, hR⟩ := ih
    rw [List.filterMap_append]
    cases hsees : sees (i, o) with
    | none =>
      refine ⟨t, ?_, hunseen _ _ _ _ _ hR hs hsees⟩
      simpa [hsees] using hrun
    | some io =>
      obtain ⟨t', ht', hR'⟩ := hseen _ _ _ _ _ _ _ hR hs hsees
      refine ⟨t', ?_, hR'⟩
      simpa [hsees] using hrun.snoc ht'

/-- The two halves of a run. -/
theorem split {tr tr' : List (ι × ο)} {s : σ} (h : Run step s₀ (tr ++ tr') s) :
    ∃ t, Run step s₀ tr t ∧ Run step t tr' s := by
  induction tr' using List.reverseRecOn generalizing s with
  | nil => exact ⟨s, by simpa using h, .nil⟩
  | append_singleton tr' io ih =>
    rw [← List.append_assoc] at h
    generalize htr : tr ++ tr' ++ [io] = all at h
    cases h with
    | nil => simp at htr
    | snoc hrun hs =>
      obtain ⟨rfl, hio⟩ := List.append_inj' htr rfl
      obtain rfl := List.singleton_injective hio
      obtain ⟨t, htr, htr'⟩ := ih hrun
      exact ⟨t, htr, htr'.snoc hs⟩

/-- The step of an entry in the middle of a trace, and the runs before and behind it. -/
theorem middle {pre post : List (ι × ο)} {i : ι} {o : ο} {s : σ}
    (h : Run step s₀ (pre ++ (i, o) :: post) s) :
    ∃ t t', Run step s₀ pre t ∧ step t i o t' ∧ Run step t' post s := by
  rw [← List.singleton_append, ← List.append_assoc] at h
  obtain ⟨t', hpre, hpost⟩ := h.split
  generalize htr : pre ++ [(i, o)] = all at hpre
  cases hpre with
  | nil => simp at htr
  | snoc hrun hs =>
    obtain ⟨rfl, hio⟩ := List.append_inj' htr rfl
    obtain ⟨rfl, rfl⟩ := Prod.mk.inj (List.singleton_injective hio)
    exact ⟨_, t', hrun, hs, hpost⟩

/-- Steps that change nothing can be left out. That they change nothing may rest on an invariant. -/
theorem without {p : ι × ο → Bool} (I : σ → Prop) (hinit : I s₀)
    (hkeeps : ∀ s i o s', I s → step s i o s' → I s')
    (hp : ∀ s i o s', I s → step s i o s' → p (i, o) = false → s' = s)
    {tr : List (ι × ο)} {s : σ} (h : Run step s₀ tr s) : Run step s₀ (tr.filter p) s := by
  have hI : Run step s₀ (tr.filter p) s ∧ I s := by
    induction h with
    | nil => exact ⟨.nil, hinit⟩
    | @snoc tr s i o s' _ hs ih =>
      obtain ⟨hrun, hI⟩ := ih
      refine ⟨?_, hkeeps _ _ _ _ hI hs⟩
      rw [List.filter_append]
      cases hio : p (i, o) with
      | false =>
        obtain rfl := hp _ _ _ _ hI hs hio
        simpa [hio] using hrun
      | true => simpa [hio] using hrun.snoc hs
  exact hI.1

end Run

end CrazyCode
