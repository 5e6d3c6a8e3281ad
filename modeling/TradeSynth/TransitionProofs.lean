import Mathlib.Logic.Relation

/-!
# Labelled transitions — runs of admitted steps, invariants, simulation

A system is a relation `step : σ → α → σ → Prop` on states with labels. Which steps a
run may take is a separate predicate on the state before the step and its label, so that
one system can be run under several regimes: all its steps, those of some kind, those
that meet a condition. `Runs step P s s'` is reachability by steps that `P` admits.

* `Runs.invariant` — what every admitted step keeps, every run keeps;
* `Runs.mono` — a stricter regime reaches fewer states;
* `Runs.simulate` — a run of one system is matched by a run of another when each of its
  steps is.
-/

namespace Transition

variable {σ τ α β : Type}

/-- Reachability by steps whose labels are admitted in the state before them. -/
def Runs (step : σ → α → σ → Prop) (P : σ → α → Prop) : σ → σ → Prop :=
  Relation.ReflTransGen (fun s s' => ∃ a, P s a ∧ step s a s')

/-- The regime that admits every step. -/
def anyStep : σ → α → Prop := fun _ _ => True

namespace Runs

variable {step : σ → α → σ → Prop} {P Q : σ → α → Prop}

theorem refl (s : σ) : Runs step P s s := Relation.ReflTransGen.refl

/-- A run, and one more step. -/
theorem tail {s s' s'' : σ} {a : α} (h : Runs step P s s') (ha : P s' a)
    (hstep : step s' a s'') : Runs step P s s'' :=
  Relation.ReflTransGen.tail h ⟨a, ha, hstep⟩

theorem trans {s s' s'' : σ} (h : Runs step P s s') (h' : Runs step P s' s'') :
    Runs step P s s'' := Relation.ReflTransGen.trans h h'

theorem one {s s' : σ} {a : α} (ha : P s a) (hstep : step s a s') : Runs step P s s' :=
  (refl s).tail ha hstep

/-- A stricter regime reaches fewer states. -/
theorem mono (hPQ : ∀ s a, P s a → Q s a) {s s' : σ} (h : Runs step P s s') :
    Runs step Q s s' := by
  refine Relation.ReflTransGen.mono ?_ _ _ h
  rintro t t' ⟨a, ha, hstep⟩
  exact ⟨a, hPQ t a ha, hstep⟩

/-- A property that every admitted step keeps holds in every state of a run. -/
theorem invariant {I : σ → Prop} (hkeep : ∀ s a s', I s → P s a → step s a s' → I s')
    {s s' : σ} (h : Runs step P s s') (hs : I s) : I s' := by
  induction h with
  | refl => exact hs
  | tail _ hlast ih =>
      obtain ⟨a, ha, hstep⟩ := hlast
      exact hkeep _ a _ ih ha hstep

/-- When every admitted step is matched by a run of another system, so is every run. -/
theorem simulate {step' : τ → β → τ → Prop} {P' : τ → β → Prop} {R : σ → τ → Prop}
    (hmatch : ∀ s a s' t, R s t → P s a → step s a s' → ∃ t', R s' t' ∧ Runs step' P' t t')
    {s s' : σ} (h : Runs step P s s') {t : τ} (hst : R s t) :
    ∃ t', R s' t' ∧ Runs step' P' t t' := by
  induction h with
  | refl => exact ⟨t, hst, refl t⟩
  | tail _ hlast ih =>
      obtain ⟨a, ha, hstep⟩ := hlast
      obtain ⟨u, hu, hrun⟩ := ih
      obtain ⟨u', hu', hrun'⟩ := hmatch _ a _ u hu ha hstep
      exact ⟨u', hu', hrun.trans hrun'⟩

end Runs

end Transition
