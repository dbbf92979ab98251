/-
**Runs of a system that takes events**: a labelled step relation, the runs over lists of
events, and the rules that turn a fact about one step into a fact about every run.

`run_keeps` is the invariant rule, with a condition on the events that are allowed;
`run_simulates` the simulation rule, for a relation between two systems that take the same
events. `run_append` cuts a run at an event.

An event carries what a step was asked and, where there is an answer, what it answered. So a
run is a history: a statement about all runs is one about every order of calls and every
outcome the step relation allows, and two systems that agree on the events agree on what is
seen from outside.
-/
import Mathlib.Data.List.Basic

set_option autoImplicit false

namespace EventRun

variable {σ τ ε : Type*}

/-- The runs over a list of events. -/
inductive run (step : σ → ε → σ → Prop) : σ → List ε → σ → Prop where
  | nil (s : σ) : run step s [] s
  | cons {s s' s'' : σ} {e : ε} {es : List ε} :
      step s e s' → run step s' es s'' → run step s (e :: es) s''

/-- Runs one after the other. -/
theorem run_append {step : σ → ε → σ → Prop} {s s' s'' : σ} {es fs : List ε}
    (h : run step s es s') (h' : run step s' fs s'') : run step s (es ++ fs) s'' := by
  induction h with
  | nil s => exact h'
  | cons hstep _ ih => exact run.cons hstep (ih h')

/-- **What every step keeps, every run keeps**, for the events that are let in. -/
theorem run_keeps {step : σ → ε → σ → Prop} {I : σ → Prop} {allowed : ε → Prop}
    (hstep : ∀ s e s', allowed e → step s e s' → I s → I s') {s s' : σ} {es : List ε}
    (h : run step s es s') (hallowed : ∀ e ∈ es, allowed e) (hs : I s) : I s' := by
  induction h with
  | nil s => exact hs
  | cons hone _ ih =>
      have hnext := hstep _ _ _ (hallowed _ List.mem_cons_self) hone hs
      exact ih (fun e he => hallowed e (List.mem_cons_of_mem _ he)) hnext

/-- **Simulation**: where every step of one system is matched by a step of the other on the
same event, every run is matched by a run on the same events. -/
theorem run_simulates {step : σ → ε → σ → Prop} {step' : τ → ε → τ → Prop} {R : σ → τ → Prop}
    {allowed : ε → Prop}
    (hstep : ∀ s e s' t, allowed e → R s t → step s e s' → ∃ t', step' t e t' ∧ R s' t') {s s' : σ}
    {es : List ε} (h : run step s es s') :
    (∀ e ∈ es, allowed e) → ∀ t, R s t → ∃ t', run step' t es t' ∧ R s' t' := by
  induction h with
  | nil s => exact fun _ t hR => ⟨t, run.nil t, hR⟩
  | cons hone _ ih =>
      intro hallowed t hR
      obtain ⟨t₁, hone', hR₁⟩ := hstep _ _ _ t (hallowed _ List.mem_cons_self) hR hone
      obtain ⟨t', hrest, hR'⟩ := ih (fun e he => hallowed e (List.mem_cons_of_mem _ he)) t₁ hR₁
      exact ⟨t', run.cons hone' hrest, hR'⟩

end EventRun
