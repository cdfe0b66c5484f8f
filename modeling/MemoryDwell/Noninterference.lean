import MemoryDwell.TransitionRuns

/-! Non-interference of runs. An observer sees a part of the state, takes part in some
of the steps and receives the output of steps. If the other steps do not concern it, and
its own ones only depend on what it sees, then its own events determine all it sees of a
run, whatever else happens in between. -/
namespace Noninterference

open TransitionRuns

structure Observer (σ ι α ε ω : Type*) where
  view : σ → α
  event : ι → Option ε
  output : ι → List ω

variable {σ ι α ε ω : Type*} {step : σ → ι → σ → Prop}

structure Isolated (step : σ → ι → σ → Prop) (o : Observer σ ι α ε ω) : Prop where
  silent : ∀ {s i t}, step s i t → o.event i = none → o.view t = o.view s ∧ o.output i = []
  determined : ∀ {s i t s' i' t' e}, step s i t → step s' i' t' → o.view s = o.view s' →
    o.event i = some e → o.event i' = some e → o.view t = o.view t' ∧ o.output i = o.output i'

namespace Observer

variable (o : Observer σ ι α ε ω)

def events (tr : List (σ × ι)) : List ε := tr.filterMap fun p => o.event p.2

def outputs (tr : List (σ × ι)) : List ω := tr.flatMap fun p => o.output p.2

/-- The events with the view before each of them and the output of each. -/
def history (tr : List (σ × ι)) : List (α × ε × List ω) :=
  tr.filterMap fun p => (o.event p.2).map fun e => (o.view p.1, e, o.output p.2)

variable (tr : List (σ × ι)) (s : σ) (i : ι)

theorem outputs_snoc : o.outputs (tr ++ [(s, i)]) = o.outputs tr ++ o.output i := by
  simp [outputs]

section Event

variable {o i}

theorem events_snoc_none (h : o.event i = none) : o.events (tr ++ [(s, i)]) = o.events tr := by
  simp [events, h]

theorem events_snoc_some {e : ε} (h : o.event i = some e) :
    o.events (tr ++ [(s, i)]) = o.events tr ++ [e] := by
  simp [events, h]

theorem history_snoc_none (h : o.event i = none) : o.history (tr ++ [(s, i)]) = o.history tr := by
  simp [history, h]

theorem history_snoc_some {e : ε} (h : o.event i = some e) :
    o.history (tr ++ [(s, i)]) = o.history tr ++ [(o.view s, e, o.output i)] := by
  simp [history, h]

end Event

/-- All that the observer sees of a run: the end, the output and the way there. -/
structure SameView (tr tr' : List (σ × ι)) (t t' : σ) : Prop where
  view : o.view t = o.view t'
  outputs : o.outputs tr = o.outputs tr'
  history : o.history tr = o.history tr'

end Observer

open Observer

variable {o : Observer σ ι α ε ω} {s t s' t' : σ} {tr tr' : List (σ × ι)}

theorem Observer.SameView.symm (h : o.SameView tr tr' t t') : o.SameView tr' tr t' t :=
  ⟨h.view.symm, h.outputs.symm, h.history.symm⟩

theorem Observer.SameView.snoc_silent (h : Isolated step o) (hs : o.SameView tr tr' t t') {i : ι}
    {u : σ} (st : step t i u) (hi : o.event i = none) :
    o.SameView (tr ++ [(t, i)]) tr' u t' := by
  obtain ⟨hview, hout⟩ := h.silent st hi
  refine ⟨hview.trans hs.view, ?_, ?_⟩
  · rw [outputs_snoc, hout, List.append_nil, hs.outputs]
  · rw [history_snoc_none _ _ hi, hs.history]

theorem Observer.SameView.snoc_event (h : Isolated step o) (hs : o.SameView tr tr' t t') {i i' : ι}
    {u u' : σ} {e : ε} (st : step t i u) (st' : step t' i' u') (hi : o.event i = some e)
    (hi' : o.event i' = some e) :
    o.SameView (tr ++ [(t, i)]) (tr' ++ [(t', i')]) u u' := by
  obtain ⟨hview, hout⟩ := h.determined st st' hs.view hi hi'
  refine ⟨hview, ?_, ?_⟩
  · rw [outputs_snoc, outputs_snoc, hs.outputs, hout]
  · rw [history_snoc_some _ _ hi, history_snoc_some _ _ hi', hs.history, hs.view, hout]

/-- Runs with the same events look the same. -/
theorem isolated_runs (h : Isolated step o) (r : Run step s tr t) (r' : Run step s' tr' t')
    (hv : o.view s = o.view s') (he : o.events tr = o.events tr') : o.SameView tr tr' t t' := by
  induction r generalizing tr' t' with
  | nil =>
    induction r' with
    | nil => exact ⟨hv, rfl, rfl⟩
    | @snoc q u tr' i _ st ih =>
      cases hi : o.event i with
      | none =>
        rw [events_snoc_none _ _ hi] at he
        exact ((ih he).symm.snoc_silent h st hi).symm
      | some e =>
        rw [events_snoc_some _ _ hi] at he
        exact absurd he.symm (List.append_ne_nil_of_right_ne_nil _ (List.cons_ne_nil _ _))
  | @snoc p t tr i r st ih =>
    cases hi : o.event i with
    | none =>
      rw [events_snoc_none _ _ hi] at he
      exact (ih r' he).snoc_silent h st hi
    | some e =>
      rw [events_snoc_some _ _ hi] at he
      -- The other run has made the same event, followed only by silent steps.
      induction r' with
      | nil => exact absurd he (List.append_ne_nil_of_right_ne_nil _ (List.cons_ne_nil _ _))
      | @snoc p' t' tr' i' r' st' ih' =>
        cases hi' : o.event i' with
        | none =>
          rw [events_snoc_none _ _ hi'] at he
          exact ((ih' he).symm.snoc_silent h st' hi').symm
        | some e' =>
          rw [events_snoc_some _ _ hi'] at he
          obtain ⟨hpre, hlast⟩ := List.append_inj' he rfl
          cases hlast
          exact (ih r' hpre).snoc_event h st st' hi hi'

end Noninterference
