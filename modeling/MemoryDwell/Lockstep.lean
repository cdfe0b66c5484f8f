import Mathlib.Data.List.Forall2
import MemoryDwell.TransitionRuns

/-! Two programs that take the same inputs, over arbitrary states and labels. Both return
or neither does, their states stay related, and the labels of the second are those of the
first with an adjustment that depends on the labels before. -/
namespace Lockstep

open TransitionRuns

section Options

variable {α β γ δ ι : Type*} {r : α → β → Prop} {r' : γ → δ → Prop} {a : Option α} {b : Option β}

theorem rel_self (h : Option.Rel r a b) : Option.Rel (fun x y => a = some x ∧ r x y) a b := by
  cases h with
  | some h => exact .some ⟨rfl, h⟩
  | none => exact .none

theorem rel_map {f : α → γ} {g : β → δ} (h : Option.Rel r a b)
    (hfg : ∀ x y, r x y → r' (f x) (g y)) : Option.Rel r' (a.map f) (b.map g) := by
  cases h with
  | some h => exact .some (hfg _ _ h)
  | none => exact .none

theorem rel_bind {f : α → Option γ} {g : β → Option δ} (h : Option.Rel r a b)
    (hfg : ∀ x y, r x y → Option.Rel r' (f x) (g y)) : Option.Rel r' (a.bind f) (b.bind g) := by
  cases h with
  | some h => exact hfg _ _ h
  | none => exact .none

theorem foldlM_rel {f : α → ι → Option α} {g : β → ι → Option β} {x : α} {y : β} (h : r x y)
    (step : ∀ x y i, r x y → Option.Rel r (f x i) (g y i)) (l : List ι) :
    Option.Rel r (l.foldlM f x) (l.foldlM g y) := by
  induction l generalizing x y with
  | nil => exact .some h
  | cons i l ih =>
    rw [List.foldlM_cons, List.foldlM_cons]
    exact rel_bind (step x y i h) fun _ _ => ih

end Options

variable {σ τ κ ι ι' δ : Type*}

/-- The labels, each adjusted by what those before it have come to. -/
def adjusted (next : δ → ι → δ) (adjust : δ → ι → ι') : δ → List ι → List ι'
  | _, [] => []
  | d, i :: l => adjust d i :: adjusted next adjust (next d i) l

/-- What holds of one input holds of a whole execution. -/
theorem runAll_rel {f : σ → κ → Option (ι × σ)} {g : τ → κ → Option (ι' × τ)}
    {R : δ → σ → τ → Prop} {next : δ → ι → δ} {adjust : δ → ι → ι'} {ks : List κ}
    (step : ∀ k ∈ ks, ∀ d s t, R d s t → Option.Rel (fun q q' =>
      q'.1 = adjust d q.1 ∧ R (next d q.1) q.2 q'.2) (f s k) (g t k))
    {d : δ} {s : σ} {t : τ} (h : R d s t) :
    Option.Rel (fun q q' =>
        q'.1.map Prod.snd = adjusted next adjust d (q.1.map Prod.snd) ∧
          R ((q.1.map Prod.snd).foldl next d) q.2 q'.2)
      (runAll f s ks) (runAll g t ks) := by
  induction ks generalizing d s t with
  | nil => exact .some ⟨rfl, h⟩
  | cons k ks ih =>
    rw [runAll_cons, runAll_cons]
    refine rel_bind (step k List.mem_cons_self d s t h) ?_
    rintro ⟨i, s'⟩ ⟨i', t'⟩ ⟨rfl, h'⟩
    refine rel_map (ih (fun k hk => step k (List.mem_cons_of_mem _ hk)) h') ?_
    rintro q q' ⟨hlabels, hR⟩
    exact ⟨congrArg (adjust d i :: ·) hlabels, hR⟩

/-- Two traces with the same labels, through related states. -/
def Along (R : σ → τ → Prop) : List (σ × ι) → List (τ × ι) → Prop :=
  List.Forall₂ fun p q => R p.1 q.1 ∧ q.2 = p.2

/-- A simulation of steps with the same labels is one of runs. -/
theorem run_along {step : σ → ι → σ → Prop} {step' : τ → ι → τ → Prop} {R : σ → τ → Prop}
    (sim : ∀ s t i s', R s t → step s i s' → ∃ t', step' t i t' ∧ R s' t') {s s' : σ} {t : τ}
    {tr : List (σ × ι)} (run : Run step s tr s') (h : R s t) :
    ∃ tr' t', Run step' t tr' t' ∧ Along R tr tr' ∧ R s' t' := by
  induction run with
  | nil => exact ⟨[], t, .nil t, .nil, h⟩
  | snoc _ st ih =>
    obtain ⟨tr', t', run', along, hR⟩ := ih
    obtain ⟨t'', st', hR'⟩ := sim _ _ _ _ hR st
    exact ⟨tr' ++ [(t', _)], t'', .snoc run' st', List.rel_append along (.cons ⟨hR, rfl⟩ .nil),
      hR'⟩

theorem Along.everyState {R : σ → τ → Prop} {Q : σ → Prop} {Q' : τ → Prop}
    (hq : ∀ s t, R s t → Q' t → Q s) {tr : List (σ × ι)} {tr' : List (τ × ι)} {s : σ} {t : τ}
    (along : Along R tr tr') (h : R s t) (ht : EveryState Q' tr' t) : EveryState Q tr s := by
  obtain ⟨hall, hlast⟩ := ht
  refine ⟨?_, hq s t h hlast⟩
  induction along with
  | nil => simp
  | cons hpq _ ih =>
    obtain ⟨hhead, hall⟩ := List.forall_mem_cons.mp hall
    exact List.forall_mem_cons.mpr ⟨hq _ _ hpq.1 hhead, ih hall⟩

end Lockstep
