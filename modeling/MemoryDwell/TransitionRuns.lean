import Mathlib.Data.List.Basic
import Mathlib.Data.List.Induction

/-! Finite runs of a labelled transition system over arbitrary states and labels, with
the induction rules for invariants. A run records the state and label of every step,
so that a rule can ask something of the steps and conclude about the states. -/
namespace TransitionRuns

variable {σ ι : Type*}

inductive Run (step : σ → ι → σ → Prop) : σ → List (σ × ι) → σ → Prop where
  | nil (s) : Run step s [] s
  | snoc {s t u tr i} : Run step s tr t → step t i u → Run step s (tr ++ [(t, i)]) u

variable {step : σ → ι → σ → Prop}

def EveryStep (P : σ → ι → Prop) (tr : List (σ × ι)) : Prop := ∀ p ∈ tr, P p.1 p.2

instance (P : σ → ι → Prop) [∀ s i, Decidable (P s i)] (tr : List (σ × ι)) :
    Decidable (EveryStep P tr) := inferInstanceAs (Decidable (∀ p ∈ tr, P p.1 p.2))

/-- Every state of the run meets `Q`, the last one included. -/
def EveryState (Q : σ → Prop) (tr : List (σ × ι)) (last : σ) : Prop :=
  (∀ p ∈ tr, Q p.1) ∧ Q last

instance (Q : σ → Prop) [DecidablePred Q] (tr : List (σ × ι)) (last : σ) :
    Decidable (EveryState Q tr last) := inferInstanceAs (Decidable (_ ∧ _))

theorem everyStep_nil {P : σ → ι → Prop} : EveryStep P [] :=
  fun _ h => absurd h List.not_mem_nil

theorem everyStep_snoc {P : σ → ι → Prop} {tr : List (σ × ι)} {t : σ} {i : ι} :
    EveryStep P (tr ++ [(t, i)]) ↔ EveryStep P tr ∧ P t i := by
  simp only [EveryStep, List.mem_append, List.mem_singleton]
  constructor
  · intro h
    exact ⟨fun p hp => h p (Or.inl hp), h (t, i) (Or.inr rfl)⟩
  · rintro ⟨h, hi⟩ p (hp | rfl)
    · exact h p hp
    · exact hi

theorem everyState_snoc {Q : σ → Prop} {tr : List (σ × ι)} {t u : σ} {i : ι} :
    EveryState Q (tr ++ [(t, i)]) u ↔ EveryState Q tr t ∧ Q u := by
  simp only [EveryState, List.mem_append, List.mem_singleton]
  constructor
  · rintro ⟨h, hu⟩
    exact ⟨⟨fun p hp => h p (Or.inl hp), h (t, i) (Or.inr rfl)⟩, hu⟩
  · rintro ⟨⟨h, ht⟩, hu⟩
    refine ⟨?_, hu⟩
    rintro p (hp | rfl)
    · exact h p hp
    · exact ht

/-- What the steps that meet `P` keep, holds in every state of a run of such steps. -/
theorem Run.everyState {P : σ → ι → Prop} {I : σ → Prop}
    (keep : ∀ s i t, P s i → I s → step s i t → I t) {s t : σ} {tr : List (σ × ι)}
    (r : Run step s tr t) (hs : I s) (hp : EveryStep P tr) : EveryState I tr t := by
  induction r with
  | nil => exact ⟨fun _ h => absurd h List.not_mem_nil, hs⟩
  | snoc _ st ih =>
    obtain ⟨hp, hi⟩ := everyStep_snoc.mp hp
    exact everyState_snoc.mpr ⟨ih hp, keep _ _ _ hi (ih hp).2 st⟩

theorem Run.invariant {I : σ → Prop} (keep : ∀ s i t, I s → step s i t → I t)
    {s t : σ} {tr : List (σ × ι)} (r : Run step s tr t) (hs : I s) : EveryState I tr t :=
  r.everyState (P := fun _ _ => True) (fun s i t _ => keep s i t) hs (fun _ _ => trivial)

theorem Run.first {Q : σ → Prop} {s t : σ} {tr : List (σ × ι)} (r : Run step s tr t)
    (hq : EveryState Q tr t) : Q s := by
  induction r with
  | nil => exact hq.2
  | snoc _ _ ih => exact ih (everyState_snoc.mp hq).1

theorem EveryState.imp {Q R : σ → Prop} (h : ∀ s, Q s → R s) {tr : List (σ × ι)} {t : σ}
    (hq : EveryState Q tr t) : EveryState R tr t :=
  ⟨fun p hp => h _ (hq.1 p hp), h _ hq.2⟩

theorem EveryState.and {Q R : σ → Prop} {tr : List (σ × ι)} {t : σ} (hq : EveryState Q tr t)
    (hr : EveryState R tr t) : EveryState (fun s => Q s ∧ R s) tr t :=
  ⟨fun p hp => ⟨hq.1 p hp, hr.1 p hp⟩, hq.2, hr.2⟩

theorem Run.steps {s t : σ} {tr : List (σ × ι)} (r : Run step s tr t) :
    EveryStep (fun s i => ∃ u, step s i u) tr := by
  induction r with
  | nil => exact everyStep_nil
  | snoc _ st ih => exact everyStep_snoc.mpr ⟨ih, _, st⟩

theorem Run.imp {step' : σ → ι → σ → Prop} (h : ∀ s i t, step s i t → step' s i t) {s t : σ}
    {tr : List (σ × ι)} (r : Run step s tr t) : Run step' s tr t := by
  induction r with
  | nil => exact .nil _
  | snoc _ st ih => exact .snoc ih (h _ _ _ st)

/-- A run whose steps all meet `A` is a run of the steps that do. -/
theorem Run.restrict {A : σ → ι → Prop} {s t : σ} {tr : List (σ × ι)} (r : Run step s tr t)
    (ha : EveryStep A tr) : Run (fun s i t => A s i ∧ step s i t) s tr t := by
  induction r with
  | nil => exact .nil _
  | snoc _ st ih =>
    obtain ⟨ha, hi⟩ := everyStep_snoc.mp ha
    exact .snoc (ih ha) ⟨hi, st⟩

/-- An exact condition on steps: if the steps that meet `P` keep `I`, which implies `Q`,
and from a state in `J` a step with a good target meets `P`, then the runs whose
states are all good are the runs whose steps all meet `P`. -/
theorem Run.exact {P : σ → ι → Prop} {I J Q : σ → Prop}
    (keepJ : ∀ s i t, J s → step s i t → J t)
    (keep : ∀ s i t, P s i → J s → I s → step s i t → I t) (good : ∀ s, I s → Q s)
    (back : ∀ s i t, J s → Q s → step s i t → Q t → P s i) {s t : σ} {tr : List (σ × ι)}
    (r : Run step s tr t) (js : J s) (hs : I s) :
    EveryState Q tr t ↔ EveryStep P tr := by
  constructor
  · intro hq
    induction r with
    | nil => exact everyStep_nil
    | snoc r st ih =>
      obtain ⟨hq, hu⟩ := everyState_snoc.mp hq
      have hj := (r.invariant keepJ js).2
      exact everyStep_snoc.mpr ⟨ih hq, back _ _ _ hj hq.2 st hu⟩
  · intro hp
    have hi := r.everyState (I := fun s => J s ∧ I s)
      (fun s i t hpi h st => ⟨keepJ s i t h.1 st, keep s i t hpi h.1 h.2 st⟩) ⟨js, hs⟩ hp
    exact hi.imp fun s h => good s h.2

/-- The run an executable step makes on a list of inputs, each input answered with
the label of the step and the next state. -/
def runAll {κ : Type*} (exec : σ → κ → Option (ι × σ)) : σ → List κ → Option (List (σ × ι) × σ)
  | s, [] => some ([], s)
  | s, k :: ks =>
    match exec s k with
    | none => none
    | some (i, t) =>
      match runAll exec t ks with
      | none => none
      | some (tr, u) => some ((s, i) :: tr, u)

theorem Run.single {s t : σ} {i : ι} (h : step s i t) : Run step s [(s, i)] t :=
  .snoc (.nil s) h

theorem Run.of_length_one {s t : σ} {tr : List (σ × ι)} (r : Run step s tr t)
    (h : tr.length = 1) : ∃ i, tr = [(s, i)] ∧ step s i t := by
  cases r with
  | nil => cases h
  | snoc r st =>
    cases r with
    | nil => exact ⟨_, rfl, st⟩
    | snoc _ _ => simp at h

theorem Run.trans {s t u : σ} {tr tr' : List (σ × ι)} (r : Run step s tr t)
    (r' : Run step t tr' u) : Run step s (tr ++ tr') u := by
  induction r' with
  | nil => simpa using r
  | snoc _ st ih => rw [← List.append_assoc]; exact .snoc ih st

theorem Run.split {s u : σ} {tr tr' : List (σ × ι)} (r : Run step s (tr ++ tr') u) :
    ∃ t, Run step s tr t ∧ Run step t tr' u := by
  induction tr' using List.reverseRecOn generalizing u with
  | nil => exact ⟨u, by simpa using r, .nil u⟩
  | append_singleton tr' p ih =>
    rw [← List.append_assoc] at r
    generalize hl : tr ++ tr' ++ [p] = l at r
    cases r with
    | nil => simp at hl
    | snoc r st =>
      obtain ⟨rfl, hp⟩ := List.append_inj' hl rfl
      cases hp
      obtain ⟨t, hr, hr'⟩ := ih r
      exact ⟨t, hr, .snoc hr' st⟩

theorem Run.head {s u : σ} {p : σ × ι} {tr : List (σ × ι)} (r : Run step s (p :: tr) u) :
    p.1 = s := by
  have r' : Run step s ([p] ++ tr) u := r
  obtain ⟨t, hr, -⟩ := r'.split
  obtain ⟨i, hp, -⟩ := hr.of_length_one rfl
  rw [List.singleton_inj.mp hp]

theorem runAll_run {κ : Type*} {exec : σ → κ → Option (ι × σ)} {input : ι → κ}
    (sound : ∀ s k i t, exec s k = some (i, t) → step s i t ∧ input i = k) {ks : List κ}
    {s t : σ} {tr : List (σ × ι)} (h : runAll exec s ks = some (tr, t)) :
    Run step s tr t ∧ tr.map (fun p => input p.2) = ks := by
  induction ks generalizing s tr with
  | nil =>
    cases h
    exact ⟨.nil _, rfl⟩
  | cons k ks ih =>
    simp only [runAll] at h
    split at h
    · cases h
    next i u he =>
      split at h
      · cases h
      next tr' v hr =>
        cases h
        obtain ⟨st, hk⟩ := sound s k i u he
        obtain ⟨r, hm⟩ := ih hr
        exact ⟨(Run.single st).trans r, by rw [List.map_cons, hk, hm]⟩

theorem runAll_cons {κ : Type*} (exec : σ → κ → Option (ι × σ)) (k : κ) (ks : List κ) (s : σ) :
    runAll exec s (k :: ks) =
      (exec s k).bind fun q => (runAll exec q.2 ks).map fun q' => ((s, q.1) :: q'.1, q'.2) := by
  rw [runAll]
  cases exec s k with
  | none => rfl
  | some q =>
    simp only [Option.bind_some]
    cases runAll exec q.2 ks <;> rfl

theorem runAll_append {κ : Type*} (exec : σ → κ → Option (ι × σ)) (ks ks' : List κ) (s : σ) :
    runAll exec s (ks ++ ks') =
      (runAll exec s ks).bind fun q => (runAll exec q.2 ks').map fun q' => (q.1 ++ q'.1, q'.2) := by
  induction ks generalizing s with
  | nil => simp [runAll]
  | cons k ks ih =>
    simp only [List.cons_append, runAll_cons, ih]
    cases exec s k with
    | none => rfl
    | some q =>
      simp only [Option.bind_some]
      cases runAll exec q.2 ks with
      | none => rfl
      | some v => simp [Option.map_map, Function.comp_def]

theorem runAll_mono {κ : Type*} {exec exec' : σ → κ → Option (ι × σ)}
    (h : ∀ {s k q}, exec s k = some q → exec' s k = some q) {ks : List κ} {s : σ}
    {q : List (σ × ι) × σ} (hr : runAll exec s ks = some q) : runAll exec' s ks = some q := by
  induction ks generalizing s q with
  | nil => exact hr
  | cons k ks ih =>
    rw [runAll] at hr ⊢
    cases he : exec s k with
    | none =>
      rw [he] at hr
      cases hr
    | some v =>
      rw [he] at hr
      rw [h he]
      cases hv : runAll exec v.2 ks with
      | none =>
        simp only [hv] at hr
        cases hr
      | some w =>
        simp only [hv] at hr
        simp only [ih hv]
        exact hr

/-- An execution whose steps need fuel makes exactly the runs of the steps that end with
some fuel, if more fuel never changes a step. -/
theorem run_iff_runAll {κ : Type*} (exec : ℕ → σ → κ → Option (ι × σ)) (input : ι → κ)
    (mono : ∀ {a b s k q}, a ≤ b → exec a s k = some q → exec b s k = some q)
    (sound : ∀ {fuel s k i t}, exec fuel s k = some (i, t) → input i = k)
    {s t : σ} {tr : List (σ × ι)} :
    Run (fun s i t => ∃ fuel, exec fuel s (input i) = some (i, t)) s tr t ↔
      ∃ fuel, runAll (exec fuel) s (tr.map fun p => input p.2) = some (tr, t) := by
  constructor
  · intro r
    induction r with
    | nil => exact ⟨0, rfl⟩
    | @snoc t u tr i _ st ih =>
      obtain ⟨a, ha⟩ := ih
      obtain ⟨b, hb⟩ := st
      refine ⟨max a b, ?_⟩
      rw [List.map_append, runAll_append, runAll_mono (mono (Nat.le_max_left a b)) ha,
        Option.bind_some]
      simp [runAll, mono (Nat.le_max_right a b) hb]
  · rintro ⟨fuel, h⟩
    have answered : ∀ s k i t, exec fuel s k = some (i, t) →
        (∃ fuel, exec fuel s (input i) = some (i, t)) ∧ input i = k := by
      intro s k i t he
      have hk := sound he
      exact ⟨⟨fuel, by rw [hk]; exact he⟩, hk⟩
    exact (runAll_run answered h).1

/-- An execution that ends with no fuel has come, by a run of steps that do end, to an
input at which none is enough. -/
theorem runAll_stuck_iff {κ : Type*} (exec : ℕ → σ → κ → Option (ι × σ)) (input : ι → κ)
    (mono : ∀ {a b s k q}, a ≤ b → exec a s k = some q → exec b s k = some q)
    (sound : ∀ {fuel s k i t}, exec fuel s k = some (i, t) → input i = k)
    {s : σ} {ks : List κ} :
    (∀ fuel, runAll (exec fuel) s ks = none) ↔
      ∃ tr t k rest, Run (fun s i t => ∃ fuel, exec fuel s (input i) = some (i, t)) s tr t ∧
        ks = tr.map (fun p => input p.2) ++ k :: rest ∧ ∀ fuel, exec fuel t k = none := by
  constructor
  · intro h
    induction ks generalizing s with
    | nil => cases h 0
    | cons k ks ih =>
      by_cases hk : ∀ fuel, exec fuel s k = none
      · exact ⟨[], s, k, ks, .nil s, rfl, hk⟩
      · push Not at hk
        obtain ⟨a, ha⟩ := hk
        obtain ⟨⟨i, u⟩, hi⟩ := Option.ne_none_iff_exists'.mp ha
        have later : ∀ fuel, runAll (exec fuel) u ks = none := by
          intro fuel
          by_contra hne
          obtain ⟨q, hq⟩ := Option.ne_none_iff_exists'.mp hne
          have hall := h (max a fuel)
          rw [runAll_cons, mono (Nat.le_max_left a fuel) hi, Option.bind_some,
            runAll_mono (mono (Nat.le_max_right a fuel)) hq] at hall
          cases hall
        obtain ⟨tr, t, k', rest, r, rfl, hstuck⟩ := ih later
        have hin := sound hi
        refine ⟨(s, i) :: tr, t, k', rest, (Run.single ⟨a, by rw [hin]; exact hi⟩).trans r, ?_,
          hstuck⟩
        rw [List.map_cons, hin, List.cons_append]
  · rintro ⟨tr, t, k, rest, r, rfl, hstuck⟩ fuel
    obtain ⟨a, ha⟩ := (run_iff_runAll exec input mono sound).mp r
    by_contra hne
    obtain ⟨q, hq⟩ := Option.ne_none_iff_exists'.mp hne
    have hall := runAll_mono (mono (Nat.le_max_right a fuel)) hq
    rw [runAll_append, runAll_mono (mono (Nat.le_max_left a fuel)) ha, Option.bind_some,
      runAll_cons, hstuck] at hall
    cases hall

end TransitionRuns
