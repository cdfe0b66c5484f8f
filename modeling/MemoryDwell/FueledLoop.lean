import Mathlib.Data.Nat.Find
import Mathlib.Data.List.FinRange

/-! Loops over an arbitrary state. A `while` loop runs with fuel and yields nothing
when the fuel is used up, so that termination is a statement and not an assumption.
A `for` loop over `Fin n` is a fold; its rules concern bodies that only touch the
component of the state named by the loop index. -/
namespace FueledLoop

variable {σ : Type*}

/-- `while (cond) body`, with at most `fuel` tests of the condition. -/
def whileLoop (cond : σ → Bool) (body : σ → σ) : ℕ → σ → Option σ
  | 0, _ => none
  | fuel + 1, s => if cond s then whileLoop cond body fuel (body s) else some s

def Terminates (cond : σ → Bool) (body : σ → σ) (s : σ) : Prop :=
  ∃ fuel t, whileLoop cond body fuel s = some t

variable {cond : σ → Bool} {body : σ → σ}

theorem while_enter {s : σ} (h : cond s = true) (fuel : ℕ) :
    whileLoop cond body (fuel + 1) s = whileLoop cond body fuel (body s) := by
  simp [whileLoop, h]

theorem while_exit {s : σ} (h : cond s = false) (fuel : ℕ) :
    whileLoop cond body (fuel + 1) s = some s := by
  simp [whileLoop, h]

theorem while_mono {a b : ℕ} (hab : a ≤ b) {s t : σ}
    (h : whileLoop cond body a s = some t) : whileLoop cond body b s = some t := by
  induction a generalizing b s with
  | zero => simp [whileLoop] at h
  | succ a ih =>
    obtain ⟨c, rfl⟩ : ∃ c, b = c + 1 := ⟨b - 1, by omega⟩
    cases hc : cond s with
    | true =>
      rw [while_enter hc] at h ⊢
      exact ih (by omega) h
    | false =>
      rw [while_exit hc] at h ⊢
      exact h

theorem while_deterministic {a b : ℕ} {s t u : σ}
    (h : whileLoop cond body a s = some t) (k : whileLoop cond body b s = some u) : t = u := by
  have ht := while_mono (Nat.le_max_left a b) h
  have hu := while_mono (Nat.le_max_right a b) k
  exact Option.some.inj (ht.symm.trans hu)

/-- The invariant rule: what the body keeps holds on exit, and the condition is off. -/
theorem while_invariant {I : σ → Prop} (keep : ∀ s, I s → cond s = true → I (body s))
    {fuel : ℕ} {s t : σ} (hs : I s) (h : whileLoop cond body fuel s = some t) :
    I t ∧ cond t = false := by
  induction fuel generalizing s with
  | zero => simp [whileLoop] at h
  | succ fuel ih =>
    cases hc : cond s with
    | true =>
      rw [while_enter hc] at h
      exact ih (keep s hs hc) h
    | false =>
      rw [while_exit hc] at h
      exact Option.some.inj h ▸ ⟨hs, hc⟩

/-- The variant rule: a measure that every turn lowers bounds the fuel needed. -/
theorem while_variant {I : σ → Prop} (m : σ → ℕ)
    (keep : ∀ s, I s → cond s = true → I (body s) ∧ m (body s) < m s)
    {s : σ} (hs : I s) {fuel : ℕ} (hf : m s < fuel) :
    ∃ t, whileLoop cond body fuel s = some t := by
  induction fuel generalizing s with
  | zero => omega
  | succ fuel ih =>
    cases hc : cond s with
    | true =>
      obtain ⟨hb, hm⟩ := keep s hs hc
      rw [while_enter hc]
      apply ih hb
      omega
    | false => exact ⟨s, while_exit hc fuel⟩

theorem terminates_of_variant {I : σ → Prop} (m : σ → ℕ)
    (keep : ∀ s, I s → cond s = true → I (body s) ∧ m (body s) < m s)
    {s : σ} (hs : I s) : Terminates cond body s :=
  ⟨m s + 1, while_variant m keep hs (Nat.lt_succ_self _)⟩

/-- A map of the states that the loop does not see can be made before or after it. -/
theorem while_commute {τ : Type*} {cond' : τ → Bool} {body' : τ → τ} {g : σ → τ} {I : σ → Prop}
    (keep : ∀ s, I s → cond s = true → I (body s)) (same : ∀ s, I s → cond' (g s) = cond s)
    (turn : ∀ s, I s → cond s = true → body' (g s) = g (body s)) {s : σ} (hs : I s) (fuel : ℕ) :
    whileLoop cond' body' fuel (g s) = (whileLoop cond body fuel s).map g := by
  induction fuel generalizing s with
  | zero => rfl
  | succ fuel ih =>
    cases hc : cond s with
    | true =>
      rw [while_enter hc, while_enter ((same s hs).trans hc), turn s hs hc]
      exact ih (keep s hs hc)
    | false => rw [while_exit hc, while_exit ((same s hs).trans hc), Option.map_some]

/-- A set of states that lies inside the condition and is closed under the body
is never left, whatever the fuel. -/
theorem while_diverges {D : σ → Prop} (stay : ∀ s, D s → cond s = true ∧ D (body s))
    {s : σ} (hs : D s) (fuel : ℕ) : whileLoop cond body fuel s = none := by
  induction fuel generalizing s with
  | zero => rfl
  | succ fuel ih =>
    rw [while_enter (stay s hs).1]
    exact ih (stay s hs).2

/-- The states at which the condition is tested, also of a loop that is never left. -/
inductive Reaches (cond : σ → Bool) (body : σ → σ) (s : σ) : σ → Prop where
  | enter : Reaches cond body s s
  | turn {t : σ} : Reaches cond body s t → cond t = true → Reaches cond body s (body t)

theorem Reaches.invariant {I : σ → Prop} (keep : ∀ s, I s → cond s = true → I (body s))
    {s t : σ} (hs : I s) (h : Reaches cond body s t) : I t := by
  induction h with
  | enter => exact hs
  | turn _ hc ih => exact keep _ ih hc

section ForEach

variable {n : ℕ} {α : Type*}

theorem foldl_frame {f : σ → Fin n → σ} {p : σ → Fin n → α}
    (frame : ∀ s i j, j ≠ i → p (f s i) j = p s j) {l : List (Fin n)} {j : Fin n}
    (hj : j ∉ l) (s : σ) : p (l.foldl f s) j = p s j := by
  induction l generalizing s with
  | nil => rfl
  | cons i l ih =>
    rw [List.mem_cons, not_or] at hj
    rw [List.foldl_cons, ih hj.2, frame s i j hj.1]

/-- Each component sees exactly its own turn of the loop. -/
theorem foldl_component {f : σ → Fin n → σ} {p : σ → Fin n → α}
    (frame : ∀ s i j, j ≠ i → p (f s i) j = p s j) {g : α → α} {j : Fin n}
    (own : ∀ s, p (f s j) j = g (p s j)) {l : List (Fin n)} (hl : l.Nodup)
    (hj : j ∈ l) (s : σ) : p (l.foldl f s) j = g (p s j) := by
  induction l generalizing s with
  | nil => simp at hj
  | cons i l ih =>
    rw [List.nodup_cons] at hl
    rw [List.foldl_cons]
    by_cases hi : j = i
    · subst hi
      rw [foldl_frame frame hl.1, own]
    · rw [ih hl.2 ((List.mem_cons.mp hj).resolve_left hi), frame s i j hi]

theorem foldlM_keeps {ι : Type*} {f : σ → ι → Option σ} {I : σ → Prop}
    (keep : ∀ s i t, I s → f s i = some t → I t) {l : List ι} {s t : σ} (hs : I s)
    (h : l.foldlM f s = some t) : I t := by
  induction l generalizing s with
  | nil => exact Option.some.inj h ▸ hs
  | cons i l ih =>
    rw [List.foldlM_cons, Option.bind_eq_bind, Option.bind_eq_some_iff] at h
    obtain ⟨u, hu, ht⟩ := h
    exact ih (keep s i u hs hu) ht

theorem foldlM_mono {ι : Type*} {f g : σ → ι → Option σ}
    (h : ∀ s i t, f s i = some t → g s i = some t) {l : List ι} {s t : σ}
    (hf : l.foldlM f s = some t) : l.foldlM g s = some t := by
  induction l generalizing s with
  | nil => exact hf
  | cons i l ih =>
    rw [List.foldlM_cons, Option.bind_eq_bind, Option.bind_eq_some_iff] at hf ⊢
    obtain ⟨u, hu, ht⟩ := hf
    exact ⟨u, h s i u hu, ih ht⟩

theorem foldlM_frame {f : σ → Fin n → Option σ} {p : σ → Fin n → α}
    (frame : ∀ s t i j, f s i = some t → j ≠ i → p t j = p s j) {l : List (Fin n)}
    {j : Fin n} (hj : j ∉ l) {s t : σ} (h : l.foldlM f s = some t) : p t j = p s j := by
  induction l generalizing s with
  | nil => exact Option.some.inj h ▸ rfl
  | cons i l ih =>
    rw [List.mem_cons, not_or] at hj
    rw [List.foldlM_cons, Option.bind_eq_bind, Option.bind_eq_some_iff] at h
    obtain ⟨u, hu, ht⟩ := h
    rw [ih hj.2 ht, frame s u i j hu hj.1]

/-- Loops whose turns may fail: a component is moved by its own turn only, along
whatever relation that turn establishes. -/
theorem foldlM_component {f : σ → Fin n → Option σ} {p : σ → Fin n → α}
    (frame : ∀ s t i j, f s i = some t → j ≠ i → p t j = p s j) {G : α → α → Prop}
    {j : Fin n} (own : ∀ s t, f s j = some t → G (p s j) (p t j))
    {l : List (Fin n)} (hl : l.Nodup) (hj : j ∈ l) {s t : σ}
    (h : l.foldlM f s = some t) : G (p s j) (p t j) := by
  induction l generalizing s with
  | nil => simp at hj
  | cons i l ih =>
    rw [List.nodup_cons] at hl
    rw [List.foldlM_cons, Option.bind_eq_bind, Option.bind_eq_some_iff] at h
    obtain ⟨u, hu, ht⟩ := h
    by_cases hi : j = i
    · subst hi
      rw [foldlM_frame frame hl.1 ht]
      exact own s u hu
    · rw [← frame s u i j hu hi]
      exact ih hl.2 ((List.mem_cons.mp hj).resolve_left hi) ht

end ForEach

end FueledLoop
