import MemoryDwell.TransitionRuns

/-! Registers that the labels of a run determine, over arbitrary states and labels: some
labels overwrite the register, the others leave it, and it holds what the last write left.
Two registers that the same labels are meant to write part where a label writes one of
them only. -/
namespace Replay

open TransitionRuns

variable {σ ι α β : Type*} {step : σ → ι → σ → Prop}

/-- The value after all writes of a list. -/
def lastWrite (write : ι → Option α) (init : α) (l : List ι) : α :=
  l.foldl (fun v i => (write i).getD v) init

@[simp] theorem lastWrite_nil (write : ι → Option α) (a : α) : lastWrite write a [] = a := rfl

theorem lastWrite_append (write : ι → Option α) (a : α) (l l' : List ι) :
    lastWrite write a (l ++ l') = lastWrite write (lastWrite write a l) l' := List.foldl_append

@[simp] theorem lastWrite_snoc (write : ι → Option α) (a : α) (l : List ι) (i : ι) :
    lastWrite write a (l ++ [i]) = (write i).getD (lastWrite write a l) :=
  lastWrite_append write a l [i]

theorem lastWrite_untouched {write : ι → Option α} {a : α} {l : List ι}
    (h : ∀ i ∈ l, write i = none) : lastWrite write a l = a := by
  induction l using List.reverseRecOn with
  | nil => rfl
  | append_singleton l i ih =>
    have hi : write i = none := h i (by simp)
    simpa [hi] using ih fun j hj => h j (by simp [hj])

theorem lastWrite_written {write : ι → Option α} {a v : α} {l l' : List ι} {i : ι}
    (hi : write i = some v) (h : ∀ j ∈ l', write j = none) :
    lastWrite write a (l ++ i :: l') = v := by
  have hl : l ++ i :: l' = (l ++ [i]) ++ l' := by simp
  simp only [hl, lastWrite_append, lastWrite_untouched h]
  simp [lastWrite, hi]

/-- The last label of a list that wrote wrote `v`. -/
def WrittenLast (write : ι → Option α) (v : α) (l : List ι) : Prop :=
  ∃ before i after, l = before ++ i :: after ∧ write i = some v ∧ ∀ j ∈ after, write j = none

theorem lastWrite_cases (write : ι → Option α) (a : α) (l : List ι) :
    lastWrite write a l = a ∨ WrittenLast write (lastWrite write a l) l := by
  induction l using List.reverseRecOn with
  | nil => exact Or.inl rfl
  | append_singleton l i ih =>
    rw [lastWrite_snoc]
    cases hi : write i with
    | some v => exact Or.inr ⟨l, i, [], rfl, hi, by simp⟩
    | none =>
      rw [Option.getD_none]
      refine ih.imp_right ?_
      rintro ⟨before, k, after, hl, hk, hafter⟩
      refine ⟨before, k, after ++ [i], ?_, hk, ?_⟩
      · rw [hl, List.append_assoc, List.cons_append]
      · simp only [List.mem_append, List.mem_singleton]
        rintro j (hj | rfl)
        · exact hafter j hj
        · exact hi

theorem lastWrite_filter {write : ι → Option α} {p : ι → Bool}
    (h : ∀ i, p i = false → write i = none) (a : α) (l : List ι) :
    lastWrite write a (l.filter p) = lastWrite write a l := by
  induction l using List.reverseRecOn with
  | nil => rfl
  | append_singleton l i ih =>
    rw [List.filter_append, lastWrite_append, ih, lastWrite_snoc]
    cases hp : p i with
    | true => simp [hp, lastWrite]
    | false => simp [hp, h i hp]

/-- Registers that are written together are one register. -/
theorem lastWrite_block {write : ℕ → ι → Option α} {block : ι → Option (List α)} {n : ℕ}
    (init : ℕ → α) {l : List ι}
    (h : ∀ i ∈ l, (block i = none ∧ ∀ b < n, write b i = none) ∨
      ∃ f : ℕ → α, block i = some ((List.range n).map f) ∧ ∀ b < n, write b i = some (f b)) :
    (List.range n).map (fun b => lastWrite (write b) (init b) l) =
      lastWrite block ((List.range n).map init) l := by
  induction l using List.reverseRecOn with
  | nil => rfl
  | append_singleton l i ih =>
    have hl := ih fun j hj => h j (List.mem_append_left _ hj)
    simp only [lastWrite_snoc]
    rcases h i (by simp) with ⟨hb, hw⟩ | ⟨f, hb, hw⟩
    · rw [hb, Option.getD_none, ← hl]
      apply List.map_congr_left
      intro b hbn
      rw [hw b (List.mem_range.mp hbn), Option.getD_none]
    · rw [hb, Option.getD_some]
      apply List.map_congr_left
      intro b hbn
      rw [hw b (List.mem_range.mp hbn), Option.getD_some]

/-- A register that every step overwrites or keeps holds the last write of the run. -/
theorem lastWrite_run (reg : σ → α) {write : ι → Option α}
    (keep : ∀ s i t, step s i t → reg t = (write i).getD (reg s)) {s t : σ}
    {tr : List (σ × ι)} (r : Run step s tr t) :
    reg t = lastWrite write (reg s) (tr.map Prod.snd) := by
  induction r with
  | nil => rfl
  | snoc _ st ih => simp [keep _ _ _ st, ih]

def Together (R : α → β → Prop) (write : ι → Option α) (write' : ι → Option β) (i : ι) : Prop :=
  ∃ v w, write i = some v ∧ write' i = some w ∧ R v w

def Neither (write : ι → Option α) (write' : ι → Option β) (i : ι) : Prop :=
  write i = none ∧ write' i = none

/-- Two registers part only by a write that does not go to both, or goes to both with
values that do not belong together; and they stay apart only as long as nothing is written
to both. -/
theorem apart_cause {R : α → β → Prop} {write : ι → Option α} {write' : ι → Option β} {a : α}
    {b : β} {l : List ι} (h : ¬ R (lastWrite write a l) (lastWrite write' b l)) :
    (¬ R a b ∧ ∀ i ∈ l, ¬ Together R write write' i) ∨
    ∃ before i after, l = before ++ i :: after ∧ ¬ Neither write write' i ∧
      ∀ j ∈ i :: after, ¬ Together R write write' j := by
  induction l using List.reverseRecOn with
  | nil => exact Or.inl ⟨h, by simp⟩
  | append_singleton l i ih =>
    have htog : ¬ Together R write write' i := by
      rintro ⟨v, w, hv, hw, hr⟩
      exact h (by simpa [hv, hw] using hr)
    by_cases hn : Neither write write' i
    · have hl : ¬ R (lastWrite write a l) (lastWrite write' b l) := by
        simpa [hn.1, hn.2] using h
      rcases ih hl with ⟨hab, hall⟩ | ⟨before, j, after, rfl, hj, hall⟩
      · refine Or.inl ⟨hab, ?_⟩
        simp only [List.mem_append, List.mem_singleton]
        rintro k (hk | rfl)
        · exact hall k hk
        · exact htog
      · refine Or.inr ⟨before, j, after ++ [i], by simp, hj, ?_⟩
        simp only [List.mem_cons, List.mem_append, List.not_mem_nil, or_false]
        rintro k (rfl | hk | rfl)
        · exact hall _ List.mem_cons_self
        · exact hall k (List.mem_cons_of_mem _ hk)
        · exact htog
    · refine Or.inr ⟨l, i, [], rfl, hn, ?_⟩
      simpa using htog

end Replay
