import Mathlib.Algebra.BigOperators.Intervals
import Mathlib.Data.Nat.ModEq
import Mathlib.Algebra.Order.BigOperators.Group.Finset

/-! The longest prefix of an array on which a test holds, and sums over it. Arrays are
functions on the naturals, of which the first `n` cells count. -/
namespace PrefixSums

open Finset

variable {p q : ℕ → Bool} {n : ℕ}

/-- The scan from cell `i` on, with `r` cells left. -/
def prefixFrom (p : ℕ → Bool) : ℕ → ℕ → ℕ
  | 0, i => i
  | r + 1, i => if p i then prefixFrom p r (i + 1) else i

def prefixLength (p : ℕ → Bool) (n : ℕ) : ℕ := prefixFrom p n 0

theorem prefixFrom_spec (p : ℕ → Bool) (r i : ℕ) :
    i ≤ prefixFrom p r i ∧ prefixFrom p r i ≤ i + r ∧
    (∀ j, i ≤ j → j < prefixFrom p r i → p j = true) ∧
    (prefixFrom p r i < i + r → p (prefixFrom p r i) = false) := by
  induction r generalizing i with
  | zero => simp [prefixFrom]; omega
  | succ r ih =>
    cases hp : p i with
    | false => simp [prefixFrom, hp]; omega
    | true =>
      obtain ⟨lo, hi, holds, stops⟩ := ih (i + 1)
      simp only [prefixFrom, hp, if_true]
      refine ⟨by omega, by omega, ?_, fun h => stops (by omega)⟩
      intro j hij hj
      rcases Nat.eq_or_lt_of_le hij with rfl | hij
      · exact hp
      · exact holds j hij hj

theorem prefix_le (p : ℕ → Bool) (n : ℕ) : prefixLength p n ≤ n := by
  simpa [prefixLength] using (prefixFrom_spec p n 0).2.1

theorem prefix_holds {i : ℕ} (h : i < prefixLength p n) : p i = true :=
  (prefixFrom_spec p n 0).2.2.1 i (Nat.zero_le _) h

theorem prefix_stops (h : prefixLength p n < n) : p (prefixLength p n) = false :=
  (prefixFrom_spec p n 0).2.2.2 (by simpa [prefixLength] using h)

/-- The three facts above determine the length. -/
theorem prefix_unique {k : ℕ} (hk : k ≤ n) (holds : ∀ i < k, p i = true)
    (stops : k < n → p k = false) : prefixLength p n = k := by
  rcases Nat.lt_trichotomy (prefixLength p n) k with h | h | h
  · have hs := prefix_stops (p := p) (n := n) (by omega)
    rw [holds _ h] at hs
    cases hs
  · exact h
  · have hh := prefix_holds h
    rw [stops (by have := prefix_le p n; omega)] at hh
    cases hh

theorem prefix_congr (h : ∀ i < n, p i = q i) : prefixLength p n = prefixLength q n := by
  apply prefix_unique (prefix_le q n)
  · intro i hi
    rw [h i (by have := prefix_le q n; omega)]
    exact prefix_holds hi
  · intro hs
    rw [h _ hs]
    exact prefix_stops hs

theorem le_prefix {k : ℕ} (hk : k ≤ n) (holds : ∀ i < k, p i = true) : k ≤ prefixLength p n := by
  by_contra hn
  have hs := prefix_stops (p := p) (n := n) (by omega)
  rw [holds _ (by omega)] at hs
  cases hs

theorem sum_range_le {f : ℕ → ℕ} {k c : ℕ} (h : ∀ i < k, f i ≤ c) :
    ∑ i ∈ range k, f i ≤ k * c := by
  have hs := Finset.sum_le_card_nsmul (range k) f c (fun i hi => h i (mem_range.mp hi))
  simpa using hs

theorem sum_range_pos_iff {f : ℕ → ℕ} {k : ℕ} :
    0 < ∑ i ∈ range k, f i ↔ ∃ i < k, f i ≠ 0 := by
  rw [Finset.sum_pos_iff]
  constructor
  · rintro ⟨i, hi, hf⟩
    exact ⟨i, mem_range.mp hi, by omega⟩
  · rintro ⟨i, hi, hf⟩
    exact ⟨i, mem_range.mpr hi, by omega⟩

theorem sum_range_update (f : ℕ → ℕ) {k e : ℕ} (x : ℕ) (he : e < k) :
    ∑ i ∈ range k, Function.update f e x i + f e = ∑ i ∈ range k, f i + x := by
  have hm : e ∈ range k := mem_range.mpr he
  rw [Finset.sum_update_of_mem hm, ← Finset.sum_sdiff (Finset.singleton_subset_iff.mpr hm)]
  simp only [sum_singleton]
  omega

theorem sum_range_le_of_le {f : ℕ → ℕ} {a b : ℕ} (h : a ≤ b) :
    ∑ i ∈ range a, f i ≤ ∑ i ∈ range b, f i :=
  Finset.sum_le_sum_of_subset (by simpa using h)

/-- The cells of an array laid end to end: no place lies in two of them. -/
theorem place_unique {f : ℕ → ℕ} {i k j : ℕ} (hi : ∑ x ∈ range i, f x ≤ j)
    (hi' : j < ∑ x ∈ range i, f x + f i) (hk : ∑ x ∈ range k, f x ≤ j)
    (hk' : j < ∑ x ∈ range k, f x + f k) : i = k := by
  rw [← sum_range_succ] at hi' hk'
  rcases Nat.lt_trichotomy i k with h | h | h
  · have hle : ∑ x ∈ range (i + 1), f x ≤ ∑ x ∈ range k, f x := sum_range_le_of_le h
    omega
  · exact h
  · have hle : ∑ x ∈ range (k + 1), f x ≤ ∑ x ∈ range i, f x := sum_range_le_of_le h
    omega

end PrefixSums
