import MemoryDwell.PrefixSums
import Mathlib.Tactic.Ring

/-! Sums over a sequence that repeats its first `n` terms forever, and walks along it. -/
namespace CyclicSums

open Finset

/-- The sum of the first `g` terms of the sequence that repeats `f 0, …, f (n - 1)`. -/
def cyclicSum (f : ℕ → ℕ) (n g : ℕ) : ℕ := ∑ j ∈ range g, f (j % n)

variable {f : ℕ → ℕ} {n : ℕ}

theorem cyclicSum_succ (f : ℕ → ℕ) (n g : ℕ) :
    cyclicSum f n (g + 1) = cyclicSum f n g + f (g % n) := sum_range_succ _ _

theorem cyclicSum_mono {g h : ℕ} (hgh : g ≤ h) : cyclicSum f n g ≤ cyclicSum f n h :=
  PrefixSums.sum_range_le_of_le hgh

theorem cyclicSum_prefix {i : ℕ} (hi : i ≤ n) : cyclicSum f n i = ∑ j ∈ range i, f j :=
  sum_congr rfl fun j hj => by rw [Nat.mod_eq_of_lt ((mem_range.mp hj).trans_le hi)]

theorem cyclicSum_mul_add {i : ℕ} (hi : i ≤ n) (k : ℕ) :
    cyclicSum f n (k * n + i) = k * ∑ j ∈ range n, f j + ∑ j ∈ range i, f j := by
  induction k with
  | zero => rw [Nat.zero_mul, Nat.zero_mul, Nat.zero_add, Nat.zero_add, cyclicSum_prefix hi]
  | succ k ih =>
    have hround : cyclicSum f n (n + (k * n + i)) =
        cyclicSum f n n + cyclicSum f n (k * n + i) := by
      rw [cyclicSum, sum_range_add]
      simp only [Nat.add_mod_left]
      rfl
    rw [show (k + 1) * n + i = n + (k * n + i) by ring, hround, ih, cyclicSum_prefix le_rfl]
    ring

theorem cyclicSum_div_mod (hn : 0 < n) (g : ℕ) :
    cyclicSum f n g = g / n * ∑ j ∈ range n, f j + ∑ j ∈ range (g % n), f j := by
  have h := cyclicSum_mul_add (f := f) (Nat.mod_lt g hn).le (g / n)
  rwa [Nat.div_add_mod'] at h

/-- The place in the round and the sum so far determine how far the sequence has got. -/
theorem cyclicSum_injective (hn : 0 < n) (hf : 0 < ∑ j ∈ range n, f j) {g h : ℕ}
    (hm : g % n = h % n) (hs : cyclicSum f n g = cyclicSum f n h) : g = h := by
  rw [cyclicSum_div_mod hn, cyclicSum_div_mod hn, hm, Nat.add_right_cancel_iff] at hs
  have hq := Nat.eq_of_mul_eq_mul_right hf hs
  rw [← Nat.div_add_mod g n, ← Nat.div_add_mod h n, hq, hm]

theorem succ_mod_eq (hn : 0 < n) (g : ℕ) :
    (g + 1) % n = if g % n + 1 = n then 0 else g % n + 1 := by
  rw [← Nat.mod_add_mod]
  have hlt := Nat.mod_lt g hn
  split_ifs with h
  · rw [h, Nat.mod_self]
  · apply Nat.mod_eq_of_lt
    omega

/-- The first `k` places of a walk from `start`. -/
def around (n start k : ℕ) : List ℕ := (List.range k).map fun j => (start + j) % n

theorem around_succ (n start k : ℕ) :
    around n start (k + 1) = around n start k ++ [(start + k) % n] := by
  simp [around, List.range_succ]

theorem around_length (n start k : ℕ) : (around n start k).length = k := by
  simp [around]

theorem around_lt (hn : 0 < n) {start k i : ℕ} (hi : i ∈ around n start k) : i < n := by
  obtain ⟨j, -, rfl⟩ := List.mem_map.mp hi
  exact Nat.mod_lt _ hn

theorem around_nodup {k : ℕ} (start : ℕ) (hk : k ≤ n) : (around n start k).Nodup := by
  apply List.Nodup.map_on
  · intro a ha b hb hab
    have hmod : a ≡ b [MOD n] := Nat.ModEq.add_left_cancel' start hab
    apply hmod.eq_of_lt_of_lt
    · exact (List.mem_range.mp ha).trans_le hk
    · exact (List.mem_range.mp hb).trans_le hk
  · exact List.nodup_range

/-- Every place is reached within one round. -/
theorem exists_around (start : ℕ) {i : ℕ} (hi : i < n) : ∃ d < n, (start + d) % n = i := by
  have hs := Nat.mod_lt start (Nat.zero_lt_of_lt hi)
  refine ⟨(i + (n - start % n)) % n, Nat.mod_lt _ (Nat.zero_lt_of_lt hi), ?_⟩
  rw [Nat.add_mod_mod, ← Nat.mod_add_mod, show start % n + (i + (n - start % n)) = i + n by omega,
    Nat.add_mod_right, Nat.mod_eq_of_lt hi]

end CyclicSums
