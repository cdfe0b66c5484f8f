import Mathlib.Algebra.GroupWithZero.Nat
import Mathlib.Data.List.FinRange

/-! Sets of small numbers as bits of a word: words put together from flags, one bit for
each flag, and the bits of the operations on sixteen-bit words. -/
namespace MaskBits

/-- `for (i = 0; i < n; i++) bits |= flag[i] << i;` in a variable of `w` bits. -/
def gather (w : ℕ) {n : ℕ} (flag : Fin n → ℕ) : ℕ :=
  (List.finRange n).foldl (fun bits i => (bits ||| flag i <<< i.val) % 2 ^ w) 0

private theorem testBit_flag {x : ℕ} (hx : x ≤ 1) (i j : ℕ) :
    (x <<< i).testBit j = true ↔ i = j ∧ x = 1 := by
  have hcases : x = 0 ∨ x = 1 := by omega
  rw [Nat.testBit_shiftLeft, Bool.and_eq_true, decide_eq_true_eq]
  rcases hcases with rfl | rfl
  · simp
  · rw [Nat.testBit_one_eq_true_iff_self_eq_zero]
    omega

theorem testBit_gather {w n : ℕ} (hn : n ≤ w) {flag : Fin n → ℕ} (hf : ∀ i, flag i ≤ 1) (j : ℕ) :
    (gather w flag).testBit j = true ↔ ∃ i : Fin n, i.val = j ∧ flag i = 1 := by
  have main : ∀ (l : List (Fin n)) (bits : ℕ), bits < 2 ^ w →
      ((l.foldl (fun bits i => (bits ||| flag i <<< i.val) % 2 ^ w) bits).testBit j = true ↔
        bits.testBit j = true ∨ ∃ i ∈ l, i.val = j ∧ flag i = 1) := by
    intro l
    induction l with
    | nil => simp
    | cons i l ih =>
      intro bits hb
      have hbit : ((bits ||| flag i <<< i.val) % 2 ^ w).testBit j = true ↔
          bits.testBit j = true ∨ i.val = j ∧ flag i = 1 := by
        rw [Nat.testBit_mod_two_pow, Nat.testBit_or, Bool.and_eq_true, Bool.or_eq_true,
          testBit_flag (hf i), decide_eq_true_eq, and_iff_right_iff_imp]
        -- No bit at `w` or above comes in.
        rintro (h | ⟨h, -⟩)
        · by_contra hj
          have hpow : 2 ^ w ≤ 2 ^ j := Nat.pow_le_pow_right (by decide) (not_lt.mp hj)
          rw [Nat.testBit_lt_two_pow (by omega)] at h
          cases h
        · have := i.isLt
          omega
      rw [List.foldl_cons, ih _ (Nat.mod_lt _ (Nat.two_pow_pos w)), hbit]
      simp [or_assoc]
  simpa [gather] using main (List.finRange n) 0 (Nat.two_pow_pos w)

theorem testBit_not {a : UInt16} {j : ℕ} (hj : j < 16) :
    (~~~a).toNat.testBit j = !a.toNat.testBit j := by
  rw [UInt16.toNat_not, Nat.sub_sub, Nat.add_comm 1,
    show UInt16.size = 2 ^ 16 from rfl, Nat.testBit_two_pow_sub_succ a.toNat_lt]
  simp [hj]

def low (n : ℕ) : UInt16 := UInt16.ofNat (2 ^ n - 1)

theorem testBit_low {n : ℕ} (hn : n ≤ 16) (j : ℕ) : (low n).toNat.testBit j = decide (j < n) := by
  have hpow : 2 ^ n ≤ 2 ^ 16 := Nat.pow_le_pow_right (by decide) hn
  have hpos := Nat.two_pow_pos n
  rw [low, UInt16.toNat_ofNat', Nat.mod_eq_of_lt (by omega), Nat.testBit_two_pow_sub_one]

end MaskBits
