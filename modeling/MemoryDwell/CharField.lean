import Mathlib.Data.List.TakeWhile
import Mathlib.Data.List.Basic

/-! Fixed-size character fields, as `char name[n]` holds them: any bytes may stand in
the field, and the C string it denotes is what comes before the first NUL. -/

structure CharField (n : ℕ) where
  bytes : List UInt8
  size_eq : bytes.length = n
  deriving DecidableEq, Repr

namespace CharField

variable {m n : ℕ}

/-- The C string in the field; all its bytes if none of them is NUL. -/
def cstr (f : CharField n) : List UInt8 := f.bytes.takeWhile (· != 0)

/-- The scan `for (i = 0; i < n; i++) if (f[i] == '\0') break;`, as the final `i`. -/
def scanNul (f : CharField n) : ℕ := f.bytes.findIdx (· == 0)

def Terminated (f : CharField n) : Prop := (0 : UInt8) ∈ f.bytes

instance (f : CharField n) : Decidable f.Terminated := inferInstanceAs (Decidable (_ ∈ _))

def zeros (n : ℕ) : CharField n := ⟨List.replicate n 0, List.length_replicate⟩

/-- `f[i] = '\0'`. -/
def setNul (f : CharField n) (i : ℕ) : CharField n :=
  ⟨f.bytes.set i 0, by rw [List.length_set, f.size_eq]⟩

/-- `strncpy(dst, src, k)`: at most `k` bytes, padded with NULs up to `k`. -/
def strncpy (dst : CharField n) (src : CharField m) (k : ℕ) : CharField n :=
  let copied := (src.bytes.take k).takeWhile (· != 0)
  ⟨(copied ++ List.replicate (k - copied.length) 0).take n ++ dst.bytes.drop k, by
    have hc : copied.length ≤ k :=
      (List.takeWhile_sublist _).length_le.trans (List.length_take_le _ _)
    simp only [List.length_append, List.length_take, List.length_replicate, List.length_drop,
      dst.size_eq]
    omega⟩

theorem scanNul_lt_iff (f : CharField n) : f.scanNul < n ↔ f.Terminated := by
  have h : f.bytes.findIdx (· == 0) < f.bytes.length ↔ _ := List.findIdx_lt_length
  rw [f.size_eq] at h
  simpa [scanNul, Terminated] using h

theorem cstr_length_lt {f : CharField n} (h : f.Terminated) : f.cstr.length < n := by
  by_contra hn
  have hle : f.cstr <+: f.bytes := List.takeWhile_prefix _
  have heq : f.cstr = f.bytes := hle.eq_of_length_le (by rw [f.size_eq]; exact not_lt.mp hn)
  have h0 : (0 : UInt8) ∈ f.cstr := heq ▸ h
  simpa using List.mem_takeWhile_imp h0

theorem cstr_length_lt_iff {f : CharField n} : f.cstr.length < n ↔ f.Terminated := by
  refine ⟨fun h => ?_, cstr_length_lt⟩
  by_contra hn
  have hall : ∀ b ∈ f.bytes, (b != 0) = true := by
    intro b hb
    rw [bne_iff_ne]
    rintro rfl
    exact hn hb
  rw [cstr, List.takeWhile_eq_self_iff.mpr hall, f.size_eq] at h
  omega

theorem ne_zero_of_mem_cstr {f : CharField n} {b : UInt8} (h : b ∈ f.cstr) : b ≠ 0 := by
  simpa using List.mem_takeWhile_imp h

@[simp] theorem cstr_zeros : (zeros n).cstr = [] := by
  cases n <;> simp [cstr, zeros, List.replicate_succ]

theorem zeros_terminated (h : 0 < n) : (zeros n).Terminated := by
  simp only [Terminated, zeros, List.mem_replicate]
  exact ⟨by omega, trivial⟩

theorem takeWhile_append_nul {l r : List UInt8} (h : ∀ b ∈ l, b ≠ 0) :
    (l ++ 0 :: r).takeWhile (· != 0) = l := by
  rw [List.takeWhile_append_of_pos (by simpa using h)]
  simp

private theorem take_takeWhile (l : List UInt8) (k : ℕ) :
    (l.take k).takeWhile (· != 0) = (l.takeWhile (· != 0)).take k := by
  induction l generalizing k with
  | nil => simp
  | cons b l ih =>
    cases k with
    | zero => simp
    | succ k =>
      by_cases hb : b = 0
      · simp [hb]
      · simp [hb, ih]

theorem bytes_of_terminated {f : CharField n} (h : f.Terminated) :
    ∃ r, f.bytes = f.cstr ++ 0 :: r := by
  have hsplit : f.cstr ++ f.bytes.dropWhile (· != 0) = f.bytes := List.takeWhile_append_dropWhile
  cases hd : f.bytes.dropWhile (· != 0) with
  | nil =>
    rw [hd, List.append_nil] at hsplit
    have h0 : (0 : UInt8) ∈ f.cstr := hsplit ▸ h
    exact absurd rfl (ne_zero_of_mem_cstr h0)
  | cons b r =>
    have hb := List.head?_dropWhile_not (· != 0) f.bytes
    rw [hd] at hb
    obtain rfl : b = 0 := by simpa using hb
    exact ⟨r, by rw [← hd, hsplit]⟩

/-- The usual bounded copy: `strncpy` up to the last byte, and a NUL there. -/
def copyTerminated (dst src : CharField n) : CharField n := (dst.strncpy src (n - 1)).setNul (n - 1)

theorem copyTerminated_bytes (hn : 0 < n) (dst src : CharField n) :
    ∃ r, (dst.copyTerminated src).bytes = src.cstr.take (n - 1) ++ 0 :: r := by
  simp only [copyTerminated, setNul, strncpy, take_takeWhile]
  set c := (src.bytes.takeWhile (· != 0)).take (n - 1) with hcdef
  have hc : c.length ≤ n - 1 := by rw [hcdef, List.length_take]; exact Nat.min_le_left _ _
  have hd : (dst.bytes.drop (n - 1)).length = 1 := by rw [List.length_drop, dst.size_eq]; omega
  obtain ⟨d, hd⟩ := List.length_eq_one_iff.mp hd
  have htake : (c ++ List.replicate (n - 1 - c.length) 0).take n =
      c ++ List.replicate (n - 1 - c.length) 0 :=
    List.take_of_length_le (by simp; omega)
  have hlen : (c ++ List.replicate (n - 1 - c.length) (0 : UInt8)).length = n - 1 := by
    simp; omega
  rw [htake, hd, List.set_append_right _ _ (by omega), hlen, Nat.sub_self, List.set_cons_zero]
  show ∃ r, _ = c ++ 0 :: r
  cases hk : n - 1 - c.length with
  | zero => exact ⟨[], by simp⟩
  | succ k => exact ⟨List.replicate k 0 ++ [0], by simp [List.replicate_succ]⟩

theorem copyTerminated_congr (dst dst' src : CharField n) :
    dst.copyTerminated src = dst'.copyTerminated src := by
  cases n with
  | zero =>
    have hd : dst = dst' := by
      cases dst with
      | mk bytes size =>
        cases dst' with
        | mk bytes' size' =>
          simp [List.eq_nil_of_length_eq_zero size, List.eq_nil_of_length_eq_zero size']
    rw [hd]
  | succ n =>
    have last : ∀ d : CharField (n + 1), ∃ b, d.bytes.drop n = [b] := by
      intro d
      apply List.length_eq_one_iff.mp
      simp [d.size_eq]
    obtain ⟨b, hb⟩ := last dst
    obtain ⟨b', hb'⟩ := last dst'
    simp only [copyTerminated, setNul, strncpy, Nat.add_sub_cancel, hb, hb', mk.injEq]
    set copied := (src.bytes.take n).takeWhile (· != 0)
    have hc : copied.length ≤ n :=
      (List.takeWhile_sublist _).length_le.trans (List.length_take_le _ _)
    have hl : ((copied ++ List.replicate (n - copied.length) 0).take (n + 1)).length = n := by
      simp; omega
    have hset : ∀ (l : List UInt8) (b : UInt8), l.length = n → (l ++ [b]).set n 0 = l ++ [0] := by
      rintro l b rfl
      simp
    rw [hset _ b hl, hset _ b' hl]

def padded (f : CharField n) : List UInt8 := f.cstr ++ List.replicate (n - f.cstr.length) 0

theorem copyTerminated_padded (dst : CharField n) {src : CharField n} (h : src.Terminated) :
    (dst.copyTerminated src).bytes = src.padded := by
  have hl := cstr_length_lt h
  have htake : (src.bytes.take (n - 1)).takeWhile (· != 0) = src.cstr := by
    rw [take_takeWhile]
    exact List.take_of_length_le (by unfold cstr at hl; omega)
  have hd : (dst.bytes.drop (n - 1)).length = 1 := by rw [List.length_drop, dst.size_eq]; omega
  obtain ⟨d, hd⟩ := List.length_eq_one_iff.mp hd
  have hlen :
      (src.cstr ++ List.replicate (n - 1 - src.cstr.length) (0 : UInt8)).length = n - 1 := by
    rw [List.length_append, List.length_replicate]
    omega
  have hrep : List.replicate (n - src.cstr.length) (0 : UInt8) =
      List.replicate (n - 1 - src.cstr.length) 0 ++ [0] := by
    rw [← List.replicate_succ']
    congr 1
    omega
  simp only [copyTerminated, setNul, strncpy, htake]
  rw [List.take_of_length_le (by omega), hd, List.set_append_right _ _ (by omega), hlen,
    Nat.sub_self, List.set_cons_zero, padded, hrep, List.append_assoc]

theorem copyTerminated_eq_self_iff (dst : CharField n) {src : CharField n} (h : src.Terminated) :
    dst.copyTerminated src = dst ↔ dst.bytes = src.padded := by
  rw [← copyTerminated_padded dst h]
  constructor
  · intro he
    rw [he]
  · intro hb
    cases hc : dst.copyTerminated src with
    | mk bytes size =>
      rw [hc] at hb
      subst hb
      rfl

theorem copyTerminated_terminated (hn : 0 < n) (dst src : CharField n) :
    (dst.copyTerminated src).Terminated := by
  obtain ⟨r, hr⟩ := copyTerminated_bytes hn dst src
  simp [Terminated, hr]

theorem cstr_copyTerminated (dst : CharField n) {src : CharField n} (h : src.Terminated) :
    (dst.copyTerminated src).cstr = src.cstr := by
  have hl := cstr_length_lt h
  obtain ⟨r, hr⟩ := copyTerminated_bytes (by omega) dst src
  have hs : src.cstr.take (n - 1) = src.cstr := List.take_of_length_le (by omega)
  rw [cstr, hr, hs]
  exact takeWhile_append_nul fun b hb => ne_zero_of_mem_cstr hb

end CharField
