import Mathlib.Algebra.BigOperators.Fin
import Mathlib.Algebra.BigOperators.Intervals
import Mathlib.Algebra.Ring.Parity
import Mathlib.Analysis.Fourier.ZMod
import Mathlib.Data.List.GetD

/-! # The power spectrum of real samples

    The transform of `n` real samples keeps their energy. The coefficients `k` and `n - k` are
    conjugate, so that the first half of them tells all; what the frequencies above 0 hold is the
    energy without that of the mean, and the highest one of an even number of samples has no
    partner. -/

namespace Pscdrv.Harmonics

open Finset ZMod

/-- The coefficient `k` of a transform, `∑ xⱼ e^(-2πi·jk/n)`. -/
noncomputable def coeff (xs : List ℝ) (k : ℕ) : ℂ :=
  ∑ j : Fin xs.length,
    Complex.exp (-(2 * Real.pi * Complex.I * (j * k) / xs.length)) * (xs.get j : ℂ)

/-- The power of a coefficient. -/
noncomputable def power (xs : List ℝ) (k : ℕ) : ℝ := Complex.normSq (coeff xs k)

/-- The sum of the squares. -/
def energy (xs : List ℝ) : ℝ := (xs.map fun x => x * x).sum

/-! ### The transform on residues -/

section Residues

variable {N : ℕ} [NeZero N]

/-- PARSEVAL: the energy of the coefficients is that of the samples, times their number. -/
theorem sum_normSq_dft (Φ : ZMod N → ℂ) :
    ∑ k, Complex.normSq (dft Φ k) = N * ∑ j, Complex.normSq (Φ j) := by
  have hback : ∀ j, ∑ k, stdAddChar (-(j * k)) * (starRingEnd ℂ) (dft Φ k) =
      (starRingEnd ℂ) (N * Φ j) := by
    intro j
    have hinv : ∑ k, stdAddChar (k * j) * dft Φ k = N * Φ j := by
      have hdft := congrFun (dft_dft Φ) (-j)
      simpa only [dft_apply (dft Φ), mul_neg, neg_neg, smul_eq_mul] using hdft
    rw [← hinv, map_sum]
    refine sum_congr rfl fun k _ => ?_
    rw [map_mul, ← AddChar.map_neg_eq_conj, mul_comm k]
  have hsum : ∑ k, dft Φ k * (starRingEnd ℂ) (dft Φ k) = ∑ j, N * (Φ j * (starRingEnd ℂ) (Φ j)) :=
    calc ∑ k, dft Φ k * (starRingEnd ℂ) (dft Φ k)
        = ∑ k, ∑ j, Φ j * (stdAddChar (-(j * k)) * (starRingEnd ℂ) (dft Φ k)) := by
          refine sum_congr rfl fun k _ => ?_
          rw [dft_apply, sum_mul]
          refine sum_congr rfl fun j _ => ?_
          rw [smul_eq_mul, mul_comm (stdAddChar _), mul_assoc]
      _ = ∑ j, Φ j * ∑ k, stdAddChar (-(j * k)) * (starRingEnd ℂ) (dft Φ k) := by
          rw [sum_comm]
          refine sum_congr rfl fun j _ => ?_
          rw [mul_sum]
      _ = ∑ j, N * (Φ j * (starRingEnd ℂ) (Φ j)) := by
          refine sum_congr rfl fun j _ => ?_
          rw [hback, map_mul, Complex.conj_natCast, mul_left_comm]
  simp only [Complex.mul_conj] at hsum
  rw [mul_sum]
  exact_mod_cast hsum

/-- The coefficients of real samples are conjugate to those of the opposite frequencies. -/
theorem dft_neg_of_real {Φ : ZMod N → ℂ} (h : ∀ j, (starRingEnd ℂ) (Φ j) = Φ j) (k : ZMod N) :
    dft Φ (-k) = (starRingEnd ℂ) (dft Φ k) := by
  rw [dft_apply, dft_apply, map_sum]
  refine sum_congr rfl fun j _ => ?_
  rw [smul_eq_mul, smul_eq_mul, map_mul, h, ← AddChar.map_neg_eq_conj, mul_neg]

theorem sum_val {M : Type*} [AddCommMonoid M] (f : ℕ → M) :
    ∑ j : ZMod N, f j.val = ∑ j : Fin N, f j := by
  cases N with
  | zero => exact absurd rfl (NeZero.ne 0)
  | succ n => rfl

end Residues

/-! ### The transform of a list -/

/-- The samples as a function of the residues. -/
noncomputable def signal (xs : List ℝ) (j : ZMod xs.length) : ℂ := (xs.getD j.val 0 : ℝ)

theorem coeff_eq_dft (xs : List ℝ) [NeZero xs.length] (k : ℕ) :
    coeff xs k = dft (signal xs) (k : ZMod xs.length) := by
  let term : ℕ → ℂ := fun j =>
    Complex.exp (-(2 * Real.pi * Complex.I * (j * k) / xs.length)) * (xs.getD j 0 : ℝ)
  have hterm : ∀ j : ZMod xs.length,
      stdAddChar (-(j * (k : ZMod xs.length))) • signal xs j = term j.val := by
    intro j
    have hchar := stdAddChar_coe (N := xs.length) (-(j.val * k : ℕ) : ℤ)
    push_cast at hchar
    rw [natCast_zmod_val] at hchar
    rw [hchar, smul_eq_mul, mul_neg, neg_div]
    rfl
  rw [dft_apply, sum_congr rfl fun j _ => hterm j, sum_val, coeff]
  refine sum_congr rfl fun j _ => ?_
  change _ * ((xs.get j : ℝ) : ℂ) = _ * ((xs.getD j 0 : ℝ) : ℂ)
  rw [List.getD_eq_getElem xs 0 j.isLt, List.get_eq_getElem]

/-- The frequency 0 holds the sum. -/
theorem coeff_zero (xs : List ℝ) : coeff xs 0 = (xs.sum : ℝ) := by
  rw [coeff, ← Fin.sum_univ_getElem xs, Complex.ofReal_sum]
  refine sum_congr rfl fun j _ => ?_
  rw [Nat.cast_zero, mul_zero, mul_zero, zero_div, neg_zero, Complex.exp_zero, one_mul]
  rfl

/-- The highest frequency of an even number of samples holds their alternating sum. -/
theorem coeff_half {xs : List ℝ} (h : Even xs.length) :
    coeff xs (xs.length / 2) = (xs.alternatingSum : ℝ) := by
  obtain ⟨m, hm⟩ := h
  rw [coeff, List.alternatingSum_eq_finsetSum, Complex.ofReal_sum]
  refine sum_congr rfl fun j _ => ?_
  have hpos : (m : ℂ) ≠ 0 := Nat.cast_ne_zero.mpr (by have := j.isLt; omega)
  have hangle : ∀ n : ℕ, n = m + m →
      -(2 * Real.pi * Complex.I * (j * (n / 2 : ℕ)) / n) = (j : ℕ) * -(Real.pi * Complex.I) := by
    rintro n rfl
    rw [show (m + m) / 2 = m by omega]
    push_cast
    field_simp
    ring
  rw [hangle _ hm, Complex.exp_nat_mul, Complex.exp_neg_pi_mul_I]
  simp

/-- Opposite frequencies have the same power. -/
theorem power_sub {xs : List ℝ} {k : ℕ} (hk : k < xs.length) :
    power xs (xs.length - k) = power xs k := by
  have hpos : NeZero xs.length := ⟨by omega⟩
  have hreal : ∀ j, (starRingEnd ℂ) (signal xs j) = signal xs j := fun j => Complex.conj_ofReal _
  have hcast : ((xs.length - k : ℕ) : ZMod xs.length) = -(k : ZMod xs.length) := by
    rw [Nat.cast_sub hk.le, natCast_self, zero_sub]
  rw [power, power, coeff_eq_dft, coeff_eq_dft, hcast, dft_neg_of_real hreal, Complex.normSq_conj]

/-- The powers of all frequencies are the energy, times the number of samples. -/
theorem sum_power (xs : List ℝ) :
    ∑ k ∈ range xs.length, power xs k = xs.length * energy xs := by
  rcases Nat.eq_zero_or_pos xs.length with hzero | hpos
  · rw [hzero, range_zero, sum_empty, Nat.cast_zero, zero_mul]
  · have hne : NeZero xs.length := ⟨hpos.ne'⟩
    have hpower : ∀ k : ZMod xs.length, Complex.normSq (dft (signal xs) k) = power xs k.val := by
      intro k
      rw [power, coeff_eq_dft, natCast_zmod_val]
    have hsquare : ∀ j : ZMod xs.length, Complex.normSq (signal xs j) =
        xs.getD j.val 0 * xs.getD j.val 0 := fun j => Complex.normSq_ofReal _
    have hparseval := sum_normSq_dft (signal xs)
    rw [sum_congr rfl fun k _ => hpower k, sum_val, Fin.sum_univ_eq_sum_range,
      sum_congr rfl fun j _ => hsquare j, sum_val fun j => xs.getD j 0 * xs.getD j 0] at hparseval
    rw [hparseval, energy, ← Fin.sum_univ_fun_getElem xs]
    refine congrArg _ (sum_congr rfl fun j _ => ?_)
    rw [List.getD_eq_getElem xs 0 j.isLt]

/-- Half of a sum that reads the same from both ends: the middle of an even number stands alone. -/
theorem two_mul_sum_half {n : ℕ} (hn : 0 < n) {f : ℕ → ℝ}
    (h : ∀ k, 0 < k → k < n → f (n - k) = f k) :
    2 * ∑ k ∈ Ico 1 (n / 2 + 1), f k =
      ∑ k ∈ range n, f k - f 0 + if Even n then f (n / 2) else 0 := by
  have hrest : ∑ k ∈ Ico (n / 2 + 1) n, f k = ∑ k ∈ Ico 1 (n - n / 2), f k := by
    have hreflect := sum_Ico_reflect f 1 (show n - n / 2 ≤ n + 1 by omega)
    rw [Nat.add_sub_cancel, show n + 1 - (n - n / 2) = n / 2 + 1 by omega] at hreflect
    rw [← hreflect]
    refine sum_congr rfl fun k hk => ?_
    obtain ⟨hpos, hlt⟩ := mem_Ico.mp hk
    exact h k hpos (by omega)
  have hsplit := sum_Ico_consecutive f (show 1 ≤ n / 2 + 1 by omega) (show n / 2 + 1 ≤ n by omega)
  rw [sum_range_eq_add_Ico f hn, ← hsplit, hrest]
  split
  · rename_i heven
    obtain ⟨m, rfl⟩ := heven
    have hm : (m + m) / 2 = m := by omega
    rw [hm, Nat.add_sub_cancel, sum_Ico_succ_top (by omega)]
    ring
  · rename_i hodd
    obtain ⟨m, rfl⟩ := Nat.not_even_iff_odd.mp hodd
    have hm : (2 * m + 1) / 2 = m := by omega
    rw [hm, show 2 * m + 1 - m = m + 1 by omega]
    ring

/-- SPECTRUM: what the frequencies above 0 hold. -/
theorem two_mul_sum_power {xs : List ℝ} (h : xs ≠ []) :
    2 * ∑ k ∈ Ico 1 (xs.length / 2 + 1), power xs k =
      xs.length * energy xs - xs.sum ^ 2 +
        if Even xs.length then xs.alternatingSum ^ 2 else 0 := by
  rw [two_mul_sum_half (List.length_pos_iff.mpr h) fun k _ hk => power_sub hk, sum_power, power,
    coeff_zero, Complex.normSq_ofReal, ← sq]
  split
  · rename_i heven
    rw [power, coeff_half heven, Complex.normSq_ofReal, ← sq]
  · rfl

end Pscdrv.Harmonics
