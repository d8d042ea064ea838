import Mathlib.Analysis.Real.Sqrt
import Pscdrv.Schemes.Harmonics
import Pscdrv.Sig.Latest

/-! # What the total powers say

    In exact arithmetic, with the transform that the library documents. The power over all
    frequencies is the mean of that of the bins; for a bin it is the variance of its samples, and
    the power of the highest frequency if their number is even: the factor 2 is right for all
    frequencies that have an opposite one, and the highest one has none.

        totalpowertime   = mean square of all samples
        totalpowerfreq   = mean over the bins of   mean square - mean² + highest²  -/

namespace Pscdrv.Sig

open Double Run Harmonics

/-- Exact arithmetic -/
noncomputable instance : Double ℝ where
  ofNat n := n
  sqrt := Real.sqrt
  sin := Real.sin
  eq a b := decide (a = b)
  le a b := decide (a ≤ b)
  eq_or_zero h := .inl (of_decide_eq_true h)
  le_zero h := decide_eq_true (of_decide_eq_true h).le
  one_ne_zero := decide_eq_false (by rw [Nat.cast_one, Nat.cast_zero]; exact one_ne_zero)

/-- `fftw_plan_dft_r2c_1d`, as documented: the real and the imaginary parts of the coefficients. -/
noncomputable def dftR2C : Fftw ℝ where
  dft samples := (List.range (samples.length / 2 + 1)).map fun k =>
    ((coeff samples k).re, (coeff samples k).im)
  length_dft samples := by rw [List.length_map, List.length_range]

/-! ### The power of a bin -/

noncomputable def meanSquare (bin : List ℝ) : ℝ := energy bin / bin.length

noncomputable def meanPower (bin : List ℝ) : ℝ := (bin.sum / bin.length) ^ 2

/-- The power of the highest frequency of an even number of samples -/
noncomputable def highestPower (bin : List ℝ) : ℝ :=
  if Even bin.length then (bin.alternatingSum / bin.length) ^ 2 else 0

/-- The power of the frequencies above 0 -/
noncomputable def binPower (bin : List ℝ) : ℝ :=
  meanSquare bin - meanPower bin + highestPower bin

noncomputable def average (f : List ℝ → ℝ) (bs : List (List ℝ)) : ℝ :=
  (bs.map f).sum / bs.length

/-- The sum of the squares of a transform, as the code adds them up. -/
theorem sum_squares_dft {bin : List ℝ} (h : bin ≠ []) :
    (((dftR2C.dft bin).drop 1).map fun m => m.1 * m.1 + m.2 * m.2).sum =
      bin.length ^ 2 / 2 * binPower bin := by
  have hn : (bin.length : ℝ) ≠ 0 := Nat.cast_ne_zero.mpr (List.length_pos_iff.mpr h).ne'
  have hdrop : ((dftR2C.dft bin).drop 1).map (fun m => m.1 * m.1 + m.2 * m.2) =
      (List.range (bin.length / 2)).map fun k => power bin (k + 1) := by
    change (((List.range (bin.length / 2 + 1)).map _).drop 1).map _ = _
    rw [List.range_succ_eq_map, List.map_cons, List.drop_one, List.tail_cons, List.map_map,
      List.map_map]
    rfl
  have hsum : ((List.range (bin.length / 2)).map fun k => power bin (k + 1)).sum =
      ∑ k ∈ Finset.Ico 1 (bin.length / 2 + 1), power bin k := by
    rw [Finset.sum_Ico_eq_sum_range, Nat.add_sub_cancel]
    simp only [Nat.add_comm 1]
    rfl
  have hpower := two_mul_sum_power h
  rw [hdrop, hsum, binPower, meanSquare, meanPower, highestPower]
  split at hpower
  · rename_i heven
    rw [if_pos heven]
    field_simp
    linarith
  · rename_i hodd
    rw [if_neg hodd]
    field_simp
    linarith

/-! ### All bins -/

/-- The sum over the frequencies is a sum over the bins. -/
theorem sum_sumBins {nfreq : ℕ} {middle : List (List (ℝ × ℝ))}
    (h : ∀ mid ∈ middle, mid.length = nfreq) :
    (sumBins nfreq middle).sum =
      (middle.map fun mid => ((mid.drop 1).map fun m => m.1 * m.1 + m.2 * m.2).sum).sum := by
  have hzip : ∀ (ms : List (ℝ × ℝ)) (out : List ℝ), out.length = ms.length →
      (List.zipWith (fun o m => o + (m.1 * m.1 + m.2 * m.2)) out ms).sum =
        out.sum + (ms.map fun m => m.1 * m.1 + m.2 * m.2).sum := by
    intro ms
    induction ms with
    | nil =>
      intro out hout
      rw [List.length_eq_zero_iff.mp hout]
      simp
    | cons m ms ih =>
      rintro (_ | ⟨o, out⟩) hout
      · cases hout
      · rw [List.zipWith_cons_cons, List.sum_cons, ih out (Nat.succ.inj hout), List.sum_cons,
          List.map_cons, List.sum_cons]
        ring
  have hfold : ∀ out : List ℝ, out.length = nfreq - 1 →
      (middle.foldl (fun out mid =>
        List.zipWith (fun o m => o + (m.1 * m.1 + m.2 * m.2)) out (mid.drop 1)) out).sum =
      out.sum +
        (middle.map fun mid => ((mid.drop 1).map fun m => m.1 * m.1 + m.2 * m.2).sum).sum := by
    induction middle with
    | nil => simp
    | cons mid middle ih =>
      intro out hout
      obtain ⟨hmid, hrest⟩ := List.forall_mem_cons.mp h
      have hlen : out.length = (mid.drop 1).length := by rw [List.length_drop, hmid, hout]
      rw [List.foldl_cons, ih hrest, hzip _ _ hlen, List.map_cons, List.sum_cons, add_assoc]
      rw [List.length_zipWith, hout, ← hlen, hout, Nat.min_self]
  refine (hfold _ List.length_replicate).trans ?_
  rw [List.sum_replicate]
  simp [zero, Double.ofNat]

/-- The total is the sum of the powers. -/
theorem integrate_total (fsamp total : ℝ) (out : List ℝ) :
    (integrate fsamp total out).2 = total + out.sum := by
  induction out generalizing total with
  | nil => rw [List.sum_nil, add_zero, integrate]
  | cons temp out ih =>
    rw [integrate, ih, List.sum_cons, ← add_assoc]

/-- The factor, as long as the product does not wrap. -/
theorem factorOf_eq {ntime nbins : ℕ} (h : ntime * ntime * nbins < 2 ^ 64) :
    (factorOf ntime nbins : ℝ) = 2 / ((ntime : ℝ) ^ 2 * nbins) := by
  rw [factorOf, Nat.mod_eq_of_lt h]
  change ((2 : ℕ) : ℝ) / ((ntime * ntime * nbins : ℕ) : ℝ) = _
  push_cast
  rw [sq]

theorem length_bins {α : Type} (ntime nbins : ℕ) (samples : List α) :
    (bins ntime nbins samples).length = nbins := by
  induction nbins generalizing samples with
  | zero => rfl
  | succ nbins ih => rw [bins, List.length_cons, ih]

/-- BALANCE: the powers sum up to the mean power of the bins. -/
theorem sum_powers {ntime : ℕ} {samples : List ℝ} (hpos : ntime ≠ 0)
    (hwrap : ntime * ntime * (samples.length / ntime) < 2 ^ 64) :
    (powers dftR2C ntime samples).sum =
      average binPower (bins ntime (samples.length / ntime) samples) := by
  let bs := bins ntime (samples.length / ntime) samples
  have hbin : ∀ bin ∈ bs, bin.length = ntime := fun bin hbin =>
    length_of_mem_bins (Nat.div_mul_le_self _ _) hbin
  have hlengths : ∀ mid ∈ bs.map dftR2C.dft, mid.length = ntime / 2 + 1 := by
    intro mid hmid
    obtain ⟨bin, hmem, rfl⟩ := List.mem_map.mp hmid
    rw [dftR2C.length_dft, hbin bin hmem]
  have hsquares : ∀ bin ∈ bs,
      (((dftR2C.dft bin).drop 1).map fun m => m.1 * m.1 + m.2 * m.2).sum =
        (ntime : ℝ) ^ 2 / 2 * binPower bin := by
    intro bin hmem
    have hne : bin ≠ [] := fun hempty => hpos (by rw [← hbin bin hmem, hempty, List.length_nil])
    rw [sum_squares_dft hne, hbin bin hmem]
  have hn : (ntime : ℝ) ≠ 0 := Nat.cast_ne_zero.mpr hpos
  calc (powers dftR2C ntime samples).sum
      = (sumBins (ntime / 2 + 1) (bs.map dftR2C.dft)).sum *
          factorOf ntime (samples.length / ntime) := by
        refine (List.sum_map_mul_right _ (fun x : ℝ => x) _).trans ?_
        rw [List.map_id']
    _ = (bs.map fun bin => (ntime : ℝ) ^ 2 / 2 * binPower bin).sum *
          (2 / ((ntime : ℝ) ^ 2 * (samples.length / ntime : ℕ))) := by
        rw [sum_sumBins hlengths, List.map_map, factorOf_eq hwrap]
        exact congrArg (List.sum · * _) (List.map_congr_left hsquares)
    _ = average binPower bs := by
        rw [List.sum_map_mul_left, average, length_bins]
        field_simp

/-! ### The samples -/

theorem foldl_eq_sum (f : ℝ → ℝ) (total : ℝ) (l : List ℝ) :
    l.foldl (fun t x => t + f x) total = total + (l.map f).sum := by
  induction l generalizing total with
  | nil => rw [List.foldl_nil, List.map_nil, List.sum_nil, add_zero]
  | cons x l ih => rw [List.foldl_cons, ih, List.map_cons, List.sum_cons, add_assoc]

theorem mean_eq (inp : List ℝ) : mean inp = inp.sum / inp.length := by
  have hsum : inp.foldl (· + ·) zero = zero + (inp.map id).sum := foldl_eq_sum id zero inp
  have hzero : (zero : ℝ) = 0 := Nat.cast_zero
  rw [mean, hsum, hzero, zero_add, List.map_id]
  rfl

/-- The mean is removed. -/
theorem sum_scaled (mult : ℝ) {inp : List ℝ} (h : inp ≠ []) : (scaled mult inp).sum = 0 := by
  have hn : (inp.length : ℝ) ≠ 0 := Nat.cast_ne_zero.mpr (List.length_pos_iff.mpr h).ne'
  have hsum : ∀ (m : ℝ) (l : List ℝ),
      (l.map fun x => (x - m) / mult).sum = (l.sum - l.length * m) / mult := by
    intro m l
    induction l with
    | nil => simp
    | cons x l ih =>
      rw [List.map_cons, List.sum_cons, ih, List.sum_cons, List.length_cons]
      push_cast
      ring
  refine (hsum (mean inp) inp).trans ?_
  rw [mean_eq, mul_div_cancel₀ _ hn, sub_self, zero_div]

/-- The power over time is the mean square. -/
theorem powertime_eq (mult : ℝ) (inp : List ℝ) :
    powertime mult inp = meanSquare (scaled mult inp) := by
  have hzero : (zero : ℝ) = 0 := Nat.cast_zero
  have hlength : (scaled mult inp).length = inp.length := List.length_map _
  rw [meanSquare, energy, hlength, powertime, foldl_eq_sum (fun x => x * x), hzero, zero_add]
  rfl

/-- Without a window the samples are scaled only. -/
theorem prepared_of_none {windowtype : Window} (h : windowtype ≠ .hann) (mult : ℝ) (ntime : ℕ)
    (inp : List ℝ) :
    prepared mult (windowOf windowtype ntime inp.length) inp = scaled mult inp := by
  have hone : (one : ℝ) = 1 := Nat.cast_one
  have hwindow : (windowOf windowtype ntime inp.length : List ℝ) =
      List.replicate (scaled mult inp).length 1 := by
    rw [scaled, List.length_map, ← hone]
    cases windowtype with
    | hann => exact absurd rfl h
    | none => rfl
    | other value => rfl
  have hzip : ∀ l : List ℝ, List.zipWith (· * ·) l (List.replicate l.length 1) = l := by
    intro l
    induction l with
    | nil => rfl
    | cons x l ih =>
      rw [List.length_cons, List.replicate_succ, List.zipWith_cons_cons, ih, mul_one]
  rw [prepared, hwindow]
  exact hzip _

/-- The bins keep the energy of the samples. -/
theorem sum_energy_bins {ntime nbins : ℕ} {samples : List ℝ} (h : samples.length = nbins * ntime) :
    ((bins ntime nbins samples).map energy).sum = energy samples := by
  induction nbins generalizing samples with
  | zero =>
    rw [Nat.zero_mul] at h
    rw [List.length_eq_zero_iff.mp h]
    rfl
  | succ nbins ih =>
    rw [Nat.succ_mul] at h
    rw [bins, List.map_cons, List.sum_cons, ih (by rw [List.length_drop]; omega), energy, energy,
      ← List.sum_append, ← List.map_append, List.take_append_drop]
    rfl

theorem average_binPower (bs : List (List ℝ)) :
    average binPower bs =
      average meanSquare bs - average meanPower bs + average highestPower bs := by
  have hsum : (bs.map binPower).sum =
      (bs.map meanSquare).sum - (bs.map meanPower).sum + (bs.map highestPower).sum := by
    induction bs with
    | nil => simp
    | cons bin bs ih =>
      simp only [List.map_cons, List.sum_cons, ih, binPower]
      ring
  rw [average, hsum, average, average, average]
  ring

/-! ### What is published -/

section Published

variable {D : Type} [Double D]

/-- The samples that are transformed: the prepared ones, unless new plans have changed them. -/
def samplesOf (pl : Option (Planner D)) (p : Params D) : List D :=
  let size := p.input.length
  let ntime := ntimeOf p.nfft size
  let samples := prepared (PSDCalc.multOf p.mult) (windowOf p.windowtype ntime size) p.input
  match pl with
  | some pl => pl.overwrite ntime 0 (size / ntime) samples
  | none => samples

/-- The number of samples of a bin. -/
def Params.ntime (p : Params D) : ℕ := ntimeOf p.nfft p.input.length

def binsOf (pl : Option (Planner D)) (p : Params D) : List (List D) :=
  bins p.ntime (p.input.length / p.ntime) (samplesOf pl p)

theorem length_samplesOf (pl : Option (Planner D)) (p : Params D) :
    (samplesOf pl p).length = p.input.length := by
  cases pl with
  | none => exact length_prepared _ (length_windowOf ..)
  | some pl => exact (pl.length_overwrite ..).trans (length_prepared _ (length_windowOf ..))

theorem spectrum_eq (F : Fftw D) (pl : Option (Planner D)) (p : Params D) :
    spectrum F pl p =
      { output := powers F p.ntime (samplesOf pl p)
        outint := (integrate p.fsamp zero (powers F p.ntime (samplesOf pl p))).1
        fscale := fscaleOf p.fsamp p.ntime
        totalpowertime := powertime (PSDCalc.multOf p.mult) p.input
        totalpowerfreq := (integrate p.fsamp zero (powers F p.ntime (samplesOf pl p))).2 } := by
  cases pl with
  | none => rfl
  | some pl => rfl

end Published

/-- What the published results say of the samples. -/
structure Balanced (r : Published ℝ) (p : Params ℝ) (pl : Option (Planner ℝ)) : Prop where
  positive : ∀ v ∈ r.valout, 0 ≤ v
  sum : r.totalpowerfreq = r.valout.sum
  /-- the integrated spectrum, in thousandths -/
  running : r.valoutint = (List.range r.valout.length).map fun i =>
    Real.sqrt ((r.valout.take (i + 1)).sum / p.fsamp) * 1000
  bins : r.totalpowerfreq = average binPower (binsOf pl p)
  /-- without a window, and without samples behind the last bin -/
  time : p.windowtype ≠ .hann → samplesOf pl p = samplesOf none p → p.ntime ∣ p.input.length →
    r.totalpowerfreq + average meanPower (binsOf pl p) =
      r.totalpowertime + average highestPower (binsOf pl p)
  /-- with a single bin -/
  single : p.windowtype ≠ .hann → samplesOf pl p = samplesOf none p → p.ntime = p.input.length →
    r.totalpowerfreq = r.totalpowertime + highestPower (samplesOf pl p)

/-- The powers are sums of squares. -/
theorem powers_nonneg (F : Fftw ℝ) (ntime : ℕ) (samples : List ℝ) :
    ∀ v ∈ powers F ntime samples, 0 ≤ v := by
  have hzip : ∀ (ms : List (ℝ × ℝ)) (out : List ℝ), (∀ o ∈ out, 0 ≤ o) →
      ∀ v ∈ List.zipWith (fun o m => o + (m.1 * m.1 + m.2 * m.2)) out ms, 0 ≤ v := by
    intro ms
    induction ms with
    | nil =>
      intro out _ v hv
      rw [List.zipWith_nil_right] at hv
      cases hv
    | cons m ms ih =>
      rintro (_ | ⟨o, out⟩) hout v hv
      · cases hv
      · obtain ⟨ho, hrest⟩ := List.forall_mem_cons.mp hout
        rcases List.mem_cons.mp hv with rfl | hv
        · exact add_nonneg ho (add_nonneg (mul_self_nonneg _) (mul_self_nonneg _))
        · exact ih out hrest v hv
  have hfold : ∀ (middle : List (List (ℝ × ℝ))) (out : List ℝ), (∀ o ∈ out, 0 ≤ o) →
      ∀ v ∈ middle.foldl (fun out mid =>
        List.zipWith (fun o m => o + (m.1 * m.1 + m.2 * m.2)) out (mid.drop 1)) out, 0 ≤ v := by
    intro middle
    induction middle with
    | nil => exact fun _ hout => hout
    | cons mid middle ih => exact fun out hout => ih _ (hzip _ out hout)
  have hfactor : ∀ nbins, (0 : ℝ) ≤ factorOf ntime nbins := fun nbins =>
    div_nonneg (Nat.cast_nonneg 2) (Nat.cast_nonneg (ntime * ntime * nbins % 2 ^ 64))
  intro v hv
  obtain ⟨o, ho, rfl⟩ := List.mem_map.mp hv
  refine mul_nonneg (hfold _ _ (fun o ho => ?_) o ho) (hfactor _)
  rw [List.eq_of_mem_replicate ho]
  exact Nat.cast_nonneg 0

/-- The integrated spectrum is made of the sums of the first powers. -/
theorem integrate_eq (fsamp total : ℝ) (out : List ℝ) :
    (integrate fsamp total out).1 = (List.range out.length).map fun i =>
      Real.sqrt ((total + (out.take (i + 1)).sum) / fsamp) * 1000 := by
  induction out generalizing total with
  | nil => rfl
  | cons temp out ih =>
    have hthousand : (Double.ofNat 1000 : ℝ) = 1000 := Nat.cast_ofNat
    rw [integrate, ih, List.length_cons, List.range_succ_eq_map, List.map_cons, List.map_map,
      hthousand]
    refine congrArg₂ List.cons ?_ ?_
    · rw [List.take_succ_cons, List.take_zero, List.sum_cons, List.sum_nil, add_zero]
      rfl
    · refine List.map_congr_left fun i _ => ?_
      change _ = Real.sqrt ((total + ((temp :: out).take (i + 2)).sum) / fsamp) * 1000
      rw [List.take_succ_cons, List.sum_cons, ← add_assoc]

theorem ntime_pos {p : Params ℝ} (hnfft : p.nfft ≠ 0) (hne : p.input ≠ []) : 0 < p.ntime := by
  have htoNat : p.nfft.toNat ≠ 0 := fun h => hnfft (UInt64.toNat_inj.mp h)
  have hlength := List.length_pos_iff.mpr hne
  rw [Params.ntime, ntimeOf]
  omega

/-- The product of the factor does not wrap: a record has less than 2^32 elements. -/
theorem not_wraps {p : Params ℝ} (h : p.input.length < 2 ^ 32) :
    p.ntime * p.ntime * (p.input.length / p.ntime) < 2 ^ 64 := by
  have hle : p.ntime ≤ p.input.length := Nat.min_le_right _ _
  calc p.ntime * p.ntime * (p.input.length / p.ntime)
      = p.ntime * (p.input.length / p.ntime * p.ntime) := by ring
    _ ≤ p.input.length * p.input.length := Nat.mul_le_mul hle (Nat.div_mul_le_self _ _)
    _ < 2 ^ 32 * 2 ^ 32 := Nat.mul_lt_mul'' h h
    _ = 2 ^ 64 := by decide

/-- The samples of the bins make up all samples. -/
theorem average_meanSquare {pl : Option (Planner ℝ)} {p : Params ℝ} (hpos : 0 < p.ntime)
    (hdvd : p.ntime ∣ p.input.length) :
    average meanSquare (binsOf pl p) = meanSquare (samplesOf pl p) := by
  obtain ⟨nbins, hnbins⟩ := hdvd
  have hcount : p.input.length / p.ntime = nbins := by
    rw [hnbins, Nat.mul_div_cancel_left _ hpos]
  have hlength : (samplesOf pl p).length = nbins * p.ntime := by
    rw [length_samplesOf, hnbins, Nat.mul_comm]
  have hmap : (binsOf pl p).map meanSquare =
      (binsOf pl p).map fun bin => energy bin * (p.ntime : ℝ)⁻¹ := by
    refine List.map_congr_left fun bin hbin => ?_
    rw [binsOf, hcount] at hbin
    rw [meanSquare, length_of_mem_bins hlength.ge hbin, div_eq_mul_inv]
  rw [average, hmap, List.sum_map_mul_right, binsOf, hcount, sum_energy_bins hlength, length_bins,
    meanSquare, hlength]
  push_cast
  rw [← div_eq_mul_inv, div_div, mul_comm (nbins : ℝ)]

/-- The samples without a window, and before new plans were made, are the scaled ones. -/
theorem samplesOf_none {p : Params ℝ} (h : p.windowtype ≠ .hann) :
    samplesOf none p = scaled (PSDCalc.multOf p.mult) p.input :=
  prepared_of_none h _ _ _

theorem sum_filled (l : List ℝ) : (Calc.filled l).sum = l.sum := by
  have hzero : (zero : ℝ) = 0 := Nat.cast_zero
  unfold Calc.filled
  split
  · rename_i hempty
    rw [hempty, hzero, List.sum_cons, zero_add]
  · rfl

/-- A placeholder is the integral of a placeholder. -/
theorem integrate_filled (fsamp : ℝ) (out : List ℝ) :
    Calc.filled (integrate fsamp zero out).1 = (integrate fsamp zero (Calc.filled out)).1 := by
  have hzero : (zero : ℝ) = 0 := Nat.cast_zero
  cases out with
  | nil =>
    change [zero] = [Real.sqrt ((zero + zero) / fsamp) * Double.ofNat 1000]
    rw [hzero, add_zero, zero_div, Real.sqrt_zero, zero_mul]
  | cons temp out => rfl

theorem average_singleton (f : List ℝ → ℝ) (bin : List ℝ) : average f [bin] = f bin := by
  rw [average, List.map_singleton, List.sum_singleton, List.length_singleton, Nat.cast_one, div_one]

theorem binsOf_single {pl : Option (Planner ℝ)} {p : Params ℝ} (hpos : 0 < p.ntime)
    (h : p.ntime = p.input.length) : binsOf pl p = [samplesOf pl p] := by
  have htake : (samplesOf pl p).take p.ntime = samplesOf pl p :=
    List.take_of_length_le (by rw [length_samplesOf, h])
  rw [binsOf, ← h, Nat.div_self hpos, bins, bins, htake]

/-- PUBLISHED: what the results of a turn say of its samples. -/
theorem Presents.balanced {r : Published ℝ} {snap : Snap ℝ} {pl : Option (Planner ℝ)}
    (h : Presents dftR2C r snap pl) (hne : snap.params.input ≠ []) (hnfft : snap.params.nfft ≠ 0)
    (hsize : snap.params.input.length < 2 ^ 32) : Balanced r snap.params pl := by
  have hpos := ntime_pos hnfft hne
  have hzero : (zero : ℝ) = 0 := Nat.cast_zero
  have hspectrum := spectrum_eq dftR2C pl snap.params
  have hvalout : r.valout = _ := h.valout.trans (congrArg (Calc.filled ·.output) hspectrum)
  have hvaloutint : r.valoutint = _ := h.valoutint.trans (congrArg (Calc.filled ·.outint) hspectrum)
  have hfreq : r.totalpowerfreq = _ :=
    h.totalpowerfreq.trans (congrArg (·.totalpowerfreq) hspectrum)
  have htime : r.totalpowertime = _ :=
    h.totalpowertime.trans (congrArg (·.totalpowertime) hspectrum)
  dsimp only at hvalout hvaloutint hfreq htime
  rw [integrate_total, hzero, zero_add] at hfreq
  have hbins : r.totalpowerfreq = average binPower (binsOf pl snap.params) := by
    have hlength := length_samplesOf pl snap.params
    rw [hfreq, sum_powers hpos.ne' (hlength.symm ▸ not_wraps hsize), hlength, binsOf]
  have hbalance : snap.params.windowtype ≠ .hann →
      samplesOf pl snap.params = samplesOf none snap.params →
      snap.params.ntime ∣ snap.params.input.length →
      r.totalpowerfreq + average meanPower (binsOf pl snap.params) =
        r.totalpowertime + average highestPower (binsOf pl snap.params) := by
    intro hwindow hsamples hdvd
    rw [hbins, average_binPower, average_meanSquare hpos hdvd, hsamples, samplesOf_none hwindow,
      htime, powertime_eq]
    ring
  exact {
    positive := by
      rw [hvalout, Calc.filled]
      split
      · exact List.forall_mem_singleton.mpr hzero.ge
      · exact powers_nonneg _ _ _
    sum := by rw [hvalout, sum_filled, hfreq]
    running := by
      rw [hvaloutint, integrate_filled, ← hvalout, integrate_eq, hzero]
      simp only [zero_add]
    bins := hbins
    time := hbalance
    single := by
      intro hwindow hsamples hall
      have hsum : (samplesOf pl snap.params).sum = 0 := by
        rw [hsamples, samplesOf_none hwindow, sum_scaled _ hne]
      have hone := hbalance hwindow hsamples (dvd_of_eq hall)
      rwa [binsOf_single hpos hall, average_singleton, average_singleton, meanPower, hsum, zero_div,
        sq, zero_mul, add_zero] at hone }

/-- BALANCE: in every run, whatever is published of an input that is not empty is in balance with
    the samples that were transformed. -/
theorem power_balanced (windowtype planned : Window) (as : List (Action ℝ)) :
    Always (observed (step dftR2C) note)
      (fun q => ∀ snap pl, q.2.shown = some (snap, pl) → snap.params.input ≠ [] →
        snap.params.input.length < 2 ^ 32 → Balanced q.1.priv.published snap.params pl)
      (.init windowtype planned, ⟨none, none, none⟩) as := by
  refine always_of_step (I := Settles dftR2C) (fun q a q' h hs => ?_) (fun q h => ?_)
    (init_settles windowtype planned)
  · obtain ⟨hs, hn⟩ := observed_some hs
    obtain ⟨t, m⟩ := q'
    obtain rfl : m = _ := hn
    exact step_settles h hs
  · intro snap pl hshown hne hsize
    have hnfft : snap.params.nfft ≠ 0 := fun hn => h.finished snap pl hshown (.inr hn)
    exact (h.presents snap pl hshown hne).balanced hne hnfft hsize

end Pscdrv.Sig
