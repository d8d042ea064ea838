import Pscdrv.Schemes.Double

/-! # Power spectra (`fftwrap.h`, `fftwrap.cpp`)

    `calculate` cuts the input into bins of `ntime` samples, transforms each of them, and sums the
    squares by frequency. The work goes through stages, and two flags tell which of them are due.

        input ──(window)──▶ prepared ──(plans)──▶ middle ──(squares)──▶ output, outint
               replan        newval      replan              always

    The library that transforms is a parameter. A plan keeps pointers into the arrays it was made
    for, and an array that grows beyond its capacity moves; making a plan may overwrite the two
    arrays. -/

namespace Pscdrv.Sig

open Double

/-! ### Arrays -/

/-- A vector of which a pointer is kept: the number of its allocation is the place it is at. -/
structure Vec (α : Type) where
  alloc : ℕ
  capacity : ℕ
  data : List α

namespace Vec

variable {α : Type}

def empty : Vec α := ⟨0, 0, []⟩

/-- `resize()`; beyond the capacity the elements move. -/
def resize (fill : α) (n : ℕ) (v : Vec α) (fresh : ℕ) : Vec α × ℕ :=
  let data := v.data.take n ++ List.replicate (n - v.data.length) fill
  if n ≤ v.capacity then ({ v with data := data }, fresh)
  else (⟨fresh, max n (2 * v.data.length), data⟩, fresh + 1)

/-- The copy constructor. -/
def copy (v : Vec α) (fresh : ℕ) : Vec α × ℕ := (⟨fresh, v.data.length, v.data⟩, fresh + 1)

/-- One vector behind the other. -/
def each (f : Vec α → ℕ → Vec α × ℕ) : List (Vec α) → ℕ → List (Vec α) × ℕ
  | [], fresh => ([], fresh)
  | v :: vs, fresh =>
    ((f v fresh).1 :: (each f vs (f v fresh).2).1, (each f vs (f v fresh).2).2)

theorem length_data_resize (fill : α) (n : ℕ) (v : Vec α) (fresh : ℕ) :
    (v.resize fill n fresh).1.data.length = n := by
  have hdata : (v.data.take n ++ List.replicate (n - v.data.length) fill).length = n := by
    rw [List.length_append, List.length_take, List.length_replicate]
    omega
  unfold resize
  split
  · exact hdata
  · exact hdata

theorem length_each (f : Vec α → ℕ → Vec α × ℕ) (vs : List (Vec α)) (fresh : ℕ) :
    (each f vs fresh).1.length = vs.length := by
  induction vs generalizing fresh with
  | nil => rfl
  | cons v vs ih => rw [each, List.length_cons, List.length_cons, ih]

theorem mem_each {f : Vec α → ℕ → Vec α × ℕ} {vs : List (Vec α)} {fresh : ℕ} {v : Vec α}
    (h : v ∈ (each f vs fresh).1) : ∃ w k, v = (f w k).1 := by
  induction vs generalizing fresh with
  | nil => cases h
  | cons w vs ih =>
    rcases List.mem_cons.mp h with rfl | h
    · exact ⟨w, fresh, rfl⟩
    · exact ih h

/-- A vector of vectors that is resized, and then each of its elements. -/
theorem each_resize (fill : α) (n k : ℕ) (vs : List (Vec α)) (fresh : ℕ) :
    (each (resize fill k) (vs.take n ++ List.replicate (n - vs.length) empty) fresh).1.length = n ∧
      ∀ v ∈ (each (resize fill k) (vs.take n ++ List.replicate (n - vs.length) empty) fresh).1,
        v.data.length = k := by
  refine ⟨?_, fun v hv => ?_⟩
  · rw [length_each, List.length_append, List.length_take, List.length_replicate]
    omega
  · obtain ⟨w, j, rfl⟩ := mem_each hv
    exact length_data_resize fill k w j

end Vec

/-! ### The library -/

/-- `fftw_execute`: from `n` samples the real and the imaginary parts of `n / 2 + 1` frequencies. -/
structure Fftw (D : Type) where
  dft : List D → List (D × D)
  length_dft : ∀ samples, (dft samples).length = samples.length / 2 + 1

/-- `fftw_plan_dft_r2c_1d` with `FFTW_MEASURE`: what the plan of each bin leaves in the samples and
    in the frequencies it is made for. -/
structure Planner (D : Type) where
  input : ℕ → List D → List D
  output : ℕ → List (D × D) → List (D × D)
  length_input : ∀ i samples, (input i samples).length = samples.length
  length_output : ∀ i freqs, (output i freqs).length = freqs.length

/-- The pointers of a plan, for `n` samples from `offset` on. -/
structure Plan where
  input : ℕ
  offset : ℕ
  n : ℕ
  output : ℕ
  deriving DecidableEq

/-- The plans of the bins from `i` on, for the allocations of their outputs. -/
def plansFor (input ntime : ℕ) : ℕ → List ℕ → List Plan
  | _, [] => []
  | i, alloc :: allocs => ⟨input, i * ntime, ntime, alloc⟩ :: plansFor input ntime (i + 1) allocs

/-- What the plans of the bins from `i` on leave in their samples. -/
def Planner.overwrite {D : Type} (pl : Planner D) (ntime : ℕ) : ℕ → ℕ → List D → List D
  | _, 0, samples => samples
  | i, nbins + 1, samples =>
    pl.input i (samples.take ntime) ++ pl.overwrite ntime (i + 1) nbins (samples.drop ntime)

/-- And in their outputs. -/
def Planner.spoil {D : Type} (pl : Planner D) : ℕ → List (Vec (D × D)) → List (Vec (D × D))
  | _, [] => []
  | i, m :: middle => { m with data := pl.output i m.data } :: pl.spoil (i + 1) middle

/-! ### The data of a calculation -/

/-- `PSDCalc::Window`; the field is not initialised. -/
inductive Window where
  | none
  | hann
  | other (value : UInt32)
  deriving DecidableEq

/-- `struct PSDCalc`, with the number of the next allocation -/
structure PSDCalc (D : Type) where
  windowtype : Window
  window : List D
  outint : List D
  input : Vec D
  output : List D
  plans : List Plan
  middle : List (Vec (D × D))
  middleCapacity : ℕ
  fscale : List D
  totalpowertime : D
  totalpowerfreq : D
  nfft : UInt64
  fsamp : D
  mult : D
  replan : Bool
  newval : Bool
  fresh : ℕ

/-- The number of time samples per calculation. -/
def ntimeOf (nfft : UInt64) (size : ℕ) : ℕ := min nfft.toNat size

variable {D : Type} [Double D]

/-- The window over `size` samples. -/
def windowOf (windowtype : Window) (ntime size : ℕ) : List D :=
  match windowtype with
  | .hann =>
    let fact : D := PI / ofNat (ntime - 1)
    (List.range size).map fun n => let temp := Double.sin (fact * ofNat n); temp * temp
  | .none | .other _ => List.replicate size one

def mean (inp : List D) : D := inp.foldl (· + ·) zero / ofNat inp.length

/-- The samples with the mean removed, and scaled. -/
def scaled (mult : D) (inp : List D) : List D := inp.map fun x => (x - mean inp) / mult

/-- The prepared samples. -/
def prepared (mult : D) (win inp : List D) : List D := List.zipWith (· * ·) (scaled mult inp) win

def powertime (mult : D) (inp : List D) : D :=
  (scaled mult inp).foldl (fun totp temp => totp + temp * temp) zero / ofNat inp.length

def fscaleOf (fsamp : D) (ntime : ℕ) : List D :=
  let mult := fsamp / ofNat ntime
  (List.range (ntime / 2)).map fun i => ofNat (i + 1) * mult

/-- The squares of all bins, summed by frequency; the frequency 0 is left out. -/
def sumBins (nfreq : ℕ) (middle : List (List (D × D))) : List D :=
  middle.foldl
    (fun out mid => List.zipWith (fun o m => o + (m.1 * m.1 + m.2 * m.2)) out (mid.drop 1))
    (List.replicate (nfreq - 1) zero)

/-- The running total of the powers: at the end of each, and behind the last one. -/
def integrate (fsamp : D) : D → List D → List D × D
  | total, [] => ([], total)
  | total, temp :: out =>
    (Double.sqrt ((total + temp) / fsamp) * ofNat 1000 :: (integrate fsamp (total + temp) out).1,
      (integrate fsamp (total + temp) out).2)

/-- 2 / (ntime² · nbins), with the product of a `size_t` -/
def factorOf (ntime nbins : ℕ) : D := ofNat 2 / ofNat (ntime * ntime * nbins % 2 ^ 64)

namespace PSDCalc

/-- `PSDCalc::PSDCalc` -/
def init (windowtype : Window) : PSDCalc D where
  windowtype := windowtype
  window := []
  outint := []
  input := .empty
  output := []
  plans := []
  middle := []
  middleCapacity := 0
  fscale := []
  totalpowertime := zero
  totalpowerfreq := zero
  nfft := 0
  fsamp := zero
  mult := zero
  replan := true
  newval := true
  fresh := 1

/-- `PSDCalc::set_nfft` -/
def set_nfft (c : PSDCalc D) (n : UInt64) : PSDCalc D × Bool :=
  if n ≠ c.nfft then ({ c with nfft := n, replan := true }, true) else (c, false)

/-- `PSDCalc::set_fsamp` -/
def set_fsamp (c : PSDCalc D) (f : D) : PSDCalc D × Bool :=
  if Double.eq c.fsamp f then (c, false) else ({ c with fsamp := f, replan := true }, true)

/-- The multiplier 0 stands for 1. -/
def multOf (mult : D) : D := if Double.eq mult zero then one else mult

/-- `PSDCalc::set_input` -/
def set_input (c : PSDCalc D) (p : List D) (mult : D) : PSDCalc D × Bool :=
  let mult := multOf mult
  if p.length ≠ c.input.data.length ∨ Double.eq mult c.mult = false then
    let (input, fresh) := c.input.resize zero p.length c.fresh
    ({ c with
        input := { input with data := p }
        fresh := fresh
        mult := mult
        replan := true
        newval := true }, true)
  else ({ c with input := { c.input with data := p }, newval := true }, false)

def ntime (c : PSDCalc D) : ℕ := ntimeOf c.nfft c.input.data.length

def nfreq (c : PSDCalc D) : ℕ := c.ntime / 2 + 1

def nbins (c : PSDCalc D) : ℕ := c.input.data.length / c.ntime

/-- The first stage of `PSDCalc::calculate`. -/
def makeWindow (c : PSDCalc D) : PSDCalc D :=
  if c.replan then { c with window := windowOf c.windowtype c.ntime c.input.data.length } else c

/-- The second one; the window has to be as long as the input. -/
def prepareInput (c : PSDCalc D) : Option (PSDCalc D) :=
  if c.newval then
    if c.window.length < c.input.data.length then none
    else some { c with
      input := { c.input with data := prepared c.mult c.window c.input.data }
      totalpowertime := powertime c.mult c.input.data
      newval := false }
  else some c

/-- `middle.resize(nbins)` and the `middle[i].resize(nfreq)`: a vector of vectors that grows beyond
    its capacity copies its elements. -/
def resizeMiddle (c : PSDCalc D) : List (Vec (D × D)) × ℕ × ℕ :=
  let (middle, capacity, fresh) :=
    if c.nbins ≤ c.middleCapacity then (c.middle, c.middleCapacity, c.fresh)
    else
      let (middle, fresh) := Vec.each Vec.copy c.middle c.fresh
      (middle, max c.nbins (2 * c.middle.length), fresh)
  let middle := middle.take c.nbins ++ List.replicate (c.nbins - middle.length) Vec.empty
  let (middle, fresh) := Vec.each (Vec.resize (zero, zero) c.nfreq) middle fresh
  (middle, capacity, fresh)

/-- The third one. -/
def makePlans (pl : Planner D) (c : PSDCalc D) : PSDCalc D :=
  if c.replan then
    let (middle, capacity, fresh) := c.resizeMiddle
    { c with
      output := c.output.take (c.nfreq - 1) ++
        List.replicate (c.nfreq - 1 - c.output.length) zero
      outint := c.outint.take (c.nfreq - 1) ++
        List.replicate (c.nfreq - 1 - c.outint.length) zero
      fscale := fscaleOf c.fsamp c.ntime
      plans := plansFor c.input.alloc c.ntime 0 (middle.map Vec.alloc)
      input := { c.input with data := pl.overwrite c.ntime 0 c.nbins c.input.data }
      middle := pl.spoil 0 middle
      middleCapacity := capacity
      fresh := fresh
      replan := false }
  else c

/-- What `fftw_execute` finds: the arrays have not moved, and hold enough. -/
def Points (input : Vec D) (p : Plan) (m : Vec (D × D)) : Prop :=
  p.input = input.alloc ∧ p.offset + p.n ≤ input.data.length ∧ p.output = m.alloc ∧
    p.n / 2 + 1 ≤ m.data.length

instance (input : Vec D) (p : Plan) (m : Vec (D × D)) : Decidable (Points input p m) :=
  inferInstanceAs (Decidable (_ ∧ _ ∧ _ ∧ _))

/-- `fftw_execute` for every bin. -/
def execute (F : Fftw D) (input : Vec D) :
    List Plan → List (Vec (D × D)) → Option (List (Vec (D × D)))
  | p :: plans, m :: middle =>
    if Points input p m then
      let freqs := F.dft ((input.data.drop p.offset).take p.n)
      (execute F input plans middle).map
        ({ m with data := freqs ++ m.data.drop freqs.length } :: ·)
    else none
  | [], middle => some middle
  | _ :: _, [] => none

/-- What follows the execution of the plans. -/
def postProcess (c : PSDCalc D) : PSDCalc D :=
  let out := (sumBins c.nfreq (c.middle.map Vec.data)).map (· * factorOf c.ntime c.nbins)
  { c with
    output := out
    outint := (integrate c.fsamp zero out).1
    totalpowerfreq := (integrate c.fsamp zero out).2 }

/-- The last stage; the assertions come first. -/
def transform (F : Fftw D) (c : PSDCalc D) : Option (PSDCalc D) :=
  if c.plans.length = c.nbins ∧ c.middle.length = c.nbins ∧ c.output.length = c.nfreq - 1 then
    (execute F c.input c.plans c.middle).map fun middle => { c with middle := middle }.postProcess
  else none

/-- `calculate` returns at once. -/
def Idle (c : PSDCalc D) : Prop := c.input.data = [] ∨ c.nfft = 0

instance (c : PSDCalc D) : Decidable c.Idle :=
  decidable_of_iff (c.input.data.isEmpty = true ∨ c.nfft = 0)
    (or_congr_left List.isEmpty_iff)

/-- All that comes before the execution of the plans. -/
def staged (pl : Planner D) (c : PSDCalc D) : Option (PSDCalc D) :=
  c.makeWindow.prepareInput.map (makePlans pl)

/-- `PSDCalc::calculate`; a fault is an assertion that fails, or an access outside of an array. -/
def calculate (F : Fftw D) (pl : Planner D) (c : PSDCalc D) : Option (PSDCalc D) :=
  if c.Idle then some c else (c.staged pl).bind (transform F)

end PSDCalc

end Pscdrv.Sig
