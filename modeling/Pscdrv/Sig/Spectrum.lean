import Pscdrv.Sig.PsdCalc

/-! # What a calculation gives

    The spectrum of some samples is a function of the samples and of four parameters. A `PSDCalc`
    keeps a window, plans, arrays and a frequency scale from one call to the next; as long as they
    match its parameters, a call with new samples gives that function of them.

        set_nfft, set_fsamp   ──▶ replan                ┐
        set_input             ──▶ newval, and replan    ├──▶ calculate ──▶ spectrum
                                  if the size changed   ┘ -/

namespace Pscdrv.Sig

open Double

/-- What a calculation is made from. -/
structure Params (D : Type) where
  input : List D
  nfft : UInt64
  fsamp : D
  mult : D
  windowtype : Window

/-- And what it gives. -/
structure Spectrum (D : Type) where
  output : List D
  outint : List D
  fscale : List D
  totalpowertime : D
  totalpowerfreq : D

variable {D : Type}

/-- The first `nbins` bins of `ntime` samples each. -/
def bins (ntime : ℕ) : ℕ → List D → List (List D)
  | 0, _ => []
  | nbins + 1, samples => samples.take ntime :: bins ntime nbins (samples.drop ntime)

theorem Planner.length_overwrite (pl : Planner D) (ntime i nbins : ℕ) (samples : List D) :
    (pl.overwrite ntime i nbins samples).length = samples.length := by
  induction nbins generalizing i samples with
  | zero => rfl
  | succ nbins ih =>
    rw [Planner.overwrite, List.length_append, pl.length_input, ih, ← List.length_append,
      List.take_append_drop]

theorem Planner.length_spoil (pl : Planner D) (i : ℕ) (middle : List (Vec (D × D))) :
    (pl.spoil i middle).length = middle.length := by
  induction middle generalizing i with
  | nil => rfl
  | cons m middle ih => rw [Planner.spoil, List.length_cons, List.length_cons, ih]

theorem Planner.alloc_spoil (pl : Planner D) (i : ℕ) (middle : List (Vec (D × D))) :
    (pl.spoil i middle).map Vec.alloc = middle.map Vec.alloc := by
  induction middle generalizing i with
  | nil => rfl
  | cons m middle ih => rw [Planner.spoil, List.map_cons, List.map_cons, ih]

theorem Planner.size_spoil (pl : Planner D) {i n : ℕ} {middle : List (Vec (D × D))}
    (h : ∀ m ∈ middle, m.data.length = n) : ∀ m ∈ pl.spoil i middle, m.data.length = n := by
  induction middle generalizing i with
  | nil => exact List.forall_mem_nil _
  | cons m middle ih =>
    obtain ⟨hm, hrest⟩ := List.forall_mem_cons.mp h
    exact List.forall_mem_cons.mpr ⟨(pl.length_output i m.data).trans hm, ih hrest⟩

theorem length_plansFor (input ntime i : ℕ) (allocs : List ℕ) :
    (plansFor input ntime i allocs).length = allocs.length := by
  induction allocs generalizing i with
  | nil => rfl
  | cons a allocs ih => rw [plansFor, List.length_cons, List.length_cons, ih]

variable [Double D]

/-- The powers of the frequencies above 0, in all bins of the samples. -/
def powers (F : Fftw D) (ntime : ℕ) (samples : List D) : List D :=
  let nbins := samples.length / ntime
  (sumBins (ntime / 2 + 1) ((bins ntime nbins samples).map F.dft)).map (· * factorOf ntime nbins)

/-- The spectrum; new plans that `pl` makes may have overwritten the prepared samples. -/
def spectrum (F : Fftw D) (pl : Option (Planner D)) (p : Params D) : Spectrum D :=
  let size := p.input.length
  let ntime := ntimeOf p.nfft size
  let mult := PSDCalc.multOf p.mult
  let samples := prepared mult (windowOf p.windowtype ntime size) p.input
  let samples := match pl with
    | some pl => pl.overwrite ntime 0 (size / ntime) samples
    | none => samples
  let out := powers F ntime samples
  { output := out
    outint := (integrate p.fsamp zero out).1
    fscale := fscaleOf p.fsamp ntime
    totalpowertime := powertime mult p.input
    totalpowerfreq := (integrate p.fsamp zero out).2 }

theorem length_windowOf (windowtype : Window) (ntime size : ℕ) :
    (windowOf windowtype ntime size : List D).length = size := by
  unfold windowOf
  split
  · rw [List.length_map, List.length_range]
  · exact List.length_replicate
  · exact List.length_replicate

theorem length_prepared (mult : D) {win inp : List D} (h : win.length = inp.length) :
    (prepared mult win inp).length = inp.length := by
  rw [prepared, List.length_zipWith, scaled, List.length_map, h, Nat.min_self]

theorem length_sumBins {nfreq : ℕ} {middle : List (List (D × D))}
    (h : ∀ mid ∈ middle, mid.length = nfreq) : (sumBins nfreq middle).length = nfreq - 1 := by
  unfold sumBins
  suffices hfold : ∀ out : List D, out.length = nfreq - 1 →
      (middle.foldl (fun out mid =>
        List.zipWith (fun o m => o + (m.1 * m.1 + m.2 * m.2)) out (mid.drop 1)) out).length =
          nfreq - 1 from hfold _ List.length_replicate
  induction middle with
  | nil => exact fun out hout => hout
  | cons mid middle ih =>
    intro out hout
    obtain ⟨hmid, hrest⟩ := List.forall_mem_cons.mp h
    refine ih hrest _ ?_
    rw [List.length_zipWith, List.length_drop, hmid, hout, Nat.min_self]

theorem length_integrate (fsamp total : D) (out : List D) :
    (integrate fsamp total out).1.length = out.length := by
  induction out generalizing total with
  | nil => rfl
  | cons temp out ih => rw [integrate, List.length_cons, List.length_cons, ih]

namespace PSDCalc

/-! ### What matches the parameters -/

/-- All that is kept from one call to the next matches the parameters, and the plans point into the
    arrays as they are. -/
structure Planned (c : PSDCalc D) : Prop where
  window : c.window = windowOf c.windowtype c.ntime c.input.data.length
  plans : c.plans = plansFor c.input.alloc c.ntime 0 (c.middle.map Vec.alloc)
  middle : c.middle.length = c.nbins
  sizes : ∀ m ∈ c.middle, m.data.length = c.nfreq
  output : c.output.length = c.nfreq - 1
  fscale : c.fscale = fscaleOf c.fsamp c.ntime

/-- Unless new plans are due, what is kept matches. -/
def Kept (c : PSDCalc D) : Prop := c.replan = false → c.Planned

variable {c : PSDCalc D} {pl : Planner D}

/-- The numbers of a state of the same `nfft` with as many samples. -/
theorem Planned.of {e : PSDCalc D} (hnfft : e.nfft = c.nfft)
    (hsize : e.input.data.length = c.input.data.length)
    (window : e.window = windowOf e.windowtype c.ntime c.input.data.length)
    (plans : e.plans = plansFor e.input.alloc c.ntime 0 (e.middle.map Vec.alloc))
    (middle : e.middle.length = c.nbins) (sizes : ∀ m ∈ e.middle, m.data.length = c.nfreq)
    (output : e.output.length = c.nfreq - 1) (fscale : e.fscale = fscaleOf e.fsamp c.ntime) :
    e.Planned := by
  have hntime : e.ntime = c.ntime := by rw [ntime, ntime, hnfft, hsize]
  have hnbins : e.nbins = c.nbins := by rw [nbins, nbins, hntime, hsize]
  have hnfreq : e.nfreq = c.nfreq := by rw [nfreq, nfreq, hntime]
  exact ⟨by rw [hntime, hsize, window], by rw [hntime, plans], hnbins ▸ middle,
    hnfreq ▸ sizes, hnfreq ▸ output, by rw [hntime, fscale]⟩

/-- What matches does not depend on the samples, but for their number. -/
theorem Planned.congr {e : PSDCalc D} (h : c.Planned) (hnfft : e.nfft = c.nfft)
    (hsize : e.input.data.length = c.input.data.length) (halloc : e.input.alloc = c.input.alloc)
    (hwindowtype : e.windowtype = c.windowtype) (hwindow : e.window = c.window)
    (hplans : e.plans = c.plans) (hmiddle : e.middle.map Vec.alloc = c.middle.map Vec.alloc)
    (hsizes : ∀ m ∈ e.middle, m.data.length = c.nfreq) (houtput : e.output.length = c.output.length)
    (hfscale : e.fscale = c.fscale) (hfsamp : e.fsamp = c.fsamp) : e.Planned := by
  have hlength := congrArg List.length hmiddle
  rw [List.length_map, List.length_map] at hlength
  exact .of hnfft hsize (by rw [hwindow, hwindowtype, h.window])
    (by rw [hplans, hmiddle, halloc, h.plans]) (hlength.trans h.middle) hsizes
    (houtput.trans h.output) (by rw [hfscale, hfsamp, h.fscale])

/-- The plans, the arrays and the scale that are made anew. -/
theorem resizeMiddle_spec (c : PSDCalc D) :
    c.resizeMiddle.1.length = c.nbins ∧ ∀ m ∈ c.resizeMiddle.1, m.data.length = c.nfreq := by
  unfold resizeMiddle
  dsimp only
  split
  · exact Vec.each_resize (zero, zero) c.nbins c.nfreq _ _
  · exact Vec.each_resize (zero, zero) c.nbins c.nfreq _ _

/-- The window of the current parameters. -/
def win (c : PSDCalc D) : List D := windowOf c.windowtype c.ntime c.input.data.length

/-- The input when the plans are executed. -/
def stagedInput (c : PSDCalc D) (pl : Planner D) : List D :=
  let samples := if c.newval then prepared c.mult c.win c.input.data else c.input.data
  if c.replan then pl.overwrite c.ntime 0 c.nbins samples else samples

/-- From `c` to `e` the stages before the execution are done. -/
structure Staged (pl : Planner D) (c e : PSDCalc D) : Prop where
  planned : e.Planned
  replan : e.replan = false
  newval : e.newval = false
  nfft : e.nfft = c.nfft
  fsamp : e.fsamp = c.fsamp
  mult : e.mult = c.mult
  windowtype : e.windowtype = c.windowtype
  size : e.input.data.length = c.input.data.length
  input : e.input.data = c.stagedInput pl
  totalpowertime : e.totalpowertime =
    if c.newval then powertime c.mult c.input.data else c.totalpowertime

/-- The first stage leaves the window of the current parameters. -/
theorem makeWindow_eq (h : c.Kept) : c.makeWindow = { c with window := c.win } := by
  unfold makeWindow
  split
  · rfl
  · rename_i hreplan
    rw [win, ← (h (Bool.eq_false_iff.mpr hreplan)).window]

/-- The second one does not fault, and changes the samples, their power and the flag. -/
theorem prepareInput_eq (h : c.Kept) : c.makeWindow.prepareInput = some { c with
    window := c.win
    input := { c.input with
      data := if c.newval then prepared c.mult c.win c.input.data else c.input.data }
    totalpowertime := if c.newval then powertime c.mult c.input.data else c.totalpowertime
    newval := false } := by
  have hlen : ¬c.win.length < c.input.data.length := by
    rw [win, length_windowOf]
    omega
  rw [makeWindow_eq h]
  unfold prepareInput
  dsimp only
  cases hnew : c.newval with
  | true => rw [if_pos rfl, if_neg hlen, if_pos rfl, if_pos rfl]
  | false => rw [if_neg Bool.false_ne_true, if_neg Bool.false_ne_true, if_neg Bool.false_ne_true]

/-- The third stage leaves all that matches the parameters. -/
theorem makePlans_planned (hwin : c.window = windowOf c.windowtype c.ntime c.input.data.length)
    (h : c.Kept) : (c.makePlans pl).Planned := by
  unfold makePlans
  split
  · obtain ⟨hlength, hsizes⟩ := resizeMiddle_spec c
    have houtput : (c.output.take (c.nfreq - 1) ++
        List.replicate (c.nfreq - 1 - c.output.length) zero).length = c.nfreq - 1 := by
      rw [List.length_append, List.length_take, List.length_replicate]
      omega
    exact .of (c := c) rfl (pl.length_overwrite c.ntime 0 c.nbins c.input.data) hwin
      (congrArg _ (pl.alloc_spoil 0 _).symm) ((pl.length_spoil 0 _).trans hlength)
      (pl.size_spoil hsizes) houtput rfl
  · rename_i hreplan
    exact h (Bool.eq_false_iff.mpr hreplan)

@[simp] theorem makePlans_replan : (c.makePlans pl).replan = false := by
  unfold makePlans
  split
  · rfl
  · rename_i hreplan
    exact Bool.eq_false_iff.mpr hreplan

/-- The samples alone of what the third stage is given may change. -/
theorem makePlans_input : (c.makePlans pl).input.data =
    if c.replan then pl.overwrite c.ntime 0 c.nbins c.input.data else c.input.data := by
  unfold makePlans
  split <;> rfl

section MakePlans

variable (c pl)

@[simp] theorem makePlans_nfft : (c.makePlans pl).nfft = c.nfft := by
  unfold makePlans
  split <;> rfl

@[simp] theorem makePlans_fsamp : (c.makePlans pl).fsamp = c.fsamp := by
  unfold makePlans
  split <;> rfl

@[simp] theorem makePlans_mult : (c.makePlans pl).mult = c.mult := by
  unfold makePlans
  split <;> rfl

@[simp] theorem makePlans_windowtype : (c.makePlans pl).windowtype = c.windowtype := by
  unfold makePlans
  split <;> rfl

@[simp] theorem makePlans_window : (c.makePlans pl).window = c.window := by
  unfold makePlans
  split <;> rfl

@[simp] theorem makePlans_newval : (c.makePlans pl).newval = c.newval := by
  unfold makePlans
  split <;> rfl

@[simp] theorem makePlans_totalpowertime :
    (c.makePlans pl).totalpowertime = c.totalpowertime := by
  unfold makePlans
  split <;> rfl

end MakePlans

/-- STAGED: as long as what is kept matches, the stages before the execution do not fault. -/
theorem staged_spec (pl : Planner D) (h : c.Kept) : ∃ e, c.staged pl = some e ∧ Staged pl c e := by
  have hprep := prepareInput_eq h
  generalize hd : PSDCalc.mk .. = d at hprep
  have hsize : d.input.data.length = c.input.data.length := by
    rw [← hd]
    dsimp only
    split
    · exact length_prepared _ (length_windowOf ..)
    · rfl
  have hntime : d.ntime = c.ntime := by
    rw [ntime, hsize, ← hd]
    rfl
  have hwin : d.window = windowOf d.windowtype d.ntime d.input.data.length := by
    rw [hntime, hsize, ← hd]
    rfl
  have hkept : d.Kept := by
    intro hreplan
    subst hd
    have hc := h hreplan
    exact hc.congr rfl hsize rfl rfl hc.window.symm rfl rfl hc.sizes rfl rfl rfl
  have hinput : (d.makePlans pl).input.data = c.stagedInput pl := by
    rw [makePlans_input, hntime, nbins, hsize, hntime, ← hd]
    rfl
  have hsize' : (d.makePlans pl).input.data.length = c.input.data.length := by
    rw [makePlans_input]
    split
    · rw [pl.length_overwrite, hsize]
    · exact hsize
  refine ⟨d.makePlans pl, by rw [staged, hprep, Option.map_some], ?_⟩
  subst hd
  exact {
    planned := makePlans_planned hwin hkept
    replan := makePlans_replan
    newval := makePlans_newval _ _
    nfft := makePlans_nfft _ _
    fsamp := makePlans_fsamp _ _
    mult := makePlans_mult _ _
    windowtype := makePlans_windowtype _ _
    size := hsize'
    input := hinput
    totalpowertime := makePlans_totalpowertime _ _ }

/-! ### The settings -/

/-- From `c` to `e` a setting is made: new plans are due if that is a change. -/
structure Sets (c e : PSDCalc D) (changed : Bool) : Prop where
  kept : c.Kept → e.Kept
  output : e.output = c.output
  outint : e.outint = c.outint
  fscale : e.fscale = c.fscale
  replan : changed = false → e.replan = c.replan
  size : changed = false → e.input.data.length = c.input.data.length

theorem Sets.refl (c : PSDCalc D) : Sets c c false :=
  ⟨fun h => h, rfl, rfl, rfl, fun _ => rfl, fun _ => rfl⟩

theorem Sets.trans {e f : PSDCalc D} {a b : Bool} (h : Sets c e a) (k : Sets e f b) :
    Sets c f (a || b) where
  kept hc := k.kept (h.kept hc)
  output := k.output.trans h.output
  outint := k.outint.trans h.outint
  fscale := k.fscale.trans h.fscale
  replan hab :=
    have hboth := Bool.or_eq_false_iff.mp hab
    (k.replan hboth.2).trans (h.replan hboth.1)
  size hab :=
    have hboth := Bool.or_eq_false_iff.mp hab
    (k.size hboth.2).trans (h.size hboth.1)

/-- A change after which new plans are due. -/
theorem Sets.of_replan {e : PSDCalc D} (hreplan : e.replan = true) (houtput : e.output = c.output)
    (houtint : e.outint = c.outint) (hfscale : e.fscale = c.fscale) : Sets c e true :=
  ⟨fun _ h => Bool.noConfusion (hreplan.symm.trans h), houtput, houtint, hfscale,
    Bool.noConfusion, Bool.noConfusion⟩

section Settings

variable (c) (n : UInt64) (f mult : D) (p : List D)

theorem set_nfft_sets : Sets c (c.set_nfft n).1 (c.set_nfft n).2 := by
  unfold set_nfft
  split
  · exact .of_replan rfl rfl rfl rfl
  · exact .refl c

theorem set_fsamp_sets : Sets c (c.set_fsamp f).1 (c.set_fsamp f).2 := by
  unfold set_fsamp
  split
  · exact .refl c
  · exact .of_replan rfl rfl rfl rfl

theorem set_input_sets : Sets c (c.set_input p mult).1 (c.set_input p mult).2 := by
  unfold set_input
  dsimp only
  split
  · exact .of_replan rfl rfl rfl rfl
  · rename_i hsame
    have hsize : p.length = c.input.data.length := not_not.mp (not_or.mp hsame).1
    refine ⟨fun h hreplan => ?_, rfl, rfl, rfl, fun _ => rfl, fun _ => hsize⟩
    exact (h hreplan).congr rfl hsize rfl rfl rfl rfl rfl (h hreplan).sizes rfl rfl rfl

omit [Double D] in
@[simp] theorem set_nfft_nfft : (c.set_nfft n).1.nfft = n := by
  unfold set_nfft
  split
  · rfl
  · rename_i h
    exact (not_not.mp h).symm

omit [Double D] in
@[simp] theorem set_nfft_fsamp : (c.set_nfft n).1.fsamp = c.fsamp := by
  unfold set_nfft
  split <;> rfl

omit [Double D] in
@[simp] theorem set_nfft_windowtype : (c.set_nfft n).1.windowtype = c.windowtype := by
  unfold set_nfft
  split <;> rfl

/-- A sampling frequency above 0 is taken over. -/
theorem set_fsamp_fsamp (h : Double.le f zero = false) : (c.set_fsamp f).1.fsamp = f := by
  unfold set_fsamp
  split
  · rename_i heq
    exact eq_of_pos heq h
  · rfl

@[simp] theorem set_fsamp_windowtype : (c.set_fsamp f).1.windowtype = c.windowtype := by
  unfold set_fsamp
  split <;> rfl

@[simp] theorem set_input_data : (c.set_input p mult).1.input.data = p := by
  unfold set_input
  dsimp only
  split <;> rfl

@[simp] theorem set_input_newval : (c.set_input p mult).1.newval = true := by
  unfold set_input
  dsimp only
  split <;> rfl

@[simp] theorem set_input_nfft : (c.set_input p mult).1.nfft = c.nfft := by
  unfold set_input
  dsimp only
  split <;> rfl

@[simp] theorem set_input_fsamp : (c.set_input p mult).1.fsamp = c.fsamp := by
  unfold set_input
  dsimp only
  split <;> rfl

@[simp] theorem set_input_windowtype : (c.set_input p mult).1.windowtype = c.windowtype := by
  unfold set_input
  dsimp only
  split <;> rfl

theorem multOf_ne_zero : Double.eq (multOf mult) zero = false := by
  unfold multOf
  split
  · exact one_ne_zero
  · rename_i h
    exact Bool.eq_false_iff.mpr h

/-- The multiplier is taken over, 1 for 0. -/
@[simp] theorem set_input_mult : (c.set_input p mult).1.mult = multOf mult := by
  unfold set_input
  dsimp only
  split
  · rfl
  · rename_i hsame
    have heq : Double.eq (multOf mult) c.mult = true := by
      rw [← Bool.not_eq_false]
      exact (not_or.mp hsame).2
    rcases eq_or_zero heq with h | ⟨h, -⟩
    · exact h.symm
    · exact Bool.noConfusion ((multOf_ne_zero mult).symm.trans h)

end Settings

/-! ### The execution -/

omit [Double D] in
/-- The plans for arrays that are where they were made are executed, and give the transforms of
    the bins. -/
theorem execute_bins (F : Fftw D) (input : Vec D) (ntime : ℕ) {k : ℕ} {middle : List (Vec (D × D))}
    (hin : (k + middle.length) * ntime ≤ input.data.length)
    (hsizes : ∀ m ∈ middle, m.data.length = ntime / 2 + 1) :
    ∃ middle', execute F input (plansFor input.alloc ntime k (middle.map Vec.alloc)) middle =
        some middle' ∧
      middle'.map Vec.alloc = middle.map Vec.alloc ∧
      middle'.map Vec.data =
        (bins ntime middle.length (input.data.drop (k * ntime))).map F.dft ∧
      ∀ m ∈ middle', m.data.length = ntime / 2 + 1 := by
  induction middle generalizing k with
  | nil => exact ⟨[], rfl, rfl, rfl, List.forall_mem_nil _⟩
  | cons m middle ih =>
    obtain ⟨hm, hrest⟩ := List.forall_mem_cons.mp hsizes
    rw [List.length_cons, ← Nat.add_assoc, Nat.add_right_comm] at hin
    obtain ⟨middle', hexec, halloc, hdata, hsizes'⟩ := ih hin hrest
    have hbin : k * ntime + ntime ≤ input.data.length := by
      have hle : (k + 1) * ntime ≤ (k + 1 + middle.length) * ntime :=
        Nat.mul_le_mul_right _ (Nat.le_add_right _ _)
      rw [Nat.succ_mul] at hle
      omega
    have hpoints : Points input ⟨input.alloc, k * ntime, ntime, m.alloc⟩ m :=
      ⟨rfl, hbin, rfl, hm.ge⟩
    have hfreqs : (F.dft ((input.data.drop (k * ntime)).take ntime)).length = m.data.length := by
      rw [F.length_dft, List.length_take, List.length_drop, hm, Nat.min_eq_left (by omega)]
    have hall : F.dft ((input.data.drop (k * ntime)).take ntime) ++
        m.data.drop (F.dft ((input.data.drop (k * ntime)).take ntime)).length =
        F.dft ((input.data.drop (k * ntime)).take ntime) := by
      rw [hfreqs, List.drop_length, List.append_nil]
    refine ⟨{ m with data := F.dft ((input.data.drop (k * ntime)).take ntime) } :: middle',
      ?_, ?_, ?_, List.forall_mem_cons.mpr ⟨hfreqs.trans hm, hsizes'⟩⟩
    · rw [List.map_cons, plansFor, execute, if_pos hpoints, hexec, Option.map_some]
      dsimp only
      rw [hall]
    · rw [List.map_cons, List.map_cons, halloc]
    · rw [List.map_cons, hdata, List.length_cons, bins, List.map_cons, List.drop_drop,
        ← Nat.succ_mul]

omit [Double D] in
/-- The bins lie within the samples. -/
theorem nbins_mul_le (c : PSDCalc D) : c.nbins * c.ntime ≤ c.input.data.length :=
  Nat.div_mul_le_self _ _

/-- TRANSFORMED: the plans are executed on the samples as they are, and what is kept still
    matches. -/
theorem transform_spec (F : Fftw D) (h : c.Planned) :
    ∃ middle, c.transform F = some ({ c with middle := middle }.postProcess) ∧
      ({ c with middle := middle }.postProcess).Planned ∧
      ({ c with middle := middle }.postProcess).output = powers F c.ntime c.input.data := by
  have hin : (0 + c.middle.length) * c.ntime ≤ c.input.data.length := by
    rw [Nat.zero_add, h.middle]
    exact c.nbins_mul_le
  obtain ⟨middle, hexec, halloc, hdata, hsizes⟩ := execute_bins F c.input c.ntime hin h.sizes
  rw [← h.plans] at hexec
  have hplans : c.plans.length = c.nbins := by
    rw [h.plans, length_plansFor, List.length_map, h.middle]
  have hsum : (sumBins c.nfreq (middle.map Vec.data)).length = c.nfreq - 1 := by
    refine length_sumBins fun mid hmid => ?_
    obtain ⟨m, hm, rfl⟩ := List.mem_map.mp hmid
    exact hsizes m hm
  have hout : ({ c with middle := middle }.postProcess).output = powers F c.ntime c.input.data := by
    rw [Nat.zero_mul, List.drop_zero, h.middle] at hdata
    rw [postProcess]
    dsimp only
    rw [hdata]
    rfl
  refine ⟨middle, ?_, ?_, hout⟩
  · rw [transform, if_pos ⟨hplans, h.middle, h.output⟩, hexec, Option.map_some]
  · refine h.congr rfl rfl rfl rfl rfl rfl halloc hsizes ?_ rfl rfl
    rw [postProcess, List.length_map, h.output]
    exact hsum

/-! ### The whole call -/

/-- The call is about the samples and the parameters `p`. -/
structure About (c : PSDCalc D) (p : Params D) : Prop where
  input : c.input.data = p.input
  nfft : c.nfft = p.nfft
  fsamp : c.fsamp = p.fsamp
  mult : c.mult = multOf p.mult
  windowtype : c.windowtype = p.windowtype

/-- What a call leaves to be read. -/
def result (c : PSDCalc D) : Spectrum D :=
  ⟨c.output, c.outint, c.fscale, c.totalpowertime, c.totalpowerfreq⟩

/-- From `c` to `t` a calculation is made, and what is kept matches. -/
structure Calculated (F : Fftw D) (pl : Planner D) (p : Params D) (c t : PSDCalc D) : Prop where
  planned : t.Planned
  replan : t.replan = false
  newval : t.newval = false
  nfft : t.nfft = c.nfft
  fsamp : t.fsamp = c.fsamp
  mult : t.mult = c.mult
  windowtype : t.windowtype = c.windowtype
  size : t.input.data.length = c.input.data.length
  result : t.result = spectrum F (if c.replan then some pl else none) p

/-- The samples that are transformed. -/
theorem stagedInput_eq (pl : Planner D) {p : Params D} (hnew : c.newval = true) (hp : c.About p) :
    c.stagedInput pl =
      match (if c.replan then some pl else none) with
      | some pl => pl.overwrite c.ntime 0 c.nbins (prepared (multOf p.mult) c.win p.input)
      | none => prepared (multOf p.mult) c.win p.input := by
  rw [stagedInput, if_pos hnew, hp.mult, hp.input]
  cases c.replan <;> rfl

/-- SPECTRUM: a call with new samples gives the spectrum of these and of the parameters. -/
theorem calculate_spec (F : Fftw D) (pl : Planner D) {p : Params D} (h : c.Kept) (hidle : ¬c.Idle)
    (hnew : c.newval = true) (hp : c.About p) :
    ∃ t, c.calculate F pl = some t ∧ Calculated F pl p c t := by
  obtain ⟨e, hstaged, he⟩ := staged_spec pl h
  obtain ⟨middle, htransform, hplanned, hout⟩ := transform_spec F he.planned
  have hntime : e.ntime = c.ntime := by rw [ntime, ntime, he.nfft, he.size]
  have hsamples := he.input.trans (stagedInput_eq pl hnew hp)
  have hresult : ({ e with middle := middle }.postProcess).result =
      { output := powers F c.ntime e.input.data
        outint := (integrate p.fsamp zero (powers F c.ntime e.input.data)).1
        fscale := fscaleOf p.fsamp c.ntime
        totalpowertime := powertime (multOf p.mult) p.input
        totalpowerfreq := (integrate p.fsamp zero (powers F c.ntime e.input.data)).2 } := by
    rw [hntime] at hout
    have htime := he.totalpowertime
    rw [if_pos hnew] at htime
    rw [← hout, ← hp.fsamp, ← he.fsamp, ← hntime, ← he.planned.fscale, ← hp.mult, ← hp.input,
      ← htime]
    rfl
  refine ⟨{ e with middle := middle }.postProcess, ?_, {
    planned := hplanned
    replan := he.replan
    newval := he.newval
    nfft := he.nfft
    fsamp := he.fsamp
    mult := he.mult
    windowtype := he.windowtype
    size := he.size
    result := ?_ }⟩
  · rw [calculate, if_neg hidle, hstaged, Option.bind_some, htransform]
  · rw [hresult, hsamples, nbins, win, ntime, hp.input, hp.nfft, hp.windowtype]
    cases c.replan <;> rfl

end PSDCalc

end Pscdrv.Sig
