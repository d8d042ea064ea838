import Pscdrv.Sig.Run

/-! # What the plans are executed on

    `calculate` prepares the samples before it makes plans, and to make a plan with `FFTW_MEASURE`
    may overwrite the samples the plan is for. Without new samples it does not prepare them again,
    although a change of `nfft` may also have changed the window.

        new size, nfft, …   prepare ──▶ plan ──▶ execute      of what planning left
        new samples         prepare ──────────▶ execute      of the prepared samples
        new nfft only                   plan ──▶ execute      of samples with the old window -/

namespace Pscdrv.Sig

open Double Run PSDCalc

/-- A call of one of the functions, or the assignment of the window's type in `Calc::run`. -/
inductive Call (D : Type) where
  | setNfft (n : UInt64)
  | setFsamp (f : D)
  | setWindowtype (windowtype : Window)
  | setInput (p : List D) (mult : D)
  | calculate (pl : Planner D)

variable {D : Type} [Double D]

/-- The state after a call, unless it faults. -/
def call (F : Fftw D) (c : PSDCalc D) : Call D → Option (PSDCalc D)
  | .setNfft n => some (c.set_nfft n).1
  | .setFsamp f => some (c.set_fsamp f).1
  | .setWindowtype windowtype => some { c with windowtype := windowtype, replan := true }
  | .setInput p mult => some (c.set_input p mult).1
  | .calculate pl => c.calculate F pl

/-- An observer keeps the samples and the multiplier of the latest `set_input`. -/
def keep (_ : PSDCalc D) (a : Call D) (latest : Option (List D × D)) : Option (List D × D) :=
  match a with
  | .setInput p mult => some (p, mult)
  | _ => latest

/-- The plans that are executed point into the arrays as they are, to their own bins. -/
def PlansPoint (e : PSDCalc D) : Prop :=
  e.plans.length = e.nbins ∧ e.middle.length = e.nbins ∧
    ∀ (i : ℕ) (p : Plan) (m : Vec (D × D)), e.plans[i]? = some p → e.middle[i]? = some m →
      Points e.input p m ∧ p.offset = i * e.ntime ∧ p.n = e.ntime

/-- The bins hold the samples of the latest `set_input`, with the mean removed, scaled by its
    multiplier, and with the window of the current parameters. -/
def HoldsPrepared (e : PSDCalc D) (latest : Option (List D × D)) : Prop :=
  ∃ p mult, latest = some (p, mult) ∧
    e.input.data.take (e.nbins * e.ntime) =
      (prepared (multOf mult) (windowOf e.windowtype e.ntime p.length) p).take (e.nbins * e.ntime)

/-- A call that executes plans does so on the prepared samples. -/
def Transforms (c : PSDCalc D) (latest : Option (List D × D)) : Call D → Prop
  | .calculate pl => ¬c.Idle → ∃ e, c.staged pl = some e ∧ PlansPoint e ∧ HoldsPrepared e latest
  | _ => True

/-- The samples before new plans are made. -/
def readied (c : PSDCalc D) : List D :=
  if c.newval then prepared c.mult c.win c.input.data else c.input.data

/-- Planning leaves the prepared samples as they are, and samples that were prepared before have
    the window they would get now. -/
def Undisturbed (c : PSDCalc D) : Call D → Prop
  | .calculate pl => ¬c.Idle → c.replan = true →
      pl.overwrite c.ntime 0 c.nbins (readied c) = readied c ∧ (c.newval = false → c.window = c.win)
  | _ => True

instance [DecidableEq D] (c : PSDCalc D) : ∀ a, Decidable (Undisturbed c a)
  | .calculate _ => inferInstanceAs (Decidable (_ → _ → _ ∧ (_ → _)))
  | .setNfft _ | .setFsamp _ | .setWindowtype _ | .setInput _ _ => .isTrue trivial

/-! ### The plans -/

omit [Double D] in
theorem getElem?_plansFor (input ntime k : ℕ) (allocs : List ℕ) (i : ℕ) :
    (plansFor input ntime k allocs)[i]? =
      allocs[i]?.map fun alloc => ⟨input, (k + i) * ntime, ntime, alloc⟩ := by
  induction allocs generalizing k i with
  | nil => rfl
  | cons alloc allocs ih =>
    cases i with
    | zero => rfl
    | succ i =>
      rw [plansFor, List.getElem?_cons_succ, List.getElem?_cons_succ, ih, Nat.add_right_comm,
        Nat.add_assoc]

/-- POINTERS: what matches the parameters has plans that point to their bins. -/
theorem PSDCalc.Planned.point {e : PSDCalc D} (h : e.Planned) : PlansPoint e := by
  refine ⟨by rw [h.plans, length_plansFor, List.length_map, h.middle], h.middle, ?_⟩
  intro i p m hp hm
  rw [h.plans, getElem?_plansFor, List.getElem?_map, hm, Option.map_some, Option.map_some,
    Option.some.injEq, Nat.zero_add] at hp
  subst hp
  obtain ⟨hi, hget⟩ := List.getElem?_eq_some_iff.mp hm
  have hbin : i * e.ntime + e.ntime ≤ e.input.data.length := by
    have hle : (i + 1) * e.ntime ≤ e.nbins * e.ntime := Nat.mul_le_mul_right _ (h.middle ▸ hi)
    rw [Nat.succ_mul] at hle
    exact hle.trans e.nbins_mul_le
  have hsize := h.sizes m (List.mem_of_getElem? hm)
  exact ⟨⟨rfl, hbin, rfl, hsize.ge⟩, rfl, rfl⟩

/-! ### The samples -/

omit [Double D] in
/-- Planning leaves what is behind the bins. -/
theorem drop_overwrite (pl : Planner D) (ntime i : ℕ) {nbins : ℕ} {samples : List D}
    (h : nbins * ntime ≤ samples.length) :
    (pl.overwrite ntime i nbins samples).drop (nbins * ntime) = samples.drop (nbins * ntime) := by
  induction nbins generalizing i samples with
  | zero => rfl
  | succ nbins ih =>
    rw [Nat.succ_mul] at h ⊢
    have hbin : (pl.input i (samples.take ntime)).length = ntime := by
      rw [pl.length_input, List.length_take]
      omega
    have hrest : nbins * ntime ≤ (samples.drop ntime).length := by
      rw [List.length_drop]
      omega
    rw [Planner.overwrite, Nat.add_comm, ← List.drop_drop, ← List.drop_drop, List.drop_left' hbin,
      ih _ hrest]

omit [Double D] in
/-- What planning leaves in the bins decides whether it leaves all. -/
theorem take_overwrite_iff (pl : Planner D) (c : PSDCalc D) {samples : List D}
    (h : samples.length = c.input.data.length) :
    (pl.overwrite c.ntime 0 c.nbins samples).take (c.nbins * c.ntime) =
        samples.take (c.nbins * c.ntime) ↔ pl.overwrite c.ntime 0 c.nbins samples = samples := by
  constructor
  · intro htake
    rw [← List.take_append_drop (c.nbins * c.ntime) (pl.overwrite _ _ _ _), htake,
      drop_overwrite pl _ _ (h ▸ c.nbins_mul_le), List.take_append_drop]
  · exact congrArg _

/-- What the latest `set_input` has to do with the input. -/
structure Held (c : PSDCalc D) (latest : Option (List D × D)) : Prop where
  kept : c.Kept
  before : latest = none → c.input.data = []
  size : ∀ p mult, latest = some (p, mult) → c.input.data.length = p.length
  mult : ∀ p mult, latest = some (p, mult) → c.mult = multOf mult
  input : ∀ p mult, latest = some (p, mult) →
    c.input.data = if c.newval then p else prepared (multOf mult) c.window p

variable {F : Fftw D} {c e t : PSDCalc D} {latest : Option (List D × D)}

theorem Held.congr (h : Held c latest) (hkept : e.Kept) (hinput : e.input.data = c.input.data)
    (hmult : e.mult = c.mult) (hnewval : e.newval = c.newval) (hwindow : e.window = c.window) :
    Held e latest := by
  refine ⟨hkept, fun hn => hinput.trans (h.before hn), fun p mult hl => ?_, fun p mult hl => ?_,
    fun p mult hl => ?_⟩
  · rw [hinput, h.size p mult hl]
  · rw [hmult, h.mult p mult hl]
  · rw [hinput, hnewval, hwindow, h.input p mult hl]

/-! ### One call -/

/-- STEP: the settings. -/
theorem setting_held {a : Call D} (h : Held c latest) (ha : ∀ pl, a ≠ .calculate pl)
    (hs : call F c a = some t) : Held t (keep c a latest) := by
  cases a with
  | calculate pl => exact absurd rfl (ha pl)
  | setNfft n =>
    obtain rfl := Option.some.inj hs
    refine h.congr ((set_nfft_sets c n).kept h.kept) ?_ ?_ ?_ ?_ <;> unfold set_nfft <;>
      split <;> rfl
  | setFsamp f =>
    obtain rfl := Option.some.inj hs
    refine h.congr ((set_fsamp_sets c f).kept h.kept) ?_ ?_ ?_ ?_ <;> unfold set_fsamp <;>
      split <;> rfl
  | setWindowtype windowtype =>
    obtain rfl := Option.some.inj hs
    exact h.congr Bool.noConfusion rfl rfl rfl rfl
  | setInput p mult =>
    obtain rfl := Option.some.inj hs
    refine ⟨(set_input_sets c mult p).kept h.kept, nofun, ?_, ?_, ?_⟩
    · rintro _ _ ⟨⟩
      rw [set_input_data]
    · rintro _ _ ⟨⟩
      exact set_input_mult ..
    · rintro _ _ ⟨⟩
      rw [set_input_data, set_input_newval, if_pos rfl]

/-- What is readied for a call that executes plans. -/
theorem Held.readied_eq (h : Held c latest) (hidle : ¬c.Idle)
    (hwin : c.newval = false → c.window = c.win) :
    ∃ p mult, latest = some (p, mult) ∧ c.mult = multOf mult ∧ c.input.data.length = p.length ∧
      readied c = prepared (multOf mult) c.win p := by
  cases hl : latest with
  | none => exact absurd (.inl (h.before hl)) hidle
  | some r =>
    obtain ⟨p, mult⟩ := r
    refine ⟨p, mult, rfl, h.mult p mult hl, h.size p mult hl, ?_⟩
    have hinput := h.input p mult hl
    rw [Sig.readied]
    cases hnew : c.newval with
    | true =>
      rw [hnew, if_pos rfl] at hinput
      rw [if_pos rfl, hinput, h.mult p mult hl]
    | false =>
      rw [hnew, if_neg Bool.false_ne_true] at hinput
      rw [if_neg Bool.false_ne_true, hinput, hwin hnew]

theorem length_readied (c : PSDCalc D) : (readied c).length = c.input.data.length := by
  unfold readied
  split
  · exact length_prepared _ (length_windowOf ..)
  · rfl

/-- The window that the plans find. -/
theorem PSDCalc.Staged.window {pl : Planner D} (h : Staged pl c e) : e.window = c.win := by
  have hntime : e.ntime = c.ntime := by rw [ntime, ntime, h.nfft, h.size]
  rw [h.planned.window, win, h.windowtype, hntime, h.size]

/-- What the plans find is what was readied, as far as planning leaves it. -/
theorem stagedInput_readied (c : PSDCalc D) (pl : Planner D) : c.stagedInput pl =
    if c.replan then pl.overwrite c.ntime 0 c.nbins (readied c) else readied c := rfl

/-- The prepared samples are found if and only if planning leaves those in the bins. -/
theorem Held.prepared_iff {pl : Planner D} (h : Held c latest) (hidle : ¬c.Idle)
    (hwin : c.newval = false → c.window = c.win) (he : Staged pl c e) :
    HoldsPrepared e latest ↔ c.stagedInput pl = readied c := by
  obtain ⟨p, mult, rfl, -, hsize, hready⟩ := h.readied_eq hidle hwin
  have hntime : e.ntime = c.ntime := by rw [ntime, ntime, he.nfft, he.size]
  have hnbins : e.nbins = c.nbins := by rw [nbins, nbins, hntime, he.size]
  have hprep : prepared (multOf mult) (windowOf e.windowtype e.ntime p.length) p = readied c := by
    rw [hready, win, he.windowtype, hntime, hsize]
  have htake : HoldsPrepared e (some (p, mult)) ↔
      (c.stagedInput pl).take (c.nbins * c.ntime) = (readied c).take (c.nbins * c.ntime) := by
    constructor
    · rintro ⟨p', mult', hl, heq⟩
      obtain ⟨rfl, rfl⟩ := Prod.ext_iff.mp (Option.some.inj hl)
      rwa [hprep, hntime, hnbins, he.input] at heq
    · intro heq
      refine ⟨p, mult, rfl, ?_⟩
      rw [hprep, hntime, hnbins, he.input, heq]
  rw [htake, stagedInput_readied]
  split
  · exact take_overwrite_iff pl c (length_readied c)
  · exact iff_of_true rfl rfl

/-- STEP: a calculation never faults; undisturbed, it is one of the prepared samples. -/
theorem calculate_held {pl : Planner D} (h : Held c latest) :
    ∃ t, call F c (.calculate pl) = some t ∧
      (Undisturbed c (.calculate pl) →
        Held t (keep c (.calculate pl) latest) ∧ Transforms c latest (.calculate pl)) := by
  by_cases hidle : c.Idle
  · exact ⟨c, if_pos hidle, fun _ => ⟨h, fun hbusy => absurd hidle hbusy⟩⟩
  · obtain ⟨e, hstaged, he⟩ := staged_spec pl h.kept
    obtain ⟨middle, htransform, hplanned, -⟩ := transform_spec F he.planned
    refine ⟨_, by rw [call, calculate, if_neg hidle, hstaged, Option.bind_some, htransform],
      fun hC => ?_⟩
    have hwin : c.newval = false → c.window = c.win := by
      intro hnew
      cases hreplan : c.replan with
      | true => exact (hC hidle hreplan).2 hnew
      | false => exact (h.kept hreplan).window
    have hinput : c.stagedInput pl = readied c := by
      rw [stagedInput_readied]
      split
      · rename_i hreplan
        exact (hC hidle hreplan).1
      · rfl
    refine ⟨?_, fun _ => ⟨e, hstaged, he.planned.point, (h.prepared_iff hidle hwin he).mpr hinput⟩⟩
    obtain ⟨p, mult, rfl, hmult, hsize, hready⟩ := h.readied_eq hidle hwin
    refine ⟨fun _ => hplanned, fun hnone => absurd hnone (Option.some_ne_none _), ?_, ?_, ?_⟩
    · rintro _ _ ⟨⟩
      exact he.size.trans hsize
    · rintro _ _ ⟨⟩
      exact he.mult.trans hmult
    · rintro _ _ ⟨⟩
      have hdata : e.input.data = prepared (multOf mult) e.window p := by
        rw [he.input, hinput, hready, he.window]
      have hnewval : ({ e with middle := middle }.postProcess).newval = false := he.newval
      rw [hnewval, if_neg Bool.false_ne_true]
      exact hdata

/-- BACK: with new samples, planning that does not leave them is seen at once. -/
theorem undisturbed_of_transforms {pl : Planner D} (h : Held c latest) (hnew : c.newval = true)
    (ht : Transforms c latest (.calculate pl)) : Undisturbed c (.calculate pl) := by
  intro hidle hreplan
  have hold : c.newval = false → c.window = c.win := fun hf =>
    Bool.noConfusion (hnew.symm.trans hf)
  obtain ⟨e, hstaged, -, hholds⟩ := ht hidle
  obtain ⟨e', hstaged', he⟩ := staged_spec pl h.kept
  obtain rfl := Option.some.inj (hstaged.symm.trans hstaged')
  have hinput := (h.prepared_iff hidle hold he).mp hholds
  rw [stagedInput_readied, if_pos hreplan] at hinput
  exact ⟨hinput, hold⟩

theorem init_held (windowtype : Window) : Held (.init windowtype : PSDCalc D) none :=
  ⟨Bool.noConfusion, fun _ => rfl, nofun, nofun, nofun⟩

/-- STEP: no call faults, and an undisturbed one is one of the prepared samples. -/
theorem call_held (F : Fftw D) {a : Call D} (h : Held c latest) : ∃ t, call F c a = some t ∧
    (Undisturbed c a → Held t (keep c a latest) ∧ Transforms c latest a) := by
  cases a with
  | calculate pl => exact calculate_held h
  | setNfft n => exact ⟨_, rfl, fun _ => ⟨setting_held (F := F) h nofun rfl, trivial⟩⟩
  | setFsamp f => exact ⟨_, rfl, fun _ => ⟨setting_held (F := F) h nofun rfl, trivial⟩⟩
  | setWindowtype windowtype =>
    exact ⟨_, rfl, fun _ => ⟨setting_held (F := F) h nofun rfl, trivial⟩⟩
  | setInput p mult => exact ⟨_, rfl, fun _ => ⟨setting_held (F := F) h nofun rfl, trivial⟩⟩

/-! ### Runs -/

/-- A run along `Undisturbed` goes through, its calculations are of the prepared samples, and what
    the last state holds is known. -/
theorem run_held (F : Fftw D) {as : List (Call D)} (h : Held c latest)
    (hC : Along (observed (call F) keep) (fun p a => Undisturbed p.1 a) (c, latest) as) :
    (∃ p, exec (observed (call F) keep) (c, latest) as = some p ∧ Held p.1 p.2) ∧
      Along (observed (call F) keep) (fun p a => Transforms p.1 p.2 a) (c, latest) as := by
  induction as generalizing c latest with
  | nil => exact ⟨⟨_, rfl, h⟩, trivial⟩
  | cons a as ih =>
    obtain ⟨t, hcall, himp⟩ := call_held F (a := a) h
    have hstep : observed (call F) keep (c, latest) a = some (t, keep c a latest) := by
      rw [observed, hcall]
      rfl
    obtain ⟨hund, hrest⟩ := hC _ hstep
    obtain ⟨hheld, htrans⟩ := himp hund
    obtain ⟨⟨p, hexec, hp⟩, halong⟩ := ih hheld hrest
    refine ⟨⟨p, ?_, hp⟩, fun q hq => ?_⟩
    · rw [exec, hstep, Option.bind_some, hexec]
    · obtain rfl := Option.some.inj (hstep.symm.trans hq)
      exact ⟨htrans, halong⟩

/-- PREPARED: as long as planning leaves the prepared samples as they are, and new plans for old
    samples are not for another window, no call faults, and every calculation executes plans that
    point into the arrays as they are, on the prepared samples of the latest `set_input`. In the
    state a run has led to, this condition is also necessary for a calculation with new samples. -/
theorem transforms_prepared (F : Fftw D) (windowtype : Window) (as : List (Call D))
    (hC : Along (observed (call F) keep) (fun p a => Undisturbed p.1 a)
      (.init windowtype, none) as) :
    (exec (observed (call F) keep) (.init windowtype, none) as).isSome ∧
    Along (observed (call F) keep) (fun p a => Transforms p.1 p.2 a) (.init windowtype, none) as ∧
    ∀ p, exec (observed (call F) keep) (.init windowtype, none) as = some p →
      p.1.newval = true → ∀ pl,
        Transforms p.1 p.2 (.calculate pl) ↔ Undisturbed p.1 (.calculate pl) := by
  obtain ⟨⟨q, hexec, hq⟩, halong⟩ := run_held F (init_held windowtype) hC
  refine ⟨by rw [hexec]; rfl, halong, fun p hp hnew pl => ?_⟩
  obtain rfl := Option.some.inj (hexec.symm.trans hp)
  refine ⟨undisturbed_of_transforms hq hnew, fun hund => ?_⟩
  obtain ⟨t, -, himp⟩ := call_held F (a := .calculate pl) hq
  exact (himp hund).2

/-- STEP: what is kept matches, whatever planning leaves. -/
theorem call_kept (F : Fftw D) (a : Call D) (h : c.Kept) : ∃ t, call F c a = some t ∧ t.Kept := by
  cases a with
  | setNfft n => exact ⟨_, rfl, (set_nfft_sets c n).kept h⟩
  | setFsamp f => exact ⟨_, rfl, (set_fsamp_sets c f).kept h⟩
  | setWindowtype windowtype => exact ⟨_, rfl, Bool.noConfusion⟩
  | setInput p mult => exact ⟨_, rfl, (set_input_sets c mult p).kept h⟩
  | calculate pl =>
    by_cases hidle : c.Idle
    · exact ⟨c, if_pos hidle, h⟩
    · obtain ⟨e, hstaged, he⟩ := staged_spec pl h
      obtain ⟨middle, htransform, hplanned, -⟩ := transform_spec F he.planned
      exact ⟨_, by rw [call, calculate, if_neg hidle, hstaged, Option.bind_some, htransform],
        fun _ => hplanned⟩

/-- POINTERS: whatever planning leaves, no call faults, and every calculation executes plans that
    point into the arrays as they are. -/
theorem plans_point (F : Fftw D) (windowtype : Window) (as : List (Call D)) :
    (exec (call F) (.init windowtype) as).isSome ∧
      Along (call F) (fun c a => ∀ pl, a = .calculate pl → ∃ e, c.staged pl = some e ∧ PlansPoint e)
        (.init windowtype) as := by
  suffices hkept : ∀ c : PSDCalc D, c.Kept → (exec (call F) c as).isSome ∧
      Along (call F) (fun c a => ∀ pl, a = .calculate pl →
        ∃ e, c.staged pl = some e ∧ PlansPoint e) c as from hkept _ Bool.noConfusion
  induction as with
  | nil => exact fun _ _ => ⟨rfl, trivial⟩
  | cons a as ih =>
    intro c h
    obtain ⟨t, hcall, ht⟩ := call_kept F a h
    obtain ⟨hsome, halong⟩ := ih t ht
    refine ⟨by rw [exec, hcall, Option.bind_some]; exact hsome, fun u hu => ⟨?_, ?_⟩⟩
    · rintro pl -
      obtain ⟨e, hstaged, he⟩ := staged_spec pl h
      exact ⟨e, hstaged, he.planned.point⟩
    · obtain rfl := Option.some.inj (hcall.symm.trans hu)
      exact halong

/-! ### A planner that measures -/

/-- A planner that leaves zeros. -/
def measuring : Planner ℚ where
  input _ samples := List.replicate samples.length 0
  output _ freqs := List.replicate freqs.length (0, 0)
  length_input _ _ := List.length_replicate
  length_output _ _ := List.length_replicate

/-- The state with two samples, before the first calculation. -/
def twoSamples : PSDCalc ℚ :=
  ((((PSDCalc.init .none).set_nfft 2).1.set_fsamp 2).1.set_input [1, 3] 1).1

/-- The calls that lead there, and a calculation. -/
def firstOf (pl : Planner ℚ) : List (Call ℚ) :=
  [.setNfft 2, .setFsamp 2, .setInput [1, 3] 1, .calculate pl]

/-- With a planner that leaves everything, and with one that does not but is not asked. -/
theorem prepared_twice :
    (exec (observed (call twoPoint) keep) (.init .none, none)
      (firstOf keeping ++ [.setInput [5, 1] 1, .calculate measuring])).isSome ∧
    Along (observed (call twoPoint) keep) (fun p a => Transforms p.1 p.2 a) (.init .none, none)
      (firstOf keeping ++ [.setInput [5, 1] 1, .calculate measuring]) :=
  have h := transforms_prepared twoPoint .none
    (firstOf keeping ++ [.setInput [5, 1] 1, .calculate measuring]) (by decide +kernel)
  ⟨h.1, h.2.1⟩

/-- The samples 1 and 3 are prepared to -1 and 1. Planning leaves zeros, and these are transformed:
    the power is 0, and not 2. -/
theorem measured_away :
    prepared (multOf 1) (windowOf .none 2 2) [1, 3] = ([-1, 1] : List ℚ) ∧
    ((exec (call twoPoint) (.init .none) (firstOf keeping)).map PSDCalc.output) = some [2] ∧
    ((exec (call twoPoint) (.init .none) (firstOf measuring)).map PSDCalc.output) = some [0] ∧
    ¬ Along (observed (call twoPoint) keep) (fun p a => Transforms p.1 p.2 a) (.init .none, none)
      (firstOf measuring) := by
  refine ⟨by decide +kernel, by decide +kernel, by decide +kernel, fun h => ?_⟩
  have hlast : Along (observed (call twoPoint) keep) (fun p a => Transforms p.1 p.2 a)
      (twoSamples, some ([1, 3], 1)) [.calculate measuring] := (((h _ rfl).2 _ rfl).2 _ rfl).2
  have hcall : (call twoPoint twoSamples (.calculate measuring)).isSome := by decide +kernel
  have hdata : (twoSamples.staged measuring).map (fun e =>
      (e.input.data, e.windowtype, e.nbins, e.ntime)) = some ([0, 0], .none, 1, 2) := by
    decide +kernel
  obtain ⟨t, ht⟩ := Option.isSome_iff_exists.mp hcall
  have hstep : observed (call twoPoint) keep (twoSamples, some ([1, 3], 1)) (.calculate measuring) =
      some (t, some ([1, 3], 1)) := by
    rw [observed, ht]
    rfl
  obtain ⟨e, he, -, p, mult, hl, heq⟩ := (hlast _ hstep).1 (by decide +kernel)
  rw [he, Option.map_some, Option.some.injEq] at hdata
  obtain ⟨hinput, hwindow, hnbins, hntime⟩ : e.input.data = [0, 0] ∧ e.windowtype = .none ∧
      e.nbins = 1 ∧ e.ntime = 2 := by simpa using hdata
  cases hl
  rw [hinput, hwindow, hnbins, hntime] at heq
  exact absurd heq (by decide +kernel)

end Pscdrv.Sig
