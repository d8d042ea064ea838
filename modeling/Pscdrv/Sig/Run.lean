import Pscdrv.Schemes.Run
import Pscdrv.Sig.FftCalc
import Pscdrv.Sig.Spectrum

/-! # The worker of a spectrum (`Calc::run`)

    The worker waits for the event, copies the parameters and the input under the lock, calculates
    without it, and publishes the results under the lock. The records write before, between and
    behind these parts, each in one step. (Their `Guard(priv->lock);` is a temporary object, which
    is gone at the end of the line; what such a race does to a vector is not modelled.)

        wait ──▶ copy ──▶ calculate ──▶ publish ──┐
         ▲        │ fsamp <= 0, nfft == 0: invalid │
         └────────┴───────────────────────────────┘

    With an empty input `calculate` returns at once, and `output` is that of a turn before. What is
    published is then marked as valid, unless that was empty. -/

namespace Pscdrv.Sig

open Double Run

/-- Where the worker is; behind the first lock it has `scalchange` and `timeproc`. -/
inductive RunPc where
  | waiting
  | calculating (scalchange : Bool) (timeproc : EpicsTimeStamp)
  | publishing (scalchange : Bool) (timeproc : EpicsTimeStamp)
  deriving DecidableEq

/-- The records and the worker. -/
structure Process (D : Type) where
  priv : Calc D
  pc : RunPc

/-- What happens next: a record is processed, or the worker does its next part. -/
inductive Action (D : Type) where
  | setNfft (val : Int32)
  | setFsamp (fsamp : D)
  | setScale (mult : D)
  | setStart (val : Int32)
  | setWidth (val : Int32)
  | setWindtype (rval : UInt32)
  | setInput (srctime : EpicsTimeStamp) (samples : List D)
  | copy
  | calculate (pl : Planner D)
  | publish

variable {D : Type} [Double D]

namespace Calc

/-- The parameters are incomplete. -/
def Incomplete (c : Calc D) : Prop := Double.le c.fsamp zero = true ∨ c.nfft = 0

instance (c : Calc D) : Decidable c.Incomplete := inferInstanceAs (Decidable (_ ∨ _))

/-- The type of the window is copied. -/
def copyWindowtype (c : Calc D) : PSDCalc D × Bool :=
  if c.psd.windowtype ≠ c.windowtype then
    ({ c.psd with windowtype := c.windowtype, replan := true }, true)
  else (c.psd, false)

/-- What is copied under the first lock, and `scalchange`. -/
def copyIn (c : Calc D) : PSDCalc D × Bool :=
  let (psd, windowchange) := c.copyWindowtype
  let (psd, fsampchange) := psd.set_fsamp c.fsamp
  let (psd, nfftchange) := psd.set_nfft c.nfft
  let (psd, inputchange) := psd.set_input c.valin c.mult
  (psd, windowchange || fsampchange || nfftchange || inputchange)

/-- A placeholder stands for an empty array. -/
def filled (l : List D) : List D := if l = [] then [zero] else l

/-- What is done under the second lock. -/
def publish (c : Calc D) (scalchange : Bool) (timeproc : EpicsTimeStamp) : Calc D :=
  { c with
    valid := !c.psd.output.isEmpty && !c.psd.outint.isEmpty &&
      (!scalchange || !c.psd.fscale.isEmpty)
    totalpowertime := c.psd.totalpowertime
    totalpowerfreq := c.psd.totalpowerfreq
    valout := filled c.psd.output
    valoutint := filled c.psd.outint
    scaleout := if scalchange then filled c.psd.fscale else c.scaleout
    window := if scalchange then c.psd.window else c.window
    timeout := timeproc }

end Calc

/-- One step, unless it is not the turn of this part of the worker, or `calculate` faults. -/
def step (F : Fftw D) (s : Process D) : Action D → Option (Process D)
  | .setNfft val => some { s with priv := (s.priv.set_nfft val).1 }
  | .setFsamp fsamp => some { s with priv := (s.priv.set_fsamp fsamp).1 }
  | .setScale mult => some { s with priv := (s.priv.set_scale mult).1 }
  | .setStart val => some { s with priv := (s.priv.set_start val).1 }
  | .setWidth val => some { s with priv := (s.priv.set_width val).1 }
  | .setWindtype rval => some { s with priv := (s.priv.set_windtype rval ⟨.noAlarm, .noAlarm⟩).1 }
  | .setInput srctime samples => some { s with priv := s.priv.store srctime samples }
  | .copy =>
    if s.pc = .waiting ∧ s.priv.wake then
      if s.priv.Incomplete then
        some { s with priv := { s.priv with wake := false, valid := false } }
      else
        some ⟨{ s.priv with wake := false, psd := s.priv.copyIn.1 },
          .calculating s.priv.copyIn.2 s.priv.timein⟩
    else none
  | .calculate pl =>
    match s.pc with
    | .calculating scalchange timeproc =>
      (s.priv.psd.calculate F pl).map fun psd =>
        ⟨{ s.priv with psd := psd }, .publishing scalchange timeproc⟩
    | _ => none
  | .publish =>
    match s.pc with
    | .publishing scalchange timeproc => some ⟨s.priv.publish scalchange timeproc, .waiting⟩
    | _ => none

/-- The start, with the two types of windows that are not initialised. -/
def Process.init (windowtype planned : Window) : Process D := ⟨.init windowtype planned, .waiting⟩

/-! ### What should be published -/

/-- What a turn copies. -/
structure Snap (D : Type) where
  params : Params D
  time : EpicsTimeStamp

/-- The notes of an observer: what the last turn copied, the planner if it made new plans, and what
    the last turn that published had copied, with its planner. -/
structure Notes (D : Type) where
  taken : Option (Snap D)
  planned : Option (Planner D)
  shown : Option (Snap D × Option (Planner D))

def Calc.snap (c : Calc D) : Snap D :=
  ⟨⟨c.valin, c.nfft, c.fsamp, c.mult, c.windowtype⟩, c.timein⟩

def note (s : Process D) (a : Action D) (n : Notes D) : Notes D :=
  match a with
  | .copy => { n with taken := some s.priv.snap }
  | .calculate pl => { n with planned := if s.priv.psd.replan then some pl else none }
  | .publish => { n with shown := n.taken.map (·, n.planned) }
  | _ => n

/-- What the records read. -/
structure Published (D : Type) where
  valid : Bool
  valout : List D
  valoutint : List D
  scaleout : List D
  totalpowertime : D
  totalpowerfreq : D
  timeout : EpicsTimeStamp

def Calc.published (c : Calc D) : Published D :=
  ⟨c.valid, c.valout, c.valoutint, c.scaleout, c.totalpowertime, c.totalpowerfreq, c.timeout⟩

/-- The published results are those of the snapshot `snap`. -/
structure Shows (F : Fftw D) (r : Published D) (snap : Snap D) (pl : Option (Planner D)) :
    Prop where
  input : snap.params.input ≠ []
  valout : r.valout = (spectrum F pl snap.params).output
  valoutint : r.valoutint = (spectrum F pl snap.params).outint
  totalpowertime : r.totalpowertime = (spectrum F pl snap.params).totalpowertime
  totalpowerfreq : r.totalpowerfreq = (spectrum F pl snap.params).totalpowerfreq
  timeout : r.timeout = snap.time
  scaleout : r.scaleout = (spectrum F pl snap.params).fscale
  length : r.scaleout.length = r.valout.length

/-- What is valid was calculated in the last turn that published, from what it copied. -/
def Fresh (F : Fftw D) (p : Process D × Notes D) : Prop :=
  p.1.priv.published.valid = true →
    ∃ snap pl, p.2.shown = some (snap, pl) ∧ Shows F p.1.priv.published snap pl

/-- Nothing is published for an empty input, unless there is no output yet. -/
def Renews (s : Process D) : Action D → Prop
  | .publish => s.priv.psd.input.data ≠ [] ∨ s.priv.psd.output = []
  | _ => True

/-! ### The invariant -/

variable {F : Fftw D} {s t : Process D} {n : Notes D}

/-- The arrays of a result are as long as each other. -/
structure PSDCalc.Level (c : PSDCalc D) : Prop where
  outint : c.outint.length = c.output.length
  fscale : c.fscale.length = c.output.length

/-- The published scale is that of the last calculation. -/
def Scaled (c : Calc D) : Prop := c.scaleout = Calc.filled c.psd.fscale

/-- Where the worker is, and what it has copied. -/
inductive At (F : Fftw D) (c : Calc D) (n : Notes D) : RunPc → Prop
  | waiting (hdue : c.psd.replan = true → c.psd.input.data = [])
      (hscaled : c.psd.replan = false → Scaled c) : At F c n .waiting
  | calculating {scalchange : Bool} {snap : Snap D} (htaken : n.taken = some snap)
      (habout : c.psd.About snap.params) (hnewval : c.psd.newval = true) (hnfft : c.psd.nfft ≠ 0)
      (hdue : scalchange = false → c.psd.replan = true → c.psd.input.data = [])
      (hscaled : scalchange = false → c.psd.replan = false → Scaled c) :
      At F c n (.calculating scalchange snap.time)
  | publishing {scalchange : Bool} {snap : Snap D} (htaken : n.taken = some snap)
      (hinput : c.psd.input.data.length = snap.params.input.length)
      (hresult : c.psd.input.data ≠ [] →
        c.psd.replan = false ∧ c.psd.result = spectrum F n.planned snap.params)
      (hscaled : scalchange = false → c.psd.replan = false → Scaled c) :
      At F c n (.publishing scalchange snap.time)

/-- What holds in every state of a run that meets the condition. -/
structure Inv (F : Fftw D) (p : Process D × Notes D) : Prop where
  kept : p.1.priv.psd.Kept
  level : p.1.priv.psd.Level
  pc : At F p.1.priv p.2 p.1.pc
  fresh : Fresh F p

theorem Fresh.congr {e : Calc D} {pc : RunPc} {m : Notes D} (h : Fresh F (s, n))
    (he : e.published = s.priv.published) (hm : m.shown = n.shown) : Fresh F (⟨e, pc⟩, m) := by
  rw [Fresh] at h ⊢
  rwa [he, hm]

/-- The worker has published nothing, and what it keeps is left as it is. -/
theorem Inv.congr {e : Calc D} (h : Inv F (s, n)) (hpsd : e.psd = s.priv.psd)
    (he : e.published = s.priv.published) : Inv F ({ s with priv := e }, n) := by
  have hscaled : Scaled s.priv → Scaled e := fun hs => by
    rw [Scaled, hpsd, ← hs]
    exact congrArg Published.scaleout he
  refine ⟨hpsd.symm ▸ h.kept, hpsd.symm ▸ h.level, ?_, h.fresh.congr he rfl⟩
  obtain ⟨c, pc⟩ := s
  dsimp only
  cases h.pc with
  | waiting hdue hsc => exact .waiting (hpsd.symm ▸ hdue) fun hr => hscaled (hsc (hpsd ▸ hr))
  | calculating htaken habout hnewval hnfft hdue hsc =>
    exact .calculating htaken (hpsd.symm ▸ habout) (hpsd.symm ▸ hnewval) (hpsd.symm ▸ hnfft)
      (hpsd.symm ▸ hdue) fun hf hr => hscaled (hsc hf (hpsd ▸ hr))
  | publishing htaken hinput hresult hsc =>
    exact .publishing htaken (hpsd.symm ▸ hinput) (hpsd.symm ▸ hresult)
      fun hf hr => hscaled (hsc hf (hpsd ▸ hr))

/-- What the records do. -/
def Action.records : Action D → Bool
  | .copy | .calculate _ | .publish => false
  | _ => true

/-- What the worker keeps and has published is the same. -/
structure SameWork (c e : Calc D) : Prop where
  psd : e.psd = c.psd
  published : e.published = c.published

omit [Double D] in
/-- A routine that stores its value only if it is a new one. -/
theorem SameWork.ite {β : Type} {c : Calc D} {p : Prop} [Decidable p] {x y : Calc D × β}
    (hx : SameWork c x.1) (hy : SameWork c y.1) : SameWork c (if p then x else y).1 := by
  split
  · exact hx
  · exact hy

/-- STEP: a record changes nothing that the worker keeps. -/
theorem step_records {a : Action D} (ha : a.records = true) (h : step F s a = some t) :
    ∃ e, t = { s with priv := e } ∧ SameWork s.priv e ∧ note s a n = n := by
  cases a with
  | copy | calculate | publish => cases ha
  | setWindtype rval =>
    exact ⟨_, (Option.some.inj h).symm, .ite ⟨rfl, rfl⟩ (.ite ⟨rfl, rfl⟩ ⟨rfl, rfl⟩), rfl⟩
  | setInput srctime samples => exact ⟨_, (Option.some.inj h).symm, ⟨rfl, rfl⟩, rfl⟩
  | setNfft val => exact ⟨_, (Option.some.inj h).symm, .ite ⟨rfl, rfl⟩ ⟨rfl, rfl⟩, rfl⟩
  | setFsamp fsamp => exact ⟨_, (Option.some.inj h).symm, .ite ⟨rfl, rfl⟩ ⟨rfl, rfl⟩, rfl⟩
  | setScale mult => exact ⟨_, (Option.some.inj h).symm, .ite ⟨rfl, rfl⟩ ⟨rfl, rfl⟩, rfl⟩
  | setStart val => exact ⟨_, (Option.some.inj h).symm, .ite ⟨rfl, rfl⟩ ⟨rfl, rfl⟩, rfl⟩
  | setWidth val => exact ⟨_, (Option.some.inj h).symm, .ite ⟨rfl, rfl⟩ ⟨rfl, rfl⟩, rfl⟩

/-! ### Copy -/

open PSDCalc

theorem copyWindowtype_sets (c : Calc D) :
    Sets c.psd c.copyWindowtype.1 c.copyWindowtype.2 ∧
      c.copyWindowtype.1.windowtype = c.windowtype := by
  unfold Calc.copyWindowtype
  split
  · exact ⟨.of_replan rfl rfl rfl rfl, rfl⟩
  · rename_i h
    exact ⟨.refl _, not_not.mp h⟩

/-- COPY: the worker has what the records have written. -/
theorem copyIn_spec {c : Calc D} (h : ¬c.Incomplete) :
    Sets c.psd c.copyIn.1 c.copyIn.2 ∧ c.copyIn.1.About c.snap.params ∧
      c.copyIn.1.newval = true ∧ c.copyIn.1.nfft ≠ 0 := by
  obtain ⟨hpos, hnfft⟩ := not_or.mp h
  rw [Bool.not_eq_true] at hpos
  obtain ⟨hsets, hwindowtype⟩ := copyWindowtype_sets c
  refine ⟨((hsets.trans (set_fsamp_sets _ _)).trans (set_nfft_sets _ _)).trans
    (set_input_sets _ _ _), ⟨?_, ?_, ?_, ?_, ?_⟩, ?_, ?_⟩
  · exact set_input_data ..
  · exact (set_input_nfft ..).trans (set_nfft_nfft ..)
  · exact ((set_input_fsamp ..).trans (set_nfft_fsamp ..)).trans (set_fsamp_fsamp _ _ hpos)
  · exact set_input_mult ..
  · exact (((set_input_windowtype ..).trans (set_nfft_windowtype ..)).trans
      (set_fsamp_windowtype ..)).trans hwindowtype
  · exact set_input_newval ..
  · exact ((set_input_nfft ..).trans (set_nfft_nfft ..)).trans_ne hnfft

theorem PSDCalc.Level.sets {c e : PSDCalc D} {changed : Bool} (h : c.Level)
    (k : Sets c e changed) : e.Level :=
  ⟨by rw [k.outint, k.output, h.outint], by rw [k.fscale, k.output, h.fscale]⟩

/-- STEP: the first part of a turn. -/
theorem copy_inv (h : Inv F (s, n)) (hs : step F s .copy = some t) :
    Inv F (t, note s .copy n) := by
  rw [step] at hs
  split at hs
  · rename_i hwait
    have hpc : At F s.priv n .waiting := hwait.1 ▸ h.pc
    cases hpc with
    | waiting hdue hscaled =>
      split at hs
      · rw [Option.some.injEq] at hs
        subst hs
        refine ⟨h.kept, h.level, ?_, Bool.noConfusion⟩
        dsimp only
        rw [hwait.1]
        exact .waiting hdue hscaled
      · rename_i hcomplete
        obtain ⟨hsets, habout, hnewval, hnfft⟩ := copyIn_spec hcomplete
        rw [Option.some.injEq] at hs
        subst hs
        refine ⟨hsets.kept h.kept, h.level.sets hsets, ?_, h.fresh.congr rfl rfl⟩
        have htaken : (note s .copy n).taken = some s.priv.snap := rfl
        refine .calculating htaken habout hnewval hnfft (fun hf hr => ?_) fun hf hr => ?_
        · have hempty := hdue ((hsets.replan hf).symm.trans hr)
          have hsize := hsets.size hf
          rw [hempty] at hsize
          exact List.length_eq_zero_iff.mp hsize
        · have hsc := hscaled ((hsets.replan hf).symm.trans hr)
          exact hsc.trans (congrArg Calc.filled hsets.fscale.symm)
  · cases hs

/-! ### Calculate -/

theorem PSDCalc.Calculated.level {pl : Planner D} {p : Params D} {c e : PSDCalc D}
    (h : Calculated F pl p c e) : e.Level := by
  have hlength : e.outint.length = e.output.length := by
    have houtint : e.outint = _ := congrArg Spectrum.outint h.result
    have houtput : e.output = _ := congrArg Spectrum.output h.result
    rw [houtint, houtput]
    exact length_integrate ..
  refine ⟨hlength, ?_⟩
  rw [h.planned.fscale, h.planned.output, fscaleOf, List.length_map, List.length_range]
  rfl

/-- As long as no new plans were due, the scale stays. -/
theorem PSDCalc.Calculated.fscale {pl : Planner D} {p : Params D} {c e : PSDCalc D}
    (h : Calculated F pl p c e) (hc : c.Planned) : e.fscale = c.fscale := by
  rw [h.planned.fscale, hc.fscale, h.fsamp, ntime, ntime, h.nfft, h.size]

/-- STEP: the second part. -/
theorem calculate_inv {pl : Planner D} (h : Inv F (s, n))
    (hs : step F s (.calculate pl) = some t) : Inv F (t, note s (.calculate pl) n) := by
  obtain ⟨c, pc⟩ := s
  cases pc with
  | waiting | publishing => cases hs
  | calculating scalchange timeproc =>
    obtain ⟨psd, hpsd, rfl⟩ := Option.map_eq_some_iff.mp hs
    dsimp only at hpsd ⊢
    cases h.pc with
    | @calculating _ snap htaken habout hnewval hnfft hdue hscaled =>
      by_cases hidle : c.psd.Idle
      · rw [calculate, if_pos hidle, Option.some.injEq] at hpsd
        subst hpsd
        have hempty : c.psd.input.data = [] := hidle.resolve_right hnfft
        have hinput := congrArg List.length habout.input
        exact ⟨h.kept, h.level, .publishing htaken hinput (fun hne => absurd hempty hne) hscaled,
          h.fresh.congr rfl rfl⟩
      · obtain ⟨e, he, hcalc⟩ := calculate_spec F pl h.kept hidle hnewval habout
        obtain rfl := Option.some.inj (hpsd.symm.trans he)
        have hinput : psd.input.data.length = snap.params.input.length := by
          rw [hcalc.size, habout.input]
        refine ⟨fun _ => hcalc.planned, hcalc.level, .publishing htaken hinput
          (fun _ => ⟨hcalc.replan, hcalc.result⟩) fun hf _ => ?_, h.fresh.congr rfl rfl⟩
        have hreplan : c.psd.replan = false := by
          rw [← Bool.not_eq_true]
          exact fun hr => hidle (.inl (hdue hf hr))
        have hfscale := hcalc.fscale (h.kept hreplan)
        exact (hscaled hf hreplan).trans (congrArg Calc.filled hfscale.symm)

/-! ### Publish -/

omit [Double D] in
theorem isEmpty_of_length {l m : List D} (h : l.length = m.length) : l.isEmpty = m.isEmpty := by
  rw [Bool.eq_iff_iff, List.isEmpty_iff_length_eq_zero, List.isEmpty_iff_length_eq_zero, h]

/-- What is published is valid unless the output is empty. -/
theorem publish_valid {c : Calc D} (h : c.psd.Level) (scalchange : Bool)
    (timeproc : EpicsTimeStamp) :
    (c.publish scalchange timeproc).valid = true ↔ c.psd.output ≠ [] := by
  have hpublish : (c.publish scalchange timeproc).valid = (!c.psd.output.isEmpty &&
      !c.psd.outint.isEmpty && (!scalchange || !c.psd.fscale.isEmpty)) := rfl
  rw [hpublish, isEmpty_of_length h.outint, isEmpty_of_length h.fscale, ← List.isEmpty_eq_false_iff]
  cases c.psd.output.isEmpty <;> cases scalchange <;> decide

theorem filled_of_ne {l : List D} (h : l ≠ []) : Calc.filled l = l := if_neg h

/-- What is published of a calculation that was made in this turn. -/
theorem publish_shows {c : Calc D} {snap : Snap D} {pl : Option (Planner D)} {scalchange : Bool}
    (hlevel : c.psd.Level) (hout : c.psd.output ≠ []) (hinput : snap.params.input ≠ [])
    (hresult : c.psd.result = spectrum F pl snap.params)
    (hscaled : scalchange = false → Scaled c) :
    Shows F (c.publish scalchange snap.time).published snap pl := by
  have hlen := List.length_pos_of_ne_nil hout
  have houtint : c.psd.outint ≠ [] := List.ne_nil_of_length_pos (hlevel.outint ▸ hlen)
  have hfscale : c.psd.fscale ≠ [] := List.ne_nil_of_length_pos (hlevel.fscale ▸ hlen)
  have hscale : (c.publish scalchange snap.time).scaleout = c.psd.fscale := by
    cases scalchange with
    | true => exact filled_of_ne hfscale
    | false => exact (hscaled rfl).trans (filled_of_ne hfscale)
  exact {
    input := hinput
    valout := (filled_of_ne hout).trans (congrArg Spectrum.output hresult)
    valoutint := (filled_of_ne houtint).trans (congrArg Spectrum.outint hresult)
    totalpowertime := congrArg Spectrum.totalpowertime hresult
    totalpowerfreq := congrArg Spectrum.totalpowerfreq hresult
    timeout := rfl
    scaleout := hscale.trans (congrArg Spectrum.fscale hresult)
    length := (congrArg List.length hscale).trans
      (hlevel.fscale.trans (congrArg List.length (filled_of_ne hout).symm)) }

/-- STEP: the last part, under the condition. -/
theorem publish_inv (h : Inv F (s, n)) (hc : Renews s .publish) (hs : step F s .publish = some t) :
    Inv F (t, note s .publish n) := by
  obtain ⟨c, pc⟩ := s
  cases pc with
  | waiting | calculating => cases hs
  | publishing scalchange timeproc =>
    rw [step, Option.some.injEq] at hs
    subst hs
    cases h.pc with
    | @publishing _ snap htaken hinput hresult hscaled =>
      have hdue : c.psd.replan = true → c.psd.input.data = [] := by
        intro hr
        by_contra hne
        exact Bool.noConfusion (hr.symm.trans (hresult hne).1)
      refine ⟨h.kept, h.level, .waiting hdue fun hr => ?_, fun hvalid => ?_⟩
      · cases scalchange with
        | true => rfl
        | false => exact hscaled rfl hr
      · have hout := (publish_valid h.level _ snap.time).mp hvalid
        have hne := hc.resolve_right hout
        obtain ⟨hreplan, hspectrum⟩ := hresult hne
        have hne' : snap.params.input ≠ [] := by
          intro hempty
          rw [hempty] at hinput
          exact hne (List.length_eq_zero_iff.mp hinput)
        refine ⟨snap, n.planned, ?_, publish_shows h.level hout hne' hspectrum
          fun hf => hscaled hf hreplan⟩
        rw [note, htaken]
        rfl

/-- BACK: without it something valid is published that was not calculated. -/
theorem publish_stale (h : Inv F (s, n)) (hs : step F s .publish = some t)
    (hfresh : Fresh F (t, note s .publish n)) : Renews s .publish := by
  obtain ⟨c, pc⟩ := s
  cases pc with
  | waiting | calculating => cases hs
  | publishing scalchange timeproc =>
    rw [step, Option.some.injEq] at hs
    subst hs
    cases h.pc with
    | @publishing _ snap htaken hinput hresult hscaled =>
      by_contra hstale
      obtain ⟨hempty, hout⟩ := not_or.mp hstale
      obtain ⟨snap', pl, hshown, hshows⟩ := hfresh ((publish_valid h.level _ snap.time).mpr hout)
      rw [note, htaken] at hshown
      obtain ⟨rfl, -⟩ := Prod.ext_iff.mp (Option.some.inj hshown)
      rw [not_not.mp hempty] at hinput
      exact hshows.input (List.length_eq_zero_iff.mp hinput.symm)

/-! ### Runs -/

theorem init_inv (windowtype planned : Window) :
    Inv F (Process.init windowtype planned, ⟨none, none, none⟩) :=
  ⟨Bool.noConfusion, ⟨rfl, rfl⟩, .waiting (fun _ => rfl) Bool.noConfusion, Bool.noConfusion⟩

/-- STEP: under the condition the invariant is kept. -/
theorem step_inv {a : Action D} (h : Inv F (s, n)) (hc : Renews s a) (hs : step F s a = some t) :
    Inv F (t, note s a n) := by
  by_cases hrecords : a.records = true
  · obtain ⟨e, rfl, hwork, hnote⟩ := step_records (n := n) hrecords hs
    rw [hnote]
    exact h.congr hwork.psd hwork.published
  · cases a with
    | copy => exact copy_inv h hs
    | calculate pl => exact calculate_inv h hs
    | publish => exact publish_inv h hc hs
    | _ => exact absurd rfl hrecords

/-- FRESH: what is marked as valid belongs to the input of its turn, in every state of a run, if and
    only if the run never publishes for an empty input when there is an output of a turn before. -/
theorem fresh_iff (F : Fftw D) (windowtype planned : Window) (as : List (Action D)) :
    Always (observed (step F) note) (Fresh F)
        (Process.init windowtype planned, ⟨none, none, none⟩) as ↔
      Along (observed (step F) note) (fun p a => Renews p.1 a)
        (Process.init windowtype planned, ⟨none, none, none⟩) as := by
  refine always_iff_along (I := Inv F) (fun p a q hp hc hq => ?_) (fun p hp => hp.fresh)
    (fun p a q hp hq hfresh => ?_) (init_inv windowtype planned)
  · obtain ⟨hs, hn⟩ := observed_some hq
    obtain ⟨t, m⟩ := q
    obtain rfl : m = _ := hn
    exact step_inv hp hc hs
  · obtain ⟨hs, hn⟩ := observed_some hq
    obtain ⟨t, m⟩ := q
    obtain rfl : m = _ := hn
    cases a with
    | publish => exact publish_stale hp hs hfresh
    | _ => trivial

/-- The transform of one or two samples, which is the sum and the difference. -/
def twoPoint : Fftw ℚ where
  dft samples := (List.range (samples.length / 2 + 1)).map fun k =>
    (if k = 0 then samples.sum else (samples.take 1).sum - (samples.drop 1).sum, 0)
  length_dft samples := by rw [List.length_map, List.length_range]

/-- A planner that leaves everything as it is. -/
def keeping : Planner ℚ where
  input _ samples := samples
  output _ freqs := freqs
  length_input _ _ := rfl
  length_output _ _ := rfl

/-- A turn with two samples, and one with none. -/
def emptied : List (Action ℚ) :=
  [.setNfft 2, .setFsamp 2, .setInput ⟨1, 0⟩ [1, -1], .copy, .calculate keeping, .publish,
    .setInput ⟨2, 0⟩ [], .copy, .calculate keeping, .publish]

/-- The second turn marks the spectrum of the first one as valid, with the time of the second. -/
theorem stale_valid :
    ((exec (observed (step twoPoint) note) (Process.init .none .none, ⟨none, none, none⟩)
      emptied).map fun p => (p.1.priv.published.valid, p.1.priv.valout, p.1.priv.timeout,
        p.2.shown.map fun r => r.1.params.input)) = some (true, [2], ⟨2, 0⟩, some []) ∧
    ¬ Always (observed (step twoPoint) note) (Fresh twoPoint)
      (Process.init .none .none, ⟨none, none, none⟩) emptied := by
  have hrun : ((exec (observed (step twoPoint) note)
      (Process.init .none .none, ⟨none, none, none⟩) emptied).map fun p =>
        (p.1.priv.published.valid, p.1.priv.valout, p.1.priv.timeout,
          p.2.shown.map fun r => r.1.params.input)) = some (true, [2], ⟨2, 0⟩, some []) := by
    decide +kernel
  refine ⟨hrun, fun h => ?_⟩
  obtain ⟨p, hp, hq⟩ := Option.map_eq_some_iff.mp hrun
  obtain ⟨hvalid, hq⟩ := Prod.ext_iff.mp hq
  obtain ⟨snap, pl, hshown, hs⟩ := h.exec hp hvalid
  have hinput := congrArg (fun r => r.2.2) hq
  dsimp only at hinput
  rw [hshown, Option.map_some, Option.some.injEq] at hinput
  exact hs.input hinput

end Pscdrv.Sig
