import Pscdrv.Records.Support
import Pscdrv.Sig.PsdCalc

/-! # Records of a spectrum (`fftcalc.cpp`)

    A `Calc` holds what the records of one spectrum write and read. The input record reads its link
    into its own buffer and copies a window of that into `valin`.

        the link   ├────────── n delivered ──────────┤
        buffer     ├────── start ──────┼── width ────────┤
        valin                          ├─ copied ────────┤

    The number of elements to copy is bounded by `width`, and by the number that was delivered; but
    they are taken from `start` on. -/

namespace Pscdrv.Sig

open Double
open Records (Alarm)

/-! ### `struct Calc` -/

/-- The fields that the records and the worker share; `wake` is the event. -/
structure Calc (D : Type) where
  wake : Bool
  windowtype : Window
  fsamp : D
  mult : D
  nfft : UInt64
  sampStart : UInt32
  sampWidth : UInt32
  timein : EpicsTimeStamp
  timeout : EpicsTimeStamp
  valin : List D
  valout : List D
  window : List D
  scaleout : List D
  valoutint : List D
  totalpowertime : D
  totalpowerfreq : D
  valid : Bool
  psd : PSDCalc D

variable {D : Type}

namespace Calc

/-- `Calc::Calc`; the types of the two windows are not initialised. -/
def init [Double D] (windowtype planned : Window) : Calc D where
  wake := false
  windowtype := windowtype
  fsamp := zero
  mult := one
  nfft := 0
  sampStart := 0
  sampWidth := 0
  timein := ⟨0, 0⟩
  timeout := ⟨0, 0⟩
  valin := []
  valout := []
  window := []
  scaleout := []
  valoutint := []
  totalpowertime := zero
  totalpowerfreq := zero
  valid := false
  psd := .init planned

/-- `Calc::poke` -/
def poke (c : Calc D) : Calc D := { c with wake := true }

/-- `set_nfft`, with its return value: what is compared is not extended by the sign, but what is
    stored is. -/
def set_nfft (c : Calc D) (val : Int32) : Calc D × ℕ :=
  if c.nfft = val.toUInt32.toUInt64 then (c, 0)
  else ({ c with nfft := val.toInt64.toUInt64 }.poke, 0)

/-- `set_fsamp`, for the value of the record in engineering units -/
def set_fsamp [Double D] (c : Calc D) (fsamp : D) : Calc D × ℕ :=
  if Double.eq c.fsamp fsamp then (c, 0) else ({ c with fsamp := fsamp }.poke, 2)

/-- `set_scale` -/
def set_scale [Double D] (c : Calc D) (mult : D) : Calc D × ℕ :=
  if Double.eq c.mult mult then (c, 0) else ({ c with mult := mult }.poke, 2)

/-- `set_start` -/
def set_start (c : Calc D) (val : Int32) : Calc D × ℕ :=
  if c.sampStart = val.toUInt32 then (c, 0) else ({ c with sampStart := val.toUInt32 }, 2)

/-- `set_width` -/
def set_width (c : Calc D) (val : Int32) : Calc D × ℕ :=
  if c.sampWidth = val.toUInt32 then (c, 0) else ({ c with sampWidth := val.toUInt32 }, 2)

/-- `set_windtype` -/
def set_windtype (c : Calc D) (rval : UInt32) (alarm : Alarm) : Calc D × Alarm :=
  if rval = 0 then ({ c with windowtype := .none }, alarm)
  else if rval = 1 then ({ c with windowtype := .hann }, alarm)
  else (c, alarm.setSevr .write .invalid)

/-- What `set_wf_input` stores. -/
def store (c : Calc D) (srctime : EpicsTimeStamp) (samples : List D) : Calc D :=
  { c with timein := srctime, valin := samples }.poke

end Calc

/-! ### The input record -/

/-- The input of a spectrum (a `waveformRecord` of doubles); a pointer to a `Calc` is its name. -/
structure WfInput (D : Type) where
  dpvt : Option String
  calcname : Option String
  nelm : UInt32
  bptr : List D
  nord : UInt32
  tse : ℤ
  time : EpicsTimeStamp
  length_bptr : bptr.length = nelm.toNat

/-- `inp`: what `dbGetLink` gives for a request, the time of the link, and the current time. -/
structure InpLink (D : Type) where
  get : ℕ → Option (List D)
  time : Option EpicsTimeStamp
  now : EpicsTimeStamp
  get_le : ∀ {nReq : ℕ} {l : List D}, get nReq = some l → l.length ≤ nReq

/-- `calcs` -/
abbrev Calcs (D : Type) := String → Option (Calc D)

/-- `n` elements of an array from `start` on, unless that leads out of it. -/
def elements (mem : List D) (start n : ℕ) : Option (List D) :=
  if n = 0 ∨ start + n ≤ mem.length then some ((mem.drop start).take n) else none

/-- The samples of a window are selected. -/
def usewindow (priv : Calc D) : Bool := decide (0 ≤ priv.sampStart) && decide (0 < priv.sampWidth)

/-- The number of elements to ask for; the sum is one of 32 bits. -/
def request (priv : Calc D) (nelm : UInt32) : ℕ :=
  if usewindow priv ∧ (priv.sampStart + priv.sampWidth).toNat < nelm.toNat then
    (priv.sampStart + priv.sampWidth).toNat
  else nelm.toNat

/-- The element of the buffer that is copied first. -/
def first (priv : Calc D) : ℕ := if usewindow priv then priv.sampStart.toNat else 0

namespace WfInput

/-- The `Calc` of the record; link retargeting wipes `dpvt`. -/
def bound (calcs : Calcs D) (prec : WfInput D) : Option (String × Calc D) :=
  match prec.dpvt with
  | some name => (calcs name).map (name, ·)
  | none => prec.calcname.bind fun cname => (calcs cname).map (cname, ·)

theorem length_deliver (prec : WfInput D) (l : List D) :
    ((l ++ prec.bptr.drop l.length).take prec.nelm.toNat).length = prec.nelm.toNat := by
  rw [List.length_take, List.length_append, List.length_drop, prec.length_bptr]
  omega

/-- The elements of the link are written to the front of the buffer. -/
def deliver (prec : WfInput D) (l : List D) : WfInput D :=
  { prec with
    bptr := (l ++ prec.bptr.drop l.length).take prec.nelm.toNat
    nord := .ofNat l.length
    length_bptr := prec.length_deliver l }

/-- The call of `dbGetLink`, and the time of what it gave. -/
def readLink (link : InpLink D) (nReq : ℕ) (prec : WfInput D) : WfInput D × EpicsTimeStamp :=
  match link.get nReq with
  | some l => (prec.deliver l, link.time.getD link.now)
  | none => (prec, link.now)

/-- No more elements than the window has. -/
def clip (priv : Calc D) (prec : WfInput D) : WfInput D :=
  if usewindow priv ∧ priv.sampWidth < prec.nord then { prec with nord := priv.sampWidth } else prec

/-- The record takes its time from the input. -/
def stamp (srctime : EpicsTimeStamp) (prec : WfInput D) : WfInput D :=
  if prec.tse = -2 then { prec with time := srctime } else prec

end WfInput

/-- `set_wf_input`; a fault is a read outside of the buffer. -/
def set_wf_input (link : InpLink D) (calcs : Calcs D) (prec : WfInput D) :
    Option (Calcs D × WfInput D) :=
  match prec.bound calcs with
  | none => some (calcs, prec)
  | some (name, priv) =>
    let (prec, srctime) :=
      { prec with dpvt := some name }.readLink link (request priv prec.nelm)
    let prec := prec.clip priv
    (elements prec.bptr (first priv) prec.nord.toNat).map fun samples =>
      (fun cname => if cname = name then some (priv.store srctime samples) else calcs cname,
        prec.stamp srctime)

/-! ### The selected window -/

/-- The elements with an index from `start` on and below `start + width`; all, if `width` is 0. -/
def window (start width : ℕ) (l : List D) : List D :=
  if width = 0 then l else (l.take (start + width)).drop start

/-- Of the elements `l` that were delivered the routine copies those of the window, and it looks at
    no others; the end of the window is a number of 32 bits. -/
def Selects (link : InpLink D) (calcs : Calcs D) (prec : WfInput D) (name : String) (priv : Calc D)
    (l : List D) : Prop :=
  (priv.sampWidth ≠ 0 → priv.sampStart.toNat + priv.sampWidth.toNat < 2 ^ 32) ∧
    ∃ calcs' prec' priv', set_wf_input link calcs prec = some (calcs', prec') ∧
      calcs' name = some priv' ∧
      priv'.valin = window priv.sampStart.toNat priv.sampWidth.toNat l ∧
      (prec'.nord = 0 ∨ first priv + prec'.nord.toNat ≤ l.length)

/-- All elements are asked for, or the window starts at the first one, lies within those that were
    delivered, or none were. -/
def Within (priv : Calc D) (n : ℕ) : Prop :=
  priv.sampWidth = 0 ∨ priv.sampStart.toNat + priv.sampWidth.toNat < 2 ^ 32 ∧
    (priv.sampStart = 0 ∨ n = 0 ∨ priv.sampStart.toNat + priv.sampWidth.toNat ≤ n)

theorem length_window {start width : ℕ} (h : width ≠ 0) (l : List D) :
    (window start width l).length = min (start + width) l.length - start := by
  rw [window, if_neg h, List.length_drop, List.length_take]

theorem usewindow_iff (priv : Calc D) : usewindow priv ↔ priv.sampWidth ≠ 0 := by
  simp [usewindow, UInt32.pos_iff_ne_zero]

theorem request_le (priv : Calc D) (nelm : UInt32) : request priv nelm ≤ nelm.toNat := by
  unfold request
  split
  · rename_i h
    exact h.2.le
  · exact Nat.le_refl _

namespace WfInput

variable (prec : WfInput D) (priv : Calc D)

@[simp] theorem clip_bptr : (prec.clip priv).bptr = prec.bptr := by
  unfold clip
  split <;> rfl

@[simp] theorem stamp_nord (srctime : EpicsTimeStamp) : (prec.stamp srctime).nord = prec.nord := by
  unfold stamp
  split <;> rfl

theorem clip_nord (h : priv.sampWidth ≠ 0) :
    (prec.clip priv).nord.toNat = min priv.sampWidth.toNat prec.nord.toNat := by
  have huse := (usewindow_iff priv).mpr h
  unfold clip
  split
  · rename_i hlt
    exact (Nat.min_eq_left (UInt32.lt_iff_toNat_lt.mp hlt.2).le).symm
  · rename_i hle
    have hle' : ¬priv.sampWidth.toNat < prec.nord.toNat := fun hlt =>
      hle ⟨huse, UInt32.lt_iff_toNat_lt.mpr hlt⟩
    omega

theorem clip_of_all (h : priv.sampWidth = 0) : prec.clip priv = prec :=
  if_neg fun hclip => (usewindow_iff priv).mp hclip.1 h

theorem deliver_bptr {l : List D} (hle : l.length ≤ prec.nelm.toNat) :
    ∃ more, (prec.deliver l).bptr = l ++ more := by
  refine ⟨(prec.bptr.drop l.length).take (prec.nelm.toNat - l.length), ?_⟩
  change (l ++ prec.bptr.drop l.length).take prec.nelm.toNat = _
  rw [List.take_append, List.take_of_length_le hle]

theorem deliver_nord {l : List D} (hle : l.length ≤ prec.nelm.toNat) :
    (prec.deliver l).nord.toNat = l.length :=
  UInt32.toNat_ofNat_of_lt' (hle.trans_lt prec.nelm.toNat_lt)

end WfInput

section Select

variable {link : InpLink D} {calcs : Calcs D} {prec : WfInput D} {name : String} {priv : Calc D}
  {l : List D}

theorem first_of_all (h : priv.sampWidth = 0) : first priv = 0 :=
  if_neg fun huse => (usewindow_iff priv).mp huse h

theorem first_of_window (h : priv.sampWidth ≠ 0) : first priv = priv.sampStart.toNat :=
  if_pos ((usewindow_iff priv).mpr h)

/-- What the routine does with the elements it was given: it copies from a buffer that begins with
    them. -/
theorem set_wf_input_get (hbound : prec.bound calcs = some (name, priv))
    (hget : link.get (request priv prec.nelm) = some l) :
    ∃ (prec₁ : WfInput D) (srctime : EpicsTimeStamp) (more : List D),
      prec₁.nord.toNat = l.length ∧ prec₁.bptr = l ++ more ∧
      set_wf_input link calcs prec =
        (elements (l ++ more) (first priv) (prec₁.clip priv).nord.toNat).map fun samples =>
          (fun cname => if cname = name then some (priv.store srctime samples) else calcs cname,
            (prec₁.clip priv).stamp srctime) := by
  have hle : l.length ≤ prec.nelm.toNat := (link.get_le hget).trans (request_le priv _)
  have hread : { prec with dpvt := some name }.readLink link (request priv prec.nelm) =
      ({ prec with dpvt := some name }.deliver l, link.time.getD link.now) := by
    rw [WfInput.readLink, hget]
  obtain ⟨more, hmore⟩ := { prec with dpvt := some name }.deliver_bptr hle
  refine ⟨{ prec with dpvt := some name }.deliver l, link.time.getD link.now, more,
    WfInput.deliver_nord _ hle, hmore, ?_⟩
  rw [set_wf_input, hbound]
  dsimp only
  rw [hread, WfInput.clip_bptr, hmore]

/-- The window is selected from the elements that were delivered. -/
theorem window_eq_elements {start width : ℕ} {more : List D} (hwidth : width ≠ 0)
    (h : start = 0 ∨ l = [] ∨ start + width ≤ l.length) :
    elements (l ++ more) start (min width l.length) = some (window start width l) := by
  rw [window, if_neg hwidth]
  rcases h with rfl | rfl | h
  · have hmin : min width l.length ≤ (l ++ more).length := by
      rw [List.length_append]
      omega
    rw [elements, if_pos (.inr (by omega)), List.drop_zero, Nat.zero_add, List.drop_zero,
      List.take_append_of_le_length (Nat.min_le_right _ _), ← List.take_eq_take_min]
  · rw [elements, if_pos (.inl (Nat.min_zero width)), List.length_nil, Nat.min_zero, List.take_zero,
      List.take_nil, List.drop_nil]
  · rw [Nat.min_eq_left (by omega), elements, if_pos (.inr (by rw [List.length_append]; omega)),
      List.drop_append_of_le_length (by omega), List.take_append_of_le_length,
      List.drop_take, Nat.add_sub_cancel_left]
    rw [List.length_drop]
    omega

theorem length_elements {mem samples : List D} {start n : ℕ}
    (h : elements mem start n = some samples) : samples.length = n := by
  unfold elements at h
  split at h
  · rename_i hin
    rw [Option.some.injEq] at h
    rw [← h, List.length_take, List.length_drop]
    omega
  · cases h

/-- SELECT: of the elements that were delivered exactly those of the window are copied if and only
    if the window starts at the first one or they reach to its end. -/
theorem selects_iff (hbound : prec.bound calcs = some (name, priv))
    (hget : link.get (request priv prec.nelm) = some l) :
    Selects link calcs prec name priv l ↔ Within priv l.length := by
  obtain ⟨prec₁, srctime, more, hnord, -, hset⟩ := set_wf_input_get hbound hget
  by_cases hwidth : priv.sampWidth = 0
  · refine iff_of_true ⟨fun h => absurd hwidth h, ?_⟩ (.inl hwidth)
    have hall : elements (l ++ more) 0 l.length = some l := by
      rw [elements, if_pos (.inr (by rw [List.length_append]; omega)), List.drop_zero,
        List.take_left]
    rw [WfInput.clip_of_all _ _ hwidth, first_of_all hwidth, hnord, hall] at hset
    refine ⟨_, _, _, hset, if_pos rfl, ?_, .inr ?_⟩
    · rw [hwidth]
      rfl
    · rw [first_of_all hwidth, WfInput.stamp_nord, hnord, Nat.zero_add]
  · have hwidth' : priv.sampWidth.toNat ≠ 0 := fun h => hwidth (UInt32.toNat_inj.mp h)
    have hstart : priv.sampStart = 0 ↔ priv.sampStart.toNat = 0 := UInt32.toNat_inj.symm
    have hcount : (prec₁.clip priv).nord.toNat = min priv.sampWidth.toNat l.length := by
      rw [WfInput.clip_nord _ _ hwidth, hnord]
    rw [hcount, first_of_window hwidth] at hset
    rw [Within, or_iff_right hwidth]
    constructor
    · rintro ⟨hwrap, calcs', prec', priv', hs, hpriv, hval, -⟩
      refine ⟨hwrap hwidth, ?_⟩
      obtain ⟨samples, hsamples, heq⟩ := Option.map_eq_some_iff.mp (hset.symm.trans hs)
      obtain ⟨rfl, -⟩ := Prod.ext_iff.mp heq
      dsimp only at hpriv
      rw [if_pos rfl, Option.some.injEq] at hpriv
      have hlen := length_elements hsamples
      have hval' : samples = _ := (congrArg Calc.valin hpriv).trans hval
      rw [hval', length_window hwidth'] at hlen
      rw [hstart]
      omega
    · rintro ⟨hlt, h⟩
      have hsel : priv.sampStart.toNat = 0 ∨ l = [] ∨
          priv.sampStart.toNat + priv.sampWidth.toNat ≤ l.length :=
        h.imp hstart.mp (.imp_left List.length_eq_zero_iff.mp)
      rw [window_eq_elements hwidth' hsel] at hset
      refine ⟨fun _ => hlt, _, _, _, hset, if_pos rfl, rfl, ?_⟩
      rw [first_of_window hwidth, WfInput.stamp_nord, ← UInt32.toNat_inj, hcount]
      rcases hsel with h0 | rfl | hin
      · right
        omega
      · exact .inl (Nat.min_zero _)
      · right
        omega

end Select

/-- A link to 12 elements. -/
def twelve : InpLink ℚ where
  get nReq := some (((List.range 12).map fun i : ℕ => (i : ℚ)).take nReq)
  time := none
  now := ⟨0, 0⟩
  get_le h := by
    rw [← Option.some.inj h]
    exact List.length_take_le _ _

/-- A record with a buffer of 20 elements, which are all 100. -/
def twenty : WfInput ℚ where
  dpvt := some "psd"
  calcname := some "psd"
  nelm := 20
  bptr := List.replicate 20 100
  nord := 0
  tse := 0
  time := ⟨0, 0⟩
  length_bptr := rfl

/-- A spectrum of a window. -/
def selecting (start width : Int32) : Calc ℚ :=
  (((Calc.init .none .none).set_start start).1.set_width width).1

/-- Two elements from index 5 on: the seven that are asked for are there. -/
theorem selects_two : Selects twelve (fun _ => some (selecting 5 2)) twenty "psd" (selecting 5 2)
    [0, 1, 2, 3, 4, 5, 6] :=
  (selects_iff rfl rfl).mpr (.inr ⟨by decide, .inr (.inr (by decide))⟩)

/-- Ten elements from index 5 on, of 12: those with an index from 5 to 11 should be copied. The
    routine copies three more, from behind the elements that were delivered. Two elements from the
    largest index on would end behind the numbers of 32 bits: one element is asked for. -/
theorem selects_past : request (selecting (-1) 2) 20 = 1 ∧
    twelve.get (request (selecting 5 10) 20) = some [0, 1, 2, 3, 4, 5, 6, 7, 8, 9, 10, 11] ∧
    ((set_wf_input twelve (fun _ => some (selecting 5 10)) twenty).bind fun r =>
      (r.1 "psd").map Calc.valin) = some [5, 6, 7, 8, 9, 10, 11, 100, 100, 100] ∧
    ¬ Selects twelve (fun _ => some (selecting 5 10)) twenty "psd" (selecting 5 10)
      [0, 1, 2, 3, 4, 5, 6, 7, 8, 9, 10, 11] := by
  have hrun : ((set_wf_input twelve (fun _ => some (selecting 5 10)) twenty).bind fun r =>
      (r.1 "psd").map Calc.valin) = some [5, 6, 7, 8, 9, 10, 11, 100, 100, 100] := rfl
  refine ⟨rfl, rfl, hrun, ?_⟩
  rintro ⟨-, calcs', prec', priv', hs, hpriv, hval, -⟩
  rw [hs, Option.bind_some] at hrun
  dsimp only at hrun
  rw [hpriv, Option.map_some, hval] at hrun
  exact absurd hrun (by decide)

end Pscdrv.Sig
