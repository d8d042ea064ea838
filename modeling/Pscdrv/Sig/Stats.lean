import Mathlib.Algebra.BigOperators.Group.List.Basic
import Mathlib.Algebra.Order.Field.Rat
import Mathlib.Algebra.Order.Ring.Cast
import Mathlib.Data.List.GetD
import Mathlib.Data.Rat.Sqrt
import Mathlib.Order.Bounds.Basic

/-! # Statistics of a waveform (`asubwf.c`)

    `wf_stats` goes through the samples of a window, which is given by a start and a width on the
    axis of a second waveform, or of the indices.

        time    t₀ ≤ t₁ ≤ t₂ ≤ … ≤ tₙ
                     ├── start ≤ t < start + width ──┤
                     continue        loop       break

    Without a start and a width the window should be the whole range. It is made from 0 and from
    the last time, and so the last sample is left out; without times it is made from the number of
    times. Numbers are elements of an ordered field, and the root is a parameter. -/

namespace Pscdrv.Sig

/-- `menuFtype` -/
inductive FieldType where
  | double
  | other
  deriving DecidableEq

/-- `dpvt`: `MAGIC` when the types were found right, and `BADMAGIC` when they were not. -/
inductive Checked where
  | notYet
  | magic
  | badMagic
  deriving DecidableEq

/-- The outputs: mean, deviation, minimum, maximum and count. -/
structure Outputs (K : Type) where
  vala : K
  neva : UInt32
  valb : K
  nevb : UInt32
  valc : K
  nevc : UInt32
  vald : K
  nevd : UInt32
  vale : UInt32

/-- The fields of the `aSubRecord` that the routine uses; `nea` and `neb` are the lengths. -/
structure ASubRec (K : Type) where
  a : List K
  b : List K
  c : K
  d : K
  ft : List FieldType
  ftv : List FieldType
  dpvt : Checked
  out : Outputs K
  length_a : a.length < 2 ^ 32
  length_b : b.length < 2 ^ 32

/-- The alarm that a call raises. -/
inductive Raised where
  | readAlarm
  | calcAlarm
  deriving DecidableEq

variable {K : Type} [Field K] [LinearOrder K]

/-- The locals of the loop; `vmin` and `vmax` are not initialised. -/
structure Sums (K : Type) where
  n : ℕ
  sum : K
  sum2 : K
  vmin : K
  vmax : K

/-- The body of the loop, for a sample of the window. -/
def Sums.add (s : Sums K) (x : K) : Sums K where
  n := s.n + 1
  sum := s.sum + x
  sum2 := s.sum2 + x * x
  vmin := if s.n = 0 then x else if x < s.vmin then x else s.vmin
  vmax := if s.n = 0 then x else if s.vmax < x then x else s.vmax

/-- The loop, over the samples with their times. -/
def scan (start width : K) : Sums K → List (K × K) → Sums K
  | s, [] => s
  | s, (t, x) :: pts =>
    if t < start then scan start width s pts
    else if start + width ≤ t then s
    else scan start width (s.add x) pts

namespace ASubRec

def usetime (prec : ASubRec K) : Bool := decide (1 < prec.b.length)

/-- The times, or the indices. -/
def times (prec : ASubRec K) : List K :=
  if prec.usetime then prec.b else (List.range prec.a.length).map fun i : ℕ => (i : K)

/-- The samples that the loop may look at. -/
def pts (prec : ASubRec K) : List (K × K) := prec.times.zip prec.a

/-- Neither a start nor a width is given. -/
def Unset (prec : ASubRec K) : Prop := prec.c ≤ 0 ∧ prec.d ≤ 0

instance (prec : ASubRec K) : Decidable prec.Unset := inferInstanceAs (Decidable (_ ∧ _))

/-- `time[neb-1]`, or `neb` -/
def range (prec : ASubRec K) : K :=
  if prec.usetime then prec.b.getD (prec.b.length - 1) 0 else prec.b.length

def start (prec : ASubRec K) : K := if prec.Unset then 0 else prec.c

def width (prec : ASubRec K) : K := if prec.Unset then prec.range else prec.d

/-- The types of the inputs and of the first two outputs. -/
def BadType (prec : ASubRec K) : Prop :=
  (∃ t ∈ prec.ft.take 4, t ≠ .double) ∨ ∃ t ∈ prec.ftv.take 2, t ≠ .double

instance (prec : ASubRec K) : Decidable prec.BadType := inferInstanceAs (Decidable (_ ∨ _))

end ASubRec

/-- What is written at the end. -/
def Sums.outputs (sqrt : K → K) (s : Sums K) : Outputs K :=
  let sum := s.sum / s.n
  let sum2 := s.sum2 / s.n
  ⟨sum, 1, sqrt (sum2 - sum * sum), 1, s.vmin, 1, s.vmax, 1, .ofNat s.n⟩

/-- `wf_stats`: the record, the alarm, and the return value. -/
def wf_stats (sqrt : K → K) (prec : ASubRec K) : ASubRec K × Option Raised × ℕ :=
  if prec.dpvt = .badMagic then (prec, none, 1)
  else if prec.dpvt ≠ .magic ∧ prec.BadType then ({ prec with dpvt := .badMagic }, none, 1)
  else
    let prec := { prec with dpvt := .magic }
    if prec.pts.length = 0 then (prec, some .readAlarm, 0)
    else
      let s := scan prec.start prec.width ⟨0, 0, 0, 0, 0⟩ prec.pts
      if s.n = 0 then (prec, some .calcAlarm, 0)
      else ({ prec with out := s.outputs sqrt }, none, 0)

/-! ### What should be reported -/

/-- All samples if the window is not set, and otherwise those of the window. -/
def chosen (prec : ASubRec K) : List K :=
  if prec.Unset then prec.pts.map Prod.snd
  else (prec.pts.filter fun p => prec.c ≤ p.1 ∧ p.1 < prec.c + prec.d).map Prod.snd

/-- The statistics of `xs` are written. -/
structure Reports (sqrt : K → K) (r : ASubRec K × Option Raised × ℕ) (xs : List K) : Prop where
  alarm : r.2.1 = none
  mean : r.1.out.vala = xs.sum / xs.length
  deviation : r.1.out.valb =
    sqrt ((xs.map fun x => x * x).sum / xs.length - xs.sum / xs.length * (xs.sum / xs.length))
  least : IsLeast {x | x ∈ xs} r.1.out.valc
  greatest : IsGreatest {x | x ∈ xs} r.1.out.vald
  count : r.1.out.vale.toNat = xs.length

/-- The chosen samples are reported, or there is an alarm as there are none in the window. -/
def Covers (sqrt : K → K) (prec : ASubRec K) : Prop :=
  if prec.Unset ∨ chosen prec ≠ [] then Reports sqrt (wf_stats sqrt prec) (chosen prec)
  else (wf_stats sqrt prec).2.1 = some .calcAlarm ∧ (wf_stats sqrt prec).1.out = prec.out

/-- The types are right. -/
def Typed (prec : ASubRec K) : Prop := prec.dpvt = .magic ∨ prec.dpvt = .notYet ∧ ¬prec.BadType

/-- The times never decrease. -/
def Sorted (prec : ASubRec K) : Prop := prec.usetime → prec.b.Pairwise (· ≤ ·)

/-- The range from 0 to the last time, or to the number of times, has all samples: no time is below
    0, and there are times behind the last sample that are above its own; or there is one sample
    and one time. -/
def Spans (prec : ASubRec K) : Prop :=
  if prec.usetime then
    0 ≤ prec.b.getD 0 0 ∧
      prec.b.getD (prec.pts.length - 1) 0 < prec.b.getD (prec.b.length - 1) 0
  else prec.a.length = 1 ∧ prec.b.length = 1

/-! ### The loop -/

omit [Field K] in
theorem pairwise_zip {times a : List K} (h : times.Pairwise (· ≤ ·)) :
    (times.zip a).Pairwise fun p q => p.1 ≤ q.1 := by
  induction times generalizing a with
  | nil => exact .nil
  | cons t times ih =>
    cases a with
    | nil => exact .nil
    | cons x a =>
      obtain ⟨hall, hrest⟩ := List.pairwise_cons.mp h
      exact .cons (fun p hp => hall p.1 (List.of_mem_zip hp).1) (ih hrest)

/-- LOOP: with times that never decrease, the samples of the window are added, and no others. -/
theorem scan_eq (start width : K) {pts : List (K × K)} (h : pts.Pairwise fun p q => p.1 ≤ q.1)
    (s : Sums K) : scan start width s pts =
      ((pts.filter fun p => start ≤ p.1 ∧ p.1 < start + width).map Prod.snd).foldl Sums.add s := by
  induction pts generalizing s with
  | nil => rfl
  | cons p pts ih =>
    obtain ⟨t, x⟩ := p
    obtain ⟨hall, hrest⟩ := List.pairwise_cons.mp h
    rw [scan]
    split
    · rename_i hlt
      rw [ih hrest, List.filter_cons_of_neg (by simp [hlt])]
    · rename_i hge
      split
      · rename_i hstop
        have hnone : (((t, x) :: pts).filter fun p => start ≤ p.1 ∧ p.1 < start + width) = [] := by
          rw [List.filter_eq_nil_iff]
          intro q hq
          have hle : t ≤ q.1 := by
            rcases List.mem_cons.mp hq with rfl | hq
            · exact le_refl _
            · exact hall q hq
          have hnot : ¬q.1 < start + width := not_lt.mpr (hstop.trans hle)
          simp [hnot]
        rw [hnone]
        rfl
      · rename_i hin
        rw [ih hrest, List.filter_cons_of_pos (by simp [not_lt.mp hge, not_le.mp hin])]
        rfl

/-- What the loop has summed up of the samples `xs`. -/
structure Sums.Of (s : Sums K) (xs : List K) : Prop where
  n : s.n = xs.length
  sum : s.sum = xs.sum
  sum2 : s.sum2 = (xs.map fun x => x * x).sum
  vmin : xs ≠ [] → IsLeast {x | x ∈ xs} s.vmin
  vmax : xs ≠ [] → IsGreatest {x | x ∈ xs} s.vmax

theorem Sums.of_nil : (⟨0, 0, 0, 0, 0⟩ : Sums K).Of [] :=
  ⟨rfl, rfl, rfl, fun h => absurd rfl h, fun h => absurd rfl h⟩

omit [Field K] [LinearOrder K] in
theorem setOf_mem_concat (xs : List K) (x : K) : {y | y ∈ xs ++ [x]} = {y | y ∈ xs} ∪ {x} := by
  ext y
  simp [or_comm]

omit [Field K] in
/-- The least sample so far, and one more. -/
theorem isLeast_concat {xs : List K} {m : K} (x : K) (h : IsLeast {y | y ∈ xs} m) :
    IsLeast {y | y ∈ xs ++ [x]} (if x < m then x else m) := by
  have hmin : (if x < m then x else m) = min m x := by
    split
    · rename_i hlt
      exact (min_eq_right hlt.le).symm
    · rename_i hge
      exact (min_eq_left (not_lt.mp hge)).symm
  rw [hmin, setOf_mem_concat]
  exact h.union isLeast_singleton

omit [Field K] in
theorem isGreatest_concat {xs : List K} {m : K} (x : K) (h : IsGreatest {y | y ∈ xs} m) :
    IsGreatest {y | y ∈ xs ++ [x]} (if m < x then x else m) := by
  have hmax : (if m < x then x else m) = max m x := by
    split
    · rename_i hlt
      exact (max_eq_right hlt.le).symm
    · rename_i hge
      exact (max_eq_left (not_lt.mp hge)).symm
  rw [hmax, setOf_mem_concat]
  exact h.union isGreatest_singleton

/-- STEP: one more sample. -/
theorem Sums.Of.add {s : Sums K} {xs : List K} (h : s.Of xs) (x : K) :
    (s.add x).Of (xs ++ [x]) := by
  refine ⟨?_, ?_, ?_, fun _ => ?_, fun _ => ?_⟩
  · rw [List.length_append, ← h.n]
    rfl
  · rw [List.sum_append, List.sum_singleton, ← h.sum]
    rfl
  · rw [List.map_append, List.sum_append, List.map_singleton, List.sum_singleton, ← h.sum2]
    rfl
  · rw [Sums.add]
    dsimp only
    split
    · rename_i hn
      obtain rfl := List.length_eq_zero_iff.mp (h.n.symm.trans hn)
      simp
    · rename_i hn
      exact isLeast_concat x (h.vmin fun hnil => hn (by rw [h.n, hnil]; rfl))
  · rw [Sums.add]
    dsimp only
    split
    · rename_i hn
      obtain rfl := List.length_eq_zero_iff.mp (h.n.symm.trans hn)
      simp
    · rename_i hn
      exact isGreatest_concat x (h.vmax fun hnil => hn (by rw [h.n, hnil]; rfl))

/-- All of them. -/
theorem Sums.Of.foldl {s : Sums K} {xs : List K} (h : s.Of xs) (ys : List K) :
    (ys.foldl Sums.add s).Of (xs ++ ys) := by
  induction ys generalizing s xs with
  | nil => rwa [List.append_nil]
  | cons y ys ih =>
    rw [List.foldl_cons, List.append_cons]
    exact ih (h.add y)

/-! ### The whole call -/

variable {sqrt : K → K} {prec : ASubRec K}

/-- The samples that the routine takes. -/
def taken (prec : ASubRec K) : List K :=
  (prec.pts.filter fun p => prec.start ≤ p.1 ∧ p.1 < prec.start + prec.width).map Prod.snd

/-- With the right types the samples are looked at. -/
theorem wf_stats_typed (ht : Typed prec) : wf_stats sqrt prec =
    if prec.pts.length = 0 then ({ prec with dpvt := .magic }, some .readAlarm, 0)
    else if (scan prec.start prec.width ⟨0, 0, 0, 0, 0⟩ prec.pts).n = 0 then
      ({ prec with dpvt := .magic }, some .calcAlarm, 0)
    else
      ({ prec with
        dpvt := .magic
        out := (scan prec.start prec.width ⟨0, 0, 0, 0, 0⟩ prec.pts).outputs sqrt }, none, 0) := by
  unfold wf_stats
  rcases ht with h | ⟨h, htype⟩
  · rw [if_neg (by simp [h]), if_neg (by simp [h])]
    rfl
  · rw [if_neg (by simp [h]), if_neg (by simp [htype])]
    rfl

omit [LinearOrder K] in
theorem length_pts_lt (prec : ASubRec K) : prec.pts.length < 2 ^ 32 := by
  rw [ASubRec.pts, List.length_zip]
  exact (Nat.min_le_right _ _).trans_lt prec.length_a

theorem length_taken_le (prec : ASubRec K) : (taken prec).length ≤ prec.pts.length := by
  rw [taken, List.length_map]
  exact List.length_filter_le _ _

/-- A window that is set is taken as it is. -/
theorem taken_of_set (h : ¬prec.Unset) : taken prec = chosen prec := by
  rw [taken, chosen, ASubRec.start, ASubRec.width, if_neg h, if_neg h, if_neg h]

/-- Of a window that is not set the routine takes all samples if and only if none has a time below
    0 or from the range on. -/
theorem taken_of_unset (h : prec.Unset) :
    (taken prec).length = prec.pts.length ↔ ∀ p ∈ prec.pts, 0 ≤ p.1 ∧ p.1 < prec.range := by
  rw [taken, ASubRec.start, ASubRec.width, if_pos h, if_pos h, zero_add, List.length_map,
    List.length_filter_eq_length_iff]
  simp only [decide_eq_true_eq]

variable [IsStrictOrderedRing K]

theorem pairwise_times (h : Sorted prec) : prec.times.Pairwise (· ≤ ·) := by
  unfold ASubRec.times
  split
  · rename_i huse
    exact h huse
  · rw [List.pairwise_map]
    exact List.pairwise_lt_range.imp fun {i j} (hlt : i < j) => (Nat.cast_le (α := K)).mpr hlt.le

/-- CALL: the statistics of the samples that are taken are written, or there is an alarm. -/
theorem wf_stats_taken (ht : Typed prec) (hs : Sorted prec) (h : prec.pts ≠ []) :
    (taken prec = [] → (wf_stats sqrt prec).2.1 = some .calcAlarm ∧
      (wf_stats sqrt prec).1.out = prec.out) ∧
    (taken prec ≠ [] → Reports sqrt (wf_stats sqrt prec) (taken prec)) := by
  have hscan := scan_eq prec.start prec.width (pairwise_zip (a := prec.a) (pairwise_times hs))
    ⟨0, 0, 0, 0, 0⟩
  have hof := Sums.of_nil.foldl (taken prec)
  rw [List.nil_append] at hof
  rw [wf_stats_typed ht, if_neg (fun h0 => h (List.length_eq_zero_iff.mp h0))]
  change scan prec.start prec.width _ prec.pts = (taken prec).foldl Sums.add _ at hscan
  rw [hscan, hof.n]
  constructor
  · intro hnil
    rw [if_pos (by rw [hnil]; rfl)]
    exact ⟨rfl, rfl⟩
  · intro hne
    have hlt : (taken prec).length < 2 ^ 32 := (length_taken_le prec).trans_lt (length_pts_lt prec)
    rw [if_neg (fun h0 => hne (List.length_eq_zero_iff.mp h0))]
    refine ⟨rfl, ?_, ?_, hof.vmin hne, hof.vmax hne, ?_⟩
    · dsimp only [Sums.outputs]
      rw [hof.sum, hof.n]
    · dsimp only [Sums.outputs]
      rw [hof.sum, hof.sum2, hof.n]
    · dsimp only [Sums.outputs]
      rw [hof.n]
      exact UInt32.toNat_ofNat_of_lt' hlt

omit [LinearOrder K] [IsStrictOrderedRing K] in
/-- The times of the samples. -/
theorem forall_pts_iff {P : K → Prop} :
    (∀ p ∈ prec.pts, P p.1) ↔ ∀ i < prec.pts.length, P (prec.times.getD i 0) := by
  have hget : ∀ i (h : i < prec.pts.length), prec.times.getD i 0 = prec.pts[i].1 := by
    intro i h
    have hlt : i < prec.times.length := by
      rw [ASubRec.pts, List.length_zip] at h
      omega
    rw [List.getD_eq_getElem _ _ hlt]
    exact (congrArg Prod.fst (List.getElem_zip (h := h))).symm
  constructor
  · intro hall i h
    rw [hget i h]
    exact hall _ (List.getElem_mem h)
  · intro hall p hp
    obtain ⟨i, h, rfl⟩ := List.mem_iff_getElem.mp hp
    rw [← hget i h]
    exact hall i h

omit [Field K] [IsStrictOrderedRing K] in
/-- An element behind another is not below it. -/
theorem getD_mono [Zero K] {l : List K} (h : l.Pairwise (· ≤ ·)) {i j : ℕ} (hij : i ≤ j)
    (hj : j < l.length) : l.getD i 0 ≤ l.getD j 0 := by
  rw [List.getD_eq_getElem _ _ (hij.trans_lt hj), List.getD_eq_getElem _ _ hj]
  rcases hij.eq_or_lt with rfl | hlt
  · exact le_refl _
  · exact List.pairwise_iff_getElem.mp h i j _ hj hlt

/-- The default range has all samples if and only if it reaches beyond the first and the last. -/
theorem spans_iff (hs : Sorted prec) (h : prec.pts ≠ []) :
    (∀ p ∈ prec.pts, 0 ≤ p.1 ∧ p.1 < prec.range) ↔ Spans prec := by
  have hpos : 0 < prec.pts.length := List.length_pos_of_ne_nil h
  have hlen : prec.pts.length = min prec.times.length prec.a.length := List.length_zip
  rw [forall_pts_iff (P := fun t => 0 ≤ t ∧ t < prec.range), Spans, ASubRec.range]
  cases huse : prec.usetime with
  | true =>
    have htimes : prec.times = prec.b := if_pos huse
    have hsorted := hs huse
    rw [if_pos rfl, if_pos rfl, htimes]
    rw [htimes] at hlen
    constructor
    · exact fun hall => ⟨(hall 0 hpos).1, (hall _ (Nat.sub_lt hpos Nat.one_pos)).2⟩
    · rintro ⟨hfirst, hlast⟩ i hi
      exact ⟨hfirst.trans (getD_mono hsorted (Nat.zero_le i) (by omega)),
        (getD_mono hsorted (by omega) (by omega)).trans_lt hlast⟩
  | false =>
    have htimes : prec.times = (List.range prec.a.length).map fun i : ℕ => (i : K) :=
      if_neg (by rw [huse]; decide)
    have hneb : ¬1 < prec.b.length := of_decide_eq_false huse
    rw [htimes, List.length_map, List.length_range, Nat.min_self] at hlen
    have hget : ∀ i < prec.pts.length, prec.times.getD i 0 = i := by
      intro i hi
      rw [htimes, List.getD_eq_getElem _ _ (by simpa using hlen ▸ hi)]
      simp
    rw [if_neg Bool.false_ne_true, if_neg Bool.false_ne_true]
    constructor
    · intro hall
      have hlast := (hall _ (Nat.sub_lt hpos Nat.one_pos)).2
      rw [hget _ (Nat.sub_lt hpos Nat.one_pos), Nat.cast_lt] at hlast
      omega
    · rintro ⟨ha, hb⟩ i hi
      rw [hget i hi, hb]
      have hi0 : i = 0 := by omega
      rw [hi0]
      simp

/-- COVER: with data, a window that is set covers exactly its samples; the default one covers all
    samples if and only if the range from 0 to the last time, or to the number of times, does. -/
theorem covers_iff (sqrt : K → K) (prec : ASubRec K) (ht : Typed prec) (hs : Sorted prec) :
    Covers sqrt prec ↔ prec.pts ≠ [] ∧ (prec.Unset → Spans prec) := by
  by_cases h : prec.pts = []
  · have halarm : (wf_stats sqrt prec).2.1 = some .readAlarm := by
      rw [wf_stats_typed ht, if_pos (by rw [h]; rfl)]
    refine iff_of_false (fun hcov => ?_) fun hne => hne.1 h
    unfold Covers at hcov
    split at hcov
    · exact nomatch halarm.symm.trans hcov.alarm
    · exact nomatch halarm.symm.trans hcov.1
  rw [and_iff_right h]
  obtain ⟨hnone, hsome⟩ : (taken prec = [] → (wf_stats sqrt prec).2.1 = some .calcAlarm ∧
      (wf_stats sqrt prec).1.out = prec.out) ∧
      (taken prec ≠ [] → Reports sqrt (wf_stats sqrt prec) (taken prec)) := wf_stats_taken ht hs h
  by_cases hset : prec.Unset
  · have hmap : (prec.pts.map Prod.snd).length = prec.pts.length := List.length_map Prod.snd
    rw [Covers, if_pos (.inl hset), imp_iff_right hset, ← spans_iff hs h, ← taken_of_unset hset,
      chosen, if_pos hset, ← hmap]
    have hsub : (taken prec).Sublist (prec.pts.map Prod.snd) := List.filter_sublist.map _
    constructor
    · intro hrep
      have hne : taken prec ≠ [] := fun hnil => nomatch hrep.alarm.symm.trans (hnone hnil).1
      exact (hsome hne).count.symm.trans hrep.count
    · intro hlen
      have hall := hsub.eq_of_length hlen
      rw [← hall]
      refine hsome fun hnil => h ?_
      rw [hall] at hnil
      exact List.map_eq_nil_iff.mp hnil
  · rw [Covers, ← taken_of_set hset]
    refine iff_of_true ?_ fun hu => absurd hu hset
    split
    · rename_i hne
      exact hsome (hne.resolve_left hset)
    · rename_i hnil
      exact hnone (not_not.mp fun hne => hnil (.inr hne))

/-- The samples 1 to 5 with some times and a window. -/
def five (b : List ℚ) (c d : ℚ) (h : b.length < 2 ^ 32) : ASubRec ℚ where
  a := [1, 2, 3, 4, 5]
  b := b
  c := c
  d := d
  ft := List.replicate 4 .double
  ftv := List.replicate 5 .double
  dpvt := .notYet
  out := ⟨0, 0, 0, 0, 0, 0, 0, 0, 0⟩
  length_a := by decide
  length_b := h

/-- A window that is set, on a time axis with the same time twice. -/
theorem covers_window : Covers Rat.sqrt (five [0, 1, 1, 2, 3] 1 (1 / 2) (by decide)) :=
  (covers_iff Rat.sqrt _ (.inr ⟨rfl, by decide⟩) fun _ => by decide).mpr
    ⟨by decide, fun h => absurd h (by decide)⟩

/-- Without a window the statistics should be of five samples. They are of one when there is one
    time, of none when there is no time, and of four when there are five. -/
theorem default_drops :
    (wf_stats Rat.sqrt (five [0] 0 0 (by decide))).1.out.vale = 1 ∧
    (wf_stats Rat.sqrt (five [] 0 0 (by decide))).2.1 = some .calcAlarm ∧
    (wf_stats Rat.sqrt (five [0, 1, 2, 3, 4] 0 0 (by decide))).1.out.vale = 4 ∧
    ¬ Covers Rat.sqrt (five [0] 0 0 (by decide)) ∧ ¬ Covers Rat.sqrt (five [] 0 0 (by decide)) ∧
    ¬ Covers Rat.sqrt (five [0, 1, 2, 3, 4] 0 0 (by decide)) := by
  refine ⟨by decide +kernel, by decide +kernel, by decide +kernel, fun h => ?_, fun h => ?_,
    fun h => ?_⟩
  · rw [Covers, if_pos (.inl (by decide))] at h
    exact absurd h.count (by decide +kernel)
  · rw [Covers, if_pos (.inl (by decide))] at h
    exact absurd h.alarm (by decide +kernel)
  · rw [Covers, if_pos (.inl (by decide))] at h
    exact absurd h.count (by decide +kernel)

end Pscdrv.Sig
