import Mathlib.Data.ENat.Lattice
import Mathlib.Data.Set.Card
import Mathlib.Order.Interval.Finset.Nat
import Pscdrv.Records.Support

/-! # The arithmetic of `copyout_shape`

    A shape is a row of elements of `esize` bytes with gaps of `eskip` bytes. Of the `ecount`
    elements that are asked for, those count that lie inside the block as a whole.

        block   ├── offset ──┤ e₀ │ gap │ e₁ │ gap │ e₂ │ … ┤
                              esize eskip

    The number is found by a division, with sums of 64 bits. Elements without a size, or gaps that
    are near the end of the range of a `size_t`, lead out of what this arithmetic is good for. -/

namespace Pscdrv.Records

variable {E : Type} [Libevent E]

/-- The arguments of `copyout_shape`, of type `size_t`. -/
structure ShapeArgs where
  offset : UInt64
  esize : UInt64
  eskip : UInt64
  ecount : UInt64

namespace ShapeArgs

def step (a : ShapeArgs) : ℕ := a.esize.toNat + a.eskip.toNat

/-- Element `i` lies inside a buffer of `size` bytes. -/
def Inside (a : ShapeArgs) (size i : ℕ) : Prop :=
  a.offset.toNat + i * a.step + a.esize.toNat ≤ size

/-- The number of elements inside the buffer, which may be without bound, and at most `ecount`. -/
noncomputable def exactCount (a : ShapeArgs) (size : ℕ) : ℕ∞ :=
  min a.ecount.toNat (Set.encard {i | a.Inside size i})

/-- The sums are formed unless the request is empty or starts behind the content. -/
def Evaluated (a : ShapeArgs) (size : ℕ) : Prop := a.ecount.toNat ≠ 0 ∧ a.offset.toNat < size

/-- The sum of which the count is a quotient. -/
def room (a : ShapeArgs) (size : ℕ) : ℕ := size - a.offset.toNat + a.eskip.toNat

/-- Nothing is asked for, or what is asked for lies behind the end, or at the end and has a size;
    elsewhere the elements advance, and both sums are below `2^64`. -/
def Regular (a : ShapeArgs) (size : ℕ) : Prop :=
  a.ecount.toNat = 0 ∨ size < a.offset.toNat ∨ size = a.offset.toNat ∧ 0 < a.esize.toNat ∨
    a.offset.toNat < size ∧ 0 < a.step ∧ a.step < 2 ^ 64 ∧ a.room size < 2 ^ 64

end ShapeArgs

/-- A call of `copyout_shape` on the data of a block. -/
def BlockData.shape (d : BlockData E) (a : ShapeArgs) : Option (List UInt8 × ℕ) :=
  d.copyoutShape a.offset.toNat a.esize.toNat a.eskip.toNat a.ecount.toNat

/-- The call does not divide by zero, its sums do not overflow, and it counts the elements
    exactly. -/
structure Exact (d : BlockData E) (a : ShapeArgs) : Prop where
  step : a.Evaluated d.mem.length → a.step < 2 ^ 64
  room : a.Evaluated d.mem.length → a.room d.mem.length < 2 ^ 64
  count : ∃ out n, d.shape a = some (out, n) ∧ (n : ℕ∞) = a.exactCount d.mem.length

namespace ShapeArgs

variable (a : ShapeArgs) {size : ℕ}

/-- An empty request counts nothing. -/
theorem exactCount_empty (h : a.ecount.toNat = 0) : a.exactCount size = 0 := by
  simp [exactCount, h]

/-- No element starts behind the end. -/
theorem exactCount_behind (h : ∀ i, ¬a.Inside size i) : a.exactCount size = 0 := by
  have hnone : {i | a.Inside size i} = ∅ := Set.eq_empty_of_forall_notMem h
  simp [exactCount, hnone]

/-- An element of no size lies at the end. -/
theorem exactCount_end (hcount : a.ecount.toNat ≠ 0) (h : a.Inside size 0) :
    a.exactCount size ≠ 0 := by
  have hmem : (0 : ℕ) ∈ {i | a.Inside size i} := h
  have hcard : Set.encard {i | a.Inside size i} ≠ 0 := Set.encard_ne_zero_of_mem hmem
  rw [exactCount, ← pos_iff_ne_zero, lt_min_iff]
  exact ⟨by exact_mod_cast Nat.pos_of_ne_zero hcount, pos_iff_ne_zero.mpr hcard⟩

/-- COUNT: elements that advance are counted by a division. -/
theorem exactCount_div (hstep : 0 < a.step) (ho : a.offset.toNat ≤ size) :
    a.exactCount size = (min a.ecount.toNat (a.room size / a.step) : ℕ) := by
  have hset : {i | a.Inside size i} = Set.Iio (a.room size / a.step) := by
    ext i
    exact Flat.fits_iff hstep ho i
  rw [exactCount, hset, ← Finset.coe_Iio, Set.encard_coe_eq_coe_finsetCard, Nat.card_Iio]
  exact (Nat.mono_cast.map_min).symm

end ShapeArgs

/-- The code, where no sum is formed. -/
theorem BlockData.shape_empty (d : BlockData E) {a : ShapeArgs}
    (h : ¬a.Evaluated d.mem.length) : d.shape a = some ([], 0) := by
  have hempty : a.ecount.toNat = 0 ∨ d.size ≤ a.offset.toNat := by
    rw [d.size_eq]
    unfold ShapeArgs.Evaluated at h
    omega
  exact if_pos hempty

/-- The code, where the sums do not overflow. -/
theorem BlockData.shape_div (d : BlockData E) {a : ShapeArgs} (h : a.Evaluated d.mem.length)
    (hstep : a.step < 2 ^ 64) (hroom : a.room d.mem.length < 2 ^ 64) :
    (d.shape a).map Prod.snd = if a.step = 0 then none
      else some (min a.ecount.toNat (a.room d.mem.length / a.step)) := by
  have hout : ¬(a.ecount.toNat = 0 ∨ d.size ≤ a.offset.toNat) := by
    rw [d.size_eq]
    have := h.1
    have := h.2
    omega
  have hs : (a.esize.toNat + a.eskip.toNat) % 2 ^ 64 = a.step := Nat.mod_eq_of_lt hstep
  have hr : (d.size - a.offset.toNat + a.eskip.toNat) % 2 ^ 64 = a.room d.mem.length := by
    rw [d.size_eq]
    exact Nat.mod_eq_of_lt hroom
  have hmin : ∀ fit : ℕ, (if a.ecount.toNat < fit then a.ecount.toNat else fit) =
      min a.ecount.toNat fit := by
    intro fit
    split <;> omega
  unfold shape DBuffer.copyoutShape
  simp only [if_neg hout, hs, hr, hmin]
  split_ifs <;> rfl

/-- A call that does not fault tells its count. -/
theorem exact_count_iff {d : BlockData E} {a : ShapeArgs} {n : ℕ}
    (h : (d.shape a).map Prod.snd = some n) :
    (∃ out m, d.shape a = some (out, m) ∧ (m : ℕ∞) = a.exactCount d.mem.length) ↔
      (n : ℕ∞) = a.exactCount d.mem.length := by
  obtain ⟨⟨out, m⟩, hrun, rfl⟩ := Option.map_eq_some_iff.mp h
  constructor
  · rintro ⟨out', m', hrun', hexact⟩
    cases hrun.symm.trans hrun'
    exact hexact
  · intro hexact
    exact ⟨out, m, hrun, hexact⟩

/-- The code counts nothing, which is right if there is nothing to count. -/
theorem exact_empty_iff {d : BlockData E} {a : ShapeArgs} (h : ¬a.Evaluated d.mem.length) :
    Exact d a ↔ a.exactCount d.mem.length = 0 := by
  have hcount := exact_count_iff (congrArg (Option.map Prod.snd) (d.shape_empty h))
  constructor
  · intro hex
    exact (hcount.mp hex.count).symm
  · intro hzero
    exact ⟨fun he => absurd he h, fun he => absurd he h, hcount.mpr hzero.symm⟩

/-- Inside the block the step must not be 0, and the sums must not overflow. -/
theorem exact_evaluated_iff {d : BlockData E} {a : ShapeArgs} (h : a.Evaluated d.mem.length) :
    Exact d a ↔ 0 < a.step ∧ a.step < 2 ^ 64 ∧ a.room d.mem.length < 2 ^ 64 := by
  constructor
  · intro hex
    refine ⟨Nat.pos_of_ne_zero fun hzero => ?_, hex.step h, hex.room h⟩
    obtain ⟨out, n, hrun, -⟩ := hex.count
    have hdiv := d.shape_div h (hex.step h) (hex.room h)
    rw [if_pos hzero, hrun] at hdiv
    cases hdiv
  · rintro ⟨hpos, hstep, hroom⟩
    have hdiv := d.shape_div h hstep hroom
    rw [if_neg (by omega)] at hdiv
    have hexact := a.exactCount_div hpos (Nat.le_of_lt h.2)
    exact ⟨fun _ => hstep, fun _ => hroom, (exact_count_iff hdiv).mpr hexact.symm⟩

/-- SHAPES: the arithmetic is exact for the regular shapes and no others. -/
theorem exact_iff (d : BlockData E) (a : ShapeArgs) : Exact d a ↔ a.Regular d.mem.length := by
  unfold ShapeArgs.Regular
  by_cases hcount : a.ecount.toNat = 0
  · exact iff_of_true ((exact_empty_iff fun h => h.1 hcount).mpr (a.exactCount_empty hcount))
      (.inl hcount)
  rcases Nat.lt_trichotomy d.mem.length a.offset.toNat with hlt | heq | hgt
  · have hnone : ∀ i, ¬a.Inside d.mem.length i := by
      intro i
      unfold ShapeArgs.Inside
      omega
    exact iff_of_true ((exact_empty_iff fun h => absurd h.2 (by omega)).mpr
      (a.exactCount_behind hnone)) (.inr (.inl hlt))
  · rw [exact_empty_iff fun h => absurd h.2 (by omega)]
    by_cases hsize : 0 < a.esize.toNat
    · have hnone : ∀ i, ¬a.Inside d.mem.length i := by
        intro i
        unfold ShapeArgs.Inside
        omega
      exact iff_of_true (a.exactCount_behind hnone) (.inr (.inr (.inl ⟨heq, hsize⟩)))
    · -- one element without a size, or any number of them, lies at the end
      have hend : a.Inside d.mem.length 0 := by
        unfold ShapeArgs.Inside
        omega
      refine iff_of_false (a.exactCount_end hcount hend) ?_
      omega
  · rw [exact_evaluated_iff ⟨hcount, hgt⟩]
    constructor
    · intro h
      exact .inr (.inr (.inr ⟨hgt, h⟩))
    · intro h
      omega

/-- A larger buffer has no fewer elements. -/
theorem ShapeArgs.exactCount_mono (a : ShapeArgs) {size size' : ℕ} (h : size ≤ size') :
    a.exactCount size ≤ a.exactCount size' := by
  refine min_le_min_left _ (Set.encard_le_encard fun i hi => ?_)
  exact Nat.le_trans hi h

/-- What `d'` gives is at least what `d` gives. -/
def CountsNoLess (d d' : BlockData E) (a : ShapeArgs) : Prop :=
  ∀ r ∈ d.shape a, ∀ r' ∈ d'.shape a, r.2 ≤ r'.2

theorem Exact.mono {d d' : BlockData E} {a : ShapeArgs} (h : Exact d a) (h' : Exact d' a)
    (hle : d.mem.length ≤ d'.mem.length) : CountsNoLess d d' a := by
  intro r hr r' hr'
  obtain ⟨out, n, hrun, hn⟩ := h.count
  obtain ⟨out', n', hrun', hn'⟩ := h'.count
  cases hrun.symm.trans hr
  cases hrun'.symm.trans hr'
  have hmono := a.exactCount_mono hle
  rw [← hn, ← hn'] at hmono
  exact_mod_cast hmono

/-- SHAPE ARITHMETIC: it is exact for the regular shapes and no others, and with more data these
    count no less. -/
theorem shape_exact (a : ShapeArgs) :
    (∀ d : BlockData E, Exact d a ↔ a.Regular d.mem.length) ∧
      ∀ d d' : BlockData E, d.mem.length ≤ d'.mem.length → a.Regular d.mem.length →
        a.Regular d'.mem.length → CountsNoLess d d' a := by
  refine ⟨fun d => exact_iff d a, fun d d' hle h h' => ?_⟩
  exact ((exact_iff d a).mpr h).mono ((exact_iff d' a).mpr h') hle

/-- A block of `n` bytes in one piece. -/
def zeros (n : ℕ) (h : n < 2 ^ 64) : BlockData Libevent.Chains where
  toDBuffer := .ofSize n
  lt := by
    rw [DBuffer.mem_ofSize, List.length_replicate]
    exact h

/-- Numbers of 16 bits with gaps of two bytes, from the second byte of 7 and of 14 on. -/
theorem shape_exact_int16 :
    Exact (zeros 7 (by decide)) ⟨1, 2, 2, 5⟩ ∧ Exact (zeros 14 (by decide)) ⟨1, 2, 2, 5⟩ ∧
      CountsNoLess (zeros 7 (by decide)) (zeros 14 (by decide)) ⟨1, 2, 2, 5⟩ := by
  obtain ⟨hexact, hmono⟩ := shape_exact (E := Libevent.Chains) ⟨1, 2, 2, 5⟩
  have hless : ShapeArgs.Regular ⟨1, 2, 2, 5⟩ (zeros 7 (by decide)).mem.length := by
    unfold ShapeArgs.Regular
    decide
  have hmore : ShapeArgs.Regular ⟨1, 2, 2, 5⟩ (zeros 14 (by decide)).mem.length := by
    unfold ShapeArgs.Regular
    decide
  exact ⟨(hexact _).mpr hless, (hexact _).mpr hmore, hmono _ _ (by decide) hless hmore⟩

/-- `read_si` asks for 0 bytes at the 39th of 40, and a waveform of `epicsInt16` with a step of -1
    for elements with gaps of `2^64 - 3` bytes: the one divides by zero, the other finds nothing in
    a block that holds the first element. -/
theorem irregular_shapes :
    (zeros 40 (by decide)).shape ⟨39, 0, 0, 1⟩ = none ∧
      (zeros 4 (by decide)).shape ⟨0, 2, 0xfffffffffffffffd, 10⟩ = some ([], 0) ∧
      ¬Exact (zeros 40 (by decide)) ⟨39, 0, 0, 1⟩ ∧
      ¬Exact (zeros 4 (by decide)) ⟨0, 2, 0xfffffffffffffffd, 10⟩ := by
  refine ⟨rfl, rfl, ?_, ?_⟩
  · rw [exact_iff]
    unfold ShapeArgs.Regular
    decide
  · rw [exact_iff]
    unfold ShapeArgs.Regular
    decide

end Pscdrv.Records
