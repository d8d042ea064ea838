import Mathlib.Data.List.Basic

/-! # Windows on a sequence of arrivals

    Arrivals are numbered and offered in batches, in order. Of every batch a window takes some from
    the front, and it can be emptied. As long as it takes nothing after some were left out, its
    numbers are consecutive.

        arrivals :  0  1  2 │ 3  4 │ 5  6  7 │ 8 …
        window   :  └──────────────────┘ ▲
                                         the rest of a batch was left out -/

namespace Pscdrv

/-- The numbers in a window, and whether some were left out since the first of them. -/
structure Window where
  nums : List ℕ
  missed : Bool

namespace Window

def empty : Window := ⟨[], false⟩

/-- A batch of `n` arrivals from number `start` on is offered, and the first `taken` are taken. -/
def offer (w : Window) (start n taken : ℕ) : Window where
  nums := w.nums ++ List.range' start taken
  missed := (w.missed || decide (taken < n)) && !(w.nums ++ List.range' start taken).isEmpty

/-- No number is missing between the first and the last. -/
def Consecutive (nums : List ℕ) : Prop := ∃ i, nums = List.range' i nums.length

/-- The numbers are consecutive and those of arrivals before `next`; some were left out if the last
    one is not just before. -/
def Upto (w : Window) (next : ℕ) : Prop :=
  ∃ i n, w.nums = List.range' i n ∧ i + n ≤ next ∧ (w.missed = true ↔ 0 < n ∧ i + n < next)

variable {w : Window} {next n taken : ℕ}

theorem upto_empty (next : ℕ) : empty.Upto next :=
  ⟨next, 0, rfl, Nat.le_refl _, by simp [empty]⟩

theorem Upto.consecutive (h : w.Upto next) : Consecutive w.nums := by
  obtain ⟨i, n, hnums, _⟩ := h
  exact ⟨i, by rw [hnums, List.length_range']⟩

/-- STEP: a window that has missed nothing takes the front of a batch; one that has takes none. -/
theorem Upto.offer (h : w.Upto next) (hle : taken ≤ n) (hnone : w.missed = true → taken = 0) :
    (w.offer next n taken).Upto (next + n) := by
  obtain ⟨i, m, hnums, hend, hmissed⟩ := h
  cases hw : w.missed with
  | true =>
    obtain ⟨hm, hlt⟩ := hmissed.mp hw
    rw [hnone hw, Window.offer, hnums, hw, List.range'_zero, List.append_nil]
    refine ⟨i, m, rfl, by omega, iff_of_true ?_ ⟨hm, by omega⟩⟩
    simp only [Bool.true_or, Bool.true_and, Bool.not_eq_true', List.isEmpty_eq_false_iff, ne_eq,
      List.range'_eq_nil_iff]
    omega
  | false =>
    rw [hw, iff_false_left Bool.false_ne_true, not_and, Nat.not_lt] at hmissed
    rw [Window.offer, hnums, hw, Bool.false_or]
    rcases Nat.eq_zero_or_pos m with rfl | hm
    · rw [List.range'_zero, List.nil_append]
      refine ⟨next, taken, rfl, by omega, ?_⟩
      simp only [Bool.and_eq_true, decide_eq_true_eq, Bool.not_eq_true', List.isEmpty_eq_false_iff,
        ne_eq, List.range'_eq_nil_iff]
      omega
    · have hnext : i + m = next := Nat.le_antisymm hend (hmissed hm)
      rw [← hnext, List.range'_append_1]
      refine ⟨i, m + taken, rfl, by omega, ?_⟩
      simp only [Bool.and_eq_true, decide_eq_true_eq, Bool.not_eq_true', List.isEmpty_eq_false_iff,
        ne_eq, List.range'_eq_nil_iff]
      omega

/-- A window that has missed arrivals and takes more is not consecutive. -/
theorem Upto.offer_gap (h : w.Upto next) (hc : Consecutive (w.offer next n taken).nums)
    (hw : w.missed = true) : taken = 0 := by
  obtain ⟨i, m, hnums, _, hmissed⟩ := h
  obtain ⟨hm, hlt⟩ := hmissed.mp hw
  obtain ⟨j, hj⟩ := hc
  rw [Window.offer, hnums, List.length_append, List.length_range', List.length_range'] at hj
  dsimp only at hj
  by_contra hpos
  have hfirst : i = j := by
    have hhead := congrArg List.head? hj
    have hne : m ≠ 0 := Nat.pos_iff_ne_zero.mp hm
    simpa [List.head?_append, List.head?_range', hne] using hhead
  rw [← hfirst, ← List.range'_append_1] at hj
  have hnext := congrArg List.head? (List.append_cancel_left hj)
  rw [List.head?_range', List.head?_range', if_neg hpos, if_neg hpos, Option.some.injEq] at hnext
  omega

/-! ### The arrivals in a window -/

variable {α : Type*}

/-- The arrivals with consecutive numbers are a piece of all. -/
theorem eq_take_drop {l m : List α} {i n : ℕ}
    (h : l.map some = (List.range' i n).map fun k => m[k]?) : l = (m.drop i).take n := by
  apply List.ext_getElem?
  intro k
  have hlen := congrArg List.length h
  have hk := congrArg (·[k]?) h
  rw [List.length_map, List.length_map, List.length_range'] at hlen
  by_cases hkn : k < n
  · rw [List.getElem?_map, List.getElem?_map, List.getElem?_range' hkn, Nat.one_mul,
      List.getElem?_eq_getElem (by omega), Option.map_some, Option.map_some,
      Option.some.injEq] at hk
    rw [List.getElem?_eq_getElem (by omega), hk, List.getElem?_take_of_lt hkn, List.getElem?_drop]
  · rw [List.getElem?_eq_none (by omega), List.getElem?_eq_none]
    rw [List.length_take]
    omega

/-- The front of a batch has the numbers it was offered under. -/
theorem map_some_take (before batch rest : List α) {k : ℕ} (h : k ≤ batch.length) :
    (batch.take k).map some =
      (List.range' before.length k).map fun i => (before ++ batch ++ rest)[i]? := by
  apply List.ext_getElem?
  intro i
  by_cases hi : i < k
  · have hbatch : i < batch.length := by omega
    rw [List.getElem?_map, List.getElem?_map, List.getElem?_range' hi, Nat.one_mul,
      List.getElem?_take_of_lt hi, Option.map_some, List.append_assoc,
      List.getElem?_append_right (Nat.le_add_right _ i), Nat.add_sub_cancel_left,
      List.getElem?_append_left hbatch, List.getElem?_eq_getElem hbatch, Option.map_some]
  · rw [List.getElem?_eq_none (by rw [List.length_map, List.length_take]; omega),
      List.getElem?_eq_none (by rw [List.length_map, List.length_range']; omega)]

end Window

end Pscdrv
