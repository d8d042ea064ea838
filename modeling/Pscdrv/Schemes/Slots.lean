import Pscdrv.Schemes.Memory
import Mathlib.Order.Bounds.Basic

/-! # Arrays in a byte buffer, and their expansion in place

    An array of `k`-byte elements lies in a buffer, `slot k i` being the bytes of element `i`.
    `expand` makes wider elements of them in the same buffer, from the last one to the first: each
    goes to a place from which everything was read already.

        k = 2   │a│b│c│           │
        m = 4   │a│b│     │  c'   │
                │a│b  │  b'  │ c' │ -/

namespace Pscdrv.Slots

open Memory

/-- Element `i` of an array of `k`-byte elements. -/
def slot (k i : ℕ) (mem : List UInt8) : List UInt8 := (mem.drop (i * k)).take k

/-- Convert the first `n` elements of `k` bytes into elements of `m` bytes, the last one first. -/
def expand (k m : ℕ) (conv : List UInt8 → List UInt8) : ℕ → List UInt8 → List UInt8
  | 0, mem => mem
  | i + 1, mem => expand k m conv i (overwrite mem (i * m) (conv (slot k i mem)))

/-- What was stored as element `i` is element `i`. -/
theorem slot_overwrite {m i : ℕ} {mem l : List UInt8} (hl : l.length = m)
    (h : (i + 1) * m ≤ mem.length) : slot m i (overwrite mem (i * m) l) = l := by
  rw [Nat.succ_mul] at h
  rw [slot, ← hl]
  rw [← hl] at h
  exact read_overwrite h

/-- An element apart from what was stored is as before. -/
theorem slot_apart {k m i j : ℕ} {mem l : List UInt8} (hl : l.length = m)
    (h : (i + 1) * m ≤ mem.length) (hapart : (j + 1) * k ≤ i * m ∨ (i + 1) * m ≤ j * k) :
    slot k j (overwrite mem (i * m) l) = slot k j mem := by
  rw [Nat.succ_mul] at h hapart
  rw [Nat.succ_mul] at hapart
  refine read_overwrite_apart ?_ ?_
  · rwa [hl]
  · rwa [hl]

/-- The elements of what was stored at the front. -/
theorem slot_front {k i : ℕ} {mem l : List UInt8} (h : (i + 1) * k ≤ l.length) :
    slot k i (overwrite mem 0 l) = slot k i l := by
  rw [Nat.succ_mul] at h
  have hin : k ≤ (l.drop (i * k)).length := by
    rw [List.length_drop]
    omega
  rw [slot, slot, overwrite, List.take_zero, List.nil_append,
    List.drop_append_of_le_length (by omega), List.take_append_of_le_length hin]

section Expand

variable {k m : ℕ} {conv : List UInt8 → List UInt8} (hconv : ∀ l, (conv l).length = m)

include hconv

theorem length_expand : ∀ (n : ℕ) (mem : List UInt8), n * m ≤ mem.length →
    (expand k m conv n mem).length = mem.length
  | 0, _, _ => rfl
  | i + 1, mem, h => by
    have hmul : (i + 1) * m = i * m + m := Nat.succ_mul ..
    have hlen : (overwrite mem (i * m) (conv (slot k i mem))).length = mem.length := by
      rw [length_overwrite]
      rw [hconv]
      omega
    rw [expand, length_expand i _ (by omega), hlen]

/-- FRAME: what is behind the expanded elements is left alone. -/
theorem slot_expand_behind : ∀ (n : ℕ) (mem : List UInt8), n * m ≤ mem.length → ∀ j, n ≤ j →
    slot m j (expand k m conv n mem) = slot m j mem
  | 0, _, _, _, _ => rfl
  | i + 1, mem, h, j, hj => by
    have hmul : (i + 1) * m = i * m + m := Nat.succ_mul ..
    have hbehind : (i + 1) * m ≤ j * m := Nat.mul_le_mul_right m hj
    have hlen : (overwrite mem (i * m) (conv (slot k i mem))).length = mem.length := by
      rw [length_overwrite]
      rw [hconv]
      omega
    rw [expand, slot_expand_behind i _ (by omega) j (by omega),
      slot_apart (hconv _) h (.inr hbehind)]

/-- EXPAND: each element is converted from what it was before. -/
theorem slot_expand (hkm : k ≤ m) : ∀ (n : ℕ) (mem : List UInt8), n * m ≤ mem.length →
    ∀ i < n, slot m i (expand k m conv n mem) = conv (slot k i mem)
  | 0, _, _, _, hi => absurd hi (Nat.not_lt_zero _)
  | j + 1, mem, h, i, hi => by
    have hmul : (j + 1) * m = j * m + m := Nat.succ_mul ..
    have hlen : (overwrite mem (j * m) (conv (slot k j mem))).length = mem.length := by
      rw [length_overwrite]
      rw [hconv]
      omega
    rw [expand]
    by_cases hlast : i = j
    · rw [hlast, slot_expand_behind hconv j _ (by omega) j (Nat.le_refl j),
        slot_overwrite (hconv _) h]
    · -- the element lies in front of what was stored for the last one
      have hfront : (i + 1) * k ≤ j * m := Nat.mul_le_mul (by omega) hkm
      rw [slot_expand hkm j _ (by omega) i (by omega), slot_apart (hconv _) h (.inl hfront)]

end Expand

/-- The elements of an array that lie one after another. -/
theorem slot_flatten {k : ℕ} : ∀ {ls : List (List UInt8)}, (∀ l ∈ ls, l.length = k) →
    ∀ i (h : i < ls.length), slot k i ls.flatten = ls[i]
  | l :: ls, hk, 0, _ => by
    have hl : l.length = k := hk l List.mem_cons_self
    rw [slot, Nat.zero_mul, List.drop_zero, List.flatten_cons, List.take_left' hl]
    rfl
  | l :: ls, hk, i + 1, h => by
    have hl : l.length = k := hk l List.mem_cons_self
    have hmul : (i + 1) * k = l.length + i * k := by rw [Nat.succ_mul, hl, Nat.add_comm]
    have ih := slot_flatten (fun l' hl' => hk l' (List.mem_cons_of_mem l hl')) i
      (Nat.lt_of_succ_lt_succ h)
    rw [slot, List.flatten_cons, hmul, ← List.drop_drop, List.drop_left]
    exact ih

theorem length_flatten_slots {k : ℕ} : ∀ {ls : List (List UInt8)}, (∀ l ∈ ls, l.length = k) →
    ls.flatten.length = ls.length * k
  | [], _ => by simp
  | l :: ls, hk => by
    rw [List.flatten_cons, List.length_append, hk l List.mem_cons_self,
      length_flatten_slots fun l' hl' => hk l' (List.mem_cons_of_mem l hl'), List.length_cons,
      Nat.succ_mul, Nat.add_comm]

/-! ### The leading elements with a property -/

/-- How many of the first `n` numbers have a property until one has not. -/
theorem takeWhile_greatest (p : ℕ → Bool) (n : ℕ) :
    IsGreatest {m | m ≤ n ∧ ∀ i < m, p i = true} ((List.range n).takeWhile p).length := by
  constructor
  · have hfront := List.takeWhile_prefix (l := List.range n) p
    refine ⟨by simpa using hfront.length_le, fun i hi => ?_⟩
    have hmem : ((List.range n).takeWhile p)[i] ∈ (List.range n).takeWhile p :=
      List.getElem_mem hi
    have hi' : ((List.range n).takeWhile p)[i] = i := by
      rw [hfront.getElem hi, List.getElem_range]
    rw [hi'] at hmem
    exact List.all_eq_true.mp List.all_takeWhile _ hmem
  · rintro m ⟨hm, hall⟩
    have hsplit : List.range n = List.range m ++ (List.range (n - m)).map (m + ·) := by
      rw [← List.range_add, Nat.add_sub_cancel' hm]
    rw [hsplit, List.takeWhile_append_of_pos fun i hi => hall i (List.mem_range.mp hi),
      List.length_append, List.length_range]
    exact Nat.le_add_right m _

/-- They are the first ones. -/
theorem takeWhile_eq_range (p : ℕ → Bool) (n : ℕ) :
    (List.range n).takeWhile p = List.range ((List.range n).takeWhile p).length := by
  have hfront := List.takeWhile_prefix (l := List.range n) p
  have hle : ((List.range n).takeWhile p).length ≤ n := by simpa using hfront.length_le
  conv_lhs => rw [List.prefix_iff_eq_take.mp hfront, List.take_range, Nat.min_eq_left hle]

end Pscdrv.Slots
