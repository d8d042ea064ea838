import Mathlib.Data.List.Basic

/-! # Writing into a byte buffer

    Two operations on a buffer of bytes: `resize`, which cuts it off or fills it up with zeros, and
    `overwrite`, which stores bytes at a position inside it and leaves the rest alone. `store` is
    what a datagram socket does: it overwrites the front with as much of a payload as fits.

        overwrite :  ├── before ──┤ new ├──── as it was ────┤
        store     :  ├───── payload ────┤──── as it was ────┤ -/

namespace Pscdrv.Memory

/-- Cut off at `n`, or fill up with zeros. -/
def resize (n : ℕ) (buf : List UInt8) : List UInt8 :=
  buf.take n ++ List.replicate (n - buf.length) 0

/-- Overwrite the bytes of `buf` from position `off` on. -/
def overwrite (buf : List UInt8) (off : ℕ) (l : List UInt8) : List UInt8 :=
  buf.take off ++ l ++ buf.drop (off + l.length)

@[simp] theorem length_resize (n : ℕ) (buf : List UInt8) : (resize n buf).length = n := by
  rw [resize, List.length_append, List.length_take, List.length_replicate]
  omega

theorem length_overwrite {buf l : List UInt8} {off : ℕ} (h : off + l.length ≤ buf.length) :
    (overwrite buf off l).length = buf.length := by
  simp only [overwrite, List.length_append, List.length_take, List.length_drop]
  omega

@[simp] theorem overwrite_nil (buf : List UInt8) (off : ℕ) : overwrite buf off [] = buf := by
  simp [overwrite]

/-- All of a buffer is overwritten. -/
theorem overwrite_all {buf l : List UInt8} (h : l.length = buf.length) : overwrite buf 0 l = l := by
  rw [overwrite, List.take_zero, List.nil_append, Nat.zero_add, h, List.drop_length,
    List.append_nil]

/-- READ: inside the range the new bytes, outside those of the buffer before. -/
theorem getElem?_overwrite {buf l : List UInt8} {off : ℕ} (h : off + l.length ≤ buf.length)
    (i : ℕ) : (overwrite buf off l)[i]? =
      if off ≤ i ∧ i < off + l.length then l[i - off]? else buf[i]? := by
  have hfront : (buf.take off).length = off := by rw [List.length_take]; omega
  rw [overwrite, List.append_assoc]
  by_cases hlo : i < off
  · rw [if_neg (by omega), List.getElem?_append_left (by omega), List.getElem?_take_of_lt hlo]
  rw [List.getElem?_append_right (by omega), hfront]
  by_cases hhi : i < off + l.length
  · rw [if_pos ⟨by omega, hhi⟩, List.getElem?_append_left (by omega)]
  · rw [if_neg (by omega), List.getElem?_append_right (by omega), List.getElem?_drop]
    congr 1
    omega

/-- What was stored is read back. -/
theorem read_overwrite {buf l : List UInt8} {off : ℕ} (h : off + l.length ≤ buf.length) :
    ((overwrite buf off l).drop off).take l.length = l := by
  apply List.ext_getElem?
  intro i
  by_cases hi : i < l.length
  · rw [List.getElem?_take_of_lt hi, List.getElem?_drop, getElem?_overwrite h, if_pos (by omega),
      Nat.add_sub_cancel_left]
  · rw [List.getElem?_eq_none (by rw [List.length_take]; omega),
      List.getElem?_eq_none (by omega)]

/-- Bytes next to what was stored are read as before. -/
theorem read_overwrite_apart {buf l : List UInt8} {off pos n : ℕ} (h : off + l.length ≤ buf.length)
    (hapart : pos + n ≤ off ∨ off + l.length ≤ pos) :
    ((overwrite buf off l).drop pos).take n = (buf.drop pos).take n := by
  apply List.ext_getElem?
  intro i
  by_cases hi : i < n
  · rw [List.getElem?_take_of_lt hi, List.getElem?_take_of_lt hi, List.getElem?_drop,
      List.getElem?_drop, getElem?_overwrite h, if_neg (by omega)]
  · rw [List.getElem?_eq_none (by rw [List.length_take]; omega),
      List.getElem?_eq_none (by rw [List.length_take]; omega)]

/-- Stores to ranges that do not overlap commute. -/
theorem overwrite_comm {buf l l' : List UInt8} {off off' : ℕ} (h : off + l.length ≤ buf.length)
    (h' : off' + l'.length ≤ buf.length)
    (hapart : off + l.length ≤ off' ∨ off' + l'.length ≤ off) :
    overwrite (overwrite buf off l) off' l' = overwrite (overwrite buf off' l') off l := by
  apply List.ext_getElem?
  intro i
  rw [getElem?_overwrite (by rwa [length_overwrite h]), getElem?_overwrite h,
    getElem?_overwrite (by rwa [length_overwrite h']), getElem?_overwrite h']
  by_cases hl : off ≤ i ∧ i < off + l.length
  · rw [if_pos hl, if_neg (by omega), if_pos hl]
  · rw [if_neg hl, if_neg hl]

/-- The later one of two stores to the same range remains. -/
theorem overwrite_overwrite {buf l l' : List UInt8} {off : ℕ} (h : off + l.length ≤ buf.length)
    (hlen : l'.length = l.length) :
    overwrite (overwrite buf off l) off l' = overwrite buf off l' := by
  apply List.ext_getElem?
  intro i
  rw [getElem?_overwrite (by rw [length_overwrite h]; omega), getElem?_overwrite h,
    getElem?_overwrite (by omega), hlen]
  split <;> rfl

/-- Two pieces stored one behind the other are stored like one. -/
theorem overwrite_append {buf a b : List UInt8} {off : ℕ}
    (h : off + (a ++ b).length ≤ buf.length) :
    overwrite (overwrite buf off a) (off + a.length) b = overwrite buf off (a ++ b) := by
  rw [List.length_append] at h
  have hfront : (buf.take off ++ a).length = off + a.length := by
    rw [List.length_append, List.length_take]
    omega
  have htake : (overwrite buf off a).take (off + a.length) = buf.take off ++ a := by
    rw [overwrite, ← hfront, List.take_left]
  have hdrop : (overwrite buf off a).drop (off + a.length + b.length) =
      buf.drop (off + a.length + b.length) := by
    rw [overwrite, ← List.drop_drop, ← hfront, List.drop_left, hfront, List.drop_drop]
  rw [overwrite, htake, hdrop, overwrite, List.length_append, Nat.add_assoc]
  simp only [List.append_assoc]

/-- Cut a byte string into pieces of the same lengths as those of `shape`. -/
def cutLike : List (List UInt8) → List UInt8 → List (List UInt8)
  | [], _ => []
  | x :: xs, l => l.take x.length :: cutLike xs (l.drop x.length)

theorem flatten_cutLike : ∀ (shape : List (List UInt8)) (l : List UInt8),
    l.length = shape.flatten.length → (cutLike shape l).flatten = l
  | [], l, h => (List.eq_nil_of_length_eq_zero h).symm
  | x :: xs, l, h => by
    have hrest : (l.drop x.length).length = xs.flatten.length := by
      rw [List.flatten_cons, List.length_append] at h
      rw [List.length_drop]
      omega
    rw [cutLike, List.flatten_cons, flatten_cutLike xs _ hrest, List.take_append_drop]

/-- Store the part of a payload that fits at the front of the buffer. -/
def store (buf payload : List UInt8) : List UInt8 :=
  overwrite buf 0 (payload.take (min payload.length buf.length))

theorem store_eq (buf payload : List UInt8) :
    store buf payload =
      payload.take (min payload.length buf.length) ++ buf.drop payload.length := by
  have hlen : min (min payload.length buf.length) payload.length =
      min payload.length buf.length := by omega
  rw [store, overwrite, List.take_zero, List.nil_append, Nat.zero_add, List.length_take, hlen]
  rcases Nat.le_total payload.length buf.length with h | h
  · rw [Nat.min_eq_left h]
  · rw [Nat.min_eq_right h, List.drop_length, List.drop_of_length_le h]

@[simp] theorem length_store (buf payload : List UInt8) :
    (store buf payload).length = buf.length := by
  rw [store, length_overwrite]
  rw [List.length_take]
  omega

/-- Bytes that were stored are those of the payload. -/
theorem take_store {buf payload : List UInt8} {n : ℕ} (hp : n ≤ payload.length)
    (hb : n ≤ buf.length) : (store buf payload).take n = payload.take n := by
  have hn : n ≤ (payload.take (min payload.length buf.length)).length := by
    rw [List.length_take]; omega
  rw [store_eq, List.take_append_of_le_length hn, List.take_take, Nat.min_eq_left (by omega)]

/-- Bytes behind the payload are those of the buffer before. -/
theorem getElem?_store {buf payload : List UInt8} {n : ℕ} (hp : payload.length ≤ n)
    (hb : n < buf.length) : (store buf payload)[n]? = buf[n]? := by
  have hlen : (payload.take (min payload.length buf.length)).length = payload.length := by
    rw [List.length_take]; omega
  rw [store_eq, List.getElem?_append_right (by omega), List.getElem?_drop, hlen]
  congr 1
  omega

end Pscdrv.Memory
