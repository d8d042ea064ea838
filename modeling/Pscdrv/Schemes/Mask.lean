import Mathlib.Data.BitVec
import Mathlib.Data.Fintype.Defs

/-! # Sets of small numbers as bits of a word

    A 32-bit word stands for the set of the positions of its 1 bits. `bit p` is the word with the
    one bit `p`; testing, clearing and comparing with 0 say what they say about sets. `put` replaces
    the bits of a word that a mask selects, and leaves the others alone. -/

namespace Pscdrv.Mask

/-- `1<<p` -/
def bit (p : Fin 32) : UInt32 := 1 <<< UInt32.ofNat p

/-- `p` is in the set. -/
def has (m : UInt32) (p : Fin 32) : Bool := m.toBitVec.getLsbD p

theorem toBitVec_bit (p : Fin 32) : (bit p).toBitVec = BitVec.twoPow 32 p := by
  have hp : p.val % 2 ^ 32 % 32 = p.val := by
    have := p.isLt
    omega
  rw [bit, UInt32.toBitVec_shiftLeft, BitVec.twoPow_eq, BitVec.shiftLeft_eq']
  exact congrArg _ hp

theorem has_bit (p q : Fin 32) : has (bit p) q = decide (p = q) := by
  simp [has, toBitVec_bit, Fin.ext_iff, eq_comm]

@[simp] theorem has_zero (p : Fin 32) : has 0 p = false := by simp [has]

/-- The empty set is the word 0. -/
theorem eq_zero_iff {m : UInt32} : m = 0 ↔ ∀ p, has m p = false := by
  constructor
  · rintro rfl p
    exact has_zero p
  · intro h
    refine UInt32.toBitVec_inj.mp (BitVec.eq_of_getLsbD_eq fun i hi => ?_)
    simpa [has] using h ⟨i, hi⟩

/-- `m & ~(1<<p)` -/
theorem has_clear (m : UInt32) (p q : Fin 32) :
    has (m &&& ~~~bit p) q = (has m q && !decide (p = q)) := by
  rw [← has_bit]
  simp [has]

/-! ### The bits that a mask selects -/

section Put

variable {w : ℕ}

/-- The bits of `m` from `r`, the others from `a`. -/
def put (a m r : BitVec w) : BitVec w := a &&& ~~~m ||| r &&& m

theorem getLsbD_put (a m r : BitVec w) {i : ℕ} (hi : i < w) :
    (put a m r).getLsbD i = if m.getLsbD i then r.getLsbD i else a.getLsbD i := by
  simp only [put, BitVec.getLsbD_or, BitVec.getLsbD_and, BitVec.getLsbD_not, hi]
  cases m.getLsbD i <;> simp

theorem put_and (a m r : BitVec w) : put a m r &&& m = r &&& m := by
  apply BitVec.eq_of_getLsbD_eq
  intro i hi
  rw [BitVec.getLsbD_and, BitVec.getLsbD_and, getLsbD_put a m r hi]
  cases m.getLsbD i <;> simp

/-- Masks that have no bit in common. -/
theorem not_both {m n : BitVec w} (h : m &&& n = 0) {i : ℕ} (hm : m.getLsbD i = true) :
    n.getLsbD i = false := by
  have hi := congrArg (fun v => v.getLsbD i) h
  simpa [hm] using hi

theorem put_and_other {m n : BitVec w} (h : m &&& n = 0) (a s : BitVec w) :
    put a n s &&& m = a &&& m := by
  apply BitVec.eq_of_getLsbD_eq
  intro i hi
  rw [BitVec.getLsbD_and, BitVec.getLsbD_and, getLsbD_put a n s hi]
  cases hm : m.getLsbD i with
  | false => simp
  | true => simp [not_both h hm]

/-- Replacing the bits of two masks without common bits commutes. -/
theorem put_comm {m n : BitVec w} (h : m &&& n = 0) (a r s : BitVec w) :
    put (put a m r) n s = put (put a n s) m r := by
  apply BitVec.eq_of_getLsbD_eq
  intro i hi
  simp only [getLsbD_put _ _ _ hi]
  cases hm : m.getLsbD i with
  | false => rfl
  | true => simp [not_both h hm]

end Put

end Pscdrv.Mask
