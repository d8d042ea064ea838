import Mathlib.Algebra.Order.Field.Rat
import Mathlib.Data.Rat.Sqrt

/-! # Numbers of a program that computes with doubles

    The operations and comparisons are those of the program, and nothing is said about what they
    give; only a comparison with `==` that succeeds tells that the two numbers are one, unless both
    of them are a zero. -/

namespace Pscdrv

/-- `double` -/
class Double (D : Type) extends Add D, Sub D, Mul D, Div D where
  ofNat : ℕ → D
  sqrt : D → D
  sin : D → D
  /-- `==` -/
  eq : D → D → Bool
  /-- `<=` -/
  le : D → D → Bool
  /-- there are two zeros -/
  eq_or_zero : ∀ {a b : D}, eq a b = true → a = b ∨ eq a (ofNat 0) = true ∧ eq b (ofNat 0) = true
  le_zero : ∀ {a : D}, eq a (ofNat 0) = true → le a (ofNat 0) = true
  one_ne_zero : eq (ofNat 1) (ofNat 0) = false

namespace Double

variable {D : Type} [Double D]

def zero : D := ofNat 0

def one : D := ofNat 1

/-- 3.141592653589793 -/
def PI : D := ofNat 3141592653589793 / ofNat (10 ^ 15)

/-- What compares as equal to a number above zero is that number. -/
theorem eq_of_pos {a b : D} (h : eq a b = true) (hpos : le b zero = false) : a = b := by
  rcases eq_or_zero h with rfl | ⟨-, hb⟩
  · rfl
  · rw [zero, le_zero hb] at hpos
    cases hpos

end Double

/-- Rational numbers, with a root that is exact for squares and the first terms of the sine. -/
instance : Double ℚ where
  ofNat n := n
  sqrt := Rat.sqrt
  sin x := x - x ^ 3 / 6 + x ^ 5 / 120
  eq a b := decide (a = b)
  le a b := decide (a ≤ b)
  eq_or_zero h := .inl (of_decide_eq_true h)
  le_zero h := decide_eq_true (of_decide_eq_true h).le
  one_ne_zero := by decide

end Pscdrv
