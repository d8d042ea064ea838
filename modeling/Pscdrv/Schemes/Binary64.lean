import Mathlib.Algebra.Order.Field.Power
import Mathlib.Algebra.Order.Field.Rat
import Mathlib.Data.BitVec
import Mathlib.Tactic.Positivity
import Mathlib.Tactic.Ring

/-! # Double precision numbers as bit patterns

    A double is a sign, an exponent of 11 bits and a fraction of 52 bits. Its number is rational,
    with the exponent 2047 standing for none.

        63     62 … 52    51 … 0
        sign │ exponent │ fraction        ± (2^52 + fraction) · 2^(exponent - 1075)

    Integers of less than 53 bits are doubles; the conversion to an integer cuts off what is behind
    the point, and undoes the one from an integer. -/

namespace Pscdrv.Binary64

/-- A double of the given fields. -/
def pack (sign : Bool) (exponent fraction : ℕ) : BitVec 64 :=
  .ofNat 64 ((if sign then 2 ^ 63 else 0) + exponent * 2 ^ 52 + fraction)

def sign (v : BitVec 64) : Bool := decide (2 ^ 63 ≤ v.toNat)

def exponent (v : BitVec 64) : ℕ := v.toNat / 2 ^ 52 % 2 ^ 11

def fraction (v : BitVec 64) : ℕ := v.toNat % 2 ^ 52

section Pack

variable {e f : ℕ} (s : Bool) (he : e < 2 ^ 11) (hf : f < 2 ^ 52)

include he hf

theorem toNat_pack : (pack s e f).toNat = (if s then 2 ^ 63 else 0) + e * 2 ^ 52 + f := by
  rw [pack, BitVec.toNat_ofNat, Nat.mod_eq_of_lt]
  split <;> omega

theorem sign_pack : sign (pack s e f) = s := by
  rw [sign, toNat_pack s he hf]
  cases s with
  | false => simp; omega
  | true => simp; omega

theorem exponent_pack : exponent (pack s e f) = e := by
  rw [exponent, toNat_pack s he hf]
  split <;> omega

theorem fraction_pack : fraction (pack s e f) = f := by
  rw [fraction, toNat_pack s he hf]
  split <;> omega

end Pack

/-- The fraction with the leading bit, which the smallest numbers do not have. -/
def significand (v : BitVec 64) : ℕ :=
  if exponent v = 0 then fraction v else 2 ^ 52 + fraction v

/-- The exponent, one and the same for the smallest numbers. -/
def scale (v : BitVec 64) : ℕ := max 1 (exponent v)

/-- The number; `none` for an infinity or no number at all. -/
def toRat? (v : BitVec 64) : Option ℚ :=
  if exponent v = 2047 then none
  else some ((if sign v then -1 else 1) * (significand v * 2 ^ ((scale v : ℤ) - 1075)))

/-- The double of an integer of less than 53 bits. -/
def ofInt (n : ℤ) : BitVec 64 :=
  if n = 0 then pack false 0 0
  else
    let k := n.natAbs.log2
    pack (decide (n < 0)) (1023 + k) (n.natAbs * 2 ^ (52 - k) - 2 ^ 52)

/-- The conversion to an integer, toward 0. -/
def toInt (v : BitVec 64) : ℤ :=
  let m := if 1075 ≤ scale v then significand v * 2 ^ (scale v - 1075)
    else significand v / 2 ^ (1075 - scale v)
  if sign v then -m else m

/-- The number of a double that has a leading bit. -/
theorem toRat?_pack (s : Bool) {e f : ℕ} (h1 : 1 ≤ e) (he : e < 2047) (hf : f < 2 ^ 52) :
    toRat? (pack s e f) =
      some ((if s then -1 else 1) * (((2 ^ 52 + f : ℕ) : ℚ) * 2 ^ ((e : ℤ) - 1075))) := by
  have he' : e < 2 ^ 11 := by omega
  have hnan : e ≠ 2047 := by omega
  have hnormal : e ≠ 0 := by omega
  rw [toRat?, significand, scale, exponent_pack s he' hf, fraction_pack s he' hf,
    sign_pack s he' hf, if_neg hnan, if_neg hnormal, Nat.max_eq_right h1]

/-- The sign and the magnitude of an integer. -/
theorem sign_natAbs (n : ℤ) : (if decide (n < 0) then -1 else 1) * (n.natAbs : ℚ) = n := by
  rw [← Int.cast_natCast]
  by_cases h : n < 0
  · have hn : (n.natAbs : ℤ) = -n := by omega
    rw [decide_eq_true h, if_pos rfl, hn, Int.cast_neg]
    ring
  · have hn : (n.natAbs : ℤ) = n := by omega
    rw [decide_eq_false h, if_neg (by decide), hn, one_mul]

/-- A magnitude of `k + 1` bits, with the leading bit moved to the place in front of the
    fraction. -/
theorem normalized {m k : ℕ} (hlo : 2 ^ k ≤ m) (hhi : m < 2 ^ (k + 1)) (hk : k ≤ 52) :
    2 ^ 52 ≤ m * 2 ^ (52 - k) ∧ m * 2 ^ (52 - k) < 2 ^ 53 := by
  constructor
  · calc 2 ^ 52 = 2 ^ k * 2 ^ (52 - k) := by rw [← Nat.pow_add, Nat.add_sub_cancel' hk]
      _ ≤ m * 2 ^ (52 - k) := Nat.mul_le_mul_right _ hlo
  · calc m * 2 ^ (52 - k) < 2 ^ (k + 1) * 2 ^ (52 - k) :=
          Nat.mul_lt_mul_of_pos_right hhi (Nat.two_pow_pos _)
      _ = 2 ^ 53 := by rw [← Nat.pow_add]; congr 1; omega

/-- INTEGERS: those of less than 53 bits are doubles. -/
theorem toRat?_ofInt {n : ℤ} (h : n.natAbs < 2 ^ 53) : toRat? (ofInt n) = some (n : ℚ) := by
  by_cases h0 : n = 0
  · subst h0
    have he : exponent (pack false 0 0) = 0 := exponent_pack false (by decide) (by decide)
    have hf : fraction (pack false 0 0) = 0 := fraction_pack false (by decide) (by decide)
    rw [ofInt, if_pos rfl, toRat?, he, if_neg (by decide), significand, he, if_pos rfl, hf]
    simp
  have hm : n.natAbs ≠ 0 := by omega
  rw [ofInt, if_neg h0]
  dsimp only
  have hlo := Nat.log2_self_le hm
  have hhi : n.natAbs < 2 ^ (n.natAbs.log2 + 1) := Nat.lt_log2_self
  have hk : n.natAbs.log2 < 53 := (Nat.log2_lt hm).mpr h
  generalize n.natAbs.log2 = k at hlo hhi hk
  obtain ⟨hge, hlt⟩ := normalized hlo hhi (by omega)
  have hsum : 2 ^ 52 + (n.natAbs * 2 ^ (52 - k) - 2 ^ 52) = n.natAbs * 2 ^ (52 - k) := by omega
  have hscale : ((n.natAbs * 2 ^ (52 - k) : ℕ) : ℚ) * 2 ^ (((1023 + k : ℕ) : ℤ) - 1075) =
      n.natAbs := by
    have hexp : ((52 - k : ℕ) : ℤ) + (((1023 + k : ℕ) : ℤ) - 1075) = 0 := by omega
    rw [Nat.cast_mul, Nat.cast_pow, Nat.cast_ofNat, mul_assoc, ← zpow_natCast,
      ← zpow_add₀ (by decide), hexp, zpow_zero, mul_one]
  rw [toRat?_pack _ (by omega) (by omega) (by omega), hsum, hscale, sign_natAbs]

/-- What is behind the point of an integer is 0. -/
theorem magnitude_of_scale {m σ a : ℕ} (h : (m : ℚ) * 2 ^ ((σ : ℤ) - 1075) = a) :
    (if 1075 ≤ σ then m * 2 ^ (σ - 1075) else m / 2 ^ (1075 - σ)) = a := by
  split
  · rename_i hle
    have hexp : (σ : ℤ) - 1075 = ((σ - 1075 : ℕ) : ℤ) := by omega
    rw [hexp, zpow_natCast] at h
    exact_mod_cast h
  · rename_i hlt
    have hexp : (σ : ℤ) - 1075 = -((1075 - σ : ℕ) : ℤ) := by omega
    rw [hexp, zpow_neg, zpow_natCast, ← div_eq_mul_inv, div_eq_iff (by positivity)] at h
    have hmul : m = a * 2 ^ (1075 - σ) := by exact_mod_cast h
    rw [hmul, Nat.mul_div_cancel _ (Nat.two_pow_pos _)]

/-- BACK: a double that is an integer is converted to it. -/
theorem toInt_of_toRat? {v : BitVec 64} {n : ℤ} (h : toRat? v = some (n : ℚ)) : toInt v = n := by
  have hval : (if sign v then -1 else 1) * ((significand v : ℚ) * 2 ^ ((scale v : ℤ) - 1075)) =
      n := by
    unfold toRat? at h
    split at h
    · cases h
    · exact Option.some.inj h
  have hpos : (0 : ℚ) ≤ (significand v : ℚ) * 2 ^ ((scale v : ℤ) - 1075) := by positivity
  unfold toInt
  cases hs : sign v with
  | false =>
    rw [hs, if_neg (by decide), one_mul] at hval
    rw [hval] at hpos
    have hn : 0 ≤ n := by exact_mod_cast hpos
    obtain ⟨a, rfl⟩ := Int.eq_ofNat_of_zero_le hn
    have hmag := magnitude_of_scale (a := a) (hval.trans (by norm_cast))
    rw [if_neg (by decide)]
    exact congrArg (Nat.cast (R := ℤ)) hmag
  | true =>
    rw [hs, if_pos rfl] at hval
    have hneg : (significand v : ℚ) * 2 ^ ((scale v : ℤ) - 1075) = -n := by
      rw [← hval]
      ring
    rw [hneg] at hpos
    have hn : 0 ≤ -n := by exact_mod_cast hpos
    obtain ⟨a, ha⟩ := Int.eq_ofNat_of_zero_le hn
    have hmag := magnitude_of_scale (a := a) (hneg.trans (by exact_mod_cast ha))
    rw [if_pos rfl]
    calc -((if 1075 ≤ scale v then significand v * 2 ^ (scale v - 1075)
            else significand v / 2 ^ (1075 - scale v) : ℕ) : ℤ)
        = -(a : ℤ) := congrArg (fun m : ℕ => -(m : ℤ)) hmag
      _ = n := by omega

end Pscdrv.Binary64
