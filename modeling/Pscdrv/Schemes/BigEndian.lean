import Mathlib.Algebra.Group.Nat.Defs
import Mathlib.Data.List.Induction

/-! # Big-endian byte strings

    `be k n` is the `k`-byte big-endian encoding of `n` (of `n % 256^k` when `n` is larger) and
    `ofBe` reads a byte string back. The two are inverse on byte strings of length `k` and on
    numbers below `256^k`. -/

namespace Pscdrv.BigEndian

/-- The `k`-byte big-endian encoding, most significant byte first. -/
def be : ℕ → ℕ → List UInt8
  | 0, _ => []
  | k + 1, n => be k (n / 256) ++ [UInt8.ofNat n]

/-- The number a big-endian byte string stands for. -/
def ofBe (l : List UInt8) : ℕ := l.foldl (fun acc b => acc * 256 + b.toNat) 0

@[simp] theorem length_be (k n : ℕ) : (be k n).length = k := by
  induction k generalizing n with
  | zero => rfl
  | succ k ih => simp [be, ih]

@[simp] theorem ofBe_nil : ofBe [] = 0 := rfl

theorem ofBe_concat (l : List UInt8) (b : UInt8) : ofBe (l ++ [b]) = ofBe l * 256 + b.toNat := by
  simp [ofBe]

/-- Reading an encoding back gives the number, reduced to `k` bytes. -/
theorem ofBe_be_mod (k n : ℕ) : ofBe (be k n) = n % 256 ^ k := by
  induction k generalizing n with
  | zero => simp [be, Nat.mod_one]
  | succ k ih =>
    have hbyte : (UInt8.ofNat n).toNat = n % 256 := by simp
    rw [be, ofBe_concat, ih, hbyte, Nat.pow_succ, Nat.mul_comm (256 ^ k) 256, Nat.mod_mul]
    omega

theorem ofBe_be {k n : ℕ} (h : n < 256 ^ k) : ofBe (be k n) = n := by
  rw [ofBe_be_mod, Nat.mod_eq_of_lt h]

theorem ofBe_lt (l : List UInt8) : ofBe l < 256 ^ l.length := by
  induction l using List.reverseRecOn with
  | nil => simp
  | append_singleton l b ih =>
    have hb := b.toNat_lt
    rw [ofBe_concat, List.length_append, List.length_singleton, Nat.pow_succ]
    omega

/-- Encoding what was read gives the byte string. -/
theorem be_ofBe (l : List UInt8) : be l.length (ofBe l) = l := by
  induction l using List.reverseRecOn with
  | nil => rfl
  | append_singleton l b ih =>
    have hb := b.toNat_lt
    have hdiv : (ofBe l * 256 + b.toNat) / 256 = ofBe l := by omega
    have hbyte : UInt8.ofNat (ofBe l * 256 + b.toNat) = b := by
      apply UInt8.toNat_inj.mp
      rw [UInt8.toNat_ofNat']
      omega
    rw [ofBe_concat, List.length_append, List.length_singleton, be, hdiv, ih, hbyte]

/-- The encoding of a number in two parts. -/
theorem be_append (j k m : ℕ) {n : ℕ} (h : n < 256 ^ k) :
    be (j + k) (m * 256 ^ k + n) = be j m ++ be k n := by
  induction k generalizing n with
  | zero =>
    have hn : n = 0 := by omega
    simp [hn, be]
  | succ k ih =>
    have hpow : m * 256 ^ (k + 1) = m * 256 ^ k * 256 := by rw [Nat.pow_succ, Nat.mul_assoc]
    have hdiv : (m * 256 ^ (k + 1) + n) / 256 = m * 256 ^ k + n / 256 := by
      rw [hpow]
      omega
    have hbyte : UInt8.ofNat (m * 256 ^ (k + 1) + n) = UInt8.ofNat n := by
      apply UInt8.toNat_inj.mp
      rw [UInt8.toNat_ofNat', UInt8.toNat_ofNat', hpow]
      omega
    rw [Nat.pow_succ] at h
    rw [← Nat.add_assoc, be, be, hdiv, hbyte, ih (by omega), List.append_assoc]

end Pscdrv.BigEndian
