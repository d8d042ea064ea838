import Mathlib.Data.BitVec
import Pscdrv.Schemes.BigEndian

/-! # Byte order of the host and of the network

    A value is stored in memory in the byte order of the host, and converted by `hton` and `ntoh`
    where it goes to or comes from a message. Values are taken as bit patterns, so that integers and
    floating point numbers of one size are treated alike.

        value ──hton──▶ value ──stored──▶ bytes of a message
        value ◀──ntoh── value ◀──loaded── bytes of a message -/

namespace Pscdrv

open BigEndian

inductive Host where
  | little
  | big
  deriving DecidableEq

/-- `sizeof(T)` -/
inductive Width where
  | w1
  | w2
  | w4
  | w8
  deriving DecidableEq

@[reducible] def Width.bytes : Width → ℕ
  | .w1 => 1
  | .w2 => 2
  | .w4 => 4
  | .w8 => 8

abbrev Width.bits (w : Width) : ℕ := 8 * w.bytes

theorem Width.bytes_pos (w : Width) : 0 < w.bytes := by cases w <;> decide

theorem Width.bytes_lt (w : Width) : w.bytes < 2 ^ 64 := by cases w <;> decide

/-- A value is below `256` to the number of its bytes. -/
theorem Width.toNat_lt {w : Width} (v : BitVec w.bits) : v.toNat < 256 ^ w.bytes := by
  have hlt := v.isLt
  rwa [Nat.pow_mul] at hlt

variable (host : Host)

namespace Host

/-- The bytes of a value in memory. -/
def image {w : Width} (v : BitVec w.bits) : List UInt8 :=
  match host with
  | .little => (be w.bytes v.toNat).reverse
  | .big => be w.bytes v.toNat

/-- The value whose bytes lie in memory. -/
def load (w : Width) (l : List UInt8) : BitVec w.bits :=
  match host with
  | .little => .ofNat _ (ofBe l.reverse)
  | .big => .ofNat _ (ofBe l)

/-- `htons()` and `htonl()`: the bytes are reversed on a little-endian host. -/
def netOrder (w : Width) (v : BitVec w.bits) : BitVec w.bits :=
  match host with
  | .little => .ofNat _ (ofBe (be w.bytes v.toNat).reverse)
  | .big => v

end Host

/-- `detail::nswap<L>::op` -/
def nswap : (w : Width) → BitVec w.bits → BitVec w.bits
  | .w1, v => v
  | .w2, v => host.netOrder .w2 v
  | .w4, v => host.netOrder .w4 v
  | .w8, v =>
    let h : BitVec 32 := (BitVec.sshiftRight v 32).setWidth 32
    let l : BitVec 32 := BitVec.setWidth 32 v
    let out : BitVec 64 := (host.netOrder .w4 l).setWidth 64
    (out <<< 32) ||| (host.netOrder .w4 h).setWidth 64

def hton (w : Width) (v : BitVec w.bits) : BitVec w.bits := nswap host w v

/-- `hton` and `ntoh` are the same function. -/
def ntoh (w : Width) (v : BitVec w.bits) : BitVec w.bits := hton host w v

namespace Host

@[simp] theorem length_image {w : Width} (v : BitVec w.bits) :
    (host.image v).length = w.bytes := by
  cases host <;> simp [image]

/-- What was stored is loaded back. -/
@[simp] theorem load_image {w : Width} (v : BitVec w.bits) : host.load w (host.image v) = v := by
  cases host <;> simp [load, image, ofBe_be (Width.toNat_lt v)]

/-- A byte string of the right length stands for a value. -/
theorem toNat_ofBe {w : Width} {l : List UInt8} (h : l.length = w.bytes) :
    (BitVec.ofNat w.bits (ofBe l)).toNat = ofBe l := by
  have hlt := ofBe_lt l
  rw [h] at hlt
  rw [BitVec.toNat_ofNat, Nat.mod_eq_of_lt]
  rwa [Width.bits, Nat.pow_mul]

/-- On a little-endian host the encoding is reversed. -/
theorem be_netOrder {w : Width} (v : BitVec w.bits) :
    be w.bytes (little.netOrder w v).toNat = (be w.bytes v.toNat).reverse := by
  have hlen : (be w.bytes v.toNat).reverse.length = w.bytes := by simp
  have hbe := be_ofBe (be w.bytes v.toNat).reverse
  rw [hlen] at hbe
  rw [netOrder, toNat_ofBe hlen, hbe]

/-- Reversing the bytes twice gives the value back. -/
@[simp] theorem netOrder_netOrder (w : Width) (v : BitVec w.bits) :
    host.netOrder w (host.netOrder w v) = v := by
  cases host with
  | big => rfl
  | little =>
    rw [netOrder, be_netOrder, List.reverse_reverse, ofBe_be (Width.toNat_lt v),
      BitVec.ofNat_toNat, BitVec.setWidth_eq]

/-- A value in network order lies in memory as its big-endian encoding. -/
theorem image_netOrder {w : Width} (v : BitVec w.bits) :
    host.image (host.netOrder w v) = be w.bytes v.toNat := by
  cases host with
  | big => rfl
  | little => rw [image, be_netOrder, List.reverse_reverse]

end Host

/-! ### Eight bytes -/

def loWord (v : BitVec 64) : BitVec 32 := v.setWidth 32

def hiWord (v : BitVec 64) : BitVec 32 := (v.sshiftRight 32).setWidth 32

/-- The value with the halves `a` and `b`. -/
def joinWords (a b : BitVec 32) : BitVec 64 := a.setWidth 64 <<< 32 ||| b.setWidth 64

theorem getLsbD_joinWords (a b : BitVec 32) (i : ℕ) :
    (joinWords a b).getLsbD i = if i < 32 then b.getLsbD i else a.getLsbD (i - 32) := by
  simp only [joinWords, BitVec.getLsbD_or, BitVec.getLsbD_shiftLeft, BitVec.getLsbD_setWidth]
  by_cases hi : i < 32
  · simp [hi, show i < 64 by omega]
  · rw [BitVec.getLsbD_of_ge b i (by omega)]
    by_cases h : i < 64
    · simp [hi, h, show i - 32 < 64 by omega]
    · simp [hi, h, BitVec.getLsbD_of_ge a (i - 32) (by omega)]

@[simp] theorem loWord_join (a b : BitVec 32) : loWord (joinWords a b) = b := by
  apply BitVec.eq_of_getLsbD_eq
  intro i hi
  rw [loWord, BitVec.getLsbD_setWidth, getLsbD_joinWords, if_pos hi]
  simp [hi]

@[simp] theorem hiWord_join (a b : BitVec 32) : hiWord (joinWords a b) = a := by
  apply BitVec.eq_of_getLsbD_eq
  intro i h
  rw [hiWord, BitVec.getLsbD_setWidth, BitVec.getLsbD_sshiftRight, getLsbD_joinWords]
  simp [h, show ¬64 ≤ i by omega, show ¬32 + i < 32 by omega, show 32 + i < 64 by omega]

theorem joinWords_halves (v : BitVec 64) : joinWords (hiWord v) (loWord v) = v := by
  apply BitVec.eq_of_getLsbD_eq
  intro i h
  rw [getLsbD_joinWords]
  split
  · rename_i hi
    simp [loWord, hi]
  · rename_i hi
    rw [hiWord, BitVec.getLsbD_setWidth, BitVec.getLsbD_sshiftRight]
    simp [show i - 32 < 32 by omega, show 32 + (i - 32) = i by omega, show i - 32 < 64 by omega, h]

/-- The two halves change places and are swapped each for itself. -/
theorem nswap_w8 (v : BitVec 64) :
    nswap host .w8 v =
      joinWords (host.netOrder .w4 (loWord v)) (host.netOrder .w4 (hiWord v)) := rfl

/-- READING BACK: `ntoh` undoes `hton`, for every width on both kinds of host. -/
@[simp] theorem ntoh_hton (w : Width) (v : BitVec w.bits) : ntoh host w (hton host w v) = v := by
  cases w with
  | w1 => rfl
  | w2 => exact host.netOrder_netOrder .w2 v
  | w4 => exact host.netOrder_netOrder .w4 v
  | w8 =>
    have hlo : loWord (nswap host .w8 v) = host.netOrder .w4 (hiWord v) := loWord_join _ _
    have hhi : hiWord (nswap host .w8 v) = host.netOrder .w4 (loWord v) := hiWord_join _ _
    have htwice : nswap host .w8 (nswap host .w8 v) =
        joinWords (host.netOrder .w4 (loWord (nswap host .w8 v)))
          (host.netOrder .w4 (hiWord (nswap host .w8 v))) := nswap_w8 host _
    rw [hlo, hhi] at htwice
    have hback := congrArg₂ joinWords (host.netOrder_netOrder .w4 (hiWord v))
      (host.netOrder_netOrder .w4 (loWord v))
    exact htwice.trans (hback.trans (joinWords_halves v))

/-- Four bytes go to the network as the big-endian encoding. -/
theorem image_hton_w4 (v : BitVec 32) : host.image (hton host .w4 v) = be 4 v.toNat :=
  host.image_netOrder (w := .w4) v

end Pscdrv
