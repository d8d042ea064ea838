import Pscdrv.Core.ByteOrder

/-! # Which values reach the network as their big-endian encoding

    `hton` of a value of up to four bytes is `htons` or `htonl`. Eight bytes are put together from
    the two halves, each swapped for itself, the lower one in the upper place:

        little   │ h₃ h₂ h₁ h₀ │ l₃ l₂ l₁ l₀ │ ──▶ │ l₀ l₁ l₂ l₃ │ h₀ h₁ h₂ h₃ │
        big      │ h₃ h₂ h₁ h₀ │ l₃ l₂ l₁ l₀ │ ──▶ │ l₃ l₂ l₁ l₀ │ h₃ h₂ h₁ h₀ │

    A little-endian host stores the last byte first, which makes the big-endian encoding. On a
    big-endian host there is nothing to swap, but the halves have changed places. -/

namespace Pscdrv

open BigEndian

/-- `bytes2val` -/
def bytes2val (host : Host) (w : Width) (bytes : List UInt8) : BitVec w.bits :=
  ntoh host w (host.load w bytes)

/-- The number of a value is that of its halves. -/
theorem toNat_joinWords (a b : BitVec 32) :
    (joinWords a b).toNat = a.toNat * 256 ^ 4 + b.toNat := by
  have ha := a.isLt
  have hb := b.isLt
  have hup : (a.setWidth 64 <<< 32 : BitVec 64).toNat = a.toNat * 2 ^ 32 := by
    rw [BitVec.toNat_shiftLeft, BitVec.toNat_setWidth, Nat.shiftLeft_eq]
    omega
  have hlow : (b.setWidth 64 : BitVec 64).toNat = b.toNat := by
    rw [BitVec.toNat_setWidth]
    omega
  have hpow : (256 : ℕ) ^ 4 = 2 ^ 32 := by decide
  rw [joinWords, BitVec.toNat_or, hup, hlow, hpow, ← Nat.shiftLeft_eq,
    ← Nat.shiftLeft_add_eq_or_of_lt hb]

theorem be_joinWords (a b : BitVec 32) :
    be 8 (joinWords a b).toNat = be 4 a.toNat ++ be 4 b.toNat := by
  rw [toNat_joinWords]
  exact be_append 4 4 a.toNat b.isLt

/-- A value in memory, from its halves. -/
theorem Host.image_joinWords (host : Host) (a b : BitVec 32) :
    host.image (w := .w8) (joinWords a b) =
      match host with
      | .little => host.image (w := .w4) b ++ host.image (w := .w4) a
      | .big => host.image (w := .w4) a ++ host.image (w := .w4) b := by
  cases host with
  | little => exact (congrArg List.reverse (be_joinWords a b)).trans List.reverse_append
  | big => exact be_joinWords a b

/-- Eight bytes are sent in the order of the host's halves. -/
theorem image_hton_w8 (host : Host) (v : BitVec 64) :
    host.image (hton host .w8 v) =
      match host with
      | .little => be 4 (hiWord v).toNat ++ be 4 (loWord v).toNat
      | .big => be 4 (loWord v).toNat ++ be 4 (hiWord v).toNat := by
  have hjoin := host.image_joinWords (host.netOrder .w4 (loWord v)) (host.netOrder .w4 (hiWord v))
  rw [host.image_netOrder, host.image_netOrder] at hjoin
  exact hjoin

theorem be_halves (v : BitVec 64) :
    be 8 v.toNat = be 4 (hiWord v).toNat ++ be 4 (loWord v).toNat := by
  conv_lhs => rw [← joinWords_halves v]
  exact be_joinWords _ _

/-- Values of one width with the same encoding are equal. -/
theorem be_injective {w : Width} {u v : BitVec w.bits}
    (h : be w.bytes u.toNat = be w.bytes v.toNat) : u = v := by
  have hnum := congrArg ofBe h
  rw [ofBe_be (Width.toNat_lt u), ofBe_be (Width.toNat_lt v)] at hnum
  exact BitVec.eq_of_toNat_eq hnum

/-- Nothing that a big-endian host exchanges: the value is shorter than eight bytes, or its halves
    are the same. -/
def InPlace (host : Host) : (w : Width) → BitVec w.bits → Prop
  | .w8, v => host = .little ∨ loWord v = hiWord v
  | _, _ => True

/-- WRITE: a value reaches the network as its big-endian encoding if no halves are exchanged. -/
theorem image_hton_iff (host : Host) (w : Width) (v : BitVec w.bits) :
    host.image (hton host w v) = be w.bytes v.toNat ↔ InPlace host w v := by
  cases w with
  | w1 =>
    refine iff_of_true ?_ trivial
    cases host <;> rfl
  | w2 => exact iff_of_true (host.image_netOrder (w := .w2) v) trivial
  | w4 => exact iff_of_true (host.image_netOrder (w := .w4) v) trivial
  | w8 =>
    have himage := image_hton_w8 host v
    have hbe := be_halves v
    cases host with
    | little => exact iff_of_true (himage.trans hbe.symm) (.inl rfl)
    | big =>
      constructor
      · intro h
        have hsame := himage.symm.trans (h.trans hbe)
        exact .inr (be_injective (w := .w4) (List.append_inj_left hsame (by simp)))
      · rintro (h | h)
        · cases h
        · rw [himage, hbe, h]

/-- Bytes of the right number are what is in memory of the value loaded from them. -/
theorem Host.image_load (host : Host) {w : Width} {l : List UInt8} (h : l.length = w.bytes) :
    host.image (host.load w l) = l := by
  cases host with
  | little =>
    have hrev : l.reverse.length = w.bytes := l.length_reverse.trans h
    have hbe := be_ofBe l.reverse
    rw [hrev] at hbe
    rw [image, load, Host.toNat_ofBe hrev, hbe, List.reverse_reverse]
  | big =>
    have hbe := be_ofBe l
    rw [h] at hbe
    rw [image, load, Host.toNat_ofBe h, hbe]

/-- What `bytes2val` reads is what `hton` writes. -/
theorem bytes2val_eq_iff (host : Host) {w : Width} {l : List UInt8} (h : l.length = w.bytes)
    (v : BitVec w.bits) : bytes2val host w l = v ↔ host.image (hton host w v) = l := by
  constructor
  · intro hv
    rw [← hv, bytes2val, ntoh]
    exact (congrArg host.image (ntoh_hton host w (host.load w l))).trans (host.image_load h)
  · intro hl
    rw [← hl, bytes2val, host.load_image, ntoh_hton]

/-- READ: a byte string is decoded to the value it encodes if no halves are exchanged. -/
theorem bytes2val_iff (host : Host) {w : Width} {l : List UInt8} (h : l.length = w.bytes) :
    (bytes2val host w l).toNat = ofBe l ↔ InPlace host w (.ofNat w.bits (ofBe l)) := by
  have hnum := Host.toNat_ofBe h
  have hbe := be_ofBe l
  rw [h, ← hnum] at hbe
  calc (bytes2val host w l).toNat = ofBe l
      ↔ bytes2val host w l = .ofNat w.bits (ofBe l) := by rw [← BitVec.toNat_inj, hnum]
    _ ↔ host.image (hton host w (.ofNat w.bits (ofBe l))) = l := bytes2val_eq_iff host h _
    _ ↔ InPlace host w (.ofNat w.bits (ofBe l)) := by rw [← image_hton_iff, hbe]

/-- BYTE ORDER: the round trip holds always; the encoding and the decoding are the big-endian ones
    exactly if no halves are exchanged. -/
theorem byte_order (host : Host) (w : Width) (v : BitVec w.bits) {bytes : List UInt8}
    (h : bytes.length = w.bytes) :
    ntoh host w (hton host w v) = v ∧
      (host.image (hton host w v) = be w.bytes v.toNat ↔ InPlace host w v) ∧
      ((bytes2val host w bytes).toNat = ofBe bytes ↔ InPlace host w (.ofNat w.bits (ofBe bytes))) :=
  ⟨ntoh_hton host w v, image_hton_iff host w v, bytes2val_iff host h⟩

/-- Words of four bytes on a big-endian host. -/
theorem byte_order_words :
    ntoh .big .w4 (hton .big .w4 1) = 1 ∧
      (Host.big.image (hton .big .w4 1) = be 4 (1 : BitVec 32).toNat ↔ InPlace .big .w4 1) ∧
      ((bytes2val .big .w4 [0, 0, 0, 1]).toNat = ofBe [0, 0, 0, 1] ↔
        InPlace .big .w4 (.ofNat 32 (ofBe [0, 0, 0, 1]))) :=
  byte_order .big .w4 1 rfl

/-- The number that the tests of the conversion use, in the order of a big-endian host. -/
def test64 : BitVec Width.w8.bits := 0x123456789abcdeff

/-- A big-endian host sends the lower half first, and reads a string from its middle on. -/
theorem halves_exchanged :
    hton .big .w8 test64 = 0x9abcdeff12345678 ∧
      Host.big.image (hton .big .w8 test64) ≠ be 8 test64.toNat ∧
      (bytes2val .big .w8 [0, 0, 0, 0, 0, 0, 0, 1]).toNat ≠ ofBe [0, 0, 0, 0, 0, 0, 0, 1] := by
  refine ⟨by decide, ?_, by decide⟩
  rw [ne_eq, image_hton_iff]
  rintro (h | h)
  · cases h
  · exact absurd h (by decide)

end Pscdrv
