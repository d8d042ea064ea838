import Pscdrv.Core.NetworkOrder
import Pscdrv.Records.Support
import Pscdrv.Schemes.Binary64
import Pscdrv.Schemes.Slots

/-! # Waveforms of numbers

    A waveform of doubles shows numbers of a type `T` that lie in a block, one every `step` bytes
    from the offset of the link on. They are packed into the array first, and then made doubles in
    place, from the last one to the first.

        block   ├── offset ──┤ t₀ │ … ┤ t₁ │ … ┤ t₂ │ …
        array   │t₀│t₁│t₂│                  │
                │   d₀   │   d₁   │   d₂    │        NORD = 3

    The other way the numbers are packed into a message, without gaps. Its length has 32 bits. -/

namespace Pscdrv.Records

open BigEndian Memory Slots

variable {E : Type} [Libevent E]

/-! ### The types of elements -/

/-- A type `T` with its conversions from and to `double`. -/
structure Elem where
  width : Width
  /-- `(double)t` -/
  toDouble : BitVec width.bits → BitVec 64
  /-- `(T)d` -/
  ofDouble : BitVec 64 → BitVec width.bits
  /-- the double has the value of the element -/
  Holds : BitVec width.bits → BitVec 64 → Prop
  toDouble_holds : ∀ t, Holds t (toDouble t)
  ofDouble_eq : ∀ t d, Holds t d → ofDouble d = t

/-- Signed integers, which a double holds without rounding. -/
def Elem.signed (w : Width) (h : w.bits ≤ 53) : Elem where
  width := w
  toDouble t := Binary64.ofInt t.toInt
  ofDouble d := .ofInt w.bits (Binary64.toInt d)
  Holds t d := Binary64.toRat? d = some (t.toInt : ℚ)
  toDouble_holds t := by
    refine Binary64.toRat?_ofInt ?_
    have hlt := t.toInt_lt
    have hle := t.le_toInt
    have hpow : (2 : ℤ) ^ (w.bits - 1) ≤ 2 ^ 52 := pow_le_pow_right₀ (by decide) (by omega)
    omega
  ofDouble_eq t d hd := by
    rw [Binary64.toInt_of_toRat? hd, BitVec.ofInt_toInt]

def Elem.epicsInt16 : Elem := .signed .w2 (by decide)

def Elem.epicsInt32 : Elem := .signed .w4 (by decide)

def Elem.double : Elem where
  width := .w8
  toDouble t := t
  ofDouble d := d
  Holds t d := t = d
  toDouble_holds _ := rfl
  ofDouble_eq _ _ h := h.symm

/-- Two doubles have the value of one element. -/
def Elem.SameNumber (t : Elem) (d d' : BitVec 64) : Prop := ∃ raw, t.Holds raw d ∧ t.Holds raw d'

/-! ### The routines -/

/-- A waveform record with FTVL `DOUBLE`: the array behind `BPTR` has room for `NELM` elements. -/
structure RealRec where
  nelm : UInt32
  nord : UInt32
  bptr : List UInt8
  room : bptr.length = nelm.toNat * 8

/-- `((double*)prec->bptr)[i]` -/
def RealRec.double (host : Host) (r : RealRec) (i : ℕ) : BitVec 64 :=
  host.load .w8 (slot 8 i r.bptr)

/-- The double that the loop puts in the place of an element. -/
def widen (host : Host) (t : Elem) (raw : List UInt8) : List UInt8 :=
  host.image (w := .w8) (t.toDouble (ntoh host t.width (host.load t.width raw)))

@[simp] theorem length_widen (host : Host) (t : Elem) (raw : List UInt8) :
    (widen host t raw).length = 8 := host.length_image _

/-- The array after `raw` was copied to it and `nelem` elements were expanded; `none` when this is
    more than there is room for. -/
def RealRec.fill (host : Host) (t : Elem) (r : RealRec) (raw : List UInt8) (nelem : ℕ) :
    Option RealRec :=
  if h : raw.length ≤ r.bptr.length ∧ nelem ≤ r.nelm.toNat then
    some
      { nelm := r.nelm
        nord := .ofNat nelem
        bptr := expand t.width.bytes 8 (widen host t) nelem (overwrite r.bptr 0 raw)
        room := by
          have hlen : (overwrite r.bptr 0 raw).length = r.bptr.length :=
            length_overwrite ((Nat.zero_add _).trans_le h.1)
          have hroom : nelem * 8 ≤ (overwrite r.bptr 0 raw).length := by
            rw [hlen, r.room]
            exact Nat.mul_le_mul_right 8 h.2
          rw [length_expand (length_widen host t) nelem _ hroom, hlen, r.room] }
  else none

/-- `read_wf_real<T>`; `step` is a `long`, which is converted to `size_t`. -/
def readWfReal (host : Host) (t : Elem) (priv : Priv) (step : BitVec 64) (r : RealRec)
    (d : Dev E) : Ret (RealRec × Dev E) Unit :=
  if !d.connected then .value () (r, d.raise .read .invalid)
  else
    let step := if step ≠ 0 then step.toNat else t.width.bytes
    let skip := if t.width.bytes ≤ step then step - t.width.bytes else 0
    match d.data.copyoutShape priv.offset t.width.bytes skip r.nelm.toNat with
    | none => .fault
    | some (raw, nelem) =>
      match r.fill host t raw nelem with
      | none => .fault
      | some r => setRecTimestamp host priv r d

/-- The vector `to` of `write_wf<T>` as `queueSend` takes it: the size becomes an `epicsUInt32`. -/
def encoded (host : Host) (t : Elem) (r : RealRec) : RawBuf :=
  let vec := (List.range r.nord.toNat).map fun i => hton host t.width (t.ofDouble (r.double host i))
  let bytes := (vec.map host.image).flatten
  { bytes := bytes.take (bytes.length % 2 ^ 32)
    lt := by
      have hmod := Nat.mod_lt bytes.length (Nat.two_pow_pos 32)
      exact (List.length_take_le ..).trans_lt hmod }

/-- `write_wf<T>` -/
def writeWf {P : Type} (isConnected : P → Bool) (queueSend : P → RawBuf → Res P) (host : Host)
    (t : Elem) (r : RealRec) (alarm : Alarm) (psc : P) : Ret (Alarm × P) Unit :=
  if !isConnected psc then .value () (alarm.setSevr .read .invalid, psc)
  else match queueSend psc (encoded host t r) with
  | .ok psc => .value () (alarm, psc)
  | .throw _ psc => .exception (alarm, psc)
  | .abort _ => .fault

/-! ### What they are to do -/

/-- From one element in the block to the next. -/
def stride (t : Elem) (step : BitVec 64) : ℕ := max step.toInt.toNat t.width.bytes

/-- Element `i` lies inside the block. -/
def Within (t : Elem) (priv : Priv) (step : BitVec 64) (d : Dev E) (i : ℕ) : Prop :=
  priv.offset + i * stride t step + t.width.bytes ≤ d.data.mem.length

/-- The number whose big-endian encoding is element `i` of the block. -/
def elemOf (t : Elem) (priv : Priv) (step : BitVec 64) (d : Dev E) (i : ℕ) :
    BitVec t.width.bits :=
  .ofNat _ (ofBe ((d.data.mem.drop (priv.offset + i * stride t step)).take t.width.bytes))

/-- The record shows the elements inside the block, as many as there is room for. -/
structure ShowsBlock (host : Host) (t : Elem) (priv : Priv) (step : BitVec 64) (d : Dev E)
    (r : RealRec) : Prop where
  nord : IsGreatest {n | n ≤ r.nelm.toNat ∧ ∀ i < n, Within t priv step d i} r.nord.toNat
  elements : ∀ i < r.nord.toNat, t.Holds (elemOf t priv step d i) (r.double host i)

/-- The routine ends, and the record shows the block. -/
def Decodes (host : Host) (t : Elem) (priv : Priv) (step : BitVec 64) (r : RealRec) (d : Dev E) :
    Prop :=
  ∃ r', (readWfReal host t priv step r d).state?.map Prod.fst = some r' ∧ r'.nelm = r.nelm ∧
    ShowsBlock host t priv step d r'

/-- The host does not exchange the halves of an element that is shown. -/
def KeepsHalves (host : Host) (t : Elem) (priv : Priv) (step : BitVec 64) (r : RealRec)
    (d : Dev E) : Prop :=
  ∀ i < r.nelm.toNat, Within t priv step d i → InPlace host t.width (elemOf t priv step d i)

/-- The array holds doubles that are values of the type. -/
def ExactValues (host : Host) (t : Elem) (r : RealRec) : Prop :=
  ∀ i < r.nord.toNat, ∃ raw, t.Holds raw (r.double host i)

/-- A record with enough room shows the numbers of another one that were sent as a message. -/
def RoundTrips (E : Type) [Libevent E] (host : Host) (t : Elem) (src : RealRec) : Prop :=
  ∀ (priv : Priv) (dst : RealRec) (d : Dev E), priv.offset = 0 → d.connected = true →
    d.data.mem = (encoded host t src).bytes → src.nord.toNat ≤ dst.nelm.toNat →
    ∃ r', (readWfReal host t priv 0 dst d).state?.map Prod.fst = some r' ∧ r'.nord = src.nord ∧
      ∀ i < src.nord.toNat, t.SameNumber (src.double host i) (r'.double host i)

/-! ### Reading -/

/-- A step that is not negative: the gaps behind the elements. -/
theorem skip_eq {t : Elem} {step : BitVec 64} (h : 0 ≤ step.toInt) :
    (let s := if step ≠ 0 then step.toNat else t.width.bytes
      if t.width.bytes ≤ s then s - t.width.bytes else 0) = stride t step - t.width.bytes := by
  have hint : step.toInt.toNat = step.toNat := by
    have hmsb : 2 * step.toNat < 2 ^ 64 := by
      by_contra hge
      rw [BitVec.toInt_eq_toNat_cond, if_neg hge] at h
      omega
    rw [BitVec.toInt_eq_toNat_of_lt hmsb, Int.toNat_natCast]
  rw [stride, hint]
  dsimp only
  by_cases h0 : step = 0
  · subst h0
    simp
  · rw [if_pos h0]
    split <;> omega

theorem stride_lt (t : Elem) (step : BitVec 64) : stride t step < 2 ^ 63 := by
  have hlt : step.toInt < 2 ^ 63 := step.toInt_lt
  have hw : t.width.bytes ≤ 8 := by cases t.width <;> decide
  unfold stride
  omega

/-- The elements that are copied: the first ones of the block. -/
def shown (t : Elem) (priv : Priv) (step : BitVec 64) (r : RealRec) (d : Dev E) : ℕ :=
  (Flat.wholeElements d.data.mem.length priv.offset t.width.bytes (stride t step - t.width.bytes)
    r.nelm.toNat).length

/-- The bytes of element `i` of the block. -/
def elemBytes (t : Elem) (priv : Priv) (step : BitVec 64) (d : Dev E) (i : ℕ) : List UInt8 :=
  (d.data.mem.drop (priv.offset + i * stride t step)).take t.width.bytes

theorem length_elemBytes {t : Elem} {priv : Priv} {step : BitVec 64} {d : Dev E} {i : ℕ}
    (h : Within t priv step d i) : (elemBytes t priv step d i).length = t.width.bytes := by
  unfold Within at h
  rw [elemBytes, List.length_take, List.length_drop]
  omega

section Reading

variable {t : Elem} {priv : Priv} {step : BitVec 64} {r : RealRec} {d : Dev E}

theorem gap_stride (t : Elem) (step : BitVec 64) :
    t.width.bytes + (stride t step - t.width.bytes) = stride t step := by
  unfold stride
  omega

/-- NORD: the largest number of elements. -/
theorem shown_greatest (t : Elem) (priv : Priv) (step : BitVec 64) (r : RealRec) (d : Dev E) :
    IsGreatest {n | n ≤ r.nelm.toNat ∧ ∀ i < n, Within t priv step d i}
      (shown t priv step r d) := by
  have hgreatest := takeWhile_greatest (fun i => decide (priv.offset +
    i * (t.width.bytes + (stride t step - t.width.bytes)) + t.width.bytes ≤ d.data.mem.length))
    r.nelm.toNat
  simp only [gap_stride, decide_eq_true_iff] at hgreatest
  unfold shown Flat.wholeElements
  simp only [gap_stride]
  exact hgreatest

/-- COPY: the elements that fit, packed. -/
theorem copyoutShape_elems (hd : d.data.mem.length < 2 ^ 32) :
    d.data.copyoutShape priv.offset t.width.bytes (stride t step - t.width.bytes) r.nelm.toNat =
      some (((List.range (shown t priv step r d)).map (elemBytes t priv step d)).flatten,
        shown t priv step r d) := by
  have hlt := stride_lt t step
  have hgap := gap_stride t step
  rw [d.data.copyoutShape_spec r.nelm.toNat t.width.bytes_pos (by omega) (by omega),
    Flat.copyoutShape]
  have hrange : Flat.wholeElements d.data.mem.length priv.offset t.width.bytes
      (stride t step - t.width.bytes) r.nelm.toNat = List.range (shown t priv step r d) :=
    takeWhile_eq_range _ _
  rw [hrange, List.length_range, hgap]
  rfl

/-- FILL: the array holds the doubles of the elements. -/
theorem fill_elems (host : Host) (t : Elem) (r : RealRec) {ls : List (List UInt8)}
    (hls : ∀ l ∈ ls, l.length = t.width.bytes) (hroom : ls.length ≤ r.nelm.toNat) :
    ∃ r', r.fill host t ls.flatten ls.length = some r' ∧ r'.nelm = r.nelm ∧
      r'.nord.toNat = ls.length ∧
      ∀ i (h : i < ls.length), r'.double host i = t.toDouble (bytes2val host t.width ls[i]) := by
  have hlen := length_flatten_slots hls
  have hw : t.width.bytes ≤ 8 := by cases t.width <;> decide
  have hbytes : ls.length * t.width.bytes ≤ ls.length * 8 := Nat.mul_le_mul_left _ hw
  have hnelm : ls.length * 8 ≤ r.nelm.toNat * 8 := Nat.mul_le_mul_right _ hroom
  have hin : ls.flatten.length ≤ r.bptr.length := by
    rw [hlen, r.room]
    omega
  have hover : (overwrite r.bptr 0 ls.flatten).length = r.bptr.length :=
    length_overwrite ((Nat.zero_add _).trans_le hin)
  refine ⟨_, dif_pos ⟨hin, hroom⟩, rfl, ?_, fun i h => ?_⟩
  · have hlt : ls.length < 2 ^ 32 := hroom.trans_lt r.nelm.toNat_lt
    exact UInt32.toNat_ofNat_of_lt' hlt
  · have hfront : (i + 1) * t.width.bytes ≤ ls.flatten.length := by
      rw [hlen]
      exact Nat.mul_le_mul_right _ h
    have hspace : ls.length * 8 ≤ (overwrite r.bptr 0 ls.flatten).length := by
      rw [hover, r.room]
      exact hnelm
    rw [RealRec.double, slot_expand (length_widen host t) hw _ _ hspace i h, slot_front hfront,
      slot_flatten hls i h, widen, Host.load_image]
    rfl

/-- DECODE: what the record shows of a received block. -/
theorem readWfReal_shows (host : Host) (t : Elem) (priv : Priv) (r : RealRec)
    (hc : d.connected = true) (hstep : 0 ≤ step.toInt) (hd : d.data.mem.length < 2 ^ 32) :
    ∃ r', (readWfReal host t priv step r d).state?.map Prod.fst = some r' ∧ r'.nelm = r.nelm ∧
      r'.nord.toNat = shown t priv step r d ∧ ∀ i < shown t priv step r d,
        r'.double host i = t.toDouble (bytes2val host t.width (elemBytes t priv step d i)) := by
  have hgreatest := (shown_greatest t priv step r d).1
  have hls : ∀ l ∈ (List.range (shown t priv step r d)).map (elemBytes t priv step d),
      l.length = t.width.bytes := by
    intro l hl
    obtain ⟨i, hi, rfl⟩ := List.mem_map.mp hl
    exact length_elemBytes (hgreatest.2 i (List.mem_range.mp hi))
  have hn : ((List.range (shown t priv step r d)).map (elemBytes t priv step d)).length =
      shown t priv step r d := by simp
  obtain ⟨r', hfill, hnelm, hnord, hdouble⟩ := fill_elems host t r hls (by
    rw [hn]
    exact hgreatest.1)
  rw [hn] at hfill hnord
  obtain ⟨time, htime⟩ := setRecTimestamp_state host priv r' d
  refine ⟨r', ?_, hnelm, hnord, fun i hi => ?_⟩
  · have hskip := skip_eq (t := t) hstep
    dsimp only at hskip
    unfold readWfReal
    simp only [hc, hskip, copyoutShape_elems hd, hfill]
    exact congrArg (Option.map Prod.fst) htime
  · rw [hdouble i (by rwa [hn]), List.getElem_map, List.getElem_range]

/-- An element in front of one inside the block is inside as well. -/
theorem Within.front {i j : ℕ} (h : Within t priv step d j) (hij : i ≤ j) :
    Within t priv step d i := by
  have hmul := Nat.mul_le_mul_right (stride t step) hij
  unfold Within at *
  omega

/-- The elements that are shown are those inside the block, as many as there is room for. -/
theorem lt_shown_iff (i : ℕ) :
    i < shown t priv step r d ↔ i < r.nelm.toNat ∧ Within t priv step d i := by
  obtain ⟨hmem, hub⟩ := shown_greatest t priv step r d
  constructor
  · intro h
    exact ⟨h.trans_le hmem.1, hmem.2 i h⟩
  · rintro ⟨hlt, hin⟩
    exact hub ⟨hlt, fun j hj => hin.front (Nat.le_of_lt_succ hj)⟩

/-- A double holds the element it was converted from, and no other. -/
theorem Elem.holds_iff (t : Elem) (a b : BitVec t.width.bits) :
    t.Holds a (t.toDouble b) ↔ b = a := by
  constructor
  · intro h
    exact (t.ofDouble_eq b _ (t.toDouble_holds b)).symm.trans (t.ofDouble_eq a _ h)
  · rintro rfl
    exact t.toDouble_holds b

/-- A byte string is shown as what it encodes if no halves are exchanged. -/
theorem holds_bytes_iff (host : Host) {l : List UInt8} (h : l.length = t.width.bytes) :
    t.Holds (.ofNat _ (ofBe l)) (t.toDouble (bytes2val host t.width l)) ↔
      InPlace host t.width (.ofNat _ (ofBe l)) := by
  rw [t.holds_iff, ← bytes2val_iff host h, ← BitVec.toNat_inj, Host.toNat_ofBe h]

/-- DECODE: the block is shown as it is if the host keeps the halves of its elements. -/
theorem decodes_iff (host : Host) (hc : d.connected = true) (hstep : 0 ≤ step.toInt)
    (hd : d.data.mem.length < 2 ^ 32) :
    Decodes host t priv step r d ↔ KeepsHalves host t priv step r d := by
  obtain ⟨r₁, hrun, hnelm, hnord, hdouble⟩ := readWfReal_shows host t priv r hc hstep hd
  have helem : ∀ i < shown t priv step r d, t.Holds (elemOf t priv step d i) (r₁.double host i) ↔
      InPlace host t.width (elemOf t priv step d i) := by
    intro i hi
    rw [hdouble i hi]
    exact holds_bytes_iff host (length_elemBytes (lt_shown_iff i |>.mp hi).2)
  constructor
  · rintro ⟨r', hr', -, hshows⟩ i hlt hin
    cases hrun.symm.trans hr'
    have hi : i < shown t priv step r d := (lt_shown_iff i).mpr ⟨hlt, hin⟩
    exact (helem i hi).mp (hshows.elements i (by rwa [hnord]))
  · intro hkeep
    refine ⟨r₁, hrun, hnelm, ?_, fun i hi => ?_⟩
    · rw [hnelm, hnord]
      exact shown_greatest t priv step r d
    · rw [hnord] at hi
      obtain ⟨hlt, hin⟩ := (lt_shown_iff i).mp hi
      exact (helem i hi).mpr (hkeep i hlt hin)

end Reading

/-! ### Writing, and reading back -/

section Writing

variable (host : Host) (t : Elem) (src : RealRec)

/-- Element `i` as it is put into a message. -/
def outBytes (i : ℕ) : List UInt8 := host.image (hton host t.width (t.ofDouble (src.double host i)))

/-- All elements of a record, packed. -/
def packed : List UInt8 := ((List.range src.nord.toNat).map (outBytes host t src)).flatten

theorem encoded_bytes : (encoded host t src).bytes =
    (packed host t src).take ((packed host t src).length % 2 ^ 32) := by
  rw [packed, encoded]
  simp only [List.map_map]
  rfl

theorem length_outBytes : ∀ l ∈ (List.range src.nord.toNat).map (outBytes host t src),
    l.length = t.width.bytes := by
  intro l hl
  obtain ⟨i, -, rfl⟩ := List.mem_map.mp hl
  exact host.length_image _

theorem length_packed : (packed host t src).length = src.nord.toNat * t.width.bytes := by
  rw [packed, length_flatten_slots (length_outBytes host t src), List.length_map, List.length_range]

/-- What `bytes2val` makes of an element of a message. -/
theorem bytes2val_outBytes (i : ℕ) :
    bytes2val host t.width (outBytes host t src i) = t.ofDouble (src.double host i) := by
  rw [bytes2val, outBytes, Host.load_image, ntoh_hton]

variable {host t src}

/-- ENCODE: a message of less than `2^32` bytes is read back. -/
theorem roundTrips_short (hex : ExactValues host t src)
    (h : src.nord.toNat * t.width.bytes < 2 ^ 32) : RoundTrips E host t src := by
  intro priv dst d hoff hc hmem hroom
  have hbytes : d.data.mem = packed host t src := by
    rw [hmem, encoded_bytes, length_packed, Nat.mod_eq_of_lt h, ← length_packed host t src,
      List.take_length]
  have hlen : d.data.mem.length = src.nord.toNat * t.width.bytes := by
    rw [hbytes, length_packed]
  have hstride : stride t 0 = t.width.bytes := by simp [stride]
  have hzero : 0 ≤ (0 : BitVec 64).toInt := by decide
  obtain ⟨r', hrun, -, hnord, hdouble⟩ :=
    readWfReal_shows host t priv dst hc hzero (hlen.trans_lt h)
  have hwithin : ∀ i, Within t priv 0 d i ↔ i < src.nord.toNat := by
    intro i
    rw [Within, hoff, hstride, hlen, Nat.zero_add, ← Nat.succ_mul,
      Nat.mul_le_mul_right_iff t.width.bytes_pos, Nat.succ_le_iff]
  have hlt : ∀ i, i < shown t priv 0 dst d ↔ i < src.nord.toNat := by
    intro i
    rw [lt_shown_iff, hwithin]
    omega
  have hshown : shown t priv 0 dst d = src.nord.toNat := by
    have h1 := hlt (shown t priv 0 dst d)
    have h2 := hlt src.nord.toNat
    omega
  refine ⟨r', hrun, UInt32.toNat_inj.mp (hnord.trans hshown), fun i hi => ?_⟩
  obtain ⟨raw, hraw⟩ := hex i hi
  refine ⟨raw, hraw, ?_⟩
  have hslot : elemBytes t priv 0 d i = outBytes host t src i := by
    have hflat := slot_flatten (length_outBytes host t src) i (by simpa using hi)
    rw [List.getElem_map, List.getElem_range] at hflat
    rw [elemBytes, hoff, hstride, hbytes, Nat.zero_add]
    exact hflat
  rw [hdouble i ((hlt i).mpr hi), hslot, bytes2val_outBytes, t.ofDouble_eq raw _ hraw]
  exact t.toDouble_holds raw

/-- A record with room for `n` doubles. -/
def emptyReal (n : UInt32) : RealRec :=
  ⟨n, 0, List.replicate (n.toNat * 8) 0, List.length_replicate⟩

/-- A connected PSC that has received a message. -/
def receivedBody (body : RawBuf) : Dev E where
  connected := true
  data := { toDBuffer := .contig body.bytes, lt := body.lt.trans (by decide) }
  rxtime := ⟨0, 0⟩
  alarm := ⟨.noAlarm, .noAlarm⟩
  time := ⟨0, 0⟩

/-- Of a longer message the elements at the end are missing. -/
theorem not_roundTrips_long (h : 2 ^ 32 ≤ src.nord.toNat * t.width.bytes) :
    ¬RoundTrips E host t src := by
  intro hround
  let d : Dev E := receivedBody (encoded host t src)
  let priv : Priv := (.at 0)
  obtain ⟨r', hr', hsame, -⟩ :=
    hround priv (emptyReal src.nord) d rfl rfl rfl (Nat.le_refl _)
  have hstep : 0 ≤ (0 : BitVec 64).toInt := by decide
  have hconn : d.connected = true := rfl
  obtain ⟨r₁, hrun, -, hnord, -⟩ :=
    readWfReal_shows host t priv (emptyReal src.nord) hconn hstep (encoded host t src).lt
  cases hrun.symm.trans hr'
  have hpos : 0 < src.nord.toNat := by
    by_contra hzero
    have hz : src.nord.toNat = 0 := by omega
    rw [hz, Nat.zero_mul] at h
    exact absurd h (by decide)
  rw [hsame] at hnord
  -- the last element would have to lie inside the message
  obtain ⟨-, hlast⟩ := (lt_shown_iff (src.nord.toNat - 1)).mp
    (show src.nord.toNat - 1 < shown t priv 0 (emptyReal src.nord) d by omega)
  have hlen : d.data.mem.length < 2 ^ 32 := (encoded host t src).lt
  have hstride : stride t 0 = t.width.bytes := by simp [stride]
  have hmul : (src.nord.toNat - 1) * t.width.bytes + t.width.bytes =
      src.nord.toNat * t.width.bytes := by
    rw [← Nat.succ_mul]
    congr 1
    omega
  rw [Within, hstride, Nat.add_assoc, hmul] at hlast
  omega

/-- ROUND TRIP: exactly the messages of less than `2^32` bytes are read back. -/
theorem roundTrips_iff (hex : ExactValues host t src) :
    RoundTrips E host t src ↔ src.nord.toNat * t.width.bytes < 2 ^ 32 := by
  constructor
  · intro h
    by_contra hlong
    exact not_roundTrips_long (by omega) h
  · exact roundTrips_short hex

end Writing

/-- REAL WAVEFORMS: a received block is shown exactly if the host keeps the halves of its elements,
    and a record is read back from its message exactly if that has less than `2^32` bytes. -/
theorem real_waveforms (host : Host) (t : Elem) :
    (∀ (priv : Priv) (step : BitVec 64) (r : RealRec) (d : Dev E), d.connected = true →
      0 ≤ step.toInt → d.data.mem.length < 2 ^ 32 →
      (Decodes host t priv step r d ↔ KeepsHalves host t priv step r d)) ∧
    ∀ src : RealRec, ExactValues host t src →
      (RoundTrips E host t src ↔ src.nord.toNat * t.width.bytes < 2 ^ 32) :=
  ⟨fun _ _ _ _ hc hstep hd => decodes_iff host hc hstep hd, fun _ hex => roundTrips_iff hex⟩

/-- The numbers 5 and -1 behind a byte, with gaps of two bytes. -/
def twoShorts : RawBuf := ⟨[9, 0, 5, 7, 7, 0xff, 0xff, 7, 7], by decide⟩

/-- The number -1. -/
def minusOne : RealRec := ⟨1, 1, Host.big.image (w := .w8) (Elem.epicsInt32.toDouble (-1)), rfl⟩

/-- They are shown on a big-endian host, and a message of a number of 32 bits is read back there. -/
theorem real_waveforms_int16 :
    Decodes .big .epicsInt16 (.at 1) 4 (emptyReal 3)
        (receivedBody twoShorts : Dev Libevent.Chains) ∧
      RoundTrips Libevent.Chains .big .epicsInt32 minusOne := by
  refine ⟨?_, ?_⟩
  · have hlen : (receivedBody twoShorts : Dev Libevent.Chains).data.mem.length < 2 ^ 32 :=
      twoShorts.lt
    refine ((real_waveforms .big .epicsInt16).1 _ 4 _ _ rfl (by decide) hlen).mpr ?_
    exact fun _ _ _ => trivial
  · have hexact : ExactValues .big .epicsInt32 minusOne := by
      intro i hi
      obtain rfl : i = 0 := Nat.lt_one_iff.mp hi
      exact ⟨-1, Elem.epicsInt32.toDouble_holds (-1)⟩
    exact ((real_waveforms .big .epicsInt32).2 minusOne hexact).mpr (by decide)

example : ((readWfReal .big .epicsInt16 (.at 1) 4 (emptyReal 3)
    (receivedBody twoShorts : Dev Libevent.Chains)).state?.map fun s =>
      (s.1.nord, s.1.double .big 0, s.1.double .big 1)) =
    some (2, 0x4014000000000000, 0xbff0000000000000) := by
  decide +kernel

/-- Numbers of fewer than eight bytes are shown on every host. -/
theorem decodes_narrow (host : Host) {t : Elem} {priv : Priv} {step : BitVec 64} {r : RealRec}
    {d : Dev E} (ht : t.width ≠ .w8) (hc : d.connected = true) (hstep : 0 ≤ step.toInt)
    (hd : d.data.mem.length < 2 ^ 32) : Decodes host t priv step r d := by
  rw [decodes_iff host hc hstep hd]
  intro i _ _
  generalize elemOf t priv step d i = v
  generalize t.width = w at ht v
  cases w with
  | w8 => exact absurd rfl ht
  | w1 | w2 | w4 => trivial

/-- A record that is full of zeros. -/
def fullReal (n : UInt32) : RealRec := ⟨n, n, List.replicate (n.toNat * 8) 0, List.length_replicate⟩

/-- The bit pattern 1, as a message. -/
def smallest : RawBuf := ⟨[0, 0, 0, 0, 0, 0, 0, 1], by decide⟩

/-- A big-endian host shows another double than the one of the block, and no host sends the 4 GiB
    of 2^29 doubles. -/
theorem waveforms_not_shown :
    ¬Decodes .big .double (.at 0) 0 (emptyReal 1)
        (receivedBody smallest : Dev Libevent.Chains) ∧
      ExactValues .little .double (fullReal 0x20000000) ∧
      ¬RoundTrips Libevent.Chains .little .double (fullReal 0x20000000) := by
  refine ⟨?_, fun i _ => ⟨_, rfl⟩, not_roundTrips_long (by decide)⟩
  have hlen : (receivedBody smallest : Dev Libevent.Chains).data.mem.length < 2 ^ 32 := smallest.lt
  rw [decodes_iff .big rfl (by decide) hlen]
  intro hkeep
  rcases hkeep 0 (by decide) (by unfold Within; decide) with hhost | hhalves
  · cases hhost
  · exact absurd hhalves (by decide)

end Pscdrv.Records
