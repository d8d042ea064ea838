import Pscdrv.Core.NetworkOrder
import Pscdrv.Fast.Format
import Pscdrv.Fast.UdpFast
import Pscdrv.Records.Support
import Pscdrv.Schemes.Run

/-! # Reading the short buffer into an array

    `devudp_read_shortbuf` takes four bytes of every packet of `shortBuf`, at the offset of its
    link. It skips a packet of another message id but not its element, and looks how large the
    buffer is, not how long the body.

        shortBuf :  │ id 1 ├ body ┤····│ id 2 ├── body ──┤··│ id 1 ├ body ┤····│
                           └ 4 ┘                                       └─ 4 ─┘
        arr      :  │       word       │    as before       │   bytes left over │ -/

namespace Pscdrv.Fast

open Libevent
open Records (Alarm AlarmStat AlarmSevr ntohl)

variable {E : Type} [Libevent E]

/-- `menuFtype`, as far as the routine looks at it. -/
inductive Ftvl where
  | ulong
  | other
  deriving DecidableEq

/-- An `aaiRecord`. `bptr` is its array when FTVL is `ULONG`, and `deviceTime` is
    `tse==epicsTimeEventDeviceTime`. -/
structure AaiRecord where
  ftvl : Ftvl
  nelm : UInt32
  nord : UInt32
  bptr : List UInt32
  alarm : Alarm
  time : EpicsTimeStamp
  deviceTime : Bool
  room : ftvl = .ulong → bptr.length = nelm.toNat

/-- `privShortBuf` -/
structure PrivShortBuf where
  block : UInt32
  offset : UInt64

namespace AaiRecord

def raise (r : AaiRecord) (stat : AlarmStat) (sevr : AlarmSevr) : AaiRecord :=
  { r with alarm := r.alarm.setSevr stat sevr }

/-- A record that finds no connection has an alarm. -/
def checked (r : AaiRecord) (connected : Bool) : AaiRecord :=
  if connected then r else r.raise .read .invalid

/-- `arr[i] = v` -/
def put (r : AaiRecord) (i : ℕ) (v : UInt32) : AaiRecord :=
  { r with
    bptr := r.bptr.set i v
    room := fun h => (List.length_set ..).trans (r.room h) }

/-- `prec->time` is the time of reception of the packet at the front. -/
def stamp (r : AaiRecord) (i : ℕ) (p : Pkt) : AaiRecord :=
  if i = 0 ∧ r.deviceTime = true then { r with time := p.rxtime } else r

@[simp] theorem bptr_put (r : AaiRecord) (i : ℕ) (v : UInt32) :
    (r.put i v).bptr = r.bptr.set i v := rfl

@[simp] theorem nelm_checked (r : AaiRecord) (connected : Bool) :
    (r.checked connected).nelm = r.nelm := by
  unfold checked; split <;> rfl

@[simp] theorem bptr_checked (r : AaiRecord) (connected : Bool) :
    (r.checked connected).bptr = r.bptr := by
  unfold checked; split <;> rfl

@[simp] theorem ftvl_checked (r : AaiRecord) (connected : Bool) :
    (r.checked connected).ftvl = r.ftvl := by
  unfold checked; split <;> rfl

@[simp] theorem ftvl_stamp (r : AaiRecord) (i : ℕ) (p : Pkt) : (r.stamp i p).ftvl = r.ftvl := by
  unfold stamp; split <;> rfl

@[simp] theorem nelm_stamp (r : AaiRecord) (i : ℕ) (p : Pkt) : (r.stamp i p).nelm = r.nelm := by
  unfold stamp; split <;> rfl

@[simp] theorem bptr_stamp (r : AaiRecord) (i : ℕ) (p : Pkt) : (r.stamp i p).bptr = r.bptr := by
  unfold stamp; split <;> rfl

@[simp] theorem alarm_stamp (r : AaiRecord) (i : ℕ) (p : Pkt) :
    (r.stamp i p).alarm = r.alarm := by
  unfold stamp; split <;> rfl

/-- What a client sees of the record: its alarm, and the elements of an array of `ULONG`. -/
def shown (r : AaiRecord) : Alarm × Option (UInt32 × List UInt32) :=
  (r.alarm, if r.ftvl = .ulong then some (r.nord, r.bptr.take r.nord.toNat) else none)

end AaiRecord

/-- One turn of the loop; `none` when `memcpy()` reads outside of the body's buffer. The sum of
    `offset` and 4 is one of `unsigned long`. -/
def readElement (host : Host) (priv : PrivShortBuf) (i : ℕ) (p : Pkt) (r : AaiRecord) :
    Option AaiRecord :=
  if p.msgid.toUInt32 ≠ priv.block then some r
  else
    let r := r.stamp i p
    if p.body.bytes.length < (priv.offset + 4).toNat then some ((r.raise .read .invalid).put i 0)
    else if p.body.bytes.length < priv.offset.toNat + 4 then none
    else some (r.put i ⟨ntohl host ((p.body.bytes.drop priv.offset.toNat).take 4)⟩)

/-- The loop over the packets from number `i` on. -/
def readElements (host : Host) (priv : PrivShortBuf) : ℕ → List Pkt → AaiRecord → Option AaiRecord
  | _, [], r => some r
  | i, p :: pkts, r => (readElement host priv i p r).bind (readElements host priv (i + 1) pkts)

/-- `devudp_read_shortbuf` -/
def devudpReadShortbuf (host : Host) (connected : Bool) (priv : PrivShortBuf) (s : UdpFast E)
    (r : AaiRecord) : Option (UdpFast E × AaiRecord) :=
  if r.ftvl ≠ .ulong then some (s, r.raise .state .invalid)
  else
    let r := r.checked connected
    let s := readShortbuf s r.nelm
    let n := min r.nelm.toNat s.shortBuf.length
    (readElements host priv 0 (s.shortBuf.take n) r).map fun r => (s, { r with nord := .ofNat n })

/-! ### What the elements depend on -/

/-- What the short buffer holds of a packet: its id, the body that was received, and the size of
    its buffer. -/
def Pkt.message (p : Pkt) : UInt16 × List UInt8 × ℕ := (p.msgid, p.payload, p.body.bytes.length)

/-- The two records are processed alike: only arrays, counts and times may differ. -/
structure AaiRecord.Alike (r r' : AaiRecord) : Prop where
  ftvl : r'.ftvl = r.ftvl
  nelm : r'.nelm = r.nelm
  alarm : r'.alarm = r.alarm

/-- The word at the offset of the link, of a body that reaches that far. -/
def Pkt.word (host : Host) (priv : PrivShortBuf) (p : Pkt) : UInt32 :=
  if priv.offset.toNat + 4 ≤ p.payload.length then
    ⟨ntohl host ((p.payload.drop priv.offset.toNat).take 4)⟩
  else 0

/-- The record shows the packets of the short buffer and nothing else: the same for the same
    messages, whatever was in the array and behind the bodies, and the words of their bodies. -/
structure ReadsMessages (host : Host) (connected : Bool) (priv : PrivShortBuf) (s : UdpFast E)
    (r : AaiRecord) : Prop where
  same : ∀ (s' : UdpFast E) (r' : AaiRecord),
    s'.shortBuf.map Pkt.message = s.shortBuf.map Pkt.message → r.Alike r' →
    ∃ o, (devudpReadShortbuf host connected priv s r).map (·.2.shown) = some o ∧
      (devudpReadShortbuf host connected priv s' r').map (·.2.shown) = some o
  own : r.ftvl = .ulong → ∀ t r', devudpReadShortbuf host connected priv s r = some (t, r') →
    r'.bptr.take r'.nord.toNat = (s.shortBuf.take r.nelm.toNat).map (Pkt.word host priv)

/-- The packet has the id of the link, and its four bytes were received or lie outside of its
    buffer as the routine sees it. -/
structure Within (priv : PrivShortBuf) (p : Pkt) : Prop where
  block : p.msgid.toUInt32 = priv.block
  bytes : priv.offset.toNat + 4 ≤ p.payload.length ∨
    p.body.bytes.length < (priv.offset + 4).toNat

/-! ### The loop -/

/-- `memcpy()` would read outside of the buffer. -/
structure Outside (priv : PrivShortBuf) (p : Pkt) : Prop where
  block : p.msgid.toUInt32 = priv.block
  passes : (priv.offset + 4).toNat ≤ p.body.bytes.length
  beyond : p.body.bytes.length < priv.offset.toNat + 4

/-- The routine finds that the packet is too short. -/
def tooShort (priv : PrivShortBuf) (p : Pkt) : Bool :=
  p.msgid.toUInt32 == priv.block && decide (p.body.bytes.length < (priv.offset + 4).toNat)

/-- What is in the element of a packet after the loop, when `old` was there before. -/
def stored (host : Host) (priv : PrivShortBuf) (p : Pkt) (old : UInt32) : UInt32 :=
  if p.msgid.toUInt32 ≠ priv.block then old
  else if p.body.bytes.length < (priv.offset + 4).toNat then 0
  else ⟨ntohl host ((p.body.bytes.drop priv.offset.toNat).take 4)⟩

/-- The loop has gone over the packets from number `i` on. -/
structure Filled (host : Host) (priv : PrivShortBuf) (i : ℕ) (pkts : List Pkt)
    (r r' : AaiRecord) : Prop where
  ftvl : r'.ftvl = r.ftvl
  nelm : r'.nelm = r.nelm
  alarm : r'.alarm = if pkts.any (tooShort priv) then r.alarm.setSevr .read .invalid else r.alarm
  apart : ∀ j, j < i ∨ i + pkts.length ≤ j → r'.bptr[j]? = r.bptr[j]?
  element : ∀ j p, pkts[j]? = some p → r'.bptr[i + j]? = (r.bptr[i + j]?).map (stored host priv p)

section Loop

variable {host : Host} {priv : PrivShortBuf} {i : ℕ} {p : Pkt} {r : AaiRecord}

/-- One packet. -/
theorem filled_one {r' : AaiRecord} (hftvl : r'.ftvl = r.ftvl) (hnelm : r'.nelm = r.nelm)
    (halarm : r'.alarm = if tooShort priv p then r.alarm.setSevr .read .invalid else r.alarm)
    (hapart : ∀ j, j ≠ i → r'.bptr[j]? = r.bptr[j]?)
    (hown : r'.bptr[i]? = (r.bptr[i]?).map (stored host priv p)) :
    Filled host priv i [p] r r' := by
  refine ⟨hftvl, hnelm, ?_, fun j hj => ?_, fun j q hq => ?_⟩
  · rw [halarm, List.any_cons, List.any_nil, Bool.or_false]
  · rw [List.length_singleton] at hj
    exact hapart j (by omega)
  · cases j with
    | zero =>
      cases hq
      exact hown
    | succ j => cases hq

/-- One packet, when a value is stored. -/
theorem filled_put {r₁ : AaiRecord} {v : UInt32} (hftvl : r₁.ftvl = r.ftvl)
    (hnelm : r₁.nelm = r.nelm) (hbptr : r₁.bptr = r.bptr)
    (halarm : r₁.alarm = if tooShort priv p then r.alarm.setSevr .read .invalid else r.alarm)
    (hv : ∀ old, stored host priv p old = v) : Filled host priv i [p] r (r₁.put i v) := by
  refine filled_one hftvl hnelm halarm (fun j hj => ?_) ?_
  · rw [AaiRecord.bptr_put, hbptr, List.getElem?_set_ne hj.symm]
  · rw [AaiRecord.bptr_put, hbptr, List.getElem?_set_self']
    cases r.bptr[i]? with
    | none => rfl
    | some old => exact congrArg some (hv old).symm

/-- STEP: one packet; `memcpy()` stays inside of its buffer. -/
theorem readElement_filled (host : Host) (i : ℕ) (r : AaiRecord) (h : ¬ Outside priv p) :
    ∃ r', readElement host priv i p r = some r' ∧ Filled host priv i [p] r r' := by
  unfold readElement
  by_cases hid : p.msgid.toUInt32 = priv.block
  · rw [if_neg (not_not_intro hid)]
    dsimp only
    by_cases hlen : p.body.bytes.length < (priv.offset + 4).toNat
    · rw [if_pos hlen]
      refine ⟨_, rfl, filled_put (r.ftvl_stamp i p) (r.nelm_stamp i p) (r.bptr_stamp i p) ?_
        fun old => ?_⟩
      · rw [tooShort, hid, beq_self_eq_true, Bool.true_and, decide_eq_true hlen, if_pos rfl,
          AaiRecord.raise, AaiRecord.alarm_stamp]
      · rw [stored, if_neg (not_not_intro hid), if_pos hlen]
    · have hin : ¬ p.body.bytes.length < priv.offset.toNat + 4 := fun hlt =>
        h ⟨hid, Nat.le_of_not_lt hlen, hlt⟩
      rw [if_neg hlen, if_neg hin]
      refine ⟨_, rfl, filled_put (r.ftvl_stamp i p) (r.nelm_stamp i p) (r.bptr_stamp i p) ?_
        fun old => ?_⟩
      · rw [tooShort, decide_eq_false hlen, Bool.and_false, if_neg Bool.false_ne_true,
          AaiRecord.alarm_stamp]
      · rw [stored, if_neg (not_not_intro hid), if_neg hlen]
  · -- another message: its element is left alone
    rw [if_pos hid]
    have hsame : stored host priv p = id := funext fun old => if_pos hid
    refine ⟨r, rfl, filled_one rfl rfl ?_ (fun _ _ => rfl) ?_⟩
    · simp [tooShort, hid]
    · rw [hsame, Option.map_id_fun, id]

/-- A second raise of the same alarm changes nothing. -/
theorem setSevr_twice (a : Alarm) (stat : AlarmStat) (sevr : AlarmSevr) :
    (a.setSevr stat sevr).setSevr stat sevr = a.setSevr stat sevr := by
  unfold Alarm.setSevr
  by_cases h : a.nsev.rank < sevr.rank
  · rw [if_pos h, if_neg (Nat.lt_irrefl _)]
  · rw [if_neg h, if_neg h]

theorem Filled.trans {r₁ r₂ : AaiRecord} {pkts : List Pkt} (h : Filled host priv i [p] r r₁)
    (k : Filled host priv (i + 1) pkts r₁ r₂) : Filled host priv i (p :: pkts) r r₂ := by
  refine ⟨k.ftvl.trans h.ftvl, k.nelm.trans h.nelm, ?_, fun j hj => ?_, fun j q hq => ?_⟩
  · rw [k.alarm, h.alarm, List.any_cons, List.any_cons, List.any_nil, Bool.or_false]
    cases tooShort priv p <;> cases pkts.any (tooShort priv) <;> simp [setSevr_twice]
  · rw [List.length_cons] at hj
    rw [k.apart j (by omega), h.apart j (by rw [List.length_singleton]; omega)]
  · cases j with
    | zero =>
      cases hq
      rw [Nat.add_zero, k.apart i (.inl (Nat.lt_succ_self i))]
      exact h.element 0 p rfl
    | succ j =>
      have hnext : i + (j + 1) = i + 1 + j := by omega
      rw [hnext, k.element j q hq, h.apart _ (.inr (by rw [List.length_singleton]; omega))]

/-- LOOP: when `memcpy()` always stays inside, every packet gives its element. -/
theorem readElements_filled (host : Host) (pkts : List Pkt) : ∀ (i : ℕ) (r : AaiRecord),
    (∀ p ∈ pkts, ¬ Outside priv p) →
    ∃ r', readElements host priv i pkts r = some r' ∧ Filled host priv i pkts r r' := by
  induction pkts with
  | nil => exact fun i r _ => ⟨r, rfl, rfl, rfl, rfl, fun _ _ => rfl, nofun⟩
  | cons p pkts ih =>
    intro i r h
    obtain ⟨hp, hrest⟩ := List.forall_mem_cons.mp h
    obtain ⟨r₁, hr₁, hfill⟩ := readElement_filled host i r hp
    obtain ⟨r₂, hr₂, hfill'⟩ := ih (i + 1) r₁ hrest
    exact ⟨r₂, by rw [readElements, hr₁, Option.bind_some, hr₂], hfill.trans hfill'⟩

/-- One packet for which it does not ends the process. -/
theorem readElements_outside (pkts : List Pkt) : ∀ (i : ℕ) (r : AaiRecord),
    (∃ p ∈ pkts, Outside priv p) → readElements host priv i pkts r = none := by
  induction pkts with
  | nil =>
    rintro i r ⟨p, hp, _⟩
    cases hp
  | cons p pkts ih =>
    rintro i r ⟨q, hq, hout⟩
    rw [readElements]
    by_cases hp : Outside priv p
    · rw [readElement, if_neg (not_not_intro hp.block)]
      dsimp only
      rw [if_neg (Nat.not_lt.mpr hp.passes), if_pos hp.beyond, Option.bind_none]
    · obtain ⟨r₁, hr₁, _⟩ := readElement_filled host i r hp
      have hq' : q ∈ pkts := (List.mem_cons.mp hq).resolve_left fun heq => hp (heq ▸ hout)
      rw [hr₁, Option.bind_some, ih (i + 1) r₁ ⟨q, hq', hout⟩]

end Loop

/-! ### The routine -/

section Routine

variable {host : Host} {connected : Bool} {priv : PrivShortBuf} {s : UdpFast E} {r : AaiRecord}

/-- The routine goes over the packets that fit in the array. -/
theorem devudpReadShortbuf_ulong (hf : r.ftvl = .ulong) :
    devudpReadShortbuf host connected priv s r =
      (readElements host priv 0 (s.shortBuf.take r.nelm.toNat) (r.checked connected)).map
        fun r' => (readShortbuf s r.nelm,
          { r' with nord := .ofNat (s.shortBuf.take r.nelm.toNat).length }) := by
  have hshort : (readShortbuf s r.nelm).shortBuf = s.shortBuf := by
    unfold readShortbuf
    split <;> rfl
  have htake : s.shortBuf.take (min r.nelm.toNat s.shortBuf.length) =
      s.shortBuf.take r.nelm.toNat := by
    rcases Nat.le_total r.nelm.toNat s.shortBuf.length with h | h
    · rw [Nat.min_eq_left h]
    · rw [Nat.min_eq_right h, List.take_length, List.take_of_length_le h]
  unfold devudpReadShortbuf
  rw [if_neg (not_not_intro hf)]
  dsimp only
  rw [AaiRecord.nelm_checked, hshort, htake, List.length_take]

/-- READ: the record after the routine, when `memcpy()` always stays inside. -/
theorem devudpReadShortbuf_filled (host : Host) (connected : Bool) (hf : r.ftvl = .ulong)
    (h : ∀ p ∈ s.shortBuf.take r.nelm.toNat, ¬ Outside priv p) :
    ∃ r', devudpReadShortbuf host connected priv s r = some (readShortbuf s r.nelm, r') ∧
      Filled host priv 0 (s.shortBuf.take r.nelm.toNat) (r.checked connected) r' ∧
      r'.nord = .ofNat (s.shortBuf.take r.nelm.toNat).length := by
  obtain ⟨r', hr', hfill⟩ := readElements_filled host _ 0 (r.checked connected) h
  refine ⟨{ r' with nord := .ofNat (s.shortBuf.take r.nelm.toNat).length }, ?_,
    ⟨hfill.ftvl, hfill.nelm, hfill.alarm, hfill.apart, hfill.element⟩, rfl⟩
  rw [devudpReadShortbuf_ulong hf, hr', Option.map_some]

/-- NORD has room for the number of packets. -/
theorem toNat_nord (pkts : List Pkt) (nelm : UInt32) :
    (UInt32.ofNat (pkts.take nelm.toNat).length).toNat = (pkts.take nelm.toNat).length := by
  have := nelm.toNat_lt
  rw [List.length_take, UInt32.toNat_ofNat', Nat.mod_eq_of_lt (by omega)]

/-- What is shown after the routine: the count of the packets, and for each what the loop stored. -/
theorem shown_filled {pkts : List Pkt} {r' : AaiRecord} (hf : r.ftvl = .ulong)
    (h : Filled host priv 0 pkts (r.checked connected) r') (hnord : r'.nord = .ofNat pkts.length)
    (hlen : r'.nord.toNat = pkts.length) : ∃ arr,
      r'.shown = (r'.alarm, some (.ofNat pkts.length, arr)) ∧ arr.length ≤ pkts.length ∧
        ∀ (k : ℕ) (p : Pkt), pkts[k]? = some p →
          arr[k]? = (r.bptr[k]?).map (stored host priv p) := by
  have hul : r'.ftvl = .ulong := by rw [h.ftvl, AaiRecord.ftvl_checked, hf]
  refine ⟨r'.bptr.take r'.nord.toNat, ?_, ?_, fun k p hp => ?_⟩
  · rw [AaiRecord.shown, if_pos hul, hlen, hnord]
  · rw [hlen]
    exact List.length_take_le ..
  · have hk : k < r'.nord.toNat := hlen ▸ (List.getElem?_eq_some_iff.mp hp).1
    have helem := h.element k p hp
    rw [Nat.zero_add, AaiRecord.bptr_checked] at helem
    rw [List.getElem?_take_of_lt hk, helem]

/-- When all packets are within, the elements are the words of their bodies. -/
theorem stored_within {p : Pkt} (h : Within priv p) (old : UInt32) :
    stored host priv p old = p.word host priv := by
  have hpay : p.payload.length ≤ p.body.bytes.length := List.length_take_le' ..
  have hsum : (priv.offset + 4).toNat ≤ priv.offset.toNat + 4 := by
    rw [UInt64.toNat_add]
    exact Nat.mod_le _ _
  rw [stored, if_neg (not_not_intro h.block), Pkt.word]
  rcases h.bytes with hin | hout
  · rw [if_pos hin, if_neg (by omega)]
    have hraw : (p.payload.drop priv.offset.toNat).take 4 =
        (p.body.bytes.drop priv.offset.toNat).take 4 := by
      rw [Pkt.payload, List.length_take] at hin
      rw [Pkt.payload, List.drop_take, List.take_take, Nat.min_eq_left (by omega)]
    rw [hraw]
  · rw [if_pos hout, if_neg (by omega)]

theorem not_outside_of_within {p : Pkt} (h : Within priv p) : ¬ Outside priv p := by
  intro hout
  have hpay : p.payload.length ≤ p.body.bytes.length := List.length_take_le' ..
  have hpass := hout.passes
  have hbeyond := hout.beyond
  rcases h.bytes with hin | hshort <;> omega

/-- The alarm after the routine. -/
def alarmAfter (priv : PrivShortBuf) (pkts : List Pkt) (a : Alarm) : Alarm :=
  if pkts.any (tooShort priv) then a.setSevr .read .invalid else a

/-- When all packets are within, their words are shown. -/
theorem shown_within (host : Host) (connected : Bool) (hf : r.ftvl = .ulong)
    (h : ∀ p ∈ s.shortBuf.take r.nelm.toNat, Within priv p) :
    (devudpReadShortbuf host connected priv s r).map (·.2.shown) =
      some (alarmAfter priv (s.shortBuf.take r.nelm.toNat) (r.checked connected).alarm,
        some (.ofNat (s.shortBuf.take r.nelm.toNat).length,
          (s.shortBuf.take r.nelm.toNat).map (Pkt.word host priv))) := by
  obtain ⟨r', hr', hfill, hnord⟩ := devudpReadShortbuf_filled host connected hf
    fun p hp => not_outside_of_within (h p hp)
  obtain ⟨arr, hshown, hlen, harr⟩ := shown_filled hf hfill hnord (by rw [hnord, toNat_nord])
  have hwords : arr = (s.shortBuf.take r.nelm.toNat).map (Pkt.word host priv) := by
    apply List.ext_getElem?
    intro k
    rw [List.getElem?_map]
    cases hk : (s.shortBuf.take r.nelm.toNat)[k]? with
    | none =>
      exact List.getElem?_eq_none (hlen.trans (List.getElem?_eq_none_iff.mp hk))
    | some p =>
      have hroom : k < r.bptr.length := by
        have := (List.getElem?_eq_some_iff.mp hk).1
        rw [List.length_take] at this
        rw [r.room hf]
        omega
      rw [harr k p hk, List.getElem?_eq_getElem hroom, Option.map_some, Option.map_some,
        stored_within (h p (List.mem_of_getElem? hk))]
  rw [hr', Option.map_some, hshown, hwords, hfill.alarm]
  rfl

/-- What depends on the messages only is the same for the same messages. -/
theorem map_of_message {α : Type*} {f : Pkt → α} (hf : ∀ p q, p.message = q.message → f p = f q) :
    ∀ {l m : List Pkt}, l.map Pkt.message = m.map Pkt.message → l.map f = m.map f
  | [], [], _ => rfl
  | p :: l, q :: m, h => by
    rw [List.map_cons, List.map_cons, List.cons.injEq] at h
    rw [List.map_cons, List.map_cons, hf p q h.1, map_of_message hf h.2]

theorem message_eq {p q : Pkt} (h : p.message = q.message) :
    p.msgid = q.msgid ∧ p.payload = q.payload ∧ p.body.bytes.length = q.body.bytes.length := by
  simpa [Pkt.message] using h

theorem word_message (p q : Pkt) (h : p.message = q.message) :
    p.word host priv = q.word host priv := by
  rw [Pkt.word, Pkt.word, (message_eq h).2.1]

theorem tooShort_message (priv : PrivShortBuf) (p q : Pkt) (h : p.message = q.message) :
    tooShort priv p = tooShort priv q := by
  rw [tooShort, tooShort, (message_eq h).1, (message_eq h).2.2]

theorem within_message (p q : Pkt) (h : p.message = q.message) (hp : Within priv p) :
    Within priv q := by
  obtain ⟨hid, hpay, hlen⟩ := message_eq h
  exact ⟨hid ▸ hp.block, hpay ▸ hlen ▸ hp.bytes⟩

/-- An array of another type only gets an alarm. -/
theorem shown_other (hf : r.ftvl ≠ .ulong) :
    (devudpReadShortbuf host connected priv s r).map (·.2.shown) =
      some (r.alarm.setSevr .state .invalid, none) := by
  rw [devudpReadShortbuf, if_pos hf, Option.map_some]
  change some ((r.raise .state .invalid).alarm, if r.ftvl = .ulong then _ else none) = _
  rw [if_neg hf]
  rfl

/-- Records whose packets are all within show the same for the same messages. -/
theorem shown_same {s' : UdpFast E} {r' : AaiRecord} (hf : r.ftvl = .ulong)
    (hw : ∀ p ∈ s.shortBuf.take r.nelm.toNat, Within priv p)
    (hmsg : s'.shortBuf.map Pkt.message = s.shortBuf.map Pkt.message) (halike : r.Alike r') :
    (devudpReadShortbuf host connected priv s' r').map (·.2.shown) =
      (devudpReadShortbuf host connected priv s r).map (·.2.shown) := by
  have hf' : r'.ftvl = .ulong := halike.ftvl.trans hf
  have htake : (s'.shortBuf.take r'.nelm.toNat).map Pkt.message =
      (s.shortBuf.take r.nelm.toNat).map Pkt.message := by
    rw [List.map_take, List.map_take, hmsg, halike.nelm]
  have hw' : ∀ p ∈ s'.shortBuf.take r'.nelm.toNat, Within priv p := by
    intro p hp
    have hmem : p.message ∈ (s.shortBuf.take r.nelm.toNat).map Pkt.message :=
      htake ▸ List.mem_map_of_mem hp
    obtain ⟨q, hq, hqp⟩ := List.mem_map.mp hmem
    exact within_message q p hqp (hw q hq)
  have hany : (s'.shortBuf.take r'.nelm.toNat).any (tooShort priv) =
      (s.shortBuf.take r.nelm.toNat).any (tooShort priv) := by
    have hmap := congrArg (List.any · id) (map_of_message (tooShort_message priv) htake)
    simpa only [List.any_map, Function.id_comp] using hmap
  have hlen := congrArg List.length htake
  rw [List.length_map, List.length_map] at hlen
  have halarm : (r'.checked connected).alarm = (r.checked connected).alarm := by
    unfold AaiRecord.checked
    cases connected <;> simp [AaiRecord.raise, halike.alarm]
  rw [shown_within host connected hf hw, shown_within host connected hf' hw',
    map_of_message word_message htake, hlen, halarm, alarmAfter, alarmAfter, hany]

/-- A record whose packets are all within shows their messages. -/
theorem readsMessages_of_within (h : r.ftvl = .ulong →
    ∀ p ∈ s.shortBuf.take r.nelm.toNat, Within priv p) :
    ReadsMessages host connected priv s r := by
  constructor
  · intro s' r' hmsg halike
    by_cases hf : r.ftvl = .ulong
    · have hshown := shown_within host connected hf (h hf)
      exact ⟨_, hshown, (shown_same hf (h hf) hmsg halike).trans hshown⟩
    · have hf' : r'.ftvl ≠ .ulong := fun heq => hf (halike.ftvl.symm.trans heq)
      refine ⟨_, shown_other hf, ?_⟩
      rw [shown_other hf', halike.alarm]
  · intro hf t r' hr'
    have hshown := shown_within host connected hf (h hf)
    have hf' : r'.ftvl = .ulong := by
      obtain ⟨r₁, hr₁, hfill, _⟩ := devudpReadShortbuf_filled host connected hf
        fun p hp => not_outside_of_within (h hf p hp)
      cases hr₁.symm.trans hr'
      rw [hfill.ftvl, AaiRecord.ftvl_checked, hf]
    rw [hr', Option.map_some, Option.some.injEq, AaiRecord.shown, if_pos hf'] at hshown
    simp only [Prod.mk.injEq, Option.some.injEq] at hshown
    exact hshown.2.2

/-- What an array shows of packet `k`. -/
theorem shown_element (hf : r.ftvl = .ulong) {o : Alarm × Option (UInt32 × List UInt32)}
    (ho : (devudpReadShortbuf host connected priv s r).map (·.2.shown) = some o) :
    (∀ p ∈ s.shortBuf.take r.nelm.toNat, ¬ Outside priv p) ∧
      ∃ n arr, o.2 = some (n, arr) ∧ ∀ (k : ℕ) (p : Pkt),
        (s.shortBuf.take r.nelm.toNat)[k]? = some p →
        arr[k]? = (r.bptr[k]?).map (stored host priv p) := by
  have hin : ∀ p ∈ s.shortBuf.take r.nelm.toNat, ¬ Outside priv p := by
    intro p hp hout
    rw [devudpReadShortbuf_ulong hf, readElements_outside _ _ _ ⟨p, hp, hout⟩] at ho
    cases ho
  obtain ⟨r', hr', hfill, hnord⟩ := devudpReadShortbuf_filled host connected hf hin
  obtain ⟨arr, hshown, _, harr⟩ := shown_filled hf hfill hnord (by rw [hnord, toNat_nord])
  rw [hr', Option.map_some, Option.some.injEq, hshown] at ho
  exact ⟨hin, _, arr, by rw [← ho], harr⟩

/-- When the messages decide what is shown, they decide what is stored for a packet. -/
theorem ReadsMessages.element (h : ReadsMessages host connected priv s r) (hf : r.ftvl = .ulong)
    (s' : UdpFast E) (r' : AaiRecord)
    (hmsg : s'.shortBuf.map Pkt.message = s.shortBuf.map Pkt.message) (halike : r.Alike r') {k : ℕ}
    {p p' : Pkt} (hp : (s.shortBuf.take r.nelm.toNat)[k]? = some p)
    (hp' : (s'.shortBuf.take r'.nelm.toNat)[k]? = some p') :
    (r.bptr[k]?).map (stored host priv p) = (r'.bptr[k]?).map (stored host priv p') := by
  obtain ⟨o, ho, ho'⟩ := h.same s' r' hmsg halike
  obtain ⟨_, n, arr, harr, helem⟩ := shown_element hf ho
  obtain ⟨_, n', arr', harr', helem'⟩ := shown_element (halike.ftvl.trans hf) ho'
  rw [harr, Option.some.injEq, Prod.mk.injEq] at harr'
  rw [← helem k p hp, ← helem' k p' hp', harr'.2]

/-- The packet with another byte at the end of its word. -/
def Pkt.poke (p : Pkt) (i : ℕ) : Pkt :=
  { p with body := p.body.map fun b => ⟨b.id, b.bytes.set i (b.bytes.getD i 0 + 1)⟩ }

theorem bytes_poke (p : Pkt) (i : ℕ) :
    (p.poke i).body.bytes = p.body.bytes.set i (p.body.bytes.getD i 0 + 1) := by
  cases h : p.body <;> simp [Pkt.poke, h, Vec.bytes]

/-- Behind the body that was received, no message says so. -/
theorem message_poke {p : Pkt} {i : ℕ} (h : p.bodylen ≤ i) : (p.poke i).message = p.message := by
  have hpay : (p.poke i).payload = p.payload := by
    rw [Pkt.payload, bytes_poke, Pkt.payload]
    exact List.take_set_of_le h
  rw [Pkt.message, hpay, bytes_poke, List.length_set]
  rfl

/-- Words from different bytes are different. -/
theorem ntohl_injective (host : Host) {l m : List UInt8} (hl : l.length = 4) (hm : m.length = 4)
    (h : ntohl host l = ntohl host m) : l = m := by
  have hl' := (bytes2val_eq_iff host (w := .w4) hl _).mp rfl
  have hm' := (bytes2val_eq_iff host (w := .w4) hm _).mp h.symm
  exact hl'.symm.trans hm'

/-- A word at the offset of the link that is not all of the received body depends on more. -/
theorem ntohl_poke_ne (host : Host) {p : Pkt} {off : ℕ} (h : off + 4 ≤ p.body.bytes.length) :
    ntohl host (((p.poke (off + 3)).body.bytes.drop off).take 4) ≠
      ntohl host ((p.body.bytes.drop off).take 4) := by
  intro heq
  have hraw := ntohl_injective host
    (by rw [bytes_poke, List.length_take, List.length_drop, List.length_set]; omega)
    (by rw [List.length_take, List.length_drop]; omega) heq
  have hlast := congrArg (·[3]?) hraw
  have hget : p.body.bytes[off + 3]? = some (p.body.bytes.getD (off + 3) 0) := by
    rw [List.getD_eq_getElem?_getD, List.getElem?_eq_getElem (by omega), Option.getD_some]
  rw [List.getElem?_take_of_lt (by omega), List.getElem?_take_of_lt (by omega),
    List.getElem?_drop, List.getElem?_drop, bytes_poke, List.getElem?_set_self (by omega), hget,
    Option.some.injEq] at hlast
  exact absurd hlast (by simp)

/-- The array of a record that shows its messages has an element for every packet. -/
theorem element_of_take (hf : r.ftvl = .ulong) {k : ℕ} {p : Pkt}
    (hk : (s.shortBuf.take r.nelm.toNat)[k]? = some p) : k < r.bptr.length := by
  have hlt := (List.getElem?_eq_some_iff.mp hk).1
  rw [List.length_take] at hlt
  rw [r.room hf]
  omega

/-- Its packets have the id of the link: else the array with another value in their element keeps
    it. -/
theorem block_of_readsMessages (h : ReadsMessages host connected priv s r) (hf : r.ftvl = .ulong)
    {k : ℕ} {p : Pkt} (hk : (s.shortBuf.take r.nelm.toNat)[k]? = some p) :
    p.msgid.toUInt32 = priv.block := by
  have hroom := element_of_take hf hk
  have hold := List.getElem?_eq_getElem hroom
  by_contra hne
  have hstored : ∀ old, stored host priv p old = old := fun old => if_pos hne
  have hsame := h.element hf s (r.put k (r.bptr[k] + 1)) rfl ⟨rfl, rfl, rfl⟩ hk hk
  rw [AaiRecord.bptr_put, List.getElem?_set_self hroom, hold, Option.map_some, Option.map_some,
    hstored, hstored, Option.some.injEq] at hsame
  exact absurd hsame (by simp)

/-- A byte behind the received body of one packet does not change what is stored for it. -/
theorem stored_poke (h : ReadsMessages host connected priv s r) (hf : r.ftvl = .ulong) {k i : ℕ}
    {p : Pkt} (hk : (s.shortBuf.take r.nelm.toNat)[k]? = some p) (hi : p.bodylen ≤ i) :
    ∃ old, stored host priv (p.poke i) old = stored host priv p old := by
  have hold := List.getElem?_eq_getElem (element_of_take hf hk)
  have htake : k < r.nelm.toNat ∧ s.shortBuf[k]? = some p := by
    rw [List.getElem?_take] at hk
    exact Option.ite_none_right_eq_some.mp hk
  obtain ⟨hlt, rfl⟩ := List.getElem?_eq_some_iff.mp htake.2
  have hmsg : (s.shortBuf.set k (s.shortBuf[k].poke i)).map Pkt.message =
      s.shortBuf.map Pkt.message := by
    rw [List.map_set, message_poke hi, ← List.getElem_map Pkt.message (h := by simpa using hlt),
      List.set_getElem_self]
  have hpoked : ((s.shortBuf.set k (s.shortBuf[k].poke i)).take r.nelm.toNat)[k]? =
      some (s.shortBuf[k].poke i) := by
    rw [List.getElem?_take_of_lt htake.1]
    exact List.getElem?_set_self hlt
  have hsame := h.element hf { s with shortBuf := s.shortBuf.set k (s.shortBuf[k].poke i) } r hmsg
    ⟨rfl, rfl, rfl⟩ hk hpoked
  rw [hold, Option.map_some, Option.map_some, Option.some.injEq] at hsame
  exact ⟨_, hsame.symm⟩

/-- A record that shows its messages has packets that are all within. -/
theorem within_of_readsMessages (h : ReadsMessages host connected priv s r) (hf : r.ftvl = .ulong) :
    ∀ p ∈ s.shortBuf.take r.nelm.toNat, Within priv p := by
  intro p hp
  obtain ⟨k, hk⟩ := List.mem_iff_getElem?.mp hp
  have hid := block_of_readsMessages h hf hk
  refine ⟨hid, ?_⟩
  by_contra hbytes
  obtain ⟨hpay, hlen⟩ := not_or.mp hbytes
  obtain ⟨o, ho, _⟩ := h.same s r rfl ⟨rfl, rfl, rfl⟩
  have hin : priv.offset.toNat + 4 ≤ p.body.bytes.length := by
    by_contra hlt
    exact (shown_element hf ho).1 p hp ⟨hid, Nat.le_of_not_lt hlen, Nat.lt_of_not_le hlt⟩
  have hshort : p.bodylen ≤ priv.offset.toNat + 3 := by
    rw [Pkt.payload, List.length_take] at hpay
    omega
  -- the last byte of the word is behind the body
  obtain ⟨old, hsame⟩ := stored_poke h hf hk hshort
  have hid' : (p.poke (priv.offset.toNat + 3)).msgid.toUInt32 = priv.block := hid
  have hlen' : ¬ (p.poke (priv.offset.toNat + 3)).body.bytes.length < (priv.offset + 4).toNat := by
    rwa [bytes_poke, List.length_set]
  rw [stored, stored, if_neg (not_not_intro hid), if_neg (not_not_intro hid'), if_neg hlen,
    if_neg hlen', UInt32.ofBitVec.injEq] at hsame
  exact ntohl_poke_ne host hin hsame

end Routine

/-- SHORT BUFFER: what `devudp_read_shortbuf` shows in an array of `ULONG` depends on the messages
    in the short buffer only, and is made of their bodies, if and only if every packet in reach has
    the id of the link and the four bytes of the link were received of it, or are refused. -/
theorem short_reads (host : Host) (connected : Bool) (priv : PrivShortBuf) (s : UdpFast E)
    (r : AaiRecord) : ReadsMessages host connected priv s r ↔
      (r.ftvl = .ulong → ∀ p ∈ s.shortBuf.take r.nelm.toNat, Within priv p) :=
  ⟨within_of_readsMessages, readsMessages_of_within⟩

/-- A stranger leaves eight bytes `b` in a buffer, and a packet of the peer with one byte of body
    gets to the short buffer in it. -/
def leftOver (b : UInt8) : List Action :=
  [.readShortbuf 1, .rxTop,
    .rxRecv (.msgs [⟨⟨2, 2⟩, header 1 8 ++ List.replicate 8 b, none⟩]) ⟨0, 0⟩,
    .rxRecv (.msgs [⟨⟨1, 1⟩, header 1 1 ++ [5], none⟩]) ⟨0, 0⟩, .rxNotify, .cacheReturn,
    .cacheSignal, .cacheWake, .cacheSwap, .cacheDispatch ⟨⟨0, 0⟩, fun _ _ => 0⟩,
    .cacheDispatch ⟨⟨0, 0⟩, fun _ _ => 0⟩, .cacheRotate ⟨"", none, [], none, fun _ => ""⟩,
    .cacheWrite ⟨"", none, [], none, fun _ => ""⟩, .cacheShort]

/-- A record with one element. -/
def AaiRecord.one (v : UInt32) : AaiRecord :=
  ⟨.ulong, 1, 0, [v], ⟨.noAlarm, .noAlarm⟩, ⟨0, 0⟩, false, fun _ => rfl⟩

/-- Two runs end with the same message in the short buffer. At offset 0 a record shows the byte that
    was received and three that were left over; a record of another id shows what it had before. -/
theorem left_over_shown : ∃ s s' : UdpFast Chains,
    Run.exec (step (.small 1)) (.init (.small 1)) (leftOver 7) = some s ∧
    Run.exec (step (.small 1)) (.init (.small 1)) (leftOver 9) = some s' ∧
    s'.shortBuf.map Pkt.message = s.shortBuf.map Pkt.message ∧
    (devudpReadShortbuf .little true ⟨1, 0⟩ s (.one 0)).map (·.2.shown) =
      some (⟨.noAlarm, .noAlarm⟩, some (1, [0x05070707])) ∧
    (devudpReadShortbuf .little true ⟨1, 0⟩ s' (.one 0)).map (·.2.shown) =
      some (⟨.noAlarm, .noAlarm⟩, some (1, [0x05090909])) ∧
    (devudpReadShortbuf .little true ⟨2, 0⟩ s (.one 3)).map (·.2.shown) =
      some (⟨.noAlarm, .noAlarm⟩, some (1, [3])) ∧
    (devudpReadShortbuf .little true ⟨2, 0⟩ s (.one 4)).map (·.2.shown) =
      some (⟨.noAlarm, .noAlarm⟩, some (1, [4])) ∧
    ¬ ReadsMessages .little true ⟨1, 0⟩ s (.one 0) ∧
    ¬ ReadsMessages .little true ⟨2, 0⟩ s (.one 3) := by
  have hrun : ∀ b ∈ ([7, 9] : List UInt8),
      ∃ s, Run.exec (step (.small 1)) (.init (.small 1) : UdpFast Chains) (leftOver b) = some s ∧
        s.shortBuf = [⟨some ⟨0, 5 :: List.replicate 7 b⟩, 1, ⟨0, 0⟩, 1⟩] := by
    intro b hb
    have hview : (Run.exec (step (.small 1)) (.init (.small 1) : UdpFast Chains) (leftOver b)).map
        UdpFast.shortBuf = some [⟨some ⟨0, 5 :: List.replicate 7 b⟩, 1, ⟨0, 0⟩, 1⟩] := by
      revert b
      decide +kernel
    exact Option.map_eq_some_iff.mp hview
  obtain ⟨s, hs, hbuf⟩ := hrun 7 (by decide)
  obtain ⟨s', hs', hbuf'⟩ := hrun 9 (by decide)
  have hone : (devudpReadShortbuf .little true ⟨1, 0⟩ s (.one 0)).map (·.2.shown) =
      some (⟨.noAlarm, .noAlarm⟩, some (1, [0x05070707])) := by
    rw [devudpReadShortbuf_ulong rfl, hbuf]
    rfl
  have hone' : (devudpReadShortbuf .little true ⟨1, 0⟩ s' (.one 0)).map (·.2.shown) =
      some (⟨.noAlarm, .noAlarm⟩, some (1, [0x05090909])) := by
    rw [devudpReadShortbuf_ulong rfl, hbuf']
    rfl
  have hstale : ∀ v : UInt32, (devudpReadShortbuf .little true ⟨2, 0⟩ s (.one v)).map (·.2.shown) =
      some (⟨.noAlarm, .noAlarm⟩, some (1, [v])) := by
    intro v
    rw [devudpReadShortbuf_ulong rfl, hbuf]
    rfl
  have hmsg : s'.shortBuf.map Pkt.message = s.shortBuf.map Pkt.message := by
    rw [hbuf, hbuf']
    rfl
  refine ⟨s, s', hs, hs', hmsg, hone, hone', hstale 3, hstale 4, fun h => ?_, fun h => ?_⟩
  · obtain ⟨o, ho, ho'⟩ := h.same s' (.one 0) hmsg ⟨rfl, rfl, rfl⟩
    rw [← ho', hone, hone'] at ho
    exact absurd ho (by decide)
  · obtain ⟨o, ho, ho'⟩ := h.same s (.one 4) rfl ⟨rfl, rfl, rfl⟩
    rw [← ho', hstale, hstale] at ho
    exact absurd ho (by decide)

end Pscdrv.Fast
