import Pscdrv.Core.Block
import Pscdrv.Core.ByteOrder
import Pscdrv.Core.Flat

/-! # What the routines of device support share

    A routine runs under `psc->lock` on the block that its link names. It ends normally, by an
    exception that `CATCH` turns into an alarm of the record, or by a fault of the process.

        try { … }            CATCH
        ─────────▶  value  ─────────▶  0
                    recAlarm          its alarm, S_dev_badRequest
                    exception         COMM_ALARM, S_dev_badRequest -/

namespace Pscdrv.Records

open BigEndian

/-- The alarm conditions that device support sets or looks at. -/
inductive AlarmStat where
  | noAlarm
  | read
  | write
  | comm
  | state
  | soft
  | udf
  | other
  deriving DecidableEq

inductive AlarmSevr where
  | noAlarm
  | minor
  | major
  | invalid
  deriving DecidableEq

def AlarmSevr.rank : AlarmSevr → ℕ
  | .noAlarm => 0
  | .minor => 1
  | .major => 2
  | .invalid => 3

/-- `nsta` and `nsev` of a record. -/
structure Alarm where
  nsta : AlarmStat
  nsev : AlarmSevr
  deriving DecidableEq

/-- `recGblSetSevr()`: only a higher severity is taken over. -/
def Alarm.setSevr (a : Alarm) (stat : AlarmStat) (sevr : AlarmSevr) : Alarm :=
  if a.nsev.rank < sevr.rank then ⟨stat, sevr⟩ else a

variable {E : Type} [Libevent E]

/-- The data of a block; `size()` is a `size_t`. -/
structure BlockData (E : Type) [Libevent E] extends DBuffer E where
  lt : toDBuffer.mem.length < 2 ^ 64

/-- What a routine sees besides the fields of its own record: the PSC, the block of its link, and
    the common fields of the record. -/
structure Dev (E : Type) [Libevent E] where
  connected : Bool
  data : BlockData E
  rxtime : EpicsTimeStamp
  alarm : Alarm
  time : EpicsTimeStamp

/-- The link of a record (`Priv`); `deviceTime` is `tse==epicsTimeEventDeviceTime`. -/
structure Priv where
  offset : ℕ
  timeFromBlock : Bool
  tsoffset : ℕ
  deviceTime : Bool

/-- A link to the given offset; the time is that of the driver. -/
def Priv.at (offset : ℕ) : Priv := ⟨offset, false, 0, false⟩

/-- How the `try` block of a routine ends. -/
inductive Ret (σ α : Type) where
  | value (a : α) (s : σ)
  | recAlarm (stat : AlarmStat) (sevr : AlarmSevr) (s : σ)
  /-- any other `std::exception` -/
  | exception (s : σ)
  /-- a division by zero, a failed assertion, or a write outside of an array -/
  | fault

/-- `S_dev_badRequest` or success. -/
inductive DevStatus where
  | success
  | badRequest
  deriving DecidableEq

namespace Ret

variable {σ α β : Type}

/-- Statement sequencing: an exception or a fault skips the rest. -/
def bind : Ret σ α → (α → σ → Ret σ β) → Ret σ β
  | value a s, k => k a s
  | recAlarm stat sevr s, _ => recAlarm stat sevr s
  | exception s, _ => exception s
  | fault, _ => fault

/-- The state a routine leaves behind. -/
def state? : Ret σ α → Option σ
  | value _ s | recAlarm _ _ s | exception s => some s
  | fault => none

/-- `CATCH`; `raise` sets an alarm of the record. -/
def caught (raise : AlarmStat → AlarmSevr → σ → σ) : Ret σ Unit → Option (σ × DevStatus)
  | value _ s => some (s, .success)
  | recAlarm stat sevr s => some (raise stat sevr s, .badRequest)
  | exception s => some (raise .comm .invalid s, .badRequest)
  | fault => none

end Ret

/-- `recGblSetSevr()` on the record. -/
def Dev.raise (d : Dev E) (stat : AlarmStat) (sevr : AlarmSevr) : Dev E :=
  { d with alarm := d.alarm.setSevr stat sevr }

/-- A routine that finds no connection sets an alarm. -/
def Dev.checkConnected (d : Dev E) (stat : AlarmStat) : Dev E :=
  if d.connected then d else d.raise stat .invalid

@[simp] theorem Dev.checkConnected_data (d : Dev E) (stat : AlarmStat) :
    (d.checkConnected stat).data = d.data := by
  unfold checkConnected
  split <;> rfl

/-- A big-endian word of the host's memory, as `ntohl` gives it. -/
def ntohl (host : Host) (l : List UInt8) : BitVec 32 := ntoh host .w4 (host.load .w4 l)

/-- The timestamp in the 8 bytes `raw` of a block. -/
def blockTime (host : Host) (raw : List UInt8) : EpicsTimeStamp where
  secPastEpoch := ⟨ntohl host (raw.take 4)⟩ - posixTimeAtEpicsEpoch
  nsec := ⟨ntohl host (raw.drop 4)⟩

/-- `setRecTimestamp`; `epicsTime` throws for a timestamp of more than a second of nanoseconds. -/
def setRecTimestamp {R : Type} (host : Host) (priv : Priv) (r : R) (d : Dev E) :
    Ret (R × Dev E) Unit :=
  if !priv.deviceTime then .value () (r, d)
  else if priv.timeFromBlock then
    match d.data.copyoutShape priv.tsoffset 8 0 1 with
    | none => .fault
    | some (raw, n) =>
      if n ≠ 1 then .value () (r, { d with time := d.rxtime })
      else if (blockTime host raw).nsec < 1000000000 then
        .value () (r, { d with time := blockTime host raw })
      else .exception (r, d)
  else .value () (r, { d with time := d.rxtime })

/-- Reading one element of a positive size never faults. -/
theorem BlockData.copyoutShape_one (d : BlockData E) (offset : ℕ) {esize : ℕ} (h : 0 < esize)
    (hlt : esize < 2 ^ 64) :
    d.copyoutShape offset esize 0 1 = some (Flat.copyoutShape d.mem offset esize 0 1) := by
  have hlen := d.lt
  exact d.copyoutShape_spec 1 h (by omega) (by omega)

/-- The timestamp changes neither the record's value nor the block. -/
theorem setRecTimestamp_state {R : Type} (host : Host) (priv : Priv) (r : R) (d : Dev E) :
    ∃ time, (setRecTimestamp host priv r d).state? = some (r, { d with time := time }) := by
  unfold setRecTimestamp
  rw [d.data.copyoutShape_one priv.tsoffset (by decide) (by decide)]
  dsimp only
  split_ifs
  · exact ⟨d.time, rfl⟩
  · exact ⟨d.rxtime, rfl⟩
  · exact ⟨_, rfl⟩
  · exact ⟨d.time, rfl⟩
  · exact ⟨d.rxtime, rfl⟩

end Pscdrv.Records
