import Pscdrv.Records.Register
import Pscdrv.Schemes.Run
import Pscdrv.Tcp.Psc
import Pscdrv.Udp.PscUdp

/-! # One register in one message

    An output record sends its value in a message of its own, behind the address of its register.
    With `info(SYNC,"SAME")` it also listens for the same message from the device: the listener
    keeps a copy of the body and requests a callback, and the callback processes the record, which
    takes its value from the copy and sends nothing.

        body ──received_block──▶ syncData ──callback──▶ read_msg ──▶ the record

        syncData    [] ──────────▶ [copy] ───────────────▶ []
        syncCB          requested          taken

    The listener takes a non-empty copy for a callback that is still to come. -/

namespace Pscdrv.Single

open Records Memory BigEndian

/-- What the records ask of their PSC. -/
structure PscBase (P : Type) where
  isConnected : P → Bool
  /-- `queueSend(epicsUInt16, const void*, epicsUInt32)` -/
  queueSend : P → UInt16 → RawBuf → Res P

def tcpBase {E : Type} [Libevent E] (cfg : Tcp.Config) : PscBase (Tcp.Psc E) :=
  ⟨Tcp.Psc.connected, Tcp.queueSendId cfg⟩

def udpBase {E : Type} [Libevent E] : PscBase (Udp.PscUdp E) :=
  ⟨Udp.PscUdp.connected, Udp.queueSendId⟩

/-! ### The kinds of records -/

/-- What a routine does with its record. -/
structure Routine (w : Width) (R : Type) where
  /-- the value that is sent -/
  out : R → BitVec w.bits
  /-- what the variable holds that `read_msg` is given -/
  start : R → BitVec w.bits
  /-- the record takes the value of that variable -/
  store : BitVec w.bits → R → R
  /-- the record after its value was sent -/
  sent : R → R
  /-- the record raises `UDF_ALARM` after it took a value -/
  undefined : R → Bool

/-- `VAL` and `UDF`. -/
structure ValRec (w : Width) where
  val : BitVec w.bits
  udf : Bool

/-- `RVAL`, `VAL` and `UDF` of an analog record, whose values are of the type `D`. -/
structure AoRec (D : Type) where
  rval : BitVec 32
  val : D
  udf : Bool

/-- `write_msg_val`, for `longout` and `int64out` -/
def writeMsgVal (w : Width) : Routine w (ValRec w) where
  out r := r.val
  start r := r.val
  store v _ := ⟨v, false⟩
  sent r := { r with udf := false }
  undefined _ := false

/-- `write_msg_rval`, for `ao`; `toEGU` is `analogRaw2EGU`. -/
def writeMsgRval {D : Type} (toEGU : BitVec 32 → D) (isnan : D → Bool) : Routine .w4 (AoRec D) where
  out r := r.rval
  start r := r.rval
  store v _ := ⟨v, toEGU v, isnan (toEGU v)⟩
  sent r := r
  undefined r := r.udf

/-- `write_msg_binary_rval`, for `bo`, `mbbo` and `mbboDirect` -/
def writeMsgBinaryRval : Routine .w4 BinaryRec where
  out r := if r.mask ≠ 0 then r.rval &&& r.mask else r.rval
  start _ := 0
  store v r := { r with rval := v }
  sent r := r
  undefined _ := false

/-- `write_msg_val_ao`, for `ao`; `toRaw` is `analogEGU2Raw`. -/
def writeMsgValAo {D : Type} {w : Width} (toRaw : D → BitVec w.bits) (toEGU : BitVec w.bits → D)
    (isnan : D → Bool) : Routine w (AoRec D) where
  out r := toRaw r.val
  start _ := 0
  store v r := { r with val := toEGU v, udf := isnan (toEGU v) }
  sent r := r
  undefined r := r.udf

/-! ### The state -/

/-- How far `sync_callback` has come: it holds the lock of the record from `running` on, and
    `dbProcess()` has called the routine when it is `processed`. -/
inductive Phase where
  | idle
  | running
  | processed
  deriving DecidableEq

/-- A record, the block it listens to and its PSC; `scheduled` counts the requests of `syncCB` that
    no callback thread has taken. -/
structure State (E P R : Type) [Libevent E] where
  data : BlockData E
  syncData : List UInt8
  scheduled : ℕ
  syncNow : Bool
  phase : Phase
  record : R
  alarm : Alarm
  psc : P

/-- The link of a record, and what its type decides. -/
structure Link (w : Width) (P R : Type) where
  host : Host
  bid : UInt16
  offset : ℕ
  base : PscBase P
  routine : Routine w R

/-- The value of `offset` in the message is behind the padding that an 8-byte value asks for. -/
def valAt : Width → ℕ
  | .w8 => 8
  | _ => 4

/-- `sizeof(frame)` -/
def frameSize : Width → ℕ
  | .w8 => 16
  | _ => 8

/-- `n` bytes of uninitialised memory. -/
def uninit (stack : ℕ → UInt8) (n : ℕ) : List UInt8 := (List.range n).map stack

@[simp] theorem length_uninit (stack : ℕ → UInt8) (n : ℕ) : (uninit stack n).length = n := by
  simp [uninit]

theorem val_fits (w : Width) : valAt w + w.bytes ≤ frameSize w := by cases w <;> decide

theorem addr_fits (w : Width) : 4 ≤ frameSize w := by cases w <;> decide

variable {E P R : Type} [Libevent E] {w : Width}

namespace Link

variable (K : Link w P R)

/-- `tosend` -/
def tosend (v : BitVec w.bits) (stack : ℕ → UInt8) : List UInt8 :=
  let addr : BitVec 32 := .ofNat 32 K.offset
  let tosend := overwrite (uninit stack (frameSize w)) 0 (stored K.host (w := .w4) addr)
  overwrite tosend (valAt w) (stored K.host v)

theorem length_tosend (v : BitVec w.bits) (stack : ℕ → UInt8) :
    (K.tosend v stack).length = frameSize w := by
  have haddr := addr_fits w
  have hval := val_fits w
  have hfirst : (overwrite (uninit stack (frameSize w)) 0
      (stored K.host (w := .w4) (.ofNat 32 K.offset))).length = frameSize w := by
    rw [length_overwrite, length_uninit]
    rwa [length_stored, length_uninit, Nat.zero_add]
  rw [tosend, length_overwrite, hfirst]
  rwa [hfirst, length_stored]

theorem frameSize_lt (w : Width) : frameSize w < 2 ^ 32 := by cases w <;> decide

/-- `write_msg` -/
def writeMsg (v : BitVec w.bits) (stack : ℕ → UInt8) (s : State E P R) : Ret (State E P R) Unit :=
  let bytes : RawBuf := ⟨K.tosend v stack, (K.length_tosend v stack).trans_lt (frameSize_lt w)⟩
  if !K.base.isConnected s.psc then .recAlarm .write .invalid s
  else match K.base.queueSend s.psc K.bid bytes with
  | .ok p => .value () { s with psc := p }
  | .throw _ p => .exception { s with psc := p }
  | .abort _ => .fault

/-- `read_msg`; `value` is what `*value` holds before. It looks at the size of the block, and reads
    the copy, which may be shorter. -/
def readMsg (value : BitVec w.bits) (s : State E P R) : Ret (State E P R) (BitVec w.bits) :=
  if s.data.size < frameSize w then .value value s
  else if s.syncData.length < frameSize w then .fault
  else
    let torecv := s.syncData
    let s := { s with syncData := [] }
    if K.offset ≠ (ntohl K.host (torecv.take 4)).toNat then .fault
    else
      let value := ntoh K.host w (K.host.load w ((torecv.drop (valAt w)).take w.bytes))
      .value value
        { s with alarm := if s.alarm = ⟨.udf, .invalid⟩ then ⟨.noAlarm, .noAlarm⟩ else s.alarm }

/-- The `try` block of the routines. -/
def attempt (stack : ℕ → UInt8) (s : State E P R) : Ret (State E P R) Unit :=
  if !s.syncNow then
    (K.writeMsg (K.routine.out s.record) stack s).bind fun _ s =>
      .value () { s with record := K.routine.sent s.record }
  else
    (K.readMsg (K.routine.start s.record) s).bind fun v s =>
      let r := K.routine.store v s.record
      .value () { s with
        record := r
        alarm := if K.routine.undefined r then s.alarm.setSevr .udf .invalid else s.alarm }

/-- The routine of the record. -/
def write (stack : ℕ → UInt8) (s : State E P R) : Option (State E P R) :=
  ((K.attempt stack s).caught fun stat sevr s =>
    { s with alarm := s.alarm.setSevr stat sevr }).map Prod.fst

/-- `received_block`; `data.addr` is not initialised. The result of `copyout` is converted to a
    number where it becomes the size of the copy. -/
def receivedBlock (stack : ℕ → UInt8) (s : State E P R) : Option (State E P R) :=
  match s.data.copyout 0 4 with
  | none => none
  | some (_, true) => some s
  | some (bytes, false) =>
    if K.offset ≠ (ntohl K.host (overwrite (uninit stack 4) 0 bytes)).toNat then some s
    else match s.data.copyout 0 s.data.size with
    | none => none
    | some (bytes, actual) =>
      let alreadyQueued := !s.syncData.isEmpty
      let syncData := overwrite (resize s.data.size s.syncData) 0 bytes
      some { s with
        syncData := resize (if actual then 1 else 0) syncData
        scheduled := if alreadyQueued then s.scheduled else s.scheduled + 1 }

end Link

/-! ### Interleavings -/

/-- What happens to a record, in any order. -/
inductive Op (E P R : Type) [Libevent E] where
  /-- a message is received, and the listeners are called -/
  | received (body : BlockData E) (stack : ℕ → UInt8)
  /-- a callback thread starts `sync_callback` -/
  | callback
  /-- `dbProcess()` calls the routine; record support has set `alarm` -/
  | process (alarm : Alarm) (stack : ℕ → UInt8)
  /-- `sync_callback` returns -/
  | finish
  /-- the record is given other values, and processed -/
  | put (r : R) (alarm : Alarm) (stack : ℕ → UInt8)
  /-- the PSC does something else -/
  | other (psc : P)

/-- One step; the lock of the record keeps `put` out of `sync_callback`. There is no state after a
    fault. -/
def step (K : Link w P R) (s : State E P R) : Op E P R → Option (State E P R)
  | .received body stack => K.receivedBlock stack { s with data := body }
  | .callback =>
    if 0 < s.scheduled ∧ s.phase = .idle then
      some { s with scheduled := s.scheduled - 1, syncNow := true, phase := .running }
    else none
  | .process alarm stack =>
    if s.phase = .running then
      (K.write stack { s with alarm := alarm }).map fun s => { s with phase := .processed }
    else none
  | .finish =>
    if s.phase = .processed then some { s with syncNow := false, phase := .idle } else none
  | .put r alarm stack =>
    if s.phase = .idle then K.write stack { s with record := r, alarm := alarm } else none
  | .other psc => some { s with psc := psc }

/-- The record after `init_output`; nothing has been received. -/
def init (r : R) (alarm : Alarm) (psc : P) : State E P R where
  data := { toDBuffer := .empty, lt := Nat.two_pow_pos 64 }
  syncData := []
  scheduled := 0
  syncNow := false
  phase := .idle
  record := r
  alarm := alarm
  psc := psc

/-! ### What one step does to the copy -/

/-- The body is too short for an address, and `data.addr` has got the address by chance. -/
def Chance (K : Link w P R) (body : BlockData E) (stack : ℕ → UInt8) : Prop :=
  body.mem.length < 4 ∧ (ntohl K.host (uninit stack 4)).toNat = K.offset

instance (K : Link w P R) (body : BlockData E) (stack : ℕ → UInt8) :
    Decidable (Chance K body stack) := inferInstanceAs (Decidable (_ ∧ _))

/-- The first byte of the block becomes the copy. -/
def State.keep (s : State E P R) : State E P R :=
  { s with
    syncData := s.data.mem.take 1
    scheduled := if s.syncData = [] then s.scheduled + 1 else s.scheduled }

/-- What is kept of a body that was copied to the vector. -/
theorem kept_copy (d : BlockData E) (buf : List UInt8) :
    ∃ bytes actual, d.copyout 0 d.size = some (bytes, actual) ∧
      resize (if actual then 1 else 0) (overwrite (resize d.size buf) 0 bytes) = d.mem.take 1 := by
  have hlt := d.lt
  by_cases hzero : d.size = 0
  · have hnil : d.mem = [] := List.eq_nil_of_length_eq_zero (d.size_eq ▸ hzero)
    refine ⟨[], false, by simp [DBuffer.copyout, DBuffer.copyoutShape, hzero], ?_⟩
    simp [hnil, resize]
  · have hsize : d.size = d.mem.length := d.size_eq
    have hcopy : d.copyout 0 d.size = some (Flat.copyout d.mem 0 d.size) :=
      d.copyout_spec (by omega) (by omega) (by omega)
    rw [Flat.copyout, if_pos (by omega), List.drop_zero, hsize, List.take_length, ← hsize] at hcopy
    refine ⟨d.mem, true, hcopy, ?_⟩
    have hfull : overwrite (resize d.size buf) 0 d.mem = d.mem := by
      rw [overwrite, List.take_zero, List.nil_append, Nat.zero_add, List.drop_of_length_le,
        List.append_nil]
      rw [length_resize, hsize]
    rw [hfull, resize, if_pos rfl, Nat.sub_eq_zero_of_le (by omega), List.replicate_zero,
      List.append_nil]

/-- STEP: the listener keeps a byte of a body that is too short, by chance, and nothing of any
    other. -/
theorem receivedBlock_spec (K : Link w P R) (stack : ℕ → UInt8) (s : State E P R) :
    K.receivedBlock stack s = some (if Chance K s.data stack then s.keep else s) := by
  have hlt := s.data.lt
  have hcopy : s.data.copyout 0 4 = some (Flat.copyout s.data.mem 0 4) :=
    s.data.copyout_spec (by omega) (by omega) (by omega)
  by_cases hlong : 4 ≤ s.data.mem.length
  · rw [Flat.copyout, if_pos (by omega)] at hcopy
    have hno : ¬Chance K s.data stack := by
      rintro ⟨hshort, -⟩
      omega
    rw [Link.receivedBlock, hcopy, if_neg hno]
  · rw [Flat.copyout, if_neg (by omega)] at hcopy
    have huninit : overwrite (uninit stack 4) 0 [] = uninit stack 4 := overwrite_nil _ _
    rw [Link.receivedBlock, hcopy]
    by_cases haddr : (ntohl K.host (uninit stack 4)).toNat = K.offset
    · obtain ⟨bytes, actual, hall, hkept⟩ := kept_copy s.data s.syncData
      have hchance : Chance K s.data stack := ⟨by omega, haddr⟩
      simp only [huninit, haddr, hall, if_pos hchance, hkept, ne_eq, not_true_eq_false, if_false]
      rw [State.keep]
      cases s.syncData <;> rfl
    · have hno : ¬Chance K s.data stack := fun h => haddr h.2
      simp only [huninit, if_neg hno, ne_eq, Ne.symm haddr, not_false_eq_true, if_true]

/-- What the routine leaves alone. -/
structure Frame (s t : State E P R) : Prop where
  data : t.data = s.data
  scheduled : t.scheduled = s.scheduled
  syncNow : t.syncNow = s.syncNow
  phase : t.phase = s.phase
  syncData : t.syncData = s.syncData ∨ t.syncData = []

/-- A message that is sent changes the PSC only. -/
theorem writeMsg_cases (K : Link w P R) (v : BitVec w.bits) (stack : ℕ → UInt8)
    (s : State E P R) : K.writeMsg v stack s = .fault ∨
      K.writeMsg v stack s = .recAlarm .write .invalid s ∨
      ∃ psc, K.writeMsg v stack s = .value () { s with psc := psc } ∨
        K.writeMsg v stack s = .exception { s with psc := psc } := by
  rw [Link.writeMsg]
  by_cases hconn : (!K.base.isConnected s.psc) = true
  · exact .inr (.inl (if_pos hconn))
  rw [if_neg hconn]
  split
  · exact .inr (.inr ⟨_, .inl rfl⟩)
  · exact .inr (.inr ⟨_, .inr rfl⟩)
  · exact .inl rfl

/-- `read_msg` throws no exception; it takes the copy, or finds the block too short. -/
theorem readMsg_cases (K : Link w P R) (value : BitVec w.bits) (s : State E P R) :
    K.readMsg value s = .fault ∨ K.readMsg value s = .value value s ∨
      ∃ v alarm, K.readMsg value s = .value v { s with syncData := [], alarm := alarm } := by
  rw [Link.readMsg]
  by_cases hshort : s.data.size < frameSize w
  · rw [if_pos hshort]
    exact .inr (.inl rfl)
  rw [if_neg hshort]
  by_cases hcopy : s.syncData.length < frameSize w
  · rw [if_pos hcopy]
    exact .inl rfl
  rw [if_neg hcopy]
  by_cases haddr : K.offset ≠ (ntohl K.host (s.syncData.take 4)).toNat
  · exact .inl (if_pos haddr)
  · exact .inr (.inr ⟨_, _, if_neg haddr⟩)

/-- WRITE: the routine sends, or takes the copy, or leaves it for the next time. -/
theorem write_frame (K : Link w P R) {stack : ℕ → UInt8} {s t : State E P R}
    (h : K.write stack s = some t) : Frame s t := by
  rw [Link.write, Link.attempt] at h
  cases hsync : s.syncNow with
  | false =>
    rw [hsync] at h
    rcases writeMsg_cases K (K.routine.out s.record) stack s with hw | hw | ⟨psc, hw | hw⟩
    · rw [hw] at h
      cases h
    all_goals
      rw [hw] at h
      cases h
      exact ⟨rfl, rfl, rfl, rfl, .inl rfl⟩
  | true =>
    rw [hsync] at h
    rcases readMsg_cases K (K.routine.start s.record) s with hr | hr | ⟨v, alarm, hr⟩
    · rw [hr] at h
      cases h
    · rw [hr] at h
      cases h
      exact ⟨rfl, rfl, rfl, rfl, .inl rfl⟩
    · rw [hr] at h
      cases h
      exact ⟨rfl, rfl, rfl, rfl, .inr rfl⟩

/-- What a step does to the copy and to `syncNow`. -/
structure Moved (K : Link w P R) (s : State E P R) (op : Op E P R) (t : State E P R) : Prop where
  copy : t.syncData = s.syncData ∨ t.syncData = [] ∨
    ∃ body stack, op = .received body stack ∧ Chance K body stack ∧
      t.syncData = body.mem.take 1
  sync : t.phase = .running → t.syncNow = true ∨ t.phase = s.phase ∧ t.syncNow = s.syncNow

/-- STEP: only the listener keeps anything, and `syncNow` is set where `sync_callback` starts. -/
theorem step_moved (K : Link w P R) {s t : State E P R} {op : Op E P R}
    (h : step K s op = some t) : Moved K s op t := by
  cases op with
  | received body stack =>
    rw [step, receivedBlock_spec, Option.some.injEq] at h
    subst h
    by_cases hchance : Chance K body stack
    · rw [if_pos hchance]
      exact ⟨.inr (.inr ⟨body, stack, rfl, hchance, rfl⟩), fun _ => .inr ⟨rfl, rfl⟩⟩
    · rw [if_neg hchance]
      exact ⟨.inl rfl, fun _ => .inr ⟨rfl, rfl⟩⟩
  | callback =>
    obtain ⟨-, ht⟩ := Option.ite_none_right_eq_some.mp h
    cases ht
    exact ⟨.inl rfl, fun _ => .inl rfl⟩
  | process alarm stack =>
    obtain ⟨-, hw⟩ := Option.ite_none_right_eq_some.mp h
    obtain ⟨u, hu, rfl⟩ := Option.map_eq_some_iff.mp hw
    refine ⟨(write_frame K hu).syncData.imp_right .inl, ?_⟩
    intro hphase
    cases hphase
  | finish =>
    obtain ⟨-, ht⟩ := Option.ite_none_right_eq_some.mp h
    cases ht
    refine ⟨.inl rfl, ?_⟩
    intro hphase
    cases hphase
  | put r alarm stack =>
    obtain ⟨-, hw⟩ := Option.ite_none_right_eq_some.mp h
    have hframe := write_frame K hw
    exact ⟨hframe.syncData.imp_right .inl, fun _ => .inr ⟨hframe.phase, hframe.syncNow⟩⟩
  | other psc =>
    cases h
    exact ⟨.inl rfl, fun _ => .inr ⟨rfl, rfl⟩⟩

/-! ### Whether the record gets stuck -/

/-- The body carries the address of the record. -/
def Matching (K : Link w P R) (body : BlockData E) : Prop :=
  4 ≤ body.mem.length ∧ ofBe (body.mem.take 4) = K.offset

instance (K : Link w P R) (body : BlockData E) : Decidable (Matching K body) :=
  inferInstanceAs (Decidable (_ ∧ _))

/-- A body with the address of the record is received. -/
def Op.Carries (K : Link w P R) : Op E P R → Prop
  | .received body _ => Matching K body
  | _ => False

/-- Nothing is kept unless a callback is to come. -/
def Pending (s : State E P R) : Prop := s.syncData ≠ [] → 0 < s.scheduled ∨ s.phase ≠ .idle

/-- After a body with its address the record is going to be processed. -/
def Heard (K : Link w P R) (s : State E P R) (op : Op E P R) : Prop :=
  op.Carries K → ∀ t, step K s op = some t → 0 < t.scheduled ∨ t.phase = .running

/-- The run never gets stuck. -/
structure NeverStuck (K : Link w P R) (s : State E P R) (ops : List (Op E P R)) : Prop where
  pending : Run.Always (step K) Pending s ops
  heard : Run.Along (step K) (Heard K) s ops
  /-- `sync_callback` leaves nothing behind that has not come since. -/
  emptied : ∀ before alarm stack after t, before ++ .process alarm stack :: after <+: ops →
    .finish ∈ after → (∀ op ∈ after, ¬op.Carries K) →
    Run.exec (step K) s (before ++ .process alarm stack :: after) = some t → t.syncData = []

/-- A body without the address of the record, and if it is shorter than an address, memory does not
    hold the address by chance either, or there is no byte that could be kept. -/
def Quiet (K : Link w P R) : Op E P R → Prop
  | .received body stack => ¬Matching K body ∧ (Chance K body stack → body.mem = [])
  | _ => True

/-- STEP: quiet steps keep nothing. -/
theorem empty_step (K : Link w P R) {s t : State E P R} {op : Op E P R} (hs : s.syncData = [])
    (hq : Quiet K op) (h : step K s op = some t) : t.syncData = [] := by
  rcases (step_moved K h).copy with ht | ht | ⟨body, stack, rfl, hchance, ht⟩
  · rw [ht, hs]
  · exact ht
  · have hnil : body.mem = [] := hq.2 hchance
    rw [ht, hnil, List.take_nil]

/-- NEVER STUCK: a run of quiet steps never gets stuck. -/
theorem never_stuck (K : Link w P R) (r : R) (alarm : Alarm) (psc : P) {ops : List (Op E P R)}
    (h : ∀ op ∈ ops, Quiet K op) : NeverStuck K (init r alarm psc) ops := by
  have hquiet : Run.Along (step K) (fun _ op => Quiet K op) (init r alarm psc) ops :=
    Run.along_of_mem h
  have hrun : ∀ Q : State E P R → Prop, (∀ s, s.syncData = [] → Q s) →
      Run.Always (step K) Q (init r alarm psc) ops := by
    intro Q hQ
    exact Run.always_of_along (fun s op t hs hq hst => empty_step K hs hq hst) hQ rfl hquiet
  refine ⟨?_, ?_, ?_⟩
  · refine hrun Pending ?_
    intro s hs hne
    exact absurd hs hne
  · refine Run.along_mono ?_ hquiet
    intro s op hq hcarries
    cases op with
    | received body stack => exact absurd hcarries hq.1
    | _ => cases hcarries
  · intro before alarm stack after t hpre _ _ ht
    exact Run.always_iff_exec.mp (hrun _ fun _ hs => hs) _ hpre t ht

/-- A `longout` record for register 128 in message 4. -/
def longout : Link .w4 (Tcp.Psc Libevent.Chains) (ValRec .w4) where
  host := .little
  bid := 4
  offset := 128
  base := tcpBase ⟨0⟩
  routine := writeMsgVal .w4

abbrev LongoutOp := Op Libevent.Chains (Tcp.Psc Libevent.Chains) (ValRec .w4)

/-- Before anything was received. -/
def longoutInit : State Libevent.Chains (Tcp.Psc Libevent.Chains) (ValRec .w4) :=
  init ⟨0, false⟩ ⟨.noAlarm, .noAlarm⟩ (.init {4} {4})

/-- A body of a few bytes is received, where the stack holds `addr` in its fourth byte. -/
def receivedBytes (l : List UInt8) (addr : UInt8) (h : l.length < 2 ^ 64) : LongoutOp :=
  .received { toDBuffer := .contig l, lt := h } fun i => if i = 3 then addr else 0

def processNow : LongoutOp := .process ⟨.noAlarm, .noAlarm⟩ fun _ => 0

/-- Messages for register 129, and one that has no byte to keep. -/
theorem never_stuck_others : NeverStuck longout longoutInit
    [receivedBytes [0, 0, 0, 129, 0, 0, 0, 5] 0 (by decide), receivedBytes [7, 7] 0 (by decide),
      receivedBytes [] 128 (by decide), .callback, processNow, .finish] := by
  refine never_stuck longout ⟨0, false⟩ ⟨.noAlarm, .noAlarm⟩ (.init {4} {4}) ?_
  intro op hop
  simp only [List.mem_cons, List.not_mem_nil, or_false] at hop
  rcases hop with rfl | rfl | rfl | rfl | rfl | rfl
  · exact ⟨by decide, by decide⟩
  · exact ⟨by decide, by decide⟩
  · exact ⟨by decide, by decide⟩
  · trivial
  · trivial
  · trivial

/-- The message of the register is not heard; and a byte that was kept by chance stays when
    `sync_callback` has returned, and no callback is to come. -/
theorem stuck :
    ¬NeverStuck longout longoutInit [receivedBytes [0, 0, 0, 128, 0, 0, 0, 5] 0 (by decide)] ∧
      ¬NeverStuck longout longoutInit
        [receivedBytes [7] 128 (by decide), .callback, processNow, .finish] := by
  refine ⟨?_, ?_⟩
  · intro h
    have hheard := (h.heard _ rfl).1 ⟨by decide, by decide⟩ _ rfl
    revert hheard
    decide
  · intro h
    have hpending := h.pending.exec rfl (by decide)
    revert hpending
    decide

/-! ### Whether the record gets the value of the device -/

/-- What holds of the copy and of `syncNow` in every run. -/
structure Inv (s : State E P R) : Prop where
  copy : s.syncData.length ≤ 1
  sync : s.phase = .running → s.syncNow = true

/-- STEP: no copy is longer than a byte. -/
theorem inv_step (K : Link w P R) {s t : State E P R} {op : Op E P R} (hs : Inv s)
    (h : step K s op = some t) : Inv t := by
  have hmoved : Moved K s op t := step_moved K h
  refine ⟨?_, ?_⟩
  · rcases hmoved.copy with ht | ht | ⟨body, stack, -, -, ht⟩
    · rw [ht]
      exact hs.copy
    · simp [ht]
    · rw [ht, List.length_take]
      exact Nat.min_le_left _ _
  · intro hphase
    rcases hmoved.sync hphase with ht | ⟨hsame, ht⟩
    · exact ht
    · rw [ht]
      exact hs.sync (hsame ▸ hphase)

/-- RUN: no copy is longer than a byte. -/
theorem inv_run (K : Link w P R) {r : R} {alarm : Alarm} {psc : P} {ops : List (Op E P R)}
    {s : State E P R} (h : Run.exec (step K) (init r alarm psc) ops = some s) : Inv s := by
  have hinit : Inv (init r alarm psc : State E P R) := by
    refine ⟨Nat.zero_le _, ?_⟩
    intro hphase
    cases hphase
  have hstep : ∀ (s : State E P R) (op : Op E P R) t, Inv s → step K s op = some t → Inv t :=
    fun _ _ _ => inv_step K
  exact Run.inv_exec' hstep hinit h

/-- READ: a copy that is shorter than the message is read past its end. -/
theorem write_fault (K : Link w P R) {s : State E P R} (hsync : s.syncNow = true)
    (hdata : frameSize w ≤ s.data.mem.length) (hcopy : s.syncData.length < frameSize w)
    (stack : ℕ → UInt8) : K.write stack s = none := by
  have hread : K.readMsg (K.routine.start s.record) s = .fault := by
    rw [Link.readMsg, s.data.size_eq, if_neg (by omega), if_pos hcopy]
  rw [Link.write, Link.attempt, hsync, hread]
  rfl

/-- `dbProcess()` does not return when the block is long enough for the message. -/
theorem process_fault (K : Link w P R) {s : State E P R} (hs : Inv s) (hphase : s.phase = .running)
    (hdata : frameSize w ≤ s.data.mem.length) (alarm : Alarm) (stack : ℕ → UInt8) :
    step K s (.process alarm stack) = none := by
  have hcopy : s.syncData.length < frameSize w :=
    hs.copy.trans_lt (lt_of_lt_of_le (by decide) (addr_fits w))
  have hwrite : K.write stack { s with alarm := alarm } = none :=
    write_fault K (s := { s with alarm := alarm }) (hs.sync hphase) hdata hcopy stack
  rw [step, hwrite]
  exact ite_self none

/-- Nor does `sync_callback`. -/
theorem callback_fault (K : Link w P R) {s u : State E P R} (hs : Inv s)
    (hdata : frameSize w ≤ s.data.mem.length) (alarm : Alarm) (stack : ℕ → UInt8)
    (ops : List (Op E P R)) :
    Run.exec (step K) s (.callback :: .process alarm stack :: ops) ≠ some u := by
  intro hu
  obtain ⟨t, ht, hu⟩ := Run.exec_cons_some _ hu
  obtain ⟨t', ht', -⟩ := Run.exec_cons_some _ hu
  have hinv : Inv t := inv_step K hs ht
  obtain ⟨-, hstart⟩ := Option.ite_none_right_eq_some.mp ht
  cases hstart
  rw [process_fault K hinv rfl hdata] at ht'
  cases ht'

/-- The 4 bytes behind the address. -/
def valueOf (body : BlockData E) : BitVec 32 := .ofNat 32 (ofBe ((body.mem.drop 4).take 4))

/-- The steps up to the end of the following `sync_callback`. -/
def following (alarm : Alarm) (stack : ℕ → UInt8) : Phase → List (Op E P R)
  | .idle => [.callback, .process alarm stack, .finish]
  | .running => [.process alarm stack, .finish]
  | .processed => [.finish, .callback, .process alarm stack, .finish]

/-- The message is for the record or not, and the record behaves accordingly. -/
structure Delivers (K : Link .w4 P R) (s : State E P R) (body : BlockData E)
    (stack : ℕ → UInt8) : Prop where
  /-- The record takes the value, and sends nothing. -/
  taken : 8 ≤ body.mem.length → ofBe (body.mem.take 4) = K.offset →
    ∃ t, step K s (.received body stack) = some t ∧ (0 < t.scheduled ∨ t.phase = .running) ∧
      ∀ alarm stack', ∃ u, Run.exec (step K) t (following alarm stack' t.phase) = some u ∧
        u.record = K.routine.store (valueOf body) t.record ∧ u.psc = t.psc
  ignored : body.mem.length < 4 ∨ ofBe (body.mem.take 4) ≠ K.offset →
    ∃ t, step K s (.received body stack) = some t ∧ t.scheduled = s.scheduled ∧
      t.record = s.record

/-- Behind a message that the record should take, the next `sync_callback` does not end. -/
theorem following_fault (K : Link .w4 P R) {t u : State E P R} (ht : Inv t)
    (hdata : 8 ≤ t.data.mem.length) (alarm : Alarm) (stack : ℕ → UInt8) :
    Run.exec (step K) t (following alarm stack t.phase) ≠ some u := by
  intro hu
  cases hphase : t.phase with
  | idle =>
    rw [hphase] at hu
    exact callback_fault K ht hdata alarm stack _ hu
  | running =>
    rw [hphase] at hu
    obtain ⟨t₁, h₁, -⟩ := Run.exec_cons_some _ hu
    rw [process_fault K ht hphase hdata] at h₁
    cases h₁
  | processed =>
    rw [hphase] at hu
    obtain ⟨t₁, h₁, hu⟩ := Run.exec_cons_some _ hu
    have hinv : Inv t₁ := inv_step K ht h₁
    obtain ⟨-, hfinish⟩ := Option.ite_none_right_eq_some.mp h₁
    cases hfinish
    exact callback_fault K hinv hdata alarm stack _ hu

/-- DELIVERY: in every run the record behaves as it should exactly if the message is not for it,
    and, when the body is shorter than an address, memory does not hold the address by chance or an
    earlier byte is still kept. -/
theorem delivers_iff (K : Link .w4 P R) {r : R} {alarm : Alarm} {psc : P} {ops : List (Op E P R)}
    {s : State E P R} (h : Run.exec (step K) (init r alarm psc) ops = some s) (body : BlockData E)
    (stack : ℕ → UInt8) : Delivers K s body stack ↔
      ¬(8 ≤ body.mem.length ∧ ofBe (body.mem.take 4) = K.offset) ∧
        (Chance K body stack → s.syncData ≠ []) := by
  have hstep : step K s (.received body stack) = some (if Chance K body stack then
      { s with data := body }.keep else { s with data := body }) := receivedBlock_spec K stack _
  constructor
  · intro hdel
    refine ⟨?_, ?_⟩
    · rintro ⟨hlong, haddr⟩
      obtain ⟨t, ht, -, hrun⟩ := hdel.taken hlong haddr
      obtain ⟨u, hu, -⟩ := hrun alarm stack
      have hinv : Inv t := inv_step K (inv_run K h) ht
      have hno : ¬Chance K body stack := by
        rintro ⟨hshort, -⟩
        omega
      rw [hstep, if_neg hno] at ht
      cases ht
      exact following_fault K hinv hlong alarm stack hu
    · intro hchance hnil
      obtain ⟨t, ht, hsame, -⟩ := hdel.ignored (.inl hchance.1)
      rw [hstep, if_pos hchance] at ht
      cases ht
      have hmore : (if s.syncData = [] then s.scheduled + 1 else s.scheduled) = s.scheduled := hsame
      rw [if_pos hnil] at hmore
      omega
  · rintro ⟨hnot, hkept⟩
    refine ⟨?_, ?_⟩
    · intro hlong haddr
      exact absurd ⟨hlong, haddr⟩ hnot
    · intro _
      refine ⟨_, hstep, ?_⟩
      by_cases hchance : Chance K body stack
      · rw [if_pos hchance, State.keep, if_neg (hkept hchance)]
        exact ⟨rfl, rfl⟩
      · rw [if_neg hchance]
        exact ⟨rfl, rfl⟩

/-- The message of the register, with the value 5. -/
def fiveAt128 : BlockData Libevent.Chains :=
  { toDBuffer := .contig [0, 0, 0, 128, 0, 0, 0, 5], lt := by decide }

/-- A byte. -/
def oneByte : BlockData Libevent.Chains := { toDBuffer := .contig [7], lt := by decide }

/-- The address of the register in memory. -/
def addrOnStack (i : ℕ) : UInt8 := if i = 3 then 128 else 0

/-- After a byte was kept by chance. -/
theorem delivers_kept : ∃ s,
    Run.exec (step longout) longoutInit [receivedBytes [7] 128 (by decide)] = some s ∧
      (Delivers longout s oneByte addrOnStack ↔
        ¬(8 ≤ oneByte.mem.length ∧ ofBe (oneByte.mem.take 4) = longout.offset) ∧
          (Chance longout oneByte addrOnStack → s.syncData ≠ [])) :=
  ⟨_, rfl, delivers_iff longout (rfl : Run.exec (step longout) longoutInit
    [receivedBytes [7] 128 (by decide)] = some _) oneByte addrOnStack⟩

/-- The message of the register schedules no callback, and a single byte can schedule one. -/
theorem not_delivered : ¬Delivers longout longoutInit fiveAt128 (fun _ => 0) ∧
    ¬Delivers longout longoutInit oneByte addrOnStack := by
  refine ⟨?_, ?_⟩
  · intro h
    obtain ⟨t, ht, hsched, -⟩ := h.taken (by decide) (by decide)
    cases ht
    revert hsched
    decide
  · intro h
    obtain ⟨t, ht, hsame, -⟩ := h.ignored (.inl (by decide))
    cases ht
    revert hsame
    decide

end Pscdrv.Single
