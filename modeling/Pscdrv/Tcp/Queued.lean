import Pscdrv.Tcp.Transmit

/-! # The `queued` flag

    A block has at most one message in the send queue, and its flag is to say whether it has. The
    functions that queue a message set the flag, `flushSend` clears the flags of all blocks. The
    flag and the queue come apart where one changes without the other: a call without a connection
    sets the flag and appends no message, and a `flushSend` that fails empties the queue and leaves
    the flags.

                     queueSend                    flushSend
        connected    flag set, message appended   flags cleared, queue moved
        otherwise    flag set, no message         nothing
        failed       nothing                      flags kept, queue emptied -/

namespace Pscdrv.Tcp

open Libevent Run

variable {E : Type} [Libevent E]

/-- The ids of the messages that can be read from the send queue. -/
def waiting (s : Psc E) : List UInt16 := (parse (bytes s.sendbuf)).msgs.map Prod.fst

/-- The flag of every block tells whether a message of it is in the send queue. -/
def Truthful (s : Psc E) : Prop :=
  ∀ id blk, s.sendBlocks id = some blk → (blk.queued = true ↔ id ∈ waiting s)

/-- A call that queues a message is refused with `recAlarm` if and only if a message of the block is
    in the send queue. -/
def Refuses (cfg : Config) (s : Psc E) (op : Op E) : Prop :=
  ∀ id body, queuedBy s op = some (id, body) →
    ((∃ t, call cfg s op = .throw .recAlarm t) ↔ id ∈ waiting s)

/-- Messages are queued with the connection up, and with room for the header in 32 bits; a
    `flushSend` that gets to move the send queue can move it, unless it is empty. -/
structure Kempt (cfg : Config) (s : Psc E) (op : Op E) : Prop where
  safe : Safe cfg s op
  online : (queuedBy s op).isSome = true → s.connected = true
  moves : op = .flushSend → s.connected = true → ∀ ses, s.session = some ses →
    overLimit cfg ses.output = false →
      (addBuffer ses.output s.sendbuf).2 = true ∨ bytes s.sendbuf = []

/-- The send queue holds these messages, and the blocks know. -/
structure Holds (s : Psc E) (fs : List Frame) : Prop where
  buf : bytes s.sendbuf = (fs.map Frame.bytes).flatten
  flags : ∀ id, (s.sendBlocks id).map Block.queued = some true ↔ id ∈ fs.map Frame.code

theorem Holds.waiting_eq {s : Psc E} {fs : List Frame} (h : Holds s fs) :
    waiting s = fs.map Frame.code := by
  rw [waiting, h.buf, parse_frames, List.map_map]
  rfl

theorem Holds.truthful {s : Psc E} {fs : List Frame} (h : Holds s fs) : Truthful s := by
  intro id blk hblk
  rw [h.waiting_eq, ← h.flags, hblk, Option.map_some, Option.some.injEq]

theorem Holds.congr {s t : Psc E} {fs : List Frame} (h : Holds s fs)
    (hbuf : bytes t.sendbuf = bytes s.sendbuf)
    (hflags : ∀ id, (t.sendBlocks id).map Block.queued = some true ↔
      (s.sendBlocks id).map Block.queued = some true) : Holds t fs :=
  ⟨hbuf.trans h.buf, fun id => (hflags id).trans (h.flags id)⟩

/-! ### Queueing a message with the connection up -/

/-- What a call that queues a message of the block `blk` can end with. -/
inductive Queues (s : Psc E) (id : UInt16) (blk : Block E) (body : List UInt8) :
    Res (Psc E) → Prop where
  /-- a message of the block is waiting already -/
  | refused (hq : blk.queued = true) : Queues s id blk body (.throw .recAlarm s)
  /-- the queue is too long, or the memory too short -/
  | failed (hq : blk.queued = false) (what : String) {b : E} (hb : bytes b = bytes s.sendbuf) :
      Queues s id blk body (.throw (.runtimeError what) { s with sendbuf := b })
  | aborted (hq : blk.queued = false) (cond : String) : Queues s id blk body (.abort cond)
  | done (hq : blk.queued = false) {b : E} {f : Frame} (hmsg : f.msg = (id, body))
      (hb : bytes b = bytes s.sendbuf ++ f.bytes) :
      Queues s id blk body (.ok (markQueued { s with sendbuf := b } id))

/-- With the connection up `queueHeader` refuses, fails, or appends the header and reserves room for
    the body. -/
theorem queueHeader_online {cfg : Config} {s : Psc E} (hc : s.connected = true) (code : UInt16)
    (blk : Block E) (n : UInt32) :
    (blk.queued = true ∧ queueHeader cfg s code blk n = .throw .recAlarm s) ∨
      blk.queued = false ∧
        ((∃ what b, bytes b = bytes s.sendbuf ∧
            queueHeader cfg s code blk n = .throw (.runtimeError what) { s with sendbuf := b }) ∨
          (∃ cond, queueHeader cfg s code blk n = .abort cond) ∨
          overLimit cfg s.sendbuf = false ∧ ∃ b, bytes b = bytes s.sendbuf ++ header code n ∧
            (8 + n).toNat ≤ space b + 8 ∧
            queueHeader cfg s code blk n = .ok { s with sendbuf := b }) := by
  cases hq : queueHeader cfg s code blk n with
  | abort cond =>
    refine .inr ⟨?_, .inr (.inl ⟨cond, rfl⟩)⟩
    by_contra hqueued
    rw [queueHeader, if_neg (by simp [hc]), if_pos (by simpa using hqueued)] at hq
    cases hq
  | ok t =>
    rcases queueHeader_ok hq with ⟨hno, _⟩ | ⟨_, hqueued, hlimit, b, rfl, hb, hspace⟩
    · rw [hc] at hno
      cases hno
    · exact .inr ⟨hqueued, .inr (.inr ⟨hlimit, b, hb, hspace, rfl⟩)⟩
  | throw e t =>
    unfold queueHeader at hq
    rw [if_neg (by simp [hc])] at hq
    split at hq
    · rename_i hqueued
      cases hq
      exact .inl ⟨hqueued, rfl⟩
    · rename_i hqueued
      refine .inr ⟨by simpa using hqueued, .inl ?_⟩
      split at hq
      · cases hq
        exact ⟨_, s.sendbuf, rfl, rfl⟩
      · dsimp only at hq
        split at hq
        · cases hq
          exact ⟨_, _, bytes_expand _ _, rfl⟩
        · split at hq <;> cases hq

theorem queueSendRaw_queues {cfg : Config} {s : Psc E} (hc : s.connected = true) (id : UInt16)
    (blk : Block E) (buf : RawBuf) :
    Queues s id blk buf.bytes (queueSendRaw cfg s id blk buf) := by
  unfold queueSendRaw
  rcases queueHeader_online hc id blk buf.len with
    ⟨hq, h⟩ | ⟨hq, ⟨what, b, hb, h⟩ | ⟨cond, h⟩ | ⟨_, b, hb, _, h⟩⟩
  · rw [h]
    exact .refused hq
  · rw [h]
    exact .failed hq what hb
  · rw [h]
    exact .aborted hq cond
  · rw [h, Res.andThen_ok]
    dsimp only
    split
    · rename_i hadd
      have hframe : bytes (add b buf.bytes).1 =
          bytes s.sendbuf ++ Frame.bytes ⟨id, buf.bytes, buf.lt⟩ := by
        rw [bytes_add_ok hadd, hb, List.append_assoc]
        rfl
      exact .done hq rfl hframe
    · exact .aborted hq _

theorem queueSendDbuf_queues {cfg : Config} {s : Psc E} (hc : s.connected = true) (id : UInt16)
    (blk : Block E) (buf : DBuffer E) (hsafe : SafeDbuf cfg s blk buf.mem) :
    Queues s id blk buf.mem (queueSendDbuf cfg s id blk buf) := by
  unfold queueSendDbuf
  rcases queueHeader_online hc id blk (UInt32.ofNat buf.size) with
    ⟨hq, h⟩ | ⟨hq, ⟨what, b, hb, h⟩ | ⟨cond, h⟩ | ⟨hlimit, b, hb, hspace, h⟩⟩
  · rw [h]
    exact .refused hq
  · rw [h]
    exact .failed hq what hb
  · rw [h]
    exact .aborted hq cond
  · have hlen : buf.mem.length + 8 < 2 ^ 32 := hsafe.2 hc hq hlimit
    have hroom : buf.mem.length ≤ space b := by
      have h8 : (8 : UInt32).toNat = 8 := rfl
      rw [buf.size_eq, UInt32.toNat_add, UInt32.toNat_ofNat', h8] at hspace
      omega
    obtain ⟨hok, hbytes⟩ := buf.copyoutEv_space b hroom
    rw [h, Res.andThen_ok]
    dsimp only
    rw [if_pos hok]
    have hframe : bytes (buf.copyoutEv b).1 =
        bytes s.sendbuf ++ Frame.bytes ⟨id, buf.mem, by omega⟩ := by
      rw [hbytes, hb, List.append_assoc, buf.size_eq]
      rfl
    exact .done hq rfl hframe

section Steps

variable {s t : Psc E} {id : UInt16} {blk : Block E} {body : List UInt8} {fs : List Frame}
  {r : Res (Psc E)}

/-- A block whose flag is set has a message in the queue, and no other one. -/
theorem Holds.queued_iff (h : Holds s fs) (hblk : s.sendBlocks id = some blk) :
    blk.queued = true ↔ id ∈ waiting s := h.truthful id blk hblk

/-- One message more, and the flag of its block. -/
theorem Holds.done (h : Holds s fs) (hblk : s.sendBlocks id = some blk) {b : E} {f : Frame}
    (hmsg : f.msg = (id, body)) (hb : bytes b = bytes s.sendbuf ++ f.bytes) :
    Holds (markQueued { s with sendbuf := b } id) (fs ++ [f]) := by
  have hcode : f.code = id := congrArg Prod.fst hmsg
  refine ⟨?_, fun k => ?_⟩
  · change bytes b = _
    rw [hb, h.buf, List.map_append, List.flatten_append, List.map_singleton,
      List.flatten_singleton]
  · change (s.sendBlocks.modify id _ k).map Block.queued = some true ↔ _
    rw [List.map_append, List.map_singleton, List.mem_append, List.mem_singleton, hcode]
    by_cases hk : k = id
    · subst hk
      rw [BlockMap.modify_some _ hblk]
      simp
    · rw [BlockMap.modify_ne _ _ hk, h.flags]
      simp [hk]

/-- STEP: queueing appends one message and sets the flag of its block, or does nothing. -/
theorem Queues.holds (hr : Queues s id blk body r) (h : Holds s fs)
    (hblk : s.sendBlocks id = some blk) (ht : r.state? = some t) : ∃ gs, Holds t gs := by
  cases hr with
  | refused hq =>
    rw [Res.state?_throw, Option.some.injEq] at ht
    exact ⟨fs, ht ▸ h⟩
  | failed hq what hb =>
    rw [Res.state?_throw, Option.some.injEq] at ht
    exact ⟨fs, ht ▸ h.congr hb fun _ => Iff.rfl⟩
  | aborted hq cond => cases ht
  | done hq hmsg hb =>
    rw [Res.state?_ok, Option.some.injEq] at ht
    exact ⟨_, ht ▸ h.done hblk hmsg hb⟩

/-- Queueing is refused exactly while a message of the block is waiting. -/
theorem Queues.refuses (hr : Queues s id blk body r) (h : Holds s fs)
    (hblk : s.sendBlocks id = some blk) : (∃ t, r = .throw .recAlarm t) ↔ id ∈ waiting s := by
  rw [← h.queued_iff hblk]
  cases hr with
  | refused hq => exact iff_of_true ⟨s, rfl⟩ hq
  | failed hq => exact iff_of_false (fun ⟨_, heq⟩ => by cases heq) (by simp [hq])
  | aborted hq => exact iff_of_false (fun ⟨_, heq⟩ => by cases heq) (by simp [hq])
  | done hq => exact iff_of_false (fun ⟨_, heq⟩ => by cases heq) (by simp [hq])

/-- A block that is created has no message waiting. -/
theorem Holds.getSend (h : Holds s fs) (id : UInt16) : Holds (getSend s id) fs := by
  refine h.congr rfl fun k => ?_
  change (s.sendBlocks.get id k).map Block.queued = some true ↔ _
  rw [BlockMap.get]
  cases hid : s.sendBlocks id with
  | some b => exact Iff.rfl
  | none =>
    dsimp only
    by_cases hk : k = id
    · rw [if_pos hk, hk, hid]
      exact iff_of_false (by simp [Block.new]) (by simp)
    · rw [if_neg hk]

/-- A call through a block of the send direction, if there is one. -/
theorem withSend_holds (body : List UInt8) {f : Block E → Res (Psc E)} (h : Holds s fs)
    (hf : ∀ blk, s.sendBlocks id = some blk → Queues s id blk body (f blk)) :
    (∀ t, (withSend s id f).state? = some t → ∃ gs, Holds t gs) ∧
      ((∃ t, withSend s id f = .throw .recAlarm t) ↔ id ∈ waiting s) := by
  rw [withSend]
  cases hblk : s.sendBlocks id with
  | some blk => exact ⟨fun t ht => (hf blk hblk).holds h hblk ht, (hf blk hblk).refuses h hblk⟩
  | none =>
    refine ⟨fun t ht => ?_, iff_of_false ?_ ?_⟩
    · rw [Res.state?_ok, Option.some.injEq] at ht
      exact ⟨fs, ht ▸ h⟩
    · rintro ⟨_, heq⟩
      cases heq
    · rw [h.waiting_eq, ← h.flags, hblk]
      simp

/-- STEP: a call that queues a message keeps flags and queue together, and is refused exactly while
    a message of the block is waiting. -/
theorem call_holds {cfg : Config} {op : Op E} (hk : Kempt cfg s op) (h : Holds s fs)
    (hq : queuedBy s op = some (id, body)) :
    (∀ t, step cfg s op = some t → ∃ gs, Holds t gs) ∧
      ((∃ t, call cfg s op = .throw .recAlarm t) ↔ id ∈ waiting s) := by
  have hc : s.connected = true := hk.online (by rw [hq]; rfl)
  have hsafe := hk.safe
  cases op with
  | send i =>
    simp only [queuedBy, Option.map_eq_some_iff, Prod.mk.injEq] at hq
    obtain ⟨b, hb, rfl, rfl⟩ := hq
    refine withSend_holds b.data.mem h fun blk hblk => ?_
    cases hb.symm.trans hblk
    exact queueSendDbuf_queues hc i b b.data (hsafe b hb)
  | writeLoSendBlock val =>
    simp only [queuedBy] at hq
    split at hq
    · cases hq
    · rename_i hr
      simp only [Option.map_eq_some_iff, Prod.mk.injEq] at hq
      obtain ⟨b, hb, rfl, rfl⟩ := hq
      simp only [step, call, writeLoSendBlock, if_neg hr]
      refine withSend_holds b.data.mem h fun blk hblk => ?_
      cases hb.symm.trans hblk
      exact queueSendDbuf_queues hc _ b b.data (hsafe (by omega) (by omega) b hb)
  | queueSendId i buf =>
    simp only [queuedBy, Option.some.injEq, Prod.mk.injEq] at hq
    obtain ⟨rfl, rfl⟩ := hq
    have hc' : (Tcp.getSend s i).connected = true := hc
    exact withSend_holds buf.bytes (h.getSend i) fun blk _ => queueSendRaw_queues hc' i blk buf
  | queueSendRaw i buf =>
    simp only [queuedBy, Option.some.injEq, Prod.mk.injEq] at hq
    obtain ⟨rfl, rfl⟩ := hq
    exact withSend_holds buf.bytes h fun blk _ => queueSendRaw_queues hc i blk buf
  | queueSendDbuf i buf =>
    simp only [queuedBy, Option.some.injEq, Prod.mk.injEq] at hq
    obtain ⟨rfl, rfl⟩ := hq
    exact withSend_holds buf.mem h fun blk hblk =>
      queueSendDbuf_queues hc i blk buf (hsafe blk hblk)
  | _ => cases hq

end Steps

/-! ### The other calls -/

/-- The flags of the send direction are the same. -/
def SameFlags (s t : Psc E) : Prop :=
  ∀ id, (t.sendBlocks id).map Block.queued = (s.sendBlocks id).map Block.queued

theorem SameFlags.refl (s : Psc E) : SameFlags s s := fun _ => rfl

theorem decodeNext_sendBlocks (env : RxEnv) (s : Psc E) (ses : Session E) :
    (decodeNext env s ses).sendBlocks = s.sendBlocks := by
  unfold decodeNext decodeBody decodeHead
  dsimp only
  split_ifs
  · split <;> rfl
  all_goals rfl

theorem recvLoop_sendBlocks (env : RxEnv) (s : Psc E) {t : Psc E}
    (h : (recvLoop env s).state? = some t) : t.sendBlocks = s.sendBlocks := by
  fun_induction recvLoop env s with
  | case1 | case3 | case6 => simp at h
  | case2 s ses hs hshort =>
    simp only [Res.state?_ok, Option.some.injEq] at h
    rw [← h]
    rfl
  | case4 s ses hs _ _ _ =>
    rcases Res.state?_andThen h with ⟨e, hr⟩ | ⟨u, hr, hu⟩
    · have ht := startReconnect_state (hr ▸ Res.state?_throw e t)
      rw [ht]
    · rw [Res.state?_ok, Option.some.injEq] at hu
      have hu' := startReconnect_state (hr ▸ Res.state?_ok u)
      rw [← hu, hu']
  | case5 s ses hs _ _ _ _ ih => rw [ih h, decodeNext_sendBlocks]

/-- STEP: a call that neither queues nor moves messages leaves the flags alone. -/
theorem call_sameFlags {cfg : Config} {s t : Psc E} {op : Op E} (h : step cfg s op = some t)
    (hq : queuedBy s op = none) (hf : op ≠ .flushSend) : SameFlags s t := by
  cases op with
  | connect env =>
    rcases connect_cases h with ⟨-, -, u, rfl, rfl | rfl | rfl⟩ <;> exact .refl s
  | event ev =>
    rcases eventcb_state h with ⟨_, rfl⟩ | rfl | ⟨u, hu, msg, rfl⟩
    · exact .refl s
    · exact .refl t
    · rw [startReconnect_state hu]
      exact .refl s
  | reconnect env =>
    rcases connect_cases (reconnect_state h) with ⟨-, -, u, rfl, rfl | rfl | rfl⟩ <;>
      exact .refl s
  | forceReConnect =>
    rcases forceReConnect_state h with rfl | hr
    · exact .refl t
    · rw [startReconnect_state hr]
      exact .refl s
  | data chunk env =>
    have harr : (arrived s chunk).sendBlocks = s.sendBlocks := by
      unfold arrived
      split <;> rfl
    simp only [step, call, recvdata] at h
    split_ifs at h
    · intro id
      rw [recvLoop_sendBlocks env _ h, harr]
    · simp at h
  | send id =>
    simp only [step, call, send, withSend_none _ (Option.map_eq_none_iff.mp hq), Res.state?_ok,
      Option.some.injEq] at h
    exact h ▸ .refl s
  | writeLoSendBlock val =>
    simp only [step, call, writeLoSendBlock] at h
    simp only [queuedBy] at hq
    split_ifs at h hq
    · rw [Res.state?_ok, Option.some.injEq] at h
      exact h ▸ .refl s
    · rw [send, withSend_none _ (Option.map_eq_none_iff.mp hq), Res.state?_ok,
        Option.some.injEq] at h
      exact h ▸ .refl s
  | queueSendId id buf => cases hq
  | queueSendRaw blk buf => cases hq
  | queueSendDbuf blk buf => cases hq
  | flushSend => exact absurd rfl hf
  | writeBlock id data =>
    simp only [step, call, Res.state?_ok, Option.some.injEq] at h
    subst h
    intro k
    change (s.sendBlocks.modify id _ k).map Block.queued = _
    by_cases hk : k = id
    · rw [hk, BlockMap.modify_self, Option.map_map]
      rfl
    · rw [BlockMap.modify_ne _ _ hk]
  | written n =>
    simp only [step, call, Res.state?_ok, Option.some.injEq] at h
    exact h ▸ .refl s

/-- STEP (`flushSend`): the queue is moved and no flag is left, or both stay. -/
theorem flushSend_holds {cfg : Config} {s t : Psc E} {fs : List Frame}
    (hk : Kempt cfg s .flushSend) (h : Holds s fs) (ht : (flushSend cfg s).state? = some t) :
    ∃ gs, Holds t gs := by
  unfold flushSend at ht
  split at ht
  · rw [Res.state?_ok, Option.some.injEq] at ht
    exact ⟨fs, ht ▸ h⟩
  · rename_i hc
    split at ht
    · cases ht
    · rename_i ses hses
      dsimp only at ht
      split at ht
      · rw [Res.state?_throw, Option.some.injEq] at ht
        exact ⟨fs, ht ▸ h⟩
      · rename_i hlimit
        have hmoves := hk.moves rfl (by simpa using hc) ses hses (by simpa using hlimit)
        split at ht
        · -- the send queue is emptied, but nothing was in it
          rename_i hadd
          rw [Res.state?_throw, Option.some.injEq] at ht
          subst ht
          have hnil : bytes s.sendbuf = [] := hmoves.resolve_left (by simpa using hadd)
          refine ⟨fs, h.congr ?_ fun _ => Iff.rfl⟩
          change bytes (drain _ _) = _
          rw [bytes_drain, length, List.drop_length, hnil]
        · rename_i hadd
          rw [Res.state?_ok, Option.some.injEq] at ht
          subst ht
          refine ⟨[], (addBuffer_ok _ _ (by simpa using hadd)).2, fun id => ?_⟩
          change
            ((s.sendBlocks id).map fun b => { b with queued := false }).map Block.queued = _ ↔ _
          rw [Option.map_map, List.map_nil]
          exact iff_of_false (by cases s.sendBlocks id <;> simp) List.not_mem_nil

/-- STEP: a kempt call keeps flags and queue together. -/
theorem holds_step {cfg : Config} (s : Psc E) (op : Op E) (t : Psc E) (h : ∃ fs, Holds s fs)
    (hk : Kempt cfg s op) (ht : step cfg s op = some t) : ∃ gs, Holds t gs := by
  obtain ⟨fs, h⟩ := h
  cases hq : queuedBy s op with
  | some p => exact (call_holds hk h hq).1 t ht
  | none =>
    by_cases hf : op = .flushSend
    · subst hf
      exact flushSend_holds hk h ht
    · have hsame := call_sameTx ht hq hf
      have hflags := call_sameFlags ht hq hf
      exact ⟨fs, h.congr (by rw [hsame.sendbuf]) fun id => by rw [hflags id]⟩

theorem holds_init (tx rx : Finset UInt16) : Holds (Psc.init tx rx : Psc E) [] := by
  refine ⟨bytes_new, fun id => iff_of_false ?_ List.not_mem_nil⟩
  simp only [Psc.init, BlockMap.registered]
  split <;> simp [Block.new]

/-- QUEUED: in a run of kempt calls the flag of every block tells whether a message of it is in the
    send queue, and a block is refused with `recAlarm` exactly then. -/
theorem queued_truthful (cfg : Config) (tx rx : Finset UInt16) (ops : List (Op E))
    (hk : Along (step cfg) (Kempt cfg) (Psc.init tx rx) ops) :
    Always (step cfg) Truthful (Psc.init tx rx) ops ∧
      Along (step cfg) (Refuses cfg) (Psc.init tx rx) ops := by
  have hinit : ∃ fs, Holds (Psc.init tx rx : Psc E) fs := ⟨[], holds_init tx rx⟩
  refine ⟨always_of_along holds_step (fun _ ⟨_, h⟩ => h.truthful) hinit hk,
    along_of_inv (fun s op t h hk ht => ⟨holds_step s op t h hk ht, ?_⟩) hinit hk⟩
  obtain ⟨fs, h⟩ := h
  exact fun id body hq => (call_holds hk h hq).2

/-- A run that connects, queues a message twice, of which the second is refused, and flushes. -/
def queueTwice : List (Op Chains) :=
  [.connect ⟨true, true⟩, .event ⟨true, false, false, false, false, false, ""⟩,
    .queueSendId 3 ⟨[5, 6], by decide⟩, .queueSendId 3 ⟨[5, 7], by decide⟩, .flushSend]

theorem queued_truthful_twice :
    Always (step ⟨0⟩) Truthful (Psc.init ∅ ∅ : Psc Chains) queueTwice ∧
      Along (step ⟨0⟩) (Refuses ⟨0⟩) (Psc.init ∅ ∅ : Psc Chains) queueTwice := by
  refine queued_truthful ⟨0⟩ ∅ ∅ _ ?_
  intro s₁ h₁
  cases h₁
  refine ⟨⟨trivial, nofun, nofun⟩, fun s₂ h₂ => ?_⟩
  cases h₂
  refine ⟨⟨trivial, nofun, nofun⟩, fun s₃ h₃ => ?_⟩
  cases h₃
  refine ⟨⟨.inl rfl, fun _ => rfl, nofun⟩, fun s₄ h₄ => ?_⟩
  cases h₄
  exact ⟨⟨.inl rfl, fun _ => rfl, nofun⟩, fun s₅ _ =>
    ⟨⟨trivial, nofun, fun _ _ _ _ _ => .inl rfl⟩, trivial⟩⟩

/-- Without a connection the flag is set for a body that no header comes with. -/
theorem unconnected_sets_queued :
    ¬ Always (step ⟨0⟩) Truthful (Psc.init {1} ∅ : Psc Chains)
      [.writeBlock 1 (.contig [7]), .send 1] := by
  have hrun : (exec (step ⟨0⟩) (Psc.init {1} ∅ : Psc Chains)
      [.writeBlock 1 (.contig [7]), .send 1]).map
      (fun s => ((s.sendBlocks 1).map Block.queued, waiting s)) = some (some true, []) := by
    decide +kernel
  obtain ⟨s, hs, hfields⟩ := Option.map_eq_some_iff.mp hrun
  obtain ⟨hqueued, hwaiting⟩ := Prod.mk.inj hfields
  obtain ⟨blk, hblk, hflag⟩ := Option.map_eq_some_iff.mp hqueued
  intro h
  have hmem : 1 ∈ waiting s := (h.exec hs 1 blk hblk).mp hflag
  rw [hwaiting] at hmem
  cases hmem

end Pscdrv.Tcp
