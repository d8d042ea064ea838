import Pscdrv.Core.Block
import Pscdrv.Core.Wire

/-! # The TCP driver `PSC`

    State and member functions of the class `PSC`, each run under `psc->lock`. The step function
    takes one of them at a time: calls from record processing, the callbacks of the event loop for
    the current session, and the event loop moving bytes on the socket.

    The fields `nsession`, `stream`, `rxlog` and `txlog` are not in the source: they number the
    sessions and record, for each of them, the bytes received, what the decoder did with them and
    the bytes moved to its output buffer. -/

namespace Pscdrv.Tcp

open Libevent

/-- `min_max_buf_size` -/
def minMaxBufSize : ℕ := 1024 * 1024

/-- The settings of the driver that its state machine reads (`PSCMaxSendBuffer`). -/
structure Config where
  maxSendBuffer : ℤ

/-- A `bufferevent`; `id` tells one session from another, as the pointer does. -/
structure Session (E : Type) where
  id : ℕ
  input : E
  output : E
  lowmark : ℕ
  highmark : ℕ

/-- What the decoder does to the blocks, in order. -/
inductive RxEv where
  | count (id : UInt16)
  | unknown (id : UInt16)
  | store (id : UInt16) (body : List UInt8)
  | requestScan (id : UInt16)
  | listeners (id : UInt16)
  deriving DecidableEq

structure Psc (E : Type) [Libevent E] where
  connected : Bool
  ukncount : UInt32
  conncount : UInt32
  sendBlocks : BlockMap E
  recvBlocks : BlockMap E
  message : String
  session : Option (Session E)
  timerActive : Bool
  haveHead : Bool
  header : UInt16
  bodylen : UInt32
  bodyblock : Option UInt16
  expect : ℕ
  sendbuf : E
  nsession : ℕ
  stream : ℕ → List UInt8
  rxlog : List (ℕ × RxEv)
  txlog : List (ℕ × List UInt8)

/-- What the environment answers while a connection is set up. -/
structure ConnEnv where
  /-- `bufferevent_socket_new()` gives a session -/
  socketNew : Bool
  /-- `bufferevent_socket_connect_hostname()` succeeds -/
  connectHostname : Bool

/-- The bits of a `bufferevent` event callback, and the text of the socket error. -/
structure BevEvent where
  connected : Bool
  error : Bool
  eof : Bool
  timeout : Bool
  reading : Bool
  writing : Bool
  errstr : String

variable {E : Type} [Libevent E]

/-- The state after `PSC::PSC` and the `getSend`/`getRecv` calls of record initialisation. -/
def Psc.init (tx rx : Finset UInt16) : Psc E where
  connected := false
  ukncount := 0
  conncount := 0
  sendBlocks := .registered tx
  recvBlocks := .registered rx
  message := "Initialize"
  session := none
  timerActive := false
  haveHead := false
  header := 0
  bodylen := 0
  bodyblock := none
  expect := headerSize
  sendbuf := new
  nsession := 0
  stream := fun _ => []
  rxlog := []
  txlog := []

/-! ### Sending -/

/-- `PSCMaxSendBuffer>0 && evbuffer_get_length(buf)>=(size_t)PSCMaxSendBuffer` -/
def overLimit (cfg : Config) (buf : E) : Bool :=
  decide (0 < cfg.maxSendBuffer) && decide (cfg.maxSendBuffer.toNat ≤ length buf)

/-- `getSend` -/
def getSend (s : Psc E) (id : UInt16) : Psc E := { s with sendBlocks := s.sendBlocks.get id }

def queueHeader (cfg : Config) (s : Psc E) (code : UInt16) (blk : Block E) (buflen : UInt32) :
    Res (Psc E) :=
  if !s.connected then .ok s
  else if blk.queued then .throw .recAlarm s
  else if overLimit cfg s.sendbuf then
    .throw (.runtimeError "Enqueuing message would exceed buffer") s
  else
    let r := expand s.sendbuf (8 + buflen).toNat
    if !r.2 then
      .throw (.runtimeError "Unable to enqueue message.  Insufficient memory.")
        { s with sendbuf := r.1 }
    else
      let a := add r.1 (header code buflen)
      if a.2 then .ok { s with sendbuf := a.1 } else .abort "!err"

/-- `blk->queued = true; blk->count++;` -/
def markQueued (s : Psc E) (id : UInt16) : Psc E :=
  { s with sendBlocks := s.sendBlocks.modify id fun b =>
      { b with queued := true, count := b.count + 1 } }

/-- `queueSend(Block*, const dbuffer&)` -/
def queueSendDbuf (cfg : Config) (s : Psc E) (id : UInt16) (blk : Block E) (buf : DBuffer E) :
    Res (Psc E) :=
  (queueHeader cfg s id blk (UInt32.ofNat buf.size)).andThen fun s =>
    let r := buf.copyoutEv s.sendbuf
    if r.2 then .ok (markQueued { s with sendbuf := r.1 } id)
    else .throw (.runtimeError "copyout() evbuffer_add() error") { s with sendbuf := r.1 }

/-- `queueSend(Block*, const void*, epicsUInt32)` -/
def queueSendRaw (cfg : Config) (s : Psc E) (id : UInt16) (blk : Block E) (buf : RawBuf) :
    Res (Psc E) :=
  (queueHeader cfg s id blk buf.len).andThen fun s =>
    let r := add s.sendbuf buf.bytes
    if r.2 then .ok (markQueued { s with sendbuf := r.1 } id) else .abort "!err"

/-- Call `f` with the block behind a `Block*` of the send direction. -/
def withSend (s : Psc E) (id : UInt16) (f : Block E → Res (Psc E)) : Res (Psc E) :=
  match s.sendBlocks id with
  | some blk => f blk
  | none => .ok s

/-- `queueSend(epicsUInt16, const void*, epicsUInt32)` -/
def queueSendId (cfg : Config) (s : Psc E) (id : UInt16) (buf : RawBuf) : Res (Psc E) :=
  let s := getSend s id
  withSend s id fun blk => queueSendRaw cfg s id blk buf

/-- `PSCBase::send`: queue the block's own data; an unknown id is ignored. -/
def send (cfg : Config) (s : Psc E) (bid : UInt16) : Res (Psc E) :=
  withSend s bid fun block => queueSendDbuf cfg s bid block block.data

/-- `write_lo_send_block`: the record checks the range of its value and sends. -/
def writeLoSendBlock (cfg : Config) (s : Psc E) (val : ℤ) : Res (Psc E) :=
  if val < 0 ∨ 0xffff < val then .ok s else send cfg s (UInt16.ofNat val.toNat)

/-- `flushSend`: move the send queue to the output buffer of the session. -/
def flushSend (cfg : Config) (s : Psc E) : Res (Psc E) :=
  if !s.connected then .ok s
  else match s.session with
  | none => .abort "session"
  | some ses =>
    if overLimit cfg ses.output then
      .throw (.runtimeError "Sending message would exceed buffer") s
    else
      let r := addBuffer ses.output s.sendbuf
      let s := { s with session := some { ses with output := r.1.1 } }
      if !r.2 then
        .throw (.runtimeError "Unable to send messages!")
          { s with sendbuf := drain r.1.2 (length r.1.2) }
      else
        .ok { s with
          sendbuf := r.1.2
          sendBlocks := fun k => (s.sendBlocks k).map fun b => { b with queued := false }
          txlog := s.txlog ++ [(ses.id, bytes s.sendbuf)] }

/-! ### The connection -/

/-- `connect`: start a new connection. -/
def connect (s : Psc E) (env : ConnEnv) : Res (Psc E) :=
  if s.connected then .abort "!connected"
  else if s.session.isSome then .abort "!session"
  else if s.timerActive then .abort "!timer_active"
  else
    let s := { s with
      haveHead := false, header := 0, bodylen := 0, bodyblock := none, expect := headerSize }
    if !env.socketNew then .throw .badAlloc s
    else if !env.connectHostname then
      .ok { s with
        nsession := s.nsession + 1, timerActive := true
        message := "Failed to initiate connection." }
    else
      .ok { s with
        session := some ⟨s.nsession, new, new, s.expect, minMaxBufSize⟩
        nsession := s.nsession + 1
        message := "Connecting..." }

/-- `start_reconnect`: close the socket and initiate a reconnect. -/
def startReconnect (s : Psc E) : Res (Psc E) :=
  if s.session.isNone || s.timerActive then .abort "session && !timer_active"
  else .ok { s with session := none, connected := false, timerActive := true }

def forceReConnect (s : Psc E) : Res (Psc E) :=
  if !s.connected then .ok s else startReconnect s

/-- `reconnect`: entry point for the reconnect timer. -/
def reconnect (s : Psc E) (env : ConnEnv) : Res (Psc E) :=
  if s.connected then .abort "!connected"
  else if s.session.isSome then .abort "!session"
  else
    (connect { s with timerActive := false } env).andThen fun s =>
      if s.session.isSome || s.timerActive then .ok s else .abort "session || timer_active"

/-- `start_reconnect` returns only with a session, which it gives up. -/
theorem startReconnect_state {s t : Psc E} (h : (startReconnect s).state? = some t) :
    t = { s with session := none, connected := false, timerActive := true } := by
  unfold startReconnect at h
  split at h
  · simp at h
  · rw [Res.state?_ok, Option.some.injEq] at h
    exact h.symm

/-- `connect` is called without a session and puts the decoder at a header; it leaves no session,
    the timer for another attempt, or a new session. -/
theorem connect_cases {s t : Psc E} {env : ConnEnv} (h : (connect s env).state? = some t) :
    s.session = none ∧ s.timerActive = false ∧
      ∃ u, u = { s with
          haveHead := false, header := 0, bodylen := 0, bodyblock := none, expect := headerSize } ∧
        (t = u ∨
          t = { u with
            nsession := s.nsession + 1, timerActive := true
            message := "Failed to initiate connection." } ∨
          t = { u with
            session := some ⟨s.nsession, new, new, headerSize, minMaxBufSize⟩
            nsession := s.nsession + 1
            message := "Connecting..." }) := by
  unfold connect at h
  dsimp only at h
  split_ifs at h with hconn hses htimer hnew hhost
  · simp at h
  · simp at h
  · simp at h
  · rw [Res.state?_throw, Option.some.injEq] at h
    exact ⟨by simpa using hses, by simpa using htimer, _, rfl, .inl h.symm⟩
  · rw [Res.state?_ok, Option.some.injEq] at h
    exact ⟨by simpa using hses, by simpa using htimer, _, rfl, .inr (.inl h.symm)⟩
  · rw [Res.state?_ok, Option.some.injEq] at h
    exact ⟨by simpa using hses, by simpa using htimer, _, rfl, .inr (.inr h.symm)⟩

/-- A session behind `connect` is the one it made. -/
theorem connect_session {s t : Psc E} {env : ConnEnv} (h : (connect s env).state? = some t)
    {ses : Session E} (hses : t.session = some ses) :
    ses = ⟨s.nsession, new, new, headerSize, minMaxBufSize⟩ ∧
      t = { s with
        haveHead := false, header := 0, bodylen := 0, bodyblock := none, expect := headerSize
        session := some ses
        nsession := s.nsession + 1
        message := "Connecting..." } := by
  rcases connect_cases h with ⟨hnone, -, u, rfl, rfl | rfl | rfl⟩
  · cases hnone.symm.trans hses
  · cases hnone.symm.trans hses
  · cases hses
    exact ⟨rfl, rfl⟩

/-- `reconnect` leaves the state `connect` leaves. -/
theorem reconnect_state {s t : Psc E} {env : ConnEnv} (h : (reconnect s env).state? = some t) :
    (connect { s with timerActive := false } env).state? = some t := by
  unfold reconnect at h
  split_ifs at h
  · simp at h
  · simp at h
  · rcases Res.state?_andThen h with ⟨e, hr⟩ | ⟨u, hr, hu⟩
    · rw [hr, Res.state?_throw]
    · split_ifs at hu
      · rw [hr, Res.state?_ok]
        exact hu
      · simp at hu

/-- The text `eventcb` keeps for a lost connection. -/
def lostMessage (s : Psc E) (ev : BevEvent) : String :=
  if ev.error then "Socket Error: " ++ ev.errstr
  else if ev.timeout then
    if s.connected then
      (if ev.writing then "TX " else "") ++ (if ev.reading then "RX " else "") ++ "Data Timeout"
    else "Timeout while connecting"
  else "Connection closed by PSC"

/-- `eventcb`. The records of `procOnConnect` are processed with the lock held: their calls are the
    next steps of the run. -/
def eventcb (s : Psc E) (ev : BevEvent) : Res (Psc E) :=
  if ev.connected then
    if s.session.isNone then .abort "session"
    else .ok { s with connected := true, message := "Connected", conncount := s.conncount + 1 }
  else if ev.error || ev.eof || ev.timeout then
    (startReconnect s).andThen fun t => .ok { t with message := lostMessage s ev }
  else .ok s

/-- A connection that is lost is given up, and the message tells why. -/
theorem eventcb_state {s t : Psc E} {ev : BevEvent} (h : (eventcb s ev).state? = some t) :
    (s.session.isSome = true ∧
        t = { s with connected := true, message := "Connected", conncount := s.conncount + 1 }) ∨
      t = s ∨ ∃ u, (startReconnect s).state? = some u ∧ ∃ msg, t = { u with message := msg } := by
  unfold eventcb at h
  split_ifs at h with _ hnone
  · simp at h
  · rw [Res.state?_ok, Option.some.injEq] at h
    exact .inl ⟨by simpa [Option.isSome_iff_ne_none] using hnone, h.symm⟩
  · rcases Res.state?_andThen h with ⟨e, hr⟩ | ⟨u, hr, hu⟩
    · exact .inr (.inr ⟨t, by rw [hr, Res.state?_throw], t.message, rfl⟩)
    · rw [Res.state?_ok, Option.some.injEq] at hu
      exact .inr (.inr ⟨u, by rw [hr, Res.state?_ok], _, hu.symm⟩)
  · rw [Res.state?_ok, Option.some.injEq] at h
    exact .inr (.inl h.symm)

/-- Forcing a reconnect gives the session up, if the connection is up. -/
theorem forceReConnect_state {s t : Psc E} (h : (forceReConnect s).state? = some t) :
    t = s ∨ (startReconnect s).state? = some t := by
  unfold forceReConnect at h
  split at h
  · rw [Res.state?_ok, Option.some.injEq] at h
    exact .inl h.symm
  · exact .inr h

/-! ### Receiving -/

/-- Bytes waiting in the input buffer. -/
def inputLength (s : Psc E) : ℕ :=
  match s.session with
  | some ses => length ses.input
  | none => 0

/-- The branch of `recvdata` that decodes a header; `buf` is what is left of the input. -/
def decodeHead (env : RxEnv) (s : Psc E) (ses : Session E) (hbuf : List UInt8) (buf : E) : Psc E :=
  let id := msgidOf hbuf
  let s := { s with
    session := some { ses with input := buf }
    header := id
    bodylen := bodylenOf hbuf }
  let s : Psc E :=
    if (s.recvBlocks id).isSome then
      { s with
        bodyblock := some id
        recvBlocks := s.recvBlocks.modify id fun b =>
          { b with rxtime := env.now, count := b.count + 1 }
        rxlog := s.rxlog ++ [(ses.id, .count id)] }
    else
      { s with
        bodyblock := none
        ukncount := s.ukncount + 1
        rxlog := s.rxlog ++ [(ses.id, .unknown id)] }
  if s.bodylen ≠ 0 then { s with haveHead := true, expect := s.bodylen.toNat }
  else { s with haveHead := false, bodyblock := none, expect := headerSize }

/-- The branch of `recvdata` that decodes a body. -/
def decodeBody (env : RxEnv) (s : Psc E) (ses : Session E) : Psc E :=
  let s : Psc E :=
    match s.bodyblock with
    | some id =>
      let r := DBuffer.consume ses.input s.bodylen.toNat
      { s with
        session := some { ses with input := r.2 }
        recvBlocks := s.recvBlocks.modify id fun b =>
          { b with data := r.1 }.requestScan (env.scanIoRequest id b.scanCount)
        rxlog := s.rxlog ++
          [(ses.id, .store id r.1.mem), (ses.id, .requestScan id), (ses.id, .listeners id)] }
    | none => { s with session := some { ses with input := drain ses.input s.bodylen.toNat } }
  { s with haveHead := false, bodyblock := none, expect := headerSize }

/-- One turn of the loop of `recvdata`: decode the header or the body that is waiting. -/
def decodeNext (env : RxEnv) (s : Psc E) (ses : Session E) : Psc E :=
  if s.haveHead then decodeBody env s ses
  else decodeHead env s ses ((bytes ses.input).take headerSize) (drain ses.input headerSize)

/-- The session the loop goes on with is the one it started with. -/
theorem decodeNext_session (env : RxEnv) (s : Psc E) (ses : Session E) :
    ∃ ses', (decodeNext env s ses).session = some ses' ∧ ses'.id = ses.id := by
  unfold decodeNext decodeBody decodeHead
  dsimp only
  split_ifs
  · split <;> exact ⟨_, rfl, rfl⟩
  all_goals exact ⟨_, rfl, rfl⟩

/-- An unrecoverable protocol framing error; the bad header has been removed from the input. -/
def framingError (s : Psc E) (ses : Session E) : Res (Psc E) :=
  (startReconnect { s with
      session := some { ses with input := drain ses.input headerSize } }).andThen fun s =>
    .ok { s with message := "Framing error!" }

/-- The end of `recvdata`: wait until as many bytes as the next stage needs are there. -/
def waitForMore (s : Psc E) (ses : Session E) : Psc E :=
  { s with session := some { ses with
      lowmark := s.expect
      highmark := if minMaxBufSize ≤ s.expect then s.expect + 1 else minMaxBufSize } }

/-- The loop of `recvdata`: remove messages as long as there are enough bytes for the next stage.
    The assertion that every turn makes progress is also what makes the recursion end. -/
def recvLoop (env : RxEnv) (s : Psc E) : Res (Psc E) :=
  match s.session with
  | none => .abort "connected && session"
  | some ses =>
    if inputLength s < s.expect then .ok (waitForMore s ses)
    else if !s.haveHead && s.expect != headerSize then .abort "expect==HEADER_SIZE"
    else if !s.haveHead && !isPS ((bytes ses.input).take headerSize) then framingError s ses
    else if _h : inputLength (decodeNext env s ses) < inputLength s then
      recvLoop env (decodeNext env s ses)
    else .abort "nbytes > evbuffer_get_length(buf)"
termination_by inputLength s

/-- `recvdata` -/
def recvdata (env : RxEnv) (s : Psc E) : Res (Psc E) :=
  if s.connected && s.session.isSome then recvLoop env s else .abort "connected && session"

/-! ### Runs -/

/-- One call on a `PSC` instance, or one action of the event loop on its current session. -/
inductive Op (E : Type) [Libevent E] where
  | connect (env : ConnEnv)
  | event (ev : BevEvent)
  | reconnect (env : ConnEnv)
  | forceReConnect
  /-- `chunk` arrives in the input buffer and the data callback runs -/
  | data (chunk : List UInt8) (env : RxEnv)
  | send (id : UInt16)
  | writeLoSendBlock (val : ℤ)
  | queueSendId (id : UInt16) (buf : RawBuf)
  | queueSendRaw (blk : UInt16) (buf : RawBuf)
  | queueSendDbuf (blk : UInt16) (buf : DBuffer E)
  | flushSend
  /-- device support changes the data of a send block -/
  | writeBlock (id : UInt16) (data : DBuffer E)
  /-- the event loop writes `n` bytes of the output buffer to the socket -/
  | written (n : ℕ)

/-- The calls of record processing that queue and send messages. -/
def Op.sends : Op E → Bool
  | .send _ | .writeLoSendBlock _ | .queueSendId .. | .queueSendRaw .. | .queueSendDbuf ..
  | .flushSend | .writeBlock .. => true
  | _ => false

/-- Append received bytes to the input buffer of the session. -/
def arrived (s : Psc E) (chunk : List UInt8) : Psc E :=
  match s.session with
  | some ses => { s with
      session := some { ses with input := arrive ses.input chunk }
      stream := fun k => if k = ses.id then s.stream k ++ chunk else s.stream k }
  | none => s

/-- The event loop writes `n` bytes of the output buffer to the socket. -/
def written (s : Psc E) (n : ℕ) : Psc E :=
  { s with session := s.session.map fun ses => { ses with output := drain ses.output n } }

def call (cfg : Config) (s : Psc E) : Op E → Res (Psc E)
  | .connect env => connect s env
  | .event ev => eventcb s ev
  | .reconnect env => reconnect s env
  | .forceReConnect => forceReConnect s
  | .data chunk env => recvdata env (arrived s chunk)
  | .send id => send cfg s id
  | .writeLoSendBlock val => writeLoSendBlock cfg s val
  | .queueSendId id buf => queueSendId cfg s id buf
  | .queueSendRaw blk buf => withSend s blk fun b => queueSendRaw cfg s blk b buf
  | .queueSendDbuf blk buf => withSend s blk fun b => queueSendDbuf cfg s blk b buf
  | .flushSend => flushSend cfg s
  | .writeBlock id data => .ok { s with
      sendBlocks := s.sendBlocks.modify id fun b => { b with data := data } }
  | .written n => .ok (written s n)

/-- The state after a call; `none` when an assertion failed. -/
def step (cfg : Config) (s : Psc E) (op : Op E) : Option (Psc E) := (call cfg s op).state?

end Pscdrv.Tcp
