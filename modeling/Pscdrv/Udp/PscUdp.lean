import Pscdrv.Core.Block
import Pscdrv.Core.Wire
import Pscdrv.Schemes.Memory

/-! # The UDP driver `PSCUDP`

    State and member functions of the class `PSCUDP`, each run under `psc->lock`. One datagram is
    one message. Transmit buffers go round between three lists; what is received goes through one
    scratch buffer that is used again for every datagram.

        readybuf ──queueSend──▶ sendbuf ──flushSend──▶ txbuf ──sendto()──▶ readybuf

    The fields `queued`, `flushed`, `sent` and `rxlog` are not in the source: they record the
    messages given to `queueSend`, those of them that were flushed, the datagrams `sendto()` took,
    and what was done with the datagrams received. -/

namespace Pscdrv.Udp

open Libevent Memory

structure Datagram where
  src : SockAddr
  payload : List UInt8

/-- What `sendto()` answers. -/
inductive SendTo where
  | sent (ret : ℕ)
  /-- `EAGAIN` or `EWOULDBLOCK` -/
  | again
  | error (errstr : String)

/-- What `recvfrom()` answers. -/
inductive RecvFrom where
  | dgram (d : Datagram) (env : RxEnv)
  /-- `EAGAIN` or `EWOULDBLOCK` -/
  | again
  | error (errstr : String)

/-- The bits of a socket event. -/
structure SockEvent where
  timeout : Bool
  read : Bool
  write : Bool

/-- What `recvdata` does with a datagram: it turns it down, or finds the block of its message id and
    counts, stores, scans and notifies. -/
inductive RxEv where
  | ignored
  | small
  | corrupt
  | truncated
  | unknown (id : UInt16)
  | count (id : UInt16)
  | store (id : UInt16) (body : List UInt8)
  | requestScan (id : UInt16)
  | listeners (id : UInt16)
  deriving DecidableEq

structure PscUdp (E : Type) [Libevent E] where
  connected : Bool
  ukncount : UInt32
  conncount : UInt32
  sendBlocks : BlockMap E
  recvBlocks : BlockMap E
  message : String
  ep : SockAddr
  rxscratch : List UInt8
  /-- pending flush -/
  sendbuf : List (List UInt8)
  /-- ready to `sendto()` -/
  txbuf : List (List UInt8)
  /-- a free list -/
  readybuf : List (List UInt8)
  queued : List (UInt16 × List UInt8)
  flushed : List (UInt16 × List UInt8)
  sent : List (List UInt8)
  rxlog : List RxEv

/-- Assign to `list.back()`. -/
def setBack (bufs : List (List UInt8)) (buf : List UInt8) : List (List UInt8) :=
  bufs.dropLast ++ [buf]

@[simp] theorem setBack_concat (bufs : List (List UInt8)) (b buf : List UInt8) :
    setBack (bufs ++ [b]) buf = bufs ++ [buf] := by
  rw [setBack, List.dropLast_concat]

variable {E : Type} [Libevent E]

/-- The state after `PSCUDP::PSCUDP` and the `getSend`/`getRecv` calls of record initialisation. -/
def PscUdp.init (ep : SockAddr) (tx rx : Finset UInt16) : PscUdp E where
  connected := false
  ukncount := 0
  conncount := 0
  sendBlocks := .registered tx
  recvBlocks := .registered rx
  message := "Initialize"
  ep := ep
  rxscratch := List.replicate 1024 0
  sendbuf := []
  txbuf := []
  readybuf := []
  queued := []
  flushed := []
  sent := []
  rxlog := []

/-- `connect`: from now on the socket is watched for datagrams. -/
def connect (s : PscUdp E) (eventAdd : Bool) : Res (PscUdp E) :=
  if eventAdd then .ok { s with connected := true }
  else .throw (.runtimeError "Failed to add Rx event") s

/-! ### Sending -/

/-- `getSend` -/
def getSend (s : PscUdp E) (id : UInt16) : PscUdp E := { s with sendBlocks := s.sendBlocks.get id }

/-- `queueHeader`. The header is stored through `scratch[0]` to `scratch[7]`, which must exist: the
    length of the buffer is computed in 32 bits. -/
def queueHeader (s : PscUdp E) (code : UInt16) (buflen : UInt32) : Res (PscUdp E) :=
  if 64 ≤ s.sendbuf.length then .throw (.runtimeError "UDP send queue limit exceeded") s
  else
    -- a buffer of the free list, or a new one when the list is empty
    let scratch := resize (8 + buflen).toNat (s.readybuf.headD [])
    if scratch.length < headerSize then .abort "store past the end of scratch"
    else .ok { s with
      sendbuf := s.sendbuf ++ [overwrite scratch 0 (header code buflen)]
      readybuf := s.readybuf.tail }

/-- `blk->queued = true; blk->count++;` -/
def markQueued (s : PscUdp E) (id : UInt16) : PscUdp E :=
  { s with sendBlocks := s.sendBlocks.modify id fun b =>
      { b with queued := true, count := b.count + 1 } }

/-- `queueSend(Block*, const dbuffer&)` -/
def queueSendDbuf (s : PscUdp E) (id : UInt16) (buf : DBuffer E) : Res (PscUdp E) :=
  (queueHeader s id (UInt32.ofNat buf.size)).andThen fun s =>
    let scratch := s.sendbuf.getLastD []
    if scratch.length ≠ 8 + buf.size then .abort "scratch.size() == 8u + buf.size()"
    else match buf.copyout 0 buf.size with
      | none => .abort "division by zero"
      | some r => .ok (markQueued { s with
          sendbuf := setBack s.sendbuf (overwrite scratch 8 r.1)
          queued := s.queued ++ [(id, buf.mem)] } id)

/-- `queueSend(Block*, const void*, epicsUInt32)` -/
def queueSendRaw (s : PscUdp E) (id : UInt16) (buf : RawBuf) : Res (PscUdp E) :=
  (queueHeader s id buf.len).andThen fun s =>
    let scratch := s.sendbuf.getLastD []
    if scratch.length ≠ (8 + buf.len).toNat then .abort "scratch.size() == 8u + buflen"
    else .ok (markQueued { s with
      sendbuf := setBack s.sendbuf (overwrite scratch 8 buf.bytes)
      queued := s.queued ++ [(id, buf.bytes)] } id)

/-- Call `f` with the block behind a `Block*` of the send direction. -/
def withSend (s : PscUdp E) (id : UInt16) (f : Block E → Res (PscUdp E)) : Res (PscUdp E) :=
  match s.sendBlocks id with
  | some blk => f blk
  | none => .ok s

/-- `queueSend(epicsUInt16, const void*, epicsUInt32)` -/
def queueSendId (s : PscUdp E) (id : UInt16) (buf : RawBuf) : Res (PscUdp E) :=
  let s := getSend s id
  withSend s id fun _ => queueSendRaw s id buf

/-- `PSCBase::send`: queue the block's own data; an unknown id is ignored. -/
def send (s : PscUdp E) (bid : UInt16) : Res (PscUdp E) :=
  withSend s bid fun block => queueSendDbuf s bid block.data

/-- `flushSend` -/
def flushSend (s : PscUdp E) (eventAdd : Bool) : Res (PscUdp E) :=
  if !s.connected then .ok s
  else if 64 ≤ s.txbuf.length then
    .throw (.runtimeError "Sending message would exceed buffer") s
  else
    let s := { s with
      txbuf := s.txbuf ++ s.sendbuf
      sendbuf := []
      sendBlocks := fun k => (s.sendBlocks k).map fun b => { b with queued := false }
      flushed := s.queued }
    if eventAdd then .ok s else .throw (.runtimeError "Failed to add Tx event") s

/-- The loop of `senddata`; when the answers run out the socket is no longer ready (`EAGAIN`). -/
def sendLoop (s : PscUdp E) : List SendTo → PscUdp E
  | [] => s
  | out :: outs =>
    match s.txbuf with
    | [] => s
    | scratch :: rest =>
      match out with
      | .again => s
      | .error errstr => { s with
          conncount := s.conncount + 1, message := "Tx socket error: " ++ errstr }
      | .sent ret =>
        let s : PscUdp E :=
          if scratch.length ≠ ret then
            { s with conncount := s.conncount + 1, message := "Tx socket truncate" }
          else s
        let s := { s with sent := s.sent ++ [scratch] }
        if s.readybuf.length < 64 then
          -- reuse packet buffer
          sendLoop { s with readybuf := s.readybuf ++ [scratch], txbuf := rest } outs
        else
          sendLoop { s with readybuf := s.readybuf.tail } outs

/-- `senddata` -/
def senddata (s : PscUdp E) (evt : SockEvent) (outs : List SendTo) (eventAdd : Bool) :
    Res (PscUdp E) :=
  let s := if evt.write then sendLoop s outs else s
  if s.txbuf ≠ [] && !eventAdd then .throw (.runtimeError "Failed to add Tx event") s else .ok s

/-- The state `senddata` leaves, whether or not it throws. -/
theorem senddata_state {s t : PscUdp E} {evt : SockEvent} {outs : List SendTo} {eventAdd : Bool}
    (h : (senddata s evt outs eventAdd).state? = some t) :
    t = if evt.write then sendLoop s outs else s := by
  unfold senddata at h
  generalize (if evt.write = true then sendLoop s outs else s) = u at h ⊢
  dsimp only at h
  split at h <;> simp only [Res.state?_ok, Res.state?_throw, Option.some.injEq] at h <;>
    exact h.symm

/-! ### Receiving -/

/-- What the loop of `recvdata` does with a body for a registered block. -/
def deliver (env : RxEnv) (s : PscUdp E) (id : UInt16) (body : List UInt8) : PscUdp E :=
  let s : PscUdp E := { s with
    recvBlocks := s.recvBlocks.modify id fun b => { b with rxtime := env.now, count := b.count + 1 }
    rxlog := s.rxlog ++ [.count id] }
  let s : PscUdp E := { s with
    recvBlocks := s.recvBlocks.modify id fun b => { b with data := .assign body }
    rxlog := s.rxlog ++ [.store id body] }
  let s : PscUdp E := { s with
    recvBlocks := s.recvBlocks.modify id fun b => b.requestScan (env.scanIoRequest id b.scanCount)
    rxlog := s.rxlog ++ [.requestScan id] }
  { s with rxlog := s.rxlog ++ [.listeners id] }

/-- One turn of the loop of `recvdata`, with a datagram: `recvfrom()` cuts it off at the size of the
    scratch buffer and leaves the rest of the buffer as it was. -/
def recvPacket (s : PscUdp E) (d : Datagram) (env : RxEnv) : PscUdp E :=
  let ret := min d.payload.length s.rxscratch.length
  let s := { s with rxscratch := store s.rxscratch d.payload }
  if d.src ≠ s.ep then { s with rxlog := s.rxlog ++ [.ignored] }
  else if ret < 8 then
    { s with ukncount := s.ukncount + 1, message := "small packet", rxlog := s.rxlog ++ [.small] }
  else
    let hbuf := s.rxscratch
    if !isPS hbuf then { s with message := "Corrupt packet!", rxlog := s.rxlog ++ [.corrupt] }
    else
      let id := msgidOf hbuf
      let bodylen := bodylenOf hbuf
      -- `rxscratch.size()-8` is a `size_t`, `bodylen+8` an `epicsUInt32`
      if (s.rxscratch.length + 2 ^ 64 - 8) % 2 ^ 64 < bodylen.toNat then
        { s with
          message := "truncated body"
          rxscratch := resize (bodylen + 8).toNat s.rxscratch
          ukncount := s.ukncount + 1
          rxlog := s.rxlog ++ [.truncated] }
      else
        let body := (hbuf.drop 8).take bodylen.toNat
        if (s.recvBlocks id).isSome then deliver env s id body
        else { s with ukncount := s.ukncount + 1, rxlog := s.rxlog ++ [.unknown id] }

/-- The loop of `recvdata`; when the answers run out there is no more datagram (`EAGAIN`). -/
def recvLoop (s : PscUdp E) : List RecvFrom → PscUdp E
  | .dgram d env :: outs => recvLoop (recvPacket s d env) outs
  | .error errstr :: _ => { s with
      conncount := s.conncount + 1, message := "Rx socket error: " ++ errstr }
  | .again :: _ => s
  | [] => s

/-- `recvdata` -/
def recvdata (s : PscUdp E) (evt : SockEvent) (outs : List RecvFrom) : PscUdp E :=
  if evt.timeout then { s with conncount := s.conncount + 1, message := "Rx timeout" }
  else if !evt.read then s
  else recvLoop s outs

/-! ### Runs -/

/-- One call on a `PSCUDP` instance, with the answers of the socket and of `event_add()`. -/
inductive Op (E : Type) [Libevent E] where
  | connect (eventAdd : Bool)
  | send (id : UInt16)
  | queueSendId (id : UInt16) (buf : RawBuf)
  | queueSendRaw (blk : UInt16) (buf : RawBuf)
  | queueSendDbuf (blk : UInt16) (buf : DBuffer E)
  | flushSend (eventAdd : Bool)
  /-- device support changes the data of a send block -/
  | writeBlock (id : UInt16) (data : DBuffer E)
  | senddata (evt : SockEvent) (outs : List SendTo) (eventAdd : Bool)
  | recvdata (evt : SockEvent) (outs : List RecvFrom)

def call (s : PscUdp E) : Op E → Res (PscUdp E)
  | .connect eventAdd => connect s eventAdd
  | .send id => send s id
  | .queueSendId id buf => queueSendId s id buf
  | .queueSendRaw blk buf => withSend s blk fun _ => queueSendRaw s blk buf
  | .queueSendDbuf blk buf => withSend s blk fun _ => queueSendDbuf s blk buf
  | .flushSend eventAdd => flushSend s eventAdd
  | .writeBlock id data => .ok { s with
      sendBlocks := s.sendBlocks.modify id fun b => { b with data := data } }
  | .senddata evt outs eventAdd => senddata s evt outs eventAdd
  | .recvdata evt outs => .ok (recvdata s evt outs)

/-- The state after a call; `none` when an assertion failed. -/
def step (s : PscUdp E) (op : Op E) : Option (PscUdp E) := (call s op).state?

end Pscdrv.Udp
