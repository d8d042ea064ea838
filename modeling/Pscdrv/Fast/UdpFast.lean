import Pscdrv.Fast.Datafile
import Pscdrv.Schemes.Memory

/-! # The fast UDP receiver `UDPFast`

    Two threads and a few records share the state of a `UDPFast` instance. The receive worker `rxfn`
    fills pool buffers from the socket and pushes packets to `pending`; the cache worker `cachefn`
    takes all of `pending` at once, puts the bodies in their blocks and in the data file, keeps some
    packets in `shortBuf` and returns the other buffers to the pool. `vpoolStall` and `pendingReady`
    are binary events.

        vpool ──▶ msgs[].buf ──recvmmsg()──▶ pending ──swap──▶ inprog ──▶ shortBuf ──▶ temp
          ▲                                                      │                      │
          └────────────────────────── cachefn ───────────────────┘                      │
          └───────────────────────────────────── devudp_clear_shortbuf ─────────────────┘

    An action is one lock section of a thread, or one signal or wait between two of them. A thread's
    place between them, and the variables that live across them, are part of the state. The back of
    the vector `vpool` is the head of the list.

    The fields `failed`, `rxlog`, `accepted` and `dispatched` are not in the source: they say
    whether an assertion failed, what became of every datagram, and which packets were pushed to
    `pending` and looked up in `recv_blocks` so far. -/

namespace Pscdrv.Fast

open Libevent Memory

/-- A datagram as `recvmmsg()` reports it; `ndrops` is the `SO_RXQ_OVFL` count, if there is one. -/
structure Dgram where
  src : SockAddr
  payload : List UInt8
  ndrops : Option UInt32
  deriving DecidableEq

/-- What `recvmmsg()` answers. -/
inductive RecvMmsg where
  /-- `EAGAIN`, `EWOULDBLOCK` or `EINPROGRESS` -/
  | timeout
  | error
  | msgs (ds : List Dgram)

/-- What became of a datagram that was received in a buffer of `size` bytes. -/
structure RxVerdict where
  dgram : Dgram
  size : ℕ
  pushed : Bool
  deriving DecidableEq

/-- Where the receive worker is. -/
inductive RxPc where
  /-- at the top of the loop, without `rxLock` -/
  | top
  /-- in `vpoolStall.wait()` -/
  | stall
  /-- `nassign` buffers are assigned, and `pendingReady` is to be signalled first -/
  | notify (nassign : ℕ)
  /-- in `recvmmsg()` for `nassign` messages -/
  | recv (nassign : ℕ)
  | done
  deriving DecidableEq

/-- Where the cache worker is. -/
inductive CachePc where
  /-- at the top of the loop -/
  | top
  /-- the buffers are returned; `unstall` says whether `vpoolStall` is to be signalled -/
  | signal (unstall : Bool)
  /-- in `pendingReady.wait()` -/
  | wait
  | swap
  /-- the packets before number `i` are looked up -/
  | dispatch (i : ℕ)
  /-- about to decide on a new data file -/
  | rotate
  | open (name : String)
  | write
  /-- about to keep packets in `shortBuf` -/
  | short
  /-- about to keep the error text -/
  | finish
  | done
  deriving DecidableEq

/-- Between returning the buffers and taking new packets, the cache worker has none. -/
def CachePc.idle : CachePc → Bool
  | .signal _ => true
  | .wait => true
  | .swap => true
  | .done => true
  | _ => false

/-- Until `shortBuf` takes some of them, all packets of `inprog` have a body. -/
def CachePc.busy : CachePc → Bool
  | .dispatch _ => true
  | .rotate => true
  | .open _ => true
  | .write => true
  | .short => true
  | _ => false

/-- What the constructor computes from the settings, with the bounds its `max()` calls ensure. -/
structure Config where
  peer : SockAddr
  batchSize : ℕ
  vpoolTotal : ℕ
  maxpktlen : ℕ
  /-- the registered receive blocks -/
  rx : Finset UInt16
  file : FileConfig
  batchSize_pos : 1 ≤ batchSize
  vpoolTotal_pos : 1 ≤ vpoolTotal
  maxpktlen_header : 8 ≤ maxpktlen

/-- The smallest settings with a pool of `n + 1` buffers: one message a batch, one block. -/
def Config.small (n : ℕ) : Config where
  peer := ⟨1, 1⟩
  batchSize := 1
  vpoolTotal := n + 1
  maxpktlen := 8
  rx := {1}
  file := ⟨1, 0, 2⟩
  batchSize_pos := Nat.le_refl 1
  vpoolTotal_pos := Nat.le_add_left 1 n
  maxpktlen_header := Nat.le_refl 8

structure UdpFast (E : Type) [Libevent E] where
  running : Bool
  rxcnt : UInt64
  ntimeout : UInt64
  ndrops : UInt64
  nignore : UInt64
  noom : UInt64
  netrx : UInt64
  ukncount : UInt32
  recvBlocks : BlockMap E
  vpool : List Vec
  pending : List Pkt
  vpoolStall : Bool
  pendingReady : Bool
  file : DataFile
  shortBuf : List Pkt
  shortLimit : ℕ
  rx : RxPc
  msgs : List Vec
  notifycache : Bool
  prevndrops : UInt32
  cache : CachePc
  inprog : List Pkt
  /-- the `temp` of every `devudp_clear_shortbuf` between its two lock sections -/
  temps : List (List Pkt)
  failed : Bool
  rxlog : List RxVerdict
  accepted : List Pkt
  dispatched : List Pkt

variable {E : Type} [Libevent E]

/-- The state after `UDPFast::UDPFast`, the `getRecv` calls of record initialisation, and
    `connect`. -/
def UdpFast.init (cfg : Config) : UdpFast E where
  running := true
  rxcnt := 0
  ntimeout := 0
  ndrops := 0
  nignore := 0
  noom := 0
  netrx := 0
  ukncount := 0
  recvBlocks := .registered cfg.rx
  vpool := (List.range cfg.vpoolTotal).map fun i => some ⟨i, List.replicate cfg.maxpktlen 0⟩
  pending := []
  vpoolStall := false
  pendingReady := false
  file := .init
  shortBuf := []
  shortLimit := 0
  rx := .top
  msgs := List.replicate cfg.batchSize none
  notifycache := false
  prevndrops := 0
  cache := .top
  inprog := []
  temps := []
  failed := false
  rxlog := []
  accepted := []
  dispatched := []

/-! ### The receive worker -/

/-- Assign buffers to the messages that have none, as long as the pool lasts: the messages, the
    pool, the number of messages with a buffer, and whether the assertion on their size held. -/
def assign : List Vec → List Vec → List Vec × List Vec × ℕ × Bool
  | [], vpool => ([], vpool, 0, true)
  | some b :: msgs, vpool =>
    -- re-use leftovers
    let r := assign msgs vpool
    (some b :: r.1, r.2.1, r.2.2.1 + 1, r.2.2.2)
  | none :: msgs, [] => (none :: msgs, [], 0, true)
  | none :: msgs, v :: vpool =>
    let r := assign msgs vpool
    (v :: r.1, r.2.1, r.2.2.1 + 1, decide (8 ≤ v.bytes.length) && r.2.2.2)

/-- From the top of the loop to the next unlock. -/
def rxTop (s : UdpFast E) : UdpFast E :=
  if !s.running then { s with rx := .done }
  else if s.vpool = [] then { s with noom := s.noom + 1, rx := .stall }
  else
    let r := assign s.msgs s.vpool
    { s with
      msgs := r.1
      vpool := r.2.1
      failed := s.failed || !r.2.2.2
      rx := if s.notifycache then .notify r.2.2.1 else .recv r.2.2.1 }

/-- `msg_len` of a datagram in a buffer of `size` body bytes: the kernel cuts off what does not
    fit. -/
def msgLen (d : Dgram) (size : ℕ) : ℕ := min d.payload.length (8 + size)

/-- The checks on a datagram, in the order of the source; the last one compares the claimed with
    the received number of body bytes. -/
def accepts (peer : SockAddr) (d : Dgram) (size : ℕ) : Bool :=
  if d.src ≠ peer then false
  else if msgLen d size < 8 then false
  else if !isPS d.payload then false
  else if (bodylenOf d.payload).toNat < msgLen d size - 8 then false
  else true

/-- The drop count, which comes with every datagram once there were drops. -/
def countDrops (s : UdpFast E) (d : Dgram) : UdpFast E :=
  match d.ndrops with
  | some n =>
    if n ≠ s.prevndrops then
      { s with ndrops := s.ndrops + UInt64.ofNat (n - s.prevndrops).toNat, prevndrops := n }
    else s
  | none => s

/-- One received datagram, in the buffer `b`: it is pushed to `pending` with the buffer, or it is
    ignored and leaves its bytes in the buffer. -/
def rxPacket (peer : SockAddr) (now : EpicsTimeStamp) (s : UdpFast E) (b : Buffer) (d : Dgram) :
    UdpFast E × Vec :=
  let s := countDrops s d
  let buf : Buffer := ⟨b.id, store b.bytes (d.payload.drop 8)⟩
  if accepts peer d b.bytes.length then
    let pkt : Pkt := ⟨some buf, (bodylenOf d.payload).toNat, now, msgidOf d.payload⟩
    ({ s with
      netrx := s.netrx + UInt64.ofNat (msgLen d b.bytes.length + 16 + 20 + 8)
      notifycache := s.notifycache || s.pending.isEmpty
      pending := s.pending ++ [pkt]
      accepted := s.accepted ++ [pkt]
      rxlog := s.rxlog ++ [⟨d, b.bytes.length, true⟩] }, none)
  else
    ({ s with
      nignore := s.nignore + 1
      rxlog := s.rxlog ++ [⟨d, b.bytes.length, false⟩] }, some buf)

/-- The loop over the received datagrams; datagram `i` is in the buffer of message `i`. -/
def rxBatch (peer : SockAddr) (now : EpicsTimeStamp) :
    UdpFast E → List Vec → List Dgram → UdpFast E × List Vec
  | s, some b :: msgs, d :: ds =>
    let r := rxPacket peer now s b d
    let r' := rxBatch peer now r.1 msgs ds
    (r'.1, r.2 :: r'.2)
  | s, msgs, _ => (s, msgs)

/-- The datagrams of an answer to `recvmmsg()` for `nassign` messages. -/
def received (nassign : ℕ) : RecvMmsg → List Dgram
  | .msgs ds => ds.take nassign
  | _ => []

/-- Count what `recvmmsg()` answered. -/
def countRecv (s : UdpFast E) (nassign : ℕ) (ret : RecvMmsg) : UdpFast E :=
  let s : UdpFast E := match ret with
    | .timeout => { s with ntimeout := s.ntimeout + 1 }
    | _ => s
  { s with rxcnt := s.rxcnt + UInt64.ofNat (received nassign ret).length }

/-- `recvmmsg()` has returned: count, process the batch, and go on to the next unlock. -/
def rxRecv (cfg : Config) (s : UdpFast E) (nassign : ℕ) (ret : RecvMmsg) (now : EpicsTimeStamp) :
    UdpFast E :=
  let s := countRecv s nassign ret
  let r := rxBatch cfg.peer now s s.msgs (received nassign ret)
  rxTop { r.1 with msgs := r.2 }

/-- Counting changes the two counters only. -/
theorem countRecv_eq (s : UdpFast E) (nassign : ℕ) (ret : RecvMmsg) :
    countRecv s nassign ret = { s with
      ntimeout := (countRecv s nassign ret).ntimeout
      rxcnt := s.rxcnt + UInt64.ofNat (received nassign ret).length } := by
  cases ret <;> rfl

/-! ### The cache worker -/

/-- De-assign: return the buffers of the last turn to the pool. -/
def cacheReturn (s : UdpFast E) : UdpFast E :=
  let vpool := s.inprog.foldl
    (fun vpool p => if p.body.isSome then p.body :: vpool else vpool) s.vpool
  { s with
    vpool := vpool
    inprog := []
    cache := .signal (!s.inprog.isEmpty && s.vpool.isEmpty && !vpool.isEmpty) }

/-- Signal `vpoolStall` if the pool was empty and no longer is, and go on to wait, or end. -/
def cacheSignal (s : UdpFast E) (unstall : Bool) : UdpFast E :=
  { s with
    vpoolStall := s.vpoolStall || unstall
    cache := if s.running then .wait else .done }

/-- Grab all pending. -/
def cacheSwap (s : UdpFast E) : UdpFast E :=
  { s with
    inprog := s.pending
    pending := s.inprog
    cache := .dispatch 0 }

/-- Look one packet up in `recv_blocks`. -/
def dispatch (env : RxEnv) (s : UdpFast E) (p : Pkt) : UdpFast E :=
  if (s.recvBlocks p.msgid).isSome then
    { s with
      recvBlocks := s.recvBlocks.modify p.msgid fun b =>
        { b with
          count := b.count + 1, rxtime := p.rxtime, data := .assign p.body.bytes }.requestScan
          (env.scanIoRequest p.msgid b.scanCount)
      dispatched := s.dispatched ++ [p] }
  else { s with ukncount := s.ukncount + 1, dispatched := s.dispatched ++ [p] }

/-- The loop over `inprog`, one packet at a time, and the way on after the last one. Before the
    first packet an idle data file is closed. -/
def cacheDispatch (env : RxEnv) (s : UdpFast E) (i : ℕ) : UdpFast E :=
  let s := { s with file := if i = 0 then s.file.closeIdle else s.file }
  match s.inprog[i]? with
  | some p => { dispatch env s p with cache := .dispatch (i + 1) }
  | none => { s with cache := if s.inprog.isEmpty then .top else .rotate }

/-- Looking up packet `i` changes its block, or the count of unknown messages. -/
theorem cacheDispatch_some (env : RxEnv) {s : UdpFast E} {i : ℕ} {p : Pkt}
    (h : s.inprog[i]? = some p) : cacheDispatch env s i = { s with
      file := if i = 0 then s.file.closeIdle else s.file
      ukncount := (dispatch env s p).ukncount
      recvBlocks := (dispatch env s p).recvBlocks
      dispatched := s.dispatched ++ [p]
      cache := .dispatch (i + 1) } := by
  unfold cacheDispatch
  dsimp only
  rw [h]
  dsimp only [dispatch]
  by_cases hk : (s.recvBlocks p.msgid).isSome = true
  · simp only [if_pos hk]
  · simp only [if_neg hk]

theorem cacheDispatch_none (env : RxEnv) {s : UdpFast E} {i : ℕ} (h : s.inprog[i]? = none) :
    cacheDispatch env s i = { s with
      file := if i = 0 then s.file.closeIdle else s.file
      cache := if s.inprog.isEmpty then .top else .rotate } := by
  unfold cacheDispatch
  dsimp only
  rw [h]

/-- Replace the data file if that is due. -/
def cacheRotate (cfg : Config) (env : FileEnv) (s : UdpFast E) : UdpFast E :=
  let f := s.file.rotate cfg.file
  if f.wantsNew then
    { s with
      file := { f with reopen := false, filetotal := 0 }
      cache := .open (f.fname env.tsbuf) }
  else { s with file := f, cache := .write }

/-- Keep packets in `shortBuf` while there is room; the room is computed as a `size_t`. -/
def cacheShort (s : UdpFast E) : UdpFast E :=
  let istart := s.shortBuf.length
  let nmove := min s.inprog.length ((s.shortLimit + 2 ^ 64 - istart) % 2 ^ 64)
  { s with
    shortBuf := s.shortBuf ++ s.inprog.take nmove
    inprog := List.replicate nmove .new ++ s.inprog.drop nmove
    cache := .finish }

/-! ### The records -/

/-- The first lock section of `devudp_clear_shortbuf`. -/
def clearSwap (s : UdpFast E) : UdpFast E :=
  { s with temps := s.temps ++ [s.shortBuf], shortBuf := [] }

/-- The second lock section of `devudp_clear_shortbuf`: return the buffers of `temp`. -/
def clearReturn (s : UdpFast E) (k : ℕ) (temp : List Pkt) : UdpFast E :=
  { s with
    vpool := temp.foldl (fun vpool p => p.body :: vpool) s.vpool
    temps := s.temps.eraseIdx k
    failed := s.failed || temp.any fun p => p.body.isNone }

/-- `devudp_read_shortbuf` raises the limit to the size of its array. -/
def readShortbuf (s : UdpFast E) (nelm : UInt32) : UdpFast E :=
  if s.shortLimit < nelm.toNat then { s with shortLimit := nelm.toNat } else s

/-- `devudp_reopen` -/
def reopen (s : UdpFast E) : UdpFast E :=
  { s with file := { s.file with reopen := true }, pendingReady := true }

/-- `devudp_set_record` -/
def setRecord (s : UdpFast E) (val : Bool) : UdpFast E :=
  { s with
    file := { s.file with record := val, reopen := val }
    pendingReady := s.pendingReady || val }

/-- `devudp_set_string` for `filedir` and `filebase` -/
def setFile (s : UdpFast E) (filedir filebase : String) : UdpFast E :=
  { s with file := { s.file with filedir := filedir, filebase := filebase } }

/-- `stop`, up to the signals that wake both workers -/
def stop (s : UdpFast E) : UdpFast E :=
  { s with running := false, vpoolStall := true, pendingReady := true }

/-! ### Interleavings -/

/-- One lock section, signal or wait of a thread, with the answers it gets. -/
inductive Action where
  | rxTop
  | rxWake
  | rxNotify
  | rxRecv (ret : RecvMmsg) (now : EpicsTimeStamp)
  | cacheReturn
  | cacheSignal
  | cacheWake
  | cacheSwap
  | cacheDispatch (env : RxEnv)
  | cacheRotate (env : FileEnv)
  | cacheOpen (env : FileEnv)
  | cacheWrite (env : FileEnv)
  | cacheShort
  | cacheFinish (env : FileEnv)
  | clearSwap
  | clearReturn (k : ℕ)
  | readShortbuf (nelm : UInt32)
  | reopen
  | setRecord (val : Bool)
  | setFile (filedir filebase : String)
  | stop

/-- The state after an action; `none` when the thread is not at this point. -/
def step (cfg : Config) (s : UdpFast E) : Action → Option (UdpFast E)
  | .rxTop => if s.rx = .top then some (rxTop s) else none
  | .rxWake =>
    if s.rx = .stall ∧ s.vpoolStall = true then some { s with vpoolStall := false, rx := .top }
    else none
  | .rxNotify => match s.rx with
    | .notify n => some { s with pendingReady := true, notifycache := false, rx := .recv n }
    | _ => none
  | .rxRecv ret now => match s.rx with
    | .recv n => some (rxRecv cfg s n ret now)
    | _ => none
  | .cacheReturn => if s.cache = .top then some (cacheReturn s) else none
  | .cacheSignal => match s.cache with
    | .signal u => some (cacheSignal s u)
    | _ => none
  | .cacheWake =>
    if s.cache = .wait ∧ s.pendingReady = true then
      some { s with pendingReady := false, cache := .swap }
    else none
  | .cacheSwap => if s.cache = .swap then some (cacheSwap s) else none
  | .cacheDispatch env => match s.cache with
    | .dispatch i => some (cacheDispatch env s i)
    | _ => none
  | .cacheRotate env => if s.cache = .rotate then some (cacheRotate cfg env s) else none
  | .cacheOpen env => match s.cache with
    | .open name => some { s with file := s.file.openNew env name, cache := .write }
    | _ => none
  | .cacheWrite env =>
    if s.cache = .write then
      some { s with file := s.file.write cfg.file env s.inprog, cache := .short }
    else none
  | .cacheShort => if s.cache = .short then some (cacheShort s) else none
  | .cacheFinish env =>
    if s.cache = .finish then some { s with file := s.file.keepError env, cache := .top } else none
  | .clearSwap => some (clearSwap s)
  | .clearReturn k => match s.temps[k]? with
    | some temp => some (clearReturn s k temp)
    | none => none
  | .readShortbuf nelm => some (readShortbuf s nelm)
  | .reopen => some (reopen s)
  | .setRecord val => some (setRecord s val)
  | .setFile filedir filebase => some (setFile s filedir filebase)
  | .stop => some (stop s)

/-- What an action needs of the state, and what it makes of it. -/
inductive Steps (cfg : Config) (s : UdpFast E) : Action → UdpFast E → Prop where
  | rxTop (hrx : s.rx = .top) : Steps cfg s .rxTop (rxTop s)
  | rxWake (hrx : s.rx = .stall) (hstall : s.vpoolStall = true) :
    Steps cfg s .rxWake { s with vpoolStall := false, rx := .top }
  | rxNotify (n : ℕ) (hrx : s.rx = .notify n) :
    Steps cfg s .rxNotify { s with pendingReady := true, notifycache := false, rx := .recv n }
  | rxRecv (ret : RecvMmsg) (now : EpicsTimeStamp) (n : ℕ) (hrx : s.rx = .recv n) :
    Steps cfg s (.rxRecv ret now) (rxRecv cfg s n ret now)
  | cacheReturn (hc : s.cache = .top) : Steps cfg s .cacheReturn (cacheReturn s)
  | cacheSignal (u : Bool) (hc : s.cache = .signal u) : Steps cfg s .cacheSignal (cacheSignal s u)
  | cacheWake (hc : s.cache = .wait) (hready : s.pendingReady = true) :
    Steps cfg s .cacheWake { s with pendingReady := false, cache := .swap }
  | cacheSwap (hc : s.cache = .swap) : Steps cfg s .cacheSwap (cacheSwap s)
  | cacheDispatch (env : RxEnv) (i : ℕ) (hc : s.cache = .dispatch i) :
    Steps cfg s (.cacheDispatch env) (cacheDispatch env s i)
  | cacheRotate (env : FileEnv) (hc : s.cache = .rotate) :
    Steps cfg s (.cacheRotate env) (cacheRotate cfg env s)
  | cacheOpen (env : FileEnv) (name : String) (hc : s.cache = .open name) :
    Steps cfg s (.cacheOpen env) { s with file := s.file.openNew env name, cache := .write }
  | cacheWrite (env : FileEnv) (hc : s.cache = .write) : Steps cfg s (.cacheWrite env)
      { s with file := s.file.write cfg.file env s.inprog, cache := .short }
  | cacheShort (hc : s.cache = .short) : Steps cfg s .cacheShort (cacheShort s)
  | cacheFinish (env : FileEnv) (hc : s.cache = .finish) :
    Steps cfg s (.cacheFinish env) { s with file := s.file.keepError env, cache := .top }
  | clearSwap : Steps cfg s .clearSwap (clearSwap s)
  | clearReturn (k : ℕ) (temp : List Pkt) (hk : s.temps[k]? = some temp) :
    Steps cfg s (.clearReturn k) (clearReturn s k temp)
  | readShortbuf (nelm : UInt32) : Steps cfg s (.readShortbuf nelm) (readShortbuf s nelm)
  | reopen : Steps cfg s .reopen (reopen s)
  | setRecord (val : Bool) : Steps cfg s (.setRecord val) (setRecord s val)
  | setFile (filedir filebase : String) :
    Steps cfg s (.setFile filedir filebase) (setFile s filedir filebase)
  | stop : Steps cfg s .stop (stop s)

/-- STEP: every step is one of these. -/
theorem step_cases {cfg : Config} {s t : UdpFast E} {a : Action} (hs : step cfg s a = some t) :
    Steps cfg s a t := by
  cases a with
  | rxTop | cacheReturn | cacheSwap | cacheRotate | cacheWrite | cacheShort | cacheFinish =>
    obtain ⟨h, ht⟩ := Option.ite_none_right_eq_some.mp hs
    cases ht
    constructor
    exact h
  | rxWake =>
    obtain ⟨⟨hrx, hstall⟩, ht⟩ := Option.ite_none_right_eq_some.mp hs
    cases ht
    exact .rxWake hrx hstall
  | cacheWake =>
    obtain ⟨⟨hc, hready⟩, ht⟩ := Option.ite_none_right_eq_some.mp hs
    cases ht
    exact .cacheWake hc hready
  | rxNotify | rxRecv | cacheSignal | cacheDispatch | cacheOpen | clearReturn =>
    simp only [step] at hs
    split at hs <;> cases hs
    constructor
    assumption
  | clearSwap | readShortbuf | reopen | setRecord | setFile | stop =>
    cases hs
    constructor

/-! ### Steps that touch no buffer and no event -/

/-- The cache worker while it is busy with its packets, and the records that name the files. -/
def Action.quiet : Action → Bool
  | .cacheDispatch _ => true
  | .cacheRotate _ => true
  | .cacheOpen _ => true
  | .cacheWrite _ => true
  | .cacheFinish _ => true
  | .setFile _ _ => true
  | _ => false

/-- Only the data file, the blocks and the place of a busy cache worker have changed. -/
structure Quiet (s t : UdpFast E) : Prop where
  frame : t = { s with
    ukncount := t.ukncount, recvBlocks := t.recvBlocks, file := t.file, cache := t.cache
    dispatched := t.dispatched }
  idle : t.cache = s.cache ∨ s.cache.idle = false ∧ t.cache.idle = false
  busy : t.cache.busy = true → s.cache.busy = true

theorem step_quiet {cfg : Config} {s t : UdpFast E} {a : Action} (ha : a.quiet = true)
    (hs : step cfg s a = some t) : Quiet s t := by
  cases step_cases hs with
  | cacheDispatch env i hc =>
    cases hi : s.inprog[i]? with
    | some p =>
      rw [cacheDispatch_some env hi]
      exact ⟨rfl, .inr ⟨by rw [hc]; rfl, rfl⟩, fun _ => by rw [hc]; rfl⟩
    | none =>
      rw [cacheDispatch_none env hi]
      refine ⟨rfl, .inr ⟨by rw [hc]; rfl, ?_⟩, fun _ => by rw [hc]; rfl⟩
      dsimp only
      split <;> rfl
  | cacheRotate _ hc =>
    unfold cacheRotate
    dsimp only
    split <;> exact ⟨rfl, .inr ⟨by rw [hc]; rfl, rfl⟩, fun _ => by rw [hc]; rfl⟩
  | cacheOpen _ _ hc => exact ⟨rfl, .inr ⟨by rw [hc]; rfl, rfl⟩, fun _ => by rw [hc]; rfl⟩
  | cacheWrite _ hc => exact ⟨rfl, .inr ⟨by rw [hc]; rfl, rfl⟩, fun _ => by rw [hc]; rfl⟩
  | cacheFinish _ hc => exact ⟨rfl, .inr ⟨by rw [hc]; rfl, rfl⟩, nofun⟩
  | setFile => exact ⟨rfl, .inl rfl, id⟩
  | _ => cases ha

end Pscdrv.Fast
