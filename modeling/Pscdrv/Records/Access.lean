import Pscdrv.Schemes.Threads
import Pscdrv.Tcp.Psc

/-! # Device support and the event thread on one `PSC`

    The routines of device support and the callbacks as programs of threads. Every `dbuffer` or
    `evbuffer` call is one step, and only `psc->lock` keeps the steps of two threads apart. A named
    guard holds the lock until the routine returns; `Guard(priv->psc->lock);` makes a guard without
    a name, which gives the lock back at once.

        named        lock ─ size() ─ copyout_shape() ─ unlock
        temporary    lock ─ unlock ─ size() ─╌ recvdata ╌─ copyout_shape()

    The fields `appends` and `reads` are not in the source: they record what was appended to
    `sendbuf`, by whom, and what the records have read. -/

namespace Pscdrv.Access

open Libevent Threads Tcp

/-- `Guard g(lock)` or `Guard(lock)`. -/
inductive Guard where
  | named
  | temporary
  deriving DecidableEq

/-- `psc->lock`, and the locks of the lock sets of the records. -/
inductive Lock where
  | psc
  | record (lockSet : ℕ)
  deriving DecidableEq

inductive Part where
  | header
  | body
  deriving DecidableEq

/-- The length `read_si` reads for a block of `size` bytes. -/
def clip (size : ℕ) : ℕ := if maxStringSize ≤ size then maxStringSize - 1 else size

/-- The read routines, with what they take from the record and its link. -/
inductive ReadKind where
  | si (offset : ℕ) (val : List UInt8)
  | wfReal (offset esize eskip nelm : ℕ)
  | wfBytes (offset nelm : ℕ)
  | binary (offset esize : ℕ)
  deriving DecidableEq

/-- The bytes a routine stores in its record, and the number of elements. -/
abbrev Value := List UInt8 × ℕ

/-- What a routine stores right after `data.size()`: `read_si` an empty string, if its offset lies
    behind the end. -/
def ReadKind.onSize (size : ℕ) : ReadKind → Option Value
  | .si offset val => if clip size < offset then some (val.set 0 0, 0) else none
  | _ => none

section Buffers

variable {E : Type} [Libevent E]

/-- The `copyout_shape()` of a routine; `read_si` has found the length `len`. -/
def ReadKind.copyout (d : DBuffer E) (len : ℕ) : ReadKind → Option (List UInt8 × ℕ)
  | .si offset _ => d.copyoutShape offset (len - offset) 0 1
  | .wfReal offset esize eskip nelm => d.copyoutShape offset esize eskip nelm
  | .wfBytes offset nelm => d.copyoutShape offset nelm 0 1
  | .binary offset esize => d.copyoutShape offset esize 0 1

/-- What a routine stores right after `copyout_shape()`. -/
def ReadKind.onCopyout (len : ℕ) (r : List UInt8 × ℕ) : ReadKind → Option Value
  | .si offset val =>
    if len < offset then none else some ((Memory.overwrite val 0 r.1).set (len - offset) 0, 0)
  | .wfReal .. => some r
  | .wfBytes .. => some r
  | .binary .. => if r.2 = 1 then some r else none

/-- What a routine stores when the block holds `d` all the time. -/
def ReadKind.value (d : DBuffer E) (kind : ReadKind) : Option Value :=
  (kind.onSize d.size).or
    ((kind.copyout d (clip d.size)).bind fun r => kind.onCopyout (clip d.size) r)

end Buffers

/-- The calls on the driver that are one step each. -/
inductive Call where
  /-- the event loop has appended `chunk` to the input buffer -/
  | arrive (chunk : List UInt8)
  | report (ev : BevEvent)
  | hasSession
  | inputLength
  | decode (env : RxEnv)
  | setWatermark
  | isConnected
  | dataSize (id : UInt16) (kind : ReadKind)
  | dataCopyout (id : UInt16) (kind : ReadKind) (len : ℕ)
  | setRecTimestamp (id : UInt16)
  | getSend (id : UInt16)
  | isRegistered (id : UInt16)
  | sendSize (id : UInt16)
  | queued (id : UInt16)
  | sendbufLength
  | expand (n : ℕ)
  | add (guard : Guard) (part : Part) (bytes : List UInt8)
  | copyoutTo (guard : Guard) (id : UInt16)
  | markQueued (id : UInt16)
  | assign (id : UInt16) (bytes : List UInt8)

/-- How a callback goes on after a stage. -/
inductive Next where
  | more
  | finished
  | failed (cond : String)

abbrev Reply : Call → Type
  | .arrive _ => ℕ
  | .report _ => Next
  | .hasSession => Bool
  | .inputLength => Bool
  | .decode _ => Next
  | .setWatermark => Unit
  | .isConnected => Bool
  | .dataSize _ _ => ℕ
  | .dataCopyout _ _ _ => Option (List UInt8 × ℕ)
  | .setRecTimestamp _ => Unit
  | .getSend _ => Unit
  | .isRegistered _ => Bool
  | .sendSize _ => ℕ
  | .queued _ => Bool
  | .sendbufLength => Bool
  | .expand _ => Bool
  | .add _ _ _ => Bool
  | .copyoutTo _ _ => Bool
  | .markQueued _ => Unit
  | .assign _ _ => Unit

abbrev Prog := Threads.Prog Lock Call Reply

/-- An append to `sendbuf`. -/
structure Append (τ : Type) where
  thread : τ
  guard : Guard
  part : Part
  bytes : List UInt8
  deriving DecidableEq

/-- A record has read block `id`. -/
structure Read where
  id : UInt16
  kind : ReadKind
  value : Value
  deriving DecidableEq

structure Shared (τ E : Type) [Libevent E] where
  psc : Psc E
  appends : List (Append τ)
  reads : List Read

section Calls

variable {τ E : Type} [Libevent E]

/-- One stage of the loop of `recvdata`, when there is enough input for it. -/
def decode (env : RxEnv) (s : Psc E) : Psc E × Next :=
  match s.session with
  | none => (s, .failed "connected && session")
  | some ses =>
    if !s.haveHead && s.expect != headerSize then (s, .failed "expect==HEADER_SIZE")
    else if !s.haveHead && !isPS ((bytes ses.input).take headerSize) then
      match framingError s ses with
      | .ok t => (t, .finished)
      | .throw _ t => (t, .finished)
      | .abort c => (s, .failed c)
    else if Tcp.inputLength (decodeNext env s ses) < Tcp.inputLength s then
      (decodeNext env s ses, .more)
    else (s, .failed "nbytes > evbuffer_get_length(buf)")

/-- `eventcb` up to its loop over `procOnConnect`, which it reaches on a connection. -/
def report (ev : BevEvent) (s : Psc E) : Psc E × Next :=
  match eventcb s ev with
  | .ok t => (t, if ev.connected then .more else .finished)
  | .throw _ t => (t, .finished)
  | .abort c => (s, .failed c)

/-- The data of receive block `id`. -/
def dataOf (s : Psc E) (id : UInt16) : DBuffer E :=
  match s.recvBlocks id with
  | some b => b.data
  | none => .empty

/-- The data of send block `id`. -/
def sendDataOf (s : Psc E) (id : UInt16) : DBuffer E :=
  match s.sendBlocks id with
  | some b => b.data
  | none => .empty

/-- A record of kind `kind` stores what it has read. -/
def Shared.stores (x : Shared τ E) (id : UInt16) (kind : ReadKind) : Option Value → Shared τ E
  | some v => { x with reads := x.reads ++ [⟨id, kind, v⟩] }
  | none => x

/-- What was appended to `sendbuf` goes into the log. -/
def Shared.appended (x : Shared τ E) (t : τ) (g : Guard) (part : Part) (buf : E) : Shared τ E :=
  { x with
    psc := { x.psc with sendbuf := buf }
    appends := x.appends ++ [⟨t, g, part, (bytes buf).drop (bytes x.psc.sendbuf).length⟩] }

def perform (cfg : Config) (t : τ) : (c : Call) → Shared τ E → Shared τ E × Reply c
  | .arrive chunk, x =>
    let s := arrived x.psc chunk
    ({ x with psc := s }, Tcp.inputLength s)
  | .report ev, x =>
    let r := report ev x.psc
    ({ x with psc := r.1 }, r.2)
  | .hasSession, x => (x, x.psc.connected && x.psc.session.isSome)
  | .inputLength, x => (x, decide (x.psc.expect ≤ Tcp.inputLength x.psc))
  | .decode env, x =>
    let r := decode env x.psc
    ({ x with psc := r.1 }, r.2)
  | .setWatermark, x =>
    ({ x with psc := match x.psc.session with
        | some ses => waitForMore x.psc ses
        | none => x.psc }, ())
  | .isConnected, x => (x, x.psc.connected)
  | .dataSize id kind, x =>
    let n := (dataOf x.psc id).size
    (x.stores id kind (kind.onSize n), n)
  | .dataCopyout id kind len, x =>
    let r := kind.copyout (dataOf x.psc id) len
    (x.stores id kind (r.bind fun r => kind.onCopyout len r), r)
  | .setRecTimestamp _, x => (x, ())
  | .getSend id, x => ({ x with psc := getSend x.psc id }, ())
  | .isRegistered id, x => (x, (x.psc.sendBlocks id).isSome)
  | .sendSize id, x => (x, (sendDataOf x.psc id).size)
  | .queued id, x => (x, (x.psc.sendBlocks id).elim false fun b => b.queued)
  | .sendbufLength, x => (x, overLimit cfg x.psc.sendbuf)
  | .expand n, x =>
    let r := expand x.psc.sendbuf n
    ({ x with psc := { x.psc with sendbuf := r.1 } }, r.2)
  | .add g part l, x =>
    let r := add x.psc.sendbuf l
    if r.2 then (x.appended t g part r.1, true)
    else ({ x with psc := { x.psc with sendbuf := r.1 } }, false)
  | .copyoutTo g id, x =>
    let r := (sendDataOf x.psc id).copyoutEv x.psc.sendbuf
    (x.appended t g .body r.1, r.2)
  | .markQueued id, x => ({ x with psc := markQueued x.psc id }, ())
  | .assign id l, x =>
    ({ x with psc := { x.psc with
        sendBlocks := x.psc.sendBlocks.modify id fun b => { b with data := .assign l } } }, ())

end Calls

/-! ### The routines -/

/-- The body of a routine under its guard; `return` and a caught exception leave the body early. -/
def guarded (g : Guard) (body : Prog) : Prog :=
  match g with
  | .named => .lock .psc (body.andThen (.unlock .psc .done))
  | .temporary => .lock .psc (.unlock .psc body)

/-- Without a connection the routine sets an alarm and returns. -/
def ifConnected (body : Prog) : Prog := .call .isConnected fun c => if c then body else .done

/-- The end of a read routine. -/
def timestamp (id : UInt16) : Prog := .call (.setRecTimestamp id) fun _ => .done

/-- `copyout_shape()`, which divides by the size of an element and its gap. -/
def copyoutShape (id : UInt16) (kind : ReadKind) (len : ℕ) (next : List UInt8 × ℕ → Prog) : Prog :=
  .call (.dataCopyout id kind len) fun r =>
    match r with
    | some r => next r
    | none => .abort "SIGFPE"

def readSi (id : UInt16) (offset : ℕ) (val : List UInt8) : Prog :=
  guarded .temporary <| ifConnected <| .call (.dataSize id (.si offset val)) fun size =>
    if clip size < offset then timestamp id
    else copyoutShape id (.si offset val) (clip size) fun _ => timestamp id

def readWfReal (id : UInt16) (offset esize eskip nelm : ℕ) : Prog :=
  guarded .named <| ifConnected <|
    copyoutShape id (.wfReal offset esize eskip nelm) 0 fun _ => timestamp id

def readWfBytes (id : UInt16) (offset nelm : ℕ) : Prog :=
  guarded .named <| ifConnected <|
    copyoutShape id (.wfBytes offset nelm) 0 fun _ => timestamp id

/-- `read_binary`, with `read_to_field`: a missing connection sets an alarm and the field is read
    all the same. -/
def readBinary (id : UInt16) (offset esize : ℕ) : Prog :=
  guarded .named <| .call .isConnected fun _ =>
    .call (.dataSize id (.binary offset esize)) fun size =>
      if size < offset then .done
      else copyoutShape id (.binary offset esize) 0 fun r =>
        if r.2 = 1 then timestamp id else .done

def ReadKind.routine (id : UInt16) : ReadKind → Prog
  | .si offset val => readSi id offset val
  | .wfReal offset esize eskip nelm => readWfReal id offset esize eskip nelm
  | .wfBytes offset nelm => readWfBytes id offset nelm
  | .binary offset esize => readBinary id offset esize

/-- `queueHeader`; an exception ends the routine. -/
def queueHeader (g : Guard) (id : UInt16) (buflen : UInt32) (rest : Prog) : Prog :=
  .call .isConnected fun c =>
    if !c then rest
    else .call (.queued id) fun q =>
      if q then .done
      else .call .sendbufLength fun full =>
        if full then .done
        else .call (.expand (8 + buflen).toNat) fun ok =>
          if !ok then .done
          else .call (.add g .header (header id buflen)) fun ok =>
            if ok then rest else .abort "!err"

/-- `queueSend(Block*, const void*, epicsUInt32)` -/
def queueSendRaw (g : Guard) (id : UInt16) (buf : RawBuf) (rest : Prog) : Prog :=
  queueHeader g id buf.len <| .call (.add g .body buf.bytes) fun ok =>
    if ok then .call (.markQueued id) fun _ => rest else .abort "!err"

/-- `queueSend(Block*, const dbuffer&)` with the data of the block itself. -/
def queueSendBlock (g : Guard) (id : UInt16) (rest : Prog) : Prog :=
  .call (.sendSize id) fun size =>
    queueHeader g id (UInt32.ofNat size) <| .call (.copyoutTo g id) fun ok =>
      if ok then .call (.markQueued id) fun _ => rest else .done

def writeSo (id : UInt16) (val : RawBuf) : Prog :=
  guarded .temporary <| ifConnected <|
    queueSendRaw .temporary id val <| .call (.assign id val.bytes) fun _ => .done

/-- `write_wf` and `write_wf_bytes`, with the bytes of the array. -/
def writeWf (id : UInt16) (buf : RawBuf) : Prog :=
  guarded .named <| ifConnected <| queueSendRaw .named id buf .done

/-- `write_msg`; `queueSend(epicsUInt16, ...)` creates the block on its first use. -/
def writeMsg (bid : UInt16) (buf : RawBuf) : Prog :=
  guarded .named <| ifConnected <| .call (.getSend bid) fun _ => queueSendRaw .named bid buf .done

/-- `write_lo_send_block` with a value in range. -/
def writeLoSendBlock (bid : UInt16) : Prog :=
  guarded .named <| .call (.isRegistered bid) fun known =>
    if known then queueSendBlock .named bid .done else .done

/-- After a stage. -/
def goOn (rest : Prog) : Next → Prog
  | .more => rest
  | .finished => .done
  | .failed c => .abort c

/-- The loop of `recvdata`, at most `fuel` stages. -/
def recvLoop (env : RxEnv) : ℕ → Prog
  | 0 => .abort "fuel"
  | fuel + 1 => .call .inputLength fun enough =>
    if !enough then .call .setWatermark fun _ => .done
    else .call (.decode env) (goOn (recvLoop env fuel))

/-- `bev_datacb` -/
def recvdata (chunk : List UInt8) (env : RxEnv) : Prog :=
  guarded .named <| .call (.arrive chunk) fun n => .call .hasSession fun c =>
    if c then recvLoop env (n + 1) else .abort "connected && session"

/-- `eventcb` up to its loop over `procOnConnect`. -/
def reportEvent (ev : BevEvent) : Prog := .call (.report ev) (goOn .done)

/-- What a thread can be given to do. -/
inductive Job where
  | recvdata (chunk : List UInt8) (env : RxEnv)
  /-- `bev_eventcb`, with no records in `procOnConnect` -/
  | eventcb (ev : BevEvent)
  | read (id : UInt16) (kind : ReadKind)
  | writeSo (id : UInt16) (val : RawBuf)
  | writeWf (id : UInt16) (buf : RawBuf)
  | writeMsg (bid : UInt16) (buf : RawBuf)
  | writeLoSendBlock (bid : UInt16)

def Job.prog : Job → Prog
  | .recvdata chunk env => Access.recvdata chunk env
  | .eventcb ev => guarded .named (reportEvent ev)
  | .read id kind => kind.routine id
  | .writeSo id val => Access.writeSo id val
  | .writeWf id buf => Access.writeWf id buf
  | .writeMsg bid buf => Access.writeMsg bid buf
  | .writeLoSendBlock bid => Access.writeLoSendBlock bid

/-- Only the event thread runs the callbacks. -/
def jobs {τ : Type} [DecidableEq τ] (event : τ) (t : τ) (j : Job) : Option Prog :=
  match j with
  | .recvdata .. | .eventcb _ => if t = event then some j.prog else none
  | _ => some j.prog

/-! ### A routine alone -/

section Alone

variable {τ E : Type} [Libevent E] {cfg : Config} {t : τ}

/-- The outcome of a call of the driver, seen from its callers: they catch the exceptions. -/
def outcome : Res (Psc E) → Except String (Psc E)
  | .ok s => .ok s
  | .throw _ s => .ok s
  | .abort c => .error c

theorem guarded_run (g : Guard) (p : Prog) (x : Shared τ E) :
    (guarded g p).run (perform cfg t) x = p.run (perform cfg t) x := by
  cases g with
  | named =>
    change (p.andThen _).run _ x = _
    rw [Prog.run_andThen]
    cases p.run (perform cfg t) x <;> rfl
  | temporary => rfl

theorem recvLoop_run (env : RxEnv) {fuel : ℕ} {x : Shared τ E} (hses : x.psc.session.isSome = true)
    (hfuel : Tcp.inputLength x.psc < fuel) :
    (recvLoop env fuel).run (perform cfg t) x =
      (outcome (Tcp.recvLoop env x.psc)).map fun s => { x with psc := s } := by
  induction fuel generalizing x with
  | zero => cases hfuel
  | succ fuel ih =>
    obtain ⟨ses, hs⟩ := Option.isSome_iff_exists.mp hses
    rw [Tcp.recvLoop, hs]
    dsimp only
    by_cases hshort : Tcp.inputLength x.psc < x.psc.expect
    · rw [if_pos hshort]
      simp [recvLoop, Prog.run, perform, Nat.not_le.mpr hshort, hs, outcome, Except.map]
    · have hlong : x.psc.expect ≤ Tcp.inputLength x.psc := Nat.le_of_not_lt hshort
      have hrun : (recvLoop env (fuel + 1)).run (perform cfg t) x =
          (goOn (recvLoop env fuel) (decode env x.psc).2).run (perform cfg t)
            { x with psc := (decode env x.psc).1 } := by
        simp [recvLoop, Prog.run, perform, hlong]
      rw [if_neg hshort, hrun, decode, hs]
      dsimp only
      split_ifs with hassert hps hless
      · rfl
      · cases framingError x.psc ses <;> rfl
      · obtain ⟨ses', hses', -⟩ := decodeNext_session env x.psc ses
        exact ih (x := { x with psc := decodeNext env x.psc ses }) (by rw [hses']; rfl)
          (Nat.lt_of_lt_of_le hless (Nat.le_of_lt_succ hfuel))
      · rfl

/-- Alone, the program of `recvdata` is the function. -/
theorem recvdata_run (chunk : List UInt8) (env : RxEnv) (x : Shared τ E) :
    (recvdata chunk env).run (perform cfg t) x =
      (outcome (Tcp.recvdata env (arrived x.psc chunk))).map fun s => { x with psc := s } := by
  rw [recvdata, guarded_run, Tcp.recvdata]
  change (if (arrived x.psc chunk).connected && (arrived x.psc chunk).session.isSome then _
    else _ : Prog).run _ _ = _
  split
  · rename_i h
    have hsome : (arrived x.psc chunk).session.isSome = true := (Bool.and_eq_true_iff.mp h).2
    exact recvLoop_run env (x := { x with psc := arrived x.psc chunk }) hsome (Nat.lt_succ_self _)
  · rfl

/-- Alone, so is that of `eventcb`, up to its loop. -/
theorem reportEvent_run (ev : BevEvent) (x : Shared τ E) :
    (reportEvent ev).run (perform cfg t) x =
      (outcome (Tcp.eventcb x.psc ev)).map fun s => { x with psc := s } := by
  change (goOn .done (report ev x.psc).2).run _ { x with psc := (report ev x.psc).1 } = _
  unfold report
  cases Tcp.eventcb x.psc ev with
  | ok s =>
    dsimp only
    split <;> rfl
  | throw e s => rfl
  | abort c => rfl

/-- Go on after a call that returns; an exception ends the routine. -/
def goOnWith (x : Shared τ E) (f : Psc E → Except String (Shared τ E)) :
    Res (Psc E) → Except String (Shared τ E)
  | .ok s => f s
  | .throw _ s => .ok { x with psc := s }
  | .abort c => .error c

/-- Alone, so is that of `queueHeader`, up to what was appended. -/
theorem queueHeader_run (cfg : Config) (t : τ) (g : Guard) {id : UInt16} (n : UInt32)
    (rest : Prog) {x : Shared τ E} {blk : Block E} (hblk : x.psc.sendBlocks id = some blk) :
    ∃ log, (queueHeader g id n rest).run (perform cfg t) x =
      goOnWith { x with appends := log }
        (fun s => rest.run (perform cfg t) { x with psc := s, appends := log })
        (Tcp.queueHeader cfg x.psc id blk n) := by
  unfold queueHeader Tcp.queueHeader
  generalize (8 + n).toNat = room
  cases hc : x.psc.connected with
  | false => exact ⟨x.appends, by simp [Prog.run, perform, hc, goOnWith]⟩
  | true =>
    cases hq : blk.queued with
    | true => exact ⟨x.appends, by simp [Prog.run, perform, hc, hblk, hq, goOnWith]⟩
    | false =>
      cases ho : overLimit cfg x.psc.sendbuf with
      | true => exact ⟨x.appends, by simp [Prog.run, perform, hc, hblk, hq, ho, goOnWith]⟩
      | false =>
        cases he : (expand x.psc.sendbuf room).2 with
        | false => exact ⟨x.appends, by simp [Prog.run, perform, hc, hblk, hq, ho, he, goOnWith]⟩
        | true =>
          cases ha : (add (expand x.psc.sendbuf room).1 (header id n)).2 with
          | false =>
            exact ⟨x.appends, by simp [Prog.run, perform, hc, hblk, hq, ho, he, ha, goOnWith]⟩
          | true =>
            let sent := add (expand x.psc.sendbuf room).1 (header id n)
            refine ⟨x.appends ++ [⟨t, g, .header,
              (bytes sent.1).drop (bytes (expand x.psc.sendbuf room).1).length⟩], ?_⟩
            simp [Prog.run, perform, hc, hblk, hq, ho, he, ha, goOnWith, Shared.appended, sent]

/-- Alone, so is that of `queueSend`. -/
theorem queueSendRaw_run (g : Guard) {id : UInt16} (buf : RawBuf) {x : Shared τ E} {blk : Block E}
    (hblk : x.psc.sendBlocks id = some blk) :
    ((queueSendRaw g id buf .done).run (perform cfg t) x).map Shared.psc =
      outcome (Tcp.queueSendRaw cfg x.psc id blk buf) := by
  obtain ⟨log, hrun⟩ := queueHeader_run cfg t g buf.len (.call (.add g .body buf.bytes) fun ok =>
    if ok then .call (.markQueued id) fun _ => .done else .abort "!err") hblk
  rw [queueSendRaw, hrun, Tcp.queueSendRaw]
  cases Tcp.queueHeader cfg x.psc id blk buf.len with
  | ok s =>
    cases ha : (add s.sendbuf buf.bytes).2 <;>
      simp [Prog.run, perform, ha, goOnWith, outcome, Except.map, Shared.appended]
  | throw e s => rfl
  | abort c => rfl

theorem queueHeader_sendBlocks {s u : Psc E} {id : UInt16} {blk : Block E} {n : UInt32}
    (h : Tcp.queueHeader cfg s id blk n = .ok u) : u.sendBlocks = s.sendBlocks := by
  unfold Tcp.queueHeader at h
  dsimp only at h
  split_ifs at h <;> cases h <;> rfl

theorem queueSendBlock_run (g : Guard) {id : UInt16} {x : Shared τ E} {blk : Block E}
    (hblk : x.psc.sendBlocks id = some blk) :
    ((queueSendBlock g id .done).run (perform cfg t) x).map Shared.psc =
      outcome (Tcp.queueSendDbuf cfg x.psc id blk blk.data) := by
  obtain ⟨log, hrun⟩ := queueHeader_run cfg t g (UInt32.ofNat blk.data.size)
    (.call (.copyoutTo g id) fun ok => if ok then .call (.markQueued id) fun _ => .done else .done)
    hblk
  have hdata : sendDataOf x.psc id = blk.data := by rw [sendDataOf, hblk]
  simp only [queueSendBlock, Prog.run, perform, hdata]
  rw [hrun, Tcp.queueSendDbuf]
  cases hhead : Tcp.queueHeader cfg x.psc id blk (UInt32.ofNat blk.data.size) with
  | ok s =>
    have hsame : sendDataOf s id = blk.data := by
      rw [sendDataOf, queueHeader_sendBlocks hhead, hblk]
    cases ha : (blk.data.copyoutEv s.sendbuf).2 <;>
      simp [Prog.run, perform, hsame, ha, goOnWith, outcome, Except.map, Shared.appended]
  | throw e s => rfl
  | abort c => rfl

theorem copyoutShape_run {id : UInt16} {kind : ReadKind} {len : ℕ} {next : List UInt8 × ℕ → Prog}
    {x y : Shared τ E} (h : (copyoutShape id kind len next).run (perform cfg t) x = .ok y) :
    ∃ r, kind.copyout (dataOf x.psc id) len = some r ∧
      (next r).run (perform cfg t) (x.stores id kind (kind.onCopyout len r)) = .ok y := by
  simp only [copyoutShape, Prog.run, perform] at h
  cases hr : kind.copyout (dataOf x.psc id) len with
  | none =>
    rw [hr] at h
    cases h
  | some r =>
    rw [hr] at h
    exact ⟨r, rfl, h⟩

/-- The value, when `size()` alone does not decide it. -/
theorem ReadKind.value_eq {d : DBuffer E} {kind : ReadKind} {r : List UInt8 × ℕ}
    (hsize : kind.onSize d.size = none) (hr : kind.copyout d (clip d.size) = some r) :
    kind.value d = kind.onCopyout (clip d.size) r := by
  rw [ReadKind.value, hsize, hr, Option.none_or, Option.bind_some]

theorem ifConnected_run {p : Prog} {x : Shared τ E} (hc : x.psc.connected = true) :
    (ifConnected p).run (perform cfg t) x = p.run (perform cfg t) x := by
  change (if x.psc.connected then p else .done : Prog).run _ x = _
  rw [if_pos hc]

/-- The end of a read routine that `size()` alone has not decided; only `read_si` uses the length
    that it has found. -/
theorem stamped_run {id : UInt16} {kind : ReadKind} {len : ℕ} {x y : Shared τ E}
    (hsize : kind.onSize (dataOf x.psc id).size = none)
    (hcopy : kind.copyout (dataOf x.psc id) len =
      kind.copyout (dataOf x.psc id) (clip (dataOf x.psc id).size))
    (hstore : ∀ r, kind.onCopyout len r = kind.onCopyout (clip (dataOf x.psc id).size) r)
    (h : (copyoutShape id kind len fun _ => timestamp id).run (perform cfg t) x = .ok y) :
    y = x.stores id kind (kind.value (dataOf x.psc id)) := by
  obtain ⟨r, hr, hy⟩ := copyoutShape_run h
  rw [ReadKind.value_eq hsize (hcopy ▸ hr), ← hstore]
  exact (Except.ok.inj hy).symm

/-- `read_si` after its `size()`. -/
theorem readSi_run {id : UInt16} {offset : ℕ} {val : List UInt8} {x y : Shared τ E}
    (hc : x.psc.connected = true) (h : (readSi id offset val).run (perform cfg t) x = .ok y) :
    (if clip (dataOf x.psc id).size < offset then timestamp id
      else copyoutShape id (.si offset val) (clip (dataOf x.psc id).size)
        fun _ => timestamp id).run (perform cfg t)
      (x.stores id (.si offset val) (ReadKind.onSize (dataOf x.psc id).size (.si offset val))) =
        .ok y := by
  rw [readSi, guarded_run, ifConnected_run hc] at h
  exact h

/-- `read_binary` reads whether there is a connection or not. -/
theorem readBinary_run {id : UInt16} {offset esize : ℕ} {x y : Shared τ E}
    (h : (readBinary id offset esize).run (perform cfg t) x = .ok y) :
    (if (dataOf x.psc id).size < offset then .done
      else copyoutShape id (.binary offset esize) 0 fun r =>
        if r.2 = 1 then timestamp id else .done).run (perform cfg t) x = .ok y := by
  rw [readBinary, guarded_run] at h
  exact h

/-- Alone, a read routine stores what the block holds. -/
theorem read_run {id : UInt16} {kind : ReadKind} {x y : Shared τ E} (hc : x.psc.connected = true)
    (h : (kind.routine id).run (perform cfg t) x = .ok y) :
    y = x.stores id kind (kind.value (dataOf x.psc id)) := by
  cases kind with
  | si offset val =>
    have hrun := readSi_run hc h
    by_cases hoff : clip (dataOf x.psc id).size < offset
    · rw [if_pos hoff] at hrun
      have hsome : ReadKind.onSize (dataOf x.psc id).size (.si offset val) = some _ := if_pos hoff
      rw [ReadKind.value, hsome, Option.some_or]
      rw [hsome] at hrun
      exact (Except.ok.inj hrun).symm
    · have hnone : ReadKind.onSize (dataOf x.psc id).size (.si offset val) = none := if_neg hoff
      rw [if_neg hoff, hnone] at hrun
      exact stamped_run hnone rfl (fun _ => rfl) hrun
  | wfReal offset esize eskip nelm =>
    rw [ReadKind.routine, readWfReal, guarded_run, ifConnected_run hc] at h
    refine stamped_run rfl ?_ ?_ h
    · rfl
    · exact fun _ => rfl
  | wfBytes offset nelm =>
    rw [ReadKind.routine, readWfBytes, guarded_run, ifConnected_run hc] at h
    refine stamped_run rfl ?_ ?_ h
    · rfl
    · exact fun _ => rfl
  | binary offset esize =>
    have hrun := readBinary_run h
    by_cases hoff : (dataOf x.psc id).size < offset
    · have hr : ReadKind.copyout (dataOf x.psc id) (clip (dataOf x.psc id).size)
          (.binary offset esize) = some ([], 0) := if_pos (.inr (Nat.le_of_lt hoff))
      rw [if_pos hoff] at hrun
      rw [ReadKind.value_eq rfl hr]
      exact (Except.ok.inj hrun).symm
    · rw [if_neg hoff] at hrun
      obtain ⟨r, hr, hy⟩ := copyoutShape_run hrun
      rw [ReadKind.value_eq rfl hr]
      split at hy
      · exact (Except.ok.inj hy).symm
      · exact (Except.ok.inj hy).symm

end Alone

end Pscdrv.Access
