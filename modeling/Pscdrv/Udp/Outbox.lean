import Pscdrv.Tcp.Queued
import Pscdrv.Udp.Transmit

/-! # One outbox over TCP and over UDP

    What a send queue is for does not depend on the transport: messages wait in the order in which
    they were queued, several of them with the same id if need be, until they are flushed together.
    `Outbox` says so; both drivers get the same commands, and what they flush is compared with it.
    `PSCUDP` takes every message. `PSC` refuses a second one of a block until the next flush.

        queueSend 3, queueSend 3, flushSend        Outbox  ▸ 3 3
                                                   PSCUDP  ▸ 3 3
                                                   PSC     ▸ 3      (recAlarm) -/

namespace Pscdrv.Sending

open Libevent Run

variable {E : Type} [Libevent E]

/-- A command of record processing, or the network taking bytes from the TCP or the UDP driver. -/
inductive Cmd (E : Type) [Libevent E] where
  | queueSend (id : UInt16) (buf : RawBuf)
  | queueSendDbuf (id : UInt16) (buf : DBuffer E)
  /-- `eventAdd` is the answer of `event_add()` to the UDP driver -/
  | flushSend (eventAdd : Bool)
  | written (n : ℕ)
  | senddata (evt : Udp.SockEvent) (outs : List Udp.SendTo) (eventAdd : Bool)

/-- The purpose of a send queue. -/
structure Outbox where
  pending : List (UInt16 × List UInt8)
  flushed : List (UInt16 × List UInt8)

def Outbox.empty : Outbox := ⟨[], []⟩

def Outbox.step (o : Outbox) : Cmd E → Outbox
  | .queueSend id buf => { o with pending := o.pending ++ [(id, buf.bytes)] }
  | .queueSendDbuf id buf => { o with pending := o.pending ++ [(id, buf.mem)] }
  | .flushSend _ => ⟨[], o.flushed ++ o.pending⟩
  | _ => o

/-- The command on a `PSC`; a `Block*` is one that `getSend` has given. -/
def tcpCall (cfg : Tcp.Config) (s : Tcp.Psc E) : Cmd E → Res (Tcp.Psc E)
  | .queueSend id buf => Tcp.call cfg s (.queueSendId id buf)
  | .queueSendDbuf id buf => Tcp.call cfg (Tcp.getSend s id) (.queueSendDbuf id buf)
  | .flushSend _ => Tcp.call cfg s .flushSend
  | .written n => Tcp.call cfg s (.written n)
  | .senddata _ _ _ => .ok s

/-- The command on a `PSCUDP`. -/
def udpCall (s : Udp.PscUdp E) : Cmd E → Res (Udp.PscUdp E)
  | .queueSend id buf => Udp.call s (.queueSendId id buf)
  | .queueSendDbuf id buf => Udp.call (Udp.getSend s id) (.queueSendDbuf id buf)
  | .flushSend eventAdd => Udp.call s (.flushSend eventAdd)
  | .written _ => .ok s
  | .senddata evt outs eventAdd => Udp.call s (.senddata evt outs eventAdd)

/-- The call returned. -/
def accepts {σ : Type} : Res σ → Bool
  | .ok _ => true
  | _ => false

/-- The commands of record processing. -/
def Cmd.isCall : Cmd E → Bool
  | .written _ => false
  | .senddata _ _ _ => false
  | _ => true

/-- Both drivers and the outbox; `accepted` says that no call has failed so far. -/
structure Both (E : Type) [Libevent E] where
  tcp : Tcp.Psc E
  udp : Udp.PscUdp E
  outbox : Outbox
  accepted : Bool

/-- One command for all three; a failed assertion leaves a driver as it is. -/
def step (cfg : Tcp.Config) (b : Both E) (c : Cmd E) : Option (Both E) :=
  some {
    tcp := (tcpCall cfg b.tcp c).state?.getD b.tcp
    udp := (udpCall b.udp c).state?.getD b.udp
    outbox := b.outbox.step c
    accepted := b.accepted &&
      (!c.isCall || accepts (tcpCall cfg b.tcp c) && accepts (udpCall b.udp c)) }

/-- A `PSC` whose connection has just come up. -/
def online (tx rx : Finset UInt16) : Tcp.Psc E := { Tcp.Psc.init tx rx with
  connected := true
  conncount := 1
  message := "Connected"
  session := some ⟨0, new, new, headerSize, Tcp.minMaxBufSize⟩
  nsession := 1 }

theorem online_reached (cfg : Tcp.Config) (tx rx : Finset UInt16) :
    exec (Tcp.step cfg) (Tcp.Psc.init tx rx : Tcp.Psc E)
      [.connect ⟨true, true⟩, .event ⟨true, false, false, false, false, false, ""⟩] =
        some (online tx rx) := rfl

/-- Both drivers, connected. -/
def Both.start (ep : SockAddr) (tx rx : Finset UInt16) : Both E where
  tcp := online tx rx
  udp := { Udp.PscUdp.init ep tx rx with connected := true }
  outbox := .empty
  accepted := true

/-- No queue is at its limit. -/
def Below (cfg : Tcp.Config) (b : Both E) : Cmd E → Prop
  | .queueSend _ _ => Tcp.overLimit cfg b.tcp.sendbuf = false ∧ b.udp.sendbuf.length < 64
  | .queueSendDbuf _ _ => Tcp.overLimit cfg b.tcp.sendbuf = false ∧ b.udp.sendbuf.length < 64
  | .flushSend _ => (∀ ses, b.tcp.session = some ses → Tcp.overLimit cfg ses.output = false) ∧
      b.udp.txbuf.length < 64
  | _ => True

/-- The message is the first one of its block since the last flush, its length with the header is a
    32-bit number, and there is memory for it. -/
structure Admits (b : Both E) (id : UInt16) (body : List UInt8) : Prop where
  first : id ∉ b.outbox.pending.map Prod.fst
  short : body.length + 8 < 2 ^ 32
  memory : (expand b.tcp.sendbuf (body.length + 8)).2 = true

/-- The condition on a command under which both drivers do what the outbox says. -/
def Distinct (b : Both E) : Cmd E → Prop
  | .queueSend id buf => Admits b id buf.bytes
  | .queueSendDbuf id buf => Admits b id buf.mem
  | .flushSend eventAdd => eventAdd = true ∧
      ∀ ses, b.tcp.session = some ses → (addBuffer ses.output b.tcp.sendbuf).2 = true
  | _ => True

/-- There is room in the free list for every datagram that `senddata` is done with. -/
def Room (b : Both E) : Cmd E → Prop
  | .senddata evt outs eventAdd => Udp.HasRoom b.udp (.senddata evt outs eventAdd)
  | _ => True

/-- The content of the output buffer of the TCP connection. -/
def outputOf (s : Tcp.Psc E) : List UInt8 :=
  match s.session with
  | some ses => Libevent.bytes ses.output
  | none => []

/-- What an observer of the two drivers notes: the bytes that the network took from the output
    buffer of the TCP driver, and the datagrams that the calls of `flushSend` on the UDP driver put
    in `txbuf`, behind those that were there. -/
structure Wire where
  taken : List UInt8
  moved : List (List UInt8)

def Wire.none : Wire := ⟨[], []⟩

def Wire.note (b : Both E) (c : Cmd E) (w : Wire) : Wire :=
  match c with
  | .written n => { w with taken := w.taken ++ (outputOf b.tcp).take n }
  | .flushSend eventAdd => { w with
      moved := w.moved ++
        ((Udp.flushSend b.udp eventAdd).state?.getD b.udp).txbuf.drop b.udp.txbuf.length }
  | _ => w

/-- Every call was accepted, and both drivers have what the outbox has: its pending messages wait in
    `sendbuf`, and its flushed ones are, frame by frame, what the network took of the output buffer
    and what is in it, and, datagram by datagram, what was moved to `txbuf`, none of which is lost
    on the way to `sendto()`. -/
structure SameFrames (b : Both E) (w : Wire) : Prop where
  accepted : b.accepted = true
  order : b.udp.flushed = b.outbox.flushed
  pending : b.udp.sendbuf = b.outbox.pending.map Udp.frame
  stream : w.taken ++ outputOf b.tcp = (b.outbox.flushed.map Udp.frame).flatten
  datagrams : w.moved = b.outbox.flushed.map Udp.frame
  sent : w.moved.Sublist (b.udp.sent ++ b.udp.txbuf)
  bytes : (b.tcp.txlog.map Prod.snd).flatten = w.moved.flatten
  frames : (parse (w.taken ++ outputOf b.tcp)).msgs = b.outbox.flushed

/-- What holds between the commands. -/
structure Inv (b : Both E) (w : Wire) (fs gs : List Frame) : Prop where
  accepted : b.accepted = true
  tcpUp : b.tcp.connected = true
  session : b.tcp.session.isSome = true
  udpUp : b.udp.connected = true
  pending : b.outbox.pending = fs.map Frame.msg
  flushed : b.outbox.flushed = gs.map Frame.msg
  holds : Tcp.Holds b.tcp fs
  moved : (b.tcp.txlog.map Prod.snd).flatten = (gs.map Frame.bytes).flatten
  sendbuf : b.udp.sendbuf = fs.map Frame.bytes
  queued : b.udp.queued = b.outbox.flushed ++ b.outbox.pending
  order : b.udp.flushed = b.outbox.flushed
  stream : w.taken ++ outputOf b.tcp = (gs.map Frame.bytes).flatten
  datagrams : w.moved = gs.map Frame.bytes
  sent : w.moved.Sublist (b.udp.sent ++ b.udp.txbuf)

theorem Inv.same {b : Both E} {w : Wire} {fs gs : List Frame} (h : Inv b w fs gs) :
    SameFrames b w := by
  have hframes : ∀ hs : List Frame, (hs.map Frame.msg).map Udp.frame = hs.map Frame.bytes := by
    intro hs
    rw [List.map_map]
    rfl
  refine ⟨h.accepted, h.order, ?_, ?_, ?_, h.sent, ?_, ?_⟩
  · rw [h.sendbuf, h.pending, hframes]
  · rw [h.stream, h.flushed, hframes]
  · rw [h.datagrams, h.flushed, hframes]
  · rw [h.moved, h.datagrams]
  · rw [h.stream, parse_frames, h.flushed]

/-! ### What the drivers accept -/

theorem accepts_iff {σ : Type} {r : Res σ} : accepts r = true ↔ ∃ t, r = .ok t := by
  cases r with
  | ok t => exact iff_of_true rfl ⟨t, rfl⟩
  | throw | abort => exact iff_of_false nofun fun ⟨_, h⟩ => by cases h

section Udp

variable {s : Udp.PscUdp E} {id : UInt16}

/-- With room in the queue the UDP header is written if there is a place for it. -/
theorem udp_header (id : UInt16) (hroom : s.sendbuf.length < 64) {n : UInt32}
    (hn : 8 ≤ (8 + n).toNat) : ∃ t, Udp.queueHeader s id n = .ok t := by
  unfold Udp.queueHeader
  rw [if_neg (Nat.not_le.mpr hroom)]
  dsimp only
  rw [Memory.length_resize, if_neg (by rw [headerSize]; omega)]
  exact ⟨_, rfl⟩

/-- With room in the queue `PSCUDP` takes every message whose length fits 32 bits. -/
theorem udp_accepts_raw (hroom : s.sendbuf.length < 64) (buf : RawBuf) :
    accepts (Udp.queueSendRaw s id buf) = true ↔ buf.bytes.length + 8 < 2 ^ 32 := by
  have hlt := buf.lt
  have h8 : (8 : UInt32).toNat = 8 := rfl
  have hn : (8 + buf.len).toNat = (8 + buf.bytes.length) % 2 ^ 32 := by
    rw [RawBuf.len, UInt32.toNat_add, UInt32.toNat_ofNat', h8, Nat.mod_eq_of_lt hlt]
  unfold Udp.queueSendRaw
  constructor
  · intro ha
    obtain ⟨t, ht⟩ := accepts_iff.mp ha
    cases hq : Udp.queueHeader s id buf.len with
    | throw | abort =>
      rw [hq] at ht
      cases ht
    | ok u =>
      obtain ⟨b, ready, rfl, _, hlow, _, _⟩ := Udp.queueHeader_ok hq
      omega
  · intro hshort
    obtain ⟨u, hu⟩ := udp_header id hroom (n := buf.len) (by omega)
    obtain ⟨b, ready, rfl, _, _, hlen, _⟩ := Udp.queueHeader_ok hu
    rw [hu, Res.andThen_ok]
    dsimp only
    rw [List.getLastD_concat, if_neg (not_not_intro hlen)]
    rfl

theorem udp_accepts_dbuf (hroom : s.sendbuf.length < 64) (buf : DBuffer E) :
    accepts (Udp.queueSendDbuf s id buf) = true ↔ buf.mem.length + 8 < 2 ^ 32 := by
  have h8 : (8 : UInt32).toNat = 8 := rfl
  have hn : (8 + UInt32.ofNat buf.size).toNat = (8 + buf.mem.length % 2 ^ 32) % 2 ^ 32 := by
    rw [buf.size_eq, UInt32.toNat_add, UInt32.toNat_ofNat', h8]
  unfold Udp.queueSendDbuf
  constructor
  · intro ha
    obtain ⟨t, ht⟩ := accepts_iff.mp ha
    cases hq : Udp.queueHeader s id (UInt32.ofNat buf.size) with
    | throw | abort =>
      rw [hq] at ht
      cases ht
    | ok u =>
      obtain ⟨b, ready, rfl, _, _, hlen, _⟩ := Udp.queueHeader_ok hq
      rw [hq, Res.andThen_ok] at ht
      dsimp only at ht
      rw [List.getLastD_concat] at ht
      split at ht
      · cases ht
      · rename_i hsize
        rw [not_not, buf.size_eq] at hsize
        have hbound := (8 + UInt32.ofNat buf.size).toNat_lt
        omega
  · intro hshort
    obtain ⟨u, hu⟩ := udp_header id hroom (n := UInt32.ofNat buf.size) (by omega)
    obtain ⟨b, ready, rfl, _, _, hlen, _⟩ := Udp.queueHeader_ok hu
    obtain ⟨all, hcopy⟩ := buf.copyout_all (by rw [buf.size_eq]; omega)
    rw [hu, Res.andThen_ok]
    dsimp only
    rw [List.getLastD_concat, if_neg (by rw [hlen, hn, buf.size_eq]; omega), hcopy]
    rfl

end Udp

section Tcp

variable {cfg : Tcp.Config} {s : Tcp.Psc E} {id : UInt16} {blk : Block E}

/-- Below its limit `PSC` writes a header for a block without a message in the queue, if there is
    memory for the message. -/
theorem tcp_header (id : UInt16) (hc : s.connected = true)
    (hlimit : Tcp.overLimit cfg s.sendbuf = false) {n : UInt32} (hn : 8 ≤ (8 + n).toNat) :
    accepts (Tcp.queueHeader cfg s id blk n) = true ↔
      blk.queued = false ∧ (expand s.sendbuf (8 + n).toNat).2 = true := by
  unfold Tcp.queueHeader
  rw [if_neg (by simp [hc])]
  cases hq : blk.queued with
  | true =>
    rw [if_pos rfl]
    exact iff_of_false nofun fun h => nomatch h.1
  | false =>
    rw [if_neg Bool.false_ne_true, if_neg (by simp [hlimit])]
    dsimp only
    cases hmem : (expand s.sendbuf (8 + n).toNat).2 with
    | false =>
      rw [if_pos (by decide)]
      exact iff_of_false nofun fun h => nomatch h.2
    | true =>
      have hspace := expand_space _ _ hmem
      have hadd : (add (expand s.sendbuf (8 + n).toNat).1 (header id n)).2 = true :=
        add_space _ _ (by rw [length_header]; omega)
      rw [if_neg (by decide), if_pos hadd]
      exact iff_of_true rfl ⟨rfl, rfl⟩

theorem tcp_accepts_raw (hc : s.connected = true) (hlimit : Tcp.overLimit cfg s.sendbuf = false)
    (buf : RawBuf) (hshort : buf.bytes.length + 8 < 2 ^ 32) :
    accepts (Tcp.queueSendRaw cfg s id blk buf) = true ↔
      blk.queued = false ∧ (expand s.sendbuf (buf.bytes.length + 8)).2 = true := by
  have h8 : (8 : UInt32).toNat = 8 := rfl
  have hn : (8 + buf.len).toNat = buf.bytes.length + 8 := by
    rw [RawBuf.len, UInt32.toNat_add, UInt32.toNat_ofNat', h8]
    omega
  rw [← hn, ← tcp_header id hc hlimit (by omega)]
  unfold Tcp.queueSendRaw
  cases hq : Tcp.queueHeader cfg s id blk buf.len with
  | throw | abort => exact Iff.rfl
  | ok t =>
    rcases Tcp.queueHeader_ok hq with ⟨hno, _⟩ | ⟨_, _, _, b, rfl, _, hspace⟩
    · rw [hc] at hno
      cases hno
    · have hadd : (add b buf.bytes).2 = true := add_space _ _ (by omega)
      rw [Res.andThen_ok]
      dsimp only
      rw [if_pos hadd]
      exact iff_of_true rfl rfl

theorem tcp_accepts_dbuf (hc : s.connected = true) (hlimit : Tcp.overLimit cfg s.sendbuf = false)
    (buf : DBuffer E) (hshort : buf.mem.length + 8 < 2 ^ 32) :
    accepts (Tcp.queueSendDbuf cfg s id blk buf) = true ↔
      blk.queued = false ∧ (expand s.sendbuf (buf.mem.length + 8)).2 = true := by
  have h8 : (8 : UInt32).toNat = 8 := rfl
  have hn : (8 + UInt32.ofNat buf.size).toNat = buf.mem.length + 8 := by
    rw [buf.size_eq, UInt32.toNat_add, UInt32.toNat_ofNat', h8]
    omega
  rw [← hn, ← tcp_header id hc hlimit (by omega)]
  unfold Tcp.queueSendDbuf
  cases hq : Tcp.queueHeader cfg s id blk (UInt32.ofNat buf.size) with
  | throw | abort => exact Iff.rfl
  | ok t =>
    rcases Tcp.queueHeader_ok hq with ⟨hno, _⟩ | ⟨_, _, _, b, rfl, _, hspace⟩
    · rw [hc] at hno
      cases hno
    · obtain ⟨hok, _⟩ := buf.copyoutEv_space b (by omega)
      rw [Res.andThen_ok]
      dsimp only
      rw [if_pos hok]
      exact iff_of_true rfl rfl

end Tcp

/-! ### Steps -/

section Steps

variable {cfg : Tcp.Config} {b : Both E} {w : Wire} {fs gs : List Frame}

/-- A block has its flag set exactly while a message of it is pending. -/
theorem Inv.queued_iff (h : Inv b w fs gs) {id : UInt16} {blk : Block E}
    (hblk : (Tcp.getSend b.tcp id).sendBlocks id = some blk) :
    blk.queued = true ↔ id ∈ b.outbox.pending.map Prod.fst := by
  have hflag := (h.holds.getSend id).flags id
  rw [hblk, Option.map_some, Option.some.injEq] at hflag
  rw [hflag, h.pending, List.map_map]
  rfl

/-- STEP: a message that both drivers accept is pending in both. -/
theorem Inv.queue (h : Inv b w fs gs) {id : UInt16} {body : List UInt8} {blk : Block E}
    (hblk : (Tcp.getSend b.tcp id).sendBlocks id = some blk) {r : Res (Tcp.Psc E)}
    (hr : Tcp.Queues (Tcp.getSend b.tcp id) id blk body r) (ha : accepts r = true)
    {u : Udp.PscUdp E} (hu : Udp.Queued (Udp.getSend b.udp id) u (id, body))
    (hup : u.connected = b.udp.connected) :
    ∃ fs', Inv ⟨r.state?.getD b.tcp, u,
      { b.outbox with pending := b.outbox.pending ++ [(id, body)] }, true⟩ w fs' gs := by
  cases hr with
  | refused | failed | aborted => cases ha
  | @done hq buf f hmsg hb =>
    refine ⟨fs ++ [f], rfl, h.tcpUp, h.session, hup.trans h.udpUp, ?_, h.flushed,
      (h.holds.getSend id).done hblk hmsg hb, h.moved, ?_, ?_, hu.flushed.trans h.order, h.stream,
      h.datagrams, ?_⟩
    · rw [List.map_append, List.map_singleton, hmsg, h.pending]
    · rw [hu.sendbuf, List.map_append, List.map_singleton, ← hmsg]
      exact congrArg (· ++ [f.bytes]) h.sendbuf
    · rw [hu.queued, ← List.append_assoc]
      exact congrArg (· ++ [(id, body)]) h.queued
    · rw [hu.sent, hu.txbuf]
      exact h.sent

/-- Below the limits a message is accepted by both drivers if it is the first of its block, its
    length fits and there is memory. -/
theorem Inv.both_accept (h : Inv b w fs gs) {id : UInt16} {body : List UInt8} {blk : Block E}
    (hblk : (Tcp.getSend b.tcp id).sendBlocks id = some blk) {tcp : Res (Tcp.Psc E)}
    {udp : Res (Udp.PscUdp E)}
    (htcp : body.length + 8 < 2 ^ 32 → (accepts tcp = true ↔
      blk.queued = false ∧ (expand b.tcp.sendbuf (body.length + 8)).2 = true))
    (hudp : accepts udp = true ↔ body.length + 8 < 2 ^ 32) :
    (accepts tcp && accepts udp) = true ↔ Admits b id body := by
  rw [Bool.and_eq_true, hudp]
  constructor
  · rintro ⟨ht, hshort⟩
    obtain ⟨hq, hmem⟩ := (htcp hshort).mp ht
    refine ⟨fun hin => ?_, hshort, hmem⟩
    rw [(h.queued_iff hblk).mpr hin] at hq
    cases hq
  · rintro ⟨hfirst, hshort, hmem⟩
    refine ⟨(htcp hshort).mpr ⟨?_, hmem⟩, hshort⟩
    rw [← Bool.not_eq_true]
    exact fun hq => hfirst ((h.queued_iff hblk).mp hq)

/-- Over TCP a flush below the limit succeeds when the bytes can be moved. -/
theorem tcp_flush {s : Tcp.Psc E} {ses : Tcp.Session E} (hc : s.connected = true)
    (hses : s.session = some ses) (hlimit : Tcp.overLimit cfg ses.output = false) :
    accepts (Tcp.flushSend cfg s) = true ↔ (addBuffer ses.output s.sendbuf).2 = true := by
  unfold Tcp.flushSend
  rw [if_neg (by simp [hc]), hses]
  dsimp only
  rw [if_neg (by simp [hlimit])]
  cases (addBuffer ses.output s.sendbuf).2 <;> exact Iff.rfl

/-- Over UDP a flush below the limit succeeds when the event can be added; the messages are moved in
    any case. -/
theorem udp_flush {s : Udp.PscUdp E} (hc : s.connected = true) (hroom : s.txbuf.length < 64)
    (eventAdd : Bool) :
    (accepts (Udp.flushSend s eventAdd) = true ↔ eventAdd = true) ∧
      ∃ t, (Udp.flushSend s eventAdd).state? = some t ∧ t.connected = s.connected ∧
        t.sendbuf = [] ∧ t.queued = s.queued ∧ t.flushed = s.queued ∧
        t.txbuf = s.txbuf ++ s.sendbuf ∧ t.sent = s.sent := by
  unfold Udp.flushSend
  rw [if_neg (by simp [hc]), if_neg (Nat.not_le.mpr hroom)]
  dsimp only
  cases eventAdd with
  | true => exact ⟨iff_of_true rfl rfl, _, rfl, rfl, rfl, rfl, rfl, rfl, rfl⟩
  | false => exact ⟨iff_of_false nofun nofun, _, rfl, rfl, rfl, rfl, rfl, rfl, rfl⟩

/-- STEP: a flush that both drivers accept moves what is pending. -/
theorem Inv.flush (h : Inv b w fs gs) {ses : Tcp.Session E} (hses : b.tcp.session = some ses)
    (hlimit : Tcp.overLimit cfg ses.output = false) (hroom : b.udp.txbuf.length < 64)
    (hadd : (addBuffer ses.output b.tcp.sendbuf).2 = true) (eventAdd : Bool) :
    Inv ⟨(Tcp.flushSend cfg b.tcp).state?.getD b.tcp,
      (Udp.flushSend b.udp eventAdd).state?.getD b.udp,
      ⟨[], b.outbox.flushed ++ b.outbox.pending⟩, true⟩ (w.note b (.flushSend eventAdd)) []
      (gs ++ fs) := by
  obtain ⟨-, u, hu, hup, hsend, hqueued, hflushed, htxbuf, hsent⟩ :=
    udp_flush h.udpUp hroom eventAdd
  have hnote : w.note b (.flushSend eventAdd) = { w with moved := w.moved ++ b.udp.sendbuf } := by
    rw [Wire.note, hu, Option.getD_some, htxbuf, List.drop_left]
  have hkempt : (Tcp.flushSend cfg b.tcp).state? = some { b.tcp with
      session := some { ses with output := (addBuffer ses.output b.tcp.sendbuf).1.1 }
      sendbuf := (addBuffer ses.output b.tcp.sendbuf).1.2
      sendBlocks := fun k => (b.tcp.sendBlocks k).map fun b => { b with queued := false }
      txlog := b.tcp.txlog ++ [(ses.id, Libevent.bytes b.tcp.sendbuf)] } := by
    unfold Tcp.flushSend
    rw [if_neg (by simp [h.tcpUp]), hses]
    dsimp only
    rw [if_neg (by simp [hlimit]), if_neg (by simp [hadd])]
    rfl
  have hstream := h.stream
  rw [outputOf, hses] at hstream
  rw [hkempt, hu, hnote]
  refine ⟨rfl, h.tcpUp, rfl, hup.trans h.udpUp, rfl, ?_, ⟨?_, fun id => ?_⟩, ?_, hsend, ?_, ?_,
    ?_, ?_, ?_⟩
  · rw [List.map_append, h.flushed, h.pending]
  · exact (addBuffer_ok _ _ hadd).2
  · change ((b.tcp.sendBlocks id).map fun b => { b with queued := false }).map Block.queued = _ ↔ _
    rw [Option.map_map, List.map_nil]
    exact iff_of_false (by cases b.tcp.sendBlocks id <;> simp) List.not_mem_nil
  · change ((b.tcp.txlog ++ [(ses.id, Libevent.bytes b.tcp.sendbuf)]).map Prod.snd).flatten = _
    rw [List.map_append, List.flatten_append, h.moved, List.map_append, List.flatten_append]
    simp [h.holds.buf]
  · exact hqueued.trans (h.queued.trans (List.append_nil _).symm)
  · exact hflushed.trans h.queued
  · change w.taken ++ Libevent.bytes (addBuffer ses.output b.tcp.sendbuf).1.1 = _
    rw [Libevent.bytes, (addBuffer_ok _ _ hadd).1, ← List.append_assoc, List.map_append,
      List.flatten_append, ← hstream]
    exact congrArg _ h.holds.buf
  · rw [h.datagrams, h.sendbuf, List.map_append]
  · change (w.moved ++ b.udp.sendbuf).Sublist (u.sent ++ u.txbuf)
    rw [hsent, htxbuf, ← List.append_assoc]
    exact h.sent.append_right _

/-- The loop of `senddata` leaves the queue before `txbuf` alone. -/
theorem sendLoop_keeps (outs : List Udp.SendTo) : ∀ s : Udp.PscUdp E,
    Udp.SameQueue s (Udp.sendLoop s outs) ∧ (Udp.sendLoop s outs).connected = s.connected := by
  induction outs with
  | nil => exact fun s => ⟨⟨rfl, rfl, rfl⟩, rfl⟩
  | cons out outs ih =>
    have hsame : ∀ s t : Udp.PscUdp E, t.sendbuf = s.sendbuf → t.queued = s.queued →
        t.flushed = s.flushed → t.connected = s.connected →
        Udp.SameQueue s (Udp.sendLoop t outs) ∧
          (Udp.sendLoop t outs).connected = s.connected := by
      intro s t hsend hqueued hflushed hc
      obtain ⟨hsame, hconn⟩ := ih t
      exact ⟨⟨hsame.sendbuf.trans hsend, hsame.queued.trans hqueued,
        hsame.flushed.trans hflushed⟩, hconn.trans hc⟩
    intro s
    rw [Udp.sendLoop]
    cases s.txbuf with
    | nil => exact ⟨⟨rfl, rfl, rfl⟩, rfl⟩
    | cons scratch rest =>
      cases out with
      | again | error => exact ⟨⟨rfl, rfl, rfl⟩, rfl⟩
      | sent ret =>
        dsimp only
        split_ifs <;> exact hsame s _ rfl rfl rfl rfl

/-- The loop of `senddata` takes a datagram out of `txbuf` only when it was sent. -/
theorem sendLoop_sublist (outs : List Udp.SendTo) : ∀ s : Udp.PscUdp E,
    (s.sent ++ s.txbuf).Sublist ((Udp.sendLoop s outs).sent ++ (Udp.sendLoop s outs).txbuf) := by
  induction outs with
  | nil => exact fun s => List.Sublist.refl _
  | cons out outs ih =>
    intro s
    by_cases hend : s.txbuf = [] ∨ Udp.successes (out :: outs) = 0
    · obtain ⟨-, hsent, htx, -⟩ := Udp.sendLoop_end s hend
      rw [hsent, htx]
    · cases out with
      | again => exact absurd (.inr rfl) hend
      | error errstr => exact absurd (.inr rfl) hend
      | sent ret =>
        obtain ⟨scratch, rest, htx⟩ := List.exists_cons_of_ne_nil fun h => hend (.inl h)
        obtain ⟨u, hu, -, hsent, hcase⟩ := Udp.sendLoop_sent s htx ret outs
        rw [hu]
        refine List.Sublist.trans ?_ (ih u)
        rcases hcase with ⟨-, -, hrest⟩ | ⟨-, -, hstay⟩
        · rw [hsent, hrest, htx, List.append_assoc, List.singleton_append]
        · rw [hsent, hstay]
          exact (List.sublist_append_left _ _).append_right _

/-- STEP: what the network takes from the UDP driver was flushed before. -/
theorem Inv.senddata (h : Inv b w fs gs) {u : Udp.PscUdp E} {evt : Udp.SockEvent}
    {outs : List Udp.SendTo} {eventAdd : Bool}
    (hu : (Udp.senddata b.udp evt outs eventAdd).state? = some u) :
    Inv { b with udp := u } w fs gs := by
  rw [Udp.senddata_state hu]
  split
  · obtain ⟨hsame, hup⟩ := sendLoop_keeps outs b.udp
    exact ⟨h.accepted, h.tcpUp, h.session, hup.trans h.udpUp, h.pending, h.flushed, h.holds,
      h.moved, hsame.sendbuf.trans h.sendbuf, hsame.queued.trans h.queued,
      hsame.flushed.trans h.order, h.stream, h.datagrams,
      h.sent.trans (sendLoop_sublist outs b.udp)⟩
  · exact h

/-- STEP: what the network takes from the TCP driver was flushed before. -/
theorem Inv.written (h : Inv b w fs gs) (n : ℕ) :
    Inv { b with tcp := Tcp.written b.tcp n } (w.note b (.written n)) fs gs := by
  have hsplit : (outputOf b.tcp).take n ++ outputOf (Tcp.written b.tcp n) = outputOf b.tcp := by
    obtain ⟨ses, hses⟩ := Option.isSome_iff_exists.mp h.session
    rw [outputOf, outputOf, Tcp.written, hses]
    exact (congrArg _ (bytes_drain ses.output n)).trans (List.take_append_drop n _)
  refine ⟨h.accepted, h.tcpUp, ?_, h.udpUp, h.pending, h.flushed,
    h.holds.congr rfl fun _ => Iff.rfl, h.moved, h.sendbuf, h.queued, h.order, ?_, h.datagrams,
    h.sent⟩
  · change (b.tcp.session.map _).isSome = true
    rw [Option.isSome_map]
    exact h.session
  · change (w.taken ++ (outputOf b.tcp).take n) ++ outputOf (Tcp.written b.tcp n) = _
    rw [List.append_assoc, hsplit, h.stream]

/-- The two drivers and a message of the block behind `id`. -/
structure Offers (cfg : Tcp.Config) (b : Both E) (id : UInt16) (body : List UInt8) (c : Cmd E)
    (blk : Block E) : Prop where
  queues : body.length + 8 < 2 ^ 32 →
    Tcp.Queues (Tcp.getSend b.tcp id) id blk body (tcpCall cfg b.tcp c)
  tcp : body.length + 8 < 2 ^ 32 → (accepts (tcpCall cfg b.tcp c) = true ↔
    blk.queued = false ∧ (expand b.tcp.sendbuf (body.length + 8)).2 = true)
  udp : accepts (udpCall b.udp c) = true ↔ body.length + 8 < 2 ^ 32
  queued : ∀ u, udpCall b.udp c = .ok u →
    Udp.Queued (Udp.getSend b.udp id) u (id, body) ∧ u.connected = b.udp.connected

theorem offers_raw (h : Inv b w fs gs) {id : UInt16} {buf : RawBuf} {blk : Block E}
    (hblk : (Tcp.getSend b.tcp id).sendBlocks id = some blk)
    (hbelow : Below cfg b (.queueSend id buf)) :
    Offers cfg b id buf.bytes (.queueSend id buf) blk := by
  have hc : (Tcp.getSend b.tcp id).connected = true := h.tcpUp
  have htcp : tcpCall cfg b.tcp (.queueSend id buf) =
      Tcp.queueSendRaw cfg (Tcp.getSend b.tcp id) id blk buf := by
    rw [tcpCall, Tcp.call, Tcp.queueSendId, Tcp.withSend, hblk]
  obtain ⟨ublk, hublk⟩ : ∃ ublk, (Udp.getSend b.udp id).sendBlocks id = some ublk :=
    b.udp.sendBlocks.get_self id
  have hudp : udpCall b.udp (.queueSend id buf) =
      Udp.queueSendRaw (Udp.getSend b.udp id) id buf := by
    rw [udpCall, Udp.call, Udp.queueSendId, Udp.withSend, hublk]
  refine ⟨fun _ => ?_, fun hshort => ?_, ?_, fun u hu => ?_⟩
  · rw [htcp]
    exact Tcp.queueSendRaw_queues hc id blk buf
  · rw [htcp]
    exact tcp_accepts_raw hc hbelow.1 buf hshort
  · have hroom : (Udp.getSend b.udp id).sendbuf.length < 64 := hbelow.2
    rw [hudp]
    exact udp_accepts_raw hroom buf
  · rw [hudp] at hu
    exact Udp.queueSendRaw_ok hu

theorem offers_dbuf (h : Inv b w fs gs) {id : UInt16} {buf : DBuffer E} {blk : Block E}
    (hblk : (Tcp.getSend b.tcp id).sendBlocks id = some blk)
    (hbelow : Below cfg b (.queueSendDbuf id buf)) :
    Offers cfg b id buf.mem (.queueSendDbuf id buf) blk := by
  have hc : (Tcp.getSend b.tcp id).connected = true := h.tcpUp
  have htcp : tcpCall cfg b.tcp (.queueSendDbuf id buf) =
      Tcp.queueSendDbuf cfg (Tcp.getSend b.tcp id) id blk buf := by
    rw [tcpCall, Tcp.call, Tcp.withSend, hblk]
  obtain ⟨ublk, hublk⟩ : ∃ ublk, (Udp.getSend b.udp id).sendBlocks id = some ublk :=
    b.udp.sendBlocks.get_self id
  have hudp : udpCall b.udp (.queueSendDbuf id buf) =
      Udp.queueSendDbuf (Udp.getSend b.udp id) id buf := by
    rw [udpCall, Udp.call, Udp.withSend, hublk]
  refine ⟨fun hshort => ?_, fun hshort => ?_, ?_, fun u hu => ?_⟩
  · rw [htcp]
    refine Tcp.queueSendDbuf_queues hc id blk buf ⟨fun hno => ?_, fun _ _ _ => hshort⟩
    rw [hc] at hno
    cases hno
  · rw [htcp]
    exact tcp_accepts_dbuf hc hbelow.1 buf hshort
  · have hroom : (Udp.getSend b.udp id).sendbuf.length < 64 := hbelow.2
    rw [hudp]
    exact udp_accepts_dbuf hroom buf
  · rw [hudp] at hu
    exact Udp.queueSendDbuf_ok hu

/-- STEP: an admitted message is pending everywhere. -/
theorem Inv.offer (h : Inv b w fs gs) {id : UInt16} {body : List UInt8} {c : Cmd E} {blk : Block E}
    (hblk : (Tcp.getSend b.tcp id).sendBlocks id = some blk) (ho : Offers cfg b id body c blk)
    (hadmits : Admits b id body) :
    ∃ fs', Inv ⟨(tcpCall cfg b.tcp c).state?.getD b.tcp, (udpCall b.udp c).state?.getD b.udp,
      { b.outbox with pending := b.outbox.pending ++ [(id, body)] },
      b.accepted && (accepts (tcpCall cfg b.tcp c) && accepts (udpCall b.udp c))⟩ w fs' gs := by
  have hboth := (h.both_accept hblk ho.tcp ho.udp).mpr hadmits
  obtain ⟨ht, hu⟩ := Bool.and_eq_true_iff.mp hboth
  obtain ⟨u, hu⟩ := accepts_iff.mp hu
  obtain ⟨hqueued, hup⟩ := ho.queued u hu
  obtain ⟨fs', hinv⟩ := h.queue hblk (ho.queues hadmits.short) ht hqueued hup
  refine ⟨fs', ?_⟩
  rw [hboth, h.accepted, hu]
  exact hinv

/-- STEP: a command that meets the condition does the same everywhere. -/
theorem inv_step (x : Both E × Wire) (c : Cmd E) (y : Both E × Wire)
    (h : ∃ fs gs, Inv x.1 x.2 fs gs) (hc : Distinct x.1 c ∧ Below cfg x.1 c)
    (hs : observed (step cfg) Wire.note x c = some y) : ∃ fs gs, Inv y.1 y.2 fs gs := by
  obtain ⟨b, w⟩ := x
  obtain ⟨fs, gs, h⟩ := h
  obtain ⟨hdistinct, hbelow⟩ := hc
  dsimp only at h hdistinct hbelow
  cases hs
  cases c with
  | queueSend id buf =>
    obtain ⟨blk, hblk⟩ := b.tcp.sendBlocks.get_self id
    obtain ⟨fs', hinv⟩ := h.offer hblk (offers_raw h hblk hbelow) hdistinct
    exact ⟨fs', gs, hinv⟩
  | queueSendDbuf id buf =>
    obtain ⟨blk, hblk⟩ := b.tcp.sendBlocks.get_self id
    obtain ⟨fs', hinv⟩ := h.offer hblk (offers_dbuf h hblk hbelow) hdistinct
    exact ⟨fs', gs, hinv⟩
  | flushSend eventAdd =>
    obtain ⟨hadd, hmoves⟩ := hdistinct
    obtain ⟨hlimit, hroom⟩ := hbelow
    obtain ⟨ses, hses⟩ := Option.isSome_iff_exists.mp h.session
    have hinv := h.flush hses (hlimit ses hses) hroom (hmoves ses hses) eventAdd
    have ht := (tcp_flush h.tcpUp hses (hlimit ses hses)).mpr (hmoves ses hses)
    have hu := (udp_flush h.udpUp hroom eventAdd).1.mpr hadd
    refine ⟨[], gs ++ fs, ?_⟩
    have haccepted : (b.accepted && (!(Cmd.flushSend eventAdd : Cmd E).isCall ||
        accepts (tcpCall cfg b.tcp (.flushSend eventAdd)) &&
          accepts (udpCall b.udp (.flushSend eventAdd)))) = true := by
      rw [h.accepted]
      simp only [Cmd.isCall, tcpCall, Tcp.call, udpCall, Udp.call, ht, hu]
      rfl
    dsimp only
    rw [haccepted]
    exact hinv
  | written n =>
    refine ⟨fs, gs, ?_⟩
    have hinv := h.written n
    dsimp only
    rw [h.accepted]
    exact { hinv with accepted := rfl }
  | senddata evt outs eventAdd =>
    refine ⟨fs, gs, ?_⟩
    obtain ⟨u, hu⟩ : ∃ u, (Udp.senddata b.udp evt outs eventAdd).state? = some u := by
      unfold Udp.senddata
      dsimp only
      generalize (if evt.write = true then Udp.sendLoop b.udp outs else b.udp) = v
      split
      · exact ⟨v, rfl⟩
      · exact ⟨v, rfl⟩
    have hinv := h.senddata hu
    dsimp only
    rw [h.accepted]
    simp only [udpCall, Udp.call, hu, Option.getD_some]
    exact { hinv with accepted := rfl }

/-- STEP (the converse): a command that was accepted by both has met the condition. -/
theorem distinct_of_same (x : Both E × Wire) (c : Cmd E) (y : Both E × Wire)
    (h : ∃ fs gs, Inv x.1 x.2 fs gs) (hbelow : Below cfg x.1 c)
    (hs : observed (step cfg) Wire.note x c = some y) (ht : SameFrames y.1 y.2) :
    Distinct x.1 c := by
  obtain ⟨b, w⟩ := x
  obtain ⟨fs, gs, h⟩ := h
  dsimp only at h hbelow ⊢
  cases hs
  have haccepted := ht.accepted
  cases c with
  | queueSend id buf =>
    obtain ⟨blk, hblk⟩ := b.tcp.sendBlocks.get_self id
    have ho := offers_raw h hblk hbelow
    rw [Bool.and_eq_true] at haccepted
    exact (h.both_accept hblk ho.tcp ho.udp).mp haccepted.2
  | queueSendDbuf id buf =>
    obtain ⟨blk, hblk⟩ := b.tcp.sendBlocks.get_self id
    have ho := offers_dbuf h hblk hbelow
    rw [Bool.and_eq_true] at haccepted
    exact (h.both_accept hblk ho.tcp ho.udp).mp haccepted.2
  | flushSend eventAdd =>
    obtain ⟨hlimit, hroom⟩ := hbelow
    simp only [Cmd.isCall, Bool.not_true, Bool.false_or, Bool.and_eq_true, tcpCall, Tcp.call,
      udpCall, Udp.call] at haccepted
    obtain ⟨_, htcp, hudp⟩ := haccepted
    exact ⟨(udp_flush h.udpUp hroom eventAdd).1.mp hudp, fun ses hses =>
      (tcp_flush h.tcpUp hses (hlimit ses hses)).mp htcp⟩
  | written n => trivial
  | senddata evt outs eventAdd => trivial

/-- STEP: with room in the free list, what was moved to `txbuf` is sent once and in order. -/
theorem sent_step (x : Both E × Wire) (c : Cmd E) (y : Both E × Wire)
    (h : (∃ fs gs, Inv x.1 x.2 fs gs) ∧ Udp.Inv x.1.udp)
    (hc : (Distinct x.1 c ∧ Below cfg x.1 c) ∧ Room x.1 c)
    (hs : observed (step cfg) Wire.note x c = some y) :
    (∃ fs gs, Inv y.1 y.2 fs gs) ∧ Udp.Inv y.1.udp := by
  refine ⟨inv_step x c y h.1 hc.1 hs, ?_⟩
  obtain ⟨b, w⟩ := x
  obtain ⟨⟨fs, gs, hinv⟩, hu⟩ := h
  obtain ⟨-, hroom⟩ := hc
  cases hs
  cases hcall : (udpCall b.udp c).state? with
  | none => simpa [hcall] using hu
  | some u =>
    simp only [Option.getD_some]
    have hget : ∀ id, Udp.Inv (Udp.getSend b.udp id) := fun id =>
      ⟨⟨hu.exact.queue, hu.exact.tx⟩, hu.ready⟩
    cases c with
    | queueSend id buf => exact Udp.exact_step b.udp (.queueSendId id buf) u hu trivial hcall
    | queueSendDbuf id buf =>
      exact Udp.exact_step (Udp.getSend b.udp id) (.queueSendDbuf id buf) u (hget id) trivial hcall
    | flushSend eventAdd => exact Udp.exact_step b.udp (.flushSend eventAdd) u hu trivial hcall
    | written n =>
      cases hcall
      exact hu
    | senddata evt outs eventAdd =>
      exact Udp.exact_step b.udp (.senddata evt outs eventAdd) u hu hroom hcall

theorem inv_start (ep : SockAddr) (tx rx : Finset UInt16) :
    Inv (Both.start ep tx rx : Both E) Wire.none [] [] where
  accepted := rfl
  tcpUp := rfl
  session := rfl
  udpUp := rfl
  pending := rfl
  flushed := rfl
  holds := (Tcp.holds_init tx rx).congr rfl fun _ => Iff.rfl
  moved := rfl
  sendbuf := rfl
  queued := rfl
  order := rfl
  stream := congrArg _ bytes_new
  datagrams := rfl
  sent := .slnil

end Steps

/-- ALIKE: below the limits both drivers accept every call and flush the same messages in the order
    of the calls, if and only if no block gets a second message before a flush, and there is memory
    for the messages. The UDP driver then sends them in this order, and once each if there is room
    in its free list for the buffers that become free. -/
theorem same_frames (cfg : Tcp.Config) (ep : SockAddr) (tx rx : Finset UInt16) (cmds : List (Cmd E))
    (hbelow : Along (step cfg) (Below cfg) (Both.start ep tx rx) cmds) :
    (Always (observed (step cfg) Wire.note) (fun x => SameFrames x.1 x.2)
        (Both.start ep tx rx, Wire.none) cmds ↔
      Along (step cfg) Distinct (Both.start ep tx rx) cmds) ∧
    (Along (step cfg) Distinct (Both.start ep tx rx) cmds →
      Along (step cfg) Room (Both.start ep tx rx) cmds →
      Always (observed (step cfg) Wire.note) (fun x => x.1.udp.sent ++ x.1.udp.txbuf = x.2.moved)
        (Both.start ep tx rx, Wire.none) cmds) := by
  have hinit : ∃ fs gs, Inv (Both.start ep tx rx : Both E) Wire.none fs gs :=
    ⟨[], [], inv_start ep tx rx⟩
  refine ⟨⟨fun h => ?_, fun h => ?_⟩, fun h hroom => ?_⟩
  · exact (along_observed_iff Wire.none).mp
      (along_of_always (I := fun x : Both E × Wire => ∃ fs gs, Inv x.1 x.2 fs gs)
        inv_step distinct_of_same hinit (along_observed Wire.none hbelow) h)
  · exact always_of_along (I := fun x : Both E × Wire => ∃ fs gs, Inv x.1 x.2 fs gs) inv_step
      (fun _ ⟨_, _, hinv⟩ => hinv.same) hinit (along_observed Wire.none (along_and h hbelow))
  · refine always_of_along
      (I := fun x : Both E × Wire => (∃ fs gs, Inv x.1 x.2 fs gs) ∧ Udp.Inv x.1.udp) sent_step
      (fun x hx => ?_) ⟨hinit, ⟨rfl, rfl⟩, Nat.zero_le _⟩
      (along_observed Wire.none (along_and (along_and h hbelow) hroom))
    obtain ⟨⟨fs, gs, hinv⟩, hu⟩ := hx
    rw [← hu.exact.tx, hinv.order, ← hinv.same.datagrams]

instance (cfg : Tcp.Config) (b : Both E) : ∀ c, Decidable (Below cfg b c)
  | .queueSend _ _ => inferInstanceAs (Decidable (_ ∧ _))
  | .queueSendDbuf _ _ => inferInstanceAs (Decidable (_ ∧ _))
  | .flushSend _ => inferInstanceAs (Decidable
      ((∀ ses ∈ b.tcp.session, Tcp.overLimit cfg ses.output = false) ∧ b.udp.txbuf.length < 64))
  | .written _ => .isTrue trivial
  | .senddata _ _ _ => .isTrue trivial

instance (b : Both E) (id : UInt16) (body : List UInt8) : Decidable (Admits b id body) :=
  decidable_of_iff (id ∉ b.outbox.pending.map Prod.fst ∧ body.length + 8 < 2 ^ 32 ∧
      (expand b.tcp.sendbuf (body.length + 8)).2 = true)
    ⟨fun ⟨hfirst, hshort, hmemory⟩ => ⟨hfirst, hshort, hmemory⟩,
      fun h => ⟨h.first, h.short, h.memory⟩⟩

instance (b : Both E) : ∀ c, Decidable (Distinct b c)
  | .queueSend id buf => inferInstanceAs (Decidable (Admits b id buf.bytes))
  | .queueSendDbuf id buf => inferInstanceAs (Decidable (Admits b id buf.mem))
  | .flushSend eventAdd => inferInstanceAs (Decidable (eventAdd = true ∧
      ∀ ses ∈ b.tcp.session, (addBuffer ses.output b.tcp.sendbuf).2 = true))
  | .written _ => .isTrue trivial
  | .senddata _ _ _ => .isTrue trivial

instance (b : Both E) : ∀ c, Decidable (Room b c)
  | .senddata evt outs _ => inferInstanceAs (Decidable (evt.write = true →
      b.udp.readybuf.length + min b.udp.txbuf.length (Udp.successes outs) ≤ 64))
  | .queueSend _ _ => .isTrue trivial
  | .queueSendDbuf _ _ => .isTrue trivial
  | .flushSend _ => .isTrue trivial
  | .written _ => .isTrue trivial

/-- A message of block 3 and one of block `id`, and a flush. -/
def sendTwo (id : UInt16) : List (Cmd Chains) :=
  [.queueSend 3 ⟨[11], by decide⟩, .queueSend id ⟨[12], by decide⟩, .flushSend true]

/-- The network takes the bytes of both messages from either driver. -/
def takeTwo : List (Cmd Chains) :=
  [.written 18, .senddata ⟨false, false, true⟩ [.sent 9, .sent 9] true]

theorem same_frames_two :
    Always (observed (step ⟨0⟩) Wire.note) (fun x => SameFrames x.1 x.2)
        ((Both.start ⟨0, 0⟩ ∅ ∅ : Both Chains), Wire.none) (sendTwo 4 ++ takeTwo) ∧
      Always (observed (step ⟨0⟩) Wire.note) (fun x => x.1.udp.sent ++ x.1.udp.txbuf = x.2.moved)
        ((Both.start ⟨0, 0⟩ ∅ ∅ : Both Chains), Wire.none) (sendTwo 4 ++ takeTwo) := by
  have hdistinct :
      Along (step ⟨0⟩) Distinct (Both.start ⟨0, 0⟩ ∅ ∅ : Both Chains) (sendTwo 4 ++ takeTwo) := by
    decide +kernel
  obtain ⟨hsame, hsent⟩ := same_frames ⟨0⟩ ⟨0, 0⟩ ∅ ∅ (sendTwo 4 ++ takeTwo) (by decide +kernel)
  exact ⟨hsame.mpr hdistinct, hsent hdistinct (by decide +kernel)⟩

/-- The datagrams of the second part are really sent. -/
example : (exec (step ⟨0⟩) (Both.start ⟨0, 0⟩ ∅ ∅) (sendTwo 4 ++ takeTwo)).map (·.udp.sent) =
    some [header 3 1 ++ [11], header 4 1 ++ [12]] := by
  decide +kernel

/-- A second message of block 3 goes out over UDP and is refused over TCP. -/
theorem second_message_refused :
    Along (step ⟨0⟩) (Below ⟨0⟩) (Both.start ⟨0, 0⟩ ∅ ∅ : Both Chains) (sendTwo 3) ∧
      ¬ Always (observed (step ⟨0⟩) Wire.note) (fun x => SameFrames x.1 x.2)
          ((Both.start ⟨0, 0⟩ ∅ ∅ : Both Chains), Wire.none) (sendTwo 3) := by
  refine ⟨by decide +kernel, fun h => ?_⟩
  have hrun : (exec (observed (step ⟨0⟩) Wire.note)
        ((Both.start ⟨0, 0⟩ ∅ ∅ : Both Chains), Wire.none) (sendTwo 3)).map
      (fun x => (x.2.moved, x.2.taken ++ outputOf x.1.tcp)) =
        some ([header 3 1 ++ [11], header 3 1 ++ [12]], header 3 1 ++ [11]) := by
    decide +kernel
  obtain ⟨x, hx, hfields⟩ := Option.map_eq_some_iff.mp hrun
  obtain ⟨hudp, htcp⟩ := Prod.mk.inj hfields
  have hsame := h.exec hx
  have hstream := hsame.stream
  rw [← hsame.datagrams, hudp, htcp] at hstream
  exact absurd hstream (by decide)

end Pscdrv.Sending
