import Pscdrv.Link.Sim
import Pscdrv.Udp.Receive
import Pscdrv.Udp.Transmit

/-! # The UDP driver and the simulator

    With the option `-U` the simulator answers datagrams instead of a stream. The network loses
    datagrams, doubles them and delivers them in any order; others send to both sides, whatever they
    like. It is only relied on for the address that a datagram comes from, and for the length of a
    datagram, which UDP counts in 16 bits.

                sent               data, addr
        PSCUDP ──────▶ ─ ─ ? ─ ─ ▶ UDPProto
               ◀─ ─ ? ─ ─ ◀──────
               recvfrom()      sendto()

    The field `said` of the simulator is not in the source: it records the messages that were sent
    and why. -/

namespace Pscdrv.Datagrams

open Libevent Memory Run Udp
open Sim (Said Time Answerable)
open Tcp (Msg msgBytes)

/-- `UDPProto` -/
structure UdpProto where
  peer : Option SockAddr
  sent : List (SockAddr × List UInt8)
  said : List (SockAddr × Said)

/-- `transport.sendto(build_msg(…), addr)` -/
def UdpProto.sendto (p : UdpProto) (x : Said) (addr : SockAddr) : UdpProto :=
  { p with sent := p.sent ++ [(addr, msgBytes x.msg)], said := p.said ++ [(addr, x)] }

/-- A new peer is said hello to. -/
def UdpProto.greet (p : UdpProto) (addr : SockAddr) : UdpProto :=
  if p.peer ≠ some addr then
    ({ p with peer := some addr }.sendto (.hello false) addr).sendto (.hello true) addr
  else p

/-- `datagram_received`; `struct.unpack` raises for fewer than eight bytes, and `build_msg` for an
    answer out of range. -/
def UdpProto.datagramReceived (p : UdpProto) (data : List UInt8) (addr : SockAddr) (now : Time) :
    UdpProto :=
  if data.length < headerSize then p
  else if !isPS data then p
  else
    let m : Msg := (msgidOf data, (data.drop headerSize).take (bodylenOf data).toNat)
    let p := p.greet addr
    if Answerable m now then p.sendto (.answer m now) addr else p

variable {E : Type} [Libevent E]

/-- The driver and the simulator. -/
structure Sys (E : Type) [Libevent E] where
  psc : PscUdp E
  sim : UdpProto

def Sys.init (ep : SockAddr) (tx rx : Finset UInt16) : Sys E := ⟨.init ep tx rx, ⟨none, [], []⟩⟩

inductive Act (E : Type) [Libevent E] where
  /-- a call on the driver, with the datagrams it receives -/
  | driver (op : Udp.Op E)
  /-- a datagram arrives at the simulator -/
  | sim (src : SockAddr) (data : List UInt8) (now : Time)

/-- What arrives at the driver from the address of the simulator has been sent by it. -/
def FromSim (drv : SockAddr) (s : Sys E) (op : Udp.Op E) : Prop :=
  ∀ p ∈ packetsOf op, p.1.payload.length < 2 ^ 16 ∧
    (p.1.src = s.psc.ep → (drv, p.1.payload) ∈ s.sim.sent)

instance (drv : SockAddr) (s : Sys E) (op : Udp.Op E) : Decidable (FromSim drv s op) :=
  inferInstanceAs (Decidable (∀ p ∈ packetsOf op, _ ∧ _))

/-- `drv` is the address of the driver's socket. `none` when this cannot happen now. -/
def step (drv : SockAddr) (s : Sys E) : Act E → Option (Sys E)
  | .driver op => if FromSim drv s op then (Udp.step s.psc op).map fun p => { s with psc := p }
    else none
  | .sim src data now =>
    if src = drv → data ∈ s.psc.sent then
      some { s with sim := s.sim.datagramReceived data src now }
    else none

/-- From `s` to `t` the message was delivered, and nothing else. -/
structure Delivered (m : Msg) (s t : PscUdp E) : Prop where
  log : t.rxlog = s.rxlog ++ delivery m.1 m.2
  block : ∃ b, t.recvBlocks m.1 = some b ∧ b.data.mem = m.2
  others : ∀ k, k ≠ m.1 → t.recvBlocks k = s.recvBlocks k

/-- What the driver is told is what the simulator said, and can get through. -/
structure Genuine (drv : SockAddr) (s : Sys E) : Prop where
  /-- a block holds the body of a message that the simulator has sent to the driver -/
  blocks : ∀ id b, s.psc.recvBlocks id = some b →
    b.data.mem = [] ∨ ∃ x, (drv, x) ∈ s.sim.said ∧ x.msg = (id, b.data.mem)
  /-- as does every body that was stored -/
  stored : ∀ id body, .store id body ∈ s.psc.rxlog →
    ∃ x, (drv, x) ∈ s.sim.said ∧ x.msg = (id, body)
  /-- an answer belongs to a message that was queued -/
  answers : ∀ m now, (drv, .answer m now) ∈ s.sim.said → m ∈ s.psc.queued
  /-- of two copies of a message in a row the second is delivered: the first one made room -/
  second : ∀ m : Msg, (s.psc.recvBlocks m.1).isSome = true → (msgBytes m).length < 2 ^ 16 →
    ∀ env env', Delivered m (recvPacket s.psc ⟨s.psc.ep, msgBytes m⟩ env)
      (recvPacket (recvPacket s.psc ⟨s.psc.ep, msgBytes m⟩ env) ⟨s.psc.ep, msgBytes m⟩ env')

/-! ### What the driver sends -/

/-- The datagrams that were sent or are to be sent. -/
def outgoing (s : PscUdp E) : List (List UInt8) := s.sent ++ s.txbuf ++ s.sendbuf

/-- Every datagram is a message that was queued. -/
def Posted (s : PscUdp E) : Prop := ∀ b ∈ outgoing s, ∃ f : Frame, f.msg ∈ s.queued ∧ f.bytes = b

section Transmit

variable {s t : PscUdp E}

theorem Posted.queued {m : Msg} (h : Posted s) (hq : Queued s t m) (hlt : m.2.length < 2 ^ 32) :
    Posted t := by
  intro b hb
  rw [outgoing, hq.sent, hq.txbuf, hq.sendbuf, ← List.append_assoc, List.mem_append] at hb
  rw [hq.queued]
  rcases hb with hb | hb
  · obtain ⟨f, hf, hbytes⟩ := h b hb
    exact ⟨f, List.mem_append_left _ hf, hbytes⟩
  · rw [List.mem_singleton.mp hb]
    exact ⟨⟨m.1, m.2, hlt⟩, List.mem_append_right _ (List.mem_singleton_self m), rfl⟩

theorem Posted.same (h : Posted s) (hs : SameTx s t) : Posted t := by
  unfold Posted outgoing
  rw [hs.sent, hs.txbuf, hs.sendbuf, hs.queued]
  exact h

/-- LOOP: `senddata` sends what is in `txbuf`. -/
theorem sendLoop_mem (outs : List SendTo) : ∀ s : PscUdp E, SameQueue s (sendLoop s outs) ∧
    ∀ b ∈ (sendLoop s outs).sent ++ (sendLoop s outs).txbuf, b ∈ s.sent ++ s.txbuf := by
  induction outs with
  | nil => exact fun s => ⟨⟨rfl, rfl, rfl⟩, fun b hb => hb⟩
  | cons out outs ih =>
    intro s
    by_cases hend : s.txbuf = [] ∨ successes (out :: outs) = 0
    · obtain ⟨hsame, hsent, htx, -⟩ := sendLoop_end s hend
      exact ⟨hsame, fun b hb => by rwa [hsent, htx] at hb⟩
    · cases out with
      | again => exact absurd (.inr rfl) hend
      | error errstr => exact absurd (.inr rfl) hend
      | sent ret =>
        obtain ⟨scratch, rest, htx⟩ := List.exists_cons_of_ne_nil fun h => hend (.inl h)
        obtain ⟨u, hu, hsame, hsent, hcase⟩ := sendLoop_sent s htx ret outs
        obtain ⟨hq, hall⟩ := ih u
        rw [hu]
        refine ⟨⟨hq.sendbuf.trans hsame.sendbuf, hq.queued.trans hsame.queued,
          hq.flushed.trans hsame.flushed⟩, fun b hb => ?_⟩
        have hmem := hall b hb
        rw [hsent, List.append_assoc, List.singleton_append] at hmem
        rw [htx]
        rcases hcase with ⟨-, -, hrest⟩ | ⟨-, -, hstay⟩
        · rwa [hrest] at hmem
        · -- the datagram that was sent is still there
          rw [hstay, htx] at hmem
          rcases List.mem_append.mp hmem with hmem | hmem
          · exact List.mem_append_left _ hmem
          · rcases List.mem_cons.mp hmem with rfl | hmem
            · exact List.mem_append_right _ List.mem_cons_self
            · exact List.mem_append_right _ hmem

/-- A block's data that was queued has a length that fits the header. -/
theorem queueSendDbuf_lt {id : UInt16} {buf : DBuffer E} (h : queueSendDbuf s id buf = .ok t) :
    buf.mem.length < 2 ^ 32 := by
  unfold queueSendDbuf at h
  cases hq : queueHeader s id (UInt32.ofNat buf.size) with
  | throw | abort =>
    rw [hq] at h
    cases h
  | ok u =>
    obtain ⟨b, ready, rfl, -, -, hlen, -⟩ := queueHeader_ok hq
    rw [hq, Res.andThen_ok] at h
    dsimp only at h
    rw [List.getLastD_concat] at h
    split at h
    · cases h
    · rename_i hassert
      have hfull : b.length = 8 + buf.size := not_not.mp hassert
      have hbound := (8 + UInt32.ofNat buf.size).toNat_lt
      rw [← buf.size_eq]
      omega

theorem posted_dbuf {id : UInt16} {buf : DBuffer E} (h : Posted s)
    (hs : (queueSendDbuf s id buf).state? = some t) : Posted t ∧ s.queued ⊆ t.queued := by
  cases hr : queueSendDbuf s id buf with
  | ok u =>
    rw [hr, Res.state?_ok, Option.some.injEq] at hs
    subst hs
    obtain ⟨hq, -⟩ := queueSendDbuf_ok hr
    exact ⟨h.queued hq (queueSendDbuf_lt hr), hq.queued ▸ List.subset_append_left _ _⟩
  | throw e u =>
    rw [hr, Res.state?_throw, Option.some.injEq] at hs
    rw [← hs, queueSendDbuf_throw hr]
    exact ⟨h, List.Subset.refl _⟩
  | abort =>
    rw [hr] at hs
    cases hs

theorem posted_raw {id : UInt16} {buf : RawBuf} (h : Posted s)
    (hs : (queueSendRaw s id buf).state? = some t) : Posted t ∧ s.queued ⊆ t.queued := by
  rcases queueSendRaw_queued hs with rfl | hq
  · exact ⟨h, List.Subset.refl _⟩
  · exact ⟨h.queued hq buf.lt, hq.queued ▸ List.subset_append_left _ _⟩

theorem posted_withSend {id : UInt16} {f : Block E → Res (PscUdp E)} (h : Posted s)
    (hf : ∀ blk, (f blk).state? = some t → Posted t ∧ s.queued ⊆ t.queued)
    (hs : (withSend s id f).state? = some t) : Posted t ∧ s.queued ⊆ t.queued := by
  unfold withSend at hs
  split at hs
  · exact hf _ hs
  · rw [Res.state?_ok, Option.some.injEq] at hs
    exact hs ▸ ⟨h, List.Subset.refl _⟩

theorem recvLoop_sameTx (outs : List RecvFrom) : ∀ s : PscUdp E, SameTx s (recvLoop s outs) := by
  induction outs with
  | nil => exact fun s => ⟨⟨rfl, rfl, rfl⟩, rfl, rfl, rfl⟩
  | cons out outs ih =>
    intro s
    cases out with
    | dgram d env =>
      have hone := recvPacket_sameTx s d env
      have hrest := ih (recvPacket s d env)
      exact ⟨⟨hrest.sendbuf.trans hone.sendbuf, hrest.queued.trans hone.queued,
        hrest.flushed.trans hone.flushed⟩, hrest.sent.trans hone.sent,
        hrest.txbuf.trans hone.txbuf, hrest.readybuf.trans hone.readybuf⟩
    | again => exact ⟨⟨rfl, rfl, rfl⟩, rfl, rfl, rfl⟩
    | error errstr => exact ⟨⟨rfl, rfl, rfl⟩, rfl, rfl, rfl⟩

/-- STEP (driver): what is sent has been queued. -/
theorem posted_step {op : Udp.Op E} (h : Posted s) (hs : Udp.step s op = some t) :
    Posted t ∧ s.queued ⊆ t.queued := by
  have hsame : SameTx s t → Posted t ∧ s.queued ⊆ t.queued := fun hsame =>
    ⟨h.same hsame, hsame.queued ▸ List.Subset.refl _⟩
  cases op with
  | connect eventAdd =>
    simp only [Udp.step, call, connect] at hs
    split at hs <;> simp only [Res.state?_ok, Res.state?_throw, Option.some.injEq] at hs <;>
      exact hsame (hs ▸ ⟨⟨rfl, rfl, rfl⟩, rfl, rfl, rfl⟩)
  | send bid => exact posted_withSend h (fun _ => posted_dbuf h) hs
  | queueSendId bid buf =>
    have hget : SameTx s (getSend s bid) := ⟨⟨rfl, rfl, rfl⟩, rfl, rfl, rfl⟩
    have hposted : Posted (getSend s bid) := h.same hget
    exact posted_withSend (s := getSend s bid) hposted (fun _ => posted_raw hposted) hs
  | queueSendRaw blk buf => exact posted_withSend h (fun _ => posted_raw h) hs
  | queueSendDbuf blk buf => exact posted_withSend h (fun _ => posted_dbuf h) hs
  | flushSend eventAdd =>
    have hmoved : ∀ b ∈ s.sent ++ (s.txbuf ++ s.sendbuf) ++ [],
        ∃ f : Frame, f.msg ∈ s.queued ∧ f.bytes = b := by
      intro b hb
      rw [List.append_nil, ← List.append_assoc] at hb
      exact h b hb
    simp only [Udp.step, call, flushSend] at hs
    split_ifs at hs <;> simp only [Res.state?_ok, Res.state?_throw, Option.some.injEq] at hs <;>
      subst hs
    · exact ⟨h, List.Subset.refl _⟩
    · exact ⟨h, List.Subset.refl _⟩
    · exact ⟨hmoved, List.Subset.refl _⟩
    · exact ⟨hmoved, List.Subset.refl _⟩
  | writeBlock id data =>
    simp only [Udp.step, call, Res.state?_ok, Option.some.injEq] at hs
    exact hsame (hs ▸ ⟨⟨rfl, rfl, rfl⟩, rfl, rfl, rfl⟩)
  | senddata evt outs eventAdd =>
    rw [senddata_state hs]
    split
    · obtain ⟨hq, hmem⟩ := sendLoop_mem outs s
      refine ⟨fun b hb => ?_, hq.queued ▸ List.Subset.refl _⟩
      rw [hq.queued]
      rw [outgoing, hq.sendbuf, List.mem_append] at hb
      exact h b (List.mem_append.mpr (hb.imp_left (hmem b)))
    · exact ⟨h, List.Subset.refl _⟩
  | recvdata evt outs =>
    simp only [Udp.step, call, Res.state?_ok, Option.some.injEq] at hs
    unfold recvdata at hs
    split_ifs at hs
    · exact hsame (hs ▸ ⟨⟨rfl, rfl, rfl⟩, rfl, rfl, rfl⟩)
    · exact hs ▸ ⟨h, List.Subset.refl _⟩
    · exact hsame (hs ▸ recvLoop_sameTx outs s)

end Transmit

/-! ### What the driver is told -/

/-- The simulator has sent the message to the driver. -/
def Said.To (drv : SockAddr) (said : List (SockAddr × Said)) (m : Msg) : Prop :=
  ∃ x, (drv, x) ∈ said ∧ x.msg = m

/-- The receive side while the datagrams of the simulator are what it said. -/
structure Told (ep : SockAddr) (rx : Finset UInt16) (told : Msg → Prop) (s : PscUdp E) : Prop
    extends RxInv ep rx s where
  big : 1024 ≤ s.rxscratch.length
  blocks : ∀ id b, s.recvBlocks id = some b → b.data.mem = [] ∨ told (id, b.data.mem)
  stored : ∀ id body, .store id body ∈ s.rxlog → told (id, body)

/-- A datagram of the message `m`. -/
theorem msgBytes_fields (m : Msg) (hlt : m.2.length < 2 ^ 32) :
    isPS (msgBytes m) = true ∧ msgidOf (msgBytes m) = m.1 ∧
      (bodylenOf (msgBytes m)).toNat = m.2.length ∧ bodyAt (msgBytes m) m.2.length = m.2 := by
  refine ⟨isPS_header .., msgidOf_header .., ?_, ?_⟩
  · rw [msgBytes, bodylenOf_header, UInt32.toNat_ofNat', Nat.mod_eq_of_lt hlt]
  · rw [bodyAt, msgBytes, List.drop_left' (length_header ..), List.take_length]

section Receive

variable {ep : SockAddr} {rx : Finset UInt16} {told : Msg → Prop} {s t : PscUdp E}

theorem Told.mono {told' : Msg → Prop} (h : Told ep rx told s) (hmore : ∀ m, told m → told' m) :
    Told ep rx told' s :=
  { h with
    blocks := fun id b hb => (h.blocks id b hb).imp_right (hmore _)
    stored := fun id body hmem => hmore _ (h.stored id body hmem) }

/-- STEP: a datagram that comes from the simulator is one of the messages told. -/
theorem recvPacket_told (h : Told ep rx told s) {d : Datagram} (env : RxEnv)
    (hd : d.src = ep → ∃ m, told m ∧ (msgBytes m).length < 2 ^ 16 ∧ d.payload = msgBytes m) :
    Told ep rx told (recvPacket s d env) := by
  have hsize := h.size
  have hbig := h.big
  have hinv := recvPacket_inv h.toRxInv d env
  have hturn := recvPacket_turn s d env (by omega)
  -- the message that a datagram of the peer is
  have hmsg : FromPeer s d → ∃ m, told m ∧ m.2.length + 8 < 2 ^ 16 ∧ d.payload = msgBytes m ∧
      isPS d.payload = true ∧ msgidOf d.payload = m.1 ∧
      (bodylenOf d.payload).toNat = m.2.length ∧ bodyAt d.payload m.2.length = m.2 := by
    intro hpeer
    obtain ⟨m, htold, hshort, hpay⟩ := hd (hpeer.src.trans h.ep)
    have hlen : m.2.length + 8 < 2 ^ 16 := by
      rwa [msgBytes, List.length_append, length_header, Nat.add_comm] at hshort
    obtain ⟨hps, hid, hbl, hbody⟩ := msgBytes_fields m (by omega)
    exact ⟨m, htold, hlen, hpay, hpay ▸ hps, hpay ▸ hid, hpay ▸ hbl, hpay ▸ hbody⟩
  have hlog : ∀ evs, (∀ id body, RxEv.store id body ∈ evs → told (id, body)) →
      ∀ id body, .store id body ∈ s.rxlog ++ evs → told (id, body) :=
    fun evs hevs id body hmem => (List.mem_append.mp hmem).elim (h.stored id body) (hevs id body)
  have hstore : 1024 ≤ (store s.rxscratch d.payload).length := by rwa [length_store]
  generalize recvPacket s d env = t at hinv hturn ⊢
  cases hturn with
  | ignored | small | corrupt | unknown =>
    exact ⟨hinv, hstore, h.blocks, hlog _ fun _ _ hev => by simp at hev⟩
  | truncated peer ps long =>
    obtain ⟨m, -, hlen, -, -, -, hbl, -⟩ := hmsg peer
    refine ⟨hinv, ?_, h.blocks, hlog _ fun _ _ hev => by simp at hev⟩
    change 1024 ≤ (resize _ _).length
    have h8 : (8 : UInt32).toNat = 8 := rfl
    rw [length_resize, UInt32.toNat_add, h8, hbl]
    omega
  | delivered peer ps fits known =>
    obtain ⟨m, htold, -, hpay, -, hid, hbl, hbody⟩ := hmsg peer
    rw [hbl] at fits
    have hlen : d.payload.length = 8 + m.2.length := by
      rw [hpay, msgBytes, List.length_append, length_header]
    have hown : bodyAt (store s.rxscratch d.payload) (bodylenOf d.payload).toNat = m.2 := by
      rw [hbl, bodyAt_store (Nat.le_of_eq hlen.symm) (by omega), hbody]
    refine ⟨hinv, hstore, fun id b hb => ?_, hlog _ fun id body hev => ?_⟩
    · rw [hown, hid] at hb
      dsimp only at hb
      by_cases hself : id = m.1
      · subst hself
        rw [hid] at known
        obtain ⟨b', hb'⟩ := Option.isSome_iff_exists.mp known
        rw [BlockMap.modify_some _ hb', Option.some.injEq] at hb
        rw [← hb, Block.requestScan_data, DBuffer.mem_assign]
        exact .inr htold
      · rw [BlockMap.modify_ne _ _ hself] at hb
        exact h.blocks id b hb
    · rw [hown, hid] at hev
      obtain ⟨rfl, rfl⟩ := mem_delivery hev
      exact htold

/-- After one copy of a message there is room for the next one, which is delivered. -/
theorem Told.second (h : Told ep rx told s) {m : Msg} (hknown : (s.recvBlocks m.1).isSome = true)
    (hlen : (msgBytes m).length < 2 ^ 16) (env env' : RxEnv) :
    Delivered m (recvPacket s ⟨ep, msgBytes m⟩ env)
      (recvPacket (recvPacket s ⟨ep, msgBytes m⟩ env) ⟨ep, msgBytes m⟩ env') := by
  have hsize := h.size
  have hbig := h.big
  have hpay : (msgBytes m).length = 8 + m.2.length := by
    rw [msgBytes, List.length_append, length_header]
  have hlt : m.2.length < 2 ^ 32 := by omega
  obtain ⟨hps, hid, hbl, -⟩ := msgBytes_fields m hlt
  have hinv := recvPacket_inv h.toRxInv ⟨ep, msgBytes m⟩ env
  have hroom : 8 + m.2.length ≤ (recvPacket s ⟨ep, msgBytes m⟩ env).rxscratch.length := by
    have hturn := recvPacket_turn s ⟨ep, msgBytes m⟩ env (by omega)
    generalize recvPacket s ⟨ep, msgBytes m⟩ env = t at hturn ⊢
    cases hturn with
    | ignored src => exact absurd h.ep.symm src
    | small src short =>
      rw [hpay] at short
      omega
    | corrupt peer ps =>
      rw [hps] at ps
      cases ps
    | truncated peer ps long =>
      change _ ≤ (resize _ _).length
      have h8 : (8 : UInt32).toNat = 8 := rfl
      rw [length_resize, UInt32.toNat_add, h8, hbl]
      omega
    | delivered peer ps fits known =>
      rw [hbl] at fits
      change _ ≤ (store _ _).length
      rw [length_store]
      omega
    | unknown peer ps fits known =>
      rw [hbl] at fits
      change _ ≤ (store _ _).length
      rw [length_store]
      omega
  have hknown' : ((recvPacket s ⟨ep, msgBytes m⟩ env).recvBlocks m.1).isSome = true :=
    (hinv.known m.1).mpr ((h.known m.1).mp hknown)
  generalize recvPacket s ⟨ep, msgBytes m⟩ env = u at hinv hroom hknown' ⊢
  have hsize' := hinv.size
  have hframe := recvPacket_frame ⟨m.1, m.2, hlt⟩ env' (by omega) hknown' hroom
  have hbytes : (⟨m.1, m.2, hlt⟩ : Frame).bytes = msgBytes m := rfl
  rw [hinv.ep, hbytes] at hframe
  obtain ⟨b, hb⟩ := Option.isSome_iff_exists.mp hknown'
  rw [hframe]
  refine ⟨rfl, ⟨_, BlockMap.modify_some _ hb, ?_⟩, fun k hk => BlockMap.modify_ne _ _ hk⟩
  rw [Block.requestScan_data, DBuffer.mem_assign]

end Receive

/-! ### What the simulator says -/

/-- The driver is answered for messages that were queued only. -/
structure Fair (drv : SockAddr) (queued : List Msg) (p : UdpProto) : Prop where
  sent : p.sent = p.said.map fun x => (x.1, msgBytes x.2.msg)
  answers : ∀ m now, (drv, Said.answer m now) ∈ p.said → m ∈ queued

section Simulator

variable {drv : SockAddr} {queued : List Msg} {p : UdpProto}

theorem Fair.sendto (h : Fair drv queued p) {x : Said} {addr : SockAddr}
    (hx : ∀ m now, addr = drv → x = .answer m now → m ∈ queued) :
    Fair drv queued (p.sendto x addr) := by
  refine ⟨?_, fun m now hmem => ?_⟩
  · change p.sent ++ _ = (p.said ++ _).map _
    rw [h.sent, List.map_append]
    rfl
  · rcases List.mem_append.mp hmem with hmem | hmem
    · exact h.answers m now hmem
    · obtain ⟨hdrv, hans⟩ := Prod.mk.inj (List.mem_singleton.mp hmem)
      exact hx m now hdrv.symm hans.symm

theorem Fair.greet (h : Fair drv queued p) (addr : SockAddr) : Fair drv queued (p.greet addr) := by
  unfold UdpProto.greet
  split
  · have hpeer : Fair drv queued { p with peer := some addr } := ⟨h.sent, h.answers⟩
    exact (hpeer.sendto fun _ _ _ hx => by cases hx).sendto fun _ _ _ hx => by cases hx
  · exact h

/-- STEP (simulator): a datagram of the driver is one of its messages, and is answered as such. -/
theorem Fair.datagramReceived (h : Fair drv queued p) {data : List UInt8} {src : SockAddr}
    (now : Time) (hdata : src = drv → ∃ f : Frame, f.msg ∈ queued ∧ f.bytes = data) :
    Fair drv queued (p.datagramReceived data src now) := by
  unfold UdpProto.datagramReceived
  split
  · exact h
  split
  · exact h
  dsimp only
  split
  · refine (h.greet src).sendto fun m now' hsrc hans => ?_
    obtain ⟨f, hf, rfl⟩ := hdata hsrc
    obtain ⟨-, hid, hbl, hbody⟩ := msgBytes_fields f.msg f.body_lt
    obtain ⟨rfl, -⟩ := Said.answer.inj hans
    have hsame : (msgidOf f.bytes, (f.bytes.drop headerSize).take (bodylenOf f.bytes).toNat) =
        f.msg := by
      refine Prod.ext hid ?_
      change bodyAt f.bytes (bodylenOf f.bytes).toNat = f.body
      rw [show (bodylenOf f.bytes).toNat = f.body.length from hbl]
      exact hbody
    rwa [hsame]
  · exact h.greet src

/-- What was said stays said. -/
theorem said_datagramReceived (p : UdpProto) (data : List UInt8) (src : SockAddr) (now : Time) :
    p.said ⊆ (p.datagramReceived data src now).said := by
  have hgreet : p.said ⊆ (p.greet src).said := by
    unfold UdpProto.greet
    split
    · exact List.Subset.trans (List.subset_append_left _ _) (List.subset_append_left _ _)
    · exact List.Subset.refl _
  unfold UdpProto.datagramReceived
  split
  · exact List.Subset.refl _
  split
  · exact List.Subset.refl _
  dsimp only
  split
  · exact List.Subset.trans hgreet (List.subset_append_left _ _)
  · exact hgreet

end Simulator

/-! ### Runs -/

/-- The driver and the simulator fit together. -/
structure Inv (drv ep : SockAddr) (rx : Finset UInt16) (s : Sys E) : Prop where
  posted : Posted s.psc
  told : Told ep rx (Said.To drv s.sim.said) s.psc
  fair : Fair drv s.psc.queued s.sim

section Steps

variable {drv ep : SockAddr} {rx : Finset UInt16} {s t : Sys E}

/-- STEP: the system goes on. -/
theorem inv_step {a : Act E} (h : Inv drv ep rx s) (hs : step drv s a = some t) :
    Inv drv ep rx t := by
  cases a with
  | driver op =>
    simp only [step] at hs
    split_ifs at hs with hfrom
    obtain ⟨psc, hpsc, rfl⟩ := Option.map_eq_some_iff.mp hs
    obtain ⟨hposted, hmore⟩ := posted_step h.posted hpsc
    refine ⟨hposted, ?_, h.fair.sent, fun m now hmem => hmore (h.fair.answers m now hmem)⟩
    obtain ⟨u, hu, hsame⟩ := step_packets hpsc
    have hpackets : Along packetStep (fun _ p => p.1.src = ep → ∃ m, Said.To drv s.sim.said m ∧
        (msgBytes m).length < 2 ^ 16 ∧ p.1.payload = msgBytes m) s.psc (packetsOf op) := by
      refine along_of_mem fun p hp hsrc => ?_
      obtain ⟨hlen, hsent⟩ := hfrom p hp
      have hmem := hsent (hsrc.trans h.told.ep.symm)
      rw [h.fair.sent, List.mem_map] at hmem
      obtain ⟨⟨addr, x⟩, hx, heq⟩ := hmem
      obtain ⟨rfl, hpay⟩ := Prod.mk.inj heq
      exact ⟨x.msg, ⟨x, hx, rfl⟩, hpay ▸ hlen, hpay.symm⟩
    have htold := inv_exec (I := Told ep rx (Said.To drv s.sim.said))
      (fun v p w hv hp hw => by
        cases hw
        exact recvPacket_told hv p.2 hp) h.told hpackets hu
    exact ⟨hsame.inv htold.toRxInv, by rw [hsame.rxscratch]; exact htold.big,
      by rw [hsame.recvBlocks]; exact htold.blocks, by rw [hsame.rxlog]; exact htold.stored⟩
  | sim src data now =>
    simp only [step] at hs
    split_ifs at hs with hdata
    cases hs
    refine ⟨h.posted, h.told.mono fun m hm => ?_, h.fair.datagramReceived now fun hsrc => ?_⟩
    · obtain ⟨x, hx, rfl⟩ := hm
      exact ⟨x, said_datagramReceived s.sim data src now hx, rfl⟩
    · refine h.posted data ?_
      rw [outgoing, List.append_assoc]
      exact List.mem_append_left _ (hdata hsrc)

theorem inv_init (tx : Finset UInt16) : Inv drv ep rx (Sys.init ep tx rx : Sys E) where
  posted := nofun
  told := by
    refine ⟨rxInv_init ep tx rx, Nat.le_of_eq List.length_replicate.symm, fun id b hb => ?_, nofun⟩
    change BlockMap.registered rx id = some b at hb
    unfold BlockMap.registered at hb
    obtain ⟨-, hnew⟩ := Option.ite_none_right_eq_some.mp hb
    cases hnew
    exact .inl rfl
  fair := ⟨rfl, nofun⟩

theorem Inv.genuine (h : Inv drv ep rx s) : Genuine drv s where
  blocks := h.told.blocks
  stored := h.told.stored
  answers := h.fair.answers
  second m hknown hlen env env' := by
    rw [h.told.ep]
    exact h.told.second hknown hlen env env'

end Steps

/-- GENUINE: whatever the network loses, doubles and puts out of order, and whatever others send to
    the driver and to the simulator, a block of the driver holds the body of a message that the
    simulator has sent to it: a hello, or the answer to a message that was queued for it. And a
    message that is too long for the buffer gets through when it comes again. -/
theorem datagrams_genuine (drv ep : SockAddr) (tx rx : Finset UInt16) (acts : List (Act E)) :
    Always (step drv) (Genuine drv) (Sys.init ep tx rx) acts :=
  always_of_step (I := Inv drv ep rx) (fun _ _ _ h hs => inv_step h hs) (fun _ h => h.genuine)
    (inv_init tx)

end Pscdrv.Datagrams
