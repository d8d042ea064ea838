import Pscdrv.Fast.Pool

/-! # The packets `UDPFast` accepts

    Every datagram gets a verdict, and becomes a packet if it is accepted. What the receive worker
    believes of the length of a packet, the cache worker relies on when it writes it. Three lengths
    meet: what the header claims, what was received, and what the buffer holds; the comparison of
    the first two is the wrong way round.

        buffer  :  ├──────── received ────────┼──── left over ────┤
        claimed :  ├─ ignored ─┤              ├─ accepted … -/

namespace Pscdrv.Fast

open Libevent Memory Run

variable {E : Type} [Libevent E]

/-! ### Verdicts -/

/-- The verdict of the receive worker. -/
def verdict (peer : SockAddr) (size : ℕ) (d : Dgram) : RxVerdict := ⟨d, size, accepts peer d size⟩

theorem accepts_iff {peer : SockAddr} {d : Dgram} {size : ℕ} :
    accepts peer d size = true ↔ d.src = peer ∧ 8 ≤ msgLen d size ∧ isPS d.payload = true ∧
      msgLen d size - 8 ≤ (bodylenOf d.payload).toNat := by
  unfold accepts
  split
  · rename_i hsrc
    exact ⟨nofun, fun h => absurd h.1 hsrc⟩
  split
  · rename_i hshort
    exact ⟨nofun, fun h => absurd h.2.1 (by omega)⟩
  split
  · rename_i hps
    refine ⟨nofun, fun h => ?_⟩
    rw [h.2.2.1] at hps
    cases hps
  split
  · rename_i hlen
    exact ⟨nofun, fun h => absurd h.2.2.2 (by omega)⟩
  rename_i hsrc hshort hps hlen
  exact ⟨fun _ => ⟨not_not.mp hsrc, by omega, by simpa using hps, by omega⟩, fun _ => rfl⟩

/-- The packet is made of the datagram: its id, the length it claims, and what was received of its
    body, in a buffer of the size it was received in. -/
structure Carries (p : Pkt) (r : RxVerdict) : Prop where
  msgid : p.msgid = msgidOf r.dgram.payload
  bodylen : p.bodylen = (bodylenOf r.dgram.payload).toNat
  size : p.body.bytes.length = r.size
  bytes : p.body.bytes.take (msgLen r.dgram r.size - 8) =
    (r.dgram.payload.drop 8).take (msgLen r.dgram r.size - 8)

/-- What the steps of a batch do to the records of it. -/
structure Received (peer : SockAddr) (size : ℕ) (s : UdpFast E) (ds : List Dgram) (t : UdpFast E)
    (pkts : List Pkt) : Prop where
  pending : t.pending = s.pending ++ pkts
  accepted : t.accepted = s.accepted ++ pkts
  rxlog : t.rxlog = s.rxlog ++ ds.map (verdict peer size)
  nignore : t.nignore =
    s.nignore + UInt64.ofNat ((ds.map (verdict peer size)).countP fun r => !r.pushed)
  carries : List.Forall₂ Carries pkts ((ds.map (verdict peer size)).filter RxVerdict.pushed)

/-- STEP: a datagram is pushed, or it is ignored and counted. -/
theorem rxPacket_received (peer : SockAddr) (now : EpicsTimeStamp) (s : UdpFast E) (b : Buffer)
    (d : Dgram) : ∃ pkts,
      Received peer b.bytes.length s [d] (rxPacket peer now s b d).1 pkts := by
  unfold rxPacket
  rw [countDrops_eq]
  cases ha : accepts peer d b.bytes.length with
  | true =>
    refine ⟨[⟨some ⟨b.id, store b.bytes (d.payload.drop 8)⟩, (bodylenOf d.payload).toNat, now,
      msgidOf d.payload⟩], rfl, rfl, ?_, ?_, ?_⟩
    · simp [verdict, ha]
    · simp [verdict, ha]
    · simp only [List.map_cons, List.map_nil, verdict, ha, List.filter_cons_of_pos,
        List.filter_nil]
      refine .cons ⟨rfl, rfl, length_store _ _, ?_⟩ .nil
      have h8 : 8 ≤ msgLen d b.bytes.length := (accepts_iff.mp ha).2.1
      have hlen : msgLen d b.bytes.length ≤ d.payload.length := Nat.min_le_left _ _
      have hcap : msgLen d b.bytes.length ≤ 8 + b.bytes.length := Nat.min_le_right _ _
      exact take_store (by rw [List.length_drop]; dsimp only; omega) (by dsimp only; omega)
  | false => exact ⟨[], by simp, by simp, by simp [verdict, ha], by simp [verdict, ha],
      by simp [verdict, ha]⟩

theorem Received.trans {peer : SockAddr} {size : ℕ} {s t u : UdpFast E} {d e : List Dgram}
    {p q : List Pkt} (h : Received peer size s d t p) (k : Received peer size t e u q) :
    Received peer size s (d ++ e) u (p ++ q) := by
  refine ⟨?_, ?_, ?_, ?_, ?_⟩
  · rw [k.pending, h.pending, List.append_assoc]
  · rw [k.accepted, h.accepted, List.append_assoc]
  · rw [k.rxlog, h.rxlog, List.map_append, List.append_assoc]
  · rw [k.nignore, h.nignore, List.map_append, List.countP_append, UInt64.ofNat_add,
      UInt64.add_assoc]
  · rw [List.map_append, List.filter_append]
    exact List.rel_append h.carries k.carries

/-- LOOP: as long as there is a message with a buffer for it, every datagram is processed. -/
theorem rxBatch_received (peer : SockAddr) (now : EpicsTimeStamp) (size : ℕ) (msgs : List Vec) :
    ∀ (s : UdpFast E) (ds : List Dgram), ds.length ≤ msgs.length →
      Full (msgs.take ds.length) → Sized size (tags msgs) →
      ∃ pkts, Received peer size s ds (rxBatch peer now s msgs ds).1 pkts := by
  have hnone : ∀ s : UdpFast E, Received peer size s [] s [] := fun s =>
    ⟨by simp, by simp, by simp, by simp, .nil⟩
  induction msgs with
  | nil =>
    intro s ds hlen _ _
    rw [List.eq_nil_of_length_eq_zero (Nat.le_zero.mp hlen)]
    exact ⟨[], hnone s⟩
  | cons v msgs ih =>
    intro s ds hlen hfull hsize
    cases ds with
    | nil =>
      refine ⟨[], ?_⟩
      cases v <;> exact hnone s
    | cons d ds =>
      rw [List.length_cons, List.take_succ_cons] at hfull
      obtain ⟨hv, hrest⟩ := full_cons.mp hfull
      obtain ⟨b, rfl⟩ := Option.isSome_iff_exists.mp hv
      have hb : b.bytes.length = size := hsize _ (mem_tags List.mem_cons_self)
      rw [tags_some] at hsize
      obtain ⟨p, hp⟩ := rxPacket_received peer now s b d
      obtain ⟨q, hq⟩ := ih (rxPacket peer now s b d).1 ds (Nat.le_of_succ_le_succ hlen) hrest
        (hsize.mono (Multiset.le_add_left _ _))
      exact ⟨p ++ q, (hb ▸ hp).trans hq⟩

section Receive

variable {cfg : Config} {s : UdpFast E}

/-- The way to the next unlock changes nothing that is recorded of packets. -/
theorem rxTop_frame (s : UdpFast E) : rxTop s = { s with
    noom := (rxTop s).noom, vpool := (rxTop s).vpool, rx := (rxTop s).rx
    msgs := (rxTop s).msgs, failed := (rxTop s).failed } := by
  unfold rxTop
  split
  · rfl
  · split <;> rfl

/-- Reception changes what belongs to the receive worker, and `pending`. -/
theorem rxRecv_frame (cfg : Config) (s : UdpFast E) (n : ℕ) (ret : RecvMmsg)
    (now : EpicsTimeStamp) : ∃ t : UdpFast E, rxRecv cfg s n ret now = { s with
      rxcnt := s.rxcnt + UInt64.ofNat (received n ret).length
      ntimeout := t.ntimeout, ndrops := t.ndrops, nignore := t.nignore, noom := t.noom
      netrx := t.netrx, vpool := t.vpool, pending := t.pending, rx := t.rx, msgs := t.msgs
      notifycache := t.notifycache, prevndrops := t.prevndrops, failed := t.failed
      rxlog := t.rxlog, accepted := t.accepted } := by
  refine ⟨rxRecv cfg s n ret now, ?_⟩
  unfold rxRecv
  dsimp only
  rw [countRecv_eq, rxTop_frame, rxBatch_only]

/-- STEP: all datagrams of the answer are processed, since the messages for them have buffers. -/
theorem rxRecv_received (hp : PoolInv cfg s) {n : ℕ} (hrx : s.rx = .recv n) (ret : RecvMmsg)
    (now : EpicsTimeStamp) : ∃ pkts,
      Received cfg.peer cfg.maxpktlen s (received n ret) (rxRecv cfg s n ret now) pkts := by
  obtain ⟨hle, hfull⟩ := hp.assigned
  rw [hrx] at hle hfull
  have hlen : (received n ret).length ≤ n := by
    cases ret with
    | msgs ds => exact List.length_take_le n ds
    | timeout | error => exact Nat.zero_le n
  have hsize : Sized cfg.maxpktlen (tags s.msgs) := by
    refine hp.sized.mono ?_
    unfold places
    simp only [add_assoc]
    exact (Multiset.le_add_right _ _).trans (Multiset.le_add_left _ _)
  have hmsgs : Full (s.msgs.take (received n ret).length) := fun v hv =>
    hfull v (List.take_subset_take_left s.msgs hlen hv)
  have hroom : (received n ret).length ≤ s.msgs.length :=
    hlen.trans (hle.trans hp.width.symm.le)
  unfold rxRecv
  rw [countRecv_eq]
  dsimp only
  obtain ⟨pkts, h⟩ := rxBatch_received cfg.peer now cfg.maxpktlen s.msgs { s with
    ntimeout := (countRecv s n ret).ntimeout
    rxcnt := s.rxcnt + UInt64.ofNat (received n ret).length } (received n ret) hroom hmsgs hsize
  refine ⟨pkts, ?_⟩
  rw [rxTop_frame]
  exact ⟨h.pending, h.accepted, h.rxlog, h.nignore, h.carries⟩

end Receive

/-! ### The other steps -/

/-- The packets that wait for the cache worker, that it works on, and that it keeps. -/
def held (s : UdpFast E) : List Pkt := s.pending ++ s.inprog ++ s.shortBuf

/-- Nothing was received: the records of datagrams are the same, and no packet has come up but the
    empty ones that `swap_ranges()` leaves behind. -/
structure Kept (s t : UdpFast E) : Prop where
  rxcnt : t.rxcnt = s.rxcnt
  nignore : t.nignore = s.nignore
  rxlog : t.rxlog = s.rxlog
  accepted : t.accepted = s.accepted
  held : ∀ p ∈ held t, p ∈ held s ∨ p = .new

theorem mem_held {s : UdpFast E} {p : Pkt} :
    p ∈ held s ↔ p ∈ s.pending ∨ p ∈ s.inprog ∨ p ∈ s.shortBuf := by
  simp [held]

def Action.receives : Action → Bool
  | .rxRecv _ _ => true
  | _ => false

/-- Only reception makes packets. -/
theorem step_kept {cfg : Config} {s t : UdpFast E} {a : Action} (ha : a.receives = false)
    (hs : step cfg s a = some t) : Kept s t := by
  have hsame : ∀ p ∈ held s, p ∈ held s ∨ p = .new := fun _ => .inl
  cases step_cases hs with
  | rxRecv => cases ha
  | rxTop =>
    rw [rxTop_frame]
    exact ⟨rfl, rfl, rfl, rfl, hsame⟩
  | cacheReturn =>
    refine ⟨rfl, rfl, rfl, rfl, fun p hp => .inl ?_⟩
    rw [mem_held] at hp ⊢
    exact hp.imp_right fun hp => .inr (hp.resolve_left List.not_mem_nil)
  | cacheSwap =>
    refine ⟨rfl, rfl, rfl, rfl, fun p hp => .inl ?_⟩
    rw [mem_held] at hp ⊢
    exact or_left_comm.mp hp
  | cacheShort =>
    refine ⟨rfl, rfl, rfl, rfl, fun p hp => ?_⟩
    rw [mem_held] at hp ⊢
    rcases hp with hp | hp | hp
    · exact .inl (.inl hp)
    · rcases List.mem_append.mp hp with hp | hp
      · exact .inr (List.eq_of_mem_replicate hp)
      · exact .inl (.inr (.inl (List.mem_of_mem_drop hp)))
    · rcases List.mem_append.mp hp with hp | hp
      · exact .inl (.inr (.inr hp))
      · exact .inl (.inr (.inl (List.mem_of_mem_take hp)))
  | cacheDispatch | cacheRotate | cacheOpen | cacheWrite | cacheFinish | setFile =>
    rw [(step_quiet rfl hs).frame]
    exact ⟨rfl, rfl, rfl, rfl, hsame⟩
  | clearSwap =>
    refine ⟨rfl, rfl, rfl, rfl, fun p hp => .inl ?_⟩
    rw [mem_held] at hp ⊢
    exact hp.imp_right fun hp => .inl (hp.resolve_right List.not_mem_nil)
  | readShortbuf =>
    unfold readShortbuf
    split <;> exact ⟨rfl, rfl, rfl, rfl, hsame⟩
  | rxWake | rxNotify | cacheSignal | cacheWake | clearReturn | reopen | setRecord | stop =>
    exact ⟨rfl, rfl, rfl, rfl, hsame⟩

/-! ### Every datagram is counted once -/

/-- The counts agree with the verdicts, and the accepted packets are made of the accepted datagrams,
    in the order of their arrival. -/
structure Journal (s : UdpFast E) : Prop where
  rxcnt : s.rxcnt = UInt64.ofNat s.rxlog.length
  nignore : s.nignore = UInt64.ofNat (s.rxlog.countP fun r => !r.pushed)
  carries : List.Forall₂ Carries s.accepted (s.rxlog.filter RxVerdict.pushed)

theorem Journal.congr {s t : UdpFast E} (h : Journal s) (k : Kept s t) : Journal t := by
  refine ⟨?_, ?_, ?_⟩
  · rw [k.rxcnt, k.rxlog, h.rxcnt]
  · rw [k.nignore, k.rxlog, h.nignore]
  · rw [k.accepted, k.rxlog]
    exact h.carries

/-- STEP: a batch is counted and recorded. -/
theorem Journal.received {s t : UdpFast E} {peer : SockAddr} {size : ℕ} {ds : List Dgram}
    {pkts : List Pkt} (h : Journal s) (hr : Received peer size s ds t pkts)
    (hcnt : t.rxcnt = s.rxcnt + UInt64.ofNat ds.length) : Journal t := by
  refine ⟨?_, ?_, ?_⟩
  · rw [hcnt, hr.rxlog, List.length_append, List.length_map, UInt64.ofNat_add, h.rxcnt]
  · rw [hr.nignore, hr.rxlog, List.countP_append, UInt64.ofNat_add, h.nignore]
  · rw [hr.accepted, hr.rxlog, List.filter_append]
    exact List.rel_append h.carries hr.carries

/-- What was received was ignored or accepted. -/
theorem Journal.total {s : UdpFast E} (h : Journal s) :
    s.rxcnt = s.nignore + UInt64.ofNat s.accepted.length := by
  have hcount : s.rxlog.length =
      (s.rxlog.countP fun r => !r.pushed) + s.accepted.length := by
    rw [h.carries.length_eq, ← List.countP_eq_length_filter, Nat.add_comm]
    simpa using s.rxlog.length_eq_countP_add_countP RxVerdict.pushed
  rw [h.rxcnt, h.nignore, hcount, UInt64.ofNat_add]

/-! ### Complete packets -/

/-- The datagram comes from the peer and has a whole header, which starts with `PS` and announces
    as many body bytes as were received. -/
structure IsComplete (peer : SockAddr) (r : RxVerdict) : Prop where
  src : r.dgram.src = peer
  header : 8 ≤ msgLen r.dgram r.size
  ps : isPS r.dgram.payload = true
  body : (bodylenOf r.dgram.payload).toNat = msgLen r.dgram r.size - 8

instance (peer : SockAddr) : DecidablePred (IsComplete peer) := fun r =>
  decidable_of_iff (r.dgram.src = peer ∧ 8 ≤ msgLen r.dgram r.size ∧
      isPS r.dgram.payload = true ∧ (bodylenOf r.dgram.payload).toNat = msgLen r.dgram r.size - 8)
    ⟨fun ⟨hsrc, hheader, hps, hbody⟩ => ⟨hsrc, hheader, hps, hbody⟩,
      fun h => ⟨h.src, h.header, h.ps, h.body⟩⟩

/-- A message of the peer whose header announces more body bytes than were received of it, in a
    buffer of the pool. -/
structure Overclaims (cfg : Config) (d : Dgram) : Prop where
  src : d.src = cfg.peer
  header : 8 ≤ msgLen d cfg.maxpktlen
  ps : isPS d.payload = true
  body : msgLen d cfg.maxpktlen - 8 < (bodylenOf d.payload).toNat

/-- No datagram of the batch announces more than was received of it. -/
def NoOverclaim (cfg : Config) (s : UdpFast E) : Action → Prop
  | .rxRecv ret _ => ∀ n, s.rx = .recv n → ∀ d ∈ received n ret, ¬ Overclaims cfg d
  | _ => True

/-- From the state `s` to `t`, the complete ones of the datagrams are pushed, in their order, and
    the number of the others is added to `nignore`. -/
def PushedComplete (cfg : Config) (s : UdpFast E) (ds : List Dgram) (t : UdpFast E) : Prop :=
  let rs := ds.map (verdict cfg.peer cfg.maxpktlen)
  (∃ pkts, t.pending = s.pending ++ pkts ∧
    List.Forall₂ Carries pkts (rs.filter (IsComplete cfg.peer))) ∧
  t.nignore = s.nignore + UInt64.ofNat (rs.countP fun r => ¬ IsComplete cfg.peer r)

/-- Every batch leads to a state that has its complete datagrams. -/
def PushesComplete (cfg : Config) (s : UdpFast E) : Action → Prop
  | .rxRecv ret now => ∀ n, s.rx = .recv n →
    PushedComplete cfg s (received n ret) (rxRecv cfg s n ret now)
  | _ => True

structure Complete (cfg : Config) (s : UdpFast E) : Prop extends Journal s where
  pushed : ∀ r ∈ s.rxlog, r.pushed = true ↔ IsComplete cfg.peer r
  bodylen : ∀ p ∈ held s, p.bodylen ≤ p.body.bytes.length
  inside : ∀ v ∈ s.inprog.flatMap iovecs, v.len ≤ v.base.length

/-- A packet that is as long as it says is written from its own buffer. -/
theorem iovecs_inside {p : Pkt} (h : p.bodylen ≤ p.body.bytes.length) :
    ∀ v ∈ iovecs p, v.len ≤ v.base.length := by
  intro v hv
  simp only [iovecs, List.mem_cons, List.not_mem_nil, or_false] at hv
  rcases hv with rfl | rfl
  · simp [fileHeader]
  · exact h

theorem carried {pkts : List Pkt} {rs : List RxVerdict} (h : List.Forall₂ Carries pkts rs) {p : Pkt}
    (hp : p ∈ pkts) : ∃ r ∈ rs, Carries p r := by
  induction h with
  | nil => cases hp
  | cons hc _ ih =>
    rcases List.mem_cons.mp hp with rfl | hp
    · exact ⟨_, List.mem_cons_self, hc⟩
    · obtain ⟨r, hr, hc⟩ := ih hp
      exact ⟨r, List.mem_cons_of_mem _ hr, hc⟩

section Steps

variable {cfg : Config} {s t : UdpFast E}

/-- Every complete datagram is pushed. -/
theorem complete_pushed {d : Dgram}
    (h : IsComplete cfg.peer (verdict cfg.peer cfg.maxpktlen d)) :
    (verdict cfg.peer cfg.maxpktlen d).pushed = true :=
  accepts_iff.mpr ⟨h.src, h.header, h.ps, h.body.symm.le⟩

/-- The reversed comparison is right about datagrams that do not claim too much. -/
theorem verdict_complete {d : Dgram} (h : ¬ Overclaims cfg d) :
    (verdict cfg.peer cfg.maxpktlen d).pushed = true ↔
      IsComplete cfg.peer (verdict cfg.peer cfg.maxpktlen d) := by
  constructor
  · intro hpush
    obtain ⟨hsrc, h8, hps, hlen⟩ := accepts_iff.mp hpush
    refine ⟨hsrc, h8, hps, Nat.le_antisymm ?_ hlen⟩
    by_contra hmore
    exact h ⟨hsrc, h8, hps, Nat.lt_of_not_le hmore⟩
  · exact complete_pushed

/-- It lets those pass that do. -/
theorem overclaims_pushed {d : Dgram} (h : Overclaims cfg d) :
    (verdict cfg.peer cfg.maxpktlen d).pushed = true ∧
      ¬ IsComplete cfg.peer (verdict cfg.peer cfg.maxpktlen d) := by
  refine ⟨accepts_iff.mpr ⟨h.src, h.header, h.ps, h.body.le⟩, fun hc => ?_⟩
  have hbody := hc.body
  have hmore := h.body
  dsimp only [verdict] at hbody
  omega

/-- A packet made of a complete datagram is as long as it says. -/
theorem Carries.bodylen_le {peer : SockAddr} {p : Pkt} {r : RxVerdict} (h : Carries p r)
    (hc : IsComplete peer r) : p.bodylen ≤ p.body.bytes.length := by
  have hcap : msgLen r.dgram r.size ≤ 8 + r.size := Nat.min_le_right _ _
  rw [h.bodylen, h.size, hc.body]
  omega

theorem Complete.kept (h : Complete cfg s) (k : Kept s t) : Complete cfg t := by
  have hlen : ∀ p ∈ held t, p.bodylen ≤ p.body.bytes.length := by
    intro p hp
    rcases k.held p hp with hp | rfl
    · exact h.bodylen p hp
    · exact Nat.zero_le _
  refine ⟨h.toJournal.congr k, by rw [k.rxlog]; exact h.pushed, hlen, fun v hv => ?_⟩
  obtain ⟨p, hp, hv⟩ := List.mem_flatMap.mp hv
  exact iovecs_inside (hlen p (mem_held.mpr (.inr (.inl hp)))) v hv

/-- STEP: a batch of datagrams that do not claim too much brings complete packets only. -/
theorem rxRecv_complete (hp : PoolInv cfg s) (h : Complete cfg s) {n : ℕ} (hrx : s.rx = .recv n)
    (ret : RecvMmsg) (now : EpicsTimeStamp) (hno : ∀ d ∈ received n ret, ¬ Overclaims cfg d) :
    Complete cfg (rxRecv cfg s n ret now) := by
  obtain ⟨pkts, hr⟩ := rxRecv_received hp hrx ret now
  obtain ⟨u, hframe⟩ := rxRecv_frame cfg s n ret now
  have hjournal := h.toJournal.received hr (by rw [hframe])
  have hnew : ∀ r ∈ (received n ret).map (verdict cfg.peer cfg.maxpktlen),
      r.pushed = true ↔ IsComplete cfg.peer r := by
    intro r hr
    obtain ⟨d, hd, rfl⟩ := List.mem_map.mp hr
    exact verdict_complete (hno d hd)
  refine ⟨hjournal, fun r hmem => ?_, fun p hmem => ?_, ?_⟩
  · rw [hr.rxlog] at hmem
    exact (List.mem_append.mp hmem).elim (h.pushed r) (hnew r)
  · rw [mem_held, hr.pending, List.mem_append, hframe] at hmem
    rcases hmem with (hmem | hmem) | hmem
    · exact h.bodylen p (mem_held.mpr (.inl hmem))
    · obtain ⟨r, hmem, hc⟩ := carried hr.carries hmem
      obtain ⟨hmem, hpush⟩ := List.mem_filter.mp hmem
      exact hc.bodylen_le ((hnew r hmem).mp hpush)
    · exact h.bodylen p (mem_held.mpr (.inr hmem))
  · rw [hframe]
    exact h.inside

theorem complete_step (s : UdpFast E) (a : Action) (t : UdpFast E)
    (h : PoolInv cfg s ∧ Complete cfg s) (hno : NoOverclaim cfg s a)
    (hs : step cfg s a = some t) : PoolInv cfg t ∧ Complete cfg t := by
  refine ⟨pool_step s a t h.1 hs, ?_⟩
  cases step_cases hs with
  | rxRecv ret now n hrx => exact rxRecv_complete h.1 h.2 hrx ret now (hno n hrx)
  | _ => exact h.2.kept (step_kept rfl hs)

/-- A batch with a datagram that claims too much leaves an incomplete packet behind. -/
theorem noOverclaim_of_complete (s : UdpFast E) (a : Action) (t : UdpFast E)
    (h : PoolInv cfg s ∧ Complete cfg s) (hs : step cfg s a = some t) (ht : Complete cfg t) :
    NoOverclaim cfg s a := by
  cases a with
  | rxRecv ret now =>
    intro n hrx d hd hover
    simp only [step, hrx, Option.some.injEq] at hs
    obtain ⟨pkts, hr⟩ := rxRecv_received h.1 hrx ret now
    obtain ⟨hpush, hnot⟩ := overclaims_pushed hover
    refine hnot ((ht.pushed _ ?_).mp hpush)
    rw [← hs, hr.rxlog]
    exact List.mem_append_right _ (List.mem_map_of_mem hd)
  | _ => trivial

/-- STEP: a batch pushes as many packets as it has complete datagrams only if none of it claims too
    much, since those that do are pushed as well. -/
theorem pushedComplete_iff {ds : List Dgram} {pkts : List Pkt}
    (hr : Received cfg.peer cfg.maxpktlen s ds t pkts) :
    PushedComplete cfg s ds t ↔ ∀ d ∈ ds, ¬ Overclaims cfg d := by
  have hpush : ∀ r ∈ ds.map (verdict cfg.peer cfg.maxpktlen),
      IsComplete cfg.peer r → r.pushed = true := by
    intro r hr hc
    obtain ⟨d, -, rfl⟩ := List.mem_map.mp hr
    exact complete_pushed hc
  constructor
  · rintro ⟨⟨pkts', hpending, hcarries⟩, -⟩ d hd hover
    obtain ⟨hpushed, hnot⟩ := overclaims_pushed hover
    have hpkts : pkts' = pkts := List.append_cancel_left (hpending.symm.trans hr.pending)
    subst hpkts
    have hlen := hcarries.length_eq.symm.trans hr.carries.length_eq
    have hsub : ((ds.map (verdict cfg.peer cfg.maxpktlen)).filter RxVerdict.pushed).filter
        (IsComplete cfg.peer) = (ds.map (verdict cfg.peer cfg.maxpktlen)).filter
          (IsComplete cfg.peer) := by
      rw [List.filter_filter]
      refine List.filter_congr fun r hr => ?_
      rw [Bool.eq_iff_iff, Bool.and_eq_true, decide_eq_true_eq]
      exact and_iff_left_of_imp (hpush r hr)
    rw [← hsub, ← List.countP_eq_length_filter, List.countP_eq_length] at hlen
    exact hnot (of_decide_eq_true (hlen _ (List.mem_filter.mpr ⟨List.mem_map_of_mem hd, hpushed⟩)))
  · intro hno
    have hsame : ∀ r ∈ ds.map (verdict cfg.peer cfg.maxpktlen),
        r.pushed = decide (IsComplete cfg.peer r) := by
      intro r hr
      obtain ⟨d, hd, rfl⟩ := List.mem_map.mp hr
      rw [Bool.eq_iff_iff, decide_eq_true_eq]
      exact verdict_complete (hno d hd)
    refine ⟨⟨pkts, hr.pending, ?_⟩, ?_⟩
    · rw [← List.filter_congr hsame]
      exact hr.carries
    · rw [hr.nignore]
      refine congrArg (fun k => s.nignore + UInt64.ofNat k) (List.countP_congr fun r hr => ?_)
      rw [hsame r hr]
      simp

theorem pushesComplete_iff (s : UdpFast E) (a : Action) (t : UdpFast E) (h : PoolInv cfg s)
    (_ : step cfg s a = some t) : PushesComplete cfg s a ↔ NoOverclaim cfg s a := by
  cases a with
  | rxRecv ret now =>
    refine forall₂_congr fun n hrx => ?_
    obtain ⟨pkts, hr⟩ := rxRecv_received h hrx ret now
    exact pushedComplete_iff hr
  | _ => exact Iff.rfl

end Steps

/-- COMPLETE: in every interleaving the receive worker pushes exactly the complete datagrams, and
    the cache worker writes no byte from beyond a buffer, if and only if no datagram that the peer
    sent announces more than was received of it. Under the same condition every batch pushes its
    complete datagrams and adds the number of the others to `nignore`. -/
theorem complete_packets (cfg : Config) (as : List Action) :
    (Always (step cfg) (Complete cfg) (UdpFast.init cfg : UdpFast E) as ↔
      Along (step cfg) (NoOverclaim cfg) (UdpFast.init cfg : UdpFast E) as) ∧
    (Along (step cfg) (PushesComplete cfg) (UdpFast.init cfg : UdpFast E) as ↔
      Along (step cfg) (NoOverclaim cfg) (UdpFast.init cfg : UdpFast E) as) := by
  refine ⟨always_iff_along (I := fun s => PoolInv cfg s ∧ Complete cfg s) complete_step
    (fun _ h => h.2) noOverclaim_of_complete
    ⟨pool_init cfg, ⟨rfl, rfl, .nil⟩, nofun, nofun, nofun⟩, ?_⟩
  exact along_iff (I := PoolInv cfg) (fun s a t h _ hs => pool_step s a t h hs)
    pushesComplete_iff (pool_init cfg)

/-- A header that announces 100 bytes is accepted without a body, and the cache worker believes it
    of a buffer of 8 bytes. -/
theorem overclaim_accepted :
    ∃ s, exec (step (.small 1)) (UdpFast.init (.small 1) : UdpFast Chains)
        [.rxTop, .rxRecv (.msgs [⟨⟨1, 1⟩, header 1 100, none⟩]) ⟨0, 0⟩, .rxNotify, .cacheReturn,
          .cacheSignal, .cacheWake, .cacheSwap] = some s ∧
      ¬ Complete (.small 1) s ∧ ¬ ∀ v ∈ s.inprog.flatMap iovecs, v.len ≤ v.base.length := by
  have hrun : (exec (step (.small 1)) (UdpFast.init (.small 1) : UdpFast Chains)
        [.rxTop, .rxRecv (.msgs [⟨⟨1, 1⟩, header 1 100, none⟩]) ⟨0, 0⟩, .rxNotify, .cacheReturn,
          .cacheSignal, .cacheWake, .cacheSwap]).map
      (fun s => s.inprog.map fun p => (p.bodylen, p.body.bytes.length)) = some [(100, 8)] := by
    decide +kernel
  obtain ⟨s, hs, hinprog⟩ := Option.map_eq_some_iff.mp hrun
  have hmem : (100, 8) ∈ s.inprog.map fun p => (p.bodylen, p.body.bytes.length) := by
    rw [hinprog]
    exact List.mem_singleton_self _
  obtain ⟨p, hp, hlen⟩ := List.mem_map.mp hmem
  obtain ⟨hbodylen, hbody⟩ := Prod.mk.injEq .. ▸ hlen
  have hover : ¬ ∀ v ∈ s.inprog.flatMap iovecs, v.len ≤ v.base.length := by
    intro hall
    have hle : p.bodylen ≤ p.body.bytes.length :=
      hall ⟨p.body.bytes, p.bodylen⟩ (List.mem_flatMap.mpr ⟨p, hp, by simp [iovecs]⟩)
    omega
  exact ⟨s, hs, fun hc => hover hc.inside, hover⟩

end Pscdrv.Fast
