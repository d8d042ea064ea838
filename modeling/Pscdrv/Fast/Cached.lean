import Pscdrv.Fast.Order
import Pscdrv.Udp.Receive

/-! # What a block caches of a packet

    `rxfn` keeps the length of a body beside its buffer, which has the size it was allocated with.
    `cachefn` copies `pkt.body.size()` bytes into the block, so the block gets the whole buffer.

        buffer     :  ├──── received ────┼──── as it was ────┤
        bodylen    :  ├──── announced ───┤
        block.data :  ├────────── PSCUDPMaxPacketSize ───────┤ -/

namespace Pscdrv.Fast

open Libevent Memory Run

variable {E : Type} [Libevent E]

/-- What was received of the body of the datagram. -/
def RxVerdict.body (r : RxVerdict) : List UInt8 :=
  (r.dgram.payload.drop 8).take (msgLen r.dgram r.size - 8)

/-- The block holds the body of a packet that was made of a datagram: it is as long as the packet
    says, it is what was received, and it is what a `PSCUDP` with a large enough scratch buffer
    caches of the same datagram. -/
structure Caches (b : Block E) (p : Pkt) (r : RxVerdict) : Prop where
  size : b.data.size = p.bodylen
  body : b.data.mem = r.body
  recvdata : ∀ (u : Udp.PscUdp E) (env : RxEnv), u.ep = r.dgram.src →
    (u.recvBlocks p.msgid).isSome = true → 8 + p.bodylen ≤ u.rxscratch.length →
    u.rxscratch.length < 2 ^ 64 →
    ((Udp.recvPacket u ⟨r.dgram.src, r.dgram.payload⟩ env).recvBlocks p.msgid).map
      (·.data.mem) = some b.data.mem

/-- Every registered block that a packet was dispatched to caches the last of these. Packet `i` was
    made of the accepted datagram `i`. -/
def CachesLast (cfg : Config) (s : UdpFast E) : Prop :=
  ∀ i p r, s.dispatched[i]? = some p → (s.rxlog.filter RxVerdict.pushed)[i]? = some r →
    p.msgid ∈ cfg.rx → (∀ q ∈ s.dispatched.drop (i + 1), q.msgid ≠ p.msgid) →
    ∃ b, s.recvBlocks p.msgid = some b ∧ Caches b p r

/-- The body that was received fills a buffer of the pool, and the header says so. -/
structure FillsBuffer (cfg : Config) (d : Dgram) : Prop where
  received : 8 + cfg.maxpktlen ≤ d.payload.length
  announced : (bodylenOf d.payload).toNat = cfg.maxpktlen

/-- A packet that is about to be dispatched to a block was made of a datagram that fills its
    buffer. -/
def DispatchesFull (cfg : Config) (s : UdpFast E) : Action → Prop
  | .cacheDispatch _ => ∀ i p r, s.cache = .dispatch i → s.inprog[i]? = some p →
      p.msgid ∈ cfg.rx →
      (s.rxlog.filter RxVerdict.pushed)[s.dispatched.length]? = some r → FillsBuffer cfg r.dgram
  | _ => True

/-! ### One packet -/

/-- A `PSCUDP` caches the announced number of bytes, when as many were received. -/
theorem recvPacket_caches {u : Udp.PscUdp E} {d : Udp.Datagram} (env : RxEnv) (hsrc : d.src = u.ep)
    (hps : isPS d.payload = true) (hknown : (u.recvBlocks (msgidOf d.payload)).isSome = true)
    (hpay : 8 + (bodylenOf d.payload).toNat ≤ d.payload.length)
    (hroom : 8 + (bodylenOf d.payload).toNat ≤ u.rxscratch.length)
    (hsize : u.rxscratch.length < 2 ^ 64) :
    ((Udp.recvPacket u d env).recvBlocks (msgidOf d.payload)).map (·.data.mem) =
      some ((d.payload.drop 8).take (bodylenOf d.payload).toNat) := by
  have hturn := Udp.recvPacket_turn u d env hsize
  generalize Udp.recvPacket u d env = t at hturn ⊢
  cases hturn with
  | ignored src => exact absurd hsrc src
  | small src short => omega
  | corrupt peer ps =>
    rw [hps] at ps
    cases ps
  | truncated peer ps long => omega
  | unknown peer ps fits known =>
    rw [hknown] at known
    cases known
  | delivered peer ps fits known =>
    obtain ⟨b, hb⟩ := Option.isSome_iff_exists.mp hknown
    dsimp only
    rw [BlockMap.modify_some _ hb, Option.map_some, Block.requestScan_data, DBuffer.mem_assign,
      Udp.bodyAt_store hpay hroom]
    rfl

section Packet

variable {cfg : Config} {b : Block E} {p : Pkt} {r : RxVerdict}

/-- A block with the whole buffer of a packet caches its body exactly if the body fills it. -/
theorem caches_iff (hc : Carries p r) (hr : r = verdict cfg.peer cfg.maxpktlen r.dgram)
    (hpush : r.pushed = true) (hb : b.data.mem = p.body.bytes) :
    Caches b p r ↔ FillsBuffer cfg r.dgram := by
  have hsize : r.size = cfg.maxpktlen := by rw [hr]; rfl
  have hlen : p.body.bytes.length = cfg.maxpktlen := by rw [hc.size, hsize]
  have hmsg : msgLen r.dgram r.size = min r.dgram.payload.length (8 + cfg.maxpktlen) := by
    rw [hsize, msgLen]
  have h8 : 8 ≤ cfg.maxpktlen := cfg.maxpktlen_header
  constructor
  · intro h
    have hbody := congrArg List.length h.body
    rw [hb, hlen, RxVerdict.body, List.length_take, List.length_drop, hmsg] at hbody
    have hann := h.size
    rw [DBuffer.size_eq, hb, hlen, hc.bodylen] at hann
    exact ⟨by omega, hann.symm⟩
  · intro h
    have hrecv : msgLen r.dgram r.size - 8 = cfg.maxpktlen := by
      have := h.received
      omega
    have hbody : b.data.mem = r.body := by
      have htake := hc.bytes
      rw [hrecv, List.take_of_length_le (Nat.le_of_eq hlen)] at htake
      rw [hb, htake, RxVerdict.body, hrecv]
    refine ⟨?_, hbody, fun u env hep hknown hroom hlt => ?_⟩
    · rw [DBuffer.size_eq, hb, hlen, hc.bodylen, h.announced]
    · have hacc : accepts cfg.peer r.dgram cfg.maxpktlen = true :=
        (congrArg RxVerdict.pushed hr).symm.trans hpush
      have hps : isPS r.dgram.payload = true := (accepts_iff.mp hacc).2.2.1
      rw [hc.msgid] at hknown ⊢
      rw [hc.bodylen] at hroom
      have hpay := h.received
      rw [← h.announced] at hpay
      have hcaches := recvPacket_caches (d := ⟨r.dgram.src, r.dgram.payload⟩) env hep.symm hps
        hknown hpay hroom hlt
      rw [hcaches, hbody, RxVerdict.body, hrecv, h.announced]

end Packet

/-! ### Runs -/

/-- Every verdict is that of the receive worker on a buffer of the pool. -/
def Judged (cfg : Config) (s : UdpFast E) : Prop :=
  ∀ r ∈ s.rxlog, r = verdict cfg.peer cfg.maxpktlen r.dgram

/-- Two lists that are related element by element. -/
theorem related_at {α β : Type*} {R : α → β → Prop} {l : List α} {m : List β}
    (h : List.Forall₂ R l m) {i : ℕ} {a : α} (ha : l[i]? = some a) :
    ∃ b, m[i]? = some b ∧ R a b := by
  obtain ⟨hi, rfl⟩ := List.getElem?_eq_some_iff.mp ha
  have hi' : i < m.length := h.length_eq ▸ hi
  exact ⟨m[i], List.getElem?_eq_getElem hi', h.get hi hi'⟩

section Steps

variable {cfg : Config} {s t : UdpFast E}

/-- The next packet to look up is the accepted packet that follows those looked up. -/
theorem Ordered.next (h : Ordered cfg s) {i : ℕ} {p : Pkt} (hc : s.cache = .dispatch i)
    (hi : s.inprog[i]? = some p) :
    ∃ r, (s.rxlog.filter RxVerdict.pushed)[s.dispatched.length]? = some r ∧ Carries p r := by
  refine related_at h.carries ?_
  obtain ⟨hlt, rfl⟩ := List.getElem?_eq_some_iff.mp hi
  rw [← h.order, undispatched, hc, CachePc.rest, List.drop_eq_getElem_cons hlt, List.append_assoc,
    List.getElem?_append_right (Nat.le_refl _), Nat.sub_self]
  rfl

/-- Every packet that was looked up was made of an accepted datagram. -/
theorem Ordered.looked_up (h : Ordered cfg s) :
    s.dispatched.length ≤ (s.rxlog.filter RxVerdict.pushed).length := by
  rw [← h.carries.length_eq, ← h.order, List.length_append, List.length_append]
  omega

/-- Steps that look no packet up, and may receive some. -/
theorem CachesLast.congr (h : CachesLast cfg s) (ho : Ordered cfg s)
    (hblocks : t.recvBlocks = s.recvBlocks) (hdisp : t.dispatched = s.dispatched)
    (hlog : s.rxlog <+: t.rxlog) : CachesLast cfg t := by
  intro i p r hp hr hreg hlast
  rw [hdisp] at hp hlast
  have hi : i < (s.rxlog.filter RxVerdict.pushed).length :=
    (List.getElem?_eq_some_iff.mp hp).1.trans_le ho.looked_up
  obtain ⟨l, hl⟩ := hlog
  rw [← hl, List.filter_append, List.getElem?_append_left hi] at hr
  rw [hblocks]
  exact h i p r hp hr hreg hlast

/-- A packet that is looked up changes its own block only, which gets all of its buffer. -/
theorem dispatch_blocks (env : RxEnv) (p : Pkt) :
    (∀ id, id ≠ p.msgid → (dispatch env s p).recvBlocks id = s.recvBlocks id) ∧
      ((s.recvBlocks p.msgid).isSome = true →
        ∃ b, (dispatch env s p).recvBlocks p.msgid = some b ∧ b.data.mem = p.body.bytes) := by
  unfold dispatch
  split
  · rename_i hk
    refine ⟨fun id hid => BlockMap.modify_ne _ _ hid, fun _ => ?_⟩
    obtain ⟨b, hb⟩ := Option.isSome_iff_exists.mp hk
    refine ⟨_, BlockMap.modify_some _ hb, ?_⟩
    rw [Block.requestScan_data]
    rfl
  · rename_i hk
    exact ⟨fun _ _ => rfl, fun hk' => absurd hk' hk⟩

/-- STEP: after a packet was looked up the blocks still cache their last packets, exactly if the
    datagram it was made of fills its buffer or there is no block for it. -/
theorem cacheDispatch_caches (ho : Ordered cfg s) (hj : Judged cfg s) (h : CachesLast cfg s)
    (env : RxEnv) {i : ℕ} {p : Pkt} {r : RxVerdict} (hi : s.inprog[i]? = some p)
    (hr : (s.rxlog.filter RxVerdict.pushed)[s.dispatched.length]? = some r) (hc : Carries p r) :
    CachesLast cfg (cacheDispatch env s i) ↔
      (p.msgid ∈ cfg.rx → FillsBuffer cfg r.dgram) := by
  obtain ⟨hother, hown⟩ := dispatch_blocks (s := s) env p
  obtain ⟨hlog, hpush⟩ := List.mem_filter.mp (List.mem_of_getElem? hr)
  rw [cacheDispatch_some env hi]
  constructor
  · intro hl hreg
    obtain ⟨b, hb, hmem⟩ := hown ((ho.registered _).mpr hreg)
    obtain ⟨b', hb', hcaches⟩ := hl s.dispatched.length p r
      (by simp) hr hreg (by simp)
    cases hb.symm.trans hb'
    exact (caches_iff hc (hj r hlog) hpush hmem).mp hcaches
  · intro hfill j q r' hq hr' hreg hlast
    dsimp only at hq hr' hlast ⊢
    rcases Nat.lt_or_ge j s.dispatched.length with hlt | hge
    · -- a packet from before: its block is another one, for this packet is not the last of its own
      rw [List.getElem?_append_left hlt] at hq
      rw [List.drop_append_of_le_length (by omega)] at hlast
      have hne : p.msgid ≠ q.msgid :=
        hlast p (List.mem_append_right _ (List.mem_singleton_self p))
      rw [hother _ hne.symm]
      exact h j q r' hq hr' hreg fun q' hq' => hlast q' (List.mem_append_left _ hq')
    · rw [List.getElem?_append_right hge] at hq
      have hj0 : j - s.dispatched.length = 0 := by
        have := (List.getElem?_eq_some_iff.mp hq).1
        rw [List.length_singleton] at this
        omega
      rw [hj0] at hq
      cases hq
      have hjlen : j = s.dispatched.length := by omega
      rw [hjlen, hr] at hr'
      cases hr'
      obtain ⟨b, hb, hmem⟩ := hown ((ho.registered _).mpr hreg)
      exact ⟨b, hb, (caches_iff hc (hj r hlog) hpush hmem).mpr (hfill hreg)⟩

/-- Packets are in order and judged. -/
structure Handled (cfg : Config) (s : UdpFast E) : Prop extends PoolInv cfg s, Ordered cfg s where
  judged : Judged cfg s

/-- STEP: packets stay in order and judged. -/
theorem handled_step (s : UdpFast E) (a : Action) (t : UdpFast E) (h : Handled cfg s)
    (hs : step cfg s a = some t) : Handled cfg t := by
  obtain ⟨hp, ho⟩ := ordered_step s a t ⟨h.toPoolInv, h.toOrdered⟩ hs
  refine ⟨hp, ho, ?_⟩
  cases step_cases hs with
  | rxRecv ret now n hrx =>
    obtain ⟨pkts, hr⟩ := rxRecv_received h.toPoolInv hrx ret now
    intro r hmem
    rw [hr.rxlog] at hmem
    rcases List.mem_append.mp hmem with hmem | hmem
    · exact h.judged r hmem
    · obtain ⟨d, _, rfl⟩ := List.mem_map.mp hmem
      rfl
  | _ =>
    intro r hmem
    rw [(step_kept rfl hs).rxlog] at hmem
    exact h.judged r hmem

/-- The steps that look no packet up leave the blocks alone. -/
theorem step_caches (h : Handled cfg s) (hl : CachesLast cfg s) {a : Action}
    (ha : a.dispatches = false) (hs : step cfg s a = some t) : CachesLast cfg t := by
  cases hrecv : a.receives with
  | false =>
    obtain ⟨hblocks, _, hdisp, _⟩ := step_passes h.toPoolInv hrecv ha hs
    exact hl.congr h.toOrdered hblocks hdisp ((step_kept hrecv hs).rxlog ▸ List.prefix_refl _)
  | true =>
    cases step_cases hs with
    | rxRecv ret now n hrx =>
      obtain ⟨pkts, hr⟩ := rxRecv_received h.toPoolInv hrx ret now
      obtain ⟨u, hframe⟩ := rxRecv_frame cfg s n ret now
      exact hl.congr h.toOrdered (by rw [hframe]) (by rw [hframe]) ⟨_, hr.rxlog.symm⟩
    | _ => cases hrecv

/-- STEP: the blocks cache their last packets after a step, exactly if a packet that it looks up
    fills its buffer. -/
theorem step_caches_iff (h : Handled cfg s) (hl : CachesLast cfg s) {a : Action}
    (hs : step cfg s a = some t) : CachesLast cfg t ↔ DispatchesFull cfg s a := by
  cases step_cases hs with
  | cacheDispatch env i hc =>
    cases hi : s.inprog[i]? with
    | some p =>
      obtain ⟨r, hr, hcar⟩ := h.toOrdered.next hc hi
      rw [cacheDispatch_caches h.toOrdered h.judged hl env hi hr hcar]
      constructor
      · intro hfill j q r' hj hq hreg hr'
        rw [hc, CachePc.dispatch.injEq] at hj
        subst hj
        rw [hi, Option.some.injEq] at hq
        subst hq
        rw [hr, Option.some.injEq] at hr'
        subst hr'
        exact hfill hreg
      · exact fun hfull hreg => hfull i p r hc hi hreg hr
    | none =>
      rw [cacheDispatch_none env hi]
      refine ⟨fun _ j q r' hj hq => ?_,
        fun _ => hl.congr h.toOrdered rfl rfl (List.prefix_refl _)⟩
      rw [hc, CachePc.dispatch.injEq] at hj
      subst hj
      rw [hi] at hq
      cases hq
  | _ => exact ⟨fun _ => trivial, fun _ => step_caches h hl rfl hs⟩

end Steps

/-- CACHED: in every interleaving a block that packets were dispatched to caches exactly what was
    received of the body of the last one, if and only if every body that is dispatched to a block
    has the length `PSCUDPMaxPacketSize` of the buffers. -/
theorem block_caches_body (cfg : Config) (as : List Action) :
    Always (step cfg) (CachesLast cfg) (UdpFast.init cfg : UdpFast E) as ↔
      Along (step cfg) (DispatchesFull cfg) (UdpFast.init cfg : UdpFast E) as := by
  refine always_iff_along (I := fun s => Handled cfg s ∧ CachesLast cfg s)
    (fun s a t h hfull hs =>
      ⟨handled_step s a t h.1 hs, (step_caches_iff h.1 h.2 hs).mpr hfull⟩)
    (fun _ h => h.2) (fun s a t h hs ht => (step_caches_iff h.1 h.2 hs).mp ht)
    ⟨⟨pool_init cfg, ordered_init cfg, nofun⟩, nofun⟩

/-- A datagram of a stranger leaves eight bytes in the buffer. The next one is of the peer and has a
    body of one byte; the block caches it with seven bytes of the stranger behind it. -/
theorem left_over_cached :
    ∃ s, exec (step (.small 1)) (UdpFast.init (.small 1) : UdpFast Chains)
        [.rxTop, .rxRecv (.msgs [⟨⟨2, 2⟩, header 1 8 ++ List.replicate 8 7, none⟩]) ⟨0, 0⟩,
          .rxRecv (.msgs [⟨⟨1, 1⟩, header 1 1 ++ [5], none⟩]) ⟨0, 0⟩, .rxNotify, .cacheReturn,
          .cacheSignal, .cacheWake, .cacheSwap, .cacheDispatch ⟨⟨0, 0⟩, fun _ _ => 0⟩] = some s ∧
      (s.recvBlocks 1).map (·.data.mem) = some [5, 7, 7, 7, 7, 7, 7, 7] ∧
      ¬ CachesLast (.small 1) s := by
  have hrun : (exec (step (.small 1)) (UdpFast.init (.small 1) : UdpFast Chains)
        [.rxTop, .rxRecv (.msgs [⟨⟨2, 2⟩, header 1 8 ++ List.replicate 8 7, none⟩]) ⟨0, 0⟩,
          .rxRecv (.msgs [⟨⟨1, 1⟩, header 1 1 ++ [5], none⟩]) ⟨0, 0⟩, .rxNotify, .cacheReturn,
          .cacheSignal, .cacheWake, .cacheSwap, .cacheDispatch ⟨⟨0, 0⟩, fun _ _ => 0⟩]).map
      (fun s => (s.dispatched.map fun p => (p.bodylen, p.msgid),
        ((s.rxlog.filter RxVerdict.pushed)[0]?).isSome,
        (s.recvBlocks 1).map (·.data.mem))) =
      some ([(1, 1)], true, some [5, 7, 7, 7, 7, 7, 7, 7]) := by
    decide +kernel
  obtain ⟨s, hs, hview⟩ := Option.map_eq_some_iff.mp hrun
  simp only [Prod.mk.injEq] at hview
  obtain ⟨hdisp, hlog, hblock⟩ := hview
  refine ⟨s, hs, hblock, fun hl => ?_⟩
  obtain ⟨p, hp, hpkt⟩ := List.map_eq_singleton_iff.mp hdisp
  obtain ⟨hlen, hid⟩ := Prod.mk.injEq .. ▸ hpkt
  obtain ⟨r, hr⟩ := Option.isSome_iff_exists.mp hlog
  obtain ⟨b, hb, hcaches⟩ := hl 0 p r (by rw [hp]; rfl) hr (by rw [hid]; decide) (by simp [hp])
  rw [hid] at hb
  rw [hb, Option.map_some, Option.some.injEq] at hblock
  have hsize := hcaches.size
  rw [DBuffer.size_eq, hblock, hlen] at hsize
  cases hsize

end Pscdrv.Fast
