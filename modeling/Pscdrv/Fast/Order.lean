import Mathlib.Algebra.BigOperators.Group.Finset.Piecewise
import Mathlib.Data.Nat.ModEq
import Pscdrv.Fast.Packets

/-! # The order of packets in `UDPFast`

    The receive worker appends to `pending`, the cache worker swaps all of it with its empty
    `inprog` and looks up one packet after another. So the accepted packets are, in order, those
    looked up, those still to be looked up, and those in `pending`.

        accepted :  ├── dispatched ──┼── rest of inprog ──┼── pending ──┤ -/

namespace Pscdrv.Fast

open Run

variable {E : Type} [Libevent E]

/-- The packets of `inprog` that the cache worker is still to look up. -/
def CachePc.rest (inprog : List Pkt) : CachePc → List Pkt
  | .dispatch i => inprog.drop i
  | _ => []

def undispatched (s : UdpFast E) : List Pkt := s.cache.rest s.inprog

/-- The count of a registered block. -/
def blockCount (s : UdpFast E) (id : UInt16) : ℕ := ((s.recvBlocks id).map (·.count.toNat)).getD 0

/-- Accepted packets are in order, dispatched or on their way, and everything is counted once. -/
structure Ordered (cfg : Config) (s : UdpFast E) : Prop extends Journal s where
  order : s.dispatched ++ undispatched s ++ s.pending = s.accepted
  total : s.rxcnt = s.nignore + UInt64.ofNat s.accepted.length
  blocks : ∀ id, (s.recvBlocks id).map Block.count =
    if id ∈ cfg.rx then some (UInt32.ofNat (s.dispatched.countP fun p => p.msgid = id)) else none
  unknown : s.ukncount = UInt32.ofNat (s.dispatched.countP fun p => p.msgid ∉ cfg.rx)

section Steps

variable {cfg : Config} {s t : UdpFast E}

/-- The registered ids are those that have a block. -/
theorem Ordered.registered (h : Ordered cfg s) (id : UInt16) :
    (s.recvBlocks id).isSome = true ↔ id ∈ cfg.rx := by
  rw [← Option.isSome_map (f := Block.count), h.blocks id]
  split <;> simp_all

/-- STEP: a packet is looked up, and counted by its block or as unknown. -/
theorem dispatch_counts (h : Ordered cfg s) (env : RxEnv) (p : Pkt) :
    (∀ id, ((dispatch env s p).recvBlocks id).map Block.count =
      if id ∈ cfg.rx then
        some (UInt32.ofNat ((s.dispatched ++ [p]).countP fun p => p.msgid = id)) else none) ∧
    (dispatch env s p).ukncount =
      UInt32.ofNat ((s.dispatched ++ [p]).countP fun p => p.msgid ∉ cfg.rx) := by
  have hblocks := h.blocks
  have hunknown := h.unknown
  unfold dispatch
  split
  · rename_i hk
    have hmem : p.msgid ∈ cfg.rx := (h.registered _).mp hk
    refine ⟨fun id => ?_, ?_⟩
    · by_cases hid : id = p.msgid
      · subst hid
        have hcount := hblocks p.msgid
        rw [if_pos hmem, Option.map_eq_some_iff] at hcount
        obtain ⟨b, hb, hcount⟩ := hcount
        rw [if_pos hmem, List.countP_append, UInt32.ofNat_add, ← hcount]
        dsimp only
        rw [BlockMap.modify_some _ hb]
        simp
      · have hne : ¬ p.msgid = id := fun heq => hid heq.symm
        simp [BlockMap.modify_ne _ _ hid, hblocks, List.countP_append, hne]
    · simp [hunknown, List.countP_append, hmem]
  · rename_i hk
    have hmem : p.msgid ∉ cfg.rx := fun hmem => hk ((h.registered _).mpr hmem)
    refine ⟨fun id => ?_, ?_⟩
    · rw [hblocks id]
      split
      · rename_i hin
        have hne : ¬ p.msgid = id := fun heq => hmem (heq ▸ hin)
        simp [List.countP_append, hne]
      · rfl
    · simp [hunknown, List.countP_append, hmem, UInt32.ofNat_add]

/-- The steps on the way of the packets that look none of them up. -/
theorem Ordered.congr (h : Ordered cfg s) (k : Kept s t) (hblocks : t.recvBlocks = s.recvBlocks)
    (hukn : t.ukncount = s.ukncount) (hdisp : t.dispatched = s.dispatched)
    (horder : undispatched t ++ t.pending = undispatched s ++ s.pending) : Ordered cfg t := by
  refine ⟨h.toJournal.congr k, ?_, ?_, ?_, ?_⟩
  · rw [List.append_assoc, horder, ← List.append_assoc, hdisp, k.accepted, h.order]
  · rw [k.rxcnt, k.nignore, k.accepted, h.total]
  · rw [hblocks, hdisp]
    exact h.blocks
  · rw [hukn, hdisp, h.unknown]

/-- STEP: the loop over `inprog` looks up the next packet, or ends after the last one. -/
theorem cacheDispatch_ordered (h : Ordered cfg s) (env : RxEnv) {i : ℕ}
    (hc : s.cache = .dispatch i) : Ordered cfg (cacheDispatch env s i) := by
  have horder := h.order
  rw [undispatched, hc] at horder
  cases hi : s.inprog[i]? with
  | some p =>
    obtain ⟨hlt, rfl⟩ := List.getElem?_eq_some_iff.mp hi
    obtain ⟨hblocks, hunknown⟩ := dispatch_counts h env s.inprog[i]
    rw [cacheDispatch_some env hi]
    refine ⟨⟨h.rxcnt, h.nignore, h.carries⟩, ?_, h.total, hblocks, hunknown⟩
    rw [CachePc.rest, List.drop_eq_getElem_cons hlt] at horder
    simpa [undispatched, CachePc.rest] using horder
  | none =>
    rw [cacheDispatch_none env hi]
    refine ⟨⟨h.rxcnt, h.nignore, h.carries⟩, ?_, h.total, h.blocks, h.unknown⟩
    rw [CachePc.rest, List.drop_of_length_le (List.getElem?_eq_none_iff.mp hi)] at horder
    change s.dispatched ++ CachePc.rest s.inprog (if _ then _ else _) ++ s.pending = s.accepted
    split <;> exact horder

def Action.dispatches : Action → Bool
  | .cacheDispatch _ => true
  | _ => false

/-- The other steps move packets at most from `pending` to `inprog`. -/
theorem step_passes (hp : PoolInv cfg s) {a : Action} (hrecv : a.receives = false)
    (hdisp : a.dispatches = false) (hs : step cfg s a = some t) :
    t.recvBlocks = s.recvBlocks ∧ t.ukncount = s.ukncount ∧ t.dispatched = s.dispatched ∧
      undispatched t ++ t.pending = undispatched s ++ s.pending := by
  cases step_cases hs with
  | rxRecv => cases hrecv
  | cacheDispatch => cases hdisp
  | rxTop =>
    rw [rxTop_frame]
    exact ⟨rfl, rfl, rfl, rfl⟩
  | cacheReturn | cacheWrite | cacheShort | cacheFinish =>
    rename_i hc
    refine ⟨rfl, rfl, rfl, ?_⟩
    rw [undispatched, undispatched, hc]
    rfl
  | cacheSignal _ hc =>
    refine ⟨rfl, rfl, rfl, ?_⟩
    rw [undispatched, undispatched, hc, cacheSignal]
    dsimp only
    split <;> rfl
  | cacheWake hc =>
    refine ⟨rfl, rfl, rfl, ?_⟩
    rw [undispatched, undispatched, hc]
    rfl
  | cacheSwap hc =>
    refine ⟨rfl, rfl, rfl, ?_⟩
    rw [undispatched, undispatched, hc]
    change s.pending.drop 0 ++ s.inprog = [] ++ s.pending
    rw [hp.idle (by rw [hc]; rfl), List.append_nil, List.nil_append, List.drop_zero]
  | cacheRotate _ hc =>
    rw [undispatched, undispatched, hc]
    unfold cacheRotate
    dsimp only
    split <;> exact ⟨rfl, rfl, rfl, rfl⟩
  | cacheOpen _ _ hc =>
    refine ⟨rfl, rfl, rfl, ?_⟩
    rw [undispatched, undispatched, hc]
    rfl
  | readShortbuf =>
    unfold readShortbuf
    split <;> exact ⟨rfl, rfl, rfl, rfl⟩
  | rxWake | rxNotify | clearSwap | clearReturn | reopen | setRecord | setFile | stop =>
    exact ⟨rfl, rfl, rfl, rfl⟩

/-- STEP: every action keeps the packets in order. -/
theorem ordered_step (s : UdpFast E) (a : Action) (t : UdpFast E)
    (h : PoolInv cfg s ∧ Ordered cfg s) (hs : step cfg s a = some t) :
    PoolInv cfg t ∧ Ordered cfg t := by
  refine ⟨pool_step s a t h.1 hs, ?_⟩
  obtain ⟨hp, h⟩ := h
  cases step_cases hs with
  | rxRecv ret now n hrx =>
    obtain ⟨pkts, hr⟩ := rxRecv_received hp hrx ret now
    obtain ⟨u, hframe⟩ := rxRecv_frame cfg s n ret now
    have hjournal := h.toJournal.received hr (by rw [hframe])
    refine ⟨hjournal, ?_, hjournal.total, ?_, ?_⟩
    · rw [hr.pending, hr.accepted, hframe, ← h.order]
      simp [undispatched]
    · rw [hframe]
      exact h.blocks
    · rw [hframe]
      exact h.unknown
  | cacheDispatch env _ hc => exact cacheDispatch_ordered h env hc
  | _ =>
    obtain ⟨hblocks, hukn, hdisp, horder⟩ := step_passes hp rfl rfl hs
    exact h.congr (step_kept rfl hs) hblocks hukn hdisp horder

/-- Every packet has one id, which is registered or is not. -/
theorem sum_countP (ids : Finset UInt16) (pkts : List Pkt) :
    (∑ id ∈ ids, pkts.countP fun p => p.msgid = id) + (pkts.countP fun p => p.msgid ∉ ids) =
      pkts.length := by
  induction pkts with
  | nil => simp
  | cons p pkts ih =>
    simp only [List.countP_cons, Finset.sum_add_distrib, decide_eq_true_eq, Finset.sum_ite_eq,
      List.length_cons, ← ih]
    by_cases hp : p.msgid ∈ ids
    · rw [if_pos hp, if_neg (not_not_intro hp)]
      omega
    · rw [if_neg hp, if_pos hp]
      omega

/-- The counts of the blocks and of unknown messages add up, as 32-bit numbers. -/
theorem Ordered.sum (h : Ordered cfg s) :
    ((∑ id ∈ cfg.rx, blockCount s id) + s.ukncount.toNat) % 2 ^ 32 =
      s.dispatched.length % 2 ^ 32 := by
  have hblock : ∀ id ∈ cfg.rx,
      blockCount s id = (s.dispatched.countP fun p => p.msgid = id) % 2 ^ 32 := by
    intro id hid
    have hcount := h.blocks id
    rw [if_pos hid, Option.map_eq_some_iff] at hcount
    obtain ⟨b, hb, hcount⟩ := hcount
    rw [blockCount, hb, Option.map_some, Option.getD_some, hcount, UInt32.toNat_ofNat']
  rw [Finset.sum_congr rfl hblock, h.unknown, UInt32.toNat_ofNat', Nat.add_mod,
    ← Finset.sum_nat_mod, Nat.mod_mod, ← Nat.add_mod, sum_countP]

/-- Nothing has arrived yet. -/
theorem ordered_init (cfg : Config) : Ordered cfg (UdpFast.init cfg : UdpFast E) := by
  refine ⟨⟨rfl, rfl, .nil⟩, rfl, rfl, fun id => ?_, rfl⟩
  simp only [UdpFast.init, BlockMap.registered]
  split <;> rfl

end Steps

/-! ### Seen from outside -/

/-- What an observer of the run notes: the datagrams that `recvmmsg()` handed over, and the packets
    that the cache worker took from `inprog` to look them up. -/
structure Seen where
  arrived : List Dgram
  looked : List Pkt

def Seen.note (s : UdpFast E) (a : Action) (w : Seen) : Seen :=
  match a with
  | .rxRecv ret _ => match s.rx with
    | .recv n => { w with arrived := w.arrived ++ received n ret }
    | _ => w
  | .cacheDispatch _ => match s.cache with
    | .dispatch i => { w with looked := w.looked ++ s.inprog[i]?.toList }
    | _ => w
  | _ => w

/-- Everything that arrived has its verdict and is counted, the packets made of what is acceptable
    of it are in order looked up or on their way, and what was looked up is counted. -/
structure OrderedFor (cfg : Config) (s : UdpFast E) (w : Seen) : Prop extends Ordered cfg s where
  arrived : s.rxlog = w.arrived.map (verdict cfg.peer cfg.maxpktlen)
  looked : s.dispatched = w.looked
  sum : ((∑ id ∈ cfg.rx, blockCount s id) + s.ukncount.toNat) % 2 ^ 32 = w.looked.length % 2 ^ 32

/-- A batch is counted, and `pending` grows by the packets made of what is acceptable of it. -/
def Batched (cfg : Config) (s : UdpFast E) : Action → Prop
  | .rxRecv ret now => ∀ n, s.rx = .recv n →
    (rxRecv cfg s n ret now).rxcnt = s.rxcnt + UInt64.ofNat (received n ret).length ∧
    ∃ pkts, Received cfg.peer cfg.maxpktlen s (received n ret) (rxRecv cfg s n ret now) pkts
  | _ => True

section Observed

variable {cfg : Config}

theorem rxRecv_batched {s : UdpFast E} (hp : PoolInv cfg s) (a : Action) : Batched cfg s a := by
  cases a with
  | rxRecv ret now =>
    intro n hrx
    obtain ⟨u, hframe⟩ := rxRecv_frame cfg s n ret now
    exact ⟨by rw [hframe], rxRecv_received hp hrx ret now⟩
  | _ => trivial

/-- STEP: the notes of the observer and the state agree on what arrived and what was looked up. -/
theorem seen_step (x : UdpFast E × Seen) (a : Action) (y : UdpFast E × Seen)
    (h : PoolInv cfg x.1 ∧ OrderedFor cfg x.1 x.2)
    (hobs : observed (step cfg) Seen.note x a = some y) :
    PoolInv cfg y.1 ∧ OrderedFor cfg y.1 y.2 := by
  obtain ⟨s, w⟩ := x
  obtain ⟨t, w'⟩ := y
  obtain ⟨hs, hnote⟩ := observed_some hobs
  obtain ⟨hp, h⟩ := h
  dsimp only at hp h hs hnote
  subst hnote
  obtain ⟨hp', hord⟩ := ordered_step s a t ⟨hp, h.toOrdered⟩ hs
  suffices hlogs : t.rxlog = (Seen.note s a w).arrived.map (verdict cfg.peer cfg.maxpktlen) ∧
      t.dispatched = (Seen.note s a w).looked from
    ⟨hp', hord, hlogs.1, hlogs.2, hlogs.2 ▸ hord.sum⟩
  cases step_cases hs with
  | rxRecv ret now n hrx =>
    obtain ⟨pkts, hr⟩ := rxRecv_received hp hrx ret now
    obtain ⟨u, hframe⟩ := rxRecv_frame cfg s n ret now
    simp only [Seen.note, hrx]
    refine ⟨?_, ?_⟩
    · rw [hr.rxlog, h.arrived, List.map_append]
    · rw [hframe]
      exact h.looked
  | cacheDispatch env i hc =>
    simp only [Seen.note, hc]
    refine ⟨(step_kept rfl hs).rxlog.trans h.arrived, ?_⟩
    cases hi : s.inprog[i]? with
    | some p =>
      rw [cacheDispatch_some env hi]
      exact congrArg (· ++ [p]) h.looked
    | none =>
      rw [cacheDispatch_none env hi, Option.toList_none, List.append_nil]
      exact h.looked
  | _ =>
    exact ⟨(step_kept rfl hs).rxlog.trans h.arrived,
      (step_passes hp rfl rfl hs).2.2.1.trans h.looked⟩

end Observed

/-- ORDER: in every interleaving the packets that were looked up, those still to be looked up and
    those in `pending` are made of the acceptable ones among the datagrams that arrived, in the
    order of their arrival, and every datagram and every packet that was looked up is counted once.
    Every batch is counted and pushed as a whole. -/
theorem packets_ordered (cfg : Config) (as : List Action) :
    Always (observed (step cfg) Seen.note) (fun x => OrderedFor cfg x.1 x.2)
        ((UdpFast.init cfg : UdpFast E), ⟨[], []⟩) as ∧
      Along (step cfg) (Batched cfg) (UdpFast.init cfg : UdpFast E) as := by
  have hinit : OrderedFor cfg (UdpFast.init cfg : UdpFast E) ⟨[], []⟩ :=
    ⟨ordered_init cfg, rfl, rfl, by rw [(ordered_init cfg).sum]; rfl⟩
  refine ⟨always_of_step (I := fun x : UdpFast E × Seen => PoolInv cfg x.1 ∧ OrderedFor cfg x.1 x.2)
    seen_step (fun _ h => h.2) ⟨pool_init cfg, hinit⟩, ?_⟩
  exact along_of_inv (I := PoolInv cfg) (D := fun _ _ => True)
    (fun s a t h _ hs => ⟨pool_step s a t h hs, rxRecv_batched h a⟩) (pool_init cfg)
    (along_of_forall fun _ _ => trivial)

end Pscdrv.Fast
