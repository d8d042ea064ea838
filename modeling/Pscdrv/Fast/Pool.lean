import Mathlib.Algebra.Order.Group.Multiset
import Mathlib.Tactic.Abel
import Pscdrv.Fast.UdpFast
import Pscdrv.Schemes.Run

/-! # Conservation of the buffer pool of `UDPFast`

    A buffer is followed by its tag, its identity and its length. The tags found in the six places
    a buffer can be in add up, in every state, to those of the buffers allocated by the constructor:
    each of these is in exactly one place and has kept its length.

        vpool + msgs[].buf + pending + inprog + shortBuf + temp  =  {(0, n), (1, n), …} -/

namespace Pscdrv.Fast

open Memory Run

/-- The buffers in a list of vectors, as identity and length. -/
def tags (l : List Vec) : Multiset (ℕ × ℕ) :=
  (l.filterMap (Option.map fun b => (b.id, b.bytes.length)) : List (ℕ × ℕ))

def bodies (l : List Pkt) : List Vec := l.map Pkt.body

@[simp] theorem tags_nil : tags [] = 0 := rfl

@[simp] theorem tags_none (l : List Vec) : tags (none :: l) = tags l := rfl

@[simp] theorem tags_some (b : Buffer) (l : List Vec) :
    tags (some b :: l) = {(b.id, b.bytes.length)} + tags l := by
  simp [tags, Multiset.singleton_add]

@[simp] theorem tags_append (l m : List Vec) : tags (l ++ m) = tags l + tags m := by
  simp [tags]

theorem tags_cons (v : Vec) (l : List Vec) : tags (v :: l) = tags [v] + tags l := by
  cases v <;> simp

@[simp] theorem tags_replicate_none (n : ℕ) : tags (List.replicate n none) = 0 := by
  induction n with
  | zero => rfl
  | succ n ih => rw [List.replicate_succ, tags_none, ih]

@[simp] theorem bodies_nil : bodies [] = [] := rfl

@[simp] theorem bodies_cons (p : Pkt) (l : List Pkt) : bodies (p :: l) = p.body :: bodies l := rfl

@[simp] theorem bodies_append (l m : List Pkt) : bodies (l ++ m) = bodies l ++ bodies m :=
  List.map_append

@[simp] theorem bodies_replicate_new (n : ℕ) :
    bodies (List.replicate n .new) = List.replicate n none := by
  simp [bodies, Pkt.new]

/-- Every vector owns a buffer. -/
def Full (l : List Vec) : Prop := ∀ v ∈ l, v.isSome = true

theorem full_nil : Full [] := nofun

theorem full_cons {v : Vec} {l : List Vec} : Full (v :: l) ↔ v.isSome = true ∧ Full l :=
  List.forall_mem_cons

theorem full_append {l m : List Vec} : Full (l ++ m) ↔ Full l ∧ Full m := List.forall_mem_append

/-- Every buffer found has the length `n`. -/
def Sized (n : ℕ) (t : Multiset (ℕ × ℕ)) : Prop := ∀ x ∈ t, x.2 = n

theorem Sized.mono {n : ℕ} {t u : Multiset (ℕ × ℕ)} (h : Sized n u) (htu : t ≤ u) : Sized n t :=
  fun x hx => h x (Multiset.mem_of_le htu hx)

theorem mem_tags {b : Buffer} {l : List Vec} (h : some b ∈ l) :
    (b.id, b.bytes.length) ∈ tags l := by
  rw [tags, Multiset.mem_coe, List.mem_filterMap]
  exact ⟨some b, h, rfl⟩

/-- A vector that owns a buffer has its bytes. -/
theorem Sized.length {n : ℕ} {l : List Vec} (hs : Sized n (tags l)) (hf : Full l) {v : Vec}
    (hv : v ∈ l) : v.bytes.length = n := by
  cases v with
  | none => exact absurd (hf none hv) nofun
  | some b => exact hs _ (mem_tags hv)

variable {E : Type} [Libevent E]

/-- The tags in all six places. -/
def places (s : UdpFast E) : Multiset (ℕ × ℕ) :=
  tags s.vpool + tags s.msgs + tags (bodies s.pending) + tags (bodies s.inprog) +
    tags (bodies s.shortBuf) + tags (bodies s.temps.flatten)

/-- Every buffer is in exactly one place and has its allocated length; the assertions held, and the
    short buffer is within its limit. -/
structure Conserved (cfg : Config) (s : UdpFast E) : Prop where
  once : places s = (Multiset.range cfg.vpoolTotal).map fun i => (i, cfg.maxpktlen)
  asserts : s.failed = false
  short : s.shortBuf.length ≤ s.shortLimit

/-! ### What the loops do with the buffers -/

/-- `assign` moves buffers from the pool to the messages; its assertion holds for a pool of buffers
    of at least a header's size. -/
theorem assign_spec (msgs vpool : List Vec) (hfull : Full vpool)
    (hsize : ∀ v ∈ vpool, 8 ≤ v.bytes.length) :
    tags (assign msgs vpool).1 + tags (assign msgs vpool).2.1 = tags msgs + tags vpool ∧
      (assign msgs vpool).1.length = msgs.length ∧
      (assign msgs vpool).2.2.1 ≤ msgs.length ∧
      Full ((assign msgs vpool).1.take (assign msgs vpool).2.2.1) ∧
      Full (assign msgs vpool).2.1 ∧ (assign msgs vpool).2.2.2 = true := by
  fun_induction assign msgs vpool with
  | case1 vpool => exact ⟨rfl, rfl, Nat.le_refl _, full_nil, hfull, rfl⟩
  | case2 vpool b msgs r ih =>
    obtain ⟨htags, hlen, hle, hnew, hpool, hok⟩ := ih hfull hsize
    refine ⟨?_, congrArg Nat.succ hlen, Nat.succ_le_succ hle, full_cons.mpr ⟨rfl, hnew⟩, hpool,
      hok⟩
    rw [tags_some, tags_some, add_assoc, htags, add_assoc]
  | case3 msgs => exact ⟨rfl, rfl, Nat.zero_le _, full_nil, full_nil, rfl⟩
  | case4 msgs v vpool r ih =>
    obtain ⟨hv, hrest⟩ := full_cons.mp hfull
    obtain ⟨h8, hsize⟩ := List.forall_mem_cons.mp hsize
    obtain ⟨htags, hlen, hle, hnew, hpool, hok⟩ := ih hrest hsize
    refine ⟨?_, congrArg Nat.succ hlen, Nat.succ_le_succ hle, full_cons.mpr ⟨hv, hnew⟩, hpool, ?_⟩
    · rw [tags_cons v r.1, tags_cons v vpool, tags_none, add_assoc, htags]
      abel
    · rw [hok]
      simpa using h8

/-- Only what belongs to received packets has changed. -/
def RxOnly (s t : UdpFast E) : Prop :=
  t = { s with
    ndrops := t.ndrops, prevndrops := t.prevndrops, nignore := t.nignore, netrx := t.netrx
    notifycache := t.notifycache, pending := t.pending, accepted := t.accepted
    rxlog := t.rxlog }

theorem RxOnly.refl (s : UdpFast E) : RxOnly s s := rfl

theorem RxOnly.trans {s t u : UdpFast E} (h : RxOnly s t) (k : RxOnly t u) : RxOnly s u := by
  unfold RxOnly at h k ⊢
  rw [h] at k
  exact k

/-- Counting drops changes their two counts only. -/
theorem countDrops_eq (s : UdpFast E) (d : Dgram) :
    countDrops s d = { s with
      ndrops := (countDrops s d).ndrops, prevndrops := (countDrops s d).prevndrops } := by
  unfold countDrops
  split
  · split <;> rfl
  · rfl

theorem rxPacket_only (peer : SockAddr) (now : EpicsTimeStamp) (s : UdpFast E) (b : Buffer)
    (d : Dgram) : RxOnly s (rxPacket peer now s b d).1 := by
  unfold rxPacket
  rw [countDrops_eq]
  dsimp only
  split <;> rfl

theorem rxBatch_only (peer : SockAddr) (now : EpicsTimeStamp) (msgs : List Vec) :
    ∀ (s : UdpFast E) (ds : List Dgram), RxOnly s (rxBatch peer now s msgs ds).1 := by
  induction msgs with
  | nil => exact fun s _ => RxOnly.refl s
  | cons v msgs ih =>
    intro s ds
    cases v with
    | none => exact RxOnly.refl s
    | some b =>
      cases ds with
      | nil => exact RxOnly.refl s
      | cons d ds => exact (rxPacket_only peer now s b d).trans (ih _ ds)

/-- STEP: a datagram moves its buffer to `pending`, or leaves it with the message. -/
theorem rxPacket_spec (peer : SockAddr) (now : EpicsTimeStamp) (s : UdpFast E) (b : Buffer)
    (d : Dgram) (hfull : Full (bodies s.pending)) :
    tags [(rxPacket peer now s b d).2] + tags (bodies (rxPacket peer now s b d).1.pending) =
        {(b.id, b.bytes.length)} + tags (bodies s.pending) ∧
      Full (bodies (rxPacket peer now s b d).1.pending) := by
  unfold rxPacket
  rw [countDrops_eq]
  dsimp only
  split
  · constructor
    · rw [bodies_append, tags_append, bodies_cons, bodies_nil]
      simp [add_comm]
    · rw [bodies_append]
      exact full_append.mpr ⟨hfull, full_cons.mpr ⟨rfl, full_nil⟩⟩
  · exact ⟨by simp, hfull⟩

/-- LOOP: a batch moves buffers from the messages to `pending`. -/
theorem rxBatch_spec (peer : SockAddr) (now : EpicsTimeStamp) (msgs : List Vec) :
    ∀ (s : UdpFast E) (ds : List Dgram), Full (bodies s.pending) →
    (rxBatch peer now s msgs ds).2.length = msgs.length ∧
      tags (rxBatch peer now s msgs ds).2 +
          tags (bodies (rxBatch peer now s msgs ds).1.pending) =
        tags msgs + tags (bodies s.pending) ∧
      Full (bodies (rxBatch peer now s msgs ds).1.pending) := by
  induction msgs with
  | nil => exact fun s ds hfull => ⟨rfl, rfl, hfull⟩
  | cons v msgs ih =>
    intro s ds hfull
    cases v with
    | none => exact ⟨rfl, rfl, hfull⟩
    | some b =>
      cases ds with
      | nil => exact ⟨rfl, rfl, hfull⟩
      | cons d ds =>
        obtain ⟨htags, hfull'⟩ := rxPacket_spec peer now s b d hfull
        obtain ⟨hlen, htags', hend⟩ := ih (rxPacket peer now s b d).1 ds hfull'
        refine ⟨congrArg Nat.succ hlen, ?_, hend⟩
        rw [rxBatch, tags_cons, tags_some, add_assoc, htags', add_left_comm, htags]
        abel

/-- Returning the bodies of some packets to the pool. -/
theorem tags_return (pkts : List Pkt) : ∀ vpool : List Vec,
    tags (pkts.foldl (fun vpool p => if p.body.isSome then p.body :: vpool else vpool) vpool) =
      tags (bodies pkts) + tags vpool := by
  induction pkts with
  | nil => exact fun vpool => (zero_add _).symm
  | cons p pkts ih =>
    intro vpool
    rw [List.foldl_cons, ih]
    cases hp : p.body with
    | none => rw [if_neg (by simp), bodies_cons, hp, tags_none]
    | some b =>
      rw [if_pos Option.isSome_some, bodies_cons, hp, tags_some, tags_some]
      abel

theorem full_return (pkts : List Pkt) : ∀ vpool : List Vec, Full vpool →
    Full (pkts.foldl (fun vpool p => if p.body.isSome then p.body :: vpool else vpool) vpool) := by
  induction pkts with
  | nil => exact fun vpool h => h
  | cons p pkts ih =>
    intro vpool h
    rw [List.foldl_cons]
    split
    · exact ih _ (full_cons.mpr ⟨by assumption, h⟩)
    · exact ih _ h

/-- Returning the bodies of packets that all have one. -/
theorem return_all (pkts : List Pkt) (hfull : Full (bodies pkts)) (vpool : List Vec) :
    pkts.foldl (fun vpool p => p.body :: vpool) vpool =
      pkts.foldl (fun vpool p => if p.body.isSome then p.body :: vpool else vpool) vpool := by
  induction pkts generalizing vpool with
  | nil => rfl
  | cons p pkts ih =>
    obtain ⟨hp, hrest⟩ := full_cons.mp hfull
    rw [List.foldl_cons, List.foldl_cons, if_pos hp, ih hrest]

/-! ### Runs -/

/-- The messages that `recvmmsg()` is called for. -/
def RxPc.nassign : RxPc → ℕ
  | .notify n => n
  | .recv n => n
  | _ => 0

structure PoolInv (cfg : Config) (s : UdpFast E) : Prop extends Conserved cfg s where
  limit : s.shortLimit < 2 ^ 32
  vpool : Full s.vpool
  pending : Full (bodies s.pending)
  shortBuf : Full (bodies s.shortBuf)
  temps : Full (bodies s.temps.flatten)
  inprog : s.cache.busy = true → Full (bodies s.inprog)
  idle : s.cache.idle = true → s.inprog = []
  width : s.msgs.length = cfg.batchSize
  assigned : s.rx.nassign ≤ cfg.batchSize ∧ Full (s.msgs.take s.rx.nassign)

section Steps

variable {cfg : Config} {s : UdpFast E}

/-- Every buffer found in the pool, or with a message, has the allocated length. -/
theorem Conserved.sized (h : Conserved cfg s) : Sized cfg.maxpktlen (places s) := by
  intro x hx
  rw [h.once, Multiset.mem_map] at hx
  obtain ⟨i, _, rfl⟩ := hx
  rfl

theorem PoolInv.vpool_length (h : PoolInv cfg s) {v : Vec} (hv : v ∈ s.vpool) :
    v.bytes.length = cfg.maxpktlen := by
  refine Sized.length (h.sized.mono ?_) h.vpool hv
  unfold places
  simp only [add_assoc]
  exact Multiset.le_add_right _ _

/-- The room left in `shortBuf` does not wrap. -/
theorem PoolInv.room (h : PoolInv cfg s) :
    (s.shortLimit + 2 ^ 64 - s.shortBuf.length) % 2 ^ 64 = s.shortLimit - s.shortBuf.length := by
  have := h.short
  have := h.limit
  omega

/-- STEP: from the top of the receive loop to the next unlock. -/
theorem rxTop_pool (h : PoolInv cfg s) : PoolInv cfg (rxTop s) := by
  unfold rxTop
  split
  · exact { h with assigned := ⟨Nat.zero_le _, full_nil⟩ }
  · split
    · exact { h with assigned := ⟨Nat.zero_le _, full_nil⟩ }
    · have hsize : ∀ v ∈ s.vpool, 8 ≤ v.bytes.length := fun v hv => by
        rw [h.vpool_length hv]
        exact cfg.maxpktlen_header
      obtain ⟨htags, hlen, hle, hnew, hpool, hok⟩ := assign_spec s.msgs s.vpool h.vpool hsize
      refine { h with
        once := ?_, asserts := ?_, vpool := hpool, width := hlen.trans h.width, assigned := ?_ }
      · rw [← h.once]
        unfold places
        dsimp only
        rw [add_comm (tags _) (tags (assign _ _).1), htags, add_comm (tags s.msgs)]
      · change (s.failed || !(assign s.msgs s.vpool).2.2.2) = false
        rw [h.asserts, hok]
        rfl
      · have hn : (if s.notifycache then RxPc.notify (assign s.msgs s.vpool).2.2.1
            else .recv (assign s.msgs s.vpool).2.2.1).nassign =
            (assign s.msgs s.vpool).2.2.1 := by
          split <;> rfl
        change RxPc.nassign (if s.notifycache then _ else _) ≤ _ ∧ _
        rw [hn]
        exact ⟨h.width ▸ hle, hnew⟩

/-- STEP: a batch was received. -/
theorem rxRecv_pool (h : PoolInv cfg s) (n : ℕ) (ret : RecvMmsg) (now : EpicsTimeStamp) :
    PoolInv cfg (rxRecv cfg s n ret now) := by
  have ht : PoolInv cfg (countRecv s n ret) := by
    rw [countRecv_eq]
    exact { h with }
  unfold rxRecv
  generalize countRecv s n ret = t at ht ⊢
  have honly := rxBatch_only cfg.peer now t.msgs t (received n ret)
  obtain ⟨hlen, htags, hfull⟩ := rxBatch_spec cfg.peer now t.msgs t (received n ret) ht.pending
  dsimp only
  generalize rxBatch cfg.peer now t t.msgs (received n ret) = r at *
  -- `rxTop` sets the place of the worker anew
  change PoolInv cfg (rxTop { r.1 with msgs := r.2, rx := .top })
  refine rxTop_pool ?_
  rw [honly]
  refine { ht with
    once := ?_, pending := hfull, width := hlen.trans ht.width
    assigned := ⟨Nat.zero_le _, full_nil⟩ }
  rw [← ht.once]
  unfold places
  dsimp only
  rw [add_assoc (tags t.vpool), htags, ← add_assoc]

/-- STEP: the buffers of the last turn go back to the pool. -/
theorem cacheReturn_pool (h : PoolInv cfg s) : PoolInv cfg (cacheReturn s) := by
  unfold cacheReturn
  refine { h with
    once := ?_, vpool := full_return _ _ h.vpool, inprog := nofun, idle := fun _ => rfl }
  rw [← h.once]
  unfold places
  dsimp only
  rw [tags_return, bodies_nil, tags_nil]
  abel

/-- STEP: `inprog` takes all of `pending`. -/
theorem cacheSwap_pool (h : PoolInv cfg s) (hc : s.cache = .swap) : PoolInv cfg (cacheSwap s) := by
  have hnil : s.inprog = [] := h.idle (by rw [hc]; rfl)
  unfold cacheSwap
  rw [hnil]
  refine { h with
    once := ?_, pending := full_nil, inprog := fun _ => h.pending, idle := nofun }
  rw [← h.once]
  unfold places
  dsimp only
  rw [hnil, bodies_nil, tags_nil]
  abel

/-- STEP: packets move to `shortBuf` and empty ones take their place; the room does not wrap. -/
theorem cacheShort_pool (h : PoolInv cfg s) (hc : s.cache = .short) :
    PoolInv cfg (cacheShort s) := by
  have hfull : Full (bodies s.inprog) := h.inprog (by rw [hc]; rfl)
  unfold cacheShort
  dsimp only
  rw [h.room]
  generalize hn : min s.inprog.length (s.shortLimit - s.shortBuf.length) = n
  have hsplit : bodies (s.inprog.take n) ++ bodies (s.inprog.drop n) = bodies s.inprog := by
    rw [← bodies_append, List.take_append_drop]
  refine { h with once := ?_, short := ?_, shortBuf := ?_, inprog := nofun, idle := nofun }
  · rw [← h.once]
    unfold places
    dsimp only
    rw [bodies_append, bodies_append, bodies_replicate_new, tags_append, tags_append,
      tags_replicate_none, ← hsplit, tags_append]
    abel
  · have := h.short
    change (s.shortBuf ++ s.inprog.take n).length ≤ s.shortLimit
    rw [List.length_append, List.length_take]
    omega
  · rw [bodies_append]
    rw [← hsplit] at hfull
    exact full_append.mpr ⟨h.shortBuf, (full_append.mp hfull).1⟩

/-- STEP: `devudp_clear_shortbuf` takes all of `shortBuf`. -/
theorem clearSwap_pool (h : PoolInv cfg s) : PoolInv cfg (clearSwap s) := by
  have htemps : bodies (s.temps ++ [s.shortBuf]).flatten =
      bodies s.temps.flatten ++ bodies s.shortBuf := by
    rw [List.flatten_append, List.flatten_singleton, bodies_append]
  unfold clearSwap
  refine { h with once := ?_, short := Nat.zero_le _, shortBuf := full_nil, temps := ?_ }
  · rw [← h.once]
    unfold places
    dsimp only
    rw [htemps, tags_append, bodies_nil, tags_nil]
    abel
  · rw [htemps]
    exact full_append.mpr ⟨h.temps, h.shortBuf⟩

theorem flatten_split {temps : List (List Pkt)} {k : ℕ} {temp : List Pkt}
    (hk : temps[k]? = some temp) :
    temps.flatten = (temps.take k).flatten ++ temp ++ (temps.drop (k + 1)).flatten ∧
      (temps.eraseIdx k).flatten = (temps.take k).flatten ++ (temps.drop (k + 1)).flatten := by
  obtain ⟨hlt, rfl⟩ := List.getElem?_eq_some_iff.mp hk
  constructor
  · conv_lhs => rw [← List.take_append_drop k temps, List.drop_eq_getElem_cons hlt]
    rw [List.flatten_append, List.flatten_cons, List.append_assoc]
  · rw [List.eraseIdx_eq_take_drop_succ, List.flatten_append]

/-- STEP: `devudp_clear_shortbuf` returns the buffers it took. -/
theorem clearReturn_pool (h : PoolInv cfg s) {k : ℕ} {temp : List Pkt}
    (hk : s.temps[k]? = some temp) : PoolInv cfg (clearReturn s k temp) := by
  obtain ⟨hall, hrest⟩ := flatten_split hk
  have htemps := h.temps
  rw [hall, bodies_append, bodies_append, full_append, full_append] at htemps
  obtain ⟨⟨hbefore, htemp⟩, hafter⟩ := htemps
  have hok : (temp.any fun p => p.body.isNone) = false := by
    rw [List.any_eq_false]
    intro p hp
    have := htemp p.body (List.mem_map_of_mem hp)
    simpa [Option.isSome_iff_ne_none] using this
  unfold clearReturn
  rw [return_all temp htemp]
  refine { h with once := ?_, asserts := ?_, vpool := full_return _ _ h.vpool, temps := ?_ }
  · rw [← h.once]
    unfold places
    dsimp only
    rw [tags_return, hrest, hall]
    simp only [bodies_append, tags_append]
    abel
  · change (s.failed || _) = false
    rw [h.asserts, hok]
    rfl
  · rw [hrest, bodies_append]
    exact full_append.mpr ⟨hbefore, hafter⟩

/-- STEP: every action of every thread conserves the buffers. -/
theorem pool_step (s : UdpFast E) (a : Action) (t : UdpFast E) (h : PoolInv cfg s)
    (hs : step cfg s a = some t) : PoolInv cfg t := by
  cases step_cases hs with
  | rxTop => exact rxTop_pool h
  | rxWake => exact { h with assigned := ⟨Nat.zero_le _, full_nil⟩ }
  | rxNotify _ hrx => exact { h with assigned := by have := h.assigned; rwa [hrx] at this }
  | rxRecv ret now => exact rxRecv_pool h _ ret now
  | cacheReturn => exact cacheReturn_pool h
  | cacheSignal _ hc =>
    have hnil : s.inprog = [] := h.idle (by rw [hc]; rfl)
    refine { h with inprog := fun hbusy => ?_, idle := fun _ => hnil }
    change Full (bodies s.inprog)
    rw [hnil]
    exact full_nil
  | cacheWake hc =>
    have hnil : s.inprog = [] := h.idle (by rw [hc]; rfl)
    exact { h with inprog := fun hbusy => (by cases hbusy), idle := fun _ => hnil }
  | cacheSwap hc => exact cacheSwap_pool h hc
  | cacheDispatch | cacheRotate | cacheOpen | cacheWrite | cacheFinish | setFile =>
    have hq := step_quiet rfl hs
    rw [hq.frame]
    refine { h with inprog := fun hbusy => h.inprog (hq.busy hbusy), idle := fun hidle => ?_ }
    rcases hq.idle with hsame | ⟨_, hbusy⟩
    · exact h.idle (hsame ▸ hidle)
    · rw [hbusy] at hidle
      cases hidle
  | cacheShort hc => exact cacheShort_pool h hc
  | clearSwap => exact clearSwap_pool h
  | clearReturn _ _ hk => exact clearReturn_pool h hk
  | readShortbuf nelm =>
    unfold readShortbuf
    split
    · have hle : s.shortBuf.length ≤ nelm.toNat := by
        have := h.short
        omega
      exact { h with short := hle, limit := nelm.toNat_lt }
    · exact h
  | reopen | setRecord | stop => exact { h with }

theorem tags_initial (n len : ℕ) :
    tags ((List.range n).map fun i => some ⟨i, List.replicate len 0⟩) =
      (Multiset.range n).map fun i => (i, len) := by
  rw [tags, List.filterMap_map, Multiset.range, Multiset.map_coe]
  congr 1
  simp

theorem pool_init (cfg : Config) : PoolInv cfg (UdpFast.init cfg : UdpFast E) := by
  refine ⟨⟨?_, rfl, Nat.le_refl _⟩, Nat.two_pow_pos 32, ?_, full_nil, full_nil, full_nil, nofun,
    nofun, List.length_replicate, Nat.zero_le _, full_nil⟩
  · unfold places UdpFast.init
    dsimp only
    rw [tags_initial]
    simp
  · intro v hv
    obtain ⟨i, _, rfl⟩ := List.mem_map.mp hv
    rfl

end Steps

/-- CONSERVATION: in every interleaving each allocated buffer is, at every moment, in exactly one
    place and keeps its length, no assertion fails, and the room left in `shortBuf` never wraps. -/
theorem pool_conserved (cfg : Config) (as : List Action) :
    Always (step cfg) (fun s => Conserved cfg s ∧
        (s.shortLimit + 2 ^ 64 - s.shortBuf.length) % 2 ^ 64 = s.shortLimit - s.shortBuf.length)
      (UdpFast.init cfg : UdpFast E) as :=
  always_of_step pool_step (fun _ h => ⟨h.toConserved, h.room⟩) (pool_init cfg)

end Pscdrv.Fast
