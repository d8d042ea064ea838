import Pscdrv.Fast.Pool

/-! # Stopping `UDPFast`

    `UDPFast::stop` clears `running`, wakes both workers and waits until each has left its loop. The
    workers and the records go on in between. A worker that is woken looks at `running` before it
    blocks again, and the signals come after `running` was cleared, so none of them is lost: the
    workers have a bounded number of steps left, and are never both blocked.

        stop :  running = 0 ─▶ sendto(self) ─▶ vpoolStall ─▶ pendingReady ─▶ rxworker.exitWait()
                                                                        ─▶ cacheworker.exitWait() -/

namespace Pscdrv.Fast

open Libevent Run

variable {E : Type} [Libevent E]

namespace Shutdown

/-- Where the thread is that calls `stop`. -/
inductive StopPc where
  | idle
  /-- `running` is cleared -/
  | wake
  /-- about to signal `vpoolStall` -/
  | stall
  /-- about to signal `pendingReady` -/
  | ready
  /-- in `rxworker.exitWait()` -/
  | joinRx
  /-- in `cacheworker.exitWait()` -/
  | joinCache
  | returned
  deriving DecidableEq

/-- The driver, and the thread that stops it. -/
structure State (E : Type) [Libevent E] where
  drv : UdpFast E
  stop : StopPc

def State.init (cfg : Config) : State E := ⟨.init cfg, .idle⟩

/-- The next part of `stop`. The datagram to itself ends a `recvmmsg()` early, which also ends by
    its timeout. -/
def stopTurn (s : State E) : Option (State E) :=
  match s.stop with
  | .idle => some ⟨{ s.drv with running := false }, .wake⟩
  | .wake => some ⟨s.drv, .stall⟩
  | .stall => some ⟨{ s.drv with vpoolStall := true }, .ready⟩
  | .ready => some ⟨{ s.drv with pendingReady := true }, .joinRx⟩
  | .joinRx => if s.drv.rx = .done then some ⟨s.drv, .joinCache⟩ else none
  | .joinCache => if s.drv.cache = .done then some ⟨s.drv, .returned⟩ else none
  | .returned => none

/-- An action of a worker or a record, or of the thread that stops the driver. -/
inductive Act where
  | drv (a : Action)
  | stop

/-- `none` when the action is not possible now; the parts of `stop` are the other actions. -/
def step (cfg : Config) (s : State E) : Act → Option (State E)
  | .drv .stop => none
  | .drv a => (Fast.step cfg s.drv a).map fun t => ⟨t, s.stop⟩
  | .stop => stopTurn s

/-- Actions of the two workers and of `stop`. -/
def Act.works : Act → Bool
  | .drv .clearSwap | .drv (.clearReturn _) | .drv (.readShortbuf _) | .drv .reopen
  | .drv (.setRecord _) | .drv (.setFile ..) => false
  | _ => true

/-! ### What is left to do -/

/-- Steps that the receive worker has left, once `running` is cleared. -/
def rxLeft : RxPc → ℕ
  | .top => 1
  | .stall => 2
  | .notify _ => 3
  | .recv _ => 2
  | .done => 0

/-- Messages that the receive worker may still push. -/
def coming : RxPc → ℕ
  | .notify n => n
  | .recv n => n
  | _ => 0

/-- Steps that the cache worker has left: it ends when it is at the top of its loop again. -/
def cacheLeft (s : UdpFast E) : ℕ :=
  match s.cache with
  | .done => 0
  | .signal _ => 1
  | .top => 2
  | .finish => 3
  | .short => 4
  | .write => 5
  | .open _ => 6
  | .rotate => 7
  | .dispatch i => 8 + (s.inprog.length - i)
  | .swap => 9 + (s.pending.length + coming s.rx)
  | .wait => 10 + (s.pending.length + coming s.rx)

/-- Steps that `stop` has left. -/
def stopLeft : StopPc → ℕ
  | .idle => 6
  | .wake => 5
  | .stall => 4
  | .ready => 3
  | .joinRx => 2
  | .joinCache => 1
  | .returned => 0

def left (s : State E) : ℕ := stopLeft s.stop + (rxLeft s.drv.rx + cacheLeft s.drv)

/-- What holds once `stop` has begun. -/
structure Stopping (s : State E) : Prop where
  halted : s.drv.running = false
  begun : s.stop ≠ .idle
  stalled : stopLeft s.stop ≤ 3 → s.drv.rx = .stall → s.drv.vpoolStall = true
  waiting : stopLeft s.stop ≤ 2 → s.drv.cache = .wait → s.drv.pendingReady = true
  rx : stopLeft s.stop ≤ 1 → s.drv.rx = .done
  cache : stopLeft s.stop ≤ 0 → s.drv.cache = .done

section Steps

variable {cfg : Config} {s t : State E}

/-- A turn of the receive loop ends it. -/
theorem rxTop_halted {s : UdpFast E} (h : s.running = false) :
    rxTop s = { s with rx := .done } := by
  rw [rxTop, if_pos (by rw [h]; rfl)]

/-- LOOP: a datagram is pushed once at most. -/
theorem rxBatch_pending (peer : SockAddr) (now : EpicsTimeStamp) (msgs : List Vec) :
    ∀ (s : UdpFast E) (ds : List Dgram),
      (rxBatch peer now s msgs ds).1.pending.length ≤ s.pending.length + ds.length := by
  induction msgs with
  | nil => exact fun s ds => Nat.le_add_right _ _
  | cons v msgs ih =>
    intro s ds
    cases v with
    | none => exact Nat.le_add_right _ _
    | some b =>
      cases ds with
      | nil => exact Nat.le_add_right _ _
      | cons d ds =>
        have hone : (rxPacket peer now s b d).1.pending.length ≤ s.pending.length + 1 := by
          unfold rxPacket
          rw [countDrops_eq]
          dsimp only
          split
          · rw [List.length_append, List.length_singleton]
          · exact Nat.le_add_right _ _
        have hrest := ih (rxPacket peer now s b d).1 ds
        rw [List.length_cons]
        change (rxBatch peer now (rxPacket peer now s b d).1 msgs ds).1.pending.length ≤ _
        omega

theorem length_received (n : ℕ) (ret : RecvMmsg) : (received n ret).length ≤ n := by
  cases ret with
  | msgs ds => exact List.length_take_le n ds
  | timeout | error => exact Nat.zero_le n

theorem rxOnly_keeps {s t : UdpFast E} (h : RxOnly s t) : t.running = s.running ∧
    t.cache = s.cache ∧ t.inprog = s.inprog ∧ t.pendingReady = s.pendingReady := by
  rw [h]
  exact ⟨rfl, rfl, rfl, rfl⟩

theorem countRecv_keeps (s : UdpFast E) (n : ℕ) (ret : RecvMmsg) :
    (countRecv s n ret).running = s.running ∧ (countRecv s n ret).cache = s.cache ∧
      (countRecv s n ret).inprog = s.inprog ∧
      (countRecv s n ret).pendingReady = s.pendingReady ∧
      (countRecv s n ret).pending = s.pending := by
  rw [countRecv_eq]
  exact ⟨rfl, rfl, rfl, rfl, rfl⟩

/-- The last batch. -/
theorem rxRecv_halted (cfg : Config) {s : UdpFast E} (h : s.running = false) (n : ℕ)
    (ret : RecvMmsg) (now : EpicsTimeStamp) : ∃ u : UdpFast E, rxRecv cfg s n ret now = u ∧
      u.running = false ∧ u.rx = .done ∧ u.cache = s.cache ∧ u.inprog = s.inprog ∧
      u.pendingReady = s.pendingReady ∧ u.pending.length ≤ s.pending.length + n := by
  let v := countRecv s n ret
  let w := rxBatch cfg.peer now v v.msgs (received n ret)
  obtain ⟨hrun, hcache, hinprog, hready, hsame⟩ := countRecv_keeps s n ret
  obtain ⟨hrun', hcache', hinprog', hready'⟩ :=
    rxOnly_keeps (rxBatch_only cfg.peer now v.msgs v (received n ret))
  have hpending : w.1.pending.length ≤ v.pending.length + (received n ret).length :=
    rxBatch_pending cfg.peer now v.msgs v (received n ret)
  have hhalted : w.1.running = false := hrun'.trans (hrun.trans h)
  refine ⟨{ w.1 with msgs := w.2, rx := .done }, rxTop_halted hhalted, hhalted, rfl,
    hcache'.trans hcache, hinprog'.trans hinprog, hready'.trans hready, ?_⟩
  rw [hsame] at hpending
  exact Nat.le_trans hpending (Nat.add_le_add_left (length_received n ret) _)

/-- What the actions of the driver keep, and what they leave to do. -/
structure Lessens (s t : UdpFast E) (works : Bool) : Prop where
  halted : t.running = false
  stalled : t.rx = .stall → s.rx = .stall ∧ (s.vpoolStall = true → t.vpoolStall = true)
  waiting : t.cache = .wait → s.cache = .wait ∧ (s.pendingReady = true → t.pendingReady = true)
  rx : s.rx = .done → t.rx = .done
  cache : s.cache = .done → t.cache = .done
  left : rxLeft t.rx + cacheLeft t + (if works then 1 else 0) ≤ rxLeft s.rx + cacheLeft s

/-- What the cache worker has left depends on a few fields. -/
theorem cacheLeft_le {s t : UdpFast E} (hcache : t.cache = s.cache) (hinprog : t.inprog = s.inprog)
    (hpend : t.pending.length + coming t.rx ≤ s.pending.length + coming s.rx) :
    cacheLeft t ≤ cacheLeft s := by
  unfold cacheLeft
  rw [hcache, hinprog]
  split <;> omega

/-- A record changes nothing that the workers look at. -/
theorem lessens_record {s t : UdpFast E} (h : s.running = false) (hrun : t.running = s.running)
    (hrx : t.rx = s.rx) (hstall : t.vpoolStall = s.vpoolStall) (hcache : t.cache = s.cache)
    (hinprog : t.inprog = s.inprog) (hpending : t.pending = s.pending)
    (hready : s.pendingReady = true → t.pendingReady = true) : Lessens s t false where
  halted := hrun.trans h
  stalled hst := ⟨hrx ▸ hst, fun hs => hstall.trans hs⟩
  waiting hc := ⟨hcache ▸ hc, hready⟩
  rx hd := hrx.trans hd
  cache hd := hcache.trans hd
  left := by
    have hle := cacheLeft_le hcache hinprog (by rw [hpending, hrx])
    rw [hrx]
    simpa using hle

/-- The cache worker gets on. -/
theorem lessens_cache {s t : UdpFast E} (h : s.running = false) (hrun : t.running = s.running)
    (hrx : t.rx = s.rx) (hstall : s.vpoolStall = true → t.vpoolStall = true)
    (hwait : t.cache ≠ .wait) (hless : cacheLeft t < cacheLeft s) : Lessens s t true where
  halted := hrun.trans h
  stalled hst := ⟨hrx ▸ hst, hstall⟩
  waiting hc := absurd hc hwait
  rx hd := hrx.trans hd
  cache hd := by
    rw [cacheLeft.eq_def s, hd] at hless
    exact absurd hless (Nat.not_lt_zero _)
  left := by
    rw [hrx]
    simp only [if_true]
    omega

/-- The receive worker gets on. -/
theorem lessens_rx {s t : UdpFast E} (hrun : t.running = false) (hcache : t.cache = s.cache)
    (hinprog : t.inprog = s.inprog) (hready : s.pendingReady = true → t.pendingReady = true)
    (hstall : t.rx ≠ .stall) (hless : rxLeft t.rx < rxLeft s.rx)
    (hpend : t.pending.length + coming t.rx ≤ s.pending.length + coming s.rx) :
    Lessens s t true where
  halted := hrun
  stalled hst := absurd hst hstall
  waiting hc := ⟨hcache ▸ hc, hready⟩
  rx hd := by
    rw [hd] at hless
    exact absurd hless (Nat.not_lt_zero _)
  cache hd := hcache.trans hd
  left := by
    have hle := cacheLeft_le hcache hinprog hpend
    simp only [if_true]
    omega

/-- STEP (the driver): the workers get on. -/
theorem drv_lessens {s t : UdpFast E} {a : Action} (h : s.running = false) (ha : a ≠ .stop)
    (hs : Fast.step cfg s a = some t) : Lessens s t (Act.drv a).works := by
  cases step_cases hs with
  | rxTop hrx =>
    rw [rxTop_halted h]
    exact lessens_rx h rfl rfl id (by simp) (by rw [hrx]; exact Nat.zero_lt_one)
      (by simp [coming])
  | rxWake hrx _ =>
    exact lessens_rx h rfl rfl id (by simp) (by rw [hrx]; exact Nat.lt_succ_self 1)
      (by simp [coming])
  | rxNotify n hrx =>
    refine lessens_rx h rfl rfl (fun _ => rfl) (by simp) ?_ ?_
    · rw [hrx]
      exact Nat.lt_succ_self 2
    · rw [hrx]
      exact Nat.le_refl _
  | rxRecv ret now n hrx =>
    obtain ⟨u, hu, hrun, hdone, hcache, hinprog, hready, hpending⟩ :=
      rxRecv_halted cfg h n ret now
    rw [hu]
    refine lessens_rx hrun hcache hinprog (fun hr => hready.trans hr) ?_ ?_ ?_
    · rw [hdone]
      simp
    · rw [hdone, hrx]
      exact Nat.zero_lt_two
    · rw [hdone, hrx]
      exact hpending
  | cacheReturn hc =>
    refine lessens_cache h rfl rfl id (by simp [cacheReturn]) ?_
    rw [cacheLeft.eq_def s, hc]
    exact Nat.lt_succ_self 1
  | cacheSignal u hc =>
    refine lessens_cache h rfl rfl (fun hst => ?_) ?_ ?_
    · rw [cacheSignal, hst]
      rfl
    · rw [cacheSignal, h]
      simp
    · rw [cacheLeft.eq_def s, hc, cacheSignal, h]
      exact Nat.zero_lt_one
  | cacheWake hc _ =>
    refine lessens_cache h rfl rfl id (by simp) ?_
    rw [cacheLeft.eq_def s, hc]
    exact Nat.add_lt_add_right (Nat.lt_succ_self 9) _
  | cacheSwap hc =>
    refine lessens_cache h rfl rfl id (by simp [cacheSwap]) ?_
    rw [cacheLeft.eq_def s, hc]
    change 8 + (s.pending.length - 0) < 9 + (s.pending.length + coming s.rx)
    omega
  | cacheDispatch env i hc =>
    cases hi : s.inprog[i]? with
    | some p =>
      rw [cacheDispatch_some env hi]
      refine lessens_cache h rfl rfl id (by simp) ?_
      have hlt := (List.getElem?_eq_some_iff.mp hi).1
      rw [cacheLeft.eq_def s, hc]
      change 8 + (s.inprog.length - (i + 1)) < 8 + (s.inprog.length - i)
      omega
    | none =>
      rw [cacheDispatch_none env hi]
      refine lessens_cache h rfl rfl id ?_ ?_
      · dsimp only
        split <;> simp
      · rw [cacheLeft.eq_def s, hc, cacheLeft]
        dsimp only
        by_cases hnil : s.inprog.isEmpty = true
        · rw [if_pos hnil]
          dsimp only
          omega
        · rw [if_neg hnil]
          dsimp only
          omega
  | cacheRotate env hc =>
    unfold cacheRotate
    dsimp only
    split
    · refine lessens_cache h rfl rfl id (by simp) ?_
      rw [cacheLeft.eq_def s, hc]
      exact Nat.lt_succ_self 6
    · refine lessens_cache h rfl rfl id (by simp) ?_
      rw [cacheLeft.eq_def s, hc]
      exact Nat.lt_add_of_pos_right (k := 2) (by decide)
  | cacheOpen env name hc =>
    refine lessens_cache h rfl rfl id (by simp) ?_
    rw [cacheLeft.eq_def s, hc]
    exact Nat.lt_succ_self 5
  | cacheWrite env hc =>
    refine lessens_cache h rfl rfl id (by simp) ?_
    rw [cacheLeft.eq_def s, hc]
    exact Nat.lt_succ_self 4
  | cacheShort hc =>
    refine lessens_cache h rfl rfl id (by simp [cacheShort]) ?_
    rw [cacheLeft.eq_def s, hc]
    exact Nat.lt_succ_self 3
  | cacheFinish env hc =>
    refine lessens_cache h rfl rfl id (by simp) ?_
    rw [cacheLeft.eq_def s, hc]
    exact Nat.lt_succ_self 2
  | clearSwap | clearReturn | setFile => exact lessens_record h rfl rfl rfl rfl rfl rfl id
  | readShortbuf nelm =>
    unfold readShortbuf
    split <;> exact lessens_record h rfl rfl rfl rfl rfl rfl id
  | reopen => exact lessens_record h rfl rfl rfl rfl rfl rfl fun _ => rfl
  | setRecord val =>
    refine lessens_record h rfl rfl rfl rfl rfl rfl fun hr => ?_
    rw [setRecord, hr]
    rfl
  | stop => exact absurd rfl ha

/-- An action of a worker or a record is one of the driver's, and leaves `stop` where it is. -/
theorem step_drv {a : Action} (hs : step cfg s (.drv a) = some t) :
    a ≠ .stop ∧ ∃ u, Fast.step cfg s.drv a = some u ∧ t = ⟨u, s.stop⟩ := by
  by_cases ha : a = .stop
  · rw [ha] at hs
    cases hs
  · have heq : step cfg s (.drv a) = (Fast.step cfg s.drv a).map fun t => ⟨t, s.stop⟩ := by
      cases a <;> first | exact absurd rfl ha | rfl
    rw [heq] at hs
    obtain ⟨u, hu, ht⟩ := Option.map_eq_some_iff.mp hs
    exact ⟨ha, u, hu, ht.symm⟩

/-- STEP: every action of the workers and of `stop` leaves less to do. -/
theorem stopping_step {a : Act} (h : Stopping s) (hs : step cfg s a = some t) :
    Stopping t ∧ left t + (if a.works then 1 else 0) ≤ left s := by
  cases a with
  | drv a =>
    obtain ⟨ha, u, hu, rfl⟩ := step_drv hs
    have hless := drv_lessens h.halted ha hu
    refine ⟨⟨hless.halted, h.begun, fun hl hst => ?_, fun hl hw => ?_, fun hl => hless.rx (h.rx hl),
      fun hl => hless.cache (h.cache hl)⟩, ?_⟩
    · obtain ⟨hst', hkeep⟩ := hless.stalled hst
      exact hkeep (h.stalled hl hst')
    · obtain ⟨hw', hkeep⟩ := hless.waiting hw
      exact hkeep (h.waiting hl hw')
    · have := hless.left
      unfold left
      dsimp only
      omega
  | stop =>
    obtain ⟨drv, pc⟩ := s
    cases pc with
    | idle => exact absurd rfl h.begun
    | wake =>
      cases hs
      refine ⟨⟨h.halted, by simp, by simp [stopLeft], by simp [stopLeft], by simp [stopLeft],
        by simp [stopLeft]⟩, ?_⟩
      change 4 + (rxLeft drv.rx + cacheLeft drv) + 1 ≤ 5 + (rxLeft drv.rx + cacheLeft drv)
      omega
    | stall =>
      cases hs
      refine ⟨⟨h.halted, by simp, fun _ _ => rfl, by simp [stopLeft], by simp [stopLeft],
        by simp [stopLeft]⟩, ?_⟩
      change 3 + (rxLeft drv.rx + cacheLeft drv) + 1 ≤ 4 + (rxLeft drv.rx + cacheLeft drv)
      omega
    | ready =>
      cases hs
      refine ⟨⟨h.halted, by simp, fun _ => h.stalled (Nat.le_refl 3), fun _ _ => rfl,
        by simp [stopLeft], by simp [stopLeft]⟩, ?_⟩
      change 2 + (rxLeft drv.rx + cacheLeft drv) + 1 ≤ 3 + (rxLeft drv.rx + cacheLeft drv)
      omega
    | joinRx =>
      obtain ⟨hrx, ht⟩ := Option.ite_none_right_eq_some.mp hs
      cases ht
      refine ⟨⟨h.halted, by simp, fun _ => h.stalled (by simp [stopLeft]),
        fun _ => h.waiting (Nat.le_refl 2), fun _ => hrx, by simp [stopLeft]⟩, ?_⟩
      change 1 + (rxLeft drv.rx + cacheLeft drv) + 1 ≤ 2 + (rxLeft drv.rx + cacheLeft drv)
      omega
    | joinCache =>
      obtain ⟨hcache, ht⟩ := Option.ite_none_right_eq_some.mp hs
      cases ht
      refine ⟨⟨h.halted, by simp, fun _ => h.stalled (by simp [stopLeft]),
        fun _ => h.waiting (by simp [stopLeft]), fun _ => h.rx (Nat.le_refl 1),
        fun _ => hcache⟩, ?_⟩
      change 0 + (rxLeft drv.rx + cacheLeft drv) + 1 ≤ 1 + (rxLeft drv.rx + cacheLeft drv)
      omega
    | returned => cases hs

/-- Before `stop` begins the driver runs; once it has begun, the invariant holds. -/
theorem begins_step {a : Act} (h : s.stop = .idle ∨ Stopping s) (hs : step cfg s a = some t) :
    t.stop = .idle ∨ Stopping t := by
  rcases h with hidle | h
  · cases a with
    | drv a =>
      obtain ⟨-, u, -, rfl⟩ := step_drv hs
      exact .inl hidle
    | stop =>
      rw [step, stopTurn, hidle] at hs
      cases hs
      exact .inr ⟨rfl, by simp, by simp [stopLeft], by simp [stopLeft], by simp [stopLeft],
        by simp [stopLeft]⟩
  · exact .inr (stopping_step h hs).1

/-- The receive worker has a step until it has left its loop. -/
theorem Stopping.rx_progress (h : Stopping s) (hl : stopLeft s.stop ≤ 3) (hrx : s.drv.rx ≠ .done) :
    ∃ a, a.works = true ∧ (step cfg s a).isSome = true := by
  cases hpc : s.drv.rx with
  | top => exact ⟨.drv .rxTop, rfl, by simp [step, Fast.step, hpc]⟩
  | stall => exact ⟨.drv .rxWake, rfl, by simp [step, Fast.step, hpc, h.stalled hl hpc]⟩
  | notify n => exact ⟨.drv .rxNotify, rfl, by simp [step, Fast.step, hpc]⟩
  | recv n => exact ⟨.drv (.rxRecv .timeout ⟨0, 0⟩), rfl, by simp [step, Fast.step, hpc]⟩
  | done => exact absurd hpc hrx

/-- The cache worker has a step until it has left its loop. -/
theorem Stopping.cache_progress (h : Stopping s) (hl : stopLeft s.stop ≤ 2)
    (hcache : s.drv.cache ≠ .done) : ∃ a, a.works = true ∧ (step cfg s a).isSome = true := by
  let env : FileEnv := ⟨"", none, [], none, fun _ => ""⟩
  cases hpc : s.drv.cache with
  | top => exact ⟨.drv .cacheReturn, rfl, by simp [step, Fast.step, hpc]⟩
  | signal u => exact ⟨.drv .cacheSignal, rfl, by simp [step, Fast.step, hpc]⟩
  | wait => exact ⟨.drv .cacheWake, rfl, by simp [step, Fast.step, hpc, h.waiting hl hpc]⟩
  | swap => exact ⟨.drv .cacheSwap, rfl, by simp [step, Fast.step, hpc]⟩
  | dispatch i =>
    exact ⟨.drv (.cacheDispatch ⟨⟨0, 0⟩, fun _ _ => 0⟩), rfl, by simp [step, Fast.step, hpc]⟩
  | rotate => exact ⟨.drv (.cacheRotate env), rfl, by simp [step, Fast.step, hpc]⟩
  | «open» name => exact ⟨.drv (.cacheOpen env), rfl, by simp [step, Fast.step, hpc]⟩
  | write => exact ⟨.drv (.cacheWrite env), rfl, by simp [step, Fast.step, hpc]⟩
  | short => exact ⟨.drv .cacheShort, rfl, by simp [step, Fast.step, hpc]⟩
  | finish => exact ⟨.drv (.cacheFinish env), rfl, by simp [step, Fast.step, hpc]⟩
  | done => exact absurd hpc hcache

/-- PROGRESS: until `stop` returns, it or a worker has a step. -/
theorem Stopping.progress (h : Stopping s) (hs : s.stop ≠ .returned) :
    ∃ a, a.works = true ∧ (step cfg s a).isSome = true := by
  cases hpc : s.stop with
  | idle => exact absurd hpc h.begun
  | wake | stall | ready => exact ⟨.stop, rfl, by simp [step, stopTurn, hpc]⟩
  | joinRx =>
    by_cases hrx : s.drv.rx = .done
    · exact ⟨.stop, rfl, by simp [step, stopTurn, hpc, hrx]⟩
    · exact h.rx_progress (by rw [hpc]; exact Nat.le_succ 2) hrx
  | joinCache =>
    by_cases hcache : s.drv.cache = .done
    · exact ⟨.stop, rfl, by simp [step, stopTurn, hpc, hcache]⟩
    · exact h.cache_progress (by rw [hpc]; exact Nat.le_succ 1) hcache
  | returned => exact absurd hpc hs

end Steps

/-- STOP: once `stop` has begun, in every interleaving with the workers and the records, the workers
    and `stop` have at most `left` steps left, and one of them has a step until `stop` returns. Then
    both workers have left their loops, for ever. -/
theorem stop_returns (cfg : Config) {as : List Act} {s : State E}
    (hs : exec (step cfg) (.init cfg) as = some s) (hbegun : s.stop ≠ .idle) :
    (s.stop ≠ .returned → ∃ a, a.works = true ∧ (step cfg s a).isSome = true) ∧
    (∀ bs t, exec (step cfg) s bs = some t → bs.countP Act.works + left t ≤ left s) ∧
    (s.stop = .returned → s.drv.rx = .done ∧ s.drv.cache = .done) := by
  have h : Stopping s := (inv_exec' (I := fun s : State E => s.stop = .idle ∨ Stopping s)
    (fun _ _ _ h hs => begins_step h hs) (.inl rfl) hs).resolve_left hbegun
  refine ⟨h.progress, fun bs t ht => ?_, fun hret => ?_⟩
  · exact count_exec_le (I := Stopping) (fun _ _ _ h hs => stopping_step h hs) h ht
  · have hzero : stopLeft s.stop = 0 := by
      rw [hret]
      rfl
    exact ⟨h.rx (hzero ▸ Nat.zero_le 1), h.cache (Nat.le_of_eq hzero)⟩

/-- The receive worker reads from its socket and the cache worker is blocked: no more than fifteen
    steps. -/
theorem stop_returns_waiting : ∃ s : State Chains, exec (step (.small 1)) (.init (.small 1))
      [.drv .rxTop, .drv .cacheReturn, .drv .cacheSignal, .stop, .stop, .stop, .stop] = some s ∧
    s.drv.cache = .wait ∧ (∃ a, a.works = true ∧ (step (.small 1) s a).isSome = true) ∧
    ∀ bs t, exec (step (.small 1)) s bs = some t → bs.countP Act.works ≤ 15 := by
  obtain ⟨s, hs⟩ : ∃ s : State Chains, exec (step (.small 1)) (.init (.small 1))
      [.drv .rxTop, .drv .cacheReturn, .drv .cacheSignal, .stop, .stop, .stop, .stop] = some s :=
    ⟨_, rfl⟩
  have hstop : s.stop = .joinRx := by
    cases hs
    rfl
  have hcache : s.drv.cache = .wait := by
    cases hs
    rfl
  have hleft : left s = 15 := by
    cases hs
    rfl
  obtain ⟨hprogress, hbound, -⟩ := stop_returns (.small 1) hs (by simp [hstop])
  exact ⟨s, hs, hcache, hprogress (by simp [hstop]), fun bs t ht =>
    hleft ▸ Nat.le_of_add_right_le (hbound bs t ht)⟩

end Shutdown

end Pscdrv.Fast
