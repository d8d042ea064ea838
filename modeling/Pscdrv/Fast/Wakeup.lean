import Pscdrv.Fast.Pool

/-! # Waking the receive worker of `UDPFast`

    The receive worker blocks on `vpoolStall` when the pool is empty. Two others refill the pool:
    the cache worker signals the event when it finds the pool empty, `devudp_clear_shortbuf` never
    does.

        rxfn    : vpool empty? ──▶ vpoolStall.wait()
        cachefn : was empty? return buffers ──▶ vpoolStall.signal() ──▶ pendingReady.wait()
        record  : return buffers -/

namespace Pscdrv.Fast

open Libevent Run

variable {E : Type} [Libevent E]

/-- The receive worker is blocked in `vpoolStall.wait()`. -/
structure Stalled (s : UdpFast E) : Prop where
  rx : s.rx = .stall
  clear : s.vpoolStall = false

/-- The cache worker is blocked in `pendingReady.wait()`. -/
structure Waiting (s : UdpFast E) : Prop where
  cache : s.cache = .wait
  clear : s.pendingReady = false

/-- The pool has been refilled, and nobody is about to signal the blocked receive worker. -/
structure LostWakeup (s : UdpFast E) : Prop where
  running : s.running = true
  stalled : Stalled s
  vpool : s.vpool ≠ []
  silent : s.cache ≠ .signal true

/-- `devudp_clear_shortbuf` returns buffers while the receive worker is blocked, and the cache
    worker is not about to signal. -/
structure Unsignalled (s : UdpFast E) (temp : List Pkt) : Prop where
  running : s.running = true
  stalled : Stalled s
  silent : s.cache ≠ .signal true
  returned : temp ≠ []

/-- No action of a record is such a return. -/
def Signalled (s : UdpFast E) : Action → Prop
  | .clearReturn k => ∀ temp, s.temps[k]? = some temp → ¬ Unsignalled s temp
  | _ => True

section Steps

variable {cfg : Config} {s t : UdpFast E}

theorem Stalled.congr (h : Stalled t) (hrx : t.rx = s.rx) (hevent : t.vpoolStall = s.vpoolStall) :
    Stalled s :=
  ⟨hrx ▸ h.rx, hevent ▸ h.clear⟩

/-- The receive worker blocks only when the pool is empty. -/
theorem rxTop_awake (s : UdpFast E) : ¬ LostWakeup (rxTop s) := by
  intro h
  have hrun := h.running
  have hrx := h.stalled.rx
  have hpool := h.vpool
  unfold rxTop at hrun hrx hpool
  split at hrun
  · rename_i hstop
    rw [hrun] at hstop
    cases hstop
  · rename_i hgo
    rw [if_neg hgo] at hrx hpool
    split at hrx
    · rename_i hnil
      rw [if_pos hnil] at hpool
      exact hpool hnil
    · dsimp only at hrx
      split at hrx <;> cases hrx

/-- The cache worker signals when it returns buffers to an empty pool. -/
theorem cacheReturn_awake (h : ¬ LostWakeup s) (hc : s.cache = .top) :
    ¬ LostWakeup (cacheReturn s) := by
  intro hlost
  have hnil : s.vpool = [] := by
    by_contra hne
    exact h ⟨hlost.running, hlost.stalled.congr rfl rfl, hne, by simp [hc]⟩
  have hne := hlost.vpool
  apply hlost.silent
  unfold cacheReturn at hne ⊢
  dsimp only at hne ⊢
  have hin : s.inprog ≠ [] := by
    intro hin
    rw [hin] at hne
    exact hne hnil
  simp [hin, hnil] at hne ⊢
  exact hne

/-- STEP: a wake-up is lost only by a record that returns buffers. -/
theorem awake_step (s : UdpFast E) (a : Action) (t : UdpFast E) (h : ¬ LostWakeup s)
    (hsig : Signalled s a) (hs : step cfg s a = some t) : ¬ LostWakeup t := by
  intro hlost
  cases step_cases hs with
  | rxTop => exact rxTop_awake s hlost
  | rxRecv => exact rxTop_awake _ hlost
  | rxWake =>
    have hrx := hlost.stalled.rx
    cases hrx
  | rxNotify =>
    have hrx := hlost.stalled.rx
    cases hrx
  | cacheReturn hc => exact cacheReturn_awake h hc hlost
  | cacheSignal _ hc =>
    obtain ⟨hclear, hu⟩ := Bool.or_eq_false_iff.mp hlost.stalled.clear
    exact h ⟨hlost.running, ⟨hlost.stalled.rx, hclear⟩, hlost.vpool, by simp [hc, hu]⟩
  | cacheWake hc => exact h ⟨hlost.running, hlost.stalled.congr rfl rfl, hlost.vpool, by simp [hc]⟩
  | cacheSwap hc => exact h ⟨hlost.running, hlost.stalled.congr rfl rfl, hlost.vpool, by simp [hc]⟩
  | cacheShort hc => exact h ⟨hlost.running, hlost.stalled.congr rfl rfl, hlost.vpool, by simp [hc]⟩
  | cacheDispatch | cacheRotate | cacheOpen | cacheWrite | cacheFinish | setFile =>
    have hq := step_quiet rfl hs
    rw [hq.frame] at hlost
    refine h ⟨hlost.running, hlost.stalled.congr rfl rfl, hlost.vpool, fun hc => ?_⟩
    rcases hq.idle with hsame | ⟨hidle, _⟩
    · exact hlost.silent (hsame.trans hc)
    · rw [hc] at hidle
      cases hidle
  | clearReturn _ temp hk =>
    have hstalled : Stalled s := hlost.stalled.congr rfl rfl
    refine hsig temp hk ⟨hlost.running, hstalled, hlost.silent, ?_⟩
    rintro rfl
    exact h ⟨hlost.running, hstalled, hlost.vpool, hlost.silent⟩
  | readShortbuf =>
    unfold readShortbuf at hlost
    split at hlost
    · exact h ⟨hlost.running, hlost.stalled.congr rfl rfl, hlost.vpool, hlost.silent⟩
    · exact h hlost
  | clearSwap | reopen | setRecord =>
    exact h ⟨hlost.running, hlost.stalled.congr rfl rfl, hlost.vpool, hlost.silent⟩
  | stop =>
    have hrun := hlost.running
    cases hrun

/-- A record that returns buffers to a pool nobody signals loses the wake-up. -/
theorem unsignalled_lost {temp : List Pkt} (k : ℕ) (h : Unsignalled s temp) :
    LostWakeup (clearReturn s k temp) := by
  refine ⟨h.running, h.stalled.congr rfl rfl, ?_, h.silent⟩
  have hne : ∀ (pkts : List Pkt) (vpool : List Vec), pkts ≠ [] ∨ vpool ≠ [] →
      pkts.foldl (fun vpool p => p.body :: vpool) vpool ≠ [] := by
    intro pkts
    induction pkts with
    | nil => exact fun vpool hne => hne.resolve_left (· rfl)
    | cons p pkts ih => exact fun vpool _ => ih _ (.inr nofun)
  exact hne temp s.vpool (.inl h.returned)

end Steps

/-- WAKE-UP: in every interleaving the receive worker is left blocked with buffers in the pool
    exactly when a record returned them while it was blocked and nobody was about to signal. -/
theorem stall_woken (cfg : Config) (as : List Action) :
    Always (step cfg) (fun s => ¬ LostWakeup s) (UdpFast.init cfg : UdpFast E) as ↔
      Along (step cfg) Signalled (UdpFast.init cfg : UdpFast E) as := by
  refine always_iff_along (I := fun s => ¬ LostWakeup s) awake_step (fun _ h => h) ?_ ?_
  · intro s a t _ hs hlost
    cases a with
    | clearReturn k =>
      intro temp hk hun
      have ht : t = clearReturn s k temp := by
        simpa [step, hk] using hs.symm
      exact hlost (ht ▸ unsignalled_lost k hun)
    | _ => trivial
  · intro h
    have hrx := h.stalled.rx
    cases hrx

/-- One turn of the cache worker with one packet and no data file, from its wake-up to its next
    wait. -/
def cacheTurn : List Action :=
  [.cacheWake, .cacheSwap, .cacheDispatch ⟨⟨0, 0⟩, fun _ _ => 0⟩,
    .cacheDispatch ⟨⟨0, 0⟩, fun _ _ => 0⟩, .cacheRotate ⟨"", none, [], none, fun _ => ""⟩,
    .cacheWrite ⟨"", none, [], none, fun _ => ""⟩, .cacheShort,
    .cacheFinish ⟨"", none, [], none, fun _ => ""⟩, .cacheReturn, .cacheSignal]

/-- One of two buffers goes to the short buffer, the receive worker blocks with the other one, and
    the record returns the first. -/
def clearRace : List Action :=
  [.readShortbuf 1, .rxTop, .cacheReturn, .cacheSignal,
    .rxRecv (.msgs [⟨⟨1, 1⟩, header 1 0, none⟩]) ⟨0, 0⟩, .rxNotify] ++ cacheTurn ++
  [.rxRecv .timeout ⟨0, 0⟩, .clearSwap, .clearReturn 0]

theorem clear_loses_wakeup :
    ∃ s, exec (step (.small 1)) (UdpFast.init (.small 1) : UdpFast Chains) clearRace = some s ∧
      LostWakeup s ∧ Waiting s := by
  have hrun : (exec (step (.small 1)) (UdpFast.init (.small 1) : UdpFast Chains) clearRace).map
      (fun s => (s.running, s.rx, s.vpoolStall, s.vpool.length, s.cache, s.pendingReady)) =
      some (true, .stall, false, 1, .wait, false) := by
    decide +kernel
  obtain ⟨s, hs, hfields⟩ := Option.map_eq_some_iff.mp hrun
  simp only [Prod.mk.injEq] at hfields
  obtain ⟨hrunning, hrx, hclear, hpool, hcache, hready⟩ := hfields
  refine ⟨s, hs, ⟨hrunning, ⟨hrx, hclear⟩, ?_, by simp [hcache]⟩, hcache, hready⟩
  rintro hnil
  rw [hnil] at hpool
  cases hpool

end Pscdrv.Fast
