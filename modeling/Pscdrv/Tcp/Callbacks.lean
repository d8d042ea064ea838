import Pscdrv.Tcp.Connection

/-! # Callbacks in flight

    The event loop dispatches a callback with the `bufferevent` unlocked, and the callback waits
    for `psc->lock`; meanwhile a record that holds the lock may force a reconnect. `bev_eventcb` and
    `bev_datacb` ignore the `bufferevent` they are called for and take whatever `psc->session` is
    once they have the lock. A run below is any interleaving of dispatches, of callbacks that get
    the lock, and of records; the event loop is one thread.

        event loop   dispatch(ses) ─── waits for psc->lock ───▶ body, on psc->session
        a record                 forceReConnect                         = NULL

    The field `ran` records, for each body that ran, the session its callback was dispatched for and
    the session it found. -/

namespace Pscdrv.Tcp

open Libevent Run

/-- A callback that was dispatched, with the session it is for. -/
inductive Callback (E : Type) [Libevent E] where
  | event (sid : ℕ) (ev : BevEvent) (procOnConnect : List (RecordCall E))
  /-- `chunk` has arrived in the input buffer of the session; only `recvdata` looks at it -/
  | data (sid : ℕ) (chunk : List UInt8) (env : RxEnv)
  | timer (env : ConnEnv)

variable {E : Type} [Libevent E]

/-- The session a callback is for; the timer's is for none. -/
def Callback.session : Callback E → Option ℕ
  | .event sid .. => some sid
  | .data sid .. => some sid
  | .timer _ => none

/-- Which session `psc->session` is. -/
def sessionId (s : Psc E) : Option ℕ := s.session.map Session.id

/-- `BEVGuard h(psc->session)`, and then the body. -/
def bevGuard (s : Psc E) (body : Res (Psc E)) : Res (Psc E) :=
  if s.session.isNone then .abort "bufferevent_lock(NULL)" else body

/-- `bev_eventcb`, `bev_datacb` and `bev_reconnect`, once they have `psc->lock`. -/
def Callback.body (cfg : Config) (s : Psc E) : Callback E → Res (Psc E)
  | .event _ ev procOnConnect => bevGuard s (eventcbProc cfg s ev procOnConnect)
  | .data sid chunk env =>
    bevGuard s (recvdata env (if sessionId s = some sid then arrived s chunk else s))
  | .timer env => reconnect s env

/-- Whether the session is enabled once the callback has run, if it is still there. -/
def Callback.enables : Callback E → Bool
  | .event _ ev _ => ev.connected
  | .data .. => false
  | .timer _ => false

/-- The driver, the callback that waits for `psc->lock`, and what the bodies have found. -/
structure Flight (E : Type) [Libevent E] extends Conn E where
  waiting : Option (Callback E)
  ran : List (ℕ × Option ℕ)

def Flight.init (tx rx : Finset UInt16) : Flight E := ⟨.init tx rx, none, []⟩

inductive FlightOp (E : Type) [Libevent E] where
  /-- `startAll` -/
  | start (env : ConnEnv)
  /-- an event callback is dispatched for the session -/
  | raiseEvent (ev : BevEvent) (procOnConnect : List (RecordCall E))
  /-- a data callback is dispatched for the session -/
  | raiseData (chunk : List UInt8) (env : RxEnv)
  /-- the reconnect timer runs out -/
  | raiseTimer (env : ConnEnv)
  /-- the callback that waits gets the lock and runs -/
  | run
  /-- a record is processed by another thread -/
  | record (r : RecordCall E)

/-- The callback has the lock and runs. -/
def Flight.runs (cfg : Config) (s : Flight E) (cb : Callback E) : Flight E where
  toConn := s.toConn.after (s.enabled || cb.enables) (cb.body cfg s.psc)
  waiting := none
  ran := s.ran ++ (cb.session.map fun sid => (sid, sessionId s.psc)).toList

/-- The event loop dispatches a callback when it has none that waits. -/
def flightStep (cfg : Config) (s : Flight E) (op : FlightOp E) : Option (Flight E) :=
  if s.failed.isSome then none
  else match op with
  | .start env =>
    if s.started then none
    else some { s with
      toConn := { s.toConn with started := true }.after s.enabled (connect s.psc env) }
  | .raiseEvent ev procOnConnect =>
    if s.waiting.isSome then none
    else (sessionId s.psc).map fun sid => { s with waiting := some (.event sid ev procOnConnect) }
  | .raiseData chunk env =>
    if s.waiting.isSome || !s.enabled then none
    else (sessionId s.psc).map fun sid => { s with waiting := some (.data sid chunk env) }
  | .raiseTimer env =>
    if s.waiting.isSome || !s.psc.timerActive then none
    else some { s with waiting := some (.timer env) }
  | .run => s.waiting.map fun cb => s.runs cfg cb
  | .record r =>
    if s.started then some { s with toConn := s.toConn.after s.enabled (call cfg s.psc r.op) }
    else none

/-- Every body found the session it was dispatched for, one that waits would find it, and no
    assertion has failed but that of `queueSend` on `evbuffer_add`. -/
structure OwnSession (s : Flight E) : Prop where
  asserts : ∀ c, s.failed = some c → c = "!err"
  ran : ∀ p ∈ s.ran, p.2 = some p.1
  waiting : ∀ cb sid, s.waiting = some cb → cb.session = some sid → sessionId s.psc = some sid

/-- No record gives the connection up while a callback waits for the lock on behalf of its
    session. -/
def Undisturbed (s : Flight E) : FlightOp E → Prop
  | .record .forceReConnect =>
    s.psc.connected = true → ∀ cb, s.waiting = some cb → cb.session = none
  | _ => True

/-! ### Steps -/

structure FlightInv (rx : Finset UInt16) (s : Flight E) : Prop extends OwnSession s where
  conn : ConnOk rx s.toConn
  /-- a callback waits only after `startAll` -/
  started : s.waiting.isSome = true → s.started = true
  /-- data comes from a connected session -/
  data : ∀ sid chunk env, s.waiting = some (.data sid chunk env) → s.psc.connected = true
  /-- the timer runs out without a session -/
  timer : ∀ env, s.waiting = some (.timer env) → s.psc.session = none

section Steps

variable {rx : Finset UInt16} {cfg : Config} {s s' : Flight E}

/-- STEP: the callback that waits finds what it expects, and its body ends well. -/
theorem body_ends (h : FlightInv rx s) {cb : Callback E} (hw : s.waiting = some cb) :
    Ends (Steady rx (s.enabled || cb.enables)) (cb.body cfg s.psc) := by
  cases cb with
  | event sid ev procOnConnect =>
    have hid : sessionId s.psc = some sid := h.waiting _ sid hw rfl
    have hsome : s.psc.session.isSome = true := by
      simpa [sessionId] using congrArg Option.isSome hid
    have hguard : ¬ s.psc.session.isNone = true := by
      simpa using Option.isSome_iff_ne_none.mp hsome
    rw [Callback.body, bevGuard, if_neg hguard]
    exact (eventcbProc_ends h.conn.decoding hsome ev procOnConnect).mono
      fun _ ht => (h.conn.steady.reported hsome ev).moves ht
  | data sid chunk env =>
    have hid : sessionId s.psc = some sid := h.waiting _ sid hw rfl
    have hc := h.data sid chunk env hw
    have hguard : ¬ s.psc.session.isNone = true := by
      simpa using Option.isSome_iff_ne_none.mp (h.conn.decoding.linked hc)
    rw [Callback.body, bevGuard, if_neg hguard, if_pos hid]
    refine (recvdata_ends h.conn.decoding hc chunk env).mono fun _ ht => ?_
    rw [Callback.enables, Bool.or_false]
    exact h.conn.steady.moves ht
  | timer env =>
    have hnone := h.timer env hw
    obtain ⟨hdown, hoff⟩ := h.conn.down hnone
    rw [Callback.body, reconnect_eq hdown hnone, hoff]
    exact (connect_ends h.conn.decoding.stopTimer hdown hnone rfl env).mono
      fun _ ht => ⟨ht.1, nofun⟩

/-- STEP: the callback that waits runs. -/
theorem runs_inv (h : FlightInv rx s) {cb : Callback E} (hw : s.waiting = some cb) :
    FlightInv rx (s.runs cfg cb) := by
  have hst : s.started = true := h.started (by rw [hw]; rfl)
  have hok : ConnOk rx (s.runs cfg cb).toConn := h.conn.after hst (body_ends h hw)
  refine ⟨⟨hok.asserts, fun p hp => ?_, nofun⟩, hok, nofun, nofun, nofun⟩
  rcases List.mem_append.mp hp with hp | hp
  · exact h.ran p hp
  · rw [Option.mem_toList, Option.map_eq_some_iff] at hp
    obtain ⟨sid, hsid, rfl⟩ := hp
    exact h.waiting cb sid hw hsid

/-- When the connection is as it was, or no callback waits, the invariant is kept. -/
theorem FlightInv.settle (h : FlightInv rx s) {c : Conn E} (hc : ConnOk rx c)
    (hst : c.started = true) (hkeep : Same s.psc c.psc ∨ s.waiting = none) :
    FlightInv rx { s with toConn := c } := by
  rcases hkeep with hsame | hnone
  · refine ⟨⟨hc.asserts, h.ran, fun cb sid hw hsid => ?_⟩, hc, fun _ => hst,
      fun sid chunk env hw => ?_, fun env hw => ?_⟩
    · exact hsame.session.trans (h.waiting cb sid hw hsid)
    · exact hsame.connected.trans (h.data sid chunk env hw)
    · have hmap := hsame.session
      rw [h.timer env hw, Option.map_none, Option.map_eq_none_iff] at hmap
      exact hmap
  · refine ⟨⟨hc.asserts, h.ran, fun cb sid hw _ => ?_⟩, hc, fun _ => hst,
      fun sid chunk env hw => ?_, fun env hw => ?_⟩
    all_goals exact absurd (hnone.symm.trans hw) nofun

/-- STEP: a record leaves the callback that waits what it needs. -/
theorem record_inv (h : FlightInv rx s) (hst : s.started = true) {r : RecordCall E}
    (hop : Undisturbed s (.record r)) :
    FlightInv rx { s with toConn := s.toConn.after s.enabled (call cfg s.psc r.op) } := by
  have hends : Ends (Moves rx s.psc) (call cfg s.psc r.op) := record_ends h.conn.decoding r
  have hok := h.conn.after hst (hends.mono fun _ ht => h.conn.steady.moves ht)
  have hkeep : Ends (fun t => Same s.psc t ∨ s.waiting = none) (call cfg s.psc r.op) := by
    by_cases hgive : r = .forceReConnect ∧ s.psc.connected = true
    · obtain ⟨rfl, hc⟩ := hgive
      have hnone : s.waiting = none := by
        cases hw : s.waiting with
        | none => rfl
        | some cb =>
          have hsid := hop hc cb hw
          cases cb with
          | event sid ev procOnConnect => cases hsid
          | data sid chunk env => cases hsid
          | timer env =>
            have hup := h.conn.decoding.linked hc
            simp [h.timer env hw] at hup
      change Ends _ (forceReConnect s.psc)
      rw [forceReConnect_ok h.conn.decoding hc]
      exact .inr hnone
    · refine (record_same h.conn.decoding r fun hr => ?_).mono fun _ ht => .inl ht.2
      by_contra hc
      exact hgive ⟨hr, by simpa using hc⟩
  refine h.settle hok ?_ ?_
  · rcases call cfg s.psc r.op with t | ⟨e, t⟩ | c <;> exact hst
  · rcases hr : call cfg s.psc r.op with t | ⟨e, t⟩ | c
    · rw [hr] at hkeep; exact hkeep
    · rw [hr] at hkeep; exact hkeep
    · exact .inl ⟨rfl, rfl, rfl⟩

/-- STEP: every step keeps the invariant if no record takes the session from a callback. -/
theorem flightInv_step {op : FlightOp E} (h : FlightInv rx s) (hop : Undisturbed s op)
    (hs : flightStep cfg s op = some s') : FlightInv rx s' := by
  unfold flightStep at hs
  split at hs
  · cases hs
  cases op with
  | start env =>
    dsimp only at hs
    split at hs
    · cases hs
    · rename_i hst
      cases hs
      obtain ⟨hnone, hidle⟩ := h.conn.unstarted (by simpa using hst)
      obtain ⟨hdown, hoff⟩ := h.conn.down hnone
      have hwait : s.waiting = none := by
        by_contra hw
        exact hst (h.started (Option.isSome_iff_ne_none.mpr hw))
      have hstarted : ConnOk rx { s.toConn with started := true } :=
        ⟨nofun, h.conn.decoding, h.conn.enabled, h.asserts⟩
      have hends : Ends (Steady rx s.enabled) (connect s.psc env) :=
        (connect_ends h.conn.decoding hdown hnone hidle env).mono fun _ ht =>
          ⟨ht.1, fun he => absurd (hoff.symm.trans he) nofun⟩
      refine h.settle (hstarted.after rfl hends) ?_ (.inr hwait)
      rcases connect s.psc env with t | ⟨e, t⟩ | c <;> rfl
  | raiseEvent ev procOnConnect =>
    dsimp only at hs
    split at hs
    · cases hs
    · obtain ⟨sid, hsid, rfl⟩ := Option.map_eq_some_iff.mp hs
      have hsome : s.psc.session.isSome = true := by
        simpa [sessionId] using congrArg Option.isSome hsid
      refine ⟨⟨h.asserts, h.ran, fun cb k hw hk => ?_⟩, h.conn,
        fun _ => h.conn.started (.inl hsome), nofun, nofun⟩
      cases hw
      cases hk
      exact hsid
  | raiseData chunk env =>
    dsimp only at hs
    split at hs
    · cases hs
    · rename_i hen
      obtain ⟨sid, hsid, rfl⟩ := Option.map_eq_some_iff.mp hs
      have hc : s.psc.connected = true := by
        simp only [Bool.or_eq_true, not_or] at hen
        exact h.conn.enabled (by simpa using hen.2)
      refine ⟨⟨h.asserts, h.ran, fun cb k hw hk => ?_⟩, h.conn,
        fun _ => h.conn.started (.inl (h.conn.decoding.linked hc)), fun _ _ _ _ => hc, nofun⟩
      cases hw
      cases hk
      exact hsid
  | raiseTimer env =>
    dsimp only at hs
    split at hs
    · cases hs
    · rename_i hti
      cases hs
      have ht : s.psc.timerActive = true := by
        simp only [Bool.or_eq_true, not_or] at hti
        simpa using hti.2
      refine ⟨⟨h.asserts, h.ran, fun cb k hw hk => ?_⟩, h.conn, fun _ => h.conn.started (.inr ht),
        nofun, fun _ _ => h.conn.waiting ht⟩
      cases hw
      cases hk
  | run =>
    obtain ⟨cb, hw, rfl⟩ := Option.map_eq_some_iff.mp hs
    exact runs_inv h hw
  | record r =>
    dsimp only at hs
    split at hs
    · rename_i hst
      cases hs
      exact record_inv h hst hop
    · cases hs

/-- STEP BACK: a record that takes the session from a callback leaves it with none to find. -/
theorem undisturbed_of_own {op : FlightOp E} (h : FlightInv rx s)
    (hs : flightStep cfg s op = some s') (ho : OwnSession s') : Undisturbed s op := by
  cases op with
  | record r =>
    cases r with
    | transmit op hop => trivial
    | forceReConnect =>
      intro hc cb hw
      have hcall : call cfg s.psc RecordCall.forceReConnect.op = .ok
          { s.psc with session := none, connected := false, timerActive := true } :=
        forceReConnect_ok h.conn.decoding hc
      unfold flightStep at hs
      split at hs
      · cases hs
      dsimp only at hs
      rw [if_pos (h.conn.started (.inl (h.conn.decoding.linked hc))), hcall,
        Option.some.injEq] at hs
      subst hs
      by_contra hne
      obtain ⟨sid, hsid⟩ := Option.ne_none_iff_exists'.mp hne
      cases ho.waiting cb sid hw hsid
  | start env => trivial
  | raiseEvent ev procOnConnect => trivial
  | raiseData chunk env => trivial
  | raiseTimer env => trivial
  | run => trivial

theorem flightInv_init (tx rx : Finset UInt16) : FlightInv rx (Flight.init tx rx : Flight E) :=
  ⟨⟨nofun, nofun, nofun⟩, (connInv_init tx rx).toConnOk, nofun, nofun, nofun⟩

end Steps

/-- CALLBACKS: in every state of a run they act on their own session exactly if no record forces a
    reconnect while one of them waits for the lock. -/
theorem callbacks_own_session (cfg : Config) (tx rx : Finset UInt16) (ops : List (FlightOp E)) :
    Always (flightStep cfg) OwnSession (Flight.init tx rx) ops ↔
      Along (flightStep cfg) Undisturbed (Flight.init tx rx) ops :=
  always_iff_along (fun _ _ _ h hop hs => flightInv_step h hop hs) (fun _ h => h.toOwnSession)
    (fun _ _ _ h hs ho => undisturbed_of_own h hs ho) (flightInv_init tx rx)

/-- A data callback is dispatched, a record forces a reconnect before it has the lock, and
    `bev_datacb` locks a session that is `NULL`. -/
theorem callback_finds_null :
    let connected : BevEvent := ⟨true, false, false, false, false, false, ""⟩
    let ops : List (FlightOp Chains) := [.start ⟨true, true⟩, .raiseEvent connected [], .run,
      .raiseData [] ⟨⟨0, 0⟩, fun _ _ => 0⟩, .record .forceReConnect, .run]
    ∃ s, exec (flightStep ⟨0⟩) (Flight.init ∅ ∅) ops = some s ∧
      s.failed = some "bufferevent_lock(NULL)" ∧ s.ran = [(0, some 0), (0, none)] ∧
      ¬ OwnSession s := by
  refine ⟨_, rfl, rfl, rfl, fun h => ?_⟩
  cases h.ran (0, none) (by decide)

end Pscdrv.Tcp
