import Pscdrv.Link.Drivers

/-! # Shutdown is safe, when nothing disturbs it

    Until the loop has ended no driver is deleted, and afterwards no callback runs: what a driver
    can be used by then are the records. A driver that was stopped while it was connected still
    says so, and its session is `NULL`; a session that was still connecting is not freed, and its
    events find `NULL` as well. -/

namespace Pscdrv.StopAll

open Libevent Run Tcp

variable {E : Type} [Libevent E]

/-! ### What should hold -/

def Driver.stopped : Driver E → Bool
  | .tcp _ stopped _ => stopped
  | .udp _ stopped => stopped

/-- A callback of the driver waits for its lock. -/
def Driver.waits : Driver E → Bool
  | .tcp f _ _ => f.waiting.isSome
  | .udp _ _ => false

/-- The callbacks of the driver found their own session, and no assertion has failed. -/
def Driver.Own : Driver E → Prop
  | .tcp f _ _ => OwnSession f
  | .udp _ _ => True

/-- No `NULL` session was locked, and no driver was used after it was deleted. -/
structure Safe (s : Sys E) : Prop where
  own : ∀ i, (s.drivers i).Own
  untouched : s.touched = false

/-- The record needs the session of a connected driver. -/
def needsSession : RecordCall E → Bool
  | .forceReConnect => true
  | .transmit .flushSend _ => true
  | .transmit .. => false

/-- A record leaves a driver alone that was stopped while it was connected, and does not take the
    session from a callback that waits. -/
def Driver.Spares (r : RecordCall E) : Driver E → Prop
  | .tcp f false _ => Undisturbed f (.record r)
  | .tcp f true _ => f.psc.connected = true → needsSession r = false
  | .udp _ _ => True

/-- The call is a callback of the event loop. -/
def calledBack : Udp.Op E → Bool
  | .senddata .. | .recvdata .. => true
  | _ => false

/-- What the records and the sockets must not do during the shutdown. -/
def Calm (s : Sys E) : Act E → Prop
  | .tcp i (.record r) => s.deleted i = false ∧ (s.drivers i).Spares r
  | .orphan .. => False
  | .udp i op => calledBack op = false → s.deleted i = false
  | _ => True

/-! ### The invariant -/

/-- A TCP driver after `stopinloop`. -/
structure Stopped (f : Flight E) : Prop extends OwnSession f where
  session : f.psc.session = none
  timerActive : f.psc.timerActive = false
  enabled : f.enabled = false
  quiet : f.waiting = none

def DriverInv : Driver E → Prop
  | .tcp f false orphan => orphan = none ∧ ∃ rx, FlightInv rx f
  | .tcp f true _ => Stopped f
  | .udp _ _ => True

structure Inv (s : Sys E) : Prop where
  driver : ∀ i, DriverInv (s.drivers i)
  busy : ∀ i, (s.drivers i).waits = true ↔ s.busy = some i
  base : BaseInv s.toBase fun i => (s.drivers i).stopped
  untouched : s.touched = false

section Steps

variable {cfg : Tcp.Config} {s t : Sys E}

theorem DriverInv.own {d : Driver E} (h : DriverInv d) : d.Own := by
  cases d with
  | udp u stopped => trivial
  | tcp f stopped orphan =>
    cases stopped with
    | false =>
      obtain ⟨-, rx, hf⟩ := h
      exact hf.toOwnSession
    | true => exact Stopped.toOwnSession h

theorem Inv.safe (h : Inv s) : Safe s := ⟨fun i => (h.driver i).own, h.untouched⟩

/-- Nothing is deleted before the loop has ended. -/
theorem Inv.looping_kept (h : Inv s) (hloop : s.loop = .looping) (k : ℕ) : s.deleted k = false :=
  h.base.kept (looping_up hloop) k

/-! ### `stopinloop` -/

/-- A driver that `stopinloop` is called for, with no callback that waits. -/
theorem stopinloop_inv {d : Driver E} (h : DriverInv d) (hfirst : d.stopped = false)
    (hquiet : d.waits = false) : DriverInv (stopinloop d) ∧ (stopinloop d).stopped = true ∧
      (stopinloop d).waits = false := by
  cases d with
  | udp u stopped => exact ⟨trivial, rfl, rfl⟩
  | tcp f stopped orphan =>
    cases hfirst
    obtain ⟨-, rx, hf⟩ := h
    have hlinked : ¬ (f.psc.connected && f.psc.session.isNone) = true := by
      intro hc
      rw [Bool.and_eq_true] at hc
      have hsome := hf.conn.decoding.linked hc.1
      rw [Option.isNone_iff_eq_none] at hc
      rw [hc.2] at hsome
      cases hsome
    have hnone : f.waiting = none := Option.not_isSome_iff_eq_none.mp (by
      rw [Driver.waits] at hquiet
      rw [hquiet]
      decide)
    rw [stopinloop, if_neg hlinked]
    refine ⟨⟨⟨hf.asserts, hf.ran, fun cb sid hw => ?_⟩, rfl, rfl, rfl, hnone⟩, rfl, ?_⟩
    · cases hnone.symm.trans hw
    · rw [Driver.waits, hnone]
      rfl

/-! ### The thread of the event base -/

theorem set_self (s : Sys E) (i : ℕ) (d : Driver E) : (s.set i d).drivers i = d := if_pos rfl

theorem set_ne (s : Sys E) {i k : ℕ} (d : Driver E) (hk : k ≠ i) :
    (s.set i d).drivers k = s.drivers k := if_neg hk

/-- STEP: the loop calls what was asked for. -/
theorem Inv.called {o : Once} {b : Base} (h : Inv s) (hbusy : s.busy = none)
    (hcalls : Calls s.toBase o b) : Inv ({ s with toBase := b }.called o) := by
  cases hcalls with
  | loopexit hloop hqueue =>
    exact ⟨h.driver, h.busy, h.base.loopexit hloop hqueue, h.untouched⟩
  | @realExit i queue hloop hqueue =>
    -- it was not called before
    obtain ⟨hfirst, hbase⟩ := h.base.realExit hloop hqueue
    have hquiet : (s.drivers i).waits = false := Bool.eq_false_iff.mpr fun hw => by
      cases hbusy.symm.trans ((h.busy i).mp hw)
    obtain ⟨hdriver, hcalled, hwaits⟩ := stopinloop_inv (h.driver i) hfirst hquiet
    refine ⟨fun k => ?_, fun k => ?_, ?_, ?_⟩
    · by_cases hk : k = i
      · rw [Sys.called, hk, set_self]
        exact hdriver
      · rw [Sys.called, set_ne _ _ hk]
        exact h.driver k
    · by_cases hk : k = i
      · rw [Sys.called, hk, set_self, hwaits]
        exact iff_of_false Bool.noConfusion fun hb => by cases hbusy.symm.trans hb
      · rw [Sys.called, set_ne _ _ hk]
        exact h.busy k
    · have hstopped : (fun k => ((({ s with toBase := { s.toBase with queue := queue } } :
          Sys E).called (.realExit i)).drivers k).stopped) =
          Function.update (fun k => (s.drivers k).stopped) i true := by
        funext k
        by_cases hk : k = i
        · rw [hk, Function.update_self, Sys.called, set_self, hcalled]
        · rw [Function.update_of_ne hk, Sys.called, set_ne _ _ hk]
      rw [hstopped]
      exact hbase
    · rw [Sys.called, Sys.set, h.untouched, h.looping_kept hloop i]
      rfl

/-! ### The drivers -/

/-- A driver is replaced that is not deleted, by one that is stopped if it was. -/
theorem Inv.set (h : Inv s) {i : ℕ} {d : Driver E} {busy : Option ℕ} (hd : DriverInv d)
    (hst : d.stopped = (s.drivers i).stopped) (hdel : s.deleted i = false)
    (hself : d.waits = true ↔ busy = some i)
    (hother : ∀ k, k ≠ i → (busy = some k ↔ s.busy = some k)) :
    Inv ({ s with busy := busy }.set i d) := by
  have hstopped : (fun k => ((({ s with busy := busy } : Sys E).set i d).drivers k).stopped) =
      fun k => (s.drivers k).stopped := by
    funext k
    by_cases hk : k = i
    · rw [hk, set_self, hst]
    · rw [set_ne _ _ hk]
  refine ⟨fun k => ?_, fun k => ?_, ?_, ?_⟩
  · by_cases hk : k = i
    · rw [hk, set_self]
      exact hd
    · rw [set_ne _ _ hk]
      exact h.driver k
  · by_cases hk : k = i
    · rw [hk, set_self]
      exact hself
    · rw [set_ne _ _ hk]
      exact (h.busy k).trans (hother k hk).symm
  · rw [hstopped]
    exact h.base
  · rw [Sys.set, h.untouched, hdel]
    rfl

/-- A record that does not need the session of a stopped driver. -/
theorem stopped_call (cfg : Tcp.Config) {f : Flight E} (h : Stopped f) {r : RecordCall E}
    (hr : f.psc.connected = true → needsSession r = false) :
    Ends (fun p => p.session = none ∧ p.timerActive = false) (call cfg f.psc r.op) := by
  cases r with
  | forceReConnect =>
    have hdown : f.psc.connected = false := Bool.eq_false_iff.mpr fun hc => by cases hr hc
    change Ends _ (forceReConnect f.psc)
    rw [forceReConnect, if_pos (by rw [hdown]; rfl)]
    exact ⟨h.session, h.timerActive⟩
  | transmit op hop =>
    refine .of_state (fun p hp => ?_) fun c hc => ?_
    · have hsame : SameRx f.psc p := sends_sameRx hop hp
      have hnone := hsame.session
      rw [h.session, Option.map_none, Option.map_eq_none_iff] at hnone
      exact ⟨hnone, hsame.timerActive.trans h.timerActive⟩
    · cases op with
      | send id => exact withSend_abort (fun _ => queueSendDbuf_abort) hc
      | writeLoSendBlock val =>
        simp only [RecordCall.op, call, writeLoSendBlock] at hc
        split_ifs at hc
        exact withSend_abort (fun _ => queueSendDbuf_abort) hc
      | queueSendId id buf => exact withSend_abort (fun _ => queueSendRaw_abort) hc
      | queueSendRaw blk buf => exact withSend_abort (fun _ => queueSendRaw_abort) hc
      | queueSendDbuf blk buf => exact withSend_abort (fun _ => queueSendDbuf_abort) hc
      | flushSend =>
        have hdown : f.psc.connected = false := Bool.eq_false_iff.mpr fun hc => by cases hr hc
        change flushSend cfg f.psc = _ at hc
        rw [flushSend, if_pos (by rw [hdown]; rfl)] at hc
        cases hc
      | writeBlock id data => cases hc
      | connect env => cases hop
      | event ev => cases hop
      | reconnect env => cases hop
      | forceReConnect => cases hop
      | data chunk env => cases hop
      | written n => cases hop

/-- STEP: a step of a driver that is stopped; only records are processed. -/
theorem stopped_step {f g : Flight E} (h : Stopped f) {op : FlightOp E}
    (hstart : ∀ env, op ≠ .start env)
    (hr : ∀ r, op = .record r → f.psc.connected = true → needsSession r = false)
    (hs : flightStep cfg f op = some g) : Stopped g := by
  have hnone : sessionId f.psc = none := by rw [sessionId, h.session, Option.map_none]
  unfold flightStep at hs
  split at hs
  · cases hs
  cases op with
  | start env => exact absurd rfl (hstart env)
  | raiseEvent ev procOnConnect =>
    dsimp only at hs
    rw [hnone, Option.map_none, ite_self] at hs
    cases hs
  | raiseData chunk env =>
    dsimp only at hs
    rw [hnone, Option.map_none, ite_self] at hs
    cases hs
  | raiseTimer env =>
    dsimp only at hs
    rw [h.timerActive, if_pos (by simp)] at hs
    cases hs
  | run =>
    dsimp only at hs
    rw [h.quiet] at hs
    cases hs
  | record r =>
    dsimp only at hs
    split at hs
    · cases hs
      have hends := stopped_call cfg h (hr r rfl)
      rcases hcall : call cfg f.psc r.op with p | ⟨e, p⟩ | c
      · rw [hcall] at hends
        exact ⟨⟨h.asserts, h.ran, fun cb sid hw => by cases h.quiet.symm.trans hw⟩, hends.1,
          hends.2, by rw [Conn.after, h.enabled]; rfl, h.quiet⟩
      · rw [hcall] at hends
        exact ⟨⟨h.asserts, h.ran, fun cb sid hw => by cases h.quiet.symm.trans hw⟩, hends.1,
          hends.2, by rw [Conn.after, h.enabled]; rfl, h.quiet⟩
      · rw [hcall] at hends
        refine ⟨⟨fun d hd => ?_, h.ran, fun cb sid hw => by cases h.quiet.symm.trans hw⟩,
          h.session, h.timerActive, h.enabled, h.quiet⟩
        cases hd
        exact hends
    · cases hs

theorem allows_looping {i : ℕ} {op : FlightOp E} (h : s.allows i op = true) :
    (∃ env, op = .start env) ∧ s.stop = .idle ∨ (∃ r, op = .record r) ∨ s.loop = .looping := by
  cases op with
  | start env => exact .inl ⟨⟨env, rfl⟩, of_decide_eq_true h⟩
  | record r => exact .inr (.inl ⟨r, rfl⟩)
  | run | raiseEvent | raiseData | raiseTimer =>
    exact .inr (.inr (of_decide_eq_true (Bool.and_eq_true_iff.mp h).1))

theorem allowsUdp_looping {op : Udp.Op E} (hcb : calledBack op = true)
    (h : s.allowsUdp op = true) : s.loop = .looping := by
  cases op with
  | senddata | recvdata => exact of_decide_eq_true (Bool.and_eq_true_iff.mp h).1
  | connect | send | queueSendId | queueSendRaw | queueSendDbuf | flushSend | writeBlock =>
    cases hcb

theorem raised_ne {busy : Option ℕ} (hnone : busy = none) {i k : ℕ} (hk : k ≠ i) :
    some i = some k ↔ busy = some k := by
  rw [hnone, Option.some.injEq]
  exact iff_of_false (fun hb => hk hb.symm) (fun hb => by cases hb)

/-- At most one callback waits: that of the driver the loop is busy with. -/
theorem flightStep_waits {f g : Flight E} {i : ℕ} {op : FlightOp E}
    (hs : flightStep cfg f op = some g) (hallows : s.allows i op = true)
    (hbusy : f.waiting.isSome = true ↔ s.busy = some i) :
    (g.waiting.isSome = true ↔ s.busyAfter i op = some i) ∧
      ∀ k, k ≠ i → (s.busyAfter i op = some k ↔ s.busy = some k) := by
  unfold flightStep at hs
  split at hs
  · cases hs
  cases op with
  | start env =>
    dsimp only at hs
    split at hs
    · cases hs
    · cases hs
      exact ⟨hbusy, fun _ _ => .rfl⟩
  | record r =>
    dsimp only at hs
    split at hs
    · cases hs
      exact ⟨hbusy, fun _ _ => .rfl⟩
    · cases hs
  | run =>
    obtain ⟨cb, -, rfl⟩ := Option.map_eq_some_iff.mp hs
    have hi : s.busy = some i := of_decide_eq_true (Bool.and_eq_true_iff.mp hallows).2
    refine ⟨iff_of_false (fun hw => by cases hw) (fun hb => by cases hb), fun k hk => ?_⟩
    rw [hi, Option.some.injEq]
    exact iff_of_false (fun hb => by cases hb) fun hb => hk hb.symm
  | raiseEvent ev procOnConnect =>
    have hnone : s.busy = none := of_decide_eq_true (Bool.and_eq_true_iff.mp hallows).2
    dsimp only at hs
    split at hs
    · cases hs
    · obtain ⟨sid, -, rfl⟩ := Option.map_eq_some_iff.mp hs
      exact ⟨⟨fun _ => rfl, fun _ => rfl⟩, fun k hk => raised_ne hnone hk⟩
  | raiseData chunk env =>
    have hnone : s.busy = none := of_decide_eq_true (Bool.and_eq_true_iff.mp hallows).2
    dsimp only at hs
    split at hs
    · cases hs
    · obtain ⟨sid, -, rfl⟩ := Option.map_eq_some_iff.mp hs
      exact ⟨⟨fun _ => rfl, fun _ => rfl⟩, fun k hk => raised_ne hnone hk⟩
  | raiseTimer env =>
    have hnone : s.busy = none := of_decide_eq_true (Bool.and_eq_true_iff.mp hallows).2
    dsimp only at hs
    split at hs
    · cases hs
    · cases hs
      exact ⟨⟨fun _ => rfl, fun _ => rfl⟩, fun k hk => raised_ne hnone hk⟩

theorem Inv.tcp {f : Flight E} {i : ℕ} {stopped : Bool} {orphan : Option ℕ} (h : Inv s)
    (hd : s.drivers i = .tcp f stopped orphan) :
    f.waiting.isSome = true ↔ s.busy = some i := by
  have hbusy := h.busy i
  rwa [hd] at hbusy

/-- STEP: a step of a TCP driver. -/
theorem tcp_inv {f g : Flight E} {i : ℕ} {stopped : Bool} {orphan : Option ℕ} {op : FlightOp E}
    (h : Inv s) (hd : s.drivers i = .tcp f stopped orphan) (hcalm : Calm s (.tcp i op))
    (hallows : s.allows i op = true) (hs : flightStep cfg f op = some g) :
    Inv ({ s with busy := s.busyAfter i op }.set i (.tcp g stopped orphan)) := by
  obtain ⟨hself, hother⟩ := flightStep_waits hs hallows (h.tcp hd)
  have hdriver := h.driver i
  rw [hd] at hdriver
  have hdel : s.deleted i = false := by
    rcases allows_looping hallows with ⟨-, hidle⟩ | ⟨r, rfl⟩ | hloop
    · have hreached := h.base.reached
      rw [hidle] at hreached
      exact hreached i
    · exact hcalm.1
    · exact h.looping_kept hloop i
  refine h.set ?_ (by rw [hd]; rfl) hdel hself hother
  cases stopped with
  | false =>
    obtain ⟨horphan, rx, hf⟩ := hdriver
    refine ⟨horphan, rx, flightInv_step hf ?_ hs⟩
    cases op with
    | record r =>
      have hspares := hcalm.2
      rwa [hd] at hspares
    | start | run | raiseEvent | raiseData | raiseTimer => trivial
  | true =>
    refine stopped_step hdriver (fun env hop => ?_) (fun r hop => ?_) hs
    · subst hop
      -- nothing was stopped before `stopAll`
      have hidle : s.stop = .idle := of_decide_eq_true hallows
      cases h.base.stage with
      | up _ _ called hasked hstopped =>
        rw [hidle] at hasked
        obtain ⟨rfl, -⟩ := List.append_eq_nil_iff.mp hasked.symm
        have hmem := (hstopped i).mp (by rw [hd]; rfl)
        cases hmem
      | down _ hdown =>
        rw [hidle] at hdown
        simp [early] at hdown
    · subst hop
      have hspares := hcalm.2
      rwa [hd] at hspares

/-- STEP: every calm step keeps the invariant. -/
theorem inv_step {a : Act E} (h : Inv s) (hcalm : Calm s a) (hs : step cfg s a = some t) :
    Inv t := by
  cases step_cases hs with
  | stop hstops => exact ⟨h.driver, h.busy, h.base.stops hstops, h.untouched⟩
  | loopStart hloop => exact ⟨h.driver, h.busy, h.base.loopStart hloop, h.untouched⟩
  | once hbusy hcalls => exact h.called hbusy hcalls
  | loopEnd hloop hgot hqueue =>
    exact ⟨h.driver, h.busy, h.base.loopEnd hloop hgot hqueue, h.untouched⟩
  | tcp hd hallows hg => exact tcp_inv h hd hcalm hallows hg
  | orphan => exact hcalm.elim
  | @udp i op u v stopped hd hallows =>
    have hbusy := h.busy i
    rw [hd] at hbusy
    refine h.set trivial (by rw [hd]; rfl) ?_ hbusy fun _ _ => .rfl
    by_cases hcb : calledBack op = true
    · exact h.looping_kept (allowsUdp_looping hcb hallows) i
    · exact hcalm (Bool.eq_false_iff.mpr hcb)

theorem inv_init (n : ℕ) {drivers : ℕ → Driver E} (h : ∀ i, (drivers i).Fresh) :
    Inv (Sys.init n drivers) where
  driver i := by
    change DriverInv (drivers i)
    rcases h i with ⟨tx, rx, hd⟩ | ⟨u, hd⟩ <;> rw [hd]
    · exact ⟨rfl, rx, flightInv_init tx rx⟩
    · trivial
  busy i := by
    change (drivers i).waits = true ↔ none = some i
    rcases h i with ⟨tx, rx, hd⟩ | ⟨u, hd⟩ <;> rw [hd]
    all_goals exact iff_of_false Bool.noConfusion fun hb => by cases hb
  base := by
    have hstopped : (fun i => ((Sys.init n drivers).drivers i).stopped) = fun _ => false := by
      funext i
      change (drivers i).stopped = false
      rcases h i with ⟨tx, rx, hd⟩ | ⟨u, hd⟩ <;> rw [hd] <;> rfl
    rw [hstopped]
    exact baseInv_init n
  untouched := rfl

/-! ### Back -/

/-- A record that needs the session of a stopped driver meets an assertion, or locks `NULL`. -/
theorem needs_aborts (cfg : Tcp.Config) {f : Flight E} (h : Stopped f) (hc : f.psc.connected = true)
    {r : RecordCall E} (hr : needsSession r = true) :
    ∃ c, call cfg f.psc r.op = .abort c ∧ c ≠ "!err" := by
  cases r with
  | forceReConnect =>
    refine ⟨"session && !timer_active", ?_, by decide⟩
    change forceReConnect f.psc = _
    rw [forceReConnect, if_neg (by rw [hc]; decide), startReconnect, h.session]
    rfl
  | transmit op hop =>
    cases op with
    | flushSend =>
      refine ⟨"session", ?_, by decide⟩
      change flushSend cfg f.psc = _
      rw [flushSend, if_neg (by rw [hc]; decide), h.session]
    | connect | event | reconnect | forceReConnect | data | send | writeLoSendBlock | queueSendId
      | queueSendRaw | queueSendDbuf | writeBlock | written => cases hr

theorem touched_false {d : Driver E} {i : ℕ} {busy : Option ℕ}
    (h : Safe ({ s with busy := busy }.set i d)) : s.deleted i = false :=
  (Bool.or_eq_false_iff.mp h.untouched).2

theorem Safe.set {d : Driver E} {i : ℕ} (h : Safe (s.set i d)) : d.Own := by
  have hown := h.own i
  rwa [set_self] at hown

/-- STEP BACK: a step that is not calm leads out of the safe states. -/
theorem calm_of_safe {a : Act E} (h : Inv s) (hs : step cfg s a = some t) (hsafe : Safe t) :
    Calm s a := by
  cases step_cases hs with
  | udp hd hallows => exact fun _ => touched_false hsafe
  | @orphan i ev procOnConnect f stopped sid hd =>
    have hdriver := h.driver i
    rw [hd] at hdriver
    cases stopped with
    | false => cases hdriver.1
    | true =>
      have hran := hsafe.set.ran (sid, sessionId f.psc)
        (List.mem_append_right _ (List.mem_singleton_self _))
      rw [sessionId, hdriver.session, Option.map_none] at hran
      cases hran
  | @tcp i op f g stopped orphan hd hallows hg =>
    have hown : OwnSession g := hsafe.set
    have hdriver := h.driver i
    rw [hd] at hdriver
    cases op with
    | start | run | raiseEvent | raiseData | raiseTimer => trivial
    | record r =>
      refine ⟨touched_false hsafe, ?_⟩
      rw [hd]
      cases stopped with
      | false =>
        obtain ⟨-, rx, hf⟩ := hdriver
        exact undisturbed_of_own hf hg hown
      | true =>
        refine fun hc => Bool.eq_false_iff.mpr fun hr => ?_
        obtain ⟨c, hcall, hne⟩ := needs_aborts cfg hdriver hc hr
        unfold flightStep at hg
        split at hg
        · cases hg
        dsimp only at hg
        split at hg
        · cases hg
          refine hne (hown.asserts c ?_)
          rw [hcall]
          rfl
        · cases hg
  | _ => trivial

end Steps

/-- SHUTDOWN: in every state of a run no `NULL` session is locked, no assertion of the connection
    fails and no driver is used after it was deleted, exactly if no record needs the session of a
    driver that was stopped while it was connected, nothing comes from a session that was still
    connecting, no record uses a deleted driver, and none takes the session from a callback. -/
theorem stopAll_safe (cfg : Tcp.Config) (n : ℕ) {drivers : ℕ → Driver E}
    (hfresh : ∀ i, (drivers i).Fresh) (as : List (Act E)) :
    Always (step cfg) Safe (.init n drivers) as ↔ Along (step cfg) Calm (.init n drivers) as :=
  always_iff_along (I := Inv) (C := Calm) (fun _ _ _ h hc hs => inv_step h hc hs)
    (fun _ h => h.safe) (fun _ _ _ h hs hsafe => calm_of_safe h hs hsafe) (inv_init n hfresh)

/-- The driver is still connecting when the loop stops it, and the attempt fails before the loop
    has ended: `bev_eventcb` locks a session that is `NULL`. -/
theorem stopAll_safe_connecting :
    let refused : BevEvent := ⟨false, true, false, false, false, false, "refused"⟩
    ¬ Always (step ⟨0⟩) Safe (.init 1 fun _ => (.tcp (.init ∅ ∅) false none : Driver Chains))
      [.tcp 0 (.start ⟨true, true⟩), .loopStart, .stop, .stop, .stop, .once,
        .orphan 0 refused []] := by
  intro refused h
  have hcalm := (stopAll_safe ⟨0⟩ 1 (fun _ => .inl ⟨∅, ∅, rfl⟩) _).mp h
  exact ((((((hcalm _ rfl).2 _ rfl).2 _ rfl).2 _ rfl).2 _ rfl).2 _ rfl).2 _ rfl |>.1

end Pscdrv.StopAll
