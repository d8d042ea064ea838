import Pscdrv.Tcp.Receive

/-! # The connection of the TCP driver

    `connect`, `eventcb`, `recvdata`, `reconnect` and `forceReConnect` hand the connection from one
    another: the driver has a session, or its reconnect timer is running. `Conn` adds to the driver
    what tells which callback can come next: a session reads only once it is enabled. The timer is
    added wherever `timer_active` is set, so it can run out as long as that is set.

          startAll ──▶ connect ──▶ session ──── error, bad header, forced ────▶ timer
                         ▲  │                                                    ▲ │
                         │  └──────────── attempt fails at once ─────────────────┘ │
                         └─────────────────────────────────────────────────────────┘ -/

namespace Pscdrv.Tcp

open Libevent Run

/-- What a record does to the driver while it is processed. -/
inductive RecordCall (E : Type) [Libevent E] where
  | forceReConnect
  | transmit (op : Op E) (sends : op.sends = true)

variable {E : Type} [Libevent E]

def RecordCall.op : RecordCall E → Op E
  | .forceReConnect => .forceReConnect
  | .transmit op _ => op

/-- Records processed one after another; device support catches the exceptions. -/
def dbProcess (cfg : Config) : Psc E → List (RecordCall E) → Res (Psc E)
  | s, [] => .ok s
  | s, r :: rs =>
    match call cfg s r.op with
    | .ok t => dbProcess cfg t rs
    | .throw _ t => dbProcess cfg t rs
    | .abort c => .abort c

/-- `eventcb`; on a connection it processes the records of `procOnConnect`. -/
def eventcbProc (cfg : Config) (s : Psc E) (ev : BevEvent) (procOnConnect : List (RecordCall E)) :
    Res (Psc E) :=
  (eventcb s ev).andThen fun t => if ev.connected then dbProcess cfg t procOnConnect else .ok t

/-- The driver, and what tells which callback can come. -/
structure Conn (E : Type) [Libevent E] where
  psc : Psc E
  /-- `startAll` has called `connect` -/
  started : Bool
  /-- `bufferevent_enable` was called for the session -/
  enabled : Bool
  /-- an assertion that failed -/
  failed : Option String

def Conn.init (tx rx : Finset UInt16) : Conn E := ⟨.init tx rx, false, false, none⟩

inductive ConnOp (E : Type) [Libevent E] where
  /-- `startAll` -/
  | start (env : ConnEnv)
  /-- `bev_eventcb` for the session, and the records `procOnConnect` it may process -/
  | event (ev : BevEvent) (procOnConnect : List (RecordCall E))
  /-- `chunk` arrives, and `bev_datacb` for the session -/
  | data (chunk : List UInt8) (env : RxEnv)
  /-- `bev_reconnect` -/
  | timer (env : ConnEnv)
  /-- a record is processed by another thread -/
  | record (r : RecordCall E)

/-- After a call; a session that is freed is not enabled any more. -/
def Conn.after (s : Conn E) (enabled : Bool) : Res (Psc E) → Conn E
  | .ok t => { s with psc := t, enabled := enabled && t.session.isSome }
  | .throw _ t => { s with psc := t, enabled := enabled && t.session.isSome }
  | .abort c => { s with failed := some c }

/-- The callbacks that can come, each for the current session. -/
def connStep (cfg : Config) (s : Conn E) (op : ConnOp E) : Option (Conn E) :=
  if s.failed.isSome then none
  else match op with
  | .start env =>
    if s.started then none
    else some ({ s with started := true }.after s.enabled (connect s.psc env))
  | .event ev procOnConnect =>
    if s.psc.session.isSome then
      some (s.after (s.enabled || ev.connected) (eventcbProc cfg s.psc ev procOnConnect))
    else none
  | .data chunk env =>
    if s.enabled then some (s.after s.enabled (recvdata env (arrived s.psc chunk))) else none
  | .timer env =>
    if s.psc.timerActive then some (s.after s.enabled (reconnect s.psc env)) else none
  | .record r => if s.started then some (s.after s.enabled (call cfg s.psc r.op)) else none

/-- The connection is sound: no assertion has failed but that of `queueSend` on `evbuffer_add`, and
    the driver has either a session or a running reconnect timer. -/
structure Linked (s : Conn E) : Prop where
  asserts : ∀ c, s.failed = some c → c = "!err"
  either : s.started = true → (s.psc.session.isSome = true ↔ ¬ s.psc.timerActive = true)
  connected : s.psc.connected = true → s.psc.session.isSome = true

/-- `bufferevent_socket_new()` gives a session to a step that connects. -/
def SocketNew (_ : Conn E) : ConnOp E → Prop
  | .start env => env.socketNew = true
  | .timer env => env.socketNew = true
  | _ => True

/-! ### What the calls do to the connection -/

/-- The connection is as it was. -/
structure Same (s t : Psc E) : Prop where
  session : t.session.map Session.id = s.session.map Session.id
  connected : t.connected = s.connected
  timerActive : t.timerActive = s.timerActive

/-- The connection is as it was, or the session is given up for the timer. -/
inductive Goes (s t : Psc E) : Prop where
  | same (h : Same s t)
  | givenUp (session : t.session = none) (connected : t.connected = false)
      (timerActive : t.timerActive = true)

theorem Same.trans {s t u : Psc E} (h : Same s t) (k : Same t u) : Same s u :=
  ⟨k.session.trans h.session, k.connected.trans h.connected, k.timerActive.trans h.timerActive⟩

theorem Goes.trans {s t u : Psc E} (h : Goes s t) (k : Goes t u) : Goes s u := by
  cases k with
  | givenUp hs hc ht => exact .givenUp hs hc ht
  | same k =>
    cases h with
    | same h => exact .same (h.trans k)
    | givenUp hs hc ht =>
      have hnone := k.session
      rw [hs, Option.map_none, Option.map_eq_none_iff] at hnone
      exact .givenUp hnone (k.connected.trans hc) (k.timerActive.trans ht)

theorem SameRx.same {s t : Psc E} (h : SameRx s t) : Same s t := by
  refine ⟨?_, h.connected, h.timerActive⟩
  have hid := congrArg (Option.map Prod.fst) h.session
  simpa [Function.comp_def] using hid

/-- A call that keeps the decoder in its place, seen from the connection. -/
structure Moves (rx : Finset UInt16) (s t : Psc E) : Prop where
  decoding : Decoding rx t
  goes : Goes s t

theorem Moves.refl {rx : Finset UInt16} {s : Psc E} (h : Decoding rx s) : Moves rx s s :=
  ⟨h, .same ⟨rfl, rfl, rfl⟩⟩

theorem Moves.trans {rx : Finset UInt16} {s t u : Psc E} (h : Moves rx s t) (k : Moves rx t u) :
    Moves rx s u := ⟨k.decoding, h.goes.trans k.goes⟩

/-- A call returns, or throws, in a state that satisfies `P`; only the assertion of `queueSend` on
    `evbuffer_add` can fail. -/
def Ends (P : Psc E → Prop) : Res (Psc E) → Prop
  | .ok t => P t
  | .throw _ t => P t
  | .abort c => c = "!err"

theorem Ends.mono {P Q : Psc E → Prop} (h : ∀ t, P t → Q t) :
    ∀ {r : Res (Psc E)}, Ends P r → Ends Q r
  | .ok t, hr => h t hr
  | .throw _ t, hr => h t hr
  | .abort _, hr => hr

theorem Ends.of_state {P : Psc E → Prop} {r : Res (Psc E)} (h : ∀ t, r.state? = some t → P t)
    (ha : ∀ c, r = .abort c → c = "!err") : Ends P r := by
  cases r with
  | ok t => exact h t rfl
  | throw e t => exact h t rfl
  | abort c => exact ha c rfl

section Calls

variable {rx : Finset UInt16} {cfg : Config} {s : Psc E}

theorem startReconnect_ok (h : Decoding rx s) (hsome : s.session.isSome = true) :
    startReconnect s = .ok { s with session := none, connected := false, timerActive := true } := by
  rw [startReconnect, if_neg]
  simp [h.idle hsome, Option.isSome_iff_ne_none.mp hsome]

theorem queueHeader_abort {id : UInt16} {blk : Block E} {n : UInt32} {c : String}
    (h : queueHeader cfg s id blk n = .abort c) : c = "!err" := by
  unfold queueHeader at h
  dsimp only at h
  split_ifs at h
  cases h
  rfl

theorem queueSendDbuf_abort {id : UInt16} {blk : Block E} {buf : DBuffer E} {c : String}
    (h : queueSendDbuf cfg s id blk buf = .abort c) : c = "!err" := by
  rcases Res.abort_andThen h with hq | ⟨t, -, ht⟩
  · exact queueHeader_abort hq
  · dsimp only at ht
    split at ht <;> cases ht

theorem queueSendRaw_abort {id : UInt16} {blk : Block E} {buf : RawBuf} {c : String}
    (h : queueSendRaw cfg s id blk buf = .abort c) : c = "!err" := by
  rcases Res.abort_andThen h with hq | ⟨t, -, ht⟩
  · exact queueHeader_abort hq
  · dsimp only at ht
    split at ht
    · cases ht
    · cases ht
      rfl

theorem withSend_abort {id : UInt16} {f : Block E → Res (Psc E)} {c : String}
    (hf : ∀ b, f b = .abort c → c = "!err") (h : withSend s id f = .abort c) : c = "!err" := by
  unfold withSend at h
  split at h
  · exact hf _ h
  · cases h

/-- A connected driver has a session to flush. -/
theorem flushSend_abort (hd : Decoding rx s) {c : String} (h : flushSend cfg s = .abort c) :
    c = "!err" := by
  unfold flushSend at h
  split_ifs at h with hc
  split at h
  · rename_i hnone
    have hsome := hd.linked (by simpa using hc)
    simp [hnone] at hsome
  · dsimp only at h
    split_ifs at h

theorem sends_abort (hd : Decoding rx s) {op : Op E} (hop : op.sends = true) {c : String}
    (h : call cfg s op = .abort c) : c = "!err" := by
  cases op with
  | send id => exact withSend_abort (fun _ => queueSendDbuf_abort) h
  | writeLoSendBlock val =>
    simp only [call, writeLoSendBlock] at h
    split_ifs at h
    exact withSend_abort (fun _ => queueSendDbuf_abort) h
  | queueSendId id buf => exact withSend_abort (fun _ => queueSendRaw_abort) h
  | queueSendRaw blk buf => exact withSend_abort (fun _ => queueSendRaw_abort) h
  | queueSendDbuf blk buf => exact withSend_abort (fun _ => queueSendDbuf_abort) h
  | flushSend => exact flushSend_abort hd h
  | writeBlock id data => cases h
  | connect env => cases hop
  | event ev => cases hop
  | reconnect env => cases hop
  | forceReConnect => cases hop
  | data chunk env => cases hop
  | written n => cases hop

/-- STEP: a record that does not give a connection up leaves it as it is. -/
theorem record_same (hd : Decoding rx s) (r : RecordCall E)
    (h : r = .forceReConnect → s.connected = false) :
    Ends (fun t => Decoding rx t ∧ Same s t) (call cfg s r.op) := by
  cases r with
  | transmit op hop =>
    refine .of_state (fun t ht => ?_) fun c hc => sends_abort hd hop hc
    have hsame : SameRx s t := sends_sameRx hop ht
    exact ⟨hsame.decoding hd, hsame.same⟩
  | forceReConnect =>
    change Ends _ (forceReConnect s)
    rw [forceReConnect, if_pos (by simp [h rfl])]
    exact ⟨hd, rfl, rfl, rfl⟩

/-- A reconnect is forced on a connected driver. -/
theorem forceReConnect_ok (hd : Decoding rx s) (hc : s.connected = true) :
    forceReConnect s = .ok { s with session := none, connected := false, timerActive := true } := by
  rw [forceReConnect, if_neg (by simp [hc]), startReconnect_ok hd (hd.linked hc)]

/-- STEP: a record is processed. -/
theorem record_ends (hd : Decoding rx s) (r : RecordCall E) :
    Ends (Moves rx s) (call cfg s r.op) := by
  by_cases hgive : r = .forceReConnect ∧ s.connected = true
  · obtain ⟨rfl, hc⟩ := hgive
    have hok := startReconnect_ok hd (hd.linked hc)
    change Ends _ (forceReConnect s)
    rw [forceReConnect_ok hd hc]
    exact ⟨startReconnect_decoding hd (by rw [hok, Res.state?_ok]), .givenUp rfl rfl rfl⟩
  · have hkeep : r = .forceReConnect → s.connected = false := by
      intro hr
      by_contra hc
      exact hgive ⟨hr, by simpa using hc⟩
    exact (record_same hd r hkeep).mono fun _ ht => ⟨ht.1, .same ht.2⟩

/-- RUN: the records of `procOnConnect` are processed. -/
theorem dbProcess_ends (hd : Decoding rx s) (rs : List (RecordCall E)) :
    Ends (Moves rx s) (dbProcess cfg s rs) := by
  induction rs generalizing s with
  | nil => exact .refl hd
  | cons r rs ih =>
    have hone : Ends (Moves rx s) (call cfg s r.op) := record_ends hd r
    unfold dbProcess
    split <;> rename_i heq <;> rw [heq] at hone
    · exact (ih hone.decoding).mono fun _ ht => hone.trans ht
    · exact (ih hone.decoding).mono fun _ ht => hone.trans ht
    · exact hone

/-- The state the records of `procOnConnect` find: connected, if that is what the event says. -/
def reported (s : Psc E) (ev : BevEvent) : Psc E :=
  if ev.connected then
    { s with connected := true, message := "Connected", conncount := s.conncount + 1 }
  else s

theorem reported_decoding (hd : Decoding rx s) (hsome : s.session.isSome = true) (ev : BevEvent) :
    Decoding rx (reported s ev) := by
  unfold reported
  split
  · rename_i hconn
    have hne : s.session ≠ none := Option.isSome_iff_ne_none.mp hsome
    have hstep : step ⟨0⟩ s (.event ev) = some { s with
        connected := true, message := "Connected", conncount := s.conncount + 1 } := by
      rw [step, call, eventcb, if_pos hconn, if_neg (by simpa using hne), Res.state?_ok]
    exact decoding_step hd hstep
  · exact hd

/-- STEP: an event of the session. -/
theorem eventcbProc_ends (hd : Decoding rx s) (hsome : s.session.isSome = true) (ev : BevEvent)
    (rs : List (RecordCall E)) : Ends (Moves rx (reported s ev)) (eventcbProc cfg s ev rs) := by
  have hne : s.session ≠ none := Option.isSome_iff_ne_none.mp hsome
  have hup := reported_decoding hd hsome ev
  unfold eventcbProc eventcb
  by_cases hconn : ev.connected = true
  · rw [if_pos hconn, if_neg (by simpa using hne), Res.andThen_ok, if_pos hconn]
    rw [reported, if_pos hconn] at hup ⊢
    exact dbProcess_ends hup rs
  · rw [if_neg hconn, reported, if_neg hconn]
    by_cases hlost : (ev.error || ev.eof || ev.timeout) = true
    · have hok := startReconnect_ok hd hsome
      have hdown := startReconnect_decoding hd (by rw [hok, Res.state?_ok])
      rw [if_pos hlost, hok, Res.andThen_ok, Res.andThen_ok, if_neg hconn]
      exact ⟨hdown.message _, .givenUp rfl rfl rfl⟩
    · rw [if_neg hlost, Res.andThen_ok, if_neg hconn]
      exact .refl hd

/-- A turn of the loop of `recvdata` does not touch the connection. -/
theorem decodeNext_goes (env : RxEnv) {ses : Session E} (hses : s.session = some ses) :
    Goes s (decodeNext env s ses) := by
  have hid : s.session.map Session.id = some ses.id := by rw [hses]; rfl
  unfold decodeNext decodeBody decodeHead
  dsimp only
  split_ifs
  · split <;> exact .same ⟨hid.symm, rfl, rfl⟩
  all_goals exact .same ⟨hid.symm, rfl, rfl⟩

/-- LOOP: `recvdata` leaves the connection up, or gives it up at a bad header. -/
theorem recvLoop_goes (env : RxEnv) {t : Psc E} (h : recvLoop env s = .ok t) : Goes s t := by
  fun_induction recvLoop env s with
  | case1 => cases h
  | case2 s ses hses =>
    cases h
    exact .same ⟨by rw [hses]; rfl, rfl, rfl⟩
  | case3 => cases h
  | case4 s ses hses =>
    unfold framingError startReconnect at h
    split at h
    · cases h
    · cases h
      exact .givenUp rfl rfl rfl
  | case5 s ses hses _ _ _ _ ih => exact (decodeNext_goes env hses).trans (ih h)
  | case6 => cases h

theorem arrived_goes (chunk : List UInt8) : Goes s (arrived s chunk) := by
  unfold arrived
  split
  · rename_i ses hses
    exact .same ⟨by rw [hses]; rfl, rfl, rfl⟩
  · exact .same ⟨rfl, rfl, rfl⟩

/-- STEP: bytes for the session of a connected driver. -/
theorem recvdata_ends (hd : Decoding rx s) (hc : s.connected = true) (chunk : List UInt8)
    (env : RxEnv) : Ends (Moves rx s) (recvdata env (arrived s chunk)) := by
  obtain ⟨ses, hses⟩ := Option.isSome_iff_exists.mp (hd.linked hc)
  obtain ⟨t, ht, -, hdt⟩ := data_decoding hd hc chunk env
  have hloop : recvLoop env (arrived s chunk) = .ok t := by
    rw [recvdata, arrived_eq hses, if_pos (by simpa using hc)] at ht
    rw [arrived_eq hses, ht]
  rw [ht]
  exact ⟨hdt, (arrived_goes chunk).trans (recvLoop_goes env hloop)⟩

/-- STEP: an attempt to connect gives a session, or the timer is added again. -/
theorem connect_ok (hc : s.connected = false) (hs : s.session = none) (ht : s.timerActive = false)
    {env : ConnEnv} (henv : env.socketNew = true) : ∃ t, connect s env = .ok t ∧
      (t.session = none → t.timerActive = true) := by
  unfold connect
  dsimp only
  rw [if_neg (by simp [hc]), if_neg (by simp [hs]), if_neg (by simp [ht]), if_neg (by simp [henv])]
  split
  · exact ⟨_, rfl, fun _ => rfl⟩
  · exact ⟨_, rfl, nofun⟩

/-- An attempt to connect without memory leaves neither a session nor a running timer. -/
theorem connect_badAlloc (hc : s.connected = false) (hs : s.session = none)
    (ht : s.timerActive = false) {env : ConnEnv} (henv : env.socketNew = false) :
    ∃ t, connect s env = .throw .badAlloc t ∧ t.session = none ∧ t.timerActive = false := by
  unfold connect
  dsimp only
  rw [if_neg (by simp [hc]), if_neg (by simp [hs]), if_neg (by simp [ht]), if_pos (by simp [henv])]
  exact ⟨_, rfl, hs, ht⟩

/-- STEP: an attempt to connect ends at a place the decoder can go on from. -/
theorem connect_ends (hd : Decoding rx s) (hc : s.connected = false) (hs : s.session = none)
    (ht : s.timerActive = false) (env : ConnEnv) : Ends (fun t => Decoding rx t ∧
      (env.socketNew = true → t.session = none → t.timerActive = true)) (connect s env) := by
  have hstate : ∀ t, (connect s env).state? = some t → Decoding rx t := fun _ =>
    connect_decoding hd env
  by_cases henv : env.socketNew = true
  · obtain ⟨t, hok, hany⟩ := connect_ok hc hs ht henv
    rw [hok] at hstate ⊢
    exact ⟨hstate t rfl, fun _ => hany⟩
  · obtain ⟨t, hthrow, -⟩ := connect_badAlloc hc hs ht (by simpa using henv)
    rw [hthrow] at hstate ⊢
    exact ⟨hstate t rfl, fun h => absurd h henv⟩

/-- `reconnect` without a session is `connect` with the timer stopped: its assertions hold. -/
theorem reconnect_eq (hc : s.connected = false) (hs : s.session = none) (env : ConnEnv) :
    reconnect s env = connect { s with timerActive := false } env := by
  rw [reconnect, if_neg (by simp [hc]), if_neg (by simp [hs])]
  by_cases henv : env.socketNew = true
  · obtain ⟨t, hok, hany⟩ := connect_ok (s := { s with timerActive := false }) hc hs rfl henv
    have hassert : (t.session.isSome || t.timerActive) = true := by
      cases h : t.session with
      | none => simp [hany h]
      | some ses => rfl
    rw [hok, Res.andThen_ok, if_pos hassert]
  · obtain ⟨t, hthrow, -⟩ := connect_badAlloc (s := { s with timerActive := false }) hc hs rfl
      (by simpa using henv)
    rw [hthrow, Res.andThen_throw]

end Calls

/-! ### Runs -/

/-- Between two calls: the decoder is in its place, and an enabled session is connected. -/
structure Steady (rx : Finset UInt16) (enabled : Bool) (s : Psc E) : Prop where
  decoding : Decoding rx s
  enabled : enabled = true → s.session.isSome = true → s.connected = true

/-- Without a session the reconnect timer is running. -/
def Timed (s : Psc E) : Prop := s.session = none → s.timerActive = true

theorem Steady.moves {rx : Finset UInt16} {enabled : Bool} {s t : Psc E}
    (h : Steady rx enabled s) (hm : Moves rx s t) : Steady rx enabled t := by
  refine ⟨hm.decoding, fun he ht => ?_⟩
  cases hm.goes with
  | same k =>
    have hsome : t.session.isSome = s.session.isSome := by
      simpa using congrArg Option.isSome k.session
    exact k.connected.trans (h.enabled he (hsome ▸ ht))
  | givenUp hs hc hti => simp [hs] at ht

/-- A session may report that it is connected, and is enabled then. -/
theorem Steady.reported {rx : Finset UInt16} {enabled : Bool} {s : Psc E}
    (h : Steady rx enabled s) (hsome : s.session.isSome = true) (ev : BevEvent) :
    Steady rx (enabled || ev.connected) (reported s ev) := by
  refine ⟨reported_decoding h.decoding hsome ev, fun he _ => ?_⟩
  unfold Tcp.reported
  split
  · rfl
  · rename_i hconn
    exact h.enabled (by simpa [hconn] using he) hsome

theorem Timed.moves {rx : Finset UInt16} {s t : Psc E} (h : Timed s) (hm : Moves rx s t) :
    Timed t := by
  intro hnone
  cases hm.goes with
  | same k =>
    have hs := k.session
    rw [hnone, Option.map_none, eq_comm, Option.map_eq_none_iff] at hs
    exact k.timerActive.trans (h hs)
  | givenUp _ _ ht => exact ht

/-- Before `startAll` there is no connection; the decoder is in its place. -/
structure ConnOk (rx : Finset UInt16) (s : Conn E) : Prop where
  unstarted : s.started = false → s.psc.session = none ∧ s.psc.timerActive = false
  decoding : Decoding rx s.psc
  enabled : s.enabled = true → s.psc.connected = true
  asserts : ∀ c, s.failed = some c → c = "!err"

/-- After `startAll` the connection is sound. -/
structure ConnInv (rx : Finset UInt16) (s : Conn E) : Prop extends ConnOk rx s where
  timed : s.started = true → Timed s.psc

section Runs

variable {rx : Finset UInt16} {cfg : Config} {s s' : Conn E}

theorem ConnInv.linked (h : ConnInv rx s) : Linked s where
  asserts := h.asserts
  either hst := by
    refine ⟨fun hsome => by simp [h.decoding.idle hsome], fun ht => ?_⟩
    by_contra hnone
    exact ht (h.timed hst (by simpa using hnone))
  connected := h.decoding.linked

/-- With a session, or a running timer, `startAll` is past. -/
theorem ConnOk.started (h : ConnOk rx s)
    (hany : s.psc.session.isSome = true ∨ s.psc.timerActive = true) : s.started = true := by
  by_contra hst
  obtain ⟨hnone, hidle⟩ := h.unstarted (by simpa using hst)
  simp [hnone, hidle] at hany

theorem ConnOk.steady (h : ConnOk rx s) : Steady rx s.enabled s.psc :=
  ⟨h.decoding, fun he _ => h.enabled he⟩

/-- A call that returned in a steady state. -/
theorem ConnOk.of_steady {started enabled : Bool} {failed : Option String} {t : Psc E}
    (ht : Steady rx enabled t) (hst : started = true) (ha : ∀ c, failed = some c → c = "!err") :
    ConnOk rx ⟨t, started, enabled && t.session.isSome, failed⟩ := by
  refine ⟨fun hf => absurd (hst.symm.trans hf) nofun, ht.decoding, fun he => ?_, ha⟩
  obtain ⟨hen, hsome⟩ := Bool.and_eq_true_iff.mp he
  exact ht.enabled hen hsome

theorem ConnOk.after (h : ConnOk rx s) (hst : s.started = true) {enabled : Bool}
    {r : Res (Psc E)} (hr : Ends (Steady rx enabled) r) : ConnOk rx (s.after enabled r) := by
  cases r with
  | ok t => exact .of_steady hr hst h.asserts
  | throw e t => exact .of_steady hr hst h.asserts
  | abort c =>
    refine ⟨h.unstarted, h.decoding, h.enabled, fun d hd => ?_⟩
    cases hd
    exact hr

/-- A call that keeps the connection sound, or fails on `evbuffer_add`, keeps the invariant. -/
theorem ConnInv.after (h : ConnInv rx s) (hst : s.started = true) {enabled : Bool}
    {r : Res (Psc E)} (hr : Ends (fun t => Steady rx enabled t ∧ Timed t) r) :
    ConnInv rx (s.after enabled r) := by
  refine ⟨h.toConnOk.after hst (hr.mono fun _ ht => ht.1), fun hst => ?_⟩
  cases r with
  | ok t => exact hr.2
  | throw e t => exact hr.2
  | abort c => exact h.timed hst

/-- Without a session the driver is not connected, and nothing is enabled. -/
theorem ConnOk.down (h : ConnOk rx s) (hnone : s.psc.session = none) :
    s.psc.connected = false ∧ s.enabled = false := by
  have hc : s.psc.connected = false := by
    by_contra hc
    have hsome := h.decoding.linked (by simpa using hc)
    simp [hnone] at hsome
  refine ⟨hc, ?_⟩
  by_contra he
  have hup := h.enabled (by simpa using he)
  simp [hc] at hup

/-- A running timer means that there is no session. -/
theorem ConnOk.waiting (h : ConnOk rx s) (ht : s.psc.timerActive = true) :
    s.psc.session = none := by
  by_contra hne
  have hidle := h.decoding.idle (Option.isSome_iff_ne_none.mpr hne)
  simp [hidle] at ht

/-- STEP: every callback keeps the invariant if a session is there when one is needed. -/
theorem connInv_step {op : ConnOp E} (h : ConnInv rx s) (hop : SocketNew s op)
    (hs : connStep cfg s op = some s') : ConnInv rx s' := by
  unfold connStep at hs
  split at hs
  · cases hs
  cases op with
  | start env =>
    dsimp only at hs
    split at hs
    · cases hs
    · rename_i hst
      cases hs
      obtain ⟨hnone, hidle⟩ := h.unstarted (by simpa using hst)
      obtain ⟨hdown, hoff⟩ := h.down hnone
      have hends := connect_ends h.decoding hdown hnone hidle env
      obtain ⟨t, ht, htimed⟩ := connect_ok hdown hnone hidle hop
      rw [ht] at hends ⊢
      rw [hoff]
      exact ⟨.of_steady ⟨hends.1, nofun⟩ rfl h.asserts, fun _ => htimed⟩
  | event ev procOnConnect =>
    dsimp only at hs
    split at hs
    · rename_i hsome
      cases hs
      have hst := h.started (.inl hsome)
      have htimed : Timed (reported s.psc ev) := by
        unfold reported
        split
        · exact h.timed hst
        · exact h.timed hst
      exact h.after hst ((eventcbProc_ends h.decoding hsome ev procOnConnect).mono
        fun _ ht => ⟨(h.steady.reported hsome ev).moves ht, htimed.moves ht⟩)
    · cases hs
  | data chunk env =>
    dsimp only at hs
    split at hs
    · rename_i hen
      cases hs
      have hc := h.enabled hen
      have hst := h.started (.inl (h.decoding.linked hc))
      exact h.after hst ((recvdata_ends h.decoding hc chunk env).mono
        fun _ ht => ⟨h.steady.moves ht, (h.timed hst).moves ht⟩)
    · cases hs
  | timer env =>
    dsimp only at hs
    split at hs
    · rename_i hti
      cases hs
      have hnone := h.waiting hti
      obtain ⟨hdown, hoff⟩ := h.down hnone
      rw [hoff, reconnect_eq hdown hnone]
      exact h.after (h.started (.inr hti)) ((connect_ends h.decoding.stopTimer hdown hnone rfl
        env).mono fun _ ht => ⟨⟨ht.1, nofun⟩, ht.2 hop⟩)
    · cases hs
  | record r =>
    dsimp only at hs
    split at hs
    · rename_i hst
      cases hs
      exact h.after hst ((record_ends h.decoding r).mono
        fun _ ht => ⟨h.steady.moves ht, (h.timed hst).moves ht⟩)
    · cases hs

/-- STEP BACK: only with a session where one is needed is the next state sound. -/
theorem socketNew_of_linked {op : ConnOp E} (h : ConnInv rx s)
    (hs : connStep cfg s op = some s') (hl : Linked s') : SocketNew s op := by
  unfold connStep at hs
  split at hs
  · cases hs
  cases op with
  | event ev procOnConnect => trivial
  | data chunk env => trivial
  | record r => trivial
  | start env =>
    dsimp only at hs
    split at hs
    · cases hs
    · rename_i hst
      cases hs
      obtain ⟨hnone, hidle⟩ := h.unstarted (by simpa using hst)
      by_contra henv
      obtain ⟨t, ht, hnone', hidle'⟩ := connect_badAlloc (h.down hnone).1 hnone hidle
        (by simpa [SocketNew] using henv)
      rw [ht] at hl
      have heither := hl.either rfl
      change t.session.isSome = true ↔ ¬ t.timerActive = true at heither
      simp [hnone', hidle'] at heither
  | timer env =>
    dsimp only at hs
    split at hs
    · rename_i hti
      cases hs
      have hnone := h.waiting hti
      have hdown := (h.down hnone).1
      by_contra henv
      obtain ⟨t, ht, hnone', hidle'⟩ := connect_badAlloc (s := { s.psc with timerActive := false })
        hdown hnone rfl (by simpa [SocketNew] using henv)
      have hst := h.started (.inr hti)
      rw [reconnect_eq hdown hnone, ht] at hl
      have heither := hl.either hst
      change t.session.isSome = true ↔ ¬ t.timerActive = true at heither
      simp [hnone', hidle'] at heither
    · cases hs

theorem connInv_init (tx rx : Finset UInt16) : ConnInv rx (Conn.init tx rx : Conn E) :=
  ⟨⟨fun _ => ⟨rfl, rfl⟩, decoding_init tx rx, nofun, nofun⟩, nofun⟩

end Runs

/-- THE CONNECTION: in every state of a run it is sound exactly if `bufferevent_socket_new()` gives
    a session to every step that connects. -/
theorem connection_sound (cfg : Config) (tx rx : Finset UInt16) (ops : List (ConnOp E)) :
    Always (connStep cfg) Linked (Conn.init tx rx) ops ↔
      Along (connStep cfg) SocketNew (Conn.init tx rx) ops :=
  always_iff_along (fun _ _ _ h hop hs => connInv_step h hop hs) (fun _ h => h.linked)
    (fun _ _ _ h hs hl => socketNew_of_linked h hs hl) (connInv_init tx rx)

/-- The driver has neither a session nor a reconnect timer. -/
structure Stranded (s : Conn E) : Prop where
  started : s.started = true
  session : s.psc.session = none
  connected : s.psc.connected = false
  timerActive : s.psc.timerActive = false
  enabled : s.enabled = false

/-- STEP: only records are still processed, and none of them starts a connection. -/
theorem stranded_step {cfg : Config} {s s' : Conn E} {op : ConnOp E} (h : Stranded s)
    (hs : connStep cfg s op = some s') : Stranded s' := by
  unfold connStep at hs
  split at hs
  · cases hs
  cases op with
  | start env => simp [h.started] at hs
  | event ev procOnConnect => simp [h.session] at hs
  | data chunk env => simp [h.enabled] at hs
  | timer env => simp [h.timerActive] at hs
  | record r =>
    dsimp only at hs
    rw [if_pos h.started, Option.some.injEq] at hs
    have hcall : ∀ t, (call cfg s.psc r.op).state? = some t →
        t.session = none ∧ t.connected = false ∧ t.timerActive = false := by
      intro t ht
      cases r with
      | transmit op hop =>
        have hsame : SameRx s.psc t := sends_sameRx hop ht
        have hnone := hsame.session
        rw [h.session, Option.map_none, Option.map_eq_none_iff] at hnone
        exact ⟨hnone, hsame.connected.trans h.connected, hsame.timerActive.trans h.timerActive⟩
      | forceReConnect =>
        have hsame : some s.psc = some t := by
          rw [← ht, RecordCall.op, call, forceReConnect, if_pos (by simp [h.connected]),
            Res.state?_ok]
        cases hsame
        exact ⟨h.session, h.connected, h.timerActive⟩
    subst hs
    rcases hr : call cfg s.psc r.op with t | ⟨e, t⟩ | c
    · obtain ⟨h₁, h₂, h₃⟩ := hcall t (by rw [hr, Res.state?_ok])
      exact ⟨h.started, h₁, h₂, h₃, by simp [Conn.after, h.enabled]⟩
    · obtain ⟨h₁, h₂, h₃⟩ := hcall t (by rw [hr, Res.state?_throw])
      exact ⟨h.started, h₁, h₂, h₃, by simp [Conn.after, h.enabled]⟩
    · exact ⟨h.started, h.session, h.connected, h.timerActive, h.enabled⟩

/-- The connection is lost, and when the timer runs out there is no memory for a session: the
    exception leaves `reconnect` after `timer_active` was cleared. From then on nothing connects. -/
theorem reconnect_strands :
    let lost : BevEvent := ⟨false, false, true, false, false, false, ""⟩
    let ops : List (ConnOp Chains) := [.start ⟨true, true⟩, .event lost [], .timer ⟨false, true⟩]
    ∃ s, exec (connStep ⟨0⟩) (Conn.init ∅ ∅) ops = some s ∧ ¬ Linked s ∧
      ∀ more, Always (connStep ⟨0⟩) Stranded s more := by
  intro lost ops
  have hstr : ∃ s, exec (connStep ⟨0⟩) (Conn.init ∅ ∅) ops = some s ∧ Stranded s :=
    ⟨_, rfl, rfl, rfl, rfl, rfl, rfl⟩
  obtain ⟨s, hs, h⟩ := hstr
  refine ⟨s, hs, fun hl => ?_, fun more => always_of_step (fun _ _ _ h hs => stranded_step h hs)
    (fun _ h => h) h⟩
  have heither := hl.either h.started
  simp [h.session, h.timerActive] at heither

end Pscdrv.Tcp
