import Pscdrv.Link.EventBase
import Pscdrv.Tcp.Callbacks
import Pscdrv.Udp.PscUdp

/-! # Shutdown: the drivers on one event base (`psc.cpp`, `pscwrap.cpp`, `pscudp.cpp`)

    The loop runs the callbacks of all drivers, one at a time, and calls what `stopAll` asked for
    between two of them; the records use the drivers all the while. A callback that has got its lock
    is one step here; that it may have to wait for a record then, and that it may wait for ever, is
    left to `Link.StopReturns`.

    `stopinloop` leaves `connected` as it is, and a session that is still connecting is neither
    freed nor pointed to any more: `orphan`. -/

namespace Pscdrv.StopAll

open Libevent Run Tcp

variable {E : Type} [Libevent E]

/-- A driver; `stopped` tells that `stopinloop` was called. -/
inductive Driver (E : Type) [Libevent E] where
  | tcp (flight : Flight E) (stopped : Bool) (orphan : Option ℕ)
  | udp (psc : Udp.PscUdp E) (stopped : Bool)

/-- The event base with its drivers. -/
structure Sys (E : Type) [Libevent E] extends Base where
  drivers : ℕ → Driver E
  /-- the driver whose callback waits for its lock -/
  busy : Option ℕ
  /-- a driver was used after it was deleted -/
  touched : Bool

/-- What a driver is at first. -/
def Driver.Fresh (d : Driver E) : Prop :=
  (∃ tx rx, d = .tcp (.init tx rx) false none) ∨ ∃ psc, d = .udp psc false

def Sys.init (n : ℕ) (drivers : ℕ → Driver E) : Sys E where
  toBase := .init n
  drivers := drivers
  busy := none
  touched := false

/-- `PSC::stopinloop`; that of `PSCUDP` is empty. -/
def stopinloop : Driver E → Driver E
  | .tcp f _ orphan =>
    if f.psc.connected && f.psc.session.isNone then
      .tcp { f with failed := some "session" } true orphan
    else
      .tcp { f with
          psc := { f.psc with session := none, timerActive := false }
          enabled := false } true
        (if f.psc.connected then none else sessionId f.psc)
  | .udp u _ => .udp u true

/-- Replace a driver. -/
def Sys.set (s : Sys E) (i : ℕ) (d : Driver E) : Sys E :=
  { s with
    drivers := fun k => if k = i then d else s.drivers k
    touched := s.touched || s.deleted i }

/-- What the loop calls once: `psc_real_exit` calls `stopinloop`, and `event_base_loopexit` has
    the base alone to do with. -/
def Sys.called (s : Sys E) : Once → Sys E
  | .realExit i => s.set i (stopinloop (s.drivers i))
  | .loopexit => s

inductive Act (E : Type) [Libevent E] where
  /-- the next part of `stopAll` -/
  | stop
  | loopStart
  | once
  | loopEnd
  | tcp (i : ℕ) (op : FlightOp E)
  /-- an event of a session that no driver points to -/
  | orphan (i : ℕ) (ev : BevEvent) (procOnConnect : List (RecordCall E))
  | udp (i : ℕ) (op : Udp.Op E)

/-- When a step of a TCP driver can be taken: the loop is one thread. -/
def Sys.allows (s : Sys E) (i : ℕ) : FlightOp E → Bool
  | .start _ => s.stop = .idle
  | .record _ => true
  | .run => s.loop = .looping && s.busy = some i
  | .raiseEvent .. | .raiseData .. | .raiseTimer _ => s.loop = .looping && s.busy = none

/-- The callback that waits after it. -/
def Sys.busyAfter (s : Sys E) (i : ℕ) : FlightOp E → Option ℕ
  | .start _ | .record _ => s.busy
  | .run => none
  | .raiseEvent .. | .raiseData .. | .raiseTimer _ => some i

/-- When a call of a UDP driver can be made. -/
def Sys.allowsUdp (s : Sys E) : Udp.Op E → Bool
  | .connect _ => s.stop = .idle
  | .senddata .. | .recvdata .. => s.loop = .looping && s.busy = none
  | _ => true

/-- `none` when the action is not possible now, or an assertion of a UDP driver failed. -/
def step (cfg : Tcp.Config) (s : Sys E) : Act E → Option (Sys E)
  | .stop => (stopTurn s.toBase).map fun b => { s with toBase := b }
  | .loopStart => (loopStart s.toBase).map fun b => { s with toBase := b }
  | .once =>
    if s.busy = none then
      (onceTurn s.toBase).map fun p => { s with toBase := p.2 }.called p.1
    else none
  | .loopEnd =>
    if s.busy = none then (loopEnd s.toBase).map fun b => { s with toBase := b } else none
  | .tcp i op =>
    match s.drivers i with
    | .tcp f stopped orphan =>
      if s.allows i op then (flightStep cfg f op).map fun f =>
        { s with busy := s.busyAfter i op }.set i (.tcp f stopped orphan)
      else none
    | .udp .. => none
  | .orphan i ev procOnConnect =>
    match s.drivers i with
    | .tcp f stopped (some sid) =>
      if s.loop = .looping ∧ s.busy = none ∧ f.failed = none then
        some (s.set i (.tcp (f.runs cfg (.event sid ev procOnConnect)) stopped (some sid)))
      else none
    | _ => none
  | .udp i op =>
    match s.drivers i with
    | .udp u stopped =>
      if s.allowsUdp op then (Udp.step u op).map fun u => s.set i (.udp u stopped) else none
    | .tcp .. => none

/-! ### What a step can do -/

/-- The steps, with the conditions they are taken under. -/
inductive Taken (cfg : Tcp.Config) (s : Sys E) : Act E → Sys E → Prop
  | stop {b : Base} (hstops : Stops s.toBase b) : Taken cfg s .stop { s with toBase := b }
  | loopStart (hloop : s.loop = .starting) :
      Taken cfg s .loopStart { s with toBase := { s.toBase with loop := .looping } }
  | once {o : Once} {b : Base} (hbusy : s.busy = none) (hcalls : Calls s.toBase o b) :
      Taken cfg s .once ({ s with toBase := b }.called o)
  | loopEnd (hloop : s.loop = .looping) (hgot : s.gotterm = true) (hqueue : s.queue = []) :
      Taken cfg s .loopEnd { s with toBase := { s.toBase with loop := .ended, running := false } }
  | tcp {i : ℕ} {op : FlightOp E} {f g : Flight E} {stopped : Bool} {orphan : Option ℕ}
      (hd : s.drivers i = .tcp f stopped orphan) (hallows : s.allows i op = true)
      (hg : flightStep cfg f op = some g) :
      Taken cfg s (.tcp i op) ({ s with busy := s.busyAfter i op }.set i (.tcp g stopped orphan))
  | orphan {i : ℕ} {ev : BevEvent} {procOnConnect : List (RecordCall E)} {f : Flight E}
      {stopped : Bool} {sid : ℕ} (hd : s.drivers i = .tcp f stopped (some sid)) :
      Taken cfg s (.orphan i ev procOnConnect)
        (s.set i (.tcp (f.runs cfg (.event sid ev procOnConnect)) stopped (some sid)))
  | udp {i : ℕ} {op : Udp.Op E} {u v : Udp.PscUdp E} {stopped : Bool}
      (hd : s.drivers i = .udp u stopped) (hallows : s.allowsUdp op = true) :
      Taken cfg s (.udp i op) (s.set i (.udp v stopped))

theorem step_cases {cfg : Tcp.Config} {s t : Sys E} {a : Act E} (hs : step cfg s a = some t) :
    Taken cfg s a t := by
  cases a with
  | stop =>
    obtain ⟨b, hb, rfl⟩ := Option.map_eq_some_iff.mp hs
    exact .stop (stopTurn_cases hb)
  | loopStart =>
    obtain ⟨b, hb, rfl⟩ := Option.map_eq_some_iff.mp hs
    obtain ⟨hloop, rfl⟩ := loopStart_cases hb
    exact .loopStart hloop
  | once =>
    obtain ⟨hbusy, hs⟩ := Option.ite_none_right_eq_some.mp hs
    obtain ⟨⟨o, b⟩, hb, rfl⟩ := Option.map_eq_some_iff.mp hs
    exact .once hbusy (onceTurn_cases hb)
  | loopEnd =>
    obtain ⟨-, hs⟩ := Option.ite_none_right_eq_some.mp hs
    obtain ⟨b, hb, rfl⟩ := Option.map_eq_some_iff.mp hs
    obtain ⟨hloop, hgot, hqueue, rfl⟩ := loopEnd_cases hb
    exact .loopEnd hloop hgot hqueue
  | tcp i op =>
    rw [step] at hs
    split at hs
    · rename_i f stopped orphan hd
      split at hs
      · rename_i hallows
        obtain ⟨g, hg, rfl⟩ := Option.map_eq_some_iff.mp hs
        exact .tcp hd hallows hg
      · cases hs
    · cases hs
  | orphan i ev procOnConnect =>
    rw [step] at hs
    split at hs
    · rename_i f stopped sid hd
      split at hs
      · exact Option.some.inj hs ▸ .orphan hd
      · cases hs
    · cases hs
  | udp i op =>
    rw [step] at hs
    split at hs
    · rename_i u stopped hd
      split at hs
      · rename_i hallows
        obtain ⟨v, -, rfl⟩ := Option.map_eq_some_iff.mp hs
        exact .udp hd hallows
      · cases hs
    · cases hs

end Pscdrv.StopAll
