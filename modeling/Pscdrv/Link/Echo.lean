import Pscdrv.Link.Downlink
import Pscdrv.Link.Sim

/-! # The driver and the simulator

    The driver and `pscsim.py` put together: for each session of the driver the simulator has a
    client, and TCP carries the bytes between the two, in pieces of any size. The driver, the
    coroutines of the simulator and the network go on in any order.

                 written          arrived
        driver ───────────▶ ─ ─ ─ ─ ─ ─ ─ ─▶ client of the session
               ◀─ ─ ─ ─ ─ ─ ◀─────────────
                 stream           writer -/

namespace Pscdrv.Link

open Libevent Run Channel Tcp

/-- The driver with the observer of its mailbox, how many of the bytes written for a session have
    arrived at the simulator, and the clients there. -/
structure Sys (E : Type) [Libevent E] where
  psc : Psc E
  out : Outgoing
  arrived : ℕ → ℕ
  sim : ℕ → Sim.Client

variable {E : Type} [Libevent E]

def Sys.init (tx rx : Finset UInt16) : Sys E := ⟨.init tx rx, .init, fun _ => 0, fun _ => .init⟩

inductive Act (E : Type) [Libevent E] where
  /-- a call on the driver, or its event loop; what it receives comes from the simulator -/
  | driver (op : Op E)
  /-- at most `n` bytes of those written for session `sid` arrive at the simulator -/
  | deliver (sid n : ℕ)
  /-- the client of session `sid` goes on -/
  | sim (sid : ℕ) (op : Sim.Op)
  /-- at most `n` bytes arrive at the driver -/
  | answer (n : ℕ) (env : RxEnv)

/-- The bytes written for session `sid` that have arrived at the simulator. -/
def got (s : Sys E) (sid : ℕ) : List UInt8 := (s.out.written sid).take (s.arrived sid)

/-- The next bytes for the simulator. -/
def toSim (s : Sys E) (sid n : ℕ) : List UInt8 :=
  ((s.out.written sid).drop (s.arrived sid)).take n

/-- The next bytes for the driver. -/
def toDriver (s : Sys E) (sid n : ℕ) : List UInt8 :=
  ((s.sim sid).writer.drop (s.psc.stream sid).length).take n

/-- The client of session `sid` goes on. -/
def setSim (s : Sys E) (sid : ℕ) (c : Sim.Client) : Sys E :=
  { s with sim := fun k => if k = sid then c else s.sim k }

/-- A call on the driver, seen by the observer. -/
def drive (cfg : Config) (s : Sys E) (op : Op E) : Option (Sys E) :=
  (observed (step cfg) (note cfg) (s.psc, s.out) op).map fun p => { s with psc := p.1, out := p.2 }

/-- The driver receives something. -/
def receives : Op E → Bool
  | .data .. => true
  | _ => false

def sysStep (cfg : Config) (s : Sys E) : Act E → Option (Sys E)
  | .driver op => if receives op then none else drive cfg s op
  | .deliver sid n =>
    (Sim.step (s.sim sid) (.arrive (toSim s sid n))).map fun c =>
      { setSim s sid c with
        arrived := fun k => if k = sid then s.arrived k + (toSim s sid n).length else s.arrived k }
  | .sim sid op =>
    if op.arrives = [] then (Sim.step (s.sim sid) op).map fun c => setSim s sid c else none
  | .answer n env =>
    match s.psc.session with
    | some ses => drive cfg s (.data (toDriver s ses.id n) env)
    | none => none

/-- The calls of the driver are safe. -/
def SafeAct (cfg : Config) (s : Sys E) : Act E → Prop
  | .driver op => Safe cfg s.psc op
  | _ => True

/-- What a session has come to. -/
structure Answered (rx : Finset UInt16) (s : Sys E) (sid : ℕ) : Prop where
  /-- the first messages sent have been answered, in order and each once -/
  questions : (s.sim sid).said.filterMap Sim.Said.question <+: s.out.mail.sentTo sid
  /-- the driver has decoded the first messages that were said, answers and others -/
  msgs : (parse (s.psc.stream sid)).msgs <+: (s.sim sid).said.map Sim.Said.msg
  framing : (parse (s.psc.stream sid)).tail ≠ .framing
  events : eventsOf s.psc.rxlog sid = expected rx (parse (s.psc.stream sid))
  /-- the simulator gives up only at the end of the stream, or on an answer out of range -/
  stopped : (s.sim sid).phase = .done → (s.sim sid).eof = true ∨
    ∃ m ∈ s.out.mail.sentTo sid, ∃ now, ¬ Sim.Answerable m now
  /-- when nothing is on its way, every message sent has been answered, and every answer decoded -/
  quiet : s.out.written sid = moved s.psc sid → s.arrived sid = (s.out.written sid).length →
    (s.sim sid).phase = .header → (s.sim sid).reader = [] →
    s.psc.stream sid = (s.sim sid).writer →
    (s.sim sid).said.filterMap Sim.Said.question = s.out.mail.sentTo sid ∧
      (parse (s.psc.stream sid)).msgs = (s.sim sid).said.map Sim.Said.msg

/-- The driver, its mailbox and the clients fit together. -/
structure Loop (rx : Finset UInt16) (s : Sys E) : Prop where
  inPlace : Tcp.InPlace rx s.psc
  posted : Posted s.psc s.out
  sim : ∀ sid, ∃ j, Sim.Answers (s.out.mail.sentTo sid) (got s sid) (s.sim sid) j
  arrived : ∀ sid, s.arrived sid ≤ (s.out.written sid).length
  streams : ∀ sid, s.psc.stream sid <+: (s.sim sid).writer

section Steps

variable {cfg : Config} {rx : Finset UInt16} {s t : Sys E}

/-- What was written for a session are the messages sent to it. -/
theorem Loop.written (h : Loop rx s) (sid : ℕ) :
    s.out.written sid <+: wire msgBytes (s.out.mail.sentTo sid) :=
  (h.posted.sent sid).bytes ▸ h.posted.written sid

/-- STEP (driver): more is written and sent, and what has arrived stays. -/
theorem drive_loop {op : Op E} (h : Loop rx s) (hsafe : Safe cfg s.psc op)
    (hfed : Fed (fun sid => (s.sim sid).writer) s.psc op) (hs : drive cfg s op = some t) :
    Loop rx t := by
  obtain ⟨⟨psc, out⟩, hobs, rfl⟩ := Option.map_eq_some_iff.mp hs
  obtain ⟨hstep, hout⟩ := observed_some hobs
  dsimp only at hstep hout
  subst hout
  have hgot : ∀ sid, got ⟨psc, note cfg s.psc op s.out, s.arrived, s.sim⟩ sid = got s sid := by
    intro sid
    obtain ⟨more, hmore⟩ := written_note cfg s.psc op s.out sid
    rw [got, got, ← hmore]
    exact List.take_append_of_le_length (h.arrived sid)
  refine ⟨inPlace_step h.inPlace hstep, posted_step h.posted hsafe hstep, fun sid => ?_,
    fun sid => ?_, fed_streams h.inPlace.decoding h.streams hfed hstep⟩
  · obtain ⟨j, hj⟩ := h.sim sid
    rw [hgot]
    exact ⟨j, hj.mono (sentTo_note cfg s.psc op s.out sid)⟩
  · exact (h.arrived sid).trans (written_note cfg s.psc op s.out sid).length_le

/-- STEP (simulator): a client goes on, with `chunk` more arrived. -/
theorem sim_loop {op : Sim.Op} {sid : ℕ} {c : Sim.Client} (h : Loop rx s)
    (hgot : got s sid ++ op.arrives <+: s.out.written sid) (hs : Sim.step (s.sim sid) op = some c) :
    Loop rx { setSim s sid c with
      arrived := fun k => if k = sid then s.arrived k + op.arrives.length else s.arrived k } := by
  obtain ⟨j, hj⟩ := h.sim sid
  obtain ⟨j', -, hj'⟩ := Sim.step_answers hj (h.posted.sent sid).lt
    ((List.prefix_append _ _).trans (hgot.trans (h.written sid))) hs
  have hlen : (got s sid ++ op.arrives).length = s.arrived sid + op.arrives.length := by
    rw [List.length_append, got, List.length_take, Nat.min_eq_left (h.arrived sid)]
  refine ⟨h.inPlace, h.posted, fun k => ?_, fun k => ?_, fun k => ?_⟩
  · by_cases hk : k = sid
    · subst hk
      refine ⟨j', ?_⟩
      have hmore : got s k ++ op.arrives =
          (s.out.written k).take (s.arrived k + op.arrives.length) := by
        rw [← hlen]
        exact List.prefix_iff_eq_take.mp hgot
      rw [hmore] at hj'
      change Sim.Answers _ ((s.out.written k).take (if k = k then _ else _))
        (if k = k then c else _) j'
      rw [if_pos rfl, if_pos rfl]
      exact hj'
    · obtain ⟨i, hi⟩ := h.sim k
      refine ⟨i, ?_⟩
      change Sim.Answers _ ((s.out.written k).take (if k = sid then _ else _))
        (if k = sid then c else _) i
      rw [if_neg hk, if_neg hk]
      exact hi
  · change (if k = sid then _ else _) ≤ _
    split
    · rename_i hk
      subst hk
      rw [← hlen]
      exact hgot.length_le
    · exact h.arrived k
  · change _ <+: (if k = sid then c else s.sim k).writer
    split
    · rename_i hk
      subst hk
      exact (h.streams k).trans (Sim.step_writer hs)
    · exact h.streams k

/-- A client goes on without anything arriving. -/
theorem quiet_loop {op : Sim.Op} {sid : ℕ} {c : Sim.Client} (h : Loop rx s)
    (hop : op.arrives = []) (hs : Sim.step (s.sim sid) op = some c) : Loop rx (setSim s sid c) := by
  have hgot : got s sid ++ op.arrives <+: s.out.written sid := by
    rw [hop, List.append_nil]
    exact List.take_prefix _ _
  have hsame : (fun k => if k = sid then s.arrived k + op.arrives.length else s.arrived k) =
      s.arrived := by
    funext k
    rw [hop]
    simp
  have hloop := sim_loop h hgot hs
  rw [hsame] at hloop
  exact hloop

/-- What has arrived at the simulator, and the next bytes. -/
theorem got_toSim (s : Sys E) (sid n : ℕ) : got s sid ++ toSim s sid n <+: s.out.written sid := by
  conv_rhs => rw [← List.take_append_drop (s.arrived sid) (s.out.written sid)]
  exact (List.prefix_append_right_inj _).mpr (List.take_prefix _ _)

/-- What has arrived at the driver, and the next bytes. -/
theorem stream_toDriver (h : Loop rx s) (sid n : ℕ) :
    s.psc.stream sid ++ toDriver s sid n <+: (s.sim sid).writer := by
  obtain ⟨rest, hrest⟩ := h.streams sid
  rw [toDriver, ← hrest, List.drop_left]
  exact (List.prefix_append_right_inj _).mpr (List.take_prefix _ _)

/-- STEP: the system goes on. -/
theorem loop_step {a : Act E} (h : Loop rx s) (hsafe : SafeAct cfg s a)
    (hs : sysStep cfg s a = some t) : Loop rx t := by
  cases a with
  | driver op =>
    simp only [sysStep] at hs
    split_ifs at hs with hop
    refine drive_loop h hsafe ?_ hs
    cases op with
    | data chunk env => exact absurd rfl hop
    | _ => trivial
  | deliver sid n =>
    obtain ⟨c, hc, rfl⟩ := Option.map_eq_some_iff.mp hs
    exact sim_loop h (got_toSim s sid n) hc
  | sim sid op =>
    simp only [sysStep] at hs
    split_ifs at hs with hop
    obtain ⟨c, hc, rfl⟩ := Option.map_eq_some_iff.mp hs
    exact quiet_loop h hop hc
  | answer n env =>
    simp only [sysStep] at hs
    split at hs
    · rename_i ses hses
      have hfed : Fed (fun sid => (s.sim sid).writer) s.psc (.data (toDriver s ses.id n) env) := by
        intro ses' hses'
        cases hses.symm.trans hses'
        exact stream_toDriver h ses.id n
      have hany : Safe cfg s.psc (.data (toDriver s ses.id n) env) := trivial
      exact drive_loop h hany hfed hs
    · cases hs

theorem loop_init (tx : Finset UInt16) : Loop rx (Sys.init tx rx : Sys E) :=
  ⟨inPlace_init tx, posted_init tx rx, fun _ => ⟨0, Sim.answers_init⟩, fun _ => Nat.le_refl 0,
    fun _ => List.nil_prefix⟩

/-- In the loop every session is answered. -/
theorem Loop.answered (h : Loop rx s) (sid : ℕ) : Answered rx s sid := by
  obtain ⟨j, hj⟩ := h.sim sid
  have hlt : ∀ m ∈ (s.sim sid).said.map Sim.Said.msg, m.2.length < 2 ^ 32 := by
    intro m hm
    obtain ⟨x, hx, rfl⟩ := List.mem_map.mp hm
    exact hj.lt x hx
  have hstream : s.psc.stream sid <+: wire msgBytes ((s.sim sid).said.map Sim.Said.msg) :=
    hj.writer ▸ h.streams sid
  obtain ⟨k, tail, hcut⟩ := exists_cut _ hstream
  obtain ⟨hmsgs, hframing⟩ := parse_cut hlt hcut
  refine ⟨hj.questions ▸ List.take_prefix _ _, hmsgs ▸ List.take_prefix _ _, hframing, ?_,
    fun hdone => ?_, fun hmoved harr hp hreader hall => ⟨?_, ?_⟩⟩
  · rw [← h.inPlace.decoding.events sid, (decode_parse rx _).1]
  · have hplace := hj.place
    rw [Sim.Place, hdone] at hplace
    refine hplace.imp_right fun hno => ?_
    obtain ⟨m, now, hm, hno⟩ := hno
    exact ⟨m, List.mem_of_getElem? hm, now, hno⟩
  · -- all that was written has been read, so it holds no more messages than were answered
    have hplace := hj.place
    rw [Sim.Place, hp] at hplace
    dsimp only at hplace
    rw [hreader, List.append_nil, got, harr, List.take_length, hmoved, (h.posted.sent sid).bytes]
      at hplace
    rw [hj.questions]
    refine take_of_wire msgBytes (fun m hm => ?_) hplace
    have hlen := length_msgBytes m
    rw [hm] at hlen
    have h8 : headerSize = 8 := rfl
    rw [List.length_nil] at hlen
    omega
  · have hwhole := parse_wire hlt []
    rw [List.append_nil, ← hj.writer, ← hall] at hwhole
    have hnone : parse [] = ⟨[], .header⟩ := parse_short (Nat.succ_pos 7)
    rw [hwhole, hnone, List.append_nil]

/-- ECHO: the driver and the simulator, in any interleaving. Every message that a session has sent
    is answered at most once, in order; what the driver decodes are the answers and the other
    messages of the simulator, as a whole and in order; it never meets a bad header. When nothing is
    on its way any more, all has been answered and decoded. -/
theorem echo_answered (cfg : Config) (tx rx : Finset UInt16) (acts : List (Act E))
    (hsafe : Along (sysStep cfg) (SafeAct cfg) (Sys.init tx rx) acts) :
    Always (sysStep cfg) (fun s => ∀ sid, Answered rx s sid) (Sys.init tx rx) acts :=
  always_of_along (I := Loop rx) (C := SafeAct cfg) (fun _ _ _ h hc hs => loop_step h hc hs)
    (fun _ h => h.answered) (loop_init tx) hsafe

/-- One message goes to the simulator and its answer comes back, behind the two hellos. -/
theorem echo_answered_once :
    let acts : List (Act Chains) := [.driver (.connect ⟨true, true⟩),
      .driver (.event ⟨true, false, false, false, false, false, ""⟩),
      .driver (.queueSendId 3 ⟨[1, 2], by decide⟩), .driver .flushSend, .driver (.written 10),
      .sim 0 .hello, .deliver 0 7, .deliver 0 7, .sim 0 (.turn ⟨0, 0⟩), .sim 0 (.turn ⟨0, 0⟩),
      .answer 20 ⟨⟨0, 0⟩, fun _ _ => 0⟩, .answer 50 ⟨⟨0, 0⟩, fun _ _ => 0⟩]
    Always (sysStep ⟨0⟩) (fun s => ∀ sid, Answered {13} s sid) (Sys.init ∅ {13}) acts := by
  intro acts
  refine echo_answered ⟨0⟩ ∅ {13} acts ?_
  intro s₁ h₁
  cases h₁
  refine ⟨trivial, fun s₂ h₂ => ?_⟩
  cases h₂
  refine ⟨trivial, fun _ _ => ⟨Or.inl rfl, ?_⟩⟩
  exact along_mono (fun s _ h => h s)
    (along_of_mem (C := fun a => ∀ s, SafeAct ⟨0⟩ s a) (by simp [SafeAct, Safe]))

end Steps

end Pscdrv.Link
