import Pscdrv.Target.Broadcast
import Pscdrv.Tcp.Connection
import Pscdrv.Tcp.Outgoing
import Pscdrv.Tcp.Progress

/-! # From a peer to the driver

    The server of the target sends whole messages, one behind the other, may give one up in the
    middle and sends nothing behind it; TCP may deliver less still. What the driver receives is then
    an initial piece of a stream of whole messages: it never sees a bad header, keeps the
    connection, and decodes the messages that are there as a whole, in chunks of any size.

        sent       ├─ m₀ ─┤├─ m₁ ─┤├─ m₂ ─┤ …
        received   ├─ m₀ ─┤├─ m₁ …           events of m₀, the header of m₁ if it is there -/

namespace Pscdrv.Link

open Libevent Run Channel Tcp

/-! ### Reading a piece of a stream -/

theorem length_msgBytes (m : Msg) : (msgBytes m).length = headerSize + m.2.length := by
  rw [msgBytes, List.length_append, length_header]

/-- A message that is not there as a whole. -/
theorem parse_piece {m : Msg} (hlt : m.2.length < 2 ^ 32) {l : List UInt8} (h : l <+: msgBytes m)
    (hne : l ≠ msgBytes m) : (parse l).msgs = [] ∧ (parse l).tail ≠ .framing := by
  have hshort : l.length < headerSize + m.2.length := by
    rw [← length_msgBytes]
    exact Nat.lt_of_le_of_ne h.length_le fun heq => hne (h.eq_of_length heq)
  by_cases hhead : l.length < headerSize
  · rw [parse_short hhead]
    exact ⟨rfl, nofun⟩
  · have h8 : headerSize ≤ l.length := by omega
    have htake : l.take headerSize = header m.1 (UInt32.ofNat m.2.length) := by
      rw [List.prefix_iff_eq_take.mp h, List.take_take, Nat.min_eq_left h8, msgBytes,
        List.take_left' (length_header ..)]
    have hps : isPS l = true := by
      have := isPS_header m.1 (UInt32.ofNat m.2.length) []
      rwa [List.append_nil, ← htake, isPS_take] at this
    have hlen : (bodylenOf l).toNat = m.2.length := by
      have := bodylenOf_header m.1 (UInt32.ofNat m.2.length) []
      rw [List.append_nil, ← htake, bodylenOf_take] at this
      rw [this, UInt32.toNat_ofNat', Nat.mod_eq_of_lt hlt]
    rw [parse_open h8 hps (by rw [hlen, List.length_drop]; omega)]
    exact ⟨rfl, nofun⟩

/-- Whole messages in front of something. -/
theorem parse_wire {ms : List Msg} (hlt : ∀ m ∈ ms, m.2.length < 2 ^ 32) (rest : List UInt8) :
    parse (wire msgBytes ms ++ rest) = ⟨ms ++ (parse rest).msgs, (parse rest).tail⟩ := by
  induction ms with
  | nil => rfl
  | cons m ms ih =>
    obtain ⟨hm, hrest⟩ := List.forall_mem_cons.mp hlt
    have hframe := parse_frame ⟨m.1, m.2, hm⟩ (wire msgBytes ms ++ rest)
    rw [ih hrest] at hframe
    rw [wire_cons, List.append_assoc]
    exact hframe

/-- READING: of a piece of a stream the whole messages are read, and no bad header is met. -/
theorem parse_cut {ms : List Msg} (hlt : ∀ m ∈ ms, m.2.length < 2 ^ 32) {got tail : List UInt8}
    {k : ℕ} (h : Cut msgBytes ms got k tail) :
    (parse got).msgs = ms.take k ∧ (parse got).tail ≠ .framing := by
  have htail : (parse tail).msgs = [] ∧ (parse tail).tail ≠ .framing := by
    cases hk : ms[k]? with
    | some m =>
      obtain ⟨hpre, hne⟩ := h.open_ m hk
      exact parse_piece (hlt m (List.mem_of_getElem? hk)) hpre hne
    | none =>
      have hnone : parse [] = ⟨[], .header⟩ := parse_short (Nat.succ_pos 7)
      rw [h.last (Nat.le_antisymm h.le (List.getElem?_eq_none_iff.mp hk)), hnone]
      exact ⟨rfl, nofun⟩
  rw [h.bytes, parse_wire (fun m hm => hlt m (List.mem_of_mem_take hm)), htail.1, List.append_nil]
  exact ⟨rfl, htail.2⟩

/-! ### The driver -/

section Driver

variable {E : Type} [Libevent E] {cfg : Config} {rx : Finset UInt16} {s t : Psc E}

/-- What session `sid` has received of the messages `ms`, and what the driver did with it. -/
structure Hears (rx : Finset UInt16) (ms : List Msg) (s : Psc E) (sid k : ℕ) : Prop where
  cut : ∃ tail, Cut msgBytes ms (s.stream sid) k tail
  msgs : (parse (s.stream sid)).msgs = ms.take k
  events : eventsOf s.rxlog sid = expected rx (parse (s.stream sid))

/-- The bytes that arrive at the driver are, for each session, an initial piece of what the peer
    sends to it. -/
def Fed (peer : ℕ → List UInt8) (s : Psc E) : Op E → Prop
  | .data chunk _ => ∀ ses, s.session = some ses → s.stream ses.id ++ chunk <+: peer ses.id
  | _ => True

/-- Bytes of the peer leave the connection up. -/
def Keeps (cfg : Config) (s : Psc E) (peer : ℕ → List UInt8) : Prop :=
  ∀ chunk env t, Fed peer s (.data chunk env) → step cfg s (.data chunk env) = some t →
    t.connected = true ∧ t.session.map Session.id = s.session.map Session.id

/-- STEP: only a chunk adds to the streams. -/
theorem stream_step {op : Op E} (hs : step cfg s op = some t)
    (hop : ∀ chunk env, op ≠ .data chunk env) : t.stream = s.stream := by
  cases op with
  | connect env =>
    rcases connect_cases hs with ⟨-, -, u, rfl, rfl | rfl | rfl⟩ <;> rfl
  | event ev =>
    rcases eventcb_state hs with ⟨-, rfl⟩ | rfl | ⟨u, hu, msg, rfl⟩
    · rfl
    · rfl
    · exact startReconnect_state hu ▸ rfl
  | reconnect env =>
    rcases connect_cases (reconnect_state hs) with ⟨-, -, u, rfl, rfl | rfl | rfl⟩ <;> rfl
  | forceReConnect =>
    rcases forceReConnect_state hs with rfl | hr
    · rfl
    · exact startReconnect_state hr ▸ rfl
  | data chunk env => exact absurd rfl (hop chunk env)
  | send id => exact (sends_sameRx rfl hs).stream
  | writeLoSendBlock val => exact (sends_sameRx rfl hs).stream
  | queueSendId id buf => exact (sends_sameRx rfl hs).stream
  | queueSendRaw blk buf => exact (sends_sameRx rfl hs).stream
  | queueSendDbuf blk buf => exact (sends_sameRx rfl hs).stream
  | flushSend => exact (sends_sameRx rfl hs).stream
  | writeBlock id data => exact (sends_sameRx rfl hs).stream
  | written n =>
    cases hs
    rfl

/-- STEP: a chunk is added to the stream of the session. -/
theorem stream_data (hd : Decoding rx s) {chunk : List UInt8} {env : RxEnv}
    (hs : step cfg s (.data chunk env) = some t) : ∃ ses, s.session = some ses ∧
      ∀ sid, t.stream sid = if sid = ses.id then s.stream sid ++ chunk else s.stream sid := by
  have hc := connected_of_data hs
  obtain ⟨ses, hses⟩ := Option.isSome_iff_exists.mp (hd.linked hc)
  obtain ⟨u, hu, hstream, -⟩ := data_decoding hd hc chunk env
  rw [step, call, hu, Res.state?_ok, Option.some.injEq] at hs
  refine ⟨ses, hses, fun sid => ?_⟩
  rw [← hs, hstream, arrived_eq hses]

/-- STEP: no bad header, no lost connection. -/
theorem keeps_of_inPlace (h : Tcp.InPlace rx s) {peer : ℕ → List Msg}
    (hlt : ∀ sid, ∀ m ∈ peer sid, m.2.length < 2 ^ 32) :
    Keeps cfg s fun sid => wire msgBytes (peer sid) := by
  intro chunk env t hfed hs
  have hc := connected_of_data hs
  obtain ⟨ses, hses⟩ := Option.isSome_iff_exists.mp (h.decoding.linked hc)
  obtain ⟨-, st, hst, hdec⟩ := h.decoding.current ses hses
  obtain ⟨k, tail, hcut⟩ := exists_cut _ (hfed ses hses)
  -- the decoder does not stop
  have hgoes : ((stages rx).decode st (bytes ses.input ++ chunk)).2 ≠ none := by
    intro hstop
    have hall : ((stages rx).decode .head (s.stream ses.id ++ chunk)).2 = none := by
      rw [(stages rx).decode_append, hdec]
      exact hstop
    exact (parse_cut (hlt ses.id) hcut).2 ((decode_parse rx _).2.mp hall)
  obtain ⟨u, hu, -, hreturns⟩ : ∃ u, step cfg s (.data chunk env) = some u ∧ Unheaded u ∧ _ :=
    data_returns h hc hses hst chunk env
  rw [hs, Option.some.injEq] at hu
  subst hu
  rcases hreturns with ⟨hstop, -⟩ | ⟨ses', n, hses', hup, -⟩
  · exact absurd hstop hgoes
  · refine ⟨hup, ?_⟩
    obtain ⟨v, hv, -, -⟩ := data_decoding h.decoding hc chunk env
    have hmoves := recvdata_ends h.decoding hc chunk env
    rw [step, call, hv, Res.state?_ok, Option.some.injEq] at hs
    rw [hv, hs] at hmoves
    have hgoes' : Goes s t := Moves.goes hmoves
    cases hgoes' with
    | same hsame => exact hsame.session
    | givenUp _ hdown _ =>
      rw [hdown] at hup
      cases hup

/-- The decoder is in its place, in streams that the peers sent. -/
structure Listens (rx : Finset UInt16) (peer : ℕ → List Msg) (s : Psc E) : Prop where
  inPlace : Tcp.InPlace rx s
  streams : ∀ sid, s.stream sid <+: wire msgBytes (peer sid)

/-- What the peers sent has been heard, and will be. -/
structure Hearing (cfg : Config) (rx : Finset UInt16) (peer : ℕ → List Msg) (s : Psc E) : Prop where
  hears : ∀ sid, ∃ k, Hears rx (peer sid) s sid k
  keeps : Keeps cfg s fun sid => wire msgBytes (peer sid)

theorem Listens.hears {peer : ℕ → List Msg} (h : Listens rx peer s)
    (hlt : ∀ sid, ∀ m ∈ peer sid, m.2.length < 2 ^ 32) (sid : ℕ) :
    ∃ k, Hears rx (peer sid) s sid k := by
  obtain ⟨k, tail, hcut⟩ := exists_cut _ (h.streams sid)
  refine ⟨k, ⟨tail, hcut⟩, (parse_cut (hlt sid) hcut).1, ?_⟩
  rw [← h.inPlace.decoding.events sid, (decode_parse rx _).1]

/-- STEP: every call keeps to what the peers sent. -/
theorem fed_streams {peer : ℕ → List UInt8} {op : Op E} (hd : Decoding rx s)
    (h : ∀ sid, s.stream sid <+: peer sid) (hfed : Fed peer s op) (hs : step cfg s op = some t)
    (sid : ℕ) : t.stream sid <+: peer sid := by
  by_cases hop : ∃ chunk env, op = .data chunk env
  · obtain ⟨chunk, env, rfl⟩ := hop
    obtain ⟨ses, hses, hstream⟩ := stream_data hd hs
    rw [hstream]
    split
    · rename_i hid
      rw [hid]
      exact hfed ses hses
    · exact h sid
  · rw [stream_step hs fun chunk env heq => hop ⟨chunk, env, heq⟩]
    exact h sid

theorem listens_step {peer : ℕ → List Msg} {op : Op E} (h : Listens rx peer s)
    (hfed : Fed (fun sid => wire msgBytes (peer sid)) s op) (hs : step cfg s op = some t) :
    Listens rx peer t :=
  ⟨inPlace_step h.inPlace hs, fed_streams h.inPlace.decoding h.streams hfed hs⟩

theorem listens_init (tx : Finset UInt16) (peer : ℕ → List Msg) :
    Listens rx peer (Psc.init tx rx : Psc E) :=
  ⟨inPlace_init tx, fun _ => List.nil_prefix⟩

end Driver

/-- The server at the end of some run, in which no descriptor was mixed up. -/
def Served (srv : Target.Server) : Prop :=
  ∃ ops, Along Target.srvStep Target.Unmixed .init ops ∧
    exec Target.srvStep .init ops = some srv

/-- What the peer of a client was sent is an initial piece of the stream of its messages. -/
theorem outgoing_wire {srv : Target.Server} (h : Served srv) {a : ℕ} {c : Target.PscClient}
    (hc : srv.key.heap a = some c) :
    Target.outgoing srv a <+: wire msgBytes ((srv.given a).map Frame.msg) := by
  obtain ⟨ops, hC, hs⟩ := h
  have hstreams := (Target.orderly_exec hC hs).streams a c hc
  rw [wire_frames]
  cases hf : srv.failed a with
  | false => rw [hstreams.whole hf]
  | true =>
    obtain ⟨before, f, part, hgiven, hpart, -, hout⟩ := hstreams.cut hf
    rw [hgiven, hout, wire_append, wire_cons, wire_nil, List.append_nil]
    exact (List.prefix_append_right_inj _).mpr hpart

/-- DOWNLINK: for every session there is a server that sends to its clients, whatever the sockets do
    and as long as no descriptor is mixed up, and the driver receives initial pieces of what the
    peer of one client was sent, in any chunks and between any other calls. It has decoded the
    messages that are there as a whole, each once, in the order in which the server was asked to
    send them, and no chunk makes it give the connection up. -/
theorem downlink_hears {E : Type} [Libevent E] (cfg : Config) (tx rx : Finset UInt16)
    (ops : List (Op E)) (srv : ℕ → Target.Server) (client : ℕ → ℕ)
    (hsrv : ∀ sid, Served (srv sid) ∧ ((srv sid).key.heap (client sid)).isSome)
    (hfed : Along (step cfg) (Fed fun sid => Target.outgoing (srv sid) (client sid))
      (Psc.init tx rx) ops) :
    Always (step cfg) (Hearing cfg rx fun sid => ((srv sid).given (client sid)).map Frame.msg)
      (Psc.init tx rx : Psc E) ops ∧
    ∀ sid, ((srv sid).given (client sid)).Sublist
      (Target.addressed (srv sid).log (client sid)) := by
  have hlt : ∀ sid, ∀ m ∈ ((srv sid).given (client sid)).map Frame.msg, m.2.length < 2 ^ 32 := by
    intro sid m hm
    obtain ⟨f, -, rfl⟩ := List.mem_map.mp hm
    exact f.body_lt
  let peer : ℕ → List Msg := fun sid => ((srv sid).given (client sid)).map Frame.msg
  have hhears : ∀ s : Psc E, Listens rx peer s → Hearing cfg rx peer s := fun s h =>
    ⟨h.hears hlt, keeps_of_inPlace h.inPlace hlt⟩
  constructor
  · refine always_of_along (fun s op t h hc hs => listens_step h ?_ hs) hhears
      (listens_init tx _) hfed
    cases op with
    | data chunk env =>
      intro ses hses
      obtain ⟨hserved, hsome⟩ := hsrv ses.id
      obtain ⟨c, hc'⟩ := Option.isSome_iff_exists.mp hsome
      exact (hc ses hses).trans (outgoing_wire hserved hc')
    | _ => trivial
  · intro sid
    obtain ⟨⟨ops, hC, hs⟩, hsome⟩ := hsrv sid
    obtain ⟨c, hc⟩ := Option.isSome_iff_exists.mp hsome
    exact ((Target.orderly_exec hC hs).streams _ c hc).order

/-- One message, sent 3 bytes at a time, of which 9 of the 10 bytes have arrived. -/
theorem downlink_hears_part :
    let f : Frame := ⟨7, [1, 2], by decide⟩
    let ops : List (Op Chains) := [.connect ⟨true, true⟩,
      .event ⟨true, false, false, false, false, false, ""⟩,
      .data (f.bytes.take 9) ⟨⟨0, 0⟩, fun _ _ => 0⟩]
    ∃ srv : Target.Server, (srv.given 1).map Frame.msg = [f.msg] ∧
      Always (step ⟨0⟩) (Hearing ⟨0⟩ {7} fun _ => (srv.given 1).map Frame.msg)
        (Psc.init ∅ {7} : Psc Chains) ops ∧
      ∀ _ : ℕ, (srv.given 1).Sublist (Target.addressed srv.log 1) := by
  intro f ops
  let asks : List Target.SrvOp :=
    [.accept (.client 5 1) [] fun _ => .upTo 3, .link, .pscSend 1 f]
  have hsent : ((exec Target.srvStep .init asks).map fun s =>
      ((s.key.heap 1).isSome, Target.outgoing s 1, (s.given 1).map Frame.msg)) =
      some (true, f.bytes, [f.msg]) := by decide +kernel
  obtain ⟨srv, hsrv, hsent⟩ := Option.map_eq_some_iff.mp hsent
  simp only [Prod.mk.injEq] at hsent
  have hserved : Served srv := by
    refine ⟨asks, ?_, hsrv⟩
    intro s₁ h₁
    refine ⟨fun _ _ _ _ _ h => (by cases h), fun s₂ h₂ => ?_⟩
    cases h₁
    refine ⟨fun a ha => by cases ha; rfl, fun s₃ _ => ⟨fun l hl a ha c hc _ => ?_, trivial⟩⟩
    cases h₂
    cases hl
    cases List.mem_singleton.mp ha
    cases hc
    nofun
  refine ⟨srv, hsent.2.2, downlink_hears ⟨0⟩ ∅ {7} ops (fun _ => srv) (fun _ => 1)
    (fun _ => ⟨hserved, hsent.1⟩) ?_⟩
  intro s₁ h₁
  cases h₁
  refine ⟨trivial, fun s₂ h₂ => ?_⟩
  cases h₂
  refine ⟨trivial, fun s₃ _ => ⟨fun ses hses => ?_, trivial⟩⟩
  cases hses
  rw [hsent.2.1]
  exact List.take_prefix 9 f.bytes

end Pscdrv.Link
