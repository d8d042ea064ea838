import Pscdrv.Tcp.Effects
import Pscdrv.Udp.Receive

/-! # One message over TCP and over UDP

    Both drivers promise the same for a message they have received: its body becomes the data of
    the block, the count goes up by one, the records of the block are scanned and its listeners
    called. Over TCP the message may come in any number of pieces; over UDP it is one datagram.

        TCP    header ──▶ count        body ──▶ store ▸ requestScan ▸ listeners
                             └─ body of length 0: nothing more
        UDP    datagram ──▶ count ▸ store ▸ requestScan ▸ listeners -/

namespace Pscdrv

open Libevent Run

variable {E : Type} [Libevent E]

/-- The block apart from how its data are laid out and from the clock at its last message. -/
def Block.untimed (b : Block E) : Block E := { b.flat with rxtime := ⟨0, 0⟩ }

/-- The block after a message, as the documentation has it. -/
def Block.received (mask : UInt32) (body : List UInt8) (b : Block E) : Block E :=
  { b with count := b.count + 1, data := .assign body }.requestScan mask

theorem Block.untimed_requestScan (mask : UInt32) (b : Block E) :
    (b.requestScan mask).untimed = b.untimed.requestScan mask := by
  unfold Block.requestScan
  by_cases h : b.scanBusy ≠ 0
  · rw [if_pos h, if_pos (show b.untimed.scanBusy ≠ 0 from h)]
    rfl
  · rw [if_neg h, if_neg (show ¬ b.untimed.scanBusy ≠ 0 from h)]
    rfl

namespace Tcp

section Pieces

variable {rx : Finset UInt16} (cfg : Config) {scan : UInt16 → UInt32 → UInt32}

theorem effect_untimed {env : RxEnv} (hscan : env.scanIoRequest = scan) (m : BlockMap E)
    (e : RxEv) : (effect env m e).map Block.untimed =
      effect ⟨⟨0, 0⟩, scan⟩ (m.map Block.untimed) e := by
  subst hscan
  cases e with
  | count id => exact BlockMap.map_modify _ _ fun _ => rfl
  | unknown id => rfl
  | store id body => exact BlockMap.map_modify _ _ fun _ => rfl
  | requestScan id => exact BlockMap.map_modify _ _ fun b => Block.untimed_requestScan _ b
  | listeners id => rfl

theorem replay_untimed {env : RxEnv} (hscan : env.scanIoRequest = scan) (m : BlockMap E)
    (evs : List RxEv) : (replay env m evs).map Block.untimed =
      replay ⟨⟨0, 0⟩, scan⟩ (m.map Block.untimed) evs := by
  induction evs generalizing m with
  | nil => rfl
  | cons e evs ih => exact (ih _).trans (by rw [effect_untimed hscan]; rfl)

theorem untimed_flat (m : BlockMap E) : m.flat.map Block.untimed = m.map Block.untimed := by
  funext id
  change ((m id).map _).map _ = _
  rw [Option.map_map]
  rfl

/-- What a decoder leaves over it leaves over again. -/
theorem decode_again {st st' : Stage} {l left : List UInt8} {out : List RxEv}
    (h : (stages rx).decode st l = (out, some (st', left))) :
    (stages rx).decode st' left = ([], some (st', left)) := by
  have happ := (stages rx).decode_append st l []
  rw [List.append_nil, h] at happ
  obtain ⟨hout, hend⟩ := Prod.mk.inj happ
  have hnil : ((stages rx).decode st' (left ++ [])).1 = [] := by
    exact List.append_cancel_left (hout.symm.trans (List.append_nil out).symm)
  rw [List.append_nil] at hnil
  have hsame : ((stages rx).decode st' (left ++ [])).2 = some (st', left) := hend.symm
  rw [List.append_nil] at hsame
  exact Prod.ext hnil hsame

/-- RUN: the driver does to the blocks what the decoder says, however the stream is cut. -/
theorem chunks_replay {s : Psc E} {ses : Session E} {st st' : Stage} {out : List RxEv}
    {left : List UInt8} (h : Ready rx s ses st) {chunks : List (List UInt8 × RxEnv)}
    (hscan : ∀ c ∈ chunks, c.2.scanIoRequest = scan)
    (hwait : (stages rx).decode st (bytes ses.input) = ([], some (st, bytes ses.input)))
    (hdec : (stages rx).decode st (bytes ses.input ++ (chunks.map Prod.fst).flatten) =
      (out, some (st', left))) :
    ∃ t, exec (step cfg) s (chunks.map fun c => .data c.1 c.2) = some t ∧
      t.rxlog = s.rxlog ++ out.map (fun e => (ses.id, e)) ∧
      t.recvBlocks.map Block.untimed =
        replay ⟨⟨0, 0⟩, scan⟩ (s.recvBlocks.map Block.untimed) out := by
  induction chunks generalizing s ses st out with
  | nil =>
    rw [List.map_nil, List.flatten_nil, List.append_nil, hwait] at hdec
    cases hdec
    exact ⟨s, rfl, (List.append_nil _).symm, rfl⟩
  | cons c chunks ih =>
    rw [List.map_cons, List.flatten_cons, ← List.append_assoc, Decoder.decode_append] at hdec
    rcases hfirst : (stages rx).decode st (bytes ses.input ++ c.1) with ⟨out₁, _ | ⟨st₁, left₁⟩⟩
    · rw [hfirst] at hdec
      cases hdec
    · obtain ⟨s₁, ses₁, hrecv, hready, hleft, hid, hrep⟩ := data_ready h c.1 c.2 hfirst
      have hagain := decode_again hfirst
      rw [hfirst] at hdec
      obtain ⟨hout, hend⟩ := Prod.mk.inj hdec
      rw [← hleft] at hagain hout hend
      obtain ⟨t, ht, hlog, hblocks⟩ := ih hready (fun c hc => hscan c (List.mem_cons_of_mem _ hc))
        hagain (Prod.ext rfl hend)
      refine ⟨t, ?_, ?_, ?_⟩
      · rw [List.map_cons, exec, step, call, hrecv, Res.state?_ok, Option.bind_some, ht]
      · rw [hlog, hrep.log, ← hout, hid, List.map_append, List.append_assoc]
        rfl
      · rw [hblocks, ← hout, replay, replay, List.foldl_append, ← untimed_flat, hrep.blocks,
          replay_untimed (hscan c List.mem_cons_self), untimed_flat]
        rfl

end Pieces

/-- The decoder at a whole message. -/
theorem decode_frame (rx : Finset UInt16) (f : Frame) :
    (stages rx).decode .head f.bytes =
      (headEv rx f.code :: bodyEvs rx f.code f.body, some (.head, [])) := by
  have hlen : (UInt32.ofNat f.body.length).toNat = f.body.length := by
    rw [UInt32.toNat_ofNat', Nat.mod_eq_of_lt f.body_lt]
  have hdrop : f.bytes.drop headerSize = f.body := List.drop_left' (length_header ..)
  have h8 : headerSize ≤ f.bytes.length := by
    rw [Frame.bytes, List.length_append, length_header]
    exact Nat.le_add_right ..
  have hps : isPS f.bytes = true := isPS_header ..
  have hid : msgidOf f.bytes = f.code := msgidOf_header ..
  have hbody : (bodylenOf f.bytes).toNat = f.body.length := by
    rw [Frame.bytes, bodylenOf_header, hlen]
  have hend : (stages rx).decode .head [] = ([], some (.head, [])) :=
    (stages rx).decode_short (Nat.zero_lt_succ 7)
  rw [decode_msg rx h8 hps (by rw [hbody, hdrop]), ← List.drop_drop, hdrop, hbody, hid,
    List.take_length, List.drop_length, hend, List.append_nil]

end Tcp

namespace Udp

/-- An entry of the log as one of the TCP driver, which turns no datagrams down. -/
def RxEv.tcp? : RxEv → Option Tcp.RxEv
  | .unknown id => some (.unknown id)
  | .count id => some (.count id)
  | .store id body => some (.store id body)
  | .requestScan id => some (.requestScan id)
  | .listeners id => some (.listeners id)
  | .ignored | .small | .corrupt | .truncated => none

/-- What both drivers are to do for a message. -/
def promised (f : Frame) : List Tcp.RxEv :=
  [.count f.code, .store f.code f.body, .requestScan f.code, .listeners f.code]

/-- From `s` to `t` the TCP driver, and from `u` to `v` the UDP driver, did what both are to do, and
    blocks that were in the same state are in the same state again. -/
structure Alike (s t : Tcp.Psc E) (u v : PscUdp E) (f : Frame) : Prop where
  tcp : (t.rxlog.drop s.rxlog.length).map Prod.snd = promised f
  udp : (v.rxlog.drop u.rxlog.length).filterMap RxEv.tcp? = promised f
  block : ∀ b c, s.recvBlocks f.code = some b → u.recvBlocks f.code = some c →
    b.untimed = c.untimed → ∃ b' c', t.recvBlocks f.code = some b' ∧
      v.recvBlocks f.code = some c' ∧ b'.untimed = c'.untimed ∧
      b'.data.mem = f.body ∧ b'.count = b.count + 1

section Message

variable {rx : Finset UInt16} (cfg : Tcp.Config)

/-- The TCP driver, whatever the pieces: of an empty body there is nothing but the count. -/
theorem tcp_message {s : Tcp.Psc E} {ses : Tcp.Session E} (h : Tcp.Ready rx s ses .head)
    (hempty : bytes ses.input = []) {f : Frame} (hknown : f.code ∈ rx)
    {chunks : List (List UInt8 × RxEnv)} (hchunks : (chunks.map Prod.fst).flatten = f.bytes)
    {scan : UInt16 → UInt32 → UInt32} (hscan : ∀ c ∈ chunks, c.2.scanIoRequest = scan) :
    ∃ t, exec (Tcp.step cfg) s (chunks.map fun c => .data c.1 c.2) = some t ∧
      (t.rxlog.drop s.rxlog.length).map Prod.snd =
        (if f.body = [] then [.count f.code] else promised f) ∧
      ∀ b, s.recvBlocks f.code = some b → f.body ≠ [] → ∃ b', t.recvBlocks f.code = some b' ∧
        b'.untimed = b.untimed.received (scan f.code b.scanCount) f.body := by
  have hwait : (Tcp.stages rx).decode .head (bytes ses.input) =
      ([], some (.head, bytes ses.input)) := by
    rw [hempty]
    exact (Tcp.stages rx).decode_short (Nat.zero_lt_succ 7)
  have hdec := Tcp.decode_frame rx f
  rw [← hchunks, ← List.nil_append (chunks.map Prod.fst).flatten, ← hempty] at hdec
  obtain ⟨t, ht, hlog, hblocks⟩ := Tcp.chunks_replay cfg h hscan hwait hdec
  have hhead : Tcp.headEv rx f.code = .count f.code := if_pos hknown
  by_cases hbody : f.body = []
  · rw [hhead, Tcp.bodyEvs, if_neg (fun h => h.2 hbody)] at hlog
    refine ⟨t, ht, ?_, fun b hb hne => absurd hbody hne⟩
    rw [hlog, List.drop_left, if_pos hbody]
    rfl
  · rw [hhead, Tcp.bodyEvs, if_pos ⟨hknown, hbody⟩] at hlog hblocks
    refine ⟨t, ht, ?_, fun b hb _ => ?_⟩
    · rw [hlog, List.drop_left, if_neg hbody]
      rfl
    · have hcode := congrFun hblocks f.code
      have hbefore : s.recvBlocks.map Block.untimed f.code = some b.untimed :=
        congrArg (Option.map Block.untimed) hb
      have hafter := BlockMap.modify_some (fun b => b.requestScan (scan f.code b.scanCount))
        (BlockMap.modify_some (fun b => { b with data := .assign f.body })
          (BlockMap.modify_some (fun b => { b with rxtime := ⟨0, 0⟩, count := b.count + 1 })
            hbefore))
      exact Option.map_eq_some_iff.mp (hcode.trans hafter)

/-- The UDP driver: the datagram is delivered if it fits in the buffer. -/
theorem udp_message {u : PscUdp E} (hsize : u.rxscratch.length < 2 ^ 64) {f : Frame}
    (hknown : (u.recvBlocks f.code).isSome = true) (env : RxEnv) :
    ∃ v, step u (.recvdata ⟨false, true, false⟩ [.dgram ⟨u.ep, f.bytes⟩ env]) = some v ∧
      (v.rxlog.drop u.rxlog.length).filterMap RxEv.tcp? =
        (if headerSize + f.body.length ≤ u.rxscratch.length then promised f else []) ∧
      ∀ c, u.recvBlocks f.code = some c → headerSize + f.body.length ≤ u.rxscratch.length →
        ∃ c', v.recvBlocks f.code = some c' ∧
          c'.untimed = c.untimed.received (env.scanIoRequest f.code c.scanCount) f.body := by
  refine ⟨recvPacket u ⟨u.ep, f.bytes⟩ env, step_packet u (⟨u.ep, f.bytes⟩, env), ?_,
    fun c hc hfit => ?_⟩
  · by_cases hfit : headerSize + f.body.length ≤ u.rxscratch.length
    · rw [recvPacket_frame f env hsize hknown hfit, if_pos hfit, List.drop_left]
      rfl
    · rw [if_neg hfit]
      rcases recvPacket_cut f env hsize (by omega) with hlog | hlog <;>
        rw [hlog, List.drop_left] <;> rfl
  · rw [recvPacket_frame f env hsize hknown hfit]
    exact ⟨_, BlockMap.modify_some _ hc, Block.untimed_requestScan _ _⟩

/-- ALIKE: a message in any number of pieces, and as one datagram, is treated the same by both
    drivers, as promised, if and only if its body is not empty and the datagram was received
    whole. -/
theorem tcp_udp_alike {s : Tcp.Psc E} {ses : Tcp.Session E} (h : Tcp.Ready rx s ses .head)
    (hempty : bytes ses.input = []) {u : PscUdp E} (hsize : u.rxscratch.length < 2 ^ 64)
    (f : Frame) (hs : f.code ∈ rx) (hu : (u.recvBlocks f.code).isSome = true)
    (chunks : List (List UInt8 × RxEnv)) (hchunks : (chunks.map Prod.fst).flatten = f.bytes)
    (env : RxEnv) (hscan : ∀ c ∈ chunks, c.2.scanIoRequest = env.scanIoRequest) :
    ∃ t v, exec (Tcp.step cfg) s (chunks.map fun c => .data c.1 c.2) = some t ∧
      step u (.recvdata ⟨false, true, false⟩ [.dgram ⟨u.ep, f.bytes⟩ env]) = some v ∧
      (Alike s t u v f ↔ f.body ≠ [] ∧ headerSize + f.body.length ≤ u.rxscratch.length) := by
  obtain ⟨t, ht, htlog, htblock⟩ := tcp_message cfg h hempty hs hchunks hscan
  obtain ⟨v, hv, hvlog, hvblock⟩ := udp_message hsize hu env
  refine ⟨t, v, ht, hv, fun ha => ⟨fun hbody => ?_, ?_⟩, fun ⟨hbody, hfit⟩ => ⟨?_, ?_, ?_⟩⟩
  · have hlog := ha.tcp
    rw [htlog, if_pos hbody] at hlog
    cases hlog
  · by_contra hfit
    have hlog := ha.udp
    rw [hvlog, if_neg hfit] at hlog
    cases hlog
  · rw [htlog, if_neg hbody]
  · rw [hvlog, if_pos hfit]
  · intro b c hb hc heq
    obtain ⟨b', hb', hbr⟩ := htblock b hb hbody
    obtain ⟨c', hc', hcr⟩ := hvblock c hc hfit
    have hscans : b.scanCount = c.scanCount := congrArg (fun b => b.scanCount) heq
    have hdata := congrArg (fun b => b.data.mem) hbr
    have hcount := congrArg (fun b => b.count) hbr
    rw [Block.received, Block.requestScan_data] at hdata
    rw [Block.received, Block.requestScan_count] at hcount
    exact ⟨b', c', hb', hc', by rw [hbr, hcr, heq, hscans], hdata, hcount⟩

end Message

/-- The TCP driver, connected, with nothing received yet and one receive block. -/
def upTcp : Tcp.Psc Chains :=
  { Tcp.Psc.init ∅ {1} with connected := true, session := some ⟨0, new, new, headerSize, 0⟩ }

theorem upTcp_ready : Tcp.Ready {1} upTcp ⟨0, new, new, headerSize, 0⟩ .head :=
  ⟨rfl, rfl, rfl, ⟨rfl, rfl⟩, (Tcp.decoding_init (E := Chains) ∅ {1}).booked.known⟩

/-- A message of one byte, cut inside its header. -/
theorem tcp_udp_alike_sample :
    let f : Frame := ⟨1, [7], by decide⟩
    let u : PscUdp Chains := .init ⟨0, 0⟩ ∅ {1}
    ∃ t v, exec (Tcp.step ⟨0⟩) upTcp
        [.data (f.bytes.take 3) ⟨⟨1, 0⟩, fun _ _ => 0⟩,
          .data (f.bytes.drop 3) ⟨⟨2, 0⟩, fun _ _ => 0⟩] = some t ∧
      step u (.recvdata ⟨false, true, false⟩ [.dgram ⟨u.ep, f.bytes⟩ ⟨⟨1, 0⟩, fun _ _ => 0⟩]) =
        some v ∧ Alike upTcp t u v f := by
  intro f u
  have hscratch : u.rxscratch.length = 1024 := List.length_replicate
  obtain ⟨t, v, ht, hv, hiff⟩ := tcp_udp_alike ⟨0⟩ upTcp_ready rfl (u := u)
    (by rw [hscratch]; decide) f (by decide) rfl
    [(f.bytes.take 3, ⟨⟨1, 0⟩, fun _ _ => 0⟩), (f.bytes.drop 3, ⟨⟨2, 0⟩, fun _ _ => 0⟩)] rfl
    ⟨⟨1, 0⟩, fun _ _ => 0⟩ (by simp)
  exact ⟨t, v, ht, hv, hiff.mpr ⟨by decide, by rw [hscratch]; decide⟩⟩

/-- An empty message: over TCP it is counted and that is all. -/
theorem empty_unlike :
    let f : Frame := ⟨1, [], by decide⟩
    let u : PscUdp Chains := .init ⟨0, 0⟩ ∅ {1}
    ∃ t v, exec (Tcp.step ⟨0⟩) upTcp [.data f.bytes ⟨⟨1, 0⟩, fun _ _ => 0⟩] = some t ∧
      step u (.recvdata ⟨false, true, false⟩ [.dgram ⟨u.ep, f.bytes⟩ ⟨⟨1, 0⟩, fun _ _ => 0⟩]) =
        some v ∧
      (t.rxlog.drop upTcp.rxlog.length).map Prod.snd = [.count 1] ∧
      (v.rxlog.drop u.rxlog.length).filterMap RxEv.tcp? =
        [.count 1, .store 1 [], .requestScan 1, .listeners 1] ∧ ¬ Alike upTcp t u v f := by
  intro f u
  have hscratch : u.rxscratch.length = 1024 := List.length_replicate
  have hscan : ∀ c ∈ [(f.bytes, (⟨⟨1, 0⟩, fun _ _ => 0⟩ : RxEnv))],
      c.2.scanIoRequest = fun _ _ => 0 := by simp
  obtain ⟨t, ht, htlog, -⟩ := tcp_message ⟨0⟩ upTcp_ready rfl (f := f) (by decide) rfl hscan
  obtain ⟨v, hv, hvlog, -⟩ := udp_message (u := u) (by rw [hscratch]; decide) (f := f) rfl
    ⟨⟨1, 0⟩, fun _ _ => 0⟩
  rw [if_pos rfl] at htlog
  rw [if_pos (by rw [hscratch]; decide)] at hvlog
  refine ⟨t, v, ht, hv, htlog, hvlog, fun ha => ?_⟩
  cases htlog.symm.trans ha.tcp

end Udp

end Pscdrv
