import Pscdrv.Udp.PscUdp
import Pscdrv.Schemes.Run

/-! # Reception of the UDP driver

    Three numbers meet in `recvdata`: how many bytes of a datagram were received, how many body
    bytes its header claims, and how large the scratch buffer is. A claim beyond the buffer makes
    the buffer grow, in 32-bit arithmetic; a claim within the buffer is believed, also when fewer
    bytes were received.

        scratch :  ├─ header (8) ─┼──── received ────┼──── left over ────┤
        claimed :                 ├──────── bodylen ───────┤ -/

namespace Pscdrv.Udp

open Libevent Memory Run

variable {E : Type} [Libevent E]

/-- The body the driver takes from the scratch buffer. -/
def bodyAt (scratch : List UInt8) (n : ℕ) : List UInt8 := (scratch.drop 8).take n

/-- A body that was received whole is the payload's own. -/
theorem bodyAt_store {scratch payload : List UInt8} {n : ℕ} (hp : 8 + n ≤ payload.length)
    (hs : 8 + n ≤ scratch.length) : bodyAt (store scratch payload) n = bodyAt payload n := by
  rw [bodyAt, bodyAt, List.take_drop, List.take_drop, take_store hp hs]

/-! ### One datagram -/

/-- What is done for a body of a registered block, in this order. -/
def delivery (id : UInt16) (body : List UInt8) : List RxEv :=
  [.count id, .store id body, .requestScan id, .listeners id]

theorem mem_delivery {id k : UInt16} {body body' : List UInt8}
    (h : .store k body' ∈ delivery id body) : k = id ∧ body' = body := by
  simpa [delivery] using h

theorem delivery_inj {id : UInt16} {body body' : List UInt8}
    (h : delivery id body = delivery id body') : body = body' := by
  simpa [delivery] using h

/-- The four together. -/
theorem deliver_eq (env : RxEnv) (s : PscUdp E) (id : UInt16) (body : List UInt8) :
    deliver env s id body = { s with
      recvBlocks := s.recvBlocks.modify id fun b =>
        { b with rxtime := env.now, count := b.count + 1, data := .assign body }.requestScan
          (env.scanIoRequest id b.scanCount)
      rxlog := s.rxlog ++ delivery id body } := by
  simp only [deliver, delivery, BlockMap.modify_modify, List.append_assoc, List.cons_append,
    List.nil_append]

/-- A datagram of the peer that got its whole header into the scratch buffer. -/
structure FromPeer (s : PscUdp E) (d : Datagram) : Prop where
  src : d.src = s.ep
  payload : 8 ≤ d.payload.length
  scratch : 8 ≤ s.rxscratch.length

/-- What one turn of the loop can do. -/
inductive Turn (s : PscUdp E) (d : Datagram) (env : RxEnv) : PscUdp E → Prop where
  | ignored (src : d.src ≠ s.ep) : Turn s d env { s with
      rxscratch := store s.rxscratch d.payload
      rxlog := s.rxlog ++ [.ignored] }
  | small (src : d.src = s.ep) (short : min d.payload.length s.rxscratch.length < 8) :
      Turn s d env { s with
        rxscratch := store s.rxscratch d.payload
        rxlog := s.rxlog ++ [.small]
        ukncount := s.ukncount + 1
        message := "small packet" }
  | corrupt (peer : FromPeer s d) (ps : isPS d.payload = false) : Turn s d env { s with
      rxscratch := store s.rxscratch d.payload
      rxlog := s.rxlog ++ [.corrupt]
      message := "Corrupt packet!" }
  | truncated (peer : FromPeer s d) (ps : isPS d.payload = true)
      (long : s.rxscratch.length - 8 < (bodylenOf d.payload).toNat) : Turn s d env { s with
        rxscratch := resize (bodylenOf d.payload + 8).toNat (store s.rxscratch d.payload)
        rxlog := s.rxlog ++ [.truncated]
        ukncount := s.ukncount + 1
        message := "truncated body" }
  | delivered (peer : FromPeer s d) (ps : isPS d.payload = true)
      (fits : (bodylenOf d.payload).toNat ≤ s.rxscratch.length - 8)
      (known : (s.recvBlocks (msgidOf d.payload)).isSome = true) : Turn s d env { s with
        rxscratch := store s.rxscratch d.payload
        recvBlocks := s.recvBlocks.modify (msgidOf d.payload) fun b =>
          { b with
            rxtime := env.now
            count := b.count + 1
            data := .assign (bodyAt (store s.rxscratch d.payload)
              (bodylenOf d.payload).toNat) }.requestScan
            (env.scanIoRequest (msgidOf d.payload) b.scanCount)
        rxlog := s.rxlog ++ delivery (msgidOf d.payload)
          (bodyAt (store s.rxscratch d.payload) (bodylenOf d.payload).toNat) }
  | unknown (peer : FromPeer s d) (ps : isPS d.payload = true)
      (fits : (bodylenOf d.payload).toNat ≤ s.rxscratch.length - 8)
      (known : (s.recvBlocks (msgidOf d.payload)).isSome = false) : Turn s d env { s with
        rxscratch := store s.rxscratch d.payload
        rxlog := s.rxlog ++ [.unknown (msgidOf d.payload)]
        ukncount := s.ukncount + 1 }

/-- The turn is one of these; the header fields are those of the payload. -/
theorem recvPacket_turn (s : PscUdp E) (d : Datagram) (env : RxEnv)
    (hsize : s.rxscratch.length < 2 ^ 64) : Turn s d env (recvPacket s d env) := by
  unfold recvPacket
  dsimp only
  rw [length_store]
  by_cases hsrc : d.src ≠ s.ep
  · rw [if_pos hsrc]
    exact .ignored hsrc
  rw [if_neg hsrc]
  by_cases hsmall : min d.payload.length s.rxscratch.length < 8
  · rw [if_pos hsmall]
    exact .small (not_not.mp hsrc) hsmall
  rw [if_neg hsmall]
  have hpeer : FromPeer s d := ⟨not_not.mp hsrc, by omega, by omega⟩
  have hhead : (store s.rxscratch d.payload).take headerSize = d.payload.take headerSize :=
    take_store hpeer.payload hpeer.scratch
  have hps : isPS (store s.rxscratch d.payload) = isPS d.payload := by
    rw [← isPS_take, hhead, isPS_take]
  have hid : msgidOf (store s.rxscratch d.payload) = msgidOf d.payload := by
    rw [← msgidOf_take, hhead, msgidOf_take]
  have hlen : bodylenOf (store s.rxscratch d.payload) = bodylenOf d.payload := by
    rw [← bodylenOf_take, hhead, bodylenOf_take]
  rw [hps, hid, hlen]
  cases hp : isPS d.payload with
  | false => exact .corrupt hpeer hp
  | true =>
    rw [if_neg (by simp)]
    have hsub : (s.rxscratch.length + 2 ^ 64 - 8) % 2 ^ 64 = s.rxscratch.length - 8 := by
      have := hpeer.scratch
      omega
    rw [hsub]
    by_cases hlong : s.rxscratch.length - 8 < (bodylenOf d.payload).toNat
    · rw [if_pos hlong]
      exact .truncated hpeer hp hlong
    · rw [if_neg hlong]
      cases hblk : (s.recvBlocks (msgidOf d.payload)).isSome with
      | true =>
        rw [if_pos rfl, deliver_eq]
        exact .delivered hpeer hp (by omega) hblk
      | false => exact .unknown hpeer hp (by omega) hblk

/-- A whole message of the peer that fits in the buffer is delivered. -/
theorem recvPacket_frame {s : PscUdp E} (f : Frame) (env : RxEnv)
    (hsize : s.rxscratch.length < 2 ^ 64) (hknown : (s.recvBlocks f.code).isSome = true)
    (hfit : headerSize + f.body.length ≤ s.rxscratch.length) :
    recvPacket s ⟨s.ep, f.bytes⟩ env = { s with
      rxscratch := store s.rxscratch f.bytes
      recvBlocks := s.recvBlocks.modify f.code fun b =>
        { b with rxtime := env.now, count := b.count + 1, data := .assign f.body }.requestScan
          (env.scanIoRequest f.code b.scanCount)
      rxlog := s.rxlog ++ delivery f.code f.body } := by
  have hpay : f.bytes.length = headerSize + f.body.length := by
    rw [Frame.bytes, List.length_append, length_header]
  have hps : isPS f.bytes = true := isPS_header ..
  have hid : msgidOf f.bytes = f.code := msgidOf_header ..
  have hlen : (bodylenOf f.bytes).toNat = f.body.length := by
    rw [Frame.bytes, bodylenOf_header, UInt32.toNat_ofNat', Nat.mod_eq_of_lt f.body_lt]
  have hbody : bodyAt (store s.rxscratch f.bytes) f.body.length = f.body := by
    rw [bodyAt_store (Nat.le_of_eq hpay.symm) hfit, bodyAt, Frame.bytes,
      List.drop_left' (length_header ..), List.take_length]
  simp only [headerSize] at hpay hfit
  have hturn := recvPacket_turn s ⟨s.ep, f.bytes⟩ env hsize
  generalize recvPacket s _ env = t at hturn ⊢
  cases hturn with
  | ignored src => exact absurd rfl src
  | small src short =>
    rw [hpay] at short
    omega
  | corrupt peer ps =>
    rw [hps] at ps
    cases ps
  | truncated peer ps long =>
    rw [hlen] at long
    omega
  | unknown peer ps fits known =>
    rw [hid, hknown] at known
    cases known
  | delivered peer ps fits known => rw [hid, hlen, hbody]

/-- A message of the peer that does not fit in the buffer is not delivered. -/
theorem recvPacket_cut {s : PscUdp E} (f : Frame) (env : RxEnv)
    (hsize : s.rxscratch.length < 2 ^ 64)
    (hlong : s.rxscratch.length < headerSize + f.body.length) :
    (recvPacket s ⟨s.ep, f.bytes⟩ env).rxlog = s.rxlog ++ [.small] ∨
      (recvPacket s ⟨s.ep, f.bytes⟩ env).rxlog = s.rxlog ++ [.truncated] := by
  have hps : isPS f.bytes = true := isPS_header ..
  have hlen : (bodylenOf f.bytes).toNat = f.body.length := by
    rw [Frame.bytes, bodylenOf_header, UInt32.toNat_ofNat', Nat.mod_eq_of_lt f.body_lt]
  simp only [headerSize] at hlong
  have hturn := recvPacket_turn s ⟨s.ep, f.bytes⟩ env hsize
  generalize recvPacket s _ env = t at hturn ⊢
  cases hturn with
  | ignored src => exact absurd rfl src
  | small src short => exact .inl rfl
  | corrupt peer ps =>
    rw [hps] at ps
    cases ps
  | truncated peer ps long => exact .inr rfl
  | unknown peer ps fits known =>
    have hscratch := peer.scratch
    rw [hlen] at fits
    omega
  | delivered peer ps fits known =>
    have hscratch := peer.scratch
    rw [hlen] at fits
    omega

/-- What is done with the datagram. -/
def outcome (s : PscUdp E) (d : Datagram) (env : RxEnv) : List RxEv :=
  (recvPacket s d env).rxlog.drop s.rxlog.length

/-! ### Runs of datagrams within runs of calls -/

/-- The datagrams a call takes from the socket. -/
def packets : List RecvFrom → List (Datagram × RxEnv)
  | .dgram d env :: outs => (d, env) :: packets outs
  | _ => []

def packetsOf : Op E → List (Datagram × RxEnv)
  | .recvdata evt outs => if evt.timeout || !evt.read then [] else packets outs
  | _ => []

/-- One datagram as a step. -/
def packetStep (s : PscUdp E) (p : Datagram × RxEnv) : Option (PscUdp E) :=
  some (recvPacket s p.1 p.2)

/-- The receive side of the state. -/
structure SameRx (s t : PscUdp E) : Prop where
  ep : t.ep = s.ep
  recvBlocks : t.recvBlocks = s.recvBlocks
  rxscratch : t.rxscratch = s.rxscratch
  rxlog : t.rxlog = s.rxlog

theorem SameRx.refl (s : PscUdp E) : SameRx s s := ⟨rfl, rfl, rfl, rfl⟩

theorem SameRx.trans {s t u : PscUdp E} (h : SameRx s t) (k : SameRx t u) : SameRx s u :=
  ⟨k.ep.trans h.ep, k.recvBlocks.trans h.recvBlocks, k.rxscratch.trans h.rxscratch,
    k.rxlog.trans h.rxlog⟩

theorem sendLoop_sameRx (outs : List SendTo) : ∀ s : PscUdp E, SameRx s (sendLoop s outs) := by
  induction outs with
  | nil => exact SameRx.refl
  | cons out outs ih =>
    intro s
    rw [sendLoop]
    split
    · exact SameRx.refl s
    · cases out with
      | again => exact SameRx.refl s
      | error errstr => exact ⟨rfl, rfl, rfl, rfl⟩
      | sent ret =>
        dsimp only
        split_ifs <;> exact ⟨(ih _).ep, (ih _).recvBlocks, (ih _).rxscratch, (ih _).rxlog⟩

theorem queueHeader_sameRx {s t : PscUdp E} {code : UInt16} {n : UInt32}
    (h : (queueHeader s code n).state? = some t) : SameRx s t := by
  unfold queueHeader at h
  dsimp only at h
  split_ifs at h <;>
    simp only [Res.state?_ok, Res.state?_throw, Res.state?_abort, Option.some.injEq,
      reduceCtorEq] at h <;>
    exact h ▸ ⟨rfl, rfl, rfl, rfl⟩

theorem queueSendRaw_sameRx {s t : PscUdp E} {id : UInt16} {buf : RawBuf}
    (h : (queueSendRaw s id buf).state? = some t) : SameRx s t := by
  rcases Res.state?_andThen h with ⟨e, hq⟩ | ⟨u, hq, hu⟩
  · exact queueHeader_sameRx (hq ▸ Res.state?_throw e t)
  · refine (queueHeader_sameRx (hq ▸ Res.state?_ok u)).trans ?_
    dsimp only at hu
    split at hu
    · simp at hu
    · rw [Res.state?_ok, Option.some.injEq] at hu
      exact hu ▸ ⟨rfl, rfl, rfl, rfl⟩

theorem queueSendDbuf_sameRx {s t : PscUdp E} {id : UInt16} {buf : DBuffer E}
    (h : (queueSendDbuf s id buf).state? = some t) : SameRx s t := by
  rcases Res.state?_andThen h with ⟨e, hq⟩ | ⟨u, hq, hu⟩
  · exact queueHeader_sameRx (hq ▸ Res.state?_throw e t)
  · refine (queueHeader_sameRx (hq ▸ Res.state?_ok u)).trans ?_
    dsimp only at hu
    split at hu
    · simp at hu
    · split at hu
      · simp at hu
      · rw [Res.state?_ok, Option.some.injEq] at hu
        exact hu ▸ ⟨rfl, rfl, rfl, rfl⟩

theorem withSend_sameRx {s t : PscUdp E} {id : UInt16} {f : Block E → Res (PscUdp E)}
    (hf : ∀ blk, (f blk).state? = some t → SameRx s t)
    (h : (withSend s id f).state? = some t) : SameRx s t := by
  unfold withSend at h
  split at h
  · exact hf _ h
  · rw [Res.state?_ok, Option.some.injEq] at h
    exact h ▸ SameRx.refl s

theorem recvLoop_packets (outs : List RecvFrom) : ∀ s : PscUdp E,
    ∃ u, exec packetStep s (packets outs) = some u ∧ SameRx u (recvLoop s outs) := by
  induction outs with
  | nil => exact fun s => ⟨s, rfl, SameRx.refl s⟩
  | cons out outs ih =>
    intro s
    cases out with
    | dgram d env => exact ih (recvPacket s d env)
    | again => exact ⟨s, rfl, SameRx.refl s⟩
    | error errstr => exact ⟨s, rfl, rfl, rfl, rfl, rfl⟩

/-- STEP: for the receive side, a call is the run of the datagrams it takes from the socket. -/
theorem step_packets {s t : PscUdp E} {op : Op E} (h : step s op = some t) :
    ∃ u, exec packetStep s (packetsOf op) = some u ∧ SameRx u t := by
  cases op with
  | recvdata evt outs =>
    simp only [step, call, Res.state?_ok, Option.some.injEq] at h
    subst h
    unfold recvdata
    split_ifs with ht hr
    · exact ⟨s, by simp [packetsOf, ht], rfl, rfl, rfl, rfl⟩
    · exact ⟨s, by simp [packetsOf, hr], SameRx.refl s⟩
    · rw [packetsOf, if_neg (by simp [ht, hr])]
      exact recvLoop_packets outs s
  | connect eventAdd =>
    simp only [step, call, connect] at h
    split at h <;> simp only [Res.state?_ok, Res.state?_throw, Option.some.injEq] at h <;>
      exact ⟨s, rfl, h ▸ ⟨rfl, rfl, rfl, rfl⟩⟩
  | send id => exact ⟨s, rfl, withSend_sameRx (fun _ => queueSendDbuf_sameRx) h⟩
  | queueSendId id buf =>
    have hrest : SameRx (getSend s id) t := withSend_sameRx (fun _ => queueSendRaw_sameRx) h
    exact ⟨s, rfl, hrest.ep, hrest.recvBlocks, hrest.rxscratch, hrest.rxlog⟩
  | queueSendRaw blk buf => exact ⟨s, rfl, withSend_sameRx (fun _ => queueSendRaw_sameRx) h⟩
  | queueSendDbuf blk buf => exact ⟨s, rfl, withSend_sameRx (fun _ => queueSendDbuf_sameRx) h⟩
  | flushSend eventAdd =>
    simp only [step, call, flushSend] at h
    split_ifs at h <;> simp only [Res.state?_ok, Res.state?_throw, Option.some.injEq] at h <;>
      exact ⟨s, rfl, h ▸ ⟨rfl, rfl, rfl, rfl⟩⟩
  | writeBlock id data =>
    simp only [step, call, Res.state?_ok, Option.some.injEq] at h
    exact ⟨s, rfl, h ▸ ⟨rfl, rfl, rfl, rfl⟩⟩
  | senddata evt outs eventAdd =>
    rw [senddata_state h]
    split
    · exact ⟨s, rfl, sendLoop_sameRx outs s⟩
    · exact ⟨s, rfl, SameRx.refl s⟩

/-- The receive side in a run: the peer, the registered blocks, and a buffer whose size fits 32
    bits. -/
structure RxInv (ep : SockAddr) (rx : Finset UInt16) (s : PscUdp E) : Prop where
  ep : s.ep = ep
  known : ∀ id, (s.recvBlocks id).isSome = true ↔ id ∈ rx
  size : s.rxscratch.length < 2 ^ 32

theorem SameRx.inv {ep : SockAddr} {rx : Finset UInt16} {s t : PscUdp E} (h : SameRx s t)
    (hs : RxInv ep rx s) : RxInv ep rx t :=
  ⟨h.ep.trans hs.ep, by rw [h.recvBlocks]; exact hs.known, by rw [h.rxscratch]; exact hs.size⟩

/-- STEP: a datagram keeps the invariant. -/
theorem recvPacket_inv {ep : SockAddr} {rx : Finset UInt16} {s : PscUdp E} (hs : RxInv ep rx s)
    (d : Datagram) (env : RxEnv) : RxInv ep rx (recvPacket s d env) := by
  have hsize := hs.size
  have hstore : (store s.rxscratch d.payload).length < 2 ^ 32 := by rwa [length_store]
  have hturn := recvPacket_turn s d env (by omega)
  generalize recvPacket s d env = t at hturn ⊢
  cases hturn with
  | truncated peer ps long =>
    refine ⟨hs.ep, hs.known, ?_⟩
    change (resize _ _).length < 2 ^ 32
    rw [length_resize]
    exact (bodylenOf d.payload + 8).toNat_lt
  | delivered peer ps fits known =>
    exact ⟨hs.ep, fun id => by rw [BlockMap.modify_isSome, hs.known], hstore⟩
  | _ => exact ⟨hs.ep, hs.known, hstore⟩

/-- STEP: a call keeps the invariant. -/
theorem rxInv_step {ep : SockAddr} {rx : Finset UInt16} (s : PscUdp E) (op : Op E) (t : PscUdp E)
    (hs : RxInv ep rx s) (h : step s op = some t) : RxInv ep rx t := by
  obtain ⟨u, hu, hsame⟩ := step_packets h
  refine hsame.inv (inv_exec' (fun s p s' hi hp => ?_) hs hu)
  cases hp
  exact recvPacket_inv hi p.1 p.2

theorem rxInv_init (ep : SockAddr) (tx rx : Finset UInt16) :
    RxInv ep rx (PscUdp.init ep tx rx : PscUdp E) := by
  refine ⟨rfl, fun id => ?_, ?_⟩
  · change (BlockMap.registered rx id).isSome = true ↔ _
    unfold BlockMap.registered
    split <;> simp [*]
  · change (List.replicate 1024 (0 : UInt8)).length < 2 ^ 32
    rw [List.length_replicate]
    decide

/-! ### The size of the scratch buffer -/

/-- A later well-formed datagram of the peer that fits in 1024 bytes is delivered. -/
def Delivers (s : PscUdp E) : Prop :=
  ∀ (id : UInt16) (body : List UInt8) (env : RxEnv), (s.recvBlocks id).isSome = true →
    8 + body.length ≤ 1024 →
      (recvPacket s ⟨s.ep, header id (UInt32.ofNat body.length) ++ body⟩ env).rxlog =
          s.rxlog ++ delivery id body ∧
        ∃ b, (recvPacket s ⟨s.ep, header id (UInt32.ofNat body.length) ++ body⟩ env).recvBlocks id =
          some b ∧ b.data.mem = body

/-- After the datagram the buffer is larger than a header and not smaller than before. -/
structure Kept (s : PscUdp E) (p : Datagram × RxEnv) : Prop where
  header : headerSize < (recvPacket s p.1 p.2).rxscratch.length
  grows : s.rxscratch.length ≤ (recvPacket s p.1 p.2).rxscratch.length
  delivers : Delivers (recvPacket s p.1 p.2)

/-- A header from the peer that claims so many body bytes that `bodylen+8` wraps. -/
def Wraps (ep : SockAddr) (d : Datagram) : Prop :=
  d.src = ep ∧ 8 ≤ d.payload.length ∧ isPS d.payload = true ∧
    2 ^ 32 - 8 ≤ (bodylenOf d.payload).toNat

theorem delivers_of_size {s : PscUdp E} (hbig : 1024 ≤ s.rxscratch.length)
    (hsize : s.rxscratch.length < 2 ^ 32) : Delivers s := by
  intro id body env hblk hfit
  have hbody : body.length < 2 ^ 32 := by omega
  have hturn := recvPacket_frame ⟨id, body, hbody⟩ env (by omega) hblk (hfit.trans hbig)
  rw [Frame.bytes] at hturn
  rw [hturn]
  obtain ⟨b, hb⟩ := Option.isSome_iff_exists.mp hblk
  refine ⟨rfl, _, BlockMap.modify_some _ hb, ?_⟩
  rw [Block.requestScan_data, DBuffer.mem_assign]

/-- STEP: a datagram keeps the buffer usable exactly when its claim does not wrap. -/
theorem kept_iff {ep : SockAddr} {rx : Finset UInt16} {s : PscUdp E} (hs : RxInv ep rx s)
    (hbig : 1024 ≤ s.rxscratch.length) (p : Datagram × RxEnv) :
    Kept s p ↔ ¬ Wraps ep p.1 := by
  have hsize := hs.size
  have hinv := (recvPacket_inv hs p.1 p.2).size
  have hturn := recvPacket_turn s p.1 p.2 (by omega)
  have hkeep : s.rxscratch.length ≤ (recvPacket s p.1 p.2).rxscratch.length → Kept s p :=
    fun h => ⟨by simp only [headerSize]; omega, h, delivers_of_size (by omega) hinv⟩
  by_cases hlong : FromPeer s p.1 ∧ isPS p.1.payload = true ∧
      s.rxscratch.length - 8 < (bodylenOf p.1.payload).toNat
  · obtain ⟨peer, ps, long⟩ := hlong
    have hnew : (recvPacket s p.1 p.2).rxscratch.length = (bodylenOf p.1.payload + 8).toNat := by
      generalize recvPacket s p.1 p.2 = t at hturn ⊢
      cases hturn with
      | truncated peer ps long => exact length_resize ..
      | ignored src => exact absurd peer.src src
      | small src short => have := peer.payload; have := peer.scratch; omega
      | corrupt peer ps' => exact absurd (ps.symm.trans ps') nofun
      | delivered peer ps fits known => omega
      | unknown peer ps fits known => omega
    have hsum : (bodylenOf p.1.payload + 8).toNat = ((bodylenOf p.1.payload).toNat + 8) % 2 ^ 32 :=
      UInt32.toNat_add ..
    have hlt := (bodylenOf p.1.payload).toNat_lt
    constructor
    · rintro hk ⟨_, _, _, hwrap⟩
      have := hk.grows
      omega
    · intro hno
      have hsmall : (bodylenOf p.1.payload).toNat < 2 ^ 32 - 8 := by
        by_contra h
        exact hno ⟨peer.src.trans hs.ep, peer.payload, ps, by omega⟩
      exact hkeep (by omega)
  · refine ⟨fun _ hwrap => hlong ?_, fun _ => hkeep ?_⟩
    · obtain ⟨src, h8, ps, hwrap⟩ := hwrap
      exact ⟨⟨src.trans hs.ep.symm, h8, by omega⟩, ps, by omega⟩
    · generalize recvPacket s p.1 p.2 = t at hturn ⊢
      cases hturn with
      | truncated peer ps long => exact absurd ⟨peer, ps, long⟩ hlong
      | _ => exact Nat.le_of_eq (length_store ..).symm

/-- USABLE BUFFER: in every run each datagram leaves the scratch buffer larger than a header, not
    smaller than before, and able to deliver the next message of up to 1024 bytes, if and only if no
    datagram claims a body for which `bodylen+8` wraps. -/
theorem scratch_usable (ep : SockAddr) (tx rx : Finset UInt16) (ops : List (Op E)) :
    Along step (fun s op => Along packetStep Kept s (packetsOf op)) (PscUdp.init ep tx rx) ops ↔
      Along step (fun _ op => ∀ p ∈ packetsOf op, ¬ Wraps ep p.1) (PscUdp.init ep tx rx) ops := by
  -- along the datagrams of one call the buffer keeps at least its first size
  have hpacket : ∀ (s : PscUdp E) (p : Datagram × RxEnv) (t : PscUdp E),
      (RxInv ep rx s ∧ 1024 ≤ s.rxscratch.length) → ¬ Wraps ep p.1 → packetStep s p = some t →
        RxInv ep rx t ∧ 1024 ≤ t.rxscratch.length := by
    rintro s p t ⟨hs, hbig⟩ hno hp
    cases hp
    exact ⟨recvPacket_inv hs p.1 p.2, hbig.trans ((kept_iff hs hbig p).mpr hno).grows⟩
  refine along_iff (I := fun s => RxInv ep rx s ∧ 1024 ≤ s.rxscratch.length)
    (fun s op t hs hc h => ?_) (fun s op t hs h => ?_)
    ⟨rxInv_init ep tx rx, Nat.le_of_eq List.length_replicate.symm⟩
  · obtain ⟨u, hu, hsame⟩ := step_packets h
    have hend := inv_exec hpacket hs ((along_iff_forall (fun _ _ => rfl)).mpr hc) hu
    exact ⟨hsame.inv hend.1, by rw [hsame.rxscratch]; exact hend.2⟩
  · have hall : Along packetStep (fun _ p => ¬ Wraps ep p.1) s (packetsOf op) ↔
        ∀ p ∈ packetsOf op, ¬ Wraps ep p.1 := along_iff_forall fun _ _ => rfl
    rw [← hall]
    exact along_iff hpacket (fun s p t hs _ => kept_iff hs.1 hs.2 p) hs

/-- A header that claims 2^32-8 body bytes empties the buffer, and nothing is delivered any more. -/
theorem resize_wraps :
    ¬ Along step (fun s op => Along packetStep Kept s (packetsOf op))
      (PscUdp.init ⟨0, 0⟩ ∅ {1} : PscUdp Chains)
      [.recvdata ⟨false, true, false⟩
        [.dgram ⟨⟨0, 0⟩, header 1 0xfffffff8⟩ ⟨⟨0, 0⟩, fun _ _ => 0⟩]] := by
  intro h
  have hkept := ((h _ rfl).1 _ rfl).1.header
  revert hkept
  decide +kernel

/-! ### Whose bytes a body is made of -/

/-- The datagram as the driver judges it, for a buffer of `size` bytes with `body` in it. -/
def judge (ep : SockAddr) (rx : Finset UInt16) (size : ℕ) (d : Datagram) (body : List UInt8) :
    List RxEv :=
  if d.src ≠ ep then [.ignored]
  else if min d.payload.length size < 8 then [.small]
  else if isPS d.payload = false then [.corrupt]
  else if size - 8 < (bodylenOf d.payload).toNat then [.truncated]
  else if msgidOf d.payload ∈ rx then delivery (msgidOf d.payload) body
  else [.unknown (msgidOf d.payload)]

/-- A header of a registered block that claims more body bytes than were received, and no more
    than the buffer holds. -/
structure Stale (ep : SockAddr) (rx : Finset UInt16) (size : ℕ) (d : Datagram) : Prop where
  src : d.src = ep
  payload : 8 ≤ d.payload.length
  ps : isPS d.payload = true
  known : msgidOf d.payload ∈ rx
  fits : (bodylenOf d.payload).toNat ≤ size - 8
  claims : d.payload.length - 8 < (bodylenOf d.payload).toNat

/-- The outcome is what happened to the blocks: a body is in the block it was stored in, and the
    others are as they were. -/
structure Effect (s : PscUdp E) (d : Datagram) (env : RxEnv) (out : List RxEv) : Prop where
  stored : ∀ id body, .store id body ∈ out →
    ∃ b, (recvPacket s d env).recvBlocks id = some b ∧ b.data.mem = body
  others : ∀ k, (∀ body, .store k body ∉ out) →
    (recvPacket s d env).recvBlocks k = s.recvBlocks k

/-- A datagram that is turned down leaves the blocks alone. -/
theorem Effect.down {s : PscUdp E} {d : Datagram} {env : RxEnv} {ev : RxEv}
    (hlog : (recvPacket s d env).rxlog = s.rxlog ++ [ev]) (hev : ∀ id body, ev ≠ .store id body)
    (hblocks : (recvPacket s d env).recvBlocks = s.recvBlocks) :
    Effect s d env (outcome s d env) := by
  refine ⟨fun id body hmem => ?_, fun k _ => by rw [hblocks]⟩
  rw [outcome, hlog, List.drop_left, List.mem_singleton] at hmem
  exact absurd hmem.symm (hev id body)

theorem outcome_effect {ep : SockAddr} {rx : Finset UInt16} {s : PscUdp E} (hs : RxInv ep rx s)
    (d : Datagram) (env : RxEnv) : Effect s d env (outcome s d env) := by
  have hsize := hs.size
  have hturn := recvPacket_turn s d env (by omega)
  generalize hrecv : recvPacket s d env = t at hturn
  cases hturn with
  | delivered peer ps fits known =>
    obtain ⟨b, hb⟩ := Option.isSome_iff_exists.mp known
    refine ⟨fun id body hmem => ?_, fun k hk => ?_⟩
    · rw [outcome, hrecv, List.drop_left] at hmem
      obtain ⟨rfl, rfl⟩ := mem_delivery hmem
      rw [hrecv]
      exact ⟨_, BlockMap.modify_some _ hb, by rw [Block.requestScan_data, DBuffer.mem_assign]⟩
    · rw [outcome, hrecv, List.drop_left] at hk
      rw [hrecv]
      refine BlockMap.modify_ne _ _ fun heq => ?_
      subst heq
      exact hk _ (List.mem_cons_of_mem _ List.mem_cons_self)
  | ignored | small | corrupt | truncated | unknown =>
    exact .down (congrArg PscUdp.rxlog hrecv) (fun _ _ h => by cases h)
      (by rw [hrecv])

theorem outcome_eq {ep : SockAddr} {rx : Finset UInt16} {s : PscUdp E} (hs : RxInv ep rx s)
    (d : Datagram) (env : RxEnv) :
    outcome s d env = judge ep rx s.rxscratch.length d
      (bodyAt (store s.rxscratch d.payload) (bodylenOf d.payload).toNat) := by
  have hsize := hs.size
  have hturn := recvPacket_turn s d env (by omega)
  -- a datagram that got this far is not too short
  have hpeer : FromPeer s d → ¬ d.src ≠ ep ∧ ¬ min d.payload.length s.rxscratch.length < 8 :=
    fun h => ⟨fun hne => hne (h.src.trans hs.ep), by have := h.payload; have := h.scratch; omega⟩
  unfold outcome judge
  generalize recvPacket s d env = t at hturn ⊢
  cases hturn with
  | ignored src => rw [List.drop_left, if_pos (hs.ep ▸ src)]
  | small src short => rw [List.drop_left, if_neg (by simp [src, hs.ep]), if_pos short]
  | corrupt peer ps =>
    rw [List.drop_left, if_neg (hpeer peer).1, if_neg (hpeer peer).2, if_pos ps]
  | truncated peer ps long =>
    rw [List.drop_left, if_neg (hpeer peer).1, if_neg (hpeer peer).2, if_neg (by simp [ps]),
      if_pos long]
  | delivered peer ps fits known =>
    rw [List.drop_left, if_neg (hpeer peer).1, if_neg (hpeer peer).2, if_neg (by simp [ps]),
      if_neg (by omega), if_pos ((hs.known _).mp known)]
  | unknown peer ps fits known =>
    rw [List.drop_left, if_neg (hpeer peer).1, if_neg (hpeer peer).2, if_neg (by simp [ps]),
      if_neg (by omega), if_neg fun h => by simp [(hs.known _).mpr h] at known]

/-- The judgement of a datagram that is not stale does not depend on what else is in the buffer. -/
theorem judge_own {ep : SockAddr} {rx : Finset UInt16} {d : Datagram} {a b : List UInt8}
    (hlen : a.length = b.length) (h : ¬ Stale ep rx a.length d) :
    judge ep rx a.length d (bodyAt (store a d.payload) (bodylenOf d.payload).toNat) =
      judge ep rx b.length d (bodyAt (store b d.payload) (bodylenOf d.payload).toNat) := by
  rw [hlen] at h ⊢
  unfold judge
  split_ifs with hsrc hshort hps hlong hknown <;> try rfl
  -- the whole body was received
  have hown : d.payload.length - 8 ≥ (bodylenOf d.payload).toNat := by
    by_contra hclaim
    exact h ⟨not_not.mp hsrc, by omega, by simpa using hps, hknown, by omega, by omega⟩
  rw [bodyAt_store (by omega) (by omega), bodyAt_store (by omega) (by omega)]

theorem bodyAt_getElem? {l : List UInt8} {n i : ℕ} (h : i < n) : (bodyAt l n)[i]? = l[8 + i]? := by
  rw [bodyAt, List.getElem?_take_of_lt h, List.getElem?_drop]

/-- A stranger's datagram puts any byte it likes behind the bytes of the next one. -/
theorem stale_differs {ep : SockAddr} {rx : Finset UInt16} {s : PscUdp E} (hs : RxInv ep rx s)
    {d : Datagram} (h : Stale ep rx s.rxscratch.length d) :
    ∃ p : Datagram × RxEnv, (recvPacket s p.1 p.2).rxscratch.length = s.rxscratch.length ∧
      ∀ env env', outcome (recvPacket s p.1 p.2) d env' ≠ outcome s d env := by
  have hsize := hs.size
  have h8 := h.payload
  have hfits := h.fits
  have hclaims := h.claims
  obtain ⟨old, hold⟩ : ∃ old, s.rxscratch[d.payload.length]? = some old :=
    ⟨_, List.getElem?_eq_getElem (by omega)⟩
  have hport : ep.port + 1 ≠ ep.port := by simp
  have hother : (⟨ep.addr, ep.port + 1⟩ : SockAddr) ≠ s.ep := by
    rw [hs.ep]
    exact fun heq => hport (congrArg SockAddr.port heq)
  let stranger : Datagram :=
    ⟨⟨ep.addr, ep.port + 1⟩, List.replicate d.payload.length 0 ++ [old + 1]⟩
  let env₀ : RxEnv := ⟨⟨0, 0⟩, fun _ _ => 0⟩
  have hlen : stranger.payload.length = d.payload.length + 1 := by simp [stranger]
  have hafter : (recvPacket s stranger env₀).rxscratch = store s.rxscratch stranger.payload := by
    have hturn := recvPacket_turn s stranger env₀ (by omega)
    generalize recvPacket s stranger env₀ = t at hturn ⊢
    cases hturn with
    | ignored src => rfl
    | small src short => exact absurd src hother
    | corrupt peer ps => exact absurd peer.src hother
    | truncated peer ps long => exact absurd peer.src hother
    | delivered peer ps fits known => exact absurd peer.src hother
    | unknown peer ps fits known => exact absurd peer.src hother
  have hnew : (recvPacket s stranger env₀).rxscratch[d.payload.length]? = some (old + 1) := by
    have htake : (store s.rxscratch stranger.payload).take (d.payload.length + 1) =
        stranger.payload.take (d.payload.length + 1) := take_store (by omega) (by omega)
    rw [hafter, ← List.getElem?_take_of_lt (Nat.lt_succ_self _), htake,
      List.getElem?_take_of_lt (Nat.lt_succ_self _)]
    simp [stranger]
  have hsame : (recvPacket s stranger env₀).rxscratch.length = s.rxscratch.length := by
    rw [hafter, length_store]
  refine ⟨(stranger, env₀), hsame, fun env env' heq => ?_⟩
  rw [outcome_eq (recvPacket_inv hs stranger env₀), outcome_eq hs, hsame] at heq
  unfold judge at heq
  rw [if_neg (by simp [h.src]), if_neg (by omega), if_neg (by simp [h.ps]), if_neg (by omega),
    if_pos h.known, if_neg (by simp [h.src]), if_neg (by omega), if_neg (by simp [h.ps]),
    if_neg (by omega), if_pos h.known] at heq
  -- the first byte that was not received tells the two runs apart
  have hbyte := congrArg (fun l : List UInt8 => l[d.payload.length - 8]?) (delivery_inj heq)
  have hidx : 8 + (d.payload.length - 8) = d.payload.length := by omega
  simp only [bodyAt_getElem? (show d.payload.length - 8 < _ from hclaims), hidx] at hbyte
  rw [getElem?_store (Nat.le_refl _) (by omega), getElem?_store (Nat.le_refl _) (by omega),
    hnew, hold, Option.some.injEq] at hbyte
  simp at hbyte

/-- A call that takes one datagram. -/
theorem step_packet (s : PscUdp E) (p : Datagram × RxEnv) :
    step s (.recvdata ⟨false, true, false⟩ [.dgram p.1 p.2]) = some (recvPacket s p.1 p.2) := by
  simp only [step, call, recvdata, recvLoop, Bool.not_true, Bool.false_eq_true, if_false,
    Res.state?_ok]

/-- OWN BYTES: in every state of every run, a datagram has the same outcome in all runs that lead to
    a buffer of this size, if and only if its header does not claim, for a registered block, more
    body bytes than were received and no more than the buffer holds. -/
theorem body_own_bytes (ep : SockAddr) (tx rx : Finset UInt16) (ops : List (Op E)) :
    Always step (fun s : PscUdp E => ∀ d env, Effect s d env (outcome s d env) ∧
        ((∀ (ops' : List (Op E)) s', exec step (PscUdp.init ep tx rx) ops' = some s' →
            s'.rxscratch.length = s.rxscratch.length →
              ∀ env', outcome s' d env' = outcome s d env) ↔
          ¬ Stale ep rx s.rxscratch.length d))
      (PscUdp.init ep tx rx) ops := by
  refine always_iff_exec.mpr fun pre _ s hpre d env => ?_
  have hs : RxInv ep rx s := inv_exec' rxInv_step (rxInv_init ep tx rx) hpre
  refine ⟨outcome_effect hs d env, fun hsame hstale => ?_, fun hown ops' s' hops' hlen env' => ?_⟩
  · obtain ⟨p, hsize, hdiff⟩ := stale_differs hs hstale
    have hrun : exec step (PscUdp.init ep tx rx)
        (pre ++ [.recvdata ⟨false, true, false⟩ [.dgram p.1 p.2]]) =
          some (recvPacket s p.1 p.2) := by
      rw [exec_append, hpre, Option.bind_some, exec, step_packet, Option.bind_some, exec_nil]
    exact hdiff env env (hsame _ _ hrun hsize env)
  · have hs' : RxInv ep rx s' := inv_exec' rxInv_step (rxInv_init ep tx rx) hops'
    rw [outcome_eq hs', outcome_eq hs]
    exact (judge_own hlen.symm hown).symm

/-- Eight bytes that claim a body of four: what is stored are bytes of an earlier datagram. -/
theorem stale_body_stored :
    ∃ s t : PscUdp Chains,
      exec step (PscUdp.init ⟨0, 0⟩ ∅ {1}) [] = some s ∧
      exec step (PscUdp.init ⟨0, 0⟩ ∅ {1}) [.recvdata ⟨false, true, false⟩
        [.dgram ⟨⟨0, 0⟩, header 1 4 ++ [7, 7, 7, 7]⟩ ⟨⟨0, 0⟩, fun _ _ => 0⟩]] = some t ∧
      s.rxscratch.length = t.rxscratch.length ∧
      outcome s ⟨⟨0, 0⟩, header 1 4⟩ ⟨⟨0, 0⟩, fun _ _ => 0⟩ = delivery 1 [0, 0, 0, 0] ∧
      outcome t ⟨⟨0, 0⟩, header 1 4⟩ ⟨⟨0, 0⟩, fun _ _ => 0⟩ = delivery 1 [7, 7, 7, 7] := by
  have hs : (exec step (PscUdp.init ⟨0, 0⟩ ∅ {1} : PscUdp Chains) []).map
      (fun s => (s.rxscratch.length,
        outcome s ⟨⟨0, 0⟩, header 1 4⟩ ⟨⟨0, 0⟩, fun _ _ => 0⟩)) =
      some (1024, delivery 1 [0, 0, 0, 0]) := by
    decide +kernel
  have ht : (exec step (PscUdp.init ⟨0, 0⟩ ∅ {1} : PscUdp Chains)
      [.recvdata ⟨false, true, false⟩
        [.dgram ⟨⟨0, 0⟩, header 1 4 ++ [7, 7, 7, 7]⟩ ⟨⟨0, 0⟩, fun _ _ => 0⟩]]).map
      (fun s => (s.rxscratch.length,
        outcome s ⟨⟨0, 0⟩, header 1 4⟩ ⟨⟨0, 0⟩, fun _ _ => 0⟩)) =
      some (1024, delivery 1 [7, 7, 7, 7]) := by
    decide +kernel
  obtain ⟨s, hs, hs'⟩ := Option.map_eq_some_iff.mp hs
  obtain ⟨t, ht, ht'⟩ := Option.map_eq_some_iff.mp ht
  simp only [Prod.mk.injEq] at hs' ht'
  exact ⟨s, t, hs, ht, hs'.1.trans ht'.1.symm, hs'.2, ht'.2⟩

end Pscdrv.Udp
