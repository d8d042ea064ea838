import Pscdrv.Udp.PscUdp
import Pscdrv.Schemes.Run

/-! # Transmission of the UDP driver

    What `sendto()` took, what waits in `txbuf` and what waits in `sendbuf` are, in this order, the
    messages given to `queueSend`. `senddata` moves the datagram just sent to the free list; with 64
    buffers in the free list it removes a buffer from there instead, and the datagram stays at the
    front of `txbuf` to be sent again.

        queued :  ├────────── sent ──────────┼───── txbuf ─────┼──── sendbuf ────┤
        flushed : ├────────────────────────────────────────────┤ -/

namespace Pscdrv.Udp

open Libevent Memory Run

variable {E : Type} [Libevent E]

/-- The datagram of a message. -/
def frame (m : UInt16 × List UInt8) : List UInt8 := header m.1 (UInt32.ofNat m.2.length) ++ m.2

/-- Every datagram was sent once and in order, or is still waiting. -/
structure Exact (s : PscUdp E) : Prop where
  queue : s.queued.map frame = s.flushed.map frame ++ s.sendbuf
  tx : s.flushed.map frame = s.sent ++ s.txbuf

/-- How many datagrams `sendto()` is ready to take. -/
def successes : List SendTo → ℕ
  | .sent _ :: outs => successes outs + 1
  | _ => 0

/-- The condition on a call: the free list has room for every buffer that becomes free. -/
def HasRoom (s : PscUdp E) : Op E → Prop
  | .senddata evt outs _ =>
    evt.write = true → s.readybuf.length + min s.txbuf.length (successes outs) ≤ 64
  | _ => True

/-! ### `senddata` -/

/-- Of the lists, only `txbuf` and the free list are touched. -/
structure SameQueue (s t : PscUdp E) : Prop where
  sendbuf : t.sendbuf = s.sendbuf
  queued : t.queued = s.queued
  flushed : t.flushed = s.flushed

/-- A turn of the loop with a datagram that `sendto()` took. -/
theorem sendLoop_sent (s : PscUdp E) {scratch : List UInt8} {rest : List (List UInt8)}
    (htx : s.txbuf = scratch :: rest) (ret : ℕ) (outs : List SendTo) :
    ∃ u : PscUdp E, sendLoop s (.sent ret :: outs) = sendLoop u outs ∧ SameQueue s u ∧
      u.sent = s.sent ++ [scratch] ∧
      (s.readybuf.length < 64 ∧ u.readybuf = s.readybuf ++ [scratch] ∧ u.txbuf = rest ∨
        64 ≤ s.readybuf.length ∧ u.readybuf = s.readybuf.tail ∧ u.txbuf = s.txbuf) := by
  rw [sendLoop]
  split
  · rename_i h
    rw [htx] at h; cases h
  · rename_i h
    rw [htx] at h; cases h
    dsimp only
    by_cases hlen : scratch.length ≠ ret
    · rw [if_pos hlen]
      by_cases hroom : s.readybuf.length < 64
      · rw [if_pos hroom]
        exact ⟨_, rfl, ⟨rfl, rfl, rfl⟩, rfl, .inl ⟨hroom, rfl, rfl⟩⟩
      · rw [if_neg hroom]
        exact ⟨_, rfl, ⟨rfl, rfl, rfl⟩, rfl, .inr ⟨by omega, rfl, rfl⟩⟩
    · rw [if_neg hlen]
      by_cases hroom : s.readybuf.length < 64
      · rw [if_pos hroom]
        exact ⟨_, rfl, ⟨rfl, rfl, rfl⟩, rfl, .inl ⟨hroom, rfl, rfl⟩⟩
      · rw [if_neg hroom]
        exact ⟨_, rfl, ⟨rfl, rfl, rfl⟩, rfl, .inr ⟨by omega, rfl, rfl⟩⟩

/-- Any other answer ends the loop. -/
theorem sendLoop_end (s : PscUdp E) {outs : List SendTo} (h : s.txbuf = [] ∨ successes outs = 0) :
    SameQueue s (sendLoop s outs) ∧ (sendLoop s outs).sent = s.sent ∧
      (sendLoop s outs).txbuf = s.txbuf ∧ (sendLoop s outs).readybuf = s.readybuf := by
  cases outs with
  | nil => exact ⟨⟨rfl, rfl, rfl⟩, rfl, rfl, rfl⟩
  | cons out outs =>
    rw [sendLoop]
    split
    · exact ⟨⟨rfl, rfl, rfl⟩, rfl, rfl, rfl⟩
    · rename_i htx
      cases out with
      | sent ret => simp [htx, successes] at h
      | again => exact ⟨⟨rfl, rfl, rfl⟩, rfl, rfl, rfl⟩
      | error errstr => exact ⟨⟨rfl, rfl, rfl⟩, rfl, rfl, rfl⟩

/-- LOOP: what was sent and what waits stay the same list exactly when the free list has room for
    the buffers that become free; otherwise some datagram is there twice. -/
theorem sendLoop_spec (outs : List SendTo) : ∀ s : PscUdp E, s.readybuf.length ≤ 64 →
    SameQueue s (sendLoop s outs) ∧ (sendLoop s outs).readybuf.length ≤ 64 ∧
      (s.readybuf.length + min s.txbuf.length (successes outs) ≤ 64 →
        (sendLoop s outs).sent ++ (sendLoop s outs).txbuf = s.sent ++ s.txbuf) ∧
      s.sent.length + s.txbuf.length ≤
        (sendLoop s outs).sent.length + (sendLoop s outs).txbuf.length ∧
      (64 < s.readybuf.length + min s.txbuf.length (successes outs) →
        s.sent.length + s.txbuf.length <
          (sendLoop s outs).sent.length + (sendLoop s outs).txbuf.length) := by
  induction outs with
  | nil =>
    intro s hr
    refine ⟨⟨rfl, rfl, rfl⟩, hr, fun _ => rfl, Nat.le_refl _, fun h => ?_⟩
    simp only [successes, Nat.min_zero] at h
    omega
  | cons out outs ih =>
    intro s hr
    by_cases hend : s.txbuf = [] ∨ successes (out :: outs) = 0
    · obtain ⟨hsame, hsent, htx, hready⟩ := sendLoop_end s hend
      rw [hsent, htx, hready]
      refine ⟨hsame, hr, fun _ => rfl, Nat.le_refl _, fun h => ?_⟩
      have hmin : min s.txbuf.length (successes (out :: outs)) = 0 := by
        rcases hend with h0 | h0 <;> simp [h0]
      omega
    · cases out with
      | again => exact absurd (.inr rfl) hend
      | error errstr => exact absurd (.inr rfl) hend
      | sent ret =>
        obtain ⟨scratch, rest, htx⟩ := List.exists_cons_of_ne_nil fun h => hend (.inl h)
        obtain ⟨u, hu, hsame, hsent, hcase⟩ := sendLoop_sent s htx ret outs
        have hlen : s.txbuf.length = rest.length + 1 := by rw [htx, List.length_cons]
        rw [hu, successes]
        rcases hcase with ⟨hroom, hready, hrest⟩ | ⟨hfull, hready, hstay⟩
        · -- the buffer joins the free list
          have hur : u.readybuf.length = s.readybuf.length + 1 := by simp [hready]
          have hsl : u.sent.length = s.sent.length + 1 := by simp [hsent]
          obtain ⟨hq, hr', hexact, hle, hlt⟩ := ih u (by omega)
          rw [hrest] at hexact hle hlt
          refine ⟨⟨hq.sendbuf.trans hsame.sendbuf, hq.queued.trans hsame.queued,
            hq.flushed.trans hsame.flushed⟩, hr', fun h => ?_, by omega, fun h => ?_⟩
          · rw [hexact (by omega), hsent, htx, List.append_assoc, List.singleton_append]
          · have := hlt (by omega)
            omega
        · -- a buffer leaves the free list, and the datagram stays
          have hur : u.readybuf.length = s.readybuf.length - 1 := by simp [hready]
          have hsl : u.sent.length = s.sent.length + 1 := by simp [hsent]
          obtain ⟨hq, hr', _, hle, _⟩ := ih u (by omega)
          rw [hstay] at hle
          refine ⟨⟨hq.sendbuf.trans hsame.sendbuf, hq.queued.trans hsame.queued,
            hq.flushed.trans hsame.flushed⟩, hr', fun h => ?_, by omega, fun _ => by omega⟩
          omega

/-! ### `queueSend` -/

/-- One message more is queued, in a buffer of the free list or a new one. -/
structure Queued (s t : PscUdp E) (m : UInt16 × List UInt8) : Prop where
  sendbuf : t.sendbuf = s.sendbuf ++ [frame m]
  queued : t.queued = s.queued ++ [m]
  flushed : t.flushed = s.flushed
  sent : t.sent = s.sent
  txbuf : t.txbuf = s.txbuf
  readybuf : t.readybuf.length ≤ s.readybuf.length

/-- The header is in place, in a buffer of the length that 32-bit arithmetic gives. -/
theorem queueHeader_ok {s t : PscUdp E} {code : UInt16} {n : UInt32}
    (h : queueHeader s code n = .ok t) :
    ∃ b ready, t = { s with sendbuf := s.sendbuf ++ [b], readybuf := ready } ∧
      ready.length ≤ s.readybuf.length ∧ 8 ≤ (8 + n).toNat ∧ b.length = (8 + n).toNat ∧
      b.take 8 = header code n := by
  unfold queueHeader at h
  split at h
  · cases h
  · dsimp only at h
    split at h
    · cases h
    · rename_i hshort
      rw [length_resize] at hshort
      simp only [Res.ok.injEq] at h
      refine ⟨_, _, h.symm, by simp, by simpa using hshort, ?_, ?_⟩
      · rw [length_overwrite (by simpa using hshort), length_resize]
      · rw [overwrite, List.take_zero, List.nil_append, ← length_header code n,
          List.take_left]

theorem queueHeader_throw {s t : PscUdp E} {code : UInt16} {n : UInt32} {e : Exc}
    (h : queueHeader s code n = .throw e t) : t = s := by
  unfold queueHeader at h
  split at h
  · cases h; rfl
  · dsimp only at h
    split at h <;> cases h

/-- The body fills the rest of a buffer that starts with the header. -/
theorem overwrite_body {b body : List UInt8} {id : UInt16} {n : UInt32}
    (hlen : b.length = 8 + body.length) (hhead : b.take 8 = header id n)
    (hn : n = UInt32.ofNat body.length) : overwrite b 8 body = frame (id, body) := by
  rw [overwrite, hhead, ← hlen, List.drop_length, List.append_nil, frame, hn]

/-- A message that is accepted is queued, and the connection is as it was. -/
theorem queueSendRaw_ok {s t : PscUdp E} {id : UInt16} {buf : RawBuf}
    (h : queueSendRaw s id buf = .ok t) :
    Queued s t (id, buf.bytes) ∧ t.connected = s.connected := by
  unfold queueSendRaw at h
  cases hq : queueHeader s id buf.len with
  | throw | abort =>
    rw [hq] at h
    cases h
  | ok u =>
    obtain ⟨b, ready, rfl, hready, h8, hlen, hhead⟩ := queueHeader_ok hq
    rw [hq, Res.andThen_ok] at h
    dsimp only at h
    rw [List.getLastD_concat] at h
    split at h
    · cases h
    · cases h
      have hfull : b.length = 8 + buf.bytes.length := by
        have h8' : (8 : UInt32).toNat = 8 := rfl
        have := buf.lt
        rw [hlen]
        rw [RawBuf.len, UInt32.toNat_add, UInt32.toNat_ofNat', h8'] at h8 ⊢
        omega
      refine ⟨⟨?_, rfl, rfl, rfl, rfl, hready⟩, rfl⟩
      change setBack (s.sendbuf ++ [b]) _ = _
      rw [setBack_concat, overwrite_body hfull hhead rfl]

theorem queueSendRaw_throw {s t : PscUdp E} {id : UInt16} {buf : RawBuf} {e : Exc}
    (h : queueSendRaw s id buf = .throw e t) : t = s := by
  unfold queueSendRaw at h
  cases hq : queueHeader s id buf.len with
  | throw e' u =>
    rw [hq] at h
    cases h
    exact queueHeader_throw hq
  | abort =>
    rw [hq] at h
    cases h
  | ok u =>
    rw [hq, Res.andThen_ok] at h
    dsimp only at h
    split at h <;> cases h

theorem queueSendRaw_queued {s t : PscUdp E} {id : UInt16} {buf : RawBuf}
    (h : (queueSendRaw s id buf).state? = some t) : t = s ∨ Queued s t (id, buf.bytes) := by
  cases hr : queueSendRaw s id buf with
  | ok u =>
    rw [hr, Res.state?_ok, Option.some.injEq] at h
    exact .inr (h ▸ (queueSendRaw_ok hr).1)
  | throw e u =>
    rw [hr, Res.state?_throw, Option.some.injEq] at h
    exact .inl (h ▸ queueSendRaw_throw hr)
  | abort =>
    rw [hr] at h
    cases h

theorem queueSendDbuf_ok {s t : PscUdp E} {id : UInt16} {buf : DBuffer E}
    (h : queueSendDbuf s id buf = .ok t) :
    Queued s t (id, buf.mem) ∧ t.connected = s.connected := by
  unfold queueSendDbuf at h
  cases hq : queueHeader s id (UInt32.ofNat buf.size) with
  | throw | abort =>
    rw [hq] at h
    cases h
  | ok u =>
    obtain ⟨b, ready, rfl, hready, h8, hlen, hhead⟩ := queueHeader_ok hq
    rw [hq, Res.andThen_ok] at h
    dsimp only at h
    rw [List.getLastD_concat] at h
    split at h
    · cases h
    · rename_i hassert
      have hfull : b.length = 8 + buf.size := not_not.mp hassert
      have hbound := (8 + UInt32.ofNat buf.size).toNat_lt
      obtain ⟨all, hcopy⟩ := buf.copyout_all (by omega)
      rw [hcopy] at h
      cases h
      rw [buf.size_eq] at hfull hhead
      refine ⟨⟨?_, rfl, rfl, rfl, rfl, hready⟩, rfl⟩
      change setBack (s.sendbuf ++ [b]) _ = _
      rw [setBack_concat, overwrite_body hfull hhead rfl]

theorem queueSendDbuf_throw {s t : PscUdp E} {id : UInt16} {buf : DBuffer E} {e : Exc}
    (h : queueSendDbuf s id buf = .throw e t) : t = s := by
  unfold queueSendDbuf at h
  cases hq : queueHeader s id (UInt32.ofNat buf.size) with
  | throw e' u =>
    rw [hq] at h
    cases h
    exact queueHeader_throw hq
  | abort =>
    rw [hq] at h
    cases h
  | ok u =>
    rw [hq, Res.andThen_ok] at h
    dsimp only at h
    split at h
    · cases h
    · split at h <;> cases h

theorem queueSendDbuf_queued {s t : PscUdp E} {id : UInt16} {buf : DBuffer E}
    (h : (queueSendDbuf s id buf).state? = some t) : t = s ∨ Queued s t (id, buf.mem) := by
  cases hr : queueSendDbuf s id buf with
  | ok u =>
    rw [hr, Res.state?_ok, Option.some.injEq] at h
    exact .inr (h ▸ (queueSendDbuf_ok hr).1)
  | throw e u =>
    rw [hr, Res.state?_throw, Option.some.injEq] at h
    exact .inl (h ▸ queueSendDbuf_throw hr)
  | abort =>
    rw [hr] at h
    cases h

/-! ### Runs -/

/-- The queue invariant: exact, and a free list within its bound. -/
structure Inv (s : PscUdp E) : Prop where
  exact : Exact s
  ready : s.readybuf.length ≤ 64

theorem Queued.inv {s t : PscUdp E} {m : UInt16 × List UInt8} (h : Queued s t m) (hs : Inv s) :
    Inv t := by
  refine ⟨⟨?_, ?_⟩, h.readybuf.trans hs.ready⟩
  · rw [h.queued, h.flushed, h.sendbuf, List.map_append, hs.exact.queue, List.append_assoc]
    rfl
  · rw [h.flushed, h.sent, h.txbuf, hs.exact.tx]

/-- The lists of the transmit side are the same. -/
structure SameTx (s t : PscUdp E) : Prop extends SameQueue s t where
  sent : t.sent = s.sent
  txbuf : t.txbuf = s.txbuf
  readybuf : t.readybuf = s.readybuf

theorem SameTx.inv {s t : PscUdp E} (h : SameTx s t) (hs : Inv s) : Inv t := by
  refine ⟨⟨?_, ?_⟩, by rw [h.readybuf]; exact hs.ready⟩
  · rw [h.queued, h.flushed, h.sendbuf, hs.exact.queue]
  · rw [h.flushed, h.sent, h.txbuf, hs.exact.tx]

theorem withSend_queued {s t : PscUdp E} {id : UInt16} {f : Block E → Res (PscUdp E)}
    (hs : Inv s) (hf : ∀ blk, (f blk).state? = some t → t = s ∨ ∃ m, Queued s t m)
    (h : (withSend s id f).state? = some t) : Inv t := by
  unfold withSend at h
  split at h
  · rcases hf _ h with rfl | ⟨m, hq⟩
    · exact hs
    · exact hq.inv hs
  · rw [Res.state?_ok, Option.some.injEq] at h
    exact h ▸ hs

theorem flushSend_inv {s t : PscUdp E} {eventAdd : Bool} (hs : Inv s)
    (h : (flushSend s eventAdd).state? = some t) : Inv t := by
  have hmoved : s.queued.map frame = s.sent ++ (s.txbuf ++ s.sendbuf) := by
    rw [hs.exact.queue, hs.exact.tx, List.append_assoc]
  unfold flushSend at h
  split at h
  · rw [Res.state?_ok, Option.some.injEq] at h
    exact h ▸ hs
  · split at h
    · rw [Res.state?_throw, Option.some.injEq] at h
      exact h ▸ hs
    · dsimp only at h
      split at h <;>
        simp only [Res.state?_ok, Res.state?_throw, Option.some.injEq] at h <;>
        subst h <;>
        exact ⟨⟨(List.append_nil _).symm, hmoved⟩, hs.ready⟩

theorem recvPacket_sameTx (s : PscUdp E) (d : Datagram) (env : RxEnv) :
    SameTx s (recvPacket s d env) := by
  unfold recvPacket
  dsimp only
  split_ifs <;> exact ⟨⟨rfl, rfl, rfl⟩, rfl, rfl, rfl⟩

theorem recvLoop_inv (outs : List RecvFrom) : ∀ s : PscUdp E, Inv s → Inv (recvLoop s outs) := by
  induction outs with
  | nil => exact fun s hs => hs
  | cons out outs ih =>
    intro s hs
    cases out with
    | dgram d env => exact ih _ ((recvPacket_sameTx s d env).inv hs)
    | again => exact hs
    | error errstr =>
      have hsame : SameTx s (recvLoop s (.error errstr :: outs)) := ⟨⟨rfl, rfl, rfl⟩, rfl, rfl, rfl⟩
      exact hsame.inv hs

/-- STEP: a call for which the free list has room keeps the lists exact. -/
theorem exact_step (s : PscUdp E) (op : Op E) (t : PscUdp E) (hs : Inv s) (hroom : HasRoom s op)
    (h : step s op = some t) : Inv t := by
  cases op with
  | connect eventAdd =>
    simp only [step, call, connect] at h
    split at h <;> simp only [Res.state?_ok, Res.state?_throw, Option.some.injEq] at h
    · have hsame : SameTx s t := h ▸ ⟨⟨rfl, rfl, rfl⟩, rfl, rfl, rfl⟩
      exact hsame.inv hs
    · exact h ▸ hs
  | send bid =>
    exact withSend_queued hs (fun _ hq => (queueSendDbuf_queued hq).imp_right fun hq => ⟨_, hq⟩) h
  | queueSendId bid buf =>
    have hsame : SameTx s (getSend s bid) := ⟨⟨rfl, rfl, rfl⟩, rfl, rfl, rfl⟩
    exact withSend_queued (hsame.inv hs)
      (fun _ hq => (queueSendRaw_queued hq).imp_right fun hq => ⟨_, hq⟩) h
  | queueSendRaw blk buf =>
    exact withSend_queued hs (fun _ hq => (queueSendRaw_queued hq).imp_right fun hq => ⟨_, hq⟩) h
  | queueSendDbuf blk buf =>
    exact withSend_queued hs (fun _ hq => (queueSendDbuf_queued hq).imp_right fun hq => ⟨_, hq⟩) h
  | flushSend eventAdd => exact flushSend_inv hs h
  | writeBlock id data =>
    simp only [step, call, Res.state?_ok, Option.some.injEq] at h
    have hsame : SameTx s t := h ▸ ⟨⟨rfl, rfl, rfl⟩, rfl, rfl, rfl⟩
    exact hsame.inv hs
  | senddata evt outs eventAdd =>
    rw [senddata_state h]
    split
    · rename_i hwrite
      obtain ⟨hq, hr, hexact, -, -⟩ := sendLoop_spec outs s hs.ready
      refine ⟨⟨?_, ?_⟩, hr⟩
      · rw [hq.queued, hq.flushed, hq.sendbuf, hs.exact.queue]
      · rw [hq.flushed, hexact (hroom hwrite), hs.exact.tx]
    · exact hs
  | recvdata evt outs =>
    simp only [step, call, Res.state?_ok, Option.some.injEq] at h
    unfold recvdata at h
    split_ifs at h
    · have hsame : SameTx s t := h ▸ ⟨⟨rfl, rfl, rfl⟩, rfl, rfl, rfl⟩
      exact hsame.inv hs
    · exact h ▸ hs
    · exact h ▸ recvLoop_inv outs s hs

/-- STEP (the converse): without room for a buffer a datagram is sent and stays in `txbuf`. -/
theorem hasRoom_of_exact (s : PscUdp E) (op : Op E) (t : PscUdp E) (hs : Inv s)
    (h : step s op = some t) (ht : Exact t) : HasRoom s op := by
  cases op with
  | senddata evt outs eventAdd =>
    intro hwrite
    by_contra hfull
    obtain ⟨hq, -, -, -, htwice⟩ := sendLoop_spec outs s hs.ready
    have htx := ht.tx
    rw [senddata_state h, if_pos hwrite, hq.flushed, hs.exact.tx] at htx
    have hlen := congrArg List.length htx
    rw [List.length_append, List.length_append] at hlen
    have := htwice (by omega)
    omega
  | _ => trivial

theorem inv_init (ep : SockAddr) (tx rx : Finset UInt16) :
    Inv (PscUdp.init ep tx rx : PscUdp E) := ⟨⟨rfl, rfl⟩, Nat.zero_le _⟩

/-- SENT EXACTLY ONCE: in every state of a run the datagrams sent, and after them `txbuf`, are the
    flushed messages in the order they were queued, if and only if every `senddata` finds room in
    the free list for the buffers that become free. -/
theorem sent_exactly_once (ep : SockAddr) (tx rx : Finset UInt16) (ops : List (Op E)) :
    Always step Exact (PscUdp.init ep tx rx) ops ↔
      Along step HasRoom (PscUdp.init ep tx rx) ops :=
  always_iff_along exact_step (fun _ hs => hs.exact) hasRoom_of_exact (inv_init ep tx rx)

/-- With 64 buffers in the free list the 65th datagram is sent twice. -/
theorem senddata_sends_twice :
    ∃ s, exec step (PscUdp.init ⟨0, 0⟩ ∅ ∅ : PscUdp Chains)
        ([.connect true, .queueSendId 1 ⟨[0], by decide⟩, .flushSend true] ++
          List.replicate 64 (.queueSendId 2 ⟨[7], by decide⟩) ++
          [.senddata ⟨false, false, true⟩ [.sent 9] true, .flushSend true,
            .senddata ⟨false, false, true⟩ (List.replicate 65 (.sent 9)) true]) = some s ∧
      s.flushed.length = 65 ∧ s.sent.length = 66 ∧ s.txbuf = [] ∧ ¬ Exact s := by
  have hrun : (exec step (PscUdp.init ⟨0, 0⟩ ∅ ∅ : PscUdp Chains)
        ([.connect true, .queueSendId 1 ⟨[0], by decide⟩, .flushSend true] ++
          List.replicate 64 (.queueSendId 2 ⟨[7], by decide⟩) ++
          [.senddata ⟨false, false, true⟩ [.sent 9] true, .flushSend true,
            .senddata ⟨false, false, true⟩ (List.replicate 65 (.sent 9)) true])).map
      (fun s => (s.flushed.length, s.sent.length, s.txbuf)) = some (65, 66, []) := by
    decide +kernel
  obtain ⟨s, hs, hlen⟩ := Option.map_eq_some_iff.mp hrun
  simp only [Prod.mk.injEq] at hlen
  obtain ⟨hf, hst, htx⟩ := hlen
  refine ⟨s, hs, hf, hst, htx, fun hexact => ?_⟩
  have hsum := congrArg List.length hexact.tx
  rw [List.length_map, List.length_append, hf, hst, htx] at hsum
  exact absurd hsum (by decide)

end Pscdrv.Udp
