import Pscdrv.Schemes.Channel
import Pscdrv.Target.Skip

/-! # The loop of `handle_client`

    The thread of a client calls `psc_recvmsg` with a buffer of 1024 bytes, hands what it got to the
    `recv` callback of the server, and goes on until a call fails. The callbacks of a server only
    send. What the callback sees of a stream are its messages, one after another, each cut off at
    1024 bytes.

        stream   ├─ PS id len body ─┤├─ PS id len body ─┤├─ PS id …
        recv         (id, body)          (id, body)        error, end of the thread -/

namespace Pscdrv.Target

open Memory Channel

/-- `PSC_MAX_RX_MSG_LEN` -/
def pscMaxRxMsgLen : UInt32 := 1024

/-- The buffer `C->rxbuf`. -/
structure RxBuf where
  bytes : List UInt8
  length_eq : bytes.length = pscMaxRxMsgLen.toNat

/-- What the `recv` callback is called with: the buffer is the whole of `C->rxbuf`. -/
structure RecvCb where
  msgid : UInt16
  msglen : UInt32
  msg : List UInt8

/-- The message id and the bytes of the body that the callback may look at. -/
def RecvCb.message (d : RecvCb) : UInt16 × List UInt8 := (d.msgid, d.msg.take d.msglen.toNat)

/-- The callbacks of a `psc_config`, as far as they act on the socket of the client: they may send
    on it. -/
structure Handlers where
  conn : Sock → Sock
  recv : RecvCb → Sock → Sock
  conn_incoming : ∀ s, (conn s).incoming = s.incoming
  conn_env : ∀ s, (conn s).env = s.env
  recv_incoming : ∀ d s, (recv d s).incoming = s.incoming
  recv_env : ∀ d s, (recv d s).env = s.env

/-- What `handle_client` passes to `psc_recvmsg`; `msgid` is only set by it. -/
def rxCall (buf : RxBuf) : Call where
  msgid := 0
  msglen := pscMaxRxMsgLen
  buf := buf.bytes
  room := buf.length_eq.ge

/-! ### The buffer keeps its length -/

theorem length_recvall (s : Sock) (n : ℕ) : (recvall s n).2.1.length ≤ n := by
  induction n using Nat.strongRecOn generalizing s with
  | ind n ih =>
    by_cases hn : n = 0
    · rw [hn, recvall_zero]
      exact Nat.le_refl 0
    rcases recv_cases s n with ⟨errno, hf⟩ | ⟨data, hr, hne⟩
    · rw [recvall_failed hn hf]
      exact Nat.zero_le n
    · have hpos : 0 < data.length := List.length_pos_of_ne_nil hne
      have hle := (recv_ok hr).2.2
      have hrest := ih (n - data.length) (by omega) (recv s n).2
      rw [recvall_part hr hne, List.length_append]
      omega

theorem buf_recvbody (s : Sock) (c : Call) (mid : UInt16) (mlen : UInt32) :
    (recvbody s c mid mlen).buf.length = c.buf.length := by
  obtain ⟨rlen, hdef⟩ : ∃ rlen, rlen = if c.msglen < mlen then c.msglen else mlen := ⟨_, rfl⟩
  have hrlen : rlen.toNat = min mlen.toNat c.msglen.toNat := by rw [hdef, rlen_toNat]
  have hstored : (overwrite c.buf 0 (recvall s rlen.toNat).2.1).length = c.buf.length := by
    have hread := length_recvall s rlen.toNat
    have hroom := c.room
    exact length_overwrite (by omega)
  unfold recvbody
  rw [← hdef]
  dsimp only
  split
  · exact hstored
  · split <;> exact hstored

theorem buf_recvmsg (s : Sock) (c : Call) : (recvmsg s c).buf.length = c.buf.length := by
  unfold recvmsg
  dsimp only
  split
  · rfl
  · exact buf_recvbody _ c _ _

/-- A call that returns 0 takes at least a header from the stream, whatever the socket does. -/
theorem recvmsg_takes {s : Sock} {c : Call} (h : (recvmsg s c).ret = none) :
    headerSize ≤ s.incoming.length ∧
      (recvmsg s c).sock.incoming.length + headerSize ≤ s.incoming.length := by
  rcases recvmsg_returns h with ⟨hle, hin⟩ | ⟨p, hslips⟩
  · rw [hin, List.length_drop]
    omega
  · obtain ⟨-, hin, hle⟩ := recvmsg_slips hslips
    rw [hin, List.length_drop]
    omega

/-! ### The loop -/

/-- The loop of `handle_client`: the calls of the `recv` callback, the error that ends it, and the
    socket behind it. -/
def clientLoop (conf : Handlers) (s : Sock) (rxbuf : RxBuf) :
    List RecvCb × Option Errno × Sock :=
  let r := recvmsg s (rxCall rxbuf)
  if _h : r.ret = none then
    let d : RecvCb := ⟨r.msgid, r.msglen, r.buf⟩
    let rest := clientLoop conf (conf.recv d r.sock)
      ⟨r.buf, (buf_recvmsg s _).trans rxbuf.length_eq⟩
    (d :: rest.1, rest.2)
  else ([], r.ret, r.sock)
termination_by s.incoming.length
decreasing_by
  have htakes := recvmsg_takes ‹_›
  rw [conf.recv_incoming]
  have h8 : headerSize = 8 := rfl
  omega

/-- `handle_client`, up to the point where it takes its client out of the list. -/
def handleClient (conf : Handlers) (s : Sock) (rxbuf : RxBuf) : List RecvCb × Option Errno × Sock :=
  clientLoop conf (conf.conn s) rxbuf

/-- A turn whose call returns 0. -/
theorem clientLoop_turn (conf : Handlers) {s : Sock} {rxbuf : RxBuf}
    (h : (recvmsg s (rxCall rxbuf)).ret = none) : ∃ d : RecvCb, ∃ next : RxBuf,
    d = ⟨(recvmsg s (rxCall rxbuf)).msgid, (recvmsg s (rxCall rxbuf)).msglen,
      (recvmsg s (rxCall rxbuf)).buf⟩ ∧
    clientLoop conf s rxbuf =
      (d :: (clientLoop conf (conf.recv d (recvmsg s (rxCall rxbuf)).sock) next).1,
        (clientLoop conf (conf.recv d (recvmsg s (rxCall rxbuf)).sock) next).2) := by
  refine ⟨_, ⟨(recvmsg s (rxCall rxbuf)).buf, (buf_recvmsg s _).trans rxbuf.length_eq⟩, rfl, ?_⟩
  conv_lhs => rw [clientLoop]
  rw [dif_pos h]

/-- The last turn. -/
theorem clientLoop_last {conf : Handlers} {s : Sock} {rxbuf : RxBuf} {errno : Errno}
    (h : (recvmsg s (rxCall rxbuf)).ret = some errno) :
    clientLoop conf s rxbuf = ([], some errno, (recvmsg s (rxCall rxbuf)).sock) := by
  rw [clientLoop, dif_neg (by rw [h]; simp), h]

/-! ### What the callback sees -/

/-- A message, cut off at the room there is. -/
def cutOff (f : Frame) : UInt16 × List UInt8 := (f.code, f.body.take pscMaxRxMsgLen.toNat)

/-- The message that was received, as the callback sees it. -/
theorem Received.message {s : Sock} {f : Frame} {rxbuf : RxBuf}
    (h : Received s f (rxCall rxbuf)) :
    RecvCb.message ⟨(recvmsg s (rxCall rxbuf)).msgid, (recvmsg s (rxCall rxbuf)).msglen,
      (recvmsg s (rxCall rxbuf)).buf⟩ = cutOff f := by
  have hroom : (rxCall rxbuf).msglen.toNat = pscMaxRxMsgLen.toNat := rfl
  have hbuf : (rxCall rxbuf).buf.length = pscMaxRxMsgLen.toNat := rxbuf.length_eq
  rw [RecvCb.message, cutOff, h.msgid, h.msglen, h.buf, hroom, overwrite]
  have hlen : (f.body.take (min f.body.length pscMaxRxMsgLen.toNat)).length =
      min f.body.length pscMaxRxMsgLen.toNat := by
    rw [List.length_take]
    omega
  rw [List.take_zero, List.nil_append, List.take_left' hlen]
  congr 1
  rcases Nat.le_total f.body.length pscMaxRxMsgLen.toNat with hle | hle
  · rw [Nat.min_eq_left hle, List.take_length, List.take_of_length_le hle]
  · rw [Nat.min_eq_right hle]

/-- LOOP: on a stream that holds some whole messages and a piece of another one, the callback gets
    these messages, and then the stream has ended. -/
theorem clientLoop_spec (conf : Handlers) {s : Sock} (h : Positive s) (rxbuf : RxBuf)
    {fs : List Frame} {tail : List UInt8} {g : Frame}
    (hin : s.incoming = wire Frame.bytes fs ++ tail) (htail : tail <+: g.bytes)
    (hne : tail ≠ g.bytes) :
    (clientLoop conf s rxbuf).1.map RecvCb.message = fs.map cutOff ∧
      (clientLoop conf s rxbuf).2.1 = some .enotconn := by
  induction fs generalizing s rxbuf with
  | nil =>
    have htail' : s.incoming = tail := hin
    rw [clientLoop_last (recvmsg_end h (rxCall rxbuf) (htail' ▸ htail) (htail' ▸ hne))]
    exact ⟨rfl, rfl⟩
  | cons f fs ih =>
    rw [wire_cons, List.append_assoc] at hin
    obtain ⟨hrec, hpos⟩ := recvmsg_spec h (rxCall rxbuf) hin
    obtain ⟨d, next, hd, hloop⟩ := clientLoop_turn conf hrec.ret
    have hnext : (conf.recv d (recvmsg s (rxCall rxbuf)).sock).incoming =
        wire Frame.bytes fs ++ tail := by
      rw [conf.recv_incoming, hrec.consumed, hin]
      exact List.drop_left' (length_bytes f)
    have hpos' : Positive (conf.recv d (recvmsg s (rxCall rxbuf)).sock) := by
      intro i
      rw [conf.recv_env]
      exact hpos i
    obtain ⟨hmsgs, hend⟩ := ih hpos' next hnext
    have hdm : d.message = cutOff f := hd ▸ hrec.message
    rw [hloop, List.map_cons, List.map_cons, hmsgs, hdm]
    exact ⟨rfl, hend⟩

/-- A call that returns 0 with room for the whole body, whatever the socket did. -/
theorem recvmsg_whole {s : Sock} {c : Call} (h : (recvmsg s c).ret = none)
    (hfits : (bodylenOf s.incoming).toNat ≤ c.msglen.toNat) :
    isPS s.incoming = true ∧ headerSize + (bodylenOf s.incoming).toNat ≤ s.incoming.length ∧
      ∃ u, u.incoming = s.incoming.drop (headerSize + (bodylenOf s.incoming).toNat) ∧
        recvmsg s c = ⟨none, msgidOf s.incoming, bodylenOf s.incoming,
          overwrite c.buf 0 ((s.incoming.drop headerSize).take (bodylenOf s.incoming).toNat),
          u⟩ := by
  rcases recvhead_cases s with ⟨errno, herr⟩ | ⟨hps, t, hhead⟩
  · rw [recvmsg_head c herr] at h
    cases h
  obtain ⟨hdrop, hfirst⟩ := hhead.taken
  rw [recvmsg_body c (recvhead_gives hhead hps)] at h ⊢
  have hlong : ¬ c.msglen < bodylenOf s.incoming := by
    rw [UInt32.lt_iff_toNat_lt]
    omega
  rcases recvbody_cases t c (msgidOf s.incoming) (bodylenOf s.incoming) with
    ⟨errno, herr⟩ | ⟨u, hbody⟩
  · rw [herr] at h
    cases h
  rw [if_neg hlong] at hbody
  obtain ⟨hdrop', hle⟩ := hbody.taken
  rw [hdrop, List.length_drop] at hle
  refine ⟨hps, by omega, u, by rw [hdrop', hdrop, List.drop_drop], ?_⟩
  unfold recvbody
  rw [if_neg hlong]
  dsimp only
  rw [hbody.recvall]
  dsimp only
  rw [if_neg (by simp), if_neg (UInt32.lt_irrefl _), hdrop]

/-- LOOP: whatever the socket does, if the messages on the stream fit the buffer, the callback gets
    the first ones of them, one after another. -/
theorem clientLoop_prefix (conf : Handlers) {s : Sock} (rxbuf : RxBuf) {fs : List Frame}
    (hfits : ∀ f ∈ fs, f.body.length ≤ pscMaxRxMsgLen.toNat)
    (hin : s.incoming <+: wire Frame.bytes fs) :
    (clientLoop conf s rxbuf).1.map RecvCb.message <+: fs.map Frame.msg := by
  induction fs generalizing s rxbuf with
  | nil =>
    cases hret : (recvmsg s (rxCall rxbuf)).ret with
    | some errno =>
      rw [clientLoop_last hret]
      exact List.prefix_refl _
    | none =>
      have htakes := (recvmsg_takes hret).1
      rw [List.prefix_nil.mp hin] at htakes
      exact absurd htakes (by decide)
  | cons f fs ih =>
    cases hret : (recvmsg s (rxCall rxbuf)).ret with
    | some errno =>
      rw [clientLoop_last hret]
      exact List.nil_prefix
    | none =>
      rw [wire_cons] at hin
      have hfirst := hin
      rw [Frame.bytes, List.append_assoc] at hfirst
      obtain ⟨-, hid, hblen, -⟩ := header_of_prefix hfirst (recvmsg_takes hret).1
      have hbody : (bodylenOf s.incoming).toNat = f.body.length := by rw [hblen, body_toNat]
      have hfit : f.body.length ≤ pscMaxRxMsgLen.toNat := hfits f List.mem_cons_self
      obtain ⟨-, hle, u, hu, hmsg⟩ := recvmsg_whole hret (by rw [hbody]; exact hfit)
      rw [hbody] at hle hu hmsg
      -- the whole message is there
      have hlen : f.bytes.length ≤ s.incoming.length := by rw [length_bytes]; exact hle
      obtain ⟨rest, hrest⟩ :=
        List.prefix_of_prefix_length_le (List.prefix_append f.bytes _) hin hlen
      have hnext : rest <+: wire Frame.bytes fs :=
        (List.prefix_append_right_inj _).mp (hrest ▸ hin)
      have hurest : u.incoming = rest := by
        rw [hu, ← hrest]
        exact List.drop_left' (length_bytes f)
      obtain ⟨d, next, hd, hloop⟩ := clientLoop_turn conf hret
      have hstored : (s.incoming.drop headerSize).take f.body.length = f.body := by
        rw [← hrest, Frame.bytes, List.append_assoc, List.drop_left' (length_header ..),
          List.take_left' rfl]
      have hdm : d.message = f.msg := by
        rw [hd, hmsg, hstored, hblen, hid, RecvCb.message, body_toNat, overwrite, List.take_zero,
          List.nil_append, List.take_left' rfl]
        rfl
      rw [hloop, List.map_cons, List.map_cons, hdm]
      refine (List.prefix_cons_inj _).mpr
        (ih next (fun g hg => hfits g (List.mem_cons_of_mem f hg)) ?_)
      rw [conf.recv_incoming, hmsg, hurest]
      exact hnext

end Pscdrv.Target
