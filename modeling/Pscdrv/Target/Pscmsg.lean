import Pscdrv.Core.ByteOrder
import Pscdrv.Schemes.Channel
import Pscdrv.Schemes.Memory
import Pscdrv.Tcp.Transmit

/-! # Messages over a socket on the target side

    `psc_sendmsg` and `psc_recvmsg` write and read one message on a socket whose `send()` and
    `recv()` may move any part of what they are asked to. `psc_recvmsg` stores as much of a body as
    the caller has room for and skips the rest.

        ├── header ──┤├── body, min(len, room) bytes ──┤├── skipped, 128 bytes a time ──┤

    The field `asked` of a socket is not in the source: it records how many bytes each `recv()` was
    asked for. -/

namespace Pscdrv.Target

open Memory Channel

/-- `errno`, as far as these functions tell it apart. -/
inductive Errno where
  | eio
  | enotconn
  | other (code : ℕ)
  deriving DecidableEq

/-- What a call of `send()` or `recv()` does: it moves at most `n` bytes, or fails. -/
inductive Moved where
  | upTo (n : ℕ)
  | error (errno : Errno)

/-- A stream socket: the bytes that are still to be received before the stream ends, the bytes sent,
    and what each call of `send()` or `recv()` does, by its number. -/
structure Sock where
  incoming : List UInt8
  outgoing : List UInt8
  env : ℕ → Moved
  calls : ℕ
  asked : List ℕ

/-- `recv(sock, buf, buflen, flags)`: the bytes received, none at the end of the stream. -/
def recv (s : Sock) (buflen : ℕ) : Except Errno (List UInt8) × Sock :=
  let t := { s with calls := s.calls + 1, asked := s.asked ++ [buflen] }
  match s.env s.calls with
  | .error errno => (.error errno, t)
  | .upTo n => (.ok (s.incoming.take (min n buflen)),
      { t with incoming := s.incoming.drop (min n buflen) })

/-- `send(sock, buf, buflen, flags)`: the number of bytes sent. -/
def send (s : Sock) (buf : List UInt8) : Except Errno ℕ × Sock :=
  let t := { s with calls := s.calls + 1 }
  match s.env s.calls with
  | .error errno => (.error errno, t)
  | .upTo n => (.ok (min n buf.length), { t with outgoing := s.outgoing ++ buf.take n })

/-- `psc_sendall`; the result is `none` for the return value 0. -/
def sendall (s : Sock) (buf : List UInt8) : Option Errno × Sock :=
  if buf = [] then (none, s)
  else match (send s buf).1 with
    | .error errno => (some errno, (send s buf).2)
    | .ok ret =>
      if _h : ret = 0 then (some .enotconn, (send s buf).2)
      else sendall (send s buf).2 (buf.drop ret)
termination_by buf.length
decreasing_by
  have : 0 < buf.length := List.length_pos_of_ne_nil ‹_›
  rw [List.length_drop]
  omega

/-- `psc_recvall`: the return value, and the bytes stored in the buffer. -/
def recvall (s : Sock) (buflen : ℕ) : Option Errno × List UInt8 × Sock :=
  if buflen = 0 then (none, [], s)
  else match (recv s buflen).1 with
    | .error errno => (some errno, [], (recv s buflen).2)
    | .ok data =>
      if _h : data.length = 0 then (some .enotconn, [], (recv s buflen).2)
      else
        let r := recvall (recv s buflen).2 (buflen - data.length)
        (r.1, data ++ r.2.1, r.2.2)
termination_by buflen

/-- `psc_recvskip`: a failed read ends the loop, and the last read asks for all that is left. -/
def recvskip (s : Sock) (len : ℕ) : Option Errno × Sock :=
  if _h : 128 < len then
    let r := recvall s 128
    if r.1 = none then recvskip r.2.2 (len - 128)
    else
      let r := recvall r.2.2 len
      (r.1, r.2.2)
  else
    let r := recvall s len
    (r.1, r.2.2)
termination_by len
decreasing_by omega

/-- `psc_sendhead` -/
def sendhead (s : Sock) (msgid : UInt16) (msglen : UInt32) : Option Errno × Sock :=
  sendall s (header msgid msglen)

/-- `psc_sendmsg` -/
def sendmsg (s : Sock) (msgid : UInt16) (buf : List UInt8) : Option Errno × Sock :=
  let r := sendhead s msgid (UInt32.ofNat buf.length)
  if r.1 ≠ none then r else sendall r.2 buf

/-- `psc_sendmsgsingle`; `regid` is swapped where it lies. -/
def sendmsgsingle (host : Host) (s : Sock) (msgid : UInt16) (regid : BitVec 32)
    (buf : List UInt8) : Option Errno × Sock :=
  let r := sendhead s msgid (UInt32.ofNat buf.length + 4)
  if r.1 ≠ none then r
  else
    let regid := host.netOrder .w4 regid
    let r := sendall r.2 (host.image (w := .w4) regid)
    if r.1 ≠ none then r else sendall r.2 buf

/-- What a caller of `psc_recvmsg` passes: its variables, `msglen` being the room in the buffer, and
    the buffer. -/
structure Call where
  msgid : UInt16
  msglen : UInt32
  buf : List UInt8
  room : msglen.toNat ≤ buf.length

/-- What a call of `psc_recvmsg` leaves behind: its return value, the variables and the buffer of
    the caller, and the socket. -/
structure RecvMsg where
  ret : Option Errno
  msgid : UInt16
  msglen : UInt32
  buf : List UInt8
  sock : Sock

/-- `psc_recvhead`: the return value, and the variables it sets. -/
def recvhead (s : Sock) (msgid : UInt16) (msglen : UInt32) :
    Option Errno × (UInt16 × UInt32) × Sock :=
  let r := recvall s headerSize
  if r.1 ≠ none then (r.1, (msgid, msglen), r.2.2)
  else if !isPS r.2.1 then (some .eio, (msgid, msglen), r.2.2)
  else (none, (msgidOf r.2.1, bodylenOf r.2.1), r.2.2)

/-- `psc_recvmsg` behind a header `mid`, `mlen`: the bytes of the body there is room for are stored,
    the others skipped. -/
def recvbody (s : Sock) (c : Call) (mid : UInt16) (mlen : UInt32) : RecvMsg :=
  let rlen := if c.msglen < mlen then c.msglen else mlen
  let r := recvall s rlen.toNat
  let stored := overwrite c.buf 0 r.2.1
  if r.1 ≠ none then ⟨r.1, c.msgid, c.msglen, stored, r.2.2⟩
  else if rlen < mlen then
    let k := recvskip r.2.2 (mlen - rlen).toNat
    ⟨k.1, mid, rlen, stored, k.2⟩
  else ⟨none, mid, rlen, stored, r.2.2⟩

/-- `psc_recvmsg` -/
def recvmsg (s : Sock) (c : Call) : RecvMsg :=
  let r := recvhead s 0 0
  if r.1 ≠ none then ⟨r.1, c.msgid, c.msglen, c.buf, r.2.2⟩
  else recvbody r.2.2 c r.2.1.1 r.2.1.2

/-! ### Partial sends and receives -/

/-- Every `send()` and `recv()` moves at least one byte, up to the end of the stream. -/
def Positive (s : Sock) : Prop := ∀ i, ∃ n, 0 < n ∧ s.env i = .upTo n

/-- LOOP: all the bytes are sent, in however many parts. -/
theorem sendall_spec (s : Sock) (h : Positive s) (buf : List UInt8) : ∃ t,
    sendall s buf = (none, t) ∧ t.outgoing = s.outgoing ++ buf ∧ Positive t := by
  induction hn : buf.length using Nat.strongRecOn generalizing s buf with
  | ind k ih =>
    subst hn
    unfold sendall
    by_cases h0 : buf = []
    · exact ⟨s, if_pos h0, by rw [h0, List.append_nil], h⟩
    have hlen : 0 < buf.length := List.length_pos_of_ne_nil h0
    obtain ⟨n, hpos, hn⟩ := h s.calls
    have hsend : send s buf = (.ok (min n buf.length), { s with
        calls := s.calls + 1, outgoing := s.outgoing ++ buf.take n }) := by
      rw [send, hn]
    have hdrop : (buf.drop (min n buf.length)).length < buf.length := by
      rw [List.length_drop]; omega
    obtain ⟨t, ht, hout, hpt⟩ := ih _ hdrop { s with
      calls := s.calls + 1, outgoing := s.outgoing ++ buf.take n } h _ rfl
    refine ⟨t, ?_, ?_, hpt⟩
    · rw [if_neg h0, hsend]
      dsimp only
      rw [dif_neg (by omega), ht]
    · rw [hout, List.append_assoc]
      rcases Nat.le_total n buf.length with hle | hle
      · rw [Nat.min_eq_left hle, List.take_append_drop]
      · rw [Nat.min_eq_right hle, List.drop_length, List.append_nil, List.take_of_length_le hle]

/-- LOOP: `n` bytes are received, in however many parts, or all up to the end of the stream. -/
theorem recvall_spec (s : Sock) (h : Positive s) (n : ℕ) : ∃ t,
    recvall s n = (if n ≤ s.incoming.length then none else some .enotconn, s.incoming.take n, t) ∧
      t.incoming = s.incoming.drop n ∧ Positive t := by
  induction n using Nat.strongRecOn generalizing s with
  | ind n ih =>
    unfold recvall
    by_cases h0 : n = 0
    · exact ⟨s, by simp [h0], by simp [h0], h⟩
    obtain ⟨m, hpos, hm⟩ := h s.calls
    rw [if_neg h0]
    by_cases hend : s.incoming = []
    · have hrecv : recv s n = (.ok [], { s with
          calls := s.calls + 1, asked := s.asked ++ [n] }) := by
        rw [recv, hm]
        simp [hend]
      refine ⟨{ s with calls := s.calls + 1, asked := s.asked ++ [n] }, ?_, ?_, h⟩
      · rw [hrecv]
        simp [hend, h0]
      · simp [hend]
    · have hlen : 0 < s.incoming.length := List.length_pos_of_ne_nil hend
      -- the number of bytes this `recv()` gives
      obtain ⟨k, hk⟩ : ∃ k, k = min (min m n) s.incoming.length := ⟨_, rfl⟩
      have htake : s.incoming.take (min m n) = s.incoming.take k :=
        List.take_eq_take_iff.mpr (by omega)
      have hdrop : s.incoming.drop (min m n) = s.incoming.drop k := by
        rcases Nat.le_total (min m n) s.incoming.length with hle | hle
        · rw [hk, Nat.min_eq_left hle]
        · rw [hk, Nat.min_eq_right hle, List.drop_length, List.drop_of_length_le hle]
      have hrecv : recv s n = (.ok (s.incoming.take k), { s with
          calls := s.calls + 1, asked := s.asked ++ [n], incoming := s.incoming.drop k }) := by
        rw [recv, hm]
        dsimp only
        rw [htake, hdrop]
      have hgot : (s.incoming.take k).length = k := by
        rw [List.length_take]
        omega
      obtain ⟨t, ht, hin, hpt⟩ := ih (n - k) (by omega) { s with
        calls := s.calls + 1, asked := s.asked ++ [n], incoming := s.incoming.drop k } h
      have hsum : k + (n - k) = n := by omega
      have hrest : (n - k ≤ (s.incoming.drop k).length) ↔ n ≤ s.incoming.length := by
        rw [List.length_drop]
        omega
      refine ⟨t, ?_, ?_, hpt⟩
      · rw [hrecv]
        dsimp only
        rw [dif_neg (by omega), hgot, ht]
        simp only [hrest]
        rw [← List.take_add, hsum]
      · rw [hin, List.drop_drop, hsum]

theorem recvall_ok {s : Sock} (h : Positive s) {n : ℕ} (hn : n ≤ s.incoming.length) : ∃ t,
    recvall s n = (none, s.incoming.take n, t) ∧ t.incoming = s.incoming.drop n ∧ Positive t := by
  obtain ⟨t, ht, hrest⟩ := recvall_spec s h n
  exact ⟨t, by rw [ht, if_pos hn], hrest⟩

theorem recvall_end {s : Sock} (h : Positive s) {n : ℕ} (hn : s.incoming.length < n) : ∃ t,
    recvall s n = (some .enotconn, s.incoming.take n, t) := by
  obtain ⟨t, ht, -⟩ := recvall_spec s h n
  exact ⟨t, by rw [ht, if_neg (by omega)]⟩

/-- LOOP: `len` bytes are skipped, 128 at a time. -/
theorem recvskip_spec (s : Sock) (h : Positive s) (len : ℕ) : ∃ t,
    recvskip s len = (if len ≤ s.incoming.length then none else some .enotconn, t) ∧
      t.incoming = s.incoming.drop len ∧ Positive t := by
  induction len using Nat.strongRecOn generalizing s with
  | ind len ih =>
    unfold recvskip
    by_cases hbig : 128 < len
    · obtain ⟨t, ht, hin, hpt⟩ := recvall_spec s h 128
      rw [dif_pos hbig, ht]
      dsimp only
      have hdrop : t.incoming.length = s.incoming.length - 128 := by
        rw [hin, List.length_drop]
      by_cases hall : 128 ≤ s.incoming.length
      · obtain ⟨u, hu, huin, hpu⟩ := ih (len - 128) (by omega) t hpt
        refine ⟨u, ?_, ?_, hpu⟩
        · have hrest : (len - 128 ≤ t.incoming.length) ↔ len ≤ s.incoming.length := by omega
          rw [if_pos hall, if_pos rfl, hu]
          simp only [hrest]
        · rw [huin, hin, List.drop_drop, Nat.add_sub_of_le (by omega)]
      · -- the stream has ended: the read after the loop finds nothing either
        obtain ⟨u, hu, huin, hpu⟩ := recvall_spec t hpt len
        refine ⟨u, ?_, ?_, hpu⟩
        · rw [if_neg hall, if_neg (by simp), hu]
          dsimp only
          rw [if_neg (by omega), if_neg (by omega)]
        · rw [huin, hin, List.drop_drop, List.drop_of_length_le (by omega),
            List.drop_of_length_le (by omega)]
    · obtain ⟨t, ht, hin, hpt⟩ := recvall_spec s h len
      exact ⟨t, by rw [dif_neg hbig, ht], hin, hpt⟩

/-! ### One message -/

/-- `psc_sendmsg` sends the message as it lies on the stream. -/
theorem sendmsg_spec (s : Sock) (h : Positive s) (f : Frame) : ∃ t,
    sendmsg s f.code f.body = (none, t) ∧ t.outgoing = s.outgoing ++ f.bytes ∧ Positive t := by
  obtain ⟨t, ht, htout, hpt⟩ :=
    sendall_spec s h (header f.code (UInt32.ofNat f.body.length))
  obtain ⟨u, hu, huout, hpu⟩ := sendall_spec t hpt f.body
  refine ⟨u, ?_, ?_, hpu⟩
  · unfold sendmsg sendhead
    rw [ht]
    dsimp only
    rw [if_neg (by simp), hu]
  · rw [huout, htout, List.append_assoc, Frame.bytes]

/-- `psc_sendmsgsingle` sends the address and the value as the body of one message. -/
theorem sendmsgsingle_spec (host : Host) (s : Sock) (h : Positive s) (msgid : UInt16)
    (regid : BitVec 32) {buf : List UInt8} {f : Frame} (hcode : f.code = msgid)
    (hbody : f.body = BigEndian.be 4 regid.toNat ++ buf) : ∃ t,
    sendmsgsingle host s msgid regid buf = (none, t) ∧
      t.outgoing = s.outgoing ++ f.bytes := by
  have himage : host.image (w := .w4) (host.netOrder .w4 regid) = BigEndian.be 4 regid.toNat :=
    host.image_netOrder (w := .w4) regid
  have hlen : UInt32.ofNat (BigEndian.be 4 regid.toNat ++ buf).length =
      UInt32.ofNat buf.length + 4 := by
    rw [List.length_append, BigEndian.length_be, Nat.add_comm, UInt32.ofNat_add]
    rfl
  obtain ⟨t, ht, htout, hpt⟩ := sendall_spec s h (header msgid (UInt32.ofNat buf.length + 4))
  obtain ⟨u, hu, huout, hpu⟩ := sendall_spec t hpt (BigEndian.be 4 regid.toNat)
  obtain ⟨x, hx, hxout, -⟩ := sendall_spec u hpu buf
  refine ⟨x, ?_, ?_⟩
  · unfold sendmsgsingle sendhead
    rw [ht]
    dsimp only
    rw [if_neg (by simp), himage, hu, if_neg (by simp), hx]
  · rw [hxout, huout, htout, Frame.bytes, hcode, hbody, hlen]
    simp only [List.append_assoc]

theorem length_bytes (f : Frame) : f.bytes.length = headerSize + f.body.length := by
  rw [Frame.bytes, List.length_append, length_header]

/-- `psc_recvhead` on a header that starts with `PS`. -/
theorem recvhead_ok {s : Sock} (h : Positive s) {f : Frame} {rest : List UInt8}
    (hin : s.incoming = header f.code (UInt32.ofNat f.body.length) ++ rest) : ∃ t,
    recvhead s 0 0 = (none, (f.code, UInt32.ofNat f.body.length), t) ∧
      t.incoming = rest ∧ Positive t := by
  have hlen : headerSize ≤ s.incoming.length := by
    rw [hin, List.length_append, length_header]
    exact Nat.le_add_right ..
  have hps : isPS s.incoming = true := by rw [hin, isPS_header]
  obtain ⟨t, ht, htin, hpt⟩ := recvall_ok h hlen
  refine ⟨t, ?_, ?_, hpt⟩
  · unfold recvhead
    rw [ht]
    dsimp only
    rw [if_neg (by simp), isPS_take, if_neg (by simp [hps]), msgidOf_take, bodylenOf_take, hin,
      msgidOf_header, bodylenOf_header]
  · rw [htin, hin]
    exact List.drop_left' (length_header ..)

/-- `psc_recvhead` at a stream that ends before a whole header. -/
theorem recvhead_end {s : Sock} (h : Positive s) (hlen : s.incoming.length < headerSize) :
    (recvhead s 0 0).1 = some .enotconn := by
  obtain ⟨t, ht⟩ := recvall_end h hlen
  unfold recvhead
  rw [ht]
  rfl

/-- `psc_recvhead` on a header that does not start with `PS`. -/
theorem recvhead_eio {s : Sock} (h : Positive s) (hlen : headerSize ≤ s.incoming.length)
    (hps : isPS s.incoming = false) : (recvhead s 0 0).1 = some .eio := by
  obtain ⟨t, ht, -⟩ := recvall_ok h hlen
  unfold recvhead
  rw [ht]
  dsimp only
  rw [if_neg (by simp), isPS_take, if_pos (by simp [hps])]

/-- A failed header ends the call, which leaves the variables and the buffer of its caller alone. -/
theorem recvmsg_head {s : Sock} (c : Call) {errno : Errno} (h : (recvhead s 0 0).1 = some errno) :
    recvmsg s c = ⟨some errno, c.msgid, c.msglen, c.buf, (recvhead s 0 0).2.2⟩ := by
  unfold recvmsg
  dsimp only
  rw [h, if_pos (by simp)]

theorem recvmsg_body {s t : Sock} (c : Call) {mid : UInt16} {mlen : UInt32}
    (h : recvhead s 0 0 = (none, (mid, mlen), t)) : recvmsg s c = recvbody t c mid mlen := by
  unfold recvmsg
  rw [h]
  dsimp only
  rw [if_neg (by simp)]

/-- The call returns 0 with the message, cut off at the room there is, and takes the whole of it
    from the stream. -/
structure Received (s : Sock) (f : Frame) (c : Call) : Prop where
  ret : (recvmsg s c).ret = none
  msgid : (recvmsg s c).msgid = f.code
  msglen : (recvmsg s c).msglen.toNat = min f.body.length c.msglen.toNat
  buf : (recvmsg s c).buf = overwrite c.buf 0 (f.body.take (min f.body.length c.msglen.toNat))
  consumed : (recvmsg s c).sock.incoming = s.incoming.drop (headerSize + f.body.length)

/-- `rlen`, the smaller of the length and the room. -/
theorem rlen_toNat (msglen mlen : UInt32) :
    (if msglen < mlen then msglen else mlen).toNat = min mlen.toNat msglen.toNat := by
  split <;> rename_i hlt <;> rw [UInt32.lt_iff_toNat_lt] at hlt <;> omega

/-- The body is there: what fits is stored, and all of it is taken from the stream. -/
theorem recvbody_ok {s : Sock} (h : Positive s) (c : Call) (mid : UInt16) (mlen : UInt32)
    (hlen : mlen.toNat ≤ s.incoming.length) : ∃ rlen t,
    rlen.toNat = min mlen.toNat c.msglen.toNat ∧
      recvbody s c mid mlen =
        ⟨none, mid, rlen, overwrite c.buf 0 (s.incoming.take rlen.toNat), t⟩ ∧
      t.incoming = s.incoming.drop mlen.toNat ∧ Positive t := by
  obtain ⟨rlen, hdef⟩ : ∃ rlen, rlen = if c.msglen < mlen then c.msglen else mlen := ⟨_, rfl⟩
  have hrlen : rlen.toNat = min mlen.toNat c.msglen.toNat := by rw [hdef, rlen_toNat]
  obtain ⟨t, ht, htin, hpt⟩ := recvall_ok h (n := rlen.toNat) (by omega)
  unfold recvbody
  rw [← hdef]
  dsimp only
  rw [ht]
  dsimp only
  rw [if_neg (by simp)]
  by_cases hcut : rlen < mlen
  · have hle : rlen ≤ mlen := UInt32.le_iff_toNat_le.mpr (by omega)
    obtain ⟨u, hu, huin, hpu⟩ := recvskip_spec t hpt (mlen - rlen).toNat
    rw [UInt32.toNat_sub_of_le _ _ hle] at hu huin
    refine ⟨rlen, u, hrlen, ?_, ?_, hpu⟩
    · rw [if_pos hcut, UInt32.toNat_sub_of_le _ _ hle, hu, if_pos]
      rw [htin, List.length_drop]
      omega
    · rw [huin, htin, List.drop_drop, Nat.add_sub_of_le (by omega)]
  · refine ⟨rlen, t, hrlen, by rw [if_neg hcut], ?_, hpt⟩
    rw [UInt32.lt_iff_toNat_lt] at hcut
    rw [htin]
    congr 1
    omega

/-- The stream ends inside the body. -/
theorem recvbody_end {s : Sock} (h : Positive s) (c : Call) (mid : UInt16) {mlen : UInt32}
    (hlen : s.incoming.length < mlen.toNat) : (recvbody s c mid mlen).ret = some .enotconn := by
  obtain ⟨rlen, hdef⟩ : ∃ rlen, rlen = if c.msglen < mlen then c.msglen else mlen := ⟨_, rfl⟩
  have hrlen : rlen.toNat = min mlen.toNat c.msglen.toNat := by rw [hdef, rlen_toNat]
  unfold recvbody
  rw [← hdef]
  dsimp only
  by_cases hall : rlen.toNat ≤ s.incoming.length
  · obtain ⟨t, ht, htin, hpt⟩ := recvall_ok h hall
    have hcut : rlen < mlen := UInt32.lt_iff_toNat_lt.mpr (by omega)
    have hle : rlen ≤ mlen := UInt32.le_iff_toNat_le.mpr (by omega)
    obtain ⟨u, hu, -⟩ := recvskip_spec t hpt (mlen - rlen).toNat
    rw [ht]
    dsimp only
    rw [if_neg (by simp), if_pos hcut, hu, if_neg]
    rw [UInt32.toNat_sub_of_le _ _ hle, htin, List.length_drop]
    omega
  · obtain ⟨t, ht⟩ := recvall_end h (n := rlen.toNat) (by omega)
    rw [ht]
    rfl

theorem body_toNat (f : Frame) : (UInt32.ofNat f.body.length).toNat = f.body.length := by
  rw [UInt32.toNat_ofNat', Nat.mod_eq_of_lt f.body_lt]

/-- CORRECT: one message is received, whatever follows it. -/
theorem recvmsg_spec {s : Sock} (h : Positive s) {f : Frame} (c : Call) {rest : List UInt8}
    (hin : s.incoming = f.bytes ++ rest) : Received s f c ∧ Positive (recvmsg s c).sock := by
  rw [Frame.bytes, List.append_assoc] at hin
  obtain ⟨t, ht, htin, hpt⟩ := recvhead_ok h hin
  obtain ⟨rlen, u, hrlen, hu, huin, hpu⟩ := recvbody_ok hpt c f.code
    (UInt32.ofNat f.body.length) (by
      rw [body_toNat, htin, List.length_append]
      omega)
  rw [body_toNat] at hrlen huin
  have hcall : recvmsg s c =
      ⟨none, f.code, rlen, overwrite c.buf 0 (f.body.take rlen.toNat), u⟩ := by
    rw [recvmsg_body c ht, hu, htin, List.take_append_of_le_length (by omega)]
  refine ⟨⟨?_, ?_, ?_, ?_, ?_⟩, by rw [hcall]; exact hpu⟩
  · rw [hcall]
  · rw [hcall]
  · rw [hcall, hrlen]
  · rw [hcall, hrlen]
  · rw [hcall, ← List.drop_drop, hin, List.drop_left' (length_header ..)]
    rw [huin, htin]

/-- The stream ends inside a message, or before it. -/
theorem recvmsg_end {s : Sock} (h : Positive s) {f : Frame} (c : Call)
    (hin : s.incoming <+: f.bytes) (hne : s.incoming ≠ f.bytes) :
    (recvmsg s c).ret = some .enotconn := by
  have hlen : s.incoming.length < headerSize + f.body.length := by
    rw [← length_bytes]
    exact Nat.lt_of_le_of_ne hin.length_le fun heq => hne (hin.eq_of_length heq)
  by_cases hhead : s.incoming.length < headerSize
  · rw [recvmsg_head c (recvhead_end h hhead)]
  · have hsplit : s.incoming = header f.code (UInt32.ofNat f.body.length) ++
        s.incoming.drop headerSize := by
      have htake : s.incoming.take headerSize = f.bytes.take headerSize := by
        rw [List.prefix_iff_eq_take.mp hin, List.take_take, Nat.min_eq_left (by omega)]
      rw [Frame.bytes, List.take_left' (length_header ..)] at htake
      rw [← htake, List.take_append_drop]
    obtain ⟨t, ht, htin, hpt⟩ := recvhead_ok h hsplit
    rw [recvmsg_body c ht]
    refine recvbody_end hpt c f.code ?_
    rw [body_toNat, htin, List.length_drop]
    omega

/-! ### Streams of messages -/

/-- One `psc_sendmsg` after another, up to the first that fails. -/
def sendmsgs (s : Sock) : List Frame → Option Errno × Sock
  | [] => (none, s)
  | f :: fs =>
    let r := sendmsg s f.code f.body
    if r.1 ≠ none then r else sendmsgs r.2 fs

/-- The socket behind some calls of `psc_recvmsg`. -/
def behind (s : Sock) (calls : List Call) : Sock :=
  calls.foldl (fun s c => (recvmsg s c).sock) s

/-- RUN: the messages sent lie on the stream one behind the other. -/
theorem sendmsgs_spec {s : Sock} (h : Positive s) (fs : List Frame) :
    (sendmsgs s fs).1 = none ∧ (sendmsgs s fs).2.outgoing = s.outgoing ++ wire Frame.bytes fs := by
  induction fs generalizing s with
  | nil => exact ⟨rfl, (List.append_nil _).symm⟩
  | cons f fs ih =>
    obtain ⟨t, ht, htout, hpt⟩ := sendmsg_spec s h f
    rw [sendmsgs, ht]
    dsimp only
    rw [if_neg (by simp)]
    refine ⟨(ih hpt).1, ?_⟩
    rw [(ih hpt).2, htout, List.append_assoc]
    rfl

/-- RUN: a call for each message on the stream takes just these messages. -/
theorem behind_spec {s : Sock} (h : Positive s) {fs : List Frame} {calls : List Call}
    {tail : List UInt8} (hlen : calls.length = fs.length)
    (hin : s.incoming = wire Frame.bytes fs ++ tail) :
    (behind s calls).incoming = tail ∧ Positive (behind s calls) := by
  induction fs generalizing s calls with
  | nil =>
    rw [List.eq_nil_of_length_eq_zero hlen]
    exact ⟨hin, h⟩
  | cons f fs ih =>
    cases calls with
    | nil => cases hlen
    | cons c calls =>
      have hone : s.incoming = f.bytes ++ (wire Frame.bytes fs ++ tail) := by
        rw [hin, ← List.append_assoc]
        rfl
      obtain ⟨hrec, hpos⟩ := recvmsg_spec h c hone
      refine ih hpos (by simpa using hlen) ?_
      rw [hrec.consumed, hone]
      exact List.drop_left' (length_bytes f)

/-- Reading the messages of a stream that goes on with `tail`. -/
structure RoundTrip (s : Sock) (fs : List Frame) (tail : List UInt8) : Prop where
  /-- the `i`-th call starts at the `i`-th header and receives that message -/
  message : ∀ (calls : List Call) (i : ℕ) (f : Frame) (c : Call),
    fs[i]? = some f → calls[i]? = some c →
    (behind s (calls.take i)).incoming = wire Frame.bytes (fs.drop i) ++ tail ∧
      Received (behind s (calls.take i)) f c
  /-- the next call finds that the stream ends inside a message -/
  ended : ∀ (calls : List Call) (c : Call) (f : Frame), calls.length = fs.length →
    tail <+: f.bytes → tail ≠ f.bytes →
    (recvmsg (behind s calls) c).ret ≠ none
  /-- the next call finds a header that does not start with `PS` -/
  framing : ∀ (calls : List Call) (c : Call), calls.length = fs.length →
    headerSize ≤ tail.length → isPS tail = false →
    (recvmsg (behind s calls) c).ret = some .eio ∧
      (recvmsg (behind s calls) c).msgid = c.msgid ∧
      (recvmsg (behind s calls) c).msglen = c.msglen ∧ (recvmsg (behind s calls) c).buf = c.buf

/-- RUN: the stream of some messages is read back, whatever follows it. -/
theorem recvmsgs_spec {s : Sock} (h : Positive s) {fs : List Frame} {tail : List UInt8}
    (hin : s.incoming = wire Frame.bytes fs ++ tail) : RoundTrip s fs tail where
  message calls i f c hf hc := by
    have hi : i < fs.length := (List.getElem?_eq_some_iff.mp hf).1
    have hci : i < calls.length := (List.getElem?_eq_some_iff.mp hc).1
    have hsplit : wire Frame.bytes fs ++ tail =
        wire Frame.bytes (fs.take i) ++ (wire Frame.bytes (fs.drop i) ++ tail) := by
      rw [← List.append_assoc, ← wire_take_drop]
    have hdrop : fs.drop i = f :: fs.drop (i + 1) := by
      rw [List.drop_eq_getElem_cons hi, (List.getElem?_eq_some_iff.mp hf).2]
    have hlen : (calls.take i).length = (fs.take i).length := by
      rw [List.length_take, List.length_take]; omega
    obtain ⟨hin', hpos⟩ := behind_spec h hlen (hin.trans hsplit)
    have hnext : (behind s (calls.take i)).incoming =
        f.bytes ++ (wire Frame.bytes (fs.drop (i + 1)) ++ tail) := by
      rw [hin', hdrop, ← List.append_assoc]
      rfl
    exact ⟨hin', (recvmsg_spec hpos c hnext).1⟩
  ended calls c f hlen hpre hne := by
    obtain ⟨hin', hpos⟩ := behind_spec h hlen hin
    rw [recvmsg_end hpos c (hin' ▸ hpre) (hin' ▸ hne)]
    simp
  framing calls c hlen hhead hps := by
    obtain ⟨hin', hpos⟩ := behind_spec h hlen hin
    rw [recvmsg_head c (recvhead_eio hpos (hin' ▸ hhead) (hin' ▸ hps))]
    exact ⟨rfl, rfl, rfl, rfl⟩

/-- CORRECT: messages make the round trip. `psc_sendmsg` and the driver's `queueHeader`, followed by
    the body, write the same stream, and one call of `psc_recvmsg` for each message reads it back,
    however `send()` and `recv()` split it. -/
theorem message_round_trip {E : Type} [Libevent E] (s p : Sock) (hs : Positive s)
    (hp : Positive p) (fs : List Frame) :
    ((sendmsgs p fs).1 = none ∧ (sendmsgs p fs).2.outgoing = p.outgoing ++ wire Frame.bytes fs) ∧
    (∀ (cfg : Tcp.Config) (d d' : Tcp.Psc E) (blk : Block E) (f : Frame), d.connected = true →
      Tcp.queueHeader cfg d f.code blk (UInt32.ofNat f.body.length) = .ok d' →
      Libevent.bytes d.sendbuf = wire Frame.bytes fs →
      Libevent.bytes d'.sendbuf ++ f.body = wire Frame.bytes (fs ++ [f])) ∧
    ∀ tail, s.incoming = wire Frame.bytes fs ++ tail → RoundTrip s fs tail := by
  refine ⟨sendmsgs_spec hp fs, ?_, fun tail hin => recvmsgs_spec hs hin⟩
  intro cfg d d' blk f hconn hok hbytes
  rcases Tcp.queueHeader_ok hok with ⟨hdown, -⟩ | ⟨-, -, -, b, rfl, hb, -⟩
  · rw [hconn] at hdown
    cases hdown
  · rw [hb, hbytes, List.append_assoc, ← Frame.bytes, wire_append, wire_cons, wire_nil,
      List.append_nil]

/-- Two messages sent and received 3 bytes at a time, the first one with less room than it needs. -/
theorem message_round_trip_sample :
    let sock : List UInt8 → Sock := fun l => ⟨l, [], fun _ => .upTo 3, 0, []⟩
    let fs : List Frame := [⟨43, [104, 101, 108, 108, 111], by decide⟩, ⟨42, [1, 2], by decide⟩]
    let calls : List Call := [⟨0, 4, [0, 0, 0, 0], by decide⟩, ⟨0, 3, [9, 9, 9], by decide⟩]
    (sendmsgs (sock []) fs).2.outgoing = wire Frame.bytes fs ∧
      ∀ i f c, fs[i]? = some f → calls[i]? = some c →
        Received (behind (sock (wire Frame.bytes fs)) (calls.take i)) f c := by
  intro sock fs calls
  have h := message_round_trip (E := Libevent.Chains) (sock (wire Frame.bytes fs)) (sock [])
    (fun _ => ⟨3, by decide, rfl⟩) (fun _ => ⟨3, by decide, rfl⟩) fs
  exact ⟨h.1.2, fun i f c hf hc => ((h.2.2 [] (by simp [sock])).message calls i f c hf hc).2⟩

end Pscdrv.Target
