import Pscdrv.Core.Libevent
import Pscdrv.Core.Wire
import Pscdrv.Schemes.Channel
import Pscdrv.Schemes.Run

/-! # The client stream of the XBPM target (`main.c`)

    `connread` reads headers and bodies in turns, and waits when there are fewer bytes than it
    expects. What it expects is taken from the wrong state: 8 bytes for a body, and the length of
    the last body for a header. And a body that was moved out of the buffer is drained once more.

        havehead   should expect   does expect   then takes
        0          8               msglen        8
        1          msglen          8             msglen, and msglen again -/

namespace Pscdrv.Xbpm

open Libevent Run Channel

/-- `MAXMSG` -/
def maxMsg : ℕ := 1024

variable {E : Type} [Libevent E]

/-- `struct connection`, with the input buffer and the watermarks of its `bev` -/
structure Connection (E : Type) where
  havehead : Bool
  msgid : UInt16
  msglen : UInt32
  user_buf : E
  rxbuf : E
  lowmark : ℕ
  highmark : ℕ

/-- What became of the connection: it waits for a callback, or is in the loop of one. -/
inductive Status where
  | waiting
  | reading
  | freed
  | aborted
  deriving DecidableEq

/-- `onconn` -/
def onconn : Connection E := ⟨false, 0, 0, new, new, 8, maxMsg + 1⟩

/-- `user_buf` is drained, and the body is moved there; `rxbuf` and `user_buf` after that. -/
def Connection.takeBody (conn : Connection E) : E × E :=
  let old := length conn.user_buf
  let user_buf := if 0 < old then drain conn.user_buf old else conn.user_buf
  removeBuffer conn.rxbuf user_buf conn.msglen.toNat

/-- One turn of the loop of `connread`. -/
def turn (conn : Connection E) : Connection E × Status :=
  let expect := if conn.havehead then 8 else conn.msglen.toNat
  let mlen := length conn.rxbuf
  if mlen < expect then
    if expect < maxMsg + 1 then
      ({ conn with lowmark := expect, highmark := maxMsg + 1 }, .waiting)
    else (conn, .aborted)
  else if conn.havehead = false then
    if mlen < 8 then (conn, .aborted)
    else
      let head := (bytes conn.rxbuf).take 8
      let conn := { conn with rxbuf := drain conn.rxbuf 8 }
      if isPS head = false then (conn, .freed)
      else if maxMsg < (bodylenOf head).toNat then (conn, .freed)
      else
        ({ conn with havehead := true, msgid := msgidOf head, msglen := bodylenOf head }, .reading)
  else if mlen < conn.msglen.toNat then (conn, .aborted)
  else
    ({ conn with
      havehead := false
      user_buf := conn.takeBody.2
      rxbuf := drain conn.takeBody.1 conn.msglen.toNat }, .reading)

/-- The connection, and the bytes of the stream that have not arrived. -/
structure Client (E : Type) where
  conn : Connection E
  status : Status
  pending : List UInt8

/-- More bytes arrive, or `connread` goes through its loop once. -/
inductive Op where
  | arrive (n : ℕ)
  | turn
  deriving DecidableEq

/-- The input buffer after `n` more bytes of the stream, or all that are left. -/
def Client.filled (s : Client E) (n : ℕ) : E := arrive s.conn.rxbuf (s.pending.take n)

/-- One step; `connread` is called when at least as many bytes as the low watermark are there. -/
def step (s : Client E) : Op → Option (Client E)
  | .arrive n =>
    if s.status = .waiting then
      some ⟨{ s.conn with rxbuf := s.filled n },
        if s.conn.lowmark ≤ length (s.filled n) then .reading else .waiting, s.pending.drop n⟩
    else none
  | .turn =>
    if s.status = .reading then
      some { s with conn := (Xbpm.turn s.conn).1, status := (Xbpm.turn s.conn).2 }
    else none

/-! ### The reference -/

/-- A message that the target takes. -/
structure ShortFrame extends Frame where
  short : body.length ≤ maxMsg

abbrev ShortFrame.bytes (f : ShortFrame) : List UInt8 := f.toFrame.bytes

/-- A reader of headers and bodies, with the body it completed last and what it has not read. -/
structure Reader where
  havehead : Bool
  msgid : UInt16
  msglen : UInt32
  body : List UInt8
  rest : List UInt8
  deriving DecidableEq

namespace Reader

/-- The bytes that are needed to go on. -/
def need (r : Reader) : ℕ := if r.havehead then r.msglen.toNat else 8

/-- A header or a body, as soon as it is complete. -/
def next (r : Reader) : Reader :=
  if r.rest.length < r.need then r
  else if r.havehead then
    { r with
      havehead := false
      body := r.rest.take r.msglen.toNat
      rest := r.rest.drop r.msglen.toNat }
  else
    { r with
      havehead := true
      msgid := msgidOf r.rest
      msglen := bodylenOf r.rest
      rest := r.rest.drop 8 }

def init : Reader := ⟨false, 0, 0, [], []⟩

end Reader

/-- The reader goes along with the target. -/
def note (s : Client E) (op : Op) (r : Reader) : Reader :=
  match op with
  | .arrive n => { r with rest := r.rest ++ s.pending.take n }
  | .turn => r.next

/-- The target is where the reader is, and waits only if the reader does. -/
structure Follows (p : Client E × Reader) : Prop where
  alive : p.1.status = .waiting ∨ p.1.status = .reading
  havehead : p.1.conn.havehead = p.2.havehead
  msgid : p.1.conn.msgid = p.2.msgid
  msglen : p.1.conn.msglen = p.2.msglen
  user_buf : bytes p.1.conn.user_buf = p.2.body
  rxbuf : bytes p.1.conn.rxbuf = p.2.rest
  waits : p.1.status = .waiting → p.2.rest.length < p.2.need

/-- Bytes that arrive complete nothing, or reach the low watermark. A turn for a body finds less
    than 8 bytes and less than the body, or it finds the body, and this is empty with at least 8
    bytes behind it, or of at least 8 bytes with none behind it. -/
def Fits (s : Client E) : Op → Prop
  | .arrive n => length (s.filled n) < (if s.conn.havehead then s.conn.msglen.toNat else 8) ∨
      s.conn.lowmark ≤ length (s.filled n)
  | .turn => s.conn.havehead = true →
      length s.conn.rxbuf < min 8 s.conn.msglen.toNat ∨
        (s.conn.msglen = 0 ∧ 8 ≤ length s.conn.rxbuf) ∨
        (8 ≤ s.conn.msglen.toNat ∧ length s.conn.rxbuf = s.conn.msglen.toNat)

/-! ### One turn of the loop -/

section Turn

variable {conn : Connection E}

theorem turn_body_wait (hhead : conn.havehead = true) (h : length conn.rxbuf < 8) :
    turn conn = ({ conn with lowmark := 8, highmark := maxMsg + 1 }, .waiting) := by
  rw [turn, hhead]
  dsimp only
  rw [if_pos rfl, if_pos h, if_pos (by decide)]

/-- A body of which not all is there. -/
theorem turn_body_abort (hhead : conn.havehead = true) (h8 : 8 ≤ length conn.rxbuf)
    (h : length conn.rxbuf < conn.msglen.toNat) : (turn conn).2 = .aborted := by
  rw [turn, hhead]
  dsimp only
  rw [if_pos rfl, if_neg (by omega), if_neg Bool.noConfusion, if_pos h]

theorem takeBody_bytes (h : conn.msglen.toNat ≤ length conn.rxbuf) :
    bytes conn.takeBody.1 = (bytes conn.rxbuf).drop conn.msglen.toNat ∧
      bytes conn.takeBody.2 = (bytes conn.rxbuf).take conn.msglen.toNat := by
  have hdrained : bytes (if 0 < length conn.user_buf then
      drain conn.user_buf (length conn.user_buf) else conn.user_buf) = [] := by
    split
    · rw [bytes_drain, length, List.drop_length]
    · rename_i hnone
      exact List.length_eq_zero_iff.mp (Nat.eq_zero_of_not_pos hnone)
  obtain ⟨hsrc, hdst⟩ := removeBuffer_bytes conn.rxbuf _ conn.msglen.toNat h
  refine ⟨hsrc, hdst.trans ?_⟩
  rw [← bytes, hdrained, List.nil_append]
  rfl

/-- A body that is there is moved, and then as many bytes again are drained. -/
theorem turn_body (hhead : conn.havehead = true) (h8 : 8 ≤ length conn.rxbuf)
    (h : conn.msglen.toNat ≤ length conn.rxbuf) :
    turn conn =
      ({ conn with
        havehead := false
        user_buf := conn.takeBody.2
        rxbuf := drain conn.takeBody.1 conn.msglen.toNat }, .reading) := by
  rw [turn, hhead]
  dsimp only
  rw [if_pos rfl, if_neg (by omega), if_neg Bool.noConfusion, if_neg (by omega)]

theorem turn_head_wait (hhead : conn.havehead = false) (hshort : conn.msglen.toNat ≤ maxMsg)
    (h : length conn.rxbuf < conn.msglen.toNat) :
    turn conn =
      ({ conn with lowmark := conn.msglen.toNat, highmark := maxMsg + 1 }, .waiting) := by
  rw [turn, hhead]
  dsimp only
  rw [if_neg Bool.false_ne_true, if_pos h, if_pos (Nat.lt_succ_of_le hshort)]

/-- A header that is there, and right. -/
theorem turn_head (hhead : conn.havehead = false) (h8 : 8 ≤ length conn.rxbuf)
    (h : conn.msglen.toNat ≤ length conn.rxbuf) (hps : isPS (bytes conn.rxbuf) = true)
    (hlen : (bodylenOf (bytes conn.rxbuf)).toNat ≤ maxMsg) :
    turn conn =
      ({ conn with
        havehead := true
        msgid := msgidOf (bytes conn.rxbuf)
        msglen := bodylenOf (bytes conn.rxbuf)
        rxbuf := drain conn.rxbuf 8 }, .reading) := by
  have hps' : isPS ((bytes conn.rxbuf).take 8) = true := (isPS_take _).trans hps
  have hlen' : bodylenOf ((bytes conn.rxbuf).take 8) = bodylenOf (bytes conn.rxbuf) :=
    bodylenOf_take _
  have hid : msgidOf ((bytes conn.rxbuf).take 8) = msgidOf (bytes conn.rxbuf) := msgidOf_take _
  rw [turn, hhead]
  dsimp only
  rw [if_neg Bool.false_ne_true, if_neg (by omega), if_pos rfl, if_neg (by omega), hps',
    if_neg Bool.noConfusion, hlen', hid, if_neg (by omega)]

end Turn

/-! ### The reader -/

section Reader

variable {r : Reader}

theorem Reader.next_short (h : r.rest.length < r.need) : r.next = r := if_pos h

theorem Reader.next_body (hhead : r.havehead = true) (h : r.msglen.toNat ≤ r.rest.length) :
    r.next = { r with
      havehead := false
      body := r.rest.take r.msglen.toNat
      rest := r.rest.drop r.msglen.toNat } := by
  have hneed : r.need = r.msglen.toNat := if_pos hhead
  rw [Reader.next, if_neg (by omega), if_pos hhead]

theorem Reader.next_head (hhead : r.havehead = false) (h : 8 ≤ r.rest.length) :
    r.next = { r with
      havehead := true
      msgid := msgidOf r.rest
      msglen := bodylenOf r.rest
      rest := r.rest.drop 8 } := by
  have hneed : r.need = 8 := if_neg (by rw [hhead]; decide)
  rw [Reader.next, if_neg (by omega), if_neg (by rw [hhead]; decide)]

/-- The header in front of a stream. -/
theorem Reader.next_header {id : UInt16} {len : UInt32} {more : List UInt8}
    (hhead : r.havehead = false) (h : r.rest = header id len ++ more) :
    r.next = { r with havehead := true, msgid := id, msglen := len, rest := more } := by
  have hlen : 8 ≤ r.rest.length := by
    rw [h, List.length_append, length_header]
    omega
  rw [Reader.next_head hhead hlen, h, msgidOf_header, bodylenOf_header,
    List.drop_left' (length_header id len)]

/-- In two steps the reader reads the first message, as the one-shot reading of a stream does. -/
theorem Reader.next_frame (f : Frame) (more : List UInt8) (hhead : r.havehead = false)
    (h : r.rest = f.bytes ++ more) :
    r.next.next = ⟨false, f.code, .ofNat f.body.length, f.body, more⟩ ∧
      parse r.rest = ⟨(r.next.next.msgid, r.next.next.body) :: (parse r.next.next.rest).msgs,
        (parse r.next.next.rest).tail⟩ := by
  have hlen : (UInt32.ofNat f.body.length).toNat = f.body.length :=
    UInt32.toNat_ofNat_of_lt' f.body_lt
  have hfirst : r.next = { r with
      havehead := true
      msgid := f.code
      msglen := .ofNat f.body.length
      rest := f.body ++ more } :=
    Reader.next_header hhead (by rw [h, Frame.bytes, List.append_assoc])
  have htwo : r.next.next = ⟨false, f.code, .ofNat f.body.length, f.body, more⟩ := by
    rw [hfirst, Reader.next_body rfl]
    · dsimp only
      rw [hlen, List.take_left' rfl, List.drop_left' rfl]
    · dsimp only
      rw [hlen, List.length_append]
      omega
  refine ⟨htwo, ?_⟩
  rw [htwo, h, parse_frame]
  rfl

end Reader

/-! ### The invariant -/

/-- What the reader has not read is the rest of a stream. -/
def Unread (r : Reader) (l : List UInt8) : Prop :=
  ∃ gs : List ShortFrame,
    if r.havehead then ∃ body : List UInt8, body.length = r.msglen.toNat ∧
      l = body ++ wire ShortFrame.bytes gs
    else l = wire ShortFrame.bytes gs

/-- What holds in every state of a run that meets the condition: the header that is expected next
    is only waited for behind a long body, or before the first header. -/
structure Inv (p : Client E × Reader) : Prop where
  follows : Follows p
  unread : Unread p.2 (p.2.rest ++ p.1.pending)
  short : p.2.msglen.toNat ≤ maxMsg
  waiting : p.1.status = .waiting → p.2.havehead = false →
    p.1.conn.lowmark = 8 ∧ p.2.msglen.toNat = 0 ∨
      p.1.conn.lowmark = p.2.msglen.toNat ∧ 8 ≤ p.2.msglen.toNat
  reading : p.1.status = .reading → p.2.havehead = false →
    max 8 p.2.msglen.toNat ≤ p.2.rest.length ∨ p.2.rest.length < 8 ∧ 8 ≤ p.2.msglen.toNat

variable {s t : Client E} {r : Reader}

/-- Bytes arrive while `connread` waits. -/
theorem step_arrive {n : ℕ} (hs : step s (.arrive n) = some t) : s.status = .waiting ∧
    t = ⟨{ s.conn with rxbuf := s.filled n },
      if s.conn.lowmark ≤ length (s.filled n) then .reading else .waiting, s.pending.drop n⟩ := by
  rw [step] at hs
  split at hs
  · exact ⟨‹_›, (Option.some.inj hs).symm⟩
  · cases hs

/-- The loop goes round while `connread` runs. -/
theorem step_turn (hs : step s .turn = some t) : s.status = .reading ∧
    t = { s with conn := (Xbpm.turn s.conn).1, status := (Xbpm.turn s.conn).2 } := by
  rw [step] at hs
  split at hs
  · exact ⟨‹_›, (Option.some.inj hs).symm⟩
  · cases hs

theorem init_inv (fs : List ShortFrame) :
    Inv ((⟨onconn, .waiting, wire ShortFrame.bytes fs⟩ : Client E), Reader.init) := by
  refine ⟨⟨.inl rfl, rfl, rfl, rfl, bytes_new, bytes_new, fun _ => Nat.succ_pos 7⟩, ⟨fs, rfl⟩,
    Nat.zero_le _, fun _ _ => .inl ⟨rfl, rfl⟩, nofun⟩

theorem filled_bytes (h : Inv (s, r)) (n : ℕ) :
    bytes (s.filled n) = r.rest ++ s.pending.take n := by
  rw [Client.filled, bytes_arrive, h.follows.rxbuf]

/-- What the target should wait for is what the reader waits for. -/
theorem need_eq (h : Inv (s, r)) :
    (if s.conn.havehead then s.conn.msglen.toNat else 8) = r.need := by
  have hhead : s.conn.havehead = r.havehead := h.follows.havehead
  have hmsglen : s.conn.msglen = r.msglen := h.follows.msglen
  rw [Reader.need, hhead, hmsglen]

/-- STEP: more bytes arrive, under the condition. -/
theorem arrive_inv {n : ℕ} (h : Inv (s, r)) (hc : Fits s (.arrive n))
    (hs : step s (.arrive n) = some t) : Inv (t, note s (.arrive n) r) := by
  have hf := h.follows
  have hrx := filled_bytes h n
  have hunread : Unread (note s (.arrive n) r)
      ((r.rest ++ s.pending.take n) ++ s.pending.drop n) := by
    rw [List.append_assoc, List.take_append_drop]
    exact h.unread
  rw [Fits, need_eq h] at hc
  obtain ⟨hwait, rfl⟩ := step_arrive hs
  have hmark := h.waiting hwait
  by_cases hcall : s.conn.lowmark ≤ length (s.filled n)
  · rw [if_pos hcall]
    refine ⟨⟨.inr rfl, hf.havehead, hf.msgid, hf.msglen, hf.user_buf, hrx, nofun⟩, hunread,
      h.short, nofun, fun _ hhead => .inl ?_⟩
    have hlow := hmark hhead
    rw [length, hrx] at hcall
    dsimp only [note] at hlow ⊢
    omega
  · rw [if_neg hcall]
    have hshort : (r.rest ++ s.pending.take n).length < r.need := by
      rw [← hrx]
      exact hc.resolve_right hcall
    exact ⟨⟨.inl rfl, hf.havehead, hf.msgid, hf.msglen, hf.user_buf, hrx, fun _ => hshort⟩,
      hunread, h.short, fun _ => hmark, nofun⟩

/-- BACK: bytes that arrive and miss the condition are left where the reader goes on. -/
theorem arrive_back {n : ℕ} (h : Inv (s, r)) (hs : step s (.arrive n) = some t)
    (hfollows : Follows (t, note s (.arrive n) r)) : Fits s (.arrive n) := by
  rw [Fits, need_eq h]
  obtain ⟨-, rfl⟩ := step_arrive hs
  by_cases hcall : s.conn.lowmark ≤ length (s.filled n)
  · exact .inr hcall
  · left
    have hshort := hfollows.waits (if_neg hcall)
    rw [length, filled_bytes h n]
    exact hshort

/-- A stream of which 8 bytes are there begins with a header. -/
theorem stream_head {gs : List ShortFrame} {l more : List UInt8}
    (h : l ++ more = wire ShortFrame.bytes gs) (h8 : 8 ≤ l.length) :
    ∃ (f : ShortFrame) (fs : List ShortFrame), gs = f :: fs ∧
      isPS l = true ∧ msgidOf l = f.code ∧ bodylenOf l = .ofNat f.body.length ∧
      l.drop 8 ++ more = f.body ++ wire ShortFrame.bytes fs := by
  cases gs with
  | nil =>
    have hnil : l = [] := (List.append_eq_nil_iff.mp h).1
    rw [hnil] at h8
    exact absurd h8 (by decide)
  | cons f fs =>
    have hall : l ++ more =
        header f.code (.ofNat f.body.length) ++ (f.body ++ wire ShortFrame.bytes fs) := by
      rw [h, wire_cons, ShortFrame.bytes, Frame.bytes, List.append_assoc]
    obtain ⟨hps, hid, hlen, -⟩ := header_of_prefix ⟨more, hall⟩ h8
    refine ⟨f, fs, rfl, hps, hid, hlen, ?_⟩
    rw [← List.drop_append_of_le_length h8, hall, List.drop_left' (length_header ..)]

/-- STEP: a turn for a header. -/
theorem turn_head_inv (h : Inv (s, r)) (hhead : r.havehead = false)
    (hs : step s .turn = some t) : Inv (t, note s .turn r) := by
  have hf := h.follows
  obtain ⟨hread, rfl⟩ := step_turn hs
  have hrx : bytes s.conn.rxbuf = r.rest := hf.rxbuf
  have hlen : length s.conn.rxbuf = r.rest.length := congrArg List.length hrx
  have hmsglen : s.conn.msglen = r.msglen := hf.msglen
  have hready : max 8 r.msglen.toNat ≤ r.rest.length ∨ r.rest.length < 8 ∧ 8 ≤ r.msglen.toNat :=
    h.reading hread hhead
  have hhead' : s.conn.havehead = false := hf.havehead.trans hhead
  rcases hready with hgo | ⟨hwait, hlong⟩
  · have h8 : 8 ≤ r.rest.length := Nat.le_trans (Nat.le_max_left 8 _) hgo
    obtain ⟨gs, hgs⟩ := h.unread
    rw [hhead, if_neg Bool.false_ne_true] at hgs
    obtain ⟨f, fs, rfl, hps, hid, hbody, hdrop⟩ := stream_head hgs h8
    have hsize : (bodylenOf r.rest).toNat = f.body.length := by
      rw [hbody, UInt32.toNat_ofNat_of_lt' f.body_lt]
    have hturn := turn_head hhead' (by omega) (by rw [hmsglen]; omega)
      (by rw [hrx]; exact hps) (by rw [hrx, hsize]; exact f.short)
    rw [hturn, note, Reader.next_head hhead (by omega)]
    refine ⟨⟨.inr rfl, rfl, ?_, ?_, hf.user_buf, ?_, nofun⟩, ?_, ?_, nofun, nofun⟩
    · exact congrArg msgidOf hf.rxbuf
    · exact congrArg bodylenOf hf.rxbuf
    · rw [bytes_drain]
      exact congrArg (List.drop 8) hf.rxbuf
    · exact ⟨fs, f.body, hsize.symm, hdrop⟩
    · exact Nat.le_trans (Nat.le_of_eq hsize) f.short
  · have hturn := turn_head_wait hhead' (by rw [hmsglen]; exact h.short)
      (by rw [hlen, hmsglen]; exact Nat.lt_of_lt_of_le hwait hlong)
    have hneed : r.rest.length < r.need := by
      rw [Reader.need, hhead]
      exact hwait
    rw [hturn, note, Reader.next_short hneed]
    refine ⟨⟨.inl rfl, hf.havehead, hf.msgid, hf.msglen, hf.user_buf, hf.rxbuf, fun _ => hneed⟩,
      h.unread, h.short, fun _ _ => .inr ⟨?_, hlong⟩, nofun⟩
    exact congrArg UInt32.toNat hmsglen

/-- STEP: a turn for a body, under the condition. -/
theorem turn_body_inv (h : Inv (s, r)) (hhead : r.havehead = true) (hc : Fits s .turn)
    (hs : step s .turn = some t) : Inv (t, note s .turn r) := by
  have hf := h.follows
  have hhead' : s.conn.havehead = true := hf.havehead.trans hhead
  have hlen : length s.conn.rxbuf = r.rest.length := congrArg List.length hf.rxbuf
  have hmsglen : s.conn.msglen = r.msglen := hf.msglen
  have hfit := hc hhead'
  rw [hlen, hmsglen] at hfit
  obtain ⟨-, rfl⟩ := step_turn hs
  rcases hfit with hwait | hbody
  · have hneed : r.rest.length < r.need := by
      rw [Reader.need, if_pos hhead]
      omega
    rw [turn_body_wait hhead' (by omega), note, Reader.next_short hneed]
    exact ⟨⟨.inl rfl, hf.havehead, hf.msgid, hf.msglen, hf.user_buf, hf.rxbuf, fun _ => hneed⟩,
      h.unread, h.short, fun _ hno => Bool.noConfusion (hno.symm.trans hhead), nofun⟩
  · have hcases : r.msglen.toNat = 0 ∧ 8 ≤ r.rest.length ∨
        8 ≤ r.msglen.toNat ∧ r.rest.length = r.msglen.toNat :=
      hbody.imp_left fun h0 => ⟨congrArg UInt32.toNat h0.1, h0.2⟩
    have hle : s.conn.msglen.toNat ≤ length s.conn.rxbuf := by
      rw [hmsglen]
      omega
    obtain ⟨hrest, huser⟩ := takeBody_bytes hle
    rw [hf.rxbuf, hmsglen] at hrest huser
    -- nothing is behind the body, or the body is empty
    have hnone : (r.rest.drop r.msglen.toNat).drop r.msglen.toNat =
        r.rest.drop r.msglen.toNat := by
      rcases hcases with ⟨h0, -⟩ | ⟨-, hall⟩
      · rw [h0, List.drop_zero]
      · rw [← hall, List.drop_length, List.drop_nil]
    rw [turn_body hhead' (by omega) hle, note, Reader.next_body hhead (by omega)]
    refine ⟨⟨.inr rfl, rfl, hf.msgid, hf.msglen, huser, ?_, nofun⟩, ?_, h.short, nofun,
      fun _ _ => ?_⟩
    · rw [bytes_drain, hrest, hmsglen, hnone]
    · obtain ⟨gs, hgs⟩ := h.unread
      rw [hhead, if_pos rfl] at hgs
      obtain ⟨body, hsize, hgs⟩ := hgs
      refine ⟨gs, ?_⟩
      rw [if_neg Bool.false_ne_true]
      dsimp only at hgs hsize ⊢
      rw [← List.drop_append_of_le_length (by omega), hgs, List.drop_left' hsize]
    · dsimp only
      rw [List.length_drop]
      omega

/-- BACK: a turn for a body that misses the condition leaves the reader. -/
theorem turn_body_back (h : Inv (s, r)) (hs : step s .turn = some t)
    (hfollows : Follows (t, note s .turn r)) : Fits s .turn := by
  intro hhead'
  have hf := h.follows
  have hhead : r.havehead = true := hf.havehead.symm.trans hhead'
  have hrx : bytes s.conn.rxbuf = r.rest := hf.rxbuf
  have hlen : length s.conn.rxbuf = r.rest.length := congrArg List.length hrx
  have hmsglen : s.conn.msglen = r.msglen := hf.msglen
  obtain ⟨-, rfl⟩ := step_turn hs
  have hgone := hfollows.alive
  have hsame := hfollows.havehead
  have hleft := congrArg List.length hfollows.rxbuf
  rw [note] at hsame hleft
  dsimp only at hgone hsame hleft
  rw [hlen, hmsglen]
  by_cases h8 : r.rest.length < 8
  · -- the target waits, so the reader does
    by_cases hbody : r.msglen.toNat ≤ r.rest.length
    · rw [turn_body_wait hhead' (by omega), Reader.next_body hhead hbody, hhead'] at hsame
      cases hsame
    · exact .inl (by omega)
  · have hle : s.conn.msglen.toNat ≤ length s.conn.rxbuf := by
      by_contra hmiss
      rw [turn_body_abort hhead' (by omega) (by omega)] at hgone
      rcases hgone with hgone | hgone <;> cases hgone
    rw [hlen, hmsglen] at hle
    rw [turn_body hhead' (by omega) (by rwa [hlen, hmsglen]), Reader.next_body hhead hle] at hleft
    dsimp only at hleft
    rw [bytes_drain, (takeBody_bytes (by rwa [hlen, hmsglen])).1, hmsglen, List.length_drop,
      hrx, List.length_drop] at hleft
    -- nothing is left to be drained twice, or the body is empty
    right
    rcases Nat.eq_zero_or_pos r.msglen.toNat with hzero | hpos
    · exact .inl ⟨UInt32.toNat.inj hzero, by omega⟩
    · exact .inr (by omega)

/-- EXACTNESS: on a stream of messages the target is where the reader is, in every state of a run,
    exactly if every step of the run meets the condition. -/
theorem follows_iff (fs : List ShortFrame) (ops : List Op) :
    Always (observed step note) Follows
        ((⟨onconn, .waiting, wire ShortFrame.bytes fs⟩ : Client E), Reader.init) ops ↔
      Along (observed step note) (fun p op => Fits p.1 op)
        ((⟨onconn, .waiting, wire ShortFrame.bytes fs⟩ : Client E), Reader.init) ops := by
  refine always_iff_along (I := Inv) (fun p op q hp hc hq => ?_) (fun p hp => hp.follows)
    (fun p op q hp hq hfollows => ?_) (init_inv fs)
  · obtain ⟨s, r⟩ := p
    obtain ⟨hs, hn⟩ := observed_some hq
    obtain ⟨t, m⟩ := q
    obtain rfl : m = _ := hn
    cases op with
    | arrive n => exact arrive_inv hp hc hs
    | turn =>
      cases hhead : r.havehead with
      | false => exact turn_head_inv hp hhead hs
      | true => exact turn_body_inv hp hhead hc hs
  · obtain ⟨s, r⟩ := p
    obtain ⟨hs, hn⟩ := observed_some hq
    obtain ⟨t, m⟩ := q
    obtain rfl : m = _ := hn
    cases op with
    | arrive n => exact arrive_back hp hs hfollows
    | turn => exact turn_body_back hp hs hfollows

/-- Two messages with bodies of 8 bytes. -/
def twoFrames : List ShortFrame :=
  [⟨⟨1, [1, 2, 3, 4, 5, 6, 7, 8], by decide⟩, by decide⟩,
    ⟨⟨2, [11, 12, 13, 14, 15, 16, 17, 18], by decide⟩, by decide⟩]

/-- They arrive at once. With the first body the second header is drained, and the second body is
    taken for a header. -/
theorem header_drained :
    ((exec (observed step note)
      ((⟨onconn, .waiting, wire ShortFrame.bytes twoFrames⟩ : Client Chains), Reader.init)
      [.arrive 32, .turn, .turn, .turn]).map fun p =>
        (p.1.status, bytes p.1.conn.user_buf, length p.1.conn.rxbuf, p.2.msgid)) =
      some (.freed, [1, 2, 3, 4, 5, 6, 7, 8], 0, 2) ∧
    ¬ Always (observed step note) Follows
      ((⟨onconn, .waiting, wire ShortFrame.bytes twoFrames⟩ : Client Chains), Reader.init)
      [.arrive 32, .turn, .turn, .turn] := by
  have hrun : ((exec (observed step note)
      ((⟨onconn, .waiting, wire ShortFrame.bytes twoFrames⟩ : Client Chains), Reader.init)
      [.arrive 32, .turn, .turn, .turn]).map fun p =>
        (p.1.status, bytes p.1.conn.user_buf, length p.1.conn.rxbuf, p.2.msgid)) =
      some (.freed, [1, 2, 3, 4, 5, 6, 7, 8], 0, 2) := by
    decide +kernel
  refine ⟨hrun, fun h => ?_⟩
  obtain ⟨p, hp, hq⟩ := Option.map_eq_some_iff.mp hrun
  obtain ⟨hfreed, -⟩ := Prod.ext_iff.mp hq
  have halive := (h.exec hp).alive
  rw [show p.1.status = .freed from hfreed] at halive
  rcases halive with halive | halive <;> cases halive

end Pscdrv.Xbpm
