import Pscdrv.Target.Client
import Pscdrv.Tcp.Outgoing

/-! # From the driver to the server of the target

    The mailbox of the driver, the socket of a session and the thread of a client of the server put
    together. TCP gives the server some first part of what was written to the socket; a connection
    that breaks down can end it anywhere, also inside a message. The thread of the client hands the
    messages that are there as a whole to the `recv` callback, in the order in which the records
    asked for them.

        records ──▶ mailbox ──flush──▶ socket ─ ─ TCP ─ ─▶ handle_client ──▶ recv callback -/

namespace Pscdrv.Link

open Libevent Run Channel Tcp Target

/-- A message, cut off at the buffer of the client. -/
def cutMsg (m : Msg) : Msg := (m.1, m.2.take pscMaxRxMsgLen.toNat)

/-- What the thread of a client does with `got`, which holds `k` messages of `ms` as a whole. As
    long as `recv()` does not fail, the callback gets these, and then the stream has ended; if it
    may fail, the callback gets the first ones of the messages, provided that they all fit. -/
def Serves (ms : List Msg) (got : List UInt8) (k : ℕ) : Prop :=
  ∀ conf sock rxbuf, sock.incoming = got →
    (Positive sock →
      (handleClient conf sock rxbuf).1.map RecvCb.message = (ms.take k).map cutMsg ∧
        (handleClient conf sock rxbuf).2.1 = some .enotconn) ∧
    ((∀ m ∈ ms, m.2.length ≤ pscMaxRxMsgLen.toNat) →
      (handleClient conf sock rxbuf).1.map RecvCb.message <+: ms)

/-- Whatever part of the bytes written for a session has reached the server. -/
def Delivers (o : Outgoing) : Prop :=
  ∀ sid got, got <+: o.written sid → ∃ k tail, Cut msgBytes (o.mail.sentTo sid) got k tail ∧
    Serves (o.mail.sentTo sid) got k

/-- The thread of a client on a piece of the stream of some frames. -/
theorem serves_cut {fs : List Frame} {got tail : List UInt8} {k : ℕ}
    (h : Cut Frame.bytes fs got k tail) (hin : got <+: wire Frame.bytes fs) :
    Serves (fs.map Frame.msg) got k := by
  intro conf sock rxbuf hgot
  have hconn : (conf.conn sock).incoming = got := (conf.conn_incoming sock).trans hgot
  refine ⟨fun hpos => ?_, fun hfits => ?_⟩
  · have hpos' : Positive (conf.conn sock) := by
      intro i
      rw [conf.conn_env]
      exact hpos i
    -- the message that was cut, or any other one if there is none
    obtain ⟨g, hg, hne⟩ : ∃ g : Frame, tail <+: g.bytes ∧ tail ≠ g.bytes := by
      cases hk : fs[k]? with
      | some g => exact ⟨g, h.open_ g hk⟩
      | none =>
        have hlast : tail = [] := h.last (Nat.le_antisymm h.le (List.getElem?_eq_none_iff.mp hk))
        exact ⟨⟨0, [], by decide⟩, hlast ▸ List.nil_prefix, by rw [hlast]; decide⟩
    obtain ⟨hmsgs, hend⟩ := clientLoop_spec conf hpos' rxbuf (hconn.trans h.bytes) hg hne
    refine ⟨?_, hend⟩
    rw [← List.map_take, List.map_map]
    exact hmsgs
  · refine clientLoop_prefix conf rxbuf (fun f hf => ?_) (hconn ▸ hin)
    exact hfits f.msg (List.mem_map_of_mem hf)

/-- STEP: the mailbox of a driver delivers. -/
theorem delivers_of_posted {E : Type} [Libevent E] {s : Psc E} {o : Outgoing} (h : Posted s o) :
    Delivers o := by
  intro sid got hgot
  obtain ⟨fs, hfs, hmoved⟩ := (h.sent sid).exists_frames
  have hin : got <+: wire Frame.bytes fs := hmoved ▸ hgot.trans (h.written sid)
  obtain ⟨k, tail, hcut⟩ := exists_cut _ hin
  rw [← hfs]
  refine ⟨k, tail, ⟨by rw [List.length_map]; exact hcut.le, ?_, fun m hm => ?_, fun hk => ?_⟩,
    serves_cut hcut hin⟩
  · rw [← List.map_take, wire_frames]
    exact hcut.bytes
  · rw [List.getElem?_map, Option.map_eq_some_iff] at hm
    obtain ⟨f, hf, rfl⟩ := hm
    exact hcut.open_ f hf
  · rw [List.length_map] at hk
    exact hcut.last hk

/-- UPLINK: in a run of safe calls, for every session and whatever part of the bytes written to its
    socket has reached the server, the `recv` callback of the server gets the messages that were
    sent on that session: in the order in which the calls asked for them, each at most once, and as
    many as have arrived as a whole. -/
theorem uplink_delivers {E : Type} [Libevent E] (cfg : Config) (tx rx : Finset UInt16)
    (ops : List (Op E)) (hsafe : Along (step cfg) (Safe cfg) (Psc.init tx rx) ops) :
    Always (observed (step cfg) (note cfg)) (fun p => p.2.mail.InOrder ∧ Delivers p.2)
      ((Psc.init tx rx : Psc E), Outgoing.init) ops :=
  always_of_along (I := fun p => Posted p.1 p.2) (C := fun p op => Safe cfg p.1 op)
    (fun p op q hp hc hs => by
      obtain ⟨hs, hq⟩ := observed_some hs
      rw [hq]
      exact posted_step hp hc hs)
    (fun _ hp => ⟨hp.inOrder, delivers_of_posted hp⟩) (posted_init tx rx) (along_observed _ hsafe)

/-- A message of 2 bytes, of which 9 bytes have been written. -/
theorem uplink_delivers_flush :
    let ops : List (Op Chains) := [.connect ⟨true, true⟩,
      .event ⟨true, false, false, false, false, false, ""⟩, .queueSendId 3 ⟨[1, 2], by decide⟩,
      .flushSend, .written 9]
    Always (observed (step ⟨0⟩) (note ⟨0⟩)) (fun p => p.2.mail.InOrder ∧ Delivers p.2)
      ((Psc.init ∅ ∅ : Psc Chains), Outgoing.init) ops := by
  intro ops
  refine uplink_delivers ⟨0⟩ ∅ ∅ ops ?_
  intro s₁ h₁
  cases h₁
  refine ⟨trivial, fun s₂ h₂ => ?_⟩
  cases h₂
  exact ⟨trivial, fun s₃ _ => ⟨Or.inl rfl, fun _ _ => ⟨trivial, fun _ _ => ⟨trivial, trivial⟩⟩⟩⟩

end Pscdrv.Link
