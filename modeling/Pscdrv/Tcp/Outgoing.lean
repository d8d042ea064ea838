import Pscdrv.Schemes.Channel
import Pscdrv.Tcp.Queued
import Pscdrv.Tcp.Receive

/-! # The transmit side of the TCP driver as a mailbox

    Records ask for messages; the messages wait in `sendbuf` until `flushSend` moves them to the
    output buffer of the session, from where the event loop writes them to the socket. An observer
    of a run keeps the mailbox this is to be: `Outgoing.mail` follows from the calls and from how
    they end, `Outgoing.written` is what each socket was given. In a run of safe calls the buffers
    of the driver hold the messages of the mailbox, each as a whole, at all times.

        queueSend ──▶ sendbuf ──flushSend──▶ output ──written──▶ socket of the session
        mail:         waiting               sent to the session  initial piece of it -/

namespace Pscdrv.Tcp

open Libevent Run Channel

/-- A message id and a body. -/
abbrev Msg := UInt16 × List UInt8

/-- A message as it lies on the stream. -/
def msgBytes (m : Msg) : List UInt8 := header m.1 (UInt32.ofNat m.2.length) ++ m.2

theorem wire_frames (fs : List Frame) : wire msgBytes (fs.map Frame.msg) = wire Frame.bytes fs := by
  rw [wire, List.map_map]
  rfl

variable {E : Type} [Libevent E]

/-- The message a call asks to queue, through a block that exists. -/
def posts (s : Psc E) : Op E → Option Msg
  | .queueSendRaw blk buf => (s.sendBlocks blk).map fun _ => (blk, buf.bytes)
  | .queueSendDbuf blk buf => (s.sendBlocks blk).map fun _ => (blk, buf.mem)
  | op => queuedBy s op

/-- The calls' messages, and the bytes written to the socket of each session. -/
structure Outgoing where
  mail : Mailbox ℕ Msg
  written : ℕ → List UInt8

def Outgoing.init : Outgoing := ⟨.empty, fun _ => []⟩

/-- What a call that queues `m` does to the mailbox: it posts it if it returns normally with the
    connection up. -/
def asking (s : Psc E) (m : Msg) (r : Res (Psc E)) (b : Mailbox ℕ Msg) : Mailbox ℕ Msg :=
  match r with
  | .ok _ => if s.connected then b.post [m] else b.refuse [m]
  | _ => b.refuse [m]

/-- What `flushSend` does to the mailbox: the messages go to the session, or are lost, or stay. -/
def flushing (s : Psc E) (r : Res (Psc E)) (b : Mailbox ℕ Msg) : Mailbox ℕ Msg :=
  match r with
  | .ok _ =>
    match s.session with
    | some ses => if s.connected then b.flush ses.id else b
    | none => b
  | .throw e _ => if e = .runtimeError "Unable to send messages!" then b.lose else b
  | .abort _ => b

/-- What the event loop writes to the socket. -/
def writing (s : Psc E) (n : ℕ) (w : ℕ → List UInt8) : ℕ → List UInt8 :=
  match s.session with
  | some ses => fun k => if k = ses.id then w k ++ (bytes ses.output).take n else w k
  | none => w

/-- The observer of a run. -/
def note (cfg : Config) (s : Psc E) (op : Op E) (o : Outgoing) : Outgoing :=
  match op with
  | .flushSend => { o with mail := flushing s (call cfg s .flushSend) o.mail }
  | .written n => { o with written := writing s n o.written }
  | op =>
    match posts s op with
    | some m => { o with mail := asking s m (call cfg s op) o.mail }
    | none => o

/-- The bytes are these messages, each as a whole, and their lengths fit the header field. -/
structure Frames (ms : List Msg) (l : List UInt8) : Prop where
  lt : ∀ m ∈ ms, m.2.length < 2 ^ 32
  bytes : l = wire msgBytes ms

/-- The buffers of the driver hold the messages of the mailbox, and the sockets were given initial
    pieces of what was sent. -/
structure Posted (s : Psc E) (o : Outgoing) : Prop where
  inOrder : o.mail.InOrder
  queue : Frames o.mail.waiting (bytes s.sendbuf)
  sent : ∀ sid, Frames (o.mail.sentTo sid) (moved s sid)
  written : ∀ sid, o.written sid <+: moved s sid
  current : ∀ ses, s.session = some ses → ses.id < s.nsession ∧
    o.written ses.id ++ bytes ses.output = moved s ses.id
  fresh : ∀ sid, s.nsession ≤ sid → moved s sid = []

theorem Frames.nil : Frames [] [] := ⟨List.forall_mem_nil _, rfl⟩

theorem Frames.append {as bs : List Msg} {l m : List UInt8} (h : Frames as l) (k : Frames bs m) :
    Frames (as ++ bs) (l ++ m) where
  lt := List.forall_mem_append.mpr ⟨h.lt, k.lt⟩
  bytes := by rw [h.bytes, k.bytes, wire_append]

theorem frames_frame (f : Frame) : Frames [f.msg] f.bytes where
  lt := List.forall_mem_singleton.mpr f.body_lt
  bytes := (List.append_nil _).symm

/-- The messages as frames. -/
theorem Frames.exists_frames {ms : List Msg} {l : List UInt8} (h : Frames ms l) :
    ∃ fs : List Frame, fs.map Frame.msg = ms ∧ l = wire Frame.bytes fs := by
  obtain ⟨hlt, rfl⟩ := h
  induction ms with
  | nil => exact ⟨[], rfl, rfl⟩
  | cons m ms ih =>
    obtain ⟨hm, hrest⟩ := List.forall_mem_cons.mp hlt
    obtain ⟨fs, hfs, hbytes⟩ := ih hrest
    exact ⟨⟨m.1, m.2, hm⟩ :: fs, by rw [List.map_cons, hfs]; rfl, by
      rw [wire_cons, wire_cons, hbytes]
      rfl⟩

/-! ### What the calls do to the session -/

/-- The session is given up, or another one is started, or it is the same one; nothing was moved to
    its output buffer. -/
structure SameOut (s t : Psc E) : Prop where
  txlog : t.txlog = s.txlog
  nsession : s.nsession ≤ t.nsession
  session : ∀ ses', t.session = some ses' →
    (∃ ses, s.session = some ses ∧ ses.id = ses'.id ∧ bytes ses'.output = bytes ses.output) ∨
      s.nsession ≤ ses'.id ∧ ses'.id < t.nsession ∧ bytes ses'.output = []

section Calls

variable {cfg : Config} {s t u : Psc E}

theorem SameOut.of_same (htx : t.txlog = s.txlog) (hn : t.nsession = s.nsession)
    (hses : t.session = s.session) : SameOut s t :=
  ⟨htx, hn.ge, fun ses' h => .inl ⟨ses', hses ▸ h, rfl, rfl⟩⟩

theorem SameOut.of_none (htx : t.txlog = s.txlog) (hn : t.nsession = s.nsession)
    (hses : t.session = none) : SameOut s t :=
  ⟨htx, hn.ge, fun ses' h => by rw [hses] at h; cases h⟩

/-- Another input buffer, and whatever else does not matter for sending. -/
theorem SameOut.of_input {ses ses' : Session E} (htx : t.txlog = s.txlog)
    (hn : t.nsession = s.nsession) (hs : s.session = some ses) (ht : t.session = some ses')
    (hid : ses'.id = ses.id) (hout : ses'.output = ses.output) : SameOut s t :=
  ⟨htx, hn.ge, fun x h => .inl ⟨ses, hs, by cases ht.symm.trans h; exact hid.symm,
    by cases ht.symm.trans h; rw [hout]⟩⟩

theorem SameOut.trans (h : SameOut s t) (k : SameOut t u) : SameOut s u := by
  refine ⟨k.txlog.trans h.txlog, h.nsession.trans k.nsession, fun ses' hses' => ?_⟩
  rcases k.session ses' hses' with ⟨ses, hses, hid, hout⟩ | ⟨hid, hlt, hout⟩
  · rcases h.session ses hses with ⟨x, hx, hxid, hxout⟩ | ⟨hxid, hlt, hxout⟩
    · exact .inl ⟨x, hx, hxid.trans hid, hout.trans hxout⟩
    · exact .inr ⟨hid ▸ hxid, hid ▸ Nat.lt_of_lt_of_le hlt k.nsession, hout.trans hxout⟩
  · exact .inr ⟨h.nsession.trans hid, hlt, hout⟩

theorem connect_sameOut {env : ConnEnv} (h : (connect s env).state? = some t) : SameOut s t := by
  rcases connect_cases h with ⟨hnone, -, u, rfl, rfl | rfl | rfl⟩
  · exact .of_same rfl rfl rfl
  · exact ⟨rfl, Nat.le_succ _, fun ses' hses' => by cases hnone.symm.trans hses'⟩
  · refine ⟨rfl, Nat.le_succ _, fun ses' hses' => .inr ?_⟩
    cases hses'
    exact ⟨Nat.le_refl _, Nat.lt_succ_self _, bytes_new⟩

theorem startReconnect_sameOut (h : (startReconnect s).state? = some t) : SameOut s t :=
  startReconnect_state h ▸ .of_none rfl rfl rfl

theorem eventcb_sameOut {ev : BevEvent} (h : (eventcb s ev).state? = some t) : SameOut s t := by
  rcases eventcb_state h with ⟨-, rfl⟩ | rfl | ⟨u, hu, msg, rfl⟩
  · exact .of_same rfl rfl rfl
  · exact .of_same rfl rfl rfl
  · exact (startReconnect_sameOut hu).trans (.of_same rfl rfl rfl)

/-- A turn of the loop of `recvdata` takes something from the input buffer. -/
theorem decodeNext_sameOut (env : RxEnv) {ses : Session E} (hses : s.session = some ses) :
    SameOut s (decodeNext env s ses) := by
  unfold decodeNext decodeBody decodeHead
  dsimp only
  split_ifs
  · split <;> exact .of_input rfl rfl hses rfl rfl rfl
  all_goals exact .of_input rfl rfl hses rfl rfl rfl

theorem framingError_sameOut {ses : Session E} (hses : s.session = some ses)
    (h : (framingError s ses).state? = some t) : SameOut s t := by
  have hin : SameOut s
      { s with session := some { ses with input := drain ses.input headerSize } } :=
    .of_input rfl rfl hses rfl rfl rfl
  rcases Res.state?_andThen h with ⟨e, hr⟩ | ⟨u, hr, hu⟩
  · exact hin.trans (startReconnect_sameOut (hr ▸ Res.state?_throw e t))
  · have hdown : SameOut _ u := startReconnect_sameOut (by rw [hr, Res.state?_ok])
    rw [Res.state?_ok, Option.some.injEq] at hu
    exact hu ▸ (hin.trans hdown).trans (.of_same rfl rfl rfl)

/-- LOOP: receiving leaves what is to be sent alone. -/
theorem recvLoop_sameOut (env : RxEnv) (h : (recvLoop env s).state? = some t) : SameOut s t := by
  fun_induction recvLoop env s with
  | case1 | case3 | case6 => simp at h
  | case2 s ses hses =>
    rw [Res.state?_ok, Option.some.injEq] at h
    exact h ▸ .of_input rfl rfl hses rfl rfl rfl
  | case4 s ses hses => exact framingError_sameOut hses h
  | case5 s ses hses _ _ _ _ ih => exact (decodeNext_sameOut env hses).trans (ih h)

theorem recvdata_sameOut {chunk : List UInt8} {env : RxEnv}
    (h : (recvdata env (arrived s chunk)).state? = some t) : SameOut s t := by
  have harr : SameOut s (arrived s chunk) := by
    cases hses : s.session with
    | none =>
      rw [arrived, hses]
      exact .of_same rfl rfl rfl
    | some ses =>
      rw [arrived_eq hses]
      exact .of_input rfl rfl hses rfl rfl rfl
  unfold recvdata at h
  split_ifs at h
  · exact harr.trans (recvLoop_sameOut env h)
  · simp at h

/-! ### Asking for a message -/

/-- What a call that asks for `m` ends with: it appends the message if it returns normally with the
    connection up, and nothing otherwise. -/
structure Asked (s : Psc E) (m : Msg) (r : Res (Psc E)) : Prop where
  same : ∀ t, r.state? = some t → SameOut s t
  posted : ∀ t, r = .ok t → s.connected = true →
    ∃ f : Frame, f.msg = m ∧ bytes t.sendbuf = bytes s.sendbuf ++ f.bytes
  refused : ∀ t, r.state? = some t → (s.connected = false ∨ ∃ e u, r = .throw e u) →
    bytes t.sendbuf = bytes s.sendbuf

/-- A call that appends nothing. -/
theorem Asked.quiet {m : Msg} {r : Res (Psc E)} (hup : ∀ t, r = .ok t → s.connected = false)
    (hr : ∀ t, r.state? = some t → SameOut s t ∧ bytes t.sendbuf = bytes s.sendbuf) :
    Asked s m r where
  same t ht := (hr t ht).1
  posted t ht hc := by
    rw [hup t ht] at hc
    cases hc
  refused t ht _ := (hr t ht).2

/-- With the connection up. -/
theorem Queues.asked {id : UInt16} {blk : Block E} {body : List UInt8} {r : Res (Psc E)}
    (h : Queues s id blk body r) (hc : s.connected = true) : Asked s (id, body) r := by
  cases h with
  | refused hq =>
    refine .quiet nofun fun t ht => ?_
    cases ht
    exact ⟨.of_same rfl rfl rfl, rfl⟩
  | failed hq what hb =>
    refine .quiet nofun fun t ht => ?_
    cases ht
    exact ⟨.of_same rfl rfl rfl, hb⟩
  | aborted hq cond => exact .quiet nofun fun t ht => by cases ht
  | @done hq b f hmsg hb =>
    refine ⟨fun t ht => ?_, fun t ht _ => ?_, fun t _ hno => ?_⟩
    · cases ht
      exact .of_same rfl rfl rfl
    · cases ht
      exact ⟨f, hmsg, hb⟩
    · rcases hno with hdown | ⟨e, u, he⟩
      · rw [hc] at hdown
        cases hdown
      · cases he

/-- Without a connection there is no header, and a safe call has no body either. -/
theorem queueSendRaw_asked (id : UInt16) (blk : Block E) (buf : RawBuf)
    (hsafe : s.connected = true ∨ buf.bytes = []) :
    Asked s (id, buf.bytes) (queueSendRaw cfg s id blk buf) := by
  cases hc : s.connected with
  | true => exact (queueSendRaw_queues hc id blk buf).asked hc
  | false =>
    have hnil : buf.bytes = [] := hsafe.resolve_left (by simp [hc])
    refine .quiet (fun _ _ => hc) fun t ht => ?_
    rw [queueSendRaw, queueHeader, if_pos (by simp [hc]), Res.andThen_ok, hnil] at ht
    dsimp only at ht
    split at ht
    · rename_i hadd
      cases ht
      refine ⟨.of_same rfl rfl rfl, ?_⟩
      change bytes (add s.sendbuf ([] : List UInt8)).1 = _
      rw [bytes_add_ok hadd, List.append_nil]
    · cases ht

theorem queueSendDbuf_asked (id : UInt16) (blk : Block E) (buf : DBuffer E)
    (hsafe : SafeDbuf cfg s blk buf.mem) :
    Asked s (id, buf.mem) (queueSendDbuf cfg s id blk buf) := by
  cases hc : s.connected with
  | true => exact (queueSendDbuf_queues hc id blk buf hsafe).asked hc
  | false =>
    have hb : bytes (buf.copyoutEv s.sendbuf).1 = bytes s.sendbuf :=
      buf.bytes_copyoutEv_nil _ (hsafe.1 hc)
    refine .quiet (fun _ _ => hc) fun t ht => ?_
    rw [queueSendDbuf, queueHeader, if_pos (by simp [hc]), Res.andThen_ok] at ht
    dsimp only at ht
    split at ht <;> cases ht <;> exact ⟨.of_same rfl rfl rfl, hb⟩

/-- A call through a block that exists. -/
theorem withSend_asked {id : UInt16} {m : Msg} {blk : Block E} {f : Block E → Res (Psc E)}
    (hblk : s.sendBlocks id = some blk) (h : Asked s m (f blk)) :
    Asked s m (withSend s id f) := by
  rwa [withSend, hblk]

/-- STEP (asking): a safe call appends its message, as a whole, or nothing. -/
theorem call_asked {op : Op E} {m : Msg} (hsafe : Safe cfg s op) (hp : posts s op = some m) :
    Asked s m (call cfg s op) := by
  cases op with
  | send i =>
    obtain ⟨b, hb, rfl⟩ := Option.map_eq_some_iff.mp hp
    exact withSend_asked hb (queueSendDbuf_asked i b b.data (hsafe b hb))
  | writeLoSendBlock val =>
    simp only [posts, queuedBy] at hp
    split at hp
    · cases hp
    · rename_i hr
      obtain ⟨b, hb, rfl⟩ := Option.map_eq_some_iff.mp hp
      rw [call, writeLoSendBlock, if_neg hr]
      exact withSend_asked hb
        (queueSendDbuf_asked _ b b.data (hsafe (by omega) (by omega) b hb))
  | queueSendId i buf =>
    cases hp
    obtain ⟨b, hb⟩ := s.sendBlocks.get_self i
    have h : Asked (getSend s i) (i, buf.bytes) (queueSendRaw cfg (getSend s i) i b buf) :=
      queueSendRaw_asked i b buf hsafe
    have hblk : (getSend s i).sendBlocks i = some b := hb
    have hcall : call cfg s (.queueSendId i buf) = queueSendRaw cfg (getSend s i) i b buf := by
      change withSend (getSend s i) i _ = _
      rw [withSend, hblk]
    rw [hcall]
    -- creating the block changes neither the queue nor the session
    exact ⟨fun t ht => ⟨(h.same t ht).txlog, (h.same t ht).nsession, (h.same t ht).session⟩,
      h.posted, h.refused⟩
  | queueSendRaw blk buf =>
    obtain ⟨b, hb, rfl⟩ := Option.map_eq_some_iff.mp hp
    exact withSend_asked hb (queueSendRaw_asked blk b buf hsafe)
  | queueSendDbuf blk buf =>
    obtain ⟨b, hb, rfl⟩ := Option.map_eq_some_iff.mp hp
    exact withSend_asked hb (queueSendDbuf_asked blk b buf (hsafe b hb))
  | _ => cases hp

/-- A call on a missing block does nothing. -/
theorem withSend_quiet {id : UInt16} {f : Block E → Res (Psc E)} (hblk : s.sendBlocks id = none)
    (h : (withSend s id f).state? = some t) : t = s := by
  rw [withSend_none f hblk, Res.state?_ok, Option.some.injEq] at h
  exact h.symm

/-- STEP (the rest): the other calls leave the send queue alone, and what is to be written. -/
theorem call_sameOut {op : Op E} (hs : step cfg s op = some t) (hp : posts s op = none)
    (hf : op ≠ .flushSend) (hw : ∀ n, op ≠ .written n) :
    SameOut s t ∧ t.sendbuf = s.sendbuf := by
  have hquiet : t = s → SameOut s t ∧ t.sendbuf = s.sendbuf := by
    rintro rfl
    exact ⟨.of_same rfl rfl rfl, rfl⟩
  have hbuf : queuedBy s op = none → t.sendbuf = s.sendbuf := fun hq =>
    (call_sameTx hs hq hf).sendbuf
  cases op with
  | connect env => exact ⟨connect_sameOut hs, hbuf rfl⟩
  | event ev => exact ⟨eventcb_sameOut hs, hbuf rfl⟩
  | reconnect env =>
    refine ⟨?_, hbuf rfl⟩
    have hstop : SameOut s { s with timerActive := false } := .of_same rfl rfl rfl
    exact hstop.trans (connect_sameOut (reconnect_state hs))
  | forceReConnect =>
    rcases forceReConnect_state hs with rfl | hr
    · exact hquiet rfl
    · exact ⟨startReconnect_sameOut hr, hbuf rfl⟩
  | data chunk env => exact ⟨recvdata_sameOut hs, hbuf rfl⟩
  | send id => exact hquiet (withSend_quiet (Option.map_eq_none_iff.mp hp) hs)
  | writeLoSendBlock val =>
    simp only [posts, queuedBy] at hp
    simp only [step, call, writeLoSendBlock] at hs
    split at hp
    · rename_i hr
      rw [if_pos hr, Res.state?_ok, Option.some.injEq] at hs
      exact hquiet hs.symm
    · rename_i hr
      rw [if_neg hr] at hs
      exact hquiet (withSend_quiet (Option.map_eq_none_iff.mp hp) hs)
  | queueSendId id buf => cases hp
  | queueSendRaw blk buf => exact hquiet (withSend_quiet (Option.map_eq_none_iff.mp hp) hs)
  | queueSendDbuf blk buf => exact hquiet (withSend_quiet (Option.map_eq_none_iff.mp hp) hs)
  | flushSend => exact absurd rfl hf
  | writeBlock id data =>
    cases hs
    exact ⟨.of_same rfl rfl rfl, rfl⟩
  | written n => exact absurd rfl (hw n)

end Calls

/-! ### Runs -/

section Steps

variable {cfg : Config} {s t : Psc E} {o : Outgoing}

/-- The bytes moved to the sessions and the session are what they were. -/
theorem Posted.same (h : Posted s o) (k : SameOut s t) {mail : Mailbox ℕ Msg}
    (hin : mail.InOrder) (hq : Frames mail.waiting (bytes t.sendbuf))
    (hsent : mail.sent = o.mail.sent) : Posted t { o with mail := mail } := by
  have hmoved : ∀ sid, moved t sid = moved s sid := fun sid => by rw [moved, moved, k.txlog]
  refine ⟨hin, hq, fun sid => ?_, fun sid => ?_, fun ses' hses' => ?_, fun sid hsid => ?_⟩
  · have hto : mail.sentTo sid = o.mail.sentTo sid := by
      rw [Mailbox.sentTo, Mailbox.sentTo, hsent]
    rw [hmoved]
    exact hto ▸ h.sent sid
  · rw [hmoved]
    exact h.written sid
  · rw [hmoved]
    rcases k.session ses' hses' with ⟨ses, hses, hid, hout⟩ | ⟨hid, hlt, hout⟩
    · obtain ⟨hlt, hcur⟩ := h.current ses hses
      rw [← hid, hout]
      exact ⟨Nat.lt_of_lt_of_le hlt k.nsession, hcur⟩
    · -- a new session: nothing was moved to it, and nothing written
      have hnone := h.fresh _ hid
      have hw : o.written ses'.id = [] := List.prefix_nil.mp (hnone ▸ h.written _)
      exact ⟨hlt, by rw [hout, hnone, hw, List.append_nil]⟩
  · rw [hmoved]
    exact h.fresh sid (Nat.le_trans k.nsession hsid)

/-- STEP (asking): the message is posted, or refused. -/
theorem Asked.posted_step {m : Msg} {r : Res (Psc E)} (k : Asked s m r) (h : Posted s o)
    (ht : r.state? = some t) : Posted t { o with mail := asking s m r o.mail } := by
  have hrefuse : bytes t.sendbuf = bytes s.sendbuf →
      Posted t { o with mail := o.mail.refuse [m] } :=
    fun hb => h.same (k.same t ht) (h.inOrder.refuse _) (by rw [hb]; exact h.queue) rfl
  unfold asking
  cases r with
  | ok u =>
    cases ht
    cases hc : s.connected with
    | true =>
      obtain ⟨f, rfl, hb⟩ := k.posted t rfl hc
      exact h.same (k.same t rfl) (h.inOrder.post _)
        (by rw [hb]; exact h.queue.append (frames_frame f)) rfl
    | false => exact hrefuse (k.refused t rfl (.inl hc))
  | throw e u =>
    cases ht
    exact hrefuse (k.refused t rfl (.inr ⟨e, t, rfl⟩))
  | abort c => cases ht

/-- With the connection up `flushSend` refuses, or empties the send queue: it fails to move it, or
    moves it to the output buffer of the session. -/
theorem flushSend_cases (cfg : Config) {ses : Session E} (hc : s.connected = true)
    (hses : s.session = some ses) :
    flushSend cfg s = .throw (.runtimeError "Sending message would exceed buffer") s ∨
    ∃ out buf, bytes buf = [] ∧
      ((bytes out = bytes ses.output ∧ flushSend cfg s =
          .throw (.runtimeError "Unable to send messages!")
            { s with session := some { ses with output := out }, sendbuf := buf }) ∨
        bytes out = bytes ses.output ++ bytes s.sendbuf ∧ flushSend cfg s = .ok { s with
          session := some { ses with output := out }
          sendbuf := buf
          sendBlocks := fun k => (s.sendBlocks k).map fun b => { b with queued := false }
          txlog := s.txlog ++ [(ses.id, bytes s.sendbuf)] }) := by
  unfold flushSend
  rw [if_neg (by simp [hc]), hses]
  dsimp only
  split_ifs with hlimit hadd
  · exact .inl rfl
  · refine .inr ⟨_, _, ?_, .inl ⟨(addBuffer_fail _ _ (by simpa using hadd)).1, rfl⟩⟩
    rw [bytes_drain, length, List.drop_length]
  · obtain ⟨hout, hbuf⟩ := addBuffer_ok ses.output s.sendbuf (by simpa using hadd)
    exact .inr ⟨_, _, hbuf, .inr ⟨hout, rfl⟩⟩

/-- What is moved to the output buffer of the session. -/
theorem Posted.flush (h : Posted s o) {ses : Session E} (hses : s.session = some ses) {out : E}
    (htx : t.txlog = s.txlog ++ [(ses.id, bytes s.sendbuf)]) (hn : t.nsession = s.nsession)
    (ht : t.session = some { ses with output := out })
    (hout : bytes out = bytes ses.output ++ bytes s.sendbuf) (hbuf : bytes t.sendbuf = []) :
    Posted t { o with mail := o.mail.flush ses.id } := by
  obtain ⟨hlt, hcur⟩ := h.current ses hses
  have hmoved : ∀ sid, moved t sid =
      moved s sid ++ if ses.id = sid then bytes s.sendbuf else [] := by
    intro sid
    rw [moved, htx, moved_concat, moved]
  refine ⟨h.inOrder.flush _, hbuf ▸ .nil, fun sid => ?_, fun sid => ?_, fun ses' hses' => ?_,
    fun sid hsid => ?_⟩
  · change Frames ((o.mail.flush ses.id).sentTo sid) _
    rw [hmoved, Mailbox.sentTo_flush]
    refine (h.sent sid).append ?_
    split
    · exact h.queue
    · exact .nil
  · rw [hmoved]
    exact (h.written sid).trans (List.prefix_append _ _)
  · rw [ht] at hses'
    cases hses'
    rw [hn, hmoved, if_pos rfl, hout, ← List.append_assoc]
    exact ⟨hlt, congrArg (· ++ _) hcur⟩
  · rw [hn] at hsid
    rw [hmoved, if_neg (by omega), List.append_nil]
    exact h.fresh sid hsid

/-- STEP (`flushSend`): the messages that wait go to the session, are lost, or stay. -/
theorem flushSend_posted (h : Posted s o) (ht : (flushSend cfg s).state? = some t) :
    Posted t { o with mail := flushing s (flushSend cfg s) o.mail } := by
  cases hc : s.connected with
  | false =>
    have hr : flushSend cfg s = .ok s := by rw [flushSend, if_pos (by simp [hc])]
    have hstay : flushing s (flushSend cfg s) o.mail = o.mail := by
      rw [hr, flushing, hc]
      split <;> rfl
    rw [hr] at ht
    cases ht
    rw [hstay]
    exact h
  | true =>
    cases hses : s.session with
    | none =>
      rw [flushSend, if_neg (by simp [hc]), hses] at ht
      cases ht
    | some ses =>
      rcases flushSend_cases cfg hc hses with
        hr | ⟨out, buf, hnil, ⟨hout, hr⟩ | ⟨hout, hr⟩⟩ <;> rw [hr] at ht ⊢ <;> cases ht
      · have hstay : (Exc.runtimeError "Sending message would exceed buffer") ≠
            .runtimeError "Unable to send messages!" := by decide
        rw [flushing, if_neg hstay]
        exact h
      · rw [flushing, if_pos rfl]
        have hk : SameOut s { s with session := some { ses with output := out }, sendbuf := buf } :=
          ⟨rfl, Nat.le_refl _, fun ses' hses' =>
            .inl ⟨ses, hses, by cases hses'; exact ⟨rfl, hout⟩⟩⟩
        exact h.same hk h.inOrder.lose (hnil ▸ Frames.nil) rfl
      · rw [flushing, hses]
        dsimp only
        rw [if_pos hc]
        exact h.flush hses rfl rfl rfl hout hnil

/-- STEP: the event loop writes to the socket of the session. -/
theorem written_posted (h : Posted s o) (n : ℕ) :
    Posted (written s n) { o with written := writing s n o.written } := by
  have hmoved : ∀ sid, moved (written s n) sid = moved s sid := fun _ => rfl
  cases hses : s.session with
  | none =>
    have hsame : written s n = s := by
      rw [written, hses, Option.map_none, ← hses]
    rw [hsame, writing, hses]
    exact h
  | some ses =>
    obtain ⟨hlt, hcur⟩ := h.current ses hses
    have hw : ∀ sid, writing s n o.written sid =
        o.written sid ++ if sid = ses.id then (bytes ses.output).take n else [] := by
      intro sid
      rw [writing, hses]
      dsimp only
      split
      · rfl
      · rw [List.append_nil]
    refine ⟨h.inOrder, h.queue, h.sent, fun sid => ?_, fun ses' hses' => ?_, h.fresh⟩
    · change writing s n o.written sid <+: _
      rw [hw, hmoved]
      split
      · rename_i hid
        rw [hid, ← hcur]
        exact (List.prefix_append_right_inj _).mpr (List.take_prefix _ _)
      · rw [List.append_nil]
        exact h.written sid
    · rw [written, hses] at hses'
      cases hses'
      refine ⟨hlt, ?_⟩
      change writing s n o.written ses.id ++ bytes (drain ses.output n) = _
      rw [hw, if_pos rfl, bytes_drain, List.append_assoc, List.take_append_drop, hcur, hmoved]

/-- STEP: a safe call keeps the driver and its mailbox together. -/
theorem posted_step {op : Op E} (h : Posted s o) (hsafe : Safe cfg s op)
    (hs : step cfg s op = some t) : Posted t (note cfg s op o) := by
  by_cases hf : op = .flushSend
  · subst hf
    exact flushSend_posted h hs
  by_cases hw : ∃ n, op = .written n
  · obtain ⟨n, rfl⟩ := hw
    cases hs
    exact written_posted h n
  have hnote : note cfg s op o = match posts s op with
      | some m => { o with mail := asking s m (call cfg s op) o.mail }
      | none => o := by
    cases op with
    | flushSend => exact absurd rfl hf
    | written n => exact absurd ⟨n, rfl⟩ hw
    | _ => rfl
  rw [hnote]
  cases hp : posts s op with
  | some m => exact (call_asked hsafe hp).posted_step h hs
  | none =>
    obtain ⟨hk, hbuf⟩ := call_sameOut hs hp hf fun n heq => hw ⟨n, heq⟩
    exact h.same hk h.inOrder (hbuf ▸ h.queue) rfl

/-- What was sent stays sent. -/
theorem sent_note (cfg : Config) (s : Psc E) (op : Op E) (o : Outgoing) :
    o.mail.sent <+: (note cfg s op o).mail.sent := by
  have hask : ∀ m r, (asking s m r o.mail).sent = o.mail.sent := by
    intro m r
    unfold asking
    split
    · split <;> rfl
    · rfl
  have hflush : ∀ r, o.mail.sent <+: (flushing s r o.mail).sent := by
    intro r
    unfold flushing
    split
    · split
      · split
        · exact List.prefix_append _ _
        · exact List.prefix_refl _
      · exact List.prefix_refl _
    · split <;> exact List.prefix_refl _
    · exact List.prefix_refl _
  unfold note
  split
  · exact hflush _
  · exact List.prefix_refl _
  · split
    · rw [hask]
    · exact List.prefix_refl _

theorem sentTo_note (cfg : Config) (s : Psc E) (op : Op E) (o : Outgoing) (sid : ℕ) :
    o.mail.sentTo sid <+: (note cfg s op o).mail.sentTo sid := by
  obtain ⟨more, hmore⟩ := sent_note cfg s op o
  rw [Mailbox.sentTo, Mailbox.sentTo, ← hmore, List.filterMap_append]
  exact List.prefix_append _ _

/-- What was written stays written. -/
theorem written_note (cfg : Config) (s : Psc E) (op : Op E) (o : Outgoing) (sid : ℕ) :
    o.written sid <+: (note cfg s op o).written sid := by
  unfold note
  split
  · exact List.prefix_refl _
  · change o.written sid <+: writing s _ o.written sid
    unfold writing
    cases s.session with
    | none => exact List.prefix_refl _
    | some ses =>
      dsimp only
      split
      · exact List.prefix_append _ _
      · exact List.prefix_refl _
  · split <;> exact List.prefix_refl _

theorem posted_init (tx rx : Finset UInt16) : Posted (Psc.init tx rx : Psc E) .init := by
  refine ⟨Mailbox.inOrder_empty, ?_, fun _ => .nil, fun _ => List.nil_prefix, nofun, fun _ _ => rfl⟩
  change Frames [] (bytes new)
  rw [bytes_new]
  exact .nil

/-- MAILBOX: in a run of safe calls the driver is a mailbox. Its buffers hold the messages that
    wait and that were sent, in the order in which they were asked for, each at most once and as a
    whole, and each socket was given an initial piece of what was sent to its session. -/
theorem mailbox_refined (cfg : Config) (tx rx : Finset UInt16) (ops : List (Op E))
    (hsafe : Along (step cfg) (Safe cfg) (Psc.init tx rx) ops) :
    Always (observed (step cfg) (note cfg)) (fun p => Posted p.1 p.2)
      ((Psc.init tx rx : Psc E), Outgoing.init) ops :=
  always_of_along (C := fun p op => Safe cfg p.1 op)
    (fun p op q hp hc hs => by
      obtain ⟨hs, hq⟩ := observed_some hs
      rw [hq]
      exact posted_step hp hc hs)
    (fun _ hp => hp) (posted_init tx rx) (along_observed _ hsafe)

/-- A message that is posted, sent, and written in two parts. -/
theorem mailbox_refined_flush :
    let ops : List (Op Chains) := [.connect ⟨true, true⟩,
      .event ⟨true, false, false, false, false, false, ""⟩, .queueSendId 3 ⟨[1, 2], by decide⟩,
      .flushSend, .written 9, .written 9]
    Always (observed (step ⟨0⟩) (note ⟨0⟩)) (fun p => Posted p.1 p.2)
      ((Psc.init ∅ ∅ : Psc Chains), Outgoing.init) ops := by
  intro ops
  refine mailbox_refined ⟨0⟩ ∅ ∅ ops ?_
  intro s₁ h₁
  cases h₁
  refine ⟨trivial, fun s₂ h₂ => ?_⟩
  cases h₂
  exact ⟨trivial, fun s₃ _ => ⟨Or.inl rfl, fun _ _ => ⟨trivial, fun _ _ => ⟨trivial, fun _ _ =>
    ⟨trivial, trivial⟩⟩⟩⟩⟩

end Steps

end Pscdrv.Tcp
