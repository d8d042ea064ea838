import Pscdrv.Tcp.Psc
import Pscdrv.Schemes.Run

/-! # Transmit framing of the TCP driver

    Header and body of a message are appended to `sendbuf` by two functions. With the connection up
    the header is reserved together with the body and both are appended; without a connection
    `queueHeader` returns early and the body is appended alone. `Safe` is the condition on a call
    under which it appends a whole message or nothing; along runs of safe calls the send queue and
    what each session's output buffer receives are concatenations of whole messages.

        queueSend ──▶ connected? ──no──▶ body only (whole iff the body is empty)
                        │ yes
                        ▼
                    queued / over limit / no memory ──▶ throw, nothing appended
                        │
                        ▼
                    header ++ body -/

namespace Pscdrv.Tcp

open Libevent Run

variable {E : Type} [Libevent E]

/-- All bytes ever moved to the output buffer of session `sid`. -/
def moved (s : Psc E) (sid : ℕ) : List UInt8 :=
  (s.txlog.filterMap fun p => if p.1 = sid then some p.2 else none).flatten

/-- The send queue and the bytes moved to each session are whole messages. -/
structure TxFramed (s : Psc E) : Prop where
  queue : Framed (bytes s.sendbuf)
  sessions : ∀ sid, Framed (moved s sid)

/-- The message id and the body a call asks to queue. -/
def queuedBy (s : Psc E) : Op E → Option (UInt16 × List UInt8)
  | .send id => (s.sendBlocks id).map fun b => (id, b.data.mem)
  | .writeLoSendBlock val =>
    if val < 0 ∨ 0xffff < val then none
    else (s.sendBlocks (UInt16.ofNat val.toNat)).map fun b => (UInt16.ofNat val.toNat, b.data.mem)
  | .queueSendId id buf => some (id, buf.bytes)
  | .queueSendRaw blk buf => some (blk, buf.bytes)
  | .queueSendDbuf blk buf => some (blk, buf.mem)
  | _ => none

/-- The send queue is left alone or grows by exactly one message. -/
def Grows (s s' : Psc E) (id : UInt16) (body : List UInt8) : Prop :=
  s'.txlog = s.txlog ∧ (bytes s'.sendbuf = bytes s.sendbuf ∨
    ∃ f : Frame, f.code = id ∧ f.body = body ∧ bytes s'.sendbuf = bytes s.sendbuf ++ f.bytes)

/-- A call that queues a message appends one whole message or nothing. -/
def Whole (cfg : Config) (s : Psc E) (op : Op E) : Prop :=
  ∀ s', step cfg s op = some s' → ∀ id body, queuedBy s op = some (id, body) → Grows s s' id body

/-- `queueSend` of a `dbuffer` appends a whole message or nothing: without a connection the body is
    empty, and a body that is going to be appended leaves room for the header in 32 bits. -/
def SafeDbuf (cfg : Config) (s : Psc E) (blk : Block E) (body : List UInt8) : Prop :=
  (s.connected = false → body = []) ∧
    (s.connected = true → blk.queued = false → overLimit cfg s.sendbuf = false →
      body.length + 8 < 2 ^ 32)

/-- The condition on a call under which it keeps the framing. -/
def Safe (cfg : Config) (s : Psc E) : Op E → Prop
  | .send id => ∀ b, s.sendBlocks id = some b → SafeDbuf cfg s b b.data.mem
  | .writeLoSendBlock val => 0 ≤ val → val ≤ 0xffff →
      ∀ b, s.sendBlocks (UInt16.ofNat val.toNat) = some b → SafeDbuf cfg s b b.data.mem
  | .queueSendId _ buf => s.connected = true ∨ buf.bytes = []
  | .queueSendRaw _ buf => s.connected = true ∨ buf.bytes = []
  | .queueSendDbuf blk buf => ∀ b, s.sendBlocks blk = some b → SafeDbuf cfg s b buf.mem
  | _ => True

/-! ### What the functions append -/

/-- `queueHeader` returns without a connection, or after it appended the header. -/
theorem queueHeader_ok {cfg : Config} {s s' : Psc E} {code : UInt16} {blk : Block E} {n : UInt32}
    (h : queueHeader cfg s code blk n = .ok s') :
    (s.connected = false ∧ s' = s) ∨
      (s.connected = true ∧ blk.queued = false ∧ overLimit cfg s.sendbuf = false ∧
        ∃ b, s' = { s with sendbuf := b } ∧ bytes b = bytes s.sendbuf ++ header code n ∧
          (8 + n).toNat ≤ space b + 8) := by
  unfold queueHeader at h
  cases hc : s.connected with
  | false =>
    rw [hc] at h
    simp only [Bool.not_false, if_true, Res.ok.injEq] at h
    exact .inl ⟨rfl, h.symm⟩
  | true =>
    rw [hc] at h
    simp only [Bool.not_true, Bool.false_eq_true, if_false] at h
    split at h
    · cases h
    · rename_i hq
      split at h
      · cases h
      · rename_i hl
        split at h
        · cases h
        · rename_i he
          split at h
          · rename_i ha
            simp only [Res.ok.injEq] at h
            have hexp : (expand s.sendbuf (8 + n).toNat).2 = true := by simpa using he
            have hspace := expand_space _ _ hexp
            have hadd := add_ok _ _ ha
            rw [length_header] at hadd
            refine .inr ⟨rfl, by simpa using hq, by simpa using hl, _, h.symm, ?_, by omega⟩
            rw [bytes_add_ok ha, bytes_expand]
          · cases h

/-- An exception of `queueHeader` leaves the bytes of the send queue alone. -/
theorem queueHeader_throw {cfg : Config} {s s' : Psc E} {code : UInt16} {blk : Block E}
    {n : UInt32} {e : Exc} (h : queueHeader cfg s code blk n = .throw e s') :
    s'.txlog = s.txlog ∧ bytes s'.sendbuf = bytes s.sendbuf := by
  unfold queueHeader at h
  split at h
  · cases h
  · split at h
    · cases h; exact ⟨rfl, rfl⟩
    · split at h
      · cases h; exact ⟨rfl, rfl⟩
      · dsimp only at h
        split at h
        · cases h; exact ⟨rfl, bytes_expand _ _⟩
        · split at h <;> cases h

theorem queueSendRaw_grows {cfg : Config} {s s' : Psc E} {id : UInt16} {blk : Block E}
    {buf : RawBuf} (h : (queueSendRaw cfg s id blk buf).state? = some s')
    (hsafe : s.connected = true ∨ buf.bytes = []) : Grows s s' id buf.bytes := by
  rcases Res.state?_andThen h with ⟨e, hq⟩ | ⟨t, hq, ht⟩
  · exact ⟨(queueHeader_throw hq).1, .inl (queueHeader_throw hq).2⟩
  · dsimp only at ht
    split at ht
    · rename_i ha
      simp only [Res.state?_ok, Option.some.injEq] at ht
      subst ht
      have hbytes : bytes (add t.sendbuf buf.bytes).1 = bytes t.sendbuf ++ buf.bytes :=
        bytes_add_ok ha
      rcases queueHeader_ok hq with ⟨hc, rfl⟩ | ⟨_, _, _, b, rfl, hb, _⟩
      · -- no connection: the body alone, which is empty
        have hnil : buf.bytes = [] := hsafe.resolve_left (by simp [hc])
        refine ⟨rfl, .inl ?_⟩
        change bytes (add t.sendbuf buf.bytes).1 = _
        rw [hbytes, hnil, List.append_nil]
      · refine ⟨rfl, .inr ⟨⟨id, buf.bytes, buf.lt⟩, rfl, rfl, ?_⟩⟩
        change bytes (add b buf.bytes).1 = _
        rw [hbytes]
        change bytes b ++ _ = _
        rw [hb, List.append_assoc, Frame.bytes, RawBuf.len]
    · simp at ht

theorem queueSendDbuf_grows {cfg : Config} {s s' : Psc E} {id : UInt16} {blk : Block E}
    {buf : DBuffer E} (h : (queueSendDbuf cfg s id blk buf).state? = some s')
    (hsafe : SafeDbuf cfg s blk buf.mem) : Grows s s' id buf.mem := by
  rcases Res.state?_andThen h with ⟨e, hq⟩ | ⟨t, hq, ht⟩
  · exact ⟨(queueHeader_throw hq).1, .inl (queueHeader_throw hq).2⟩
  · -- whether or not a stride fails, these are the new send queue and log
    have hs' : s'.sendbuf = (buf.copyoutEv t.sendbuf).1 ∧ s'.txlog = t.txlog := by
      dsimp only at ht
      split at ht <;>
        simp only [Res.state?_ok, Res.state?_throw, Option.some.injEq] at ht <;>
        subst ht <;> exact ⟨rfl, rfl⟩
    obtain ⟨hbuf, htx⟩ := hs'
    rcases queueHeader_ok hq with ⟨hc, rfl⟩ | ⟨hc, hqd, hl, b, rfl, hb, hspace⟩
    · refine ⟨htx, .inl ?_⟩
      rw [hbuf, buf.bytes_copyoutEv_nil _ (hsafe.1 hc)]
    · have hlen : buf.mem.length + 8 < 2 ^ 32 := hsafe.2 hc hqd hl
      have hroom : buf.mem.length ≤ space b := by
        have h8 : (8 : UInt32).toNat = 8 := rfl
        rw [buf.size_eq, UInt32.toNat_add, UInt32.toNat_ofNat', h8] at hspace
        omega
      refine ⟨htx, .inr ⟨⟨id, buf.mem, by omega⟩, rfl, rfl, ?_⟩⟩
      rw [hbuf]
      change bytes (buf.copyoutEv b).1 = _
      rw [(buf.copyoutEv_space b hroom).2, hb, List.append_assoc, Frame.bytes, buf.size_eq]

/-- STEP (queueing): a safe call appends one whole message or nothing. -/
theorem whole_of_safe {cfg : Config} {s : Psc E} {op : Op E} (h : Safe cfg s op) :
    Whole cfg s op := by
  intro s' hs id body hq
  cases op with
  | send i =>
    simp only [step, call, send, withSend] at hs
    simp only [queuedBy, Option.map_eq_some_iff, Prod.mk.injEq] at hq
    obtain ⟨b, hb, rfl, rfl⟩ := hq
    rw [hb] at hs
    exact queueSendDbuf_grows hs (h b hb)
  | writeLoSendBlock val =>
    simp only [step, call, writeLoSendBlock, send, withSend] at hs
    simp only [queuedBy] at hq
    split at hq
    · cases hq
    · rename_i hr
      simp only [Option.map_eq_some_iff, Prod.mk.injEq] at hq
      obtain ⟨b, hb, rfl, rfl⟩ := hq
      rw [if_neg hr, hb] at hs
      exact queueSendDbuf_grows hs (h (by omega) (by omega) b hb)
  | queueSendId i buf =>
    simp only [queuedBy, Option.some.injEq, Prod.mk.injEq] at hq
    obtain ⟨rfl, rfl⟩ := hq
    simp only [step, call, queueSendId, withSend] at hs
    split at hs
    · -- creating the block leaves the send queue alone
      have hg : Grows (getSend s i) s' i buf.bytes := queueSendRaw_grows hs h
      exact hg
    · simp only [Res.state?_ok, Option.some.injEq] at hs
      subst hs
      exact ⟨rfl, .inl rfl⟩
  | queueSendRaw blk buf =>
    simp only [queuedBy, Option.some.injEq, Prod.mk.injEq] at hq
    obtain ⟨rfl, rfl⟩ := hq
    simp only [step, call, withSend] at hs
    split at hs
    · exact queueSendRaw_grows hs h
    · simp only [Res.state?_ok, Option.some.injEq] at hs
      subst hs
      exact ⟨rfl, .inl rfl⟩
  | queueSendDbuf blk buf =>
    simp only [queuedBy, Option.some.injEq, Prod.mk.injEq] at hq
    obtain ⟨rfl, rfl⟩ := hq
    simp only [step, call, withSend] at hs
    split at hs
    · rename_i b hb
      exact queueSendDbuf_grows hs (h b hb)
    · simp only [Res.state?_ok, Option.some.injEq] at hs
      subst hs
      exact ⟨rfl, .inl rfl⟩
  | _ => cases hq

/-! ### The other calls -/

/-- The transmit side of the state is the same. -/
structure SameTx (s s' : Psc E) : Prop where
  sendbuf : s'.sendbuf = s.sendbuf
  txlog : s'.txlog = s.txlog

theorem SameTx.trans {s t u : Psc E} (h : SameTx s t) (k : SameTx t u) : SameTx s u :=
  ⟨k.sendbuf.trans h.sendbuf, k.txlog.trans h.txlog⟩

theorem startReconnect_sameTx {s s' : Psc E} (h : (startReconnect s).state? = some s') :
    SameTx s s' :=
  startReconnect_state h ▸ ⟨rfl, rfl⟩

theorem connect_sameTx {s s' : Psc E} {env : ConnEnv} (h : (connect s env).state? = some s') :
    SameTx s s' := by
  rcases connect_cases h with ⟨-, -, u, rfl, rfl | rfl | rfl⟩
  · exact ⟨rfl, rfl⟩
  · exact ⟨rfl, rfl⟩
  · exact ⟨rfl, rfl⟩

theorem decodeHead_sameTx (env : RxEnv) (s : Psc E) (ses : Session E) (hbuf : List UInt8)
    (buf : E) : SameTx s (decodeHead env s ses hbuf buf) := by
  unfold decodeHead
  dsimp only
  split_ifs <;> exact ⟨rfl, rfl⟩

theorem decodeBody_sameTx (env : RxEnv) (s : Psc E) (ses : Session E) :
    SameTx s (decodeBody env s ses) := by
  unfold decodeBody
  split <;> exact ⟨rfl, rfl⟩

theorem decodeNext_sameTx (env : RxEnv) (s : Psc E) (ses : Session E) :
    SameTx s (decodeNext env s ses) := by
  unfold decodeNext
  split
  · exact decodeBody_sameTx env s ses
  · exact decodeHead_sameTx env s ses _ _

theorem framingError_sameTx {s s' : Psc E} {ses : Session E}
    (h : (framingError s ses).state? = some s') : SameTx s s' := by
  rcases Res.state?_andThen h with ⟨e, hr⟩ | ⟨t, hr, ht⟩
  · have := startReconnect_sameTx (hr ▸ Res.state?_throw e s')
    exact ⟨this.sendbuf, this.txlog⟩
  · rw [Res.state?_ok, Option.some.injEq] at ht
    have := startReconnect_sameTx (hr ▸ Res.state?_ok t)
    exact ht ▸ ⟨this.sendbuf, this.txlog⟩

/-- The receive loop leaves the transmit side alone. -/
theorem recvLoop_sameTx (env : RxEnv) (s : Psc E) {s' : Psc E}
    (h : (recvLoop env s).state? = some s') : SameTx s s' := by
  fun_induction recvLoop env s with
  | case1 | case3 | case6 => simp at h
  | case2 s ses hs hshort =>
    simp only [Res.state?_ok, Option.some.injEq] at h
    exact h ▸ ⟨rfl, rfl⟩
  | case4 s ses hs _ _ _ => exact framingError_sameTx h
  | case5 s ses hs _ _ _ _ ih => exact (decodeNext_sameTx env s ses).trans (ih h)

/-- A call on a missing block does nothing. -/
theorem withSend_none {s : Psc E} {id : UInt16} (f : Block E → Res (Psc E))
    (h : s.sendBlocks id = none) : withSend s id f = .ok s := by
  rw [withSend, h]

theorem send_none {cfg : Config} {s s' : Psc E} {id : UInt16}
    (h : (send cfg s id).state? = some s')
    (hq : (s.sendBlocks id).map (fun b => (id, b.data.mem)) = none) : SameTx s s' := by
  rw [send, withSend_none _ (Option.map_eq_none_iff.mp hq), Res.state?_ok, Option.some.injEq] at h
  exact h ▸ ⟨rfl, rfl⟩

/-- STEP (the rest): a call that queues nothing leaves the transmit side alone, unless it is
    `flushSend`. -/
theorem call_sameTx {cfg : Config} {s s' : Psc E} {op : Op E} (h : step cfg s op = some s')
    (hq : queuedBy s op = none) (hf : op ≠ .flushSend) : SameTx s s' := by
  cases op with
  | connect env => exact connect_sameTx h
  | event ev =>
    rcases eventcb_state h with ⟨_, rfl⟩ | rfl | ⟨u, hu, msg, rfl⟩
    · exact ⟨rfl, rfl⟩
    · exact ⟨rfl, rfl⟩
    · have := startReconnect_sameTx hu
      exact ⟨this.sendbuf, this.txlog⟩
  | reconnect env =>
    have := connect_sameTx (reconnect_state h)
    exact ⟨this.sendbuf, this.txlog⟩
  | forceReConnect =>
    rcases forceReConnect_state h with rfl | hr
    · exact ⟨rfl, rfl⟩
    · exact startReconnect_sameTx hr
  | data chunk env =>
    have harr : SameTx s (arrived s chunk) := by
      unfold arrived; split <;> exact ⟨rfl, rfl⟩
    simp only [step, call, recvdata] at h
    split_ifs at h
    · exact harr.trans (recvLoop_sameTx env _ h)
    · simp at h
  | send id => exact send_none h hq
  | writeLoSendBlock val =>
    simp only [step, call, writeLoSendBlock] at h
    simp only [queuedBy] at hq
    split_ifs at h hq
    · rw [Res.state?_ok, Option.some.injEq] at h
      exact h ▸ ⟨rfl, rfl⟩
    · exact send_none h hq
  | queueSendId id buf => cases hq
  | queueSendRaw blk buf => cases hq
  | queueSendDbuf blk buf => cases hq
  | flushSend => exact absurd rfl hf
  | writeBlock id data =>
    simp only [step, call, Res.state?_ok, Option.some.injEq] at h
    exact h ▸ ⟨rfl, rfl⟩
  | written n =>
    simp only [step, call, Res.state?_ok, Option.some.injEq] at h
    exact h ▸ ⟨rfl, rfl⟩

/-- Moving more bytes to a session appends them to what it received before. -/
theorem moved_concat (log : List (ℕ × List UInt8)) (k sid : ℕ) (l : List UInt8) :
    ((log ++ [(k, l)]).filterMap fun p => if p.1 = sid then some p.2 else none).flatten =
      (log.filterMap fun p => if p.1 = sid then some p.2 else none).flatten ++
        (if k = sid then l else []) := by
  rw [List.filterMap_append, List.flatten_append]
  by_cases h : k = sid <;> simp [h]

/-- STEP (`flushSend`): the send queue is kept, or dropped, or moved as a whole. -/
theorem flushSend_framed {cfg : Config} {s s' : Psc E} (h : (flushSend cfg s).state? = some s')
    (hs : TxFramed s) : TxFramed s' := by
  unfold flushSend at h
  split_ifs at h
  · rw [Res.state?_ok, Option.some.injEq] at h
    exact h ▸ hs
  · split at h
    · simp at h
    · rename_i ses _
      dsimp only at h
      split_ifs at h with hl ha
      · rw [Res.state?_throw, Option.some.injEq] at h
        exact h ▸ hs
      · -- `evbuffer_add_buffer` failed: the queue is drained
        rw [Res.state?_throw, Option.some.injEq] at h
        subst h
        refine ⟨?_, hs.sessions⟩
        change Framed (bytes (drain _ _))
        rw [bytes_drain, length, List.drop_length]
        exact framed_nil
      · rw [Res.state?_ok, Option.some.injEq] at h
        subst h
        have hnil : bytes (addBuffer ses.output s.sendbuf).1.2 = [] :=
          (addBuffer_ok _ _ (by simpa using ha)).2
        refine ⟨?_, fun sid => ?_⟩
        · change Framed (bytes (addBuffer ses.output s.sendbuf).1.2)
          rw [hnil]
          exact framed_nil
        · have hm := hs.sessions sid
          unfold moved at hm ⊢
          rw [moved_concat]
          split_ifs
          · exact hm.append hs.queue
          · exact hm.append framed_nil

/-- STEP: a safe call keeps the framing. -/
theorem framed_step {cfg : Config} {s s' : Psc E} {op : Op E} (hs : TxFramed s)
    (hsafe : Safe cfg s op) (h : step cfg s op = some s') : TxFramed s' := by
  cases hq : queuedBy s op with
  | some p =>
    obtain ⟨htx, hgrow⟩ := whole_of_safe hsafe s' h p.1 p.2 hq
    refine ⟨?_, fun sid => ?_⟩
    · rcases hgrow with heq | ⟨f, _, _, heq⟩
      · exact heq ▸ hs.queue
      · exact heq ▸ hs.queue.append f.framed
    · rw [moved, htx]
      exact hs.sessions sid
  | none =>
    by_cases hf : op = .flushSend
    · subst hf
      exact flushSend_framed h hs
    · have hsame := call_sameTx h hq hf
      refine ⟨by rw [hsame.sendbuf]; exact hs.queue, fun sid => ?_⟩
      rw [moved, hsame.txlog]
      exact hs.sessions sid

theorem framed_init (tx rx : Finset UInt16) : TxFramed (Psc.init tx rx : Psc E) :=
  ⟨by change Framed (bytes new); rw [bytes_new]; exact framed_nil, fun _ => framed_nil⟩

/-- TRANSMIT FRAMING: in a run of safe calls the send queue and the bytes moved to every session are
    whole messages at all times, and every call that queues appends one whole message or nothing. -/
theorem transmit_framed (cfg : Config) (tx rx : Finset UInt16) (ops : List (Op E))
    (hsafe : Along (step cfg) (Safe cfg) (Psc.init tx rx) ops) :
    Always (step cfg) TxFramed (Psc.init tx rx) ops ∧
      Along (step cfg) (Whole cfg) (Psc.init tx rx) ops :=
  ⟨always_of_along (fun _ _ _ hs hc h => framed_step hs hc h) (fun _ hs => hs)
      (framed_init tx rx) hsafe,
    along_mono (fun _ _ hc => whole_of_safe hc) hsafe⟩

/-- A run that connects, queues a message and flushes it. -/
theorem transmit_framed_flush :
    Always (step ⟨0⟩) TxFramed (Psc.init ∅ ∅ : Psc Chains)
        [.connect ⟨true, true⟩, .event ⟨true, false, false, false, false, false, ""⟩,
          .queueSendId 3 ⟨[1, 2], by decide⟩, .flushSend] ∧
      Along (step ⟨0⟩) (Whole ⟨0⟩) (Psc.init ∅ ∅ : Psc Chains)
        [.connect ⟨true, true⟩, .event ⟨true, false, false, false, false, false, ""⟩,
          .queueSendId 3 ⟨[1, 2], by decide⟩, .flushSend] := by
  refine transmit_framed ⟨0⟩ ∅ ∅ _ ?_
  intro s₁ h₁
  cases h₁
  refine ⟨trivial, fun s₂ h₂ => ?_⟩
  cases h₂
  refine ⟨trivial, fun s₃ _ => ⟨Or.inl rfl, fun _ _ => ⟨trivial, trivial⟩⟩⟩

/-- Without a connection the body goes to the send queue without its header. -/
theorem send_unconnected_unframed :
    ∃ s, exec (step ⟨0⟩) (Psc.init {1} ∅ : Psc Chains)
        [.writeBlock 1 (.contig [7]), .writeLoSendBlock 1] = some s ∧
      s.connected = false ∧ bytes s.sendbuf = [7] ∧ ¬ TxFramed s := by
  refine ⟨_, rfl, rfl, rfl, fun h => ?_⟩
  have hlen : 8 ≤ [(7 : UInt8)].length := h.queue.length_le (by decide)
  exact absurd hlen (by decide)

end Pscdrv.Tcp
