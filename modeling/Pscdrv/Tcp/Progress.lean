import Pscdrv.Tcp.Receive

/-! # Progress of the receive loop

    The loop of `recvdata` ends because every turn takes a whole header or a whole body, which is at
    least one byte. When it ends, fewer bytes are left than the next item has, and the watermarks
    are set for this item: libevent calls again once the item is there, and does not stop reading
    before that.

        0        buffered         expect = lowmark        highmark
        ├────────────┼───────────────────┼────────────────────┤
                                   the next item       reading suspended -/

namespace Pscdrv.Tcp

open Libevent Run

variable {E : Type} [Libevent E]

/-- The session waits for one item, and for no more. -/
structure Rests (t : Psc E) (ses : Session E) : Prop where
  expect : t.expect = if t.haveHead then t.bodylen.toNat else headerSize
  expect_pos : 1 ≤ t.expect
  bodyblock : t.bodyblock.isSome = true → t.haveHead = true
  short : length ses.input < t.expect
  lowmark : ses.lowmark = t.expect
  highmark : t.expect < ses.highmark
  /-- the mark fits in a `size_t` -/
  highmark_lt : ses.highmark < 2 ^ 64

/-- `recvdata` was called at stage `st` with `input` in the buffer. It has torn the connection down
    at a bad header, or it rests and has taken something, if an item was there. -/
def Returns (rx : Finset UInt16) (st : Stage) (input : List UInt8) (t : Psc E) : Prop :=
  (((stages rx).decode st input).2 = none ∧ t.session = none ∧ t.connected = false) ∨
    ∃ ses n, t.session = some ses ∧ t.connected = true ∧ bytes ses.input = input.drop n ∧
      ((stages rx).need st ≤ input.length → 0 < n) ∧ Rests t ses

/-- The state with `input` in the buffer of the session, and `stream` the bytes received so far. -/
def buffered (s : Psc E) (ses : Session E) (input : E) (stream : ℕ → List UInt8) : Psc E :=
  { s with session := some { ses with input := input }, stream := stream }

/-- In `s` nothing stalls: `recvdata` returns, whatever is in the buffer and whatever arrives, and a
    new session waits for its first header. -/
structure Progresses (cfg : Config) (rx : Finset UInt16) (s : Psc E) : Prop where
  recv : s.connected = true → ∃ ses st, s.session = some ses ∧ AtStage rx s st ∧
    ∀ input stream env, ∃ t, recvdata env (buffered s ses input stream) = .ok t ∧
      Returns rx st (bytes input) t
  data : s.connected = true → ∀ chunk env, ∃ t ses st, s.session = some ses ∧ AtStage rx s st ∧
    step cfg s (.data chunk env) = some t ∧ Returns rx st (bytes ses.input ++ chunk) t
  restart : ∀ env t, (step cfg s (.connect env) = some t ∨ step cfg s (.reconnect env) = some t) →
    ∀ ses, t.session = some ses → Rests t ses

/-! ### The end of the loop -/

/-- Only a body that is expected has a block. -/
def Unheaded (s : Psc E) : Prop := s.haveHead = false → s.bodyblock = none

/-- The watermarks of the session are those `waitForMore` sets. -/
def Marked (s : Psc E) : Prop := ∀ ses, s.session = some ses → ses.lowmark = s.expect ∧
  ses.highmark = if minMaxBufSize ≤ s.expect then s.expect + 1 else minMaxBufSize

section Loop

variable {s t : Psc E}

theorem decodeNext_unheaded (env : RxEnv) (s : Psc E) (ses : Session E) :
    Unheaded (decodeNext env s ses) := by
  unfold decodeNext decodeBody decodeHead Unheaded
  dsimp only
  split_ifs
  · exact fun _ => rfl
  · exact nofun
  · exact fun _ => rfl
  · exact nofun
  · exact fun _ => rfl

/-- LOOP: when it returns, the marks are those of the last stage. -/
theorem recvLoop_marked (env : RxEnv) (hs : Unheaded s) (h : recvLoop env s = .ok t) :
    Unheaded t ∧ Marked t := by
  fun_induction recvLoop env s with
  | case1 | case3 | case6 => cases h
  | case2 s ses =>
    cases h
    refine ⟨hs, fun ses' hses' => ?_⟩
    cases hses'
    exact ⟨rfl, rfl⟩
  | case4 s ses =>
    unfold framingError startReconnect at h
    split at h
    · cases h
    · cases h
      exact ⟨hs, fun ses' hses' => by cases hses'⟩
  | case5 s ses _ _ _ _ _ ih => exact ih (decodeNext_unheaded env s ses) h

theorem highmark_gt (n : ℕ) :
    n < if minMaxBufSize ≤ n then n + 1 else minMaxBufSize := by
  split <;> omega

/-- At a stage, with less input than it needs and with its marks, the session rests. -/
theorem AtStage.rests {rx : Finset UInt16} {st : Stage} {ses : Session E} (hst : AtStage rx t st)
    (hun : Unheaded t) (hses : t.session = some ses) (hmark : Marked t)
    (hshort : length ses.input < (stages rx).need st) : Rests t ses := by
  obtain ⟨hlow, hhigh⟩ := hmark ses hses
  have hexpect : t.expect = (stages rx).need st := hst.expect
  have hpos := (stages rx).need_pos st
  have hlt : t.expect < 2 ^ 32 := by
    cases st with
    | head =>
      rw [hst.2]
      decide
    | body id len pos =>
      rw [hst.2.1, ← hst.2.2.1]
      exact t.bodylen.toNat_lt
  refine ⟨?_, by omega, fun hblk => ?_, by omega, hlow, hhigh ▸ highmark_gt _, ?_⟩
  · cases st with
    | head => rw [hst.1, hst.2, if_neg Bool.false_ne_true]
    | body id len pos => rw [hst.1, hst.2.1, hst.2.2.1, if_pos rfl]
  · by_contra hhead
    rw [hun (Bool.eq_false_of_not_eq_true hhead)] at hblk
    cases hblk
  · rw [hhigh]
    split
    · omega
    · decide

end Loop

/-! ### The calls -/

/-- What `recvdata` relies on when it is called. -/
structure InPlace (rx : Finset UInt16) (s : Psc E) : Prop where
  decoding : Decoding rx s
  unheaded : Unheaded s

section Steps

variable {cfg : Config} {rx : Finset UInt16} {s t : Psc E}

/-- CALL: whatever is in the buffer, `recvdata` returns as it should. -/
theorem recvdata_returns (h : InPlace rx s) (hc : s.connected = true) (ses : Session E)
    {st : Stage} (hst : AtStage rx s st) (input : E) (stream : ℕ → List UInt8) (env : RxEnv) :
    ∃ t, recvdata env (buffered s ses input stream) = .ok t ∧
      Unheaded t ∧ Returns rx st (bytes input) t := by
  have hidle : s.timerActive = false := h.decoding.idle (h.decoding.linked hc)
  have hstage : AtStage rx (buffered s ses input stream) st := by cases st <;> exact hst
  have hses : (buffered s ses input stream).session = some { ses with input := input } := rfl
  obtain ⟨t, ht, hrun⟩ := recvLoop_decodes env hses hidle hstage h.decoding.booked
  have hbefore : Unheaded (buffered s ses input stream) := h.unheaded
  obtain ⟨hun, hmark⟩ := recvLoop_marked env hbefore ht
  have hcall : recvdata env (buffered s ses input stream) = .ok t := by
    rw [recvdata, if_pos (by rw [Bool.and_eq_true]; exact ⟨hc, rfl⟩), ht]
  refine ⟨t, hcall, hun, ?_⟩
  dsimp only at hrun
  rcases hr : (stages rx).decode st (bytes input) with ⟨out, _ | ⟨st', left⟩⟩
  · rw [hr] at hrun
    have htorn : Torn rx _ t ses.id out := hrun
    exact .inl ⟨congrArg Prod.snd hr, htorn.session, htorn.connected⟩
  · rw [hr] at hrun
    have hwent : Went rx _ t ses.id out st' left := hrun
    obtain ⟨ses', hses', -, hin⟩ := hwent.session
    obtain ⟨hshort, n, hn, htaken⟩ := (stages rx).decode_left hr
    rw [← hin] at hshort hn
    exact .inr ⟨ses', n, hses', hwent.connected.trans hc, hn, htaken,
      hwent.stage.rests hun hses' hmark hshort⟩

/-- Bytes that arrive are in the buffer. -/
theorem arrived_buffered {ses : Session E} (hses : s.session = some ses) (chunk : List UInt8) :
    arrived s chunk = buffered s ses (arrive ses.input chunk)
      (fun k => if k = ses.id then s.stream k ++ chunk else s.stream k) :=
  arrived_eq hses chunk

theorem data_returns (h : InPlace rx s) (hc : s.connected = true) {ses : Session E} {st : Stage}
    (hses : s.session = some ses) (hst : AtStage rx s st) (chunk : List UInt8) (env : RxEnv) :
    ∃ t, step cfg s (.data chunk env) = some t ∧ Unheaded t ∧
      Returns rx st (bytes ses.input ++ chunk) t := by
  obtain ⟨t, ht, hun, hreturns⟩ := recvdata_returns h hc ses hst (arrive ses.input chunk)
    (fun k => if k = ses.id then s.stream k ++ chunk else s.stream k) env
  rw [← arrived_buffered hses] at ht
  rw [bytes_arrive] at hreturns
  exact ⟨t, by rw [step, call, ht, Res.state?_ok], hun, hreturns⟩

/-- A new session waits for its first header. -/
theorem connect_rests {env : ConnEnv} (hs : (connect s env).state? = some t) {ses : Session E}
    (hses : t.session = some ses) : Rests t ses := by
  obtain ⟨rfl, rfl⟩ := connect_session hs hses
  have hmark : headerSize < minMaxBufSize := by decide
  have hsize : minMaxBufSize < 2 ^ 64 := by decide
  refine ⟨rfl, Nat.succ_pos 7, nofun, ?_, rfl, hmark, hsize⟩
  rw [length, bytes_new]
  exact Nat.succ_pos 7

theorem connect_unheaded {env : ConnEnv} (hs : (connect s env).state? = some t) : Unheaded t := by
  rcases connect_cases hs with ⟨-, -, u, rfl, rfl | rfl | rfl⟩ <;> exact fun _ => rfl

theorem SameRx.unheaded (h : SameRx s t) (hs : Unheaded s) : Unheaded t := by
  have hdec := h.decoder
  simp only [Prod.mk.injEq] at hdec
  exact fun hhead => hdec.2.2.1.trans (hs (hdec.1.symm.trans hhead))

/-- STEP: every call leaves `recvdata` what it relies on. -/
theorem inPlace_step {op : Op E} (h : InPlace rx s) (hs : step cfg s op = some t) :
    InPlace rx t := by
  refine ⟨decoding_step h.decoding hs, ?_⟩
  cases op with
  | connect env => exact connect_unheaded hs
  | event ev =>
    rcases eventcb_state hs with ⟨-, rfl⟩ | rfl | ⟨u, hu, msg, rfl⟩
    · exact h.unheaded
    · exact h.unheaded
    · rw [startReconnect_state hu]
      exact h.unheaded
  | reconnect env => exact connect_unheaded (reconnect_state hs)
  | forceReConnect =>
    rcases forceReConnect_state hs with rfl | hr
    · exact h.unheaded
    · rw [startReconnect_state hr]
      exact h.unheaded
  | data chunk env =>
    have hc := connected_of_data hs
    obtain ⟨ses, st, hses, hst⟩ := h.decoding.atStage hc
    obtain ⟨u, hu, hun, -⟩ := data_returns h hc hses hst chunk env
    exact Option.some.inj (hs.symm.trans hu) ▸ hun
  | written n =>
    rw [step, call, Res.state?_ok, Option.some.injEq] at hs
    exact hs ▸ h.unheaded
  | _ => exact (sends_sameRx rfl hs).unheaded h.unheaded

theorem InPlace.progresses (h : InPlace rx s) : Progresses cfg rx s := by
  refine ⟨fun hc => ?_, fun hc chunk env => ?_, fun env t ht ses hses => ?_⟩
  · obtain ⟨ses, st, hses, hst⟩ := h.decoding.atStage hc
    refine ⟨ses, st, hses, hst, fun input stream env => ?_⟩
    obtain ⟨t, ht, -, hreturns⟩ := recvdata_returns h hc ses hst input stream env
    exact ⟨t, ht, hreturns⟩
  · obtain ⟨ses, st, hses, hst⟩ := h.decoding.atStage hc
    obtain ⟨t, ht, -, hreturns⟩ := data_returns h hc hses hst chunk env
    exact ⟨t, ses, st, hses, hst, ht, hreturns⟩
  · rcases ht with ht | ht
    · exact connect_rests ht hses
    · exact connect_rests (reconnect_state ht) hses

theorem inPlace_init (tx : Finset UInt16) : InPlace rx (Psc.init tx rx : Psc E) :=
  ⟨decoding_init tx rx, fun _ => rfl⟩

end Steps

/-- PROGRESS: in every run, and in every state of it, the receive loop ends and does not stall. -/
theorem recv_progresses (cfg : Config) (tx rx : Finset UInt16) (ops : List (Op E)) :
    Always (step cfg) (Progresses cfg rx) (Psc.init tx rx) ops :=
  always_of_step (fun _ _ _ h hs => inPlace_step h hs) (fun _ h => h.progresses) (inPlace_init tx)

/-- In the middle of a body one byte waits in the buffer, for another one. -/
theorem recv_progresses_cut : ∃ s ses,
    exec (step ⟨0⟩) (Psc.init ∅ {7}) (cutMessage.take 4) = some s ∧ Progresses ⟨0⟩ {7} s ∧
      s.session = some ses ∧ bytes ses.input = [8] ∧ s.expect = 2 ∧ ses.lowmark = 2 := by
  have hrun : (exec (step ⟨0⟩) (Psc.init ∅ {7}) (cutMessage.take 4)).map
      (fun s => (s.session.map fun ses => (bytes ses.input, ses.lowmark), s.expect)) =
        some (some ([8], 2), 2) := by
    decide +kernel
  obtain ⟨s, hs, hwaits⟩ := Option.map_eq_some_iff.mp hrun
  obtain ⟨hmap, hexpect⟩ := Prod.ext_iff.mp hwaits
  obtain ⟨ses, hses, hbuf⟩ := Option.map_eq_some_iff.mp hmap
  obtain ⟨hinput, hlow⟩ := Prod.ext_iff.mp hbuf
  exact ⟨s, ses, hs, (recv_progresses ⟨0⟩ ∅ {7} _).exec hs, hses, hinput, hexpect, hlow⟩

end Pscdrv.Tcp
