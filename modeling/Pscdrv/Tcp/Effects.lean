import Pscdrv.Tcp.Receive

/-! # What the decoder does to the blocks

    The log of `recvdata` tells all it does to the receive blocks: replayed on the blocks as they
    were, the new entries give the blocks as they are, whatever the blocks hold. Two states that
    differ in their blocks only take the same turns and log the same entries.

        blocks ──── recvdata ────▶ blocks'
          │                          │ flat
        flat ──── replay entries ──▶ flat' -/

namespace Pscdrv

open Libevent

variable {E : Type} [Libevent E]

/-- The block with its data laid out in one piece. -/
def Block.flat (b : Block E) : Block E := { b with data := .assign b.data.mem }

/-- Look at all the blocks through `φ`. -/
def BlockMap.map (φ : Block E → Block E) (m : BlockMap E) : BlockMap E := fun id => (m id).map φ

abbrev BlockMap.flat (m : BlockMap E) : BlockMap E := m.map Block.flat

@[simp] theorem Block.flat_requestScan (mask : UInt32) (b : Block E) :
    (b.requestScan mask).flat = b.flat.requestScan mask := by
  unfold Block.requestScan
  by_cases h : b.scanBusy ≠ 0
  · rw [if_pos h, if_pos (show b.flat.scanBusy ≠ 0 from h)]
    rfl
  · rw [if_neg h, if_neg (show ¬ b.flat.scanBusy ≠ 0 from h)]
    rfl

/-- A change of one block, seen through `φ`. -/
theorem BlockMap.map_modify {φ : Block E → Block E} (m : BlockMap E) (id : UInt16)
    {f g : Block E → Block E} (h : ∀ b, φ (f b) = g (φ b)) :
    (m.modify id f).map φ = (m.map φ).modify id g := by
  funext k
  unfold BlockMap.map BlockMap.modify
  by_cases hk : k = id
  · rw [if_pos hk, if_pos hk, Option.map_map, Option.map_map]
    congr 1
    funext b
    exact h b
  · rw [if_neg hk, if_neg hk]

namespace Tcp

/-- What an entry of the log does to the blocks. -/
def effect (env : RxEnv) (m : BlockMap E) : RxEv → BlockMap E
  | .count id => m.modify id fun b => { b with rxtime := env.now, count := b.count + 1 }
  | .unknown _ => m
  | .store id body => m.modify id fun b => { b with data := .assign body }
  | .requestScan id => m.modify id fun b => b.requestScan (env.scanIoRequest id b.scanCount)
  | .listeners _ => m

def replay (env : RxEnv) (m : BlockMap E) (evs : List RxEv) : BlockMap E := evs.foldl (effect env) m

/-- From `s` to `t` the entries `out` were logged for session `sid`, and are what happened. -/
structure Replays (env : RxEnv) (s t : Psc E) (sid : ℕ) (out : List RxEv) : Prop where
  log : t.rxlog = s.rxlog ++ out.map fun e => (sid, e)
  blocks : t.recvBlocks.flat = replay env s.recvBlocks.flat out

theorem Replays.trans {env : RxEnv} {s t u : Psc E} {sid : ℕ} {a b : List RxEv}
    (h : Replays env s t sid a) (k : Replays env t u sid b) : Replays env s u sid (a ++ b) where
  log := by rw [k.log, h.log, List.map_append, List.append_assoc]
  blocks := by rw [k.blocks, h.blocks, replay, replay, replay, List.foldl_append]

/-- The states differ in what the receive blocks hold, and in what does not concern `recvdata`. -/
structure SameInput (s s₀ : Psc E) : Prop where
  session : s₀.session = s.session
  connected : s₀.connected = s.connected
  timerActive : s₀.timerActive = s.timerActive
  haveHead : s₀.haveHead = s.haveHead
  bodylen : s₀.bodylen = s.bodylen
  bodyblock : s₀.bodyblock = s.bodyblock
  expect : s₀.expect = s.expect
  known : ∀ id, (s₀.recvBlocks id).isSome = (s.recvBlocks id).isSome

theorem SameInput.refl (s : Psc E) : SameInput s s :=
  ⟨rfl, rfl, rfl, rfl, rfl, rfl, rfl, fun _ => rfl⟩

section Turns

variable {env : RxEnv} {s s₀ : Psc E} {ses : Session E}

/-- The entries of a header. -/
def headOut (s : Psc E) (id : UInt16) : RxEv :=
  if (s.recvBlocks id).isSome then .count id else .unknown id

theorem decodeHead_replays (s : Psc E) (ses : Session E) (hbuf : List UInt8) (buf : E) :
    Replays env s (decodeHead env s ses hbuf buf) ses.id [headOut s (msgidOf hbuf)] := by
  unfold decodeHead headOut
  dsimp only
  by_cases hid : (s.recvBlocks (msgidOf hbuf)).isSome = true
  · have hflat : (s.recvBlocks.modify (msgidOf hbuf) fun b =>
        { b with rxtime := env.now, count := b.count + 1 }).flat =
        effect env s.recvBlocks.flat (.count (msgidOf hbuf)) :=
      BlockMap.map_modify _ _ fun _ => rfl
    rw [if_pos hid, if_pos hid]
    split_ifs <;> exact ⟨rfl, hflat⟩
  · rw [if_neg hid, if_neg hid]
    split_ifs <;> exact ⟨rfl, rfl⟩

theorem decodeHead_sim (h : SameInput s s₀) (ses : Session E) (hbuf : List UInt8) (buf : E) :
    SameInput (decodeHead env s ses hbuf buf) (decodeHead env s₀ ses hbuf buf) := by
  unfold decodeHead
  dsimp only
  rw [h.known]
  by_cases hid : (s.recvBlocks (msgidOf hbuf)).isSome = true
  · rw [if_pos hid, if_pos hid]
    split_ifs <;> exact ⟨rfl, h.connected, h.timerActive, rfl, rfl, rfl, rfl, fun k => by
      rw [BlockMap.modify_isSome, BlockMap.modify_isSome, h.known]⟩
  · rw [if_neg hid, if_neg hid]
    split_ifs <;> exact ⟨rfl, h.connected, h.timerActive, rfl, rfl, rfl, rfl, h.known⟩

/-- The entries of a body. -/
def bodyOut (s : Psc E) (body : List UInt8) : List RxEv :=
  match s.bodyblock with
  | some id => [.store id body, .requestScan id, .listeners id]
  | none => []

theorem decodeBody_replays (s : Psc E) (ses : Session E) :
    Replays env s (decodeBody env s ses) ses.id
      (bodyOut s ((bytes ses.input).take s.bodylen.toNat)) := by
  unfold decodeBody bodyOut
  cases s.bodyblock with
  | none => exact ⟨(List.append_nil _).symm, rfl⟩
  | some id =>
    have hmem := (DBuffer.consume_spec ses.input s.bodylen.toNat).1
    dsimp only
    rw [← hmem]
    refine ⟨rfl, ?_⟩
    change (s.recvBlocks.modify id _).flat = (s.recvBlocks.flat.modify id _).modify id _
    rw [BlockMap.modify_modify]
    exact BlockMap.map_modify _ _ fun b => Block.flat_requestScan _ _

theorem decodeBody_sim (h : SameInput s s₀) (ses : Session E) :
    SameInput (decodeBody env s ses) (decodeBody env s₀ ses) := by
  unfold decodeBody
  rw [h.bodyblock, h.bodylen]
  cases s.bodyblock with
  | none => exact ⟨rfl, h.connected, h.timerActive, rfl, rfl, rfl, rfl, h.known⟩
  | some id =>
    exact ⟨rfl, h.connected, h.timerActive, rfl, rfl, rfl, rfl, fun k => by
      dsimp only
      rw [BlockMap.modify_isSome, BlockMap.modify_isSome, h.known]⟩

/-- STEP: a turn of the loop does what it logs, and goes the same way whatever the blocks hold. -/
theorem decodeNext_sim (h : SameInput s s₀) (env : RxEnv) (ses : Session E) : ∃ out,
    Replays env s (decodeNext env s ses) ses.id out ∧
      Replays env s₀ (decodeNext env s₀ ses) ses.id out ∧
      SameInput (decodeNext env s ses) (decodeNext env s₀ ses) := by
  unfold decodeNext
  rw [h.haveHead]
  by_cases hh : s.haveHead = true
  · have hout : bodyOut s₀ ((bytes ses.input).take s₀.bodylen.toNat) =
        bodyOut s ((bytes ses.input).take s.bodylen.toNat) := by
      rw [bodyOut, bodyOut, h.bodyblock, h.bodylen]
    rw [if_pos hh, if_pos hh]
    exact ⟨_, decodeBody_replays s ses, hout ▸ decodeBody_replays s₀ ses, decodeBody_sim h ses⟩
  · have hout : ∀ id, headOut s₀ id = headOut s id := fun id => by
      rw [headOut, headOut, h.known]
    rw [if_neg hh, if_neg hh]
    exact ⟨_, decodeHead_replays s ses _ _, hout _ ▸ decodeHead_replays s₀ ses _ _,
      decodeHead_sim h ses _ _⟩

theorem SameInput.inputLength (h : SameInput s s₀) : inputLength s₀ = inputLength s := by
  rw [Tcp.inputLength, Tcp.inputLength, h.session]

/-- The loop makes a turn when there is enough input and no assertion or bad header in the way. -/
theorem recvLoop_turn (env : RxEnv) (hses : s.session = some ses)
    (hlong : ¬ inputLength s < s.expect)
    (hassert : ¬ (!s.haveHead && s.expect != headerSize) = true)
    (hps : ¬ (!s.haveHead && !isPS ((bytes ses.input).take headerSize)) = true)
    (hless : inputLength (decodeNext env s ses) < inputLength s) :
    recvLoop env s = recvLoop env (decodeNext env s ses) := by
  conv_lhs => rw [recvLoop, hses]
  dsimp only
  rw [if_neg hlong, if_neg hassert, if_neg hps, dif_pos hless]

/-- LOOP: so does the whole loop. -/
theorem recvLoop_sim (env : RxEnv) {t₀ : Psc E} (h : SameInput s s₀) (hses : s.session = some ses)
    (ht : recvLoop env s₀ = .ok t₀) : ∃ t out, recvLoop env s = .ok t ∧
      Replays env s t ses.id out ∧ Replays env s₀ t₀ ses.id out ∧ SameInput t t₀ := by
  fun_induction recvLoop env s₀ generalizing s ses with
  | case1 s₀ hnone => cases ht
  | case2 s₀ ses₀ hs hshort =>
    have heq := hs.symm.trans (h.session.trans hses)
    cases heq
    cases ht
    refine ⟨waitForMore s ses₀, [], ?_, ⟨(List.append_nil _).symm, rfl⟩,
      ⟨(List.append_nil _).symm, rfl⟩, ?_⟩
    · rw [recvLoop, hses]
      exact if_pos (by rw [← h.inputLength, ← h.expect]; exact hshort)
    · unfold waitForMore
      rw [h.expect]
      exact ⟨rfl, h.connected, h.timerActive, h.haveHead, h.bodylen, h.bodyblock, rfl, h.known⟩
  | case3 => cases ht
  | case4 s₀ ses₀ hs hlong hassert hps =>
    have heq := hs.symm.trans (h.session.trans hses)
    cases heq
    unfold framingError startReconnect at ht
    dsimp only at ht
    rw [h.timerActive] at ht
    split at ht
    · cases ht
    · rename_i hidle
      cases ht
      refine ⟨{ s with
        session := none, connected := false, timerActive := true, message := "Framing error!" },
        [], ?_, ⟨(List.append_nil _).symm, rfl⟩, ⟨(List.append_nil _).symm, rfl⟩,
        ⟨rfl, rfl, rfl, h.haveHead, h.bodylen, h.bodyblock, h.expect, h.known⟩⟩
      rw [h.haveHead] at hassert hps
      rw [h.inputLength, h.expect] at hlong
      rw [h.expect] at hassert
      rw [recvLoop, hses]
      dsimp only
      rw [if_neg hlong, if_neg hassert, if_pos hps, framingError, startReconnect, if_neg hidle,
        Res.andThen_ok]
  | case5 s₀ ses₀ hs hlong hassert hps hless ih =>
    have heq := hs.symm.trans (h.session.trans hses)
    cases heq
    obtain ⟨out, hout, hout₀, hsim⟩ := decodeNext_sim h env ses₀
    obtain ⟨ses', hses', hid⟩ := decodeNext_session env s ses₀
    obtain ⟨t, more, hgo, hmore, hmore₀, hend⟩ := ih hsim hses' ht
    rw [hid] at hmore hmore₀
    refine ⟨t, out ++ more, ?_, hout.trans hmore, hout₀.trans hmore₀, hend⟩
    rw [h.haveHead] at hassert hps
    rw [h.expect] at hassert
    rw [h.inputLength, h.expect] at hlong
    rw [hsim.inputLength, h.inputLength] at hless
    rw [recvLoop_turn env hses hlong hassert hps hless, hgo]
  | case6 => cases ht

end Turns

/-! ### A stream in pieces -/

/-- The driver waits for stage `st` of its connection with session `ses`. -/
structure Ready (rx : Finset UInt16) (s : Psc E) (ses : Session E) (st : Stage) : Prop where
  session : s.session = some ses
  connected : s.connected = true
  idle : s.timerActive = false
  stage : AtStage rx s st
  known : ∀ id, (s.recvBlocks id).isSome = true ↔ id ∈ rx

section Pieces

variable {rx : Finset UInt16} {s : Psc E} {ses : Session E} {st : Stage}

theorem SameInput.atStage {s s₀ : Psc E} (h : SameInput s s₀) :
    ∀ {st : Stage}, AtStage rx s₀ st → AtStage rx s st
  | .head, hst => ⟨h.haveHead ▸ hst.1, h.expect ▸ hst.2⟩
  | .body _ _ _, hst =>
    ⟨h.haveHead ▸ hst.1, h.expect ▸ hst.2.1, h.bodylen ▸ hst.2.2.1, h.bodyblock ▸ hst.2.2.2⟩

/-- STEP: a piece of the stream moves the driver as it moves the decoder. -/
theorem data_ready (h : Ready rx s ses st) (chunk : List UInt8) (env : RxEnv) {out : List RxEv}
    {st' : Stage} {left : List UInt8}
    (hdec : (stages rx).decode st (bytes ses.input ++ chunk) = (out, some (st', left))) :
    ∃ t ses', recvdata env (arrived s chunk) = .ok t ∧ Ready rx t ses' st' ∧
      bytes ses'.input = left ∧ ses'.id = ses.id ∧ Replays env s t ses.id out := by
  have harr := arrived_eq h.session chunk
  -- the same driver with fresh blocks, whose books are right
  obtain ⟨s₀, hs₀⟩ : ∃ s₀ : Psc E, s₀ = { arrived s chunk with
      recvBlocks := .registered rx, ukncount := 0, rxlog := [] } := ⟨_, rfl⟩
  have hfresh : Booked rx s₀.rxlog s₀.recvBlocks s₀.ukncount := by
    rw [hs₀]
    exact (decoding_init (E := E) ∅ rx).booked
  have hsim : SameInput (arrived s chunk) s₀ := by
    rw [hs₀]
    refine ⟨rfl, rfl, rfl, rfl, rfl, rfl, rfl, fun id => ?_⟩
    have hknown := h.known id
    rw [harr]
    rw [hs₀] at hfresh
    exact Bool.eq_iff_iff.mpr ((hfresh.known id).trans hknown.symm)
  have hses : (arrived s chunk).session = some { ses with input := arrive ses.input chunk } := by
    rw [harr]
  have hstage : AtStage rx s₀ st := by
    rw [hs₀, harr]
    cases st <;> exact h.stage
  obtain ⟨t₀, ht₀, hrun⟩ := recvLoop_decodes env (hsim.session.trans hses)
    (by rw [hsim.timerActive, harr]; exact h.idle) hstage hfresh
  rw [bytes_arrive, hdec] at hrun
  have hwent : Went rx s₀ t₀ ses.id out st' left := hrun
  obtain ⟨t, out', ht, hout, hout₀, hend⟩ := recvLoop_sim env hsim hses ht₀
  -- the log tells that both did the same
  have hlog := hwent.log.symm.trans hout₀.log
  have heq : out = out' := by
    have hmap := List.append_cancel_left hlog
    exact (List.map_injective_iff.mpr (Prod.mk_right_injective _)) hmap
  subst heq
  obtain ⟨ses', hses', hid, hleft⟩ := hwent.session
  have hrecv : recvdata env (arrived s chunk) = .ok t := by
    rw [recvdata, if_pos (by rw [harr]; simpa using h.connected), ht]
  refine ⟨t, ses', hrecv, ⟨hend.session ▸ hses', ?_, ?_, hend.atStage hwent.stage, fun id => ?_⟩,
    hleft, hid, ?_⟩
  · rw [← hend.connected, hwent.connected, hsim.connected, harr]
    exact h.connected
  · rw [← hend.timerActive, hwent.timerActive, hsim.timerActive, harr]
    exact h.idle
  · rw [← hend.known, hwent.booked.known]
  · rw [harr] at hout
    exact ⟨hout.log, hout.blocks⟩

end Pieces

end Tcp

end Pscdrv
