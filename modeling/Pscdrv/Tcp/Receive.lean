import Mathlib.Data.List.GetD
import Pscdrv.Tcp.Psc
import Pscdrv.Schemes.Decoder
import Pscdrv.Schemes.Run

/-! # Stream decoding of the TCP driver

    `recvdata` keeps its place in the stream in `haveHead`, `header`, `bodylen`, `bodyblock` and
    `expect`. Seen as a `Decoder` it has two stages, and the loop of `recvdata` runs this decoder
    over the input buffer. Cutting the input does not show in a decoder, and run from its first
    stage over a whole stream it does what the one-shot `parse` of the stream says.

        ┌────────── 8 bytes, body length 0 ─┐
        ▼                                   │
       head ── 8 bytes, body length n > 0 ──┴──▶ body id n
        │ ▲                                        │
        │ └──────────────── n bytes ───────────────┘
        └── not "PS" ──▶ stop (the connection is torn down) -/

namespace Pscdrv.Tcp

open Libevent Run

/-- What the decoder waits for. -/
inductive Stage where
  | head
  | body (id : UInt16) (len : ℕ) (pos : 0 < len)

/-- A decoded header counts for its block, or as unknown. -/
def headEv (rx : Finset UInt16) (id : UInt16) : RxEv := if id ∈ rx then .count id else .unknown id

/-- A body that is not empty is stored in its block, which is then scanned and listened to. -/
def bodyEvs (rx : Finset UInt16) (id : UInt16) (body : List UInt8) : List RxEv :=
  if id ∈ rx ∧ body ≠ [] then [.store id body, .requestScan id, .listeners id] else []

/-- The stage after a header. -/
def afterHead (id : UInt16) (len : ℕ) : Stage :=
  if h : 0 < len then .body id len h else .head

/-- The two stages as a decoder; `rx` are the registered receive blocks. -/
def stages (rx : Finset UInt16) : Decoder Stage UInt8 RxEv where
  need
    | .head => headerSize
    | .body _ len _ => len
  need_pos
    | .head => by decide
    | .body _ _ pos => pos
  next
    | .head, h =>
      if isPS h then
        ([headEv rx (msgidOf h)], some (afterHead (msgidOf h) (bodylenOf h).toNat))
      else ([], none)
    | .body id _ _, b => (bodyEvs rx id b, some .head)

/-- What a parsed stream asks the decoder to do. -/
def expected (rx : Finset UInt16) (p : Parsed) : List RxEv :=
  (p.msgs.flatMap fun m => headEv rx m.1 :: bodyEvs rx m.1 m.2) ++
    match p.tail with
    | .body id _ => [headEv rx id]
    | _ => []

theorem expected_cons (rx : Finset UInt16) (m : UInt16 × List UInt8)
    (ms : List (UInt16 × List UInt8)) (t : Tail) :
    expected rx ⟨m :: ms, t⟩ = headEv rx m.1 :: (bodyEvs rx m.1 m.2 ++ expected rx ⟨ms, t⟩) := by
  simp [expected]

/-! ### The decoder and the one-shot parser -/

section Reference

variable (rx : Finset UInt16)

theorem need_body (id : UInt16) {len : ℕ} (pos : 0 < len) :
    (stages rx).need (.body id len pos) = len := rfl

theorem next_head {l : List UInt8} (hp : isPS l = true) :
    (stages rx).next .head (l.take headerSize) =
      ([headEv rx (msgidOf l)], some (afterHead (msgidOf l) (bodylenOf l).toNat)) := by
  change (if isPS (l.take headerSize) then _ else _) = _
  rw [isPS_take, msgidOf_take, bodylenOf_take, if_pos hp]

/-- From a header boundary, one whole message. -/
theorem decode_msg {l : List UInt8} (h : headerSize ≤ l.length) (hp : isPS l = true)
    (hb : (bodylenOf l).toNat ≤ (l.drop headerSize).length) :
    (stages rx).decode .head l =
      (headEv rx (msgidOf l) ::
          (bodyEvs rx (msgidOf l) ((l.drop headerSize).take (bodylenOf l).toNat) ++
            ((stages rx).decode .head (l.drop (headerSize + (bodylenOf l).toNat))).1),
        ((stages rx).decode .head (l.drop (headerSize + (bodylenOf l).toNat))).2) := by
  rw [(stages rx).decode_go (s := .head) h (next_head rx hp)]
  change ([_] ++ ((stages rx).decode _ (l.drop headerSize)).1,
    ((stages rx).decode _ (l.drop headerSize)).2) = _
  unfold afterHead
  split
  · rename_i hpos
    have hgo := (stages rx).decode_go (s := .body (msgidOf l) _ hpos) hb rfl
    rw [need_body, List.drop_drop] at hgo
    rw [hgo]
    rfl
  · -- an empty body: the next header follows at once
    have h0 : (bodylenOf l).toNat = 0 := by omega
    simp [h0, bodyEvs]

/-- Run over a whole stream from its start, the decoder does what the parser says, and it stops
    exactly when the parser meets a framing error. -/
theorem decode_parse (l : List UInt8) :
    ((stages rx).decode .head l).1 = expected rx (parse l) ∧
      (((stages rx).decode .head l).2 = none ↔ (parse l).tail = .framing) := by
  induction hn : l.length using Nat.strongRecOn generalizing l with
  | ind n ih =>
    subst hn
    by_cases h : l.length < headerSize
    · rw [parse_short h, (stages rx).decode_short h]
      simp [expected]
    have h8 : headerSize ≤ l.length := by omega
    cases hp : isPS l with
    | false =>
      have hstop : (stages rx).next .head (l.take headerSize) = ([], none) := by
        change (if isPS (l.take headerSize) then _ else _) = _
        rw [isPS_take, hp]; rfl
      rw [parse_framing h8 hp, (stages rx).decode_stop (s := .head) h8 hstop]
      simp [expected]
    | true =>
      by_cases hb : (bodylenOf l).toNat ≤ (l.drop headerSize).length
      · have hlt : (l.drop (headerSize + (bodylenOf l).toNat)).length < l.length := by
          rw [List.length_drop]
          simp only [headerSize] at *
          omega
        obtain ⟨hev, hend⟩ := ih _ hlt _ rfl
        rw [parse_msg h8 hp hb, decode_msg rx h8 hp hb, expected_cons, hev]
        exact ⟨rfl, hend⟩
      · -- the stream ends inside a body
        have hopen : (stages rx).decode (afterHead (msgidOf l) (bodylenOf l).toNat)
            (l.drop headerSize) =
            ([], some (afterHead (msgidOf l) (bodylenOf l).toNat, l.drop headerSize)) := by
          refine (stages rx).decode_short ?_
          rw [afterHead, dif_pos (by omega)]
          change _ < (bodylenOf l).toNat
          omega
        rw [parse_open h8 hp (by omega), (stages rx).decode_go (s := .head) h8 (next_head rx hp)]
        change ([_] ++ ((stages rx).decode _ (l.drop headerSize)).1 = _) ∧
          (((stages rx).decode _ (l.drop headerSize)).2 = _ ↔ _)
        rw [hopen]
        simp [expected]

end Reference

/-! ### The log and the blocks -/

variable {E : Type} [Libevent E]

/-- What the decoder did for session `sid`. -/
def eventsOf (log : List (ℕ × RxEv)) (sid : ℕ) : List RxEv :=
  log.filterMap fun p => if p.1 = sid then some p.2 else none

/-- How often the decoder did `e`. -/
def timesOf (log : List (ℕ × RxEv)) (e : RxEv) : ℕ := (log.map Prod.snd).count e

/-- How many headers had no block. -/
def unknowns (log : List (ℕ × RxEv)) : ℕ :=
  log.countP fun p => match p.2 with
    | .unknown _ => true
    | _ => false

/-- The body stored last in block `id`. -/
def storedIn (log : List (ℕ × RxEv)) (id : UInt16) : List UInt8 :=
  (log.filterMap fun p => match p.2 with
    | .store k body => if k = id then some body else none
    | _ => none).getLastD []

/-- The counters and the data of a block are those the log tells. -/
structure BlockBooked (log : List (ℕ × RxEv)) (id : UInt16) (b : Block E) : Prop where
  count : b.count = UInt32.ofNat (timesOf log (.count id))
  data : b.data.mem = storedIn log id
  scans : b.scanCount + b.scanOflow = UInt32.ofNat (timesOf log (.requestScan id))

structure Booked (rx : Finset UInt16) (log : List (ℕ × RxEv)) (blocks : BlockMap E)
    (ukncount : UInt32) : Prop where
  known : ∀ id, (blocks id).isSome = true ↔ id ∈ rx
  unknown : ukncount = UInt32.ofNat (unknowns log)
  booked : ∀ id b, blocks id = some b → BlockBooked log id b

theorem eventsOf_append (log more : List (ℕ × RxEv)) (sid : ℕ) :
    eventsOf (log ++ more) sid = eventsOf log sid ++ eventsOf more sid := by
  simp [eventsOf]

theorem eventsOf_tagged (k sid : ℕ) (evs : List RxEv) :
    eventsOf (evs.map fun e => (k, e)) sid = if k = sid then evs else [] := by
  by_cases h : k = sid <;> simp [eventsOf, List.filterMap_map, h]

theorem timesOf_append (log more : List (ℕ × RxEv)) (e : RxEv) :
    timesOf (log ++ more) e = timesOf log e + timesOf more e := by
  simp [timesOf]

/-- Exactly one of the two scan counters counts a request. -/
theorem requestScan_total (mask : UInt32) (b : Block E) :
    (b.requestScan mask).scanCount + (b.requestScan mask).scanOflow =
      b.scanCount + b.scanOflow + 1 := by
  unfold Block.requestScan
  split
  · exact (UInt32.add_assoc ..).symm
  · change b.scanCount + 1 + b.scanOflow = _
    rw [UInt32.add_assoc, UInt32.add_comm 1, UInt32.add_assoc]

section Books

variable {rx : Finset UInt16} {log : List (ℕ × RxEv)} {blocks : BlockMap E} {ukn : UInt32}

/-- The books of one block are changed, those of the others are not touched. -/
theorem Booked.modify (h : Booked rx log blocks ukn) {more : List (ℕ × RxEv)} {id : UInt16}
    {f : Block E → Block E} (hukn : unknowns more = 0)
    (hid : ∀ b, BlockBooked log id b → BlockBooked (log ++ more) id (f b))
    (hne : ∀ k (b : Block E), k ≠ id → BlockBooked log k b → BlockBooked (log ++ more) k b) :
    Booked rx (log ++ more) (blocks.modify id f) ukn := by
  refine ⟨fun k => by rw [BlockMap.modify_isSome, h.known], ?_, fun k b hb => ?_⟩
  · rw [unknowns] at hukn
    rw [h.unknown, unknowns, unknowns, List.countP_append, hukn, Nat.add_zero]
  · by_cases hk : k = id
    · subst hk
      rw [BlockMap.modify_self, Option.map_eq_some_iff] at hb
      obtain ⟨c, hc, rfl⟩ := hb
      exact hid c (h.booked k c hc)
    · rw [BlockMap.modify_ne _ _ hk] at hb
      exact hne k b hk (h.booked k b hb)

/-- A header for block `id`. -/
theorem Booked.onCount (h : Booked rx log blocks ukn) (sid : ℕ) (id : UInt16)
    (now : EpicsTimeStamp) :
    Booked rx (log ++ [(sid, .count id)])
      (blocks.modify id fun b => { b with rxtime := now, count := b.count + 1 }) ukn := by
  refine h.modify rfl (fun b hb => ⟨?_, ?_, ?_⟩) (fun k b hk hb => ⟨?_, ?_, ?_⟩)
  · change b.count + 1 = _
    rw [hb.count, timesOf_append]
    simp [timesOf, UInt32.ofNat_add]
  · exact hb.data.trans (by simp [storedIn])
  · exact hb.scans.trans (by simp [timesOf])
  · exact hb.count.trans (by simp [timesOf, Ne.symm hk])
  · exact hb.data.trans (by simp [storedIn])
  · exact hb.scans.trans (by simp [timesOf])

/-- A header without a block. -/
theorem Booked.onUnknown (h : Booked rx log blocks ukn) (sid : ℕ) (id : UInt16) :
    Booked rx (log ++ [(sid, .unknown id)]) blocks (ukn + 1) := by
  refine ⟨h.known, ?_, fun k b hb => ?_⟩
  · rw [h.unknown]
    simp [unknowns, UInt32.ofNat_add]
  · have hk := h.booked k b hb
    exact ⟨hk.count.trans (by simp [timesOf]), hk.data.trans (by simp [storedIn]),
      hk.scans.trans (by simp [timesOf])⟩

/-- A body for block `id`. -/
theorem Booked.onStore (h : Booked rx log blocks ukn) (sid : ℕ) (id : UInt16) (data : DBuffer E)
    (mask : Block E → UInt32) :
    Booked rx (log ++ [(sid, .store id data.mem), (sid, .requestScan id), (sid, .listeners id)])
      (blocks.modify id fun b => { b with data := data }.requestScan (mask b)) ukn := by
  refine h.modify rfl (fun b hb => ⟨?_, ?_, ?_⟩) (fun k b hk hb => ⟨?_, ?_, ?_⟩)
  · rw [Block.requestScan_count]
    exact hb.count.trans (by simp [timesOf])
  · rw [Block.requestScan_data]
    simp [storedIn]
  · rw [requestScan_total, timesOf_append]
    change b.scanCount + b.scanOflow + 1 = _
    rw [hb.scans]
    simp [timesOf, UInt32.ofNat_add]
  · exact hb.count.trans (by simp [timesOf])
  · exact hb.data.trans (by simp [storedIn, Ne.symm hk])
  · exact hb.scans.trans (by simp [timesOf, Ne.symm hk])

end Books

/-! ### The loop of `recvdata` -/

/-- The fields of the decoder say stage `st`. -/
def AtStage (rx : Finset UInt16) (s : Psc E) : Stage → Prop
  | .head => s.haveHead = false ∧ s.expect = headerSize
  | .body id len _ => s.haveHead = true ∧ s.expect = len ∧ s.bodylen.toNat = len ∧
      s.bodyblock = if id ∈ rx then some id else none

/-- In both stages `expect` is what the stage needs. -/
theorem AtStage.expect {rx : Finset UInt16} {s : Psc E} {st : Stage} (h : AtStage rx s st) :
    s.expect = (stages rx).need st := by
  cases st with
  | head => exact h.2
  | body id len pos => exact h.2.1

/-- From `s` to `t` session `sid` did `out`; its stream is the same and the books are right. -/
structure Logged (rx : Finset UInt16) (s t : Psc E) (sid : ℕ) (out : List RxEv) : Prop where
  log : t.rxlog = s.rxlog ++ out.map fun e => (sid, e)
  stream : t.stream = s.stream
  nsession : t.nsession = s.nsession
  booked : Booked rx t.rxlog t.recvBlocks t.ukncount

/-- The session goes on at stage `st` with `left` in its input. -/
structure Went (rx : Finset UInt16) (s t : Psc E) (sid : ℕ) (out : List RxEv) (st : Stage)
    (left : List UInt8) : Prop extends Logged rx s t sid out where
  session : ∃ ses, t.session = some ses ∧ ses.id = sid ∧ bytes ses.input = left
  stage : AtStage rx t st
  connected : t.connected = s.connected
  timerActive : t.timerActive = s.timerActive

/-- The session is torn down. -/
structure Torn (rx : Finset UInt16) (s t : Psc E) (sid : ℕ) (out : List RxEv) : Prop
    extends Logged rx s t sid out where
  session : t.session = none
  connected : t.connected = false

/-- The session ends up as a run of the decoder says. -/
def Decodes (rx : Finset UInt16) (s t : Psc E) (sid : ℕ) :
    List RxEv × Option (Stage × List UInt8) → Prop
  | (out, some (st, left)) => Went rx s t sid out st left
  | (out, none) => Torn rx s t sid out

theorem Logged.trans {rx : Finset UInt16} {s t u : Psc E} {sid : ℕ} {a b : List RxEv}
    (h : Logged rx s t sid a) (k : Logged rx t u sid b) : Logged rx s u sid (a ++ b) where
  log := by rw [k.log, h.log, List.map_append, List.append_assoc]
  stream := k.stream.trans h.stream
  nsession := k.nsession.trans h.nsession
  booked := k.booked

theorem Went.decodes {rx : Finset UInt16} {s t u : Psc E} {sid : ℕ} {out : List RxEv} {st : Stage}
    {left : List UInt8} (h : Went rx s t sid out st left) :
    ∀ {r : List RxEv × Option (Stage × List UInt8)}, Decodes rx t u sid r →
      Decodes rx s u sid (out ++ r.1, r.2)
  | (_, some (_, _)), k => ⟨h.toLogged.trans k.toLogged, k.session, k.stage,
      k.connected.trans h.connected, k.timerActive.trans h.timerActive⟩
  | (_, none), k => ⟨h.toLogged.trans k.toLogged, k.session, k.connected⟩

section Loop

variable {rx : Finset UInt16} {s : Psc E} {ses : Session E}

theorem decodeHead_went (hb : Booked rx s.rxlog s.recvBlocks s.ukncount) (env : RxEnv)
    (ses : Session E) (hbuf : List UInt8) (buf : E) :
    Went rx s (decodeHead env s ses hbuf buf) ses.id [headEv rx (msgidOf hbuf)]
      (afterHead (msgidOf hbuf) (bodylenOf hbuf).toNat) (bytes buf) := by
  have hlen : bodylenOf hbuf ≠ 0 ↔ 0 < (bodylenOf hbuf).toNat := by
    rw [Nat.pos_iff_ne_zero, ne_eq, ne_eq, ← UInt32.toNat_inj]
    rfl
  unfold decodeHead headEv afterHead
  dsimp only
  by_cases hid : msgidOf hbuf ∈ rx
  · rw [if_pos ((hb.known _).mpr hid), if_pos hid]
    by_cases h0 : bodylenOf hbuf ≠ 0
    · rw [if_pos h0, dif_pos (hlen.mp h0)]
      exact ⟨⟨rfl, rfl, rfl, hb.onCount ses.id _ env.now⟩, ⟨_, rfl, rfl, rfl⟩,
        ⟨rfl, rfl, rfl, (if_pos hid).symm⟩, rfl, rfl⟩
    · rw [if_neg h0, dif_neg (fun h => h0 (hlen.mpr h))]
      exact ⟨⟨rfl, rfl, rfl, hb.onCount ses.id _ env.now⟩, ⟨_, rfl, rfl, rfl⟩, ⟨rfl, rfl⟩,
        rfl, rfl⟩
  · rw [if_neg (fun h => hid ((hb.known _).mp h)), if_neg hid]
    by_cases h0 : bodylenOf hbuf ≠ 0
    · rw [if_pos h0, dif_pos (hlen.mp h0)]
      exact ⟨⟨rfl, rfl, rfl, hb.onUnknown ses.id _⟩, ⟨_, rfl, rfl, rfl⟩,
        ⟨rfl, rfl, rfl, (if_neg hid).symm⟩, rfl, rfl⟩
    · rw [if_neg h0, dif_neg (fun h => h0 (hlen.mpr h))]
      exact ⟨⟨rfl, rfl, rfl, hb.onUnknown ses.id _⟩, ⟨_, rfl, rfl, rfl⟩, ⟨rfl, rfl⟩, rfl, rfl⟩

theorem decodeBody_went (hb : Booked rx s.rxlog s.recvBlocks s.ukncount) (env : RxEnv)
    {id : UInt16} {len : ℕ} {pos : 0 < len} (hst : AtStage rx s (.body id len pos))
    (hin : len ≤ (bytes ses.input).length) :
    Went rx s (decodeBody env s ses) ses.id (bodyEvs rx id ((bytes ses.input).take len)) .head
      ((bytes ses.input).drop len) := by
  obtain ⟨_, _, hlen, hblk⟩ := hst
  have hne : (bytes ses.input).take len ≠ [] := by
    intro h
    have := congrArg List.length h
    rw [List.length_take, List.length_nil] at this
    omega
  unfold decodeBody bodyEvs
  by_cases hid : id ∈ rx
  · rw [if_pos hid] at hblk
    obtain ⟨hmem, hleft⟩ := DBuffer.consume_spec ses.input s.bodylen.toNat
    rw [hlen] at hmem hleft
    rw [hblk, if_pos ⟨hid, hne⟩]
    dsimp only
    rw [hlen, ← hmem]
    exact ⟨⟨rfl, rfl, rfl, hb.onStore ses.id id _ fun b => env.scanIoRequest id b.scanCount⟩,
      ⟨_, rfl, rfl, hleft⟩, ⟨rfl, rfl⟩, rfl, rfl⟩
  · rw [if_neg hid] at hblk
    rw [hblk, if_neg (fun h => hid h.1)]
    refine ⟨⟨(List.append_nil _).symm, rfl, rfl, hb⟩, ⟨_, rfl, rfl, ?_⟩, ⟨rfl, rfl⟩, rfl, rfl⟩
    rw [bytes_drain, hlen]

/-- STEP: a turn of the loop is a step of the decoder. -/
theorem decodeNext_went (hb : Booked rx s.rxlog s.recvBlocks s.ukncount) (env : RxEnv)
    {st st' : Stage} {out : List RxEv} (hst : AtStage rx s st)
    (hin : (stages rx).need st ≤ (bytes ses.input).length)
    (hnext : (stages rx).next st ((bytes ses.input).take ((stages rx).need st)) =
      (out, some st')) :
    Went rx s (decodeNext env s ses) ses.id out st' ((bytes ses.input).drop ((stages rx).need st))
    := by
  cases st with
  | head =>
    have hstep := decodeHead_went hb env ses ((bytes ses.input).take headerSize)
      (drain ses.input headerSize)
    rw [bytes_drain] at hstep
    change (if isPS ((bytes ses.input).take headerSize) then _ else _) = _ at hnext
    split at hnext
    · cases hnext
      rw [decodeNext, if_neg (by simp [hst.1])]
      exact hstep
    · cases hnext
  | body id len pos =>
    cases hnext
    rw [decodeNext, if_pos hst.1]
    exact decodeBody_went hb env hst hin

/-- With enough input for the stage, and no bad header, the next turn is such a step. -/
theorem decodeNext_turn (hses : s.session = some ses)
    (hb : Booked rx s.rxlog s.recvBlocks s.ukncount) (env : RxEnv) {st : Stage}
    (hst : AtStage rx s st) (hlong : ¬ inputLength s < s.expect)
    (hps : ¬ (!s.haveHead && !isPS ((bytes ses.input).take headerSize)) = true) :
    (stages rx).need st ≤ (bytes ses.input).length ∧ ∃ out st',
      (stages rx).next st ((bytes ses.input).take ((stages rx).need st)) = (out, some st') ∧
      Went rx s (decodeNext env s ses) ses.id out st'
        ((bytes ses.input).drop ((stages rx).need st)) := by
  have hin : (stages rx).need st ≤ (bytes ses.input).length := by
    rw [← hst.expect]
    simpa [inputLength, hses, length] using hlong
  obtain ⟨out, st', hnext⟩ : ∃ out st', (stages rx).next st
      ((bytes ses.input).take ((stages rx).need st)) = (out, some st') := by
    cases st with
    | body id len pos => exact ⟨_, _, rfl⟩
    | head =>
      have hgood : isPS ((bytes ses.input).take headerSize) = true := by
        simpa [hst.1] using hps
      exact ⟨_, _, if_pos hgood⟩
  exact ⟨hin, out, st', hnext, decodeNext_went hb env hst hin hnext⟩

/-- RUN: the loop of `recvdata` runs the decoder over the input; none of its assertions fails. -/
theorem recvLoop_decodes (env : RxEnv) {st : Stage} (hses : s.session = some ses)
    (hidle : s.timerActive = false) (hst : AtStage rx s st)
    (hb : Booked rx s.rxlog s.recvBlocks s.ukncount) :
    ∃ t, recvLoop env s = .ok t ∧
      Decodes rx s t ses.id ((stages rx).decode st (bytes ses.input)) := by
  fun_induction recvLoop env s generalizing ses st with
  | case1 s hnone => rw [hnone] at hses; cases hses
  | case2 s ses₀ hs hshort =>
    rw [hs] at hses; cases hses
    have hlt : (bytes ses₀.input).length < (stages rx).need st := by
      rw [← hst.expect]
      simpa [inputLength, hs, length] using hshort
    refine ⟨_, rfl, ?_⟩
    rw [(stages rx).decode_short hlt]
    refine ⟨⟨(List.append_nil _).symm, rfl, rfl, hb⟩, ⟨_, rfl, rfl, rfl⟩, ?_, rfl, rfl⟩
    cases st <;> exact hst
  | case3 s ses₀ hs _ hassert =>
    -- without a header the decoder is at the first stage
    cases st with
    | head => simp [hst.1, hst.2] at hassert
    | body id len pos => simp [hst.1] at hassert
  | case4 s ses₀ hs hlong _ hps =>
    rw [hs] at hses; cases hses
    cases st with
    | body id len pos => simp [hst.1] at hps
    | head =>
      have hneed : headerSize ≤ (bytes ses₀.input).length := by
        rw [← hst.2]
        simpa [inputLength, hs, length] using hlong
      have hbad : isPS ((bytes ses₀.input).take headerSize) = false := by
        simpa [hst.1] using hps
      have hstop : (stages rx).next .head ((bytes ses₀.input).take headerSize) = ([], none) := by
        change (if isPS ((bytes ses₀.input).take headerSize) then _ else _) = _
        rw [hbad]; rfl
      rw [framingError, startReconnect, if_neg (by simp [hidle])]
      refine ⟨_, rfl, ?_⟩
      rw [(stages rx).decode_stop (s := .head) hneed hstop]
      exact ⟨⟨(List.append_nil _).symm, rfl, rfl, hb⟩, rfl, rfl⟩
  | case5 s ses₀ hs hlong _ hps _ ih =>
    rw [hs] at hses; cases hses
    obtain ⟨hneed, out, st', hnext, hwent⟩ := decodeNext_turn hs hb env hst hlong hps
    obtain ⟨ses', hses', hid, hin⟩ := hwent.session
    obtain ⟨t, ht, hdec⟩ := ih hses' (hwent.timerActive.trans hidle) hwent.stage hwent.booked
    rw [hid, hin] at hdec
    refine ⟨t, ht, ?_⟩
    rw [(stages rx).decode_go hneed hnext]
    exact hwent.decodes hdec
  | case6 s ses₀ hs hlong _ hps hstuck =>
    -- every stage takes at least one byte
    rw [hs] at hses; cases hses
    obtain ⟨hneed, out, st', hnext, hwent⟩ := decodeNext_turn hs hb env hst hlong hps
    obtain ⟨ses', hses', _, hin⟩ := hwent.session
    have hpos := (stages rx).need_pos st
    refine absurd ?_ hstuck
    simp only [inputLength, hs, hses', length, hin, List.length_drop]
    omega

end Loop

/-! ### Runs -/

/-- The decoder of the current session stands where the bytes received so far have taken it, and
    every earlier session has done what its stream asked for. -/
structure Decoding (rx : Finset UInt16) (s : Psc E) : Prop where
  linked : s.connected = true → s.session.isSome = true
  idle : s.session.isSome = true → s.timerActive = false
  booked : Booked rx s.rxlog s.recvBlocks s.ukncount
  current : ∀ ses, s.session = some ses → ses.id < s.nsession ∧ ∃ st, AtStage rx s st ∧
    (stages rx).decode .head (s.stream ses.id) =
      (eventsOf s.rxlog ses.id, some (st, bytes ses.input))
  past : ∀ sid, (∀ ses, s.session = some ses → ses.id ≠ sid) →
    ((stages rx).decode .head (s.stream sid)).1 = eventsOf s.rxlog sid
  fresh : ∀ sid, s.nsession ≤ sid → s.stream sid = []

section Steps

variable {rx : Finset UInt16} {s s' : Psc E}

/-- In every session the decoder did what its whole stream asks for. -/
theorem Decoding.events (h : Decoding rx s) (sid : ℕ) :
    ((stages rx).decode .head (s.stream sid)).1 = eventsOf s.rxlog sid := by
  by_cases hcur : ∃ ses, s.session = some ses ∧ ses.id = sid
  · obtain ⟨ses, hses, rfl⟩ := hcur
    obtain ⟨_, st, _, hdec⟩ := h.current ses hses
    rw [hdec]
  · exact h.past sid fun ses hses hid => hcur ⟨ses, hses, hid⟩

/-- A connected driver has a session, and its decoder is at a stage. -/
theorem Decoding.atStage (h : Decoding rx s) (hc : s.connected = true) :
    ∃ ses st, s.session = some ses ∧ AtStage rx s st := by
  obtain ⟨ses, hses⟩ := Option.isSome_iff_exists.mp (h.linked hc)
  obtain ⟨-, st, hst, -⟩ := h.current ses hses
  exact ⟨ses, st, hses, hst⟩

/-- STEP: the session is given up. -/
theorem startReconnect_decoding (h : Decoding rx s) (hs : (startReconnect s).state? = some s') :
    Decoding rx s' := by
  rw [startReconnect_state hs]
  exact ⟨nofun, nofun, h.booked, nofun, fun sid _ => h.events sid, h.fresh⟩

/-- STEP: a new session starts at a header, with an empty stream of its own. -/
theorem connect_decoding (h : Decoding rx s) (env : ConnEnv)
    (hs : (connect s env).state? = some s') : Decoding rx s' := by
  rcases connect_cases hs with ⟨hnone, htimer, u, rfl, rfl | rfl | rfl⟩
  · exact ⟨h.linked, h.idle, h.booked, fun ses hs => absurd (hnone.symm.trans hs) nofun,
      fun sid _ => h.events sid, h.fresh⟩
  · refine ⟨h.linked, fun hsome => ?_, h.booked, fun ses hs => absurd (hnone.symm.trans hs) nofun,
      fun sid _ => h.events sid, fun sid hsid => h.fresh sid (Nat.le_of_succ_le hsid)⟩
    simp [hnone] at hsome
  · refine ⟨fun _ => rfl, fun _ => htimer, h.booked, fun ses hs => ?_,
      fun sid _ => h.events sid, fun sid hsid => h.fresh sid (Nat.le_of_succ_le hsid)⟩
    cases hs
    have hempty : s.stream s.nsession = [] := h.fresh _ (Nat.le_refl _)
    refine ⟨Nat.lt_succ_self _, .head, ⟨rfl, rfl⟩, ?_⟩
    have hev := h.events s.nsession
    change (stages rx).decode .head (s.stream s.nsession) = (eventsOf s.rxlog s.nsession, _)
    have hshort : ([] : List UInt8).length < (stages rx).need .head := Nat.zero_lt_succ 7
    rw [hempty] at hev ⊢
    rw [← hev, (stages rx).decode_short hshort, bytes_new]

theorem arrived_eq {ses : Session E} (hses : s.session = some ses) (chunk : List UInt8) :
    arrived s chunk = { s with
      session := some { ses with input := arrive ses.input chunk }
      stream := fun k => if k = ses.id then s.stream k ++ chunk else s.stream k } := by
  rw [arrived, hses]

section Chunk

variable {t : Psc E} {ses : Session E} {chunk : List UInt8} {out : List RxEv}

theorem rxlog_arrived : (arrived s chunk).rxlog = s.rxlog := by
  unfold arrived
  split <;> rfl

theorem nsession_arrived : (arrived s chunk).nsession = s.nsession := by
  unfold arrived
  split <;> rfl

theorem connected_arrived : (arrived s chunk).connected = s.connected := by
  unfold arrived
  split <;> rfl

/-- Without a connection the data callback does not get through. -/
theorem connected_of_data {cfg : Config} {env : RxEnv}
    (hs : step cfg s (.data chunk env) = some t) : s.connected = true := by
  by_contra hc
  simp [step, call, recvdata, connected_arrived, hc] at hs

theorem stream_arrived (hses : s.session = some ses) (sid : ℕ) :
    (arrived s chunk).stream sid =
      if sid = ses.id then s.stream sid ++ chunk else s.stream sid := by
  rw [arrived_eq hses]

/-- What the chunk made the decoder do comes behind what it did before. -/
theorem Logged.own (k : Logged rx (arrived s chunk) t ses.id out) :
    eventsOf t.rxlog ses.id = eventsOf s.rxlog ses.id ++ out := by
  rw [k.log, rxlog_arrived, eventsOf_append, eventsOf_tagged, if_pos rfl]

/-- Of another session there is nothing new. -/
theorem Logged.other (h : Decoding rx s) (hses : s.session = some ses)
    (k : Logged rx (arrived s chunk) t ses.id out) {sid : ℕ} (hne : sid ≠ ses.id) :
    ((stages rx).decode .head (t.stream sid)).1 = eventsOf t.rxlog sid := by
  rw [k.log, rxlog_arrived, eventsOf_append, eventsOf_tagged, if_neg hne.symm, List.append_nil,
    k.stream, stream_arrived hses, if_neg hne]
  exact h.events sid

/-- Nor of a session that did not start. -/
theorem Logged.fresh (h : Decoding rx s) (hses : s.session = some ses)
    (k : Logged rx (arrived s chunk) t ses.id out) (sid : ℕ) (hsid : t.nsession ≤ sid) :
    t.stream sid = [] := by
  rw [k.nsession, nsession_arrived] at hsid
  have hold := (h.current ses hses).1
  rw [k.stream, stream_arrived hses, if_neg (by omega)]
  exact h.fresh sid hsid

theorem torn_decoding (h : Decoding rx s) (hses : s.session = some ses)
    (k : Torn rx (arrived s chunk) t ses.id out)
    (hdec : (stages rx).decode .head (s.stream ses.id ++ chunk) =
      (eventsOf s.rxlog ses.id ++ out, none)) : Decoding rx t := by
  refine ⟨fun hct => absurd (k.connected.symm.trans hct) nofun,
    fun hsome => by simp [k.session] at hsome, k.booked,
    fun ses' hses' => absurd (k.session.symm.trans hses') nofun, fun sid _ => ?_,
    k.toLogged.fresh h hses⟩
  by_cases hsid : sid = ses.id
  · subst hsid
    rw [k.stream, stream_arrived hses, if_pos rfl, hdec, k.toLogged.own]
  · exact k.toLogged.other h hses hsid

theorem went_decoding (h : Decoding rx s) (hses : s.session = some ses) {st : Stage}
    {left : List UInt8} (hidle : (arrived s chunk).timerActive = false)
    (k : Went rx (arrived s chunk) t ses.id out st left)
    (hdec : (stages rx).decode .head (s.stream ses.id ++ chunk) =
      (eventsOf s.rxlog ses.id ++ out, some (st, left))) : Decoding rx t := by
  obtain ⟨ses', hses', hid, hin⟩ := k.session
  refine ⟨fun _ => by rw [hses']; rfl, fun _ => k.timerActive.trans hidle, k.booked,
    fun ses'' hs'' => ?_, fun sid hsid => ?_, k.toLogged.fresh h hses⟩
  · rw [hses', Option.some.injEq] at hs''
    subst hs''
    refine ⟨?_, st, k.stage, ?_⟩
    · rw [hid, k.nsession, nsession_arrived]
      exact (h.current ses hses).1
    · rw [hid, hin, k.stream, stream_arrived hses, if_pos rfl, hdec, k.toLogged.own]
  · exact k.toLogged.other h hses fun heq => hsid ses' hses' (hid.trans heq.symm)

end Chunk

/-- STEP: a chunk moves the decoder of the session on; `recvdata` does not fail. -/
theorem data_decoding (h : Decoding rx s) (hc : s.connected = true) (chunk : List UInt8)
    (env : RxEnv) : ∃ t, recvdata env (arrived s chunk) = .ok t ∧
      t.stream = (arrived s chunk).stream ∧ Decoding rx t := by
  obtain ⟨ses, hses⟩ := Option.isSome_iff_exists.mp (h.linked hc)
  obtain ⟨_, st, hst, hdec⟩ := h.current ses hses
  have hses₁ : (arrived s chunk).session = some { ses with input := arrive ses.input chunk } := by
    rw [arrived_eq hses]
  have hidle : (arrived s chunk).timerActive = false := by
    rw [arrived_eq hses]
    exact h.idle (h.linked hc)
  have hstage : AtStage rx (arrived s chunk) st := by
    rw [arrived_eq hses]
    cases st <;> exact hst
  obtain ⟨t, ht, hrun⟩ := recvLoop_decodes env hses₁ hidle hstage
    (by rw [arrived_eq hses]; exact h.booked)
  have hrecv : recvdata env (arrived s chunk) = .ok t := by
    rw [arrived_eq hses] at ht ⊢
    rw [recvdata, if_pos (by simpa using hc), ht]
  -- the stream so far, and then the chunk
  have hall : (stages rx).decode .head (s.stream ses.id ++ chunk) =
      (eventsOf s.rxlog ses.id ++ ((stages rx).decode st (bytes ses.input ++ chunk)).1,
        ((stages rx).decode st (bytes ses.input ++ chunk)).2) := by
    rw [(stages rx).decode_append, hdec]
    rfl
  rw [bytes_arrive] at hrun
  rcases hr : (stages rx).decode st (bytes ses.input ++ chunk) with ⟨out, _ | ⟨st', left⟩⟩
  · rw [hr] at hrun hall
    have htorn : Torn rx _ t ses.id out := hrun
    exact ⟨t, hrecv, htorn.stream, torn_decoding h hses htorn hall⟩
  · rw [hr] at hrun hall
    have hwent : Went rx _ t ses.id out st' left := hrun
    exact ⟨t, hrecv, hwent.stream, went_decoding h hses hidle hwent hall⟩

/-- The receive side of the state; of the session, which one it is and what waits in its input. -/
structure SameRx (s s' : Psc E) : Prop where
  session : (s'.session.map fun ses => (ses.id, ses.input)) =
    s.session.map fun ses => (ses.id, ses.input)
  connected : s'.connected = s.connected
  timerActive : s'.timerActive = s.timerActive
  decoder : (s'.haveHead, s'.bodylen, s'.bodyblock, s'.expect) =
    (s.haveHead, s.bodylen, s.bodyblock, s.expect)
  recvBlocks : s'.recvBlocks = s.recvBlocks
  ukncount : s'.ukncount = s.ukncount
  nsession : s'.nsession = s.nsession
  stream : s'.stream = s.stream
  rxlog : s'.rxlog = s.rxlog

/-- None of the fields of the transmit side, and no message, belongs to the receive side. -/
theorem SameRx.update (s : Psc E) (blocks : BlockMap E) (msg : String) (buf : E)
    (log : List (ℕ × List UInt8)) :
    SameRx s { s with sendBlocks := blocks, message := msg, sendbuf := buf, txlog := log } :=
  ⟨rfl, rfl, rfl, rfl, rfl, rfl, rfl, rfl, rfl⟩

theorem SameRx.refl (s : Psc E) : SameRx s s := .update s _ _ _ _

theorem SameRx.trans {t : Psc E} (h : SameRx s s') (k : SameRx s' t) : SameRx s t :=
  ⟨k.session.trans h.session, k.connected.trans h.connected, k.timerActive.trans h.timerActive,
    k.decoder.trans h.decoder, k.recvBlocks.trans h.recvBlocks, k.ukncount.trans h.ukncount,
    k.nsession.trans h.nsession, k.stream.trans h.stream, k.rxlog.trans h.rxlog⟩

theorem SameRx.atStage (h : SameRx s s') {st : Stage} (hst : AtStage rx s st) :
    AtStage rx s' st := by
  have hdec := h.decoder
  simp only [Prod.mk.injEq] at hdec
  obtain ⟨h₁, h₂, h₃, h₄⟩ := hdec
  cases st with
  | head => exact ⟨h₁.trans hst.1, h₄.trans hst.2⟩
  | body id len pos =>
    exact ⟨h₁.trans hst.1, h₄.trans hst.2.1, by rw [h₂]; exact hst.2.2.1, h₃.trans hst.2.2.2⟩

/-- STEP: a call that leaves the receive side alone. -/
theorem SameRx.decoding (h : SameRx s s') (hd : Decoding rx s) : Decoding rx s' := by
  have hsome : s'.session.isSome = s.session.isSome := by
    have := congrArg Option.isSome h.session
    simpa using this
  have hback : ∀ ses', s'.session = some ses' →
      ∃ ses, s.session = some ses ∧ ses.id = ses'.id ∧ ses.input = ses'.input := by
    intro ses' hses'
    have hmap := h.session
    rw [hses', Option.map_some, eq_comm, Option.map_eq_some_iff] at hmap
    obtain ⟨ses, hses, heq⟩ := hmap
    exact ⟨ses, hses, congrArg Prod.fst heq, congrArg Prod.snd heq⟩
  refine ⟨?_, ?_, ?_, fun ses' hses' => ?_, fun sid _ => ?_, ?_⟩
  · rw [h.connected, hsome]; exact hd.linked
  · rw [h.timerActive, hsome]; exact hd.idle
  · rw [h.rxlog, h.recvBlocks, h.ukncount]; exact hd.booked
  · obtain ⟨ses, hses, hid, hin⟩ := hback ses' hses'
    obtain ⟨hlt, st, hst, hdec⟩ := hd.current ses hses
    rw [h.nsession, h.stream, h.rxlog, ← hid, ← hin]
    exact ⟨hlt, st, h.atStage hst, hdec⟩
  · rw [h.stream, h.rxlog]
    exact hd.events sid
  · rw [h.nsession, h.stream]; exact hd.fresh

theorem queueHeader_sameRx {cfg : Config} {id : UInt16} {blk : Block E} {n : UInt32}
    (h : (queueHeader cfg s id blk n).state? = some s') : SameRx s s' := by
  unfold queueHeader at h
  dsimp only at h
  split_ifs at h <;>
    simp only [Res.state?_ok, Res.state?_throw, Res.state?_abort, Option.some.injEq,
      reduceCtorEq] at h <;>
    subst h <;> exact .update s _ _ _ _

theorem queueSendDbuf_sameRx {cfg : Config} {id : UInt16} {blk : Block E} {buf : DBuffer E}
    (h : (queueSendDbuf cfg s id blk buf).state? = some s') : SameRx s s' := by
  rcases Res.state?_andThen h with ⟨e, hq⟩ | ⟨t, hq, ht⟩
  · exact queueHeader_sameRx (hq ▸ Res.state?_throw e s')
  · refine (queueHeader_sameRx (hq ▸ Res.state?_ok t)).trans ?_
    dsimp only at ht
    split at ht <;>
      simp only [Res.state?_ok, Res.state?_throw, Option.some.injEq] at ht <;>
      subst ht <;> exact .update t _ _ _ _

theorem queueSendRaw_sameRx {cfg : Config} {id : UInt16} {blk : Block E} {buf : RawBuf}
    (h : (queueSendRaw cfg s id blk buf).state? = some s') : SameRx s s' := by
  rcases Res.state?_andThen h with ⟨e, hq⟩ | ⟨t, hq, ht⟩
  · exact queueHeader_sameRx (hq ▸ Res.state?_throw e s')
  · refine (queueHeader_sameRx (hq ▸ Res.state?_ok t)).trans ?_
    dsimp only at ht
    split at ht
    · rw [Res.state?_ok, Option.some.injEq] at ht
      exact ht ▸ .update t _ _ _ _
    · simp at ht

theorem withSend_sameRx {id : UInt16} {f : Block E → Res (Psc E)}
    (hf : ∀ b, (f b).state? = some s' → SameRx s s')
    (h : (withSend s id f).state? = some s') : SameRx s s' := by
  unfold withSend at h
  split at h
  · exact hf _ h
  · rw [Res.state?_ok, Option.some.injEq] at h
    exact h ▸ SameRx.refl s

theorem flushSend_sameRx {cfg : Config} (h : (flushSend cfg s).state? = some s') :
    SameRx s s' := by
  unfold flushSend at h
  split_ifs at h
  · rw [Res.state?_ok, Option.some.injEq] at h
    exact h ▸ SameRx.refl s
  · split at h
    · simp at h
    · rename_i ses hses
      have hsame : ∀ out : E, (some { ses with output := out }).map (fun ses => (ses.id, ses.input))
          = s.session.map fun ses => (ses.id, ses.input) := by
        intro out
        rw [hses]; rfl
      dsimp only at h
      split_ifs at h <;>
        simp only [Res.state?_ok, Res.state?_throw, Option.some.injEq] at h <;>
        subst h
      · exact SameRx.refl s
      · exact ⟨hsame _, rfl, rfl, rfl, rfl, rfl, rfl, rfl, rfl⟩
      · exact ⟨hsame _, rfl, rfl, rfl, rfl, rfl, rfl, rfl, rfl⟩

/-- The calls of record processing on the transmit side leave the receive side alone. -/
theorem sends_sameRx {cfg : Config} {op : Op E} (hop : op.sends = true)
    (h : step cfg s op = some s') : SameRx s s' := by
  cases op with
  | send id => exact withSend_sameRx (fun _ => queueSendDbuf_sameRx) h
  | writeLoSendBlock val =>
    simp only [step, call, writeLoSendBlock] at h
    split_ifs at h
    · rw [Res.state?_ok, Option.some.injEq] at h
      exact h ▸ SameRx.refl s
    · exact withSend_sameRx (fun _ => queueSendDbuf_sameRx) h
  | queueSendId id buf =>
    have hrest : SameRx (getSend s id) s' := withSend_sameRx (fun _ => queueSendRaw_sameRx) h
    exact (SameRx.update s _ _ _ _).trans hrest
  | queueSendRaw blk buf => exact withSend_sameRx (fun _ => queueSendRaw_sameRx) h
  | queueSendDbuf blk buf => exact withSend_sameRx (fun _ => queueSendDbuf_sameRx) h
  | flushSend => exact flushSend_sameRx h
  | writeBlock id data =>
    simp only [step, call, Res.state?_ok, Option.some.injEq] at h
    subst h
    exact .update s _ s.message s.sendbuf s.txlog
  | connect env => cases hop
  | event ev => cases hop
  | reconnect env => cases hop
  | forceReConnect => cases hop
  | data chunk env => cases hop
  | written n => cases hop

/-- A connection that was given up and the text that tells why. -/
theorem Decoding.message (h : Decoding rx s) (msg : String) :
    Decoding rx { s with message := msg } :=
  (SameRx.update s s.sendBlocks msg s.sendbuf s.txlog).decoding h

/-- The reconnect timer has expired. -/
theorem Decoding.stopTimer (h : Decoding rx s) : Decoding rx { s with timerActive := false } :=
  ⟨h.linked, fun _ => rfl, h.booked, h.current, h.past, h.fresh⟩

/-- STEP: every call keeps the decoder in its place. -/
theorem decoding_step {cfg : Config} {op : Op E} (h : Decoding rx s)
    (hs : step cfg s op = some s') : Decoding rx s' := by
  cases op with
  | connect env => exact connect_decoding h env hs
  | event ev =>
    rcases eventcb_state hs with ⟨hsome, rfl⟩ | rfl | ⟨u, hu, msg, rfl⟩
    · refine ⟨fun _ => hsome, h.idle, h.booked, fun ses hses => ?_, h.past, h.fresh⟩
      obtain ⟨hlt, st, hst, hdec⟩ := h.current ses hses
      exact ⟨hlt, st, by cases st <;> exact hst, hdec⟩
    · exact h
    · exact (startReconnect_decoding h hu).message msg
  | reconnect env => exact connect_decoding h.stopTimer env (reconnect_state hs)
  | forceReConnect =>
    rcases forceReConnect_state hs with rfl | hr
    · exact h
    · exact startReconnect_decoding h hr
  | data chunk env =>
    obtain ⟨t, ht, _, hd⟩ := data_decoding h (connected_of_data hs) chunk env
    rw [step, call, ht, Res.state?_ok, Option.some.injEq] at hs
    exact hs ▸ hd
  | send id => exact (sends_sameRx rfl hs).decoding h
  | writeLoSendBlock val => exact (sends_sameRx rfl hs).decoding h
  | queueSendId id buf => exact (sends_sameRx rfl hs).decoding h
  | queueSendRaw blk buf => exact (sends_sameRx rfl hs).decoding h
  | queueSendDbuf blk buf => exact (sends_sameRx rfl hs).decoding h
  | flushSend => exact (sends_sameRx rfl hs).decoding h
  | writeBlock id data => exact (sends_sameRx rfl hs).decoding h
  | written n =>
    simp only [step, call, Res.state?_ok, Option.some.injEq] at hs
    have hses : ((written s n).session.map fun ses => (ses.id, ses.input)) =
        s.session.map fun ses => (ses.id, ses.input) := by
      simp [written, Function.comp_def]
    have hsame : SameRx s (written s n) := ⟨hses, rfl, rfl, rfl, rfl, rfl, rfl, rfl, rfl⟩
    exact hs ▸ hsame.decoding h

theorem decoding_init (tx rx : Finset UInt16) : Decoding rx (Psc.init tx rx : Psc E) := by
  refine ⟨nofun, nofun, ⟨fun id => ?_, rfl, fun id b hb => ?_⟩, nofun, fun sid _ => ?_,
    fun _ _ => rfl⟩
  · change (BlockMap.registered rx id).isSome = true ↔ _
    unfold BlockMap.registered
    split <;> simp [*]
  · change BlockMap.registered rx id = some b at hb
    unfold BlockMap.registered at hb
    split at hb
    · cases hb
      exact ⟨rfl, rfl, rfl⟩
    · cases hb
  · have hshort : ([] : List UInt8).length < (stages rx).need .head := Nat.zero_lt_succ 7
    change ((stages rx).decode .head []).1 = _
    rw [(stages rx).decode_short hshort]
    rfl

/-- A connection attempt that gives a session gives one at a header boundary, with nothing
    received. -/
theorem connect_restarts (h : Decoding rx s) {env : ConnEnv}
    (hs : (connect s env).state? = some s') {ses : Session E} (hses : s'.session = some ses) :
    s'.stream ses.id = [] ∧ bytes ses.input = [] ∧ s'.haveHead = false ∧
      s'.expect = headerSize := by
  obtain ⟨rfl, rfl⟩ := connect_session hs hses
  exact ⟨h.fresh _ (Nat.le_refl _), bytes_new, rfl, rfl⟩

end Steps

/-- What the received streams have done, and can do next, in a state. -/
structure Received (cfg : Config) (rx : Finset UInt16) (s : Psc E) : Prop where
  /-- every session did what the one-shot reading of its stream says -/
  events : ∀ sid, eventsOf s.rxlog sid = expected rx (parse (s.stream sid))
  /-- at a bad header the connection is torn down -/
  framing : ∀ sid, (parse (s.stream sid)).tail = .framing →
    ∀ ses, s.session = some ses → ses.id ≠ sid
  books : Booked rx s.rxlog s.recvBlocks s.ukncount
  /-- `recvdata` returns, whatever arrives -/
  total : s.connected = true → ∀ chunk env, ∃ t, step cfg s (.data chunk env) = some t ∧
    t.stream = (arrived s chunk).stream
  /-- a new connection starts at a header boundary -/
  restart : ∀ env t, (step cfg s (.connect env) = some t ∨ step cfg s (.reconnect env) = some t) →
    ∀ ses, t.session = some ses →
      t.stream ses.id = [] ∧ bytes ses.input = [] ∧ t.haveHead = false ∧ t.expect = headerSize

theorem Decoding.received (cfg : Config) {rx : Finset UInt16} {s : Psc E} (h : Decoding rx s) :
    Received cfg rx s := by
  refine ⟨fun sid => ?_, fun sid htail ses hses hid => ?_, h.booked, fun hc chunk env => ?_,
    fun env t ht ses hses => ?_⟩
  · rw [← h.events sid, (decode_parse rx _).1]
  · subst hid
    obtain ⟨_, st, _, hdec⟩ := h.current ses hses
    have hstop := (decode_parse rx (s.stream ses.id)).2.mpr htail
    rw [hdec] at hstop
    cases hstop
  · obtain ⟨t, ht, hstream, _⟩ := data_decoding h hc chunk env
    exact ⟨t, by rw [step, call, ht, Res.state?_ok], hstream⟩
  · rcases ht with ht | ht
    · exact connect_restarts h ht hses
    · exact connect_restarts h.stopTimer (reconnect_state ht) hses

/-- CHUNKING DOES NOT SHOW: in every run, however the streams are cut into callbacks, what each
    session did to the blocks is what the one-shot reading of its stream says. -/
theorem decoding_chunks (cfg : Config) (tx rx : Finset UInt16) (ops : List (Op E)) :
    Always (step cfg) (Received cfg rx) (Psc.init tx rx) ops :=
  always_of_step (fun _ _ _ h hs => decoding_step h hs) (fun _ h => h.received cfg)
    (decoding_init tx rx)

/-- Once connected, the driver receives a message for block 7 that is cut in its header and in its
    body. -/
def cutMessage : List (Op Chains) :=
  let env : Pscdrv.RxEnv := ⟨⟨5, 0⟩, fun _ _ => 0⟩
  [.connect ⟨true, true⟩, .event ⟨true, false, false, false, false, false, ""⟩,
    .data [80, 83, 0] env, .data [7, 0, 0, 0, 2, 8] env, .data [9] env]

/-- The body is stored when its last byte has come. -/
theorem decoding_chunks_cut : ∃ s, exec (step ⟨0⟩) (Psc.init ∅ {7}) cutMessage = some s ∧
    Received ⟨0⟩ {7} s ∧ s.stream 0 = header 7 2 ++ [8, 9] ∧
    eventsOf s.rxlog 0 = [.count 7, .store 7 [8, 9], .requestScan 7, .listeners 7] := by
  have hrun : (exec (step ⟨0⟩) (Psc.init ∅ {7}) cutMessage).map
      (fun s => (s.stream 0, eventsOf s.rxlog 0)) = some (header 7 2 ++ [8, 9],
        [.count 7, .store 7 [8, 9], .requestScan 7, .listeners 7]) := by
    decide +kernel
  obtain ⟨s, hs, hlog⟩ := Option.map_eq_some_iff.mp hrun
  obtain ⟨hstream, hevents⟩ := Prod.ext_iff.mp hlog
  exact ⟨s, hs, (decoding_chunks ⟨0⟩ ∅ {7} cutMessage).exec hs, hstream, hevents⟩

end Pscdrv.Tcp
