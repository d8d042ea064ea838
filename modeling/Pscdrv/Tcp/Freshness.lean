import Pscdrv.Tcp.Effects

/-! # Data, time and count of a receive block

    A record that reads a block takes its data and its time from the same message: the last one
    that was completely received, the `count`-th of its id. The driver sets the three at two places
    of its decoder, with the arrival of the body in between, and an empty body reaches only the
    first.

        header ──▶ rxtime, count ──╌╌ callbacks ╌╌──▶ body ──▶ data
                        └─ body of length 0: nothing more -/

namespace Pscdrv

open Libevent Run

variable {E : Type} [Libevent E]

/-- A message that was completely received, and when. -/
structure Message where
  id : UInt16
  body : List UInt8
  rxtime : EpicsTimeStamp

/-- The messages among `ms` for block `id`. -/
def messagesOf (ms : List Message) (id : UInt16) : List Message := ms.filter fun m => m.id = id

theorem messagesOf_append (a b : List Message) (id : UInt16) :
    messagesOf (a ++ b) id = messagesOf a id ++ messagesOf b id := List.filter_append ..

/-- The block holds the last of its messages `ms`. -/
structure Describes (ms : List Message) (b : Block E) : Prop where
  count : b.count = UInt32.ofNat ms.length
  data : b.data.mem = (ms.map Message.body).getLastD []
  rxtime : b.rxtime = (ms.map Message.rxtime).getLastD ⟨0, 0⟩

/-- If the last of the bodies is empty, so are the others, and `old` was empty before them. -/
def Stored (old : List UInt8) (bodies : List (List UInt8)) : Prop :=
  bodies.getLast? = some [] → old = [] ∧ ∀ b ∈ bodies, b = []

theorem getLastD_append {α : Type} (a b : List α) (old : α) :
    (a ++ b).getLastD old = b.getLastD (a.getLastD old) := by
  rw [List.getLastD_eq_getLast?, List.getLast?_append, Option.getD_or, List.getLastD_eq_getLast?,
    List.getLastD_eq_getLast?]

/-- The last of the bodies that are not empty is empty only if there is none. -/
theorem getLastD_nonempty {old : List UInt8} {bodies : List (List UInt8)}
    (h : (bodies.filter (· ≠ [])).getLastD old = []) : old = [] ∧ ∀ b ∈ bodies, b = [] := by
  have hnone : bodies.filter (· ≠ []) = [] := by
    by_contra hne
    rw [List.getLastD_eq_getLast?, List.getLast?_eq_some_getLast hne, Option.getD_some] at h
    have hmem := List.getLast_mem hne
    rw [h, List.mem_filter] at hmem
    simp at hmem
  rw [hnone] at h
  refine ⟨h, fun b hb => ?_⟩
  have hall := List.filter_eq_nil_iff.mp hnone b hb
  simpa using hall

/-- Just then passing over the empty bodies leads to the last one all the same. -/
theorem stored_iff (old : List UInt8) (bodies : List (List UInt8)) :
    Stored old bodies ↔
      (bodies.filter (· ≠ [])).getLastD old = bodies.getLastD old := by
  rcases List.eq_nil_or_concat bodies with rfl | ⟨pre, b, rfl⟩
  · simp [Stored]
  rw [Stored, List.concat_eq_append, List.getLast?_concat, List.getLastD_concat]
  by_cases hb : b = []
  · subst hb
    constructor
    · intro h
      obtain ⟨hold, hall⟩ := h rfl
      have hnone : (pre ++ [[]]).filter (· ≠ []) = [] :=
        List.filter_eq_nil_iff.mpr fun b hb => by simpa using hall b hb
      rw [hnone, List.getLastD_nil, hold]
    · exact fun h _ => getLastD_nonempty h
  · rw [List.filter_append, List.filter_cons_of_pos (by simpa using hb), List.filter_nil,
      List.getLastD_concat]
    simp [hb]

/-- From `b` to `b'` the block took the messages `ms`, but not the empty bodies. -/
structure Took (ms : List Message) (b b' : Block E) : Prop where
  count : b'.count = b.count + UInt32.ofNat ms.length
  data : b'.data.mem = ((ms.map Message.body).filter (· ≠ [])).getLastD b.data.mem
  rxtime : b'.rxtime = (ms.map Message.rxtime).getLastD b.rxtime

theorem Took.refl (b : Block E) : Took [] b b := ⟨(UInt32.add_zero _).symm, rfl, rfl⟩

theorem Took.trans {ms ms' : List Message} {b c d : Block E} (h : Took ms b c)
    (k : Took ms' c d) : Took (ms ++ ms') b d where
  count := by
    rw [k.count, h.count, List.length_append, UInt32.ofNat_add, UInt32.add_assoc]
  data := by
    rw [k.data, h.data, List.map_append, List.filter_append, getLastD_append]
  rxtime := by
    rw [k.rxtime, h.rxtime, List.map_append, getLastD_append]

/-- The block holds the last message again exactly if no empty body was passed over. -/
theorem Took.describes {ms new : List Message} {b b' : Block E} (h : Took new b b')
    (hb : Describes ms b) :
    Describes (ms ++ new) b' ↔ Stored b.data.mem (new.map Message.body) := by
  have hlast : ((ms ++ new).map Message.body).getLastD [] =
      (new.map Message.body).getLastD b.data.mem := by
    rw [List.map_append, getLastD_append, ← hb.data]
  rw [stored_iff, ← h.data, ← hlast]
  refine ⟨fun hd => hd.data, fun hd => ⟨?_, hd, ?_⟩⟩
  · rw [h.count, hb.count, List.length_append, UInt32.ofNat_add]
  · rw [h.rxtime, hb.rxtime, List.map_append, getLastD_append]

namespace Tcp

/-! ### What the decoder does to a block -/

section Replay

variable {rx : Finset UInt16} {env : RxEnv}

/-- The messages `ms`, read at the time of the callback. -/
def receivedAt (env : RxEnv) (ms : List (UInt16 × List UInt8)) : List Message :=
  ms.map fun m => ⟨m.1, m.2, env.now⟩

theorem replay_append (m : BlockMap E) (a b : List RxEv) :
    replay env m (a ++ b) = replay env (replay env m a) b := List.foldl_append

/-- The block an entry of the log is about. -/
def RxEv.block : RxEv → UInt16
  | .count id | .unknown id | .store id _ | .requestScan id | .listeners id => id

/-- The entries about other blocks do nothing to block `id`. -/
theorem replay_other {id : UInt16} {evs : List RxEv} (h : ∀ e ∈ evs, e.block ≠ id)
    (m : BlockMap E) : replay env m evs id = m id := by
  induction evs generalizing m with
  | nil => rfl
  | cons e evs ih =>
    have hne : id ≠ e.block := (h e List.mem_cons_self).symm
    refine (ih (fun e he => h e (List.mem_cons_of_mem _ he)) _).trans ?_
    cases e with
    | count k => exact BlockMap.modify_ne _ _ hne
    | unknown k => rfl
    | store k body => exact BlockMap.modify_ne _ _ hne
    | requestScan k => exact BlockMap.modify_ne _ _ hne
    | listeners k => rfl

theorem headEv_block (id : UInt16) : (headEv rx id).block = id := by
  unfold headEv
  split <;> rfl

theorem bodyEvs_block {id : UInt16} {body : List UInt8} {e : RxEv} (h : e ∈ bodyEvs rx id body) :
    e.block = id := by
  unfold bodyEvs at h
  split at h
  · simp only [List.mem_cons, List.not_mem_nil, or_false] at h
    rcases h with rfl | rfl | rfl <;> rfl
  · cases h

/-- One whole message. -/
theorem replay_message (env : RxEnv) (m : BlockMap E) (p : UInt16 × List UInt8) {id : UInt16}
    (hid : id ∈ rx) {b : Block E} (hb : m id = some b) :
    ∃ b', replay env m (headEv rx p.1 :: bodyEvs rx p.1 p.2) id = some b' ∧
      Took (messagesOf (receivedAt env [p]) id) b b' := by
  obtain ⟨k, body⟩ := p
  by_cases hk : k = id
  · subst hk
    have hone : messagesOf (receivedAt env [(k, body)]) k = [⟨k, body, env.now⟩] := by
      simp [messagesOf, receivedAt]
    have hcount := BlockMap.modify_some
      (fun b : Block E => { b with rxtime := env.now, count := b.count + 1 }) hb
    rw [hone, headEv, if_pos hid, bodyEvs]
    by_cases hbody : body = []
    · rw [if_neg (fun h => h.2 hbody), hbody]
      exact ⟨_, hcount, rfl, rfl, rfl⟩
    · have hstore := BlockMap.modify_some
        (fun b : Block E => { b with data := .assign body }) hcount
      have hscan := BlockMap.modify_some
        (fun b : Block E => b.requestScan (env.scanIoRequest k b.scanCount)) hstore
      rw [if_pos ⟨hid, hbody⟩]
      refine ⟨_, hscan, ?_, ?_, ?_⟩
      · rw [Block.requestScan_count]
        rfl
      · rw [Block.requestScan_data]
        simp [hbody]
      · rw [Block.requestScan_rxtime]
        rfl
  · have hnone : messagesOf (receivedAt env [(k, body)]) id = [] := by
      simp [messagesOf, receivedAt, hk]
    rw [hnone]
    refine ⟨b, (replay_other (fun e he => ?_) m).trans hb, .refl b⟩
    rcases List.mem_cons.mp he with rfl | he
    · rwa [headEv_block]
    · rwa [bodyEvs_block he]

/-- RUN: the messages of a callback, one after the other. -/
theorem replay_messages (env : RxEnv) (m : BlockMap E) (ps : List (UInt16 × List UInt8))
    {id : UInt16} (hid : id ∈ rx) {b : Block E} (hb : m id = some b) :
    ∃ b', replay env m (ps.flatMap fun p => headEv rx p.1 :: bodyEvs rx p.1 p.2) id = some b' ∧
      Took (messagesOf (receivedAt env ps) id) b b' := by
  induction ps generalizing m b with
  | nil => exact ⟨b, hb, .refl b⟩
  | cons p ps ih =>
    obtain ⟨c, hc, htook⟩ := replay_message env m p hid hb
    obtain ⟨d, hd, hmore⟩ := ih _ hc
    refine ⟨d, by rw [List.flatMap_cons, replay_append, hd], ?_⟩
    have hboth : messagesOf (receivedAt env (p :: ps)) id = _ :=
      messagesOf_append (receivedAt env [p]) (receivedAt env ps) id
    rw [hboth]
    exact htook.trans hmore

end Replay

/-! ### A callback -/

/-- The tail of a stream that leaves the decoder at a stage. -/
def Stage.tail : Stage → Tail
  | .head => .header
  | .body id len _ => .body id len

theorem decode_tail (rx : Finset UInt16) {l left : List UInt8} {st : Stage}
    (h : ((stages rx).decode .head l).2 = some (st, left)) : (parse l).tail = st.tail := by
  fun_induction parse l with
  | case1 l hshort =>
    rw [(stages rx).decode_short hshort] at h
    cases h
    rfl
  | case2 l hlong hps =>
    have hstop := (decode_parse rx l).2.mpr (by rw [parse_framing (by omega) hps])
    rw [hstop] at h
    cases h
  | case3 l hlong hps len hb =>
    have hpos : 0 < len := by omega
    rw [(stages rx).decode_go (s := .head) (Nat.le_of_not_lt hlong)
      (next_head rx (by simpa using hps)), afterHead, dif_pos hpos,
      (stages rx).decode_short hb] at h
    cases h
    rfl
  | case4 l hlong hps len hb r ih =>
    rw [decode_msg rx (by omega) (by simpa using hps) (by omega)] at h
    exact ih h

/-- The entries of a header whose body is still to come. -/
def tailEvs (rx : Finset UInt16) : Tail → List RxEv
  | .body id _ => [headEv rx id]
  | _ => []

/-- The stream ends inside no body of a registered message. -/
def Closed (rx : Finset UInt16) (l : List UInt8) : Prop :=
  ∀ id len, (parse l).tail = .body id len → id ∉ rx

theorem replay_tailEvs {rx : Finset UInt16} {env : RxEnv} {l : List UInt8} (h : Closed rx l)
    (m : BlockMap E) : replay env m (tailEvs rx (parse l).tail) = m := by
  cases ht : (parse l).tail with
  | header => rfl
  | framing => rfl
  | body id len =>
    rw [tailEvs, headEv, if_neg (h id len ht)]
    rfl

/-- The messages that `chunk`, appended to the stream `l`, completes. -/
def completed (l chunk : List UInt8) : List (UInt16 × List UInt8) :=
  (parse (l ++ chunk)).msgs.drop (parse l).msgs.length

theorem msgs_append (l chunk : List UInt8) :
    (parse (l ++ chunk)).msgs = (parse l).msgs ++ completed l chunk :=
  (List.prefix_iff_eq_append.mp (parse_extends l chunk)).symm

/-- What a chunk asks of the decoder: the body it waited for, the new messages, and perhaps a header
    without its body. -/
theorem expected_append (rx : Finset UInt16) {l chunk : List UInt8} {out : List RxEv}
    (h : expected rx (parse (l ++ chunk)) = expected rx (parse l) ++ out) :
    tailEvs rx (parse l).tail ++ out =
      ((completed l chunk).flatMap fun p => headEv rx p.1 :: bodyEvs rx p.1 p.2) ++
        tailEvs rx (parse (l ++ chunk)).tail := by
  have hexp : ∀ p, expected rx p =
      (p.msgs.flatMap fun m => headEv rx m.1 :: bodyEvs rx m.1 m.2) ++ tailEvs rx p.tail := by
    rintro ⟨ms, tail⟩
    cases tail <;> rfl
  rw [hexp, hexp, msgs_append, List.flatMap_append, List.append_assoc, List.append_assoc] at h
  exact (List.append_cancel_left h).symm

section Callback

variable {rx : Finset UInt16} {s : Psc E} {ses : Session E}

/-- The decoder does not wait for the body of a registered message. -/
def Between (s : Psc E) : Prop :=
  s.session.isSome = true → s.haveHead = true → s.bodyblock = none

theorem between_iff (hses : s.session = some ses) {st : Stage} {l left : List UInt8}
    (hst : AtStage rx s st) (hdec : ((stages rx).decode .head l).2 = some (st, left)) :
    Between s ↔ Closed rx l := by
  rw [Between, Closed, decode_tail rx hdec, hses]
  cases st with
  | head =>
    refine ⟨fun _ _ _ ht => ?_, fun _ _ hh => ?_⟩
    · cases ht
    · simp [hst.1] at hh
  | body id len pos =>
    obtain ⟨hh, _, _, hblk⟩ := hst
    constructor
    · intro h _ _ ht hid
      cases ht
      rw [if_pos hid, h rfl hh] at hblk
      cases hblk
    · intro h _ _
      rw [hblk, if_neg (h id len rfl)]

/-- The log of a callback is the output of the decoder. -/
theorem Decodes.log {t : Psc E} {sid : ℕ} :
    ∀ {r : List RxEv × Option (Stage × List UInt8)}, Decodes rx s t sid r →
      t.rxlog = s.rxlog ++ r.1.map fun e => (sid, e)
  | (_, some (_, _)), h => h.toLogged.log
  | (_, none), h => h.toLogged.log

/-- STEP: what a callback does to the blocks. -/
theorem data_replays (cfg : Config) (hd : Decoding rx s) (hb : Between s)
    (hc : s.connected = true) (hses : s.session = some ses) (chunk : List UInt8) (env : RxEnv) :
    ∃ t, step cfg s (.data chunk env) = some t ∧
      (Closed rx (s.stream ses.id ++ chunk) → Between t) ∧
      t.recvBlocks.flat = replay env s.recvBlocks.flat
        (((completed (s.stream ses.id) chunk).flatMap fun p =>
            headEv rx p.1 :: bodyEvs rx p.1 p.2) ++
          tailEvs rx (parse (s.stream ses.id ++ chunk)).tail) := by
  obtain ⟨_, st, hst, hdec⟩ := hd.current ses hses
  have hstream : Closed rx (s.stream ses.id) := (between_iff hses hst (by rw [hdec])).mp hb
  have hstage : AtStage rx (arrived s chunk) st := by
    rw [arrived_eq hses]
    cases st <;> exact hst
  have hses₁ : (arrived s chunk).session = some { ses with input := arrive ses.input chunk } := by
    rw [arrived_eq hses]
  obtain ⟨t, ht, hrun⟩ := recvLoop_decodes env hses₁
    (by rw [arrived_eq hses]; exact hd.idle (hd.linked hc)) hstage
    (by rw [arrived_eq hses]; exact hd.booked)
  obtain ⟨t', out, ht', hrep, -, -⟩ := recvLoop_sim env (.refl _) hses₁ ht
  cases ht.symm.trans ht'
  have hstep : step cfg s (.data chunk env) = some t := by
    rw [step, call, recvdata, if_pos (by rw [arrived_eq hses]; simpa using hc), ht, Res.state?_ok]
  have hall := (stages rx).decode_append .head (s.stream ses.id) chunk
  rw [hdec] at hall
  rw [bytes_arrive] at hrun
  have hout : ((stages rx).decode st (bytes ses.input ++ chunk)).1 = out :=
    List.map_injective_iff.mpr (Prod.mk_right_injective _)
      (List.append_cancel_left (hrun.log.symm.trans hrep.log))
  have hend : ((stages rx).decode .head (s.stream ses.id ++ chunk)).2 =
      ((stages rx).decode st (bytes ses.input ++ chunk)).2 := by
    rw [hall]
    rfl
  refine ⟨t, hstep, fun hw => ?_, ?_⟩
  · rcases hr : (stages rx).decode st (bytes ses.input ++ chunk) with ⟨o, _ | ⟨st', left⟩⟩
    · rw [hr] at hrun
      have htorn : Torn rx _ t ses.id o := hrun
      intro hsome
      simp [htorn.session] at hsome
    · rw [hr] at hrun hend
      have hwent : Went rx _ t ses.id o st' left := hrun
      obtain ⟨ses', hses', -, -⟩ := hwent.session
      exact (between_iff hses' hwent.stage hend).mpr hw
  · have hevs : expected rx (parse (s.stream ses.id ++ chunk)) =
        expected rx (parse (s.stream ses.id)) ++ out := by
      rw [← (decode_parse rx _).1, ← (decode_parse rx _).1, hall, hdec, ← hout]
      rfl
    rw [← expected_append rx hevs, replay_append, replay_tailEvs hstream, hrep.blocks,
      arrived_eq hses]

/-- What became of one block: it took the new messages, and the count of a header that has no body
    yet. -/
theorem replay_block {m m' : BlockMap E} {env : RxEnv} {ps : List (UInt16 × List UInt8)}
    {tail : Tail} (h : m'.flat = replay env m.flat
      ((ps.flatMap fun p => headEv rx p.1 :: bodyEvs rx p.1 p.2) ++ tailEvs rx tail))
    {id : UInt16} (hid : id ∈ rx) {b : Block E} (hb : m id = some b) :
    ∃ b', m' id = some b' ∧
      ((∀ len, tail ≠ .body id len) → Took (messagesOf (receivedAt env ps) id) b b') ∧
      ((∃ len, tail = .body id len) →
        b'.count = b.count + UInt32.ofNat (messagesOf (receivedAt env ps) id).length + 1) := by
  have hflat : m.flat id = some b.flat := by rw [BlockMap.flat, BlockMap.map, hb, Option.map_some]
  obtain ⟨c, hc, htook⟩ := replay_messages env m.flat ps hid hflat
  have hone : (m' id).map Block.flat = _ := congrFun h id
  rw [replay_append] at hone
  by_cases hopen : ∃ len, tail = .body id len
  · obtain ⟨len, rfl⟩ := hopen
    have hcount := BlockMap.modify_some
      (fun b : Block E => { b with rxtime := env.now, count := b.count + 1 }) hc
    rw [tailEvs, headEv, if_pos hid] at hone
    obtain ⟨b', hb', heq⟩ := Option.map_eq_some_iff.mp (hone.trans hcount)
    refine ⟨b', hb', fun hne => absurd rfl (hne len), fun _ => ?_⟩
    have hcounts : b'.count = c.count + 1 := congrArg (fun b => b.count) heq
    rw [hcounts, htook.count]
    rfl
  · have hother : ∀ e ∈ tailEvs rx tail, e.block ≠ id := by
      intro e he hk
      cases tail with
      | header => cases he
      | framing => cases he
      | body k len =>
        rw [tailEvs, List.mem_singleton] at he
        rw [he, headEv_block] at hk
        exact hopen ⟨len, by rw [hk]⟩
    rw [replay_other hother, hc] at hone
    obtain ⟨b', hb', rfl⟩ := Option.map_eq_some_iff.mp hone
    exact ⟨b', hb', fun _ => ⟨htook.count, htook.data, htook.rxtime⟩,
      fun ho => absurd ho hopen⟩

end Callback

/-! ### Runs -/

/-- The driver, and the messages it has completely received so far. -/
structure History (E : Type) [Libevent E] extends Psc E where
  messages : List Message

def History.init (tx rx : Finset UInt16) : History E := ⟨.init tx rx, []⟩

/-- The messages that are complete with a call. -/
def arrivals (s : Psc E) : Op E → List Message
  | .data chunk env =>
    match s.session with
    | some ses => receivedAt env (completed (s.stream ses.id) chunk)
    | none => []
  | _ => []

def historyStep (cfg : Config) (s : History E) (op : Op E) : Option (History E) :=
  (step cfg s.toPsc op).map fun t => ⟨t, s.messages ++ arrivals s.toPsc op⟩

/-- Every block holds the data, the time and the count of the last message of its id. -/
def Fresh (s : History E) : Prop :=
  ∀ id b, s.recvBlocks id = some b → Describes (messagesOf s.messages id) b

/-- A callback ends inside no body of a registered message, and for no block is an empty body the
    last one while the block holds, or was given, another. -/
def Prompt (rx : Finset UInt16) (s : History E) : Op E → Prop
  | .data chunk env => ∀ ses, s.session = some ses → Closed rx (s.stream ses.id ++ chunk) ∧
      ∀ id b, s.recvBlocks id = some b →
        Stored b.data.mem ((messagesOf (arrivals s.toPsc (.data chunk env)) id).map Message.body)
  | _ => True

structure FreshInv (rx : Finset UInt16) (s : History E) : Prop where
  decoding : Decoding rx s.toPsc
  between : Between s.toPsc
  fresh : Fresh s

section Runs

variable {rx : Finset UInt16} {cfg : Config} {s s' : History E}

/-- STEP: a callback leaves every block with its last message exactly if the condition is met. -/
theorem data_fresh (h : FreshInv rx s) {chunk : List UInt8} {env : RxEnv}
    (hs : historyStep cfg s (.data chunk env) = some s') :
    (Fresh s' ↔ Prompt rx s (.data chunk env)) ∧
      (Prompt rx s (.data chunk env) → Between s'.toPsc) := by
  obtain ⟨t, ht, rfl⟩ := Option.map_eq_some_iff.mp hs
  have hc : s.connected = true := connected_of_data ht
  obtain ⟨ses, hses⟩ := Option.isSome_iff_exists.mp (h.decoding.linked hc)
  obtain ⟨t', ht', hbetween, hblocks⟩ :=
    data_replays cfg h.decoding h.between hc hses chunk env
  cases ht.symm.trans ht'
  have harr : arrivals s.toPsc (.data chunk env) =
      receivedAt env (completed (s.stream ses.id) chunk) := by
    rw [arrivals, hses]
  have hafter : ∀ id, messagesOf (s.messages ++ arrivals s.toPsc (.data chunk env)) id =
      messagesOf s.messages id ++
        messagesOf (receivedAt env (completed (s.stream ses.id) chunk)) id := fun id => by
    rw [messagesOf_append, harr]
  -- a block that is not counted for an open message took the new ones
  have htook : ∀ {id b}, Closed rx (s.stream ses.id ++ chunk) → s.recvBlocks id = some b →
      ∃ b', t.recvBlocks id = some b' ∧
        (Describes (messagesOf (s.messages ++ arrivals s.toPsc (.data chunk env)) id) b' ↔
          Stored b.data.mem
            ((messagesOf (arrivals s.toPsc (.data chunk env)) id).map Message.body)) := by
    intro id b hw hb
    have hid : id ∈ rx := (h.decoding.booked.known id).mp (by rw [hb]; rfl)
    obtain ⟨b', hb', hclosed, -⟩ := replay_block hblocks hid hb
    rw [hafter, harr]
    exact ⟨b', hb', (hclosed fun len htail => hw id len htail hid).describes (h.fresh id b hb)⟩
  refine ⟨⟨fun hf ses' hses' => ?_, fun hp id b' hb' => ?_⟩, fun hp => hbetween (hp ses hses).1⟩
  · cases hses.symm.trans hses'
    have hw : Closed rx (s.stream ses.id ++ chunk) := by
      intro id len htail hid
      obtain ⟨b, hb⟩ := Option.isSome_iff_exists.mp ((h.decoding.booked.known id).mpr hid)
      obtain ⟨b', hb', -, hopen⟩ := replay_block hblocks hid hb
      have hcount := (hf id b' hb').count
      rw [hopen ⟨len, htail⟩, hafter, List.length_append, UInt32.ofNat_add,
        ← (h.fresh id b hb).count] at hcount
      simp at hcount
    refine ⟨hw, fun id b hb => ?_⟩
    obtain ⟨b', hb', hiff⟩ := htook hw hb
    exact hiff.mp (hf id b' hb')
  · obtain ⟨hw, hstored⟩ := hp ses hses
    have hid : id ∈ rx :=
      ((decoding_step h.decoding ht).booked.known id).mp (by rw [hb']; rfl)
    obtain ⟨b, hb⟩ := Option.isSome_iff_exists.mp ((h.decoding.booked.known id).mpr hid)
    obtain ⟨c, hc, hiff⟩ := htook hw hb
    cases hb'.symm.trans hc
    exact hiff.mpr (hstored id b hb)

/-- A call that is no data callback leaves the receive blocks alone and the decoder between two
    messages. -/
structure Quiet (s t : Psc E) : Prop where
  recvBlocks : t.recvBlocks = s.recvBlocks
  between : Between s → Between t

theorem SameRx.quiet {s t : Psc E} (h : SameRx s t) : Quiet s t := by
  refine ⟨h.recvBlocks, fun hb hsome hhead => ?_⟩
  have hsome' : s.session.isSome = true := by
    have heq := congrArg Option.isSome h.session
    simpa [hsome] using heq.symm
  have hdec := h.decoder
  simp only [Prod.mk.injEq] at hdec
  rw [hdec.2.2.1]
  exact hb hsome' (hdec.1 ▸ hhead)

theorem connect_quiet {s t : Psc E} {env : ConnEnv} (h : (connect s env).state? = some t) :
    Quiet s t := by
  rcases connect_cases h with ⟨-, -, u, rfl, rfl | rfl | rfl⟩
  · exact ⟨rfl, fun _ _ _ => rfl⟩
  · exact ⟨rfl, fun _ _ _ => rfl⟩
  · exact ⟨rfl, fun _ _ _ => rfl⟩

theorem startReconnect_quiet {s t : Psc E} (h : (startReconnect s).state? = some t) :
    Quiet s t := by
  rw [startReconnect_state h]
  exact ⟨rfl, fun _ => nofun⟩

/-- STEP: every call but the data callback. -/
theorem step_quiet {s t : Psc E} {op : Op E} (hop : ∀ chunk env, op ≠ .data chunk env)
    (h : step cfg s op = some t) : Quiet s t := by
  by_cases hsends : op.sends = true
  · exact (sends_sameRx hsends h).quiet
  cases op with
  | connect env => exact connect_quiet h
  | event ev =>
    rcases eventcb_state h with ⟨-, rfl⟩ | rfl | ⟨u, hu, msg, rfl⟩
    · exact ⟨rfl, id⟩
    · exact ⟨rfl, id⟩
    · have hquiet := startReconnect_quiet hu
      exact ⟨hquiet.recvBlocks, hquiet.between⟩
  | reconnect env =>
    have hquiet := connect_quiet (reconnect_state h)
    exact ⟨hquiet.recvBlocks, hquiet.between⟩
  | forceReConnect =>
    rcases forceReConnect_state h with rfl | hr
    · exact ⟨rfl, id⟩
    · exact startReconnect_quiet hr
  | data chunk env => exact absurd rfl (hop chunk env)
  | written n =>
    rw [step, call, Res.state?_ok, Option.some.injEq] at h
    subst h
    refine ⟨rfl, fun hb hsome hhead => hb ?_ hhead⟩
    rwa [written, Option.isSome_map] at hsome
  | send id => exact absurd rfl hsends
  | writeLoSendBlock val => exact absurd rfl hsends
  | queueSendId id buf => exact absurd rfl hsends
  | queueSendRaw blk buf => exact absurd rfl hsends
  | queueSendDbuf blk buf => exact absurd rfl hsends
  | flushSend => exact absurd rfl hsends
  | writeBlock id data => exact absurd rfl hsends

/-- STEP: the invariant is kept by a call that meets the condition. -/
theorem freshInv_step {op : Op E} (h : FreshInv rx s) (hp : Prompt rx s op)
    (hs : historyStep cfg s op = some s') : FreshInv rx s' := by
  obtain ⟨t, ht, heq⟩ := Option.map_eq_some_iff.mp hs
  have hdec : Decoding rx s'.toPsc := by
    rw [← heq]
    exact decoding_step h.decoding ht
  by_cases hdata : ∃ chunk env, op = .data chunk env
  · obtain ⟨chunk, env, rfl⟩ := hdata
    obtain ⟨hiff, hbetween⟩ := data_fresh h hs
    exact ⟨hdec, hbetween hp, hiff.mpr hp⟩
  · push Not at hdata
    obtain ⟨hblocks, hbetween⟩ := step_quiet hdata ht
    have hnone : arrivals s.toPsc op = [] := by
      unfold arrivals
      split
      · exact absurd rfl (hdata _ _)
      · rfl
    rw [hnone, List.append_nil] at heq
    subst heq
    refine ⟨hdec, hbetween h.between, fun id b hb => h.fresh id b ?_⟩
    rw [← hblocks]
    exact hb

theorem freshInv_init (tx : Finset UInt16) : FreshInv rx (History.init tx rx : History E) := by
  refine ⟨decoding_init tx rx, nofun, fun id b hb => ?_⟩
  change BlockMap.registered rx id = some b at hb
  unfold BlockMap.registered at hb
  split at hb
  · cases hb
    exact ⟨rfl, rfl, rfl⟩
  · cases hb

/-- EXACTNESS: whenever the lock is free every receive block holds the data, the time and the count
    of one message, the last one completely received, if and only if no callback ends inside a body
    that is to be stored and no empty body follows another one. -/
theorem blocks_fresh (cfg : Config) (tx rx : Finset UInt16) (ops : List (Op E)) :
    Always (historyStep cfg) Fresh (History.init tx rx) ops ↔
      Along (historyStep cfg) (Prompt rx) (History.init tx rx) ops := by
  refine always_iff_along (fun _ _ _ h hp hs => freshInv_step h hp hs) (fun _ h => h.fresh)
    (fun s op s' h hs hf => ?_) (freshInv_init tx)
  by_cases hdata : ∃ chunk env, op = .data chunk env
  · obtain ⟨chunk, env, rfl⟩ := hdata
    exact (data_fresh h hs).1.mp hf
  · unfold Prompt
    split
    · exact absurd ⟨_, _, rfl⟩ hdata
    · trivial

end Runs

/-- Connected, with one receive block. -/
def upHistory : History Chains :=
  ⟨{ Psc.init ∅ {1} with
      connected := true, conncount := 1, message := "Connected", nsession := 1
      session := some ⟨0, new, new, headerSize, minMaxBufSize⟩ }, []⟩

theorem upHistory_reached : exec (historyStep ⟨0⟩) (History.init ∅ {1})
    [.connect ⟨true, true⟩, .event ⟨true, false, false, false, false, false, ""⟩] =
      some upHistory := rfl

theorem upHistory_inv : FreshInv {1} upHistory := by
  obtain ⟨s, hs, ht⟩ := exec_cons_some _ upHistory_reached
  obtain ⟨t, ht, heq⟩ := exec_cons_some _ ht
  cases heq
  have hconnect : FreshInv {1} s := freshInv_step (freshInv_init ∅) (by trivial) hs
  exact freshInv_step hconnect (by trivial) ht

/-- The header of a message with one byte: the block counts a message that has not come. -/
theorem header_outruns_body : ∃ t b, exec (historyStep ⟨0⟩) (History.init ∅ {1} : History Chains)
      [.connect ⟨true, true⟩, .event ⟨true, false, false, false, false, false, ""⟩,
        .data (header 1 1) ⟨⟨5, 0⟩, fun _ _ => 0⟩] = some t ∧
    t.messages = [] ∧ t.recvBlocks 1 = some b ∧ b.count = 1 ∧ ¬ Fresh t := by
  have hparse : parse (header 1 1) = ⟨[], .body 1 1⟩ :=
    parse_open (by decide) (by decide) (by decide)
  have hnone : completed [] (header 1 1) = [] := by
    rw [completed, List.nil_append, hparse, List.drop_nil]
  obtain ⟨t, ht, -, hblocks⟩ := data_replays ⟨0⟩ upHistory_inv.decoding upHistory_inv.between
    rfl rfl (header 1 1) ⟨⟨5, 0⟩, fun _ _ => 0⟩
  obtain ⟨b, hb, -, hopen⟩ := replay_block hblocks (Finset.mem_singleton_self 1) (b := .new) rfl
  have hcount := hopen ⟨1, congrArg Parsed.tail hparse⟩
  change b.count = 0 + UInt32.ofNat (messagesOf (receivedAt _ (completed [] _)) 1).length + 1
    at hcount
  rw [hnone] at hcount
  have hstep : historyStep ⟨0⟩ upHistory (.data (header 1 1) ⟨⟨5, 0⟩, fun _ _ => 0⟩) =
      some ⟨t, []⟩ := by
    have harr : arrivals upHistory.toPsc (.data (header 1 1) ⟨⟨5, 0⟩, fun _ _ => 0⟩) = [] := by
      change receivedAt _ (completed [] _) = []
      rw [hnone]
      rfl
    rw [historyStep, ht, Option.map_some, harr]
    rfl
  refine ⟨⟨t, []⟩, b, ?_, rfl, hb, hcount, fun hf => ?_⟩
  · exact exec_trans _ upHistory_reached (by rw [exec, hstep]; rfl)
  · have hprompt := (data_fresh upHistory_inv hstep).1.mp hf _ rfl
    exact hprompt.1 1 1 (congrArg Parsed.tail hparse) (Finset.mem_singleton_self 1)

end Tcp

end Pscdrv
