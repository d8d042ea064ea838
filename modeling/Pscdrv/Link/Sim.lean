import Pscdrv.Tcp.Outgoing

/-! # The simulator `pscsim.py`

    For each TCP client the simulator runs `handle_tcp_client`, which says hello with two messages
    and then answers every message, and `tcp_keepalive`, which sends another one every second. The
    two are coroutines of one event loop: each goes on without a break up to its next `await`, and a
    `writer.write()` is never split. The field `said` is not in the source: it records the messages
    that were written and why.

        start ──hello──▶ header ──8 bytes──▶ body ──blen bytes──▶ header
                           │                  │    answer
                           └── not PS, end ───┴── end, answer out of range ──▶ done -/

namespace Pscdrv.Sim

open BigEndian Channel Tcp

/-- `int(SEC)` and `int(NS*1e9)` of `divmod(time.time(), 1.0)`. -/
structure Time where
  sec : UInt32
  ns : UInt32

/-- A body with the time in front of it, for the ids from 1000 on. -/
def echoBody (m : Msg) (now : Time) : List UInt8 :=
  if 1000 ≤ m.1.toNat then be 4 now.sec.toNat ++ be 4 now.ns.toNat ++ m.2 else m.2

/-- `build_msg(msgid, body)` of the answer does not raise: `struct.pack('>2sHI')` takes an id of 16
    and a length of 32 bits. -/
def Answerable (m : Msg) (now : Time) : Prop :=
  m.1.toNat + 10 < 2 ^ 16 ∧ (echoBody m now).length < 2 ^ 32

instance (m : Msg) (now : Time) : Decidable (Answerable m now) :=
  inferInstanceAs (Decidable (_ ∧ _))

/-- Why a message was written. -/
inductive Said where
  | hello (second : Bool)
  | ping
  | answer (m : Msg) (now : Time)

/-- The message that was written; an answer has another id, `msgid + 10`. -/
def Said.msg : Said → Msg
  | .hello false => (100, [0, 0, 0x12, 0x34, 0, 0, 0, 0x2a])
  | .hello true => (100, [0, 0, 0x12, 0x3e, 0, 0, 0, 0x2b])
  | .ping => (42, "hello world!".toList.map Char.toUInt8)
  | .answer m now => (UInt16.ofNat (m.1.toNat + 10), echoBody m now)

/-- The message that was answered. -/
def Said.question : Said → Option Msg
  | .answer m _ => some m
  | _ => none

/-- Where `handle_tcp_client` waits. -/
inductive Phase where
  | start
  /-- `readexactly(8)` -/
  | header
  /-- `readexactly(blen)` -/
  | body (msgid : UInt16) (blen : ℕ)
  | done
  deriving DecidableEq

/-- A client: the bytes in the stream reader, whether the peer has closed, the bytes given to the
    stream writer. -/
structure Client where
  reader : List UInt8
  eof : Bool
  phase : Phase
  writer : List UInt8
  said : List Said

def Client.init : Client := ⟨[], false, .start, [], []⟩

/-- `writer.write(build_msg(…))` -/
def Client.write (c : Client) (x : Said) : Client :=
  { c with writer := c.writer ++ msgBytes x.msg, said := c.said ++ [x] }

/-- What happens to a client. -/
inductive Op where
  /-- the coroutine starts -/
  | hello
  /-- bytes arrive -/
  | arrive (chunk : List UInt8)
  | close
  /-- `handle_tcp_client` goes on -/
  | turn (now : Time)
  /-- `tcp_keepalive` goes on -/
  | ping

/-- `handle_tcp_client` behind `readexactly(8)`. -/
def gotHeader (c : Client) : Client :=
  let h := c.reader.take headerSize
  let c := { c with reader := c.reader.drop headerSize }
  if isPS h then { c with phase := .body (msgidOf h) (bodylenOf h).toNat }
  else { c with phase := .done }

/-- `handle_tcp_client` behind `readexactly(blen)`. -/
def gotBody (c : Client) (msgid : UInt16) (blen : ℕ) (now : Time) : Client :=
  let m : Msg := (msgid, c.reader.take blen)
  let c := { c with reader := c.reader.drop blen }
  if Answerable m now then { c.write (.answer m now) with phase := .header }
  else { c with phase := .done }

/-- `readexactly(n)` has its bytes, or raises at the end of the stream, or goes on waiting. -/
def readexactly (c : Client) (n : ℕ) (k : Client → Client) : Option Client :=
  if n ≤ c.reader.length then some (k c)
  else if c.eof then some { c with phase := .done }
  else none

/-- `none` when this cannot happen now. -/
def step (c : Client) : Op → Option Client
  | .hello =>
    if c.phase = .start then
      some { (c.write (.hello false)).write (.hello true) with phase := .header }
    else none
  | .arrive chunk => if c.eof then none else some { c with reader := c.reader ++ chunk }
  | .close => some { c with eof := true }
  | .turn now =>
    match c.phase with
    | .header => readexactly c headerSize gotHeader
    | .body msgid blen => readexactly c blen fun c => gotBody c msgid blen now
    | _ => none
  | .ping =>
    match c.phase with
    | .header | .body .. => some (c.write .ping)
    | _ => none

/-! ### What a client has answered -/

/-- Which messages have been answered when `got` has arrived, of a stream of the messages `ms`, and
    where the next one is read. -/
def Place (ms : List Msg) (got : List UInt8) (c : Client) (j : ℕ) : Prop :=
  match c.phase with
  | .start => j = 0 ∧ got = c.reader
  | .header => got = wire msgBytes (ms.take j) ++ c.reader
  | .body msgid blen => ∃ body, ms[j]? = some (msgid, body) ∧ blen = body.length ∧
      got = wire msgBytes (ms.take j) ++ header msgid (UInt32.ofNat blen) ++ c.reader
  | .done => c.eof = true ∨ ∃ m now, ms[j]? = some m ∧ ¬ Answerable m now

/-- The first `j` messages have been answered, each once and in order, and what was written are
    whole messages. -/
structure Answers (ms : List Msg) (got : List UInt8) (c : Client) (j : ℕ) : Prop where
  le : j ≤ ms.length
  questions : c.said.filterMap Said.question = ms.take j
  writer : c.writer = wire msgBytes (c.said.map Said.msg)
  lt : ∀ x ∈ c.said, x.msg.2.length < 2 ^ 32
  place : Place ms got c j

theorem answers_init : Answers [] [] .init 0 :=
  ⟨Nat.le_refl _, rfl, rfl, List.forall_mem_nil _, rfl, rfl⟩

section Steps

variable {ms ms' : List Msg} {got : List UInt8} {c d : Client} {j : ℕ}

/-- More messages on the stream do not change what has been answered. -/
theorem Answers.mono (h : Answers ms got c j) (hpre : ms <+: ms') : Answers ms' got c j := by
  obtain ⟨more, rfl⟩ := hpre
  have htake : (ms ++ more).take j = ms.take j := List.take_append_of_le_length h.le
  have hget : ∀ m, ms[j]? = some m → (ms ++ more)[j]? = some m := fun m hm => by
    rw [List.getElem?_append_left (List.getElem?_eq_some_iff.mp hm).1, hm]
  have hplace := h.place
  refine ⟨by rw [List.length_append]; exact Nat.le_add_right_of_le h.le,
    htake ▸ h.questions, h.writer, h.lt, ?_⟩
  unfold Place at hplace ⊢
  cases hp : c.phase with
  | start =>
    rw [hp] at hplace
    exact hplace
  | header =>
    rw [hp] at hplace
    exact htake ▸ hplace
  | body msgid blen =>
    rw [hp] at hplace
    obtain ⟨body, hbody, hlen, hgot⟩ := hplace
    exact ⟨body, hget _ hbody, hlen, htake ▸ hgot⟩
  | done =>
    rw [hp] at hplace
    exact hplace.imp_right fun ⟨m, now, hm, hno⟩ => ⟨m, now, hget m hm, hno⟩

/-- STEP (writing): something is said that is no answer. -/
theorem Answers.write (h : Answers ms got c j) {x : Said} (hx : x.question = none)
    (hlt : x.msg.2.length < 2 ^ 32) : Answers ms got (c.write x) j where
  le := h.le
  questions := by
    change (c.said ++ [x]).filterMap Said.question = _
    rw [List.filterMap_append, h.questions, List.filterMap_cons_none hx, List.filterMap_nil,
      List.append_nil]
  writer := by
    change c.writer ++ msgBytes x.msg = wire msgBytes ((c.said ++ [x]).map Said.msg)
    rw [List.map_append, wire_append, h.writer]
    simp
  lt := List.forall_mem_append.mpr ⟨h.lt, List.forall_mem_singleton.mpr hlt⟩
  place := h.place

/-- Another place, with nothing said. -/
theorem Answers.move (h : Answers ms got c j) {got' : List UInt8} (hp : Place ms got' d j)
    (hw : d.writer = c.writer) (hs : d.said = c.said) : Answers ms got' d j :=
  ⟨h.le, hs ▸ h.questions, hw ▸ hs ▸ h.writer, hs ▸ h.lt, hp⟩

/-- STEP (`readexactly(8)`): the header of the next message. -/
theorem gotHeader_answers (h : Answers ms got c j) (hms : ∀ m ∈ ms, m.2.length < 2 ^ 32)
    (hgot : got <+: wire msgBytes ms) (hp : c.phase = .header)
    (hlen : headerSize ≤ c.reader.length) : Answers ms got (gotHeader c) j := by
  have hplace := h.place
  rw [Place, hp] at hplace
  dsimp only at hplace
  have hrest : c.reader <+: wire msgBytes (ms.drop j) := by
    rw [hplace] at hgot
    rw [wire_take_drop msgBytes ms j] at hgot
    exact (List.prefix_append_right_inj _).mp hgot
  cases hdrop : ms.drop j with
  | nil =>
    rw [hdrop] at hrest
    rw [List.prefix_nil.mp hrest] at hlen
    exact absurd hlen (by decide)
  | cons m rest =>
    rw [hdrop, wire_cons] at hrest
    have hm : ms[j]? = some m := by
      have hhead : (ms.drop j)[0]? = some m := by rw [hdrop]; rfl
      rwa [List.getElem?_drop] at hhead
    have hlt : m.2.length < 2 ^ 32 := hms m (List.mem_of_getElem? hm)
    rw [msgBytes, List.append_assoc] at hrest
    obtain ⟨hps, hid, hbl, hreader⟩ := header_of_prefix hrest hlen
    have hstep : gotHeader c =
        { c with reader := c.reader.drop headerSize, phase := .body m.1 m.2.length } := by
      rw [gotHeader, msgidOf_take, bodylenOf_take, isPS_take, hid, hbl, UInt32.toNat_ofNat',
        Nat.mod_eq_of_lt hlt]
      exact if_pos hps
    have hnext : Place ms got
        { c with reader := c.reader.drop headerSize, phase := .body m.1 m.2.length } j := by
      refine ⟨m.2, hm, rfl, ?_⟩
      rw [hplace, List.append_assoc]
      exact congrArg _ hreader
    exact hstep ▸ h.move hnext rfl rfl

/-- STEP (`readexactly(blen)`): the message is answered, or the answer is out of range. -/
theorem gotBody_answers (h : Answers ms got c j) (hgot : got <+: wire msgBytes ms) {msgid : UInt16}
    {blen : ℕ} (hp : c.phase = .body msgid blen) (hlen : blen ≤ c.reader.length) (now : Time) :
    ∃ j', j ≤ j' ∧ Answers ms got (gotBody c msgid blen now) j' := by
  have hplace := h.place
  rw [Place, hp] at hplace
  obtain ⟨body, hm, rfl, hgot'⟩ := hplace
  have hj : j < ms.length := (List.getElem?_eq_some_iff.mp hm).1
  have htake : ms.take (j + 1) = ms.take j ++ [(msgid, body)] := by
    rw [List.take_add_one, hm]
    rfl
  -- the body that was read is the one of the message
  have hbody : c.reader.take body.length = body := by
    have hpre : header msgid (UInt32.ofNat body.length) ++ c.reader <+:
        msgBytes (msgid, body) ++ wire msgBytes (ms.drop (j + 1)) := by
      have hsplit : wire msgBytes ms = wire msgBytes (ms.take j) ++
          (msgBytes (msgid, body) ++ wire msgBytes (ms.drop (j + 1))) := by
        have hone : wire msgBytes [(msgid, body)] = msgBytes (msgid, body) := List.append_nil _
        rw [← hone, ← List.append_assoc, ← wire_append, ← htake, ← wire_take_drop]
      rw [hgot', List.append_assoc, hsplit] at hgot
      exact (List.prefix_append_right_inj _).mp hgot
    rw [msgBytes, List.append_assoc] at hpre
    have hreader := (List.prefix_append_right_inj _).mp hpre
    rw [List.prefix_iff_eq_take.mp hreader, List.take_take, Nat.min_eq_left hlen,
      List.take_left' rfl]
  unfold gotBody
  rw [hbody]
  dsimp only
  by_cases hans : Answerable (msgid, body) now
  · rw [if_pos hans]
    refine ⟨j + 1, Nat.le_succ j, hj, ?_, ?_, ?_, ?_⟩
    · change (c.said ++ [Said.answer (msgid, body) now]).filterMap Said.question = _
      rw [List.filterMap_append, h.questions, htake]
      rfl
    · change c.writer ++ msgBytes _ = wire msgBytes ((c.said ++ [_]).map Said.msg)
      rw [List.map_append, wire_append, h.writer]
      simp
    · exact List.forall_mem_append.mpr ⟨h.lt, List.forall_mem_singleton.mpr hans.2⟩
    · change got = wire msgBytes (ms.take (j + 1)) ++ c.reader.drop body.length
      rw [htake, wire_append, hgot']
      conv_lhs => rw [← List.take_append_drop body.length c.reader, hbody]
      simp [msgBytes]
  · rw [if_neg hans]
    have hstop : Place ms got
        { c with reader := c.reader.drop body.length, phase := .done } j :=
      Or.inr ⟨_, now, hm, hans⟩
    exact ⟨j, Nat.le_refl j, h.move hstop rfl rfl⟩

/-- What a step lets arrive. -/
def Op.arrives : Op → List UInt8
  | .arrive chunk => chunk
  | _ => []

/-- STEP: a client answers the messages of the stream one after another. -/
theorem step_answers {op : Op} (h : Answers ms got c j) (hms : ∀ m ∈ ms, m.2.length < 2 ^ 32)
    (hgot : got <+: wire msgBytes ms) (hs : step c op = some d) :
    ∃ j', j ≤ j' ∧ Answers ms (got ++ op.arrives) d j' := by
  have hread : ∀ (n : ℕ) (k : Client → Client), readexactly c n k = some d →
      (n ≤ c.reader.length ∧ d = k c) ∨ c.eof = true ∧ d = { c with phase := .done } := by
    intro n k hk
    unfold readexactly at hk
    split_ifs at hk with hlen heof
    · exact .inl ⟨hlen, (Option.some.inj hk).symm⟩
    · exact .inr ⟨heof, (Option.some.inj hk).symm⟩
  have hquiet : op.arrives = [] → got ++ op.arrives = got := fun h => by rw [h, List.append_nil]
  have hend : c.eof = true → d = { c with phase := .done } → Answers ms got d j := by
    rintro heof rfl
    have hstop : Place ms got { c with phase := .done } j := Or.inl heof
    exact h.move hstop rfl rfl
  cases op with
  | hello =>
    simp only [step] at hs
    split_ifs at hs with hp
    cases hs
    rw [hquiet rfl]
    have hplace := h.place
    rw [Place, hp] at hplace
    obtain ⟨rfl, hgot'⟩ := hplace
    have hboth := (h.write (x := .hello false) rfl (by decide)).write (x := .hello true) rfl
      (by decide)
    have hnext : Place ms got
        { (c.write (.hello false)).write (.hello true) with phase := .header } 0 := hgot'
    exact ⟨0, Nat.le_refl 0, hboth.move hnext rfl rfl⟩
  | arrive chunk =>
    simp only [step] at hs
    split_ifs at hs
    cases hs
    have hnext : Place ms (got ++ chunk) { c with reader := c.reader ++ chunk } j := by
      have hplace := h.place
      unfold Place at hplace ⊢
      dsimp only
      cases hp : c.phase <;> rw [hp] at hplace
      · exact ⟨hplace.1, congrArg (· ++ chunk) hplace.2⟩
      · exact (congrArg (· ++ chunk) hplace).trans (List.append_assoc ..)
      · obtain ⟨body, hm, hlen, rfl⟩ := hplace
        exact ⟨body, hm, hlen, List.append_assoc ..⟩
      · exact hplace
    exact ⟨j, Nat.le_refl j, h.move hnext rfl rfl⟩
  | close =>
    cases hs
    rw [hquiet rfl]
    have hnext : Place ms got { c with eof := true } j := by
      have hplace := h.place
      unfold Place at hplace ⊢
      dsimp only
      cases hp : c.phase <;> rw [hp] at hplace
      · exact hplace
      · exact hplace
      · exact hplace
      · exact Or.inl rfl
    exact ⟨j, Nat.le_refl j, h.move hnext rfl rfl⟩
  | turn now =>
    simp only [step] at hs
    rw [hquiet rfl]
    cases hp : c.phase with
    | start =>
      rw [hp] at hs
      cases hs
    | done =>
      rw [hp] at hs
      cases hs
    | header =>
      rw [hp] at hs
      rcases hread _ _ hs with ⟨hlen, rfl⟩ | ⟨heof, hd⟩
      · exact ⟨j, Nat.le_refl j, gotHeader_answers h hms hgot hp hlen⟩
      · exact ⟨j, Nat.le_refl j, hend heof hd⟩
    | body msgid blen =>
      rw [hp] at hs
      rcases hread _ _ hs with ⟨hlen, rfl⟩ | ⟨heof, hd⟩
      · exact gotBody_answers h hgot hp hlen now
      · exact ⟨j, Nat.le_refl j, hend heof hd⟩
  | ping =>
    simp only [step] at hs
    rw [hquiet rfl]
    split at hs <;> cases hs <;> exact ⟨j, Nat.le_refl j, h.write rfl (by decide)⟩

/-- STEP: what was written stays written. -/
theorem step_writer {op : Op} (hs : step c op = some d) : c.writer <+: d.writer := by
  have hwrite : ∀ x, c.writer <+: (c.write x).writer := fun x => List.prefix_append _ _
  have hread : ∀ (n : ℕ) (k : Client → Client), c.writer <+: (k c).writer →
      readexactly c n k = some d → c.writer <+: d.writer := by
    intro n k hk hd
    unfold readexactly at hd
    split_ifs at hd <;> cases hd
    · exact hk
    · exact List.prefix_refl _
  cases op with
  | hello =>
    simp only [step] at hs
    split_ifs at hs
    cases hs
    exact (hwrite _).trans (List.prefix_append _ _)
  | arrive chunk =>
    simp only [step] at hs
    split_ifs at hs
    cases hs
    exact List.prefix_refl _
  | close =>
    cases hs
    exact List.prefix_refl _
  | turn now =>
    simp only [step] at hs
    split at hs
    · refine hread _ _ ?_ hs
      unfold gotHeader
      dsimp only
      split <;> exact List.prefix_refl _
    · refine hread _ _ ?_ hs
      unfold gotBody
      dsimp only
      split
      · exact List.prefix_append _ _
      · exact List.prefix_refl _
    · cases hs
  | ping =>
    simp only [step] at hs
    split at hs <;> cases hs <;> exact hwrite _

end Steps

end Pscdrv.Sim
