import Pscdrv.Core.Libevent
import Pscdrv.Core.Wire
import Pscdrv.Schemes.Channel
import Pscdrv.Schemes.Doubly
import Pscdrv.Schemes.Run

/-! # The connections of the XBPM target (`main.c`, `app.c`)

    All connections are linked in both directions; a connection is put in front when a client
    connects and taken out when it ends. Messages go to all of them. A message is dropped when too
    much waits already, or when its header cannot be enqueued; when the body cannot, the connection
    is freed, and a loop over the list reads its link after that. One thread runs the callbacks.

        conn_first ──▶ newest ◀──▶ … ◀──▶ oldest ──▶ NULL

    The fields `asked`, `accepted` and `socket` of a connection are not in the source: they record
    the messages for it, those that were enqueued, and the bytes that have gone out. -/

namespace Pscdrv.Xbpm.Connections

open BigEndian Libevent Run Channel

/-- `MAXOUT` -/
def maxOut : ℕ := 1024

/-- `struct connection`; `output` belongs to its `bev`. -/
structure Connection (E : Type) where
  connNext : Option ℕ
  connPrev : Option ℕ
  output : E
  msgDropCnt : UInt32
  asked : List Frame
  accepted : List Frame
  socket : List UInt8

/-- `struct server`, and the memory of the connections. -/
structure Server (E : Type) where
  connFirst : Option ℕ
  connFailCnt : UInt32
  cycleCount : UInt32
  heap : ℕ → Option (Connection E)

/-- What must not happen. -/
inductive Fault where
  /-- a connection is used that has been freed -/
  | freed
  /-- `conn->bev` where `conn` is NULL -/
  | null
  /-- `assert(conn->serv->conn_first==conn)` -/
  | assertion
  deriving DecidableEq

variable {E : Type} [Libevent E]

def Server.init : Server E := ⟨none, 0, 0, fun _ => none⟩

/-- From `calloc()`, with the buffers of a new `bev`. -/
def Connection.new : Connection E := ⟨none, none, Libevent.new, 0, [], [], []⟩

section Memory

variable {E : Type}

def Server.set (s : Server E) (a : ℕ) (c : Option (Connection E)) : Server E :=
  { s with heap := Function.update s.heap a c }

def Server.read (s : Server E) (a : ℕ) : Except Fault (Connection E) :=
  match s.heap a with
  | some c => .ok c
  | none => .error .freed

def Server.modify (s : Server E) (a : ℕ) (f : Connection E → Connection E) :
    Except Fault (Server E) :=
  (s.read a).map fun c => s.set a (some (f c))

/-- The first part of `freeconn`: what is in front of the connection leads to what is behind it. -/
def unlinkPrev (s : Server E) (a : ℕ) (c : Connection E) : Except Fault (Server E) :=
  match c.connPrev with
  | some p => s.modify p fun d => { d with connNext := c.connNext }
  | none => if s.connFirst = some a then .ok { s with connFirst := c.connNext }
    else .error .assertion

/-- `if(conn->conn_next) conn->conn_next->conn_prev = conn->conn_prev;` -/
def unlinkNext (s : Server E) (c : Connection E) : Except Fault (Server E) :=
  match c.connNext with
  | some n => s.modify n fun d => { d with connPrev := c.connPrev }
  | none => .ok s

/-- `freeconn`; `on_disconnect` does nothing. -/
def freeconn (s : Server E) (a : ℕ) : Except Fault (Server E) :=
  (s.read a).bind fun c =>
    (unlinkPrev s a c).bind fun s =>
      (unlinkNext s c).map fun s => s.set a none

/-! ### Memory -/

section Lemmas

variable {s t : Server E} {a : ℕ} {c : Connection E}

theorem read_some (hc : s.heap a = some c) : s.read a = .ok c := by
  rw [Server.read, hc]

theorem read_none (hc : s.heap a = none) : s.read a = .error .freed := by
  rw [Server.read, hc]

theorem set_self (s : Server E) (a : ℕ) (c : Option (Connection E)) : (s.set a c).heap a = c :=
  Function.update_self ..

theorem set_ne (s : Server E) {a b : ℕ} (c : Option (Connection E)) (h : b ≠ a) :
    (s.set a c).heap b = s.heap b := Function.update_of_ne h _ _

theorem bind_ok {α β : Type} {x : Except Fault α} {f : α → Except Fault β} {r : β}
    (h : x.bind f = .ok r) : ∃ y, x = .ok y ∧ f y = .ok r := by
  cases x with
  | error e => cases h
  | ok y => exact ⟨y, rfl, h⟩

theorem map_ok {α β : Type} {x : Except Fault α} {f : α → β} {r : β} (h : x.map f = .ok r) :
    ∃ y, x = .ok y ∧ f y = r := by
  cases x with
  | error e => cases h
  | ok y => exact ⟨y, rfl, Except.ok.inj h⟩

theorem freeconn_gone (h : freeconn s a = .ok t) : t.heap a = none := by
  obtain ⟨c, -, h⟩ := bind_ok h
  obtain ⟨u, -, h⟩ := bind_ok h
  obtain ⟨v, -, rfl⟩ := map_ok h
  exact set_self v a none

end Lemmas

end Memory

/-- The header of a message. -/
def head (f : Frame) : List UInt8 := header f.code (UInt32.ofNat f.body.length)

/-- A message that is not enqueued. -/
def Connection.drop (c : Connection E) (f : Frame) (output : E) : Connection E :=
  { c with output := output, msgDropCnt := c.msgDropCnt + 1, asked := c.asked ++ [f] }

/-- A message that is enqueued. -/
def Connection.take (c : Connection E) (f : Frame) (output : E) : Connection E :=
  { c with output := output, asked := c.asked ++ [f], accepted := c.accepted ++ [f] }

/-- `txconn`; nobody looks at what it returns. -/
def txconn (s : Server E) (a : ℕ) (f : Frame) : Except Fault (Server E) :=
  (s.read a).bind fun c =>
    if maxOut < length c.output then .ok (s.set a (some (c.drop f c.output)))
    else
      let txbuf := add c.output (head f)
      if txbuf.2 = false then .ok (s.set a (some (c.drop f txbuf.1)))
      else
        let txbuf := add txbuf.1 f.body
        if txbuf.2 = false then
          freeconn { s.set a (some { c with output := txbuf.1 }) with
            connFailCnt := s.connFailCnt + 1 } a
        else .ok (s.set a (some (c.take f txbuf.1)))

/-- One turn of the loop of `txall` or `onping`: the next connection is read behind the sending. -/
def txNext (s : Server E) (a : ℕ) (msg : Connection E → Frame) :
    Except Fault (Server E × Option ℕ) :=
  (s.read a).bind fun c =>
    (txconn s a (msg c)).bind fun s =>
      (s.read a).map fun c => (s, c.connNext)

/-- The loop of `txall` and of `onping`, over at most `fuel` connections. -/
def txEach (msg : Connection E → Frame) : ℕ → Server E → Option ℕ →
    Option (Except Fault (Server E))
  | _, s, none => some (.ok s)
  | 0, _, some _ => none
  | fuel + 1, s, some a =>
    match txNext s a msg with
    | .ok (s, next) => txEach msg fuel s next
    | .error fault => some (.error fault)

/-- `msghello` with `version`, as `on_connect` sends it. -/
def msghello : Frame := ⟨43, be 4 42, by decide⟩

/-- `msgping`, as `onping` sends it to a connection. -/
def msgping (s : Server E) (c : Connection E) : Frame where
  code := 42
  body := be 4 s.cycleCount.toNat ++ be 4 s.connFailCnt.toNat ++ be 4 c.msgDropCnt.toNat
  body_lt := by simp

/-- What happens when a client connects. -/
inductive Accepted where
  /-- `calloc()` fails -/
  | noMemory
  /-- no `AF_INET` address, or a socket or a buffer cannot be set up -/
  | refused
  /-- the connection is allocated at `a` -/
  | client (a : ℕ)

/-- `if(serv->conn_first) serv->conn_first->conn_prev = conn;` -/
def linkFirst (s : Server E) (a : ℕ) : Except Fault (Server E) :=
  match s.connFirst with
  | some b => s.modify b fun d => { d with connPrev := some a }
  | none => .ok s

/-- The end of `onconn`: the connection is put in front of the others. -/
def prepend (s : Server E) (a : ℕ) : Except Fault (Server E) :=
  (linkFirst s a).bind fun s =>
    (s.modify a fun c => { c with connNext := s.connFirst }).map fun s =>
      { s with connFirst := some a }

/-- `onconn`; `none` when memory at `a` is in use. -/
def onconn (s : Server E) : Accepted → Option (Except Fault (Server E))
  | .noMemory => some (.error .null)
  | .refused => some (.ok { s with connFailCnt := s.connFailCnt + 1 })
  | .client a =>
    if (s.heap a).isSome then none
    else some ((txconn (s.set a (some .new)) a msghello).bind fun s => prepend s a)

/-- `onping` -/
def onping (s : Server E) (fuel : ℕ) : Option (Except Fault (Server E)) :=
  let s := { s with cycleCount := s.cycleCount + 1 }
  txEach (msgping s) fuel s s.connFirst

/-- `txall` -/
def txall (s : Server E) (fuel : ℕ) (f : Frame) : Option (Except Fault (Server E)) :=
  txEach (fun _ => f) fuel s s.connFirst

/-- `n` bytes of the output buffer go out on the socket. -/
def written (s : Server E) (a n : ℕ) : Option (Server E) :=
  (s.heap a).map fun c => s.set a (some { c with
    output := Libevent.drain c.output n
    socket := c.socket ++ (bytes c.output).take n })

/-- The callbacks of the event loop. -/
inductive Op where
  | onconn (answer : Accepted)
  /-- `connevent`, or `connread` when it meets a header that is malformed or of a long message -/
  | lost (a : ℕ)
  | onping (fuel : ℕ)
  | txall (fuel : ℕ) (f : Frame)
  | written (a n : ℕ)

/-- `none` when the callback is not possible now. -/
def step : Except Fault (Server E) → Op → Option (Except Fault (Server E))
  | .error _, _ => none
  | .ok s, .onconn answer => onconn s answer
  | .ok s, .lost a => if (s.heap a).isSome then some (freeconn s a) else none
  | .ok s, .onping fuel => onping s fuel
  | .ok s, .txall fuel f => txall s fuel f
  | .ok s, .written a n => (written s a n).map .ok

/-! ### The invariant -/

/-- `conn_next` and `conn_prev` -/
def nextOf (s : Server E) (a : ℕ) : Option (Option ℕ) := (s.heap a).map Connection.connNext

def prevOf (s : Server E) (a : ℕ) : Option (Option ℕ) := (s.heap a).map Connection.connPrev

/-- The list holds exactly the connections that are allocated. -/
structure Listed (s : Server E) (l : List ℕ) : Prop where
  list : Doubly (nextOf s) (prevOf s) none s.connFirst l
  mem : ∀ a, a ∈ l ↔ (s.heap a).isSome

/-- The output of a connection are whole messages, those that were not dropped, and dropped ones are
    counted. No more is enqueued behind `maxOut` bytes. -/
structure Counted (c : Connection E) : Prop where
  bytes : c.socket ++ bytes c.output = wire Frame.bytes c.accepted
  order : c.accepted.Sublist c.asked
  dropped : c.msgDropCnt = UInt32.ofNat (c.asked.length - c.accepted.length)
  room : length c.output ≤ maxOut ∨
    ∃ f ∈ c.accepted, length c.output ≤ maxOut + (Frame.bytes f).length

/-- What holds between the callbacks. -/
structure Good (s : Server E) : Prop where
  listed : ∃ l, Listed s l
  counted : ∀ a c, s.heap a = some c → Counted c
  hello : ∀ a c, s.heap a = some c → c.asked.head? = some msghello

/-- The callbacks have met no fault so far. -/
def Runs (r : Except Fault (Server E)) : Prop := ∃ s, r = .ok s ∧ Good s

/-- The message is enqueued, or dropped as a whole. -/
def Takes (c : Connection E) (f : Frame) : Prop :=
  length c.output ≤ maxOut → (add c.output (head f)).2 = true →
    (add (add c.output (head f)).1 f.body).2 = true

/-- The callbacks that are safe: `calloc()` does not fail, and no connection takes a header but not
    the body. -/
def Sound : Except Fault (Server E) → Op → Prop
  | .ok _, .onconn .noMemory => False
  | .ok _, .onconn (.client _) => Takes (.new : Connection E) msghello
  | .ok s, .onping _ => ∀ a c, s.heap a = some c →
      Takes c (msgping { s with cycleCount := s.cycleCount + 1 } c)
  | .ok s, .txall _ f => ∀ a c, s.heap a = some c → Takes c f
  | _, _ => True

/-! ### Sending to one connection -/

/-- What `txconn` makes of a connection that takes the message. -/
def tx (c : Connection E) (f : Frame) : Connection E :=
  if maxOut < length c.output then c.drop f c.output
  else if (add c.output (head f)).2 = false then c.drop f (add c.output (head f)).1
  else c.take f (add (add c.output (head f)).1 f.body).1

section Tx

variable {s t : Server E} {a : ℕ} {c : Connection E} {f : Frame}

theorem txconn_takes (hc : s.heap a = some c) (h : Takes c f) :
    txconn s a f = .ok (s.set a (some (tx c f))) := by
  rw [txconn, read_some hc, tx]
  dsimp only [Except.bind]
  split
  · rfl
  · rename_i hroom
    split
    · rfl
    · rename_i hadd
      rw [if_neg]
      rw [h (by omega) (by simpa using hadd)]
      nofun

/-- A connection that takes the header but not the body is freed. -/
theorem txconn_breaks (hc : s.heap a = some c) (h : ¬ Takes c f) : ∃ output,
    txconn s a f = freeconn { s.set a (some { c with output := output }) with
      connFailCnt := s.connFailCnt + 1 } a := by
  obtain ⟨hroom, hadd, hbody⟩ : length c.output ≤ maxOut ∧ (add c.output (head f)).2 = true ∧
      ¬ (add (add c.output (head f)).1 f.body).2 = true := by
    simpa only [Takes, Classical.not_imp] using h
  refine ⟨(add (add c.output (head f)).1 f.body).1, ?_⟩
  rw [txconn, read_some hc]
  dsimp only [Except.bind]
  rw [if_neg (by omega), if_neg (by rw [hadd]; nofun), if_pos (by simpa using hbody)]

theorem tx_connNext (c : Connection E) (f : Frame) : (tx c f).connNext = c.connNext := by
  unfold tx
  split
  · rfl
  · split <;> rfl

theorem tx_connPrev (c : Connection E) (f : Frame) : (tx c f).connPrev = c.connPrev := by
  unfold tx
  split
  · rfl
  · split <;> rfl

theorem tx_asked (c : Connection E) (f : Frame) : (tx c f).asked = c.asked ++ [f] := by
  unfold tx
  split
  · rfl
  · split <;> rfl

theorem counted_new : Counted (.new : Connection E) where
  bytes := bytes_new
  order := List.Sublist.refl _
  dropped := rfl
  room := .inl (by rw [length, Connection.new, bytes_new]; exact Nat.zero_le _)

/-- A dropped message leaves the bytes as they are. -/
theorem Counted.drop (h : Counted c) (f : Frame) {output : E}
    (hout : Libevent.bytes output = Libevent.bytes c.output) : Counted (c.drop f output) where
  bytes := by
    change c.socket ++ Libevent.bytes output = _
    rw [hout]
    exact h.bytes
  order := h.order.trans (List.sublist_append_left _ _)
  dropped := by
    change c.msgDropCnt + 1 = UInt32.ofNat ((c.asked ++ [f]).length - c.accepted.length)
    have hle := h.order.length_le
    rw [h.dropped, List.length_append, List.length_singleton, Nat.sub_add_comm hle,
      UInt32.ofNat_add]
    rfl
  room := by
    change (Libevent.bytes output).length ≤ _ ∨ ∃ g ∈ c.accepted, (Libevent.bytes output).length ≤ _
    rw [hout]
    exact h.room

/-- An enqueued message comes behind the others. -/
theorem Counted.take (h : Counted c) (hroom : length c.output ≤ maxOut) {output : E}
    (hout : Libevent.bytes output = Libevent.bytes c.output ++ f.bytes) :
    Counted (c.take f output) where
  bytes := by
    change c.socket ++ Libevent.bytes output = wire Frame.bytes (c.accepted ++ [f])
    rw [hout, ← List.append_assoc, h.bytes, wire_append, wire_cons, wire_nil, List.append_nil]
  order := h.order.append (List.Sublist.refl _)
  dropped := by
    change c.msgDropCnt = UInt32.ofNat ((c.asked ++ [f]).length - (c.accepted ++ [f]).length)
    rw [h.dropped, List.length_append, List.length_append, Nat.add_sub_add_right]
  room := by
    refine .inr ⟨f, List.mem_append_right _ (List.mem_singleton_self f), ?_⟩
    change (Libevent.bytes output).length ≤ _
    rw [hout, List.length_append]
    exact Nat.add_le_add_right hroom _

theorem Counted.tx (h : Counted c) (htakes : Takes c f) : Counted (tx c f) := by
  unfold Connections.tx
  split
  · exact h.drop f rfl
  · rename_i hroom
    have hroom : length c.output ≤ maxOut := by omega
    split
    · rename_i hadd
      exact h.drop f (add_fail _ _ hadd)
    · rename_i hadd
      have hadd : (add c.output (head f)).2 = true := by simpa using hadd
      refine h.take hroom ?_
      rw [bytes_add_ok (htakes hroom hadd), bytes_add_ok hadd, List.append_assoc]
      rfl

end Tx

/-! ### The loops -/

section Loops

variable {s t : Server E} {msg : Connection E → Frame}

/-- The messages have been sent to the connections of `l`. -/
def sentTo (s : Server E) (msg : Connection E → Frame) (l : List ℕ) : Server E :=
  { s with heap := fun a =>
    if a ∈ l then (s.heap a).map fun c => tx c (msg c) else s.heap a }

theorem nextOf_tx (s : Server E) {a : ℕ} {c : Connection E} (f : Frame)
    (hc : s.heap a = some c) (b : ℕ) : nextOf (s.set a (some (tx c f))) b = nextOf s b := by
  unfold nextOf
  by_cases hb : b = a
  · rw [hb, set_self, hc, Option.map_some, Option.map_some, tx_connNext]
  · rw [set_ne s _ hb]

/-- LOOP: when every connection of the list takes its message, all get theirs, and no other one. -/
theorem txEach_takes : ∀ {l : List ℕ} {s : Server E} {first : Option ℕ},
    Chain (nextOf s) first l → (∀ a ∈ l, ∀ c, s.heap a = some c → Takes c (msg c)) → ∀ fuel : ℕ,
    txEach msg fuel s first = if l.length ≤ fuel then some (.ok (sentTo s msg l)) else none
  | [], s, _, h, _, fuel => by
    have hnil : sentTo s msg [] = s := by simp only [sentTo, List.not_mem_nil, if_false]
    rw [show _ = none from h, hnil, txEach]
    exact (if_pos (Nat.zero_le fuel)).symm
  | a :: l, s, _, h, htakes, 0 => by
    rw [h.1]
    exact (if_neg (Nat.not_succ_le_zero l.length)).symm
  | a :: l, s, _, h, htakes, fuel + 1 => by
    obtain ⟨hnot, -⟩ := List.nodup_cons.mp h.nodup
    obtain ⟨ha, n, hn, hl⟩ := h
    obtain ⟨c, hc, rfl⟩ := Option.map_eq_some_iff.mp hn
    let u := s.set a (some (tx c (msg c)))
    have hturn : txNext s a msg = .ok (u, c.connNext) := by
      rw [txNext, read_some hc]
      dsimp only [Except.bind]
      rw [txconn_takes hc (htakes a List.mem_cons_self c hc)]
      dsimp only
      rw [read_some (set_self s a _), ← tx_connNext c (msg c)]
      rfl
    have hne : ∀ b ∈ l, b ≠ a := fun b hb heq => hnot (heq ▸ hb)
    have hchain : Chain (nextOf u) c.connNext l := hl.congr fun b _ => nextOf_tx s _ hc b
    have hrest := txEach_takes hchain (fun b hb d hd =>
      htakes b (List.mem_cons_of_mem a hb) d ((set_ne s _ (hne b hb)).symm.trans hd)) fuel
    have hsent : sentTo u msg l = sentTo s msg (a :: l) := by
      rw [sentTo, sentTo]
      congr 1
      funext b
      by_cases hb : b = a
      · rw [hb, if_neg hnot, if_pos List.mem_cons_self, hc, set_self, Option.map_some]
      · simp only [List.mem_cons, hb, false_or]
        rw [set_ne s _ hb]
    rw [ha, txEach, hturn]
    dsimp only
    rw [hrest, hsent]
    simp only [List.length_cons, Nat.succ_le_succ_iff]

/-- LOOP: when one does not, the loop reads the link of a connection that has been freed. -/
theorem txEach_ok : ∀ {l : List ℕ} {s : Server E} {first : Option ℕ} {fuel : ℕ},
    Chain (nextOf s) first l → txEach msg fuel s first = some (.ok t) →
    ∀ a ∈ l, ∀ c, s.heap a = some c → Takes c (msg c)
  | [], _, _, _, _, _ => List.forall_mem_nil _
  | a :: l, s, _, 0, h, hs => by
    rw [h.1, txEach] at hs
    cases hs
  | a :: l, s, _, fuel + 1, h, hs => by
    obtain ⟨hnot, -⟩ := List.nodup_cons.mp h.nodup
    obtain ⟨ha, n, hn, hl⟩ := h
    obtain ⟨c, hc, rfl⟩ := Option.map_eq_some_iff.mp hn
    rw [ha, txEach] at hs
    cases hturn : txNext s a msg with
    | error fault => rw [hturn] at hs; cases hs
    | ok next =>
      obtain ⟨u, n⟩ := next
      rw [hturn] at hs
      obtain ⟨d, hd, hu⟩ := bind_ok hturn
      rw [read_some hc, Except.ok.injEq] at hd
      subst hd
      obtain ⟨v, hv, hnext⟩ := bind_ok hu
      obtain ⟨e, he, huv⟩ := map_ok hnext
      cases huv
      have htakes : Takes c (msg c) := by
        by_contra hbreaks
        obtain ⟨output, hfree⟩ := txconn_breaks hc hbreaks
        rw [hfree] at hv
        rw [read_none (freeconn_gone hv)] at he
        cases he
      rw [txconn_takes hc htakes, Except.ok.injEq] at hv
      subst hv
      rw [read_some (set_self s a _), Except.ok.injEq] at he
      subst he
      have hchain : Chain (nextOf (s.set a (some (tx c (msg c))))) (tx c (msg c)).connNext l := by
        rw [tx_connNext]
        exact hl.congr fun b _ => nextOf_tx s _ hc b
      rw [List.forall_mem_cons]
      refine ⟨fun d hd => ?_, fun b hb d hd => ?_⟩
      · rw [hc, Option.some.injEq] at hd
        exact hd ▸ htakes
      · have hba : b ≠ a := fun heq => hnot (heq ▸ hb)
        exact txEach_ok hchain hs b hb d ((set_ne s _ hba).trans hd)

end Loops

end Pscdrv.Xbpm.Connections
