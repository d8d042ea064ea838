import Mathlib.Logic.Function.Basic
import Pscdrv.Schemes.Channel
import Pscdrv.Target.ClientList
import Pscdrv.Target.Sending

/-! # The server and its connections

    `psc_send` sends a message to every client of the list that is active, `psc_send_one` to one
    client; both hold `sendguard`, and close the descriptor of a client whose message fails. A
    client has a descriptor only, and a descriptor stands for the connection that it was last
    accepted for: once it is closed, `accept()` can give it to another client.

        client ──sock──▶ descriptor ──fds──▶ connection

    A connection is known by its number, in the order of their acceptance. The fields `born`,
    `given`, `failed` and `log` are not in the source: the connection that a client was accepted on,
    the messages handed to `psc_sendmsg` for it, whether one of them failed, and the calls.

        log       all m₀    one 2 m₁    all m₂    all m₃
        given 1      m₀                    m₂        m₃
        given 2      m₀         m₁         m₂ ✗                   client 2 is not active any more -/

namespace Pscdrv.Target

open Run Channel

structure Server where
  key : PscKey
  conn : ℕ → Sock
  count : ℕ
  fds : ℕ → Option ℕ
  born : ℕ → ℕ
  given : ℕ → List Frame
  failed : ℕ → Bool
  log : List (Option ℕ × Frame)

def Server.init : Server where
  key := .init
  conn := fun _ => ⟨[], [], fun _ => .upTo 0, 0, []⟩
  count := 0
  fds := fun _ => none
  born := fun _ => 0
  given := fun _ => []
  failed := fun _ => false
  log := []

inductive SrvOp where
  /-- the connection brings `incoming` and behaves like `env` -/
  | accept (answer : AcceptEnv) (incoming : List UInt8) (env : ℕ → Moved)
  | link
  /-- one call of `recv()` in the `psc_recvmsg` of the thread of the client, for `n` bytes -/
  | recv (a n : ℕ)
  | remove (a : ℕ)
  | closeSock (a : ℕ)
  | free (a : ℕ)
  | pscSend (fuel : ℕ) (f : Frame)
  | pscSendOne (a : ℕ) (f : Frame)

/-- `EBADF` -/
def Errno.ebadf : Errno := .other 9

/-- `psc_sendmsg` on a descriptor. -/
def sendTo (s : Server) (k : ℕ) (f : Frame) : Option Errno × Server :=
  match s.fds k with
  | none => (some .ebadf, s)
  | some n =>
    let r := sendmsg (s.conn n) f.code f.body
    (r.1, { s with conn := Function.update s.conn n r.2 })

/-- `recv()` on a descriptor. -/
def recvFrom (s : Server) (k n : ℕ) : Server :=
  match s.fds k with
  | none => s
  | some m => { s with conn := Function.update s.conn m (recv (s.conn m) n).2 }

/-- `close()` on a descriptor, whether or not it is open. -/
def closeFd (s : Server) (k : ℕ) : Server := { s with fds := Function.update s.fds k none }

/-- `psc_sendmsg` for the client at `a`, and what follows when it fails. -/
def sendOne (s : Server) (f : Frame) (a : ℕ) : Option Server :=
  (s.key.heap a).bind fun c =>
    let r := sendTo s c.sock f
    (sendMsg s.key a c r.1.isNone).map fun key =>
      { (if r.1.isSome then closeFd r.2 c.sock else r.2) with
        key := key
        given := Function.update s.given a (s.given a ++ [f])
        failed := Function.update s.failed a (s.failed a || r.1.isSome) }

/-- The loop of `psc_send`. -/
def sendEach (s : Server) (f : Frame) : List ℕ → Option Server
  | [] => some s
  | a :: l => (s.key.heap a).bind fun c =>
    if c.active then (sendOne s f a).bind fun s => sendEach s f l else sendEach s f l

/-- A client at `a` with a new connection on the descriptor `k`. -/
def newClient (s : Server) (k a : ℕ) (incoming : List UInt8) (env : ℕ → Moved) : Server :=
  { s with
    conn := Function.update s.conn s.count ⟨incoming, [], env, 0, []⟩
    count := s.count + 1
    fds := Function.update s.fds k (some s.count)
    born := Function.update s.born a s.count
    given := Function.update s.given a []
    failed := Function.update s.failed a false }

/-- `accept()` gives a descriptor that is not open, and a client is set up. One that is turned away
    is closed at once. -/
def acceptClient (s : Server) (answer : AcceptEnv) (incoming : List UInt8) (env : ℕ → Moved) :
    Option Server :=
  if (answer.sock?.bind s.fds).isSome then none
  else (accept s.key answer).map fun key =>
    match answer with
    | .client k a =>
      if key.starting = some a then { newClient s k a incoming env with key := key }
      else { s with key := key }
    | _ => { s with key := key }

/-- A step; `none` when it is not possible, or reads memory that is not allocated. -/
def srvStep (s : Server) : SrvOp → Option Server
  | .accept answer incoming env => acceptClient s answer incoming env
  | .link => (link s.key).map fun key => { s with key := key }
  | .recv a n => (s.key.heap a).bind fun c =>
      (recvMsg s.key a).map fun key => { recvFrom s c.sock n with key := key }
  | .remove a => (remove s.key a).map fun key => { s with key := key }
  | .closeSock a => (s.key.heap a).bind fun c =>
      (closeSock s.key a).map fun key => { closeFd s c.sock with key := key }
  | .free a => (free s.key a).map fun key => { s with key := key }
  | .pscSend fuel f => (follow (nextOf s.key) fuel s.key.clientHead).bind fun l =>
      sendEach { s with log := s.log ++ [(none, f)] } f l
  | .pscSendOne a f => sendOne { s with log := s.log ++ [(some a, f)] } f a

/-- The messages of the calls that are for the client at `a`. -/
def addressed (log : List (Option ℕ × Frame)) (a : ℕ) : List Frame :=
  log.filterMap fun p => if p.1 = none ∨ p.1 = some a then some p.2 else none

/-- A new client does not get a descriptor that the thread of another client is still to close, no
    message goes to a client whose thread has closed its socket, none by `psc_send_one` to one that
    has failed, and no client has failed before it is linked. -/
def Unmixed (s : Server) : SrvOp → Prop
  | .accept answer _ _ => ∀ k a, answer = .client k a →
      ∀ b c, s.key.heap b = some c → c.stage ≠ .closed → c.sock ≠ k
  | .link => ∀ a, s.key.starting = some a → s.failed a = false
  | .pscSend fuel _ => ∀ l ∈ follow (nextOf s.key) fuel s.key.clientHead, ∀ a ∈ l,
      ∀ c ∈ s.key.heap a, c.active = true → c.stage ≠ .closed
  | .pscSendOne a _ => s.failed a = false ∧ ∀ c ∈ s.key.heap a, c.stage ≠ .closed
  | _ => True

/-- The bytes that the peer of the client at `a` was sent. -/
def outgoing (s : Server) (a : ℕ) : List UInt8 := (s.conn (s.born a)).outgoing

/-- All the messages but the last one, and a piece of that. -/
def CutOff (fs : List Frame) (outgoing : List UInt8) : Prop :=
  ∃ before f part, fs = before ++ [f] ∧ part <+: f.bytes ∧ part ≠ f.bytes ∧
    outgoing = wire Frame.bytes before ++ part

/-- What the client at `a` was sent are messages of calls for it, in the order of the calls, and the
    last one is cut off when it failed. -/
structure Streams (s : Server) (a : ℕ) : Prop where
  whole : s.failed a = false → outgoing s a = wire Frame.bytes (s.given a)
  cut : s.failed a = true → CutOff (s.given a) (outgoing s a)
  order : (s.given a).Sublist (addressed s.log a)

/-- All clients have their streams, and the active ones are whole. The descriptor of a client stands
    for its own connection until its message fails, and then for none; only behind the `close()` of
    its thread it can be that of another client. -/
structure Orderly (s : Server) : Prop where
  streams : ∀ a c, s.key.heap a = some c → Streams s a
  active : ∀ a c, s.key.heap a = some c → c.active = true → s.failed a = false
  fds : ∀ a c, s.key.heap a = some c → c.stage ≠ .closed →
    s.fds c.sock = if s.failed a then none else some (s.born a)
  apart : ∀ a c b d, s.key.heap a = some c → s.key.heap b = some d → c.stage ≠ .closed →
    d.stage ≠ .closed → c.sock = d.sock → a = b
  born : ∀ a c, s.key.heap a = some c → s.born a < s.count
  inj : ∀ a c b d, s.key.heap a = some c → s.key.heap b = some d → s.born a = s.born b → a = b

/-! ### Steps that send nothing -/

/-- No client becomes active, none is allocated, and none gets another descriptor. -/
def Tame (s t : PscKey) : Prop :=
  ∀ a c', t.heap a = some c' → ∃ c, s.heap a = some c ∧ c'.sock = c.sock ∧
    (c'.active = true → c.active = true) ∧ (c'.stage ≠ .closed → c.stage ≠ .closed)

section Tame

variable {s t u : PscKey} {a : ℕ}

theorem Tame.of_heap (h : t.heap = s.heap) : Tame s t :=
  fun _ c' hc => ⟨c', h ▸ hc, rfl, id, id⟩

theorem Tame.trans (h : Tame s t) (k : Tame t u) : Tame s u := by
  intro a c'' hc
  obtain ⟨c', hc', hsock', hact', hstage'⟩ := k a c'' hc
  obtain ⟨c, hc, hsock, hact, hstage⟩ := h a c' hc'
  exact ⟨c, hc, hsock'.trans hsock, hact ∘ hact', hstage ∘ hstage'⟩

theorem Tame.modify {f : PscClient → PscClient} (h : modify s a f = some t)
    (hf : ∀ c, s.heap a = some c → (f c).sock = c.sock ∧
      ((f c).active = true → c.active = true) ∧ ((f c).stage ≠ .closed → c.stage ≠ .closed)) :
    Tame s t := by
  obtain ⟨c, hc, rfl⟩ := modify_some h
  intro b d hd
  dsimp only at hd
  by_cases hb : b = a
  · rw [if_pos hb, Option.some.injEq] at hd
    exact ⟨c, hb ▸ hc, hd ▸ hf c hc⟩
  · rw [if_neg hb] at hd
    exact ⟨d, hd, rfl, id, id⟩

theorem sendMsg_tame {c : PscClient} {ok : Bool} (h : sendMsg s a c ok = some t) : Tame s t := by
  unfold sendMsg at h
  split at h
  · cases h
    exact .of_heap rfl
  · have hcalls : Tame s { s with calls := s.calls ++ [.send c.sock, .close c.sock] } :=
      .of_heap rfl
    exact hcalls.trans (.modify h fun _ _ => ⟨rfl, nofun, id⟩)

theorem recvMsg_tame (h : recvMsg s a = some t) : Tame s t := by
  obtain ⟨c, -, rfl⟩ := Option.map_eq_some_iff.mp h
  exact .of_heap rfl

theorem closeSock_tame (h : closeSock s a = some t) : Tame s t := by
  obtain ⟨c, -, h⟩ := Option.bind_eq_some_iff.mp h
  have hcalls : Tame s { s with calls := s.calls ++ [.close c.sock] } := .of_heap rfl
  exact hcalls.trans (.modify h fun _ _ => ⟨rfl, id, fun hstage => absurd rfl hstage⟩)

theorem free_tame (h : free s a = some t) : Tame s t := by
  obtain ⟨c, -, rfl⟩ := Option.map_eq_some_iff.mp h
  intro b d hd
  dsimp only at hd
  split at hd
  · cases hd
  · exact ⟨d, hd, rfl, id, id⟩

theorem remove_tame (h : remove s a = some t) : Tame s t := by
  obtain ⟨c, hc, h⟩ := Option.bind_eq_some_iff.mp h
  obtain ⟨hc, hstage⟩ := clientAt_some hc
  obtain ⟨u, hu, h⟩ := Option.bind_eq_some_iff.mp h
  obtain ⟨v, hv, h⟩ := Option.bind_eq_some_iff.mp h
  have hnext : Tame s u := by
    unfold unlinkNext at hu
    split at hu
    · exact .modify hu fun _ _ => ⟨rfl, id, id⟩
    · cases hu
      exact .of_heap rfl
  have hprev : Tame u v := by
    unfold unlinkPrev at hv
    split at hv
    · exact .modify hv fun _ _ => ⟨rfl, id, id⟩
    · cases hv
      exact .of_heap rfl
  obtain ⟨w, hw, rfl⟩ := modify_some h
  intro b d hd
  dsimp only at hd
  by_cases hb : b = a
  · subst hb
    rw [if_pos rfl, Option.some.injEq] at hd
    obtain ⟨e, he, hsock, hact, -⟩ := hnext.trans hprev b w hw
    cases hc.symm.trans he
    refine ⟨c, hc, hd ▸ hsock, hd ▸ hact, fun _ => ?_⟩
    rw [hstage]
    nofun
  · rw [if_neg hb] at hd
    exact hnext.trans hprev b d hd

end Tame

section Steps

variable {s t : Server}

/-- The clients keep their streams and descriptors. -/
theorem Orderly.tame (h : Orderly s) {key : PscKey} (hk : Tame s.key key) :
    Orderly { s with key := key } := by
  refine ⟨fun a c' hc => ?_, fun a c' hc hact' => ?_, fun a c' hc hopen => ?_,
    fun a c' b d' hc hd hopen hopen' hsame => ?_, fun a c' hc => ?_,
    fun a c' b d' hc hd hsame => ?_⟩
  · obtain ⟨c, hc, -⟩ := hk a c' hc
    obtain ⟨hwhole, hcut, horder⟩ := h.streams a c hc
    exact ⟨hwhole, hcut, horder⟩
  · obtain ⟨c, hc, -, hact, -⟩ := hk a c' hc
    exact h.active a c hc (hact hact')
  · obtain ⟨c, hc, hsock, -, hstage⟩ := hk a c' hc
    rw [hsock]
    exact h.fds a c hc (hstage hopen)
  · obtain ⟨c, hc, hsock, -, hstage⟩ := hk a c' hc
    obtain ⟨d, hd, hsock', -, hstage'⟩ := hk b d' hd
    exact h.apart a c b d hc hd (hstage hopen) (hstage' hopen')
      (hsock.symm.trans (hsame.trans hsock'))
  · obtain ⟨c, hc, -⟩ := hk a c' hc
    exact h.born a c hc
  · obtain ⟨c, hc, -⟩ := hk a c' hc
    obtain ⟨d, hd, -⟩ := hk b d' hd
    exact h.inj a c b d hc hd hsame

theorem recv_outgoing (s : Sock) (n : ℕ) : (recv s n).2.outgoing = s.outgoing := by
  unfold recv
  split <;> rfl

/-- STEP (`recv()`): what was sent stays sent. -/
theorem recvFrom_orderly (h : Orderly s) (k n : ℕ) : Orderly (recvFrom s k n) := by
  unfold recvFrom
  split
  · exact h
  · rename_i m _
    have hout : ∀ a, outgoing { s with conn := Function.update s.conn m (recv (s.conn m) n).2 } a =
        outgoing s a := by
      intro a
      change (Function.update s.conn m (recv (s.conn m) n).2 (s.born a)).outgoing = _
      by_cases ha : s.born a = m
      · rw [outgoing, ha, Function.update_self, recv_outgoing]
      · rw [outgoing, Function.update_of_ne ha]
    refine ⟨fun a c hc => ?_, h.active, h.fds, h.apart, h.born, h.inj⟩
    obtain ⟨hwhole, hcut, horder⟩ := h.streams a c hc
    exact ⟨fun hf => (hout a).trans (hwhole hf), fun hf => (hout a).symm ▸ hcut hf, horder⟩

/-- STEP (`handle_client`): the thread closes the descriptor, which no other client has. -/
theorem closeSock_orderly (h : Orderly s) {a : ℕ} {c : PscClient} (hc : s.key.heap a = some c)
    {key : PscKey} (hkey : closeSock s.key a = some key) :
    Orderly { closeFd s c.sock with key := key } := by
  have ht := h.tame (closeSock_tame hkey)
  refine ⟨fun b d hd => ?_, ht.active, fun b d hd hopen => ?_, ht.apart, ht.born, ht.inj⟩
  · obtain ⟨hwhole, hcut, horder⟩ := ht.streams b d hd
    exact ⟨hwhole, hcut, horder⟩
  · -- the client itself is closed now, so this is another one
    obtain ⟨e, he, hsock, -, hstage⟩ := closeSock_tame hkey b d hd
    obtain ⟨c', hat, hmod⟩ := Option.bind_eq_some_iff.mp hkey
    obtain ⟨hc', hremoved⟩ := clientAt_some hat
    obtain ⟨c'', -, rfl⟩ := modify_some hmod
    have hne : b ≠ a := by
      rintro rfl
      have hd' : some { c'' with stage := .closed } = some d := (if_pos rfl).symm.trans hd
      cases hd'
      exact hopen rfl
    have hother : d.sock ≠ c.sock := by
      intro hsame
      cases hc.symm.trans hc'
      refine hne (h.apart b e a c he hc (hstage hopen) ?_ (hsock.symm.trans hsame))
      rw [hremoved]
      nofun
    change Function.update s.fds c.sock none d.sock = _
    rw [Function.update_of_ne hother]
    exact ht.fds b d hd hopen

/-- `psc_run` turns a client away, or allocates it. -/
theorem accept_heap {k key : PscKey} {answer : AcceptEnv} (h : accept k answer = some key) :
    (key.heap = k.heap ∧ key.starting = none) ∨ ∃ sock a, answer = .client sock a ∧
      k.heap a = none ∧
      key.heap = (setClient k a (some ⟨none, none, false, sock, false, .receiving⟩)).heap ∧
      key.starting = some a := by
  unfold accept at h
  split at h
  · cases h
  · rename_i hstart
    have hnone : k.starting = none := by simpa using hstart
    cases answer with
    | client sock a =>
      dsimp only at h
      split at h
      · cases h
        exact .inl ⟨rfl, hnone⟩
      · split at h
        · cases h
        · rename_i hfree
          cases h
          exact .inr ⟨sock, a, rfl, by simpa using hfree, rfl, rfl⟩
    | _ =>
      cases h
      exact .inl ⟨rfl, hnone⟩

/-- STEP (`psc_run`): a client that is allocated has been sent nothing, and has a connection and a
    descriptor of its own. -/
theorem newClient_orderly (h : Orderly s) {k a : ℕ} {incoming : List UInt8} {env : ℕ → Moved}
    (hfree : s.key.heap a = none)
    (hfd : ∀ b c, s.key.heap b = some c → c.stage ≠ .closed → c.sock ≠ k) {key : PscKey}
    (hheap : key.heap = (setClient s.key a (some ⟨none, none, false, k, false, .receiving⟩)).heap) :
    Orderly { newClient s k a incoming env with key := key } := by
  have hself : ∀ d, key.heap a = some d → d = ⟨none, none, false, k, false, .receiving⟩ := by
    intro d hd
    rw [hheap, setClient_self] at hd
    exact (Option.some.inj hd).symm
  have hother : ∀ b d, b ≠ a → key.heap b = some d → s.key.heap b = some d := by
    intro b d hb hd
    rwa [hheap, setClient_ne s.key _ hb] at hd
  have hborn : Function.update s.born a s.count a = s.count := Function.update_self ..
  refine ⟨fun b d hd => ?_, fun b d hd hact => ?_, fun b d hd hopen => ?_,
    fun b d b' d' hd hd' hopen hopen' hsame => ?_, fun b d hd => ?_,
    fun b d b' d' hd hd' hsame => ?_⟩
  · by_cases hb : b = a
    · subst hb
      refine ⟨fun _ => ?_, fun hf => ?_, ?_⟩
      · simp [outgoing, newClient]
      · simp [newClient] at hf
      · simp [newClient]
    · obtain ⟨hwhole, hcut, horder⟩ := h.streams b d (hother b d hb hd)
      have hlt := h.born b d (hother b d hb hd)
      have hout : outgoing { newClient s k a incoming env with key := key } b = outgoing s b := by
        simp only [outgoing, newClient, Function.update_of_ne hb,
          Function.update_of_ne (Nat.ne_of_lt hlt)]
      refine ⟨fun hf => ?_, fun hf => ?_, ?_⟩
      · rw [hout]
        simp only [newClient, Function.update_of_ne hb] at hf ⊢
        exact hwhole hf
      · rw [hout]
        simp only [newClient, Function.update_of_ne hb] at hf ⊢
        exact hcut hf
      · simp only [newClient, Function.update_of_ne hb]
        exact horder
  · by_cases hb : b = a
    · subst hb
      rw [hself d hd] at hact
      cases hact
    · simp only [newClient, Function.update_of_ne hb]
      exact h.active b d (hother b d hb hd) hact
  · by_cases hb : b = a
    · subst hb
      rw [hself d hd]
      simp [newClient]
    · have hne : d.sock ≠ k := hfd b d (hother b d hb hd) hopen
      simp only [newClient, Function.update_of_ne hb, Function.update_of_ne hne]
      exact h.fds b d (hother b d hb hd) hopen
  · by_cases hb : b = a <;> by_cases hb' : b' = a
    · rw [hb, hb']
    · subst hb
      rw [hself d hd] at hsame
      exact absurd hsame.symm (hfd b' d' (hother b' d' hb' hd') hopen')
    · subst hb'
      rw [hself d' hd'] at hsame
      exact absurd hsame (hfd b d (hother b d hb hd) hopen)
    · exact h.apart b d b' d' (hother b d hb hd) (hother b' d' hb' hd') hopen hopen' hsame
  · change Function.update s.born a s.count b < s.count + 1
    by_cases hb : b = a
    · rw [hb, hborn]
      omega
    · have hlt := h.born b d (hother b d hb hd)
      rw [Function.update_of_ne hb]
      omega
  · change Function.update s.born a s.count b = Function.update s.born a s.count b' at hsame
    by_cases hb : b = a <;> by_cases hb' : b' = a
    · rw [hb, hb']
    · have hlt := h.born b' d' (hother b' d' hb' hd')
      rw [hb, hborn, Function.update_of_ne hb'] at hsame
      omega
    · have hlt := h.born b d (hother b d hb hd)
      rw [hb', hborn, Function.update_of_ne hb] at hsame
      omega
    · rw [Function.update_of_ne hb, Function.update_of_ne hb'] at hsame
      exact h.inj b d b' d' (hother b d hb hd) (hother b' d' hb' hd') hsame

theorem accept_orderly (h : Orderly s) {answer : AcceptEnv} {incoming : List UInt8}
    {env : ℕ → Moved} (hc : Unmixed s (.accept answer incoming env))
    (hs : acceptClient s answer incoming env = some t) : Orderly t := by
  unfold acceptClient at hs
  split at hs
  · cases hs
  obtain ⟨key, hkey, rfl⟩ := Option.map_eq_some_iff.mp hs
  rcases accept_heap hkey with ⟨hheap, hnone⟩ | ⟨sock, a, rfl, hfree, hheap, hstart⟩
  · cases answer with
    | client k a =>
      dsimp only
      rw [hnone, if_neg nofun]
      exact h.tame (.of_heap hheap)
    | _ => exact h.tame (.of_heap hheap)
  · dsimp only
    rw [if_pos hstart]
    exact newClient_orderly h hfree (hc sock a rfl) hheap

/-- STEP (`psc_run`): a client that is linked is active, and has not failed. -/
theorem link_orderly (h : Orderly s) (hc : Unmixed s .link) {key : PscKey}
    (hs : link s.key = some key) : Orderly { s with key := key } := by
  obtain ⟨a, c, ha, hca, rfl⟩ := link_cases hs
  -- but for its flag and its link, the client is as it was
  have hback : ∀ b d, (setClient s.key a (some { c with
      next := s.key.clientHead, active := true, linked := true })).heap b = some d →
      ∃ e, s.key.heap b = some e ∧ d.sock = e.sock ∧ d.stage = e.stage ∧
        (d.active = true → s.failed b = false) := by
    intro b d hd
    by_cases hb : b = a
    · subst hb
      rw [setClient_self, Option.some.injEq] at hd
      subst hd
      exact ⟨c, hca, rfl, rfl, fun _ => hc b ha⟩
    · rw [setClient_ne s.key _ hb] at hd
      exact ⟨d, hd, rfl, rfl, h.active b d hd⟩
  refine ⟨fun b d hd => ?_, fun b d hd hact => ?_, fun b d hd hopen => ?_,
    fun b d b' d' hd hd' hopen hopen' hsame => ?_, fun b d hd => ?_,
    fun b d b' d' hd hd' hsame => ?_⟩
  · obtain ⟨e, he, -⟩ := hback b d hd
    obtain ⟨hwhole, hcut, horder⟩ := h.streams b e he
    exact ⟨hwhole, hcut, horder⟩
  · obtain ⟨e, -, -, -, hok⟩ := hback b d hd
    exact hok hact
  · obtain ⟨e, he, hsock, hstage, -⟩ := hback b d hd
    rw [hsock]
    exact h.fds b e he (hstage ▸ hopen)
  · obtain ⟨e, he, hsock, hstage, -⟩ := hback b d hd
    obtain ⟨e', he', hsock', hstage', -⟩ := hback b' d' hd'
    exact h.apart b e b' e' he he' (hstage ▸ hopen) (hstage' ▸ hopen')
      (hsock.symm.trans (hsame.trans hsock'))
  · obtain ⟨e, he, -⟩ := hback b d hd
    exact h.born b e he
  · obtain ⟨e, he, -⟩ := hback b d hd
    obtain ⟨e', he', -⟩ := hback b' d' hd'
    exact h.inj b e b' e' he he' hsame

end Steps

end Pscdrv.Target
