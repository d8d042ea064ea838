import Mathlib.Logic.Function.Basic
import Pscdrv.Schemes.Handles
import Pscdrv.Target.ClientList

/-! # The sockets of the clients

    `accept()` opens a socket, `handle_client` receives from it and closes it, and under `sendguard`
    the senders send to it and close it on an error. A descriptor that is closed can be given to the
    next client.

        psc_run         accept ─┐
        handle_client           ├── recv … recv ────────────────── close
        psc_send                ├── send … send, on an error close
        psc_send_one            └── send … send, on an error close

    The model records the calls alone. Here an observer also notes which client a call is made for:
    the accepted sockets are numbered, and an address stands for the last one that was accepted
    there. -/

namespace Pscdrv.Target

open Run Handles

variable {s t : PscKey}

def SockCall.sock : SockCall → ℕ
  | .accept sock | .send sock | .recv sock | .close sock => sock

/-- What a call does with the descriptor. -/
def SockCall.act : SockCall → Act ℕ
  | .accept sock => .acquire sock
  | .send sock | .recv sock => .use sock
  | .close sock => .release sock

def SockCall.isClose : SockCall → Bool
  | .close _ => true
  | _ => false

/-! ### The observer -/

/-- The calls of `sendMsg`. -/
def sendCalls (a : ℕ) (c : PscClient) (ok : Bool) : List (ℕ × SockCall) :=
  (a, .send c.sock) :: if ok then [] else [(a, .close c.sock)]

/-- The calls of `sendAll`. -/
def sendAllCalls (s : PscKey) (ok : ℕ → Bool) : List ℕ → List (ℕ × SockCall)
  | [] => []
  | a :: l => match s.heap a with
    | none => []
    | some c =>
      if c.active then
        sendCalls a c (ok a) ++ match sendMsg s a c (ok a) with
          | none => []
          | some s => sendAllCalls s ok l
      else sendAllCalls s ok l

/-- The calls of a step on the sockets of clients, each with the address of the client. -/
def callsOf (s : PscKey) : Op → List (ℕ × SockCall)
  | .recvMsg a => (s.heap a).toList.map fun c => (a, .recv c.sock)
  | .closeSock a => (s.heap a).toList.map fun c => (a, .close c.sock)
  | .pscSendOne a ok => (s.heap a).toList.flatMap fun c => sendCalls a c ok
  | .pscSend fuel ok =>
    (follow (nextOf s) fuel s.clientHead).toList.flatMap fun l => sendAllCalls s ok l
  | .accept _ | .link | .remove _ | .free _ => []

/-- The observer's notes: how many sockets were accepted, which of them the client at an address
    has, and the calls that were made for each. -/
structure Book where
  count : ℕ
  born : ℕ → ℕ
  log : List (ℕ × SockCall)

def Book.init : Book := ⟨0, fun _ => 0, []⟩

/-- Dropping a client, or failing to start its thread. -/
def Book.turnAway (b : Book) (sock : ℕ) : Book :=
  { b with
    count := b.count + 1
    log := b.log ++ [(b.count, .accept sock), (b.count, .close sock)] }

/-- A client at `a`. -/
def Book.welcome (b : Book) (sock a : ℕ) : Book where
  count := b.count + 1
  born := Function.update b.born a b.count
  log := b.log ++ [(b.count, .accept sock)]

def Book.accept (b : Book) (s : PscKey) : AcceptEnv → Book
  | .error => b
  | .noMemory sock | .noThread sock => b.turnAway sock
  | .client sock a => if pscMaxClients ≤ s.clientCount then b.turnAway sock else b.welcome sock a

/-- Calls for clients that were accepted before. -/
def Book.add (b : Book) (calls : List (ℕ × SockCall)) : Book :=
  { b with log := b.log ++ calls.map fun u => (b.born u.1, u.2) }

def noteCalls (s : PscKey) (op : Op) (b : Book) : Book :=
  match op with
  | .accept env => b.accept s env
  | .link | .recvMsg _ | .remove _ | .closeSock _ | .free _ | .pscSend _ _ | .pscSendOne _ _ =>
    b.add (callsOf s op)

/-- How often the socket of client `n` was closed. -/
def closes (n : ℕ) (log : List (ℕ × SockCall)) : ℕ := log.countP fun u => u.1 = n && u.2.isClose

/-- The thread of client `n` is behind its `close(C->sock)`, or at its end. -/
def Finished (s : PscKey) (b : Book) (n : ℕ) : Prop :=
  ∀ a c, s.heap a = some c → b.born a = n → c.stage = .closed

/-- Every accepted socket is closed once, and then nothing is done for its client any more. -/
structure OnceClosed (s : PscKey) (b : Book) : Prop where
  /-- the notes are complete -/
  calls : b.log.map Prod.snd = s.calls
  once : ∀ n < b.count, closes n b.log ≤ 1 ∧ (Finished s b n → closes n b.log = 1)
  last : ∀ pre n sock post, b.log = pre ++ (n, .close sock) :: post → ∀ u ∈ post, u.1 ≠ n
  /-- those that had a descriptor before it is accepted again are done -/
  reused : ∀ pre n sock post, b.log = pre ++ (n, .accept sock) :: post →
    ∀ u ∈ pre, u.2.sock = sock → ∀ v ∈ post, v.1 ≠ u.1

/-- What the system promises of `accept()`: the descriptor of a new connection is not open. -/
def Fresh (s : PscKey) : Op → Prop
  | .accept env => ∀ sock ∈ env.sock?, isOpen sock (s.calls.map SockCall.act) = false
  | _ => True

/-- Every `psc_sendmsg` succeeds, and is for a client whose thread has not closed the socket. -/
def Unbroken (s : PscKey) : Op → Prop
  | .pscSend fuel ok => ∀ l ∈ follow (nextOf s) fuel s.clientHead, ∀ a ∈ l, ∀ c ∈ s.heap a,
      c.active = true → ok a = true ∧ c.stage ≠ .closed
  | .pscSendOne a ok => ok = true ∧ ∀ c ∈ s.heap a, c.stage ≠ .closed
  | _ => True

/-! ### The invariant -/

/-- The calls as acts on handles. -/
def acts (log : List (ℕ × SockCall)) : List (ℕ × Act ℕ) := log.map fun u => (u.1, u.2.act)

/-- The calls are proper, and the sockets that are held are those of the clients whose threads have
    not closed them. -/
structure SockInv (s : PscKey) (b : Book) : Prop where
  calls : b.log.map Prod.snd = s.calls
  proper : Proper (acts b.log)
  accepted : ∀ n, (∃ e ∈ acts b.log, e.1 = n) ↔ n < b.count
  born : ∀ a c, s.heap a = some c → b.born a < b.count
  inj : ∀ a c a' c', s.heap a = some c → s.heap a' = some c' → b.born a = b.born a' → a = a'
  held : ∀ n k, held n (acts b.log) = some k ↔
    ∃ a c, s.heap a = some c ∧ b.born a = n ∧ c.stage ≠ .closed ∧ c.sock = k

@[simp] theorem acts_append (log log' : List (ℕ × SockCall)) :
    acts (log ++ log') = acts log ++ acts log' := List.map_append

@[simp] theorem acts_singleton (n : ℕ) (call : SockCall) : acts [(n, call)] = [(n, call.act)] := rfl

theorem act_handle (call : SockCall) : call.act.handle = call.sock := by cases call <;> rfl

theorem closes_eq (n : ℕ) (log : List (ℕ × SockCall)) : closes n log = releases n (acts log) := by
  rw [closes, releases, acts, List.countP_map]
  refine List.countP_congr fun u _ => ?_
  cases hu : u.2 <;> simp [hu, SockCall.isClose, SockCall.act, Act.isRelease]

theorem SockInv.onceClosed {b : Book} (h : SockInv s b) : OnceClosed s b where
  calls := h.calls
  once n hn := by
    rw [closes_eq, h.proper.releases_eq ((h.accepted n).mpr hn)]
    constructor
    · split <;> omega
    · intro hfin
      rw [if_pos]
      cases hk : Handles.held n (acts b.log) with
      | none => rfl
      | some k =>
        obtain ⟨a, c, hc, hborn, hstage, -⟩ := (h.held n k).mp hk
        exact absurd (hfin a c hc hborn) hstage
  last pre n sock post heq u hu := by
    have hproper := h.proper
    rw [heq, acts_append] at hproper
    exact hproper.release_last (u.1, u.2.act) (List.mem_map_of_mem hu)
  reused pre n sock post heq u hu hsock v hv := by
    have hproper := h.proper
    rw [heq, acts_append] at hproper
    have hmem : (u.1, u.2.act) ∈ acts pre := List.mem_map_of_mem hu
    exact hproper.reacquired hmem ((act_handle u.2).trans hsock) (v.1, v.2.act)
      (List.mem_map_of_mem hv)

theorem sockInv_init : SockInv PscKey.init Book.init where
  calls := rfl
  proper := proper_nil
  accepted n := by simp [acts, Book.init]
  born a c h := nomatch h
  inj a c a' c' h := nomatch h
  held n k := by simp [acts, Book.init, PscKey.init]

/-! ### Steps that leave the sockets alone -/

/-- What of a client matters for its socket. -/
def sockOf (c : PscClient) : ℕ × Bool := (c.sock, c.stage == .closed)

/-- The clients have the same sockets, and no call was made. -/
structure SameSocks (s t : PscKey) : Prop where
  calls : t.calls = s.calls
  socks : ∀ a, (t.heap a).map sockOf = (s.heap a).map sockOf

theorem SameSocks.refl (s : PscKey) : SameSocks s s := ⟨rfl, fun _ => rfl⟩

theorem SameSocks.trans {u : PscKey} (h : SameSocks s t) (k : SameSocks t u) : SameSocks s u :=
  ⟨k.calls.trans h.calls, fun a => (k.socks a).trans (h.socks a)⟩

theorem SameSocks.modify {a : ℕ} {f : PscClient → PscClient} (h : modify s a f = some t)
    (hf : ∀ c, s.heap a = some c → sockOf (f c) = sockOf c) : SameSocks s t := by
  obtain ⟨c, hc, rfl⟩ := modify_some h
  refine ⟨rfl, fun b => ?_⟩
  dsimp only
  split
  · rename_i hb
    rw [hb, hc, Option.map_some, Option.map_some, hf c hc]
  · rfl

theorem SameSocks.back (h : SameSocks s t) {a : ℕ} {c : PscClient} (hc : t.heap a = some c) :
    ∃ d, s.heap a = some d ∧ d.sock = c.sock ∧ (d.stage = .closed ↔ c.stage = .closed) := by
  have hs := h.socks a
  rw [hc, Option.map_some, eq_comm, Option.map_eq_some_iff] at hs
  obtain ⟨d, hd, heq⟩ := hs
  simp only [sockOf, Prod.mk.injEq] at heq
  refine ⟨d, hd, heq.1, ?_⟩
  rw [← beq_iff_eq, heq.2, beq_iff_eq]

theorem SameSocks.symm (h : SameSocks s t) : SameSocks t s :=
  ⟨h.calls.symm, fun a => (h.socks a).symm⟩

/-- STEP: clients that are linked, or patched out of the list. -/
theorem SameSocks.inv (h : SameSocks s t) {b : Book} (hi : SockInv s b) : SockInv t b where
  calls := hi.calls.trans h.calls.symm
  proper := hi.proper
  accepted := hi.accepted
  born a c hc := by
    obtain ⟨d, hd, -⟩ := h.back hc
    exact hi.born a d hd
  inj a c a' c' hc hc' heq := by
    obtain ⟨d, hd, -⟩ := h.back hc
    obtain ⟨d', hd', -⟩ := h.back hc'
    exact hi.inj a d a' d' hd hd' heq
  held n k := by
    rw [hi.held n k]
    constructor
    · rintro ⟨a, c, hc, hborn, hstage, hsock⟩
      obtain ⟨d, hd, hsame, hclosed⟩ := h.symm.back hc
      exact ⟨a, d, hd, hborn, fun heq => hstage (hclosed.mp heq), hsame.trans hsock⟩
    · rintro ⟨a, c, hc, hborn, hstage, hsock⟩
      obtain ⟨d, hd, hsame, hclosed⟩ := h.back hc
      exact ⟨a, d, hd, hborn, fun heq => hstage (hclosed.mp heq), hsame.trans hsock⟩

theorem link_socks (h : link s = some t) : SameSocks s t := by
  obtain ⟨a, c, -, hc, rfl⟩ := link_cases h
  refine ⟨rfl, fun b => ?_⟩
  by_cases hb : b = a
  · rw [hb, hc]
    simp [setClient, sockOf]
  · simp [setClient, hb]

theorem unlinkNext_socks {c : PscClient} (h : unlinkNext s c = some t) : SameSocks s t := by
  unfold unlinkNext at h
  split at h
  · exact .modify h fun _ _ => rfl
  · rw [Option.some.injEq] at h
    exact h ▸ .refl s

theorem unlinkPrev_socks {c : PscClient} (h : unlinkPrev s c = some t) : SameSocks s t := by
  unfold unlinkPrev at h
  split at h
  · exact .modify h fun _ _ => rfl
  · rw [Option.some.injEq] at h
    exact h ▸ ⟨rfl, fun _ => rfl⟩

theorem remove_socks {a : ℕ} (h : remove s a = some t) : SameSocks s t := by
  obtain ⟨c, hc, h⟩ := Option.bind_eq_some_iff.mp h
  obtain ⟨hc, hstage⟩ := clientAt_some hc
  obtain ⟨s₁, h₁, h⟩ := Option.bind_eq_some_iff.mp h
  obtain ⟨s₂, h₂, h⟩ := Option.bind_eq_some_iff.mp h
  have hsame : SameSocks s s₂ := (unlinkNext_socks h₁).trans (unlinkPrev_socks h₂)
  have hcount : SameSocks s₂ { s₂ with clientCount := s₂.clientCount - 1 } := ⟨rfl, fun _ => rfl⟩
  refine (hsame.trans hcount).trans (.modify h fun d hd => ?_)
  -- the thread was still receiving, so the socket is open before and after
  obtain ⟨c', hc', -, hclosed⟩ := hsame.back hd
  rw [hc, Option.some.injEq] at hc'
  subst hc'
  have hd : d.stage ≠ .closed := fun heq => by
    rw [hclosed.mpr heq] at hstage
    cases hstage
  simp [sockOf, beq_eq_false_iff_ne.mpr hd]

/-! ### Steps on a socket -/

variable {b : Book}

/-- A client whose thread has not closed its socket holds it. -/
theorem SockInv.held_self (h : SockInv s b) {a : ℕ} {c : PscClient} (hc : s.heap a = some c)
    (hstage : c.stage ≠ .closed) : Handles.held (b.born a) (acts b.log) = some c.sock :=
  (h.held _ _).mpr ⟨a, c, hc, rfl, hstage, rfl⟩

/-- Calls for clients that were accepted before. -/
theorem SockInv.accepted_concat (h : SockInv s b) {a : ℕ} {c : PscClient} (hc : s.heap a = some c)
    (call : SockCall) (n : ℕ) :
    (∃ e ∈ acts (b.log ++ [(b.born a, call)]), e.1 = n) ↔ n < b.count := by
  rw [← h.accepted n]
  constructor
  · rintro ⟨e, he, rfl⟩
    rw [acts_append, acts_singleton, List.mem_append, List.mem_singleton] at he
    rcases he with he | rfl
    · exact ⟨e, he, rfl⟩
    · exact (h.accepted _).mpr (h.born a c hc)
  · rintro ⟨e, he, rfl⟩
    exact ⟨e, by rw [acts_append]; exact List.mem_append_left _ he, rfl⟩

/-- STEP: send to or receive from a client whose thread has not closed the socket. -/
theorem SockInv.use (h : SockInv s b) {a : ℕ} {c : PscClient} (hc : s.heap a = some c)
    (hstage : c.stage ≠ .closed) {call : SockCall} (hcall : call.act = .use c.sock) :
    SockInv { s with calls := s.calls ++ [call] }
      { b with log := b.log ++ [(b.born a, call)] } where
  calls := by rw [List.map_append, h.calls, List.map_singleton]
  proper := by
    rw [acts_append, acts_singleton, hcall]
    exact proper_concat.mpr ⟨h.proper, h.held_self hc hstage⟩
  accepted := h.accepted_concat hc call
  born := h.born
  inj := h.inj
  held n k := by
    rw [acts_append, acts_singleton, hcall, held_concat]
    split
    · rename_i hn
      rw [← h.held n k, ← hn, h.held_self hc hstage]
      rfl
    · exact h.held n k

/-- STEP: the thread of a client closes the socket. -/
theorem SockInv.close (h : SockInv s b) {a : ℕ} {c : PscClient} (hc : s.heap a = some c)
    (hstage : c.stage ≠ .closed) :
    SockInv { setClient s a (some { c with stage := .closed }) with
        calls := s.calls ++ [.close c.sock] }
      { b with log := b.log ++ [(b.born a, .close c.sock)] } where
  calls := by rw [List.map_append, h.calls, List.map_singleton]
  proper := by
    rw [acts_append, acts_singleton]
    exact proper_concat.mpr ⟨h.proper, h.held_self hc hstage⟩
  accepted := h.accepted_concat hc _
  born a' c' hc' := by
    by_cases ha : a' = a
    · exact ha ▸ h.born a c hc
    · rw [setClient_ne s _ ha] at hc'
      exact h.born a' c' hc'
  inj a₁ c₁ a₂ c₂ h₁ h₂ heq := by
    have hback : ∀ a' c', (setClient s a (some { c with stage := .closed })).heap a' = some c' →
        ∃ d, s.heap a' = some d := by
      intro a' c' hc'
      by_cases ha : a' = a
      · exact ⟨c, ha ▸ hc⟩
      · rw [setClient_ne s _ ha] at hc'
        exact ⟨c', hc'⟩
    obtain ⟨d₁, hd₁⟩ := hback a₁ c₁ h₁
    obtain ⟨d₂, hd₂⟩ := hback a₂ c₂ h₂
    exact h.inj a₁ d₁ a₂ d₂ hd₁ hd₂ heq
  held n k := by
    rw [acts_append, acts_singleton, held_concat]
    split
    · rename_i hn
      refine iff_of_false ?_ ?_
      · intro heq
        cases heq
      · rintro ⟨a', c', hc', hborn, hopen, -⟩
        by_cases ha : a' = a
        · subst ha
          rw [setClient_self, Option.some.injEq] at hc'
          exact hopen (hc' ▸ rfl)
        · rw [setClient_ne s _ ha] at hc'
          exact ha (h.inj a' c' a c hc' hc (hborn.trans hn.symm))
    · rename_i hn
      rw [h.held n k]
      refine exists_congr fun a' => exists_congr fun c' => ?_
      by_cases ha : a' = a
      · subst ha
        exact iff_of_false (fun hx => hn hx.2.1) (fun hx => hn hx.2.1)
      · rw [setClient_ne s _ ha]

/-- STEP: the memory of a client is given back. -/
theorem SockInv.free (h : SockInv s b) {a : ℕ} {c : PscClient} (hc : s.heap a = some c)
    (hstage : c.stage = .closed) : SockInv (setClient s a none) b where
  calls := h.calls
  proper := h.proper
  accepted := h.accepted
  born a' c' hc' := by
    by_cases ha : a' = a
    · rw [ha, setClient_self] at hc'
      cases hc'
    · rw [setClient_ne s _ ha] at hc'
      exact h.born a' c' hc'
  inj a₁ c₁ a₂ c₂ h₁ h₂ heq := by
    by_cases ha : a₁ = a
    · rw [ha, setClient_self] at h₁
      cases h₁
    · by_cases ha' : a₂ = a
      · rw [ha', setClient_self] at h₂
        cases h₂
      · rw [setClient_ne s _ ha] at h₁
        rw [setClient_ne s _ ha'] at h₂
        exact h.inj a₁ c₁ a₂ c₂ h₁ h₂ heq
  held n k := by
    rw [h.held n k]
    refine exists_congr fun a' => exists_congr fun c' => ?_
    by_cases ha : a' = a
    · subst ha
      rw [setClient_self, hc]
      refine iff_of_false ?_ (by simp)
      rintro ⟨heq, -, hopen, -⟩
      rw [Option.some.injEq] at heq
      exact hopen (heq ▸ hstage)
    · rw [setClient_ne s _ ha]

/-- A descriptor that is not open is held by no client. -/
theorem SockInv.not_held (h : SockInv s b) {sock : ℕ}
    (hclosed : isOpen sock (s.calls.map SockCall.act) = false) (n : ℕ) :
    Handles.held n (acts b.log) ≠ some sock := by
  intro hn
  have hopen := h.proper.isOpen_iff.mpr ⟨n, hn⟩
  have hcalls : (acts b.log).map Prod.snd = s.calls.map SockCall.act := by
    rw [← h.calls, acts, List.map_map, List.map_map]
    rfl
  rw [hcalls, hclosed] at hopen
  cases hopen

/-- The next number is not taken. -/
theorem SockInv.fresh (h : SockInv s b) : ∀ e ∈ acts b.log, e.1 ≠ b.count :=
  fun e he heq => absurd ((h.accepted b.count).mp ⟨e, he, heq⟩) (Nat.lt_irrefl _)

theorem SockInv.proper_accept (h : SockInv s b) {sock : ℕ}
    (hclosed : isOpen sock (s.calls.map SockCall.act) = false) :
    Proper (acts (b.log ++ [(b.count, .accept sock)])) := by
  rw [acts_append]
  exact proper_concat.mpr ⟨h.proper, h.fresh, h.not_held hclosed⟩

theorem SockInv.accepted_succ (h : SockInv s b) {post : List (ℕ × SockCall)} (hpost : post ≠ [])
    (hown : ∀ u ∈ post, u.1 = b.count) (n : ℕ) :
    (∃ e ∈ acts (b.log ++ post), e.1 = n) ↔ n < b.count + 1 := by
  rw [Nat.lt_succ_iff_lt_or_eq, ← h.accepted n]
  constructor
  · rintro ⟨e, he, rfl⟩
    rw [acts_append, List.mem_append] at he
    rcases he with he | he
    · exact .inl ⟨e, he, rfl⟩
    · obtain ⟨u, hu, rfl⟩ := List.mem_map.mp he
      exact .inr (hown u hu)
  · rintro (⟨e, he, rfl⟩ | rfl)
    · exact ⟨e, by rw [acts_append]; exact List.mem_append_left _ he, rfl⟩
    · obtain ⟨u, hu⟩ := List.exists_mem_of_ne_nil post hpost
      refine ⟨(u.1, u.2.act), ?_, hown u hu⟩
      rw [acts_append]
      exact List.mem_append_right _ (List.mem_map_of_mem hu)

/-- STEP: a connection that is turned away. -/
theorem SockInv.turnAway (h : SockInv s b) {sock : ℕ}
    (hclosed : isOpen sock (s.calls.map SockCall.act) = false) :
    SockInv { s with calls := s.calls ++ [.accept sock, .close sock] } (b.turnAway sock) where
  calls := by rw [Book.turnAway, List.map_append, h.calls]; rfl
  proper := by
    have hsplit : (b.turnAway sock).log =
        (b.log ++ [(b.count, .accept sock)]) ++ [(b.count, .close sock)] := by
      rw [Book.turnAway, List.append_assoc]
      rfl
    rw [hsplit, acts_append]
    refine proper_concat.mpr ⟨h.proper_accept hclosed, ?_⟩
    change Handles.held b.count (acts (b.log ++ [(b.count, .accept sock)])) = some sock
    rw [acts_append, acts_singleton, held_concat, if_pos rfl]
    rfl
  accepted := h.accepted_succ (by simp) (by simp)
  born a c hc := Nat.lt_succ_of_lt (h.born a c hc)
  inj := h.inj
  held n k := by
    have hacts : acts (b.turnAway sock).log =
        (acts b.log ++ [(b.count, .acquire sock)]) ++ [(b.count, .release sock)] := by
      rw [Book.turnAway, acts_append, List.append_assoc]
      rfl
    rw [hacts, held_concat, held_concat]
    by_cases hn : b.count = n
    · rw [if_pos hn]
      refine iff_of_false nofun ?_
      rintro ⟨a, c, hc, hborn, -⟩
      exact absurd (h.born a c hc) (by rw [show b.born a = b.count from hborn.trans hn.symm]; omega)
    · rw [if_neg hn, if_neg hn]
      exact h.held n k

/-- STEP: a connection that becomes a client. -/
theorem SockInv.welcome (h : SockInv s b) {sock a : ℕ}
    (hclosed : isOpen sock (s.calls.map SockCall.act) = false) (hfree : s.heap a = none) :
    SockInv { setClient s a (some ⟨none, none, false, sock, false, .receiving⟩) with
        starting := some a, calls := s.calls ++ [.accept sock] } (b.welcome sock a) := by
  have hold : ∀ a' c', (setClient s a (some ⟨none, none, false, sock, false, .receiving⟩)).heap a' =
      some c' → a' ≠ a → s.heap a' = some c' ∧ (b.welcome sock a).born a' = b.born a' := by
    intro a' c' hc' ha
    rw [setClient_ne s _ ha] at hc'
    exact ⟨hc', Function.update_of_ne ha _ _⟩
  have hself : (b.welcome sock a).born a = b.count := Function.update_self a _ _
  refine ⟨?_, h.proper_accept hclosed, h.accepted_succ (by simp) (by simp), ?_, ?_, ?_⟩
  · rw [Book.welcome, List.map_append, h.calls]
    rfl
  · intro a' c' hc'
    by_cases ha : a' = a
    · rw [ha, hself]
      exact Nat.lt_succ_self _
    · obtain ⟨hc', hborn⟩ := hold a' c' hc' ha
      rw [hborn]
      exact Nat.lt_succ_of_lt (h.born a' c' hc')
  · intro a₁ c₁ a₂ c₂ h₁ h₂ heq
    by_cases ha₁ : a₁ = a <;> by_cases ha₂ : a₂ = a
    · rw [ha₁, ha₂]
    · obtain ⟨h₂, hborn⟩ := hold a₂ c₂ h₂ ha₂
      rw [ha₁, hself, hborn] at heq
      exact absurd (h.born a₂ c₂ h₂) (by omega)
    · obtain ⟨h₁, hborn⟩ := hold a₁ c₁ h₁ ha₁
      rw [ha₂, hself, hborn] at heq
      exact absurd (h.born a₁ c₁ h₁) (by omega)
    · obtain ⟨h₁, hborn₁⟩ := hold a₁ c₁ h₁ ha₁
      obtain ⟨h₂, hborn₂⟩ := hold a₂ c₂ h₂ ha₂
      rw [hborn₁, hborn₂] at heq
      exact h.inj a₁ c₁ a₂ c₂ h₁ h₂ heq
  · intro n k
    have hacts : acts (b.welcome sock a).log = acts b.log ++ [(b.count, .acquire sock)] :=
      acts_append _ _
    rw [hacts, held_concat]
    constructor
    · split
      · rintro heq
        rename_i hn
        exact ⟨a, _, setClient_self s a _, hself.trans hn, by simp, Option.some.inj heq⟩
      · intro heq
        obtain ⟨a', c', hc', hborn, hopen⟩ := (h.held n k).mp heq
        have ha : a' ≠ a := by
          rintro rfl
          rw [hfree] at hc'
          cases hc'
        have hsame : (setClient s a (some ⟨none, none, false, sock, false, .receiving⟩)).heap a' =
            some c' := by rw [setClient_ne s _ ha, hc']
        exact ⟨a', c', hsame, (hold a' c' hsame ha).2.trans hborn, hopen⟩
    · rintro ⟨a', c', hc', hborn, hopen, hsock⟩
      by_cases ha : a' = a
      · subst ha
        rw [setClient_self, Option.some.injEq] at hc'
        rw [if_pos (hself.symm.trans hborn), ← hsock, ← hc']
        rfl
      · obtain ⟨hc', hb⟩ := hold a' c' hc' ha
        have hlt := h.born a' c' hc'
        rw [hb] at hborn
        rw [if_neg (by omega)]
        exact (h.held n k).mpr ⟨a', c', hc', hborn, hopen, hsock⟩

/-! ### Whole runs -/

/-- A send that succeeds is one call. -/
theorem sendMsg_true (s : PscKey) (a : ℕ) (c : PscClient) :
    sendMsg s a c true = some { s with calls := s.calls ++ [.send c.sock] } := rfl

/-- LOOP: `psc_send` over a list of clients that all take the message. -/
theorem SockInv.sendAll {ok : ℕ → Bool} {l : List ℕ} (h : SockInv s b)
    (hok : ∀ a ∈ l, ∀ c ∈ s.heap a, c.active = true → ok a = true ∧ c.stage ≠ .closed)
    (hs : sendAll s ok l = some t) : SockInv t (b.add (sendAllCalls s ok l)) := by
  induction l generalizing s b with
  | nil =>
    rw [Target.sendAll, Option.some.injEq] at hs
    rw [sendAllCalls, Book.add, List.map_nil, List.append_nil]
    exact hs ▸ h
  | cons a l ih =>
    obtain ⟨hhead, htail⟩ := List.forall_mem_cons.mp hok
    obtain ⟨c, hc, hs⟩ := Option.bind_eq_some_iff.mp hs
    rw [sendAllCalls, hc]
    dsimp only
    cases hactive : c.active with
    | false =>
      rw [hactive] at hs
      exact ih h htail hs
    | true =>
      obtain ⟨hsent, hstage⟩ := hhead c hc hactive
      rw [hactive, if_pos rfl, hsent, sendMsg_true, Option.bind_some] at hs
      rw [if_pos rfl, hsent, sendMsg_true]
      have hsend : SockCall.act (.send c.sock) = .use c.sock := rfl
      have hnext := ih (h.use hc hstage hsend) htail hs
      rw [Book.add, List.append_assoc] at hnext
      exact hnext

theorem SockInv.accept {env : AcceptEnv} (h : SockInv s b) (hfresh : Fresh s (.accept env))
    (hs : accept s env = some t) : SockInv t (b.accept s env) := by
  unfold Target.accept at hs
  split at hs
  · cases hs
  cases env with
  | error =>
    cases hs
    exact h
  | noMemory sock | noThread sock =>
    cases hs
    exact h.turnAway (hfresh sock rfl)
  | client sock a =>
    rw [Book.accept]
    dsimp only at hs
    split at hs
    · rename_i hfull
      cases hs
      rw [if_pos hfull]
      exact h.turnAway (hfresh sock rfl)
    · rename_i hroom
      split at hs
      · cases hs
      · rename_i hfree
        cases hs
        rw [if_neg hroom]
        exact h.welcome (hfresh sock rfl) (by simpa using hfree)

/-- A step that makes no call. -/
theorem SameSocks.step {op : Op} (hsame : SameSocks s t) (h : SockInv s b)
    (hnone : callsOf s op = []) : SockInv t (b.add (callsOf s op)) := by
  rw [hnone, Book.add, List.map_nil, List.append_nil]
  exact hsame.inv h

/-- STEP: every step in which nothing is sent in vain. -/
theorem sockInv_step {op : Op} (h : SockInv s b) (hfresh : Fresh s op) (hok : Unbroken s op)
    (hs : step s op = some t) : SockInv t (noteCalls s op b) := by
  cases op with
  | accept env => exact h.accept hfresh hs
  | link => exact (link_socks hs).step h rfl
  | remove a => exact (remove_socks hs).step h rfl
  | recvMsg a =>
    obtain ⟨c, hc, rfl⟩ := Option.map_eq_some_iff.mp hs
    obtain ⟨hc, hstage⟩ := clientAt_some hc
    rw [noteCalls, callsOf, hc]
    exact h.use hc (by simp [hstage]) rfl
  | closeSock a =>
    obtain ⟨c, hc, hs⟩ := Option.bind_eq_some_iff.mp hs
    obtain ⟨hc, hstage⟩ := clientAt_some hc
    obtain ⟨d, hd, rfl⟩ := modify_some hs
    obtain rfl : c = d := Option.some.inj (hc.symm.trans hd)
    rw [noteCalls, callsOf, hc]
    exact h.close hc (by simp [hstage])
  | free a =>
    obtain ⟨c, hc, rfl⟩ := Option.map_eq_some_iff.mp hs
    obtain ⟨hc, hstage⟩ := clientAt_some hc
    rw [noteCalls, callsOf, Book.add, List.map_nil, List.append_nil]
    exact h.free hc hstage
  | pscSend fuel ok =>
    obtain ⟨l, hl, hs⟩ := Option.bind_eq_some_iff.mp hs
    rw [noteCalls, callsOf, hl, Option.toList_some, List.flatMap_singleton]
    exact h.sendAll (hok l hl) hs
  | pscSendOne a ok =>
    obtain ⟨c, hc, hs⟩ := Option.bind_eq_some_iff.mp hs
    obtain ⟨rfl, hopen⟩ := hok
    rw [sendMsg_true, Option.some.injEq] at hs
    rw [noteCalls, callsOf, hc, ← hs]
    exact h.use hc (hopen c hc) rfl

/-- CLOSED ONCE: as long as every send succeeds, and none is for a client whose thread has closed
    its socket, every accepted socket is closed once and then not used any more. -/
theorem closed_once {ops : List Op} (hfresh : Along step Fresh PscKey.init ops)
    (hok : Along step Unbroken PscKey.init ops) :
    Always (observed step noteCalls) (fun p => OnceClosed p.1 p.2) (PscKey.init, Book.init)
      ops := by
  refine always_of_along (I := fun p : PscKey × Book => SockInv p.1 p.2) ?_
    (fun p h => h.onceClosed) sockInv_init (along_observed Book.init (along_and hfresh hok))
  rintro ⟨s, b⟩ op ⟨t, b'⟩ h ⟨hf, hu⟩ hs
  obtain ⟨hs, hb⟩ := observed_some hs
  dsimp only at hb
  rw [hb]
  exact sockInv_step h hf hu hs

instance (s : PscKey) (op : Op) : Decidable (Fresh s op) :=
  match op with
  | .accept env =>
    inferInstanceAs (Decidable (∀ sock ∈ env.sock?, isOpen sock (s.calls.map SockCall.act) = false))
  | .link | .recvMsg _ | .remove _ | .closeSock _ | .free _ | .pscSend _ _ | .pscSendOne _ _ =>
    .isTrue trivial

instance (s : PscKey) (op : Op) : Decidable (Unbroken s op) :=
  match op with
  | .pscSend fuel ok =>
    inferInstanceAs (Decidable (∀ l ∈ follow (nextOf s) fuel s.clientHead, ∀ a ∈ l,
      ∀ c ∈ s.heap a, c.active = true → ok a = true ∧ c.stage ≠ .closed))
  | .pscSendOne a ok =>
    inferInstanceAs (Decidable (ok = true ∧ ∀ c ∈ s.heap a, c.stage ≠ .closed))
  | .accept _ | .link | .recvMsg _ | .remove _ | .closeSock _ | .free _ => .isTrue trivial

/-- Two clients; the descriptor of the first is used again for a third. -/
def threeClients : List Op :=
  [.accept (.client 5 1), .link, .pscSendOne 1 true, .recvMsg 1, .accept (.client 6 2), .link,
    .pscSend 4 fun _ => true, .remove 2, .closeSock 2, .free 2, .remove 1, .closeSock 1,
    .accept (.client 5 2), .free 1, .link, .pscSend 4 fun _ => true, .recvMsg 2]

theorem closed_once_three : (exec step PscKey.init threeClients).isSome = true ∧
    Always (observed step noteCalls) (fun p => OnceClosed p.1 p.2) (PscKey.init, Book.init)
      threeClients :=
  ⟨by decide, closed_once (by decide) (by decide)⟩

/-- A send fails and closes the socket; the next client gets its descriptor, which the thread of the
    first client then closes. -/
def sendFails : List Op :=
  [.accept (.client 5 1), .link, .pscSendOne 1 false, .remove 1, .accept (.client 5 2), .link,
    .closeSock 1]

theorem closed_twice : Along step Fresh PscKey.init sendFails ∧
    ∃ s b, exec (observed step noteCalls) (PscKey.init, Book.init) sendFails = some (s, b) ∧
      b.log = [(0, .accept 5), (0, .send 5), (0, .close 5), (1, .accept 5), (0, .close 5)] ∧
      ¬OnceClosed s b := by
  refine ⟨by decide, _, _, rfl, rfl, fun h => ?_⟩
  have hlast := h.last [(0, .accept 5), (0, .send 5)] 0 5 [(1, .accept 5), (0, .close 5)] rfl
  exact hlast (0, .close 5) (by simp) rfl

end Pscdrv.Target
