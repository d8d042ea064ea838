import Pscdrv.Target.Server

/-! # Sending to the clients

    What a client was sent are the messages of the calls for it, as long as no descriptor is mixed
    up: a descriptor that `psc_send` closes because of an error is closed once more by the thread of
    its client, and when it was given to another client in between, that one loses its connection,
    and its own descriptor can become that of a third client. Under that condition each message goes
    out behind the ones before it, or is cut off and the client is not active any more.

        psc_send  ✗ close 5                               all m ──▶ 5  (for 2)
        client 1              ……………  close 5                   └──▶ 5  (for 3)
        accept             5 for 2            5 for 3                                -/

namespace Pscdrv.Target

open Run Channel

section Steps

variable {s t : Server}

/-- Sending to a client whose descriptor stands for its own connection. -/
theorem sendOne_eq {f : Frame} {a : ℕ} {c : PscClient} (hc : s.key.heap a = some c)
    (hfd : s.fds c.sock = some (s.born a)) :
    sendOne s f a =
      (sendMsg s.key a c (sendmsg (s.conn (s.born a)) f.code f.body).1.isNone).map fun key =>
        { s with
          key := key
          conn := Function.update s.conn (s.born a) (sendmsg (s.conn (s.born a)) f.code f.body).2
          fds := if (sendmsg (s.conn (s.born a)) f.code f.body).1.isSome then
            Function.update s.fds c.sock none else s.fds
          given := Function.update s.given a (s.given a ++ [f])
          failed := Function.update s.failed a
            (s.failed a || (sendmsg (s.conn (s.born a)) f.code f.body).1.isSome) } := by
  unfold sendOne sendTo
  rw [hc, Option.bind_some, hfd]
  dsimp only
  cases (sendmsg (s.conn (s.born a)) f.code f.body).1 <;> rfl

/-- A client whose message fails is not active any more. -/
theorem sendMsg_active {k key : PscKey} {a : ℕ} {c d : PscClient} {ok : Bool}
    (h : sendMsg k a c ok = some key) (hd : key.heap a = some d) (hact : d.active = true) :
    ok = true := by
  cases ok with
  | true => rfl
  | false =>
    obtain ⟨e, -, rfl⟩ := modify_some h
    have hd' : some { e with active := false } = some d := (if_pos rfl).symm.trans hd
    cases hd'
    cases hact

/-- STEP (one client): the message goes out behind the others, or is cut off, and the client is not
    active any more and its descriptor is closed. -/
theorem sendOne_orderly (h : Orderly s) {f : Frame} {a : ℕ} {c : PscClient}
    (hc : s.key.heap a = some c) (hopen : c.stage ≠ .closed) (hfresh : s.failed a = false)
    (hmsg : (s.given a ++ [f]).Sublist (addressed s.log a)) (hs : sendOne s f a = some t) :
    Orderly t := by
  have hfd : s.fds c.sock = some (s.born a) := by
    rw [h.fds a c hc hopen, hfresh, if_neg Bool.false_ne_true]
  rw [sendOne_eq hc hfd] at hs
  obtain ⟨key, hkey, rfl⟩ := Option.map_eq_some_iff.mp hs
  obtain ⟨part, hpart, hsent, hret⟩ := sendmsg_part (s.conn (s.born a)) f
  generalize hr : sendmsg (s.conn (s.born a)) f.code f.body = r at hkey hsent hret ⊢
  have hk := h.tame (sendMsg_tame hkey)
  have hconn : ∀ b d, b ≠ a → key.heap b = some d →
      Function.update s.conn (s.born a) r.2 (s.born b) = s.conn (s.born b) := by
    intro b d hb hd
    obtain ⟨e, he, -⟩ := sendMsg_tame hkey b d hd
    exact Function.update_of_ne (fun heq => hb (h.inj b e a c he hc heq)) _ _
  refine ⟨fun b d hd => ?_, fun b d hd hact => ?_, fun b d hd hlive => ?_, hk.apart, hk.born,
    hk.inj⟩
  · by_cases hb : b = a
    · subst hb
      have hwhole := (h.streams b c hc).whole hfresh
      have hgiven : wire Frame.bytes (s.given b ++ [f]) =
          wire Frame.bytes (s.given b) ++ f.bytes := by
        rw [wire_append, wire_cons, wire_nil, List.append_nil]
      refine ⟨fun hf => ?_, fun hf => ?_, ?_⟩
      · simp only [Function.update_self, hfresh, Bool.false_or, Option.isSome_eq_false_iff,
          Option.isNone_iff_eq_none, outgoing] at hf hwhole ⊢
        rw [hsent, hwhole, hgiven, hret.mp hf]
      · simp only [Function.update_self, hfresh, Bool.false_or, outgoing] at hf hwhole ⊢
        refine ⟨s.given b, f, part, rfl, hpart, fun hall => ?_, by rw [hsent, hwhole]⟩
        rw [hret.mpr hall] at hf
        cases hf
      · simpa only [Function.update_self] using hmsg
    · obtain ⟨hwhole, hcut, horder⟩ := hk.streams b d hd
      refine ⟨fun hf => ?_, fun hf => ?_, ?_⟩
      · simp only [Function.update_of_ne hb, outgoing, hconn b d hb hd] at hf ⊢
        exact hwhole hf
      · simp only [Function.update_of_ne hb, outgoing, hconn b d hb hd] at hf ⊢
        exact hcut hf
      · simpa only [Function.update_of_ne hb] using horder
  · by_cases hb : b = a
    · subst hb
      have hnone := sendMsg_active hkey hd hact
      rw [Option.isNone_iff_eq_none] at hnone
      simp only [Function.update_self, hfresh, hnone, Option.isSome_none, Bool.or_self]
    · simpa only [Function.update_of_ne hb] using hk.active b d hd hact
  · by_cases hb : b = a
    · subst hb
      obtain ⟨e, he, hsock, -⟩ := sendMsg_tame hkey b d hd
      cases hc.symm.trans he
      simp only [Function.update_self, hsock, hfresh, Bool.false_or]
      cases r.1 with
      | none => exact hfd
      | some errno => exact Function.update_self ..
    · have hother : d.sock ≠ c.sock := by
        intro hsame
        obtain ⟨e, he, hsock, -, hstage⟩ := sendMsg_tame hkey b d hd
        exact hb (h.apart b e a c he hc (hstage hlive) hopen (hsock.symm.trans hsame))
      simp only [Function.update_of_ne hb]
      rw [← hk.fds b d hd hlive]
      split
      · exact Function.update_of_ne hother _ _
      · rfl

/-- What sending to one client leaves of the state. -/
theorem sendOne_frame {f : Frame} {a : ℕ} (hs : sendOne s f a = some t) : t.log = s.log ∧
    t.born = s.born ∧ ∃ c ok, s.key.heap a = some c ∧ sendMsg s.key a c ok = some t.key ∧
      ∀ b, b ≠ a → t.given b = s.given b := by
  obtain ⟨c, hc, hs⟩ := Option.bind_eq_some_iff.mp hs
  obtain ⟨key, hkey, rfl⟩ := Option.map_eq_some_iff.mp hs
  have hframe : (sendTo s c.sock f).2.log = s.log ∧ (sendTo s c.sock f).2.born = s.born := by
    unfold sendTo
    split <;> exact ⟨rfl, rfl⟩
  refine ⟨?_, ?_, c, _, hc, hkey, fun b hb => Function.update_of_ne hb _ _⟩
  · dsimp only
    split <;> exact hframe.1
  · dsimp only
    split <;> exact hframe.2

/-- LOOP: each active client of the list is sent the message once. -/
theorem sendEach_orderly {f : Frame} : ∀ {l : List ℕ} {s : Server}, Orderly s → l.Nodup →
    (∀ a ∈ l, ∀ c ∈ s.key.heap a, c.active = true → c.stage ≠ .closed) →
    (∀ a ∈ l, (s.given a ++ [f]).Sublist (addressed s.log a)) → sendEach s f l = some t → Orderly t
  | [], s, h, _, _, _, hs => by
    rw [sendEach, Option.some.injEq] at hs
    exact hs ▸ h
  | a :: l, s, h, hnd, hlive, hmsg, hs => by
    obtain ⟨hnot, hnd⟩ := List.nodup_cons.mp hnd
    obtain ⟨hhead, htail⟩ := List.forall_mem_cons.mp hlive
    obtain ⟨c, hc, hs⟩ := Option.bind_eq_some_iff.mp hs
    split at hs
    · rename_i hact
      obtain ⟨u, hu, hs⟩ := Option.bind_eq_some_iff.mp hs
      have hstep := sendOne_orderly h hc (hhead c hc hact) (h.active a c hc hact)
        (hmsg a List.mem_cons_self) hu
      obtain ⟨hlog, -, d, ok, hd, hkey, hgiven⟩ := sendOne_frame hu
      have hne : ∀ b ∈ l, b ≠ a := fun b hb heq => hnot (heq ▸ hb)
      refine sendEach_orderly hstep hnd (fun b hb e he hact' => ?_) (fun b hb => ?_) hs
      · obtain ⟨w, -, hw, -, hother⟩ := sendMsg_spec hd ok
        cases hw.symm.trans hkey
        rw [hother b (hne b hb)] at he
        exact htail b hb e he hact'
      · rw [hlog, hgiven b (hne b hb)]
        exact hmsg b (List.mem_cons_of_mem a hb)
    · exact sendEach_orderly h hnd htail (fun b hb => hmsg b (List.mem_cons_of_mem a hb)) hs

theorem addressed_append (log : List (Option ℕ × Frame)) (p : Option ℕ × Frame) (a : ℕ) :
    addressed (log ++ [p]) a =
      addressed log a ++ if p.1 = none ∨ p.1 = some a then [p.2] else [] := by
  unfold addressed
  rw [List.filterMap_append]
  congr 1
  by_cases h : p.1 = none ∨ p.1 = some a
  · simp [h]
  · simp [h]

/-- A call is noted. -/
theorem Orderly.logged (h : Orderly s) (p : Option ℕ × Frame) :
    Orderly { s with log := s.log ++ [p] } := by
  refine ⟨fun a c hc => ?_, h.active, h.fds, h.apart, h.born, h.inj⟩
  obtain ⟨hwhole, hcut, horder⟩ := h.streams a c hc
  refine ⟨hwhole, hcut, ?_⟩
  change (s.given a).Sublist (addressed (s.log ++ [p]) a)
  rw [addressed_append]
  exact horder.trans (List.sublist_append_left _ _)

/-- The message of a call for the client comes behind the others. -/
theorem Orderly.next (h : Orderly s) {a : ℕ} {c : PscClient} (hc : s.key.heap a = some c)
    {r : Option ℕ} (hr : r = none ∨ r = some a) (f : Frame) :
    (s.given a ++ [f]).Sublist (addressed (s.log ++ [(r, f)]) a) := by
  rw [addressed_append, if_pos hr]
  exact (h.streams a c hc).order.append (List.Sublist.refl _)

/-- The clients that `psc_send` meets are allocated. -/
theorem mem_heap {k : PscKey} : ∀ {l : List ℕ} {head : Option ℕ}, Chain (nextOf k) head l →
    ∀ a ∈ l, ∃ c, k.heap a = some c
  | [], _, _, _, ha => absurd ha List.not_mem_nil
  | b :: l, _, ⟨_, n, hn, hrest⟩, a, ha => by
    rcases List.mem_cons.mp ha with rfl | ha
    · obtain ⟨c, hc, -⟩ := Option.map_eq_some_iff.mp hn
      exact ⟨c, hc⟩
    · exact mem_heap hrest a ha

theorem orderly_step {op : SrvOp} (h : Orderly s) (hc : Unmixed s op)
    (hs : srvStep s op = some t) : Orderly t := by
  cases op with
  | accept answer incoming env => exact accept_orderly h hc hs
  | link =>
    obtain ⟨key, hkey, rfl⟩ := Option.map_eq_some_iff.mp hs
    exact link_orderly h hc hkey
  | recv a n =>
    obtain ⟨c, -, hs⟩ := Option.bind_eq_some_iff.mp hs
    obtain ⟨key, hkey, rfl⟩ := Option.map_eq_some_iff.mp hs
    have hsame : (recvFrom s c.sock n).key = s.key := by
      unfold recvFrom
      split <;> rfl
    exact (recvFrom_orderly h c.sock n).tame (hsame ▸ recvMsg_tame hkey)
  | remove a =>
    obtain ⟨key, hkey, rfl⟩ := Option.map_eq_some_iff.mp hs
    exact h.tame (remove_tame hkey)
  | closeSock a =>
    obtain ⟨c, hca, hs⟩ := Option.bind_eq_some_iff.mp hs
    obtain ⟨key, hkey, rfl⟩ := Option.map_eq_some_iff.mp hs
    exact closeSock_orderly h hca hkey
  | free a =>
    obtain ⟨key, hkey, rfl⟩ := Option.map_eq_some_iff.mp hs
    exact h.tame (free_tame hkey)
  | pscSend fuel f =>
    obtain ⟨l, hl, hs⟩ := Option.bind_eq_some_iff.mp hs
    have hchain := chain_of_follow hl
    refine sendEach_orderly (h.logged (none, f)) hchain.nodup (hc l hl) (fun a ha => ?_) hs
    obtain ⟨c, hca⟩ := mem_heap hchain a ha
    exact h.next hca (.inl rfl) f
  | pscSendOne a f =>
    obtain ⟨hfresh, hopen⟩ := hc
    obtain ⟨-, -, c, -, hca, -, -⟩ := sendOne_frame hs
    exact sendOne_orderly (h.logged (some a, f)) hca (hopen c hca) hfresh
      (h.next hca (.inr rfl) f) hs

end Steps

theorem orderly_init : Orderly .init where
  streams _ _ hc := absurd hc nofun
  active _ _ hc := absurd hc nofun
  fds _ _ hc := absurd hc nofun
  apart _ _ _ _ hc := absurd hc nofun
  born _ _ hc := absurd hc nofun
  inj _ _ _ _ hc := absurd hc nofun

/-- RUN: all clients have their streams. -/
theorem orderly_exec {ops : List SrvOp} {t : Server} (hC : Along srvStep Unmixed .init ops)
    (hs : exec srvStep .init ops = some t) : Orderly t :=
  inv_exec (fun _ _ _ h hc hs => orderly_step h hc hs) orderly_init hC hs

/-- The step of the list, when the sends go as `ok` says. -/
def SrvOp.op (ok : ℕ → Bool) : SrvOp → Op
  | .accept answer _ _ => .accept answer
  | .link => .link
  | .recv a _ => .recvMsg a
  | .remove a => .remove a
  | .closeSock a => .closeSock a
  | .free a => .free a
  | .pscSend fuel _ => .pscSend fuel ok
  | .pscSendOne a _ => .pscSendOne a (ok a)

section Refines

variable {s t : Server} {f : Frame}

/-- How the sends to other clients go does not matter. -/
theorem sendAll_congr {ok ok' : ℕ → Bool} : ∀ {l : List ℕ} {k : PscKey},
    (∀ a ∈ l, ok a = ok' a) → sendAll k ok l = sendAll k ok' l
  | [], _, _ => rfl
  | a :: l, k, h => by
    obtain ⟨ha, hl⟩ := List.forall_mem_cons.mp h
    have hrest : ∀ k, sendAll k ok l = sendAll k ok' l := fun k => sendAll_congr hl
    simp only [sendAll, ha, hrest]

/-- LOOP: for the list it is the loop over the clients. -/
theorem sendEach_sendAll : ∀ {l : List ℕ} {s : Server}, l.Nodup → sendEach s f l = some t →
    ∃ ok, sendAll s.key ok l = some t.key
  | [], s, _, hs => by
    rw [sendEach, Option.some.injEq] at hs
    exact ⟨fun _ => true, by rw [sendAll, hs]⟩
  | a :: l, s, hnd, hs => by
    obtain ⟨hnot, hnd⟩ := List.nodup_cons.mp hnd
    obtain ⟨c, hc, hs⟩ := Option.bind_eq_some_iff.mp hs
    split at hs
    · rename_i hact
      obtain ⟨u, hu, hs⟩ := Option.bind_eq_some_iff.mp hs
      obtain ⟨-, -, d, r, hd, hkey, -⟩ := sendOne_frame hu
      cases hc.symm.trans hd
      obtain ⟨ok, hok⟩ := sendEach_sendAll hnd hs
      have hne : ∀ b ∈ l, b ≠ a := fun b hb heq => hnot (heq ▸ hb)
      have hrest : sendAll u.key (Function.update ok a r) l = sendAll u.key ok l :=
        sendAll_congr fun b hb => Function.update_of_ne (hne b hb) _ _
      refine ⟨Function.update ok a r, ?_⟩
      rw [sendAll, hc, Option.bind_some, if_pos hact, Function.update_self, hkey, Option.bind_some,
        hrest, hok]
    · rename_i hact
      obtain ⟨ok, hok⟩ := sendEach_sendAll hnd hs
      exact ⟨ok, by rw [sendAll, hc, Option.bind_some, if_neg hact, hok]⟩

/-- REFINEMENT: without the connections, a step is a step of the list. -/
theorem srvStep_step {op : SrvOp} (hs : srvStep s op = some t) :
    ∃ ok, step s.key (op.op ok) = some t.key := by
  cases op with
  | accept answer incoming env =>
    change acceptClient s answer incoming env = some t at hs
    unfold acceptClient at hs
    split at hs
    · cases hs
    obtain ⟨key, hkey, rfl⟩ := Option.map_eq_some_iff.mp hs
    refine ⟨fun _ => true, hkey.trans (congrArg some ?_)⟩
    cases answer with
    | client k a =>
      dsimp only
      split <;> rfl
    | _ => rfl
  | pscSend fuel f =>
    obtain ⟨l, hl, hs⟩ := Option.bind_eq_some_iff.mp hs
    obtain ⟨ok, hok⟩ := sendEach_sendAll (chain_of_follow hl).nodup hs
    refine ⟨ok, ?_⟩
    change pscSend s.key fuel ok = _
    rw [pscSend, hl, Option.bind_some]
    exact hok
  | pscSendOne a f =>
    obtain ⟨-, -, c, ok, hc, hkey, -⟩ := sendOne_frame hs
    have hca : s.key.heap a = some c := hc
    refine ⟨fun _ => ok, ?_⟩
    change pscSendOne s.key a ok = _
    rw [pscSendOne, hca, Option.bind_some]
    exact hkey
  | recv a n | closeSock a =>
    obtain ⟨c, -, hs⟩ := Option.bind_eq_some_iff.mp hs
    obtain ⟨key, hkey, rfl⟩ := Option.map_eq_some_iff.mp hs
    exact ⟨fun _ => true, hkey⟩
  | link | remove | free =>
    obtain ⟨key, hkey, rfl⟩ := Option.map_eq_some_iff.mp hs
    exact ⟨fun _ => true, hkey⟩

/-- A client is sent to by `psc_send`. -/
def Active (s : Server) (a : ℕ) : Prop := ∃ c, s.key.heap a = some c ∧ c.active = true

/-- What became of the client at `a`: the message was handed over and went out to its peer as far as
    its connection took it, and the client stays active when that is all of it. -/
structure Got (s t : Server) (f : Frame) (a : ℕ) : Prop where
  given : t.given a = s.given a ++ [f]
  sent : ∃ part, part <+: f.bytes ∧ outgoing t a = outgoing s a ++ part ∧
    (Active t a ↔ part = f.bytes)

/-- The client at `a` and its connection are as they were. -/
structure Untouched (s t : Server) (a : ℕ) : Prop where
  client : t.key.heap a = s.key.heap a
  conn : t.conn (s.born a) = s.conn (s.born a)
  born : t.born a = s.born a
  given : t.given a = s.given a

theorem Untouched.refl (s : Server) (a : ℕ) : Untouched s s a := ⟨rfl, rfl, rfl, rfl⟩

theorem Untouched.active {a : ℕ} (h : Untouched s t a) : Active t a ↔ Active s a := by
  rw [Active, h.client, Active]

theorem Untouched.outgoing {a : ℕ} (h : Untouched s t a) : outgoing t a = outgoing s a := by
  rw [Target.outgoing, h.born, h.conn, Target.outgoing]

theorem Untouched.trans {u : Server} {a : ℕ} (h : Untouched s t a) (k : Untouched t u a) :
    Untouched s u a :=
  ⟨k.client.trans h.client, by rw [← h.born, k.conn, h.born, h.conn], k.born.trans h.born,
    k.given.trans h.given⟩

/-- Sending to one active client, whatever its connection does. -/
theorem sendOne_got (h : Orderly s) (f : Frame) {a : ℕ} {c : PscClient}
    (hc : s.key.heap a = some c) (hact : c.active = true) (hopen : c.stage ≠ .closed) :
    ∃ t, sendOne s f a = some t ∧ Got s t f a ∧
      ∀ b d, b ≠ a → s.key.heap b = some d → Untouched s t b := by
  have hfd : s.fds c.sock = some (s.born a) := by
    rw [h.fds a c hc hopen, h.active a c hc hact, if_neg Bool.false_ne_true]
  obtain ⟨part, hpart, hsent, hret⟩ := sendmsg_part (s.conn (s.born a)) f
  obtain ⟨key, -, hkey, -, hother⟩ :=
    sendMsg_spec hc (sendmsg (s.conn (s.born a)) f.code f.body).1.isNone
  have hsome := sendOne_eq (f := f) hc hfd
  rw [hkey, Option.map_some] at hsome
  refine ⟨_, hsome, ⟨?_, part, hpart, ?_, ?_⟩,
    fun b d hb hd => ⟨hother b hb, ?_, rfl, Function.update_of_ne hb _ _⟩⟩
  · exact Function.update_self ..
  · exact (congrArg Sock.outgoing (Function.update_self ..)).trans hsent
  · rw [← hret]
    constructor
    · rintro ⟨d, hd, hact'⟩
      exact Option.isNone_iff_eq_none.mp (sendMsg_active hkey hd hact')
    · intro hnone
      rw [hnone] at hkey
      cases hkey
      exact ⟨c, hc, hact⟩
  · exact Function.update_of_ne (fun heq => hb (h.inj b d a c hd hc heq)) _ _

/-- LOOP: the clients of the list that are active get the message, and no other one is touched. -/
theorem sendEach_got {f : Frame} : ∀ {l : List ℕ} {s : Server}, Orderly s → l.Nodup →
    (∀ a ∈ l, ∃ c, s.key.heap a = some c ∧ c.stage ≠ .closed) →
    (∀ a ∈ l, (s.given a ++ [f]).Sublist (addressed s.log a)) → ∃ t, sendEach s f l = some t ∧
      (∀ a ∈ l, Active s a → Got s t f a) ∧
      ∀ a c, s.key.heap a = some c → ¬ (a ∈ l ∧ Active s a) → Untouched s t a
  | [], s, _, _, _, _ =>
    ⟨s, rfl, fun _ ha => absurd ha List.not_mem_nil, fun a _ _ _ => .refl s a⟩
  | a :: l, s, h, hnd, hin, hmsg => by
    obtain ⟨hnot, hnd⟩ := List.nodup_cons.mp hnd
    obtain ⟨c, hc, hopen⟩ := hin a List.mem_cons_self
    have hne : ∀ b ∈ l, b ≠ a := fun b hb heq => hnot (heq ▸ hb)
    by_cases hact : c.active = true
    · obtain ⟨u, hu, hgot, hother⟩ := sendOne_got h f hc hact hopen
      have hstep := sendOne_orderly h hc hopen (h.active a c hc hact)
        (hmsg a List.mem_cons_self) hu
      have hlog := (sendOne_frame hu).1
      have hsame : ∀ b ∈ l, Untouched s u b := fun b hb => by
        obtain ⟨d, hd, -⟩ := hin b (List.mem_cons_of_mem a hb)
        exact hother b d (hne b hb) hd
      obtain ⟨t, ht, hall, hnone⟩ := sendEach_got (f := f) hstep hnd
        (fun b hb => by
          rw [(hsame b hb).client]
          exact hin b (List.mem_cons_of_mem a hb))
        (fun b hb => by
          rw [(hsame b hb).given, hlog]
          exact hmsg b (List.mem_cons_of_mem a hb))
      refine ⟨t, ?_, fun b hb hba => ?_, fun b d hd hb => ?_⟩
      · rw [sendEach, hc, Option.bind_some, if_pos hact, hu, Option.bind_some, ht]
      · rcases List.mem_cons.mp hb with rfl | hb
        · obtain ⟨e, hkey⟩ : ∃ e, u.key.heap b = some e := by
            obtain ⟨-, -, c', ok, hc', hkey, -⟩ := sendOne_frame hu
            cases ok with
            | true =>
              rw [sendMsg, if_pos rfl, Option.some.injEq] at hkey
              exact ⟨c', by rw [← hkey]; exact hc'⟩
            | false =>
              obtain ⟨e, -, heq⟩ := modify_some hkey
              exact ⟨{ e with active := false }, by rw [heq]; exact if_pos rfl⟩
          have hself : Untouched u t b := hnone b e hkey fun hx => hnot hx.1
          obtain ⟨hgiven, part, hpart, hsent, hlive⟩ := hgot
          exact ⟨hself.given.trans hgiven, part, hpart, by rw [hself.outgoing, hsent],
            hself.active.trans hlive⟩
        · obtain ⟨hgiven, part, hpart, hsent, hlive⟩ :=
            hall b hb ((hsame b hb).active.mpr hba)
          exact ⟨by rw [hgiven, (hsame b hb).given], part, hpart,
            by rw [hsent, (hsame b hb).outgoing], hlive⟩
      · have hba : b ≠ a := by
          rintro rfl
          exact hb ⟨List.mem_cons_self, c, hc, hact⟩
        have hfirst := hother b d hba hd
        refine hfirst.trans (hnone b d (hfirst.client.trans hd) fun hx => hb ?_)
        exact ⟨List.mem_cons_of_mem a hx.1, hfirst.active.mp hx.2⟩
    · obtain ⟨t, ht, hall, hnone⟩ := sendEach_got (f := f) h hnd
        (fun b hb => hin b (List.mem_cons_of_mem a hb))
        (fun b hb => hmsg b (List.mem_cons_of_mem a hb))
      have hidle : ¬ Active s a := by
        rintro ⟨d, hd, hd'⟩
        rw [hc, Option.some.injEq] at hd
        exact hact (hd ▸ hd')
      refine ⟨t, ?_, fun b hb hba => ?_, fun b d hd hb => ?_⟩
      · rw [sendEach, hc, Option.bind_some, if_neg hact, ht]
      · rcases List.mem_cons.mp hb with rfl | hb
        · exact absurd hba hidle
        · exact hall b hb hba
      · exact hnone b d hd fun hx => hb ⟨List.mem_cons_of_mem a hx.1, hx.2⟩

end Refines

/-- Only the newest clients leave, and no descriptor is mixed up. -/
def Careful (s : Server) (op : SrvOp) : Prop :=
  Unmixed s op ∧ NewestFirst s.key (op.op fun _ => true)

/-- BROADCAST: as long as only the newest clients leave and no descriptor is mixed up, `psc_send`
    works, and the peer of each connected client that is active, which has got whole messages so
    far, gets the message behind them: all of it, or a piece and the client is not active any more.
    One client's connection does not matter for another client, and no other one is touched. -/
theorem broadcast_reaches {ops : List SrvOp} {s : Server} (hC : Along srvStep Careful .init ops)
    (hs : exec srvStep .init ops = some s) (f : Frame) :
    ∃ fuel t, srvStep s (.pscSend fuel f) = some t ∧ ∀ a,
      (Connected s.key a ∧ Active s a →
        outgoing s a = wire Frame.bytes (s.given a) ∧ Got s t f a) ∧
      (¬ (Connected s.key a ∧ Active s a) → ∀ c, s.key.heap a = some c → Untouched s t a) := by
  have hcongr : ∀ s op ok, NewestFirst s (SrvOp.op (fun _ => true) op) →
      NewestFirst s (SrvOp.op ok op) := by
    intro s op ok h
    cases op <;> exact h
  obtain ⟨hinv, hord⟩ : Inv s.key ∧ Orderly s := by
    refine inv_exec (I := fun s : Server => Inv s.key ∧ Orderly s)
      (fun s op t h hc hs => ?_) ⟨inv_init, orderly_init⟩ hC hs
    obtain ⟨ok, hstep⟩ := srvStep_step hs
    exact ⟨inv_step h.1 (hcongr _ _ ok hc.2) hstep, orderly_step h.2 hc.1 hs⟩
  obtain ⟨l, hl⟩ := hinv.listed
  have hin : ∀ a ∈ l, ∃ c, s.key.heap a = some c ∧ c.stage ≠ .closed := by
    intro a ha
    obtain ⟨c, hc, -, hstage⟩ := (hl.mem a).mp ha
    refine ⟨c, hc, ?_⟩
    rw [hstage]
    nofun
  obtain ⟨t, ht, hgot, hother⟩ := sendEach_got (hord.logged (none, f)) hl.chain.nodup hin
    fun a ha => by
      obtain ⟨c, hc, -⟩ := hin a ha
      exact hord.next hc (.inl rfl) f
  refine ⟨l.length, t, ?_, fun a => ⟨fun h => ?_, fun h c hc => ?_⟩⟩
  · rw [srvStep, hl.chain.follow (Nat.le_refl _), Option.bind_some, ht]
  · obtain ⟨hgiven, hsent⟩ := hgot a ((hl.mem a).mpr h.1) h.2
    obtain ⟨c, hc, hact⟩ := h.2
    exact ⟨(hord.streams a c hc).whole (hord.active a c hc hact), hgiven, hsent⟩
  · obtain ⟨hclient, hconn, hborn, hgiven⟩ :=
      hother a c hc fun ha => h ⟨(hl.mem a).mp ha.1, ha.2⟩
    exact ⟨hclient, hconn, hborn, hgiven⟩

/-- The newer one of two clients takes nothing, and the older one gets the message. -/
theorem broadcast_reaches_two :
    let f : Frame := ⟨7, [1, 2], by decide⟩
    let ops : List SrvOp := [.accept (.client 5 1) [] fun _ => .upTo 8, .link,
      .accept (.client 6 2) [] fun _ => .error .eio, .link]
    ∃ s, exec srvStep .init ops = some s ∧
      ∃ fuel t, srvStep s (.pscSend fuel f) = some t ∧ ∀ a,
        (Connected s.key a ∧ Active s a →
          outgoing s a = wire Frame.bytes (s.given a) ∧ Got s t f a) ∧
        (¬ (Connected s.key a ∧ Active s a) → ∀ c, s.key.heap a = some c → Untouched s t a) := by
  intro f ops
  obtain ⟨s, hs⟩ : ∃ s, exec srvStep .init ops = some s := ⟨_, rfl⟩
  refine ⟨s, hs, broadcast_reaches ?_ hs f⟩
  intro s₁ h₁
  refine ⟨⟨fun _ _ _ _ _ h => (by cases h), trivial⟩, fun s₂ h₂ => ?_⟩
  cases h₁
  refine ⟨⟨fun a ha => by cases ha; rfl, trivial⟩, fun s₃ h₃ => ?_⟩
  cases h₂
  refine ⟨⟨fun k a heq b c hc _ hsame => ?_, trivial⟩, fun s₄ _ => ?_⟩
  · cases heq
    change (if b = 1 then _ else (if b = 1 then _ else none)) = some c at hc
    by_cases hb : b = 1
    · rw [if_pos hb, Option.some.injEq] at hc
      rw [← hc] at hsame
      cases hsame
    · rw [if_neg hb, if_neg hb] at hc
      cases hc
  · cases h₃
    exact ⟨⟨fun a ha => by cases ha; rfl, trivial⟩, trivial⟩

/-- With a descriptor mixed up: the message fails for client 1, which leaves, and its thread closes
    descriptor 5 when that is client 2's; client 3 gets the next message twice, and client 2 not. -/
example :
    let f : Frame := ⟨7, [1, 2], by decide⟩
    ((exec srvStep .init [.accept (.client 5 1) [] fun _ => .error .eio, .link, .pscSend 1 f,
      .remove 1, .accept (.client 5 2) [] fun _ => .upTo 8, .link, .closeSock 1,
      .accept (.client 5 3) [] fun _ => .upTo 8, .link, .pscSend 2 f]).map fun s =>
        (outgoing s 2, outgoing s 3)) = some ([], f.bytes ++ f.bytes) := by
  decide +kernel

end Pscdrv.Target
