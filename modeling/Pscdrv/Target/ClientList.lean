import Pscdrv.Target.Listener

/-! # What the client list of the target server holds

    A client is linked at the head of the list, but the `prev` link of the client that was the head
    is left as it is, so every `prev` is NULL for ever. A client that leaves then always makes the
    client behind it the head: right for the newest client, and for any other one the clients in
    front of it are dropped.

        head ─▶ 3 ─▶ 2 ─▶ 1        3 leaves :  head ─▶ 2 ─▶ 1
                                   2 leaves :  head ─▶ 1            (3 is lost)      -/

namespace Pscdrv.Target

open Run

/-- Linked, and not yet removed. -/
def Connected (s : PscKey) (a : ℕ) : Prop :=
  ∃ c, s.heap a = some c ∧ c.linked = true ∧ c.stage = .receiving

/-- The list holds exactly the connected clients, and `client_count` is its length. -/
structure Listed (s : PscKey) (l : List ℕ) : Prop where
  chain : Chain (nextOf s) s.clientHead l
  mem : ∀ a, a ∈ l ↔ Connected s a
  count : s.clientCount.toNat = l.length

/-- The connected clients are listed, each once, and `psc_send` reaches those that are active. -/
structure Reached (s : PscKey) : Prop where
  listed : ∃ l, Listed s l ∧ l.Nodup
  sends : ∀ ok, ∃ fuel t, pscSend s fuel ok = some t ∧ ∀ a c, s.heap a = some c →
    Connected s a → c.active = true → .send c.sock ∈ t.calls.drop s.calls.length

/-- `prev` is the inverse of `next`. -/
def Inverse (s : PscKey) : Prop :=
  ∀ a b c, Connected s b → s.heap b = some c →
    (c.prev = some a ↔ Connected s a ∧ nextOf s a = some (some b))

/-- What holds of the memory and of the list as long as only the newest clients leave. -/
structure Inv (s : PscKey) : Prop where
  listed : ∃ l, Listed s l
  prev : ∀ a c, s.heap a = some c → c.prev = none
  unlinked : ∀ a c, s.heap a = some c → c.linked = false →
    c.next = none ∧ c.stage = .receiving
  starting : ∀ a, s.starting = some a → ∃ c, s.heap a = some c ∧ c.linked = false
  room : s.clientCount.toNat + s.starting.toList.length ≤ 4

/-- A client leaves only once it is linked, and only when it is the newest one connected. -/
def NewestFirst (s : PscKey) : Op → Prop
  | .remove a => (∃ c, s.heap a = some c ∧ c.linked = true) ∧ s.clientHead = some a
  | _ => True

/-- A client is linked only when no other one is, and leaves only once it is linked. -/
def OneAtATime (s : PscKey) : Op → Prop
  | .link => s.clientHead = none
  | .remove a => ∃ c, s.heap a = some c ∧ c.linked = true
  | _ => True

/-! ### Steps that leave the list alone -/

/-- What of a client matters for the list. -/
def links (c : PscClient) : Option ℕ × Option ℕ × Bool × Bool :=
  (c.prev, c.next, c.linked, c.stage == .receiving)

structure SameList (s t : PscKey) : Prop where
  head : t.clientHead = s.clientHead
  count : t.clientCount = s.clientCount
  starting : t.starting = s.starting
  links : ∀ a, (t.heap a).map links = (s.heap a).map links

theorem SameList.refl (s : PscKey) : SameList s s := ⟨rfl, rfl, rfl, fun _ => rfl⟩

theorem SameList.trans {s t u : PscKey} (h : SameList s t) (k : SameList t u) : SameList s u :=
  ⟨k.head.trans h.head, k.count.trans h.count, k.starting.trans h.starting,
    fun a => (k.links a).trans (h.links a)⟩

theorem SameList.calls (s : PscKey) (calls : List SockCall) :
    SameList s { s with calls := calls } :=
  ⟨rfl, rfl, rfl, fun _ => rfl⟩

theorem modify_some {s t : PscKey} {a : ℕ} {f : PscClient → PscClient}
    (h : modify s a f = some t) : ∃ c, s.heap a = some c ∧
      t = { s with heap := fun b => if b = a then some (f c) else s.heap b } := by
  obtain ⟨c, hc, rfl⟩ := Option.map_eq_some_iff.mp h
  exact ⟨c, hc, rfl⟩

/-- A change of the fields that do not matter for the list. -/
theorem SameList.modify {s t : PscKey} {a : ℕ} {f : PscClient → PscClient}
    (h : modify s a f = some t)
    (hf : ∀ c, s.heap a = some c → Target.links (f c) = Target.links c) : SameList s t := by
  obtain ⟨c, hc, rfl⟩ := modify_some h
  refine ⟨rfl, rfl, rfl, fun b => ?_⟩
  dsimp only
  by_cases hb : b = a
  · rw [if_pos hb, hb, hc, Option.map_some, Option.map_some, hf c hc]
  · rw [if_neg hb]

section Same

variable {s t : PscKey}

theorem SameList.back (h : SameList s t) {a : ℕ} {c : PscClient} (hc : t.heap a = some c) :
    ∃ d, s.heap a = some d ∧ Target.links d = Target.links c := by
  have hl := h.links a
  rw [hc, Option.map_some, eq_comm] at hl
  exact Option.map_eq_some_iff.mp hl

theorem SameList.symm (h : SameList s t) : SameList t s :=
  ⟨h.head.symm, h.count.symm, h.starting.symm, fun a => (h.links a).symm⟩

theorem SameList.nextOf (h : SameList s t) (a : ℕ) : nextOf t a = nextOf s a := by
  have hl := congrArg (Option.map fun l => l.2.1) (h.links a)
  rwa [Option.map_map, Option.map_map] at hl

theorem connected_of_links {a : ℕ} {c d : PscClient} (hd : s.heap a = some d)
    (hl : links d = links c) (hlinked : c.linked = true) (hstage : c.stage = .receiving) :
    Connected s a := by
  simp only [links, Prod.mk.injEq] at hl
  refine ⟨d, hd, hl.2.2.1.trans hlinked, ?_⟩
  have hrec := hl.2.2.2
  rw [hstage, beq_self_eq_true] at hrec
  exact eq_of_beq hrec

theorem SameList.connected (h : SameList s t) (a : ℕ) : Connected t a ↔ Connected s a := by
  constructor
  · rintro ⟨c, hc, hlinked, hstage⟩
    obtain ⟨d, hd, hl⟩ := h.back hc
    exact connected_of_links hd hl hlinked hstage
  · rintro ⟨c, hc, hlinked, hstage⟩
    obtain ⟨d, hd, hl⟩ := h.symm.back hc
    exact connected_of_links hd hl hlinked hstage

theorem SameList.listed (h : SameList s t) {l : List ℕ} (hl : Listed s l) : Listed t l where
  chain := by
    rw [h.head]
    exact hl.chain.congr fun a _ => h.nextOf a
  mem a := by rw [hl.mem, h.connected]
  count := by rw [h.count, hl.count]

/-- STEP: sends, receives, closes, and clients that are not accepted. -/
theorem SameList.inv (h : SameList s t) (hi : Inv s) : Inv t where
  listed := hi.listed.imp fun _ hl => h.listed hl
  prev a c hc := by
    obtain ⟨d, hd, hl⟩ := h.back hc
    exact (congrArg Prod.fst hl).symm.trans (hi.prev a d hd)
  unlinked a c hc hnew := by
    obtain ⟨d, hd, hl⟩ := h.back hc
    simp only [Target.links, Prod.mk.injEq] at hl
    obtain ⟨hnext, hstage⟩ := hi.unlinked a d hd (hl.2.2.1.trans hnew)
    refine ⟨hl.2.1.symm.trans hnext, ?_⟩
    have hrec := hl.2.2.2
    rw [hstage, beq_self_eq_true, eq_comm] at hrec
    exact eq_of_beq hrec
  starting a ha := by
    rw [h.starting] at ha
    obtain ⟨d, hd, hnew⟩ := hi.starting a ha
    obtain ⟨c, hc, hl⟩ := h.symm.back hd
    simp only [Target.links, Prod.mk.injEq] at hl
    exact ⟨c, hc, hl.2.2.1.trans hnew⟩
  room := by rw [h.count, h.starting]; exact hi.room

end Same

/-! ### Sending -/

theorem clientAt_some {s : PscKey} {a : ℕ} {stage : Stage} {c : PscClient}
    (h : clientAt s a stage = some c) : s.heap a = some c ∧ c.stage = stage := by
  simpa [clientAt, Option.filter_eq_some_iff] using h

theorem sendMsg_same {s t : PscKey} {a : ℕ} {c : PscClient} {ok : Bool}
    (h : sendMsg s a c ok = some t) : SameList s t := by
  unfold sendMsg at h
  split at h
  · rw [Option.some.injEq] at h
    exact h ▸ .calls s _
  · exact (SameList.calls s _).trans (.modify h fun _ _ => rfl)

theorem sendAll_same {ok : ℕ → Bool} : ∀ {l : List ℕ} {s t : PscKey}, sendAll s ok l = some t →
    SameList s t
  | [], s, t, h => by
    rw [sendAll, Option.some.injEq] at h
    exact h ▸ .refl s
  | a :: l, s, t, h => by
    obtain ⟨c, hc, h⟩ := Option.bind_eq_some_iff.mp h
    split at h
    · obtain ⟨u, hu, h⟩ := Option.bind_eq_some_iff.mp h
      exact (sendMsg_same hu).trans (sendAll_same h)
    · exact sendAll_same h

/-- Sending to an allocated client works, and touches no other one. -/
theorem sendMsg_spec {s : PscKey} {a : ℕ} {c : PscClient} (hc : s.heap a = some c) (ok : Bool) :
    ∃ t more, sendMsg s a c ok = some t ∧ t.calls = s.calls ++ .send c.sock :: more ∧
      ∀ b, b ≠ a → t.heap b = s.heap b := by
  cases ok with
  | true => exact ⟨_, [], rfl, rfl, fun _ _ => rfl⟩
  | false =>
    have hsend : sendMsg s a c false = some { s with
        heap := fun b => if b = a then some { c with active := false } else s.heap b
        calls := s.calls ++ [.send c.sock, .close c.sock] } := by
      rw [sendMsg, if_neg nofun, modify, hc, Option.map_some]
    exact ⟨_, [.close c.sock], hsend, rfl, fun b hb => if_neg hb⟩

/-- LOOP: the clients of the list that are active are sent to. -/
theorem sendAll_reaches (ok : ℕ → Bool) : ∀ {l : List ℕ} {s : PscKey}, l.Nodup →
    (∀ a ∈ l, (s.heap a).isSome) → ∃ t more, sendAll s ok l = some t ∧
      t.calls = s.calls ++ more ∧
      ∀ a ∈ l, ∀ c, s.heap a = some c → c.active = true → .send c.sock ∈ more
  | [], s, _, _ => ⟨s, [], rfl, (List.append_nil _).symm, fun _ ha => absurd ha List.not_mem_nil⟩
  | a :: l, s, hnd, hin => by
    obtain ⟨hnot, hnd⟩ := List.nodup_cons.mp hnd
    obtain ⟨c, hc⟩ := Option.isSome_iff_exists.mp (hin a List.mem_cons_self)
    cases hact : c.active with
    | true =>
      obtain ⟨u, new, hu, hcalls, hother⟩ := sendMsg_spec hc (ok a)
      have hsame : ∀ b ∈ l, u.heap b = s.heap b := fun b hb =>
        hother b fun heq => hnot (heq ▸ hb)
      obtain ⟨t, more, ht, hmore, hreach⟩ := sendAll_reaches ok (s := u) hnd fun b hb => by
        rw [hsame b hb]
        exact hin b (List.mem_cons_of_mem a hb)
      refine ⟨t, .send c.sock :: new ++ more, ?_, by rw [hmore, hcalls, List.append_assoc],
        fun b hb d hd hda => ?_⟩
      · rw [sendAll, hc, Option.bind_some, if_pos hact, hu, Option.bind_some, ht]
      · rcases List.mem_cons.mp hb with rfl | hb
        · rw [hc, Option.some.injEq] at hd
          simp [hd]
        · exact List.mem_append_right _ (hreach b hb d ((hsame b hb).trans hd) hda)
    | false =>
      obtain ⟨t, more, ht, hmore, hreach⟩ := sendAll_reaches ok hnd fun b hb =>
        hin b (List.mem_cons_of_mem a hb)
      refine ⟨t, more, ?_, hmore, fun b hb d hd hda => ?_⟩
      · rw [sendAll, hc, Option.bind_some, if_neg (by rw [hact]; nofun), ht]
      · rcases List.mem_cons.mp hb with rfl | hb
        · rw [hc, Option.some.injEq] at hd
          rw [hd, hda] at hact
          cases hact
        · exact hreach b hb d hd hda

/-- A list that holds the connected clients lets `psc_send` reach them. -/
theorem Listed.reached {s : PscKey} {l : List ℕ} (h : Listed s l) : Reached s := by
  refine ⟨⟨l, h, h.chain.nodup⟩, fun ok => ?_⟩
  obtain ⟨t, more, ht, hcalls, hreach⟩ := sendAll_reaches ok h.chain.nodup fun a ha => by
    obtain ⟨c, hc, -⟩ := (h.mem a).mp ha
    rw [hc]; rfl
  refine ⟨l.length, t, ?_, fun a c hc ha hact => ?_⟩
  · rw [pscSend, h.chain.follow (Nat.le_refl _), Option.bind_some, ht]
  · rw [hcalls, List.drop_left]
    exact hreach a ((h.mem a).mpr ha) c hc hact

/-! ### Steps that change the list or the memory -/

/-- The state with another client at `a`. -/
def setClient (s : PscKey) (a : ℕ) (c : Option PscClient) : PscKey :=
  { s with heap := fun b => if b = a then c else s.heap b }

@[simp] theorem setClient_self (s : PscKey) (a : ℕ) (c : Option PscClient) :
    (setClient s a c).heap a = c := if_pos rfl

theorem setClient_ne (s : PscKey) {a b : ℕ} (c : Option PscClient) (h : b ≠ a) :
    (setClient s a c).heap b = s.heap b := if_neg h

theorem nextOf_setClient (s : PscKey) {a b : ℕ} (c : Option PscClient) (h : b ≠ a) :
    nextOf (setClient s a c) b = nextOf s b := by
  rw [nextOf, setClient_ne s c h, nextOf]

theorem connected_setClient (s : PscKey) {a b : ℕ} (c : Option PscClient) (h : b ≠ a) :
    Connected (setClient s a c) b ↔ Connected s b := by
  rw [Connected, setClient_ne s c h, Connected]

/-- `psc_run` turns a client away, or allocates it and starts its thread. -/
theorem accept_cases {s t : PscKey} {env : AcceptEnv} (h : accept s env = some t) :
    SameList s t ∨ ∃ sock a, s.heap a = none ∧ s.clientCount < pscMaxClients ∧
      t = { setClient s a (some ⟨none, none, false, sock, false, .receiving⟩) with
        starting := some a, calls := s.calls ++ [.accept sock] } := by
  unfold accept at h
  split at h
  · cases h
  cases env with
  | error => exact .inl (by cases h; exact .refl s)
  | noMemory sock => exact .inl (by cases h; exact .calls s _)
  | noThread sock => exact .inl (by cases h; exact .calls s _)
  | client sock a =>
    dsimp only at h
    split at h
    · exact .inl (by cases h; exact .calls s _)
    · rename_i hroom
      split at h
      · cases h
      · rename_i hfree
        cases h
        exact .inr ⟨sock, a, by simpa using hfree, UInt32.not_le.mp hroom, rfl⟩

theorem link_cases {s t : PscKey} (h : link s = some t) : ∃ a c, s.starting = some a ∧
    s.heap a = some c ∧
    t = { setClient s a (some { c with next := s.clientHead, active := true, linked := true }) with
      clientHead := some a, clientCount := s.clientCount + 1, starting := none } := by
  unfold link at h
  split at h
  · cases h
  · rename_i a ha
    obtain ⟨u, hu, rfl⟩ := Option.map_eq_some_iff.mp h
    obtain ⟨c, hc, rfl⟩ := modify_some hu
    exact ⟨a, c, ha, hc, rfl⟩

/-- As every `prev` is NULL, the client behind the one that leaves becomes the head. -/
theorem remove_cases {s t : PscKey} {a : ℕ} (hprev : ∀ b c, s.heap b = some c → c.prev = none)
    (h : remove s a = some t) : ∃ c, s.heap a = some c ∧ c.stage = .receiving ∧
    t = { setClient s a (some { c with stage := .removed }) with
      clientHead := c.next, clientCount := s.clientCount - 1 } := by
  obtain ⟨c, hat, hnext⟩ := Option.bind_eq_some_iff.mp h
  obtain ⟨hc, hstage⟩ := clientAt_some hat
  obtain ⟨u, hu, hrest⟩ := Option.bind_eq_some_iff.mp hnext
  -- `C->next->prev` was NULL before
  have hus : u = s := by
    unfold unlinkNext at hu
    split at hu
    · rename_i n hn
      obtain ⟨d, hd, rfl⟩ := modify_some hu
      have hsame : (fun b => if b = n then some { d with prev := c.prev } else s.heap b) =
          s.heap := by
        funext b
        by_cases hb : b = n
        · rw [if_pos hb, hb, hd, hprev a c hc, ← hprev n d hd]
        · rw [if_neg hb]
      rw [hsame]
    · cases hu
      rfl
  subst hus
  simp only [unlinkPrev, hprev a c hc, Option.bind_some] at hrest
  obtain ⟨d, hd, rfl⟩ := modify_some hrest
  have hdc : d = c := Option.some.inj (hd.symm.trans hc)
  exact ⟨c, hc, hstage, by rw [hdc]; rfl⟩

section Steps

variable {s t : PscKey}

theorem Inv.not_connected (h : Inv s) {a : ℕ} (ha : s.starting = some a) : ¬Connected s a := by
  rintro ⟨c, hc, hlinked, -⟩
  obtain ⟨d, hd, hnew⟩ := h.starting a ha
  rw [hc, Option.some.injEq] at hd
  rw [hd, hnew] at hlinked
  cases hlinked

/-- Another client at an address that is not in the list leaves the chain as it is. -/
theorem Listed.setClient {l : List ℕ} (h : Listed s l) {a : ℕ} (ha : ¬Connected s a)
    (c : Option PscClient) : Chain (nextOf (setClient s a c)) s.clientHead l :=
  h.chain.congr fun b hb => nextOf_setClient s c fun heq => ha (heq ▸ (h.mem b).mp hb)

theorem accept_inv {env : AcceptEnv} (h : Inv s) (hs : accept s env = some t) : Inv t := by
  rcases accept_cases hs with hsame | ⟨sock, a, hfree, hroom, rfl⟩
  · exact hsame.inv h
  have hnot : ¬Connected s a := by
    rintro ⟨c, hc, -⟩
    rw [hfree] at hc
    cases hc
  obtain ⟨l, hl⟩ := h.listed
  refine ⟨⟨l, hl.setClient hnot _, fun b => ?_, hl.count⟩, fun b c hc => ?_, fun b c hc hnew => ?_,
    fun b hb => ?_, ?_⟩
  · by_cases hb : b = a
    · rw [hl.mem, hb]
      refine iff_of_false hnot ?_
      rintro ⟨c, hc, hlinked, -⟩
      rw [show c = _ from (Option.some.inj ((setClient_self s a _).symm.trans hc)).symm] at hlinked
      cases hlinked
    · rw [hl.mem]
      exact (connected_setClient s _ hb).symm
  · by_cases hb : b = a
    · subst hb
      cases (setClient_self s b _).symm.trans hc
      rfl
    · exact h.prev b c ((setClient_ne s _ hb).symm.trans hc)
  · by_cases hb : b = a
    · subst hb
      cases (setClient_self s b _).symm.trans hc
      exact ⟨rfl, rfl⟩
    · exact h.unlinked b c ((setClient_ne s _ hb).symm.trans hc) hnew
  · cases hb
    exact ⟨_, setClient_self s a _, rfl⟩
  · have hlt : s.clientCount.toNat < 4 := hroom
    change s.clientCount.toNat + 1 ≤ 4
    omega

theorem link_inv (h : Inv s) (hs : link s = some t) : Inv t := by
  obtain ⟨a, c, ha, hc, rfl⟩ := link_cases hs
  have hnot := h.not_connected ha
  have hroom := h.room
  rw [ha] at hroom
  change s.clientCount.toNat + 1 ≤ 4 at hroom
  have hcount : (s.clientCount + 1).toNat = s.clientCount.toNat + 1 := by
    rw [UInt32.toNat_add]
    exact Nat.mod_eq_of_lt (by change s.clientCount.toNat + 1 < 2 ^ 32; omega)
  obtain ⟨d, hd, hnew⟩ := h.starting a ha
  rw [hc, Option.some.injEq] at hd
  subst hd
  obtain ⟨l, hl⟩ := h.listed
  refine ⟨⟨a :: l, ⟨rfl, s.clientHead, ?_, hl.setClient hnot _⟩, fun b => ?_, ?_⟩,
    fun b d hd => ?_, fun b d hd hfresh => ?_, nofun, ?_⟩
  · change (PscKey.heap (setClient s a _) a).map _ = _
    rw [setClient_self]; rfl
  · rw [List.mem_cons, hl.mem]
    by_cases hb : b = a
    · subst hb
      exact iff_of_true (.inl rfl) ⟨_, setClient_self s b _, rfl, (h.unlinked b c hc hnew).2⟩
    · rw [or_iff_right hb]
      exact (connected_setClient s _ hb).symm
  · change (s.clientCount + 1).toNat = l.length + 1
    rw [hcount, hl.count]
  · by_cases hb : b = a
    · subst hb
      cases (setClient_self s b _).symm.trans hd
      exact h.prev b c hc
    · exact h.prev b d ((setClient_ne s _ hb).symm.trans hd)
  · by_cases hb : b = a
    · subst hb
      cases (setClient_self s b _).symm.trans hd
      cases hfresh
    · exact h.unlinked b d ((setClient_ne s _ hb).symm.trans hd) hfresh
  · change (s.clientCount + 1).toNat + 0 ≤ 4
    omega

/-- The list of the clients that stay, when the newest one leaves. -/
theorem remove_inv {a : ℕ} (h : Inv s) (hc : NewestFirst s (.remove a))
    (hs : remove s a = some t) : Inv t := by
  obtain ⟨c, hca, hstage, rfl⟩ := remove_cases h.prev hs
  obtain ⟨⟨d, hd, hlinked⟩, hhead⟩ := hc
  rw [hca, Option.some.injEq] at hd
  subst hd
  obtain ⟨l, hl⟩ := h.listed
  have hchain := hl.chain
  rw [hhead] at hchain
  cases l with
  | nil => cases hchain
  | cons b post =>
  obtain ⟨hba, n, hn, hpost⟩ := hchain
  cases hba
  have hnd := hl.chain.nodup
  rw [List.nodup_cons] at hnd
  have hnext : nextOf s a = some c.next := by rw [nextOf, hca]; rfl
  rw [hnext, Option.some.injEq] at hn
  have hcount : s.clientCount.toNat = post.length + 1 := hl.count
  have hless : (s.clientCount - 1).toNat = post.length := by
    have hle : (1 : UInt32) ≤ s.clientCount := by
      change 1 ≤ s.clientCount.toNat
      omega
    rw [UInt32.toNat_sub_of_le _ _ hle, hcount]
    rfl
  have hroom := h.room
  refine ⟨⟨post, ?_, fun b => ?_, hless⟩, fun b d hd => ?_, fun b d hd hfresh => ?_,
    fun b hb => ?_, ?_⟩
  · refine (hn ▸ hpost).congr fun b hb => nextOf_setClient s _ fun heq => ?_
    exact hnd.1 (heq ▸ hb)
  · by_cases hb : b = a
    · subst hb
      refine iff_of_false hnd.1 ?_
      rintro ⟨d, hd, -, hrec⟩
      cases (setClient_self s b _).symm.trans hd
      cases hrec
    · have hmem := hl.mem b
      rw [List.mem_cons, or_iff_right hb] at hmem
      rw [hmem]
      exact (connected_setClient s _ hb).symm
  · by_cases hb : b = a
    · subst hb
      cases (setClient_self s b _).symm.trans hd
      exact h.prev b c hca
    · exact h.prev b d ((setClient_ne s _ hb).symm.trans hd)
  · by_cases hb : b = a
    · subst hb
      cases (setClient_self s b _).symm.trans hd
      rw [hlinked] at hfresh
      cases hfresh
    · exact h.unlinked b d ((setClient_ne s _ hb).symm.trans hd) hfresh
  · obtain ⟨d, hd, hnew⟩ := h.starting b hb
    have hba : b ≠ a := by
      rintro rfl
      rw [hca, Option.some.injEq] at hd
      rw [← hd, hlinked] at hnew
      cases hnew
    exact ⟨d, (setClient_ne s _ hba).trans hd, hnew⟩
  · change (s.clientCount - 1).toNat + s.starting.toList.length ≤ 4
    omega

/-- The memory of a client that is not in the list any more is given back. -/
theorem free_inv {a : ℕ} (h : Inv s) (hs : free s a = some t) : Inv t := by
  obtain ⟨c, hc, rfl⟩ := Option.map_eq_some_iff.mp hs
  obtain ⟨hc, hstage⟩ := clientAt_some hc
  have hnot : ¬Connected s a := by
    rintro ⟨d, hd, -, hrec⟩
    rw [hc, Option.some.injEq] at hd
    rw [← hd, hstage] at hrec
    cases hrec
  have hother : ∀ {b d}, (setClient s a none).heap b = some d → s.heap b = some d := by
    intro b d hd
    by_cases hb : b = a
    · subst hb
      cases (setClient_self s b _).symm.trans hd
    · exact (setClient_ne s _ hb).symm.trans hd
  obtain ⟨l, hl⟩ := h.listed
  refine ⟨⟨l, hl.setClient hnot none, fun b => ?_, hl.count⟩, fun b d hd => h.prev b d (hother hd),
    fun b d hd => h.unlinked b d (hother hd), fun b hb => ?_, h.room⟩
  · rw [hl.mem]
    by_cases hb : b = a
    · subst hb
      refine iff_of_false hnot ?_
      rintro ⟨d, hd, -⟩
      cases (setClient_self s b none).symm.trans hd
    · exact (connected_setClient s none hb).symm
  · obtain ⟨d, hd, hnew⟩ := h.starting b hb
    have hba : b ≠ a := by
      rintro rfl
      rw [hc, Option.some.injEq] at hd
      have hrec := (h.unlinked b d (hd ▸ hc) hnew).2
      rw [← hd, hstage] at hrec
      cases hrec
    exact ⟨d, (setClient_ne s none hba).trans hd, hnew⟩

end Steps

/-! ### Runs -/

section Runs

variable {s t : PscKey}

theorem closeSock_same {a : ℕ} (h : closeSock s a = some t) : SameList s t := by
  obtain ⟨c, hc, h⟩ := Option.bind_eq_some_iff.mp h
  obtain ⟨hc, hstage⟩ := clientAt_some hc
  refine (SameList.calls s _).trans (.modify h fun d hd => ?_)
  have hdc : d = c := Option.some.inj (hd.symm.trans hc)
  rw [hdc, links, links, hstage]
  rfl

theorem pscSendOne_same {a : ℕ} {ok : Bool} (h : pscSendOne s a ok = some t) : SameList s t := by
  obtain ⟨c, -, h⟩ := Option.bind_eq_some_iff.mp h
  exact sendMsg_same h

theorem pscSend_same {fuel : ℕ} {ok : ℕ → Bool} (h : pscSend s fuel ok = some t) :
    SameList s t := by
  obtain ⟨l, -, h⟩ := Option.bind_eq_some_iff.mp h
  exact sendAll_same h

theorem recvMsg_same {a : ℕ} (h : recvMsg s a = some t) : SameList s t := by
  obtain ⟨c, -, rfl⟩ := Option.map_eq_some_iff.mp h
  exact .calls s _

/-- STEP: every step that lets only the newest client leave. -/
theorem inv_step {op : Op} (h : Inv s) (hc : NewestFirst s op) (hs : step s op = some t) :
    Inv t := by
  cases op with
  | accept env => exact accept_inv h hs
  | link => exact link_inv h hs
  | recvMsg a => exact (recvMsg_same hs).inv h
  | remove a => exact remove_inv h hc hs
  | closeSock a => exact (closeSock_same hs).inv h
  | free a => exact free_inv h hs
  | pscSend fuel ok => exact (pscSend_same hs).inv h
  | pscSendOne a ok => exact (pscSendOne_same hs).inv h

/-- `remove` of a client, as far as the list goes. -/
abbrev removed (s : PscKey) (a : ℕ) (c : PscClient) : PscKey :=
  { setClient s a (some { c with stage := .removed }) with
    clientHead := c.next, clientCount := s.clientCount - 1 }

/-- Who stays is still in the list. -/
theorem Listed.stays {l l' : List ℕ} {a : ℕ} {c : PscClient} (hl : Listed s l)
    (hl' : Listed (removed s a c) l') {b : ℕ} (hb : b ∈ l) (hne : b ≠ a) : b ∈ l' :=
  (hl'.mem b).mpr ((connected_setClient s _ hne).mpr ((hl.mem b).mp hb))

/-- When a client leaves that was never linked, the list is lost. -/
theorem Inv.unlinked_leaves (h : Inv s) {a : ℕ} {c : PscClient} (hc : s.heap a = some c)
    (hlinked : c.linked = false) {l' : List ℕ} (hl' : Listed (removed s a c) l') : False := by
  obtain ⟨l, hl⟩ := h.listed
  have hnil : l' = [] := by
    have hchain := hl'.chain
    change Chain _ c.next l' at hchain
    rwa [(h.unlinked a c hc hlinked).1, Chain.nil_iff] at hchain
  have hcount : (s.clientCount - 1).toNat = 0 := by
    have := hl'.count
    rwa [hnil] at this
  have hlt := s.clientCount.toNat_lt
  rw [UInt32.toNat_sub] at hcount
  have hone : l.length = 1 := by
    rw [← hl.count]
    change (2 ^ 32 - 1 + s.clientCount.toNat) % 2 ^ 32 = 0 at hcount
    omega
  obtain ⟨b, rfl⟩ := List.length_eq_one_iff.mp hone
  have hba : b ≠ a := by
    rintro rfl
    obtain ⟨d, hd, hdl, -⟩ := (hl.mem b).mp List.mem_cons_self
    rw [hc, Option.some.injEq] at hd
    rw [← hd, hlinked] at hdl
    cases hdl
  have hmem := hl.stays hl' List.mem_cons_self hba
  rw [hnil] at hmem
  cases hmem

/-- A linked client that leaves is the newest one, or the newer ones are lost. -/
theorem Inv.linked_leaves (h : Inv s) {a : ℕ} {c : PscClient} (hc : s.heap a = some c)
    (hstage : c.stage = .receiving) (hlinked : c.linked = true) {l' : List ℕ}
    (hl' : Listed (removed s a c) l') : s.clientHead = some a := by
  obtain ⟨l, hl⟩ := h.listed
  have hal : a ∈ l := (hl.mem a).mpr ⟨c, hc, hlinked, hstage⟩
  obtain ⟨pre, post, rfl⟩ := List.append_of_mem hal
  cases pre with
  | nil => exact hl.chain.1
  | cons b pre =>
    exfalso
    obtain ⟨n, hn, hpost⟩ := hl.chain.tail (b :: pre)
    have hnext : nextOf s a = some c.next := by rw [nextOf, hc]; rfl
    rw [hnext, Option.some.injEq] at hn
    have hnd := hl.chain.nodup
    rw [List.cons_append, List.nodup_cons, List.mem_append, List.mem_cons, not_or, not_or] at hnd
    -- what is reached from the new head is the rest of the old list
    have hsame : ∀ x ∈ post, nextOf (setClient s a (some { c with stage := .removed })) x =
        nextOf s x := by
      intro x hx
      by_cases hxa : x = a
      · rw [hxa, nextOf, setClient_self, hnext]; rfl
      · exact nextOf_setClient s _ hxa
    have hrest : l' = post := hl'.chain.unique ((hn ▸ hpost).congr hsame)
    exact hnd.1.2.2 (hrest ▸ hl.stays hl' List.mem_cons_self hnd.1.2.1)

/-- A client that leaves unlinked, or from behind another one, takes clients out of the list that
    stay connected. -/
theorem newest_of_listed {op : Op} (h : Inv s) (hs : step s op = some t)
    (ht : ∃ l, Listed t l) : NewestFirst s op := by
  cases op with
  | remove a =>
    obtain ⟨c, hc, hstage, rfl⟩ := remove_cases h.prev hs
    obtain ⟨l', hl'⟩ := ht
    cases hlinked : c.linked with
    | false => exact (h.unlinked_leaves hc hlinked hl').elim
    | true => exact ⟨⟨c, hc, hlinked⟩, h.linked_leaves hc hstage hlinked hl'⟩
  | accept | link | recvMsg | closeSock | free | pscSend | pscSendOne => trivial

theorem inv_init : Inv PscKey.init := by
  refine ⟨⟨[], rfl, fun a => ?_, rfl⟩, nofun, nofun, nofun, Nat.zero_le _⟩
  refine iff_of_false List.not_mem_nil ?_
  rintro ⟨c, hc, -⟩
  cases hc

/-- At most one client is connected. -/
structure Single (s : PscKey) : Prop extends Inv s where
  one : s.clientCount.toNat ≤ 1

/-- Of one client at most, the links are inverse to each other: there are none. -/
theorem Single.inverse (h : Single s) : Inverse s := by
  obtain ⟨l, hl⟩ := h.listed
  intro a b c hb hcb
  rw [h.prev b c hcb]
  refine iff_of_false nofun ?_
  rintro ⟨ha, hnext⟩
  have hone := h.one
  rw [hl.count] at hone
  have hbl := (hl.mem b).mpr hb
  have hal := (hl.mem a).mpr ha
  match l, hl, hone with
  | [], _, _ => cases hbl
  | [x], hl, _ =>
    rw [List.mem_singleton] at hal hbl
    obtain ⟨-, n, hn, hend⟩ := hl.chain
    rw [← hal, hnext, Option.some.injEq] at hn
    rw [← hn] at hend
    cases hend
  | _ :: _ :: _, _, hone => simp at hone

theorem sameList_count {op : Op} (hs : step s op = some t) (hl : op ≠ .link)
    (hr : ∀ a, op ≠ .remove a) : t.clientCount = s.clientCount := by
  cases op with
  | accept env =>
    rcases accept_cases hs with hsame | ⟨sock, a, -, -, rfl⟩
    · exact hsame.count
    · rfl
  | link => exact absurd rfl hl
  | recvMsg a => exact (recvMsg_same hs).count
  | remove a => exact absurd rfl (hr a)
  | closeSock a => exact (closeSock_same hs).count
  | free a =>
    obtain ⟨c, -, rfl⟩ := Option.map_eq_some_iff.mp hs
    rfl
  | pscSend fuel ok => exact (pscSend_same hs).count
  | pscSendOne a ok => exact (pscSendOne_same hs).count

/-- An empty list has no head. -/
theorem Listed.nil_of_head {l : List ℕ} (h : Listed s l) (hhead : s.clientHead = none) :
    l = [] := by
  have hchain := h.chain
  rwa [hhead, Chain.nil_iff] at hchain

/-- STEP: every step that lets at most one client be connected. -/
theorem single_step {op : Op} (h : Single s) (hc : OneAtATime s op) (hs : step s op = some t) :
    Single t := by
  obtain ⟨l, hl⟩ := h.listed
  have hone := h.one
  cases op with
  | link =>
    obtain ⟨a, c, -, -, ht⟩ := link_cases hs
    have hzero : s.clientCount.toNat = 0 := by rw [hl.count, hl.nil_of_head hc]; rfl
    refine ⟨link_inv h.toInv hs, ?_⟩
    rw [ht, UInt32.toNat_add, hzero]
    decide
  | remove a =>
    obtain ⟨c, hca, hstage, ht⟩ := remove_cases h.prev hs
    have hconn : Connected s a := by
      obtain ⟨d, hd, hlinked⟩ := hc
      have hdc : d = c := Option.some.inj (hd.symm.trans hca)
      exact ⟨c, hca, hdc ▸ hlinked, hstage⟩
    have hal := (hl.mem a).mpr hconn
    have hnewest : NewestFirst s (.remove a) := by
      refine ⟨hc, ?_⟩
      rw [hl.count] at hone
      match l, hl, hal, hone with
      | [x], hl, hal, _ => rw [List.mem_singleton.mp hal]; exact hl.chain.1
      | _ :: _ :: _, _, _, hone => simp at hone
    refine ⟨remove_inv h.toInv hnewest hs, ?_⟩
    have hpos : 0 < s.clientCount.toNat := by
      rw [hl.count]
      exact List.length_pos_of_mem hal
    have hle : (1 : UInt32) ≤ s.clientCount := hpos
    rw [ht, UInt32.toNat_sub_of_le _ _ hle]
    omega
  | accept env => exact ⟨accept_inv h.toInv hs, by rw [sameList_count hs nofun nofun]; exact hone⟩
  | recvMsg a => exact ⟨(recvMsg_same hs).inv h.toInv, by rw [(recvMsg_same hs).count]; exact hone⟩
  | closeSock a =>
    exact ⟨(closeSock_same hs).inv h.toInv, by rw [(closeSock_same hs).count]; exact hone⟩
  | free a => exact ⟨free_inv h.toInv hs, by rw [sameList_count hs nofun nofun]; exact hone⟩
  | pscSend fuel ok =>
    exact ⟨(pscSend_same hs).inv h.toInv, by rw [(pscSend_same hs).count]; exact hone⟩
  | pscSendOne a ok =>
    exact ⟨(pscSendOne_same hs).inv h.toInv, by rw [(pscSendOne_same hs).count]; exact hone⟩

/-- A client linked in front of another one breaks the `prev` links, one that leaves unlinked the
    list. -/
theorem one_of_whole {op : Op} (h : Single s) (hs : step s op = some t)
    (ht : Reached t ∧ Inverse t) : OneAtATime s op := by
  cases op with
  | remove a => exact (newest_of_listed h.toInv hs (ht.1.listed.imp fun _ hl => hl.1)).1
  | link =>
    obtain ⟨a, c, ha, hca, rfl⟩ := link_cases hs
    obtain ⟨l, hl⟩ := h.listed
    by_contra hhead
    obtain ⟨b, hb⟩ := Option.ne_none_iff_exists'.mp hhead
    have hchain := hl.chain
    rw [hb] at hchain
    cases l with
    | nil => cases hchain
    | cons x l =>
    cases hchain.1
    have hnot := h.not_connected ha
    obtain ⟨d, hd, hlinked, hstage⟩ := (hl.mem b).mp List.mem_cons_self
    have hba : b ≠ a := by
      rintro rfl
      exact hnot ⟨d, hd, hlinked, hstage⟩
    obtain ⟨e, he, hnew⟩ := h.starting a ha
    rw [hca, Option.some.injEq] at he
    have hrec := (h.unlinked a c hca (he ▸ hnew)).2
    have hinv := ht.2 a b d ⟨d, (setClient_ne s _ hba).trans hd, hlinked, hstage⟩
      ((setClient_ne s _ hba).trans hd)
    have hprev : d.prev = some a := hinv.mpr
      ⟨⟨_, setClient_self s a _, rfl, hrec⟩, by
        change (PscKey.heap (setClient s a _) a).map _ = _
        rw [setClient_self, ← hb]; rfl⟩
    rw [h.prev b d hd] at hprev
    cases hprev
  | accept env => trivial
  | recvMsg a => trivial
  | closeSock a => trivial
  | free a => trivial
  | pscSend fuel ok => trivial
  | pscSendOne a ok => trivial

/-- THE CLIENT LIST: it is right with its `prev` links exactly in the runs that connect one client
    at a time, and holds the connected clients, for `psc_send` to reach them, exactly in those in
    which only the newest one leaves. -/
theorem client_list (ops : List Op) :
    (Always step (fun s => Reached s ∧ Inverse s) PscKey.init ops ↔
        Along step OneAtATime PscKey.init ops) ∧
      (Always step Reached PscKey.init ops ↔ Along step NewestFirst PscKey.init ops) := by
  have hreach : ∀ s : PscKey, Inv s → Reached s := fun s h => by
    obtain ⟨l, hl⟩ := h.listed
    exact hl.reached
  constructor
  · exact always_iff_along (I := Single) (fun _ _ _ h hc hs => single_step h hc hs)
      (fun s h => ⟨hreach s h.toInv, h.inverse⟩) (fun _ _ _ h hs ht => one_of_whole h hs ht)
      ⟨inv_init, Nat.zero_le _⟩
  · exact always_iff_along (I := Inv) (fun _ _ _ h hc hs => inv_step h hc hs) hreach
      (fun _ _ _ h hs ht => newest_of_listed h hs (ht.listed.imp fun _ hl => hl.1)) inv_init

/-- Two clients connect, and the older one leaves: the list is empty, and `psc_send` reaches none,
    while the newer client is still connected. -/
theorem oldest_leaves_none : ∃ s, exec step PscKey.init
    [.accept (.client 5 1), .link, .accept (.client 6 2), .link, .remove 1] = some s ∧
      s.clientHead = none ∧ s.clientCount = 1 ∧ Connected s 2 ∧ ¬Reached s := by
  refine ⟨_, rfl, rfl, rfl, ⟨_, rfl, rfl, rfl⟩, ?_⟩
  rintro ⟨⟨l, hl, -⟩, -⟩
  have hmem : 2 ∈ l := (hl.mem 2).mpr ⟨_, rfl, rfl, rfl⟩
  rw [hl.nil_of_head rfl] at hmem
  cases hmem

end Runs

end Pscdrv.Target
