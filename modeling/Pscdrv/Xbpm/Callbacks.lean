import Pscdrv.Xbpm.Links

/-! # The callbacks of the XBPM target

    In a run of callbacks the list and the counts of every connection stay right as long as memory
    does not run out: with no memory for a connection `onconn` goes through a NULL pointer, a
    connection that is freed in a loop is read after that, and one that is freed before it is in the
    list fails an assertion. -/

namespace Pscdrv.Xbpm.Connections

open BigEndian Libevent Run Channel

variable {E : Type} [Libevent E]

section Steps

variable {s t : Server E} {a : ℕ} {c d : Connection E} {r r' : Except Fault (Server E)}

theorem Counted.same (h : Counted c) (hs : Same c d) : Counted d := by
  rw [hs]
  exact ⟨h.bytes, h.order, h.dropped, h.room⟩

/-- Linking and unlinking changes nothing else. -/
theorem good_of_same (hl : ∃ l, Listed t l) (hs : ∀ x d, t.heap x = some d →
    ∃ c, s.heap x = some c ∧ Same c d) (hcounted : ∀ x c, s.heap x = some c → Counted c)
    (hhello : ∀ x c, s.heap x = some c → c.asked.head? = some msghello) : Good t where
  listed := hl
  counted x d hd := by
    obtain ⟨c, hc, hsame⟩ := hs x d hd
    exact (hcounted x c hc).same hsame
  hello x d hd := by
    obtain ⟨c, hc, hsame⟩ := hs x d hd
    rw [hsame]
    exact hhello x c hc

/-- The counters of the server do not matter. -/
theorem Good.counters (h : Good s) (fails cycles : UInt32) :
    Good { s with connFailCnt := fails, cycleCount := cycles } :=
  ⟨h.listed.imp fun _ hl => ⟨hl.list, hl.mem⟩, h.counted, h.hello⟩

theorem good_init : Good (Server.init : Server E) :=
  ⟨⟨[], rfl, fun _ => iff_of_false List.not_mem_nil nofun⟩, nofun, nofun⟩

/-- STEP (`freeconn`): any connection can be taken out. -/
theorem lost_good (h : Good s) (ha : (s.heap a).isSome) : ∃ t, freeconn s a = .ok t ∧ Good t := by
  obtain ⟨l, hl⟩ := h.listed
  obtain ⟨c, hc⟩ := Option.isSome_iff_exists.mp ha
  obtain ⟨t, ht, hl', hsame⟩ := hl.freeconn hc
  exact ⟨t, ht, good_of_same hl' hsame h.counted h.hello⟩

/-- The list holds all connections. -/
theorem Listed.sentTo {l : List ℕ} (h : Listed s l) (msg : Connection E → Frame) (a : ℕ) :
    (sentTo s msg l).heap a = (s.heap a).map fun c => tx c (msg c) := by
  rw [Connections.sentTo]
  dsimp only
  split
  · rfl
  · rename_i ha
    rw [h.mem, Bool.not_eq_true, Option.isSome_eq_false_iff, Option.isNone_iff_eq_none] at ha
    rw [ha, Option.map_none]

/-- STEP (the loops): every connection has its message. -/
theorem each_good {msg : Connection E → Frame} {fuel : ℕ} (h : Good s)
    (htakes : ∀ a c, s.heap a = some c → Takes c (msg c))
    (hs : txEach msg fuel s s.connFirst = some r) : ∃ t, r = .ok t ∧ Good t := by
  obtain ⟨l, hl⟩ := h.listed
  rw [txEach_takes hl.list.chain (fun a _ => htakes a) fuel] at hs
  split at hs
  · cases hs
    have hheap := hl.sentTo msg
    refine ⟨sentTo s msg l, rfl, ⟨l, ?_, fun a => ?_⟩, fun a d hd => ?_, fun a d hd => ?_⟩
    · refine hl.list.congr (fun a _ => ?_) fun a _ => ?_
      · rw [nextOf, hheap, Option.map_map, nextOf]
        congr 1
        funext c
        exact tx_connNext c _
      · rw [prevOf, hheap, Option.map_map, prevOf]
        congr 1
        funext c
        exact tx_connPrev c _
    · rw [hheap, Option.isSome_map, hl.mem]
    · rw [hheap] at hd
      obtain ⟨c, hc, rfl⟩ := Option.map_eq_some_iff.mp hd
      exact (h.counted a c hc).tx (htakes a c hc)
    · rw [hheap] at hd
      obtain ⟨c, hc, rfl⟩ := Option.map_eq_some_iff.mp hd
      rw [tx_asked, List.head?_append, h.hello a c hc]
      rfl
  · cases hs

/-- STEP (`onconn`): a new connection has been sent its hello, and is the first of the list. -/
theorem client_good (h : Good s) (ha : s.heap a = none)
    (htakes : Takes (.new : Connection E) msghello) :
    ∃ t, (txconn (s.set a (some .new)) a msghello).bind (fun s => prepend s a) = .ok t ∧
      Good t := by
  obtain ⟨l, hl⟩ := h.listed
  rw [txconn_takes (set_self s a _) htakes]
  have hset : (s.set a (some .new)).set a (some (tx .new msghello)) =
      s.set a (some (tx (.new : Connection E) msghello)) := by
    rw [Server.set, Server.set, Function.update_idem]
    rfl
  rw [hset]
  obtain ⟨t, ht, hl', hsame⟩ := hl.prepend (c := tx .new msghello) ha (tx_connPrev _ _)
  have hall : ∀ x c, (s.set a (some (tx .new msghello))).heap x = some c →
      Counted c ∧ c.asked.head? = some msghello := by
    intro x c hc
    by_cases hx : x = a
    · rw [hx, set_self, Option.some.injEq] at hc
      refine ⟨hc ▸ counted_new.tx htakes, ?_⟩
      rw [← hc, tx_asked]
      rfl
    · rw [set_ne _ _ hx] at hc
      exact ⟨h.counted x c hc, h.hello x c hc⟩
  exact ⟨t, ht, good_of_same ⟨_, hl'⟩ hsame (fun x c hc => (hall x c hc).1)
    fun x c hc => (hall x c hc).2⟩

/-- STEP (writing): bytes move from the output buffer to the socket. -/
theorem written_good {n : ℕ} (h : Good s) (hs : written s a n = some t) : Good t := by
  obtain ⟨c, hc, rfl⟩ := Option.map_eq_some_iff.mp hs
  obtain ⟨l, hl⟩ := h.listed
  have hlinks : ∀ {β : Type} (g : Connection E → β) (hg : g { c with
      output := Libevent.drain c.output n
      socket := c.socket ++ (bytes c.output).take n } = g c) (x : ℕ),
      ((s.set a (some { c with
        output := Libevent.drain c.output n
        socket := c.socket ++ (bytes c.output).take n })).heap x).map g = (s.heap x).map g := by
    intro β g hg x
    by_cases hx : x = a
    · rw [hx, set_self, hc, Option.map_some, Option.map_some, hg]
    · rw [set_ne _ _ hx]
  refine ⟨⟨l, hl.list.congr (fun x _ => hlinks Connection.connNext rfl x)
    fun x _ => hlinks Connection.connPrev rfl x, fun x => ?_⟩, fun x d hd => ?_, fun x d hd => ?_⟩
  · rw [hl.mem, ← Option.isSome_map (f := Connection.connNext),
      ← hlinks Connection.connNext rfl x, Option.isSome_map]
  · by_cases hx : x = a
    · rw [hx, set_self, Option.some.injEq] at hd
      have hcount := h.counted a c hc
      subst hd
      refine ⟨?_, hcount.order, hcount.dropped, ?_⟩
      · dsimp only
        rw [bytes_drain, List.append_assoc, List.take_append_drop]
        exact hcount.bytes
      · have hless : length (Libevent.drain c.output n) ≤ length c.output := by
          rw [length, bytes_drain, List.length_drop]
          exact Nat.sub_le _ _
        exact hcount.room.imp (Nat.le_trans hless) fun hroom =>
          hroom.imp fun _ hf => hf.imp_right (Nat.le_trans hless)
    · rw [set_ne _ _ hx] at hd
      exact h.counted x d hd
  · by_cases hx : x = a
    · rw [hx, set_self, Option.some.injEq] at hd
      exact hd ▸ h.hello a c hc
    · rw [set_ne _ _ hx] at hd
      exact h.hello x d hd

theorem runs_step {op : Op} (h : Runs r) (hc : Sound r op) (hs : step r op = some r') :
    Runs r' := by
  obtain ⟨s, rfl, h⟩ := h
  cases op with
  | onconn answer =>
    cases answer with
    | noMemory => exact hc.elim
    | refused =>
      cases hs
      exact ⟨_, rfl, h.counters _ _⟩
    | client a =>
      rw [step, onconn] at hs
      split at hs
      · cases hs
      · rename_i ha
        obtain ⟨t, ht, hgood⟩ := client_good h (by simpa using ha) hc
        rw [ht, Option.some.injEq] at hs
        exact ⟨t, hs.symm, hgood⟩
  | lost a =>
    rw [step] at hs
    split at hs
    · rename_i ha
      obtain ⟨t, ht, hgood⟩ := lost_good h ha
      rw [ht, Option.some.injEq] at hs
      exact ⟨t, hs.symm, hgood⟩
    · cases hs
  | onping fuel =>
    exact each_good (h.counters s.connFailCnt (s.cycleCount + 1)) hc hs
  | txall fuel f => exact each_good h hc hs
  | written a n =>
    obtain ⟨t, ht, rfl⟩ := Option.map_eq_some_iff.mp hs
    exact ⟨t, rfl, written_good h ht⟩

/-- The first message of a connection that is freed: it is not in the list yet. -/
theorem client_faults (h : Good s) (ha : s.heap a = none)
    (hbreaks : ¬ Takes (.new : Connection E) msghello) (t : Server E) :
    (txconn (s.set a (some .new)) a msghello).bind (fun s => prepend s a) ≠ .ok t := by
  obtain ⟨l, hl⟩ := h.listed
  intro ht
  obtain ⟨u, hu, -⟩ := bind_ok ht
  obtain ⟨output, hfree⟩ := txconn_breaks (set_self s a _) hbreaks
  rw [hfree] at hu
  obtain ⟨c, hc, hu⟩ := bind_ok hu
  obtain ⟨v, hv, -⟩ := bind_ok hu
  have hread : ({ (s.set a (some .new)).set a (some { (Connection.new : Connection E) with
      output := output }) with connFailCnt := (s.set a (some .new)).connFailCnt + 1 } :
        Server E).heap a = some { (Connection.new : Connection E) with output := output } :=
    set_self _ a _
  rw [read_some hread, Except.ok.injEq] at hc
  subst hc
  have hfirst : s.connFirst ≠ some a := by
    intro heq
    have hal : a ∈ l := by
      have hlist := hl.list
      cases l with
      | nil => cases heq.symm.trans hlist
      | cons x l =>
        cases heq.symm.trans hlist.1
        exact List.mem_cons_self
    have hsome := (hl.mem a).mp hal
    rw [ha] at hsome
    cases hsome
  unfold unlinkPrev at hv
  change (if s.connFirst = some a then _ else _) = _ at hv
  rw [if_neg hfirst] at hv
  cases hv

/-- A callback that is not safe meets a fault. -/
theorem sound_of_ok {op : Op} (h : Runs r) (hs : step r op = some (.ok t)) : Sound r op := by
  obtain ⟨s, rfl, h⟩ := h
  obtain ⟨l, hl⟩ := h.listed
  cases op with
  | onconn answer =>
    cases answer with
    | noMemory => cases hs
    | refused => trivial
    | client a =>
      rw [step, onconn] at hs
      split at hs
      · cases hs
      · rename_i ha
        by_contra hbreaks
        exact client_faults h (by simpa using ha) hbreaks t (Option.some.inj hs)
  | lost a => trivial
  | onping fuel =>
    have hchain : Chain (nextOf { s with cycleCount := s.cycleCount + 1 }) s.connFirst l :=
      hl.list.chain
    exact fun a c hc =>
      txEach_ok hchain hs a ((hl.mem a).mpr (by rw [hc]; rfl)) c hc
  | txall fuel f =>
    exact fun a c hc =>
      txEach_ok hl.list.chain hs a ((hl.mem a).mpr (by rw [hc]; rfl)) c hc
  | written a n => trivial

end Steps

/-! ### Runs -/

/-- SAFETY: a run of callbacks meets no fault, and the list stays whole, exactly when `calloc()`
    does not fail and no connection takes the header of a message but not its body. -/
theorem connections_safe (ops : List Op) :
    Always step (fun r => ∃ s : Server E, r = .ok s ∧ ∃ l, Listed s l) (.ok .init) ops ↔
      Along step (Sound (E := E)) (.ok .init) ops :=
  always_iff_along (I := Runs) (fun _ _ _ h hc hs => runs_step h hc hs)
    (fun _ ⟨s, hs, h⟩ => ⟨s, hs, h.listed⟩)
    (fun _ _ _ h hs ⟨_, ht, _⟩ => sound_of_ok h (hs.trans (congrArg some ht)))
    ⟨.init, rfl, good_init⟩

/-- When no body is refused, only `calloc()` matters. -/
theorem sound_of_takes (h : ∀ (c : Connection E) f, Takes c f) (r : Except Fault (Server E))
    {op : Op} (hop : op ≠ .onconn .noMemory) : Sound r op := by
  cases r with
  | error e => trivial
  | ok s =>
    cases op with
    | onconn answer =>
      cases answer with
      | noMemory => exact absurd rfl hop
      | refused => trivial
      | client a => exact h _ _
    | onping fuel => exact fun _ c _ => h c _
    | txall fuel f => exact fun _ c _ => h c f
    | lost | written => trivial

/-- MESSAGES: in a safe run the output of every connection are whole messages of those asked for,
    which begin with the hello, in order, each at most once; the others are counted as dropped, and
    behind `MAXOUT` bytes nothing is enqueued. A message for all connections is offered to each of
    them once. -/
theorem connections_counted {ops : List Op} {s : Server E}
    (hC : Along step (Sound (E := E)) (.ok .init) ops)
    (hs : exec step (.ok .init) ops = some (.ok s)) :
    (∀ a c, s.heap a = some c → Counted c ∧ c.asked.head? = some msghello) ∧
      ∀ msg : Connection E → Frame, (∀ a c, s.heap a = some c → Takes c (msg c)) →
        ∃ fuel t, txEach msg fuel s s.connFirst = some (.ok t) ∧
          ∀ a, t.heap a = (s.heap a).map fun c => tx c (msg c) := by
  obtain ⟨s', hs', h⟩ := inv_exec (I := Runs) (fun _ _ _ h hc hs => runs_step h hc hs)
    ⟨.init, rfl, good_init⟩ hC hs
  cases hs'
  refine ⟨fun a c hc => ⟨h.counted a c hc, h.hello a c hc⟩, fun msg htakes => ?_⟩
  obtain ⟨l, hl⟩ := h.listed
  refine ⟨l.length, sentTo s msg l, ?_, hl.sentTo msg⟩
  rw [txEach_takes hl.list.chain (fun a _ => htakes a), if_pos (Nat.le_refl _)]

/-- Two clients, a ping to both, and the older one is lost. -/
theorem connections_counted_two :
    let ops : List Op := [.onconn (.client 1), .onconn (.client 2), .onping 2, .lost 1]
    ∃ s : Server Chains, exec step (.ok .init) ops = some (.ok s) ∧
      (∀ a c, s.heap a = some c → Counted c ∧ c.asked.head? = some msghello) ∧
        ∀ msg : Connection Chains → Frame, (∀ a c, s.heap a = some c → Takes c (msg c)) →
          ∃ fuel t, txEach msg fuel s s.connFirst = some (.ok t) ∧
            ∀ a, t.heap a = (s.heap a).map fun c => tx c (msg c) := by
  intro ops
  obtain ⟨s, hs⟩ : ∃ s : Server Chains, exec step (.ok .init) ops = some (.ok s) := ⟨_, rfl⟩
  refine ⟨s, hs, connections_counted ?_ hs⟩
  have hops : Along step (fun _ op => op ≠ Op.onconn .noMemory)
      (.ok (.init : Server Chains)) ops := by
    refine along_of_mem fun op hop => ?_
    simp only [ops, List.mem_cons, List.not_mem_nil, or_false] at hop
    rcases hop with rfl | rfl | rfl | rfl <;> (intro heq; cases heq)
  exact along_mono (fun r op => sound_of_takes (fun _ _ _ _ => rfl) r) hops

end Pscdrv.Xbpm.Connections
