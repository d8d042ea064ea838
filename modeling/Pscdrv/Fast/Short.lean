import Pscdrv.Fast.Order
import Pscdrv.Schemes.Window

/-! # Which packets the short buffer holds

    At the end of a turn `cachefn` keeps packets of the front of `inprog` while there is room in
    `shortBuf`. A full buffer lets packets pass. If a record of a larger NELM then raises
    `shortLimit`, the next turn adds packets behind the gap.

        accepted :  │ 0  1  2 │ 3  4  5 │ 6  7 │
        shortBuf :  │ 0  1  2 │ 3 │     │ 6  7 │
                                  ▲     ▲
                               limit 4  raised to 8 -/

namespace Pscdrv.Fast

open Libevent Run

variable {E : Type} [Libevent E]

/-- The packets of the current turn that were looked up and not offered to `shortBuf` yet. -/
def CachePc.current (inprog : List Pkt) : CachePc → List Pkt
  | .dispatch i => inprog.take i
  | .rotate => inprog
  | .open _ => inprog
  | .write => inprog
  | .short => inprog
  | _ => []

/-- How many packets were offered to `shortBuf` so far. -/
def offered (s : UdpFast E) : ℕ := s.dispatched.length - (s.cache.current s.inprog).length

/-- How many packets of a turn there is room for. -/
def nmove (s : UdpFast E) : ℕ :=
  min s.inprog.length ((s.shortLimit + 2 ^ 64 - s.shortBuf.length) % 2 ^ 64)

/-- The observer numbers the accepted packets, and notes those that `shortBuf` holds. -/
def noteShort (s : UdpFast E) (a : Action) (w : Window) : Window :=
  match a with
  | .cacheShort => w.offer (offered s) s.inprog.length (nmove s)
  | .clearSwap => .empty
  | _ => w

/-- The short buffer is a piece of the accepted packets, and no number is missing in it. -/
structure Contiguous (s : UdpFast E) (w : Window) : Prop where
  piece : s.shortBuf <:+: s.accepted
  nums : s.shortBuf.map some = w.nums.map fun n => s.accepted[n]?
  consecutive : Window.Consecutive w.nums

/-- When packets have passed a short buffer that is not empty, a turn with packets still finds it
    full: the limit was not raised since, or the buffer was cleared. -/
def StaysFull (s : UdpFast E) (w : Window) : Action → Prop
  | .cacheShort => w.missed = true → s.inprog ≠ [] → s.shortLimit ≤ s.shortBuf.length
  | _ => True

/-- What holds of the notes in every state. -/
structure Tracked (cfg : Config) (s : UdpFast E) (w : Window) : Prop
    extends PoolInv cfg s, Ordered cfg s where
  turn : ∃ before, s.dispatched = before ++ s.cache.current s.inprog
  nums : s.shortBuf.map some = w.nums.map fun n => s.accepted[n]?
  upto : w.Upto (offered s)

section Steps

variable {cfg : Config} {s t : UdpFast E} {w : Window}

theorem offered_eq {before : List Pkt} (h : s.dispatched = before ++ s.cache.current s.inprog) :
    offered s = before.length := by
  rw [offered, h, List.length_append, Nat.add_sub_cancel]

/-- The buffer holds a piece of the accepted packets. -/
theorem Tracked.contiguous (h : Tracked cfg s w) : Contiguous s w := by
  obtain ⟨i, hnums⟩ := h.upto.consecutive
  refine ⟨?_, h.nums, i, hnums⟩
  have hpiece := h.nums
  rw [hnums] at hpiece
  rw [Window.eq_take_drop hpiece]
  exact (List.take_prefix _ _).isInfix.trans (List.drop_suffix _ _).isInfix

/-- What a step does that leaves the short buffer alone. -/
structure Passes (s t : UdpFast E) : Prop where
  shortBuf : t.shortBuf = s.shortBuf
  accepted : s.accepted <+: t.accepted
  turn : ∀ before, s.dispatched = before ++ s.cache.current s.inprog →
    t.dispatched = before ++ t.cache.current t.inprog

/-- The turn is as it was. -/
theorem Passes.of_eq (hs : t.shortBuf = s.shortBuf) (ha : s.accepted <+: t.accepted)
    (hd : t.dispatched = s.dispatched) (hc : t.cache = s.cache) (hi : t.inprog = s.inprog) :
    Passes s t :=
  ⟨hs, ha, fun before h => by rw [hd, hc, hi, h]⟩

/-- The place of the cache worker changes, but the packets looked up in the turn do not. -/
theorem Passes.of_current (hs : t.shortBuf = s.shortBuf) (ha : t.accepted = s.accepted)
    (hd : t.dispatched = s.dispatched)
    (hc : t.cache.current t.inprog = s.cache.current s.inprog) : Passes s t :=
  ⟨hs, ha ▸ List.prefix_refl _, fun before h => by rw [hd, hc, h]⟩

/-- STEP: the loop over `inprog` looks up the next packet of the turn, or has looked up all. -/
theorem cacheDispatch_passes (env : RxEnv) {i : ℕ} (hc : s.cache = .dispatch i) :
    Passes s (cacheDispatch env s i) := by
  cases hi : s.inprog[i]? with
  | some p =>
    obtain ⟨hlt, rfl⟩ := List.getElem?_eq_some_iff.mp hi
    rw [cacheDispatch_some env hi]
    refine ⟨rfl, List.prefix_refl _, fun before h => ?_⟩
    rw [hc, CachePc.current] at h
    dsimp only [CachePc.current]
    rw [h, List.append_assoc, List.take_concat_get' s.inprog i hlt]
  | none =>
    rw [cacheDispatch_none env hi]
    have hall : s.inprog.take i = s.inprog :=
      List.take_of_length_le (List.getElem?_eq_none_iff.mp hi)
    refine .of_current rfl rfl rfl ?_
    rw [hc, CachePc.current, hall]
    dsimp only
    split
    · rename_i hempty
      exact (List.isEmpty_iff.mp hempty).symm
    · rfl

def Action.shorts : Action → Bool
  | .cacheShort => true
  | .clearSwap => true
  | _ => false

/-- STEP: only the end of a turn and `devudp_clear_shortbuf` change the short buffer. -/
theorem step_passes_short (hp : PoolInv cfg s) {a : Action} (ha : a.shorts = false)
    (hs : step cfg s a = some t) : Passes s t := by
  cases step_cases hs with
  | cacheShort | clearSwap => cases ha
  | rxTop =>
    rw [rxTop_frame]
    exact .of_eq rfl (List.prefix_refl _) rfl rfl rfl
  | rxRecv ret now n hrx =>
    obtain ⟨pkts, hr⟩ := rxRecv_received hp hrx ret now
    obtain ⟨u, hframe⟩ := rxRecv_frame cfg s n ret now
    refine .of_eq ?_ ⟨pkts, hr.accepted.symm⟩ ?_ ?_ ?_ <;> rw [hframe]
  | cacheDispatch env i hc => exact cacheDispatch_passes env hc
  | cacheReturn | cacheSwap | cacheOpen | cacheWrite | cacheFinish =>
    rename_i hc
    refine .of_current rfl rfl rfl ?_
    rw [hc]
    rfl
  | cacheWake hc =>
    refine .of_current rfl rfl rfl ?_
    rw [hc]
    rfl
  | cacheSignal _ hc =>
    refine .of_current rfl rfl rfl ?_
    rw [hc, cacheSignal]
    dsimp only
    split <;> rfl
  | cacheRotate _ hc =>
    unfold cacheRotate
    dsimp only
    split <;> exact .of_current rfl rfl rfl (by rw [hc]; rfl)
  | readShortbuf =>
    unfold readShortbuf
    split <;> exact .of_eq rfl (List.prefix_refl _) rfl rfl rfl
  | rxWake | rxNotify | clearReturn | reopen | setRecord | setFile | stop =>
    exact .of_eq rfl (List.prefix_refl _) rfl rfl rfl

/-- The short buffer and its notes stay as they are, while more packets are accepted. -/
theorem Tracked.passes (h : Tracked cfg s w) (hp : PoolInv cfg t) (ho : Ordered cfg t)
    (k : Passes s t) : Tracked cfg t w := by
  obtain ⟨before, hbefore⟩ := h.turn
  have hbefore' := k.turn before hbefore
  refine ⟨hp, ho, ⟨before, hbefore'⟩, ?_, ?_⟩
  · obtain ⟨l, hl⟩ := k.accepted
    rw [k.shortBuf, h.nums]
    refine List.map_congr_left fun n hn => ?_
    have hmem : s.accepted[n]? ∈ s.shortBuf.map some := by
      rw [h.nums]
      exact List.mem_map_of_mem hn
    obtain ⟨p, _, hp⟩ := List.mem_map.mp hmem
    have hlt : n < s.accepted.length := (List.getElem?_eq_some_iff.mp hp.symm).1
    rw [← hl, List.getElem?_append_left hlt]
  · rw [offered_eq hbefore', ← offered_eq hbefore]
    exact h.upto

theorem nmove_le (s : UdpFast E) : nmove s ≤ s.inprog.length := Nat.min_le_left _ _

/-- No packet is moved exactly if there is none or no room. -/
theorem nmove_eq_zero (h : PoolInv cfg s) :
    nmove s = 0 ↔ (s.inprog ≠ [] → s.shortLimit ≤ s.shortBuf.length) := by
  rw [nmove, h.room, ne_eq, ← List.length_eq_zero_iff]
  omega

/-- At the end of a turn its packets are the last ones looked up. -/
theorem Tracked.at_short (h : Tracked cfg s w) (hc : s.cache = .short) : ∃ before,
    s.dispatched = before ++ s.inprog ∧ s.accepted = before ++ s.inprog ++ s.pending ∧
      offered s = before.length := by
  obtain ⟨before, hbefore⟩ := h.turn
  have hoff := offered_eq hbefore
  have hrest : undispatched s = [] := by
    rw [undispatched, hc]
    rfl
  rw [hc] at hbefore
  refine ⟨before, hbefore, ?_, hoff⟩
  rw [← h.order, hrest, List.append_nil, hbefore]
  rfl

/-- STEP: the end of a turn keeps the front of the packets, if none have passed before. -/
theorem cacheShort_tracked (h : Tracked cfg s w) (hc : s.cache = .short)
    (hp : PoolInv cfg (cacheShort s)) (ho : Ordered cfg (cacheShort s))
    (hfull : StaysFull s w .cacheShort) :
    Tracked cfg (cacheShort s) (noteShort s .cacheShort w) := by
  obtain ⟨before, hdisp, hacc, hoff⟩ := h.at_short hc
  refine ⟨hp, ho, ⟨s.dispatched, (List.append_nil _).symm⟩, ?_, ?_⟩
  · have hnew := Window.map_some_take before s.inprog s.pending (nmove_le s)
    rw [← hacc, ← hoff] at hnew
    change (s.shortBuf ++ s.inprog.take (nmove s)).map some =
      (w.nums ++ List.range' (offered s) (nmove s)).map fun n => s.accepted[n]?
    rw [List.map_append, List.map_append, h.nums, hnew]
  · have hnext : offered (cacheShort s) = offered s + s.inprog.length := by
      rw [hoff, ← List.length_append, ← hdisp]
      rfl
    rw [hnext]
    exact h.upto.offer (nmove_le s) fun hmissed =>
      (nmove_eq_zero h.toPoolInv).mpr (hfull hmissed)

/-- STEP: every action keeps track of the numbers, as long as the short buffer stays full when
    packets have passed it. -/
theorem tracked_step (x : UdpFast E × Window) (a : Action) (y : UdpFast E × Window)
    (h : Tracked cfg x.1 x.2) (hfull : StaysFull x.1 x.2 a)
    (hs : observed (step cfg) noteShort x a = some y) : Tracked cfg y.1 y.2 := by
  obtain ⟨hs, hnote⟩ := observed_some hs
  obtain ⟨hp, ho⟩ := ordered_step _ _ _ ⟨h.toPoolInv, h.toOrdered⟩ hs
  rw [hnote]
  generalize y.1 = t at hs hp ho ⊢
  cases a with
  | cacheShort =>
    cases step_cases hs with
    | cacheShort hc => exact cacheShort_tracked h hc hp ho hfull
  | clearSwap =>
    obtain ⟨before, hbefore⟩ := h.turn
    cases step_cases hs with
    | clearSwap => exact ⟨hp, ho, ⟨before, hbefore⟩, rfl, Window.upto_empty _⟩
  | _ => exact h.passes hp ho (step_passes_short h.toPoolInv rfl hs)

/-- A step that adds packets behind some that have passed leaves a gap. -/
theorem staysFull_of_contiguous (x : UdpFast E × Window) (a : Action) (y : UdpFast E × Window)
    (h : Tracked cfg x.1 x.2) (hs : observed (step cfg) noteShort x a = some y)
    (hy : Contiguous y.1 y.2) : StaysFull x.1 x.2 a := by
  obtain ⟨_, hnote⟩ := observed_some hs
  cases a with
  | cacheShort =>
    intro hmissed
    have hgap := hy.consecutive
    rw [hnote] at hgap
    exact (nmove_eq_zero h.toPoolInv).mp (h.upto.offer_gap hgap hmissed)
  | _ => trivial

end Steps

/-- CONTIGUOUS: in every interleaving the short buffer is at every moment a piece of the accepted
    packets with no number missing, if and only if it stays full from when packets have passed it
    until it is cleared: no record of a larger NELM raises its limit before more packets come. -/
theorem short_contiguous (cfg : Config) (as : List Action) :
    Always (observed (step cfg) noteShort) (fun x => Contiguous x.1 x.2)
        ((UdpFast.init cfg : UdpFast E), Window.empty) as ↔
      Along (observed (step cfg) noteShort) (fun x a => StaysFull x.1 x.2 a)
        ((UdpFast.init cfg : UdpFast E), Window.empty) as := by
  have hinit : Ordered cfg (UdpFast.init cfg : UdpFast E) := ordered_init cfg
  exact always_iff_along tracked_step (fun _ h => h.contiguous) staysFull_of_contiguous
    ⟨pool_init cfg, hinit, ⟨[], rfl⟩, rfl, Window.upto_empty _⟩

/-- A packet of the peer is received and goes through one turn. -/
def turn (b : UInt8) : List Action :=
  [.rxRecv (.msgs [⟨⟨1, 1⟩, header 1 1 ++ [b], none⟩]) ⟨0, 0⟩, .rxNotify, .cacheReturn,
    .cacheSignal, .cacheWake, .cacheSwap, .cacheDispatch ⟨⟨0, 0⟩, fun _ _ => 0⟩,
    .cacheDispatch ⟨⟨0, 0⟩, fun _ _ => 0⟩, .cacheRotate ⟨"", none, [], none, fun _ => ""⟩,
    .cacheWrite ⟨"", none, [], none, fun _ => ""⟩, .cacheShort,
    .cacheFinish ⟨"", none, [], none, fun _ => ""⟩]

/-- Two packets come while there is room for one. A record with NELM 2 raises the limit, and the
    third packet is kept next to the first. -/
theorem gap_behind_full :
    ∃ x, exec (observed (step (.small 3)) noteShort)
        ((UdpFast.init (.small 3) : UdpFast Chains), Window.empty)
        (.readShortbuf 1 :: .rxTop :: turn 1 ++ turn 2 ++ .readShortbuf 2 :: turn 3) = some x ∧
      x.2.nums = [0, 2] ∧ ¬ x.1.shortBuf <:+: x.1.accepted ∧ ¬ Contiguous x.1 x.2 := by
  have hrun : (exec (observed (step (.small 3)) noteShort)
        ((UdpFast.init (.small 3) : UdpFast Chains), Window.empty)
        (.readShortbuf 1 :: .rxTop :: turn 1 ++ turn 2 ++ .readShortbuf 2 :: turn 3)).map
      (fun x => (x.2.nums, x.1.shortBuf.map fun p => p.body.bytes.head?,
        x.1.accepted.map fun p => p.body.bytes.head?)) =
      some ([0, 2], [some 1, some 3], [some 1, some 2, some 3]) := by
    decide +kernel
  obtain ⟨x, hx, hview⟩ := Option.map_eq_some_iff.mp hrun
  simp only [Prod.mk.injEq] at hview
  obtain ⟨hnums, hshort, hacc⟩ := hview
  have hgap : ¬ x.1.shortBuf <:+: x.1.accepted := by
    intro h
    have hmap := h.map fun p => p.body.bytes.head?
    rw [hshort, hacc] at hmap
    exact absurd hmap (by decide)
  exact ⟨x, hx, hnums, hgap, fun h => hgap h.piece⟩

end Pscdrv.Fast
