import Mathlib.Data.List.Nodup
import Pscdrv.Xbpm.Connections

/-! # Linking and unlinking

    `onconn` puts a connection in front of the list, `freeconn` takes one out wherever it is. Each
    is one change of a `conn_next` and one of a `conn_prev`, at the connections that are neighbours;
    these are in the list, so they are allocated.

        first ─▶ 3 ◀─▶ 2 ◀─▶ 1        freeconn 2 :  3.conn_next = 1, 1.conn_prev = 3 -/

namespace Pscdrv.Xbpm.Connections

section Links

variable {E : Type} {s t : Server E} {a : ℕ} {c d : Connection E}

/-- The links are all that may differ. -/
def Same (c d : Connection E) : Prop :=
  d = { c with connNext := d.connNext, connPrev := d.connPrev }

/-- The connection that `p` leads to, if any, gets another link. -/
def setNext (s : Server E) (p n : Option ℕ) : Server E :=
  { s with heap := fun x =>
    if p = some x then (s.heap x).map fun c => { c with connNext := n } else s.heap x }

def setPrev (s : Server E) (n p : Option ℕ) : Server E :=
  { s with heap := fun x =>
    if n = some x then (s.heap x).map fun c => { c with connPrev := p } else s.heap x }

theorem modify_next {b : ℕ} (hb : (s.heap b).isSome) (n : Option ℕ) :
    s.modify b (fun d => { d with connNext := n }) = .ok (setNext s (some b) n) := by
  obtain ⟨d, hd⟩ := Option.isSome_iff_exists.mp hb
  rw [Server.modify, read_some hd, Except.map, Server.set, setNext]
  congr 2
  funext x
  by_cases hx : x = b
  · rw [hx, Function.update_self, if_pos rfl, hd, Option.map_some]
  · rw [Function.update_of_ne hx, if_neg fun heq => hx (Option.some.inj heq).symm]

theorem modify_prev {b : ℕ} (hb : (s.heap b).isSome) (p : Option ℕ) :
    s.modify b (fun d => { d with connPrev := p }) = .ok (setPrev s (some b) p) := by
  obtain ⟨d, hd⟩ := Option.isSome_iff_exists.mp hb
  rw [Server.modify, read_some hd, Except.map, Server.set, setPrev]
  congr 2
  funext x
  by_cases hx : x = b
  · rw [hx, Function.update_self, if_pos rfl, hd, Option.map_some]
  · rw [Function.update_of_ne hx, if_neg fun heq => hx (Option.some.inj heq).symm]

@[simp] theorem isSome_setNext (s : Server E) (p n : Option ℕ) (x : ℕ) :
    ((setNext s p n).heap x).isSome = (s.heap x).isSome := by
  unfold setNext
  dsimp only
  split
  · exact Option.isSome_map
  · rfl

@[simp] theorem isSome_setPrev (s : Server E) (n p : Option ℕ) (x : ℕ) :
    ((setPrev s n p).heap x).isSome = (s.heap x).isSome := by
  unfold setPrev
  dsimp only
  split
  · exact Option.isSome_map
  · rfl

theorem nextOf_setNext (s : Server E) (p n : Option ℕ) (x : ℕ) :
    nextOf (setNext s p n) x = if p = some x then (nextOf s x).map fun _ => n else nextOf s x := by
  unfold nextOf setNext
  dsimp only
  split
  · rw [Option.map_map, Option.map_map]
    rfl
  · rfl

theorem prevOf_setPrev (s : Server E) (n p : Option ℕ) (x : ℕ) :
    prevOf (setPrev s n p) x = if n = some x then (prevOf s x).map fun _ => p else prevOf s x := by
  unfold prevOf setPrev
  dsimp only
  split
  · rw [Option.map_map, Option.map_map]
    rfl
  · rfl

@[simp] theorem prevOf_setNext (s : Server E) (p n : Option ℕ) (x : ℕ) :
    prevOf (setNext s p n) x = prevOf s x := by
  unfold prevOf setNext
  dsimp only
  split
  · rw [Option.map_map]
    rfl
  · rfl

@[simp] theorem nextOf_setPrev (s : Server E) (n p : Option ℕ) (x : ℕ) :
    nextOf (setPrev s n p) x = nextOf s x := by
  unfold nextOf setPrev
  dsimp only
  split
  · rw [Option.map_map]
    rfl
  · rfl

theorem nextOf_set_ne (s : Server E) {x : ℕ} (c : Option (Connection E)) (h : x ≠ a) :
    nextOf (s.set a c) x = nextOf s x := by
  rw [nextOf, set_ne s c h, nextOf]

theorem prevOf_set_ne (s : Server E) {x : ℕ} (c : Option (Connection E)) (h : x ≠ a) :
    prevOf (s.set a c) x = prevOf s x := by
  rw [prevOf, set_ne s c h, prevOf]

theorem Same.trans {e : Connection E} (h : Same c d) (k : Same d e) : Same c e := by
  rw [Same, k, h]

theorem setNext_back {p n : Option ℕ} {x : ℕ} (h : (setNext s p n).heap x = some d) :
    ∃ c, s.heap x = some c ∧ Same c d := by
  unfold setNext at h
  dsimp only at h
  split at h
  · obtain ⟨c, hc, rfl⟩ := Option.map_eq_some_iff.mp h
    exact ⟨c, hc, rfl⟩
  · exact ⟨d, h, rfl⟩

theorem setPrev_back {n p : Option ℕ} {x : ℕ} (h : (setPrev s n p).heap x = some d) :
    ∃ c, s.heap x = some c ∧ Same c d := by
  unfold setPrev at h
  dsimp only at h
  split at h
  · obtain ⟨c, hc, rfl⟩ := Option.map_eq_some_iff.mp h
    exact ⟨c, hc, rfl⟩
  · exact ⟨d, h, rfl⟩

/-- `freeconn` without a fault. -/
theorem freeconn_eq (hc : s.heap a = some c)
    (hp : (c.connPrev = none ∧ s.connFirst = some a) ∨
      ∃ p, c.connPrev = some p ∧ (s.heap p).isSome)
    (hn : ∀ n, c.connNext = some n → (s.heap n).isSome) :
    freeconn s a = .ok ((setPrev (setNext { s with
      connFirst := if c.connPrev = none then c.connNext else s.connFirst } c.connPrev c.connNext)
        c.connNext c.connPrev).set a none) := by
  have hprev : unlinkPrev s a c = .ok (setNext { s with
      connFirst := if c.connPrev = none then c.connNext else s.connFirst }
        c.connPrev c.connNext) := by
    unfold unlinkPrev
    rcases hp with ⟨hnone, hfirst⟩ | ⟨p, hsome, hin⟩
    · rw [hnone]
      dsimp only
      rw [if_pos hfirst, if_pos rfl, setNext]
      simp only [reduceCtorEq, if_false]
    · rw [hsome]
      dsimp only
      rw [modify_next hin, if_neg nofun]
  have hnext : ∀ u : Server E, (∀ x, (u.heap x).isSome = (s.heap x).isSome) →
      unlinkNext u c = .ok (setPrev u c.connNext c.connPrev) := by
    intro u hu
    unfold unlinkNext
    cases hcn : c.connNext with
    | none =>
      rw [setPrev]
      simp only [reduceCtorEq, if_false]
    | some n =>
      dsimp only
      rw [modify_prev]
      rw [hu]
      exact hn n hcn
  rw [freeconn, read_some hc]
  dsimp only [Except.bind]
  rw [hprev]
  let u := setNext { s with
    connFirst := if c.connPrev = none then c.connNext else s.connFirst } c.connPrev c.connNext
  change (unlinkNext u c).map _ = _
  rw [hnext u fun x => isSome_setNext _ _ _ x]
  rfl

/-- UNLINKING: the list without the connection that is freed. -/
theorem Listed.freeconn {l : List ℕ} (h : Listed s l) (hc : s.heap a = some c) :
    ∃ t, freeconn s a = .ok t ∧ (∃ l', Listed t l') ∧
      ∀ x d, t.heap x = some d → ∃ d', s.heap x = some d' ∧ Same d' d := by
  have hal : a ∈ l := (h.mem a).mpr (by rw [hc]; rfl)
  obtain ⟨pre, post, rfl⟩ := List.append_of_mem hal
  obtain ⟨n, p, hn, hp, hpost, hpre⟩ := h.list.links pre
  have hcn : n = c.connNext := by
    rw [nextOf, hc] at hn
    exact (Option.some.inj hn).symm
  have hcp : p = c.connPrev := by
    rw [prevOf, hc] at hp
    exact (Option.some.inj hp).symm
  subst hcn hcp
  have hnd := h.list.nodup
  have hin : ∀ x, x ∈ pre ++ post → x ≠ a ∧ (s.heap x).isSome := by
    intro x hx
    have hsub : x ∈ pre ++ a :: post := by
      rw [List.mem_append, List.mem_cons]
      exact (List.mem_append.mp hx).imp_right .inr
    refine ⟨?_, (h.mem x).mp hsub⟩
    rintro rfl
    rw [List.nodup_middle, List.nodup_cons] at hnd
    exact hnd.1 hx
  have hfirst : (c.connPrev = none ∧ s.connFirst = some a) ∨
      ∃ p, c.connPrev = some p ∧ (s.heap p).isSome := by
    rcases hpre with ⟨-, hnone, hfirst⟩ | ⟨x, hx, hxp⟩
    · exact .inl ⟨hnone, hfirst⟩
    · exact .inr ⟨x, hxp, (hin x (List.mem_append_left post hx)).2⟩
  refine ⟨_, freeconn_eq hc hfirst fun x hx =>
    (hin x (List.mem_append_right pre (hpost x hx))).2, ⟨pre ++ post, ?_, fun x => ?_⟩, ?_⟩
  · refine h.list.erase hn hp pre (fun b hb => by cases hb) (fun x hx => ?_) fun x hx => ?_
    · obtain ⟨hxa, hx⟩ := hin x hx
      obtain ⟨d, hd⟩ := Option.isSome_iff_exists.mp hx
      rw [nextOf_set_ne _ _ hxa, nextOf_setPrev, nextOf_setNext]
      split
      · rw [nextOf, hd]
        rfl
      · rfl
    · obtain ⟨hxa, hx⟩ := hin x hx
      obtain ⟨d, hd⟩ := Option.isSome_iff_exists.mp hx
      rw [prevOf_set_ne _ _ hxa, prevOf_setPrev, prevOf_setNext]
      split
      · rw [prevOf, hd]
        rfl
      · rfl
  · by_cases hxa : x = a
    · subst hxa
      rw [set_self]
      exact iff_of_false (fun hx => (hin x hx).1 rfl) (by simp)
    · rw [set_ne _ _ hxa, isSome_setPrev, isSome_setNext, ← h.mem x, List.mem_append,
        List.mem_append, List.mem_cons, or_iff_right hxa]
  · intro x d hd
    have hxa : x ≠ a := by
      rintro rfl
      rw [set_self] at hd
      cases hd
    rw [set_ne _ _ hxa] at hd
    obtain ⟨e, he, hsame⟩ := setPrev_back hd
    obtain ⟨f, hf, hsame'⟩ := setNext_back he
    exact ⟨f, hf, hsame'.trans hsame⟩

/-- LINKING: the list with a new connection in front. -/
theorem Listed.prepend {l : List ℕ} (h : Listed s l) (ha : s.heap a = none)
    (hc : c.connPrev = none) : ∃ t, prepend (s.set a (some c)) a = .ok t ∧ Listed t (a :: l) ∧
      ∀ x d, t.heap x = some d → ∃ d', (s.set a (some c)).heap x = some d' ∧ Same d' d := by
  have hnot : a ∉ l := fun hal => by
    have hsome := (h.mem a).mp hal
    rw [ha] at hsome
    cases hsome
  have hhead : ∀ b, s.connFirst = some b → b ∈ l := by
    intro b hb
    have hlist := h.list
    cases l with
    | nil => cases hb.symm.trans hlist
    | cons x l =>
      cases hb.symm.trans hlist.1
      exact List.mem_cons_self
  have hne : ∀ x ∈ l, x ≠ a := fun x hx heq => hnot (heq ▸ hx)
  have hlinks : Connections.prepend (s.set a (some c)) a = .ok { setNext (setPrev
      (s.set a (some c)) s.connFirst (some a)) (some a) s.connFirst with connFirst := some a } := by
    have hin : ((setPrev (s.set a (some c)) s.connFirst (some a)).heap a).isSome := by
      rw [isSome_setPrev, set_self]
      rfl
    have hfirst : linkFirst (s.set a (some c)) a =
        .ok (setPrev (s.set a (some c)) s.connFirst (some a)) := by
      have hsame : (s.set a (some c)).connFirst = s.connFirst := rfl
      unfold linkFirst
      rw [hsame]
      cases hb : s.connFirst with
      | none =>
        rw [setPrev]
        simp only [reduceCtorEq, if_false]
      | some b =>
        refine modify_prev ?_ _
        rw [set_ne _ _ (hne b (hhead b hb))]
        exact (h.mem b).mp (hhead b hb)
    rw [Connections.prepend, hfirst]
    dsimp only [Except.bind]
    have hmod := modify_next hin s.connFirst
    change (Except.map _ ((setPrev (s.set a (some c)) s.connFirst (some a)).modify a
      fun c => { c with connNext := s.connFirst })) = _
    rw [hmod]
    rfl
  refine ⟨_, hlinks, ⟨?_, fun x => ?_⟩, fun x d hd => ?_⟩
  · refine h.list.cons ?_ ?_ (fun x hx => ?_) fun x hx => ?_
    · change nextOf (setNext _ _ _) a = _
      rw [nextOf_setNext, if_pos rfl, nextOf_setPrev, nextOf, set_self]
      rfl
    · change prevOf (setNext _ _ _) a = _
      rw [prevOf_setNext, prevOf_setPrev, if_neg fun heq => hnot (hhead a heq), prevOf, set_self,
        Option.map_some, hc]
    · change nextOf (setNext _ _ _) x = _
      rw [nextOf_setNext, if_neg fun heq => hne x hx (Option.some.inj heq).symm, nextOf_setPrev,
        nextOf_set_ne _ _ (hne x hx)]
    · obtain ⟨d, hd⟩ := Option.isSome_iff_exists.mp ((h.mem x).mp hx)
      change prevOf (setNext _ _ _) x = _
      rw [prevOf_setNext, prevOf_setPrev, prevOf_set_ne _ _ (hne x hx)]
      split
      · rw [prevOf, hd]
        rfl
      · rfl
  · change _ ↔ ((setNext _ _ _).heap x).isSome = true
    rw [isSome_setNext, isSome_setPrev, List.mem_cons]
    by_cases hxa : x = a
    · rw [hxa, set_self]
      exact iff_of_true (.inl rfl) rfl
    · rw [set_ne _ _ hxa, or_iff_right hxa, h.mem]
  · obtain ⟨e, he, hsame⟩ := setNext_back hd
    obtain ⟨f, hf, hsame'⟩ := setPrev_back he
    exact ⟨f, hf, hsame'.trans hsame⟩

end Links

end Pscdrv.Xbpm.Connections
