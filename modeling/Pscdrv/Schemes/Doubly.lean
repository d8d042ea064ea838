import Pscdrv.Schemes.Linked

/-! # Lists linked in both directions

    Each node also has a link to the node in front of it. `Doubly next prev before head l` says that
    the nodes reached from `head` are those of `l`, in order, and that each one leads back to the
    one in front of it, the first one to `before`. A node is put in front by setting its own links
    and one more; a node is taken out by linking its neighbours to each other.

        before ◀── a ◀──▶ b ◀──▶ c ──▶ ∅       head = a, l = [a, b, c]
        before ◀── a ◀─────────▶ c ──▶ ∅       without b                 -/

namespace Pscdrv

variable {α : Type}

def Doubly (next prev : α → Option (Option α)) : Option α → Option α → List α → Prop
  | _, head, [] => head = none
  | before, head, a :: l => head = some a ∧ prev a = some before ∧
      ∃ n, next a = some n ∧ Doubly next prev (some a) n l

namespace Doubly

variable {next prev next' prev' : α → Option (Option α)} {before head : Option α} {l : List α}

theorem chain : ∀ {l : List α} {before head : Option α}, Doubly next prev before head l →
    Chain next head l
  | [], _, _, h => h
  | _ :: _, _, _, ⟨ha, _, n, hn, h⟩ => ⟨ha, n, hn, h.chain⟩

theorem nodup (h : Doubly next prev before head l) : l.Nodup := h.chain.nodup

/-- Only the links of the list's own nodes matter. -/
theorem congr : ∀ {l : List α} {before head : Option α}, Doubly next prev before head l →
    (∀ a ∈ l, next' a = next a) → (∀ a ∈ l, prev' a = prev a) → Doubly next' prev' before head l
  | [], _, _, h, _, _ => h
  | a :: _, _, _, ⟨ha, hp, n, hn, h⟩, hnext, hprev =>
    ⟨ha, (hprev a List.mem_cons_self).trans hp, n, (hnext a List.mem_cons_self).trans hn,
      h.congr (fun b hb => hnext b (List.mem_cons_of_mem a hb))
        fun b hb => hprev b (List.mem_cons_of_mem a hb)⟩

/-- The links of a node lead to its neighbours. -/
theorem links {a : α} {post : List α} : ∀ (pre : List α) {before head : Option α},
    Doubly next prev before head (pre ++ a :: post) → ∃ n p, next a = some n ∧ prev a = some p ∧
      (∀ x, n = some x → x ∈ post) ∧
      ((pre = [] ∧ p = before ∧ head = some a) ∨ ∃ x ∈ pre, p = some x)
  | [], _, _, ⟨ha, hp, n, hn, h⟩ => by
    refine ⟨n, _, hn, hp, fun x hx => ?_, .inl ⟨rfl, rfl, ha⟩⟩
    cases post with
    | nil => cases hx.symm.trans h
    | cons b post =>
      cases hx.symm.trans h.1
      exact List.mem_cons_self
  | b :: pre, _, _, ⟨_, _, _, _, h⟩ => by
    obtain ⟨n, p, hn, hp, hpost, ⟨-, hb, -⟩ | ⟨x, hx, hpx⟩⟩ := links pre h
    · exact ⟨n, p, hn, hp, hpost, .inr ⟨b, List.mem_cons_self, hb⟩⟩
    · exact ⟨n, p, hn, hp, hpost, .inr ⟨x, List.mem_cons_of_mem b hx, hpx⟩⟩

variable [DecidableEq α]

/-- Only the first node knows what is in front of the list. -/
theorem behind {before' : Option α} (h : Doubly next prev before head l)
    (hnext : ∀ x ∈ l, next' x = next x)
    (hprev : ∀ x ∈ l, prev' x = if head = some x then some before' else prev x) :
    Doubly next' prev' before' head l := by
  have hnd := h.nodup
  cases l with
  | nil => exact h
  | cons a l =>
    obtain ⟨ha, -, n, hn, h⟩ := h
    refine ⟨ha, ?_, n, (hnext a List.mem_cons_self).trans hn, h.congr (fun b hb => ?_)
      fun b hb => ?_⟩
    · rw [hprev a List.mem_cons_self, if_pos ha]
    · exact hnext b (List.mem_cons_of_mem a hb)
    · rw [hprev b (List.mem_cons_of_mem a hb), if_neg]
      rintro rfl
      cases ha
      exact (List.nodup_cons.mp hnd).1 hb

/-- A node is put in front. -/
theorem cons {a : α} (h : Doubly next prev before head l) (ha : next' a = some head)
    (hfirst : prev' a = some none) (hnext : ∀ x ∈ l, next' x = next x)
    (hprev : ∀ x ∈ l, prev' x = if head = some x then some (some a) else prev x) :
    Doubly next' prev' none (some a) (a :: l) :=
  ⟨rfl, hfirst, head, ha, h.behind hnext hprev⟩

/-- A node is taken out: its neighbours are linked to each other. The induction is on the nodes in
    front of it, and `before` is none of the nodes of the list. -/
theorem erase {a : α} {post : List α} {n p : Option α} (hn : next a = some n)
    (hp : prev a = some p) : ∀ (pre : List α) {before head : Option α},
    Doubly next prev before head (pre ++ a :: post) →
    (∀ b, before = some b → b ∉ pre ++ a :: post) →
    (∀ x ∈ pre ++ post, next' x = if p = some x then some n else next x) →
    (∀ x ∈ pre ++ post, prev' x = if n = some x then some p else prev x) →
    Doubly next' prev' before (if p = before then n else head) (pre ++ post)
  | [], before, _, ⟨_, hpa, m, hm, h⟩, hout, hnext, hprev => by
    cases hm.symm.trans hn
    cases hpa.symm.trans hp
    rw [if_pos rfl]
    refine h.behind (fun x hx => ?_) hprev
    rw [hnext x hx, if_neg]
    intro hpx
    exact hout x hpx (List.mem_cons_of_mem a hx)
  | b :: pre, before, _, h, hout, hnext, hprev => by
    have hnd := h.nodup
    obtain ⟨m, q, hm, hq, hpost, hpre⟩ := links (b :: pre) h
    cases hm.symm.trans hn
    cases hq.symm.trans hp
    obtain ⟨hb, hpb, k, hk, h⟩ := h
    rw [List.cons_append, List.nodup_cons] at hnd
    have hnb : n ≠ some b := fun heq =>
      hnd.1 (List.mem_append_right pre (List.mem_cons_of_mem a (hpost b heq)))
    have hpbefore : p ≠ before := by
      rintro rfl
      rcases hpre with ⟨hnil, -⟩ | ⟨x, hx, hpx⟩
      · cases hnil
      · exact hout x hpx (List.mem_append_left _ hx)
    rw [if_neg hpbefore]
    refine ⟨hb, ?_, _, ?_, erase hn hp pre h (fun c hc => ?_) (fun x hx => ?_) fun x hx => ?_⟩
    · rw [hprev b List.mem_cons_self, if_neg hnb, hpb]
    · rw [hnext b List.mem_cons_self, hk]
      split <;> rfl
    · cases hc
      exact hnd.1
    · exact hnext x (List.mem_cons_of_mem b hx)
    · exact hprev x (List.mem_cons_of_mem b hx)

end Doubly

end Pscdrv
