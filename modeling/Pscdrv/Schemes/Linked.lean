import Mathlib.Data.List.Basic

/-! # Lists linked through memory

    `next a` reads the link field of the node at address `a`: `none` when there is no node at `a`,
    `some none` at the end of a list. `Chain next head l` says that the nodes reached from `head`
    are those of `l`, in order. A chain is determined by where it starts, so it meets no node twice,
    and it depends only on the links of its own nodes.

        head ──▶ a ──▶ b ──▶ c ──▶ ∅        l = [a, b, c] -/

namespace Pscdrv

variable {α : Type}

def Chain (next : α → Option (Option α)) : Option α → List α → Prop
  | head, [] => head = none
  | head, a :: l => head = some a ∧ ∃ n, next a = some n ∧ Chain next n l

namespace Chain

variable {next : α → Option (Option α)}

theorem unique : ∀ {l l' : List α} {head : Option α}, Chain next head l → Chain next head l' →
    l = l'
  | [], [], _, _, _ => rfl
  | [], _ :: _, _, h, h' => by
    rw [show _ = none from h] at h'
    exact absurd h'.1 nofun
  | _ :: _, [], _, h, h' => by
    rw [show _ = none from h'] at h
    exact absurd h.1 nofun
  | a :: l, b :: l', head, ⟨ha, n, hn, h⟩, ⟨hb, m, hm, h'⟩ => by
    cases ha
    cases hb
    rw [hn, Option.some.injEq] at hm
    rw [h.unique (hm ▸ h')]

/-- From each node on, the rest of the chain is a chain. -/
theorem tail : ∀ (pre : List α) {post : List α} {a : α} {head : Option α},
    Chain next head (pre ++ a :: post) → ∃ n, next a = some n ∧ Chain next n post
  | [], _, _, _, ⟨_, hn⟩ => hn
  | _ :: pre, _, _, _, ⟨_, _, _, h⟩ => tail pre h

theorem suffix : ∀ (pre : List α) {post : List α} {a : α} {head : Option α},
    Chain next head (pre ++ a :: post) → Chain next (some a) (a :: post)
  | [], _, _, _, ⟨_, hn⟩ => ⟨rfl, hn⟩
  | _ :: pre, _, _, _, ⟨_, _, _, h⟩ => suffix pre h

/-- No node is met twice. -/
theorem nodup : ∀ {l : List α} {head : Option α}, Chain next head l → l.Nodup
  | [], _, _ => List.nodup_nil
  | a :: l, head, h => by
    refine List.nodup_cons.mpr ⟨fun hmem => ?_, h.2.choose_spec.2.nodup⟩
    -- the chain from the second `a` on would be the chain itself
    obtain ⟨pre, post, rfl⟩ := List.append_of_mem hmem
    have hsame := (suffix (a :: pre) h).unique (suffix [] h)
    have hlen := congrArg List.length hsame
    simp only [List.length_cons, List.length_append] at hlen
    omega

/-- Only the links of the chain's own nodes matter. -/
theorem congr {next' : α → Option (Option α)} : ∀ {l : List α} {head : Option α},
    Chain next head l → (∀ a ∈ l, next' a = next a) → Chain next' head l
  | [], _, h, _ => h
  | a :: _, _, ⟨ha, n, hn, h⟩, heq => ⟨ha, n, (heq a List.mem_cons_self).trans hn,
      h.congr fun b hb => heq b (List.mem_cons_of_mem a hb)⟩

theorem nil_iff {l : List α} : Chain next none l ↔ l = [] := by
  cases l with
  | nil => simp [Chain]
  | cons a l => simp [Chain]

end Chain

/-- Follow the links from `head`, over at most `fuel` nodes. -/
def follow (next : α → Option (Option α)) : ℕ → Option α → Option (List α)
  | _, none => some []
  | 0, some _ => none
  | fuel + 1, some a => (next a).bind fun n => (follow next fuel n).map (a :: ·)

/-- Following the links of a chain visits its nodes in order. -/
theorem Chain.follow {next : α → Option (Option α)} : ∀ {l : List α} {head : Option α} {fuel : ℕ},
    Chain next head l → l.length ≤ fuel → follow next fuel head = some l
  | [], _, fuel, h, _ => by
    rw [show _ = none from h]
    cases fuel <;> rfl
  | a :: l, _, 0, _, hlen => by simp at hlen
  | a :: l, _, fuel + 1, ⟨ha, n, hn, h⟩, hlen => by
    rw [ha, Pscdrv.follow, hn, Option.bind_some, h.follow (by simpa using hlen), Option.map_some]

/-- What is visited is a chain. -/
theorem chain_of_follow {next : α → Option (Option α)} : ∀ {fuel : ℕ} {head : Option α}
    {l : List α}, follow next fuel head = some l → Chain next head l
  | 0, none, l, h => by
    rw [follow, Option.some.injEq] at h
    exact h ▸ rfl
  | _ + 1, none, l, h => by
    rw [follow, Option.some.injEq] at h
    exact h ▸ rfl
  | 0, some _, _, h => by cases h
  | fuel + 1, some a, l, h => by
    obtain ⟨n, hn, h⟩ := Option.bind_eq_some_iff.mp h
    obtain ⟨rest, hrest, rfl⟩ := Option.map_eq_some_iff.mp h
    exact ⟨rfl, n, hn, chain_of_follow hrest⟩

end Pscdrv
