import Mathlib.Data.List.Basic

/-! # Messages on a stream

    A sender writes messages one behind the other; `enc` writes one. What has reached the receiver
    is an initial piece of the stream: some whole messages, and of the next one not yet all. A
    `Mailbox` is what a sender that collects messages and sends them in batches is for: messages are
    sent in the order in which they were asked for, each at most once.

        asked ──▶ waiting ──flush i──▶ sent to i ──wire──▶ ├─ m₀ ─┤├─ m₁ ─┤├─ m₂…
                     └────lose────▶                                     ▲ cut: 2 messages, a tail -/

namespace Pscdrv.Channel

section Wire

variable {μ β : Type*} (enc : μ → List β)

/-- The messages one behind the other. -/
def wire (ms : List μ) : List β := (ms.map enc).flatten

@[simp] theorem wire_nil : wire enc [] = [] := rfl

@[simp] theorem wire_cons (m : μ) (ms : List μ) : wire enc (m :: ms) = enc m ++ wire enc ms := rfl

theorem wire_append (as bs : List μ) : wire enc (as ++ bs) = wire enc as ++ wire enc bs := by
  rw [wire, List.map_append, List.flatten_append, wire, wire]

theorem wire_take_drop (ms : List μ) (j : ℕ) :
    wire enc ms = wire enc (ms.take j) ++ wire enc (ms.drop j) := by
  rw [← wire_append, List.take_append_drop]

/-- When the first messages are all the stream, they are all the messages. -/
theorem take_of_wire (henc : ∀ m, enc m ≠ []) {ms : List μ} {j : ℕ}
    (h : wire enc ms = wire enc (ms.take j)) : ms.take j = ms := by
  have hnil : wire enc (ms.drop j) = [] := by
    rw [wire_take_drop enc ms j] at h
    exact List.append_right_eq_self.mp h
  cases hdrop : ms.drop j with
  | nil => exact List.take_of_length_le (List.drop_eq_nil_iff.mp hdrop)
  | cons m rest =>
    rw [hdrop, wire_cons] at hnil
    exact absurd (List.append_eq_nil_iff.mp hnil).1 (henc m)

/-- `got` holds the first `k` messages, and a piece of the next one. -/
structure Cut (ms : List μ) (got : List β) (k : ℕ) (tail : List β) : Prop where
  le : k ≤ ms.length
  bytes : got = wire enc (ms.take k) ++ tail
  open_ : ∀ m, ms[k]? = some m → tail <+: enc m ∧ tail ≠ enc m
  last : k = ms.length → tail = []

/-- CUT: an initial piece of a stream ends in or before some message. -/
theorem exists_cut {ms : List μ} {got : List β} (h : got <+: wire enc ms) :
    ∃ k tail, Cut enc ms got k tail := by
  induction ms generalizing got with
  | nil =>
    have hnil : got = [] := List.prefix_nil.mp h
    exact ⟨0, [], Nat.le_refl _, by simp [hnil], by simp, fun _ => rfl⟩
  | cons m ms ih =>
    rw [wire_cons] at h
    by_cases hall : enc m <+: got
    · -- the first message is there
      obtain ⟨rest, rfl⟩ := hall
      obtain ⟨k, tail, hk⟩ := ih ((List.prefix_append_right_inj _).mp h)
      refine ⟨k + 1, tail, Nat.succ_le_succ hk.le, ?_, hk.open_,
        fun heq => hk.last (Nat.succ.inj heq)⟩
      rw [List.take_succ_cons, wire_cons, List.append_assoc, ← hk.bytes]
    · have hpre : got <+: enc m :=
        (List.prefix_or_prefix_of_prefix h (List.prefix_append _ _)).resolve_right hall
      refine ⟨0, got, Nat.zero_le _, rfl, fun m' hm => ?_, fun heq => by cases heq⟩
      cases hm
      exact ⟨hpre, fun heq => hall (heq ▸ List.prefix_refl _)⟩

end Wire

/-- What a sender that collects messages has been asked for and has done. -/
structure Mailbox (ι μ : Type*) where
  asked : List μ
  waiting : List μ
  sent : List (ι × μ)

namespace Mailbox

variable {ι μ : Type*}

def empty : Mailbox ι μ := ⟨[], [], []⟩

/-- Ask for messages that are refused. -/
def refuse (b : Mailbox ι μ) (ms : List μ) : Mailbox ι μ := { b with asked := b.asked ++ ms }

/-- Ask for messages that go to the end of the queue. -/
def post (b : Mailbox ι μ) (ms : List μ) : Mailbox ι μ :=
  { b with asked := b.asked ++ ms, waiting := b.waiting ++ ms }

/-- Send all that wait to `i`. -/
def flush (b : Mailbox ι μ) (i : ι) : Mailbox ι μ :=
  { b with waiting := [], sent := b.sent ++ b.waiting.map fun m => (i, m) }

/-- The messages that wait are gone. -/
def lose (b : Mailbox ι μ) : Mailbox ι μ := { b with waiting := [] }

/-- The messages sent to `i`. -/
def sentTo [DecidableEq ι] (b : Mailbox ι μ) (i : ι) : List μ :=
  b.sent.filterMap fun p => if p.1 = i then some p.2 else none

/-- Messages are sent, and wait, in the order in which they were asked for, each at most once. -/
def InOrder (b : Mailbox ι μ) : Prop := (b.sent.map Prod.snd ++ b.waiting).Sublist b.asked

theorem inOrder_empty : (empty : Mailbox ι μ).InOrder := List.Sublist.refl _

theorem InOrder.refuse {b : Mailbox ι μ} (h : b.InOrder) (ms : List μ) : (b.refuse ms).InOrder :=
  h.trans (List.sublist_append_left _ _)

theorem InOrder.post {b : Mailbox ι μ} (h : b.InOrder) (ms : List μ) : (b.post ms).InOrder := by
  change (_ ++ (b.waiting ++ ms)).Sublist (b.asked ++ ms)
  rw [← List.append_assoc]
  exact h.append (List.Sublist.refl _)

theorem InOrder.flush {b : Mailbox ι μ} (h : b.InOrder) (i : ι) : (b.flush i).InOrder := by
  change ((b.sent ++ b.waiting.map fun m => (i, m)).map Prod.snd ++ []).Sublist b.asked
  rw [List.append_nil, List.map_append, List.map_map, Function.comp_def, List.map_id']
  exact h

theorem InOrder.lose {b : Mailbox ι μ} (h : b.InOrder) : b.lose.InOrder := by
  change (_ ++ []).Sublist b.asked
  rw [List.append_nil]
  exact (List.sublist_append_left _ _).trans h

variable [DecidableEq ι]

theorem sentTo_flush (b : Mailbox ι μ) (i j : ι) :
    (b.flush i).sentTo j = b.sentTo j ++ if i = j then b.waiting else [] := by
  rw [sentTo, flush, List.filterMap_append, ← sentTo, List.filterMap_map]
  by_cases h : i = j
  · simp [h]
  · simp [h]

end Mailbox

end Pscdrv.Channel
