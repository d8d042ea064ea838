import Mathlib.Data.List.Basic

/-! # Decoders that ask for a number of items and consume exactly that many

    A `Decoder` waits, in state `s`, for `need s ≥ 1` items, consumes them, gives some outputs and
    either goes on in a new state or stops for good. `decode` runs it over a buffer as far as the
    buffer reaches; `feed` is the incremental use: a chunk is appended to what was left over and
    the decoder runs again. The fact a user needs is that cutting the input does not show:

        decode s (a ++ b)  =  decode s a, then feed b to what that left -/

namespace Pscdrv

/-- A decoder over items `β` with outputs `ω`; a next state `none` means that it stops. -/
structure Decoder (σ β ω : Type*) where
  need : σ → ℕ
  need_pos : ∀ s, 0 < need s
  next : σ → List β → List ω × Option σ

namespace Decoder

variable {σ β ω : Type*} (D : Decoder σ β ω)

/-- The outputs and, unless the decoder has stopped, its state and the items left over. -/
def decode (s : σ) (buf : List β) : List ω × Option (σ × List β) :=
  if _h : D.need s ≤ buf.length then
    match D.next s (buf.take (D.need s)) with
    | (out, none) => (out, none)
    | (out, some s') =>
      let r := decode s' (buf.drop (D.need s))
      (out ++ r.1, r.2)
  else ([], some (s, buf))
termination_by buf.length
decreasing_by
  have := D.need_pos s
  rw [List.length_drop]
  omega

/-- A buffer that is too short is left as it is. -/
theorem decode_short {s : σ} {buf : List β} (h : buf.length < D.need s) :
    D.decode s buf = ([], some (s, buf)) := by
  rw [decode, dif_neg (by omega)]

theorem decode_stop {s : σ} {buf : List β} {out : List ω} (h : D.need s ≤ buf.length)
    (hn : D.next s (buf.take (D.need s)) = (out, none)) : D.decode s buf = (out, none) := by
  rw [decode, dif_pos h, hn]

theorem decode_go {s s' : σ} {buf : List β} {out : List ω} (h : D.need s ≤ buf.length)
    (hn : D.next s (buf.take (D.need s)) = (out, some s')) :
    D.decode s buf =
      (out ++ (D.decode s' (buf.drop (D.need s))).1, (D.decode s' (buf.drop (D.need s))).2) := by
  rw [decode, dif_pos h, hn]

/-- One more chunk for a decoder that may have stopped. -/
def feed : Option (σ × List β) → List β → List ω × Option (σ × List β)
  | none, _ => ([], none)
  | some (s, buf), chunk => D.decode s (buf ++ chunk)

/-- CHUNKING DOES NOT SHOW: decoding a longer buffer is decoding its first part and then feeding
    the second part to what that left. -/
theorem decode_append (s : σ) (a b : List β) :
    D.decode s (a ++ b) =
      ((D.decode s a).1 ++ (D.feed (D.decode s a).2 b).1, (D.feed (D.decode s a).2 b).2) := by
  induction hn : a.length using Nat.strongRecOn generalizing s a with
  | ind n ih =>
    subst hn
    by_cases h : D.need s ≤ a.length
    · have hab : D.need s ≤ (a ++ b).length := by rw [List.length_append]; omega
      have htake : (a ++ b).take (D.need s) = a.take (D.need s) := List.take_append_of_le_length h
      have hdrop : (a ++ b).drop (D.need s) = a.drop (D.need s) ++ b :=
        List.drop_append_of_le_length h
      have hlt : (a.drop (D.need s)).length < a.length := by
        have := D.need_pos s
        rw [List.length_drop]
        omega
      rcases hnx : D.next s (a.take (D.need s)) with ⟨out, _ | s'⟩
      · rw [D.decode_stop hab (htake ▸ hnx), D.decode_stop h hnx]
        simp [feed]
      · rw [D.decode_go hab (htake ▸ hnx), D.decode_go h hnx, hdrop, ih _ hlt s' _ rfl]
        simp [List.append_assoc]
    · rw [D.decode_short (by omega : a.length < D.need s)]
      simp [feed]

/-- What is left over is an end of the buffer and too short to go on; if the buffer was not too
    short, something of it was consumed. -/
theorem decode_left {s s' : σ} {buf left : List β} {out : List ω}
    (h : D.decode s buf = (out, some (s', left))) :
    left.length < D.need s' ∧ ∃ n, left = buf.drop n ∧ (D.need s ≤ buf.length → 0 < n) := by
  induction hn : buf.length using Nat.strongRecOn generalizing s buf out with
  | ind n ih =>
    subst hn
    by_cases hgo : D.need s ≤ buf.length
    · have hpos := D.need_pos s
      rcases hnx : D.next s (buf.take (D.need s)) with ⟨o, _ | s₁⟩
      · rw [D.decode_stop hgo hnx] at h
        cases h
      · rw [D.decode_go hgo hnx] at h
        have hlt : (buf.drop (D.need s)).length < buf.length := by
          rw [List.length_drop]
          omega
        have hrest : D.decode s₁ (buf.drop (D.need s)) =
            ((D.decode s₁ (buf.drop (D.need s))).1, some (s', left)) :=
          Prod.ext rfl (Prod.ext_iff.mp h).2
        obtain ⟨hshort, k, hk, -⟩ := ih _ hlt hrest rfl
        refine ⟨hshort, D.need s + k, ?_, fun _ => by omega⟩
        rw [hk, List.drop_drop]
    · rw [D.decode_short (by omega : buf.length < D.need s)] at h
      cases h
      exact ⟨by omega, 0, rfl, fun hle => absurd hle hgo⟩

end Decoder

end Pscdrv
