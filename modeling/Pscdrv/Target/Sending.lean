import Pscdrv.Target.Pscmsg

/-! # Sending until a call fails

    `psc_sendall` gives up where `send()` fails: what it has sent is a first part of what it was
    given, all of it exactly when it returns 0; a message may be cut off anywhere.

        ├─ header ─┤├─ body … ✗ -/

namespace Pscdrv.Target

/-- LOOP: whatever the socket does, a first part of the bytes is sent, and all of them exactly when
    0 is returned. -/
theorem sendall_part (s : Sock) (buf : List UInt8) : ∃ part, part <+: buf ∧
    (sendall s buf).2.outgoing = s.outgoing ++ part ∧ ((sendall s buf).1 = none ↔ part = buf) := by
  induction hn : buf.length using Nat.strongRecOn generalizing s buf with
  | ind n ih =>
    subst hn
    unfold sendall
    by_cases h0 : buf = []
    · rw [if_pos h0]
      exact ⟨[], List.nil_prefix, (List.append_nil _).symm, iff_of_true rfl h0.symm⟩
    rw [if_neg h0]
    have hpos : 0 < buf.length := List.length_pos_of_ne_nil h0
    have hnil : ¬ ([] : List UInt8) = buf := fun h => h0 h.symm
    cases henv : s.env s.calls with
    | error errno =>
      have hsend : Target.send s buf = (.error errno, { s with calls := s.calls + 1 }) := by
        rw [Target.send, henv]
      rw [hsend]
      exact ⟨[], List.nil_prefix, (List.append_nil _).symm, iff_of_false (by simp) hnil⟩
    | upTo k =>
      have hsend : Target.send s buf = (.ok (min k buf.length), { s with
          calls := s.calls + 1, outgoing := s.outgoing ++ buf.take k }) := by
        rw [Target.send, henv]
      rw [hsend]
      dsimp only
      by_cases hk : min k buf.length = 0
      · rw [dif_pos hk]
        have htake : buf.take k = [] := by
          rw [List.take_eq_nil_iff]
          exact .inl (by omega)
        exact ⟨[], List.nil_prefix, by rw [htake], iff_of_false (by simp) hnil⟩
      · rw [dif_neg hk]
        have htake : buf.take k = buf.take (min k buf.length) :=
          List.take_eq_take_iff.mpr (by omega)
        obtain ⟨part, hpart, hout, hret⟩ := ih (buf.drop (min k buf.length)).length
          (by rw [List.length_drop]; omega) { s with
            calls := s.calls + 1, outgoing := s.outgoing ++ buf.take k } _ rfl
        have hall := List.take_append_drop (min k buf.length) buf
        refine ⟨buf.take (min k buf.length) ++ part, ?_, ?_, hret.trans ?_⟩
        · conv_rhs => rw [← hall]
          exact (List.prefix_append_right_inj _).mpr hpart
        · rw [hout, htake, List.append_assoc]
        · constructor
          · intro h
            rw [h, hall]
          · exact fun h => List.append_cancel_left (h.trans hall.symm)

/-- Whatever the socket does, a first part of the message is sent, and all of it exactly when 0 is
    returned. -/
theorem sendmsg_part (s : Sock) (f : Frame) : ∃ part, part <+: f.bytes ∧
    (sendmsg s f.code f.body).2.outgoing = s.outgoing ++ part ∧
      ((sendmsg s f.code f.body).1 = none ↔ part = f.bytes) := by
  obtain ⟨head, hpre, hout, hret⟩ := sendall_part s (header f.code (UInt32.ofNat f.body.length))
  unfold sendmsg sendhead
  dsimp only
  split
  · rename_i hfail
    -- the header was not sent
    have hne : head ≠ header f.code (UInt32.ofNat f.body.length) := fun h => hfail (hret.mpr h)
    refine ⟨head, hpre.trans (List.prefix_append _ _), hout, iff_of_false hfail fun h => hne ?_⟩
    have hlen := congrArg List.length h
    rw [length_bytes] at hlen
    refine hpre.eq_of_length_le ?_
    rw [length_header]
    have h8 : headerSize = 8 := rfl
    omega
  · rename_i hok
    have hhead : head = header f.code (UInt32.ofNat f.body.length) :=
      hret.mp (not_not.mp hok)
    obtain ⟨body, hpre', hout', hret'⟩ := sendall_part
      (sendall s (header f.code (UInt32.ofNat f.body.length))).2 f.body
    refine ⟨head ++ body, ?_, by rw [hout', hout, List.append_assoc], hret'.trans ?_⟩
    · rw [hhead]
      exact (List.prefix_append_right_inj _).mpr hpre'
    · rw [hhead, Frame.bytes]
      exact (List.append_right_inj _).symm

end Pscdrv.Target
