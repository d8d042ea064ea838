import Pscdrv.Target.Pscmsg

/-! # Skipping bytes of a stream

    `psc_recvskip` reads into a buffer of 128 bytes and forgets: chunks of 128 while more than 128
    bytes are left, and then the rest. Its loop also ends at a chunk that fails; what comes behind
    the loop takes that for the end of the skip and reads all that is left in one go.

        no failure     ├── 128 ──┤├── 128 ──┤├── 128 ──┤├ rest ┤
        a failure      ├── 128 ──┤├ part ✗├──────── all that was left ───────┤ -/

namespace Pscdrv.Target

/-! ### What a call did -/

/-- `recv()` calls that ask for `asks`, one behind the other: what they give, and the socket. -/
def recvs (s : Sock) : List ℕ → List (Except Errno (List UInt8)) × Sock
  | [] => ([], s)
  | n :: asks => ((recv s n).1 :: (recvs (recv s n).2 asks).1, (recvs (recv s n).2 asks).2)

/-- The error that is reported for a `recv()`, which fails or finds the end of the stream. -/
def failure : Except Errno (List UInt8) → Option Errno
  | .error errno => some errno
  | .ok [] => some .enotconn
  | .ok (_ :: _) => none

/-- The number of bytes that some calls gave. -/
def amount (rs : List (Except Errno (List UInt8))) : ℕ :=
  (rs.map fun r => match r with
    | .ok data => data.length
    | .error _ => 0).sum

/-- What is returned for calls that should give `len` bytes: 0 when they gave just these and none
    failed, and otherwise the error of the last one, which is the only one that failed. -/
def Reports (len : ℕ) (rs : List (Except Errno (List UInt8))) : Option Errno → Prop
  | none => (∀ r ∈ rs, failure r = none) ∧ amount rs = len
  | some errno => ∃ before r, rs = before ++ [r] ∧ (∀ q ∈ before, failure q = none) ∧
      failure r = some errno

/-- From `s` to `t` the call reads `len` bytes or returns the error that kept it from that, with a
    buffer of `room` bytes. -/
def Reads (s : Sock) (room len : ℕ) (ret : Option Errno) (t : Sock) : Prop :=
  ∃ asks, t = (recvs s asks).2 ∧ (∀ n ∈ asks, n ≤ room) ∧ Reports len (recvs s asks).1 ret

/-- `psc_recvskip` does what it should. -/
def Skips (s : Sock) (len : ℕ) : Prop := Reads s 128 len (recvskip s len).1 (recvskip s len).2

/-- `psc_recvmsg` returns 0 only when it took one whole message from the stream. -/
def InStep (s : Sock) (c : Call) : Prop :=
  (recvmsg s c).ret = none →
    headerSize + (bodylenOf s.incoming).toNat ≤ s.incoming.length ∧
      (recvmsg s c).sock.incoming = s.incoming.drop (headerSize + (bodylenOf s.incoming).toNat)

/-! ### What the socket does -/

/-- `recv()` calls give `n` bytes, each asked for those that are missing. -/
inductive Gives : Sock → ℕ → Sock → Prop
  | done (s : Sock) : Gives s 0 s
  | part {s t : Sock} {n : ℕ} {data : List UInt8} (h : (recv s n).1 = .ok data)
      (hne : data ≠ []) (rest : Gives (recv s n).2 (n - data.length) t) : Gives s n t

/-- Of `n` bytes they give `p`, and then one fails. -/
inductive Breaks : Sock → ℕ → ℕ → Sock → Prop
  | now {s : Sock} {n : ℕ} {errno : Errno} (hn : n ≠ 0) (h : failure (recv s n).1 = some errno) :
      Breaks s n 0 (recv s n).2
  | part {s t : Sock} {n p : ℕ} {data : List UInt8} (h : (recv s n).1 = .ok data)
      (hne : data ≠ []) (rest : Breaks (recv s n).2 (n - data.length) p t) :
      Breaks s n (data.length + p) t

/-- No `recv()` fails as long as more than 128 of `len` bytes are missing. -/
inductive Continues : Sock → ℕ → Prop
  | rest {s : Sock} {len : ℕ} (h : len ≤ 128) : Continues s len
  | chunk {s t : Sock} {len : ℕ} (h : 128 < len) (hgives : Gives s 128 t)
      (rest : Continues t (len - 128)) : Continues s len

/-- A skip of `len` bytes gets through with `p` bytes too many: those of a chunk that broke off,
    before all that was left was read. -/
inductive Exceeds : Sock → ℕ → ℕ → Prop
  | rest {s t : Sock} {len : ℕ} (h : len ≤ 128) (hgives : Gives s len t) : Exceeds s len 0
  | chunk {s t : Sock} {len p : ℕ} (h : 128 < len) (hgives : Gives s 128 t)
      (rest : Exceeds t (len - 128) p) : Exceeds s len p
  | broken {s t u : Sock} {len p : ℕ} (h : 128 < len) (hbreaks : Breaks s 128 p t)
      (hgives : Gives t len u) : Exceeds s len p

/-! ### One `recv()` -/

section Receive

variable {s t : Sock} {n : ℕ} {data : List UInt8}

/-- What a `recv()` gives it takes from the front of the stream. -/
theorem recv_ok (h : (recv s n).1 = .ok data) :
    (recv s n).2.incoming = s.incoming.drop data.length ∧
      data = s.incoming.take data.length ∧ data.length ≤ n := by
  unfold recv at h ⊢
  split at h
  · cases h
  · rename_i m hm
    rw [Except.ok.injEq] at h
    subst h
    dsimp only
    rw [List.length_take]
    rcases Nat.le_total (min m n) s.incoming.length with hle | hle
    · rw [Nat.min_eq_left hle]
      exact ⟨rfl, rfl, Nat.min_le_right m n⟩
    · rw [Nat.min_eq_right hle, List.drop_length, List.drop_of_length_le hle, List.take_length,
        List.take_of_length_le hle]
      exact ⟨rfl, rfl, hle.trans (Nat.min_le_right m n)⟩

theorem recv_within (h : (recv s n).1 = .ok data) : data.length ≤ s.incoming.length := by
  have htake := congrArg List.length (recv_ok h).2.1
  rw [List.length_take] at htake
  omega

/-- A `recv()` that fails takes nothing. -/
theorem recv_failed {errno : Errno} (h : failure (recv s n).1 = some errno) :
    (recv s n).2.incoming = s.incoming := by
  rcases hr : (recv s n).1 with e | data
  · unfold recv at hr ⊢
    split at hr
    · rfl
    · cases hr
  · cases data with
    | nil => exact (recv_ok hr).1
    | cons b data =>
      rw [hr] at h
      cases h

theorem asked_recv (s : Sock) (n : ℕ) : (recv s n).2.asked = s.asked ++ [n] := by
  unfold recv
  split <;> rfl

theorem asked_recvs (s : Sock) (asks : List ℕ) : (recvs s asks).2.asked = s.asked ++ asks := by
  induction asks generalizing s with
  | nil => exact (List.append_nil _).symm
  | cons n asks ih =>
    rw [recvs, ih, asked_recv, List.append_assoc]
    rfl

theorem recvs_append (s : Sock) (asks more : List ℕ) :
    recvs s (asks ++ more) =
      ((recvs s asks).1 ++ (recvs (recvs s asks).2 more).1, (recvs (recvs s asks).2 more).2) := by
  induction asks generalizing s with
  | nil => rfl
  | cons n asks ih => rw [List.cons_append, recvs, ih, recvs, List.cons_append]

theorem failure_ok (hne : data ≠ []) : failure (.ok data) = none := by
  cases data with
  | nil => exact absurd rfl hne
  | cons b data => rfl

theorem amount_append (rs qs : List (Except Errno (List UInt8))) :
    amount (rs ++ qs) = amount rs + amount qs := by
  rw [amount, List.map_append, List.sum_append]
  rfl

theorem amount_one (data : List UInt8) : amount [.ok data] = data.length := by
  rw [amount, List.map_singleton, List.sum_singleton]

/-- A `recv()` that did not fail, in front of others. -/
theorem Reports.part {len : ℕ} {r : Except Errno (List UInt8)}
    {rs : List (Except Errno (List UInt8))} {ret : Option Errno}
    (h : Reports (len - amount [r]) rs ret) (hr : failure r = none) (hle : amount [r] ≤ len) :
    Reports len (r :: rs) ret := by
  cases ret with
  | none =>
    obtain ⟨hall, hamount⟩ := h
    refine ⟨List.forall_mem_cons.mpr ⟨hr, hall⟩, ?_⟩
    rw [← List.singleton_append, amount_append, hamount, Nat.add_sub_of_le hle]
  | some errno =>
    obtain ⟨before, q, rfl, hbefore, hq⟩ := h
    exact ⟨r :: before, q, rfl, List.forall_mem_cons.mpr ⟨hr, hbefore⟩, hq⟩

theorem recv_cases (s : Sock) (n : ℕ) :
    (∃ errno, failure (recv s n).1 = some errno) ∨
      ∃ data, (recv s n).1 = .ok data ∧ data ≠ [] := by
  rcases (recv s n).1 with errno | data
  · exact .inl ⟨errno, rfl⟩
  · cases data with
    | nil => exact .inl ⟨.enotconn, rfl⟩
    | cons b data => exact .inr ⟨b :: data, rfl, List.cons_ne_nil b data⟩

/-! ### `psc_recvall` -/

theorem recvall_zero (s : Sock) : recvall s 0 = (none, [], s) := by
  rw [recvall, if_pos rfl]

/-- A `recv()` that fails ends the loop. -/
theorem recvall_failed (hn : n ≠ 0) {errno : Errno} (h : failure (recv s n).1 = some errno) :
    recvall s n = (some errno, [], (recv s n).2) := by
  rw [recvall, if_neg hn]
  rcases hr : (recv s n).1 with e | data
  · rw [hr, failure, Option.some.injEq] at h
    rw [h]
  · cases data with
    | nil =>
      rw [hr, failure, Option.some.injEq] at h
      rw [← h]
      rfl
    | cons b data =>
      rw [hr] at h
      cases h

/-- One that gives something goes on with the rest. -/
theorem recvall_part (h : (recv s n).1 = .ok data) (hne : data ≠ []) :
    recvall s n =
      ((recvall (recv s n).2 (n - data.length)).1,
        data ++ (recvall (recv s n).2 (n - data.length)).2.1,
        (recvall (recv s n).2 (n - data.length)).2.2) := by
  have hpos : 0 < data.length := List.length_pos_of_ne_nil hne
  have hle := (recv_ok h).2.2
  conv_lhs => rw [recvall]
  rw [if_neg (by omega), h]
  dsimp only
  rw [dif_neg (by omega)]

/-- Either all is given, or a `recv()` fails. -/
theorem recvall_outcome (s : Sock) (n : ℕ) :
    (∃ data t, recvall s n = (none, data, t) ∧ Gives s n t) ∨
      ∃ errno data p t, recvall s n = (some errno, data, t) ∧ Breaks s n p t := by
  induction n using Nat.strongRecOn generalizing s with
  | ind n ih =>
    by_cases hn : n = 0
    · rw [hn]
      exact .inl ⟨[], s, recvall_zero s, .done s⟩
    rcases recv_cases s n with ⟨errno, hf⟩ | ⟨data, hr, hne⟩
    · exact .inr ⟨errno, [], 0, _, recvall_failed hn hf, .now hn hf⟩
    · have hpos : 0 < data.length := List.length_pos_of_ne_nil hne
      rw [recvall_part hr hne]
      rcases ih (n - data.length) (by omega) (recv s n).2 with
        ⟨more, t, ht, hgives⟩ | ⟨errno, more, p, t, ht, hbreaks⟩
      · exact .inl ⟨_, t, by rw [ht], .part hr hne hgives⟩
      · exact .inr ⟨errno, _, _, t, by rw [ht], .part hr hne hbreaks⟩

/-- A loop that asks for `n` bytes asks for no more, and reports what came of it. -/
theorem recvall_reads (s : Sock) (n : ℕ) : Reads s n n (recvall s n).1 (recvall s n).2.2 := by
  induction n using Nat.strongRecOn generalizing s with
  | ind n ih =>
    by_cases hn : n = 0
    · rw [hn, recvall_zero]
      exact ⟨[], rfl, List.forall_mem_nil _, List.forall_mem_nil _, rfl⟩
    rcases recv_cases s n with ⟨errno, hf⟩ | ⟨data, hr, hne⟩
    · rw [recvall_failed hn hf]
      exact ⟨[n], rfl, List.forall_mem_singleton.mpr (Nat.le_refl n), [], _, rfl,
        List.forall_mem_nil _, hf⟩
    · have hpos : 0 < data.length := List.length_pos_of_ne_nil hne
      obtain ⟨asks, ht, hroom, hreports⟩ := ih (n - data.length) (by omega) (recv s n).2
      rw [recvall_part hr hne]
      refine ⟨n :: asks, ht, ?_, ?_⟩
      · rw [List.forall_mem_cons]
        exact ⟨Nat.le_refl n, fun m hm => (hroom m hm).trans (Nat.sub_le _ _)⟩
      · rw [recvs, hr]
        exact hreports.part (failure_ok hne) (by rw [amount_one]; exact (recv_ok hr).2.2)

end Receive

/-! ### What is taken from the stream -/

section Taken

variable {s t : Sock} {n p : ℕ}

theorem Gives.taken (h : Gives s n t) :
    t.incoming = s.incoming.drop n ∧ n ≤ s.incoming.length := by
  induction h with
  | done s => exact ⟨rfl, Nat.zero_le _⟩
  | part hr hne _ ih =>
    have hin := recv_within hr
    obtain ⟨hdrop, -, hle⟩ := recv_ok hr
    rw [hdrop, List.drop_drop, List.length_drop] at ih
    refine ⟨?_, by omega⟩
    rw [ih.1, Nat.add_sub_of_le hle]

theorem Breaks.taken (h : Breaks s n p t) :
    t.incoming = s.incoming.drop p ∧ p ≤ s.incoming.length := by
  induction h with
  | now _ hf => exact ⟨recv_failed hf, Nat.zero_le _⟩
  | part hr hne _ ih =>
    have hin := recv_within hr
    obtain ⟨hdrop, -, hle⟩ := recv_ok hr
    rw [hdrop, List.drop_drop, List.length_drop] at ih
    exact ⟨ih.1, by omega⟩

theorem Gives.recvall (h : Gives s n t) : recvall s n = (none, s.incoming.take n, t) := by
  induction h with
  | done s => exact recvall_zero s
  | part hr hne _ ih =>
    obtain ⟨hdrop, hdata, hle⟩ := recv_ok hr
    rw [recvall_part hr hne, ih, hdrop]
    dsimp only
    conv_lhs => rw [hdata]
    rw [List.length_take, Nat.min_eq_left (recv_within hr), ← List.take_add,
      Nat.add_sub_of_le hle]

/-- One `recv()` that gives all it is asked for. -/
theorem gives_upTo {m : ℕ} (henv : s.env s.calls = .upTo m) (hn : n ≠ 0) (hm : n ≤ m)
    (hin : n ≤ s.incoming.length) : Gives s n (recv s n).2 := by
  have hrecv : (recv s n).1 = .ok (s.incoming.take n) := by
    rw [recv, henv]
    dsimp only
    rw [Nat.min_eq_right hm]
  have hlen : (s.incoming.take n).length = n := List.length_take_of_le hin
  refine .part hrecv (List.ne_nil_of_length_pos (by omega)) ?_
  rw [hlen, Nat.sub_self]
  exact .done _

theorem Breaks.recvall (h : Breaks s n p t) :
    ∃ errno data, recvall s n = (some errno, data, t) := by
  induction h with
  | now hn hf => exact ⟨_, [], recvall_failed hn hf⟩
  | part hr hne _ ih =>
    obtain ⟨errno, data, hdata⟩ := ih
    exact ⟨errno, _, by rw [recvall_part hr hne, hdata]⟩

end Taken

/-! ### `psc_recvskip` -/

section Skip

variable {s t u : Sock} {len p : ℕ}

theorem recvskip_rest (h : len ≤ 128) :
    recvskip s len = ((recvall s len).1, (recvall s len).2.2) := by
  rw [recvskip, dif_neg (by omega)]

theorem recvskip_chunk (h : 128 < len) (hgives : Gives s 128 t) :
    recvskip s len = recvskip t (len - 128) := by
  conv_lhs => rw [recvskip]
  rw [dif_pos h, hgives.recvall]
  exact if_pos rfl

theorem recvskip_broken (h : 128 < len) (hbreaks : Breaks s 128 p t) :
    recvskip s len = ((recvall t len).1, (recvall t len).2.2) := by
  obtain ⟨errno, data, hdata⟩ := hbreaks.recvall
  rw [recvskip, dif_pos h, hdata]
  exact if_neg (by simp)

theorem Reads.mono {room room' : ℕ} {ret : Option Errno} (h : Reads s room len ret t)
    (hroom : room ≤ room') : Reads s room' len ret t := by
  obtain ⟨asks, ht, hasks, hreports⟩ := h
  exact ⟨asks, ht, fun n hn => (hasks n hn).trans hroom, hreports⟩

/-- Bytes that were read, and then the rest. -/
theorem Reads.trans {room n m : ℕ} {ret : Option Errno} (h : Reads s room n none t)
    (k : Reads t room m ret u) : Reads s room (n + m) ret u := by
  obtain ⟨asks, rfl, hasks, hall, hamount⟩ := h
  obtain ⟨more, hu, hmore, hreports⟩ := k
  refine ⟨asks ++ more, ?_, List.forall_mem_append.mpr ⟨hasks, hmore⟩, ?_⟩
  · rw [recvs_append, hu]
  · rw [recvs_append]
    cases ret with
    | none =>
      refine ⟨List.forall_mem_append.mpr ⟨hall, hreports.1⟩, ?_⟩
      rw [amount_append, hamount, hreports.2]
    | some errno =>
      obtain ⟨before, r, hbefore, hok, hr⟩ := hreports
      refine ⟨(recvs s asks).1 ++ before, r, ?_, List.forall_mem_append.mpr ⟨hall, hok⟩, hr⟩
      rw [hbefore, List.append_assoc]

/-- SKIP: as long as no chunk fails, the loop is right. -/
theorem skips_of_continues (h : Continues s len) : Skips s len := by
  induction h with
  | @rest s len h =>
    rw [Skips, recvskip_rest h]
    exact (recvall_reads s len).mono h
  | @chunk s t len h hgives _ ih =>
    have hfirst := recvall_reads s 128
    rw [hgives.recvall] at hfirst
    have hboth := hfirst.trans ih
    rwa [Nat.add_sub_of_le h.le, ← recvskip_chunk h hgives] at hboth

theorem asked_grows {ret : Option Errno} {data : List UInt8} (h : recvall s len = (ret, data, t)) :
    ∃ asks, t.asked = s.asked ++ asks := by
  obtain ⟨asks, ht, -⟩ := recvall_reads s len
  rw [h] at ht
  exact ⟨asks, by rw [← asked_recvs, ← ht]⟩

/-- The first `recv()` of a loop asks for all that is to be read. -/
theorem asked_recvall (s : Sock) (hn : len ≠ 0) :
    ∃ more, (recvall s len).2.2.asked = s.asked ++ len :: more := by
  rcases recv_cases s len with ⟨errno, hf⟩ | ⟨data, hr, hne⟩
  · refine ⟨[], ?_⟩
    rw [recvall_failed hn hf]
    exact asked_recv s len
  · obtain ⟨asks, ht, -⟩ := recvall_reads (recv s len).2 (len - data.length)
    refine ⟨asks, ?_⟩
    rw [recvall_part hr hne, ht, asked_recvs, asked_recv, List.append_assoc]
    rfl

/-- SKIP: behind a chunk that fails a `recv()` is asked for more than there is room for. -/
theorem asked_recvskip (h : ¬ Continues s len) :
    ∃ more n, (recvskip s len).2.asked = s.asked ++ more ∧ n ∈ more ∧ 128 < n := by
  induction len using Nat.strongRecOn generalizing s with
  | ind len ih =>
    have hbig : 128 < len := by
      by_contra hle
      exact h (.rest (by omega))
    rcases recvall_outcome s 128 with ⟨data, t, ht, hgives⟩ | ⟨errno, data, p, t, ht, hbreaks⟩
    · obtain ⟨more, n, hmore, hn⟩ := ih (len - 128) (by omega) (s := t)
        fun hrest => h (.chunk hbig hgives hrest)
      obtain ⟨asks, hasks⟩ := asked_grows ht
      refine ⟨asks ++ more, n, ?_, List.mem_append_right _ hn.1, hn.2⟩
      rw [recvskip_chunk hbig hgives, hmore, hasks, List.append_assoc]
    · obtain ⟨more, hmore⟩ := asked_recvall t (show len ≠ 0 by omega)
      obtain ⟨asks, hasks⟩ := asked_grows ht
      refine ⟨asks ++ len :: more, len, ?_, by simp, hbig⟩
      rw [recvskip_broken hbig hbreaks, hmore, hasks, List.append_assoc]

theorem Breaks.not_continues (h : Breaks s 128 p t) (hbig : 128 < len) : ¬ Continues s len := by
  intro hun
  obtain ⟨errno, data, hdata⟩ := h.recvall
  cases hun with
  | rest hle => omega
  | chunk _ hgives _ =>
    rw [hgives.recvall] at hdata
    cases hdata

theorem skips_iff (s : Sock) (len : ℕ) : Skips s len ↔ Continues s len := by
  refine ⟨fun h => ?_, skips_of_continues⟩
  by_contra hbroken
  obtain ⟨more, n, hmore, hn, hbig⟩ := asked_recvskip hbroken
  obtain ⟨asks, ht, hasks, -⟩ := h
  rw [ht, asked_recvs, List.append_cancel_left_eq] at hmore
  have hle := hasks n (hmore ▸ hn)
  omega

/-- A skip that returns 0 has taken the bytes, and maybe some more. -/
theorem Exceeds.returns (h : Exceeds s len p) : (recvskip s len).1 = none ∧
    (recvskip s len).2.incoming = s.incoming.drop (len + p) ∧
      len + p ≤ s.incoming.length := by
  induction h with
  | rest h hgives =>
    rw [recvskip_rest h, hgives.recvall]
    exact ⟨rfl, hgives.taken⟩
  | @chunk s t len p h hgives _ ih =>
    obtain ⟨hret, hin, hle⟩ := ih
    obtain ⟨hdrop, hfirst⟩ := hgives.taken
    have hsum : 128 + (len - 128 + p) = len + p := by omega
    rw [recvskip_chunk h hgives]
    refine ⟨hret, ?_, ?_⟩
    · rw [hin, hdrop, List.drop_drop, hsum]
    · rw [hdrop, List.length_drop] at hle
      omega
  | @broken s t u len p h hbreaks hgives =>
    obtain ⟨hdrop, hfirst⟩ := hbreaks.taken
    obtain ⟨hin, hle⟩ := hgives.taken
    rw [recvskip_broken h hbreaks, hgives.recvall]
    refine ⟨rfl, ?_, ?_⟩
    · rw [hin, hdrop, List.drop_drop, Nat.add_comm]
    · rw [hdrop, List.length_drop] at hle
      omega

theorem exceeds_of_returns (h : (recvskip s len).1 = none) : ∃ p, Exceeds s len p := by
  induction len using Nat.strongRecOn generalizing s with
  | ind len ih =>
    by_cases hbig : 128 < len
    · rcases recvall_outcome s 128 with ⟨_, t, ht, hgives⟩ | ⟨_, _, p, t, ht, hbreaks⟩
      · rw [recvskip_chunk hbig hgives] at h
        obtain ⟨p, hp⟩ := ih (len - 128) (by omega) h
        exact ⟨p, .chunk hbig hgives hp⟩
      · rw [recvskip_broken hbig hbreaks] at h
        rcases recvall_outcome t len with ⟨_, u, hu, hgives⟩ | ⟨_, _, _, u, hu, _⟩
        · exact ⟨p, .broken hbig hbreaks hgives⟩
        · rw [hu] at h
          cases h
    · have hle : len ≤ 128 := by omega
      rw [recvskip_rest hle] at h
      rcases recvall_outcome s len with ⟨_, u, hu, hgives⟩ | ⟨_, _, _, u, hu, _⟩
      · exact ⟨0, .rest hle hgives⟩
      · rw [hu] at h
        cases h

end Skip

/-! ### `psc_recvmsg` -/

/-- A message with more bytes than there is room for is cut off, and of the stream `p` bytes more
    than this message are taken. -/
structure Slips (s : Sock) (c : Call) (p : ℕ) : Prop where
  header : isPS s.incoming = true
  long : c.msglen < bodylenOf s.incoming
  skip : ∃ t u, Gives s headerSize t ∧ Gives t c.msglen.toNat u ∧
    Exceeds u (bodylenOf s.incoming - c.msglen).toNat p

section Message

variable {s t u : Sock} {c : Call} {p : ℕ}

theorem recvhead_gives (hgives : Gives s headerSize t) (hps : isPS s.incoming = true) :
    recvhead s 0 0 = (none, (msgidOf s.incoming, bodylenOf s.incoming), t) := by
  unfold recvhead
  rw [hgives.recvall]
  dsimp only
  rw [if_neg (by simp), isPS_take, if_neg (by simp [hps]), msgidOf_take, bodylenOf_take]

/-- A header is read, or the call fails. -/
theorem recvhead_cases (s : Sock) : (∃ errno, (recvhead s 0 0).1 = some errno) ∨
    isPS s.incoming = true ∧ ∃ t, Gives s headerSize t := by
  rcases recvall_outcome s headerSize with ⟨_, t, ht, hgives⟩ | ⟨errno, _, _, t, ht, _⟩
  · cases hps : isPS s.incoming with
    | true => exact .inr ⟨rfl, t, hgives⟩
    | false =>
      refine .inl ⟨.eio, ?_⟩
      unfold recvhead
      rw [hgives.recvall]
      dsimp only
      rw [if_neg (by simp), isPS_take, if_pos (by simp [hps])]
  · refine .inl ⟨errno, ?_⟩
    unfold recvhead
    rw [ht]
    rfl

/-- The message has room. -/
theorem recvbody_fits {mid : UInt16} {mlen : UInt32} (hlong : ¬ c.msglen < mlen)
    (hgives : Gives t mlen.toNat u) :
    (recvbody t c mid mlen).ret = none ∧ (recvbody t c mid mlen).sock = u := by
  unfold recvbody
  rw [if_neg hlong]
  dsimp only
  rw [hgives.recvall]
  dsimp only
  rw [if_neg (by simp), if_neg (UInt32.lt_irrefl mlen)]
  exact ⟨rfl, rfl⟩

/-- The message is cut off. -/
theorem recvbody_cut {mid : UInt16} {mlen : UInt32} (hlong : c.msglen < mlen)
    (hgives : Gives t c.msglen.toNat u) :
    (recvbody t c mid mlen).ret = (recvskip u (mlen - c.msglen).toNat).1 ∧
      (recvbody t c mid mlen).sock = (recvskip u (mlen - c.msglen).toNat).2 := by
  unfold recvbody
  rw [if_pos hlong]
  dsimp only
  rw [hgives.recvall]
  dsimp only
  rw [if_neg (by simp), if_pos hlong]
  exact ⟨rfl, rfl⟩

/-- What there is room for is read, or the call fails. -/
theorem recvbody_cases (t : Sock) (c : Call) (mid : UInt16) (mlen : UInt32) :
    (∃ errno, (recvbody t c mid mlen).ret = some errno) ∨
      ∃ u, Gives t (if c.msglen < mlen then c.msglen else mlen).toNat u := by
  rcases recvall_outcome t (if c.msglen < mlen then c.msglen else mlen).toNat with
    ⟨_, u, hu, hgives⟩ | ⟨errno, _, _, u, hu, _⟩
  · exact .inr ⟨u, hgives⟩
  · refine .inl ⟨errno, ?_⟩
    unfold recvbody
    dsimp only
    rw [hu]
    rfl

/-- A message that is cut off, and what its skip leaves of the stream. -/
theorem recvmsg_slips (h : Slips s c p) : (recvmsg s c).ret = none ∧
    (recvmsg s c).sock.incoming =
        s.incoming.drop (headerSize + (bodylenOf s.incoming).toNat + p) ∧
      headerSize + (bodylenOf s.incoming).toNat + p ≤ s.incoming.length := by
  obtain ⟨hps, hlong, t, u, hhead, hroom, hskip⟩ := h
  obtain ⟨hret, hsock⟩ :
      (recvbody t c (msgidOf s.incoming) (bodylenOf s.incoming)).ret = _ ∧ _ :=
    recvbody_cut hlong hroom
  obtain ⟨hnone, hin, hle⟩ := hskip.returns
  obtain ⟨hdrop, hfirst⟩ := hhead.taken
  obtain ⟨hdrop', hbody⟩ := hroom.taken
  have hlt := UInt32.lt_iff_toNat_lt.mp hlong
  have hsub := UInt32.toNat_sub_of_le _ _ (UInt32.le_of_lt hlong)
  rw [recvmsg_body c (recvhead_gives hhead hps), hret, hsock, hin, hdrop', hdrop, List.drop_drop,
    List.drop_drop]
  rw [hdrop', hdrop, List.drop_drop, List.length_drop] at hle
  rw [hdrop, List.length_drop] at hbody
  refine ⟨hnone, ?_, by omega⟩
  congr 1
  omega

/-- A call that returns 0 has taken one message, or it was cut off. -/
theorem recvmsg_returns (h : (recvmsg s c).ret = none) :
    (headerSize + (bodylenOf s.incoming).toNat ≤ s.incoming.length ∧
        (recvmsg s c).sock.incoming =
          s.incoming.drop (headerSize + (bodylenOf s.incoming).toNat)) ∨ ∃ p, Slips s c p := by
  rcases recvhead_cases s with ⟨errno, herr⟩ | ⟨hps, t, hhead⟩
  · rw [recvmsg_head c herr] at h
    cases h
  obtain ⟨hdrop, hfirst⟩ := hhead.taken
  rw [recvmsg_body c (recvhead_gives hhead hps)] at h ⊢
  rcases recvbody_cases t c (msgidOf s.incoming) (bodylenOf s.incoming) with
    ⟨errno, herr⟩ | ⟨u, hbody⟩
  · rw [herr] at h
    cases h
  by_cases hlong : c.msglen < bodylenOf s.incoming
  · rw [if_pos hlong] at hbody
    rw [(recvbody_cut hlong hbody).1] at h
    obtain ⟨p, hskip⟩ := exceeds_of_returns h
    exact .inr ⟨p, hps, hlong, t, u, hhead, hbody, hskip⟩
  · rw [if_neg hlong] at hbody
    obtain ⟨hdrop', hle⟩ := hbody.taken
    rw [hdrop, List.length_drop] at hle
    rw [(recvbody_fits hlong hbody).2, hdrop', hdrop, List.drop_drop]
    exact .inl ⟨by omega, rfl⟩

/-- MESSAGE: the stream is out of step exactly behind a skip that took bytes too many. -/
theorem inStep_iff (s : Sock) (c : Call) : InStep s c ↔ ∀ p, Slips s c p → p = 0 := by
  constructor
  · intro h p hslips
    obtain ⟨hret, hin, hle⟩ := recvmsg_slips hslips
    have hlen := congrArg List.length ((h hret).2.symm.trans hin)
    rw [List.length_drop, List.length_drop] at hlen
    omega
  · intro h hret
    rcases recvmsg_returns hret with hone | ⟨p, hslips⟩
    · exact hone
    · obtain ⟨-, hin, hle⟩ := recvmsg_slips hslips
      rw [h p hslips, Nat.add_zero] at hin hle
      exact ⟨hle, hin⟩

end Message

/-- SKIPPING: `psc_recvskip` asks for no more than its buffer holds and reports what came of it if
    and only if no `recv()` fails as long as more than 128 bytes are missing. A call of
    `psc_recvmsg` that returns 0 leaves the stream in step if and only if its skip did not go on
    behind the first bytes of a chunk. -/
theorem skip_exact (s : Sock) (len : ℕ) (c : Call) : (Skips s len ↔ Continues s len) ∧
    (InStep s c ↔ ∀ p, Slips s c p → p = 0) :=
  ⟨skips_iff s len, inStep_iff s c⟩

/-- A socket that gives 8 bytes, a part of 60 bytes, fails once, and then gives what it is asked
    for. -/
def interrupted (incoming : List UInt8) : Sock where
  incoming := incoming
  outgoing := []
  env := fun i => if i = 0 then .upTo 8 else if i = 1 then .upTo 60
    else if i = 2 then .error (.other 4) else .upTo 1000
  calls := 0
  asked := []

/-- Of a message with a body of 200 bytes nothing is stored. The skip returns 0 although a `recv()`
    failed, asks for 200 bytes at once, and takes the first 60 bytes behind the message. -/
theorem skip_breaks : ∃ (s t : Sock) (c : Call), Gives s headerSize t ∧
    isPS s.incoming = true ∧ bodylenOf s.incoming = 200 ∧ s.incoming.length = 308 ∧
    (recvmsg s c).ret = none ∧ (recvmsg s c).sock.asked = [8, 128, 68, 200] ∧
    (recvmsg s c).sock.incoming.length = 40 ∧ ¬ InStep s c ∧ ¬ Skips t 200 := by
  let s := interrupted (header 7 200 ++ List.replicate 300 1)
  let t := (recv s 8).2
  let u := (recv (recv t 128).2 68).2
  let v := (recv u 200).2
  let c : Call := ⟨0, 0, [], by decide⟩
  have hall : s.incoming.length = 308 := by
    change (header 7 200 ++ List.replicate 300 1).length = 308
    rw [List.length_append, length_header, List.length_replicate]
  have hhead : Gives s 8 t := gives_upTo rfl (by decide) (Nat.le_refl 8) (by omega)
  have hbreaks : Breaks t 128 60 u :=
    @Breaks.part t u 128 0 (t.incoming.take 60) rfl (by decide)
      (@Breaks.now (recv t 128).2 68 (.other 4) (by decide) rfl)
  have hrest : u.incoming.length = 240 := by
    rw [hbreaks.taken.1, hhead.taken.1, List.length_drop, List.length_drop, hall]
  have hgives : Gives u 200 v := gives_upTo (m := 1000) rfl (by decide) (by decide) (by omega)
  have hps : isPS s.incoming = true := by decide
  have hlen : bodylenOf s.incoming = 200 := by decide
  have hlong : c.msglen < bodylenOf s.incoming := by decide
  have hcut : (bodylenOf s.incoming - c.msglen).toNat = 200 := by
    rw [hlen]
    decide
  have hskip : Exceeds t 200 60 := .broken (by decide) hbreaks hgives
  have hslips : Slips s c 60 := ⟨hps, hlong, t, t, hhead, .done t, hcut ▸ hskip⟩
  obtain ⟨hret, hin, -⟩ := recvmsg_slips hslips
  have hsock : (recvmsg s c).sock = v := by
    rw [recvmsg_body c (recvhead_gives hhead hps), (recvbody_cut hlong (.done t)).2,
      hcut, recvskip_broken (by decide) hbreaks, hgives.recvall]
  refine ⟨s, t, c, hhead, hps, hlen, hall, hret, by rw [hsock]; rfl, ?_, fun h => ?_, ?_⟩
  · rw [hsock, hgives.taken.1, List.length_drop, hrest]
  · exact absurd ((inStep_iff s c).mp h 60 hslips) (by decide)
  · rw [skips_iff]
    exact hbreaks.not_continues (by decide)

end Pscdrv.Target
