import Mathlib.Algebra.Order.BigOperators.Group.List
import Mathlib.Algebra.Order.Group.Nat
import Pscdrv.Fast.Format

/-! # The calls of `writev()`

    One turn of the cache worker calls `writev()` for one batch of packets after another, until the
    packets are used up or the file is closed because a call failed or came up short. `writevCalls`
    lists these calls; what the loop does to the data file is said in terms of them.

        pkts   ├── batch ──┼── batch ──┼── batch ──┼── …
        calls      whole       whole      short       (none: the file is closed) -/

namespace Pscdrv.Fast

/-- A call of `writev()`: the packets of its batch, and the answer. -/
structure Call where
  batch : List Pkt
  ret : WriteV

namespace Call

/-- `batchtotal` -/
def size (c : Call) : ℕ := ((c.batch.flatMap iovecs).map Iovec.len).sum

/-- The call has written all it was given. -/
def Whole (c : Call) : Prop := c.ret = .wrote c.size

instance (c : Call) : Decidable c.Whole := inferInstanceAs (Decidable (c.ret = .wrote c.size))

/-- How many bytes the call has written. -/
def wrote (c : Call) : ℕ :=
  match c.ret with
  | .wrote n => n
  | .error _ => 0

/-- The bytes that the call has added to the file. -/
def stored (c : Call) : List UInt8 :=
  match c.ret with
  | .wrote n => (c.batch.flatMap Pkt.record).take n
  | .error _ => []

theorem size_eq (c : Call) : c.size = (c.batch.map fun p => 16 + p.bodylen).sum := by
  obtain ⟨batch, ret⟩ := c
  rw [size]
  dsimp only
  induction batch with
  | nil => rfl
  | cons p batch ih =>
    rw [List.flatMap_cons, List.map_append, List.sum_append, len_iovecs, ih, List.map_cons,
      List.sum_cons]

/-- `batchtotal` is enough for the records of the batch. -/
theorem length_le_size (c : Call) : (c.batch.flatMap Pkt.record).length ≤ c.size := by
  rw [size_eq, List.length_flatMap]
  refine List.sum_le_sum fun p _ => ?_
  rw [p.length_record]
  exact Nat.add_le_add_left (Nat.min_le_left _ _) 16

theorem prefix_of_stored (c : Call) : c.stored <+: c.batch.flatMap Pkt.record := by
  unfold stored
  split
  · exact List.take_prefix _ _
  · exact List.nil_prefix

theorem Whole.stored {c : Call} (h : c.Whole) : c.stored = c.batch.flatMap Pkt.record := by
  have hret : c.ret = .wrote c.size := h
  unfold Call.stored
  rw [hret]
  exact List.take_of_length_le c.length_le_size

theorem Whole.wrote {c : Call} (h : c.Whole) : c.wrote = c.size := by
  have hret : c.ret = .wrote c.size := h
  unfold Call.wrote
  rw [hret]

end Call

/-- No call came after one that was not whole. -/
def Stops (cs : List Call) : Prop := ∀ c ∈ cs.dropLast, c.Whole

theorem stops_cons {c : Call} {cs : List Call} (hs : Stops cs) (h : cs ≠ [] → c.Whole) :
    Stops (c :: cs) := by
  intro d hd
  cases cs with
  | nil => cases hd
  | cons e cs =>
    rw [List.dropLast_cons_cons] at hd
    rcases List.mem_cons.mp hd with rfl | hd
    · exact h nofun
    · exact hs d hd

/-- As long as all calls were whole, more may come. -/
theorem stops_append {cs ds : List Call} (h : ∀ c ∈ cs, c.Whole) (hs : Stops ds) :
    Stops (cs ++ ds) := by
  induction cs with
  | nil => exact hs
  | cons c cs ih =>
    obtain ⟨hc, hcs⟩ := List.forall_mem_cons.mp h
    exact stops_cons (ih hcs) fun _ => hc

theorem stored_whole {cs : List Call} (h : ∀ c ∈ cs, c.Whole) :
    cs.flatMap Call.stored = (cs.flatMap Call.batch).flatMap Pkt.record := by
  induction cs with
  | nil => rfl
  | cons c cs ih =>
    obtain ⟨hc, hcs⟩ := List.forall_mem_cons.mp h
    rw [List.flatMap_cons, List.flatMap_cons, List.flatMap_append, hc.stored, ih hcs]

/-- What is in the file is the beginning of what there was to write. -/
theorem prefix_of_stored {cs : List Call} (h : Stops cs) :
    cs.flatMap Call.stored <+: (cs.flatMap Call.batch).flatMap Pkt.record := by
  induction cs using List.reverseRecOn with
  | nil => exact List.nil_prefix
  | append_singleton cs c _ =>
    have hwhole : ∀ d ∈ cs, d.Whole := by
      intro d hd
      exact h d (by rwa [List.dropLast_concat])
    rw [List.flatMap_append, List.flatMap_append, List.flatMap_append, stored_whole hwhole,
      List.flatMap_singleton, List.flatMap_singleton, List.prefix_append_right_inj]
    exact c.prefix_of_stored

/-! ### The loop of one turn -/

/-- The next call, with the first of the answers that are left. -/
def nextCall (b : ℕ) (pkts : List Pkt) (rets : List WriteV) : Call :=
  ⟨pkts.take b, rets.head?.getD (.wrote (((pkts.take b).flatMap iovecs).map Iovec.len).sum)⟩

/-- The calls of `writeLoop`. -/
def writevCalls (b : ℕ) : ℕ → List Pkt → List WriteV → DataFile → List Call
  | 0, _, _, _ => []
  | n + 1, pkts, rets, f =>
    if pkts = [] ∨ f.isOpen = false then []
    else
      nextCall b pkts rets ::
        writevCalls b n (pkts.drop b) rets.tail (f.writeBatch (pkts.take b) rets.head?)

/-- What a list of calls does to the data file that is open. -/
structure Wrote (f : DataFile) (cs : List Call) (t : DataFile) : Prop where
  files : ∀ fs name content, f.files = fs ++ [(name, content)] →
    t.files = fs ++ [(name, content ++ cs.flatMap Call.stored)]
  isOpen : t.isOpen = true ↔ ∀ c ∈ cs, c.Whole
  filetotal : t.filetotal = f.filetotal
  storewrote : t.storewrote = f.storewrote

theorem Wrote.nil {f : DataFile} (h : f.isOpen = true) : Wrote f [] f := by
  refine ⟨fun fs name content hf => ?_, iff_of_true h nofun, rfl, rfl⟩
  rw [List.flatMap_nil, List.append_nil, hf]

theorem Wrote.cons {f t u : DataFile} {c : Call} {cs : List Call} (h : Wrote f [c] t)
    (hc : c.Whole) (k : Wrote t cs u) : Wrote f (c :: cs) u := by
  refine ⟨fun fs name content hf => ?_, ?_, k.filetotal.trans h.filetotal,
    k.storewrote.trans h.storewrote⟩
  · rw [k.files fs name _ (h.files fs name content hf), List.flatMap_singleton, List.flatMap_cons,
      List.append_assoc]
  · rw [k.isOpen, List.forall_mem_cons]
    exact ⟨fun hall => ⟨hc, hall⟩, And.right⟩

theorem append_frame (f : DataFile) (data : List UInt8) :
    f.append data = { f with files := (f.append data).files } := by
  unfold DataFile.append
  split <;> rfl

theorem append_files {f : DataFile} {fs : List (String × List UInt8)} {name : String}
    {content : List UInt8} (h : f.files = fs ++ [(name, content)]) (data : List UInt8) :
    (f.append data).files = fs ++ [(name, content ++ data)] := by
  unfold DataFile.append
  rw [h, List.getLast?_concat, List.dropLast_concat]

/-- STEP: one call adds what it stores, and closes the file unless it was whole. -/
theorem writeBatch_wrote {f : DataFile} (h : f.isOpen = true) (b : ℕ) (pkts : List Pkt)
    (rets : List WriteV) :
    Wrote f [nextCall b pkts rets] (f.writeBatch (pkts.take b) rets.head?) := by
  obtain ⟨c, hc⟩ : ∃ c, c = nextCall b pkts rets := ⟨_, rfl⟩
  have hret : rets.head?.getD (.wrote (((pkts.take b).flatMap iovecs).map Iovec.len).sum) =
      c.ret := by rw [hc]; rfl
  have hsize : (((pkts.take b).flatMap iovecs).map Iovec.len).sum = c.size := by rw [hc]; rfl
  have hbytes : ((pkts.take b).flatMap iovecs).flatMap Iovec.read =
      c.batch.flatMap Pkt.record := by
    rw [hc, List.flatMap_assoc]
    exact congrArg List.flatten (List.map_congr_left fun p _ => read_iovecs p)
  rw [← hc]
  unfold DataFile.writeBatch
  dsimp only
  rw [hret, hsize, hbytes]
  cases hr : c.ret with
  | error errno =>
    have hstored : c.stored = [] := by rw [Call.stored, hr]
    have hbroken : ¬ c.Whole := by rw [Call.Whole, hr]; nofun
    refine ⟨fun fs name content hf => ?_, ?_, rfl, rfl⟩
    · rw [List.flatMap_singleton, hstored, List.append_nil]
      exact hf
    · simp [hbroken]
  | wrote n =>
    have hstored : c.stored = (c.batch.flatMap Pkt.record).take n := by rw [Call.stored, hr]
    have hwhole : c.Whole ↔ n = c.size := by rw [Call.Whole, hr, WriteV.wrote.injEq]
    dsimp only
    rw [append_frame]
    by_cases hn : n = c.size
    · rw [if_neg (not_not_intro hn)]
      refine ⟨fun fs name content hf => ?_, ?_, rfl, rfl⟩
      · rw [List.flatMap_singleton, hstored]
        exact append_files hf _
      · simp [hwhole, hn, h]
    · rw [if_pos hn]
      refine ⟨fun fs name content hf => ?_, ?_, rfl, rfl⟩
      · rw [List.flatMap_singleton, hstored]
        exact append_files hf _
      · simp [hwhole, hn]

theorem nextCall_batch (b : ℕ) (pkts : List Pkt) (rets : List WriteV) :
    (nextCall b pkts rets).batch = pkts.take b := rfl

/-- A closed file is left alone. -/
theorem writeLoop_closed {f : DataFile} (h : f.isOpen = false) (b n : ℕ) (pkts : List Pkt)
    (rets : List WriteV) :
    DataFile.writeLoop b n pkts rets f = (f, 0) ∧ writevCalls b n pkts rets f = [] := by
  cases n with
  | zero => exact ⟨rfl, rfl⟩
  | succ n =>
    rw [DataFile.writeLoop, writevCalls, if_pos (.inr h), if_pos (.inr h)]
    exact ⟨rfl, rfl⟩

/-- LOOP: the loop does what its calls do, and counts the bytes it asked for. -/
theorem writeLoop_wrote (b n : ℕ) (pkts : List Pkt) (rets : List WriteV) {f : DataFile}
    (h : f.isOpen = true) :
    Wrote f (writevCalls b n pkts rets f) (DataFile.writeLoop b n pkts rets f).1 ∧
      (DataFile.writeLoop b n pkts rets f).2 =
        ((writevCalls b n pkts rets f).map Call.size).sum ∧
      Stops (writevCalls b n pkts rets f) := by
  induction n generalizing pkts rets f with
  | zero => exact ⟨.nil h, rfl, nofun⟩
  | succ n ih =>
    rw [DataFile.writeLoop, writevCalls]
    by_cases hend : pkts = [] ∨ f.isOpen = false
    · rw [if_pos hend, if_pos hend]
      exact ⟨.nil h, rfl, nofun⟩
    · rw [if_neg hend, if_neg hend]
      dsimp only
      have hone := writeBatch_wrote h b pkts rets
      rw [List.map_cons, List.sum_cons]
      cases hopen : (f.writeBatch (pkts.take b) rets.head?).isOpen with
      | true =>
        have hc : (nextCall b pkts rets).Whole := hone.isOpen.mp hopen _ List.mem_cons_self
        obtain ⟨hrest, hsum, hstops⟩ := ih (pkts.drop b) rets.tail hopen
        exact ⟨hone.cons hc hrest, congrArg _ hsum, stops_cons hstops fun _ => hc⟩
      | false =>
        obtain ⟨hloop, hcalls⟩ := writeLoop_closed hopen b n (pkts.drop b) rets.tail
        rw [hloop, hcalls]
        exact ⟨hone, rfl, nofun⟩

/-- The batches are taken from the packets in order. -/
theorem writevCalls_batches (b n : ℕ) (pkts : List Pkt) (rets : List WriteV) (f : DataFile) :
    (writevCalls b n pkts rets f).flatMap Call.batch <+: pkts := by
  induction n generalizing pkts rets f with
  | zero => exact List.nil_prefix
  | succ n ih =>
    rw [writevCalls]
    split
    · exact List.nil_prefix
    · rw [List.flatMap_cons, nextCall_batch]
      conv_rhs => rw [← List.take_append_drop b pkts]
      exact (List.prefix_append_right_inj _).mpr (ih _ _ _)

/-- If all calls are whole, all packets are written: every batch takes at least one. -/
theorem writevCalls_all {b n : ℕ} (hb : 0 < b) {pkts : List Pkt} (hn : pkts.length ≤ n)
    (rets : List WriteV) {f : DataFile} (h : f.isOpen = true)
    (hwhole : ∀ c ∈ writevCalls b n pkts rets f, c.Whole) :
    (writevCalls b n pkts rets f).flatMap Call.batch = pkts := by
  induction n generalizing pkts rets f with
  | zero => rw [List.eq_nil_of_length_eq_zero (Nat.le_zero.mp hn)]; rfl
  | succ n ih =>
    rw [writevCalls] at hwhole ⊢
    by_cases hend : pkts = [] ∨ f.isOpen = false
    · rw [if_pos hend]
      rcases hend with rfl | hclosed
      · rfl
      · rw [h] at hclosed
        cases hclosed
    · rw [if_neg hend] at hwhole ⊢
      obtain ⟨hc, hrest⟩ := List.forall_mem_cons.mp hwhole
      have hopen : (f.writeBatch (pkts.take b) rets.head?).isOpen = true :=
        (writeBatch_wrote h b pkts rets).isOpen.mpr fun c hmem => by
          rwa [List.mem_singleton.mp hmem]
      have hlen : (pkts.drop b).length ≤ n := by
        rw [List.length_drop]
        omega
      rw [List.flatMap_cons, nextCall_batch, ih hlen rets.tail hopen hrest,
        List.take_append_drop]

/-- Every call has something to write. -/
theorem writevCalls_pos {b : ℕ} (hb : 0 < b) (n : ℕ) (pkts : List Pkt) (rets : List WriteV)
    (f : DataFile) : ∀ c ∈ writevCalls b n pkts rets f, 0 < c.size := by
  induction n generalizing pkts rets f with
  | zero => exact nofun
  | succ n ih =>
    rw [writevCalls]
    split
    · exact nofun
    · rename_i hend
      refine List.forall_mem_cons.mpr ⟨?_, ih _ _ _⟩
      obtain ⟨hpkts, _⟩ := not_or.mp hend
      obtain ⟨p, pkts, rfl⟩ := List.exists_cons_of_ne_nil hpkts
      obtain ⟨b, rfl⟩ := Nat.exists_eq_add_of_lt hb
      rw [Call.size_eq, nextCall_batch, Nat.zero_add, List.take_succ_cons, List.map_cons,
        List.sum_cons]
      omega

/-! ### A whole turn -/

/-- The periodic flush is due once the file has this many bytes. -/
def dsyncDue (cfg : FileConfig) (filetotal : UInt64) : Bool :=
  cfg.dsyncSizeMB != 0 && decide (cfg.dsyncSizeMB ≤ filetotal / 0x100000)

/-- What a turn does to a data file that is open: its calls are made, and counted as if they were
    all whole; the periodic flush sets the count of the file back. -/
structure TurnWrote (cfg : FileConfig) (f : DataFile) (cs : List Call) (t : DataFile) : Prop where
  files : ∀ fs name content, f.files = fs ++ [(name, content)] →
    t.files = fs ++ [(name, content ++ cs.flatMap Call.stored)]
  isOpen : t.isOpen = true ↔ ∀ c ∈ cs, c.Whole
  storewrote : t.storewrote = f.storewrote + UInt64.ofNat (cs.map Call.size).sum
  filetotal : t.filetotal =
    if t.isOpen && dsyncDue cfg (f.filetotal + UInt64.ofNat (cs.map Call.size).sum) then 0
    else f.filetotal + UInt64.ofNat (cs.map Call.size).sum

theorem write_wrote (cfg : FileConfig) (env : FileEnv) (pkts : List Pkt) {f : DataFile}
    (h : f.isOpen = true) :
    TurnWrote cfg f (writevCalls (cfg.iovLimit / 2) pkts.length pkts env.writev f)
      (f.write cfg env pkts) := by
  obtain ⟨hw, hsum, _⟩ := writeLoop_wrote (cfg.iovLimit / 2) pkts.length pkts env.writev h
  unfold DataFile.write
  rw [h, if_neg (by decide)]
  dsimp only
  rw [hsum, hw.filetotal, hw.storewrote]
  split
  · rename_i hsync
    obtain ⟨h0, hopen, hdue⟩ := hsync
    have hcond : (DataFile.writeLoop (cfg.iovLimit / 2) pkts.length pkts env.writev f).1.isOpen &&
        dsyncDue cfg (f.filetotal + UInt64.ofNat
          ((writevCalls (cfg.iovLimit / 2) pkts.length pkts env.writev f).map Call.size).sum) := by
      simp [dsyncDue, hopen, h0, hdue]
    split <;> exact ⟨hw.files, hw.isOpen, rfl, (if_pos hcond).symm⟩
  · rename_i hsync
    refine ⟨hw.files, hw.isOpen, rfl, (if_neg fun hcond => hsync ?_).symm⟩
    simpa [dsyncDue, and_left_comm] using hcond

theorem write_closed (cfg : FileConfig) (env : FileEnv) (pkts : List Pkt) {f : DataFile}
    (h : f.isOpen = false) : f.write cfg env pkts = f := by
  unfold DataFile.write
  rw [h]
  rfl

end Pscdrv.Fast
