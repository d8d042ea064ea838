import Pscdrv.Fast.Recording

/-! # The counts of the data files

    `filetotal` is to be the size of the current file, and to have the file replaced when it is
    large enough; `storewrote` is to count all bytes written. An observer adds up what `writev()`
    said it wrote. The counts are right as long as every call is whole and the periodic flush, which
    sets `filetotal` back, is not reached; it is the same count that the limit of the file size is
    compared with.

        filetotal :  0 ──▶ 1 MB ─flush─▶ 0 ──▶ 1 MB ─flush─▶ 0 ──▶ …      never PSCUDPMaxLenMB
        file size :  0 ──▶ 1 MB ───────────▶ 2 MB ─────────────▶ 3 MB ──▶ … -/

namespace Pscdrv.Fast

open Libevent Run

variable {E : Type} [Libevent E]

/-- The bytes that were written to the file opened last, and to those before it; `due` says that it
    had reached its limit at the start of the turn, with `record` set and a name for a new file. -/
structure Tally where
  earlier : ℕ
  size : ℕ
  due : Bool

def Tally.zero : Tally := ⟨0, 0, false⟩

/-- Count what `writev()` answered. -/
def noteBytes (cfg : Config) (s : UdpFast E) (a : Action) (w : Tally) : Tally :=
  match a with
  | .cacheRotate _ =>
    { w with due := s.file.isOpen && s.file.record && s.file.filebase != "" &&
        decide (cfg.file.maxLen.toNat ≤ w.size) }
  | .cacheOpen env => if env.openErr = none then ⟨w.earlier + w.size, 0, false⟩ else w
  | .cacheWrite env =>
    if s.file.isOpen then
      { w with size := w.size + ((turnCalls cfg env s).map Call.wrote).sum }
    else w
  | _ => w

/-- The counts are right, and no file is written that was due to be replaced. The count of a file is
    set to zero right before the file it belonged to is closed for a new one. -/
structure Accounted (s : UdpFast E) (w : Tally) : Prop where
  filetotal : s.file.isOpen = true → (∀ name, s.cache ≠ .open name) →
    s.file.filetotal.toNat = w.size
  storewrote : s.file.storewrote.toNat = w.earlier + w.size
  rotated : s.cache = .write → s.file.isOpen = true → w.due = false

/-- The bytes that a turn is to write. -/
def turnBytes (s : UdpFast E) : ℕ := (s.inprog.map fun p => 16 + p.bodylen).sum

/-- In a turn of writing no call fails or comes up short, the file stays below the size of a
    periodic flush, and all bytes written can be counted. -/
def Countable (cfg : Config) (p : UdpFast E × Tally) : Action → Prop
  | .cacheWrite env => p.1.file.isOpen = true →
    (∀ c ∈ turnCalls cfg env p.1, c.Whole) ∧
      (cfg.file.dsyncSizeMB = 0 ∨
        (p.2.size + turnBytes p.1) / 0x100000 < cfg.file.dsyncSizeMB.toNat) ∧
      p.2.earlier + p.2.size + turnBytes p.1 < 2 ^ 64
  | _ => True

/-- The invariant of the accounting. -/
structure AccountInv (cfg : Config) (s : UdpFast E) (w : Tally) : Prop extends Accounted s w where
  pool : PoolInv cfg s
  opening : ∀ name, s.cache = .open name → s.file.filetotal = 0

theorem sizes_eq (cs : List Call) :
    (cs.map Call.size).sum = ((cs.flatMap Call.batch).map fun p => 16 + p.bodylen).sum := by
  induction cs with
  | nil => rfl
  | cons c cs ih =>
    rw [List.map_cons, List.sum_cons, ih, List.flatMap_cons, List.map_append, List.sum_append,
      c.size_eq]

section Steps

variable {cfg : Config} {s t : UdpFast E} {w : Tally}

/-- The calls of a turn ask for no more than there is to write. -/
theorem sizes_le (cfg : Config) (env : FileEnv) (s : UdpFast E) :
    ((turnCalls cfg env s).map Call.size).sum ≤ turnBytes s := by
  obtain ⟨rest, hrest⟩ := writevCalls_batches (cfg.file.iovLimit / 2) s.inprog.length s.inprog
    env.writev s.file
  rw [sizes_eq, turnBytes]
  conv_rhs => rw [← hrest]
  rw [List.map_append, List.sum_append]
  exact Nat.le_add_right _ _

theorem wrote_eq {cs : List Call} (h : ∀ c ∈ cs, c.Whole) :
    (cs.map Call.wrote).sum = (cs.map Call.size).sum := by
  rw [List.map_congr_left fun c hc => (h c hc).wrote]

/-- Below the size of a flush none is due. -/
theorem dsyncDue_false {cfg : FileConfig} {total : UInt64}
    (h : cfg.dsyncSizeMB = 0 ∨ total.toNat / 0x100000 < cfg.dsyncSizeMB.toNat) :
    dsyncDue cfg total = false := by
  rw [dsyncDue, Bool.and_eq_false_iff]
  refine h.imp (fun h0 => by simp [h0]) fun hlt => ?_
  rw [decide_eq_false_iff_not, UInt64.le_iff_toNat_le, UInt64.toNat_div]
  exact Nat.not_le.mpr hlt

theorem AccountInv.congr (h : AccountInv cfg s w) (hpool : PoolInv cfg t) (he : Elsewhere s t) :
    AccountInv cfg t w := by
  refine ⟨⟨fun hopen hc => ?_, ?_, fun hc hopen => ?_⟩, hpool, fun name hc => ?_⟩
  · rw [he.filetotal]
    exact h.filetotal (he.isOpen hopen) fun name hs => hc name ((he.opening name).mpr hs)
  · rw [he.storewrote]
    exact h.storewrote
  · exact h.rotated (he.writing hc) (he.isOpen hopen)
  · rw [he.filetotal]
    exact h.opening name ((he.opening name).mp hc)

/-- STEP: a file that has reached its limit is replaced, if that is possible. -/
theorem cacheRotate_account (h : AccountInv cfg s w) (env : FileEnv) (hc : s.cache = .rotate)
    (hpool : PoolInv cfg (cacheRotate cfg env s)) :
    AccountInv cfg (cacheRotate cfg env s) (noteBytes cfg s (.cacheRotate env) w) := by
  have hnot : ∀ name, s.cache ≠ .open name := by
    rw [hc]
    nofun
  have hdue : (s.file.rotate cfg.file).wantsNew = false → s.file.isOpen = true →
      (noteBytes cfg s (.cacheRotate env) w).due = false := by
    intro hwants hopen
    rw [noteBytes]
    by_contra hd
    simp only [Bool.not_eq_false, Bool.and_eq_true, decide_eq_true_eq] at hd
    obtain ⟨⟨⟨_, hrecord⟩, hbase⟩, hsize⟩ := hd
    have hreached : cfg.file.maxLen ≤ s.file.filetotal := by
      rw [UInt64.le_iff_toNat_le, h.filetotal hopen hnot]
      exact hsize
    rw [DataFile.wantsNew, DataFile.rotate, if_pos (by simp [hopen, hreached])] at hwants
    simp [hrecord, hbase] at hwants
  have hrot : (s.file.rotate cfg.file).filetotal = s.file.filetotal ∧
      (s.file.rotate cfg.file).storewrote = s.file.storewrote ∧
      (s.file.rotate cfg.file).isOpen = s.file.isOpen := by
    unfold DataFile.rotate
    dsimp only
    split <;> exact ⟨rfl, rfl, rfl⟩
  obtain ⟨htotal, hstore, hopen⟩ := hrot
  unfold cacheRotate at hpool ⊢
  dsimp only at hpool ⊢
  cases hwants : (s.file.rotate cfg.file).wantsNew with
  | true =>
    rw [hwants, if_pos rfl] at hpool
    rw [if_pos rfl]
    refine ⟨⟨fun _ hno => absurd rfl (hno _), ?_, nofun⟩, hpool, fun _ _ => rfl⟩
    exact (congrArg UInt64.toNat hstore).trans h.storewrote
  | false =>
    rw [hwants, if_neg Bool.false_ne_true] at hpool
    rw [if_neg Bool.false_ne_true]
    refine ⟨⟨fun ho _ => ?_, ?_, fun _ ho => hdue hwants (hopen ▸ ho)⟩, hpool, nofun⟩
    · exact (congrArg UInt64.toNat htotal).trans (h.filetotal (hopen ▸ ho) hnot)
    · exact (congrArg UInt64.toNat hstore).trans h.storewrote

/-- STEP: a new file has no bytes yet. -/
theorem cacheOpen_account (h : AccountInv cfg s w) (env : FileEnv) {name : String}
    (hc : s.cache = .open name)
    (hpool : PoolInv cfg { s with file := s.file.openNew env name, cache := .write }) :
    AccountInv cfg { s with file := s.file.openNew env name, cache := .write }
      (noteBytes cfg s (.cacheOpen env) w) := by
  cases herr : env.openErr with
  | some errno =>
    rw [DataFile.openNew, herr] at hpool
    rw [noteBytes, herr, if_neg (by simp), DataFile.openNew, herr]
    exact ⟨⟨by simp, h.storewrote, by simp⟩, hpool, by simp⟩
  | none =>
    rw [DataFile.openNew, herr] at hpool
    rw [noteBytes, herr, if_pos rfl, DataFile.openNew, herr]
    refine ⟨⟨fun _ _ => ?_, h.storewrote, fun _ _ => rfl⟩, hpool, by simp⟩
    exact congrArg UInt64.toNat (h.opening name hc)

/-- STEP: whole calls are counted right, as long as no flush sets the count back. -/
theorem cacheWrite_account (h : AccountInv cfg s w) (env : FileEnv) (hc : s.cache = .write)
    (hcount : Countable cfg (s, w) (.cacheWrite env))
    (hpool : PoolInv cfg { s with file := s.file.write cfg.file env s.inprog, cache := .short }) :
    AccountInv cfg { s with file := s.file.write cfg.file env s.inprog, cache := .short }
      (noteBytes cfg s (.cacheWrite env) w) := by
  have hnot : ∀ name, s.cache ≠ .open name := by
    rw [hc]
    nofun
  rw [noteBytes]
  cases hopen : s.file.isOpen with
  | false =>
    rw [write_closed cfg.file env s.inprog hopen] at hpool ⊢
    refine ⟨⟨fun ho _ => ?_, h.storewrote, nofun⟩, hpool, nofun⟩
    rw [hopen] at ho
    cases ho
  | true =>
    rw [if_pos rfl]
    obtain ⟨hwhole, hsync, hroom⟩ := hcount hopen
    dsimp only at hsync hroom
    have hw : TurnWrote cfg.file s.file (turnCalls cfg env s)
        (s.file.write cfg.file env s.inprog) := write_wrote cfg.file env s.inprog hopen
    have hle := sizes_le cfg env s
    have hbefore := h.filetotal hopen hnot
    have hsize : (UInt64.ofNat ((turnCalls cfg env s).map Call.size).sum).toNat =
        ((turnCalls cfg env s).map Call.size).sum :=
      UInt64.toNat_ofNat_of_lt' (by rw [UInt64.size]; omega)
    have hfile : (s.file.filetotal +
        UInt64.ofNat ((turnCalls cfg env s).map Call.size).sum).toNat =
          w.size + ((turnCalls cfg env s).map Call.size).sum := by
      rw [UInt64.toNat_add, hsize, hbefore]
      omega
    have hstore : (s.file.storewrote +
        UInt64.ofNat ((turnCalls cfg env s).map Call.size).sum).toNat =
          w.earlier + w.size + ((turnCalls cfg env s).map Call.size).sum := by
      rw [UInt64.toNat_add, hsize, h.storewrote]
      omega
    have hdue : dsyncDue cfg.file (s.file.filetotal +
        UInt64.ofNat ((turnCalls cfg env s).map Call.size).sum) = false := by
      refine dsyncDue_false (hsync.imp_right fun hlt => ?_)
      rw [hfile]
      exact (Nat.div_le_div_right (Nat.add_le_add_left hle w.size)).trans_lt hlt
    rw [wrote_eq hwhole]
    refine ⟨⟨fun _ _ => ?_, ?_, nofun⟩, hpool, nofun⟩
    · rw [hw.filetotal, hdue, Bool.and_false, if_neg Bool.false_ne_true]
      exact hfile
    · rw [hw.storewrote, hstore, Nat.add_assoc]

/-- STEP: every action that meets the condition keeps the counts right. -/
theorem account_step (p : UdpFast E × Tally) (a : Action) (q : UdpFast E × Tally)
    (h : AccountInv cfg p.1 p.2) (hcount : Countable cfg p a)
    (hs : observed (step cfg) (noteBytes cfg) p a = some q) : AccountInv cfg q.1 q.2 := by
  obtain ⟨s, w⟩ := p
  obtain ⟨t, w'⟩ := q
  obtain ⟨hs, hnote⟩ := observed_some hs
  dsimp only at hs hnote h ⊢
  have hpool : PoolInv cfg t := pool_step s a t h.pool hs
  rw [hnote]
  cases step_cases hs with
  | cacheRotate env hc => exact cacheRotate_account h env hc hpool
  | cacheOpen env _ hc => exact cacheOpen_account h env hc hpool
  | cacheWrite env hc => exact cacheWrite_account h env hc hcount hpool
  | _ => exact h.congr hpool (step_elsewhere h.pool rfl hs)

/-- What `writev()` promises: it never writes more than it is asked to. The packets of a turn are in
    memory, so that their bytes can be counted. -/
def Writable (cfg : Config) (s : UdpFast E) : Action → Prop
  | .cacheWrite env => (∀ c ∈ turnCalls cfg env s, c.wrote ≤ c.size) ∧ turnBytes s < 2 ^ 64
  | _ => True

/-- If as much was written as was asked for, all calls were whole. -/
theorem whole_of_sum {cs : List Call} (hreal : ∀ c ∈ cs, c.wrote ≤ c.size)
    (hpos : ∀ c ∈ cs, 0 < c.size) (hsum : (cs.map Call.size).sum ≤ (cs.map Call.wrote).sum) :
    ∀ c ∈ cs, c.Whole := by
  induction cs with
  | nil => exact nofun
  | cons c cs ih =>
    obtain ⟨hc, hreal⟩ := List.forall_mem_cons.mp hreal
    obtain ⟨h0, hpos⟩ := List.forall_mem_cons.mp hpos
    have hrest : (cs.map Call.wrote).sum ≤ (cs.map Call.size).sum :=
      List.sum_le_sum fun d hd => hreal d hd
    simp only [List.map_cons, List.sum_cons] at hsum
    refine List.forall_mem_cons.mpr ⟨?_, ih hreal hpos (by omega)⟩
    have heq : c.wrote = c.size := by omega
    unfold Call.wrote at heq
    split at heq
    · rename_i n hret
      rw [Call.Whole, hret, heq]
    · omega

/-- STEP: a turn after which the counts are right has met the condition. -/
theorem countable_of_accounted (hlim : 2 ≤ cfg.file.iovLimit) (h : AccountInv cfg s w)
    (env : FileEnv) (hc : s.cache = .write) (hreal : Writable cfg s (.cacheWrite env))
    (ht : Accounted { s with file := s.file.write cfg.file env s.inprog, cache := .short }
      (noteBytes cfg s (.cacheWrite env) w)) : Countable cfg (s, w) (.cacheWrite env) := by
  intro hopen
  dsimp only at hopen ⊢
  obtain ⟨hreal, hsmall⟩ := hreal
  have hw : TurnWrote cfg.file s.file (turnCalls cfg env s)
      (s.file.write cfg.file env s.inprog) := write_wrote cfg.file env s.inprog hopen
  have hle := sizes_le cfg env s
  have hless : ((turnCalls cfg env s).map Call.wrote).sum ≤
      ((turnCalls cfg env s).map Call.size).sum := List.sum_le_sum hreal
  have hbefore := h.filetotal hopen (by rw [hc]; nofun)
  have hb : 0 < cfg.file.iovLimit / 2 := Nat.div_pos hlim Nat.two_pos
  rw [noteBytes, if_pos hopen] at ht
  have hmod : ((turnCalls cfg env s).map Call.size).sum % 2 ^ 64 =
      ((turnCalls cfg env s).map Call.size).sum := Nat.mod_eq_of_lt (hle.trans_lt hsmall)
  have hlt := UInt64.toNat_lt (s.file.write cfg.file env s.inprog).storewrote
  have hstore := ht.storewrote
  dsimp only at hstore
  rw [hstore] at hlt
  rw [hw.storewrote, UInt64.toNat_add, UInt64.toNat_ofNat', hmod, h.storewrote] at hstore
  have hall : ((turnCalls cfg env s).map Call.size).sum ≤
      ((turnCalls cfg env s).map Call.wrote).sum := by omega
  have hwhole := whole_of_sum hreal (writevCalls_pos hb _ _ _ _) hall
  have hbytes : ((turnCalls cfg env s).map Call.size).sum = turnBytes s := by
    rw [sizes_eq, turnCalls, writevCalls_all hb (Nat.le_refl _) _ hopen hwhole, turnBytes]
  have hfile := ht.filetotal (hw.isOpen.mpr hwhole) nofun
  dsimp only at hfile
  rw [hw.filetotal, hw.isOpen.mpr hwhole, Bool.true_and] at hfile
  have htotal : (s.file.filetotal +
      UInt64.ofNat ((turnCalls cfg env s).map Call.size).sum).toNat = w.size + turnBytes s := by
    rw [UInt64.toNat_add, UInt64.toNat_ofNat', hmod, hbefore, hbytes]
    omega
  refine ⟨hwhole, ?_, by omega⟩
  by_contra hsync
  obtain ⟨h0, hreached⟩ := not_or.mp hsync
  have hdue : dsyncDue cfg.file (s.file.filetotal +
      UInt64.ofNat ((turnCalls cfg env s).map Call.size).sum) = true := by
    rw [dsyncDue, Bool.and_eq_true, decide_eq_true_eq, UInt64.le_iff_toNat_le, UInt64.toNat_div,
      htotal]
    exact ⟨by simpa using h0, Nat.not_lt.mp hreached⟩
  -- the count is back to zero, but the file holds at least a megabyte
  rw [hdue, if_pos rfl] at hfile
  have hpos : 0 < cfg.file.dsyncSizeMB.toNat :=
    Nat.pos_of_ne_zero fun hz => h0 (UInt64.toNat_inj.mp hz)
  have hmega : 0 < (w.size + turnBytes s) / 0x100000 := hpos.trans_le (Nat.not_lt.mp hreached)
  have hzero : w.size + turnBytes s = 0 := by
    rw [← hbytes, ← Nat.le_antisymm hless hall]
    exact hfile.symm
  rw [hzero] at hmega
  cases hmega

theorem account_init (cfg : Config) : AccountInv cfg (UdpFast.init cfg : UdpFast E) .zero where
  filetotal := nofun
  storewrote := rfl
  rotated := nofun
  pool := pool_init cfg
  opening := nofun

end Steps

/-- ACCOUNTS: in every interleaving without a failed or short call, without a periodic flush and
    with less than 2^64 bytes in all, the counts are those of the bytes written, and a file that has
    reached its limit is replaced before the next packet. -/
theorem files_accounted (cfg : Config) (as : List Action)
    (h : Along (observed (step cfg) (noteBytes cfg)) (Countable cfg)
      ((UdpFast.init cfg : UdpFast E), .zero) as) :
    Always (observed (step cfg) (noteBytes cfg)) (fun p => Accounted p.1 p.2)
      ((UdpFast.init cfg : UdpFast E), .zero) as :=
  always_of_along (I := fun p => AccountInv cfg p.1 p.2) account_step
    (fun _ hinv => hinv.toAccounted) (account_init cfg) h

/-- The condition leaves nothing out: in a run in which the counts stay right every turn of writing
    has met it, given what `writev()` promises. -/
theorem accounted_countable (cfg : Config) (hlim : 2 ≤ cfg.file.iovLimit) (as : List Action)
    (hreal : Along (step cfg) (Writable cfg) (UdpFast.init cfg : UdpFast E) as)
    (h : Always (observed (step cfg) (noteBytes cfg)) (fun p => Accounted p.1 p.2)
      ((UdpFast.init cfg : UdpFast E), .zero) as) :
    Along (observed (step cfg) (noteBytes cfg)) (Countable cfg)
      ((UdpFast.init cfg : UdpFast E), .zero) as := by
  refine along_of_always (I := fun p => AccountInv cfg p.1 p.2)
    (fun p a q hinv hc hs => account_step p a q hinv hc.1 hs) ?_ (account_init cfg)
    (along_observed Tally.zero hreal) h
  rintro ⟨s, w⟩ a ⟨t, w'⟩ hinv hwritable hs ht
  obtain ⟨ha, hnote⟩ := observed_some hs
  dsimp only at ha hnote
  subst hnote
  cases step_cases ha with
  | cacheWrite env hc => exact countable_of_accounted hlim hinv env hc hwritable ht
  | _ => trivial

instance (cfg : Config) (p : UdpFast E × Tally) : ∀ a, Decidable (Countable cfg p a)
  | .cacheWrite env => inferInstanceAs (Decidable (p.1.file.isOpen = true →
      (∀ c ∈ turnCalls cfg env p.1, c.Whole) ∧
        (cfg.file.dsyncSizeMB = 0 ∨
          (p.2.size + turnBytes p.1) / 0x100000 < cfg.file.dsyncSizeMB.toNat) ∧
        p.2.earlier + p.2.size + turnBytes p.1 < 2 ^ 64))
  | .rxTop | .rxWake | .rxNotify | .rxRecv _ _ | .cacheReturn | .cacheSignal | .cacheWake
  | .cacheSwap | .cacheDispatch _ | .cacheRotate _ | .cacheOpen _ | .cacheShort | .cacheFinish _
  | .clearSwap | .clearReturn _ | .readShortbuf _ | .reopen | .setRecord _ | .setFile _ _
  | .stop => .isTrue trivial

theorem files_accounted_one :
    Always (observed (step (.small 1)) (noteBytes (.small 1))) (fun p => Accounted p.1 p.2)
      ((UdpFast.init (.small 1) : UdpFast Chains), .zero)
      (recordOne ⟨"1", none, [], none, fun _ => ""⟩) :=
  files_accounted _ _ (by decide +kernel)

/-- A write that fails is counted as if it had succeeded: `storewrote` is 17 and the file empty. -/
theorem failed_write_counted :
    ¬ Always (observed (step (.small 1)) (noteBytes (.small 1))) (fun p => Accounted p.1 p.2)
      ((UdpFast.init (.small 1) : UdpFast Chains), .zero)
      (recordOne ⟨"2", none, [.error 28], none, fun _ => ""⟩) := by
  have hrun : (exec (observed (step (.small 1)) (noteBytes (.small 1)))
      ((UdpFast.init (.small 1) : UdpFast Chains), .zero)
      (recordOne ⟨"2", none, [.error 28], none, fun _ => ""⟩)).map
      (fun p => (p.1.file.storewrote, p.2.earlier + p.2.size)) = some (17, 0) := by
    decide +kernel
  obtain ⟨⟨s, w⟩, hs, hfields⟩ := Option.map_eq_some_iff.mp hrun
  obtain ⟨hstore, hbytes⟩ := Prod.mk.injEq .. ▸ hfields
  intro h
  have hcount := (h.exec hs).storewrote
  dsimp only at hcount hstore hbytes
  rw [hstore, hbytes] at hcount
  cases hcount

end Pscdrv.Fast
