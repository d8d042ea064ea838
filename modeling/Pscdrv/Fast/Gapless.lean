import Pscdrv.Fast.Cached
import Pscdrv.Fast.Recording

/-! # Recording without a gap

    A data file is replaced when it is large enough, when a record asks for it, or when recording is
    switched on again. The old one is closed and the new one opened before the packets of the turn
    are written, so that the files, read one after the other, hold every message from the first turn
    that was recorded on.

        accepted :  ├── before ──┼── file 1 ──┼── file 2 ──┼── … ──┤
                                 ╰────── the turns so far ─────────╯ -/

namespace Pscdrv.Fast

open BigEndian Libevent Run

variable {E : Type} [Libevent E]

/-- The message that a datagram brings. -/
def RxVerdict.msg (r : RxVerdict) : UInt16 × List UInt8 := (msgidOf r.dgram.payload, r.body)

/-- The message that was recorded. -/
def Entry.msg (e : Entry) : UInt16 × List UInt8 := (e.msgid, e.body)

/-- The messages that were accepted so far. -/
def messages (s : UdpFast E) : List (UInt16 × List UInt8) :=
  (s.rxlog.filter RxVerdict.pushed).map RxVerdict.msg

/-- The operating system opens every file and writes all it is given, and nobody switches the
    recording off. -/
def Undisturbed (cfg : Config) (s : UdpFast E) : Action → Prop
  | .cacheOpen env => env.openErr = none
  | .cacheWrite env => ∀ c ∈ turnCalls cfg env s, c.Whole
  | .setRecord val => val = true
  | _ => True

/-- The files, read one after the other, are the messages from those of the first file up to the
    last turn. -/
def Gapless (s : UdpFast E) (saved : List Saved) : Prop :=
  ∃ entries, List.Forall₂ (fun es (file : String × List UInt8) => decodeFile file.2 = some es)
      entries s.file.files ∧
    ∀ e ∈ saved.head?,
      entries.flatten.map Entry.msg = ((messages s).take (processed s)).drop e.start

/-! ### What a complete packet holds -/

/-- A packet made of a complete datagram holds its message. -/
theorem Carries.msg {peer : SockAddr} {p : Pkt} {r : RxVerdict} (h : Carries p r)
    (hc : IsComplete peer r) : p.entry.msg = r.msg := by
  have hlen : p.bodylen = msgLen r.dgram r.size - 8 := h.bodylen.trans hc.body
  have hbody : p.payload = r.body := by
    rw [Pkt.payload, hlen, h.bytes, RxVerdict.body]
  rw [Entry.msg, Pkt.entry, h.msgid, hbody]
  rfl

/-- The accepted packets hold the accepted messages. -/
theorem Complete.messages {cfg : Config} {s : UdpFast E} (h : Complete cfg s) :
    s.accepted.map (fun p => p.entry.msg) = messages s := by
  have hpushed : ∀ r ∈ s.rxlog.filter RxVerdict.pushed, IsComplete cfg.peer r := by
    intro r hr
    obtain ⟨hmem, hpush⟩ := List.mem_filter.mp hr
    exact (h.pushed r hmem).mp hpush
  rw [Fast.messages, eq_comm, ← List.forall₂_eq_eq_eq, List.forall₂_map_left_iff,
    List.forall₂_map_right_iff]
  refine ((List.forall₂_and_left _ _).mpr ⟨hpushed, h.carries.flip⟩).imp ?_
  rintro r p ⟨hr, hc⟩
  exact (Carries.msg hc hr).symm

/-! ### Writing keeps on recording -/

/-- A call that leaves the file open leaves the recording on. -/
theorem writeBatch_record {f : DataFile} {batch : List Pkt} {ret : Option WriteV}
    (h : (f.writeBatch batch ret).isOpen = true) : (f.writeBatch batch ret).record = f.record := by
  unfold DataFile.writeBatch at h ⊢
  dsimp only at h ⊢
  split at h
  · cases h
  · split at h
    · cases h
    · rename_i hn
      rw [if_neg hn, append_frame]

/-- LOOP: so does the loop. -/
theorem writeLoop_record (b n : ℕ) (pkts : List Pkt) (rets : List WriteV) {f : DataFile}
    (h : (DataFile.writeLoop b n pkts rets f).1.isOpen = true) :
    (DataFile.writeLoop b n pkts rets f).1.record = f.record := by
  induction n generalizing pkts rets f with
  | zero => rfl
  | succ n ih =>
    rw [DataFile.writeLoop] at h ⊢
    split at h
    · rename_i hend
      rw [if_pos hend]
    · rename_i hend
      rw [if_neg hend]
      dsimp only at h ⊢
      cases hopen : (f.writeBatch (pkts.take b) rets.head?).isOpen with
      | true => exact (ih _ _ h).trans (writeBatch_record hopen)
      | false =>
        rw [(writeLoop_closed hopen b n _ _).1, hopen] at h
        cases h

theorem write_record (cfg : FileConfig) (env : FileEnv) (pkts : List Pkt) {f : DataFile}
    (h : (f.write cfg env pkts).isOpen = true) : (f.write cfg env pkts).record = f.record := by
  unfold DataFile.write at h ⊢
  split at h
  · rename_i hclosed
    rw [if_pos hclosed]
  · rename_i hopen
    rw [if_neg hopen]
    dsimp only at h ⊢
    split at h
    · rename_i hsync
      rw [if_pos hsync]
      split at h <;> exact writeLoop_record _ _ _ _ h
    · rename_i hsync
      rw [if_neg hsync]
      exact writeLoop_record _ _ _ _ h

/-! ### Steps -/

/-- What holds of the notes while the recording goes on: a file is open from the first one on, and
    the packets of the files are those of the turns since then. -/
structure GaplessInv (s : UdpFast E) (saved : List Saved) : Prop where
  recording : saved ≠ [] → s.file.isOpen = true ∧ s.file.record = true
  opening : ∀ name, s.cache = .open name → s.file.record = true
  whole : ∀ e ∈ saved, ∀ c ∈ e.calls, c.Whole
  pkts : ∀ e ∈ saved.head?, e.start ≤ processed s ∧
    saved.flatMap (fun e => e.pkts s.accepted) = (s.accepted.take (processed s)).drop e.start

section Steps

variable {cfg : Config} {s t : UdpFast E} {saved : List Saved}

/-- A step that leaves the data file alone. -/
theorem GaplessInv.congr (h : GaplessInv s saved) (hr : RecordInv cfg s saved)
    (haccepted : s.accepted <+: t.accepted) (hproc : processed t = processed s)
    (hopen : s.file.isOpen = true → s.file.record = true → t.file.isOpen = true)
    (hrecord : s.file.record = true → t.file.record = true)
    (hopening : ∀ name, t.cache = .open name → t.file.record = true) : GaplessInv t saved := by
  refine ⟨fun hne => ?_, hopening, h.whole, fun e he => ?_⟩
  · obtain ⟨ho, hrec⟩ := h.recording hne
    exact ⟨hopen ho hrec, hrecord hrec⟩
  · obtain ⟨hstart, hpkts⟩ := h.pkts e he
    have hle : processed s ≤ s.accepted.length :=
      (Nat.sub_le _ _).trans hr.ordered.dispatched_prefix.length_le
    obtain ⟨more, hmore⟩ := haccepted
    rw [hproc]
    refine ⟨hstart, ?_⟩
    rw [← hmore, List.take_append_of_le_length hle, ← hpkts]
    refine List.flatMap_congr fun a ha => ?_
    exact Saved.pkts_prefix (List.prefix_append _ _) (hr.stop_le ha)

/-- STEP: a decision about a new file. -/
theorem cacheRotate_gapless (h : GaplessInv s saved) (hr : RecordInv cfg s saved) (env : FileEnv)
    (hc : s.cache = .rotate) : GaplessInv (cacheRotate cfg env s) saved := by
  obtain ⟨before, hbefore⟩ := hr.turn
  have hproc : processed (cacheRotate cfg env s) = processed s := by
    rw [processed_eq hbefore]
    refine processed_eq ?_
    rw [hc] at hbefore
    rw [cacheRotate_frame]
    dsimp only
    rw [hbefore]
    split <;> rfl
  refine h.congr hr ?_ hproc (fun ho _ => ?_) (fun hrec => ?_) fun name hname => ?_
  · rw [cacheRotate_frame]
  · rw [cacheRotate_frame]
    exact ho
  · rw [cacheRotate_frame]
    exact hrec
  · rw [cacheRotate_frame] at hname ⊢
    dsimp only at hname ⊢
    split at hname
    · rename_i hnew
      have hrecord : (s.file.rotate cfg.file).record = true := by
        rw [DataFile.wantsNew, Bool.and_eq_true, Bool.and_eq_true] at hnew
        exact hnew.1.1
      unfold DataFile.rotate at hrecord
      dsimp only at hrecord
      split at hrecord <;> exact hrecord
    · cases hname

/-- STEP: a new file begins where the last turn ended. -/
theorem cacheOpen_gapless (h : GaplessInv s saved) (hr : RecordInv cfg s saved) (env : FileEnv)
    {name : String} (hc : s.cache = .open name) (henv : env.openErr = none) :
    GaplessInv { s with file := s.file.openNew env name, cache := .write }
      (noteFiles cfg s (.cacheOpen env) saved) := by
  have hrecord := h.opening name hc
  have hempty : ∀ l : List Pkt, Saved.pkts ⟨processed s, processed s, []⟩ l = [] := by
    intro l
    rw [Saved.pkts]
    exact List.drop_of_length_le (List.length_take_le _ _)
  have hproc : processed { s with file := s.file.openNew env name, cache := .write } =
      processed s := by
    rw [processed, processed, hc]
    rfl
  rw [noteFiles, if_pos henv]
  refine ⟨fun _ => ?_, fun _ hname => (by cases hname), ?_, fun e he => ?_⟩
  · rw [DataFile.openNew, henv]
    exact ⟨rfl, hrecord⟩
  · rw [List.forall_mem_append, List.forall_mem_singleton]
    exact ⟨h.whole, fun c hmem => absurd hmem List.not_mem_nil⟩
  · rw [hproc, List.flatMap_append, List.flatMap_singleton, hempty, List.append_nil]
    cases saved with
    | nil =>
      cases he
      exact ⟨Nat.le_refl _, (List.drop_of_length_le (List.length_take_le _ _)).symm⟩
    | cons a saved => exact h.pkts e he

/-- STEP: a turn is added to the file that is open. -/
theorem cacheWrite_gapless (h : GaplessInv s saved) (hr : RecordInv cfg s saved) (env : FileEnv)
    (hc : s.cache = .write) (hwhole : ∀ c ∈ turnCalls cfg env s, c.Whole) :
    GaplessInv { s with file := s.file.write cfg.file env s.inprog, cache := .short }
      (noteFiles cfg s (.cacheWrite env) saved) := by
  obtain ⟨before, hbefore⟩ := hr.turn
  have hproc := processed_eq hbefore
  rw [hc] at hbefore
  have hprefix : before ++ s.inprog <+: s.accepted := by
    have hd := hr.ordered.dispatched_prefix
    rwa [hbefore] at hd
  cases hopen : s.file.isOpen with
  | false =>
    -- without a file nothing was recorded so far
    have hnil : saved = [] := by
      by_contra hne
      rw [(h.recording hne).1] at hopen
      cases hopen
    rw [noteFiles, hopen, if_neg (by decide), hnil]
    exact ⟨fun hne => absurd rfl hne, fun _ hname => (by cases hname),
      fun e hmem => absurd hmem List.not_mem_nil, fun e he => by cases he⟩
  | true =>
    obtain ⟨pre, e, rfl, hstop, -⟩ := hr.isOpen hopen
    obtain ⟨-, hrecord⟩ := h.recording (List.append_ne_nil_of_right_ne_nil _ (List.cons_ne_nil _ _))
    have hw : TurnWrote cfg.file s.file (turnCalls cfg env s)
        (s.file.write cfg.file env s.inprog) := write_wrote cfg.file env s.inprog hopen
    have hstill := hw.isOpen.mpr hwhole
    have hrange := (hr.ranges e (List.mem_append_right _ (List.mem_singleton_self e))).1
    rw [hproc] at hstop
    have hgrow : Saved.pkts ⟨e.start, s.dispatched.length, e.calls ++ turnCalls cfg env s⟩
        s.accepted = e.pkts s.accepted ++ s.inprog := by
      rw [hbefore]
      exact Saved.pkts_grow hprefix hstop hrange _
    have hturn : s.accepted.take s.dispatched.length =
        s.accepted.take before.length ++ s.inprog := by
      obtain ⟨rest, hrest⟩ := hprefix
      rw [← hrest, List.take_append_of_le_length (by rw [hbefore]; exact Nat.le_refl _),
        List.take_of_length_le (by rw [hbefore]; exact Nat.le_refl _), List.append_assoc,
        List.take_left' rfl]
    rw [noteFiles, if_pos hopen, List.modifyLast_concat]
    refine ⟨fun _ => ⟨hstill, (write_record _ _ _ hstill).trans hrecord⟩,
      fun _ hname => (by cases hname), ?_, fun a ha => ?_⟩
    · rw [List.forall_mem_append, List.forall_mem_singleton, List.forall_mem_append]
      have hcalls := List.forall_mem_append.mp h.whole
      exact ⟨hcalls.1, hcalls.2 e (List.mem_singleton_self e), hwhole⟩
    · -- the first entry starts where it did
      obtain ⟨b, hb, hstart⟩ : ∃ b ∈ (pre ++ [e]).head?, b.start = a.start := by
        cases pre with
        | nil =>
          cases ha
          exact ⟨e, rfl, rfl⟩
        | cons c pre => exact ⟨a, ha, rfl⟩
      obtain ⟨hle, hpkts⟩ := h.pkts b hb
      rw [hproc] at hle hpkts
      change a.start ≤ s.dispatched.length ∧ _ = (s.accepted.take s.dispatched.length).drop a.start
      have hlen : (s.accepted.take before.length).length = before.length :=
        List.length_take_of_le ((Nat.le_add_right _ _).trans
          (List.length_append ▸ hprefix.length_le))
      refine ⟨?_, ?_⟩
      · rw [hbefore, List.length_append, ← hstart]
        exact Nat.le_add_right_of_le hle
      · rw [List.flatMap_append, List.flatMap_singleton] at hpkts ⊢
        rw [hgrow, ← List.append_assoc, hpkts, hturn, ← hstart,
          List.drop_append_of_le_length (by rw [hlen]; exact hle)]

/-- The other steps close no file that is recorded to, and leave the recording on. -/
theorem step_recording {a : Action} (ha : a.files = false) (hu : Undisturbed cfg s a)
    (hs : step cfg s a = some t) :
    (s.file.isOpen = true → s.file.record = true → t.file.isOpen = true) ∧
      (s.file.record = true → t.file.record = true) := by
  cases step_cases hs with
  | cacheRotate | cacheOpen | cacheWrite => cases ha
  | rxTop =>
    rw [rxTop_frame]
    exact ⟨fun ho _ => ho, id⟩
  | rxRecv ret now n =>
    obtain ⟨u, hframe⟩ := rxRecv_frame cfg s n ret now
    rw [hframe]
    exact ⟨fun ho _ => ho, id⟩
  | cacheDispatch env i =>
    have hfile : (cacheDispatch env s i).file = if i = 0 then s.file.closeIdle else s.file := by
      cases hi : s.inprog[i]? with
      | some p => rw [cacheDispatch_some env hi]
      | none => rw [cacheDispatch_none env hi]
    rw [hfile]
    split
    · refine ⟨fun ho hrec => ?_, fun hrec => ?_⟩
      · rw [DataFile.closeIdle, hrec, if_neg (by simp)]
        exact ho
      · rw [closeIdle_frame]
        exact hrec
    · exact ⟨fun ho _ => ho, id⟩
  | cacheFinish env =>
    dsimp only
    rw [keepError_frame]
    exact ⟨fun ho _ => ho, id⟩
  | readShortbuf =>
    unfold readShortbuf
    split <;> exact ⟨fun ho _ => ho, id⟩
  | setRecord val => exact ⟨fun ho _ => ho, fun _ => hu⟩
  | _ => exact ⟨fun ho _ => ho, id⟩

/-- STEP: every action that disturbs nothing leaves no gap. -/
theorem gapless_step {a : Action} (h : GaplessInv s saved) (hr : RecordInv cfg s saved)
    (hu : Undisturbed cfg s a) (hs : step cfg s a = some t) :
    GaplessInv t (noteFiles cfg s a saved) := by
  cases step_cases hs with
  | cacheRotate env hc => exact cacheRotate_gapless h hr env hc
  | cacheOpen env name hc => exact cacheOpen_gapless h hr env hc hu
  | cacheWrite env hc => exact cacheWrite_gapless h hr env hc hu
  | _ =>
    have he := step_elsewhere hr.pool rfl hs
    obtain ⟨hopen, hrecord⟩ := step_recording rfl hu hs
    obtain ⟨before, hbefore⟩ := hr.turn
    have hproc : processed _ = processed s :=
      (processed_eq (he.turn before hbefore)).trans (processed_eq hbefore).symm
    exact h.congr hr he.accepted hproc hopen hrecord fun name hname =>
      hrecord (h.opening name ((he.opening name).mp hname))

/-- Files without a gap are read as the messages of their turns. -/
theorem GaplessInv.gapless (h : GaplessInv s saved) (hr : RecordInv cfg s saved)
    (hc : Complete cfg s) : Gapless s saved := by
  refine ⟨saved.map fun e => (e.pkts s.accepted).map Pkt.entry, ?_, fun e he => ?_⟩
  · rw [List.forall₂_map_left_iff]
    refine ((List.forall₂_and_left saved _).mpr ⟨h.whole, hr.recorded.files⟩).imp ?_
    rintro e file ⟨hwhole, hfaithful⟩
    exact hfaithful.decodes hwhole
  · rw [← hc.messages, ← List.map_take, ← List.map_drop, ← (h.pkts e he).2, ← List.flatMap_def,
      List.map_flatMap, List.map_flatMap]
    exact List.flatMap_congr fun a _ => List.map_map

end Steps

/-- RECORDING: in every interleaving, while the peer sends no datagram that announces more than is
    received of it, the operating system opens every file and writes all it is given, and the
    recording is not switched off, the data files, read one after the other, are the accepted
    messages from the first turn that was recorded up to the last turn: none is lost, doubled or
    moved where a file was replaced. -/
theorem recording_gapless (cfg : Config) (hlim : 2 ≤ cfg.file.iovLimit) (as : List Action)
    (hsent : Along (step cfg) (NoOverclaim cfg) (UdpFast.init cfg : UdpFast E) as)
    (hsystem : Along (step cfg) (Undisturbed cfg) (UdpFast.init cfg : UdpFast E) as) :
    Always (observed (step cfg) (noteFiles cfg)) (fun p => Gapless p.1 p.2)
      ((UdpFast.init cfg : UdpFast E), []) as := by
  refine always_of_along
    (I := fun p : UdpFast E × List Saved =>
      RecordInv cfg p.1 p.2 ∧ Complete cfg p.1 ∧ GaplessInv p.1 p.2)
    (C := fun p a => NoOverclaim cfg p.1 a ∧ Undisturbed cfg p.1 a) ?_
    (fun p h => h.2.2.gapless h.1 h.2.1) ?_
    (along_observed [] (along_and hsent hsystem))
  · rintro p a q ⟨hr, hc, hg⟩ ⟨hno, hu⟩ hs
    obtain ⟨hstep, hnote⟩ := observed_some hs
    have hheld : BodiesHeld p.1 a := by
      cases a with
      | cacheWrite env => exact fun x hx => hc.bodylen x (mem_held.mpr (.inr (.inl hx)))
      | _ => trivial
    refine ⟨record_step hlim p a q hr hheld hs,
      (complete_step p.1 a q.1 ⟨hr.pool, hc⟩ hno hstep).2, ?_⟩
    rw [hnote]
    exact gapless_step hg hr hu hstep
  · exact ⟨record_init cfg, ⟨⟨rfl, rfl, .nil⟩, nofun, nofun, nofun⟩,
      ⟨fun h => absurd rfl h, fun _ hname => (by cases hname),
        fun e hmem => absurd hmem List.not_mem_nil, fun e he => by cases he⟩⟩

instance (cfg : Config) (d : Dgram) : Decidable (Overclaims cfg d) :=
  decidable_of_iff (d.src = cfg.peer ∧ 8 ≤ msgLen d cfg.maxpktlen ∧ isPS d.payload = true ∧
      msgLen d cfg.maxpktlen - 8 < (bodylenOf d.payload).toNat)
    ⟨fun ⟨hsrc, h8, hps, hlen⟩ => ⟨hsrc, h8, hps, hlen⟩,
      fun h => ⟨h.src, h.header, h.ps, h.body⟩⟩

instance (cfg : Config) (s : UdpFast E) : ∀ a, Decidable (NoOverclaim cfg s a)
  | .rxRecv ret _ => decidable_of_iff
      (s.rx = .recv s.rx.nassign → ∀ d ∈ received s.rx.nassign ret, ¬ Overclaims cfg d)
      ⟨fun h n hrx => by
        rw [hrx] at h
        exact h rfl, fun h hrx => h _ hrx⟩
  | .rxTop | .rxWake | .rxNotify | .cacheReturn | .cacheSignal | .cacheWake | .cacheSwap
  | .cacheDispatch _ | .cacheRotate _ | .cacheOpen _ | .cacheWrite _ | .cacheShort | .cacheFinish _
  | .clearSwap | .clearReturn _ | .readShortbuf _ | .reopen | .setRecord _ | .setFile _ _
  | .stop => .isTrue trivial

instance (cfg : Config) (s : UdpFast E) : ∀ a, Decidable (Undisturbed cfg s a)
  | .cacheOpen env => inferInstanceAs (Decidable (env.openErr = none))
  | .cacheWrite env => inferInstanceAs (Decidable (∀ c ∈ turnCalls cfg env s, c.Whole))
  | .setRecord val => inferInstanceAs (Decidable (val = true))
  | .rxTop | .rxWake | .rxNotify | .rxRecv _ _ | .cacheReturn | .cacheSignal | .cacheWake
  | .cacheSwap | .cacheDispatch _ | .cacheRotate _ | .cacheShort | .cacheFinish _
  | .clearSwap | .clearReturn _ | .readShortbuf _ | .reopen | .setFile _ _
  | .stop => .isTrue trivial

/-- After the first packet, one with the body `[8]`; every turn fills a file. -/
def recordTwo (env env' : FileEnv) : List Action :=
  recordOne env ++ [.cacheShort, .cacheFinish env,
    .rxRecv (.msgs [⟨⟨1, 1⟩, header 2 1 ++ [8], none⟩]) ⟨0, 0⟩, .cacheReturn, .cacheSignal, .rxWake,
    .rxTop, .rxNotify, .cacheWake, .cacheSwap, .cacheDispatch ⟨⟨0, 0⟩, fun _ _ => 0⟩,
    .cacheDispatch ⟨⟨0, 0⟩, fun _ _ => 0⟩, .cacheRotate env', .cacheOpen env', .cacheWrite env']

theorem recording_gapless_two :
    ((exec (step (.small 1)) (UdpFast.init (.small 1) : UdpFast Chains)
        (recordTwo ⟨"0", none, [], none, fun _ => ""⟩ ⟨"1", none, [], none, fun _ => ""⟩)).map
      fun s => s.file.files) =
      some [("run1-0.dat", header 1 1 ++ be 4 631152000 ++ be 4 0 ++ [9]),
        ("run1-1.dat", header 2 1 ++ be 4 631152000 ++ be 4 0 ++ [8])] ∧
    Always (observed (step (.small 1)) (noteFiles (.small 1))) (fun p => Gapless p.1 p.2)
      ((UdpFast.init (.small 1) : UdpFast Chains), [])
      (recordTwo ⟨"0", none, [], none, fun _ => ""⟩ ⟨"1", none, [], none, fun _ => ""⟩) :=
  ⟨by decide +kernel, recording_gapless _ (by decide) _ (by decide +kernel) (by decide +kernel)⟩

end Pscdrv.Fast
