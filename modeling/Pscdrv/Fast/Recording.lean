import Mathlib.Data.List.ModifyLast
import Pscdrv.Fast.Order
import Pscdrv.Fast.Writev

/-! # What `UDPFast` records

    An observer of a run notes for every data file which packets the cache worker came to write
    while it was open, as a range of the accepted packets, and which calls of `writev()` were made
    on it. The ranges follow each other, and every file is what its calls have stored of its range.

        accepted :  ├──────┼─ start ─── stop ─┼──────┼─ start ─── stop ─┼── …
        files    :         └──── file 1 ──────┘      └──── file 2 ──────┘ -/

namespace Pscdrv.Fast

open BigEndian Libevent Run

variable {E : Type} [Libevent E]

/-- The packets of the current turn that were looked up. -/
def CachePc.taken (inprog : List Pkt) : CachePc → List Pkt
  | .dispatch i => inprog.take i
  | .rotate => inprog
  | .open _ => inprog
  | .write => inprog
  | _ => []

/-- How many packets were looked up in the turns before the current one. -/
def processed (s : UdpFast E) : ℕ := s.dispatched.length - (s.cache.taken s.inprog).length

/-- The notes on a data file: the packets from number `start` up to number `stop` were to be written
    while it was open, and the calls made on it. -/
structure Saved where
  start : ℕ
  stop : ℕ
  calls : List Call

def Saved.pkts (e : Saved) (accepted : List Pkt) : List Pkt := (accepted.take e.stop).drop e.start

/-- The calls of one turn. -/
def turnCalls (cfg : Config) (env : FileEnv) (s : UdpFast E) : List Call :=
  writevCalls (cfg.file.iovLimit / 2) s.inprog.length s.inprog env.writev s.file

/-- A file that is opened gets an entry, and a turn that finds it open is added to its entry. -/
def noteFiles (cfg : Config) (s : UdpFast E) (a : Action) (saved : List Saved) : List Saved :=
  match a with
  | .cacheOpen env =>
    if env.openErr = none then saved ++ [⟨processed s, processed s, []⟩] else saved
  | .cacheWrite env =>
    if s.file.isOpen then
      saved.modifyLast fun e => ⟨e.start, s.dispatched.length, e.calls ++ turnCalls cfg env s⟩
    else saved
  | _ => saved

/-- All packets that are about to be written have a body as long as they say. -/
def BodiesHeld (s : UdpFast E) : Action → Prop
  | .cacheWrite _ => ∀ p ∈ s.inprog, p.bodylen ≤ p.body.bytes.length
  | _ => True

/-- The file holds what its calls have stored, and these took its packets in order, all of them
    unless a call failed or came up short, which was then the last one. -/
structure Filed (e : Saved) (pkts : List Pkt) (content : List UInt8) : Prop where
  stored : content = e.calls.flatMap Call.stored
  batches : e.calls.flatMap Call.batch <+: pkts
  stops : Stops e.calls
  all : (∀ c ∈ e.calls, c.Whole) → e.calls.flatMap Call.batch = pkts

/-- The file is the beginning of the records of its packets. If all calls were whole it is all of
    them, and is read as these packets. -/
structure Faithful (e : Saved) (pkts : List Pkt) (content : List UInt8) : Prop
    extends Filed e pkts content where
  beginning : content <+: pkts.flatMap Pkt.record
  exact : (∀ c ∈ e.calls, c.Whole) → content = pkts.flatMap Pkt.record
  decodes : (∀ c ∈ e.calls, c.Whole) → decodeFile content = some (pkts.map Pkt.entry)

/-- The files belong to ranges of the accepted packets, one after the other. -/
structure Recorded (s : UdpFast E) (saved : List Saved) : Prop where
  ranges : ∀ e ∈ saved, e.start ≤ e.stop ∧ e.stop ≤ s.accepted.length
  disjoint : saved.Pairwise fun a b => a.stop ≤ b.start
  files : List.Forall₂ (fun e file => Faithful e (e.pkts s.accepted) file.2) saved s.file.files

theorem Filed.faithful {e : Saved} {pkts : List Pkt} {content : List UInt8}
    (h : Filed e pkts content) (hp : ∀ p ∈ pkts, p.Intact) : Faithful e pkts content := by
  have hexact : (∀ c ∈ e.calls, c.Whole) → content = pkts.flatMap Pkt.record := by
    intro hwhole
    rw [h.stored, stored_whole hwhole, h.all hwhole]
  refine ⟨h, ?_, hexact, fun hwhole => ?_⟩
  · obtain ⟨rest, hrest⟩ := h.batches
    rw [h.stored, ← hrest, List.flatMap_append]
    exact (prefix_of_stored h.stops).trans (List.prefix_append _ _)
  · rw [hexact hwhole, decodeFile_records hp]

/-- A list that is matched with one that has a last element has one, too. -/
theorem forall₂_concat_left {α β : Type*} {R : α → β → Prop} {l : List α} {a : α} {m : List β} :
    List.Forall₂ R (l ++ [a]) m → ∃ m' b, m = m' ++ [b] ∧ List.Forall₂ R l m' ∧ R a b := by
  induction l generalizing m with
  | nil =>
    rintro (_ | ⟨hab, ⟨⟩⟩)
    exact ⟨[], _, rfl, .nil, hab⟩
  | cons c l ih =>
    rintro (_ | ⟨hcd, hrest⟩)
    obtain ⟨m', b, rfl, hl, hab⟩ := ih hrest
    exact ⟨_ :: m', b, rfl, .cons hcd hl, hab⟩

/-! ### Steps that neither replace nor write the data file -/

def Action.files : Action → Bool
  | .cacheRotate _ => true
  | .cacheOpen _ => true
  | .cacheWrite _ => true
  | _ => false

/-- Such a step leaves the files and their counts, closes the current one at most, and looks up the
    packets of the current turn at most. -/
structure Elsewhere (s t : UdpFast E) : Prop where
  accepted : s.accepted <+: t.accepted
  turn : ∀ before, s.dispatched = before ++ s.cache.taken s.inprog →
    t.dispatched = before ++ t.cache.taken t.inprog
  files : t.file.files = s.file.files
  isOpen : t.file.isOpen = true → s.file.isOpen = true
  filetotal : t.file.filetotal = s.file.filetotal
  storewrote : t.file.storewrote = s.file.storewrote
  opening : ∀ name, t.cache = .open name ↔ s.cache = .open name
  writing : t.cache = .write → s.cache = .write

theorem closeIdle_frame (f : DataFile) : f.closeIdle = { f with isOpen := f.closeIdle.isOpen } := by
  unfold DataFile.closeIdle
  split <;> rfl

theorem closeIdle_isOpen {f : DataFile} (h : f.closeIdle.isOpen = true) : f.isOpen = true := by
  unfold DataFile.closeIdle at h
  split at h
  · cases h
  · exact h

theorem keepError_frame (env : FileEnv) (f : DataFile) :
    f.keepError env = { f with lasterror := (f.keepError env).lasterror } := by
  unfold DataFile.keepError
  split <;> rfl

theorem cacheRotate_frame (cfg : Config) (env : FileEnv) (s : UdpFast E) :
    cacheRotate cfg env s = { s with
      file := { s.file with
        filetotal := (cacheRotate cfg env s).file.filetotal
        fileerr := none
        reopen := (cacheRotate cfg env s).file.reopen }
      cache := if ((s.file.rotate cfg.file).wantsNew) = true then
        .open ((s.file.rotate cfg.file).fname env.tsbuf) else .write } := by
  unfold cacheRotate DataFile.rotate
  dsimp only
  split <;> split <;> rfl

section Steps

variable {cfg : Config} {s t : UdpFast E} {saved : List Saved}

/-- Nothing that concerns the files or the cache worker has changed. -/
theorem Elsewhere.of_eq (haccepted : s.accepted <+: t.accepted)
    (hdisp : t.dispatched = s.dispatched) (hcache : t.cache = s.cache)
    (hinprog : t.inprog = s.inprog) (hfile : t.file = s.file) : Elsewhere s t := by
  refine ⟨haccepted, fun before h => ?_, ?_, fun h => ?_, ?_, ?_, fun name => ?_, fun h => ?_⟩
  · rw [hdisp, hcache, hinprog, h]
  · rw [hfile]
  · rwa [← hfile]
  · rw [hfile]
  · rw [hfile]
  · rw [hcache]
  · rwa [← hcache]

/-- The cache worker goes from one place to another, neither of which is about the data file. -/
theorem Elsewhere.of_idle (haccepted : t.accepted = s.accepted)
    (hdisp : t.dispatched = s.dispatched) (hs : s.cache.taken s.inprog = [])
    (ht : t.cache.taken t.inprog = []) (hopen : ∀ name, s.cache ≠ .open name)
    (hopen' : ∀ name, t.cache ≠ .open name) (hwrite : t.cache ≠ .write)
    (hfile : t.file = s.file) : Elsewhere s t := by
  refine ⟨by rw [haccepted], fun before h => ?_, by rw [hfile], fun h => ?_, by rw [hfile],
    by rw [hfile], fun name => iff_of_false (hopen' name) (hopen name), fun h => absurd h hwrite⟩
  · rw [hdisp, ht, h, hs]
  · rwa [← hfile]

/-- STEP: the loop over `inprog` closes an idle file and looks up the next packet. -/
theorem cacheDispatch_elsewhere (env : RxEnv) {i : ℕ} (hc : s.cache = .dispatch i) :
    Elsewhere s (cacheDispatch env s i) := by
  have hfile : ∀ f : DataFile, (f = if i = 0 then s.file.closeIdle else s.file) →
      f.files = s.file.files ∧ (f.isOpen = true → s.file.isOpen = true) ∧
        f.filetotal = s.file.filetotal ∧ f.storewrote = s.file.storewrote := by
    rintro f rfl
    split
    · rw [closeIdle_frame]
      exact ⟨rfl, closeIdle_isOpen, rfl, rfl⟩
    · exact ⟨rfl, id, rfl, rfl⟩
  obtain ⟨hfiles, hopen, htotal, hstore⟩ := hfile _ rfl
  cases hi : s.inprog[i]? with
  | some p =>
    rw [cacheDispatch_some env hi]
    refine ⟨List.prefix_refl _, fun before h => ?_, hfiles, hopen, htotal, hstore,
      fun name => iff_of_false nofun (by rw [hc]; nofun), nofun⟩
    rw [hc, CachePc.taken] at h
    dsimp only [CachePc.taken]
    rw [h, List.append_assoc, List.take_add_one, hi, Option.toList_some]
  | none =>
    rw [cacheDispatch_none env hi]
    have htaken : s.inprog.take i = s.inprog :=
      List.take_of_length_le (List.getElem?_eq_none_iff.mp hi)
    refine ⟨List.prefix_refl _, fun before h => ?_, hfiles, hopen, htotal, hstore,
      fun name => iff_of_false ?_ (by rw [hc]; nofun), fun h => ?_⟩
    · rw [hc, CachePc.taken, htaken] at h
      dsimp only
      split
      · rename_i hempty
        rw [h, List.isEmpty_iff.mp hempty]
        rfl
      · exact h
    · dsimp only
      split <;> nofun
    · dsimp only at h
      split at h <;> cases h

/-- STEP: the steps that are not about the data file. -/
theorem step_elsewhere (hp : PoolInv cfg s) {a : Action} (ha : a.files = false)
    (hs : step cfg s a = some t) : Elsewhere s t := by
  cases step_cases hs with
  | cacheRotate | cacheOpen | cacheWrite => cases ha
  | rxTop =>
    rw [rxTop_frame]
    exact .of_eq (List.prefix_refl _) rfl rfl rfl rfl
  | rxRecv ret now n hrx =>
    obtain ⟨pkts, hr⟩ := rxRecv_received hp hrx ret now
    obtain ⟨u, hframe⟩ := rxRecv_frame cfg s n ret now
    refine .of_eq ⟨pkts, hr.accepted.symm⟩ ?_ ?_ ?_ ?_ <;> rw [hframe]
  | cacheReturn hc =>
    exact .of_idle rfl rfl (by rw [hc]; rfl) rfl (by simp [hc]) (by simp [cacheReturn])
      (by simp [cacheReturn]) rfl
  | cacheSignal u hc =>
    have hcache : (cacheSignal s u).cache = .wait ∨ (cacheSignal s u).cache = .done := by
      unfold cacheSignal
      dsimp only
      split
      · exact .inl rfl
      · exact .inr rfl
    refine .of_idle rfl rfl (by rw [hc]; rfl) ?_ (by simp [hc]) ?_ ?_ rfl <;>
      rcases hcache with h | h <;> rw [h]
    · rfl
    · rfl
    all_goals simp
  | cacheWake hc =>
    exact .of_idle rfl rfl (by rw [hc]; rfl) rfl (by simp [hc]) (by simp) (by simp) rfl
  | cacheSwap hc =>
    exact .of_idle rfl rfl (by rw [hc]; rfl) rfl (by simp [hc]) (by simp [cacheSwap])
      (by simp [cacheSwap]) rfl
  | cacheDispatch env _ hc => exact cacheDispatch_elsewhere env hc
  | cacheShort hc =>
    exact .of_idle rfl rfl (by rw [hc]; rfl) rfl (by simp [hc]) (by simp [cacheShort])
      (by simp [cacheShort]) rfl
  | cacheFinish _ hc =>
    refine ⟨List.prefix_refl _, fun before h => ?_, ?_, fun h => ?_, ?_, ?_,
      fun name => iff_of_false (by simp) (by simp [hc]), by simp⟩
    · rw [hc] at h
      exact h
    all_goals dsimp only at *
    · rw [keepError_frame]
    · rwa [keepError_frame] at h
    · rw [keepError_frame]
    · rw [keepError_frame]
  | readShortbuf =>
    unfold readShortbuf
    split <;> exact .of_eq (List.prefix_refl _) rfl rfl rfl rfl
  | rxWake | rxNotify | clearSwap | clearReturn | stop =>
    exact .of_eq (List.prefix_refl _) rfl rfl rfl rfl
  | reopen | setRecord | setFile =>
    exact ⟨List.prefix_refl _, fun _ h => h, rfl, id, rfl, rfl, fun _ => Iff.rfl, id⟩

/-! ### Steps about the data file -/

/-- What holds of the notes at every point of a run: the packets of the current turn are the last
    ones that were looked up, and only the last file can be open, with all the packets before them
    and no call that was not whole. -/
structure RecordInv (cfg : Config) (s : UdpFast E) (saved : List Saved) : Prop where
  pool : PoolInv cfg s
  ordered : Ordered cfg s
  turn : ∃ before, s.dispatched = before ++ s.cache.taken s.inprog
  ranges : ∀ e ∈ saved, e.start ≤ e.stop ∧ e.stop ≤ processed s
  disjoint : saved.Pairwise fun a b => a.stop ≤ b.start
  files : List.Forall₂ (fun e file => Filed e (e.pkts s.accepted) file.2) saved s.file.files
  intact : ∀ e ∈ saved, ∀ p ∈ e.pkts s.accepted, p.Intact
  isOpen : s.file.isOpen = true →
    ∃ pre e, saved = pre ++ [e] ∧ e.stop = processed s ∧ ∀ c ∈ e.calls, c.Whole

theorem processed_eq {before : List Pkt} (h : s.dispatched = before ++ s.cache.taken s.inprog) :
    processed s = before.length := by
  rw [processed, h, List.length_append, Nat.add_sub_cancel]

/-- The range of a file does not change when more packets are accepted. -/
theorem Saved.pkts_prefix {e : Saved} {l m : List Pkt} (h : l <+: m) (hstop : e.stop ≤ l.length) :
    e.pkts m = e.pkts l := by
  obtain ⟨more, rfl⟩ := h
  rw [Saved.pkts, Saved.pkts, List.take_append_of_le_length hstop]

theorem Ordered.dispatched_prefix (h : Ordered cfg s) : s.dispatched <+: s.accepted := by
  rw [← h.order, List.append_assoc]
  exact List.prefix_append _ _

/-- Every accepted packet says a length that fits the header field it came in. -/
theorem Ordered.bodylen_lt (h : Ordered cfg s) {p : Pkt} (hp : p ∈ s.accepted) :
    p.bodylen < 2 ^ 32 := by
  obtain ⟨r, _, hc⟩ := carried h.carries hp
  rw [hc.bodylen]
  exact UInt32.toNat_lt _

theorem RecordInv.stop_le (h : RecordInv cfg s saved) {e : Saved} (he : e ∈ saved) :
    e.stop ≤ s.accepted.length := by
  have hproc : processed s ≤ s.dispatched.length := Nat.sub_le _ _
  exact (h.ranges e he).2.trans (hproc.trans h.ordered.dispatched_prefix.length_le)

/-- The notes and the range they speak of stay as they are when the file system is left alone. -/
theorem RecordInv.congr (h : RecordInv cfg s saved) (hpool : PoolInv cfg t)
    (hordered : Ordered cfg t) (haccepted : s.accepted <+: t.accepted)
    (hturn : ∀ before, s.dispatched = before ++ s.cache.taken s.inprog →
      t.dispatched = before ++ t.cache.taken t.inprog)
    (hfiles : t.file.files = s.file.files)
    (hopen : t.file.isOpen = true → s.file.isOpen = true) : RecordInv cfg t saved := by
  obtain ⟨before, hbefore⟩ := h.turn
  have hproc : processed t = processed s := by
    rw [processed_eq hbefore, processed_eq (hturn before hbefore)]
  have hpkts : ∀ e ∈ saved, e.pkts t.accepted = e.pkts s.accepted := fun e he =>
    Saved.pkts_prefix haccepted (h.stop_le he)
  refine ⟨hpool, hordered, ⟨before, hturn before hbefore⟩, ?_, h.disjoint, ?_, ?_, ?_⟩
  · rw [hproc]
    exact h.ranges
  · rw [hfiles]
    refine ((List.forall₂_and_left saved _).mpr ⟨hpkts, h.files⟩).imp fun e file => ?_
    rintro ⟨heq, hfiled⟩
    rwa [heq]
  · intro e he p hp
    rw [hpkts e he] at hp
    exact h.intact e he p hp
  · rw [hproc]
    exact fun hopen' => h.isOpen (hopen hopen')

/-- STEP: a decision about a new file changes neither the files nor the packets. -/
theorem cacheRotate_record (h : RecordInv cfg s saved) (env : FileEnv) (hc : s.cache = .rotate)
    (hs : step cfg s (.cacheRotate env) = some t) : RecordInv cfg t saved := by
  obtain ⟨hpool, hordered⟩ := ordered_step s _ t ⟨h.pool, h.ordered⟩ hs
  have ht : t = cacheRotate cfg env s := by
    rw [step, if_pos hc, Option.some.injEq] at hs
    exact hs.symm
  refine h.congr hpool hordered ?_ ?_ ?_ ?_ <;> rw [ht, cacheRotate_frame]
  · intro before hbefore
    rw [hc] at hbefore
    rw [hbefore]
    dsimp only
    split <;> rfl
  · exact id

/-- The notes with one more entry, that of the file in use. -/
theorem record_concat {pre : List Saved} {e : Saved} {fs : List (String × List UInt8)}
    {file : String × List UInt8} (hpool : PoolInv cfg t) (hordered : Ordered cfg t)
    (hturn : ∃ before, t.dispatched = before ++ t.cache.taken t.inprog)
    (hranges : ∀ a ∈ pre, a.start ≤ a.stop ∧ a.stop ≤ e.start)
    (hdisjoint : pre.Pairwise fun a b => a.stop ≤ b.start)
    (hfiles : List.Forall₂ (fun a file => Filed a (a.pkts t.accepted) file.2) pre fs)
    (hintact : ∀ a ∈ pre, ∀ p ∈ a.pkts t.accepted, p.Intact) (hrange : e.start ≤ e.stop)
    (hstop : e.stop = processed t) (hfile : t.file.files = fs ++ [file])
    (hfiled : Filed e (e.pkts t.accepted) file.2) (hown : ∀ p ∈ e.pkts t.accepted, p.Intact)
    (hwhole : t.file.isOpen = true → ∀ c ∈ e.calls, c.Whole) : RecordInv cfg t (pre ++ [e]) where
  pool := hpool
  ordered := hordered
  turn := hturn
  ranges := by
    rw [List.forall_mem_append, List.forall_mem_singleton]
    exact ⟨fun a ha => ⟨(hranges a ha).1, hstop ▸ (hranges a ha).2.trans hrange⟩, hrange, hstop.le⟩
  disjoint := by
    rw [List.pairwise_append]
    refine ⟨hdisjoint, List.pairwise_singleton _ _, fun a ha b hb => ?_⟩
    rw [List.mem_singleton.mp hb]
    exact (hranges a ha).2
  files := by
    rw [hfile]
    exact List.rel_append hfiles (.cons hfiled .nil)
  intact := by
    rw [List.forall_mem_append, List.forall_mem_singleton]
    exact ⟨hintact, hown⟩
  isOpen := fun hopen => ⟨pre, e, rfl, hstop, hwhole hopen⟩

/-- STEP: a file that is opened begins with the packets of the current turn. -/
theorem cacheOpen_record (h : RecordInv cfg s saved) (env : FileEnv) {name : String}
    (hc : s.cache = .open name) (hs : step cfg s (.cacheOpen env) = some t) :
    RecordInv cfg t (noteFiles cfg s (.cacheOpen env) saved) := by
  obtain ⟨hpool, hordered⟩ := ordered_step s _ t ⟨h.pool, h.ordered⟩ hs
  have ht : t = { s with file := s.file.openNew env name, cache := .write } := by
    simp only [step, hc, Option.some.injEq] at hs
    exact hs.symm
  have hturn : ∀ before, s.dispatched = before ++ s.cache.taken s.inprog →
      t.dispatched = before ++ t.cache.taken t.inprog := by
    intro before hbefore
    rw [hc] at hbefore
    rw [ht, hbefore]
    rfl
  cases herr : env.openErr with
  | some errno =>
    rw [noteFiles, if_neg (by simp [herr])]
    refine h.congr hpool hordered ?_ hturn ?_ ?_ <;> rw [ht, DataFile.openNew, herr]
    simp
  | none =>
    rw [noteFiles, if_pos herr]
    have hfile : t.file.files = s.file.files ++ [(name, [])] := by
      rw [ht, DataFile.openNew, herr]
    have haccepted : t.accepted = s.accepted := by rw [ht]
    obtain ⟨before, hbefore⟩ := h.turn
    have hproc : processed t = processed s := by
      rw [processed_eq hbefore, processed_eq (hturn before hbefore)]
    have hempty : ∀ l : List Pkt, Saved.pkts ⟨processed s, processed s, []⟩ l = [] := by
      intro l
      rw [Saved.pkts]
      exact List.drop_of_length_le (List.length_take_le _ _)
    have hfiles : List.Forall₂ (fun a file => Filed a (a.pkts t.accepted) file.2) saved
        s.file.files := by
      rw [haccepted]
      exact h.files
    refine record_concat hpool hordered ⟨before, hturn before hbefore⟩ h.ranges h.disjoint hfiles
      ?_ (Nat.le_refl _) hproc.symm hfile ?_ ?_ (by simp)
    · rw [haccepted]
      exact h.intact
    · rw [hempty]
      exact ⟨rfl, List.prefix_refl _, by simp [Stops], fun _ => rfl⟩
    · rw [hempty]
      exact List.forall_mem_nil _

/-- A range that was complete so far, with the packets of one more turn. -/
theorem Saved.pkts_grow {e : Saved} {l before more : List Pkt} (h : before ++ more <+: l)
    (hstop : e.stop = before.length) (hrange : e.start ≤ e.stop) (cs : List Call) :
    Saved.pkts ⟨e.start, (before ++ more).length, cs⟩ l = e.pkts l ++ more := by
  obtain ⟨rest, rfl⟩ := h
  rw [Saved.pkts, Saved.pkts, List.take_left' rfl, hstop, List.append_assoc, List.take_left' rfl,
    List.drop_append_of_le_length (hstop ▸ hrange)]

/-- The calls of a turn continue those of the file as long as these were whole. -/
theorem Filed.grow {e : Saved} {pkts more : List Pkt} {content : List UInt8} {cs : List Call}
    (h : Filed e pkts content) (hwhole : ∀ c ∈ e.calls, c.Whole) (hstops : Stops cs)
    (hbatches : cs.flatMap Call.batch <+: more)
    (hall : (∀ c ∈ cs, c.Whole) → cs.flatMap Call.batch = more) (start stop : ℕ) :
    Filed ⟨start, stop, e.calls ++ cs⟩ (pkts ++ more) (content ++ cs.flatMap Call.stored) := by
  refine ⟨?_, ?_, stops_append hwhole hstops, fun hboth => ?_⟩
  · rw [List.flatMap_append, ← h.stored]
  · rw [List.flatMap_append, h.all hwhole]
    exact (List.prefix_append_right_inj _).mpr hbatches
  · rw [List.flatMap_append, h.all hwhole, hall fun c hc => hboth c (List.mem_append_right _ hc)]

/-- STEP: a turn of writing that finds the file open adds its packets and its calls to it. -/
theorem cacheWrite_open (hlim : 2 ≤ cfg.file.iovLimit) (h : RecordInv cfg s saved) (env : FileEnv)
    (hheld : BodiesHeld s (.cacheWrite env)) (hc : s.cache = .write)
    (hopen : s.file.isOpen = true) (hpool : PoolInv cfg t) (hordered : Ordered cfg t)
    (ht : t = { s with file := s.file.write cfg.file env s.inprog, cache := .short }) :
    RecordInv cfg t (noteFiles cfg s (.cacheWrite env) saved) := by
  have haccepted : t.accepted = s.accepted := by rw [ht]
  have hproc : processed t = s.dispatched.length := by rw [ht]; rfl
  have hfile : t.file = s.file.write cfg.file env s.inprog := by rw [ht]
  have hturn : t.dispatched = t.dispatched ++ t.cache.taken t.inprog := by
    rw [ht]
    exact (List.append_nil _).symm
  obtain ⟨before, hbefore⟩ := h.turn
  obtain ⟨pre, e, rfl, hstop, hwhole⟩ := h.isOpen hopen
  rw [processed_eq hbefore] at hstop
  rw [hc] at hbefore
  have hranges := List.forall_mem_append.mp h.ranges
  have hintact := List.forall_mem_append.mp h.intact
  have hdisjoint := List.pairwise_append.mp h.disjoint
  obtain ⟨fs, ⟨name, content⟩, hfs, hpre, hfiled⟩ := forall₂_concat_left h.files
  have hrange := (hranges.2 e (List.mem_singleton_self e)).1
  have hw : TurnWrote cfg.file s.file (turnCalls cfg env s) t.file :=
    hfile ▸ write_wrote cfg.file env s.inprog hopen
  have hstops : Stops (turnCalls cfg env s) := (writeLoop_wrote _ _ _ _ hopen).2.2
  have hall : (∀ c ∈ turnCalls cfg env s, c.Whole) →
      (turnCalls cfg env s).flatMap Call.batch = s.inprog :=
    writevCalls_all (Nat.div_pos hlim Nat.two_pos) (Nat.le_refl _) _ hopen
  have hprefix : before ++ s.inprog <+: s.accepted := by
    have hd := h.ordered.dispatched_prefix
    rwa [hbefore] at hd
  have hpkts : Saved.pkts ⟨e.start, s.dispatched.length, e.calls ++ turnCalls cfg env s⟩
      s.accepted = e.pkts s.accepted ++ s.inprog := by
    rw [hbefore]
    exact Saved.pkts_grow hprefix hstop hrange _
  rw [noteFiles, if_pos hopen, List.modifyLast_concat]
  refine record_concat hpool hordered ⟨_, hturn⟩ (fun a ha => ⟨(hranges.1 a ha).1, ?_⟩)
    hdisjoint.1 (haccepted ▸ hpre) (haccepted ▸ hintact.1) ?_ hproc.symm
    (hw.files fs name content hfs) ?_ ?_ fun hopen' => ?_
  · exact hdisjoint.2.2 a ha e (List.mem_singleton_self e)
  · refine hrange.trans ?_
    rw [hstop, hbefore, List.length_append]
    exact Nat.le_add_right _ _
  · rw [haccepted, hpkts]
    exact hfiled.grow hwhole hstops (writevCalls_batches _ _ _ _ _) hall _ _
  · rw [haccepted, hpkts, List.forall_mem_append]
    refine ⟨hintact.2 e (List.mem_singleton_self e), fun p hp => ?_⟩
    have hmem : p ∈ s.accepted := hprefix.subset (List.mem_append_right _ hp)
    exact ⟨hheld p hp, h.ordered.bodylen_lt hmem⟩
  · rw [List.forall_mem_append]
    exact ⟨hwhole, hw.isOpen.mp hopen'⟩

/-- STEP: a turn of writing keeps the notes right. -/
theorem cacheWrite_record (hlim : 2 ≤ cfg.file.iovLimit) (h : RecordInv cfg s saved)
    (env : FileEnv) (hheld : BodiesHeld s (.cacheWrite env)) (hc : s.cache = .write)
    (hs : step cfg s (.cacheWrite env) = some t) :
    RecordInv cfg t (noteFiles cfg s (.cacheWrite env) saved) := by
  obtain ⟨hpool, hordered⟩ := ordered_step s _ t ⟨h.pool, h.ordered⟩ hs
  have ht : t = { s with file := s.file.write cfg.file env s.inprog, cache := .short } := by
    rw [step, if_pos hc, Option.some.injEq] at hs
    exact hs.symm
  cases hopen : s.file.isOpen with
  | false =>
    have hfile : t.file = s.file := by
      rw [ht, write_closed cfg.file env s.inprog hopen]
    have hle : processed s ≤ processed t := by
      rw [ht]
      exact Nat.sub_le _ _
    have haccepted : t.accepted = s.accepted := by rw [ht]
    rw [noteFiles, hopen]
    refine ⟨hpool, hordered, ⟨t.dispatched, ?_⟩, fun e he => ?_, h.disjoint, ?_, ?_,
      fun hopen' => ?_⟩
    · rw [ht]
      exact (List.append_nil _).symm
    · exact (h.ranges e he).imp_right hle.trans'
    · rw [hfile, haccepted]
      exact h.files
    · rw [haccepted]
      exact h.intact
    · rw [hfile, hopen] at hopen'
      cases hopen'
  | true => exact cacheWrite_open hlim h env hheld hc hopen hpool hordered ht

/-- STEP: every action keeps the notes right. -/
theorem record_step (hlim : 2 ≤ cfg.file.iovLimit) (p : UdpFast E × List Saved) (a : Action)
    (q : UdpFast E × List Saved) (h : RecordInv cfg p.1 p.2) (hheld : BodiesHeld p.1 a)
    (hs : observed (step cfg) (noteFiles cfg) p a = some q) : RecordInv cfg q.1 q.2 := by
  obtain ⟨s, saved⟩ := p
  obtain ⟨t, saved'⟩ := q
  obtain ⟨hs, hnote⟩ := observed_some hs
  dsimp only at hs hnote h ⊢
  rw [hnote]
  cases step_cases hs with
  | cacheRotate env hc => exact cacheRotate_record h env hc hs
  | cacheOpen env name hc => exact cacheOpen_record h env hc hs
  | cacheWrite env hc => exact cacheWrite_record hlim h env hheld hc hs
  | _ =>
    obtain ⟨hpool, hordered⟩ := ordered_step s _ _ ⟨h.pool, h.ordered⟩ hs
    have he := step_elsewhere h.pool rfl hs
    exact h.congr hpool hordered he.accepted he.turn he.files he.isOpen

theorem record_init (cfg : Config) : RecordInv cfg (UdpFast.init cfg : UdpFast E) [] where
  pool := pool_init cfg
  ordered := ordered_init cfg
  turn := ⟨[], rfl⟩
  ranges := nofun
  disjoint := .nil
  files := .nil
  intact := nofun
  isOpen := nofun

theorem RecordInv.recorded (h : RecordInv cfg s saved) : Recorded s saved where
  ranges e he := ⟨(h.ranges e he).1, h.stop_le he⟩
  disjoint := h.disjoint
  files := by
    refine (List.forall₂_and_left saved _).mpr ⟨h.intact, h.files⟩ |>.imp fun e file => ?_
    rintro ⟨hintact, hfiled⟩
    exact hfiled.faithful hintact

end Steps

/-- RECORDING: in every interleaving, whatever `writev()` answers, each data file is what its calls
    have stored of the packets that were processed while it was open, in the order of their arrival;
    without a failed or short call it is read as exactly these packets, and after one there are no
    more calls. -/
theorem files_faithful (cfg : Config) (hlim : 2 ≤ cfg.file.iovLimit) (as : List Action)
    (h : Along (step cfg) BodiesHeld (UdpFast.init cfg : UdpFast E) as) :
    Always (observed (step cfg) (noteFiles cfg)) (fun p => Recorded p.1 p.2)
      ((UdpFast.init cfg : UdpFast E), []) as :=
  always_of_along (record_step hlim) (fun _ hinv => hinv.recorded) (record_init cfg)
    (along_observed [] h)

instance (s : UdpFast E) : ∀ a, Decidable (BodiesHeld s a)
  | .cacheWrite _ => inferInstanceAs (Decidable (∀ p ∈ s.inprog, p.bodylen ≤ p.body.bytes.length))
  | .rxTop | .rxWake | .rxNotify | .rxRecv _ _ | .cacheReturn | .cacheSignal | .cacheWake
  | .cacheSwap | .cacheDispatch _ | .cacheRotate _ | .cacheOpen _ | .cacheShort | .cacheFinish _
  | .clearSwap | .clearReturn _ | .readShortbuf _ | .reopen | .setRecord _ | .setFile _ _
  | .stop => .isTrue trivial

/-- One packet with the body `[9]` is received while recording is switched on, and is written to a
    new file. -/
def recordOne (env : FileEnv) : List Action :=
  [.setFile "" "run1-", .setRecord true, .rxTop,
    .rxRecv (.msgs [⟨⟨1, 1⟩, header 1 1 ++ [9], none⟩]) ⟨0, 0⟩, .rxNotify, .cacheReturn,
    .cacheSignal, .cacheWake, .cacheSwap, .cacheDispatch ⟨⟨0, 0⟩, fun _ _ => 0⟩,
    .cacheDispatch ⟨⟨0, 0⟩, fun _ _ => 0⟩, .cacheRotate env, .cacheOpen env, .cacheWrite env]

theorem files_faithful_one :
    ((exec (step (.small 1)) (UdpFast.init (.small 1) : UdpFast Chains)
        (recordOne ⟨"0", none, [], none, fun _ => ""⟩)).map fun s => s.file.files) =
      some [("run1-0.dat", header 1 1 ++ be 4 631152000 ++ be 4 0 ++ [9])] ∧
    Always (observed (step (.small 1)) (noteFiles (.small 1))) (fun p => Recorded p.1 p.2)
      ((UdpFast.init (.small 1) : UdpFast Chains), [])
      (recordOne ⟨"0", none, [], none, fun _ => ""⟩) :=
  ⟨by decide +kernel, files_faithful _ (by decide) _ (by decide +kernel)⟩

end Pscdrv.Fast
