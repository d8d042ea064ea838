import Pscdrv.Records.Atomic

/-! # The order of `psc->lock` and the record locks

    A record is processed under the lock of its lock set, and its device support takes `psc->lock`
    inside. On a connection `PSC::eventcb` and `PSCUDP::connect` process the records of
    `procOnConnect` themselves, while they hold `psc->lock`: the two locks are taken in both orders.

        a record      dbScanLock(prec) ─ psc->lock ─ …
        eventcb       psc->lock ─ dbScanLock(prec) ─ psc->lock ─ …

    `received_block` meets the same records under `psc->lock`, and leaves their processing to a
    callback thread. Nothing here depends on what the calls do, so the driver is a parameter. -/

namespace Pscdrv.LockOrder

open Threads Run
open Access (Lock)

/-- A routine of device support, or a callback without its lock: it takes `psc->lock` alone, and
    gives it back. -/
structure DevSup (Call : Type) (Reply : Call → Type) where
  prog : Prog Lock Call Reply
  brackets : ∀ held, prog.Brackets held held
  locks : ∀ k, prog.MayLock k → k = .psc

/-- A record, with what `dbProcess` runs of device support. -/
structure Rec (Call : Type) (Reply : Call → Type) where
  lockSet : ℕ
  devsup : DevSup Call Reply

/-- What a thread can be given to do. -/
inductive Task (Call : Type) (Reply : Call → Type) where
  /-- `bev_eventcb` on a connection, or `PSCUDP::connect` under the guard of `startAll`: `up` is
      what comes before the loop -/
  | connect (up : DevSup Call Reply) (procOnConnect : List (Rec Call Reply))
  /-- any other callback -/
  | callback (body : DevSup Call Reply)
  /-- a record is processed -/
  | scan (rec : Rec Call Reply)

section Programs

variable {Call : Type} {Reply : Call → Type}

/-- `Guard g(psc->lock);` around a body. -/
def locked (body : Prog Lock Call Reply) : Prog Lock Call Reply :=
  .lock .psc (body.andThen (.unlock .psc .done))

/-- `dbScanLock(prec); dbProcess(prec); dbScanUnlock(prec);` -/
def process (r : Rec Call Reply) : Prog Lock Call Reply :=
  .lock (.record r.lockSet) (r.devsup.prog.andThen (.unlock (.record r.lockSet) .done))

/-- The loop over `procOnConnect`. -/
def processAll : List (Rec Call Reply) → Prog Lock Call Reply
  | [] => .done
  | r :: rs => (process r).andThen (processAll rs)

def Task.prog : Task Call Reply → Prog Lock Call Reply
  | .connect up procOnConnect => locked (up.prog.andThen (processAll procOnConnect))
  | .callback body => locked body.prog
  | .scan r => process r

/-- Only the event thread runs the callbacks, and it processes records nowhere else. -/
def tasks {τ : Type} [DecidableEq τ] (event t : τ) (task : Task Call Reply) :
    Option (Prog Lock Call Reply) :=
  match task with
  | .connect _ _ | .callback _ => if t = event then some task.prog else none
  | .scan _ => if t = event then none else some task.prog

/-! ### What the programs lock -/

theorem within_brackets {k : Lock} {p : Prog Lock Call Reply}
    (h : ∀ held, p.Brackets held held) (held : Lock → ℕ) :
    Prog.Brackets held (.lock k (p.andThen (.unlock k .done))) held := by
  refine Prog.Brackets.andThen (h (raise held k)) ⟨?_, lower_raise held k⟩
  rw [raise_self]
  exact Nat.succ_pos _

theorem processAll_brackets {rs : List (Rec Call Reply)} {held : Lock → ℕ} :
    (processAll rs).Brackets held held := by
  induction rs with
  | nil => rfl
  | cons r rs ih => exact (within_brackets r.devsup.brackets held).andThen ih

theorem Task.brackets (task : Task Call Reply) (held : Lock → ℕ) :
    task.prog.Brackets held held := by
  cases task with
  | connect up procOnConnect =>
    exact within_brackets (fun held => (up.brackets held).andThen processAll_brackets) held
  | callback body => exact within_brackets body.brackets held
  | scan r => exact within_brackets r.devsup.brackets held

theorem process_mayLock {r : Rec Call Reply} {l : ℕ} (h : (process r).MayLock (.record l)) :
    r.lockSet = l := by
  rcases h with h | h
  · exact Lock.record.inj h
  · rcases Prog.mayLock_andThen h with hdev | hunlock
    · cases r.devsup.locks _ hdev
    · cases hunlock

/-- The loop locks the lock sets of its records, and no other. -/
theorem processAll_mayLock {rs : List (Rec Call Reply)} {l : ℕ}
    (h : (processAll rs).MayLock (.record l)) : ∃ r ∈ rs, r.lockSet = l := by
  induction rs with
  | nil => cases h
  | cons r rs ih =>
    rcases Prog.mayLock_andThen h with hfirst | hrest
    · exact ⟨r, List.mem_cons_self, process_mayLock hfirst⟩
    · obtain ⟨r', hr', hl⟩ := ih hrest
      exact ⟨r', List.mem_cons_of_mem r hr', hl⟩

theorem connect_mayLock {up : DevSup Call Reply} {rs : List (Rec Call Reply)} {l : ℕ}
    (h : (Task.connect up rs).prog.MayLock (.record l)) : ∃ r ∈ rs, r.lockSet = l := by
  rcases h with h | h
  · cases h
  · rcases Prog.mayLock_andThen h with hbody | hunlock
    · rcases Prog.mayLock_andThen hbody with hup | hloop
      · cases up.locks _ hup
      · exact processAll_mayLock hloop
    · cases hunlock

end Programs

section Runs

variable {τ Call : Type} {Reply : Call → Type} {σ : Type} [DecidableEq τ]
  {perform : τ → (c : Call) → σ → σ × Reply c} {event : τ}

theorem tasks_prog {t : τ} {task : Task Call Reply} {p : Prog Lock Call Reply}
    (h : tasks event t task = some p) : task.prog = p := by
  unfold tasks at h
  split at h
  · exact Option.some.inj (Option.ite_none_right_eq_some.mp h).2
  · exact Option.some.inj (Option.ite_none_right_eq_some.mp h).2
  · exact Option.some.inj (Option.ite_none_left_eq_some.mp h).2

/-- CORRECT: as long as the locks are taken in order, the event thread never holds `psc->lock` and
    waits for a record whose holder waits for `psc->lock`. -/
theorem no_deadlock (perform : τ → (c : Call) → σ → σ × Reply c) (event : τ) (x : σ)
    (as : List (Act τ (Task Call Reply)))
    (h : Along (step perform (tasks event)) (Ordered event .psc) (Sys.init x) as) :
    Always (step perform (tasks event)) (fun s => ¬Deadlocked event .psc s) (Sys.init x) as := by
  refine always_not_deadlocked (fun t task p held hp => ?_) h
  rw [← tasks_prog hp]
  exact task.brackets held

/-- The lock sets `C` are for `procOnConnect`, and no record thread processes a record of one. -/
def Apart (C : ℕ → Prop) : Act τ (Task Call Reply) → Prop
  | .start _ (.connect _ rs) => ∀ r ∈ rs, C r.lockSet
  | .start _ (.callback _) => True
  | .start _ (.scan r) => ¬C r.lockSet
  | .turn _ => True

/-- The event thread touches the lock sets `C`, and nobody else does. -/
def Separate (event : τ) (C : ℕ → Prop) (s : Sys τ Lock Call Reply σ) : Prop :=
  ∀ u l, Touches s u (.record l) → (C l ↔ u = event)

theorem separate_step {C : ℕ → Prop} {s s' : Sys τ Lock Call Reply σ}
    {a : Act τ (Task Call Reply)} (h : Separate event C s) (ha : Apart C a)
    (hs : step perform (tasks event) s a = some s') : Separate event C s' := by
  intro u l hnew
  rcases hnew.back hs with hold | ⟨task, p, rfl, hp, hmay⟩
  · exact h u l hold
  · rw [← tasks_prog hp] at hmay
    cases task with
    | connect up rs =>
      obtain ⟨r, hr, rfl⟩ := connect_mayLock hmay
      exact iff_of_true (ha r hr) (Option.ite_none_right_eq_some.mp hp).1
    | callback body =>
      rcases hmay with hpsc | hmay
      · cases hpsc
      · rcases Prog.mayLock_andThen hmay with hbody | hunlock
        · cases body.locks _ hbody
        · cases hunlock
    | scan r =>
      cases process_mayLock hmay
      exact iff_of_false ha (Option.ite_none_left_eq_some.mp hp).1

theorem separate_ordered {C : ℕ → Prop} {s s' : Sys τ Lock Call Reply σ}
    {a : Act τ (Task Call Reply)} (h : Separate event C s)
    (hs : step perform (tasks event) s a = some s') : Ordered event .psc s a := by
  cases a with
  | start t task => trivial
  | turn t =>
    intro k next hcode
    have htakes : Touches s t k := by
      rw [Touches, hcode]
      exact .inr (.inl rfl)
    -- nobody else holds the lock that `t` takes
    have hfree : ∀ u, u ≠ t → ¬0 < depth s.owner u k := by
      intro u hut hheld
      have hstuck : turn perform s t = none := Waits.stuck ⟨⟨next, hcode⟩, u, hut, hheld⟩
      cases hstuck.symm.trans hs
    split
    · subst t
      rintro rfl u l hu hheld hmay -
      cases l with
      | psc => exact hfree u hu hheld
      | record l =>
        have hset : Touches s event (.record l) := by
          rw [Touches, hcode]
          exact .inr (.inr hmay)
        exact hu ((h u l (.inl hheld)).mp ((h event l hset).mpr rfl))
    · rename_i hte
      rintro hheld hmay -
      cases k with
      | psc => exact hfree event (Ne.symm hte) hheld
      | record l => exact hte ((h t l htakes).mp ((h event l (.inr hmay)).mpr rfl))

/-- RUN: records of other lock sets are taken in order, whenever they are processed. -/
theorem apart_ordered {C : ℕ → Prop} {x : σ} {as : List (Act τ (Task Call Reply))}
    (h : ∀ a ∈ as, Apart C a) :
    Along (step perform (tasks event)) (Ordered event .psc) (Sys.init x) as := by
  refine along_of_inv (I := Separate event C)
    (fun s a s' hI ha hs => ⟨separate_step hI ha hs, separate_ordered hI hs⟩) ?_ (along_of_mem h)
  rintro u l (hheld | hmay)
  · cases hheld
  · cases hmay

/-- A record of the first lock set of `procOnConnect` that is processed when the connection comes
    up, and a deadlock for ever. -/
theorem connect_deadlocks (perform : τ → (c : Call) → σ → σ × Reply c) {t : τ} (ht : t ≠ event)
    (x : σ) (up : DevSup Call Reply) {c : Call} {next : Reply c → Prog Lock Call Reply}
    (hup : up.prog = .call c next) (hnext : next (perform event c x).2 = .done)
    (r₀ r : Rec Call Reply) (rs : List (Rec Call Reply)) (hset : r.lockSet = r₀.lockSet)
    {rest : Prog Lock Call Reply} (hdev : r.devsup.prog = .lock .psc rest) :
    ∃ s, exec (step perform (tasks event)) (Sys.init x)
        [.start event (.connect up (r₀ :: rs)), .turn event, .turn event,
          .start t (.scan r), .turn t] = some s ∧
      ∀ as, Always (step perform (tasks event)) (Deadlocked event .psc) s as := by
  obtain ⟨loop, hloop⟩ : ∃ p, (processAll (r₀ :: rs)).andThen (.unlock .psc .done) =
      .lock (.record r₀.lockSet) p := ⟨_, rfl⟩
  obtain ⟨routine, hscan⟩ : ∃ p, (Task.scan r).prog =
      .lock (.record r₀.lockSet) (.lock .psc p) := by
    rw [Task.prog, process, hdev, hset]
    exact ⟨_, rfl⟩
  have hconnect : (Task.connect up (r₀ :: rs)).prog = .lock .psc (.call c fun q =>
      ((next q).andThen (processAll (r₀ :: rs))).andThen (.unlock .psc .done)) := by
    rw [Task.prog, locked, hup]
    rfl
  have hexec : exec (step perform (tasks event)) (Sys.init x)
      [.start event (.connect up (r₀ :: rs)), .turn event, .turn event,
        .start t (.scan r), .turn t] = some
      ⟨Function.update (Function.update (fun _ => none) .psc (some (event, 0)))
          (.record r₀.lockSet) (some (t, 0)),
        Function.update (Function.update (fun _ => .done) event (.lock (.record r₀.lockSet) loop)) t
          (.lock .psc routine),
        (perform event c x).1, none⟩ := by
    simp [exec, step, start, turn, tasks, hconnect, hscan, Sys.init, acquire, hnext, ht,
      Prog.andThen, hloop]
  refine ⟨_, hexec, deadlock_stays ⟨?_, .record r₀.lockSet, t, ⟨⟨loop, ?_⟩, t, ht, ?_⟩, ?_,
    ⟨⟨routine, ?_⟩, event, ht.symm, ?_⟩⟩⟩
  · simp [depth]
  · simp [ht.symm]
  · simp [depth]
  · simp [depth]
  · simp
  · simp [depth]

end Runs

/-! ### On a `PSC` -/

/-- A routine of device support, or a callback. -/
def routine (j : Access.Job) : DevSup Access.Call Access.Reply where
  prog := j.prog
  brackets held := (Access.job_sends j held).brackets
  locks _ hk := (Access.job_sends j fun _ => 0).locks hk

/-- `eventcb` up to its loop. -/
def reportEvent (ev : Tcp.BevEvent) : DevSup Access.Call Access.Reply where
  prog := Access.reportEvent ev
  brackets held next := by cases next <;> trivial
  locks k hk := by
    obtain ⟨next, hnext⟩ := hk
    cases next <;> cases hnext

section Sample

open Libevent Tcp

/-- Connecting, with a send block. -/
def connectingPsc : Psc Chains :=
  { Psc.init {7} ∅ with
    message := "Connecting...", nsession := 1
    session := some ⟨0, new, new, headerSize, minMaxBufSize⟩ }

/-- The connection is there. -/
def upEvent : BevEvent := ⟨true, false, false, false, false, false, ""⟩

/-- A waveform output of lock set `l`. -/
def output (l : ℕ) : Rec Access.Call Access.Reply := ⟨l, routine (.writeWf 7 ⟨[42], by decide⟩)⟩

/-- A record of another lock set is in the middle of its processing. -/
theorem no_deadlock_sample :
    Always (step (Access.perform ⟨0⟩) (tasks true)) (fun s => ¬Deadlocked true .psc s)
      (Sys.init (⟨connectingPsc, [], []⟩ : Access.Shared Bool Chains))
      [.start false (.scan (output 1)), .turn false,
        .start true (.connect (reportEvent upEvent) [output 0]), .turn true, .turn true,
        .turn true, .turn true] := by
  refine no_deadlock (Access.perform ⟨0⟩) true _ _ (apart_ordered (C := fun l => l = 0) ?_)
  simp [Apart, output]

/-- The record of `procOnConnect` is just being processed when the connection comes up. -/
theorem eventcb_deadlocks :
    exec (Tcp.step ⟨0⟩) (Psc.init {7} ∅) [.connect ⟨true, true⟩] = some connectingPsc ∧
    ∃ s, exec (step (Access.perform ⟨0⟩) (tasks true))
        (Sys.init (⟨connectingPsc, [], []⟩ : Access.Shared Bool Chains))
        [.start true (.connect (reportEvent upEvent) [output 0]), .turn true, .turn true,
          .start false (.scan (output 0)), .turn false] = some s ∧
      Deadlocked true .psc s := by
  obtain ⟨s, hs, hdead⟩ := connect_deadlocks (Access.perform ⟨0⟩) Bool.false_ne_true
    (⟨connectingPsc, [], []⟩ : Access.Shared Bool Chains) (reportEvent upEvent) rfl rfl
    (output 0) (output 0) [] rfl rfl
  exact ⟨rfl, s, hs, hdead []⟩

end Sample

end Pscdrv.LockOrder
