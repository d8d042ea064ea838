import Pscdrv.Link.EventBase
import Pscdrv.Records.LockOrder
import Pscdrv.Schemes.Turns

/-! # `stopAll` returns, unless the event thread is in a deadlock

    The thread that runs `stopAll` waits at one place, for the thread of the event base. That one
    was told to leave then, and leaves when it has called what was asked for; but a callback that
    has begun comes first, and a callback takes locks. The callbacks, `stopinloop` and the records
    are programs here, as for one driver, and every driver has its `psc->lock`.

        stopAll    ── join ╌╌ the loop ends
        loop       callback: psc->lock ╌╌ record       …  stopinloop, loopexit ── ended
        a record                          record ╌╌ psc->lock

    What the calls do does not matter. The field `stopped` is not in the source: it tells for which
    drivers `stopinloop` was called. -/

namespace Pscdrv.Exit

open Run Threads StopAll
open LockOrder (DevSup Task)

/-- The locks of the drivers and of the records. -/
inductive Lock where
  | psc (i : ℕ)
  | record (l : ℕ)
  deriving DecidableEq

/-- The lock as driver `i` knows it. -/
def Lock.of (i : ℕ) : Access.Lock → Lock
  | .psc => .psc i
  | .record l => .record l

/-- A `psc->lock` is taken inside the lock of a record. -/
def Lock.Inner : Lock → Prop
  | .psc _ => True
  | .record _ => False

/-- What a thread can be given to do for driver `i`. -/
inductive Job (Call : Type) (Reply : Call → Type) where
  | task (i : ℕ) (task : Task Call Reply)
  /-- `psc_real_exit` -/
  | exit (i : ℕ)

/-- The process: the event base, and the threads with the locks. -/
structure Ioc (τ Call : Type) (Reply : Call → Type) (σ : Type) extends Base where
  threads : Threads.Sys τ Lock Call Reply σ
  stopped : ℕ → Bool

inductive Act (τ Call : Type) (Reply : Call → Type) where
  /-- the next part of `stopAll` -/
  | stop
  | loopStart
  | once
  | loopEnd
  /-- a callback or a record of driver `i` begins -/
  | start (t : τ) (i : ℕ) (task : Task Call Reply)
  | turn (t : τ)

section Model

variable {τ Call : Type} {Reply : Call → Type} {σ : Type} [DecidableEq τ]

def Ioc.init (n : ℕ) (x : σ) : Ioc τ Call Reply σ where
  toBase := .init n
  threads := .init x
  stopped := fun _ => false

variable (perform : τ → (c : Call) → σ → σ × Reply c) (event : τ)
  (exits : ℕ → Option (DevSup Call Reply))

/-- `PSC::stopinloop` has a guard around its body, and `PSCUDP::stopinloop` is empty. -/
def exitProg (i : ℕ) : Prog Lock Call Reply :=
  (exits i).elim .done fun body => (LockOrder.locked body.prog).mapLock (.of i)

/-- The programs of the threads, with the locks of all drivers. -/
def jobs (t : τ) : Job Call Reply → Option (Prog Lock Call Reply)
  | .task i task => (LockOrder.tasks event t task).map (.mapLock (.of i))
  | .exit i => if t = event then some (exitProg exits i) else none

/-- The loop begins with what was asked for. -/
def called (s : Ioc τ Call Reply σ) : Once → Option (Ioc τ Call Reply σ)
  | .realExit i => (Threads.start (jobs event exits) s.threads event (.exit i)).map fun th =>
      { s with threads := th, stopped := Function.update s.stopped i true }
  | .loopexit => some s

/-- `none` when the action is not possible now, or an assertion has failed. -/
def step (s : Ioc τ Call Reply σ) (a : Act τ Call Reply) : Option (Ioc τ Call Reply σ) :=
  if s.threads.failed.isSome then none
  else match a with
  | .stop => (stopTurn s.toBase).map fun b => { s with toBase := b }
  | .loopStart => (loopStart s.toBase).map fun b => { s with toBase := b }
  | .once =>
    if (s.threads.code event).isDone then
      (onceTurn s.toBase).bind fun p => called event exits { s with toBase := p.2 } p.1
    else none
  | .loopEnd =>
    if (s.threads.code event).isDone then
      (loopEnd s.toBase).map fun b => { s with toBase := b }
    else none
  | .start t i task =>
    if i < s.n ∧ (t = event → s.loop = .looping) then
      (Threads.start (jobs event exits) s.threads t (.task i task)).map fun th =>
        { s with threads := th }
    else none
  | .turn t => (turn perform s.threads t).map fun th => { s with threads := th }

end Model

/-! ### What a step can do -/

section Steps

variable {τ Call : Type} {Reply : Call → Type} {σ : Type} [DecidableEq τ]
  {perform : τ → (c : Call) → σ → σ × Reply c} {event : τ}
  {exits : ℕ → Option (DevSup Call Reply)} {s t : Ioc τ Call Reply σ}

/-- The steps, with the conditions they are taken under. -/
inductive Taken (perform : τ → (c : Call) → σ → σ × Reply c) (event : τ)
    (exits : ℕ → Option (DevSup Call Reply)) (s : Ioc τ Call Reply σ) :
    Act τ Call Reply → Ioc τ Call Reply σ → Prop
  | stop {b : Base} (hstops : Stops s.toBase b) : Taken perform event exits s .stop
      { s with toBase := b }
  | loopStart (hloop : s.loop = .starting) : Taken perform event exits s .loopStart
      { s with toBase := { s.toBase with loop := .looping } }
  | realExit {i : ℕ} {queue : List Once} {th : Threads.Sys τ Lock Call Reply σ}
      (hidle : s.threads.code event = .done) (hloop : s.loop = .looping)
      (hqueue : s.queue = .realExit i :: queue)
      (hstart : Threads.start (jobs event exits) s.threads event (.exit i) = some th) :
      Taken perform event exits s .once
        ⟨{ s.toBase with queue := queue }, th, Function.update s.stopped i true⟩
  | loopexit {queue : List Once} (hidle : s.threads.code event = .done) (hloop : s.loop = .looping)
      (hqueue : s.queue = .loopexit :: queue) : Taken perform event exits s .once
      { s with toBase := { s.toBase with queue := queue, gotterm := true } }
  | loopEnd (hidle : s.threads.code event = .done) (hloop : s.loop = .looping)
      (hgot : s.gotterm = true) (hqueue : s.queue = []) : Taken perform event exits s .loopEnd
      { s with toBase := { s.toBase with loop := .ended, running := false } }
  | start {u : τ} {i : ℕ} {task : Task Call Reply} {th : Threads.Sys τ Lock Call Reply σ}
      (hloop : u = event → s.loop = .looping)
      (hstart : Threads.start (jobs event exits) s.threads u (.task i task) = some th) :
      Taken perform event exits s (.start u i task) { s with threads := th }
  | turn {u : τ} {th : Threads.Sys τ Lock Call Reply σ}
      (hturn : turn perform s.threads u = some th) :
      Taken perform event exits s (.turn u) { s with threads := th }

theorem step_cases {a : Act τ Call Reply} (hs : step perform event exits s a = some t) :
    s.threads.failed = none ∧ Taken perform event exits s a t := by
  unfold step at hs
  split at hs
  · cases hs
  refine ⟨Option.not_isSome_iff_eq_none.mp ‹_›, ?_⟩
  cases a with
  | stop =>
    obtain ⟨b, hb, rfl⟩ := Option.map_eq_some_iff.mp hs
    exact .stop (stopTurn_cases hb)
  | loopStart =>
    obtain ⟨b, hb, rfl⟩ := Option.map_eq_some_iff.mp hs
    obtain ⟨hloop, rfl⟩ := loopStart_cases hb
    exact .loopStart hloop
  | once =>
    obtain ⟨hidle, hs⟩ := Option.ite_none_right_eq_some.mp hs
    obtain ⟨⟨o, b⟩, hb, hcalled⟩ := Option.bind_eq_some_iff.mp hs
    cases onceTurn_cases hb with
    | realExit hloop hqueue =>
      obtain ⟨th, hth, rfl⟩ := Option.map_eq_some_iff.mp hcalled
      exact .realExit (Prog.eq_done_of_isDone hidle) hloop hqueue hth
    | loopexit hloop hqueue =>
      cases hcalled
      exact .loopexit (Prog.eq_done_of_isDone hidle) hloop hqueue
  | loopEnd =>
    obtain ⟨hidle, hs⟩ := Option.ite_none_right_eq_some.mp hs
    obtain ⟨b, hb, rfl⟩ := Option.map_eq_some_iff.mp hs
    obtain ⟨hloop, hgot, hqueue, rfl⟩ := loopEnd_cases hb
    exact .loopEnd (Prog.eq_done_of_isDone hidle) hloop hgot hqueue
  | start u i task =>
    obtain ⟨⟨-, hloop⟩, hs⟩ := Option.ite_none_right_eq_some.mp hs
    obtain ⟨th, hth, rfl⟩ := Option.map_eq_some_iff.mp hs
    exact .start hloop hth
  | turn u =>
    obtain ⟨th, hth, rfl⟩ := Option.map_eq_some_iff.mp hs
    exact .turn hth

/-! ### The programs -/

theorem of_injective (i : ℕ) : (Lock.of i).Injective := by
  intro k l h
  cases k with
  | psc =>
    cases l with
    | psc => rfl
    | record l => cases h
  | record k =>
    cases l with
    | psc => cases h
    | record l =>
      cases h
      rfl

/-- Every job gives back what it takes. -/
theorem jobs_brackets {u : τ} {j : Job Call Reply} {p : Prog Lock Call Reply} {held : Lock → ℕ}
    (h : jobs event exits u j = some p) : p.Brackets held held := by
  cases j with
  | task i task =>
    obtain ⟨q, hq, rfl⟩ := Option.map_eq_some_iff.mp h
    rw [← LockOrder.tasks_prog hq]
    exact Prog.brackets_mapLock (of_injective i) task.brackets held
  | exit i =>
    cases (Option.ite_none_right_eq_some.mp h).2
    rw [exitProg]
    cases exits i with
    | none => rfl
    | some body =>
      exact Prog.brackets_mapLock (of_injective i) (LockOrder.within_brackets body.brackets) held

/-- A record is locked before the driver it belongs to, and the callbacks are on the loop. -/
theorem jobs_nests {u : τ} {j : Job Call Reply} {p : Prog Lock Call Reply}
    (h : jobs event exits u j = some p) : u = event ∨ Nests Lock.Inner p := by
  cases j with
  | exit i => exact .inl (Option.ite_none_right_eq_some.mp h).1
  | task i task =>
    obtain ⟨q, hq, rfl⟩ := Option.map_eq_some_iff.mp h
    cases task with
    | connect up procOnConnect => exact .inl (Option.ite_none_right_eq_some.mp hq).1
    | callback body => exact .inl (Option.ite_none_right_eq_some.mp hq).1
    | scan r =>
      cases (Option.ite_none_left_eq_some.mp hq).2
      refine .inr ⟨.record r.lockSet, _, .psc i, rfl, id, trivial, fun l hl => ?_⟩
      obtain ⟨k, rfl, hk⟩ := Prog.mayLock_mapLock hl
      rcases Prog.mayLock_andThen hk with hdev | hunlock
      · rw [r.devsup.locks k hdev]
        rfl
      · cases hunlock

/-! ### What holds in every state -/

/-- A thread gives back what it holds, and takes the lock of a driver last, unless it is the event
    thread. -/
def Disciplined (event u : τ) (held : Lock → ℕ) (p : Prog Lock Call Reply) (x : σ) : Prop :=
  GivesBack u held p x ∧ Nested event Lock.Inner u held p

/-- The base is in order, the threads keep to the locks, and callbacks run in the loop. -/
structure Inv (event : τ) (s : Ioc τ Call Reply σ) : Prop where
  base : BaseInv s.toBase s.stopped
  threads : Annotated (Disciplined event) s.threads
  looping : s.threads.code event ≠ .done → s.loop = .looping

theorem inv_init (event : τ) (n : ℕ) (x : σ) :
    Inv event (.init n x : Ioc τ Call Reply σ) where
  base := baseInv_init n
  threads u := ⟨rfl, .inr (.inr ⟨.psc 0, fun _ hl => hl.elim, fun _ _ hl => by cases hl⟩)⟩
  looping h := absurd rfl h

/-- A step of the threads. -/
theorem threads_inv (perform : τ → (c : Call) → σ → σ × Reply c)
    (exits : ℕ → Option (DevSup Call Reply)) {th : Threads.Sys τ Lock Call Reply σ}
    {a : Threads.Act τ (Job Call Reply)}
    (h : Annotated (Disciplined event) s.threads)
    (hs : Threads.step perform (jobs event exits) s.threads a = some th) :
    Annotated (Disciplined event) th := by
  refine Outline.step (nested_outline (fun u j p held => jobs_brackets)
    (fun u j p => jobs_nests)) h ?_ hs
  cases a with
  | start u j => trivial
  | turn u => exact fun _ _ _ => trivial

/-- STEP: the invariant is kept. -/
theorem inv_step {a : Act τ Call Reply} (h : Inv event s)
    (hs : step perform event exits s a = some t) : Inv event t := by
  cases (step_cases hs).2 with
  | stop hstops =>
    refine ⟨h.base.stops hstops, h.threads, fun hrun => ?_⟩
    have hloop := h.looping hrun
    cases hstops <;> exact hloop
  | loopStart hloop => exact ⟨h.base.loopStart hloop, h.threads, fun _ => rfl⟩
  | realExit hidle hloop hqueue hstart =>
    exact ⟨(h.base.realExit hloop hqueue).2,
      threads_inv perform exits (a := .start event _) h.threads hstart, fun _ => hloop⟩
  | loopexit hidle hloop hqueue =>
    exact ⟨h.base.loopexit hloop hqueue, h.threads, fun _ => hloop⟩
  | loopEnd hidle hloop hgot hqueue =>
    exact ⟨h.base.loopEnd hloop hgot hqueue, h.threads, fun hrun => absurd hidle hrun⟩
  | @start u i task th hloop hstart =>
    refine ⟨h.base, threads_inv perform exits (a := .start u _) h.threads hstart,
      fun hrun => ?_⟩
    obtain ⟨-, p, -, rfl⟩ := start_cases hstart
    rcases eq_or_ne event u with rfl | hu
    · exact hloop rfl
    · refine h.looping fun hdone => hrun ?_
      change Function.update s.threads.code u p event = .done
      rw [Function.update_of_ne hu, hdone]
  | @turn u th hturn =>
    refine ⟨h.base, threads_inv perform exits (a := .turn u) h.threads hturn, fun hrun => ?_⟩
    refine h.looping fun hdone => hrun ?_
    rcases eq_or_ne event u with rfl | hu
    · rw [Threads.turn, hdone] at hturn
      split at hturn <;> cases hturn
    · have hs : Threads.step perform (jobs event exits) s.threads (.turn u) = some th := hturn
      exact (step_frame hs hu).1.trans hdone

/-! ### What is left to do -/

/-- Parts of `stopAll` that are left, with what they may ask for. -/
def stopLeft (n : ℕ) : StopPc → ℕ
  | .idle => 9 * n + 2
  | .next i => 9 * (n - i) + 1
  | .once i => 9 * (n - (i + 1)) + 9
  | .check i => 9 * (n - (i + 1)) + 7
  | .exit i => 9 * (n - (i + 1)) + 6
  | .join i => 9 * (n - (i + 1)) + 4
  | .delete i => 9 * (n - (i + 1)) + 3
  | .returned => 0

def loopLeft : LoopPc → ℕ
  | .starting => 2
  | .looping => 1
  | .ended => 0

def left (b : Base) : ℕ := stopLeft b.n b.stop + b.queue.length + loopLeft b.loop

/-- The steps that `stopAll` and the loop take on their own. -/
def Act.works : Act τ Call Reply → Bool
  | .stop | .loopStart | .once | .loopEnd => true
  | .start .. | .turn _ => false

/-- A part of `stopAll` leaves less to do. -/
theorem stops_left {b c : Base} (h : Stops b c) : c.n = b.n ∧ left c + 1 ≤ left b := by
  cases h with
  | begin hstop | last hstop | askExit hstop | isRunning hstop | isDown hstop | askLoopexit hstop
    | joined hstop | delete hstop =>
    refine ⟨rfl, ?_⟩
    simp only [left, hstop, stopLeft, List.length_append, List.length_singleton]
    omega
  | next hstop hi =>
    refine ⟨rfl, ?_⟩
    simp only [left, hstop, stopLeft]
    omega

/-- STEP: what is left becomes less, or a thread does something. -/
theorem left_step {a : Act τ Call Reply} (hs : step perform event exits s a = some t) :
    t.n = s.n ∧ left t.toBase + (if a.works then 1 else 0) ≤ left s.toBase := by
  cases (step_cases hs).2 with
  | stop hstops => exact stops_left hstops
  | loopStart hloop | loopEnd _ hloop =>
    refine ⟨rfl, ?_⟩
    simp only [left, hloop, loopLeft, Act.works, if_true]
    omega
  | realExit _ _ hqueue | loopexit _ _ hqueue =>
    refine ⟨rfl, ?_⟩
    simp only [left, hqueue, List.length_cons, Act.works, if_true]
    omega
  | start | turn => exact ⟨rfl, Nat.le_refl _⟩

/-- Nothing new begins. -/
def Act.goesOn : Act τ Call Reply → Bool
  | .start .. => false
  | _ => true

/-- The steps in which nothing new begins come to an end. -/
theorem goesOn_wf [Finite τ] (perform : τ → (c : Call) → σ → σ × Reply c) (event : τ)
    (exits : ℕ → Option (DevSup Call Reply)) : WellFounded fun t s : Ioc τ Call Reply σ =>
      ∃ a : Act τ Call Reply, a.goesOn = true ∧ step perform event exits s a = some t := by
  refine Subrelation.wf ?_ (InvImage.wf
    (fun s : Ioc τ Call Reply σ =>
      (left s.toBase + if s.threads.failed = none then 1 else 0, s.threads.code))
    (WellFounded.prod_lex Nat.lt_wfRel.wf oneAfter_wf))
  rintro t s ⟨a, hgoes, hs⟩
  obtain ⟨hnone, htaken⟩ := step_cases hs
  have hless := (left_step hs).2
  have hbit : ∀ u : Ioc τ Call Reply σ, (if u.threads.failed = none then 1 else 0) ≤ 1 := by
    intro u
    split <;> omega
  change Prod.Lex _ _ (_, _) (_, _)
  rw [if_pos hnone]
  cases a with
  | start u i task => cases hgoes
  | stop | loopStart | once | loopEnd =>
    refine .left _ _ ?_
    have ht := hbit t
    simp only [Act.works, if_true] at hless
    change _ < _
    omega
  | turn u =>
    cases htaken with
    | turn hturn =>
      rcases (turn_after hturn).2 with hfailed | ⟨hfailed, hafter⟩
      · refine .left _ _ ?_
        dsimp only
        rw [if_neg fun hn => by rw [hn] at hfailed; cases hfailed]
        exact Nat.lt_succ_self _
      · dsimp only
        rw [if_pos hfailed]
        exact .right _ hafter

/-! ### Somebody goes on -/

/-- The steps of `stopAll` and of the loop, and those of the threads that a callback waits for in
    the end. -/
def Helps (event : τ) (s : Ioc τ Call Reply σ) : Act τ Call Reply → Prop
  | .stop | .loopStart | .once | .loopEnd => True
  | .turn u => Relation.ReflTransGen (WaitsFor s.threads) event u
  | .start .. => False

/-- The event thread waits for the lock of a record, whose holder waits for a lock of the event
    thread. -/
def Stuck (event : τ) (s : Ioc τ Call Reply σ) : Prop :=
  ∃ i, Deadlocked event (.psc i) s.threads

/-- PROGRESS: until `stopAll` has returned, it has a step, or the loop, or somebody who is in the
    way; or the event thread is stuck. -/
theorem progress (perform : τ → (c : Call) → σ → σ × Reply c)
    (exits : ℕ → Option (DevSup Call Reply)) (h : Inv event s) (hstop : s.stop ≠ .returned)
    (hfailed : s.threads.failed = none) :
    (∃ a, Helps event s a ∧ (step perform event exits s a).isSome = true) ∨ Stuck event s := by
  have hup : ¬ s.threads.failed.isSome = true := by
    rw [hfailed]
    exact Bool.false_ne_true
  by_cases hturn : (stopTurn s.toBase).isSome = true
  · refine .inl ⟨.stop, trivial, ?_⟩
    rw [step, if_neg hup]
    exact Option.isSome_map.trans hturn
  -- `stopAll` waits for the thread
  obtain ⟨i, hjoin, hloop⟩ : ∃ i, s.stop = .join i ∧ s.loop ≠ .ended := by
    cases hs : s.stop with
    | returned => exact absurd hs hstop
    | join i =>
      refine ⟨i, rfl, fun hended => hturn ?_⟩
      rw [stopTurn, hs]
      dsimp only
      rw [if_pos hended]
      rfl
    | idle | next i | once i | check i | exit i | delete i =>
      rw [stopTurn, hs] at hturn
      exact absurd rfl hturn
  cases hl : s.loop with
  | ended => exact absurd hl hloop
  | starting =>
    refine .inl ⟨.loopStart, trivial, ?_⟩
    rw [step, if_neg hup]
    rw [loopStart, if_pos hl]
    rfl
  | looping =>
    by_cases hidle : (s.threads.code event).isDone = true
    · cases hq : s.queue with
      | cons o queue =>
        refine .inl ⟨.once, trivial, ?_⟩
        rw [step, if_neg hup]
        dsimp only
        rw [if_pos hidle, onceTurn, if_pos hl, hq]
        cases o with
        | loopexit => rfl
        | realExit k =>
          dsimp only
          rw [Option.bind_some, called, Threads.start, if_neg hup,
            Prog.eq_done_of_isDone hidle, jobs, if_pos rfl]
          rfl
      | nil =>
        refine .inl ⟨.loopEnd, trivial, ?_⟩
        cases h.base.stage with
        | down hdown => exact absurd hdown hloop
        | up _ hearly called hasked _ hgot =>
          rw [hq, List.append_nil, hjoin] at hasked
          have hi : i = 0 := by
            rcases hearly with hearly | ⟨-, hret⟩
            · rw [hjoin] at hearly
              cases i with
              | zero => rfl
              | succ i => cases hearly
            · exact absurd hret hstop
          subst hi
          have hterm : s.gotterm = true := hgot.mpr (by
            rw [← hasked, asked]
            exact List.mem_cons_of_mem _ (List.mem_singleton_self _))
          rw [step, if_neg hup]
          rw [if_pos hidle, loopEnd, if_pos ⟨hl, hterm, hq⟩]
          rfl
    · have hrun : s.threads.code event ≠ .done := fun hdone => hidle (by rw [hdone]; rfl)
      rcases turn_or_deadlock perform h.threads hfailed hrun with ⟨u, hu, hturn⟩ | hdead
      · refine .inl ⟨.turn u, hu, ?_⟩
        rw [step, if_neg hup]
        exact Option.isSome_map.trans hturn
      · obtain ⟨m, hm, hdead⟩ := hdead
        cases m with
        | psc i => exact .inr ⟨i, hdead⟩
        | record l => exact hm.elim

/-- STEP: the event thread stays stuck. -/
theorem stuck_step {a : Act τ Call Reply} (h : Stuck event s)
    (hs : step perform event exits s a = some t) : Stuck event t := by
  obtain ⟨i, hdead⟩ := h
  have hthreads : ∀ {b : Threads.Act τ (Job Call Reply)} {th},
      Threads.step perform (jobs event exits) s.threads b = some th →
      Deadlocked event (.psc i) th := fun hth => ((deadlock_stays hdead [_]).2 _ hth).head
  cases (step_cases hs).2 with
  | stop | loopStart | loopexit | loopEnd => exact ⟨i, hdead⟩
  | realExit _ _ _ hstart => exact ⟨i, hthreads (b := .start event _) hstart⟩
  | @start u _ _ _ _ hstart => exact ⟨i, hthreads (b := .start u _) hstart⟩
  | @turn u _ hturn => exact ⟨i, hthreads (b := .turn u) hturn⟩

/-- While the event thread is stuck the first driver is not stopped. -/
theorem Inv.waiting (h : Inv event s) (hstuck : Stuck event s) (hn : s.n ≠ 0) :
    s.stop ≠ .returned := by
  obtain ⟨i, -, k, u, ⟨⟨next, hcode⟩, -⟩, -⟩ := hstuck
  have hloop := h.looping (by rw [hcode]; exact fun hd => by cases hd)
  intro hret
  cases h.base.stage with
  | up _ hearly =>
    rcases hearly with hearly | ⟨hzero, -⟩
    · rw [hret] at hearly
      cases hearly
    · exact hn hzero
  | down hended => cases hloop.symm.trans hended

/-! ### In order -/

/-- The threads take their locks in order, for every driver. -/
def InOrder (event : τ) (s : Ioc τ Call Reply σ) : Act τ Call Reply → Prop
  | .turn u => ∀ i, Ordered event (.psc i) s.threads (.turn u : Threads.Act τ (Job Call Reply))
  | _ => True

/-- STEP: in order, nobody comes in the way of a callback. -/
theorem unlocked_inv {a : Act τ Call Reply} (h : Inv event s)
    (hfree : ∀ i, Unlocked event (.psc i) s.threads) (hok : InOrder event s a)
    (hs : step perform event exits s a = some t) :
    ∀ i, Unlocked event (.psc i) t.threads := by
  have hgives : Annotated GivesBack s.threads := fun u => (h.threads u).1
  have hthreads : ∀ {b : Threads.Act τ (Job Call Reply)} {th},
      Threads.step perform (jobs event exits) s.threads b = some th →
      (∀ i, Ordered event (.psc i) s.threads b) → ∀ i, Unlocked event (.psc i) th :=
    fun hth hb i => unlocked_step (hfree i) hgives (hb i) hth
  cases (step_cases hs).2 with
  | stop | loopStart | loopexit | loopEnd => exact hfree
  | realExit _ _ _ hstart => exact hthreads (b := .start event _) hstart fun _ => trivial
  | @start u _ _ _ _ hstart => exact hthreads (b := .start u _) hstart fun _ => trivial
  | @turn u _ hturn => exact hthreads (b := .turn u) hturn hok

end Steps

/-! ### `stopAll` -/

/-- What becomes of `stopAll`. -/
structure Outcome {τ Call : Type} {Reply : Call → Type} {σ : Type} [DecidableEq τ]
    (perform : τ → (c : Call) → σ → σ × Reply c) (event : τ)
    (exits : ℕ → Option (DevSup Call Reply)) (s : Ioc τ Call Reply σ) : Prop where
  /-- without anything new, the steps come to an end -/
  ends : Acc (fun t s => ∃ a : Act τ Call Reply,
    a.goesOn = true ∧ step perform event exits s a = some t) s
  /-- and not before it has returned, unless the event thread is stuck -/
  goes : s.stop ≠ .returned → s.threads.failed = none →
    (∃ a, Helps event s a ∧ (step perform event exits s a).isSome = true) ∨ Stuck event s
  /-- then it never returns -/
  hangs : s.n ≠ 0 → Stuck event s →
    ∀ bs, Always (step perform event exits) (fun t => t.stop ≠ .returned) s bs
  /-- `stopinloop` was called for the first driver only -/
  returned : s.stop = .returned → ∀ i < s.n, s.loop = .ended ∧ s.deleted i = true ∧
    (s.stopped i = true ↔ i = 0)

/-- RETURNS: in every run `stopAll` takes a bounded number of steps together with the loop, and goes
    on until it has returned, unless the event thread is stuck in a callback; then it never
    returns. As long as the locks are taken in order, that does not happen. -/
theorem stopAll_returns {τ Call : Type} {Reply : Call → Type} {σ : Type} [DecidableEq τ] [Finite τ]
    (perform : τ → (c : Call) → σ → σ × Reply c) (event : τ)
    (exits : ℕ → Option (DevSup Call Reply)) (n : ℕ) (x : σ) {as : List (Act τ Call Reply)}
    {s : Ioc τ Call Reply σ} (hs : exec (step perform event exits) (.init n x) as = some s) :
    as.countP Act.works ≤ 9 * n + 4 ∧ Outcome perform event exits s ∧
      (Along (step perform event exits) (InOrder event) (.init n x) as → ¬ Stuck event s) := by
  obtain ⟨hinv, hn⟩ : Inv event s ∧ s.n = n :=
    inv_exec' (I := fun s => Inv event s ∧ s.n = n)
      (fun _ _ _ h hs => ⟨inv_step h.1 hs, (left_step hs).1.trans h.2⟩) ⟨inv_init event n x, rfl⟩ hs
  have hcount : as.countP Act.works + left s.toBase ≤ left (.init n) :=
    count_exec_le (I := fun _ => True)
      (fun _ _ _ _ hs => ⟨trivial, (left_step hs).2⟩) trivial hs
  refine ⟨(Nat.le_add_right _ _).trans hcount, ⟨(goesOn_wf perform event exits).apply s,
    fun hstop hfailed => progress perform exits hinv hstop hfailed, fun hpos hstuck bs => ?_,
    fun hret i hi => ?_⟩, fun horder => ?_⟩
  · exact always_of_step (I := fun t => Inv event t ∧ Stuck event t ∧ t.n ≠ 0)
      (fun _ _ _ h hs => ⟨inv_step h.1 hs, stuck_step h.2.1 hs, (left_step hs).1 ▸ h.2.2⟩)
      (fun _ h => h.1.waiting h.2.1 h.2.2) ⟨hinv, hstuck, hpos⟩
  · have hreached := hinv.base.reached
    rw [hret] at hreached
    cases hinv.base.stage with
    | up _ hup =>
      rw [hret] at hup
      rcases hup with hearly | ⟨hzero, -⟩
      · cases hearly
      · rw [hzero] at hi
        exact absurd hi (Nat.not_lt_zero i)
    | down hended _ hstopped => exact ⟨hended, (hreached i).mpr hi, hstopped i⟩
  · have hfree : Inv event s ∧ ∀ i, Unlocked event (.psc i) s.threads :=
      inv_exec (I := fun s : Ioc τ Call Reply σ =>
          Inv event s ∧ ∀ i, Unlocked event (.psc i) s.threads) (C := InOrder event)
        (fun _ _ _ h hok hs => ⟨inv_step h.1 hs, unlocked_inv h.1 h.2 hok hs⟩)
        ⟨inv_init event n x, fun _ he => absurd he (Nat.lt_irrefl 0)⟩ horder hs
    rintro ⟨i, hdead⟩
    exact (hfree.2 i).not_deadlocked hdead

section Sample

open Libevent LockOrder

/-- A `stopinloop` that finds nothing to do. -/
def nothingLeft : DevSup Access.Call Access.Reply := ⟨.done, fun _ => rfl, fun _ h => h.elim⟩

/-- A driver that is connecting, in the process that begins. -/
def starting (n : ℕ) : Ioc Bool Access.Call Access.Reply (Access.Shared Bool Chains) :=
  .init n ⟨connectingPsc, [], []⟩

/-- The connection comes up while a record of `procOnConnect` is processed, and then the process is
    to exit. -/
def exitWhileConnecting : List (Act Bool Access.Call Access.Reply) :=
  [.loopStart, .start true 0 (.connect (reportEvent upEvent) [output 0]), .turn true, .turn true,
    .start false 0 (.scan (output 0)), .turn false, .stop, .stop, .stop, .stop, .stop]

/-- Then `stopAll` never returns. -/
theorem stopAll_returns_connecting :
    let steps := step (Access.perform ⟨0⟩) true fun _ => some nothingLeft
    ∃ s, exec steps (starting 1) exitWhileConnecting = some s ∧
      ∀ bs, Always steps (fun t => t.stop ≠ .returned) s bs := by
  intro steps
  obtain ⟨s, hs, hn, hstuck⟩ : ∃ s, exec steps (starting 1) exitWhileConnecting = some s ∧
      s.n ≠ 0 ∧ Stuck true s := by
    refine ⟨_, rfl, by decide, 0, by decide, .record 0, false, ?_, by decide, ?_⟩
    · exact ⟨⟨_, rfl⟩, false, by decide, by decide⟩
    · exact ⟨⟨_, rfl⟩, true, by decide, by decide⟩
  exact ⟨s, hs, (stopAll_returns _ true _ 1 _ hs).2.1.hangs hn hstuck⟩

/-- With two drivers and no callback it returns, and the second one was not stopped. -/
example : (exec (step (Access.perform ⟨0⟩) true fun _ => some nothingLeft) (starting 2)
    [.loopStart, .stop, .stop, .stop, .once, .turn true, .turn true, .stop, .stop, .once, .loopEnd,
      .stop, .stop, .stop, .stop, .stop, .stop, .stop]).map
    (fun s => (s.stop, s.deleted 1, s.stopped 0, s.stopped 1)) =
    some (.returned, true, true, false) := by decide +kernel

end Sample

end Pscdrv.Exit
