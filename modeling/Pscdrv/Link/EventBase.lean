import Mathlib.Data.List.Nodup

/-! # The event base and the thread that stops it (`pscbase.cpp`, `evbase.cpp`)

    All drivers share one event base, whose loop is a thread. At exit another thread takes the
    drivers out of `pscmap`, in the order of their names. For each of them `stop` asks the loop to
    call `stopinloop` and to leave, waits until the thread has ended, and the driver is deleted. The
    loop ends at the first of them: what is asked for the others is never called.

        stopAll :  next ─▶ once ─▶ check ─▶ exit ─▶ join ─▶ delete ─▶ next ─▶ … ─▶ returned
                              running = 0  └───────────────▶┘
        loop    :  starting ─▶ looping ── callbacks, stopinloop, loopexit ──▶ ended

    What the drivers do in between does not matter here. -/

namespace Pscdrv.StopAll

/-- What waits in the event base to be called once. -/
inductive Once where
  | realExit (i : ℕ)
  | loopexit
  deriving DecidableEq

/-- The thread of the event base. -/
inductive LoopPc where
  | starting
  | looping
  | ended
  deriving DecidableEq

/-- Where the thread is that runs `stopAll`, and for which driver. -/
inductive StopPc where
  /-- before `PSCAtExit` -/
  | idle
  | next (i : ℕ)
  | once (i : ℕ)
  | check (i : ℕ)
  | exit (i : ℕ)
  | join (i : ℕ)
  | delete (i : ℕ)
  | returned
  deriving DecidableEq

/-- The event base, its `n` drivers in the order of their names, and the thread that stops them. -/
structure Base where
  n : ℕ
  deleted : ℕ → Bool
  running : Bool
  loop : LoopPc
  queue : List Once
  gotterm : Bool
  stop : StopPc

def Base.init (n : ℕ) : Base where
  n := n
  deleted := fun _ => false
  running := true
  loop := .starting
  queue := []
  gotterm := false
  stop := .idle

/-- The next part of `stopAll`, with `PSCEventBase::stop` and `EventBase::stop` for each driver. -/
def stopTurn (b : Base) : Option Base :=
  match b.stop with
  | .idle => some { b with stop := .next 0 }
  | .next i => some { b with stop := if i < b.n then .once i else .returned }
  | .once i => some { b with queue := b.queue ++ [.realExit i], stop := .check i }
  | .check i => some { b with stop := if b.running then .exit i else .delete i }
  | .exit i => some { b with queue := b.queue ++ [.loopexit], stop := .join i }
  | .join i => if b.loop = .ended then some { b with stop := .delete i } else none
  | .delete i => some { b with
      deleted := fun k => if k = i then true else b.deleted k
      stop := .next (i + 1) }
  | .returned => none

/-- `EventBase::run` enters the loop. -/
def loopStart (b : Base) : Option Base :=
  if b.loop = .starting then some { b with loop := .looping } else none

/-- The loop calls what was asked for first. -/
def onceTurn (b : Base) : Option (Once × Base) :=
  if b.loop = .looping then
    match b.queue with
    | [] => none
    | .realExit i :: queue => some (.realExit i, { b with queue := queue })
    | .loopexit :: queue => some (.loopexit, { b with queue := queue, gotterm := true })
  else none

/-- The loop was told to leave, and `EventBase::run` comes to its end. -/
def loopEnd (b : Base) : Option Base :=
  if b.loop = .looping ∧ b.gotterm = true ∧ b.queue = [] then
    some { b with loop := .ended, running := false }
  else none

/-! ### What a step can do -/

/-- The steps of `stopAll`, with the conditions they are taken under. -/
inductive Stops (b : Base) : Base → Prop
  | begin (hstop : b.stop = .idle) : Stops b { b with stop := .next 0 }
  | next {i : ℕ} (hstop : b.stop = .next i) (hi : i < b.n) : Stops b { b with stop := .once i }
  | last {i : ℕ} (hstop : b.stop = .next i) (hi : ¬ i < b.n) : Stops b { b with stop := .returned }
  | askExit {i : ℕ} (hstop : b.stop = .once i) :
      Stops b { b with queue := b.queue ++ [.realExit i], stop := .check i }
  | isRunning {i : ℕ} (hstop : b.stop = .check i) (hrun : b.running = true) :
      Stops b { b with stop := .exit i }
  | isDown {i : ℕ} (hstop : b.stop = .check i) (hrun : b.running = false) :
      Stops b { b with stop := .delete i }
  | askLoopexit {i : ℕ} (hstop : b.stop = .exit i) :
      Stops b { b with queue := b.queue ++ [.loopexit], stop := .join i }
  | joined {i : ℕ} (hstop : b.stop = .join i) (hloop : b.loop = .ended) :
      Stops b { b with stop := .delete i }
  | delete {i : ℕ} (hstop : b.stop = .delete i) :
      Stops b { b with
        deleted := fun k => if k = i then true else b.deleted k
        stop := .next (i + 1) }

theorem stopTurn_cases {b c : Base} (h : stopTurn b = some c) : Stops b c := by
  rw [stopTurn] at h
  split at h
  · rename_i hstop
    exact Option.some.inj h ▸ .begin hstop
  · rename_i i hstop
    split at h
    · rename_i hi
      exact Option.some.inj h ▸ .next hstop hi
    · rename_i hi
      exact Option.some.inj h ▸ .last hstop hi
  · rename_i i hstop
    exact Option.some.inj h ▸ .askExit hstop
  · rename_i i hstop
    split at h
    · rename_i hrun
      exact Option.some.inj h ▸ .isRunning hstop hrun
    · rename_i hrun
      exact Option.some.inj h ▸ .isDown hstop (Bool.eq_false_iff.mpr hrun)
  · rename_i i hstop
    exact Option.some.inj h ▸ .askLoopexit hstop
  · rename_i i hstop
    split at h
    · rename_i hloop
      exact Option.some.inj h ▸ .joined hstop hloop
    · cases h
  · rename_i i hstop
    exact Option.some.inj h ▸ .delete hstop
  · cases h

theorem loopStart_cases {b c : Base} (h : loopStart b = some c) :
    b.loop = .starting ∧ c = { b with loop := .looping } := by
  obtain ⟨hloop, hc⟩ := Option.ite_none_right_eq_some.mp h
  exact ⟨hloop, (Option.some.inj hc).symm⟩

/-- What the loop calls, with what it leaves. -/
inductive Calls (b : Base) : Once → Base → Prop
  | realExit {i : ℕ} {queue : List Once} (hloop : b.loop = .looping)
      (hqueue : b.queue = .realExit i :: queue) : Calls b (.realExit i) { b with queue := queue }
  | loopexit {queue : List Once} (hloop : b.loop = .looping)
      (hqueue : b.queue = .loopexit :: queue) :
      Calls b .loopexit { b with queue := queue, gotterm := true }

theorem onceTurn_cases {b c : Base} {o : Once} (h : onceTurn b = some (o, c)) : Calls b o c := by
  obtain ⟨hloop, h⟩ := Option.ite_none_right_eq_some.mp h
  split at h
  · cases h
  · rename_i i queue hqueue
    cases h
    exact .realExit hloop hqueue
  · rename_i queue hqueue
    cases h
    exact .loopexit hloop hqueue

theorem loopEnd_cases {b c : Base} (h : loopEnd b = some c) :
    b.loop = .looping ∧ b.gotterm = true ∧ b.queue = [] ∧
      c = { b with loop := .ended, running := false } := by
  obtain ⟨⟨hloop, hgot, hqueue⟩, hc⟩ := Option.ite_none_right_eq_some.mp h
  exact ⟨hloop, hgot, hqueue, (Option.some.inj hc).symm⟩

/-! ### What holds -/

/-- Which drivers are deleted. -/
def Reached (n : ℕ) (deleted : ℕ → Bool) : StopPc → Prop
  | .idle => ∀ k, deleted k = false
  | .next i => i ≤ n ∧ ∀ k, deleted k = true ↔ k < i
  | .once i | .check i | .exit i | .join i | .delete i => i < n ∧ ∀ k, deleted k = true ↔ k < i
  | .returned => ∀ k, deleted k = true ↔ k < n

/-- The first `stop` has not returned yet. -/
def early : StopPc → Bool
  | .idle | .next 0 | .once 0 | .check 0 | .exit 0 | .join 0 => true
  | _ => false

/-- What was asked for until then. -/
def asked : StopPc → List Once
  | .check 0 | .exit 0 => [.realExit 0]
  | .join 0 => [.realExit 0, .loopexit]
  | _ => []

theorem asked_nodup (stop : StopPc) : (asked stop).Nodup := by
  unfold asked
  split <;> decide

theorem asked_loopexit {stop : StopPc} (h : .loopexit ∈ asked stop) : stop = .join 0 := by
  unfold asked at h
  split at h
  · simp at h
  · simp at h
  · rfl
  · cases h

/-- The loop is up, and has called the first part of what was asked for; or it has ended. `stopped`
    tells for which drivers `stopinloop` was called. -/
inductive Stage (b : Base) (stopped : ℕ → Bool) : Prop
  | up (hloop : b.loop ≠ .ended) (hstop : early b.stop = true ∨ b.n = 0 ∧ b.stop = .returned)
      (called : List Once) (hasked : asked b.stop = called ++ b.queue)
      (hstopped : ∀ i, stopped i = true ↔ .realExit i ∈ called)
      (hgot : b.gotterm = true ↔ .loopexit ∈ called)
  | down (hloop : b.loop = .ended) (hstop : b.stop = .join 0 ∨ early b.stop = false)
      (hstopped : ∀ i, stopped i = true ↔ i = 0)

structure BaseInv (b : Base) (stopped : ℕ → Bool) : Prop where
  running : b.running = true ↔ b.loop ≠ .ended
  reached : Reached b.n b.deleted b.stop
  stage : Stage b stopped

theorem baseInv_init (n : ℕ) : BaseInv (.init n) fun _ => false where
  running := iff_of_true rfl fun hc => by cases hc
  reached := fun _ => rfl
  stage := .up (fun hc => by cases hc) (.inl rfl) [] rfl
    (fun _ => iff_of_false Bool.noConfusion List.not_mem_nil)
    (iff_of_false Bool.noConfusion List.not_mem_nil)

section Steps

variable {b c : Base} {stopped : ℕ → Bool}

/-- Nothing is deleted before the loop has ended. -/
theorem BaseInv.kept (h : BaseInv b stopped) (hloop : b.loop ≠ .ended) (k : ℕ) :
    b.deleted k = false := by
  have hreached := h.reached
  cases h.stage with
  | down hdown => exact absurd hdown hloop
  | up _ hstop =>
    have hzero : ∀ j, j = 0 → (∀ k, b.deleted k = true ↔ k < j) → b.deleted k = false :=
      fun j hj hk => Bool.eq_false_iff.mpr fun hd => Nat.not_lt_zero k (hj ▸ (hk k).mp hd)
    rcases hstop with hearly | ⟨hn, hret⟩
    · cases hs : b.stop with
      | idle =>
        rw [hs] at hreached
        exact hreached k
      | next i | once i | check i | exit i | join i =>
        rw [hs] at hreached hearly
        cases i with
        | zero => exact hzero 0 rfl hreached.2
        | succ i => cases hearly
      | delete i | returned =>
        rw [hs] at hearly
        cases hearly
    · rw [hret] at hreached
      exact hzero b.n hn hreached

theorem looping_up (h : b.loop = .looping) : b.loop ≠ .ended := by
  rw [h]
  exact fun hc => by cases hc

/-! ### The thread that stops them -/

/-- A part of `stopAll` that asks for `more`. -/
theorem Stage.go (h : Stage b stopped) {stop : StopPc} {more queue : List Once}
    (hqueue : queue = b.queue ++ more)
    (hup : b.loop ≠ .ended → early b.stop = true ∨ b.n = 0 ∧ b.stop = .returned →
      (early stop = true ∨ b.n = 0 ∧ stop = .returned) ∧ asked stop = asked b.stop ++ more)
    (hdown : b.loop = .ended → b.stop = .join 0 ∨ early b.stop = false →
      stop = .join 0 ∨ early stop = false) :
    Stage { b with stop := stop, queue := queue } stopped := by
  cases h with
  | up hloop hstop called hasked hstopped hgot =>
    obtain ⟨hearly, hmore⟩ := hup hloop hstop
    refine .up hloop hearly called ?_ hstopped hgot
    rw [hmore, hasked, hqueue, List.append_assoc]
  | down hloop hstop hstopped => exact .down hloop (hdown hloop hstop) hstopped

/-- STEP: the next part of `stopAll`. -/
theorem BaseInv.stops (h : BaseInv b stopped) (hs : Stops b c) : BaseInv c stopped := by
  have hreached := h.reached
  have hsame : b.queue = b.queue ++ [] := (List.append_nil _).symm
  cases hs with
  | begin hstop =>
    rw [hstop] at hreached
    refine ⟨h.running, ⟨Nat.zero_le _, fun k => ?_⟩,
      h.stage.go hsame (fun _ _ => ?_) fun _ hdown => ?_⟩
    · rw [hreached k]
      exact iff_of_false Bool.noConfusion (Nat.not_lt_zero k)
    · rw [hstop]
      exact ⟨.inl rfl, rfl⟩
    · rw [hstop] at hdown
      exact absurd hdown (by decide)
  | @next i hstop hi =>
    rw [hstop] at hreached
    refine ⟨h.running, ⟨hi, hreached.2⟩, h.stage.go hsame (fun _ hup => ?_) fun _ hdown => ?_⟩
    · rw [hstop] at hup ⊢
      cases i with
      | zero => exact ⟨.inl rfl, rfl⟩
      | succ i => simp [early] at hup
    · rw [hstop] at hdown
      cases i with
      | zero => simp [early] at hdown
      | succ i => exact .inr rfl
  | @last i hstop hi =>
    rw [hstop] at hreached
    have hn : i = b.n := Nat.le_antisymm hreached.1 (Nat.le_of_not_lt hi)
    refine ⟨h.running, fun k => hn ▸ hreached.2 k,
      h.stage.go hsame (fun _ hup => ?_) fun _ _ => .inr rfl⟩
    rw [hstop] at hup ⊢
    cases i with
    | zero => exact ⟨.inr ⟨hn.symm, rfl⟩, rfl⟩
    | succ i => simp [early] at hup
  | @askExit i hstop | @askLoopexit i hstop =>
    rw [hstop] at hreached
    refine ⟨h.running, hreached, h.stage.go rfl (fun _ hup => ?_) fun _ hdown => ?_⟩
    · rw [hstop] at hup ⊢
      cases i with
      | zero => exact ⟨.inl rfl, rfl⟩
      | succ i => simp [early] at hup
    · rw [hstop] at hdown
      cases i with
      | zero => simp [early] at hdown
      | succ i => exact .inr rfl
  | @isRunning i hstop hrun =>
    rw [hstop] at hreached
    refine ⟨h.running, hreached, h.stage.go hsame (fun _ hup => ?_)
      fun hdown => absurd hdown (h.running.mp hrun)⟩
    rw [hstop] at hup ⊢
    cases i with
    | zero => exact ⟨.inl rfl, rfl⟩
    | succ i => simp [early] at hup
  | @isDown i hstop hrun =>
    rw [hstop] at hreached
    refine ⟨h.running, hreached, h.stage.go hsame (fun hup => ?_) fun _ _ => .inr rfl⟩
    cases hrun.symm.trans (h.running.mpr hup)
  | @joined i hstop hloop =>
    rw [hstop] at hreached
    exact ⟨h.running, hreached, h.stage.go hsame (fun hup => absurd hloop hup) fun _ _ => .inr rfl⟩
  | @delete i hstop =>
    rw [hstop] at hreached
    refine ⟨h.running, ⟨hreached.1, fun k => ?_⟩, ?_⟩
    · dsimp only
      rw [Nat.lt_succ_iff_lt_or_eq, ← hreached.2 k]
      by_cases hk : k = i
      · rw [if_pos hk]
        exact iff_of_true rfl (.inr hk)
      · rw [if_neg hk, or_iff_left hk]
    · cases h.stage with
      | up hloop hup =>
        rw [hstop] at hup
        simp [early] at hup
      | down hloop _ hstopped => exact .down hloop (.inr rfl) hstopped

/-! ### The thread of the event base -/

theorem mem_concat_ne {l : List Once} {x y : Once} (h : x ≠ y) : x ∈ l ++ [y] ↔ x ∈ l := by
  rw [List.mem_append, List.mem_singleton, or_iff_left h]

/-- STEP: the thread starts. -/
theorem BaseInv.loopStart (h : BaseInv b stopped) (hloop : b.loop = .starting) :
    BaseInv { b with loop := .looping } stopped := by
  have hup : b.loop ≠ .ended := by
    rw [hloop]
    exact fun hc => by cases hc
  refine ⟨h.running.trans (iff_of_true hup fun hc => by cases hc), h.reached, ?_⟩
  cases h.stage with
  | up _ hstop called hasked hstopped hgot =>
    exact .up (fun hc => by cases hc) hstop called hasked hstopped hgot
  | down hdown => exact absurd hdown hup

/-- STEP: the loop calls `stopinloop` for a driver, the first time. -/
theorem BaseInv.realExit {i : ℕ} {queue : List Once} (h : BaseInv b stopped)
    (hloop : b.loop = .looping) (hqueue : b.queue = .realExit i :: queue) :
    stopped i = false ∧ BaseInv { b with queue := queue } (Function.update stopped i true) := by
  cases h.stage with
  | down hdown => exact absurd hdown (looping_up hloop)
  | up hup hstop called hasked hstopped hgot =>
    rw [hqueue] at hasked
    have hsplit : asked b.stop = (called ++ [.realExit i]) ++ queue := by
      rw [hasked, List.append_assoc, List.singleton_append]
    refine ⟨Bool.eq_false_iff.mpr fun hst => ?_, h.running, h.reached,
      .up hup hstop _ hsplit (fun k => ?_) ?_⟩
    · have htwice : (asked b.stop).Nodup := asked_nodup _
      rw [hsplit, List.append_assoc, List.nodup_append] at htwice
      exact htwice.2.2 _ ((hstopped i).mp hst) _ List.mem_cons_self rfl
    · by_cases hk : k = i
      · rw [hk, Function.update_self]
        exact iff_of_true rfl (List.mem_append_right _ (List.mem_singleton_self _))
      · rw [Function.update_of_ne hk, mem_concat_ne fun heq => hk (Once.realExit.inj heq)]
        exact hstopped k
    · rw [mem_concat_ne fun heq => by cases heq]
      exact hgot

/-- STEP: the loop is told to leave. -/
theorem BaseInv.loopexit {queue : List Once} (h : BaseInv b stopped) (hloop : b.loop = .looping)
    (hqueue : b.queue = .loopexit :: queue) :
    BaseInv { b with queue := queue, gotterm := true } stopped := by
  cases h.stage with
  | down hdown => exact absurd hdown (looping_up hloop)
  | up hup hstop called hasked hstopped hgot =>
    rw [hqueue] at hasked
    have hsplit : asked b.stop = (called ++ [.loopexit]) ++ queue := by
      rw [hasked, List.append_assoc, List.singleton_append]
    refine ⟨h.running, h.reached, .up hup hstop _ hsplit (fun k => ?_) ?_⟩
    · rw [mem_concat_ne fun heq => by cases heq]
      exact hstopped k
    · exact iff_of_true rfl (List.mem_append_right _ (List.mem_singleton_self _))

/-- STEP: the loop ends, when all that was asked for is called. -/
theorem BaseInv.loopEnd (h : BaseInv b stopped) (hloop : b.loop = .looping)
    (hgot : b.gotterm = true) (hqueue : b.queue = []) :
    BaseInv { b with loop := .ended, running := false } stopped := by
  refine ⟨⟨Bool.noConfusion, fun hne => absurd rfl hne⟩, h.reached, ?_⟩
  cases h.stage with
  | down hdown => cases hloop.symm.trans hdown
  | up _ hstop called hasked hstopped hterm =>
    rw [hqueue, List.append_nil] at hasked
    have hmem := hterm.mp hgot
    rw [← hasked] at hmem
    have hjoin : b.stop = .join 0 := asked_loopexit hmem
    refine .down rfl (.inl hjoin) fun i => (hstopped i).trans ?_
    rw [← hasked, hjoin, asked]
    simp

end Steps

end Pscdrv.StopAll
