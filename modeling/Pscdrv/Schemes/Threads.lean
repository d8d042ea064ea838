import Mathlib.Logic.Function.Basic
import Pscdrv.Schemes.Run

/-! # Threads, recursive locks and calls on a shared state

    A thread runs a program: it takes and gives back locks, and it makes calls that are each one
    step on a state all the threads share; how the program goes on depends on the reply. A lock is
    recursive: the thread that holds it may take it again. A thread that cannot get a lock waits.

        thread t     lock k ─ call c ─ call c' ─ unlock k ─ …
        thread u                lock k ╌╌╌╌ waits ╌╌╌╌╌╌╌╌╌┴─ …

    An `Outline` annotates the programs with assertions: a thread's own steps lead from each
    assertion to the next, and the calls of the others do not disturb it. The assertions then hold
    in every interleaving. A run is `Ordered` when nobody takes one of two locks in the way of a
    thread that takes them the other way round; such a run has no deadlock of the two, and a
    deadlock is for ever. -/

namespace Pscdrv.Threads

open Run

inductive Prog (κ Call : Type) (Reply : Call → Type) where
  | done
  /-- the process ends -/
  | abort (cond : String)
  | lock (k : κ) (next : Prog κ Call Reply)
  | unlock (k : κ) (next : Prog κ Call Reply)
  | call (c : Call) (next : Reply c → Prog κ Call Reply)

section Programs

variable {κ Call : Type} {Reply : Call → Type}

namespace Prog

/-- Run `p` and then `q`. -/
def andThen : Prog κ Call Reply → Prog κ Call Reply → Prog κ Call Reply
  | done, q => q
  | abort c, _ => abort c
  | lock k next, q => lock k (next.andThen q)
  | unlock k next, q => unlock k (next.andThen q)
  | call c next, q => call c fun r => (next r).andThen q

/-- The program can come to a point where it takes lock `k`. -/
def MayLock (k : κ) : Prog κ Call Reply → Prop
  | done => False
  | abort _ => False
  | lock l next => l = k ∨ MayLock k next
  | unlock _ next => MayLock k next
  | call _ next => ∃ r, MayLock k (next r)

/-- Run the program alone to its end. -/
def run {σ : Type} (perform : (c : Call) → σ → σ × Reply c) :
    Prog κ Call Reply → σ → Except String σ
  | done, x => .ok x
  | abort c, _ => .error c
  | lock _ next, x => next.run perform x
  | unlock _ next, x => next.run perform x
  | call c next, x => (next (perform c x).2).run perform (perform c x).1

theorem run_andThen {σ : Type} {perform : (c : Call) → σ → σ × Reply c} (p q : Prog κ Call Reply)
    (x : σ) : (p.andThen q).run perform x = (p.run perform x).bind fun y => q.run perform y := by
  induction p generalizing x with
  | done => rfl
  | abort c => rfl
  | lock k next ih => exact ih x
  | unlock k next ih => exact ih x
  | call c next ih => exact ih _ _

theorem mayLock_andThen {k : κ} {p q : Prog κ Call Reply} (h : MayLock k (p.andThen q)) :
    MayLock k p ∨ MayLock k q := by
  induction p with
  | done => exact .inr h
  | abort c => cases h
  | lock l next ih =>
    rcases h with rfl | h
    · exact .inl (.inl rfl)
    · exact (ih h).imp_left .inr
  | unlock l next ih => exact ih h
  | call c next ih =>
    obtain ⟨r, hr⟩ := h
    exact (ih r hr).imp_left fun h => ⟨r, h⟩

end Prog

variable [DecidableEq κ]

/-- One more of lock `k`. -/
def raise (held : κ → ℕ) (k : κ) : κ → ℕ := Function.update held k (held k + 1)

/-- One less of lock `k`. -/
def lower (held : κ → ℕ) (k : κ) : κ → ℕ := Function.update held k (held k - 1)

@[simp] theorem lower_raise (held : κ → ℕ) (k : κ) : lower (raise held k) k = held := by
  simp [lower, raise]

@[simp] theorem raise_self (held : κ → ℕ) (k : κ) : raise held k k = held k + 1 := by
  simp [raise]

theorem lower_le (held : κ → ℕ) (k l : κ) : lower held k l ≤ held l := by
  rcases eq_or_ne l k with rfl | hl
  · simp [lower]
  · simp [lower, hl]

theorem le_raise (held : κ → ℕ) (k l : κ) : held l ≤ raise held k l := by
  rcases eq_or_ne l k with rfl | hl
  · simp
  · simp [raise, hl]

namespace Prog

/-- From the locks `held` on, the program gives back only what it holds, and ends with `after`. -/
def Brackets : (κ → ℕ) → Prog κ Call Reply → (κ → ℕ) → Prop
  | held, done, after => held = after
  | _, abort _, _ => True
  | held, lock k next, after => Brackets (raise held k) next after
  | held, unlock k next, after => 0 < held k ∧ Brackets (lower held k) next after
  | held, call _ next, after => ∀ r, Brackets held (next r) after

theorem Brackets.andThen {held mid after : κ → ℕ} {p q : Prog κ Call Reply}
    (hp : Brackets held p mid) (hq : Brackets mid q after) : Brackets held (p.andThen q) after := by
  induction p generalizing held with
  | done =>
    cases hp
    exact hq
  | abort c => trivial
  | lock k next ih => exact ih hp
  | unlock k next ih => exact ⟨hp.1, ih hp.2⟩
  | call c next ih => exact fun r => ih r (hp r)

end Prog

end Programs

section Locks

variable {τ κ : Type} [DecidableEq τ]

/-- How often `t` holds lock `k`. -/
def depth (owner : κ → Option (τ × ℕ)) (t : τ) (k : κ) : ℕ :=
  match owner k with
  | some (u, n) => if u = t then n + 1 else 0
  | none => 0

/-- A lock is held by one thread at most. -/
theorem depth_exclusive {owner : κ → Option (τ × ℕ)} {t u : τ} {k : κ} (ht : 0 < depth owner t k)
    (hu : 0 < depth owner u k) : t = u := by
  unfold depth at ht hu
  cases hk : owner k with
  | none => simp [hk] at ht
  | some p =>
    rw [hk] at ht hu
    dsimp only at ht hu
    split at ht
    · split at hu
      · subst_vars
        rfl
      · cases hu
    · cases ht

variable [DecidableEq κ]

/-- `t` takes lock `k`, if no other thread holds it. -/
def acquire (owner : κ → Option (τ × ℕ)) (t : τ) (k : κ) : Option (κ → Option (τ × ℕ)) :=
  match owner k with
  | none => some (Function.update owner k (some (t, 0)))
  | some (u, n) => if u = t then some (Function.update owner k (some (t, n + 1))) else none

/-- `t` gives lock `k` back once. -/
def release (owner : κ → Option (τ × ℕ)) (t : τ) (k : κ) : κ → Option (τ × ℕ) :=
  match owner k with
  | some (u, n) =>
    if u = t then Function.update owner k (if n = 0 then none else some (t, n - 1)) else owner
  | none => owner

/-- The owner of one lock changes. -/
theorem depth_update (owner : κ → Option (τ × ℕ)) (k : κ) (p : Option (τ × ℕ)) (t : τ) :
    depth (Function.update owner k p) t =
      Function.update (depth owner t) k (depth (fun _ : κ => p) t k) := by
  funext l
  by_cases hl : l = k
  · subst hl
    simp [depth]
  · simp [depth, hl]

/-- A lock that neither the old nor the new owner of is `u`. -/
theorem depth_update_other {owner : κ → Option (τ × ℕ)} {k : κ} {p : Option (τ × ℕ)} {u : τ}
    (hold : depth owner u k = 0) (hnew : depth (fun _ : κ => p) u k = 0) :
    depth (Function.update owner k p) u = depth owner u := by
  rw [depth_update, hnew, ← hold, Function.update_eq_self]

theorem acquire_spec {owner o : κ → Option (τ × ℕ)} {t : τ} {k : κ}
    (h : acquire owner t k = some o) :
    depth o t = raise (depth owner t) k ∧ ∀ u, u ≠ t → depth o u = depth owner u := by
  unfold acquire at h
  cases hk : owner k with
  | none =>
    have hzero : ∀ u, depth owner u k = 0 := fun u => by simp [depth, hk]
    rw [hk] at h
    cases h
    refine ⟨?_, fun u hu => depth_update_other (hzero u) (by simp [depth, hu.symm])⟩
    rw [depth_update, raise, hzero]
    simp [depth]
  | some p =>
    obtain ⟨v, n⟩ := p
    rw [hk] at h
    dsimp only at h
    split at h
    · subst v
      cases h
      have hown : depth owner t k = n + 1 := by simp [depth, hk]
      have hzero : ∀ u, u ≠ t → depth owner u k = 0 := fun u hu => by simp [depth, hk, hu.symm]
      refine ⟨?_, fun u hu => depth_update_other (hzero u hu) (by simp [depth, hu.symm])⟩
      rw [depth_update, raise, hown]
      simp [depth]
    · cases h

/-- Only the owner gives a lock back. -/
theorem release_spec (owner : κ → Option (τ × ℕ)) (t : τ) (k : κ) :
    depth (release owner t k) t = lower (depth owner t) k ∧
      ∀ u, u ≠ t → depth (release owner t k) u = depth owner u := by
  by_cases hown : ∃ n, owner k = some (t, n)
  · obtain ⟨n, hk⟩ := hown
    have hrelease : release owner t k =
        Function.update owner k (if n = 0 then none else some (t, n - 1)) := by
      rw [release, hk]
      exact if_pos rfl
    rw [hrelease]
    constructor
    · have hdepth : depth owner t k = n + 1 := by simp [depth, hk]
      rw [depth_update, lower, hdepth]
      cases n <;> simp [depth]
    · intro u hu
      refine depth_update_other ?_ ?_
      · simp [depth, hk, hu.symm]
      · cases n <;> simp [depth, hu.symm]
  · have hnot : ∀ v n, owner k = some (v, n) → v ≠ t := by
      rintro v n hk rfl
      exact hown ⟨n, hk⟩
    have hrelease : release owner t k = owner := by
      unfold release
      split
      · rename_i v n hk
        exact if_neg (hnot v n hk)
      · rfl
    have hzero : depth owner t k = 0 := by
      unfold depth
      split
      · rename_i v n hk
        exact if_neg (hnot v n hk)
      · rfl
    rw [hrelease]
    refine ⟨?_, fun _ _ => rfl⟩
    have hsame : depth owner t k - 1 = depth owner t k := by rw [hzero]
    rw [lower, hsame, Function.update_eq_self]

theorem release_le (owner : κ → Option (τ × ℕ)) (t u : τ) (k l : κ) :
    depth (release owner t k) u l ≤ depth owner u l := by
  obtain ⟨ht, hother⟩ := release_spec owner t k
  rcases eq_or_ne u t with rfl | hu
  · rw [ht]
    exact lower_le _ k l
  · exact Nat.le_of_eq (congrFun (hother u hu) l)

theorem acquire_busy {owner : κ → Option (τ × ℕ)} {t u : τ} {k : κ} (hut : u ≠ t)
    (h : 0 < depth owner u k) : acquire owner t k = none := by
  unfold acquire
  cases hk : owner k with
  | none => simp [depth, hk] at h
  | some p =>
    obtain ⟨v, n⟩ := p
    have hvu : v = u := by
      by_contra hne
      simp [depth, hk, hne] at h
    exact if_neg (hvu ▸ hut)

end Locks

/-- The locks with their owners (and how often the owner has taken each once more), the program each
    thread still has to run, and the shared state. -/
structure Sys (τ κ Call : Type) (Reply : Call → Type) (σ : Type) where
  owner : κ → Option (τ × ℕ)
  code : τ → Prog κ Call Reply
  shared : σ
  failed : Option String

/-- What happens next: an idle thread starts a job, or a thread takes its next instruction. -/
inductive Act (τ ι : Type) where
  | start (t : τ) (i : ι)
  | turn (t : τ)

section Steps

variable {τ κ Call ι : Type} {Reply : Call → Type} {σ : Type}

/-- No lock is taken and no thread runs. -/
def Sys.init (x : σ) : Sys τ κ Call Reply σ := ⟨fun _ => none, fun _ => .done, x, none⟩

variable [DecidableEq τ] (perform : τ → (c : Call) → σ → σ × Reply c)
  (prog : τ → ι → Option (Prog κ Call Reply))

/-- An idle thread starts the job `i`, if it is one of its jobs. -/
def start (s : Sys τ κ Call Reply σ) (t : τ) (i : ι) : Option (Sys τ κ Call Reply σ) :=
  if s.failed.isSome then none
  else match s.code t with
  | .done => (prog t i).map fun p => { s with code := Function.update s.code t p }
  | _ => none

theorem start_cases {prog : τ → ι → Option (Prog κ Call Reply)} {s s' : Sys τ κ Call Reply σ}
    {t : τ} {i : ι} (h : start prog s t i = some s') : s.code t = .done ∧
    ∃ p, prog t i = some p ∧ s' = { s with code := Function.update s.code t p } := by
  unfold start at h
  split at h
  · cases h
  split at h
  · rename_i hcode
    obtain ⟨p, hp, rfl⟩ := Option.map_eq_some_iff.mp h
    exact ⟨hcode, p, hp, rfl⟩
  · cases h

variable [DecidableEq κ]

/-- `t` takes the next instruction of its program; `none` when there is none, or when it waits. -/
def turn (s : Sys τ κ Call Reply σ) (t : τ) : Option (Sys τ κ Call Reply σ) :=
  if s.failed.isSome then none
  else match s.code t with
  | .done => none
  | .abort c => some { s with failed := some c }
  | .lock k next => (acquire s.owner t k).map fun o =>
      { s with owner := o, code := Function.update s.code t next }
  | .unlock k next => some { s with
      owner := release s.owner t k, code := Function.update s.code t next }
  | .call c next =>
    let r := perform t c s.shared
    some { s with shared := r.1, code := Function.update s.code t (next r.2) }

def step (s : Sys τ κ Call Reply σ) : Act τ ι → Option (Sys τ κ Call Reply σ)
  | .start t i => start prog s t i
  | .turn t => turn perform s t

variable {perform prog} {s s' : Sys τ κ Call Reply σ} {t : τ}

/-- What a turn of `t` can do. -/
inductive Turn (perform : τ → (c : Call) → σ → σ × Reply c) (s : Sys τ κ Call Reply σ) (t : τ) :
    Sys τ κ Call Reply σ → Prop
  | abort (c : String) (code : s.code t = .abort c) : Turn perform s t { s with failed := some c }
  | lock (k : κ) (next : Prog κ Call Reply) (o : κ → Option (τ × ℕ))
      (code : s.code t = .lock k next) (free : acquire s.owner t k = some o) :
      Turn perform s t { s with owner := o, code := Function.update s.code t next }
  | unlock (k : κ) (next : Prog κ Call Reply) (code : s.code t = .unlock k next) :
      Turn perform s t { s with
        owner := release s.owner t k, code := Function.update s.code t next }
  | call (c : Call) (next : Reply c → Prog κ Call Reply) (code : s.code t = .call c next) :
      Turn perform s t { s with
        shared := (perform t c s.shared).1
        code := Function.update s.code t (next (perform t c s.shared).2) }

/-- STEP: these are all the turns. -/
theorem turn_cases (h : turn perform s t = some s') : Turn perform s t s' := by
  unfold turn at h
  split at h
  · cases h
  split at h
  · cases h
  · rename_i c hcode
    cases h
    exact .abort c hcode
  · rename_i k next hcode
    obtain ⟨o, ho, rfl⟩ := Option.map_eq_some_iff.mp h
    exact .lock k next o hcode ho
  · rename_i k next hcode
    cases h
    exact .unlock k next hcode
  · rename_i c next hcode
    cases h
    exact .call c next hcode

/-! ### Proof outlines -/

/-- Assertions `A` for a thread, the locks it holds and what it has still to run, when every call
    meets `ok`. -/
structure Outline (perform : τ → (c : Call) → σ → σ × Reply c)
    (prog : τ → ι → Option (Prog κ Call Reply)) (ok : τ → Call → σ → Prop)
    (A : τ → (κ → ℕ) → Prog κ Call Reply → σ → Prop) : Prop where
  start : ∀ {t i p held x}, prog t i = some p → A t held .done x → A t held p x
  lock : ∀ {t held k next x}, A t held (.lock k next) x → A t (raise held k) next x
  unlock : ∀ {t held k next x}, A t held (.unlock k next) x →
    0 < held k ∧ A t (lower held k) next x
  call : ∀ {t held c next x}, ok t c x → A t held (.call c next) x →
    A t held (next (perform t c x).2) (perform t c x).1
  /-- the calls of one thread do not disturb the others -/
  free : ∀ {t u held held' c next q x}, t ≠ u → (∀ k, held k = 0 ∨ held' k = 0) → ok t c x →
    A t held (.call c next) x → A u held' q x → A u held' q (perform t c x).1

/-- Every thread is where an assertion of the outline holds. -/
def Annotated (A : τ → (κ → ℕ) → Prog κ Call Reply → σ → Prop) (s : Sys τ κ Call Reply σ) : Prop :=
  ∀ t, A t (depth s.owner t) (s.code t) s.shared

/-- The condition on a step: the call that is made meets `ok`. -/
def Meets (ok : τ → Call → σ → Prop) (s : Sys τ κ Call Reply σ) : Act τ ι → Prop
  | .turn t => ∀ c next, s.code t = .call c next → ok t c s.shared
  | .start _ _ => True

instance decidableMeets {ok : τ → Call → σ → Prop} [∀ t c x, Decidable (ok t c x)] :
    ∀ a : Act τ ι, Decidable (Meets ok s a)
  | .start _ _ => .isTrue trivial
  | .turn t => match hcode : s.code t with
    | .call c next => decidable_of_iff (ok t c s.shared)
        ⟨fun h c' next' hc => by
          cases hcode.symm.trans hc
          exact h, fun h => h c next hcode⟩
    | .done | .abort _ | .lock _ _ | .unlock _ _ =>
      .isTrue fun c' next' hc => nomatch hcode.symm.trans hc

/-- STEP: in an outline every thread goes from assertion to assertion. -/
theorem Outline.step {ok : τ → Call → σ → Prop} {A : τ → (κ → ℕ) → Prog κ Call Reply → σ → Prop}
    (h : Outline perform prog ok A) {a : Act τ ι} (hA : Annotated A s) (hok : Meets ok s a)
    (hs : step perform prog s a = some s') : Annotated A s' := by
  intro u
  cases a with
  | start t i =>
    obtain ⟨hcode, p, hp, rfl⟩ := start_cases hs
    by_cases hu : u = t
    · subst hu
      have hdone := hA u
      rw [hcode] at hdone
      simpa using h.start hp hdone
    · simpa [hu] using hA u
  | turn t =>
    have hown := hA t
    cases turn_cases hs with
    | abort c code => exact hA u
    | lock k next o code free =>
      obtain ⟨ht, hother⟩ := acquire_spec free
      rw [code] at hown
      by_cases hu : u = t
      · subst hu
        simpa [ht] using h.lock hown
      · simpa [hother u hu, hu] using hA u
    | unlock k next code =>
      rw [code] at hown
      obtain ⟨hheld, hnext⟩ := h.unlock hown
      obtain ⟨ht, hother⟩ := release_spec s.owner t k
      by_cases hu : u = t
      · subst hu
        simpa [ht] using hnext
      · simpa [hother u hu, hu] using hA u
    | call c next code =>
      have hc := hok c next code
      rw [code] at hown
      by_cases hu : u = t
      · subst hu
        simpa using h.call hc hown
      · have hexcl : ∀ k, depth s.owner t k = 0 ∨ depth s.owner u k = 0 := by
          intro k
          by_contra hboth
          rw [not_or] at hboth
          exact hu (depth_exclusive (Nat.pos_of_ne_zero hboth.2) (Nat.pos_of_ne_zero hboth.1))
        simpa [hu] using h.free (Ne.symm hu) hexcl hc hown (hA u)

/-! ### Waiting -/

/-- A thread gives back what it holds before its program ends. -/
def GivesBack (_t : τ) (held : κ → ℕ) (p : Prog κ Call Reply) (_x : σ) : Prop :=
  p.Brackets held fun _ => 0

omit [DecidableEq τ] in
/-- Between two jobs a thread holds nothing, if every job gives back what it takes. -/
theorem givesBack_outline (h : ∀ t i p held, prog t i = some p → p.Brackets held held) :
    Outline perform prog (fun _ _ _ => True) GivesBack where
  start := by
    intro t i p held x hp hdone
    cases hdone
    exact h t i p _ hp
  lock h := h
  unlock h := h
  call _ h := h _
  free _ _ _ _ h := h

/-- `t` waits for lock `k`, which another thread holds. -/
def Waits (s : Sys τ κ Call Reply σ) (t : τ) (k : κ) : Prop :=
  (∃ next, s.code t = .lock k next) ∧ ∃ u, u ≠ t ∧ 0 < depth s.owner u k

/-- `e` holds lock `m` and waits for a lock whose holder waits for `m`. -/
def Deadlocked (e : τ) (m : κ) (s : Sys τ κ Call Reply σ) : Prop :=
  0 < depth s.owner e m ∧ ∃ k t, Waits s e k ∧ 0 < depth s.owner t k ∧ Waits s t m

/-- A thread that still has to take `m` does not take a lock that `e` may still take while it holds
    `m`, and `e` does not take `m` while such a thread holds one. -/
def Ordered (e : τ) (m : κ) (s : Sys τ κ Call Reply σ) : Act τ ι → Prop
  | .start _ _ => True
  | .turn t => ∀ k next, s.code t = .lock k next →
    if t = e then k = m → ∀ u l, u ≠ e → 0 < depth s.owner u l → next.MayLock l →
      ¬(s.code u).MayLock m
    else 0 < depth s.owner e m → (s.code e).MayLock k → ¬next.MayLock m

/-- While `e` holds `m`, nobody holds a lock that `e` may still take and still has to take `m`. -/
def Unlocked (e : τ) (m : κ) (s : Sys τ κ Call Reply σ) : Prop :=
  0 < depth s.owner e m → ∀ t k, t ≠ e → 0 < depth s.owner t k → (s.code e).MayLock k →
    ¬(s.code t).MayLock m

omit [DecidableEq κ] in
theorem Unlocked.not_deadlocked {e : τ} {m : κ} (h : Unlocked e m s) : ¬Deadlocked e m s := by
  rintro ⟨hheld, k, t, ⟨⟨next, hcode⟩, u, hue, huk⟩, htk, ⟨next', hcode'⟩, -⟩
  obtain rfl : u = t := depth_exclusive huk htk
  refine h hheld u k hue htk ?_ ?_
  · rw [hcode]
    exact .inl rfl
  · rw [hcode']
    exact .inl rfl

/-- What a thread may still lock after a turn, it could before. -/
theorem Turn.mayLock (h : Turn perform s t s') {u : τ} {k : κ} (hk : (s'.code u).MayLock k) :
    (s.code u).MayLock k := by
  have hother : ∀ {p}, (Function.update s.code t p u).MayLock k →
      (p.MayLock k → (s.code t).MayLock k) → (s.code u).MayLock k := by
    intro p hp hshrink
    by_cases hu : u = t
    · subst hu
      rw [Function.update_self] at hp
      exact hshrink hp
    · rwa [Function.update_of_ne hu] at hp
  cases h with
  | abort c code => exact hk
  | lock l next o code free =>
    exact hother hk fun hnext => code ▸ .inr hnext
  | unlock l next code => exact hother hk fun hnext => code ▸ hnext
  | call c next code => exact hother hk fun hnext => code ▸ ⟨_, hnext⟩

omit [DecidableEq κ] in
/-- Less is held, and less may still be locked. -/
theorem Unlocked.shrink {e : τ} {m : κ} (h : Unlocked e m s)
    (hheld : ∀ u k, 0 < depth s'.owner u k → 0 < depth s.owner u k)
    (hmay : ∀ u k, (s'.code u).MayLock k → (s.code u).MayLock k) : Unlocked e m s' :=
  fun he t k hte htk hek htm =>
    h (hheld e m he) t k hte (hheld t k htk) (hmay e k hek) (hmay t m htm)

/-- STEP: a lock is taken in order. -/
theorem Unlocked.lock {e : τ} {m k : κ} {next : Prog κ Call Reply} {o : κ → Option (τ × ℕ)}
    (h : Unlocked e m s) (hcode : s.code t = .lock k next) (hfree : acquire s.owner t k = some o)
    (hok : Ordered e m s (.turn t : Act τ ι))
    (hmay : ∀ u l, ((Function.update s.code t next) u).MayLock l → (s.code u).MayLock l) :
    Unlocked e m { s with owner := o, code := Function.update s.code t next } := by
  obtain ⟨ht, hother⟩ := acquire_spec hfree
  have hothers : ∀ l, l ≠ k → 0 < depth o t l → 0 < depth s.owner t l := by
    intro l hl hheld
    rwa [ht, raise, Function.update_of_ne hl] at hheld
  intro hem u l hue hul hel hum
  change 0 < depth o e m at hem
  change 0 < depth o u l at hul
  have hafter := hok k next hcode
  by_cases hte : t = e
  · subst hte
    rw [if_pos rfl] at hafter
    rw [hother u hue] at hul
    by_cases hkm : k = m
    · refine hafter hkm u l hue hul ?_ (hmay u m hum)
      simpa using hel
    · exact h (hothers m (Ne.symm hkm) hem) u l hue hul (hmay t l hel) (hmay u m hum)
  · rw [if_neg hte] at hafter
    rw [hother e (Ne.symm hte)] at hem
    by_cases hut : u = t
    · subst hut
      by_cases hlk : l = k
      · subst hlk
        refine hafter hem (hmay e l hel) ?_
        simpa using hum
      · exact h hem u l hue (hothers l hlk hul) (hmay e l hel) (hmay u m hum)
    · rw [hother u hut] at hul
      exact h hem u l hue hul (hmay e l hel) (hmay u m hum)

/-- STEP: in a step that keeps the order. -/
theorem unlocked_step {e : τ} {m : κ} {a : Act τ ι} (h : Unlocked e m s)
    (hheld : Annotated GivesBack s) (hok : Ordered e m s a)
    (hs : step perform prog s a = some s') : Unlocked e m s' := by
  cases a with
  | start t i =>
    obtain ⟨hidle, p, -, rfl⟩ := start_cases hs
    have hnone : depth s.owner t = fun _ => 0 := by
      have hdone := hheld t
      rwa [hidle] at hdone
    intro hem u k hue huk hek hum
    change 0 < depth s.owner e m at hem
    change 0 < depth s.owner u k at huk
    have hte : e ≠ t := by
      rintro rfl
      simp [hnone] at hem
    have hut : u ≠ t := by
      rintro rfl
      simp [hnone] at huk
    refine h hem u k hue huk ?_ ?_
    · simpa [hte] using hek
    · simpa [hut] using hum
  | turn t =>
    have hturn := turn_cases hs
    have hmay : ∀ u k, (s'.code u).MayLock k → (s.code u).MayLock k := fun u k => hturn.mayLock
    cases hturn with
    | abort c code => exact h.shrink (fun _ _ hu => hu) hmay
    | lock k next o code free => exact h.lock code free hok hmay
    | unlock k next code =>
      exact h.shrink (fun u l hu => Nat.lt_of_lt_of_le hu (release_le s.owner t u k l)) hmay
    | call c next code => exact h.shrink (fun _ _ hu => hu) hmay

/-- RUN: in a run that keeps the order there is no deadlock. -/
theorem always_not_deadlocked (h : ∀ t i p held, prog t i = some p → p.Brackets held held) {e : τ}
    {m : κ} {x : σ} {as : List (Act τ ι)}
    (hok : Along (step perform prog) (Ordered e m) (Sys.init x) as) :
    Always (step perform prog) (fun s => ¬Deadlocked e m s) (Sys.init x) as := by
  refine always_of_along (I := fun s => Unlocked e m s ∧ Annotated GivesBack s) (C := Ordered e m)
    ?_ (fun s hI => hI.1.not_deadlocked) ?_ hok
  · intro s a s' hI hC hs
    refine ⟨unlocked_step hI.1 hI.2 hC hs, (givesBack_outline h).step hI.2 ?_ hs⟩
    cases a with
    | start t i => trivial
    | turn t => exact fun _ _ _ => trivial
  · exact ⟨fun he => absurd he (Nat.lt_irrefl 0), fun t => rfl⟩

/-- A thread that waits has no turn. -/
theorem Waits.stuck {u : τ} {k : κ} (h : Waits s u k) : turn perform s u = none := by
  obtain ⟨⟨next, hcode⟩, v, hvu, hv⟩ := h
  unfold turn
  split
  · rfl
  · rw [hcode]
    dsimp only
    rw [acquire_busy hvu hv, Option.map_none]

/-- The thread that acts. -/
def Act.thread : Act τ ι → τ
  | .start t _ => t
  | .turn t => t

/-- STEP: what the others do next, and what they hold, stays. -/
theorem step_frame {a : Act τ ι} (hs : step perform prog s a = some s') {u : τ}
    (hu : u ≠ a.thread) : s'.code u = s.code u ∧ depth s'.owner u = depth s.owner u := by
  cases a with
  | start t i =>
    obtain ⟨-, p, -, rfl⟩ := start_cases hs
    exact ⟨Function.update_of_ne hu _ _, rfl⟩
  | turn t =>
    cases turn_cases hs with
    | abort c code => exact ⟨rfl, rfl⟩
    | lock k next o code free =>
      exact ⟨Function.update_of_ne hu _ _, (acquire_spec free).2 u hu⟩
    | unlock k next code => exact ⟨Function.update_of_ne hu _ _, (release_spec s.owner t k).2 u hu⟩
    | call c next code => exact ⟨Function.update_of_ne hu _ _, rfl⟩

theorem Waits.other {u : τ} {k : κ} {a : Act τ ι} (h : Waits s u k)
    (hs : step perform prog s a = some s') : u ≠ a.thread := by
  rintro rfl
  cases a with
  | start t i =>
    obtain ⟨hidle, -⟩ := start_cases hs
    obtain ⟨⟨next, hcode⟩, -⟩ := h
    cases hidle.symm.trans hcode
  | turn t =>
    have hnone : turn perform s t = none := h.stuck
    cases hnone.symm.trans hs

/-- RUN: a deadlock is for ever. -/
theorem deadlock_stays {e : τ} {m : κ} (h : Deadlocked e m s) (as : List (Act τ ι)) :
    Always (step perform prog) (Deadlocked e m) s as := by
  refine always_of_step ?_ (fun s hd => hd) h
  rintro s a s' ⟨hem, k, t, he, htk, ht⟩ hs
  obtain ⟨hecode, hedepth⟩ := step_frame hs (he.other hs)
  obtain ⟨htcode, htdepth⟩ := step_frame hs (ht.other hs)
  obtain ⟨⟨next, hlock⟩, u, hue, huk⟩ := he
  obtain ⟨⟨next', hlock'⟩, v, hvt, hvm⟩ := ht
  obtain rfl : u = t := depth_exclusive huk htk
  obtain rfl : v = e := depth_exclusive hvm hem
  rw [← hedepth] at hem
  rw [← htdepth] at htk
  exact ⟨hem, k, u, ⟨⟨next, hecode.trans hlock⟩, u, hue, htk⟩, htk,
    ⟨⟨next', htcode.trans hlock'⟩, v, hvt, hem⟩⟩

/-- `u` holds lock `k` or may still take it. -/
def Touches (s : Sys τ κ Call Reply σ) (u : τ) (k : κ) : Prop :=
  0 < depth s.owner u k ∨ (s.code u).MayLock k

/-- STEP: only a new job touches a new lock. -/
theorem Touches.back {a : Act τ ι} (hs : step perform prog s a = some s') {u : τ} {k : κ}
    (h : Touches s' u k) :
    Touches s u k ∨ ∃ i p, a = .start u i ∧ prog u i = some p ∧ p.MayLock k := by
  cases a with
  | start t i =>
    obtain ⟨-, p, hp, rfl⟩ := start_cases hs
    rcases h with hheld | hmay
    · exact .inl (.inl hheld)
    · change (Function.update s.code t p u).MayLock k at hmay
      rcases eq_or_ne u t with rfl | hu
      · rw [Function.update_self] at hmay
        exact .inr ⟨i, p, rfl, hp, hmay⟩
      · rw [Function.update_of_ne hu] at hmay
        exact .inl (.inr hmay)
  | turn t =>
    have hturn := turn_cases hs
    rcases h with hheld | hmay
    · left
      cases hturn with
      | abort c code => exact .inl hheld
      | lock l next o code free =>
        obtain ⟨ht, hother⟩ := acquire_spec free
        change 0 < depth o u k at hheld
        rcases eq_or_ne u t with rfl | hu
        · rcases eq_or_ne k l with rfl | hk
          · rw [Touches, code]
            exact .inr (.inl rfl)
          · rw [ht, raise, Function.update_of_ne hk] at hheld
            exact .inl hheld
        · rw [hother u hu] at hheld
          exact .inl hheld
      | unlock l next code =>
        exact .inl (Nat.lt_of_lt_of_le hheld (release_le s.owner t u l k))
      | call c next code => exact .inl hheld
    · exact .inl (.inr (hturn.mayLock hmay))

end Steps

end Pscdrv.Threads
