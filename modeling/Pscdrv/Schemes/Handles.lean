import Mathlib.Data.List.Basic
import Mathlib.Data.List.Infix

/-! # Handles that are acquired, used and released

    A log notes who does what with a handle (a file descriptor, a block of memory, a lock). Handles
    are reused: after its release a handle may be acquired again, by someone else. In a proper log
    an owner acquires one handle, uses it while it holds it, and is done when it has released it;
    and nobody acquires a handle that is held.

        n:  acquire h ── use h ── use h ── release h
        m:                                            acquire h ── use h ── …

    So every handle is released once by its owner, who does nothing after that, in particular
    nothing with a handle that somebody else holds by then. -/

namespace Pscdrv.Handles

variable {N H : Type*}

/-- What is done with a handle. -/
inductive Act (H : Type*) where
  | acquire (h : H)
  | use (h : H)
  | release (h : H)
  deriving DecidableEq

/-- The handle it is done with. -/
def Act.handle : Act H → H
  | .acquire h | .use h | .release h => h

def Act.isRelease : Act H → Bool
  | .release _ => true
  | _ => false

/-- What an owner holds after one of its acts. -/
def Act.holds : Act H → Option H
  | .acquire h | .use h => some h
  | .release _ => none

/-- Acquired, and not released since, as seen by whoever hands the handles out. -/
def isOpen [DecidableEq H] (h : H) (acts : List (Act H)) : Bool :=
  acts.foldl (fun o a => if a.handle = h then a.holds.isSome else o) false

variable [DecidableEq N]

/-- What `n` holds after the log: the newest of its acts tells. -/
def held (n : N) (log : List (N × Act H)) : Option H :=
  log.foldl (fun o e => if e.1 = n then e.2.holds else o) none

/-- How often `n` has released a handle. -/
def releases (n : N) (log : List (N × Act H)) : ℕ :=
  log.countP fun e => e.1 = n && e.2.isRelease

/-- What may follow on `log`: acts of an owner on the handle it holds, and as its first act the
    acquisition of a handle that nobody holds. -/
def Allowed (log : List (N × Act H)) (e : N × Act H) : Prop :=
  match e.2 with
  | .acquire h => (∀ e' ∈ log, e'.1 ≠ e.1) ∧ ∀ m, held m log ≠ some h
  | .use h | .release h => held e.1 log = some h

/-- Every act is allowed where it stands. -/
def Proper (log : List (N × Act H)) : Prop :=
  ∀ pre e post, log = pre ++ e :: post → Allowed pre e

@[simp] theorem held_nil (n : N) : held n ([] : List (N × Act H)) = none := rfl

@[simp] theorem held_concat (n m : N) (log : List (N × Act H)) (a : Act H) :
    held n (log ++ [(m, a)]) = if m = n then a.holds else held n log := by
  rw [held, List.foldl_append]
  rfl

@[simp] theorem isOpen_concat [DecidableEq H] (h : H) (acts : List (Act H)) (a : Act H) :
    isOpen h (acts ++ [a]) = if a.handle = h then a.holds.isSome else isOpen h acts := by
  rw [isOpen, List.foldl_append]
  rfl

@[simp] theorem releases_concat (n m : N) (log : List (N × Act H)) (a : Act H) :
    releases n (log ++ [(m, a)]) =
      releases n log + if m = n ∧ a.isRelease = true then 1 else 0 := by
  simp [releases, List.countP_append, List.countP_cons]

/-- Who has not acted yet holds nothing. -/
theorem held_of_not_mem {n : N} {log : List (N × Act H)} (h : ∀ e ∈ log, e.1 ≠ n) :
    held n log = none ∧ releases n log = 0 := by
  induction log using List.reverseRecOn with
  | nil => exact ⟨rfl, rfl⟩
  | append_singleton log e ih =>
    obtain ⟨m, a⟩ := e
    obtain ⟨hlog, he⟩ := List.forall_mem_append.mp h
    have hm : m ≠ n := he (m, a) (List.mem_singleton_self _)
    simp [hm, ih hlog]

theorem mem_of_held {n : N} {h : H} {log : List (N × Act H)} (hn : held n log = some h) :
    ∃ e ∈ log, e.1 = n := by
  by_contra hnone
  have hempty : held n log = none :=
    (held_of_not_mem fun e he heq => hnone ⟨e, he, heq⟩).1
  rw [hempty] at hn
  cases hn

/-- Acts of others do not change what `n` holds. -/
theorem held_append_of_others {n : N} {pre post : List (N × Act H)} (h : ∀ e ∈ post, e.1 ≠ n) :
    held n (pre ++ post) = held n pre := by
  induction post using List.reverseRecOn with
  | nil => rw [List.append_nil]
  | append_singleton post e ih =>
    obtain ⟨hpost, he⟩ := List.forall_mem_append.mp h
    have hne : e.1 ≠ n := he e (List.mem_singleton_self _)
    rw [← List.append_assoc, held_concat n e.1 _ e.2, if_neg hne, ih hpost]

theorem proper_nil : Proper ([] : List (N × Act H)) := by
  intro pre e post h
  simp at h

theorem proper_concat {log : List (N × Act H)} {e : N × Act H} :
    Proper (log ++ [e]) ↔ Proper log ∧ Allowed log e := by
  constructor
  · intro h
    refine ⟨fun pre d post heq => h pre d (post ++ [e]) ?_, h log e [] rfl⟩
    rw [heq, List.append_assoc, List.cons_append]
  · rintro ⟨hlog, he⟩ pre d post heq
    rcases List.eq_nil_or_concat post with rfl | ⟨post, d', rfl⟩
    · obtain ⟨rfl, hd⟩ := List.append_inj' heq rfl
      cases hd
      exact he
    · rw [List.concat_eq_append, ← List.cons_append, ← List.append_assoc] at heq
      obtain ⟨rfl, -⟩ := List.append_inj' heq rfl
      exact hlog pre d post rfl

namespace Proper

variable {log pre post : List (N × Act H)}

theorem of_append (h : Proper (pre ++ post)) : Proper pre := by
  intro pre' e post' heq
  refine h pre' e (post' ++ post) ?_
  rw [heq, List.append_assoc, List.cons_append]

/-- An owner has released its handle once if it holds none any more, and otherwise never. -/
theorem releases_eq (h : Proper log) {n : N} (hn : ∃ e ∈ log, e.1 = n) :
    releases n log = if held n log = none then 1 else 0 := by
  induction log using List.reverseRecOn with
  | nil => simp at hn
  | append_singleton log e ih =>
    obtain ⟨hlog, he⟩ := proper_concat.mp h
    obtain ⟨m, a⟩ := e
    by_cases hm : m = n
    · subst hm
      cases a with
      | acquire k => simp [Act.holds, Act.isRelease, (held_of_not_mem he.1).2]
      | use k | release k =>
        have hheld : held m log = some k := he
        simp [Act.holds, Act.isRelease, ih hlog (mem_of_held hheld), hheld]
    · have hl : ∃ e ∈ log, e.1 = n := by simpa [hm] using hn
      simp [hm, ih hlog hl]

/-- The handle that an owner holds is the only one it has acted on. -/
theorem handle_eq (h : Proper log) {n : N} {k : H} (hn : held n log = some k) {e : N × Act H}
    (he : e ∈ log) (hen : e.1 = n) : e.2.handle = k := by
  induction log using List.reverseRecOn with
  | nil => cases he
  | append_singleton log d ih =>
    obtain ⟨hlog, hd⟩ := proper_concat.mp h
    obtain ⟨m, a⟩ := d
    rw [held_concat] at hn
    rcases List.mem_append.mp he with hmem | hmem
    · by_cases hm : m = n
      · subst hm
        rw [if_pos rfl] at hn
        cases a with
        | acquire j => exact absurd hen (hd.1 e hmem)
        | use j =>
          cases hn
          exact ih hlog hd hmem
        | release j => cases hn
      · rw [if_neg hm] at hn
        exact ih hlog hn hmem
    · rw [List.mem_singleton.mp hmem] at hen ⊢
      rw [if_pos hen] at hn
      cases a with
      | acquire j | use j =>
        cases hn
        rfl
      | release j => cases hn

/-- An owner that holds nothing any more is done. -/
theorem done (h : Proper (pre ++ post)) {n : N} (hn : ∃ e ∈ pre, e.1 = n)
    (hnone : held n pre = none) : ∀ e ∈ post, e.1 ≠ n := by
  induction post using List.reverseRecOn with
  | nil => simp
  | append_singleton post d ih =>
    rw [← List.append_assoc] at h
    obtain ⟨hlog, hd⟩ := proper_concat.mp h
    have hpost := ih hlog
    have hheld : held n (pre ++ post) = none := by rw [held_append_of_others hpost, hnone]
    rw [List.forall_mem_append]
    refine ⟨hpost, fun e he => ?_⟩
    rw [List.mem_singleton.mp he]
    rintro rfl
    obtain ⟨m, a⟩ := d
    cases a with
    | acquire j =>
      obtain ⟨e, he, heq⟩ := hn
      exact hd.1 e (List.mem_append_left _ he) heq
    | use j | release j =>
      have hsome : held m (pre ++ post) = some j := hd
      rw [hheld] at hsome
      cases hsome

/-- After its release of the handle an owner does nothing. -/
theorem release_last {n : N} {k : H} (h : Proper (pre ++ (n, .release k) :: post)) :
    ∀ e ∈ post, e.1 ≠ n := by
  rw [← List.singleton_append, ← List.append_assoc] at h
  refine h.done ⟨(n, .release k), by simp, rfl⟩ ?_
  rw [held_concat, if_pos rfl]
  rfl

/-- When a handle is acquired again, those that had it before are done. -/
theorem reacquired {m : N} {k : H} (h : Proper (pre ++ (m, .acquire k) :: post))
    {e : N × Act H} (he : e ∈ pre) (hk : e.2.handle = k) : ∀ d ∈ post, d.1 ≠ e.1 := by
  obtain ⟨hfresh, hfree⟩ : Allowed pre (m, .acquire k) := h pre _ post rfl
  have hnone : held e.1 pre = none := by
    cases hheld : held e.1 pre with
    | none => rfl
    | some j =>
      have hj : e.2.handle = j := h.of_append.handle_eq hheld he rfl
      rw [hk] at hj
      exact absurd (hj ▸ hheld) (hfree e.1)
  intro d hd
  exact h.done ⟨e, he, rfl⟩ hnone d (List.mem_cons_of_mem _ hd)

/-- Nobody holds what somebody else holds. -/
theorem held_inj (h : Proper log) {n m : N} {k : H} (hn : held n log = some k)
    (hm : held m log = some k) : n = m := by
  induction log using List.reverseRecOn with
  | nil => cases hn
  | append_singleton log e ih =>
    obtain ⟨hlog, he⟩ := proper_concat.mp h
    obtain ⟨o, a⟩ := e
    rw [held_concat] at hn hm
    -- the newest act is by `n`, by `m`, or by neither
    by_cases hon : o = n <;> by_cases hom : o = m
    · exact hon.symm.trans hom
    · rw [if_pos hon] at hn
      rw [if_neg hom] at hm
      cases a with
      | acquire j =>
        cases hn
        exact absurd hm (he.2 m)
      | use j =>
        cases hn
        exact ih hlog (hon ▸ he) hm
      | release j => cases hn
    · rw [if_neg hon] at hn
      rw [if_pos hom] at hm
      cases a with
      | acquire j =>
        cases hm
        exact absurd hn (he.2 n)
      | use j =>
        cases hm
        exact ih hlog hn (hom ▸ he)
      | release j => cases hm
    · rw [if_neg hon] at hn
      rw [if_neg hom] at hm
      exact ih hlog hn hm

/-- A handle is open exactly if somebody holds it. -/
theorem isOpen_iff [DecidableEq H] (h : Proper log) {k : H} :
    isOpen k (log.map Prod.snd) = true ↔ ∃ n, held n log = some k := by
  induction log using List.reverseRecOn with
  | nil => simp [isOpen]
  | append_singleton log e ih =>
    obtain ⟨hlog, he⟩ := proper_concat.mp h
    obtain ⟨m, a⟩ := e
    rw [List.map_append, List.map_singleton, isOpen_concat]
    by_cases hk : a.handle = k
    · rw [if_pos hk]
      cases a with
      | acquire j | use j =>
        refine iff_of_true rfl ⟨m, ?_⟩
        rw [held_concat, if_pos rfl]
        exact congrArg some hk
      | release j =>
        refine iff_of_false nofun ?_
        rintro ⟨n, hn⟩
        rw [held_concat] at hn
        split at hn
        · cases hn
        · rename_i hmn
          have hj : held m log = some k := he.trans (congrArg some hk)
          exact hmn (hlog.held_inj hj hn)
    · rw [if_neg hk, ih hlog]
      -- the act is on another handle, before and after which its owner does not hold `k`
      refine exists_congr fun n => ?_
      rw [held_concat]
      split
      · rename_i hmn
        subst hmn
        cases a with
        | acquire j =>
          refine iff_of_false ?_ (fun heq => hk (Option.some.inj heq))
          rw [(held_of_not_mem he.1).1]
          nofun
        | use j =>
          have hj : held m log = some j := he
          rw [hj]
          rfl
        | release j =>
          have hj : held m log = some j := he
          rw [hj]
          exact iff_of_false (fun heq => hk (Option.some.inj heq)) nofun
      · exact Iff.rfl

end Proper

end Pscdrv.Handles
