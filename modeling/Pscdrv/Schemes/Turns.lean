import Mathlib.Data.DFinsupp.WellFounded
import Mathlib.Logic.Relation
import Mathlib.SetTheory.Cardinal.Order
import Pscdrv.Schemes.Threads

/-! # Turns come to an end

    A program has finitely many instructions ahead of it, whatever the replies will be. So finitely
    many threads have finitely many turns, as long as none starts a new job.

    A thread `e` that has something to do has a turn, or waits for another one. Let the locks be
    outer and inner ones, and let every other thread take one outer lock first, and then one inner
    lock only. Somebody then has a turn whom `e` waits for in the end, unless `e` itself holds the
    inner lock that the holder of its outer lock waits for.

        e   holds m ╌╌ waits for k                  t   holds k ╌╌ waits for m -/

namespace Pscdrv.Threads

open Run

section Programs

variable {κ κ' Call : Type} {Reply : Call → Type}

namespace Prog

/-- The first program is what one instruction leaves of the second one. -/
inductive After : Prog κ Call Reply → Prog κ Call Reply → Prop
  | lock (k : κ) (next : Prog κ Call Reply) : After next (.lock k next)
  | unlock (k : κ) (next : Prog κ Call Reply) : After next (.unlock k next)
  | call (c : Call) (next : Reply c → Prog κ Call Reply) (r : Reply c) :
      After (next r) (.call c next)

theorem after_wf : WellFounded fun p q : Prog κ Call Reply => After p q := by
  refine ⟨fun p => ?_⟩
  induction p with
  | done => exact ⟨_, fun q h => by cases h⟩
  | abort c => exact ⟨_, fun q h => by cases h⟩
  | lock k next ih =>
    refine ⟨_, fun q h => ?_⟩
    cases h
    exact ih
  | unlock k next ih =>
    refine ⟨_, fun q h => ?_⟩
    cases h
    exact ih
  | call c next ih =>
    refine ⟨_, fun q h => ?_⟩
    cases h with
    | call _ _ r => exact ih r

/-- Nothing is left to do. -/
def isDone : Prog κ Call Reply → Bool
  | done => true
  | _ => false

theorem eq_done_of_isDone {p : Prog κ Call Reply} (h : p.isDone = true) : p = .done := by
  cases p with
  | done => rfl
  | abort | lock | unlock | call => cases h

/-- The same program with other names for the locks. -/
def mapLock (f : κ → κ') : Prog κ Call Reply → Prog κ' Call Reply
  | done => done
  | abort c => abort c
  | lock k next => lock (f k) (next.mapLock f)
  | unlock k next => unlock (f k) (next.mapLock f)
  | call c next => call c fun r => (next r).mapLock f

theorem mayLock_mapLock {f : κ → κ'} {p : Prog κ Call Reply} {l : κ'}
    (h : (p.mapLock f).MayLock l) : ∃ k, f k = l ∧ p.MayLock k := by
  induction p with
  | done => cases h
  | abort c => cases h
  | lock k next ih =>
    rcases h with rfl | h
    · exact ⟨k, rfl, .inl rfl⟩
    · obtain ⟨k', hk', hmay⟩ := ih h
      exact ⟨k', hk', .inr hmay⟩
  | unlock k next ih => exact ih h
  | call c next ih =>
    obtain ⟨r, hr⟩ := h
    obtain ⟨k, hk, hmay⟩ := ih r hr
    exact ⟨k, hk, r, hmay⟩

variable [DecidableEq κ] [DecidableEq κ']

/-- What is held of the locks `f k` does not concern the others. -/
theorem extend_update {f : κ → κ'} (hf : f.Injective) (held : κ → ℕ) (out : κ' → ℕ) (k : κ)
    (n : ℕ) : Function.update (Function.extend f held out) (f k) n =
      Function.extend f (Function.update held k n) out := by
  funext l
  by_cases hl : ∃ j, f j = l
  · obtain ⟨j, rfl⟩ := hl
    rw [hf.extend_apply]
    rcases eq_or_ne j k with rfl | hj
    · rw [Function.update_self, Function.update_self]
    · rw [Function.update_of_ne hj, Function.update_of_ne (hf.ne hj), hf.extend_apply]
  · have hk : l ≠ f k := fun heq => hl ⟨k, heq.symm⟩
    rw [Function.update_of_ne hk, Function.extend_apply' _ _ _ hl, Function.extend_apply' _ _ _ hl]

theorem Brackets.mapLock {f : κ → κ'} (hf : f.Injective) (out : κ' → ℕ) {p : Prog κ Call Reply}
    {held after : κ → ℕ} (h : p.Brackets held after) :
    (p.mapLock f).Brackets (Function.extend f held out) (Function.extend f after out) := by
  induction p generalizing held with
  | done =>
    cases h
    rfl
  | abort c => trivial
  | lock k next ih =>
    change (next.mapLock f).Brackets (raise _ (f k)) _
    rw [raise, hf.extend_apply, extend_update hf]
    exact ih h
  | unlock k next ih =>
    change 0 < Function.extend f held out (f k) ∧ (next.mapLock f).Brackets (lower _ (f k)) _
    rw [lower, hf.extend_apply, extend_update hf]
    exact ⟨h.1, ih h.2⟩
  | call c next ih => exact fun r => ih r (h r)

/-- A program that gives back what it takes still does. -/
theorem brackets_mapLock {f : κ → κ'} (hf : f.Injective) {p : Prog κ Call Reply}
    (h : ∀ held, p.Brackets held held) (held : κ' → ℕ) : (p.mapLock f).Brackets held held := by
  have hheld : Function.extend f (fun k => held (f k)) held = held := by
    funext l
    by_cases hl : ∃ k, f k = l
    · obtain ⟨k, rfl⟩ := hl
      exact hf.extend_apply _ _ _
    · exact Function.extend_apply' _ _ _ hl
  have hmap := (h fun k => held (f k)).mapLock hf held
  rwa [hheld] at hmap

end Prog

end Programs

section Steps

variable {τ κ Call ι : Type} {Reply : Call → Type} {σ : Type} [DecidableEq τ] [DecidableEq κ]
  {perform : τ → (c : Call) → σ → σ × Reply c} {prog : τ → ι → Option (Prog κ Call Reply)}
  {s s' : Sys τ κ Call Reply σ} {e t u : τ}

/-! ### The turns end -/

/-- One of the threads goes on by one instruction. -/
def OneAfter (p q : τ → Prog κ Call Reply) : Prop :=
  ∃ t, (p t).After (q t) ∧ ∀ u, u ≠ t → p u = q u

omit [DecidableEq τ] [DecidableEq κ] in
theorem oneAfter_wf [Finite τ] : WellFounded fun p q : τ → Prog κ Call Reply => OneAfter p q := by
  refine Subrelation.wf ?_ (Pi.Lex.wellFounded (@WellOrderingRel τ) fun _ => Prog.after_wf)
  rintro p q ⟨t, hafter, hother⟩
  refine ⟨t, fun u hu => hother u ?_, hafter⟩
  rintro rfl
  exact irrefl_of _ u hu

/-- A turn ends the process, or leads one instruction on. -/
theorem turn_after (h : turn perform s t = some s') : s.failed = none ∧
    (s'.failed.isSome = true ∨ s'.failed = none ∧ OneAfter s'.code s.code) := by
  have hnone : s.failed = none := by
    unfold turn at h
    split at h
    · cases h
    · exact Option.not_isSome_iff_eq_none.mp ‹_›
  have hafter : ∀ {p}, p.After (s.code t) → OneAfter (Function.update s.code t p) s.code :=
    fun {p} hp => ⟨t, by rwa [Function.update_self], fun u hu => Function.update_of_ne hu _ _⟩
  refine ⟨hnone, ?_⟩
  cases turn_cases h with
  | abort c code => exact .inl rfl
  | lock k next o code free => exact .inr ⟨hnone, hafter (code ▸ .lock k next)⟩
  | unlock k next code => exact .inr ⟨hnone, hafter (code ▸ .unlock k next)⟩
  | call c next code => exact .inr ⟨hnone, hafter (code ▸ .call c next _)⟩

/-! ### Somebody has a turn -/

/-- `u` waits for a lock that `t` holds. -/
def WaitsFor (s : Sys τ κ Call Reply σ) (u t : τ) : Prop :=
  t ≠ u ∧ ∃ k next, s.code u = .lock k next ∧ 0 < depth s.owner t k

/-- A lock that cannot be taken is held by another thread. -/
theorem held_of_acquire {owner : κ → Option (τ × ℕ)} {k : κ} (h : acquire owner t k = none) :
    ∃ u, u ≠ t ∧ 0 < depth owner u k := by
  unfold acquire at h
  cases hk : owner k with
  | none =>
    rw [hk] at h
    cases h
  | some p =>
    obtain ⟨u, n⟩ := p
    rw [hk] at h
    dsimp only at h
    split at h
    · cases h
    · rename_i hu
      exact ⟨u, hu, by simp [depth, hk]⟩

/-- A thread that has something to do has a turn, or waits. -/
theorem turn_or_waits (perform : τ → (c : Call) → σ → σ × Reply c) (hfailed : s.failed = none)
    (hcode : s.code t ≠ .done) : (turn perform s t).isSome = true ∨ ∃ u, WaitsFor s t u := by
  rw [turn, hfailed]
  cases hp : s.code t with
  | done => exact absurd hp hcode
  | abort c | unlock k next | call c next => exact .inl rfl
  | lock k next =>
    cases hfree : acquire s.owner t k with
    | some o =>
      left
      dsimp only
      rw [hfree]
      rfl
    | none =>
      obtain ⟨u, hu, hheld⟩ := held_of_acquire hfree
      exact .inr ⟨u, hu, k, next, hp, hheld⟩

/-- The program takes an outer lock first, and then one inner lock only. -/
def Nests (inner : κ → Prop) (p : Prog κ Call Reply) : Prop :=
  ∃ k next m, p = .lock k next ∧ ¬inner k ∧ inner m ∧ ∀ l, next.MayLock l → l = m

/-- `t` is `e`, or is before its outer lock, or may take one inner lock only and holds no other. -/
def Nested (e : τ) (inner : κ → Prop) (t : τ) (held : κ → ℕ) (p : Prog κ Call Reply) : Prop :=
  t = e ∨ (∀ k, held k = 0) ∧ Nests inner p ∨
    ∃ m, (∀ l, p.MayLock l → l = m ∧ inner m) ∧ ∀ l, inner l → 0 < held l → l = m

omit [DecidableEq τ] in
/-- A thread stays nested, and gives back what it holds. -/
theorem nested_outline {inner : κ → Prop}
    (hbrackets : ∀ t i p held, prog t i = some p → p.Brackets held held)
    (hnests : ∀ t i p, prog t i = some p → t = e ∨ Nests inner p) :
    Outline perform prog (fun _ _ _ => True)
      (fun t held p x => GivesBack t held p x ∧ Nested e inner t held p) where
  start := by
    rintro t i p held x hp ⟨hdone, -⟩
    obtain rfl : held = fun _ => 0 := hdone
    exact ⟨hbrackets t i p _ hp, (hnests t i p hp).imp_right fun h => .inl ⟨fun _ => rfl, h⟩⟩
  lock := by
    rintro t held k next x ⟨hgives, hnested⟩
    refine ⟨hgives, hnested.imp_right ?_⟩
    rintro (⟨hzero, k', next', m, hp, houter, hm, honly⟩ | ⟨m, honly, hheld⟩)
    · cases hp
      refine .inr ⟨m, fun l hl => ⟨honly l hl, hm⟩, fun l hl hpos => ?_⟩
      rcases eq_or_ne l k with rfl | hne
      · exact absurd hl houter
      · rw [raise, Function.update_of_ne hne, hzero] at hpos
        cases hpos
    · obtain ⟨rfl, hm⟩ := honly k (.inl rfl)
      refine .inr ⟨k, fun l hl => honly l (.inr hl), fun l hl hpos => ?_⟩
      rcases eq_or_ne l k with rfl | hne
      · rfl
      · rw [raise, Function.update_of_ne hne] at hpos
        exact hheld l hl hpos
  unlock := by
    rintro t held k next x ⟨⟨hpos, hgives⟩, hnested⟩
    refine ⟨hpos, hgives, hnested.imp_right ?_⟩
    rintro (⟨-, k', next', m, hp, -⟩ | ⟨m, honly, hheld⟩)
    · cases hp
    · exact .inr ⟨m, honly, fun l hl hlow => hheld l hl (hlow.trans_le (lower_le held k l))⟩
  call := by
    rintro t held c next x - ⟨hgives, hnested⟩
    refine ⟨hgives _, hnested.imp_right ?_⟩
    rintro (⟨-, k', next', m, hp, -⟩ | ⟨m, honly, hheld⟩)
    · cases hp
    · exact .inr ⟨m, fun l hl => honly l ⟨_, hl⟩, hheld⟩
  free _ _ _ _ h := h

/-- PROGRESS: when `e` has something to do, a thread has a turn that `e` waits for in the end, or
    `e` is in a deadlock for an inner lock. -/
theorem turn_or_deadlock (perform : τ → (c : Call) → σ → σ × Reply c) {inner : κ → Prop}
    (h : Annotated (fun t held p x => GivesBack t held p x ∧ Nested e inner t held p) s)
    (hfailed : s.failed = none) (hcode : s.code e ≠ .done) :
    (∃ t, Relation.ReflTransGen (WaitsFor s) e t ∧ (turn perform s t).isSome = true) ∨
      ∃ m, inner m ∧ Deadlocked e m s := by
  -- whoever holds a lock has something to do
  have hbusy : ∀ {u k}, 0 < depth s.owner u k → s.code u ≠ .done := by
    intro u k hheld hdone
    have hgives := (h u).1
    rw [hdone] at hgives
    exact Nat.lt_irrefl 0 (congrFun hgives k ▸ hheld)
  -- and may take one inner lock only
  have hinner : ∀ {u k}, u ≠ e → 0 < depth s.owner u k → ∃ m,
      (∀ l, (s.code u).MayLock l → l = m ∧ inner m) ∧
        ∀ l, inner l → 0 < depth s.owner u l → l = m := by
    intro u k hu hheld
    rcases (h u).2 with rfl | ⟨hzero, -⟩ | hm
    · exact absurd rfl hu
    · exact absurd (hzero k) (Nat.ne_of_gt hheld)
    · exact hm
  rcases turn_or_waits perform hfailed hcode with hturn | ⟨t, hwaits⟩
  · exact .inl ⟨e, .refl, hturn⟩
  obtain ⟨hte, k, next, hk, htk⟩ := hwaits
  have het : WaitsFor s e t := ⟨hte, k, next, hk, htk⟩
  rcases turn_or_waits perform hfailed (hbusy htk) with hturn | ⟨u, hut, m, next', hm, hum⟩
  · exact .inl ⟨t, .single het, hturn⟩
  have htu : WaitsFor s t u := ⟨hut, m, next', hm, hum⟩
  obtain ⟨m', honly, -⟩ := hinner hte htk
  have hin : inner m := by
    obtain ⟨hmm, hin⟩ := honly m (by rw [hm]; exact .inl rfl)
    exact hmm ▸ hin
  by_cases hue : u = e
  · subst hue
    exact .inr ⟨m, hin, hum, k, t, ⟨⟨next, hk⟩, t, hte, htk⟩, htk, ⟨⟨next', hm⟩, u, hut, hum⟩⟩
  rcases turn_or_waits perform hfailed (hbusy hum) with hturn | ⟨v, hvu, l, next'', hl, hvl⟩
  · exact .inl ⟨u, .tail (.single het) htu, hturn⟩
  -- the lock that `u` waits for would be the one it holds
  obtain ⟨m'', honly', hheld⟩ := hinner hue hum
  obtain ⟨rfl, -⟩ := honly' l (by rw [hl]; exact .inl rfl)
  obtain rfl := hheld m hin hum
  exact absurd (depth_exclusive hvl hum) hvu

end Steps

end Pscdrv.Threads
