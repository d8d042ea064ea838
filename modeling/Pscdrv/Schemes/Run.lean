import Mathlib.Data.List.Basic

/-! # Runs of a partial step function

    A system is a step function `step : σ → α → Option σ`; an action that is not possible in a state
    gives `none`. A run is the list of its actions. Two predicates speak about a whole run: `Along`
    puts a condition on every step that is taken, `Always` a condition on every state that is met.
    The rules below reduce both to one step: what a step preserves, the run preserves.

        s ──a₁──▶ s₁ ──a₂──▶ s₂ ──▶ …      Along C : C s a₁, C s₁ a₂, …
                                            Always P : P s, P s₁, P s₂, … -/

namespace Pscdrv.Run

variable {σ α : Type*} (step : σ → α → Option σ)

/-- Take the actions in order; `none` from the first one on that is not possible. -/
def exec : σ → List α → Option σ
  | s, [] => some s
  | s, a :: as => (step s a).bind fun s' => exec s' as

/-- Every step taken meets `C`, a condition on the state before it and on the action. -/
def Along (C : σ → α → Prop) : σ → List α → Prop
  | _, [] => True
  | s, a :: as => ∀ s', step s a = some s' → C s a ∧ Along C s' as

/-- Every state met, the first one included, satisfies `P`. -/
def Always (P : σ → Prop) : σ → List α → Prop
  | s, [] => P s
  | s, a :: as => P s ∧ ∀ s', step s a = some s' → Always P s' as

@[simp] theorem exec_nil (s : σ) : exec step s [] = some s := rfl

theorem exec_cons_some {s t : σ} {a : α} {as : List α} (h : exec step s (a :: as) = some t) :
    ∃ s', step s a = some s' ∧ exec step s' as = some t :=
  Option.bind_eq_some_iff.mp h

theorem exec_append (s : σ) (as bs : List α) :
    exec step s (as ++ bs) = (exec step s as).bind fun t => exec step t bs := by
  induction as generalizing s with
  | nil => rfl
  | cons a as ih =>
    simp only [List.cons_append, exec]
    cases step s a with
    | none => rfl
    | some s' => exact ih s'

theorem exec_trans {s t u : σ} {as bs : List α} (h : exec step s as = some t)
    (k : exec step t bs = some u) : exec step s (as ++ bs) = some u := by
  rw [exec_append, h, Option.bind_some, k]

theorem Always.head {P : σ → Prop} {s : σ} {as : List α} (h : Always step P s as) : P s := by
  cases as with
  | nil => exact h
  | cons a as => exact h.1

variable {step}

theorem along_mono {C D : σ → α → Prop} (h : ∀ s a, C s a → D s a) :
    ∀ {as : List α} {s : σ}, Along step C s as → Along step D s as
  | [], _, _ => trivial
  | a :: _, s, hC => fun s' hs => ⟨h s a (hC s' hs).1, along_mono h (hC s' hs).2⟩

theorem along_and {C D : σ → α → Prop} :
    ∀ {as : List α} {s : σ}, Along step C s as → Along step D s as →
      Along step (fun s a => C s a ∧ D s a) s as
  | [], _, _, _ => trivial
  | _ :: _, _, hC, hD => fun s' hs =>
      ⟨⟨(hC s' hs).1, (hD s' hs).1⟩, along_and (hC s' hs).2 (hD s' hs).2⟩

/-- On a given run the condition can be evaluated. -/
instance decidableAlong {C : σ → α → Prop} [∀ s a, Decidable (C s a)] :
    ∀ (s : σ) (as : List α), Decidable (Along step C s as)
  | _, [] => .isTrue trivial
  | s, a :: as => match hs : step s a with
    | none => .isTrue fun s' h => nomatch hs.symm.trans h
    | some t =>
      have := decidableAlong (C := C) t as
      decidable_of_iff (C s a ∧ Along step C t as)
        ⟨fun h s' hs' => by
          cases hs.symm.trans hs'
          exact h, fun h => h t hs⟩

/-- A condition that every step meets. -/
theorem along_of_forall {C : σ → α → Prop} (h : ∀ s a, C s a) :
    ∀ {as : List α} {s : σ}, Along step C s as
  | [], _ => trivial
  | a :: _, s => fun _ _ => ⟨h s a, along_of_forall h⟩

/-- A condition that all the actions meet. -/
theorem along_of_mem {C : α → Prop} :
    ∀ {as : List α} {s : σ}, (∀ a ∈ as, C a) → Along step (fun _ a => C a) s as
  | [], _, _ => trivial
  | a :: _, _, h => fun _ _ =>
      ⟨h a List.mem_cons_self, along_of_mem fun b hb => h b (List.mem_cons_of_mem a hb)⟩

/-- A condition on the actions alone, for a step function that is always defined. -/
theorem along_iff_forall {C : α → Prop} (htotal : ∀ s a, (step s a).isSome) {as : List α} {s : σ} :
    Along step (fun _ a => C a) s as ↔ ∀ a ∈ as, C a := by
  induction as generalizing s with
  | nil => simp [Along]
  | cons a as ih =>
    rw [List.forall_mem_cons]
    constructor
    · intro h
      obtain ⟨s', hs⟩ := Option.isSome_iff_exists.mp (htotal s a)
      exact ⟨(h s' hs).1, ih.mp (h s' hs).2⟩
    · exact fun h s' _ => ⟨h.1, ih.mpr h.2⟩

/-- RUN RULE: an invariant kept by every step that meets `C` holds at the end of a run along `C`. -/
theorem inv_exec {I : σ → Prop} {C : σ → α → Prop}
    (hstep : ∀ s a s', I s → C s a → step s a = some s' → I s') :
    ∀ {as : List α} {s t : σ}, I s → Along step C s as → exec step s as = some t → I t
  | [], s, t, hI, _, h => by
    rw [exec_nil, Option.some.injEq] at h
    exact h ▸ hI
  | a :: as, s, t, hI, hC, h => by
    obtain ⟨s', hs, ht⟩ := exec_cons_some step h
    obtain ⟨hc, hrest⟩ := hC s' hs
    exact inv_exec hstep (hstep s a s' hI hc hs) hrest ht

/-- The run rule for an invariant that every step keeps. -/
theorem inv_exec' {I : σ → Prop} (hstep : ∀ s a s', I s → step s a = some s' → I s')
    {as : List α} {s t : σ} (hI : I s) (h : exec step s as = some t) : I t :=
  inv_exec (C := fun _ _ => True) (fun s a s' hi _ hs => hstep s a s' hi hs) hI
    (along_of_forall fun _ _ => trivial) h

/-- An invariant that implies `P` makes `P` hold in every state of the run. -/
theorem always_of_along {I P : σ → Prop} {C : σ → α → Prop}
    (hstep : ∀ s a s', I s → C s a → step s a = some s' → I s') (hP : ∀ s, I s → P s) :
    ∀ {as : List α} {s : σ}, I s → Along step C s as → Always step P s as
  | [], s, hI, _ => hP s hI
  | a :: _, s, hI, hC => ⟨hP s hI, fun s' hs =>
      always_of_along hstep hP (hstep s a s' hI (hC s' hs).1 hs) (hC s' hs).2⟩

/-- An invariant that every step keeps and that implies `P`. -/
theorem always_of_step {I P : σ → Prop} (hstep : ∀ s a s', I s → step s a = some s' → I s')
    (hP : ∀ s, I s → P s) {as : List α} {s : σ} (hI : I s) : Always step P s as :=
  always_of_along (C := fun _ _ => True) (fun s a s' hi _ hs => hstep s a s' hi hs) hP hI
    (along_of_forall fun _ _ => trivial)

/-- A run along `D` that stays in `P` is a run along `C`, when a step that meets `D` and misses `C`
    leads out of `P`. -/
theorem along_of_always {I P : σ → Prop} {C D : σ → α → Prop}
    (hstep : ∀ s a s', I s → C s a ∧ D s a → step s a = some s' → I s')
    (hback : ∀ s a s', I s → D s a → step s a = some s' → P s' → C s a) {as : List α} {s : σ}
    (hI : I s) (hD : Along step D s as) (h : Always step P s as) : Along step C s as := by
  induction as generalizing s with
  | nil => trivial
  | cons a as ih =>
    intro s' hs
    obtain ⟨hd, hrest⟩ := hD s' hs
    have hc : C s a := hback s a s' hI hd hs (h.2 s' hs).head
    exact ⟨hc, ih (hstep s a s' hI ⟨hc, hd⟩ hs) hrest (h.2 s' hs)⟩

/-- EXACTNESS: when a step that misses `C` leads from the invariant to a state outside `P`, the run
    stays in `P` exactly if all its steps meet `C`. -/
theorem always_iff_along {I P : σ → Prop} {C : σ → α → Prop}
    (hstep : ∀ s a s', I s → C s a → step s a = some s' → I s') (hP : ∀ s, I s → P s)
    (hback : ∀ s a s', I s → step s a = some s' → P s' → C s a) {as : List α} {s : σ} (hI : I s) :
    Always step P s as ↔ Along step C s as :=
  ⟨along_of_always (D := fun _ _ => True) (fun s a s' hi hc hs => hstep s a s' hi hc.1 hs)
    (fun s a s' hi _ hs => hback s a s' hi hs) hI (along_of_forall fun _ _ => trivial),
    always_of_along hstep hP hI⟩

/-- Two conditions that agree on every step from the invariant agree on whole runs. -/
theorem along_iff {I : σ → Prop} {C D : σ → α → Prop}
    (hstep : ∀ s a s', I s → C s a → step s a = some s' → I s')
    (hiff : ∀ s a s', I s → step s a = some s' → (D s a ↔ C s a)) {as : List α} {s : σ} (hI : I s) :
    Along step D s as ↔ Along step C s as := by
  induction as generalizing s with
  | nil => exact Iff.rfl
  | cons a as ih =>
    constructor
    · intro h s' hs
      have hc : C s a := (hiff s a s' hI hs).mp (h s' hs).1
      exact ⟨hc, (ih (hstep s a s' hI hc hs)).mp (h s' hs).2⟩
    · intro h s' hs
      have hc : C s a := (h s' hs).1
      exact ⟨(hiff s a s' hI hs).mpr hc, (ih (hstep s a s' hI hc hs)).mpr (h s' hs).2⟩

/-- A condition that every step from the invariant meets. -/
theorem along_of_inv {I : σ → Prop} {C D : σ → α → Prop}
    (hstep : ∀ s a s', I s → D s a → step s a = some s' → I s' ∧ C s a) {as : List α} {s : σ}
    (hI : I s) (h : Along step D s as) : Along step C s as := by
  induction as generalizing s with
  | nil => trivial
  | cons a as ih =>
    intro s' hs
    obtain ⟨hd, hrest⟩ := h s' hs
    obtain ⟨hI', hc⟩ := hstep s a s' hI hd hs
    exact ⟨hc, ih hI' hrest⟩

/-- SIMULATION: when every step that meets `C` on the abstract side is matched there and keeps the
    two states related, a whole run is matched. -/
theorem exec_sim {τ β : Type*} {step' : τ → β → Option τ} {f : α → β} {R : σ → τ → Prop}
    {C : τ → β → Prop} (htotal : ∀ t b, ∃ t', step' t b = some t')
    (hstep : ∀ s t a t', R s t → C t (f a) → step' t (f a) = some t' →
      ∃ s', step s a = some s' ∧ R s' t') :
    ∀ {as : List α} {s : σ} {t : τ}, R s t → Along step' C t (as.map f) →
      ∃ s' t', exec step s as = some s' ∧ exec step' t (as.map f) = some t' ∧ R s' t'
  | [], s, t, hR, _ => ⟨s, t, rfl, rfl, hR⟩
  | a :: as, s, t, hR, hC => by
    obtain ⟨t₁, ht⟩ := htotal t (f a)
    obtain ⟨hc, hrest⟩ := hC t₁ ht
    obtain ⟨s₁, hs, hR₁⟩ := hstep s t a t₁ hR hc ht
    obtain ⟨s', t', hs', ht', hR'⟩ := exec_sim htotal hstep hR₁ hrest
    refine ⟨s', t', ?_, ?_, hR'⟩
    · rw [exec, hs, Option.bind_some, hs']
    · rw [List.map_cons, exec, ht, Option.bind_some, ht']

/-- `Always` speaks about the end of the run. -/
theorem Always.exec {P : σ → Prop} {as : List α} {s t : σ} (h : Always step P s as)
    (ht : exec step s as = some t) : P t := by
  induction as generalizing s with
  | nil =>
    rw [exec_nil, Option.some.injEq] at ht
    exact ht ▸ h
  | cons a as ih =>
    obtain ⟨s', hs, ht⟩ := exec_cons_some step ht
    exact ih (h.2 s' hs) ht

/-- `Always` speaks about the end of every initial piece of the run. -/
theorem always_iff_exec {P : σ → Prop} {as : List α} {s : σ} :
    Always step P s as ↔ ∀ pre, pre <+: as → ∀ t, exec step s pre = some t → P t := by
  induction as generalizing s with
  | nil =>
    constructor
    · rintro h pre hpre t ht
      rw [List.prefix_nil.mp hpre, exec_nil, Option.some.injEq] at ht
      exact ht ▸ h
    · exact fun h => h [] (List.prefix_refl _) s rfl
  | cons a as ih =>
    constructor
    · rintro ⟨hs, hrest⟩ pre hpre t ht
      cases pre with
      | nil => rw [exec_nil, Option.some.injEq] at ht; exact ht ▸ hs
      | cons b pre =>
        obtain ⟨rfl, hp⟩ := List.cons_prefix_cons.mp hpre
        obtain ⟨s', hs', ht'⟩ := exec_cons_some step ht
        exact ih.mp (hrest s' hs') pre hp t ht'
    · refine fun h => ⟨h [] List.nil_prefix s rfl, fun s' hs' => ih.mpr fun pre hpre t ht => ?_⟩
      refine h (a :: pre) (List.cons_prefix_cons.mpr ⟨rfl, hpre⟩) t ?_
      rw [exec, hs', Option.bind_some, ht]

/-- BOUND: when the actions that count decrease a measure and no other one increases it, a run holds
    at most so many of them. -/
theorem count_exec_le {I : σ → Prop} {counts : α → Bool} {μ : σ → ℕ}
    (hstep : ∀ s a s', I s → step s a = some s' →
      I s' ∧ μ s' + (if counts a then 1 else 0) ≤ μ s) :
    ∀ {as : List α} {s t : σ}, I s → exec step s as = some t → as.countP counts + μ t ≤ μ s
  | [], s, t, _, h => by
    rw [exec_nil, Option.some.injEq] at h
    refine Nat.le_of_eq ?_
    rw [h, List.countP_nil, Nat.zero_add]
  | a :: as, s, t, hI, h => by
    obtain ⟨s', hs, ht⟩ := exec_cons_some step h
    obtain ⟨hI', hμ⟩ := hstep s a s' hI hs
    have hrest := count_exec_le hstep hI' ht
    rw [List.countP_cons]
    omega

/-! ### Observed runs -/

/-- A run together with the notes of an observer, who sees every step before it is taken. -/
def observed {ω : Type*} (step : σ → α → Option σ) (note : σ → α → ω → ω) (p : σ × ω) (a : α) :
    Option (σ × ω) :=
  (step p.1 a).map fun s => (s, note p.1 a p.2)

theorem observed_some {ω : Type*} {note : σ → α → ω → ω} {p q : σ × ω} {a : α}
    (h : observed step note p a = some q) : step p.1 a = some q.1 ∧ q.2 = note p.1 a p.2 := by
  obtain ⟨s, hs, rfl⟩ := Option.map_eq_some_iff.mp h
  exact ⟨hs, rfl⟩

/-- A condition on the steps of a run is one on the steps of the observed run. -/
theorem along_observed_iff {ω : Type*} {note : σ → α → ω → ω} {C : σ → α → Prop} {as : List α}
    {s : σ} (w : ω) :
    Along (observed step note) (fun p a => C p.1 a) (s, w) as ↔ Along step C s as := by
  induction as generalizing s w with
  | nil => exact Iff.rfl
  | cons a as ih =>
    constructor
    · intro h s' hs
      obtain ⟨hc, hrest⟩ := h (s', note s a w) (by rw [observed, hs, Option.map_some])
      exact ⟨hc, (ih _).mp hrest⟩
    · rintro h ⟨s', w'⟩ hs
      obtain ⟨hs, _⟩ := observed_some hs
      exact ⟨(h s' hs).1, (ih w').mpr (h s' hs).2⟩

theorem along_observed {ω : Type*} {note : σ → α → ω → ω} {C : σ → α → Prop} {as : List α} {s : σ}
    (w : ω) (h : Along step C s as) :
    Along (observed step note) (fun p a => C p.1 a) (s, w) as :=
  (along_observed_iff w).mpr h

end Pscdrv.Run
