import Mathlib.Algebra.Field.Basic
import Mathlib.Tactic.Ring

/-! # Chains of affine stages

    A value goes through a chain of stages, each of which adds a number or multiplies by one. Undone
    in the opposite order, with no factor 0, the stages give the value back.

        x ──(+ a)──▶ ──(* b)──▶ ──(+ c)──▶ y
        x ◀──(- a)── ◀──(/ b)── ◀──(- c)── y -/

namespace Pscdrv.Stages

inductive Stage (F : Type) where
  | add (c : F)
  | mul (c : F)

variable {F : Type} [Field F]

namespace Stage

def run : Stage F → F → F
  | add c, v => v + c
  | mul c, v => v * c

def undo : Stage F → F → F
  | add c, v => v - c
  | mul c, v => v / c

/-- The factor is not 0. -/
def Invertible : Stage F → Prop
  | add _ => True
  | mul c => c ≠ 0

theorem undo_run : ∀ {s : Stage F}, s.Invertible → ∀ v, s.undo (s.run v) = v
  | add c, _, v => add_sub_cancel_right v c
  | mul _, h, v => mul_div_cancel_right₀ v h

theorem run_undo : ∀ {s : Stage F}, s.Invertible → ∀ v, s.run (s.undo v) = v
  | add c, _, v => sub_add_cancel v c
  | mul _, h, v => div_mul_cancel₀ v h

end Stage

/-- All stages, from the first to the last. -/
def run (l : List (Stage F)) (v : F) : F := l.foldl (fun v s => s.run v) v

/-- All stages undone, from the last to the first. -/
def undo (l : List (Stage F)) (v : F) : F := l.foldr (fun s v => s.undo v) v

/-- BACK: a chain undone. -/
theorem undo_run : ∀ {l : List (Stage F)}, (∀ s ∈ l, s.Invertible) → ∀ v, undo l (run l v) = v
  | [], _, _ => rfl
  | s :: l, h, v => by
    have ih := undo_run (fun s' hs' => h s' (List.mem_cons_of_mem s hs')) (s.run v)
    exact (congrArg s.undo ih).trans (Stage.undo_run (h s List.mem_cons_self) v)

theorem run_undo : ∀ {l : List (Stage F)}, (∀ s ∈ l, s.Invertible) → ∀ v, run l (undo l v) = v
  | [], _, _ => rfl
  | s :: l, h, v => by
    have hstage := Stage.run_undo (h s List.mem_cons_self) (undo l v)
    have ih := run_undo (fun s' hs' => h s' (List.mem_cons_of_mem s hs')) v
    exact (congrArg (run l) hstage).trans ih

theorem undo_injective {l : List (Stage F)} (h : ∀ s ∈ l, s.Invertible) {u v : F} :
    undo l u = undo l v ↔ u = v := by
  constructor
  · intro huv
    rw [← run_undo h u, huv, run_undo h v]
  · exact congrArg (undo l)

/-! ### Two stages undone in the wrong order -/

/-- An addition and then a multiplication, after they were undone in this order as well. -/
theorem run_undo_swapped {a b : F} (hb : b ≠ 0) (v : F) :
    run [.add a, .mul b] (undo [.mul b, .add a] v) = v + a * (b - 1) := by
  change ((v - a) / b + a) * b = v + a * (b - 1)
  rw [add_mul, div_mul_cancel₀ _ hb]
  ring

/-- Undone in this order after they were done. -/
theorem undo_run_swapped {a b : F} (hb : b ≠ 0) (v : F) :
    undo [.mul b, .add a] (run [.add a, .mul b] v) = v + a * (b - 1) / b := by
  have hmul : (v + a * (b - 1) / b) * b = v * b + a * (b - 1) := by
    rw [add_mul, div_mul_cancel₀ _ hb]
  change ((v + a) * b - a) / b = v + a * (b - 1) / b
  rw [div_eq_iff hb, hmul]
  ring

theorem swapped_offset {a b : F} : a * (b - 1) = 0 ↔ a = 0 ∨ b = 1 := by
  rw [mul_eq_zero, sub_eq_zero]

/-- SWAPPED: the order does not matter if nothing is added or the factor is 1. -/
theorem run_undo_swapped_iff {a b : F} (hb : b ≠ 0) (v : F) :
    run [.add a, .mul b] (undo [.mul b, .add a] v) = v ↔ a = 0 ∨ b = 1 := by
  rw [run_undo_swapped hb, add_eq_left, swapped_offset]

theorem undo_run_swapped_iff {a b : F} (hb : b ≠ 0) (v : F) :
    undo [.mul b, .add a] (run [.add a, .mul b] v) = v ↔ a = 0 ∨ b = 1 := by
  rw [undo_run_swapped hb, add_eq_left, div_eq_zero_iff, or_iff_left hb, swapped_offset]

end Pscdrv.Stages
