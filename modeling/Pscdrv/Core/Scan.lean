import Pscdrv.Core.Block
import Pscdrv.Schemes.Run

/-! # No update is lost by scan coalescing

    `requestScan` asks `scanIoRequest()` to process the records of a block, one callback for each
    priority that has records. While these callbacks are outstanding, further requests are kept in
    one flag, and the last callback asks again if it is set.

        request ─▶ scanIoRequest ─▶ { priorities } ─ scanned ─▶ … ─ scanned ─▶ ∅ ─▶ queued? again

    The fields `requests` and `issued` are not in the source: they count the requests, and tell how
    many of them had been made at the last `scanIoRequest()`. -/

namespace Pscdrv.Scan

open Mask Run

structure ScanState (E : Type) [Libevent E] where
  block : Block E
  /-- callbacks that `scanIoRequest()` has queued and that have not run yet -/
  outstanding : Fin 32 → ℕ
  requests : ℕ
  issued : ℕ

inductive Op where
  /-- a message was received; `mask` is what `scanIoRequest()` reports if it is called -/
  | requestScan (mask : UInt32)
  /-- an outstanding callback takes the lock -/
  | scanned (prio : Fin 32) (mask : UInt32)

variable {E : Type} [Libevent E]

def init : ScanState E := ⟨.new, fun _ => 0, 0, 0⟩

/-- Go on with block `b`. `scanIoRequest()` was called if `scanCount` has changed; then it has
    queued one callback for each priority of `mask`. -/
def observe (s : ScanState E) (b : Block E) (mask : UInt32) : ScanState E :=
  if b.scanCount = s.block.scanCount then { s with block := b }
  else { s with
    block := b
    outstanding := fun p => s.outstanding p + (has mask p).toNat
    issued := s.requests }

/-- `none` for a callback that is not outstanding, and when an assertion fails. -/
def step (s : ScanState E) : Op → Option (ScanState E)
  | .requestScan mask =>
    some (observe { s with requests := s.requests + 1 } (s.block.requestScan mask) mask)
  | .scanned prio mask =>
    if s.outstanding prio = 0 then none
    else (s.block.scanned prio mask).state?.map fun b =>
      observe { s with
        outstanding := fun p => s.outstanding p - (if p = prio then 1 else 0) } b mask

/-- The outstanding callbacks are those `scanBusy` tells, and a request is either served or kept. -/
structure Booked (s : ScanState E) : Prop where
  outstanding : ∀ p, s.outstanding p = (has s.block.scanBusy p).toNat
  queued : s.block.scanQueued = true → s.block.scanBusy ≠ 0
  newest : s.issued = s.requests ∨ s.block.scanQueued = true

/-- One callback less is outstanding. -/
def ran (s : ScanState E) (prio : Fin 32) : ScanState E :=
  { s with outstanding := fun p => s.outstanding p - (if p = prio then 1 else 0) }

/-- The block after the scan of one priority. -/
def cleared (b : Block E) (prio : Fin 32) : Block E :=
  { b with scanBusy := b.scanBusy &&& ~~~bit prio }

/-- The callbacks left are those the mask tells. -/
theorem Booked.ran {s : ScanState E} (h : Booked s) (prio p : Fin 32) :
    (ran s prio).outstanding p = (has (cleared s.block prio).scanBusy p).toNat := by
  change s.outstanding p - _ = (has (s.block.scanBusy &&& ~~~bit prio) p).toNat
  rw [h.outstanding, has_clear]
  by_cases hp : p = prio
  · cases has s.block.scanBusy p <;> simp [hp]
  · simp [hp, Ne.symm hp]

/-- When only one callback is outstanding, it is the last of its scan. -/
theorem Booked.last {s : ScanState E} (h : Booked s) {p : Fin 32}
    (honly : ∀ q, 0 < s.outstanding q → q = p) : (cleared s.block p).scanBusy = 0 := by
  rw [eq_zero_iff]
  intro q
  change has (s.block.scanBusy &&& ~~~bit p) q = false
  rw [has_clear]
  cases hq : has s.block.scanBusy q with
  | false => rfl
  | true =>
    have hqp : q = p := honly q (by rw [h.outstanding, hq]; exact Nat.one_pos)
    simp [hqp]

end Pscdrv.Scan
