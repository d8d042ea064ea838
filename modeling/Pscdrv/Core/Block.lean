import Mathlib.Data.Finset.Basic
import Pscdrv.Core.Dbuffer
import Pscdrv.Schemes.Mask

/-! # Blocks, exceptions and the outcome of a driver call

    A `Block` is the cache of one message id in one direction: its data, the transmit flag `queued`
    and the bookkeeping of its I/O scans. A `Block` is created by `getSend`/`getRecv` under its
    message id and never freed, so its `code` is the key it is stored under and a `Block*` is that
    key. -/

namespace Pscdrv

/-- The C++ exceptions the driver throws. -/
inductive Exc where
  | recAlarm
  | runtimeError (what : String)
  | badAlloc
  deriving DecidableEq

/-- How a driver call ends: normally, by an exception (with the state it leaves behind), or by a
    failed `assert()`. -/
inductive Res (σ : Type) where
  | ok (s : σ)
  | throw (e : Exc) (s : σ)
  | abort (cond : String)

namespace Res

variable {σ : Type}

/-- Statement sequencing: an exception or a failed assertion skips the rest. -/
def andThen : Res σ → (σ → Res σ) → Res σ
  | ok s, k => k s
  | throw e s, _ => throw e s
  | abort c, _ => abort c

@[simp] theorem andThen_ok (s : σ) (k : σ → Res σ) : (ok s).andThen k = k s := rfl
@[simp] theorem andThen_throw (e : Exc) (s : σ) (k : σ → Res σ) :
    (throw e s).andThen k = throw e s := rfl
@[simp] theorem andThen_abort (c : String) (k : σ → Res σ) :
    (abort c : Res σ).andThen k = abort c := rfl

/-- The state after the call. Every caller catches the exceptions (`CATCH`) and goes on; a failed
    assertion ends the process. -/
def state? : Res σ → Option σ
  | ok s => some s
  | throw _ s => some s
  | abort _ => none

@[simp] theorem state?_ok (s : σ) : (ok s).state? = some s := rfl
@[simp] theorem state?_throw (e : Exc) (s : σ) : (throw e s).state? = some s := rfl
@[simp] theorem state?_abort (c : String) : (abort c : Res σ).state? = none := rfl

/-- A sequence ends either with the exception of its first part or with the outcome of its rest. -/
theorem state?_andThen {r : Res σ} {k : σ → Res σ} {s : σ} (h : (r.andThen k).state? = some s) :
    (∃ e, r = throw e s) ∨ ∃ t, r = ok t ∧ (k t).state? = some s := by
  cases r with
  | ok t => exact .inr ⟨t, rfl, h⟩
  | throw e t =>
    rw [andThen_throw, state?_throw, Option.some.injEq] at h
    exact .inl ⟨e, by rw [h]⟩
  | abort c => simp at h

/-- A failed assertion of a sequence is one of its first part or of its rest. -/
theorem abort_andThen {r : Res σ} {k : σ → Res σ} {c : String} (h : r.andThen k = abort c) :
    r = abort c ∨ ∃ t, r = ok t ∧ k t = abort c := by
  cases r with
  | ok t => exact .inr ⟨t, rfl, h⟩
  | throw e t => cases h
  | abort d => exact .inl h

end Res

structure EpicsTimeStamp where
  secPastEpoch : UInt32
  nsec : UInt32
  deriving DecidableEq

/-- `POSIX_TIME_AT_EPICS_EPOCH` -/
def posixTimeAtEpicsEpoch : UInt32 := 631152000

/-- `MAX_STRING_SIZE` -/
def maxStringSize : ℕ := 40

/-- A `sockaddr_in`, as far as `evutil_sockaddr_cmp()` looks at it. -/
structure SockAddr where
  addr : UInt32
  port : UInt16
  deriving DecidableEq

/-- What the environment answers while messages are decoded. -/
structure RxEnv where
  now : EpicsTimeStamp
  /-- the priorities `scanIoRequest()` queues, by block and number of the request -/
  scanIoRequest : UInt16 → UInt32 → UInt32

/-- A `const void*` and its `epicsUInt32` length: the bytes behind them. -/
structure RawBuf where
  bytes : List UInt8
  lt : bytes.length < 2 ^ 32

def RawBuf.len (b : RawBuf) : UInt32 := UInt32.ofNat b.bytes.length

structure Block (E : Type) [Libevent E] where
  data : DBuffer E
  queued : Bool
  /-- bit mask of callback priorities for the in-progress scan -/
  scanBusy : UInt32
  /-- `requestScan()` called again while the previous scan was in progress -/
  scanQueued : Bool
  count : UInt32
  scanCount : UInt32
  scanOflow : UInt32
  rxtime : EpicsTimeStamp

namespace Block

open Mask

variable {E : Type} [Libevent E]

/-- `Block::Block` -/
def new : Block E where
  data := .empty
  queued := false
  scanBusy := 0
  scanQueued := false
  count := 0
  scanCount := 0
  scanOflow := 0
  rxtime := ⟨0, 0⟩

/-- `requestScan()`; `mask` is the set of priorities `scanIoRequest()` reports as queued. -/
def requestScan (mask : UInt32) (b : Block E) : Block E :=
  if b.scanBusy ≠ 0 then { b with scanQueued := true, scanOflow := b.scanOflow + 1 }
  else { b with scanBusy := mask, scanCount := b.scanCount + 1 }

/-- `scanned(prio)`: the scan of one priority is done; `mask` is what `scanIoRequest()` reports if
    it is called. -/
def scanned (prio : Fin 32) (mask : UInt32) (b : Block E) : Res (Block E) :=
  if b.scanBusy &&& bit prio = 0 then .abort "self->scanBusy & (1<<prio)"
  else
    let b := { b with scanBusy := b.scanBusy &&& ~~~bit prio }
    if b.scanBusy = 0 ∧ b.scanQueued = true then
      -- scan done, and next scan already queued
      .ok ({ b with scanQueued := false }.requestScan mask)
    else .ok b

@[simp] theorem requestScan_count (mask : UInt32) (b : Block E) :
    (b.requestScan mask).count = b.count := by
  unfold requestScan; split <;> rfl

@[simp] theorem requestScan_data (mask : UInt32) (b : Block E) :
    (b.requestScan mask).data = b.data := by
  unfold requestScan; split <;> rfl

@[simp] theorem requestScan_rxtime (mask : UInt32) (b : Block E) :
    (b.requestScan mask).rxtime = b.rxtime := by
  unfold requestScan; split <;> rfl

end Block

/-- `block_map`: the blocks of one direction by message id. -/
abbrev BlockMap (E : Type) [Libevent E] := UInt16 → Option (Block E)

namespace BlockMap

variable {E : Type} [Libevent E]

/-- The map after `getSend`/`getRecv` for the ids in `ids`. -/
def registered (ids : Finset UInt16) : BlockMap E := fun id => if id ∈ ids then some .new else none

/-- `getSend`/`getRecv`: the block of an id is created on first use. -/
def get (m : BlockMap E) (id : UInt16) : BlockMap E :=
  match m id with
  | some _ => m
  | none => fun k => if k = id then some .new else m k

/-- Change the block behind a `Block*`. -/
def modify (m : BlockMap E) (id : UInt16) (f : Block E → Block E) : BlockMap E :=
  fun k => if k = id then (m k).map f else m k

/-- `getSend`/`getRecv` gives a block. -/
theorem get_self (m : BlockMap E) (id : UInt16) : ∃ b, m.get id id = some b := by
  rw [get]
  cases hid : m id with
  | some b => exact ⟨b, hid⟩
  | none => exact ⟨.new, if_pos rfl⟩

@[simp] theorem modify_self (m : BlockMap E) (id : UInt16) (f : Block E → Block E) :
    m.modify id f id = (m id).map f := if_pos rfl

theorem modify_some {m : BlockMap E} {id : UInt16} {b : Block E} (f : Block E → Block E)
    (h : m id = some b) : m.modify id f id = some (f b) := by
  rw [modify_self, h, Option.map_some]

theorem modify_ne (m : BlockMap E) {id k : UInt16} (f : Block E → Block E) (h : k ≠ id) :
    m.modify id f k = m k := if_neg h

/-- A block that is changed twice. -/
theorem modify_modify (m : BlockMap E) (id : UInt16) (f g : Block E → Block E) :
    (m.modify id f).modify id g = m.modify id fun b => g (f b) := by
  funext k
  unfold modify
  split
  · exact Option.map_map ..
  · rfl

/-- Which ids have a block does not change. -/
@[simp] theorem modify_isSome (m : BlockMap E) (id k : UInt16) (f : Block E → Block E) :
    (m.modify id f k).isSome = (m k).isSome := by
  unfold modify; split <;> simp

end BlockMap

end Pscdrv
