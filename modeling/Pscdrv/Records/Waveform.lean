import Pscdrv.Records.Support

/-! # Byte waveforms

    A waveform of bytes shows the part of a received block that starts at the offset of its link:
    up to NELM bytes go to the array, and NORD tells how many these are.

        block   ├── offset ──┤ b₀ b₁ … ┤
        array                  b₀ b₁ …       NORD = min(NELM, size - offset)

    `read_wf_bytes` takes the result of `copyout`, which says whether all NELM bytes were there, for
    their number. -/

namespace Pscdrv.Records

open Memory

variable {E : Type} [Libevent E]

/-- A waveform record: the array behind `BPTR` has room for `NELM` elements. -/
structure WaveRec where
  nelm : UInt32
  nord : UInt32
  bptr : List UInt8
  room : bptr.length = nelm.toNat

/-- The record after bytes were copied to its array. -/
def WaveRec.fill (r : WaveRec) (raw : List UInt8) (nord : UInt32) : WaveRec where
  nelm := r.nelm
  nord := nord
  bptr := store r.bptr raw
  room := (length_store r.bptr raw).trans r.room

/-- `read_wf_bytes`; the result of `copyout` is converted to a number. -/
def readWfBytes (host : Host) (priv : Priv) (r : WaveRec) (d : Dev E) :
    Ret (WaveRec × Dev E) Unit :=
  if !d.connected then .value () (r, d.raise .read .invalid)
  else match d.data.copyout priv.offset r.nelm.toNat with
  | none => .fault
  | some (raw, ok) => setRecTimestamp host priv (r.fill raw (if ok then 1 else 0)) d

/-- The record shows the bytes of the block from the offset on, as many as there is room for. -/
def Shows (priv : Priv) (d : Dev E) (r : WaveRec) : Prop :=
  r.nord.toNat = min r.nelm.toNat (d.data.mem.length - priv.offset) ∧
    r.bptr.take r.nord.toNat = (d.data.mem.drop priv.offset).take r.nord.toNat

/-- The routine ends, and the record shows what was received. -/
def Delivers (host : Host) (priv : Priv) (r : WaveRec) (d : Dev E) : Prop :=
  ∃ r', (readWfBytes host priv r d).state?.map Prod.fst = some r' ∧ Shows priv d r'

/-- What the record is after `copyout`. -/
theorem readWfBytes_copied (host : Host) {priv : Priv} {r : WaveRec} {d : Dev E}
    (hc : d.connected = true) {raw : List UInt8} {ok : Bool}
    (h : d.data.copyout priv.offset r.nelm.toNat = some (raw, ok)) :
    (readWfBytes host priv r d).state?.map Prod.fst =
      some (r.fill raw (if ok then 1 else 0)) := by
  obtain ⟨time, htime⟩ := setRecTimestamp_state host priv (r.fill raw (if ok then 1 else 0)) d
  rw [readWfBytes, hc, h]
  exact congrArg (Option.map Prod.fst) htime

/-- There is nothing to copy at or behind the end of the block. -/
theorem BlockData.copyout_behind (d : BlockData E) {offset : ℕ} (h : d.mem.length ≤ offset)
    (n : ℕ) : d.copyout offset n = some ([], false) := by
  have hend : d.size ≤ offset := by rwa [d.size_eq]
  simp [DBuffer.copyout, DBuffer.copyoutShape, hend]

/-- Copying no bytes of a block divides by zero. -/
theorem BlockData.copyout_zero (d : BlockData E) {offset : ℕ} (h : offset < d.mem.length) :
    d.copyout offset 0 = none := by
  have hend : ¬d.size ≤ offset := by
    rw [d.size_eq]
    omega
  simp [DBuffer.copyout, DBuffer.copyoutShape, hend]

/-- Nothing is to be shown from a block that ends at or before the offset. -/
theorem delivers_behind (host : Host) {priv : Priv} {r : WaveRec} {d : Dev E}
    (hc : d.connected = true) (hend : d.data.mem.length ≤ priv.offset) :
    Delivers host priv r d := by
  refine ⟨_, readWfBytes_copied host hc (d.data.copyout_behind hend _), ?_, rfl⟩
  rw [Nat.sub_eq_zero_of_le hend, Nat.min_zero]
  rfl

/-- A record without room faults on a block that goes on behind the offset. -/
theorem not_delivers_zero (host : Host) {priv : Priv} {r : WaveRec} {d : Dev E}
    (hc : d.connected = true) (hin : priv.offset < d.data.mem.length) (hzero : r.nelm.toNat = 0) :
    ¬Delivers host priv r d := by
  rintro ⟨r', hr', -⟩
  rw [readWfBytes, hc, hzero, d.data.copyout_zero hin] at hr'
  cases hr'

/-- What `copyout` gives for a record with room. -/
theorem copyout_nelm (priv : Priv) {r : WaveRec} (d : Dev E) (hpos : 0 < r.nelm.toNat) :
    d.data.copyout priv.offset r.nelm.toNat =
      some (Flat.copyout d.data.mem priv.offset r.nelm.toNat) := by
  have hlt := d.data.lt
  have hnelm := r.nelm.toNat_lt
  exact d.data.copyout_spec hpos (by omega) (by omega)

/-- All the bytes are there: NORD is 1. -/
theorem delivers_whole (host : Host) {priv : Priv} {r : WaveRec} {d : Dev E}
    (hc : d.connected = true) (hpos : 0 < r.nelm.toNat)
    (hfit : priv.offset + r.nelm.toNat ≤ d.data.mem.length) :
    Delivers host priv r d ↔ r.nelm.toNat = 1 := by
  have hcopy := copyout_nelm priv d hpos
  rw [Flat.copyout, if_pos hfit] at hcopy
  have hrun := readWfBytes_copied host hc hcopy
  constructor
  · rintro ⟨r', hr', hnord, -⟩
    cases hrun.symm.trans hr'
    have hn : 1 = min r.nelm.toNat (d.data.mem.length - priv.offset) := hnord
    omega
  · intro hnelm
    refine ⟨_, hrun, ?_, ?_⟩
    · change 1 = min r.nelm.toNat (d.data.mem.length - priv.offset)
      omega
    · change (store r.bptr _).take 1 = _
      rw [take_store]
      · rw [List.take_take, hnelm]
        rfl
      · rw [List.length_take, List.length_drop]
        omega
      · rw [r.room]
        omega

/-- The block is too short: NORD is 0. -/
theorem not_delivers_short (host : Host) {priv : Priv} {r : WaveRec} {d : Dev E}
    (hc : d.connected = true) (hpos : 0 < r.nelm.toNat) (hin : priv.offset < d.data.mem.length)
    (hshort : ¬priv.offset + r.nelm.toNat ≤ d.data.mem.length) : ¬Delivers host priv r d := by
  have hcopy := copyout_nelm priv d hpos
  rw [Flat.copyout, if_neg hshort] at hcopy
  rintro ⟨r', hr', hnord, -⟩
  cases (readWfBytes_copied host hc hcopy).symm.trans hr'
  have hn : 0 = min r.nelm.toNat (d.data.mem.length - priv.offset) := hnord
  omega

/-- BYTE WAVEFORMS: with a connection the record shows what was received exactly if there is nothing
    to show, or room for one byte only. -/
theorem byte_waveform (host : Host) (priv : Priv) (r : WaveRec) {d : Dev E}
    (hc : d.connected = true) :
    Delivers host priv r d ↔ d.data.mem.length ≤ priv.offset ∨ r.nelm = 1 := by
  have hone : r.nelm = 1 ↔ r.nelm.toNat = 1 := by
    rw [← UInt32.toNat_inj]
    rfl
  rw [hone]
  by_cases hend : d.data.mem.length ≤ priv.offset
  · exact iff_of_true (delivers_behind host hc hend) (.inl hend)
  rw [or_iff_right hend]
  by_cases hzero : r.nelm.toNat = 0
  · exact iff_of_false (not_delivers_zero host hc (by omega) hzero) (by omega)
  by_cases hfit : priv.offset + r.nelm.toNat ≤ d.data.mem.length
  · exact delivers_whole host hc (by omega) hfit
  · exact iff_of_false (not_delivers_short host hc (by omega) (by omega) hfit) (by omega)

/-- A connected PSC has received 3 bytes. -/
def threeBytes : Dev Libevent.Chains where
  connected := true
  data := { toDBuffer := .contig [10, 20, 30], lt := by decide }
  rxtime := ⟨0, 0⟩
  alarm := ⟨.noAlarm, .noAlarm⟩
  time := ⟨0, 0⟩

/-- A record with room for `n` bytes. -/
def emptyWave (n : UInt32) : WaveRec := ⟨n, 0, List.replicate n.toNat 0, List.length_replicate⟩

/-- A record of one element. -/
theorem byte_waveform_one : Delivers .little (.at 0) (emptyWave 1) threeBytes ↔
    threeBytes.data.mem.length ≤ (Priv.at 0).offset ∨ (emptyWave 1).nelm = 1 :=
  byte_waveform .little (.at 0) (emptyWave 1) rfl

/-- A message shorter than NELM is dropped, and one that is as long is cut to one byte. -/
theorem short_message_dropped :
    (∃ r, (readWfBytes .little (.at 0) (emptyWave 10) threeBytes).state?.map Prod.fst = some r ∧
      r.nord = 0 ∧ ¬Shows (.at 0) threeBytes r) ∧
    ∃ r, (readWfBytes .little (.at 0) (emptyWave 3) threeBytes).state?.map Prod.fst = some r ∧
      r.nord = 1 ∧ r.bptr = [10, 20, 30] ∧ ¬Shows (.at 0) threeBytes r := by
  refine ⟨⟨_, rfl, rfl, ?_⟩, ⟨_, rfl, rfl, rfl, ?_⟩⟩
  · rintro ⟨hnord, -⟩
    exact absurd hnord (by decide)
  · rintro ⟨hnord, -⟩
    exact absurd hnord (by decide)

end Pscdrv.Records
