import Pscdrv.Records.Support
import Mathlib.Tactic.Common

/-! # Register records

    Settings are written one by one into a send block at the offset of their link, and sent from
    there all at once. The binary records of one word share it: each writes the bits of its mask.
    Readback records read the send block again.

        block   ├──────── byte offset ───────────────────┤
        binary            │ 4 bytes │   old & ~mask | rval & mask
        value             │ 4 or 8 bytes      │

    Nothing is written for a range that lies inside the block only in part — or so the alarm that
    the record gets would let one think. -/

namespace Pscdrv.Records

open BigEndian Memory

variable {E : Type} [EvMemory E]

/-- `RVAL` and `MASK` of the binary records. -/
structure BinaryRec where
  rval : BitVec 32
  mask : BitVec 32

/-- `VAL` of the records that read or write it as it is; `RVAL` of analog records. -/
structure ValueRec (w : Width) where
  val : BitVec w.bits

/-! ### The routines -/

section Reading

variable {E : Type} [Libevent E]

def readToField (host : Host) (priv : Priv) (w : Width) (d : Dev E) : Ret (Dev E) (BitVec w.bits) :=
  let d := d.checkConnected .read
  if d.data.size < priv.offset then .recAlarm .soft .invalid d
  else match d.data.copyoutShape priv.offset w.bytes 0 1 with
  | none => .fault
  | some (raw, n) =>
    if n ≠ 1 then .recAlarm .soft .invalid d
    else .value (ntoh host w (host.load w raw)) d

/-- The end of a `try` block that goes on with a record. -/
def Ret.withRec {R σ α : Type} (r : R) : Ret σ α → (α → σ → Ret (R × σ) Unit) → Ret (R × σ) Unit
  | .value a s, k => k a s
  | .recAlarm stat sevr s, _ => .recAlarm stat sevr (r, s)
  | .exception s, _ => .exception (r, s)
  | .fault, _ => .fault

/-- `read_binary` -/
def readBinary (host : Host) (priv : Priv) (r : BinaryRec) (d : Dev E) :
    Ret (BinaryRec × Dev E) Unit :=
  (readToField host priv .w4 d).withRec r fun (temp : BitVec 32) d =>
    let temp := if r.mask ≠ 0 then temp &&& r.mask else temp
    setRecTimestamp host priv { r with rval := temp } d

/-- `read_to_val` -/
def readToVal {w : Width} (host : Host) (priv : Priv) (r : ValueRec w) (d : Dev E) :
    Ret (ValueRec w × Dev E) Unit :=
  (readToField host priv w d).withRec r fun v d => setRecTimestamp host priv { r with val := v } d

/-- `read_ai` -/
def readAi (host : Host) (priv : Priv) (r : ValueRec .w4) (d : Dev E) :
    Ret (ValueRec .w4 × Dev E) Unit := readToVal host priv r d

end Reading

/-- Store into the block; `copyin` keeps its size. -/
def BlockData.copyin (d : BlockData E) (buf : List UInt8) (offset : ℕ) : BlockData E × Bool :=
  let r := d.toDBuffer.copyin buf offset
  ({ toDBuffer := r.1
     lt := by
      rw [DBuffer.mem_copyin, length_overwrite (d.copyin_fits buf offset)]
      exact d.lt },
    r.2)

/-- `write_from_field` -/
def writeFromField (host : Host) (priv : Priv) {w : Width} (v : BitVec w.bits) (d : Dev E) :
    Ret (Dev E) Unit :=
  let d := d.checkConnected .write
  let temp := host.image (hton host w v)
  if d.data.size < priv.offset then .recAlarm .soft .invalid d
  else
    let r := d.data.copyin temp priv.offset
    let d := { d with data := r.1 }
    if r.2 then .value () d else .recAlarm .soft .invalid d

/-- `write_binary` -/
def writeBinary (host : Host) (priv : Priv) (r : BinaryRec) (d : Dev E) : Ret (Dev E) Unit :=
  if r.mask ≠ 0 then
    (readToField host priv .w4 d).bind fun (temp : BitVec 32) d =>
      writeFromField host priv (w := .w4) (temp &&& ~~~r.mask ||| r.rval &&& r.mask) d
  else writeFromField host priv (w := .w4) r.rval d

/-- `write_from_val` -/
def writeFromVal (host : Host) (priv : Priv) {w : Width} (val : BitVec w.bits) (d : Dev E) :
    Ret (Dev E) Unit :=
  writeFromField host priv val d

def writeAo (host : Host) (priv : Priv) (rval : BitVec 32) (d : Dev E) : Ret (Dev E) Unit :=
  writeFromField host priv (w := .w4) rval d

/-- `write_ao_float`; `toRaw` is the conversion of the record's value by `analogEGU2Raw`. -/
def writeAoFloat {V : Type} (host : Host) (priv : Priv) {w : Width} (toRaw : V → BitVec w.bits)
    (val : V) (d : Dev E) : Ret (Dev E) Unit :=
  writeFromField host priv (toRaw val) d

/-- The routines that reach `write_from_field`, with what they take from their record. -/
inductive Writer (V : Type) where
  | binary (r : BinaryRec)
  | value (w : Width) (val : BitVec w.bits)
  | ao (rval : BitVec 32)
  | aoFloat (w : Width) (toRaw : V → BitVec w.bits) (val : V)

namespace Writer

variable {V : Type}

def run (host : Host) (priv : Priv) : Writer V → Dev E → Ret (Dev E) Unit
  | binary r => writeBinary host priv r
  | value _ val => writeFromVal host priv val
  | ao rval => writeAo host priv rval
  | aoFloat _ toRaw val => writeAoFloat host priv toRaw val

def width : Writer V → Width
  | binary _ => .w4
  | value w _ => w
  | ao _ => .w4
  | aoFloat w _ _ => w

end Writer

/-! ### Reading and writing a range -/

/-- The range of a value lies inside the block. -/
def Fits {E : Type} [Libevent E] (priv : Priv) (w : Width) (d : Dev E) : Prop :=
  priv.offset + w.bytes ≤ d.data.mem.length

/-- The bytes at the offset of a link. -/
def field {E : Type} [Libevent E] (priv : Priv) (w : Width) (d : Dev E) : List UInt8 :=
  (d.data.mem.drop priv.offset).take w.bytes

theorem length_field {E : Type} [Libevent E] {priv : Priv} {w : Width} {d : Dev E}
    (h : Fits priv w d) : (field priv w d).length = w.bytes := by
  unfold Fits at h
  rw [field, List.length_take, List.length_drop]
  omega

/-- READ: a range inside the block is decoded. -/
theorem readToField_fits {E : Type} [Libevent E] (host : Host) {priv : Priv} {w : Width} {d : Dev E}
    (h : Fits priv w d) : readToField host priv w d =
      .value (ntoh host w (host.load w (field priv w d))) (d.checkConnected .read) := by
  have hw := w.bytes_pos
  unfold Fits at h
  have hone : Flat.copyoutShape d.data.mem priv.offset w.bytes 0 1 = (field priv w d, 1) := by
    simp [Flat.copyoutShape, Flat.wholeElements, h, field]
  unfold readToField
  simp only [Dev.checkConnected_data, d.data.copyoutShape_one priv.offset hw w.bytes_lt, hone]
  rw [d.data.size_eq, if_neg (by omega), if_neg (by simp)]

/-- A range that is not inside the block is not read. -/
theorem readToField_outside {E : Type} [Libevent E] (host : Host) {priv : Priv} {w : Width}
    {d : Dev E} (h : ¬Fits priv w d) :
    readToField host priv w d = .recAlarm .soft .invalid (d.checkConnected .read) := by
  unfold Fits at h
  have hnone : Flat.copyoutShape d.data.mem priv.offset w.bytes 0 1 = ([], 0) := by
    simp [Flat.copyoutShape, Flat.wholeElements, h]
  unfold readToField
  simp only [Dev.checkConnected_data, d.data.copyoutShape_one priv.offset w.bytes_pos w.bytes_lt,
    hnone]
  split <;> rfl

/-- The bytes that are stored for a value. -/
def stored (host : Host) {w : Width} (v : BitVec w.bits) : List UInt8 := host.image (hton host w v)

@[simp] theorem length_stored (host : Host) {w : Width} (v : BitVec w.bits) :
    (stored host v).length = w.bytes := host.length_image _

/-- What `copyin` leaves in the block, and whether it reports success. -/
theorem BlockData.copyin_spec (d : BlockData E) (buf : List UInt8) (offset : ℕ) :
    ((d.copyin buf offset).1.mem, (d.copyin buf offset).2) = Flat.copyin d.mem buf offset :=
  d.toDBuffer.copyin_spec buf offset

/-- WRITE: a range inside the block is overwritten. -/
theorem writeFromField_fits (host : Host) {priv : Priv} {w : Width} (v : BitVec w.bits) {d : Dev E}
    (h : Fits priv w d) : ∃ d', writeFromField host priv v d = .value () d' ∧
      d'.data.mem = overwrite d.data.mem priv.offset (stored host v) := by
  unfold Fits at h
  have hspec := d.data.copyin_spec (stored host v) priv.offset
  rw [Flat.copyin, if_pos (by rwa [length_stored])] at hspec
  obtain ⟨hmem, hok⟩ := Prod.ext_iff.mp hspec
  refine ⟨{ d.checkConnected .write with
    data := (d.data.copyin (stored host v) priv.offset).1 }, ?_, hmem⟩
  unfold writeFromField
  simp only [Dev.checkConnected_data]
  rw [d.data.size_eq, if_neg (by omega)]
  exact if_pos hok

/-- A range that is not inside the block ends with an alarm, but the part that is gets written. -/
theorem writeFromField_outside (host : Host) {priv : Priv} {w : Width} (v : BitVec w.bits)
    {d : Dev E} (h : ¬Fits priv w d) :
    ∃ d', writeFromField host priv v d = .recAlarm .soft .invalid d' ∧
      d'.data.mem = overwrite d.data.mem (min priv.offset d.data.mem.length)
        ((stored host v).take (d.data.mem.length - priv.offset)) := by
  have hw := w.bytes_pos
  unfold Fits at h
  unfold writeFromField
  simp only [Dev.checkConnected_data]
  by_cases hbehind : d.data.size < priv.offset
  · refine ⟨_, if_pos hbehind, ?_⟩
    rw [d.data.size_eq] at hbehind
    rw [Dev.checkConnected_data, Nat.sub_eq_zero_of_le (by omega), List.take_zero, overwrite_nil]
  · rw [if_neg hbehind]
    rw [d.data.size_eq] at hbehind
    have hspec := d.data.copyin_spec (stored host v) priv.offset
    rw [Flat.copyin, if_neg (by rwa [length_stored])] at hspec
    obtain ⟨hmem, hok⟩ := Prod.ext_iff.mp hspec
    have hne : stored host v ≠ [] := List.ne_nil_of_length_pos (by rw [length_stored]; exact hw)
    refine ⟨_, if_neg ?_, ?_⟩
    · change ¬(d.data.copyin (stored host v) priv.offset).2 = true
      rw [hok]
      simp [hne]
    · rw [Nat.min_eq_left (by omega)]
      exact hmem

/-- With a mask, nothing is written to a range that is not inside the block. -/
theorem writeBinary_outside (host : Host) {priv : Priv} {r : BinaryRec} (hmask : r.mask ≠ 0)
    {d : Dev E} (h : ¬Fits priv .w4 d) :
    writeBinary host priv r d = .recAlarm .soft .invalid (d.checkConnected .read) := by
  rw [writeBinary, if_pos hmask, readToField_outside host h]
  rfl

/-- The big-endian word at the offset of a link. -/
def word {E : Type} [Libevent E] (priv : Priv) (d : Dev E) : BitVec 32 :=
  .ofNat 32 (ofBe (field priv .w4 d))

/-- What `read_to_field` reads of 4 bytes is the big-endian word. -/
theorem ntoh_field {E : Type} [Libevent E] (host : Host) {priv : Priv} {d : Dev E}
    (h : Fits priv .w4 d) : ntoh host .w4 (host.load .w4 (field priv .w4 d)) = word priv d := by
  have hlen : (field priv .w4 d).length = 4 := length_field h
  have hlt := ofBe_lt (field priv .w4 d)
  have himage : field priv .w4 d = stored host (w := .w4) (word priv d) := by
    rw [stored, image_hton_w4, word, BitVec.toNat_ofNat, Nat.mod_eq_of_lt (by rwa [hlen] at hlt),
      ← hlen, be_ofBe]
  rw [himage, stored, Host.load_image, ntoh_hton]

/-- With a mask, the bits of the mask are replaced in the word at the offset. -/
theorem writeBinary_masked (host : Host) {priv : Priv} {r : BinaryRec} (hmask : r.mask ≠ 0)
    {d : Dev E} (h : Fits priv .w4 d) : ∃ d', writeBinary host priv r d = .value () d' ∧
      d'.data.mem = overwrite d.data.mem priv.offset
        (stored host (w := .w4) (word priv d &&& ~~~r.mask ||| r.rval &&& r.mask)) := by
  have hfit : Fits priv .w4 (d.checkConnected .read) := by
    rw [Fits, Dev.checkConnected_data]
    exact h
  obtain ⟨d', hwrite, hmem⟩ := writeFromField_fits host (w := .w4)
    (word priv d &&& ~~~r.mask ||| r.rval &&& r.mask) hfit
  rw [Dev.checkConnected_data] at hmem
  refine ⟨d', ?_, hmem⟩
  rw [writeBinary, if_pos hmask, readToField_fits host h, ntoh_field host h]
  exact hwrite

/-! ### Failed writes -/

namespace Writer

variable {V : Type}

/-- The value a routine writes that does not read the block first. -/
def blind (host : Host) : Writer V → List UInt8
  | binary r => stored host (w := .w4) r.rval
  | value _ val => stored host val
  | ao rval => stored host (w := .w4) rval
  | aoFloat _ toRaw val => stored host (toRaw val)

/-- `write_binary` with a mask reads the block first. -/
def masked : Writer V → Prop
  | binary r => r.mask ≠ 0
  | _ => False

/-- A routine without a mask is `write_from_field`. -/
theorem run_blind (host : Host) (priv : Priv) {w : Writer V} (h : ¬w.masked) (d : Dev E) :
    ∃ v : BitVec w.width.bits, w.run host priv d = writeFromField host priv v d ∧
      w.blind host = stored host v := by
  cases w with
  | binary r =>
    refine ⟨r.rval, ?_, rfl⟩
    exact if_neg h
  | value w val => exact ⟨val, rfl, rfl⟩
  | ao rval => exact ⟨rval, rfl, rfl⟩
  | aoFloat w toRaw val => exact ⟨toRaw val, rfl, rfl⟩

/-- With a mask nothing is written to a range that is not inside the block. -/
theorem run_masked_outside (host : Host) {priv : Priv} {w : Writer V} (h : w.masked) {d : Dev E}
    (hout : ¬Fits priv w.width d) :
    w.run host priv d = .recAlarm .soft .invalid (d.checkConnected .read) := by
  cases w with
  | binary r => exact writeBinary_outside host h hout
  | _ => cases h

/-- A routine ends with an alarm only where the range is not inside the block. -/
theorem outside_of_recAlarm {host : Host} {priv : Priv} {w : Writer V} {d d' : Dev E}
    {stat : AlarmStat} {sevr : AlarmSevr} (h : w.run host priv d = .recAlarm stat sevr d') :
    ¬Fits priv w.width d := by
  intro hfit
  by_cases hmask : w.masked
  · cases w with
    | binary r =>
      obtain ⟨u, hu, -⟩ := writeBinary_masked host hmask hfit
      cases hu.symm.trans h
    | _ => cases hmask
  · obtain ⟨v, hrun, -⟩ := run_blind host priv hmask d
    obtain ⟨u, hu, -⟩ := writeFromField_fits host v hfit
    cases hu.symm.trans (hrun.symm.trans h)

end Writer

/-- FAILED WRITES: a write that ends with an alarm leaves the block as it was exactly if it has a
    mask, or its offset is at or behind the end of the block, or the part of the value for which
    there is room was there before. -/
theorem failed_write {V : Type} {host : Host} {priv : Priv} {w : Writer V} {d d' : Dev E}
    {stat : AlarmStat} {sevr : AlarmSevr} (h : w.run host priv d = .recAlarm stat sevr d') :
    d'.data.mem = d.data.mem ↔ w.masked ∨ d.data.mem.length ≤ priv.offset ∨
      (w.blind host).take (d.data.mem.length - priv.offset) = d.data.mem.drop priv.offset := by
  have hout := Writer.outside_of_recAlarm h
  by_cases hmask : w.masked
  · rw [Writer.run_masked_outside host hmask hout] at h
    cases h
    exact iff_of_true (by rw [Dev.checkConnected_data]) (.inl hmask)
  obtain ⟨v, hrun, hblind⟩ := Writer.run_blind host priv hmask d
  obtain ⟨u, hu, hmem⟩ := writeFromField_outside host v hout
  rw [hrun, hu] at h
  cases h
  rw [hmem, hblind, or_iff_right hmask]
  by_cases hend : d.data.mem.length ≤ priv.offset
  · rw [Nat.sub_eq_zero_of_le hend, List.take_zero, overwrite_nil]
    exact iff_of_true rfl (.inl hend)
  rw [or_iff_right hend, Nat.min_eq_left (by omega)]
  -- the part that is written reaches to the end of the block
  have hlen : ((stored host v).take (d.data.mem.length - priv.offset)).length =
      d.data.mem.length - priv.offset := by
    have hshort : ¬priv.offset + w.width.bytes ≤ d.data.mem.length := hout
    rw [List.length_take, length_stored]
    omega
  have hrest : d.data.mem.drop (priv.offset + (d.data.mem.length - priv.offset)) = [] :=
    List.drop_of_length_le (by omega)
  rw [overwrite, hlen, hrest, List.append_nil]
  conv_lhs => rhs; rw [← List.take_append_drop priv.offset d.data.mem]
  exact List.append_right_inj _

/-- A block of 6 bytes. -/
def sixBytes : Dev Libevent.Chains where
  connected := true
  data := { toDBuffer := .contig [9, 8, 7, 6, 5, 4], lt := by decide }
  rxtime := ⟨0, 0⟩
  alarm := ⟨.noAlarm, .noAlarm⟩
  time := ⟨0, 0⟩

/-- `write_from_val` with 4 bytes. -/
def fourBytes : Writer Unit := .value .w4 0x01020304

/-- Behind the end nothing is written. -/
theorem failed_write_behind :
    ∃ d', fourBytes.run .little (.at 6) sixBytes = .recAlarm .soft .invalid d' ∧
      (d'.data.mem = sixBytes.data.mem ↔ fourBytes.masked ∨
        sixBytes.data.mem.length ≤ (Priv.at 6).offset ∨
        (fourBytes.blind .little).take (sixBytes.data.mem.length - (Priv.at 6).offset) =
          sixBytes.data.mem.drop (Priv.at 6).offset) :=
  ⟨_, rfl, failed_write (rfl : fourBytes.run .little (.at 6) sixBytes = .recAlarm .soft .invalid _)⟩

/-- At offset 4 there is room for 2 bytes of 4: they are written, and the write fails. -/
theorem half_written :
    ∃ d', fourBytes.run .little (.at 4) sixBytes = .recAlarm .soft .invalid d' ∧
      d'.data.mem = [9, 8, 7, 6, 1, 2] ∧ d'.data.mem ≠ sixBytes.data.mem :=
  ⟨_, rfl, by decide, by decide⟩

end Pscdrv.Records
