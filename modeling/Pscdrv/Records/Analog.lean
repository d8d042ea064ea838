import Pscdrv.Records.Layout
import Pscdrv.Schemes.Stages

/-! # Conversions of analog records

    An analog record has a value in engineering units and a raw value. The conversion goes through
    stages with the parameters of the record; the first and the last two of them depend on the
    kind of conversion.

        analogRaw2EGU   raw ─ + roff ─ * aslo ─ + aoff ─┬─ + eoff ─ * eslo ─▶ EGU
        analogEGU2Raw   raw ◀ - roff ─ / aslo ─ - aoff ─┴─ / eslo ─ - eoff ── EGU

    The stages with `eslo` and `eoff` are passed in the same order in both directions. Numbers are
    elements of a field, such as the rational numbers. -/

namespace Pscdrv.Records

open Memory Stages

/-- `menuConvert` -/
inductive MenuConvert where
  | noConversion
  | slope
  | linear
  /-- the tables of thermocouples and others -/
  | table (n : ℕ)
  deriving DecidableEq

/-- The parameters of an analog record. -/
structure AnalogRec (F : Type) where
  linr : MenuConvert
  aslo : F
  aoff : F
  eslo : F
  eoff : F
  roff : ℤ

variable {F : Type} [Field F] [DecidableEq F]

namespace AnalogRec

variable (prec : AnalogRec F)

/-- `analogRaw2EGU` -/
def analogRaw2EGU (rval : F) : F :=
  let v := rval + prec.roff
  let v := if prec.aslo ≠ 0 then v * prec.aslo else v
  let v := v + prec.aoff
  match prec.linr with
  | .linear | .slope => (v + prec.eoff) * prec.eslo
  | .noConversion | .table _ => v

/-- `analogEGU2Raw`, before the conversion to the type of the raw value -/
def analogEGU2Raw (v : F) : F :=
  let v := match prec.linr with
    | .linear | .slope => (v - prec.eoff) / prec.eslo
    | .noConversion | .table _ => v
  let v := v - prec.aoff
  let v := if prec.aslo ≠ 0 then v / prec.aslo else v
  v - prec.roff

/-- The conversion with `eslo` and `eoff` is made. -/
def Converts : Prop := prec.linr = .linear ∨ prec.linr = .slope

/-- There is no such conversion, or the order of its stages does not matter. -/
def Undoes : Prop := ¬prec.Converts ∨ prec.eoff = 0 ∨ prec.eslo = 1

/-- The stages that both directions pass in opposite order. -/
def adjust : List (Stage F) :=
  [.add prec.roff] ++ (if prec.aslo ≠ 0 then [.mul prec.aslo] else []) ++ [.add prec.aoff]

theorem adjust_invertible : ∀ s ∈ prec.adjust, s.Invertible := by
  intro s hs
  unfold adjust at hs
  split at hs
  · rename_i haslo
    simp only [List.cons_append, List.nil_append, List.mem_cons, List.not_mem_nil, or_false] at hs
    rcases hs with rfl | rfl | rfl
    · trivial
    · exact haslo
    · trivial
  · simp only [List.append_nil, List.cons_append, List.nil_append, List.mem_cons, List.not_mem_nil,
      or_false] at hs
    rcases hs with rfl | rfl
    · trivial
    · trivial

theorem analogRaw2EGU_eq (rval : F) : prec.analogRaw2EGU rval =
    if prec.linr = .linear ∨ prec.linr = .slope then
      run [.add prec.eoff, .mul prec.eslo] (run prec.adjust rval)
    else run prec.adjust rval := by
  have hadjust : run prec.adjust rval =
      (if prec.aslo ≠ 0 then (rval + prec.roff) * prec.aslo else rval + prec.roff) + prec.aoff := by
    unfold adjust
    split <;> rfl
  rw [hadjust, analogRaw2EGU]
  cases prec.linr <;> rfl

theorem analogEGU2Raw_eq (v : F) : prec.analogEGU2Raw v = undo prec.adjust
    (if prec.linr = .linear ∨ prec.linr = .slope then
      undo [.mul prec.eslo, .add prec.eoff] v
    else v) := by
  have hadjust : ∀ u, undo prec.adjust u =
      (if prec.aslo ≠ 0 then (u - prec.aoff) / prec.aslo else u - prec.aoff) - prec.roff := by
    intro u
    unfold adjust
    split <;> rfl
  rw [hadjust, analogEGU2Raw]
  cases prec.linr <;> rfl

/-- THERE: a value in engineering units is converted to the raw value and back. -/
theorem raw2EGU_EGU2Raw_iff (hslo : prec.eslo ≠ 0) (v : F) :
    prec.analogRaw2EGU (prec.analogEGU2Raw v) = v ↔ prec.Undoes := by
  rw [analogRaw2EGU_eq, analogEGU2Raw_eq, run_undo prec.adjust_invertible]
  unfold Undoes Converts
  split
  · rename_i hconv
    rw [run_undo_swapped_iff hslo, or_iff_right (not_not.mpr hconv)]
  · rename_i hconv
    exact iff_of_true rfl (.inl hconv)

/-- AND BACK: a raw value is converted to engineering units and back. -/
theorem EGU2Raw_raw2EGU_iff (hslo : prec.eslo ≠ 0) (rval : F) :
    prec.analogEGU2Raw (prec.analogRaw2EGU rval) = rval ↔ prec.Undoes := by
  rw [analogRaw2EGU_eq, analogEGU2Raw_eq]
  unfold Undoes Converts
  split
  · rename_i hconv
    conv_lhs => rhs; rw [← undo_run prec.adjust_invertible rval]
    rw [undo_injective prec.adjust_invertible, undo_run_swapped_iff hslo,
      or_iff_right (not_not.mpr hconv)]
  · rename_i hconv
    exact iff_of_true (undo_run prec.adjust_invertible rval) (.inl hconv)

end AnalogRec

/-! ### Through a register -/

/-- The type of a raw value: how a number is converted to it, and the number it stands for. -/
structure Codec (F : Type) (w : Width) where
  enc : F → BitVec w.bits
  dec : BitVec w.bits → F

/-- The number is one of the type, so that nothing is rounded. -/
def Codec.Exact {w : Width} (c : Codec F w) (rval : F) : Prop := c.dec (c.enc rval) = rval

/-- `analogEGU2Raw<T>` of a record -/
def AnalogRec.toRaw (prec : AnalogRec F) {w : Width} (c : Codec F w) (val : F) : BitVec w.bits :=
  c.enc (prec.analogEGU2Raw val)

/-- `analogRaw2EGU<double>` of a record -/
def AnalogRec.toEGU (prec : AnalogRec F) {w : Width} (c : Codec F w) (rval : BitVec w.bits) : F :=
  prec.analogRaw2EGU (c.dec rval)

/-- `VAL` and `UDF` of an analog input record. -/
structure AiRec (D : Type) where
  val : D
  udf : Bool

/-- `read_ai_float`; `toEGU` is the conversion of the raw value by `analogRaw2EGU`. -/
def readAiFloat {E D : Type} [Libevent E] (host : Host) (priv : Priv) {w : Width}
    (toEGU : BitVec w.bits → D) (isnan : D → Bool) (r : AiRec D) (d : Dev E) :
    Ret (AiRec D × Dev E) Unit :=
  (readToField host priv w d).withRec r fun v d =>
    let val := toEGU v
    setRecTimestamp host priv ⟨val, isnan val⟩ d

/-- A value with an exact raw value is converted back as without a type. -/
theorem AnalogRec.toEGU_toRaw_iff (prec : AnalogRec F) (hslo : prec.eslo ≠ 0) {w : Width}
    {c : Codec F w} {v : F} (h : c.Exact (prec.analogEGU2Raw v)) :
    prec.toEGU c (prec.toRaw c v) = v ↔ prec.Undoes := by
  have hdec : c.dec (c.enc (prec.analogEGU2Raw v)) = prec.analogEGU2Raw v := h
  rw [toEGU, toRaw, hdec, prec.raw2EGU_EGU2Raw_iff hslo]

/-- READ: the value of a range inside the block. -/
theorem readAiFloat_fits {E D : Type} [Libevent E] (host : Host) {priv : Priv} {w : Width}
    (toEGU : BitVec w.bits → D) (isnan : D → Bool) (r : AiRec D) {d : Dev E} {v : BitVec w.bits}
    (h : Fits priv w d) (hv : field priv w d = stored host v) :
    ((readAiFloat host priv toEGU isnan r d).state?.map fun s => s.1.val) = some (toEGU v) := by
  have hload : ntoh host w (host.load w (field priv w d)) = v := by
    rw [hv, stored, Host.load_image, ntoh_hton]
  obtain ⟨time, htime⟩ := setRecTimestamp_state host priv
    (⟨toEGU v, isnan (toEGU v)⟩ : AiRec D) (d.checkConnected .read)
  rw [readAiFloat, readToField_fits host h, hload]
  exact congrArg (Option.map fun s : AiRec D × Dev E => s.1.val) htime

/-- A value is written to a block by `write_ao_float`, and read by `read_ai_float` from one that
    has the same bytes. -/
def RegisterRoundTrip (E : Type) [EvMemory E] (host : Host) (prec : AnalogRec F) {w : Width}
    (c : Codec F w) (isnan : F → Bool) (v : F) : Prop :=
  ∀ (pw : Priv) (d d' : Dev E), writeAoFloat host pw (prec.toRaw c) v d = .value () d' →
    ∀ (pr : Priv) (d₂ : Dev E) (r : AiRec F), Fits pr w d₂ → field pr w d₂ = field pw w d' →
      ((readAiFloat host pr (prec.toEGU c) isnan r d₂).state?.map fun s => s.1.val) = some v

section Register

variable {E : Type} [EvMemory E] (host : Host) {priv : Priv} {w : Width}

/-- What a successful write leaves at the offset. -/
theorem field_written {v : BitVec w.bits} {d d' : Dev E}
    (h : writeFromField host priv v d = .value () d') :
    Fits priv w d' ∧ field priv w d' = stored host v := by
  by_cases hfit : Fits priv w d
  · obtain ⟨d₁, hwrite, hmem⟩ := writeFromField_fits host v hfit
    cases hwrite.symm.trans h
    have hin : priv.offset + (stored host v).length ≤ d.data.mem.length := by
      rw [length_stored]
      exact hfit
    have hread := read_overwrite hin
    rw [length_stored] at hread
    refine ⟨?_, ?_⟩
    · rw [Fits, hmem, length_overwrite hin]
      exact hfit
    · rw [field, hmem, hread]
  · obtain ⟨d₁, hwrite, -⟩ := writeFromField_outside host v hfit
    cases hwrite.symm.trans h

/-- A block of eight bytes. -/
def eightBytes : Dev E where
  connected := true
  data := { toDBuffer := .contig [0, 0, 0, 0, 0, 0, 0, 0],
            lt := (show 8 < 2 ^ 64 by decide) }
  rxtime := ⟨0, 0⟩
  alarm := ⟨.noAlarm, .noAlarm⟩
  time := ⟨0, 0⟩

/-- REGISTER: what is written is read back if the conversions undo each other. -/
theorem registerRoundTrip_iff (prec : AnalogRec F) (hslo : prec.eslo ≠ 0) {c : Codec F w}
    (isnan : F → Bool) {v : F} (h : c.Exact (prec.analogEGU2Raw v)) :
    RegisterRoundTrip E host prec c isnan v ↔ prec.Undoes := by
  rw [← prec.toEGU_toRaw_iff hslo h]
  constructor
  · intro hround
    have hfit : Fits (.at 0) w (eightBytes : Dev E) := by
      have hw : w.bytes ≤ 8 := by cases w <;> decide
      change 0 + w.bytes ≤ 8
      omega
    obtain ⟨d', hwrite, -⟩ := writeFromField_fits host (prec.toRaw c v) hfit
    obtain ⟨hin, hfield⟩ := field_written host hwrite
    have hread := hround (.at 0) eightBytes d' hwrite (.at 0) d' ⟨v, false⟩ hin rfl
    rw [readAiFloat_fits host _ _ _ hin hfield] at hread
    exact Option.some.inj hread
  · intro hback pw d d' hwrite pr d₂ r hin hsame
    rw [(field_written host hwrite).2] at hsame
    rw [readAiFloat_fits host _ _ _ hin hsame, hback]

end Register

/-! ### Through a message -/

section Message

open Single

/-- The message that a record of `write_msg_val_ao` sends, and `read_ai_float` on a block in which
    the value lies as in the message. -/
def MessageRoundTrip (E : Type) [Libevent E] {P : Type} {w : Width} (K : Link w P (AoRec F))
    (prec : AnalogRec F) (c : Codec F w) (isnan : F → Bool) (ao : AoRec F) : Prop :=
  ∀ stack (priv : Priv) (d : Dev E) (r : AiRec F), Fits priv w d →
    field priv w d = ((K.tosend (K.routine.out ao) stack).drop (valAt w)).take w.bytes →
    ((readAiFloat K.host priv (prec.toEGU c) isnan r d).state?.map fun s => s.1.val) = some ao.val

/-- MESSAGE: what is sent is read back if the conversions undo each other. -/
theorem messageRoundTrip_iff {E P : Type} [EvMemory E] {w : Width} (prec : AnalogRec F)
    (hslo : prec.eslo ≠ 0) {c : Codec F w} {isnan : F → Bool} {K : Link w P (AoRec F)}
    (hK : K.routine = writeMsgValAo (prec.toRaw c) (prec.toEGU c) isnan) {ao : AoRec F}
    (h : c.Exact (prec.analogEGU2Raw ao.val)) :
    MessageRoundTrip E K prec c isnan ao ↔ prec.Undoes := by
  have hout : K.routine.out ao = prec.toRaw c ao.val := by rw [hK]; rfl
  have hread : ∀ stack (priv : Priv) (d : Dev E) (r : AiRec F), Fits priv w d →
      field priv w d = ((K.tosend (K.routine.out ao) stack).drop (valAt w)).take w.bytes →
      ((readAiFloat K.host priv (prec.toEGU c) isnan r d).state?.map fun s => s.1.val) =
        some (prec.toEGU c (prec.toRaw c ao.val)) := by
    intro stack priv d r hin hfield
    rw [tosend_val, hout] at hfield
    exact readAiFloat_fits K.host _ _ _ hin hfield
  rw [← prec.toEGU_toRaw_iff hslo h]
  constructor
  · intro hround
    -- a block with the value alone
    let d : Dev E := { (eightBytes : Dev E) with
      data :=
        { toDBuffer := .contig (stored K.host (K.routine.out ao))
          lt := by
            rw [DBuffer.mem_contig, length_stored]
            cases w <;> decide } }
    have hmem : d.data.mem = stored K.host (K.routine.out ao) := DBuffer.mem_contig _
    have hin : Fits (.at 0) w d := by
      rw [Fits, hmem, length_stored]
      exact Nat.le_of_eq (Nat.zero_add _)
    have hfield : field (.at 0) w d =
        ((K.tosend (K.routine.out ao) fun _ => 0).drop (valAt w)).take w.bytes := by
      rw [tosend_val, field, hmem]
      exact List.take_of_length_le (Nat.le_of_eq (length_stored ..))
    have hval := hround _ _ _ ⟨ao.val, false⟩ hin hfield
    rw [hread _ _ _ _ hin hfield] at hval
    exact Option.some.inj hval
  · intro hback stack priv d r hin hfield
    rw [hread stack priv d r hin hfield, hback]

/-- A record of `write_msg_val_ao` gets the message that it has sent back, and takes the value from
    it. -/
def SyncRoundTrip {E P : Type} [Libevent E] {w : Width} (K : Link w P (AoRec F))
    (s : State E P (AoRec F)) : Prop :=
  ∀ stack stack' (body : BlockData E), body.mem = K.tosend (K.routine.out s.record) stack →
    (K.write stack' { s with data := body, syncData := body.mem, syncNow := true }).map
      (fun t => t.record.val) = some s.record.val

/-- SYNC: what is sent is synced back if the conversions undo each other. -/
theorem syncRoundTrip_iff {E P : Type} [Libevent E] {w : Width} (prec : AnalogRec F)
    (hslo : prec.eslo ≠ 0) {c : Codec F w} {isnan : F → Bool} {K : Link w P (AoRec F)}
    (hK : K.routine = writeMsgValAo (prec.toRaw c) (prec.toEGU c) isnan)
    (haddr : K.offset < 2 ^ 32) {s : State E P (AoRec F)}
    (h : c.Exact (prec.analogEGU2Raw s.record.val)) : SyncRoundTrip K s ↔ prec.Undoes := by
  have hsync : ∀ stack stack' (body : BlockData E),
      body.mem = K.tosend (K.routine.out s.record) stack →
      (K.write stack' { s with data := body, syncData := body.mem, syncNow := true }).map
        (fun t => t.record.val) = some (prec.toEGU c (prec.toRaw c s.record.val)) := by
    intro stack stack' body hbody
    obtain ⟨alarm, hread⟩ := readMsg_tosend K haddr (K.routine.out s.record)
      (K.routine.start s.record) stack (s := { s with syncNow := true }) hbody
    rw [Link.write, Link.attempt, if_neg (by simp), hread]
    change some (K.routine.store (K.routine.out s.record) s.record).val = _
    rw [hK]
    rfl
  rw [← prec.toEGU_toRaw_iff hslo h]
  constructor
  · intro hround
    let body : BlockData E := {
      toDBuffer := .contig (K.tosend (K.routine.out s.record) fun _ => 0)
      lt := by
        rw [DBuffer.mem_contig, K.length_tosend]
        exact (Link.frameSize_lt w).trans (by decide) }
    have hval := hround (fun _ => 0) (fun _ => 0) body rfl
    rw [hsync _ _ body rfl] at hval
    exact Option.some.inj hval
  · intro hback stack stack' body hbody
    rw [hsync stack stack' body hbody, hback]

end Message

/-- ANALOG CONVERSIONS: a value stays as it is, converted to the raw value and back, or the other
    way round, or written to a register or in a message and read back, or synced back, each exactly
    if there is no conversion with `eslo` and `eoff`, or the order of its stages does not matter. -/
theorem analog_inverse {E P : Type} [EvMemory E] (prec : AnalogRec F) (hslo : prec.eslo ≠ 0) :
    (∀ v, prec.analogRaw2EGU (prec.analogEGU2Raw v) = v ↔ prec.Undoes) ∧
    (∀ rval, prec.analogEGU2Raw (prec.analogRaw2EGU rval) = rval ↔ prec.Undoes) ∧
    (∀ (host : Host) (w : Width) (c : Codec F w) (isnan : F → Bool) (v : F),
      c.Exact (prec.analogEGU2Raw v) →
      (RegisterRoundTrip E host prec c isnan v ↔ prec.Undoes)) ∧
    (∀ (w : Width) (c : Codec F w) (isnan : F → Bool) (K : Single.Link w P (Single.AoRec F))
      (ao : Single.AoRec F),
      K.routine = Single.writeMsgValAo (prec.toRaw c) (prec.toEGU c) isnan →
      c.Exact (prec.analogEGU2Raw ao.val) → (MessageRoundTrip E K prec c isnan ao ↔ prec.Undoes)) ∧
    ∀ (w : Width) (c : Codec F w) (isnan : F → Bool) (K : Single.Link w P (Single.AoRec F))
      (s : Single.State E P (Single.AoRec F)),
      K.routine = Single.writeMsgValAo (prec.toRaw c) (prec.toEGU c) isnan → K.offset < 2 ^ 32 →
      c.Exact (prec.analogEGU2Raw s.record.val) → (SyncRoundTrip K s ↔ prec.Undoes) :=
  ⟨prec.raw2EGU_EGU2Raw_iff hslo, prec.EGU2Raw_raw2EGU_iff hslo,
    fun host _ _ isnan _ h => registerRoundTrip_iff host prec hslo isnan h,
    fun _ _ _ _ _ hK h => messageRoundTrip_iff prec hslo hK h,
    fun _ _ _ _ _ hK haddr h => syncRoundTrip_iff prec hslo hK haddr h⟩

/-- Volts from the counts of a 16-bit converter. -/
def volts : AnalogRec ℚ := ⟨.slope, 0, 0, 10 / 65536, 0, 0⟩

/-- A conversion without an offset. -/
theorem analog_inverse_volts :
    (∀ v, volts.analogRaw2EGU (volts.analogEGU2Raw v) = v ↔ volts.Undoes) ∧
    (∀ rval, volts.analogEGU2Raw (volts.analogRaw2EGU rval) = rval ↔ volts.Undoes) ∧
    (∀ (host : Host) (w : Width) (c : Codec ℚ w) (isnan : ℚ → Bool) (v : ℚ),
      c.Exact (volts.analogEGU2Raw v) →
      (RegisterRoundTrip Libevent.Chains host volts c isnan v ↔ volts.Undoes)) ∧
    (∀ (w : Width) (c : Codec ℚ w) (isnan : ℚ → Bool) (K : Single.Link w Unit (Single.AoRec ℚ))
      (ao : Single.AoRec ℚ),
      K.routine = Single.writeMsgValAo (volts.toRaw c) (volts.toEGU c) isnan →
      c.Exact (volts.analogEGU2Raw ao.val) →
      (MessageRoundTrip Libevent.Chains K volts c isnan ao ↔ volts.Undoes)) ∧
    ∀ (w : Width) (c : Codec ℚ w) (isnan : ℚ → Bool)
      (K : Single.Link w Unit (Single.AoRec ℚ))
      (s : Single.State Libevent.Chains Unit (Single.AoRec ℚ)),
      K.routine = Single.writeMsgValAo (volts.toRaw c) (volts.toEGU c) isnan → K.offset < 2 ^ 32 →
      c.Exact (volts.analogEGU2Raw s.record.val) → (SyncRoundTrip K s ↔ volts.Undoes) :=
  analog_inverse volts (by decide +kernel)

/-- The parameters of the tests of both directions: an offset of -1 and a slope of one half. -/
def shifted : AnalogRec ℚ := ⟨.linear, 0, 0, 1 / 2, -1, 0⟩

/-- Integers of 32 bits. -/
def wholeNumbers : Codec ℚ .w4 := ⟨fun q => .ofInt 32 q.num, fun b => b.toInt⟩

/-- 4 has the raw value 10, and 10 has the value 9/2. -/
theorem not_inverse :
    shifted.analogEGU2Raw 4 = 10 ∧ shifted.analogRaw2EGU 10 = 9 / 2 ∧
      shifted.analogEGU2Raw (9 / 2) = 11 ∧
      ¬RegisterRoundTrip Libevent.Chains .little shifted wholeNumbers (fun _ => false) 4 := by
  have hraw : shifted.analogEGU2Raw 4 = 10 := by decide +kernel
  refine ⟨hraw, by decide +kernel, by decide +kernel, ?_⟩
  have hexact : wholeNumbers.Exact (shifted.analogEGU2Raw 4) := by
    rw [hraw]
    unfold Codec.Exact
    decide +kernel
  rw [registerRoundTrip_iff .little shifted (by decide +kernel) _ hexact]
  unfold AnalogRec.Undoes AnalogRec.Converts
  decide +kernel

end Pscdrv.Records
