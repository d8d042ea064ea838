import Pscdrv.Records.Register
import Pscdrv.Schemes.Mask

/-! # Settings that share a send block

    Two records change the block one after the other. What the one has written stays as it is, as
    long as their bytes do not overlap, or they write different bits of one word; then the order of
    the writes does not matter either, and each setting is read back as it was written.

        word     │ 1 1 0 0 . . . . │   mask₁        │ . . 1 1 │   mask₂
        block    ├─ value₁ ─┤   ├── value₂ ──┤ -/

namespace Pscdrv.Records

open BigEndian Memory Mask

variable {E : Type} [EvMemory E] {V : Type}

/-- Whatever the state of its record and however the block is cut into strides, the routine makes
    the content `mem` of the block `mem'`. -/
def Writes (E : Type) [EvMemory E] (host : Host) (priv : Priv) (w : Writer V)
    (mem mem' : List UInt8) : Prop :=
  ∀ d : Dev E, d.data.mem = mem → ∃ d', w.run host priv d = .value () d' ∧ d'.data.mem = mem'

/-- A record with a link to `offset` reads back from the content `mem` what the routine writes. -/
def ReadsBack (E : Type) [Libevent E] (host : Host) (offset : ℕ) (mem : List UInt8)
    (w : Writer V) : Prop :=
  ∀ (priv : Priv) (d : Dev E), priv.offset = offset → d.data.mem = mem →
    match w with
    | .binary r => ∀ old, (readBinary host priv ⟨old, r.mask⟩ d).state?.map (·.1.rval) =
        some (if r.mask ≠ 0 then r.rval &&& r.mask else r.rval)
    | .value w val => ∀ old : ValueRec w,
        (readToVal host priv old d).state?.map (·.1.val) = some val
    | .ao rval => ∀ old, (readAi host priv old d).state?.map (·.1.val) = some rval
    | .aoFloat w toRaw val => ∃ d', readToField host priv w d = .value (toRaw val) d'

/-- The big-endian word at an offset. -/
def wordAt (offset : ℕ) (mem : List UInt8) : BitVec 32 :=
  .ofNat 32 (ofBe ((mem.drop offset).take 4))

/-- The word at the offset has got the bits of the mask, and nothing else has changed. -/
structure Replaces (E : Type) [Libevent E] (host : Host) (offset : ℕ) (r : BinaryRec)
    (mem mem' : List UInt8) : Prop where
  word : wordAt offset mem' = wordAt offset mem &&& ~~~r.mask ||| r.rval &&& r.mask
  length : mem'.length = mem.length
  others : ∀ i, i < offset ∨ offset + 4 ≤ i → mem'[i]? = mem[i]?
  readback : ReadsBack E host offset mem' (.binary r : Writer Unit)

/-- Either order leaves the same content, from which both settings are read back. -/
def Commute (E : Type) [EvMemory E] (host : Host) (priv₁ priv₂ : Priv) (w₁ w₂ : Writer V)
    (mem : List UInt8) : Prop :=
  ∃ mem₁ mem₂ mem', Writes E host priv₁ w₁ mem mem₁ ∧ Writes E host priv₂ w₂ mem₁ mem' ∧
    Writes E host priv₂ w₂ mem mem₂ ∧ Writes E host priv₁ w₁ mem₂ mem' ∧
    ReadsBack E host priv₁.offset mem' w₁ ∧ ReadsBack E host priv₂.offset mem' w₂

/-- The two contents look the same to a readback record with the mask. -/
def SameBits (E : Type) [Libevent E] (host : Host) (offset : ℕ) (mask : BitVec 32)
    (mem mem' : List UInt8) : Prop :=
  ∀ (priv priv' : Priv) (d d' : Dev E) (old old' : BitVec 32),
    priv.offset = offset → d.data.mem = mem → priv'.offset = offset → d'.data.mem = mem' →
      (readBinary host priv' ⟨old', mask⟩ d').state?.map (·.1.rval) =
        (readBinary host priv ⟨old, mask⟩ d).state?.map (·.1.rval)

/-! ### Reading -/

section Reading

variable {E : Type} [Libevent E]

/-- A word inside the block is read with the mask of the record. -/
theorem readBinary_fits (host : Host) {priv : Priv} (r : BinaryRec) {d : Dev E}
    (h : Fits priv .w4 d) : (readBinary host priv r d).state?.map (·.1.rval) =
      some (if r.mask ≠ 0 then word priv d &&& r.mask else word priv d) := by
  obtain ⟨time, htime⟩ := setRecTimestamp_state host priv
    { r with rval := if r.mask ≠ 0 then word priv d &&& r.mask else word priv d }
    (d.checkConnected .read)
  rw [readBinary, readToField_fits host h, ntoh_field host h]
  exact congrArg (Option.map fun s => s.1.rval) htime

theorem readToVal_fits (host : Host) {priv : Priv} {w : Width} (r : ValueRec w) {d : Dev E}
    (h : Fits priv w d) : (readToVal host priv r d).state?.map (·.1.val) =
      some (ntoh host w (host.load w (field priv w d))) := by
  obtain ⟨time, htime⟩ := setRecTimestamp_state host priv
    { r with val := ntoh host w (host.load w (field priv w d)) } (d.checkConnected .read)
  rw [readToVal, readToField_fits host h]
  exact congrArg (Option.map fun s => s.1.val) htime

end Reading

/-! ### Writing -/

namespace Writer

/-- The bytes a routine writes over a range that holds the big-endian word `old`. -/
def result (host : Host) (old : BitVec 32) : Writer V → List UInt8
  | binary r => stored host (w := .w4) (if r.mask ≠ 0 then put old r.mask r.rval else r.rval)
  | value _ val => stored host val
  | ao rval => stored host (w := .w4) rval
  | aoFloat _ toRaw val => stored host (toRaw val)

@[simp] theorem length_result (host : Host) (old : BitVec 32) (w : Writer V) :
    (w.result host old).length = w.width.bytes := by
  cases w <;> exact length_stored host _

theorem result_masked (host : Host) {r : BinaryRec} (h : r.mask ≠ 0) (old : BitVec 32) :
    (binary r : Writer V).result host old = stored host (w := .w4) (put old r.mask r.rval) :=
  congrArg (stored host (w := .w4)) (if_pos h)

/-- WRITE: every routine overwrites its range. -/
theorem writes_result (host : Host) {priv : Priv} (w : Writer V) {mem : List UInt8}
    (h : priv.offset + w.width.bytes ≤ mem.length) : Writes E host priv w mem
      (overwrite mem priv.offset (w.result host (wordAt priv.offset mem))) := by
  rintro d rfl
  cases w with
  | binary r =>
    by_cases hmask : r.mask = 0
    · obtain ⟨d', hrun, hmem⟩ := writeFromField_fits host (w := .w4) r.rval h
      refine ⟨d', (if_neg (not_not.mpr hmask)).trans hrun, ?_⟩
      rw [hmem, result, if_neg (not_not.mpr hmask)]
    · obtain ⟨d', hrun, hmem⟩ := writeBinary_masked host hmask h
      refine ⟨d', hrun, ?_⟩
      rw [hmem, result, if_pos hmask]
      rfl
  | value w val => exact writeFromField_fits host val h
  | ao rval => exact writeFromField_fits host (w := .w4) rval h
  | aoFloat w toRaw val => exact writeFromField_fits host (toRaw val) h

/-- READ BACK: a range that a routine has written. -/
theorem readsBack_of_result (host : Host) {offset : ℕ} {mem : List UInt8} {w : Writer V}
    {old : BitVec 32} (hfit : offset + w.width.bytes ≤ mem.length)
    (hfield : (mem.drop offset).take w.width.bytes = w.result host old) :
    ReadsBack E host offset mem w := by
  rintro priv d rfl rfl
  have hdecode : ∀ {u : Width} {v : BitVec u.bits}, field priv u d = stored host v →
      ntoh host u (host.load u (field priv u d)) = v := by
    intro u v hf
    rw [hf, stored, Host.load_image, ntoh_hton]
  cases w with
  | binary r =>
    intro old'
    have hfits : Fits priv .w4 d := hfit
    have hword : word priv d = if r.mask ≠ 0 then put old r.mask r.rval else r.rval :=
      (ntoh_field host hfits).symm.trans (hdecode hfield)
    rw [readBinary_fits host _ hfits, hword]
    split
    · rw [put_and]
    · rfl
  | value w val =>
    intro old'
    exact (readToVal_fits host old' hfit).trans (congrArg some (hdecode hfield))
  | ao rval =>
    intro old'
    exact (readToVal_fits host old' hfit).trans (congrArg some (hdecode hfield))
  | aoFloat w toRaw val =>
    exact ⟨_, (readToField_fits host hfit).trans (congrArg (Ret.value · _) (hdecode hfield))⟩

/-- What a routine has written last is read back. -/
theorem readsBack_overwrite (host : Host) {offset : ℕ} {mem : List UInt8} (w : Writer V)
    (old : BitVec 32) (h : offset + w.width.bytes ≤ mem.length) :
    ReadsBack E host offset (overwrite mem offset (w.result host old)) w := by
  have hfit : offset + (w.result host old).length ≤ mem.length := by rwa [length_result]
  have hread : ((overwrite mem offset (w.result host old)).drop offset).take w.width.bytes =
      w.result host old := by
    rw [← length_result host old w]
    exact read_overwrite hfit
  exact readsBack_of_result host (by rwa [length_overwrite hfit]) hread

/-- A routine looks only at the word it writes to. -/
theorem result_congr (host : Host) {w : Writer V} {old old' : BitVec 32}
    (h : w.width = .w4 → old = old') : w.result host old = w.result host old' := by
  cases w with
  | binary r => rw [h rfl]
  | _ => rfl

end Writer

/-- The word that was stored. -/
theorem wordAt_stored (host : Host) {offset : ℕ} {mem : List UInt8} (v : BitVec 32)
    (h : offset + 4 ≤ mem.length) :
    wordAt offset (overwrite mem offset (stored host (w := .w4) v)) = v := by
  have hlen : (stored host (w := .w4) v).length = 4 := length_stored host (w := .w4) v
  have hfit : offset + (stored host (w := .w4) v).length ≤ mem.length := by rwa [hlen]
  have hread := read_overwrite hfit
  rw [hlen] at hread
  rw [wordAt, hread, stored, image_hton_w4, ofBe_be v.isLt, BitVec.ofNat_toNat, BitVec.setWidth_eq]

/-- Readback depends on the bits of the mask alone. -/
theorem sameBits (host : Host) {offset : ℕ} {mask : BitVec 32} (hmask : mask ≠ 0)
    {mem mem' : List UInt8} (h : offset + 4 ≤ mem.length) (hlen : mem'.length = mem.length)
    (hbits : wordAt offset mem' &&& mask = wordAt offset mem &&& mask) :
    SameBits E host offset mask mem mem' := by
  rintro priv priv' d d' old old' hoff rfl hoff' rfl
  have hfit : Fits priv .w4 d := by
    rw [Fits, hoff]
    exact h
  have hfit' : Fits priv' .w4 d' := by
    rw [Fits, hlen, hoff']
    exact h
  have hw : word priv d = wordAt offset d.data.mem := hoff ▸ rfl
  have hw' : word priv' d' = wordAt offset d'.data.mem := hoff' ▸ rfl
  rw [readBinary_fits host _ hfit, readBinary_fits host _ hfit', if_pos hmask, if_pos hmask, hw,
    hw', hbits]

/-- A masked write replaces the bits of its mask. -/
theorem masked_write (host : Host) {priv : Priv} {r : BinaryRec} (hmask : r.mask ≠ 0)
    {mem : List UInt8} (h : priv.offset + 4 ≤ mem.length) :
    ∃ mem', Writes E host priv (.binary r : Writer Unit) mem mem' ∧
      Replaces E host priv.offset r mem mem' := by
  let w : Writer Unit := .binary r
  have hlen : (w.result host (wordAt priv.offset mem)).length = 4 := Writer.length_result host _ w
  have hfit : priv.offset + (w.result host (wordAt priv.offset mem)).length ≤ mem.length := by
    rwa [hlen]
  refine ⟨_, Writer.writes_result host w h, ?_, length_overwrite hfit, fun i hi => ?_,
    Writer.readsBack_overwrite host w _ h⟩
  · rw [Writer.result_masked host hmask, wordAt_stored host _ h]
    rfl
  · rw [getElem?_overwrite hfit, hlen, if_neg (by omega)]

/-- Two masked writes to the word at one offset, of masks without a common bit. -/
theorem masked_writes_commute (host : Host) {p₁ p₂ : Priv} {r₁ r₂ : BinaryRec}
    (hoff : p₂.offset = p₁.offset) (h₁ : r₁.mask ≠ 0) (h₂ : r₂.mask ≠ 0)
    (hdisjoint : r₁.mask &&& r₂.mask = 0) {mem : List UInt8} (h : p₁.offset + 4 ≤ mem.length) :
    Commute E host p₁ p₂ (.binary r₁ : Writer Unit) (.binary r₂) mem := by
  -- the word after the writes of the one and the other, and after both
  let a := put (wordAt p₁.offset mem) r₁.mask r₁.rval
  let b := put (wordAt p₁.offset mem) r₂.mask r₂.rval
  have hboth : put a r₂.mask r₂.rval = put b r₁.mask r₁.rval := put_comm hdisjoint _ _ _
  have hlen : ∀ v : BitVec 32, (stored host (w := .w4) v).length = 4 :=
    fun v => length_stored host (w := .w4) v
  have hstep : ∀ (p : Priv) (r : BinaryRec), p.offset = p₁.offset → r.mask ≠ 0 →
      ∀ m : List UInt8, m.length = mem.length →
        Writes E host p (.binary r : Writer Unit) m (overwrite m p₁.offset
          (stored host (w := .w4) (put (wordAt p₁.offset m) r.mask r.rval))) := by
    intro p r hp hr m hm
    have hin : p.offset + 4 ≤ m.length := by
      rw [hp, hm]
      exact h
    have hw := Writer.writes_result (E := E) host (.binary r : Writer Unit) hin
    rwa [hp, Writer.result_masked host hr] at hw
  have hafter : ∀ v : BitVec 32,
      (overwrite mem p₁.offset (stored host (w := .w4) v)).length = mem.length :=
    fun v => length_overwrite (by rwa [hlen])
  have hagain : ∀ v v' : BitVec 32, overwrite (overwrite mem p₁.offset (stored host (w := .w4) v))
      p₁.offset (stored host (w := .w4) v') = overwrite mem p₁.offset (stored host (w := .w4) v') :=
    fun v v' => overwrite_overwrite (by rwa [hlen]) (by rw [hlen, hlen])
  have h12 := hstep p₂ r₂ hoff h₂ _ (hafter a)
  have h21 := hstep p₁ r₁ rfl h₁ _ (hafter b)
  rw [wordAt_stored host _ h, hagain] at h12 h21
  refine ⟨_, _, _, hstep p₁ r₁ rfl h₁ mem rfl, h12, hstep p₂ r₂ hoff h₂ mem rfl, ?_, ?_, ?_⟩
  · rw [hboth]
    exact h21
  · have hback := Writer.readsBack_overwrite (E := E) host (.binary r₁ : Writer Unit) b h
    rwa [Writer.result_masked host h₁, ← hboth] at hback
  · have hback := Writer.readsBack_overwrite (E := E) host (.binary r₂ : Writer Unit) a h
    rw [hoff]
    rwa [Writer.result_masked host h₂] at hback

/-- A routine leaves one content. -/
theorem Writes.unique {host : Host} {priv : Priv} {w : Writer V} {mem a b : List UInt8}
    (ha : Writes E host priv w mem a) (hb : Writes E host priv w mem b) (d : Dev E)
    (hd : d.data.mem = mem) : a = b := by
  obtain ⟨d₁, hrun₁, rfl⟩ := ha d hd
  obtain ⟨d₂, hrun₂, rfl⟩ := hb d hd
  cases hrun₁.symm.trans hrun₂
  rfl

/-- The bits of other masks are read back as before. -/
theorem masked_write_keeps (host : Host) {priv : Priv} {r : BinaryRec} {mask : BitVec 32}
    (hmask : mask ≠ 0) (hr : r.mask ≠ 0) (hdisjoint : mask &&& r.mask = 0) {mem mem' : List UInt8}
    (h : priv.offset + 4 ≤ mem.length)
    (hw : Writes E host priv (.binary r : Writer Unit) mem mem') :
    SameBits E host priv.offset mask mem mem' := by
  obtain ⟨m, hm, hrep⟩ := masked_write (E := E) host hr h
  intro q q' d d' old old' hq hd hq' hd'
  obtain rfl := hw.unique hm d hd
  refine sameBits host hmask h hrep.length ?_ q q' d d' old old' hq hd hq' hd'
  rw [hrep.word]
  exact put_and_other hdisjoint _ _

/-- Writes to ranges that do not overlap. -/
theorem apart_writes_commute (host : Host) {p₁ p₂ : Priv} {w₁ w₂ : Writer V} {mem : List UInt8}
    (h₁ : p₁.offset + w₁.width.bytes ≤ mem.length) (h₂ : p₂.offset + w₂.width.bytes ≤ mem.length)
    (hapart : p₁.offset + w₁.width.bytes ≤ p₂.offset ∨ p₂.offset + w₂.width.bytes ≤ p₁.offset) :
    Commute E host p₁ p₂ w₁ w₂ mem := by
  let l₁ := w₁.result host (wordAt p₁.offset mem)
  let l₂ := w₂.result host (wordAt p₂.offset mem)
  have hl₁ : l₁.length = w₁.width.bytes := Writer.length_result host _ w₁
  have hl₂ : l₂.length = w₂.width.bytes := Writer.length_result host _ w₂
  have hfit₁ : p₁.offset + l₁.length ≤ mem.length := by rwa [hl₁]
  have hfit₂ : p₂.offset + l₂.length ≤ mem.length := by rwa [hl₂]
  have hlen₁ := length_overwrite hfit₁
  have hlen₂ := length_overwrite hfit₂
  -- what the second routine writes does not depend on the first one
  have hsame₂ : w₂.result host (wordAt p₂.offset (overwrite mem p₁.offset l₁)) = l₂ := by
    refine Writer.result_congr host fun hw => ?_
    have hb : w₂.width.bytes = 4 := congrArg Width.bytes hw
    rw [wordAt, read_overwrite_apart hfit₁ (by omega), wordAt]
  have hsame₁ : w₁.result host (wordAt p₁.offset (overwrite mem p₂.offset l₂)) = l₁ := by
    refine Writer.result_congr host fun hw => ?_
    have hb : w₁.width.bytes = 4 := congrArg Width.bytes hw
    rw [wordAt, read_overwrite_apart hfit₂ (by omega), wordAt]
  have hin₂ : p₂.offset + w₂.width.bytes ≤ (overwrite mem p₁.offset l₁).length := by rwa [hlen₁]
  have hin₁ : p₁.offset + w₁.width.bytes ≤ (overwrite mem p₂.offset l₂).length := by rwa [hlen₂]
  have h12 := Writer.writes_result (E := E) host w₂ hin₂
  have h21 := Writer.writes_result (E := E) host w₁ hin₁
  rw [hsame₂] at h12
  rw [hsame₁] at h21
  have hswap : overwrite (overwrite mem p₁.offset l₁) p₂.offset l₂ =
      overwrite (overwrite mem p₂.offset l₂) p₁.offset l₁ :=
    overwrite_comm hfit₁ hfit₂ (by omega)
  refine ⟨_, _, _, Writer.writes_result host w₁ h₁, h12, Writer.writes_result host w₂ h₂, ?_, ?_,
    ?_⟩
  · rw [hswap]
    exact h21
  · rw [hswap]
    exact Writer.readsBack_overwrite host w₁ _ hin₁
  · exact Writer.readsBack_overwrite host w₂ _ hin₂

/-- SETTINGS DO NOT DISTURB EACH OTHER: masked writes replace the bits of their mask and nothing
    else; with masks without a common bit they commute and keep each other's readback; and so do
    all writes to ranges that do not overlap. -/
theorem settings_apart (host : Host) (mem : List UInt8) :
    (∀ priv r, r.mask ≠ 0 → priv.offset + 4 ≤ mem.length → ∃ mem',
        Writes E host priv (.binary r : Writer Unit) mem mem' ∧
          Replaces E host priv.offset r mem mem') ∧
      (∀ p₁ p₂ r₁ r₂, p₂.offset = p₁.offset → p₁.offset + 4 ≤ mem.length → r₁.mask ≠ 0 →
        r₂.mask ≠ 0 → r₁.mask &&& r₂.mask = 0 →
        Commute E host p₁ p₂ (.binary r₁ : Writer Unit) (.binary r₂) mem ∧
          (∀ mem', Writes E host p₁ (.binary r₁ : Writer Unit) mem mem' →
            SameBits E host p₁.offset r₂.mask mem mem') ∧
          ∀ mem', Writes E host p₂ (.binary r₂ : Writer Unit) mem mem' →
            SameBits E host p₂.offset r₁.mask mem mem') ∧
      ∀ (p₁ p₂ : Priv) (w₁ w₂ : Writer V), p₁.offset + w₁.width.bytes ≤ mem.length →
        p₂.offset + w₂.width.bytes ≤ mem.length →
        p₁.offset + w₁.width.bytes ≤ p₂.offset ∨ p₂.offset + w₂.width.bytes ≤ p₁.offset →
        Commute E host p₁ p₂ w₁ w₂ mem := by
  refine ⟨fun priv r hmask h => masked_write host hmask h, ?_,
    fun p₁ p₂ w₁ w₂ => apart_writes_commute host⟩
  intro p₁ p₂ r₁ r₂ hoff h h₁ h₂ hdisjoint
  refine ⟨masked_writes_commute host hoff h₁ h₂ hdisjoint h, fun mem' => ?_, fun mem' => ?_⟩
  · exact masked_write_keeps host h₂ h₁ (by rw [BitVec.and_comm, hdisjoint]) h
  · exact masked_write_keeps host h₁ h₂ hdisjoint (by rwa [hoff])

/-- Two halves of the word at offset 1, and a word and 8 bytes next to each other. -/
theorem settings_apart_samples : Commute Libevent.Chains .little (.at 1) (.at 1)
      (.binary ⟨0x12345678, 0xffff⟩ : Writer Unit) (.binary ⟨0x12345678, 0xffff0000⟩)
      [1, 2, 3, 4, 5, 6] ∧
    Commute Libevent.Chains .big (.at 8) (.at 0) (.ao 7 : Writer Unit) (.value .w8 8)
      (List.replicate 12 0) :=
  ⟨((settings_apart (V := Unit) .little [1, 2, 3, 4, 5, 6]).2.1 (.at 1) (.at 1)
      ⟨0x12345678, 0xffff⟩ ⟨0x12345678, 0xffff0000⟩ rfl (by decide) (by decide) (by decide)
      (by decide)).1,
    (settings_apart .big (List.replicate 12 0)).2.2 (.at 8) (.at 0) (.ao 7) (.value .w8 8)
      (by decide) (by decide) (.inr (by decide))⟩

end Pscdrv.Records
