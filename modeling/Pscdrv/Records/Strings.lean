import Pscdrv.Records.Support

/-! # String inputs

    A stringin record has 40 bytes for a text and the NUL behind it. `read_si` fills them from a
    block, `read_si_message` with the message of the driver.

        block   ├── offset ──┤ b₀ b₁ … b₃₈ │ …
        VAL                    b₀ b₁ … b₃₈ NUL
        message                m₀ m₁ … m₃₈ │ …

    `read_si` takes the limit of 39 bytes off the size of the block, not off what is left of it
    behind the offset; `read_si_message` takes the longer of two lengths, not the shorter. -/

namespace Pscdrv.Records

open Memory

variable {E : Type} [Libevent E]

/-- A stringin record; `VAL` is an array of `MAX_STRING_SIZE` characters. -/
structure StringRec where
  val : List UInt8
  room : val.length = maxStringSize

/-- Write to `VAL`; `none` when this is outside of it. -/
def StringRec.write (r : StringRec) (pos : ℕ) (bytes : List UInt8) : Option StringRec :=
  if h : pos + bytes.length ≤ maxStringSize then
    some ⟨overwrite r.val pos bytes, (length_overwrite (r.room.symm ▸ h)).trans r.room⟩
  else none

/-- `read_si` -/
def readSi (host : Host) (priv : Priv) (r : StringRec) (d : Dev E) :
    Ret (StringRec × Dev E) Unit :=
  if !d.connected then .value () (r, d.raise .read .invalid)
  else
    let len := if maxStringSize ≤ d.data.size then maxStringSize - 1 else d.data.size
    if len < priv.offset then
      match r.write 0 [0] with
      | none => .fault
      | some r => setRecTimestamp host priv r d
    else
      let len := len - priv.offset
      match d.data.copyoutShape priv.offset len 0 1 with
      | none => .fault
      | some (raw, _) =>
        match (r.write 0 raw).bind fun r => r.write len [0] with
        | none => .fault
        | some r => setRecTimestamp host priv r d

/-- The characters in front of the first NUL. -/
def cString (s : List UInt8) : List UInt8 := s.takeWhile (· ≠ 0)

/-- What `strncpy(dest, src, n)` writes: always `n` bytes. -/
def strncpy (src : List UInt8) (n : ℕ) : List UInt8 := resize n (cString src)

/-- `read_si_message`; `none` when it writes outside of `VAL`. -/
def readSiMessage (message : List UInt8) (r : StringRec) : Option StringRec :=
  let len := max message.length maxStringSize
  (r.write 0 (strncpy message len)).bind fun r => r.write (maxStringSize - 1) [0]

/-- `VAL` holds a text and the NUL behind it. -/
def StringRec.Shows (r : StringRec) (text : List UInt8) : Prop :=
  r.val.take (text.length + 1) = text ++ [0]

/-- The bytes of a block from the offset on, as many as there is room for. -/
def blockText (priv : Priv) (d : Dev E) : List UInt8 :=
  (d.data.mem.drop priv.offset).take (maxStringSize - 1)

/-- Whatever `VAL` held before, the routine ends and leaves the text of the block there. -/
def ReadsText (host : Host) (priv : Priv) (d : Dev E) : Prop :=
  ∀ r, ∃ r', (readSi host priv r d).state?.map Prod.fst = some r' ∧ r'.Shows (blockText priv d)

/-- Whatever `VAL` held before, the routine leaves the front of the message there. -/
def ReadsMessage (message : List UInt8) : Prop :=
  ∀ r, ∃ r', readSiMessage message r = some r' ∧
    r'.Shows ((cString message).take (maxStringSize - 1))

/-! ### A text and the NUL behind it -/

namespace StringRec

variable {text : List UInt8}

theorem write_inside (r : StringRec) {pos : ℕ} {bytes : List UInt8}
    (h : pos + bytes.length ≤ maxStringSize) :
    ∃ r', r.write pos bytes = some r' ∧ r'.val = overwrite r.val pos bytes :=
  ⟨_, dif_pos h, rfl⟩

/-- The record after a text and the NUL were written. -/
def put (r : StringRec) (text : List UInt8) (h : text.length < maxStringSize) : StringRec where
  val := overwrite r.val 0 (text ++ [0])
  room := by
    rw [length_overwrite, r.room]
    rw [List.length_append, List.length_singleton, r.room]
    omega

theorem write_put (r : StringRec) (h : text.length < maxStringSize) :
    ((r.write 0 text).bind fun r => r.write text.length [0]) = some (r.put text h) := by
  have hall : 0 + (text ++ [0]).length ≤ r.val.length := by
    rw [r.room, List.length_append, List.length_singleton]
    omega
  have hval := overwrite_append hall
  rw [Nat.zero_add] at hval
  have hfirst : 0 + text.length ≤ maxStringSize := by omega
  have hnul : text.length + [(0 : UInt8)].length ≤ maxStringSize := h
  simp only [write, dif_pos hfirst, Option.bind_some, dif_pos hnul, hval]
  rfl

/-- Without a text there is only the NUL to write. -/
theorem write_nul (r : StringRec) : r.write 0 [0] = some (r.put [] (by decide)) := rfl

theorem put_shows (r : StringRec) (h : text.length < maxStringSize) :
    (r.put text h).Shows text := by
  have hlen : text.length + 1 = (text ++ [(0 : UInt8)]).length := by simp
  have hin : 0 + (text ++ [(0 : UInt8)]).length ≤ r.val.length := by
    rw [r.room, ← hlen]
    omega
  have hread := read_overwrite hin
  rw [List.drop_zero] at hread
  rw [Shows, hlen]
  exact hread

/-- A record without a NUL. -/
def ones : StringRec := ⟨List.replicate maxStringSize 1, List.length_replicate⟩

/-- Behind the NUL the old bytes are still there, so that no longer text is shown. -/
theorem not_shows_longer (h : text.length < maxStringSize) {longer : List UInt8}
    (hlt : text.length < longer.length) (hroom : longer.length < maxStringSize) :
    ¬(ones.put text h).Shows longer := by
  intro hshows
  have hnul := congrArg (·[longer.length]?) hshows
  have hold : (ones.put text h).val[longer.length]? = some 1 := by
    have hin : 0 + (text ++ [(0 : UInt8)]).length ≤ ones.val.length := by
      rw [ones.room, List.length_append, List.length_singleton]
      omega
    rw [put, getElem?_overwrite hin, if_neg (by simp; omega)]
    exact List.getElem?_replicate_of_lt hroom
  simp [hold] at hnul

end StringRec

/-! ### Text from a block -/

/-- The size of the block, at most 39. -/
theorem siLimit_eq (d : Dev E) : (if maxStringSize ≤ d.data.size then maxStringSize - 1
    else d.data.size) = min d.data.mem.length (maxStringSize - 1) := by
  rw [d.data.size_eq]
  split <;> omega

/-- An offset behind the limit: the empty text. -/
theorem readSi_behind (host : Host) {priv : Priv} {d : Dev E} (hc : d.connected = true)
    (h : min d.data.mem.length (maxStringSize - 1) < priv.offset) (r : StringRec) :
    (readSi host priv r d).state?.map Prod.fst = some (r.put [] (by decide)) := by
  obtain ⟨time, htime⟩ := setRecTimestamp_state host priv (r.put [] (by decide)) d
  unfold readSi
  simp only [hc, siLimit_eq, if_pos h, r.write_nul]
  exact congrArg (Option.map Prod.fst) htime

/-- Bytes that were copied up to the limit are the text. -/
theorem readSi_copied (host : Host) {priv : Priv} {d : Dev E} (hc : d.connected = true)
    {raw : List UInt8} {n : ℕ}
    (h : priv.offset + raw.length = min d.data.mem.length (maxStringSize - 1))
    (hcopy : d.data.copyoutShape priv.offset raw.length 0 1 = some (raw, n)) (r : StringRec)
    (hraw : raw.length < maxStringSize) :
    (readSi host priv r d).state?.map Prod.fst = some (r.put raw hraw) := by
  obtain ⟨time, htime⟩ := setRecTimestamp_state host priv (r.put raw hraw) d
  have hlen : min d.data.mem.length (maxStringSize - 1) - priv.offset = raw.length := by omega
  unfold readSi
  simp only [hc, siLimit_eq, if_neg (show ¬min d.data.mem.length (maxStringSize - 1) < priv.offset
    by omega), hlen, hcopy, r.write_put hraw]
  exact congrArg (Option.map Prod.fst) htime

/-- With the offset at the limit, in a block that goes on, there is a division by zero. -/
theorem readSi_divides (host : Host) {priv : Priv} {d : Dev E} (hc : d.connected = true)
    (h : priv.offset = maxStringSize - 1) (hlong : maxStringSize ≤ d.data.mem.length)
    (r : StringRec) : readSi host priv r d = .fault := by
  have hmin : min d.data.mem.length (maxStringSize - 1) = priv.offset := by omega
  have hcopy : d.data.copyoutShape priv.offset 0 0 1 = none := by
    have hin : ¬d.data.size ≤ priv.offset := by
      rw [d.data.size_eq, h]
      unfold maxStringSize at *
      omega
    simp [DBuffer.copyoutShape, hin]
  unfold readSi
  simp only [hc, siLimit_eq, hmin, Nat.lt_irrefl, Nat.sub_self, hcopy]
  rfl

/-- What `copyout_shape` gives in front of the limit. -/
theorem copyout_front {priv : Priv} {d : Dev E}
    (h : priv.offset < min d.data.mem.length (maxStringSize - 1)) :
    ∃ raw n, priv.offset + raw.length = min d.data.mem.length (maxStringSize - 1) ∧
      raw = (d.data.mem.drop priv.offset).take raw.length ∧
      d.data.copyoutShape priv.offset raw.length 0 1 = some (raw, n) := by
  let len := min d.data.mem.length (maxStringSize - 1) - priv.offset
  have hpos : 0 < len := by omega
  have hfit : priv.offset + len ≤ d.data.mem.length := by omega
  have hcopy := d.data.copyoutShape_one priv.offset hpos (by
    have := d.data.lt
    omega)
  have hone : Flat.copyoutShape d.data.mem priv.offset len 0 1 =
      ((d.data.mem.drop priv.offset).take len, 1) := by
    simp [Flat.copyoutShape, Flat.wholeElements, hfit]
  have hlen : ((d.data.mem.drop priv.offset).take len).length = len := by
    rw [List.length_take, List.length_drop]
    omega
  refine ⟨(d.data.mem.drop priv.offset).take len, 1, ?_, by rw [hlen], ?_⟩
  · rw [hlen]
    omega
  · rw [hlen, hcopy, hone]

theorem length_blockText (priv : Priv) (d : Dev E) :
    (blockText priv d).length = min (maxStringSize - 1) (d.data.mem.length - priv.offset) := by
  rw [blockText, List.length_take, List.length_drop]

/-- When a front part of the text is written, the text is read if that is all of it. -/
theorem readsText_iff_length {host : Host} {priv : Priv} {d : Dev E} {text : List UInt8}
    {h : text.length < maxStringSize}
    (hput : ∀ r, (readSi host priv r d).state?.map Prod.fst = some (r.put text h))
    (hfront : text <+: blockText priv d) :
    ReadsText host priv d ↔ text.length = (blockText priv d).length := by
  constructor
  · intro hreads
    obtain ⟨r', hr', hshows⟩ := hreads .ones
    cases (hput .ones).symm.trans hr'
    by_contra hne
    have hlt : text.length < (blockText priv d).length := hfront.length_le.lt_of_ne hne
    refine StringRec.not_shows_longer h hlt ?_ hshows
    rw [length_blockText]
    exact (Nat.min_le_left _ _).trans_lt (by decide)
  · intro hlen r
    refine ⟨_, hput r, ?_⟩
    rw [← hfront.eq_of_length hlen]
    exact r.put_shows h

/-- BLOCK TEXT: it is shown from the first byte on, and of a block that has room in `VAL` or that
    ends before the offset. -/
theorem readsText_iff (host : Host) (priv : Priv) {d : Dev E} (hc : d.connected = true) :
    ReadsText host priv d ↔ priv.offset = 0 ∨ d.data.mem.length < maxStringSize ∨
      d.data.mem.length ≤ priv.offset := by
  have hsize : maxStringSize = 40 := rfl
  have htext := length_blockText priv d
  rcases Nat.lt_trichotomy (min d.data.mem.length (maxStringSize - 1)) priv.offset with
    hlt | heq | hgt
  · -- the empty text is written
    rw [readsText_iff_length (readSi_behind host hc hlt) List.nil_prefix, htext,
      List.length_nil]
    omega
  · by_cases hlong : maxStringSize ≤ d.data.mem.length
    · -- the division by zero
      refine iff_of_false ?_ (by omega)
      intro h
      obtain ⟨r', hr', -⟩ := h .ones
      rw [readSi_divides host hc (by omega) hlong] at hr'
      cases hr'
    · -- nothing is copied
      have hend : d.data.size ≤ priv.offset := by
        rw [d.data.size_eq]
        omega
      have hcopy : d.data.copyoutShape priv.offset ([] : List UInt8).length 0 1 = some ([], 0) := by
        simp [DBuffer.copyoutShape, hend]
      have hlen : priv.offset + ([] : List UInt8).length =
          min d.data.mem.length (maxStringSize - 1) := heq.symm
      have hput := fun r => readSi_copied host hc hlen hcopy r (by decide)
      rw [readsText_iff_length hput List.nil_prefix, htext, List.length_nil]
      omega
  · obtain ⟨raw, n, hlen, hraw, hcopy⟩ := copyout_front hgt
    have hroom : raw.length < maxStringSize := by omega
    have hfront : raw <+: blockText priv d := by
      rw [hraw, blockText]
      exact List.take_prefix_take_left (by omega)
    rw [readsText_iff_length (fun r => readSi_copied host hc hlen hcopy r hroom) hfront, htext]
    omega

/-! ### Messages -/

/-- A text cut off or filled up, with the NUL behind it. -/
theorem take_resize_nul (n : ℕ) (text : List UInt8) :
    (resize n text ++ [0]).take ((text.take n).length + 1) = text.take n ++ [0] := by
  have hfill : List.replicate (n - text.length) (0 : UInt8) ++ [0] =
      [0] ++ List.replicate (n - text.length) 0 :=
    List.replicate_succ'.symm.trans List.replicate_succ
  rw [resize, List.append_assoc, hfill, ← List.append_assoc]
  exact List.take_left' (by simp)

theorem take_resize (n : ℕ) (text : List UInt8) :
    (resize (n + 1) text).take n = resize n text := by
  have htake : min n (n + 1) = n := by omega
  have hfill : min (n - min (n + 1) text.length) (n + 1 - text.length) = n - text.length := by omega
  rw [resize, List.take_append, List.take_take, htake, List.length_take, List.take_replicate, hfill]
  rfl

/-- A message that has room: all 40 bytes are written, and the last of them is the NUL. -/
theorem readSiMessage_room {message : List UInt8} (h : message.length ≤ maxStringSize)
    (r : StringRec) : ∃ r', readSiMessage message r = some r' ∧
      r'.val = resize (maxStringSize - 1) (cString message) ++ [0] := by
  have hmax : max message.length maxStringSize = maxStringSize := Nat.max_eq_right h
  have hlen : (strncpy message maxStringSize).length = maxStringSize := length_resize ..
  have hfirst : 0 + (strncpy message maxStringSize).length ≤ maxStringSize := by omega
  have hlast : maxStringSize - 1 + [(0 : UInt8)].length ≤ maxStringSize := by decide
  have hwhole : overwrite r.val 0 (strncpy message maxStringSize) =
      strncpy message maxStringSize := overwrite_all (hlen.trans r.room.symm)
  have hend : (strncpy message maxStringSize).drop (maxStringSize - 1 + [(0 : UInt8)].length) =
      [] := List.drop_of_length_le (Nat.le_of_eq hlen)
  obtain ⟨r₁, hr₁, hval₁⟩ := r.write_inside hfirst
  obtain ⟨r₂, hr₂, hval₂⟩ := r₁.write_inside hlast
  refine ⟨r₂, ?_, ?_⟩
  · rw [readSiMessage, hmax, hr₁, Option.bind_some, hr₂]
  · rw [hval₂, hval₁, hwhole, overwrite, hend, List.append_nil]
    exact congrArg (· ++ [0]) (take_resize (maxStringSize - 1) _)

/-- A longer message is written over the end of `VAL`. -/
theorem readSiMessage_long {message : List UInt8} (h : maxStringSize < message.length)
    (r : StringRec) : readSiMessage message r = none := by
  have hmax : max message.length maxStringSize = message.length := by omega
  have hlen : (strncpy message message.length).length = message.length := length_resize ..
  have hout : ¬0 + (strncpy message message.length).length ≤ maxStringSize := by omega
  simp only [readSiMessage, hmax, StringRec.write, dif_neg hout, Option.bind_none]

/-- MESSAGES: those that are not longer than `VAL` are shown. -/
theorem readsMessage_iff (message : List UInt8) :
    ReadsMessage message ↔ message.length ≤ maxStringSize := by
  constructor
  · intro h
    obtain ⟨r', hr', -⟩ := h .ones
    by_contra hlong
    rw [readSiMessage_long (by omega)] at hr'
    cases hr'
  · intro h r
    obtain ⟨r', hr', hval⟩ := readSiMessage_room h r
    refine ⟨r', hr', ?_⟩
    rw [StringRec.Shows, hval]
    exact take_resize_nul _ _

/-- STRING INPUTS: a block is read right from its first byte on, or if it has room in `VAL`, or if
    it ends before the offset; a message if it is not longer than `VAL`. -/
theorem string_inputs (host : Host) (priv : Priv) {d : Dev E} (hc : d.connected = true)
    (message : List UInt8) :
    (ReadsText host priv d ↔ priv.offset = 0 ∨ d.data.mem.length < maxStringSize ∨
        d.data.mem.length ≤ priv.offset) ∧
      (ReadsMessage message ↔ message.length ≤ maxStringSize) :=
  ⟨readsText_iff host priv hc, readsMessage_iff message⟩

/-- A connected PSC has received `n` bytes that are not zero. -/
def received (n : ℕ) (h : n < 2 ^ 64) : Dev Libevent.Chains where
  connected := true
  data :=
    { toDBuffer := .contig (List.replicate n 65)
      lt := (List.length_replicate ..).trans_lt h }
  rxtime := ⟨0, 0⟩
  alarm := ⟨.noAlarm, .noAlarm⟩
  time := ⟨0, 0⟩

/-- A short block from its third byte on, and the message of a new connection. -/
theorem string_inputs_short :
    (ReadsText .little (.at 2) (received 5 (by decide)) ↔ (Priv.at 2).offset = 0 ∨
        (received 5 (by decide)).data.mem.length < maxStringSize ∨
        (received 5 (by decide)).data.mem.length ≤ (Priv.at 2).offset) ∧
      (ReadsMessage [67, 111, 110, 110, 101, 99, 116, 101, 100] ↔
        [67, 111, 110, 110, 101, 99, 116, 101, 100].length ≤ maxStringSize) :=
  string_inputs .little (.at 2) rfl [67, 111, 110, 110, 101, 99, 116, 101, 100]

/-- Of 40 bytes none is read from the 39th on, where the process stops, and 29 are from the tenth
    on, where 30 are left; a message of 46 characters, such as that of an aborted connection, is
    written behind the end of `VAL`. -/
theorem strings_not_read :
    readSi .little (.at 39) .ones (received 40 (by decide)) = .fault ∧
      (blockText (.at 10) (received 40 (by decide))).length = 30 ∧
      ((readSi .little (.at 10) .ones (received 40 (by decide))).state?.map fun r =>
        r.1.val.take 30) = some (List.replicate 29 65 ++ [0]) ∧
      readSiMessage (List.replicate 46 65) .ones = none ∧
      ¬ReadsText .little (.at 39) (received 40 (by decide)) ∧
      ¬ReadsText .little (.at 10) (received 40 (by decide)) ∧
      ¬ReadsMessage (List.replicate 46 65) := by
  refine ⟨rfl, rfl, rfl, rfl, ?_, ?_, ?_⟩
  · rw [readsText_iff .little _ rfl]
    decide
  · rw [readsText_iff .little _ rfl]
    decide
  · rw [readsMessage_iff]
    decide

end Pscdrv.Records
