import Mathlib.Tactic.Conv
import Pscdrv.Schemes.BigEndian

/-! # The PSC message stream

    A message is an 8-byte header, `'P' 'S'`, a 16-bit message id and a 32-bit body length in
    big-endian order, followed by the body. `Framed` says that a byte string is a concatenation of
    whole messages; `parse` is the one-shot reading of a stream, up to its end or to the first
    header that does not start with `PS`.

          0     1     2     3
       +-----+-----+-----------+
       |  P  |  S  |   Msg ID  |
       +-----+-----+-----------+
       |      Body Length      |
       +-----------------------+
       |      Body bytes ...   | -/

namespace Pscdrv

open BigEndian

/-- `HEADER_SIZE` -/
abbrev headerSize : ℕ := 8

/-- The header bytes, as `queueHeader` stores them with `htons()` and `htonl()`. -/
def header (code : UInt16) (len : UInt32) : List UInt8 :=
  ['P'.toUInt8, 'S'.toUInt8] ++ be 2 code.toNat ++ be 4 len.toNat

/-- `hbuf[0]=='P' && hbuf[1]=='S'` -/
def isPS (h : List UInt8) : Bool := h[0]? == some 'P'.toUInt8 && h[1]? == some 'S'.toUInt8

/-- `ntohs(*(epicsUInt16*)(hbuf+2))` -/
def msgidOf (h : List UInt8) : UInt16 := UInt16.ofNat (ofBe ((h.drop 2).take 2))

/-- `ntohl(*(epicsUInt32*)(hbuf+4))` -/
def bodylenOf (h : List UInt8) : UInt32 := UInt32.ofNat (ofBe ((h.drop 4).take 4))

@[simp] theorem length_header (code : UInt16) (len : UInt32) : (header code len).length = 8 := by
  simp [header]

theorem isPS_header (code : UInt16) (len : UInt32) (rest : List UInt8) :
    isPS (header code len ++ rest) = true := by
  simp [isPS, header]

theorem msgidOf_header (code : UInt16) (len : UInt32) (rest : List UInt8) :
    msgidOf (header code len ++ rest) = code := by
  have hfield : ((header code len ++ rest).drop 2).take 2 = be 2 code.toNat := by
    simp [header]
  rw [msgidOf, hfield, ofBe_be (by simpa using code.toNat_lt), UInt16.ofNat_toNat]

theorem bodylenOf_header (code : UInt16) (len : UInt32) (rest : List UInt8) :
    bodylenOf (header code len ++ rest) = len := by
  have hfield : ((header code len ++ rest).drop 4).take 4 = be 4 len.toNat := by
    simp [header]
  rw [bodylenOf, hfield, ofBe_be (by simpa using len.toNat_lt), UInt32.ofNat_toNat]

/-- The header fields lie in the first 8 bytes. -/
theorem isPS_take (l : List UInt8) : isPS (l.take headerSize) = isPS l := by
  simp [isPS, headerSize]

theorem msgidOf_take (l : List UInt8) : msgidOf (l.take headerSize) = msgidOf l := by
  simp [msgidOf, headerSize, List.drop_take, List.take_take]

theorem bodylenOf_take (l : List UInt8) : bodylenOf (l.take headerSize) = bodylenOf l := by
  simp [bodylenOf, headerSize, List.drop_take, List.take_take]

/-- A piece of a stream that reaches over a header begins with it. -/
theorem header_of_prefix {l rest : List UInt8} {code : UInt16} {len : UInt32}
    (h : l <+: header code len ++ rest) (hlen : headerSize ≤ l.length) :
    isPS l = true ∧ msgidOf l = code ∧ bodylenOf l = len ∧
      l = header code len ++ l.drop headerSize := by
  have hhead : l.take headerSize = header code len := by
    rw [List.prefix_iff_eq_take.mp h, List.take_take, Nat.min_eq_left hlen,
      List.take_left' (length_header code len)]
  have hall : l = header code len ++ l.drop headerSize := by
    rw [← hhead, List.take_append_drop]
  refine ⟨?_, ?_, ?_, hall⟩
  · rw [hall, isPS_header]
  · rw [hall, msgidOf_header]
  · rw [hall, bodylenOf_header]

/-- A message whose body length fits the header field. -/
structure Frame where
  code : UInt16
  body : List UInt8
  body_lt : body.length < 2 ^ 32

def Frame.bytes (f : Frame) : List UInt8 :=
  header f.code (UInt32.ofNat f.body.length) ++ f.body

/-- The byte string is a concatenation of whole messages. -/
def Framed (l : List UInt8) : Prop := ∃ fs : List Frame, l = (fs.map Frame.bytes).flatten

theorem framed_nil : Framed [] := ⟨[], rfl⟩

theorem Framed.append {a b : List UInt8} (ha : Framed a) (hb : Framed b) : Framed (a ++ b) := by
  obtain ⟨fs, rfl⟩ := ha
  obtain ⟨gs, rfl⟩ := hb
  exact ⟨fs ++ gs, by rw [List.map_append, List.flatten_append]⟩

theorem Frame.framed (f : Frame) : Framed f.bytes := ⟨[f], by simp⟩

/-- A string of whole messages that is not empty holds at least one header. -/
theorem Framed.length_le {l : List UInt8} (h : Framed l) (hl : l ≠ []) : 8 ≤ l.length := by
  obtain ⟨fs, rfl⟩ := h
  cases fs with
  | nil => exact absurd rfl hl
  | cons f fs =>
    simp only [List.map_cons, List.flatten_cons, List.length_append, Frame.bytes, length_header]
    omega

/-- Where the one-shot reading of a stream ends. -/
inductive Tail where
  /-- fewer than 8 bytes of a header -/
  | header
  /-- a header, and fewer body bytes than it announces -/
  | body (id : UInt16) (len : ℕ)
  /-- a header that does not start with `PS` -/
  | framing
  deriving DecidableEq

structure Parsed where
  msgs : List (UInt16 × List UInt8)
  tail : Tail
  deriving DecidableEq

/-- Read a stream of messages in one go. -/
def parse (l : List UInt8) : Parsed :=
  if l.length < headerSize then ⟨[], .header⟩
  else if isPS l = false then ⟨[], .framing⟩
  else
    let len := (bodylenOf l).toNat
    if (l.drop headerSize).length < len then ⟨[], .body (msgidOf l) len⟩
    else
      let r := parse (l.drop (headerSize + len))
      ⟨(msgidOf l, (l.drop headerSize).take len) :: r.msgs, r.tail⟩
termination_by l.length
decreasing_by
  simp only [List.length_drop, headerSize] at *
  omega

theorem parse_short {l : List UInt8} (h : l.length < headerSize) : parse l = ⟨[], .header⟩ := by
  rw [parse, if_pos h]

theorem parse_framing {l : List UInt8} (h : headerSize ≤ l.length) (hp : isPS l = false) :
    parse l = ⟨[], .framing⟩ := by
  rw [parse, if_neg (by omega), if_pos hp]

theorem parse_open {l : List UInt8} (h : headerSize ≤ l.length) (hp : isPS l = true)
    (hb : (l.drop headerSize).length < (bodylenOf l).toNat) :
    parse l = ⟨[], .body (msgidOf l) (bodylenOf l).toNat⟩ := by
  rw [parse, if_neg (by omega), if_neg (by simp [hp])]
  exact if_pos hb

theorem parse_msg {l : List UInt8} (h : headerSize ≤ l.length) (hp : isPS l = true)
    (hb : (bodylenOf l).toNat ≤ (l.drop headerSize).length) :
    parse l =
      ⟨(msgidOf l, (l.drop headerSize).take (bodylenOf l).toNat) ::
          (parse (l.drop (headerSize + (bodylenOf l).toNat))).msgs,
        (parse (l.drop (headerSize + (bodylenOf l).toNat))).tail⟩ := by
  conv_lhs => rw [parse]
  rw [if_neg (by omega), if_neg (by simp [hp])]
  exact if_neg (by omega)

/-- What was a message stays that message when more arrives. -/
theorem parse_extends (l more : List UInt8) : (parse l).msgs <+: (parse (l ++ more)).msgs := by
  fun_induction parse l with
  | case1 l h => exact List.nil_prefix
  | case2 l h hp => exact List.nil_prefix
  | case3 l h hp len hb => exact List.nil_prefix
  | case4 l h hp len hb r ih =>
    have h8 : headerSize ≤ l.length := by omega
    have hhead : (l ++ more).take headerSize = l.take headerSize :=
      List.take_append_of_le_length h8
    have hps : isPS (l ++ more) = true := by
      rw [← isPS_take, hhead, isPS_take]
      simpa using hp
    have hid : msgidOf (l ++ more) = msgidOf l := by rw [← msgidOf_take, hhead, msgidOf_take]
    have hlen : bodylenOf (l ++ more) = bodylenOf l := by
      rw [← bodylenOf_take, hhead, bodylenOf_take]
    have hdrop : (l ++ more).drop headerSize = l.drop headerSize ++ more :=
      List.drop_append_of_le_length h8
    have hbody : len ≤ (l.drop headerSize).length := by omega
    have hall : headerSize + len ≤ l.length := by
      rw [List.length_drop] at hbody
      omega
    rw [parse_msg (by rw [List.length_append]; omega) hps
      (by rw [hlen, hdrop, List.length_append]; omega), hid, hlen, hdrop,
      List.take_append_of_le_length hbody, List.drop_append_of_le_length hall]
    exact (List.prefix_cons_inj _).mpr ih

/-- The message id and the body of a frame. -/
def Frame.msg (f : Frame) : UInt16 × List UInt8 := (f.code, f.body)

/-- The first message of a stream is read, and then the rest of the stream. -/
theorem parse_frame (f : Frame) (rest : List UInt8) :
    parse (f.bytes ++ rest) = ⟨f.msg :: (parse rest).msgs, (parse rest).tail⟩ := by
  have hlen : (bodylenOf (f.bytes ++ rest)).toNat = f.body.length := by
    rw [Frame.bytes, List.append_assoc, bodylenOf_header, UInt32.toNat_ofNat_of_lt' f.body_lt]
  have hbody : (f.bytes ++ rest).drop headerSize = f.body ++ rest := by
    rw [Frame.bytes, List.append_assoc, List.drop_left' (length_header _ _)]
  have hrest : (f.bytes ++ rest).drop (headerSize + f.body.length) = rest :=
    List.drop_left' (by rw [Frame.bytes, List.length_append, length_header])
  rw [parse_msg, hlen, hbody, hrest, List.take_left' rfl, Frame.bytes, List.append_assoc,
    msgidOf_header]
  · rfl
  · rw [Frame.bytes, List.length_append, List.length_append, length_header, headerSize]
    omega
  · rw [Frame.bytes, List.append_assoc, isPS_header]
  · rw [hlen, hbody, List.length_append]
    omega

/-- A stream of whole messages is read as these messages. -/
theorem parse_frames (fs : List Frame) :
    parse (fs.map Frame.bytes).flatten = ⟨fs.map Frame.msg, .header⟩ := by
  induction fs with
  | nil => exact parse_short (Nat.succ_pos 7)
  | cons f fs ih => rw [List.map_cons, List.flatten_cons, parse_frame, ih, List.map_cons]

end Pscdrv
