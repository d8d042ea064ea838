import Pscdrv.Fast.Datafile

/-! # The format of the data files

    A data file is a sequence of packets, each behind a 16-byte header with the time of reception.
    `decodeFile` reads it by the documented format and gives nothing for a file that ends inside a
    packet. Reading what was written for a list of packets gives these packets back.

          0     1     2     3
       +-----+-----+-----------+
       |  P  |  S  |   Msg ID  |
       +-----+-----+-----------+
       |      Body Length      |
       +-----------------------+
       |      Seconds          |
       +-----------------------+
       |      Nano-seconds     |
       +-----------------------+
       |      Body bytes ...   | -/

namespace Pscdrv.Fast

open BigEndian

/-- `sizeof(header_t)` -/
abbrev fileHeaderSize : ℕ := 16

/-- What a data file says of a packet; the seconds are those since the POSIX epoch. -/
structure Entry where
  msgid : UInt16
  sec : UInt32
  nsec : UInt32
  body : List UInt8
  deriving DecidableEq

def secOf (h : List UInt8) : UInt32 := UInt32.ofNat (ofBe ((h.drop 8).take 4))

def nsecOf (h : List UInt8) : UInt32 := UInt32.ofNat (ofBe ((h.drop 12).take 4))

/-- Read a data file, packet after packet. -/
def decodeFile (l : List UInt8) : Option (List Entry) :=
  if l = [] then some []
  else if l.length < fileHeaderSize then none
  else if isPS l = false then none
  else
    let len := (bodylenOf l).toNat
    if (l.drop fileHeaderSize).length < len then none
    else
      let e : Entry := ⟨msgidOf l, secOf l, nsecOf l, (l.drop fileHeaderSize).take len⟩
      (decodeFile (l.drop (fileHeaderSize + len))).map (e :: ·)
termination_by l.length
decreasing_by
  simp only [List.length_drop, fileHeaderSize] at *
  omega

/-- The part of the body that belongs to the packet. -/
def Pkt.payload (p : Pkt) : List UInt8 := p.body.bytes.take p.bodylen

/-- The header and the body of a packet, as they are written. -/
def Pkt.record (p : Pkt) : List UInt8 := fileHeader p ++ p.payload

/-- What a reader is to learn of the packet. -/
def Pkt.entry (p : Pkt) : Entry :=
  ⟨p.msgid, p.rxtime.secPastEpoch + posixTimeAtEpicsEpoch, p.rxtime.nsec, p.payload⟩

/-- The body is as long as the packet says, and the length fits its field. -/
structure Pkt.Intact (p : Pkt) : Prop where
  bodylen_le : p.bodylen ≤ p.body.bytes.length
  bodylen_lt : p.bodylen < 2 ^ 32

@[simp] theorem length_fileHeader (p : Pkt) : (fileHeader p).length = 16 := by
  simp [fileHeader]

theorem Pkt.length_record (p : Pkt) : p.record.length = 16 + min p.bodylen p.body.bytes.length := by
  rw [Pkt.record, List.length_append, length_fileHeader, Pkt.payload, List.length_take]

theorem Pkt.Intact.length_payload {p : Pkt} (h : p.Intact) : p.payload.length = p.bodylen := by
  rw [Pkt.payload, List.length_take, Nat.min_eq_left h.bodylen_le]

/-- What `writev()` reads for a packet. -/
theorem read_iovecs (p : Pkt) : (iovecs p).flatMap Iovec.read = p.record := by
  have hhead : (fileHeader p).take 16 = fileHeader p :=
    List.take_of_length_le (length_fileHeader p).le
  simp [iovecs, Iovec.read, Pkt.record, Pkt.payload, hhead]

/-- How many bytes `writev()` is asked to write for a packet. -/
theorem len_iovecs (p : Pkt) : ((iovecs p).map Iovec.len).sum = 16 + p.bodylen := by
  simp [iovecs]

/-! ### Reading a header back -/

section Header

variable (p : Pkt) (rest : List UInt8)

theorem isPS_record : isPS (p.record ++ rest) = true := by
  simp [isPS, Pkt.record, fileHeader]

theorem msgidOf_record : msgidOf (p.record ++ rest) = p.msgid := by
  have hfield : ((p.record ++ rest).drop 2).take 2 = be 2 p.msgid.toNat := by
    simp [Pkt.record, fileHeader]
  rw [msgidOf, hfield, ofBe_be (by simpa using p.msgid.toNat_lt), UInt16.ofNat_toNat]

theorem secOf_record : secOf (p.record ++ rest) = p.entry.sec := by
  have hfield : ((p.record ++ rest).drop 8).take 4 =
      be 4 (p.rxtime.secPastEpoch + posixTimeAtEpicsEpoch).toNat := by
    simp only [Pkt.record, fileHeader, List.append_assoc]
    rw [← List.append_assoc (be 2 _), ← List.append_assoc [_, _], List.drop_left' (by simp),
      List.take_left' (by simp)]
  rw [secOf, hfield, ofBe_be (UInt32.toNat_lt _), UInt32.ofNat_toNat, Pkt.entry]

theorem nsecOf_record : nsecOf (p.record ++ rest) = p.rxtime.nsec := by
  have hfield : ((p.record ++ rest).drop 12).take 4 = be 4 p.rxtime.nsec.toNat := by
    rw [Pkt.record, fileHeader, List.append_assoc, List.append_assoc, List.drop_left' (by simp),
      List.take_left' (by simp)]
  rw [nsecOf, hfield, ofBe_be (UInt32.toNat_lt _), UInt32.ofNat_toNat]

variable {p}

theorem bodylenOf_record (h : p.Intact) : (bodylenOf (p.record ++ rest)).toNat = p.bodylen := by
  have hfield : ((p.record ++ rest).drop 4).take 4 = be 4 p.bodylen := by
    simp [Pkt.record, fileHeader]
  rw [bodylenOf, hfield, ofBe_be h.bodylen_lt, UInt32.toNat_ofNat_of_lt' h.bodylen_lt]

end Header

/-- STEP: the first packet of a file is read, and then the rest of the file. -/
theorem decodeFile_record {p : Pkt} (h : p.Intact) (rest : List UInt8) :
    decodeFile (p.record ++ rest) = (decodeFile rest).map (p.entry :: ·) := by
  have hlen : p.record.length = 16 + p.bodylen := by
    rw [p.length_record, Nat.min_eq_left h.bodylen_le]
  have hbody : (p.record ++ rest).drop fileHeaderSize = p.payload ++ rest := by
    rw [Pkt.record, List.append_assoc, List.drop_left' (length_fileHeader p)]
  have hrest : (p.record ++ rest).drop (fileHeaderSize + p.bodylen) = rest :=
    List.drop_left' hlen
  have hne : p.record ++ rest ≠ [] := by
    intro hnil
    have h0 := congrArg List.length hnil
    rw [List.length_append, hlen, List.length_nil] at h0
    omega
  rw [decodeFile, if_neg hne, if_neg (by rw [List.length_append, hlen, fileHeaderSize]; omega),
    if_neg (by rw [isPS_record]; nofun)]
  dsimp only
  rw [bodylenOf_record rest h, hbody, hrest,
    if_neg (by rw [List.length_append, h.length_payload]; omega), msgidOf_record, secOf_record,
    nsecOf_record, List.take_left' h.length_payload]
  rfl

/-- ROUND TRIP: a file that holds the records of packets is read as these packets. -/
theorem decodeFile_records {pkts : List Pkt} (h : ∀ p ∈ pkts, p.Intact) :
    decodeFile (pkts.flatMap Pkt.record) = some (pkts.map Pkt.entry) := by
  induction pkts with
  | nil => rw [List.flatMap_nil, decodeFile, if_pos rfl, List.map_nil]
  | cons p pkts ih =>
    obtain ⟨hp, hrest⟩ := List.forall_mem_cons.mp h
    rw [List.flatMap_cons, decodeFile_record hp, ih hrest, Option.map_some, List.map_cons]

end Pscdrv.Fast
