import Mathlib.Algebra.GroupWithZero.Nat
import Pscdrv.Core.Block
import Pscdrv.Core.Wire

/-! # Packets of `UDPFast` and the data file they are written to

    A packet owns its body buffer, one of the buffers that were allocated with the driver; `id`
    follows an allocation through all the swaps. The cache worker writes the packets of one turn to
    the data file in batches of `writev()`, two `iovec`s a packet.

       +-----+-----+-----------+-----------------------+
       |  P  |  S  |   Msg ID  |      Body Length      |
       +-----+-----+-----------+-----------------------+
       |      POSIX seconds    |      Nanoseconds      |
       +-----------------------+-----------------------+
       |      Body bytes ...                           |

    The field `files` is not in the source: it holds the names and contents of the files opened, the
    last one at the end. -/

namespace Pscdrv.Fast

open BigEndian

/-- One allocation of the pool. -/
structure Buffer where
  id : ℕ
  bytes : List UInt8
  deriving DecidableEq

/-- A `std::vector<char>`: empty, or the owner of a buffer. -/
abbrev Vec := Option Buffer

/-- The bytes of the vector; its `size()` is their number. -/
def Vec.bytes : Vec → List UInt8
  | none => []
  | some b => b.bytes

structure Pkt where
  body : Vec
  bodylen : ℕ
  rxtime : EpicsTimeStamp
  msgid : UInt16
  deriving DecidableEq

/-- `pkt()` -/
def Pkt.new : Pkt := ⟨none, 0, ⟨0, 0⟩, 0⟩

/-- An `iovec`: the memory its base points to, and its length. -/
structure Iovec where
  base : List UInt8
  len : ℕ

/-- The bytes `writev()` takes from an `iovec` that stays inside its memory. -/
def Iovec.read (v : Iovec) : List UInt8 := v.base.take v.len

/-- The `header_t` of a packet. -/
def fileHeader (p : Pkt) : List UInt8 :=
  ['P'.toUInt8, 'S'.toUInt8] ++ be 2 p.msgid.toNat ++ be 4 p.bodylen ++
    be 4 (p.rxtime.secPastEpoch + posixTimeAtEpicsEpoch).toNat ++ be 4 p.rxtime.nsec.toNat

/-- The two `iovec`s of a packet: its header and its body. -/
def iovecs (p : Pkt) : List Iovec := [⟨fileHeader p, 16⟩, ⟨p.body.bytes, p.bodylen⟩]

/-- The settings of the data file: `size_t(PSCUDPMaxLenMB*(1u<<20u))`, `PSCUDPDSyncSizeMB` as a
    `size_t`, and `iovLimit`. -/
structure FileConfig where
  maxLen : UInt64
  dsyncSizeMB : UInt64
  iovLimit : ℕ

/-- What `writev()` answers. -/
inductive WriteV where
  | wrote (ret : ℕ)
  | error (errno : ℕ)
  deriving DecidableEq

/-- What the operating system answers while a data file is opened and written. -/
structure FileEnv where
  /-- the time stamp in the file name -/
  tsbuf : String
  /-- the error of `open()`, or none -/
  openErr : Option ℕ
  /-- the answers of `writev()`; when they run out every write is complete -/
  writev : List WriteV
  /-- the error of `fdatasync()`, or none -/
  fdatasyncErr : Option ℕ
  strerror : ℕ → String

/-- The data file as the cache worker and the records see it. -/
structure DataFile where
  isOpen : Bool
  filetotal : UInt64
  fileerr : Option ℕ
  lastsize : UInt64
  storewrote : UInt64
  filedir : String
  filebase : String
  lastfile : String
  lasterror : String
  reopen : Bool
  record : Bool
  files : List (String × List UInt8)

def DataFile.init : DataFile where
  isOpen := false
  filetotal := 0
  fileerr := none
  lastsize := 0
  storewrote := 0
  filedir := ""
  filebase := ""
  lastfile := ""
  lasterror := ""
  reopen := true
  record := false
  files := []

namespace DataFile

/-- Close the current file when recording was switched off. -/
def closeIdle (f : DataFile) : DataFile :=
  if !f.record && f.isOpen then { f with isOpen := false } else f

/-- A file that has reached its limit is to be replaced. -/
def rotate (cfg : FileConfig) (f : DataFile) : DataFile :=
  let f := if f.isOpen && decide (cfg.maxLen ≤ f.filetotal) then { f with reopen := true } else f
  { f with fileerr := none }

/-- `record && reopen && !filebase.empty()` -/
def wantsNew (f : DataFile) : Bool := f.record && f.reopen && f.filebase != ""

/-- The name of a new file. -/
def fname (f : DataFile) (tsbuf : String) : String :=
  (if f.filedir = "" then "" else f.filedir ++ "/") ++ f.filebase ++ tsbuf ++ ".dat"

/-- `open()` of a new file, after the current one was closed. -/
def openNew (env : FileEnv) (name : String) (f : DataFile) : DataFile :=
  match env.openErr with
  | some errno => { f with isOpen := false, fileerr := some errno, record := false }
  | none => { f with isOpen := true, lastfile := name, files := f.files ++ [(name, [])] }

/-- Append to the file opened last. -/
def append (f : DataFile) (data : List UInt8) : DataFile :=
  match f.files.getLast? with
  | some (name, content) => { f with files := f.files.dropLast ++ [(name, content ++ data)] }
  | none => f

/-- One `writev()`: a failed or incomplete write closes the file and ends the recording. -/
def writeBatch (f : DataFile) (batch : List Pkt) (ret : Option WriteV) : DataFile :=
  let ios := batch.flatMap iovecs
  let batchtotal := (ios.map Iovec.len).sum
  match ret.getD (.wrote batchtotal) with
  | .error errno => { f with fileerr := some errno, isOpen := false, record := false }
  | .wrote n =>
    let f := f.append ((ios.flatMap Iovec.read).take n)
    if n ≠ batchtotal then { f with isOpen := false, record := false } else f

/-- The loop over the batches of `b` packets, as long as the file is open: the file, and the bytes
    that were to be written. Every turn takes at least one packet, so `pkts.length` turns do. -/
def writeLoop (b : ℕ) : ℕ → List Pkt → List WriteV → DataFile → DataFile × ℕ
  | 0, _, _, f => (f, 0)
  | n + 1, pkts, rets, f =>
    if pkts = [] ∨ f.isOpen = false then (f, 0)
    else
      let batch := pkts.take b
      let r := writeLoop b n (pkts.drop b) rets.tail (f.writeBatch batch rets.head?)
      (r.1, ((batch.flatMap iovecs).map Iovec.len).sum + r.2)

/-- Write the packets of one turn, count them, and flush the file from time to time. -/
def write (cfg : FileConfig) (env : FileEnv) (pkts : List Pkt) (f : DataFile) : DataFile :=
  if !f.isOpen then f
  else
    let r := writeLoop (cfg.iovLimit / 2) pkts.length pkts env.writev f
    let datatotal := UInt64.ofNat r.2
    let f : DataFile := { r.1 with
      storewrote := r.1.storewrote + datatotal
      filetotal := r.1.filetotal + datatotal
      lastsize := r.1.filetotal + datatotal }
    if cfg.dsyncSizeMB ≠ 0 ∧ f.isOpen = true ∧ cfg.dsyncSizeMB ≤ f.filetotal / 0x100000 then
      let f := { f with filetotal := 0 }
      match env.fdatasyncErr with
      | some errno => { f with fileerr := some errno }
      | none => f
    else f

/-- Keep the text of an error. -/
def keepError (env : FileEnv) (f : DataFile) : DataFile :=
  match f.fileerr with
  | some errno => { f with
      lasterror := "(" ++ toString errno ++ ") " ++ env.strerror errno }
  | none => f

end DataFile

end Pscdrv.Fast
