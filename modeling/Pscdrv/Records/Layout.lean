import Pscdrv.Core.NetworkOrder
import Pscdrv.Records.Single
import Pscdrv.Target.Pscmsg

/-! # The message of a single register

    The body of such a message is the address of the register and the value, one behind the other.
    The record takes it from a `struct` with a member for each, and the compiler puts a value of
    eight bytes to an offset that is a multiple of eight.

        documented       │ address │ value       │
        4-byte value     │ address │ value       │
        8-byte value     │ address │ padding     │ value                │ -/

namespace Pscdrv.Single

open BigEndian Memory Records Target

/-- The types of values that the device supports are instantiated with. -/
inductive ValueType where
  | u32
  | i32
  | f32
  | i64
  | f64
  deriving DecidableEq

@[reducible] def ValueType.width : ValueType → Width
  | .u32 | .i32 | .f32 => .w4
  | .i64 | .f64 => .w8

/-- A type of four bytes. -/
def ValueType.Short (T : ValueType) : Prop := T = .u32 ∨ T = .i32 ∨ T = .f32

variable {E P R : Type} [Libevent E] {w : Width}

namespace Link

variable (K : Link w P R)

/-- The documented body: the address and the value in network order. -/
def layout (v : BitVec w.bits) : List UInt8 := be 4 K.offset ++ be w.bytes v.toNat

theorem length_layout (v : BitVec w.bits) : (K.layout v).length = 4 + w.bytes := by
  simp [layout]

/-- SENT: the body is the documented one, whatever was on the stack. -/
def Sends (v : BitVec w.bits) : Prop := ∀ stack, K.tosend v stack = K.layout v

theorem tosend_lt (v : BitVec w.bits) (stack : ℕ → UInt8) :
    (K.tosend v stack).length < 2 ^ 32 := by
  rw [K.length_tosend v stack]
  exact frameSize_lt w

/-- The message that is queued. -/
def message (v : BitVec w.bits) (stack : ℕ → UInt8) : Pscdrv.Frame :=
  ⟨K.bid, K.tosend v stack, K.tosend_lt v stack⟩

/-- SAME: `psc_sendmsgsingle` sends this message for the address and the bytes of the value. -/
def AsTarget (v : BitVec w.bits) : Prop :=
  ∀ stack host sock, Positive sock → ∃ t,
    sendmsgsingle host sock K.bid (.ofNat 32 K.offset) (be w.bytes v.toNat) = (none, t) ∧
      t.outgoing = sock.outgoing ++ (K.message v stack).bytes

/-- READ: `read_msg` of the documented body gives the value, whatever the variable held before. -/
def Reads (v : BitVec w.bits) (s : State E P R) : Prop :=
  ∀ (value : BitVec w.bits) (body : BlockData E), body.mem = K.layout v →
    ∃ s', K.readMsg value { s with data := body, syncData := body.mem } = .value v s'

/-- What `queueSend` is given when there is a connection. -/
theorem writeMsg_sends (v : BitVec w.bits) (stack : ℕ → UInt8) {s : State E P R}
    (hc : K.base.isConnected s.psc = true) : ∃ body : RawBuf,
      body.bytes = (K.message v stack).body ∧
      K.writeMsg v stack s = match K.base.queueSend s.psc K.bid body with
        | .ok p => .value () { s with psc := p }
        | .throw _ p => .exception { s with psc := p }
        | .abort _ => .fault := by
  refine ⟨⟨K.tosend v stack, (K.length_tosend v stack).trans_lt (frameSize_lt w)⟩, rfl, ?_⟩
  rw [writeMsg, hc]
  rfl

/-- The target sends the documented body. -/
theorem asTarget_iff (haddr : K.offset < 2 ^ 32) (v : BitVec w.bits) :
    K.AsTarget v ↔ K.Sends v := by
  have hnum : (BitVec.ofNat 32 K.offset).toNat = K.offset := by
    rw [BitVec.toNat_ofNat, Nat.mod_eq_of_lt haddr]
  constructor
  · intro h stack
    let sock : Sock := ⟨[], [], fun _ => .upTo 1, 0, []⟩
    have hpos : Positive sock := fun _ => ⟨1, Nat.one_pos, rfl⟩
    let f : Pscdrv.Frame := ⟨K.bid, K.layout v, by
      have hw : w.bytes ≤ 8 := by cases w <;> decide
      rw [length_layout]
      omega⟩
    have hbody : f.body = be 4 (BitVec.ofNat 32 K.offset).toNat ++ be w.bytes v.toNat := by
      rw [hnum]
      rfl
    obtain ⟨t, ht, htout⟩ := h stack .little sock hpos
    obtain ⟨u, hu, huout⟩ := sendmsgsingle_spec .little sock hpos K.bid _ rfl hbody
    cases ht.symm.trans hu
    have hbytes := List.append_cancel_left (htout.symm.trans huout)
    exact List.append_inj_right hbytes (by rw [length_header, length_header])
  · intro h stack host sock hpos
    refine sendmsgsingle_spec host sock hpos K.bid _ rfl ?_
    rw [hnum]
    exact h stack

end Link

/-! ### The own messages -/

theorem valAt_ge (w : Width) : 4 ≤ valAt w := by cases w <;> decide

/-- The address lies at the front of a message. -/
theorem tosend_addr (K : Link w P R) (haddr : K.offset < 2 ^ 32) (v : BitVec w.bits)
    (stack : ℕ → UInt8) : (K.tosend v stack).take 4 = be 4 K.offset := by
  have hnum : (BitVec.ofNat 32 K.offset).toNat = K.offset := by
    rw [BitVec.toNat_ofNat, Nat.mod_eq_of_lt haddr]
  have haddrBytes : stored K.host (w := .w4) (.ofNat 32 K.offset) = be 4 K.offset := by
    rw [stored, image_hton_w4, hnum]
  have hfirst : 0 + (be 4 K.offset).length ≤ (uninit stack (frameSize w)).length := by
    rw [length_be, length_uninit, Nat.zero_add]
    exact addr_fits w
  have hval : valAt w + (stored K.host v).length ≤
      (overwrite (uninit stack (frameSize w)) 0 (be 4 K.offset)).length := by
    rw [length_stored, length_overwrite hfirst, length_uninit]
    exact val_fits w
  have hapart := read_overwrite_apart hval (.inl ((Nat.zero_add 4).trans_le (valAt_ge w)))
  have hread := read_overwrite hfirst
  rw [List.drop_zero] at hapart hread
  rw [length_be] at hread
  rw [Link.tosend, haddrBytes]
  exact hapart.trans hread

/-- The value lies behind it. -/
theorem tosend_val (K : Link w P R) (v : BitVec w.bits) (stack : ℕ → UInt8) :
    ((K.tosend v stack).drop (valAt w)).take w.bytes = stored K.host v := by
  have hlen := K.length_tosend v stack
  have hfirst : valAt w + (stored K.host v).length ≤
      (overwrite (uninit stack (frameSize w)) 0 (stored K.host (w := .w4)
        (.ofNat 32 K.offset))).length := by
    rw [length_stored, length_overwrite, length_uninit]
    · exact val_fits w
    · rw [length_uninit, length_stored, Nat.zero_add]
      exact addr_fits w
  have hread := read_overwrite hfirst
  rwa [length_stored] at hread

/-- ECHO: a record reads the messages that it sends, whatever their layout. -/
theorem readMsg_tosend (K : Link w P R) (haddr : K.offset < 2 ^ 32) (v value : BitVec w.bits)
    (stack : ℕ → UInt8) {s : State E P R} {body : BlockData E}
    (hbody : body.mem = K.tosend v stack) : ∃ alarm,
    K.readMsg value { s with data := body, syncData := body.mem } =
      .value v { s with data := body, syncData := [], alarm := alarm } := by
  have hlen := K.length_tosend v stack
  have hsize : ¬body.size < frameSize w := by
    rw [body.size_eq, hbody, hlen]
    exact Nat.lt_irrefl _
  have hcopy : ¬body.mem.length < frameSize w := by
    rwa [← body.size_eq]
  have haddr' : (ntohl K.host (body.mem.take 4)).toNat = K.offset := by
    rw [hbody, tosend_addr K haddr]
    exact ((bytes2val_iff K.host (w := .w4) (length_be ..)).mpr trivial).trans (ofBe_be haddr)
  have hval : ntoh K.host w (K.host.load w ((body.mem.drop (valAt w)).take w.bytes)) = v := by
    rw [hbody, tosend_val, stored, Host.load_image, ntoh_hton]
  unfold Link.readMsg
  simp only [if_neg hsize, if_neg hcopy, haddr', hval, ne_eq, not_true_eq_false, if_false]
  exact ⟨_, rfl⟩

/-! ### Four bytes -/

/-- The value follows the address at once. -/
theorem sends_w4 (K : Link .w4 P R) (haddr : K.offset < 2 ^ 32) (v : BitVec 32) : K.Sends v := by
  intro stack
  have hnum : (BitVec.ofNat 32 K.offset).toNat = K.offset := by
    rw [BitVec.toNat_ofNat, Nat.mod_eq_of_lt haddr]
  have haddrBytes : stored K.host (w := .w4) (.ofNat 32 K.offset) = be 4 K.offset := by
    rw [stored, image_hton_w4, hnum]
  have hval : stored K.host (w := .w4) v = be 4 v.toNat := image_hton_w4 K.host v
  have hlen : (be 4 K.offset ++ be 4 v.toNat).length = (uninit stack (frameSize .w4)).length := by
    simp [frameSize]
  have happ := overwrite_append ((Nat.zero_add _).trans_le (Nat.le_of_eq hlen))
  rw [length_be, Nat.zero_add, overwrite_all hlen] at happ
  rw [Link.tosend, haddrBytes, hval]
  exact happ

/-- The documented body is a message of the record itself. -/
theorem reads_w4 (K : Link .w4 P R) (haddr : K.offset < 2 ^ 32) (v : BitVec 32)
    (s : State E P R) : K.Reads v s := by
  intro value body hbody
  rw [← sends_w4 K haddr v fun _ => 0] at hbody
  obtain ⟨alarm, hread⟩ := readMsg_tosend K haddr v value _ (s := s) hbody
  exact ⟨_, hread⟩

/-! ### Eight bytes -/

/-- The padding makes the body longer. -/
theorem not_sends_w8 (K : Link .w8 P R) (v : BitVec 64) : ¬K.Sends v := by
  intro h
  have hlen := congrArg List.length (h fun _ => 0)
  rw [K.length_tosend, K.length_layout] at hlen
  exact absurd hlen (by decide)

/-- A body without padding is too short, and the variable keeps its value. -/
theorem not_reads_w8 (K : Link .w8 P R) (v : BitVec 64) (s : State E P R) : ¬K.Reads v s := by
  intro h
  let body : BlockData E := {
    toDBuffer := .contig (K.layout v)
    lt := by
      rw [DBuffer.mem_contig, K.length_layout]
      decide }
  have hshort : body.size < frameSize .w8 := by
    rw [body.size_eq]
    exact (K.length_layout v).trans_lt (by decide)
  obtain ⟨s', hs'⟩ := h (v + 1) body rfl
  rw [Link.readMsg, if_pos hshort] at hs'
  have hsame : v + 1 = v := (Ret.value.inj hs').1
  bv_omega

/-- A value of four bytes: all is as documented. -/
theorem layout_w4 (K : Link .w4 P R) (haddr : K.offset < 2 ^ 32) (v : BitVec 32)
    (s : State E P R) {T : ValueType} (h : T.Short) :
    (K.Sends v ↔ T.Short) ∧ (K.AsTarget v ↔ T.Short) ∧ (K.Reads v s ↔ T.Short) := by
  have hsends := sends_w4 K haddr v
  exact ⟨iff_of_true hsends h, iff_of_true ((K.asTarget_iff haddr v).mpr hsends) h,
    iff_of_true (reads_w4 K haddr v s) h⟩

/-- A value of eight bytes: nothing is. -/
theorem layout_w8 (K : Link .w8 P R) (haddr : K.offset < 2 ^ 32) (v : BitVec 64)
    (s : State E P R) {T : ValueType} (h : ¬T.Short) :
    (K.Sends v ↔ T.Short) ∧ (K.AsTarget v ↔ T.Short) ∧ (K.Reads v s ↔ T.Short) := by
  have hsends := not_sends_w8 K v
  exact ⟨iff_of_false hsends h, iff_of_false (mt (K.asTarget_iff haddr v).mp hsends) h,
    iff_of_false (not_reads_w8 K v s) h⟩

/-- REGISTERS: the message of a register has the documented layout, is the one of the target, and is
    read back, each exactly if the value has four bytes. -/
theorem single_layout (T : ValueType) (K : Link T.width P R) (v : BitVec T.width.bits)
    (s : State E P R) (haddr : K.offset < 2 ^ 32) :
    (K.Sends v ↔ T.Short) ∧ (K.AsTarget v ↔ T.Short) ∧ (K.Reads v s ↔ T.Short) := by
  cases T with
  | u32 => exact layout_w4 K haddr v s (.inl rfl)
  | i32 => exact layout_w4 K haddr v s (.inr (.inl rfl))
  | f32 => exact layout_w4 K haddr v s (.inr (.inr rfl))
  | i64 => exact layout_w8 K haddr v s (by simp [ValueType.Short])
  | f64 => exact layout_w8 K haddr v s (by simp [ValueType.Short])

/-- The value 5 for register 128. -/
theorem single_layout_i32 : (longout.Sends 5 ↔ ValueType.i32.Short) ∧
    (longout.AsTarget 5 ↔ ValueType.i32.Short) ∧
    (longout.Reads 5 longoutInit ↔ ValueType.i32.Short) :=
  single_layout .i32 longout 5 longoutInit (by decide)

/-- An `int64out` record for register 128 in message 4. -/
def int64out : Link .w8 (Tcp.Psc Libevent.Chains) (ValRec .w8) where
  host := .little
  bid := 4
  offset := 128
  base := tcpBase ⟨0⟩
  routine := writeMsgVal .w8

/-- Four bytes of the stack lie between the address and the value 5, and the 12 bytes that the
    target sends are not read. -/
theorem layout_padded :
    int64out.tosend 5 (fun _ => 0xaa) =
        [0, 0, 0, 128, 0xaa, 0xaa, 0xaa, 0xaa, 0, 0, 0, 0, 0, 0, 0, 5] ∧
      int64out.layout 5 = [0, 0, 0, 128, 0, 0, 0, 0, 0, 0, 0, 5] ∧ ¬int64out.Sends 5 ∧
      ¬int64out.AsTarget 5 ∧
      ¬int64out.Reads 5 (init ⟨0, false⟩ ⟨.noAlarm, .noAlarm⟩ (.init {4} {4}) :
        State Libevent.Chains (Tcp.Psc Libevent.Chains) (ValRec .w8)) := by
  refine ⟨by decide, by decide, not_sends_w8 _ _, ?_, not_reads_w8 _ _ _⟩
  rw [Link.asTarget_iff _ (by decide)]
  exact not_sends_w8 _ _

end Pscdrv.Single
