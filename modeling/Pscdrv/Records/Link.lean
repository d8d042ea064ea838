import Pscdrv.Core.Block
import Pscdrv.Schemes.Stream

/-! # The block that a link names

    A link names a PSC and a message id, and the record gets the `Block` that the PSC keeps under
    this id. On the way the id passes through types of different sizes.

        parse_link            text ──▶ unsigned int ───┐
        init_count            text ──▶ unsigned long ──┼──▶ epicsUInt16 ──▶ Block
        setPSCSendBlockSize            int ────────────┘ -/

namespace Pscdrv.Records

open IStream

variable {E : Type} [Libevent E]

/-! ### The blocks of all PSCs -/

/-- The direction of a block, `recv_blocks` or `send_blocks`. -/
inductive Dir where
  | rx
  | tx
  deriving DecidableEq

/-- A `Block*`: its PSC, the map it is in, and its key there. -/
@[ext]
structure BlockRef where
  psc : List Char
  dir : Dir
  id : UInt16
  deriving DecidableEq

/-- What initialisation changes of a `PSCBase`; records are numbered. -/
structure Blocks (E : Type) [Libevent E] where
  recvBlocks : BlockMap E
  sendBlocks : BlockMap E
  procOnConnect : List ℕ

/-- `pscmap` -/
abbrev PscMap (E : Type) [Libevent E] := List Char → Option (Blocks E)

def PscMap.update (m : PscMap E) (name : List Char) (f : Blocks E → Blocks E) : PscMap E :=
  fun n => if n = name then (m n).map f else m n

/-- `getRecv`; the pointer is never null. -/
def getRecv (m : PscMap E) (name : List Char) (block : UInt16) : Option BlockRef × PscMap E :=
  (some ⟨name, .rx, block⟩, m.update name fun b => { b with recvBlocks := b.recvBlocks.get block })

/-- `getSend`; the pointer is never null. -/
def getSend (m : PscMap E) (name : List Char) (block : UInt16) : Option BlockRef × PscMap E :=
  (some ⟨name, .tx, block⟩, m.update name fun b => { b with sendBlocks := b.sendBlocks.get block })

/-! ### The routines -/

/-- What `parse_link` fills in of a `Priv`. -/
structure LinkPriv where
  prec : ℕ
  psc : Option (List Char)
  bid : UInt16
  block : Option BlockRef
  offset : UInt64
  step : Int64
  timeFromBlock : Bool
  tsoffset : UInt64

/-- `Priv::Priv` -/
def LinkPriv.new (prec : ℕ) : LinkPriv := ⟨prec, none, 0, none, 0, 0, false, 0⟩

/-- `epicsStrCaseCmp(a, b)==0` -/
def strCaseEq (a b : List Char) : Bool := a.map Char.toLower == b.map Char.toLower

/-- `>>` after a test of `eof()`. -/
def intUnlessEof (fits : ℤ → Bool) (s : IStream) : Option ℤ × IStream :=
  if s.eof then (none, s) else s.int fits

/-- `TimeFromBlock` gives the offset of a timestamp. -/
def LinkPriv.readTsoffset (priv : LinkPriv) : Option (List Char) → LinkPriv
  | none => priv
  | some tsoffset =>
    let r := (ofString tsoffset).int (fitsUnsigned 64)
    if r.2.fail then priv
    else { priv with tsoffset := .ofInt (r.1.getD 0), timeFromBlock := true }

/-- The `switch` over the direction. -/
def selectBlock (m : PscMap E) (name : List Char) (block : UInt16) (direction : ℤ) :
    Option BlockRef × PscMap E :=
  if direction = 0 then getRecv m name block
  else if direction = 1 then getSend m name block
  else (none, m)

/-- `parse_link`; `info` are the info tags of the record. -/
def parseLink (m : PscMap E) (info : String → Option (List Char)) (priv : LinkPriv)
    (link : List Char) (direction : ℤ) : Res (LinkPriv × PscMap E) :=
  let name := (ofString link).word
  let block := name.2.int (fitsUnsigned 32)
  let offset := intUnlessEof (fitsUnsigned 64) block.2
  let step := intUnlessEof (fitsSigned 64) offset.2
  if step.2.fail then .throw (.runtimeError "Link parsing error") (priv, m)
  else
    match m name.1 with
    | none => .throw (.runtimeError "PSC name not known") ({ priv with psc := none }, m)
    | some _ =>
      let id : UInt32 := .ofInt (block.1.getD 0)
      let priv := { priv with
        psc := some name.1
        bid := id.toUInt16
        offset := .ofInt (offset.1.getD 0)
        step := .ofInt (step.1.getD 0) }
      let priv := priv.readTsoffset (info "TimeFromBlock")
      let onconn := (info "SYNC").any fun scan => strCaseEq scan "ProcOnConn".toList
      let r := selectBlock m name.1 id.toUInt16 direction
      let priv := { priv with block := r.1 }
      let m := if onconn ∧ direction ≠ 0 then
          r.2.update name.1 fun b => { b with procOnConnect := b.procOnConnect ++ [priv.prec] }
        else r.2
      if r.1 = none ∧ direction ≤ 1 then .throw (.runtimeError "PSC can't get block #") (priv, m)
      else .ok (priv, m)

/-- `init_count`: the block is the `dpvt` of the record. -/
def initCount (m : PscMap E) (inp : List Char) : Res (Option BlockRef × PscMap E) :=
  let pscname := (ofString inp).word
  let blocknum := pscname.2.int (fitsUnsigned 64)
  let direction := blocknum.2.word
  if direction.2.fail then .throw (.runtimeError "Failed to parse INP") (none, m)
  else
    match m pscname.1 with
    | none => .throw (.runtimeError "Can't find PSC") (none, m)
    | some _ =>
      let id : UInt64 := .ofInt (blocknum.1.getD 0)
      if direction.1 = "rx".toList then .ok (getRecv m pscname.1 id.toUInt16)
      else if direction.1 = "tx".toList then .ok (getSend m pscname.1 id.toUInt16)
      else .throw (.runtimeError "Invalid direction") (none, m)

/-- `setPSCSendBlockSize`, with the block it resizes; `resizeErr` is what `resize()` throws, if it
    does. -/
def setPSCSendBlockSize (m : PscMap E) (name : List Char) (bid size : Int32)
    (resizeErr : Option Exc) : Res (Option BlockRef × PscMap E) :=
  match m name with
  | none => .throw (.runtimeError "Unknown PSC") (none, m)
  | some _ =>
    let r := getSend m name (.ofInt bid.toInt)
    match resizeErr with
    | some e => .throw e r
    | none => .ok (r.1, r.2.update name fun b =>
        { b with sendBlocks := b.sendBlocks.modify (.ofInt bid.toInt) fun blk =>
          { blk with data := blk.data.resize (size.toInt % 2 ^ 64).toNat } })

/-! ### Requests for a block -/

/-- A record's link, or a command, that asks for a block. -/
inductive Request where
  | parseLink (info : String → Option (List Char)) (prec : ℕ) (link : List Char) (dir : Dir)
  | initCount (inp : List Char)
  | setPSCSendBlockSize (name : List Char) (bid size : Int32) (resizeErr : Option Exc)

/-- The `direction` of `parse_link`. -/
def Dir.code : Dir → ℤ
  | .rx => 0
  | .tx => 1

/-- The block of a request that returns normally. -/
def Request.block (m : PscMap E) : Request → Option BlockRef
  | .parseLink info prec link dir =>
    match Records.parseLink m info (.new prec) link dir.code with
    | .ok r => r.1.block
    | _ => none
  | .initCount inp =>
    match Records.initCount m inp with
    | .ok r => r.1
    | _ => none
  | .setPSCSendBlockSize name bid size resizeErr =>
    match Records.setPSCSendBlockSize m name bid size resizeErr with
    | .ok r => r.1
    | _ => none

/-- The integer in the second field of a text. -/
def secondField (text : List Char) : Option ℤ :=
  (scanInt (skipSpace ((skipSpace text).dropWhile fun c => !isSpace c))).1

/-- The message id that is written in a request. -/
def Request.written : Request → Option ℤ
  | .parseLink _ _ link _ => secondField link
  | .initCount inp => secondField inp
  | .setPSCSendBlockSize _ bid _ _ => some bid.toInt

/-- The numbers that the type of the id takes. -/
def Request.takes : Request → ℤ → Prop
  | .parseLink _ _ _ _, z => z.natAbs < 2 ^ 32
  | .initCount _, z => z.natAbs < 2 ^ 64
  | .setPSCSendBlockSize _ _ _ _, z => -2 ^ 31 ≤ z ∧ z < 2 ^ 31

/-! ### Ids of 16 bits -/

theorem toNat_ofInt (z : ℤ) : ((UInt16.ofInt z).toNat : ℤ) = z % 65536 := by
  rw [UInt16.ofInt, UInt16.toNat_ofNat']
  omega

theorem toUInt16_ofInt32 (z : ℤ) : (UInt32.ofInt z).toUInt16 = .ofInt z := by
  apply UInt16.toNat_inj.mp
  rw [UInt32.toNat_toUInt16, UInt32.ofInt, UInt32.toNat_ofNat', UInt16.ofInt, UInt16.toNat_ofNat']
  omega

theorem toUInt16_ofInt64 (z : ℤ) : (UInt64.ofInt z).toUInt16 = .ofInt z := by
  apply UInt16.toNat_inj.mp
  rw [UInt64.toNat_toUInt16, UInt64.ofInt, UInt64.toNat_ofNat', UInt16.ofInt, UInt16.toNat_ofNat']
  omega

/-- Two numbers have the same id of 16 bits exactly if they are congruent. -/
theorem ofInt_inj {z z' : ℤ} : UInt16.ofInt z = .ofInt z' ↔ z % 65536 = z' % 65536 := by
  rw [← UInt16.toNat_inj, ← Int.natCast_inj, toNat_ofInt, toNat_ofInt]

/-! ### What is written and what is bound -/

/-- The second field, extracted behind a word, is the number that is written there. -/
theorem int_secondField {text : List Char} {fits : ℤ → Bool}
    (h : ((ofString text).word.2.int fits).2.fail = false) :
    ∃ z, secondField text = some z ∧ ((ofString text).word.2.int fits).1 = some z ∧
      fits z = true := by
  obtain ⟨hword, z, hz, hscan, hfits⟩ := int_ok h
  refine ⟨z, ?_, hz, hfits⟩
  rw [(word_ok hword).2] at hscan
  exact hscan

theorem intUnlessEof_ok {fits : ℤ → Bool} {s : IStream}
    (h : (intUnlessEof fits s).2.fail = false) : s.fail = false := by
  unfold intUnlessEof at h
  split at h
  · exact h
  · exact (int_ok h).1

section Bound

variable {m : PscMap E}

/-- Both directions get the block of the id. -/
theorem selectBlock_code (m : PscMap E) (name : List Char) (block : UInt16) (dir : Dir) :
    (selectBlock m name block dir.code).1 = some ⟨name, dir, block⟩ := by
  cases dir <;> rfl

/-- `parse_link` binds the block whose key is the id that is written, cut to 16 bits. -/
theorem parseLink_block {info : String → Option (List Char)} {priv : LinkPriv} {link : List Char}
    {dir : Dir} {r : LinkPriv × PscMap E} (h : parseLink m info priv link dir.code = .ok r) :
    ∃ z psc, secondField link = some z ∧ z.natAbs < 2 ^ 32 ∧
      r.1.block = some ⟨psc, dir, .ofInt z⟩ := by
  unfold parseLink at h
  dsimp only at h
  split at h
  · cases h
  rename_i hfail
  have hblock := intUnlessEof_ok (intUnlessEof_ok (Bool.not_eq_true _ ▸ hfail))
  obtain ⟨z, hfield, hz, hfits⟩ := int_secondField hblock
  split at h
  · cases h
  rw [hz, Option.getD_some, toUInt16_ofInt32] at h
  refine ⟨z, (ofString link).word.1, hfield, by simpa [fitsUnsigned] using hfits, ?_⟩
  split at h
  · cases h
  · cases h
    exact selectBlock_code ..

/-- A link that is refused creates no block. -/
theorem parseLink_throw {info : String → Option (List Char)} {priv : LinkPriv} {link : List Char}
    {dir : Dir} {e : Exc} {r : LinkPriv × PscMap E}
    (h : parseLink m info priv link dir.code = .throw e r) : r.2 = m := by
  unfold parseLink at h
  dsimp only at h
  split at h
  · cases h
    rfl
  split at h
  · cases h
    rfl
  rw [selectBlock_code, if_neg (by simp)] at h
  cases h

theorem initCount_block {inp : List Char} {r : Option BlockRef × PscMap E}
    (h : initCount m inp = .ok r) :
    ∃ z psc dir, secondField inp = some z ∧ z.natAbs < 2 ^ 64 ∧
      r.1 = some ⟨psc, dir, .ofInt z⟩ := by
  unfold initCount at h
  dsimp only at h
  split at h
  · cases h
  rename_i hfail
  have hword := (word_ok (Bool.not_eq_true _ ▸ hfail)).1
  obtain ⟨z, hfield, hz, hfits⟩ := int_secondField hword
  rw [hz, Option.getD_some, toUInt16_ofInt64] at h
  have hlt : z.natAbs < 2 ^ 64 := by simpa [fitsUnsigned] using hfits
  split at h
  · cases h
  split at h
  · cases h
    exact ⟨z, _, .rx, hfield, hlt, rfl⟩
  split at h
  · cases h
    exact ⟨z, _, .tx, hfield, hlt, rfl⟩
  · cases h

theorem setPSCSendBlockSize_block {name : List Char} {bid size : Int32} {resizeErr : Option Exc}
    {r : Option BlockRef × PscMap E}
    (h : setPSCSendBlockSize m name bid size resizeErr = .ok r) :
    r.1 = some ⟨name, .tx, .ofInt bid.toInt⟩ := by
  unfold setPSCSendBlockSize at h
  split at h
  · cases h
  dsimp only at h
  split at h
  · cases h
  · cases h
    rfl

/-- BIND: every request that returns normally has the block whose key is the id that is written in
    it, cut to 16 bits. -/
theorem Request.block_id {r : Request} {b : BlockRef} (h : r.block m = some b) :
    ∃ z, r.written = some z ∧ r.takes z ∧ b.id = .ofInt z := by
  cases r with
  | parseLink info prec link dir =>
    unfold Request.block at h
    dsimp only at h
    split at h
    · rename_i hok
      obtain ⟨z, psc, hfield, hlt, hblock⟩ := parseLink_block hok
      rw [hblock, Option.some.injEq] at h
      exact ⟨z, hfield, hlt, by rw [← h]⟩
    · cases h
  | initCount inp =>
    unfold Request.block at h
    dsimp only at h
    split at h
    · rename_i hok
      obtain ⟨z, psc, dir, hfield, hlt, hblock⟩ := initCount_block hok
      rw [hblock, Option.some.injEq] at h
      exact ⟨z, hfield, hlt, by rw [← h]⟩
    · cases h
  | setPSCSendBlockSize name bid size resizeErr =>
    unfold Request.block at h
    dsimp only at h
    split at h
    · rename_i hok
      rw [setPSCSendBlockSize_block hok, Option.some.injEq] at h
      exact ⟨bid.toInt, rfl, ⟨bid.le_toInt, bid.toInt_lt⟩, by rw [← h]⟩
    · cases h

end Bound

/-- LINK IDS: a request that returns normally has the block of the id that is written in it exactly
    if this is one of 16 bits. Two requests for the same PSC and direction with different ids have
    different blocks exactly if the ids differ modulo 65536. -/
theorem link_ids {m m' : PscMap E} {r r' : Request} {b b' : BlockRef} (h : r.block m = some b)
    (h' : r'.block m' = some b') (hpsc : b.psc = b'.psc) (hdir : b.dir = b'.dir) :
    ∃ z z', r.written = some z ∧ r'.written = some z' ∧ r.takes z ∧ r'.takes z' ∧
      ((b.id.toNat : ℤ) = z ↔ 0 ≤ z ∧ z < 65536) ∧
      ((z ≠ z' → b ≠ b') ↔ (z % 65536 = z' % 65536 → z = z')) := by
  obtain ⟨z, hz, htakes, hid⟩ := Request.block_id h
  obtain ⟨z', hz', htakes', hid'⟩ := Request.block_id h'
  have hkey : (b.id.toNat : ℤ) = z ↔ 0 ≤ z ∧ z < 65536 := by
    rw [hid, toNat_ofInt]
    omega
  have hsame : b = b' ↔ z % 65536 = z' % 65536 := by
    rw [← ofInt_inj, ← hid, ← hid', BlockRef.ext_iff]
    exact ⟨fun heq => heq.2.2, fun heq => ⟨hpsc, hdir, heq⟩⟩
  refine ⟨z, z', hz, hz', htakes, htakes', hkey, ?_⟩
  rw [← hsame, not_imp_not]

/-- One PSC without blocks. -/
def onePsc (name : List Char) : PscMap E :=
  fun n => if n = name then some ⟨fun _ => none, fun _ => none, []⟩ else none

/-- The links `A 1` and `A 65537` are for the same block. -/
theorem link_ids_collide : ∃ z z',
    (Request.parseLink (fun _ => none) 0 "A 1".toList .rx).written = some z ∧
    (Request.parseLink (fun _ => none) 1 "A 65537".toList .rx).written = some z' ∧
    (Request.parseLink (fun _ => none) 0 "A 1".toList .rx).takes z ∧
    (Request.parseLink (fun _ => none) 1 "A 65537".toList .rx).takes z' ∧
    (((1 : UInt16).toNat : ℤ) = z ↔ 0 ≤ z ∧ z < 65536) ∧
    ((z ≠ z' → (⟨['A'], .rx, 1⟩ : BlockRef) ≠ ⟨['A'], .rx, 1⟩) ↔
      (z % 65536 = z' % 65536 → z = z')) := by
  have hone : (Request.parseLink (fun _ => none) 0 "A 1".toList .rx).block
      (onePsc ['A'] : PscMap Libevent.Chains) = some ⟨['A'], .rx, 1⟩ := by decide
  have hmore : (Request.parseLink (fun _ => none) 1 "A 65537".toList .rx).block
      (onePsc ['A'] : PscMap Libevent.Chains) = some ⟨['A'], .rx, 1⟩ := by decide
  exact link_ids hone hmore rfl rfl

/-- Ids that are too large or negative are not rejected: these requests all have block 1, which only
    the first of them names. -/
theorem ids_cut : ∃ m : PscMap Libevent.Chains,
    (∀ link ∈ ["A 1", "A 65537", "A -65535"], ∀ dir,
      (Request.parseLink (fun _ => none) 0 link.toList dir).block m = some ⟨['A'], dir, 1⟩) ∧
    (Request.initCount "A 65537 rx".toList).block m = some ⟨['A'], .rx, 1⟩ ∧
    (Request.setPSCSendBlockSize ['A'] 65537 8 none).block m = some ⟨['A'], .tx, 1⟩ ∧
    (Request.parseLink (fun _ => none) 0 "A 65537".toList .rx).written = some 65537 ∧
    (Request.parseLink (fun _ => none) 0 "A -65535".toList .rx).written = some (-65535) ∧
    ¬ ∀ (r : Request) (b : BlockRef), r.block m = some b → r.written = some (b.id.toNat : ℤ) := by
  have hmore : (Request.parseLink (fun _ => none) 0 "A 65537".toList .rx).block
      (onePsc ['A'] : PscMap Libevent.Chains) = some ⟨['A'], .rx, 1⟩ := by decide
  refine ⟨onePsc ['A'], ?_, by decide, by decide, by decide, by decide, fun h => ?_⟩
  · intro link hlink dir
    cases dir <;> revert link <;> decide
  · exact absurd (h _ _ hmore) (by decide)

end Pscdrv.Records
