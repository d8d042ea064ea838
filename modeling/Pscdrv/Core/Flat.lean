import Mathlib.Data.List.Forall2
import Pscdrv.Core.Dbuffer
import Pscdrv.Schemes.Run

/-! # `dbuffer` refines a flat byte vector

    What a `dbuffer` is for: it behaves as one contiguous vector of bytes, whatever its backing and
    however the bytes are cut into strides. The vector has the operations below; calls on any
    number of buffers, and on the evbuffers they exchange bytes with, are matched one by one.

        dbuffers  ──call──▶  dbuffers          the same results, and
           │                    │              each buffer holds the bytes
           ▼ mem                ▼ mem          of its vector
        vectors   ──call──▶  vectors -/

namespace Pscdrv

open Libevent Memory Run

/-! ### The operations of a byte vector -/

namespace Flat

/-- A range inside the vector is overwritten; of a range that sticks out, the part inside is, and
    the result tells that something was left over. -/
def copyin (v : List UInt8) (buf : List UInt8) (offset : ℕ) : List UInt8 × Bool :=
  if offset + buf.length ≤ v.length then (overwrite v offset buf, true)
  else (overwrite v offset (buf.take (v.length - offset)), decide (buf = []))

/-- The whole elements of a shape that fit, one after another and at most `ecount`. -/
def wholeElements (size offset esize eskip ecount : ℕ) : List ℕ :=
  (List.range ecount).takeWhile fun i => offset + i * (esize + eskip) + esize ≤ size

/-- The bytes of the elements that fit, and how many these are. -/
def copyoutShape (v : List UInt8) (offset esize eskip ecount : ℕ) : List UInt8 × ℕ :=
  let ks := wholeElements v.length offset esize eskip ecount
  ((ks.map fun i => (v.drop (offset + i * (esize + eskip))).take esize).flatten, ks.length)

/-- A range that lies inside is read, and nothing of any other. -/
def copyout (v : List UInt8) (offset nbytes : ℕ) : List UInt8 × Bool :=
  if offset + nbytes ≤ v.length then ((v.drop offset).take nbytes, true) else ([], false)

/-- Element `i` fits exactly if there is room for `i + 1` elements with their gaps. -/
theorem fits_iff {size offset esize eskip : ℕ} (h : 0 < esize + eskip) (ho : offset ≤ size)
    (i : ℕ) : offset + i * (esize + eskip) + esize ≤ size ↔
      i < (size - offset + eskip) / (esize + eskip) := by
  rw [← Nat.succ_le_iff, Nat.le_div_iff_mul_le h, Nat.succ_mul]
  generalize i * (esize + eskip) = m
  omega

/-- `n` elements fit exactly if the room for `n` elements and their gaps is there. -/
theorem element_fits_iff {size offset esize eskip : ℕ} (h : 0 < esize) (ho : offset ≤ size)
    (i : ℕ) : offset + i * (esize + eskip) + esize ≤ size ↔
      i < (size - offset + eskip) / (esize + eskip) :=
  fits_iff (by omega) ho i

/-- The elements that fit are the first ones. -/
theorem takeWhile_range {p : ℕ → Bool} {k : ℕ} (hp : ∀ i, p i = true ↔ i < k) (n : ℕ) :
    (List.range n).takeWhile p = List.range (min n k) := by
  have hin : ∀ i ∈ List.range (min n k), p i = true := fun i hi =>
    (hp i).mpr (by rw [List.mem_range] at hi; omega)
  have hsplit : List.range n =
      List.range (min n k) ++ (List.range (n - min n k)).map (min n k + ·) := by
    rw [← List.range_add]
    congr 1
    omega
  rw [hsplit, List.takeWhile_append_of_pos hin]
  rcases Nat.le_total n k with hle | hle
  · rw [Nat.min_eq_left hle, Nat.sub_self]
    simp
  · rw [Nat.min_eq_right hle]
    cases hd : n - k with
    | zero => simp
    | succ m =>
      -- element `k` is the first that does not fit
      have hk : p k = false := by
        rw [Bool.eq_false_iff, ne_eq, hp]
        omega
      rw [List.range_succ_eq_map]
      simp [hk]

theorem wholeElements_eq {size offset esize eskip : ℕ} (h : 0 < esize) (ho : offset ≤ size)
    (ecount : ℕ) : wholeElements size offset esize eskip ecount =
      List.range (min ecount ((size - offset + eskip) / (esize + eskip))) :=
  takeWhile_range (fun i => by rw [decide_eq_true_iff]; exact element_fits_iff h ho i) ecount

end Flat

/-! ### Each operation of `dbuffer` is that of the vector -/

namespace DBuffer

section Read

variable {E : Type} [Libevent E]

/-- The loop of `copyout_shape` copies the elements it counts. -/
theorem elements_spec (mem : List UInt8) (esize eskip : ℕ) :
    ∀ (n : ℕ) (strides : List Stride) (off pos : ℕ), Cursor strides off pos mem.length →
      copyoutShape.elements esize eskip mem n strides off =
        ((List.range n).map fun i => (mem.drop (pos + i * (esize + eskip))).take esize).flatten
  | 0, _, _, _, _ => rfl
  | n + 1, strides, off, pos, h => by
    obtain ⟨hout, hcur⟩ := strideCopy_spec mem strides off esize pos h
    obtain ⟨-, hskip⟩ := strideCopy_spec mem _ _ eskip _ hcur
    rw [copyoutShape.elements, hout, List.range_succ_eq_map, List.map_cons, List.flatten_cons,
      Nat.zero_mul, Nat.add_zero, List.map_map]
    congr 1
    by_cases h0 : n = 0
    · subst h0
      rfl
    -- the cursor stands on the next element, or at the end of the content
    rw [if_neg h0, elements_spec mem esize eskip n _ _ _ hskip]
    congr 2
    funext i
    have hmul : (i + 1) * (esize + eskip) = i * (esize + eskip) + (esize + eskip) :=
      Nat.succ_mul ..
    simp only [Function.comp, Nat.succ_eq_add_one, hmul]
    generalize i * (esize + eskip) = m
    congr 1
    by_cases hend : pos + esize + eskip ≤ mem.length
    · congr 1
      omega
    · rw [List.drop_of_length_le (by omega), List.drop_of_length_le (by omega)]

theorem copyoutShape_spec (d : DBuffer E) {offset esize eskip : ℕ} (ecount : ℕ) (h : 0 < esize)
    (hstep : esize + eskip < 2 ^ 64) (hsum : d.mem.length - offset + eskip < 2 ^ 64) :
    d.copyoutShape offset esize eskip ecount =
      some (Flat.copyoutShape d.mem offset esize eskip ecount) := by
  unfold copyoutShape Flat.copyoutShape
  rw [d.size_eq]
  dsimp only
  by_cases hout : d.mem.length ≤ offset
  · have hnone : Flat.wholeElements d.mem.length offset esize eskip ecount = [] := by
      unfold Flat.wholeElements
      cases ecount with
      | zero => rfl
      | succ n =>
        rw [List.range_succ_eq_map, List.takeWhile_cons_of_neg]
        simp only [decide_eq_true_iff]
        omega
    rw [if_pos (.inr hout), hnone]
    rfl
  rw [Flat.wholeElements_eq h (by omega), List.length_range]
  by_cases h0 : ecount = 0
  · rw [if_pos (.inl h0), h0, Nat.zero_min]
    rfl
  have hcur : Cursor (strideCopy d.mem d.strides 0 offset).2.1
      (strideCopy d.mem d.strides 0 offset).2.2 offset d.mem.length := by
    have hskip := d.cursor_skip offset
    rwa [Nat.min_eq_left (by omega)] at hskip
  have hcount : ∀ fit : ℕ, (if ecount < fit then ecount else fit) = min ecount fit := by
    intro fit
    split <;> omega
  rw [if_neg (by omega), Nat.mod_eq_of_lt hstep, Nat.mod_eq_of_lt hsum, if_neg (by omega), hcount,
    elements_spec d.mem esize eskip _ _ _ _ hcur]

theorem copyout_spec (d : DBuffer E) {offset nbytes : ℕ} (h : 0 < nbytes) (hn : nbytes < 2 ^ 64)
    (hsum : d.mem.length - offset < 2 ^ 64) :
    d.copyout offset nbytes = some (Flat.copyout d.mem offset nbytes) := by
  rw [copyout, d.copyoutShape_spec 1 h hn hsum, Option.map_some, Flat.copyoutShape, Flat.copyout,
    Flat.wholeElements]
  by_cases hfit : offset + nbytes ≤ d.mem.length
  · simp [hfit]
  · simp [hfit]

/-- Behind the end there is nothing to read, not even nothing. -/
theorem copyout_outside (d : DBuffer E) {offset : ℕ} (h : d.mem.length < offset) (nbytes : ℕ) :
    d.copyout offset nbytes = some (Flat.copyout d.mem offset nbytes) := by
  rw [copyout, copyoutShape, d.size_eq, if_pos (.inr (Nat.le_of_lt h)), Flat.copyout,
    if_neg (by omega)]
  rfl

/-- A `copyout` of nothing from the buffer divides by zero, and at its end it is refused. -/
theorem copyout_nothing (d : DBuffer E) {offset : ℕ} {r : List UInt8 × Bool}
    (hr : d.copyout offset 0 = some r) : r.2 = false := by
  rw [copyout, copyoutShape, d.size_eq] at hr
  by_cases hend : d.mem.length ≤ offset
  · rw [if_pos (.inr hend), Option.map_some, Option.some.injEq] at hr
    rw [← hr]
    rfl
  · rw [if_neg (by omega), if_pos (by rfl)] at hr
    cases hr

end Read

theorem copyin_spec {E : Type} [EvMemory E] (d : DBuffer E) (buf : List UInt8) (offset : ℕ) :
    ((d.copyin buf offset).1.mem, (d.copyin buf offset).2) = Flat.copyin d.mem buf offset := by
  rw [mem_copyin, copyin_ok, Flat.copyin]
  by_cases hfit : offset + buf.length ≤ d.mem.length
  · rw [if_pos hfit, Nat.min_eq_left (by omega), List.take_of_length_le (by omega),
      Nat.min_eq_left (by omega), beq_self_eq_true]
  rw [if_neg hfit]
  refine Prod.ext ?_ ?_
  · rcases Nat.le_total offset d.mem.length with hle | hle
    · rw [Nat.min_eq_left hle]
    · rw [Nat.min_eq_right hle, Nat.sub_self, Nat.sub_eq_zero_of_le hle, List.take_zero,
        overwrite_nil, overwrite_nil]
  · rw [Bool.eq_iff_iff, beq_iff_eq, decide_eq_true_iff, ← List.length_eq_zero_iff]
    omega

end DBuffer

/-! ### Sequences of calls -/

/-- One call on the dbuffers named by `ι`; `B` is how an evbuffer is represented. -/
inductive BufOp (ι B : Type) where
  /-- `dbuffer()` -/
  | new (i : ι)
  /-- `dbuffer(size_t n)` -/
  | newSize (i : ι) (n : ℕ)
  | resize (i : ι) (newlen : ℕ)
  | assign (i : ι) (buf : List UInt8)
  | consume (i : ι) (buf : B) (len : ℕ)
  | swap (i j : ι)
  | clear (i : ι)
  | copyin (i : ι) (buf : List UInt8) (offset : ℕ)
  | copyout (i : ι) (offset nbytes : ℕ)
  | copyoutShape (i : ι) (offset esize eskip ecount : ℕ)
  | copyoutEv (i : ι) (dest : B)
  | size (i : ι)

def BufOp.map {ι B B' : Type} (f : B → B') : BufOp ι B → BufOp ι B'
  | .new i => .new i
  | .newSize i n => .newSize i n
  | .resize i newlen => .resize i newlen
  | .assign i buf => .assign i buf
  | .consume i buf len => .consume i (f buf) len
  | .swap i j => .swap i j
  | .clear i => .clear i
  | .copyin i buf offset => .copyin i buf offset
  | .copyout i offset nbytes => .copyout i offset nbytes
  | .copyoutShape i offset esize eskip ecount => .copyoutShape i offset esize eskip ecount
  | .copyoutEv i dest => .copyoutEv i (f dest)
  | .size i => .size i

/-- What a caller sees of a call: the return value, the bytes written to its memory, and the
    content of its evbuffer afterwards. -/
inductive Outcome where
  | done
  | left (content : List UInt8)
  | copied (ok : Bool)
  | read (written : List UInt8) (ok : Bool)
  | elements (written : List UInt8) (n : ℕ)
  | appended (content : List UInt8)
  /-- `evbuffer_add` failed, which `copyout(evbuffer*)` throws -/
  | addError
  | size (n : ℕ)

/-- One call that was made: the buffers before it, and what its caller sees. -/
structure BufCall (ι B D : Type) where
  before : ι → D
  op : BufOp ι B
  outcome : Outcome

/-- The buffers, and the calls so far. -/
structure Store (ι B D : Type) where
  bufs : ι → D
  calls : List (BufCall ι B D)

section Sequences

variable {ι E : Type} [DecidableEq ι] [EvMemory E]

open Function (update)

/-- A call on the dbuffers; `none` when it divides by zero. -/
def bufCall (s : ι → DBuffer E) : BufOp ι E → Option ((ι → DBuffer E) × Outcome)
  | .new i => some (update s i .empty, .done)
  | .newSize i n => some (update s i (.ofSize n), .done)
  | .resize i newlen => some (update s i ((s i).resize newlen), .done)
  | .assign i buf => some (update s i (.assign buf), .done)
  | .consume i buf len =>
    let r := DBuffer.consume buf len
    some (update s i r.1, .left (bytes r.2))
  | .swap i j => some (update (update s i (s j)) j (s i), .done)
  | .clear i => some (update s i .clear, .done)
  | .copyin i buf offset =>
    let r := (s i).copyin buf offset
    some (update s i r.1, .copied r.2)
  | .copyout i offset nbytes => ((s i).copyout offset nbytes).map fun r => (s, .read r.1 r.2)
  | .copyoutShape i offset esize eskip ecount =>
    ((s i).copyoutShape offset esize eskip ecount).map fun r => (s, .elements r.1 r.2)
  | .copyoutEv i dest =>
    let r := (s i).copyoutEv dest
    some (s, if r.2 then .appended (bytes r.1) else .addError)
  | .size i => some (s, .size (s i).size)

/-- The same call on vectors; an evbuffer is its bytes. -/
def flatCall (s : ι → List UInt8) : BufOp ι (List UInt8) → (ι → List UInt8) × Outcome
  | .new i => (update s i [], .done)
  | .newSize i n => (update s i (List.replicate n 0), .done)
  | .resize i newlen => (update s i (Memory.resize newlen (s i)), .done)
  | .assign i buf => (update s i buf, .done)
  | .consume i buf len => (update s i (buf.take len), .left (buf.drop len))
  | .swap i j => (update (update s i (s j)) j (s i), .done)
  | .clear i => (update s i [], .done)
  | .copyin i buf offset =>
    let r := Flat.copyin (s i) buf offset
    (update s i r.1, .copied r.2)
  | .copyout i offset nbytes =>
    let r := Flat.copyout (s i) offset nbytes
    (s, .read r.1 r.2)
  | .copyoutShape i offset esize eskip ecount =>
    let r := Flat.copyoutShape (s i) offset esize eskip ecount
    (s, .elements r.1 r.2)
  | .copyoutEv i dest => (s, .appended (dest ++ s i))
  | .size i => (s, .size (s i).length)

def bufStep (s : Store ι E (DBuffer E)) (op : BufOp ι E) : Option (Store ι E (DBuffer E)) :=
  (bufCall s.bufs op).map fun r => ⟨r.1, s.calls ++ [⟨s.bufs, op, r.2⟩]⟩

def flatStep (s : Store ι (List UInt8) (List UInt8)) (op : BufOp ι (List UInt8)) :
    Option (Store ι (List UInt8) (List UInt8)) :=
  let r := flatCall s.bufs op
  some ⟨r.1, s.calls ++ [⟨s.bufs, op, r.2⟩]⟩

/-- The element size of a shape is not 0, and the two sums formed with its arguments do not
    overflow. `copyout` is the shape of one element of `nbytes` bytes, which may be none. -/
def NoOverflow (s : Store ι (List UInt8) (List UInt8)) : BufOp ι (List UInt8) → Prop
  | .copyout i offset nbytes => nbytes < 2 ^ 64 ∧ (s.bufs i).length - offset < 2 ^ 64
  | .copyoutShape i offset esize eskip _ =>
    0 < esize ∧ esize + eskip < 2 ^ 64 ∧ (s.bufs i).length - offset + eskip < 2 ^ 64
  | _ => True

/-- No `copyout` asks for nothing, unless it does so behind the end of the buffer. -/
def AsksBytes (s : Store ι (List UInt8) (List UInt8)) : BufOp ι (List UInt8) → Prop
  | .copyout i offset nbytes => 0 < nbytes ∨ (s.bufs i).length < offset
  | _ => True

/-- The call is `copyout(evbuffer*)`, and one of its calls of `evbuffer_add` fails. -/
def AddFails (x : BufCall ι E (DBuffer E)) : Prop :=
  ∃ i dest, x.op = .copyoutEv i dest ∧
    (addAll ((x.before i).strides.map (Stride.read (x.before i).mem)) dest).2 = false

/-- The call on the dbuffers is that on the vectors: the buffers held the bytes of the vectors
    before it, and its outcome is the same, or the exception of an `evbuffer_add` that failed. -/
structure Agrees (x : BufCall ι E (DBuffer E)) (y : BufCall ι (List UInt8) (List UInt8)) :
    Prop where
  op : y.op = x.op.map bytes
  content : ∀ i, (x.before i).mem = y.before i
  outcome : x.outcome = y.outcome ∨ AddFails x ∧ x.outcome = .addError

/-- The dbuffers stand for the vectors. -/
structure Refines (s : Store ι E (DBuffer E)) (u : Store ι (List UInt8) (List UInt8)) :
    Prop where
  content : ∀ i, (s.bufs i).mem = u.bufs i
  size : ∀ i, (s.bufs i).size = ((s.bufs i).strides.map Stride.len).sum
  calls : List.Forall₂ Agrees s.calls u.calls

/-- A buffer is replaced by one that holds the bytes of the new vector. -/
theorem mem_update {s : ι → DBuffer E} {u : ι → List UInt8} (h : ∀ i, (s i).mem = u i) {i : ι}
    {d : DBuffer E} {v : List UInt8} (hd : d.mem = v) (j : ι) :
    (update s i d j).mem = update u i v j := by
  by_cases hj : j = i
  · rw [hj, Function.update_self, Function.update_self, hd]
  · rw [Function.update_of_ne hj, Function.update_of_ne hj, h j]

/-- CALL: a call on the dbuffers that does not ask for nothing does what it does on the vectors. -/
theorem bufCall_spec {s : Store ι E (DBuffer E)} {u : Store ι (List UInt8) (List UInt8)}
    (h : ∀ i, (s.bufs i).mem = u.bufs i) {op : BufOp ι E} (hok : NoOverflow u (op.map bytes))
    (hasks : AsksBytes u (op.map bytes)) :
    ∃ r, bufCall s.bufs op = some r ∧
      (∀ i, (r.1 i).mem = (flatCall u.bufs (op.map bytes)).1 i) ∧
      Agrees ⟨s.bufs, op, r.2⟩ ⟨u.bufs, op.map bytes, (flatCall u.bufs (op.map bytes)).2⟩ := by
  cases op with
  | new i => exact ⟨_, rfl, mem_update h rfl, rfl, h, .inl rfl⟩
  | newSize i n => exact ⟨_, rfl, mem_update h rfl, rfl, h, .inl rfl⟩
  | resize i newlen =>
    exact ⟨_, rfl, mem_update h (by rw [DBuffer.mem_resize, h i]), rfl, h, .inl rfl⟩
  | assign i buf => exact ⟨_, rfl, mem_update h rfl, rfl, h, .inl rfl⟩
  | consume i buf len =>
    obtain ⟨hmem, hleft⟩ := DBuffer.consume_spec buf len
    exact ⟨_, rfl, mem_update h hmem, rfl, h, .inl (congrArg Outcome.left hleft)⟩
  | swap i j => exact ⟨_, rfl, mem_update (mem_update h (h j)) (h i), rfl, h, .inl rfl⟩
  | clear i => exact ⟨_, rfl, mem_update h rfl, rfl, h, .inl rfl⟩
  | copyin i buf offset =>
    have hspec := (s.bufs i).copyin_spec buf offset
    rw [h i] at hspec
    exact ⟨_, rfl, mem_update h (congrArg Prod.fst hspec), rfl, h,
      .inl (congrArg (fun r => Outcome.copied r.2) hspec)⟩
  | copyout i offset nbytes =>
    obtain ⟨hn, hsum⟩ := hok
    have hspec : (s.bufs i).copyout offset nbytes =
        some (Flat.copyout (u.bufs i) offset nbytes) := by
      rw [← h i]
      rcases hasks with hpos | hout
      · exact (s.bufs i).copyout_spec hpos hn (by rw [h i]; exact hsum)
      · exact (s.bufs i).copyout_outside (by rw [h i]; exact hout) nbytes
    exact ⟨_, by rw [bufCall, hspec, Option.map_some], h, rfl, h, .inl rfl⟩
  | copyoutShape i offset esize eskip ecount =>
    obtain ⟨hpos, hstep, hsum⟩ := hok
    have hspec := (s.bufs i).copyoutShape_spec ecount hpos hstep (by rw [h i]; exact hsum)
    refine ⟨_, by rw [bufCall, hspec, Option.map_some], h, rfl, h, .inl ?_⟩
    rw [h i]; rfl
  | copyoutEv i dest =>
    refine ⟨_, rfl, h, rfl, h, ?_⟩
    cases hadd : ((s.bufs i).copyoutEv dest).2 with
    | true =>
      have hall := (s.bufs i).copyoutEv_ok dest hadd
      rw [if_pos rfl, hall, h i]
      exact .inl rfl
    | false => exact .inr ⟨⟨i, dest, rfl, hadd⟩, rfl⟩
  | size i => exact ⟨_, rfl, h, rfl, h, .inl (by rw [DBuffer.size_eq, h i]; rfl)⟩

/-- STEP: it is the next call of both. -/
theorem bufStep_refines {s : Store ι E (DBuffer E)} {u : Store ι (List UInt8) (List UInt8)}
    (h : Refines s u) {op : BufOp ι E} (hok : NoOverflow u (op.map bytes))
    (hasks : AsksBytes u (op.map bytes)) {v : Store ι (List UInt8) (List UInt8)}
    (hv : flatStep u (op.map bytes) = some v) : ∃ t, bufStep s op = some t ∧ Refines t v := by
  obtain ⟨r, hr, hmem, hagrees⟩ := bufCall_spec h.content hok hasks
  cases hv
  exact ⟨_, by rw [bufStep, hr, Option.map_some], hmem, fun i => DBuffer.size_sum _,
    List.rel_append h.calls (.cons hagrees .nil)⟩

/-- A `copyout` of nothing from the buffer cannot agree with the vector, which has the empty
    range. -/
theorem asks_of_agrees {s : Store ι E (DBuffer E)} {u : Store ι (List UInt8) (List UInt8)}
    {op : BufOp ι E} {r : (ι → DBuffer E) × Outcome}
    (hr : bufCall s.bufs op = some r)
    (hagrees : Agrees ⟨s.bufs, op, r.2⟩
      ⟨u.bufs, op.map bytes, (flatCall u.bufs (op.map bytes)).2⟩) :
    AsksBytes u (op.map bytes) := by
  cases op with
  | copyout i offset nbytes =>
    by_contra hasks
    obtain ⟨hzero, hin⟩ := not_or.mp hasks
    obtain rfl : nbytes = 0 := Nat.eq_zero_of_not_pos hzero
    obtain ⟨p, hp, rfl⟩ := Option.map_eq_some_iff.mp hr
    have hfalse : p.2 = false := (s.bufs i).copyout_nothing hp
    have htrue : (Flat.copyout (u.bufs i) offset 0).2 = true := by
      rw [Flat.copyout, if_pos (by omega)]
    rcases hagrees.outcome with hout | ⟨⟨_, _, hop, -⟩, -⟩
    · have hok : p.2 = (Flat.copyout (u.bufs i) offset 0).2 := (Outcome.read.inj hout).2
      rw [hfalse, htrue] at hok
      cases hok
    · cases hop
  | _ => trivial

/-- The calls that were made stay in the log. -/
theorem calls_grow {s t : Store ι E (DBuffer E)} {ops : List (BufOp ι E)}
    (h : exec bufStep s ops = some t) : s.calls <+: t.calls := by
  refine inv_exec' (I := fun x => s.calls <+: x.calls) (fun x op y hx hs => ?_)
    (List.prefix_refl _) h
  obtain ⟨r, -, rfl⟩ := Option.map_eq_some_iff.mp hs
  exact hx.trans (List.prefix_append _ _)

theorem flat_calls_grow {u v : Store ι (List UInt8) (List UInt8)}
    {ops : List (BufOp ι (List UInt8))} (h : exec flatStep u ops = some v) :
    u.calls <+: v.calls := by
  refine inv_exec' (I := fun x => u.calls <+: x.calls) (fun x op y hx hs => ?_)
    (List.prefix_refl _) h
  cases hs
  exact hx.trans (List.prefix_append _ _)

/-- RUN: the logs agree at the end only if no call on the way asked for nothing. -/
theorem asks_of_refines : ∀ (ops : List (BufOp ι E)) {s t : Store ι E (DBuffer E)}
    {u v : Store ι (List UInt8) (List UInt8)}, Refines s u →
    Along flatStep NoOverflow u (ops.map (BufOp.map bytes)) → exec bufStep s ops = some t →
    exec flatStep u (ops.map (BufOp.map bytes)) = some v → Refines t v →
    Along flatStep AsksBytes u (ops.map (BufOp.map bytes))
  | [], _, _, _, _, _, _, _, _, _ => trivial
  | op :: ops, s, t, u, v, h, hops, ht, hv, hend => by
    obtain ⟨s', hs', ht⟩ := exec_cons_some bufStep ht
    obtain ⟨u', hu', hv⟩ := exec_cons_some flatStep hv
    obtain ⟨hok, hrest⟩ := hops u' hu'
    obtain ⟨r, hr, hs⟩ := Option.map_eq_some_iff.mp hs'
    have hu := Option.some.inj hu'
    obtain ⟨l, hl⟩ := calls_grow ht
    obtain ⟨m, hm⟩ := flat_calls_grow hv
    -- the entries of this call stand at the same place of the two logs
    have hcall : t.calls.drop s.calls.length = ⟨s.bufs, op, r.2⟩ :: l := by
      rw [← hl, ← hs, List.append_assoc, List.drop_left, List.singleton_append]
    have hflat : v.calls.drop s.calls.length =
        ⟨u.bufs, op.map bytes, (flatCall u.bufs (op.map bytes)).2⟩ :: m := by
      rw [← hm, ← hu, h.calls.length_eq, List.append_assoc, List.drop_left, List.singleton_append]
    have hcalls := List.forall₂_drop s.calls.length hend.calls
    rw [hcall, hflat] at hcalls
    have hasks := asks_of_agrees hr (List.forall₂_cons.mp hcalls).1
    refine fun w hw => ⟨hasks, ?_⟩
    obtain ⟨s'', hs'', hrefines⟩ := bufStep_refines h hok hasks hw
    cases hs''.symm.trans hs'
    cases hw.symm.trans hu'
    exact asks_of_refines ops hrefines hrest ht hv hend

/-- REFINES: in every sequence of calls, whatever the strides and the chains of the evbuffers, the
    outcomes are those of flat byte vectors, and so are the contents, if and only if no `copyout`
    asks for nothing from the buffer. -/
theorem dbuffer_refines (ops : List (BufOp ι E)) {s : Store ι E (DBuffer E)}
    {u : Store ι (List UInt8) (List UInt8)} (h : Refines s u)
    (hops : Along flatStep NoOverflow u (ops.map (BufOp.map bytes))) :
    (∃ t v, exec bufStep s ops = some t ∧ exec flatStep u (ops.map (BufOp.map bytes)) = some v ∧
      Refines t v) ↔ Along flatStep AsksBytes u (ops.map (BufOp.map bytes)) := by
  constructor
  · rintro ⟨t, v, ht, hv, hend⟩
    exact asks_of_refines ops h hops ht hv hend
  · intro hasks
    refine exec_sim (C := fun u op => NoOverflow u op ∧ AsksBytes u op) (fun _ _ => ⟨_, rfl⟩) ?_ h
      (along_and hops hasks)
    exact fun s u op u' hR hok hu => bufStep_refines hR hok.1 hok.2 hu

/-- Four of five bytes of a chained evbuffer, read as a shape whose element crosses a stride. -/
theorem dbuffer_refines_shape : ∃ t v,
    exec bufStep (⟨fun _ => .empty, []⟩ : Store Unit Chains (DBuffer Chains))
      [.consume () ⟨[[1, 2], [], [3, 4, 5]]⟩ 4, .copyoutShape () 1 2 1 9] = some t ∧
    exec flatStep ⟨fun _ => [], []⟩ ([.consume () ⟨[[1, 2], [], [3, 4, 5]]⟩ 4,
      .copyoutShape () 1 2 1 9].map (BufOp.map (bytes : Chains → List UInt8))) = some v ∧
    Refines t v := by
  refine (dbuffer_refines (E := Chains) [.consume () ⟨[[1, 2], [], [3, 4, 5]]⟩ 4,
    .copyoutShape () 1 2 1 9] ⟨fun _ => rfl, fun _ => rfl, .nil⟩ ?_).mpr
      fun _ _ => ⟨trivial, fun _ _ => ⟨trivial, trivial⟩⟩
  refine fun _ hs => ⟨trivial, fun _ _ => ?_⟩
  cases hs
  have hlen : ([1, 2, 3, 4] : List UInt8).length - 1 + 1 < 2 ^ 64 := by decide
  exact ⟨⟨by decide, by decide, hlen⟩, trivial⟩

/-- On a buffer of one byte, `copyout(dest, 0, 0)` divides by zero; the vector reads nothing. -/
theorem copyout_of_nothing :
    exec bufStep (⟨fun _ => .empty, []⟩ : Store Unit Chains (DBuffer Chains))
        [.newSize () 1, .copyout () 0 0] = none ∧
      (exec flatStep (⟨fun _ => [], []⟩ : Store Unit (List UInt8) (List UInt8))
        [.newSize () 1, .copyout () 0 0]).map (fun v => v.calls.map BufCall.outcome) =
        some [.done, .read [] true] ∧
      ¬ ∃ t v, exec bufStep (⟨fun _ => .empty, []⟩ : Store Unit Chains (DBuffer Chains))
          [.newSize () 1, .copyout () 0 0] = some t ∧
        exec flatStep ⟨fun _ => [], []⟩ ([.newSize () 1, .copyout () 0 0].map
          (BufOp.map (bytes : Chains → List UInt8))) = some v ∧ Refines t v := by
  refine ⟨rfl, rfl, ?_⟩
  rintro ⟨t, -, ht, -⟩
  cases ht

end Sequences

end Pscdrv
