import Pscdrv.Core.Libevent

/-! # `dbuffer`, the dis-contiguous byte buffer

    A `dbuffer` owns its bytes either in a vector (`backingv`) or in an `evbuffer` (`backingb`) and
    keeps a list of strides that point into them. A stride is modelled by its position in the
    backing memory and its length. One field is the invariant all operations keep: the strides lie
    one after another and cover the whole of the backing memory.

        backing   ├───────────────────────────────┤
        strides   ├─── 0 ───┼─ 1 ─┼────── 2 ──────┤ -/

namespace Pscdrv

open Libevent Memory

/-- `evbuffer_iovec`: where a stride starts in the backing memory, and its length. -/
structure Stride where
  base : ℕ
  len : ℕ
  deriving DecidableEq

/-- The bytes a stride points to. -/
def Stride.read (mem : List UInt8) (s : Stride) : List UInt8 := (mem.drop s.base).take s.len

/-- Strides that lie one after another, from position `off` up to position `stop`. -/
def Tiled : ℕ → List Stride → ℕ → Prop
  | off, [], stop => off = stop
  | off, st :: rest, stop => st.base = off ∧ Tiled (off + st.len) rest stop

theorem Tiled.le : ∀ {strides : List Stride} {off stop : ℕ}, Tiled off strides stop → off ≤ stop
  | [], _, _, h => Nat.le_of_eq h
  | st :: _, off, _, h => Nat.le_trans (Nat.le_add_right off st.len) h.2.le

theorem Tiled.inside : ∀ {strides : List Stride} {off stop : ℕ}, Tiled off strides stop →
    ∀ s ∈ strides, s.base + s.len ≤ stop
  | [], _, _, _, _, hs => absurd hs List.not_mem_nil
  | st :: rest, off, stop, h, s, hs => by
    rcases List.mem_cons.mp hs with rfl | hs
    · rw [h.1]
      exact h.2.le
    · exact h.2.inside s hs

/-- Tiled strides read back the part of the memory they cover. -/
theorem Tiled.read {mem : List UInt8} : ∀ {strides : List Stride} {off : ℕ},
    Tiled off strides mem.length → (strides.map (Stride.read mem)).flatten = mem.drop off
  | [], off, h => by
    rw [h, List.drop_length]; rfl
  | st :: rest, off, h => by
    rw [List.map_cons, List.flatten_cons, h.2.read, Stride.read, h.1, ← List.drop_drop,
      List.take_append_drop]

theorem Tiled.sum : ∀ {strides : List Stride} {off stop : ℕ}, Tiled off strides stop →
    off + (strides.map Stride.len).sum = stop
  | [], _, _, h => h
  | st :: rest, off, stop, h => by
    rw [List.map_cons, List.sum_cons, ← Nat.add_assoc, h.2.sum]

/-- The strides of pieces that lie one after another from position `off` on. -/
def stridesFrom : ℕ → List (List UInt8) → List Stride
  | _, [] => []
  | off, x :: xs => ⟨off, x.length⟩ :: stridesFrom (off + x.length) xs

theorem length_stridesFrom : ∀ (xs : List (List UInt8)) (off : ℕ),
    (stridesFrom off xs).length = xs.length
  | [], _ => rfl
  | _ :: xs, _ => congrArg Nat.succ (length_stridesFrom xs _)

theorem stridesFrom_tiled : ∀ (xs : List (List UInt8)) (off : ℕ),
    Tiled off (stridesFrom off xs) (off + xs.flatten.length)
  | [], _ => rfl
  | x :: xs, off => by
    rw [List.flatten_cons, List.length_append, ← Nat.add_assoc]
    exact ⟨rfl, stridesFrom_tiled xs _⟩

variable {E : Type} [Libevent E]

/-- The bytes a `dbuffer` owns: those of `backingb` when it is set, else those of `backingv`. -/
def backing (backingv : List UInt8) : Option E → List UInt8
  | some b => bytes b
  | none => backingv

structure DBuffer (E : Type) [Libevent E] where
  strides : List Stride
  backingv : List UInt8
  backingb : Option E
  tiled : Tiled 0 strides (backing backingv backingb).length

namespace DBuffer

/-- The content of the buffer. -/
def mem (d : DBuffer E) : List UInt8 := backing d.backingv d.backingb

theorem strides_flatten (d : DBuffer E) : (d.strides.map (Stride.read d.mem)).flatten = d.mem :=
  d.tiled.read

/-- One stride over a vector. -/
def contig (v : List UInt8) : DBuffer E where
  strides := [⟨0, v.length⟩]
  backingv := v
  backingb := none
  tiled := ⟨rfl, by simp [Tiled, backing]⟩

@[simp] theorem mem_contig (v : List UInt8) : (contig v : DBuffer E).mem = v := rfl

/-- `dbuffer()` -/
def empty : DBuffer E where
  strides := []
  backingv := []
  backingb := none
  tiled := rfl

@[simp] theorem mem_empty : (empty : DBuffer E).mem = [] := rfl

/-- `dbuffer(size_t n)` -/
def ofSize (n : ℕ) : DBuffer E := contig (List.replicate n 0)

@[simp] theorem mem_ofSize (n : ℕ) : (ofSize n : DBuffer E).mem = List.replicate n 0 := rfl

/-- `clear()`, whatever the buffer held before. -/
def clear : DBuffer E := empty

@[simp] theorem mem_clear : (clear : DBuffer E).mem = [] := rfl

def size (d : DBuffer E) : ℕ :=
  match d.backingb with
  | some b => length b
  | none => d.backingv.length

theorem size_eq (d : DBuffer E) : d.size = d.mem.length := by
  unfold size mem backing
  cases d.backingb with
  | none => rfl
  | some b => rfl

/-- The size is the sum of the lengths of the strides. -/
theorem size_sum (d : DBuffer E) : d.size = (d.strides.map Stride.len).sum := by
  have hsum := d.tiled.sum
  rw [Nat.zero_add] at hsum
  rw [size_eq, mem, hsum]

/-- `resize(newlen)`: the common prefix is kept, growth is zero-filled. -/
def resize (d : DBuffer E) (newlen : ℕ) : DBuffer E :=
  match d.backingb with
  | some b => contig ((bytes b).take newlen ++ List.replicate (newlen - (bytes b).length) 0)
  | none => contig (d.backingv.take newlen ++ List.replicate (newlen - d.backingv.length) 0)

theorem mem_resize (d : DBuffer E) (newlen : ℕ) :
    (d.resize newlen).mem = Memory.resize newlen d.mem := by
  unfold resize mem backing
  cases d.backingb with
  | none => rfl
  | some b => rfl

/-- `assign(buf, len)`: resize and copy in, whatever the buffer held before. -/
def assign (buf : List UInt8) : DBuffer E := contig buf

@[simp] theorem mem_assign (buf : List UInt8) : (assign buf : DBuffer E).mem = buf := rfl

/-- The strides over the extents of an `evbuffer` that `evbuffer_peek()` reports. -/
def ofEvbuffer (b : E) : DBuffer E where
  strides := stridesFrom 0 (extents b)
  backingv := []
  backingb := some b
  tiled := by simpa [backing, bytes] using stridesFrom_tiled (extents b) 0

@[simp] theorem mem_ofEvbuffer (b : E) : (ofEvbuffer b).mem = bytes b := rfl

/-- `evbuffer_peek(buf, len, 0, vec, n)` over the whole content: the first `n` extents, and how many
    there are. -/
def peek (b : E) (n : ℕ) : List Stride × ℕ :=
  ((stridesFrom 0 (extents b)).take n, (extents b).length)

/-- The loop of `consume` that doubles the vector of strides until all the extents fit. -/
def peekLoop (b : E) (n : ℕ) (pos : 0 < n) : List Stride :=
  if _h : (peek b n).2 ≤ n then (peek b n).1 else peekLoop b (2 * n) (by omega)
termination_by (extents b).length - n
decreasing_by
  simp only [peek] at _h
  omega

/-- However many extents there are, the strides are over all of them. -/
theorem peekLoop_eq (b : E) (n : ℕ) (pos : 0 < n) :
    peekLoop b n pos = (ofEvbuffer b).strides := by
  induction hd : (extents b).length - n using Nat.strongRecOn generalizing n with
  | ind k ih =>
    unfold peekLoop
    split
    · rename_i hfit
      exact List.take_of_length_le (by rwa [length_stridesFrom])
    · rename_i hmore
      simp only [peek] at hmore
      exact ih _ (by omega) (2 * n) (by omega) rfl

/-- `consume(buf, len)`: move at most `len` bytes out of `buf`, whatever the buffer held before; the
    new buffer and the rest of `buf`. -/
def consume (buf : E) (len : ℕ) : DBuffer E × E :=
  let len := min len (length buf)
  let r := removeBuffer buf new len
  ({ strides := peekLoop r.2 2 Nat.two_pos
     backingv := []
     backingb := some r.2
     tiled := by
      rw [peekLoop_eq]
      exact (ofEvbuffer r.2).tiled },
    r.1)

theorem consume_spec (buf : E) (len : ℕ) :
    (consume buf len).1.mem = (bytes buf).take len ∧
      bytes (consume buf len).2 = (bytes buf).drop len := by
  obtain ⟨hsrc, hdst⟩ := removeBuffer_bytes buf new (min len (length buf)) (Nat.min_le_right _ _)
  refine ⟨?_, ?_⟩
  · have h : (consume buf len).1.mem =
        bytes (new : E) ++ (bytes buf).take (min len (length buf)) := hdst
    rw [h, bytes_new, List.nil_append, length, ← List.take_take, List.take_length]
  · have h : bytes (consume buf len).2 = (bytes buf).drop (min len (length buf)) := hsrc
    rw [h, length]
    rcases Nat.le_total len (bytes buf).length with hle | hle
    · rw [Nat.min_eq_left hle]
    · rw [Nat.min_eq_right hle, List.drop_length, List.drop_of_length_le hle]

/-- `copyout(evbuffer* dest)`: one `evbuffer_add` a stride; `false` when one of them fails. -/
def copyoutEv (d : DBuffer E) (dest : E) : E × Bool :=
  addAll (d.strides.map (Stride.read d.mem)) dest

/-- With enough reserved space the whole content is appended. -/
theorem copyoutEv_space (d : DBuffer E) (dest : E) (h : d.mem.length ≤ space dest) :
    (d.copyoutEv dest).2 = true ∧ bytes (d.copyoutEv dest).1 = bytes dest ++ d.mem := by
  have hspec := addAll_space (d.strides.map (Stride.read d.mem)) dest (by rwa [strides_flatten])
  rwa [strides_flatten] at hspec

/-- When no `evbuffer_add` fails, the whole content is appended. -/
theorem copyoutEv_ok (d : DBuffer E) (dest : E) (h : (d.copyoutEv dest).2 = true) :
    bytes (d.copyoutEv dest).1 = bytes dest ++ d.mem := by
  rw [copyoutEv, addAll_ok _ _ h, strides_flatten]

/-- An empty buffer appends nothing. -/
theorem bytes_copyoutEv_nil (d : DBuffer E) (dest : E) (h : d.mem = []) :
    bytes (d.copyoutEv dest).1 = bytes dest :=  by
  have hspec := d.copyoutEv_space dest (by simp [h])
  rw [hspec.2, h, List.append_nil]

/-- `stride_ptr::copy(n, dest, true)` from position `off` of the first of the remaining strides: the
    bytes copied, and the remaining strides with the new position. -/
def strideCopy (mem : List UInt8) : List Stride → ℕ → ℕ → List UInt8 × List Stride × ℕ
  | [], off, _ => ([], [], off)
  | st :: rest, off, n =>
    if n = 0 then ([], st :: rest, off)
    else
      let avail := st.len - off
      if avail ≤ n then
        let r := strideCopy mem rest 0 (n - avail)
        ((st.read mem).drop off ++ r.1, r.2)
      else (((st.read mem).drop off).take n, st :: rest, off + n)

/-- `copyout_shape(dest, offset, esize, eskip, ecount)`: the bytes written to `dest` and the number
    of elements; `none` when the division is by zero. Sizes are 64-bit unsigned. -/
def copyoutShape (d : DBuffer E) (offset esize eskip ecount : ℕ) : Option (List UInt8 × ℕ) :=
  let total := d.size
  if ecount = 0 ∨ total ≤ offset then some ([], 0)
  else if (esize + eskip) % 2 ^ 64 = 0 then none
  else
    let fit := (total - offset + eskip) % 2 ^ 64 / ((esize + eskip) % 2 ^ 64)
    let actual := if ecount < fit then ecount else fit
    let start := (strideCopy d.mem d.strides 0 offset).2
    some (elements d.mem actual start.1 start.2, actual)
where
  /-- Copy `esize` bytes for each element and skip `eskip` between two of them. -/
  elements (mem : List UInt8) : ℕ → List Stride → ℕ → List UInt8
    | 0, _, _ => []
    | n + 1, strides, off =>
      let r := strideCopy mem strides off esize
      let s := if n = 0 then r.2 else (strideCopy mem r.2.1 r.2.2 eskip).2
      r.1 ++ elements mem n s.1 s.2

/-- `copyout(dest, offset, nbytes)`: the bytes written to `dest`, and whether all were. -/
def copyout (d : DBuffer E) (offset nbytes : ℕ) : Option (List UInt8 × Bool) :=
  (d.copyoutShape offset nbytes 0 1).map fun r => (r.1, r.2 == 1)

/-! ### The cursor of a `stride_ptr` -/

/-- Position `off` of the first of the remaining strides is position `pos` of a content of `stop`
    bytes. -/
def Cursor : List Stride → ℕ → ℕ → ℕ → Prop
  | [], _, pos, stop => pos = stop
  | st :: rest, off, pos, stop =>
    st.base + off = pos ∧ off ≤ st.len ∧ Tiled (st.base + st.len) rest stop

theorem tiled_cursor {strides : List Stride} {pos stop : ℕ}
    (h : Tiled pos strides stop) : Cursor strides 0 pos stop := by
  cases strides with
  | nil => exact h
  | cons st rest => exact ⟨h.1, Nat.zero_le _, h.1 ▸ h.2⟩

theorem Cursor.le {strides : List Stride} {off pos stop : ℕ} (h : Cursor strides off pos stop) :
    pos ≤ stop := by
  cases strides with
  | nil => exact Nat.le_of_eq h
  | cons st rest =>
    obtain ⟨hpos, hoff, hrest⟩ := h
    have := hrest.le
    omega

/-- What a stride holds from the cursor on. -/
theorem drop_read {mem : List UInt8} {st : Stride} {off pos : ℕ} (hpos : st.base + off = pos) :
    (st.read mem).drop off = (mem.drop pos).take (st.len - off) := by
  rw [Stride.read, List.drop_take, List.drop_drop, hpos]

/-- COPY OUT: the bytes from the cursor on, as many as asked for and as there are; the cursor goes
    on behind them. -/
theorem strideCopy_spec (mem : List UInt8) : ∀ (strides : List Stride) (off n pos : ℕ),
    Cursor strides off pos mem.length →
    (strideCopy mem strides off n).1 = (mem.drop pos).take n ∧
      Cursor (strideCopy mem strides off n).2.1 (strideCopy mem strides off n).2.2
        (min (pos + n) mem.length) mem.length
  | [], off, n, pos, h => by
    have hpos : pos = mem.length := h
    rw [strideCopy, hpos, List.drop_length, List.take_nil]
    exact ⟨rfl, Nat.min_eq_right (Nat.le_add_right _ n)⟩
  | st :: rest, off, n, pos, h => by
    have hle : pos ≤ mem.length := h.le
    obtain ⟨hpos, hoff, hrest⟩ := h
    have hin := hrest.le
    unfold strideCopy
    by_cases h0 : n = 0
    · rw [if_pos h0, h0, List.take_zero, Nat.add_zero, Nat.min_eq_left hle]
      exact ⟨rfl, hpos, hoff, hrest⟩
    rw [if_neg h0, drop_read hpos]
    dsimp only
    by_cases havail : st.len - off ≤ n
    · -- the rest of this stride, and then more from the next ones
      obtain ⟨hout, hcur⟩ := strideCopy_spec mem rest 0 (n - (st.len - off)) _ (tiled_cursor hrest)
      have hnext : st.base + st.len = pos + (st.len - off) := by omega
      have hend : pos + (st.len - off) + (n - (st.len - off)) = pos + n := by omega
      rw [if_pos havail, hout, hnext, ← List.drop_drop, ← List.take_add,
        Nat.add_sub_cancel' havail]
      rw [hnext, hend] at hcur
      exact ⟨rfl, hcur⟩
    · have hend : min (pos + n) mem.length = pos + n := Nat.min_eq_left (by omega)
      rw [if_neg havail, List.take_take, Nat.min_eq_left (by omega), hend]
      refine ⟨rfl, ?_, ?_, hrest⟩ <;> dsimp only <;> omega

/-- The cursor of a whole buffer, after `offset` bytes were skipped. -/
theorem cursor_skip (d : DBuffer E) (offset : ℕ) :
    Cursor (strideCopy d.mem d.strides 0 offset).2.1 (strideCopy d.mem d.strides 0 offset).2.2
      (min offset d.mem.length) d.mem.length := by
  have hspec := (strideCopy_spec d.mem d.strides 0 offset 0 (tiled_cursor d.tiled)).2
  rwa [Nat.zero_add] at hspec

/-- `stride_ptr::copy(n, buf, false)` with a store `write` into the memory behind the strides: the
    memory afterwards, and the number of bytes stored. -/
def strideWrite {M : Type} (write : M → ℕ → List UInt8 → M) :
    M → List Stride → ℕ → List UInt8 → M × ℕ
  | m, [], _, _ => (m, 0)
  | m, st :: rest, off, src =>
    if src = [] then (m, 0)
    else
      let avail := st.len - off
      if avail ≤ src.length then
        let r := strideWrite write (write m (st.base + off) (src.take avail)) rest 0
          (src.drop avail)
        (r.1, avail + r.2)
      else (write m (st.base + off) src, src.length)

/-- COPY IN: the memory from the cursor on is overwritten, as far as it reaches. -/
theorem strideWrite_spec {M : Type} {write : M → ℕ → List UInt8 → M} {view : M → List UInt8}
    (hwrite : ∀ m pos l, pos + l.length ≤ (view m).length →
      view (write m pos l) = overwrite (view m) pos l) :
    ∀ (strides : List Stride) (m : M) (off pos : ℕ) (src : List UInt8),
      Cursor strides off pos (view m).length →
      view (strideWrite write m strides off src).1 =
          overwrite (view m) pos (src.take ((view m).length - pos)) ∧
        (strideWrite write m strides off src).2 = min src.length ((view m).length - pos)
  | [], m, off, pos, src, h => by
    have hpos : pos = (view m).length := h
    rw [strideWrite, hpos, Nat.sub_self, List.take_zero, overwrite_nil, Nat.min_zero]
    exact ⟨rfl, rfl⟩
  | st :: rest, m, off, pos, src, h => by
    obtain ⟨hpos, hoff, hrest⟩ := h
    have hin := hrest.le
    unfold strideWrite
    by_cases h0 : src = []
    · rw [if_pos h0, h0, List.take_nil, overwrite_nil, List.length_nil, Nat.zero_min]
      exact ⟨rfl, rfl⟩
    rw [if_neg h0, hpos]
    dsimp only
    by_cases havail : st.len - off ≤ src.length
    · -- fill this stride, and then go on in the next ones
      have htake : (src.take (st.len - off)).length = st.len - off := by
        rw [List.length_take]; omega
      have hfit : pos + (src.take (st.len - off)).length ≤ (view m).length := by omega
      have hmem := hwrite m pos (src.take (st.len - off)) hfit
      have hlen : (view (write m pos (src.take (st.len - off)))).length = (view m).length := by
        rw [hmem, length_overwrite hfit]
      have hnext : st.base + st.len = pos + (src.take (st.len - off)).length := by omega
      obtain ⟨hview, hcount⟩ := strideWrite_spec hwrite rest _ 0 _ (src.drop (st.len - off))
        (tiled_cursor (hlen.symm ▸ hrest))
      rw [hlen] at hview hcount
      rw [if_pos havail, hview, hcount, hmem, hnext]
      have hsplit : src.take (st.len - off) ++ (src.drop (st.len - off)).take
          ((view m).length - (pos + (src.take (st.len - off)).length)) =
          src.take ((view m).length - pos) := by
        rw [← List.take_add]
        congr 1
        omega
      have hall : pos + (src.take ((view m).length - pos)).length ≤ (view m).length := by
        rw [List.length_take]; omega
      rw [overwrite_append (by rw [hsplit]; exact hall), hsplit, List.length_drop]
      exact ⟨rfl, by omega⟩
    · have hfit : pos + src.length ≤ (view m).length := by omega
      rw [if_neg havail, hwrite m pos src hfit, List.take_of_length_le (by omega)]
      exact ⟨rfl, by omega⟩

/-- `copyout(dest, 0, size())` copies the whole content. -/
theorem copyout_all (d : DBuffer E) (h : d.size < 2 ^ 64) :
    ∃ all, d.copyout 0 d.size = some (d.mem, all) := by
  have hmod : d.size % 2 ^ 64 = d.size := Nat.mod_eq_of_lt h
  have hstart : (strideCopy d.mem d.strides 0 0).2 = (d.strides, 0) := by
    cases d.strides with
    | nil => rfl
    | cons st rest => rw [strideCopy, if_pos rfl]
  by_cases h0 : d.size = 0
  · have hnil : d.mem = [] := List.eq_nil_of_length_eq_zero (d.size_eq ▸ h0)
    exact ⟨false, by simp [copyout, copyoutShape, h0, hnil]⟩
  · have hcopy : (strideCopy d.mem d.strides 0 d.size).1 = d.mem := by
      rw [(strideCopy_spec d.mem d.strides 0 d.size 0 (tiled_cursor d.tiled)).1, List.drop_zero,
        d.size_eq, List.take_length]
    have hone : (d.size - 0 + 0) % 2 ^ 64 / ((d.size + 0) % 2 ^ 64) = 1 := by
      rw [Nat.sub_zero, Nat.add_zero, hmod, Nat.div_self (by omega)]
    have hshape : d.copyoutShape 0 d.size 0 1 = some (d.mem, 1) := by
      unfold copyoutShape
      dsimp only
      rw [if_neg (by omega), if_neg (by rw [Nat.add_zero, hmod]; exact h0), hone,
        if_neg (Nat.lt_irrefl 1), hstart]
      change some ((strideCopy d.mem d.strides 0 d.size).1 ++ [], 1) = _
      rw [List.append_nil, hcopy]
    exact ⟨true, by rw [copyout, hshape]; rfl⟩

end DBuffer

/-! ### Copying in -/

namespace DBuffer

variable {E : Type} [EvMemory E]

/-- Store bytes into the backing memory. -/
def pokeBacking (m : List UInt8 × Option E) (pos : ℕ) (l : List UInt8) : List UInt8 × Option E :=
  match m.2 with
  | some b => (m.1, some (EvMemory.poke b pos l))
  | none => (overwrite m.1 pos l, none)

theorem backing_poke (m : List UInt8 × Option E) (pos : ℕ) (l : List UInt8)
    (h : pos + l.length ≤ (backing m.1 m.2).length) :
    backing (pokeBacking m pos l).1 (pokeBacking m pos l).2 =
      overwrite (backing m.1 m.2) pos l := by
  rcases m with ⟨v, _ | b⟩
  · rfl
  · exact bytes_poke h

/-- The stores of `copyin(buf, offset, len)`. -/
def copyinStores (d : DBuffer E) (buf : List UInt8) (offset : ℕ) : (List UInt8 × Option E) × ℕ :=
  let start := (strideCopy d.mem d.strides 0 offset).2
  strideWrite pokeBacking (d.backingv, d.backingb) start.1 start.2 buf

theorem copyinStores_spec (d : DBuffer E) (buf : List UInt8) (offset : ℕ) :
    backing (d.copyinStores buf offset).1.1 (d.copyinStores buf offset).1.2 =
        overwrite d.mem (min offset d.mem.length)
          (buf.take (d.mem.length - min offset d.mem.length)) ∧
      (d.copyinStores buf offset).2 =
        min buf.length (d.mem.length - min offset d.mem.length) :=
  @strideWrite_spec _ pokeBacking (fun m => backing m.1 m.2) backing_poke _
    (d.backingv, d.backingb) _ _ buf (d.cursor_skip offset)

/-- What is stored stays inside the content. -/
theorem copyin_fits (d : DBuffer E) (buf : List UInt8) (offset : ℕ) :
    min offset d.mem.length +
      (buf.take (d.mem.length - min offset d.mem.length)).length ≤ d.mem.length := by
  rw [List.length_take]
  omega

/-- `copyin(buf, offset, len)`: as many bytes as there is room for are stored from `offset` on; the
    result tells whether that was all of them. -/
def copyin (d : DBuffer E) (buf : List UInt8) (offset : ℕ) : DBuffer E × Bool :=
  let r := d.copyinStores buf offset
  ({ strides := d.strides
     backingv := r.1.1
     backingb := r.1.2
     tiled := by
      rw [(d.copyinStores_spec buf offset).1, length_overwrite (d.copyin_fits buf offset)]
      exact d.tiled },
    r.2 == buf.length)

theorem mem_copyin (d : DBuffer E) (buf : List UInt8) (offset : ℕ) :
    (d.copyin buf offset).1.mem = overwrite d.mem (min offset d.mem.length)
      (buf.take (d.mem.length - min offset d.mem.length)) :=
  (d.copyinStores_spec buf offset).1

theorem copyin_ok (d : DBuffer E) (buf : List UInt8) (offset : ℕ) :
    (d.copyin buf offset).2 =
      (min buf.length (d.mem.length - min offset d.mem.length) == buf.length) := by
  rw [copyin, (d.copyinStores_spec buf offset).2]

end DBuffer

end Pscdrv
