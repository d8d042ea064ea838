import Mathlib.Algebra.GroupWithZero.Nat
import Mathlib.Data.List.Basic
import Pscdrv.Schemes.Memory

/-! # What the driver relies on of libevent's `evbuffer`

    libevent is not part of the repository. `Libevent E` lists the operations the driver calls and
    the documented behaviour it relies on, for an arbitrary representation `E`; how the bytes are
    laid out in chains, and when an allocation fails, is left to the representation. An
    `evbuffer` is seen through the contiguous pieces `evbuffer_peek()` reports; its content is their
    concatenation (`Libevent.bytes`). A `Bool` result is `true` for the C result 0. -/

namespace Pscdrv

class Libevent (E : Type) where
  /-- The contiguous pieces of the content, in order (`evbuffer_peek`). -/
  extents : E → List (List UInt8)
  /-- Bytes that a later `evbuffer_add` may append without any new allocation. -/
  space : E → ℕ
  /-- `evbuffer_new()` -/
  new : E
  /-- Bytes that arrived on the socket are appended to an input buffer. -/
  arrive : E → List UInt8 → E
  /-- `evbuffer_add(buf, data, datlen)` -/
  add : E → List UInt8 → E × Bool
  /-- `evbuffer_expand(buf, datlen)` -/
  expand : E → ℕ → E × Bool
  /-- `evbuffer_drain(buf, len)` -/
  drain : E → ℕ → E
  /-- `evbuffer_add_buffer(outbuf, inbuf)`: the new `(outbuf, inbuf)` -/
  addBuffer : E → E → (E × E) × Bool
  /-- `evbuffer_remove_buffer(src, dst, datlen)`: the new `(src, dst)` -/
  removeBuffer : E → E → ℕ → E × E
  extents_new : extents new = []
  arrive_bytes : ∀ b d, (extents (arrive b d)).flatten = (extents b).flatten ++ d
  add_ok : ∀ b d, (add b d).2 = true →
    (extents (add b d).1).flatten = (extents b).flatten ++ d ∧
      space b ≤ space (add b d).1 + d.length
  add_fail : ∀ b d, (add b d).2 = false → (extents (add b d).1).flatten = (extents b).flatten
  /-- Within the reserved space `evbuffer_add` does not fail. -/
  add_space : ∀ b d, d.length ≤ space b → (add b d).2 = true
  expand_bytes : ∀ b n, (extents (expand b n).1).flatten = (extents b).flatten
  expand_space : ∀ b n, (expand b n).2 = true → n ≤ space (expand b n).1
  drain_bytes : ∀ b n, (extents (drain b n)).flatten = (extents b).flatten.drop n
  addBuffer_ok : ∀ o i, (addBuffer o i).2 = true →
    (extents (addBuffer o i).1.1).flatten = (extents o).flatten ++ (extents i).flatten ∧
      (extents (addBuffer o i).1.2).flatten = []
  addBuffer_fail : ∀ o i, (addBuffer o i).2 = false →
    (extents (addBuffer o i).1.1).flatten = (extents o).flatten ∧
      (extents (addBuffer o i).1.2).flatten = (extents i).flatten
  removeBuffer_bytes : ∀ s d n, n ≤ (extents s).flatten.length →
    (extents (removeBuffer s d n).1).flatten = (extents s).flatten.drop n ∧
      (extents (removeBuffer s d n).2).flatten =
        (extents d).flatten ++ (extents s).flatten.take n

namespace Libevent

variable {E : Type} [Libevent E]

/-- The content of an `evbuffer`. -/
def bytes (b : E) : List UInt8 := (extents b).flatten

/-- `evbuffer_get_length(buf)` -/
def length (b : E) : ℕ := (bytes b).length

@[simp] theorem bytes_new : bytes (new : E) = [] := by
  rw [bytes, extents_new, List.flatten_nil]

@[simp] theorem bytes_arrive (b : E) (d : List UInt8) : bytes (arrive b d) = bytes b ++ d :=
  arrive_bytes b d

@[simp] theorem bytes_expand (b : E) (n : ℕ) : bytes (expand b n).1 = bytes b := expand_bytes b n

@[simp] theorem bytes_drain (b : E) (n : ℕ) : bytes (drain b n) = (bytes b).drop n :=
  drain_bytes b n

theorem bytes_add_ok {b : E} {d : List UInt8} (h : (add b d).2 = true) :
    bytes (add b d).1 = bytes b ++ d := (add_ok b d h).1

/-- Add pieces one after another, up to the first `evbuffer_add` that fails. -/
def addAll : List (List UInt8) → E → E × Bool
  | [], b => (b, true)
  | x :: xs, b => if (add b x).2 then addAll xs (add b x).1 else ((add b x).1, false)

/-- When no `evbuffer_add` fails, all the pieces are appended. -/
theorem addAll_ok : ∀ (xs : List (List UInt8)) (b : E), (addAll xs b).2 = true →
    bytes (addAll xs b).1 = bytes b ++ xs.flatten
  | [], b, _ => by simp [addAll]
  | x :: xs, b, h => by
    unfold addAll at h ⊢
    split at h
    · rename_i hadd
      rw [if_pos hadd, addAll_ok xs _ h, bytes_add_ok hadd, List.append_assoc, List.flatten_cons]
    · cases h

/-- When all the pieces fit in the reserved space, they are all appended. -/
theorem addAll_space : ∀ (xs : List (List UInt8)) (b : E), xs.flatten.length ≤ space b →
    (addAll xs b).2 = true ∧ bytes (addAll xs b).1 = bytes b ++ xs.flatten
  | [], b, _ => by simp [addAll]
  | x :: xs, b, h => by
    rw [List.flatten_cons, List.length_append] at h
    have hadd : (add b x).2 = true := add_space b x (by omega)
    have hspace := (add_ok b x hadd).2
    obtain ⟨hok, hbytes⟩ := addAll_space xs (add b x).1 (by omega)
    rw [addAll, if_pos hadd]
    refine ⟨hok, ?_⟩
    rw [hbytes, bytes_add_ok hadd, List.append_assoc, List.flatten_cons]

/-- Even when one fails, nothing is lost and something may be appended. -/
theorem addAll_extends : ∀ (xs : List (List UInt8)) (b : E),
    ∃ l, bytes (addAll xs b).1 = bytes b ++ l
  | [], b => ⟨[], (List.append_nil _).symm⟩
  | x :: xs, b => by
    unfold addAll
    split
    · rename_i hadd
      obtain ⟨l, hl⟩ := addAll_extends xs (add b x).1
      exact ⟨x ++ l, by rw [hl, bytes_add_ok hadd, List.append_assoc]⟩
    · rename_i hadd
      exact ⟨[], (add_fail b x (by simpa using hadd)).trans (List.append_nil _).symm⟩

/-- The chains of a buffer kept as they came: a representation in which no allocation fails. -/
structure Chains where
  chains : List (List UInt8)
  deriving DecidableEq

instance : Libevent Chains where
  extents b := b.chains
  space _ := 2 ^ 64
  new := ⟨[]⟩
  arrive b d := ⟨b.chains ++ [d]⟩
  add b d := (⟨b.chains ++ [d]⟩, true)
  expand b n := (b, decide (n ≤ 2 ^ 64))
  drain b n := ⟨[b.chains.flatten.drop n]⟩
  addBuffer o i := ((⟨o.chains ++ i.chains⟩, ⟨[]⟩), true)
  removeBuffer s d n := (⟨[s.chains.flatten.drop n]⟩, ⟨d.chains ++ [s.chains.flatten.take n]⟩)
  extents_new := rfl
  arrive_bytes := by simp
  add_ok := by simp
  add_fail := by simp
  add_space := by simp
  expand_bytes := by simp
  expand_space := by simp
  drain_bytes := by simp
  addBuffer_ok := by simp
  addBuffer_fail := by simp
  removeBuffer_bytes := by simp

end Libevent

/-- An `evbuffer` whose bytes are also changed in place, through the pointers `evbuffer_peek()`
    gave. `poke b pos data` stores `data` at position `pos` of the content. -/
class EvMemory (E : Type) extends Libevent E where
  poke : E → ℕ → List UInt8 → E
  poke_bytes : ∀ b pos data, pos + data.length ≤ (extents b).flatten.length →
    (extents (poke b pos data)).flatten = Memory.overwrite (extents b).flatten pos data

open Libevent in
theorem bytes_poke {E : Type} [EvMemory E] {b : E} {pos : ℕ} {data : List UInt8}
    (h : pos + data.length ≤ (bytes b).length) :
    bytes (EvMemory.poke b pos data) = Memory.overwrite (bytes b) pos data :=
  EvMemory.poke_bytes b pos data h

instance : EvMemory Libevent.Chains where
  poke b pos data := ⟨Memory.cutLike b.chains (Memory.overwrite b.chains.flatten pos data)⟩
  poke_bytes b _ _ h := Memory.flatten_cutLike b.chains _ (Memory.length_overwrite h)

end Pscdrv
