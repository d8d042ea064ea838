import Mathlib.Algebra.Ring.Int.Defs
import Mathlib.Algebra.Ring.Nat
import Mathlib.Data.List.Basic

/-! # Reading fields from a string stream

    A stream is the rest of its text and two flags. An extraction first skips white space. At the
    end of the text it sets `eof`; when it gets nothing, or a number that its type cannot take, it
    sets `fail`. On a stream with a flag set nothing is extracted any more. A number is an optional
    sign and decimal digits; an unsigned type takes a negative number whose magnitude it can hold.

        "PSC1 -1 8"  ──word──▶  " -1 8"  ──int──▶  " 8"  ──int──▶  ""  eof -/

namespace Pscdrv

/-- The state of an `istringstream`. -/
structure IStream where
  rest : List Char
  eof : Bool
  fail : Bool
  deriving DecidableEq

namespace IStream

def ofString (text : List Char) : IStream := ⟨text, false, false⟩

/-- `isspace()` -/
def isSpace (c : Char) : Bool := c == ' ' || (9 ≤ c.toNat && c.toNat ≤ 13)

def skipSpace (text : List Char) : List Char := text.dropWhile isSpace

/-- What every extraction begins with. -/
def sentry (s : IStream) : IStream :=
  if s.eof || s.fail then { s with fail := true }
  else if skipSpace s.rest = [] then ⟨[], true, true⟩
  else ⟨skipSpace s.rest, false, false⟩

/-- `operator>>(std::string&)` -/
def word (s : IStream) : List Char × IStream :=
  let s := s.sentry
  if s.fail then ([], s)
  else
    let rest := s.rest.dropWhile fun c => !isSpace c
    (s.rest.takeWhile fun c => !isSpace c, ⟨rest, rest.isEmpty, false⟩)

/-- The value of decimal digits. -/
def digitsValue (ds : List Char) : ℕ := ds.foldl (fun n c => 10 * n + (c.toNat - 48)) 0

/-- A sign, if there is one; whether it is a minus. -/
def scanSign : List Char → Bool × List Char
  | '-' :: text => (true, text)
  | '+' :: text => (false, text)
  | text => (false, text)

/-- The number at the front of a text, if there is one, and the text behind it. -/
def scanInt (text : List Char) : Option ℤ × List Char :=
  let r := scanSign text
  let ds := r.2.takeWhile Char.isDigit
  (if ds = [] then none else some (if r.1 then -(digitsValue ds : ℤ) else digitsValue ds),
    r.2.dropWhile Char.isDigit)

/-- `operator>>` of an integer type that takes the numbers in `fits`. -/
def int (fits : ℤ → Bool) (s : IStream) : Option ℤ × IStream :=
  let s := s.sentry
  if s.fail then (none, s)
  else
    let r := scanInt s.rest
    let v := r.1.filter fits
    (v, ⟨r.2, r.2.isEmpty, v.isNone⟩)

/-- The numbers an unsigned type of `w` bits takes. -/
def fitsUnsigned (w : ℕ) (z : ℤ) : Bool := z.natAbs < 2 ^ w

/-- The numbers a signed type of `w` bits takes. -/
def fitsSigned (w : ℕ) (z : ℤ) : Bool := -2 ^ (w - 1) ≤ z && z < 2 ^ (w - 1)

variable {s : IStream} {fits : ℤ → Bool}

theorem sentry_ok (h : s.sentry.fail = false) :
    s.fail = false ∧ s.sentry.rest = skipSpace s.rest := by
  unfold sentry at h ⊢
  split at h
  · cases h
  · rename_i hflags
    rw [Bool.or_eq_true, not_or] at hflags
    split at h
    · cases h
    · rename_i hrest
      rw [if_neg (by simpa using hflags), if_neg hrest]
      exact ⟨by simpa using hflags.2, rfl⟩

/-- A word was extracted: the stream was good, and goes on behind it. -/
theorem word_ok (h : s.word.2.fail = false) : s.fail = false ∧
    s.word.2.rest = (skipSpace s.rest).dropWhile fun c => !isSpace c := by
  unfold word at h ⊢
  dsimp only at h ⊢
  split at h
  · rename_i hfail
    rw [hfail] at h
    cases h
  · rename_i hfail
    obtain ⟨hs, hrest⟩ := sentry_ok (Bool.not_eq_true _ ▸ hfail)
    rw [if_neg hfail]
    exact ⟨hs, by rw [← hrest]⟩

/-- A number was extracted: the stream was good, and it is the one at the front. -/
theorem int_ok (h : (s.int fits).2.fail = false) : s.fail = false ∧
    ∃ z, (s.int fits).1 = some z ∧ (scanInt (skipSpace s.rest)).1 = some z ∧ fits z = true := by
  unfold int at h ⊢
  dsimp only at h ⊢
  split at h
  · rename_i hfail
    rw [hfail] at h
    cases h
  · rename_i hfail
    obtain ⟨hs, hrest⟩ := sentry_ok (Bool.not_eq_true _ ▸ hfail)
    rw [if_neg hfail]
    dsimp only at h ⊢
    obtain ⟨z, hz⟩ := Option.isSome_iff_exists.mp (Option.isNone_eq_false_iff.mp h)
    obtain ⟨hscan, hfits⟩ := Option.filter_eq_some_iff.mp hz
    exact ⟨hs, z, hz, hrest ▸ hscan, hfits⟩

end IStream

end Pscdrv
