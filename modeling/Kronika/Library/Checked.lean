/-
Machine operations that can go wrong.

Each operation is `none` where the program would stop: a slice that leaves its list,
a sum or a difference that leaves the machine word, an array of another length.  A
program written with them is some result exactly when it meets none of these, and
the lemmas say that an operation inside its bounds is the plain one.
-/
import Kronika.Library.LittleEndian

namespace Kronika.Library

variable {α : Type*}

/-- The elements from `start` up to `stop`, which must be a range of the list. -/
def checkedSlice (xs : List α) (start stop : Nat) : Option (List α) :=
  if start ≤ stop ∧ stop ≤ xs.length then some (slice xs start stop) else none

/-- A sum of two words of `w` bits. -/
def checkedAdd (w a b : Nat) : Option Nat := if a + b < 2 ^ w then some (a + b) else none

def checkedSub (a b : Nat) : Option Nat := if b ≤ a then some (a - b) else none

/-- A list copied into an array of `n` elements. -/
def checkedArray (n : Nat) (xs : List α) : Option (List α) :=
  if xs.length = n then some xs else none

/-- A number cast to a word of `w` bits, which drops the bits above. -/
def wordCast (w n : Nat) : Nat := n % 2 ^ w

variable {xs : List α}

theorem checkedSlice_eq {start stop : Nat} (h : start ≤ stop)
    (hstop : stop ≤ xs.length) : checkedSlice xs start stop = some (slice xs start stop) :=
  if_pos ⟨h, hstop⟩

theorem checkedSlice_drop {start : Nat} (h : start ≤ xs.length) :
    checkedSlice xs start xs.length = some (xs.drop start) := by
  rw [checkedSlice_eq h (Nat.le_refl _), slice, List.take_length]

theorem checkedSlice_take {stop : Nat} (h : stop ≤ xs.length) :
    checkedSlice xs 0 stop = some (xs.take stop) := by
  rw [checkedSlice_eq (Nat.zero_le _) h, slice, List.drop_zero]

theorem checkedAdd_eq {w a b : Nat} (h : a + b < 2 ^ w) : checkedAdd w a b = some (a + b) :=
  if_pos h

theorem checkedSub_eq {a b : Nat} (h : b ≤ a) : checkedSub a b = some (a - b) := if_pos h

theorem checkedSub_eq_none {a b : Nat} (h : a < b) : checkedSub a b = none :=
  if_neg (Nat.not_le.mpr h)

theorem checkedArray_eq {n : Nat} (h : xs.length = n) :
    checkedArray n xs = some xs := if_pos h

theorem wordCast_eq {w n : Nat} (h : n < 2 ^ w) : wordCast w n = n := Nat.mod_eq_of_lt h

/-! ## Exact chunks -/

/-- The first `count` pieces of `n` elements. -/
def chunks (n : Nat) : Nat → List α → List (List α)
  | 0, _ => []
  | count + 1, xs => xs.take n :: chunks n count (xs.drop n)

/-- All whole pieces of `n` elements; what is left over is skipped. -/
def chunksExact (n : Nat) (xs : List α) : List (List α) := chunks n (xs.length / n) xs

theorem length_of_mem_chunks {n count : Nat} {xs piece : List α} (h : count * n ≤ xs.length)
    (hpiece : piece ∈ chunks n count xs) : piece.length = n := by
  induction count generalizing xs with
  | zero => exact absurd hpiece List.not_mem_nil
  | succ count ih =>
    have hmul : (count + 1) * n = count * n + n := by rw [Nat.add_mul, Nat.one_mul]
    rcases List.mem_cons.mp hpiece with rfl | hrest
    · rw [List.length_take]
      omega
    · exact ih (by rw [List.length_drop]; omega) hrest

theorem length_of_mem_chunksExact {n : Nat} {xs piece : List α}
    (hpiece : piece ∈ chunksExact n xs) : piece.length = n :=
  length_of_mem_chunks (Nat.div_mul_le_self xs.length n) hpiece

theorem chunks_take {n count : Nat} (xs : List α) {stop : Nat} (h : count * n ≤ stop) :
    chunks n count (xs.take stop) = chunks n count xs := by
  induction count generalizing xs stop with
  | zero => rfl
  | succ count ih =>
    have hmul : (count + 1) * n = count * n + n := by rw [Nat.add_mul, Nat.one_mul]
    rw [chunks, chunks, List.take_take, Nat.min_eq_left (by omega), List.drop_take, ih _ (by omega)]

end Kronika.Library
