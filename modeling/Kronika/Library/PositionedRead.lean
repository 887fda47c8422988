/-
Positioned reads, whole and in chunks.

`readChunks size` reads a range in pieces of at most `size` bytes and gives the
pieces joined.  Its only rule is `readChunks_eq`: however the range is cut, the read
gives the range, or fails when the source ends before it.
-/
import Kronika.Library.LittleEndian

namespace Kronika.Library

variable {α : Type*}

/-- `len` elements from `offset` on, or nothing when the source is shorter. -/
def readExactAt (source : List α) (offset len : Nat) : Option (List α) :=
  if offset + len ≤ source.length then some (slice source offset (offset + len)) else none

def readChunks (size : Nat) (hsize : 0 < size) (source : List α) (offset remaining : Nat) :
    Option (List α) :=
  if remaining = 0 then some []
  else
    match readExactAt source offset (min remaining size) with
    | none => none
    | some chunk =>
      (readChunks size hsize source (offset + min remaining size)
        (remaining - min remaining size)).map (chunk ++ ·)
termination_by remaining
decreasing_by omega

theorem readChunks_eq {size : Nat} (hsize : 0 < size) (source : List α) (offset remaining : Nat)
    (hpos : remaining ≠ 0) :
    readChunks size hsize source offset remaining = readExactAt source offset remaining := by
  induction remaining using Nat.strongRecOn generalizing offset with
  | ind remaining ih =>
    rw [readChunks, if_neg hpos]
    by_cases hfirst : offset + min remaining size ≤ source.length
    · rw [readExactAt, if_pos hfirst]
      dsimp only
      by_cases hlast : remaining ≤ size
      · have hmin : min remaining size = remaining := by omega
        have hdone : readChunks size hsize source (offset + remaining) (remaining - remaining) =
            some [] := by
          rw [readChunks, if_pos (by omega)]
        rw [hmin] at hfirst
        rw [hmin, hdone, readExactAt, if_pos hfirst, Option.map_some, List.append_nil]
      · have hmin : min remaining size = size := by omega
        rw [hmin, ih (remaining - size) (by omega) (offset + size) (by omega), readExactAt,
          readExactAt, show offset + size + (remaining - size) = offset + remaining from by omega]
        by_cases hall : offset + remaining ≤ source.length
        · rw [if_pos hall, if_pos hall, Option.map_some, slice_append_slice (by omega) (by omega)]
        · rw [if_neg hall, if_neg hall, Option.map_none]
    · have hnone : readExactAt source offset (min remaining size) = none := if_neg hfirst
      rw [hnone, readExactAt, if_neg (by omega)]

end Kronika.Library
