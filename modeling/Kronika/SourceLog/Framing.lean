/-
Framing of log files into lines and records, with bounded retention.

A line or a record keeps its first `maxLineBytes` bytes; what follows is scanned, so
that quotes are counted over all bytes, but not kept.  Text is kept up to the first
byte that is not UTF-8.
-/
import Kronika.Format.StrId
import Kronika.Library.Utf8

namespace Kronika.SourceLog

open Format

/-- Longest prefix that is kept of a line and of a record (`MAX_LINE_BYTES`). -/
def maxLineBytes : Nat := 65536

/-- A string: bytes that are UTF-8. -/
structure Text where
  bytes : Bytes
  valid : Utf8.Valid bytes
deriving DecidableEq

namespace Text

def empty : Text := ⟨[], Utf8.valid_nil⟩

def isEmpty (text : Text) : Bool := text.bytes.isEmpty

/-- `String::from_utf8`; the error is how far the bytes are valid. -/
def fromUtf8 (bytes : Bytes) : Except Nat Text :=
  if h : Utf8.Valid bytes then .ok ⟨bytes, h⟩ else .error (Utf8.validUpTo bytes)

def floorCharBoundary (text : Text) (offset : Nat) : Nat :=
  Nat.findGreatest (fun stop => Utf8.isCharBoundary text.bytes stop = true) offset

/-- Cut to at most `maxBytes`, on a character boundary. -/
def truncate (text : Text) (maxBytes : Nat) : Text :=
  if text.bytes.length ≤ maxBytes then text
  else
    { bytes := text.bytes.take (text.floorCharBoundary maxBytes)
      valid := Utf8.valid_take text.valid
        (Nat.findGreatest_spec (P := fun stop => Utf8.isCharBoundary text.bytes stop = true)
          (Nat.zero_le _) rfl) }

end Text

def newline : UInt8 := 10

def carriageReturn : UInt8 := 13

def quote : UInt8 := 34

def quoteParity (bytes : Bytes) : Bool := bytes.count quote % 2 == 1

/-- A complete line; `endAt` is the offset after its newline. -/
structure PhysicalLine where
  endAt : Nat
  text : Option Text
  truncated : Bool
  quotesOdd : Bool
deriving DecidableEq

/-- The bytes so far of a line that has not ended. -/
@[ext]
structure PartialLine where
  bytes : Bytes
  truncated : Bool
  quotesOdd : Bool
deriving DecidableEq

namespace PartialLine

def new : PartialLine := { bytes := [], truncated := false, quotesOdd := false }

def push (line : PartialLine) (chunk : Bytes) (trackQuotes : Bool) : PartialLine :=
  let quotesOdd :=
    if trackQuotes then line.quotesOdd ^^ quoteParity chunk else line.quotesOdd
  if line.truncated then { line with quotesOdd := quotesOdd }
  else
    let room := maxLineBytes - line.bytes.length
    let kept := chunk.take (min room chunk.length)
    { bytes := line.bytes ++ kept
      truncated := decide (kept.length < chunk.length)
      quotesOdd := quotesOdd }

/-- The line as it ends; a new one is begun in its place. -/
def finish (line : PartialLine) (endAt : Nat) : PhysicalLine :=
  let raw :=
    if !line.truncated && line.bytes.getLast? == some carriageReturn then line.bytes.dropLast
    else line.bytes
  match Text.fromUtf8 raw with
  | .ok text =>
    { endAt := endAt
      text := some text
      truncated := line.truncated
      quotesOdd := line.quotesOdd }
  | .error valid =>
    { endAt := endAt
      text := (Text.fromUtf8 (raw.take valid)).toOption
      truncated := true
      quotesOdd := line.quotesOdd }

def isEmpty (line : PartialLine) : Bool := line.bytes.isEmpty && !line.truncated

end PartialLine

/-- A record that lines may still continue. -/
structure OpenRecord where
  lines : List Text
  bytes : Nat
  endAt : Nat
  truncated : Bool
  quotesOdd : Bool
deriving DecidableEq

namespace OpenRecord

def new : OpenRecord :=
  { lines := [], bytes := 0, endAt := 0, truncated := false, quotesOdd := false }

def push (record : OpenRecord) (line : PhysicalLine) : OpenRecord :=
  let scanned : OpenRecord :=
    { record with
      endAt := line.endAt
      quotesOdd := record.quotesOdd ^^ line.quotesOdd
      truncated := record.truncated || line.truncated }
  match line.text with
  | none => scanned
  | some text =>
    let separator := if record.lines.isEmpty then 0 else 1
    if maxLineBytes < record.bytes + separator then { scanned with truncated := true }
    else
      let retained := text.truncate (maxLineBytes - record.bytes - separator)
      { scanned with
        truncated := scanned.truncated || decide (retained.bytes.length < text.bytes.length)
        bytes := record.bytes + separator + retained.bytes.length
        lines := record.lines ++ [retained] }

end OpenRecord

/-! ## Chunks -/

theorem quoteParity_append (left right : Bytes) :
    quoteParity (left ++ right) = (quoteParity left ^^ quoteParity right) := by
  unfold quoteParity
  rcases Nat.mod_two_eq_zero_or_one (left.count quote) with hl | hl <;>
    rcases Nat.mod_two_eq_zero_or_one (right.count quote) with hr | hr <;>
    simp [Nat.add_mod, hl, hr]

namespace PartialLine

def room (line : PartialLine) : Nat :=
  if line.truncated then 0 else maxLineBytes - line.bytes.length

theorem push_eq (line : PartialLine) (chunk : Bytes) (trackQuotes : Bool) :
    line.push chunk trackQuotes =
      { bytes := line.bytes ++ chunk.take line.room
        truncated := line.truncated || decide (line.room < chunk.length)
        quotesOdd :=
          if trackQuotes then line.quotesOdd ^^ quoteParity chunk else line.quotesOdd } := by
  unfold push room
  by_cases h : line.truncated = true
  · simp [h]
  · rw [if_neg h, if_neg h]
    dsimp only
    generalize maxLineBytes - line.bytes.length = room
    rw [← List.take_eq_take_min, List.length_take, Bool.eq_false_of_not_eq_true h, Bool.false_or,
      decide_eq_decide.mpr (show min room chunk.length < chunk.length ↔ room < chunk.length by
        omega)]

theorem room_push (line : PartialLine) (chunk : Bytes) (trackQuotes : Bool) :
    (line.push chunk trackQuotes).room = line.room - chunk.length := by
  rw [push_eq, room]
  by_cases htruncated : line.truncated = true
  · simp [room, htruncated]
  · by_cases hroom : line.room < chunk.length
    · simp [hroom]
      omega
    · have hfits : chunk.length ≤ line.room := Nat.le_of_not_lt hroom
      simp only [Bool.eq_false_of_not_eq_true htruncated, hroom, decide_false, Bool.or_self,
        Bool.false_eq_true, if_false, List.take_of_length_le hfits, List.length_append]
      rw [room, if_neg htruncated, Nat.sub_add_eq]

theorem push_push (line : PartialLine) (left right : Bytes) (trackQuotes : Bool) :
    (line.push left trackQuotes).push right trackQuotes =
      line.push (left ++ right) trackQuotes := by
  rw [push_eq (line.push left trackQuotes), room_push, push_eq line left, push_eq line]
  refine PartialLine.ext ?_ ?_ ?_
  · show line.bytes ++ left.take line.room ++ right.take (line.room - left.length) = _
    rw [List.append_assoc, ← List.take_append]
  · show (line.truncated || decide (line.room < left.length) ||
      decide (line.room - left.length < right.length)) = _
    rw [Bool.or_assoc, ← Bool.decide_or, List.length_append]
    congr 1
    apply decide_eq_decide.mpr
    omega
  · cases trackQuotes with
    | false => rfl
    | true => simp [quoteParity_append]

@[simp] theorem push_nil (line : PartialLine) (trackQuotes : Bool) :
    line.push [] trackQuotes = line := by
  rw [push_eq]
  cases trackQuotes <;> simp [quoteParity]

theorem isEmpty_push_new (chunk : Bytes) (trackQuotes : Bool) :
    (new.push chunk trackQuotes).isEmpty = chunk.isEmpty := by
  have hroom : new.room = maxLineBytes := rfl
  rw [push_eq, hroom, isEmpty]
  cases chunk with
  | nil => simp [new]
  | cons byte chunk => simp [maxLineBytes]

end PartialLine

end Kronika.SourceLog
