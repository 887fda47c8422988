/-
Walking the frames of a journal.

A scan stops at the first damaged frame.  Reading the file cannot fail here; what
is left of the source's I/O errors is a start beyond the file.
-/
import Kronika.Format.JournalHeader

namespace Kronika.Format

open Library

structure JournalLimits where
  maxPartLen : Nat
deriving DecidableEq

def JournalLimits.default : JournalLimits := { maxPartLen := Format.maxPartLen }

/-- The location of one part body in the journal. -/
structure PartRef where
  offset : Nat
  len : Nat
deriving DecidableEq

structure ScanReport where
  parts : List PartRef
  validLen : Nat
deriving DecidableEq

inductive JournalScanError where
  | startBeyondSource
  | partLimitExceeded (limit : Nat)
deriving DecidableEq

/-- The frame at the start of `rest`: its body length and its catalog. -/
def streamingFrameAt (crc32c : Checksum) (limits : JournalLimits) (rest : Bytes) :
    Option (Nat × Catalog) :=
  if rest.length < frameHeaderLen then none
  else
    match FrameHeader.decode crc32c (rest.take frameHeaderLen) with
    | .error _ => none
    | .ok header =>
      if header.partLen > limits.maxPartLen then none
      else if rest.length - frameHeaderLen < header.partLen then none
      else
        match validatePart crc32c
            (slice rest frameHeaderLen (frameHeaderLen + header.partLen)) with
        | .error _ => none
        | .ok catalog => some (header.partLen, catalog)

/-- The frames of `rest`, which starts at `pos`, after `count` earlier ones.  A frame
is longer than its header, so the length of `rest` is enough fuel. -/
def visitFrames (crc32c : Checksum) (limits : JournalLimits) (maxParts : Nat) :
    Nat → Nat → Nat → Bytes → Except JournalScanError (List (PartRef × Catalog) × Nat)
  | 0, pos, _, _ => .ok ([], pos)
  | fuel + 1, pos, count, rest =>
    if rest.isEmpty then .ok ([], pos)
    else
      match streamingFrameAt crc32c limits rest with
      | none => .ok ([], pos)
      | some (len, catalog) =>
        if maxParts ≤ count then .error (.partLimitExceeded maxParts)
        else
          match visitFrames crc32c limits maxParts fuel (pos + (frameHeaderLen + len)) (count + 1)
              (rest.drop (frameHeaderLen + len)) with
          | .error problem => .error problem
          | .ok (found, validLen) =>
            .ok (({ offset := pos + frameHeaderLen, len := len }, catalog) :: found, validLen)

def visitJournalStreamingStrictFrom (crc32c : Checksum) (file : Bytes) (startAt : Nat)
    (limits : JournalLimits) (maxParts : Nat) :
    Except JournalScanError (List (PartRef × Catalog) × Nat) :=
  if startAt > file.length then .error .startBeyondSource
  else visitFrames crc32c limits maxParts (file.drop startAt).length startAt 0 (file.drop startAt)

def scanJournalStreamingStrictFrom (crc32c : Checksum) (file : Bytes) (startAt : Nat)
    (limits : JournalLimits) (maxParts : Nat) : Except JournalScanError ScanReport :=
  match visitJournalStreamingStrictFrom crc32c file startAt limits maxParts with
  | .error problem => .error problem
  | .ok (found, validLen) => .ok { parts := found.map Prod.fst, validLen := validLen }

/-- A part that passes its own checks.  No slice has 2^64 bytes. -/
structure ValidPart (crc32c : Checksum) where
  bytes : Bytes
  catalog : Catalog
  valid : validatePart crc32c bytes = .ok catalog
  short : bytes.length < 2 ^ 64

end Kronika.Format
