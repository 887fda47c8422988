/-
Reading the raw journal: its header, its frames, and the parts they hold.

The file is read as it stands at one moment, so that no read comes up short.
Retained memory is not accounted for, and of a part only its catalog is kept.
-/
import Kronika.Format.JournalScan

namespace Kronika.Store

open Format Library

/-- One part of the live generation. -/
structure ActivePart where
  segmentId : SegmentId
  part : PartRef
  catalog : Catalog
deriving DecidableEq

structure JournalScan where
  active : List ActivePart
  /-- The end of the complete physical journal state. -/
  validLen : Nat
  committedReset : Bool
deriving DecidableEq

/-- The scan of a store without a journal. -/
def emptyJournalScan : JournalScan := { active := [], validLen := 0, committedReset := false }

structure JournalReadPlan where
  segmentId : Option SegmentId
  /-- The prefix with the old frames that must validate. -/
  scanLen : Nat
  /-- The complete physical state that the plan proves valid. -/
  validLen : Nat
  committedReset : Bool
deriving DecidableEq

inductive ScanError where
  | io
  | journalTooLong (len : Nat)
  | tornHeader (len : Nat)
  | header (problem : JournalHeaderError)
  | bodyLength (recorded actual : Nat)
  | trailingFrames
  | noFirstFrame
  | segmentId (value : Int64)
  | partLimit (limit : Nat)
  | damagedFrames
deriving DecidableEq

section Plan

variable (crc32c : Checksum)

def committedResetPlan (file : Bytes) : Option JournalReadPlan :=
  if file.length < resetMarkerLen then none
  else if file.length - resetMarkerLen ≤ journalHeaderLen then none
  else
    match ResetMarker.decode crc32c (file.drop (file.length - resetMarkerLen)) with
    | none => none
    | some marker =>
      if marker.previousLen ≠ file.length - resetMarkerLen ∨
          (marker.expectedPreviousHeader crc32c).isNone ∨
          (marker.classifyHeaderTransition crc32c (slice file 0 journalHeaderLen)).isNone then none
      else
        match SegmentId.new marker.previousSegmentId with
        | none => none
        | some segmentId =>
          some { segmentId := some segmentId, scanLen := marker.previousLen
                 validLen := file.length, committedReset := true }

/-- The plan of a file that is read up to its end. -/
def wholePlan (segmentId : Option SegmentId) (len : Nat) : JournalReadPlan :=
  { segmentId := segmentId, scanLen := len, validLen := len, committedReset := false }

/-- What the header says about a body of `actual` bytes. -/
def headerPlan (header : JournalHeader) (actual : Nat) : Except ScanError JournalReadPlan :=
  if header.bodyLen ≠ actual then .error (.bodyLength header.bodyLen actual)
  else
    match header.state with
    | .empty =>
      if actual = 0 then .ok (wholePlan none (journalHeaderLen + actual))
      else .error .trailingFrames
    | .active value =>
      if actual = 0 then .error .noFirstFrame
      else
        match SegmentId.new value with
        | none => .error (.segmentId value)
        | some segmentId => .ok (wholePlan (some segmentId) (journalHeaderLen + actual))

def readJournalPlan (file : Bytes) : Except ScanError JournalReadPlan :=
  if maxJournalLen < file.length then .error (.journalTooLong file.length)
  -- A crash before the first header write leaves a file without frames.
  else if file.length = 0 then .ok (wholePlan none 0)
  else if file.length < journalHeaderLen then .error (.tornHeader file.length)
  else
    match committedResetPlan crc32c file with
    | some plan => .ok plan
    | none =>
      match JournalHeader.decode crc32c (slice file 0 journalHeaderLen) with
      | .error problem => .error (.header problem)
      | .ok header => headerPlan header (file.length - journalHeaderLen)

end Plan

/-! ## Scanning -/

section Scan

variable (crc32c : Checksum)

/-- The frames from `startAt` to the end of the plan's prefix, as new active parts.  No
frame is longer than the limit that the reader sets for a part. -/
def visitJournalFrames (file : Bytes) (plan : JournalReadPlan) (startAt remainingParts : Nat)
    (totalPartLimit : Nat) : Except ScanError (List (PartRef × Catalog)) :=
  match visitJournalStreamingStrictFrom crc32c (file.take plan.scanLen) startAt .default
      remainingParts with
  | .error .startBeyondSource => .error .io
  | .error (.partLimitExceeded _) => .error (.partLimit totalPartLimit)
  | .ok (found, scannedValidLen) =>
    if scannedValidLen ≠ plan.scanLen then .error .damagedFrames else .ok found

def canResume (plan : JournalReadPlan) (segmentId : SegmentId) (startAt : Nat)
    (prevActive : List ActivePart) : Bool :=
  !plan.committedReset && prevActive.head?.all (·.segmentId = segmentId) &&
    journalHeaderLen ≤ startAt && startAt ≤ plan.scanLen

/-- The frames behind `startAt`, after the parts that are already known. -/
def scanFrames (file : Bytes) (plan : JournalReadPlan) (segmentId : SegmentId) (startAt : Nat)
    (active : List ActivePart) (maxParts : Nat) : Except ScanError JournalScan :=
  if maxParts < active.length then .error (.partLimit maxParts)
  else
    match visitJournalFrames crc32c file plan startAt (maxParts - active.length) maxParts with
    | .error problem => .error problem
    | .ok found =>
      -- The frames of a committed reset are validated, and not published.
      .ok { active := if plan.committedReset then active
              else active ++ found.map fun (part, catalog) =>
                { segmentId := segmentId, part := part, catalog := catalog }
            validLen := plan.validLen, committedReset := plan.committedReset }

def scanJournalReaderBoundedFrom (file : Bytes) (startAt : Nat) (prevActive : List ActivePart)
    (maxParts : Nat) : Except ScanError JournalScan :=
  match readJournalPlan crc32c file with
  | .error problem => .error problem
  | .ok plan =>
    match plan.segmentId with
    | none => .ok { active := [], validLen := plan.validLen, committedReset := false }
    | some segmentId =>
      if canResume plan segmentId startAt prevActive then
        scanFrames crc32c file plan segmentId startAt prevActive maxParts
      else scanFrames crc32c file plan segmentId journalHeaderLen [] maxParts

/-- `scan_journal_from`, with no file for a journal that does not exist. -/
def scanJournalFrom (disk : Option Bytes) (lastValidLen : Nat) (prevActive : List ActivePart) :
    Except ScanError JournalScan :=
  match disk with
  | none => .ok emptyJournalScan
  | some file => scanJournalReaderBoundedFrom crc32c file lastValidLen prevActive maxJournalParts

def scanJournal (disk : Option Bytes) : Except ScanError JournalScan :=
  scanJournalFrom crc32c disk journalHeaderLen []

end Scan

end Kronika.Store
