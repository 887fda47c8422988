/-
The file-backed `active.wal` journal.

Every operation that changes the file is the list of file operations it performs,
in order, so that a stop within it has a meaning.  The handle keeps the bytes of
its file in place of the open file.
-/
import Kronika.Format.JournalScan
import Kronika.Library.FileOps

namespace Kronika.Writer

open Format Library

structure JournalConfig where
  limits : JournalLimits
  maxJournalLen : Nat
  maxParts : Nat
deriving DecidableEq

def JournalConfig.default : JournalConfig :=
  { limits := .default, maxJournalLen := Format.maxJournalLen
    maxParts := Format.maxJournalParts }

inductive JournalError where
  | io
  | invalidMaxJournalLen (value minimum maximum : Nat)
  | invalidMaxParts (value minimum maximum : Nat)
  | invalidMaxPartLen (value minimum maximum : Nat)
  | journalTooLarge (len max : Nat)
  | tooManyParts (max : Nat)
  | unsupportedJournalFormat
  | tornHeader (len : Nat)
  | invalidHeader (problem : JournalHeaderError)
  | bodyLengthMismatch (recorded actual : Nat)
  | emptyWithFrames (bodyLen : Nat)
  | activeWithoutFirstFrame
  | damagedBody
  | invalidSegmentId (value : Int64)
  | segmentIdMismatch (expected got : SegmentId)
  | partTooLarge (len max : Nat)
  | full (len max : Nat)
  | invalidPart (problem : PartError)
  | poisoned
deriving DecidableEq

def mapScanError : JournalScanError → JournalError
  | .startBeyondSource => .io
  | .partLimitExceeded limit => .tooManyParts limit

def validateConfig (config : JournalConfig) : Except JournalError Unit :=
  if config.maxJournalLen < journalHeaderLen ∨ maxJournalLen < config.maxJournalLen then
    .error (.invalidMaxJournalLen config.maxJournalLen journalHeaderLen maxJournalLen)
  else if config.maxParts = 0 ∨ maxJournalParts < config.maxParts then
    .error (.invalidMaxParts config.maxParts 1 maxJournalParts)
  else if config.limits.maxPartLen = 0 ∨ maxPartLen < config.limits.maxPartLen then
    .error (.invalidMaxPartLen config.limits.maxPartLen 1 maxPartLen)
  else .ok ()

/-- The open active journal. -/
structure Journal where
  file : Bytes
  len : Nat
  config : JournalConfig
  parts : List PartRef
  segmentId : Option SegmentId
  poisoned : Bool

/-! ## File operations -/

section Operations

variable (crc32c : Checksum)

def writeHeader (header : JournalHeader) : FileOp := .write 0 (header.encode crc32c)

def writeFrame (offset : Nat) (part : Bytes) : List FileOp :=
  [.write offset (FrameHeader.encode crc32c { partLen := part.length }),
    .write (offset + frameHeaderLen) part]

def rollback (len : Nat) (header : JournalHeader) : List FileOp :=
  [.setLen len, writeHeader crc32c header, .sync]

def finishCommittedReset : List FileOp :=
  [writeHeader crc32c .empty, .sync, .setLen journalHeaderLen, .sync]

/-- A new or a zero-length file receives the canonical empty header. -/
def initializeJournal : List FileOp :=
  [writeHeader crc32c .empty, .setLen journalHeaderLen, .sync]

end Operations

namespace Journal

variable (crc32c : Checksum)

def currentHeader (journal : Journal) : JournalHeader :=
  { state := match journal.segmentId with
      | none => .empty
      | some segmentId => .active segmentId.value
    bodyLen := journal.len - journalHeaderLen }

def readPart (journal : Journal) (part : PartRef) : Bytes :=
  slice journal.file part.offset (part.offset + part.len)

def bodies (journal : Journal) : List Bytes := journal.parts.map journal.readPart

/-! ## Appending -/

def nextLen (journal : Journal) (part : Bytes) : Nat :=
  journal.len + (frameHeaderLen + part.length)

def newHeader (journal : Journal) (segmentId : SegmentId) (part : Bytes) : JournalHeader :=
  { state := .active segmentId.value, bodyLen := journal.nextLen part - journalHeaderLen }

/-- What an append is refused for, before it writes anything. -/
def checkAppend (journal : Journal) (segmentId : SegmentId) (part : Bytes) :
    Except JournalError Unit :=
  if journal.poisoned then .error .poisoned
  else if journal.segmentId.any (· ≠ segmentId) then
    .error (.segmentIdMismatch (journal.segmentId.getD segmentId) segmentId)
  else if journal.config.limits.maxPartLen < part.length then
    .error (.partTooLarge part.length journal.config.limits.maxPartLen)
  else
    match validatePart crc32c part with
    | .error problem => .error (.invalidPart problem)
    | .ok _ =>
      if journal.config.maxParts ≤ journal.parts.length then
        .error (.tooManyParts journal.config.maxParts)
      else if journal.config.maxJournalLen < journal.nextLen part + resetMarkerLen then
        .error (.full journal.len journal.config.maxJournalLen)
      else .ok ()

/-- The writes of an append: the header first for the first frame, last for a later
one. -/
def appendOps (journal : Journal) (segmentId : SegmentId) (part : Bytes) : List FileOp :=
  if journal.parts.isEmpty then
    writeHeader crc32c (journal.newHeader segmentId part) ::
      (writeFrame crc32c journal.len part ++ [.sync])
  else
    writeFrame crc32c journal.len part ++
      [writeHeader crc32c (journal.newHeader segmentId part), .sync]

def appendedRef (journal : Journal) (part : Bytes) : PartRef :=
  { offset := journal.len + frameHeaderLen, len := part.length }

/-- The journal after the writes of an append. -/
def appended (journal : Journal) (segmentId : SegmentId) (part : Bytes) : Journal :=
  { journal with
    file := FileOp.applyAll journal.file (journal.appendOps crc32c segmentId part)
    len := journal.nextLen part
    parts := journal.parts ++ [journal.appendedRef part]
    segmentId := some segmentId }

def append (journal : Journal) (segmentId : SegmentId) (part : Bytes) :
    Except JournalError PartRef × Journal :=
  match journal.checkAppend crc32c segmentId part with
  | .error problem => (.error problem, journal)
  | .ok () => (.ok (journal.appendedRef part), journal.appended crc32c segmentId part)

/-! ## Resetting -/

/-- The marker that a reset commits, unless the reset is refused. -/
def resetMarker (journal : Journal) : Except JournalError ResetMarker :=
  match journal.segmentId with
  | none => .error .poisoned
  | some segmentId =>
    if journal.config.maxJournalLen < journal.len + resetMarkerLen then
      .error (.full journal.len journal.config.maxJournalLen)
    else
      match ResetMarker.new crc32c journal.len segmentId.value with
      | none => .error .poisoned
      | some marker => .ok marker

def markerOps (journal : Journal) (marker : ResetMarker) : List FileOp :=
  [.write journal.len (marker.encode crc32c), .sync]

def resetOps (journal : Journal) (marker : ResetMarker) : List FileOp :=
  journal.markerOps crc32c marker ++ finishCommittedReset crc32c

def reset (journal : Journal) : Except JournalError Unit × Journal :=
  if journal.poisoned then (.error .poisoned, journal)
  else if journal.parts.isEmpty then (.ok (), journal)
  else
    match journal.resetMarker crc32c with
    | .error .poisoned => (.error .poisoned, { journal with poisoned := true })
    | .error problem => (.error problem, journal)
    | .ok marker =>
      (.ok (), { journal with
        file := FileOp.applyAll journal.file (journal.resetOps crc32c marker)
        len := journalHeaderLen, parts := [], segmentId := none })

end Journal

/-! ## Opening -/

section Open

variable (crc32c : Checksum) (config : JournalConfig)

/-- Whether the file holds a committed reset that is to be finished. -/
def recoverCommittedReset (file : Bytes) : Except JournalError Bool :=
  if file.length < journalHeaderLen + resetMarkerLen then .ok false
  else
    let markerAt := file.length - resetMarkerLen
    match ResetMarker.decode crc32c (file.drop markerAt) with
    | none => .ok false
    | some marker =>
      if marker.previousLen ≠ markerAt ∨ config.maxJournalLen < marker.previousLen ∨
          (SegmentId.new marker.previousSegmentId).isNone then .ok false
      else if (marker.expectedPreviousHeader crc32c).isNone then .ok false
      else if (marker.classifyHeaderTransition crc32c
          (slice file 0 journalHeaderLen)).isNone then .ok false
      else
        match scanJournalStreamingStrictFrom crc32c (file.take marker.previousLen)
            journalHeaderLen config.limits config.maxParts with
        | .error problem => .error (mapScanError problem)
        | .ok scan =>
          if scan.parts.isEmpty ∨ scan.validLen ≠ marker.previousLen then .ok false
          else .ok true

/-- What opening an existing file writes to it. -/
def openOps (file : Bytes) : List FileOp :=
  match validateConfig config with
  | .error _ => []
  | .ok () =>
    if config.maxJournalLen < file.length then []
    else
      match recoverCommittedReset crc32c config file with
      | .error _ => []
      | .ok true => finishCommittedReset crc32c
      | .ok false => if file.isEmpty then initializeJournal crc32c else []

def mapHeaderError : JournalHeaderError → JournalError
  | .unsupportedMagic _ => .unsupportedJournalFormat
  | .unsupportedVersion _ => .unsupportedJournalFormat
  | other => .invalidHeader other

/-- The frames of an active journal. -/
def openActive (file : Bytes) (rawId : Int64) : Except JournalError (SegmentId × List PartRef) :=
  match SegmentId.new rawId with
  | none => .error (.invalidSegmentId rawId)
  | some segmentId =>
    match scanJournalStreamingStrictFrom crc32c file journalHeaderLen config.limits
        config.maxParts with
    | .error problem => .error (mapScanError problem)
    | .ok scan =>
      if scan.validLen ≠ file.length then .error .damagedBody
      else if scan.parts.isEmpty then .error .activeWithoutFirstFrame
      else .ok (segmentId, scan.parts)

/-- The identity and the frames that the header announces. -/
def openState (file : Bytes) (header : JournalHeader) :
    Except JournalError (Option SegmentId × List PartRef) :=
  match header.state with
  | .empty =>
    if file.length - journalHeaderLen ≠ 0 then
      .error (.emptyWithFrames (file.length - journalHeaderLen))
    else .ok (none, [])
  | .active rawId =>
    match openActive crc32c config file rawId with
    | .error problem => .error problem
    | .ok (segmentId, parts) => .ok (some segmentId, parts)

/-- The journal in a file that needs no recovery. -/
def openFile (file : Bytes) : Except JournalError Journal :=
  if file.length < journalHeaderLen then .error (.tornHeader file.length)
  else
    match JournalHeader.decode crc32c (slice file 0 journalHeaderLen) with
    | .error problem => .error (mapHeaderError problem)
    | .ok header =>
      if header.bodyLen ≠ file.length - journalHeaderLen then
        .error (.bodyLengthMismatch header.bodyLen (file.length - journalHeaderLen))
      else
        match openState crc32c config file header with
        | .error problem => .error problem
        | .ok (segmentId, parts) =>
          .ok { file := file, len := file.length, config := config, parts := parts
                segmentId := segmentId, poisoned := false }

def openExisting (file : Bytes) : Except JournalError Journal :=
  match validateConfig config with
  | .error problem => .error problem
  | .ok () =>
    if config.maxJournalLen < file.length then
      .error (.journalTooLarge file.length config.maxJournalLen)
    else
      match recoverCommittedReset crc32c config file with
      | .error problem => .error problem
      | .ok _ => openFile crc32c config (FileOp.applyAll file (openOps crc32c config file))

/-- `Journal::open`, with no file for a journal that is still to be created. -/
def Journal.open (disk : Option Bytes) : Except JournalError Journal :=
  match disk, validateConfig config with
  | _, .error problem => .error problem
  | none, .ok () => openExisting crc32c config (FileOp.applyAll [] (initializeJournal crc32c))
  | some file, .ok () => openExisting crc32c config file

end Open

end Kronika.Writer
