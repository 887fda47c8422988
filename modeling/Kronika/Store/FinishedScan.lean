/-
The scan of the finished segments, and the reuse of an earlier scan.

The layout gives every ZMS file with its identity.  A scan reads the files, and keeps
the summary of each that is valid; the catalog and its encoded length stand for the
summary.  A file that an earlier scan kept under the same identity is not read again.
-/
import Kronika.Library.SortedMerge
import Kronika.Reader.Segments

namespace Kronika.Store

open Format Library
open Reader (FileIdentity)

/-- A finished segment of a scan, with the catalog of which its summary is made. -/
structure ScannedUnit where
  id : SegmentId
  identity : FileIdentity
  summary : Catalog × Nat
deriving DecidableEq

/-- A ZMS file of the layout. -/
structure ZmsArtifact where
  id : SegmentId
  zmsIdentity : FileIdentity
deriving DecidableEq

/-! ## Warnings -/

inductive InvalidZmsReason where
  | tooSmall
  | badMagic
  | tailIndex
  | unsupportedFormat
  | badCatalogLength
  | catalog
  | canonicalLayout
  | sectionChecksum
  | truncated
  | io
deriving DecidableEq

inductive StoreIoOperation where
  | opening
  | read
  | metadata
deriving DecidableEq

/-- Of the kinds of I/O errors only the end of the file is told apart. -/
structure StoreIoFailure where
  operation : StoreIoOperation
  unexpectedEof : Bool
  rawOsError : Option Nat
deriving DecidableEq

/-- What names a foreign entry of the tree without its raw name. -/
structure PathIdentity where
  nameHash : Nat
  file : FileIdentity
deriving DecidableEq

inductive StoreObject where
  | segment (id : SegmentId)
  | activeJournal
  | foreign (path : PathIdentity)
deriving DecidableEq

inductive StoreWarningReason where
  | invalidZms (reason : InvalidZmsReason)
  | activeJournal (corrupt : Bool)
  | foreignEntry (reason : Nat)
deriving DecidableEq

structure StoreWarning where
  affected : StoreObject
  reason : StoreWarningReason
  identity : Option FileIdentity
  failure : Option StoreIoFailure
deriving DecidableEq

def invalidZmsWarning (artifact : ZmsArtifact) (reason : InvalidZmsReason)
    (failure : Option StoreIoFailure) : StoreWarning :=
  { affected := .segment artifact.id, reason := .invalidZms reason
    identity := some artifact.zmsIdentity, failure := failure }

structure ForeignEntry where
  path : PathIdentity
  reason : Nat
deriving DecidableEq

def ForeignEntry.warning (foreign : ForeignEntry) : StoreWarning :=
  { affected := .foreign foreign.path, reason := .foreignEntry foreign.reason
    identity := some foreign.path.file, failure := none }

/-! ## The metadata budget -/

inductive ScanFailure where
  | layout
  | metadataLimit
  /-- A file changed while it was scanned. -/
  | stale (id : SegmentId)
  | io
deriving DecidableEq

/-- The sizes of the types that a scan retains, and its limit. -/
structure ScanLimits where
  unitBytes : Nat
  collectionBytes : Nat
  summaryBytes : Nat
  warningBytes : Nat
  maxMetadataBytes : Nat

/-- Every partial result of the checked arithmetic is below the last one. -/
def fitsUsize (total : Nat) : Option Nat := if total < 2 ^ 64 then some total else none

namespace ScanLimits

variable (limits : ScanLimits)

def ensureRetained (retained additional warningCapacity : Nat) : Except ScanFailure Unit :=
  match fitsUsize (retained + additional + warningCapacity * limits.warningBytes) with
  | none => .error .metadataLimit
  | some bytes => if bytes ≤ limits.maxMetadataBytes then .ok () else .error .metadataLimit

def accountedBytes (layoutMetadata journalMetadata previousSegments currentSegments
    newSummaries : Nat) : Option Nat :=
  fitsUsize (layoutMetadata + journalMetadata + previousSegments * limits.unitBytes +
    currentSegments * limits.unitBytes +
    ((if previousSegments ≠ 0 then 1 else 0) + 1) * limits.collectionBytes +
    (previousSegments + newSummaries) * limits.summaryBytes)

end ScanLimits

/-! ## The loop over the segments -/

/-- The current layout of the tree, as the strict traversal sorts it. -/
structure Layout where
  segments : List ZmsArtifact
  sorted : segments.Pairwise fun a b => a.id.value < b.id.value
  foreign : List ForeignEntry
  metadataBytes : Nat

/-- What the bytes of a file are, by its address and its identity, or how reading it
fails. -/
abbrev Contents := SegmentId → FileIdentity → Except StoreIoFailure Bytes

/-- The circumstances of one scan: the capacity that the allocator grants to a vector of
warnings that is full, and the files that change while they are opened and read. -/
structure Circumstances where
  reserve : Nat → Option Nat
  races : SegmentId → Option ScanFailure

structure ScanProgress where
  finished : List ScannedUnit
  warnings : List StoreWarning
  warningCapacity : Nat
  retained : Nat

section Scan

variable (limits : ScanLimits) (around : Circumstances)

def pushWarning (progress : ScanProgress) (warning : StoreWarning) :
    Except ScanFailure ScanProgress :=
  if progress.warnings.length = progress.warningCapacity then
    match limits.ensureRetained progress.retained 0 (progress.warnings.length + 1) with
    | .error problem => .error problem
    | .ok () =>
      match around.reserve progress.warnings.length with
      | none => .error .metadataLimit
      | some capacity =>
        -- The allocator may grant more than was asked for.
        match limits.ensureRetained progress.retained 0 capacity with
        | .error problem => .error problem
        | .ok () =>
          .ok { progress with
            warnings := progress.warnings ++ [warning]
            warningCapacity := capacity }
  else .ok { progress with warnings := progress.warnings ++ [warning] }

def pushWarnings : List StoreWarning → ScanProgress → Except ScanFailure ScanProgress
  | [], progress => .ok progress
  | warning :: warnings, progress =>
    match pushWarning limits around progress warning with
    | .error problem => .error problem
    | .ok next => pushWarnings warnings next

/-- The reason of a warning, for an error that excludes only the file. -/
def invalidReason : ZmsError → InvalidZmsReason
  | .io => .truncated
  | .metadataLimit _ => .io
  | .tooSmall => .tooSmall
  | .badMagic => .badMagic
  | .tailIndex _ => .tailIndex
  | .unsupportedFormat _ => .unsupportedFormat
  | .badCatalogLength => .badCatalogLength
  | .catalog _ => .catalog
  | .sectionLayout _ => .canonicalLayout
  | .sectionChecksum _ => .sectionChecksum

def invalidFailure : ZmsError → Option StoreIoFailure
  | .io => some { operation := .read, unexpectedEof := true, rawOsError := none }
  | _ => none

def zmsWarning (artifact : ZmsArtifact) (problem : ZmsError) : StoreWarning :=
  invalidZmsWarning artifact (invalidReason problem) (invalidFailure problem)

variable (crc32c : Checksum) (contents : Contents)

/-- Reads and validates one file. -/
def scanSegment (validation : FinishedValidation) (artifact : ZmsArtifact)
    (progress : ScanProgress) : Except ScanFailure ScanProgress :=
  match around.races artifact.id with
  | some problem => .error problem
  | none =>
    match contents artifact.id artifact.zmsIdentity with
    | .error failure =>
      pushWarning limits around progress (invalidZmsWarning artifact .io (some failure))
    | .ok bytes =>
      match fitsUsize (progress.retained +
          progress.warningCapacity * limits.warningBytes) with
      | none => .error .metadataLimit
      | some retained =>
        match readZmsSummary crc32c bytes retained limits.maxMetadataBytes validation with
        | .ok summary =>
          match limits.ensureRetained progress.retained limits.summaryBytes
              progress.warningCapacity with
          | .error problem => .error problem
          | .ok () =>
            .ok { progress with
              finished := progress.finished ++
                [{ id := artifact.id, identity := artifact.zmsIdentity, summary := summary }]
              retained := progress.retained + limits.summaryBytes }
        | .error (.metadataLimit _) => .error .metadataLimit
        | .error problem => pushWarning limits around progress (zmsWarning artifact problem)

/-- Whether an earlier unit has the address and the identity of a file. -/
def ScannedUnit.isOf (artifact : ZmsArtifact) (unit : ScannedUnit) : Bool :=
  unit.id = artifact.id ∧ unit.identity = artifact.zmsIdentity

/-- One merge of the layout with the earlier units, both sorted by address. -/
def scanSegments (validation : FinishedValidation) :
    List ZmsArtifact → List ScannedUnit → ScanProgress → Except ScanFailure ScanProgress
  | [], _, progress => .ok progress
  | artifact :: rest, previous, progress =>
    let previous := advance (fun unit => unit.id.value) previous artifact.id.value
    match previous.head?.filter (ScannedUnit.isOf artifact) with
    | some unit =>
      scanSegments validation rest previous
        { progress with finished := progress.finished ++ [unit] }
    | none =>
      match scanSegment limits around crc32c contents validation artifact progress with
      | .error problem => .error problem
      | .ok next => scanSegments validation rest previous next

structure StoreScan where
  finished : List ScannedUnit
  journal : JournalScan
  warnings : List StoreWarning
  metadataBytes : Nat
deriving DecidableEq

def completeScanCachedWithWarnings (layout : Except ScanFailure Layout) (journal : JournalScan)
    (journalMetadata : Nat) (previousFinished : List ScannedUnit)
    (initialWarnings : List StoreWarning) (validation : FinishedValidation) :
    Except ScanFailure StoreScan :=
  match layout with
  | .error problem => .error problem
  | .ok layout =>
    match limits.accountedBytes layout.metadataBytes journalMetadata
        previousFinished.length layout.segments.length 0 with
    | none => .error .metadataLimit
    | some retained =>
      if retained > limits.maxMetadataBytes then .error .metadataLimit
      else
        match pushWarnings limits around
            (initialWarnings ++ layout.foreign.map ForeignEntry.warning)
            { finished := [], warnings := [], warningCapacity := 0, retained := retained } with
        | .error problem => .error problem
        | .ok progress =>
          match scanSegments limits around crc32c contents validation layout.segments
              previousFinished progress with
          | .error problem => .error problem
          | .ok progress =>
            match limits.accountedBytes 0 journalMetadata 0 layout.segments.length
                progress.finished.length with
            | none => .error .metadataLimit
            | some metadataBytes =>
              match limits.ensureRetained metadataBytes 0 progress.warningCapacity with
              | .error problem => .error problem
              | .ok () =>
                .ok { finished := progress.finished, journal := journal
                      warnings := progress.warnings, metadataBytes := metadataBytes }

/-- How the scan of the journal ends. -/
inductive JournalOutcome where
  | ok (journal : JournalScan) (metadataBytes : Nat)
  | degraded (warning : StoreWarning) (metadataBytes : Nat)
  | failed (problem : ScanFailure)

def completeJournalScan (layout : Except ScanFailure Layout) (outcome : JournalOutcome)
    (validation : FinishedValidation) : Except ScanFailure StoreScan :=
  match outcome with
  | .ok journal metadataBytes =>
    completeScanCachedWithWarnings limits around crc32c contents layout journal metadataBytes [] []
      validation
  | .degraded warning metadataBytes =>
    completeScanCachedWithWarnings limits around crc32c contents layout emptyJournalScan
      metadataBytes []
      [warning] validation
  | .failed problem => .error problem

def scan (layout : Except ScanFailure Layout) (outcome : JournalOutcome) :
    Except ScanFailure StoreScan :=
  completeJournalScan limits around crc32c contents layout outcome .complete

def scanCatalogs (layout : Except ScanFailure Layout) (outcome : JournalOutcome) :
    Except ScanFailure StoreScan :=
  completeJournalScan limits around crc32c contents layout outcome .catalog

def completeScanCached (layout : Except ScanFailure Layout) (journal : JournalScan)
    (journalMetadata : Nat) (previousFinished : List ScannedUnit) :
    Except ScanFailure StoreScan :=
  completeScanCachedWithWarnings limits around crc32c contents layout journal journalMetadata
    previousFinished [] .complete

def completeScan (layout : Except ScanFailure Layout) (journal : JournalScan)
    (journalMetadata : Nat) : Except ScanFailure StoreScan :=
  completeScanCached limits around crc32c contents layout journal journalMetadata []

end Scan

end Kronika.Store
