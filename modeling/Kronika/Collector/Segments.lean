/-
The collector's open segment: buffering a window, appending it, closing the segment.

A full journal closes the accumulated segment before the incoming window is written,
and the window is rebuilt against the new dictionary.  What the sources collect, the
clocks and what the storage makes of each write come with the attempt.
-/
import Kronika.Dictionary.Refinement
import Kronika.Journal.Faults
import Kronika.Writer.SectionBuffers

namespace Kronika.Collector

open Format Writer

variable {Row : Type} {codec : SectionCodec Row}

/-! ## The segment -/

inductive CloseReason where
  | forced
  | size
  | age
  | journalFull
deriving DecidableEq

structure Config where
  segmentMaxAgeSecs : Nat
  segmentMaxBytes : Nat

/-- The open segment: its identity and its age deadline come with the first append.
`answered` is every id the interner has answered since the segment began, which the
code keeps only in the rows it buffers. -/
structure SegmentState where
  firstId : Option SegmentId
  sealSeed : Nat
  ageDeadline : Option (Nat × Nat)
  interner : Interner
  answered : List StrId

namespace SegmentState

def withSealSeed (sealSeed : Nat) : SegmentState :=
  { firstId := none, sealSeed := sealSeed, ageDeadline := none
    interner := Interner.new .default, answered := [] }

def isEmpty (segment : SegmentState) : Bool := segment.firstId.isNone

end SegmentState

/-- Nanoseconds from `utc` to the next phase of the seed. -/
def untilNextPhase (seed period utc : Nat) : Nat :=
  if period = 0 then 0
  else if utc % period < seed % period then seed % period - utc % period
  else period - (utc % period - seed % period)

/-- The clocks read after an append: the monotonic one, and the time since the epoch
unless the system clock is before it. -/
structure Clock where
  now : Nat
  utc : Option Nat

namespace SegmentState

/-- Registers the first append. -/
def onWindowAppended (segment : SegmentState) (id : SegmentId) (clock : Clock) (maxAge : Nat) :
    Option SegmentState :=
  match segment.firstId with
  | some _ => some segment
  | none =>
    match clock.utc with
    | none => none
    | some utc => some { segment with
        firstId := some id
        ageDeadline := some (clock.now, untilNextPhase segment.sealSeed maxAge utc) }

def timeUntilAge (segment : SegmentState) (now : Nat) : Option Nat :=
  match segment.ageDeadline with
  | none => none
  | some (started, delay) => some (delay - (now - started))

def ageExpired (segment : SegmentState) (now : Nat) : Bool :=
  segment.timeUntilAge now == some 0

end SegmentState

/-- Forced closes take priority over size, then age. -/
def closeReason (forced ageExpired : Bool) (journalBytes maxBytes : Nat) : Option CloseReason :=
  if forced then some .forced
  else if maxBytes ≤ journalBytes then some .size
  else if ageExpired then some .age
  else none

/-! ## Storage -/

/-- The collector's storage and its open segment.  `closed` holds each segment closed
so far: its identity, and the parts its finished file was written from. -/
structure Storage where
  journal : Journal
  segment : SegmentState
  closed : List (SegmentId × List Bytes)

inductive CollectorError where
  | noAppendedWindow
  | emptyJournal
  | segmentIdMismatch (journal destination : SegmentId)
  | write
  | reset (problem : JournalError)
  | timestampOutOfRange
  | clockBeforeEpoch
  | missingSegmentId
  | append (problem : JournalError)
  | buffer
  | encode (problem : CodecError)
  | noPart
  | unexpectedClose
deriving DecidableEq

/-- What becomes of a close: whether the finished file is generated and published, and
the writes of the reset. -/
structure CloseIo where
  published : Bool
  reset : WriteIo

/-- `write_segment`: a poisoned journal cannot be read. -/
def writeSegment (journal : Journal) (id : SegmentId) (published : Bool) :
    Except CollectorError Unit :=
  if journal.parts.isEmpty then .error .emptyJournal
  else
    match journal.segmentId with
    | some owner =>
      if owner ≠ id then .error (.segmentIdMismatch owner id)
      else if journal.poisoned then .error .write
      else if published then .ok () else .error .write
    | none =>
      if journal.poisoned then .error .write
      else if published then .ok () else .error .write

section Close

variable (crc32c : Checksum)

/-- Publishes the journal before it is reset. -/
def publishJournal (io : CloseIo) (storage : Storage) (id : SegmentId) :
    Except CollectorError SegmentId × Storage :=
  match writeSegment storage.journal id io.published with
  | .error problem => (.error problem, storage)
  | .ok () =>
    match storage.journal.resetIo crc32c io.reset with
    | (.error problem, journal) => (.error (.reset problem), { storage with journal := journal })
    | (.ok (), journal) =>
      (.ok id, { storage with
        journal := journal, closed := storage.closed ++ [(id, storage.journal.bodies)] })

/-- The dictionary is dropped before the segment is published. -/
def closeOpenSegment (io : CloseIo) (storage : Storage) :
    Except CollectorError SegmentId × Storage :=
  match storage.segment.firstId with
  | none => (.error .noAppendedWindow, storage)
  | some id =>
    publishJournal crc32c io
      { storage with segment := SegmentState.withSealSeed storage.segment.sealSeed } id

end Close

/-! ## Appending a part -/

/-- What the collector meets while it appends one part. -/
structure AppendIo where
  append : WriteIo
  clock : Clock
  close : CloseIo

inductive AppendWindowError where
  | close (problem : CollectorError)
  | other (problem : CollectorError)

def AppendWindowError.problem : AppendWindowError → CollectorError
  | close problem => problem
  | other problem => problem

def isJournalFull : JournalError → Bool
  | .tooManyParts _ => true
  | .full _ _ => true
  | _ => false

/-- The write callback of `flush_window`: the journal after the append. -/
def appendCallback (crc32c : Checksum) (io : WriteIo) (journal : Journal) (id : SegmentId)
    (body : Bytes) (_ : SegmentDicts) : Except (JournalError × Journal) Journal :=
  match journal.appendIo crc32c io id body with
  | (.error problem, journal) => .error (problem, journal)
  | (.ok _, journal) => .ok journal

def segmentIdFor (segment : SegmentState) (ts : Int64) : Option SegmentId :=
  match segment.firstId with
  | some id => some id
  | none => SegmentId.new ts

def closeFor (crc32c : Checksum) (io : CloseIo) (storage : Storage) (reason : CloseReason) :
    Except AppendWindowError (List (SegmentId × CloseReason)) × Storage :=
  match closeOpenSegment crc32c io storage with
  | (.error problem, storage) => (.error (.close problem), storage)
  | (.ok id, storage) => (.ok [(id, reason)], storage)

/-- What follows a successful append: the age deadline, and the close that is due. -/
def afterAppend (crc32c : Checksum) (config : Config) (io : AppendIo) (forced : Bool)
    (storage : Storage) : Except AppendWindowError (List (SegmentId × CloseReason)) × Storage :=
  match storage.journal.segmentId with
  | none => (.error (.other .missingSegmentId), storage)
  | some activeId =>
    match storage.segment.onWindowAppended activeId io.clock
        (config.segmentMaxAgeSecs * 1000000000) with
    | none => (.error (.other .clockBeforeEpoch), storage)
    | some segment =>
      match closeReason forced (segment.ageExpired io.clock.now) storage.journal.len
          config.segmentMaxBytes with
      | none => (.ok [], { storage with segment := segment })
      | some reason => closeFor crc32c io.close { storage with segment := segment } reason

/-- Appends one encoded window, and answers the segments closed by it.  `journalFull`
means that the window was not appended and must be rebuilt. -/
def appendWindowAndMaybeClose (hashes : Hashes) (crc32c : Checksum) (config : Config)
    (io : AppendIo) (storage : Storage) (ts : Int64) (forced : Bool) (body : Bytes) :
    Except AppendWindowError (List (SegmentId × CloseReason)) × Storage :=
  match segmentIdFor storage.segment ts with
  | none => (.error (.other .timestampOutOfRange), storage)
  | some id =>
    match storage.segment.interner.flushWindow hashes
        (appendCallback crc32c io.append storage.journal id body) with
    | (.ok (_, journal), interner) =>
      afterAppend crc32c config io forced
        { storage with
          journal := journal, segment := { storage.segment with interner := interner } }
    | (.error (problem, journal), interner) =>
      let storage := { storage with
        journal := journal, segment := { storage.segment with interner := interner } }
      if isJournalFull problem && !storage.segment.isEmpty then
        closeFor crc32c io.close storage .journalFull
      else (.error (.other (.append problem)), storage)

/-! ## Buffering and encoding -/

/-- What the sources do while a window is collected. -/
inductive CollectStep (Row : Type) where
  | intern (kind : Kind) (bytes : Bytes)
  | push (row : Row)

/-- The sources of one attempt; `failed` is a source that reports an error. -/
structure Collected (Row : Type) where
  steps : List (CollectStep Row)
  failed : Bool

def internStep (hashes : Hashes) (segment : SegmentState) (kind : Kind) (bytes : Bytes) :
    SegmentState :=
  match segment.interner.call hashes kind bytes with
  | (.error _, interner) => { segment with interner := interner }
  | (.ok answer, interner) =>
    { segment with interner := interner, answered := answer.1 :: segment.answered }

/-- The steps of the sources, up to a row that its buffer has no room for. -/
def collect (hashes : Hashes) (segment : SegmentState) (buffers : SectionBuffers codec) :
    List (CollectStep Row) → Option (SectionBuffers codec) × SegmentState
  | [] => (some buffers, segment)
  | .intern kind bytes :: steps =>
    collect hashes (internStep hashes segment kind bytes) buffers steps
  | .push row :: steps =>
    match buffers.push row with
    | none => (none, segment)
    | some buffers => collect hashes segment buffers steps

inductive Buffered (codec : SectionCodec Row) where
  | failed
  | empty
  | rows (buffers : SectionBuffers codec)

def bufferWindow (hashes : Hashes) (codec : SectionCodec Row) (segment : SegmentState)
    (collected : Collected Row) : Buffered codec × SegmentState :=
  match collect hashes segment (SectionBuffers.new : SectionBuffers codec) collected.steps with
  | (none, segment) => (.failed, segment)
  | (some buffers, segment) =>
    if collected.failed then (.failed, segment)
    else if buffers.isEmpty then (.empty, segment)
    else (.rows buffers, segment)

/-- The journal-ready part of the buffered window. -/
def encodeWindow (crc32c : Checksum) (buffers : SectionBuffers codec) (interner : Interner) :
    Except CollectorError Bytes :=
  match dictSections codec interner.window with
  | .error problem => .error (.encode problem)
  | .ok dict =>
    match buffers.flush crc32c dict with
    | .error problem => .error (.encode problem)
    | .ok none => .error .noPart
    | .ok (some body) => .ok body

/-! ## Appending a window -/

structure Attempt (Row : Type) where
  collected : Collected Row
  io : AppendIo

/-- A window: its timestamp, and what its attempts meet. -/
structure Window (Row : Type) where
  ts : Int64
  first : Attempt Row
  second : Attempt Row

structure PendingWindowOutcome where
  written : List (SegmentId × CloseReason)
  accepted : Bool
  appended : Bool
deriving DecidableEq

inductive Attempted where
  | done (result : Except CollectorError PendingWindowOutcome)
  | retry (written : List (SegmentId × CloseReason))

section Append

variable (hashes : Hashes) (codec : SectionCodec Row) (crc32c : Checksum) (config : Config)

/-- An error ends the collector when it is met in a fresh segment or in a close. -/
def appendEncoded (storage : Storage) (fresh : Bool) (ts : Int64) (io : AppendIo)
    (written : List (SegmentId × CloseReason)) (body : Bytes) : Attempted × Storage :=
  match appendWindowAndMaybeClose hashes crc32c config io storage ts false body with
  | (.ok finished, storage) =>
    if finished.any fun close => close.2 = .journalFull then (.retry (written ++ finished), storage)
    else
      (.done (.ok { written := written ++ finished, accepted := true, appended := true }), storage)
  | (.error (.close problem), storage) => (.done (.error problem), storage)
  | (.error (.other problem), storage) =>
    if fresh then (.done (.error problem), storage)
    else (.done (.ok { written := written, accepted := false, appended := false }), storage)

/-- One iteration of the loop of `append_window`. -/
def attemptWindow (storage : Storage) (ts : Int64) (written : List (SegmentId × CloseReason))
    (attempt : Attempt Row) : Attempted × Storage :=
  match bufferWindow hashes codec storage.segment attempt.collected with
  | (.failed, segment) =>
    if storage.segment.isEmpty then (.done (.error .buffer), { storage with segment := segment })
    else
      (.done (.ok { written := written, accepted := false, appended := false }),
        { storage with segment := segment })
  | (.empty, segment) =>
    (.done (.ok { written := written, accepted := true, appended := false }),
      { storage with segment := segment })
  | (.rows buffers, segment) =>
    match encodeWindow crc32c buffers segment.interner with
    | .error problem =>
      if storage.segment.isEmpty then (.done (.error problem), { storage with segment := segment })
      else
        (.done (.ok { written := written, accepted := false, appended := false }),
          { storage with segment := segment })
    | .ok body =>
      appendEncoded hashes crc32c config { storage with segment := segment }
        storage.segment.isEmpty ts attempt.io written body

/-- Rebuilds the window with the new dictionary if the journal fills up. -/
def appendWindow (storage : Storage) (window : Window Row) :
    Except CollectorError PendingWindowOutcome × Storage :=
  match attemptWindow hashes codec crc32c config storage window.ts [] window.first with
  | (.done result, storage) => (result, storage)
  | (.retry written, storage) =>
    match attemptWindow hashes codec crc32c config storage window.ts written window.second with
    | (.done result, storage) => (result, storage)
    | (.retry _, storage) => (.error .unexpectedClose, storage)

/-- One attempt of the sources that stream their windows, the PostgreSQL batches and the
cgroup portions: every error ends the collector. -/
def appendPortion (storage : Storage) (ts : Int64) (forced : Bool) (attempt : Attempt Row) :
    Except CollectorError (List (SegmentId × CloseReason)) × Storage :=
  match collect hashes storage.segment (SectionBuffers.new : SectionBuffers codec)
      attempt.collected.steps with
  | (none, segment) => (.error .buffer, { storage with segment := segment })
  | (some buffers, segment) =>
    if attempt.collected.failed then (.error .buffer, { storage with segment := segment })
    else
      match encodeWindow crc32c buffers segment.interner with
      | .error problem => (.error problem, { storage with segment := segment })
      | .ok body =>
        match appendWindowAndMaybeClose hashes crc32c config attempt.io
            { storage with segment := segment } ts forced body with
        | (.error problem, storage) => (.error problem.problem, storage)
        | (.ok finished, storage) => (.ok finished, storage)

end Append

end Kronika.Collector
