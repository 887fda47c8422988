/-
Following a growing log file.

A batch reads the bytes that have arrived, frames them into records and stages where
they end; the position moves only when the batch is acknowledged.  The file is what it
was when the batch looked at its size: it only grows, and no more than that is read.
-/
import Kronika.Library.Lines
import Kronika.SourceLog.Framing

namespace Kronika.SourceLog

open Format

/-- Bytes that one read call asks for at most (`READ_BUF_BYTES`). -/
def readBufBytes : Nat := 65536

/-- Where a source left off in a file. -/
structure Position where
  dev : Nat
  inode : Nat
  offset : Nat
deriving DecidableEq

def Position.default : Position := { dev := 0, inode := 0, offset := 0 }

structure Record where
  lines : List Text
  truncated : Bool
deriving DecidableEq

/-- Whether a line continues the record read so far; `rawQuotesOdd` is the parity of
the quotes in the record. -/
abbrev Continues := (openLines : List Text) → (line : Text) → (rawQuotesOdd : Bool) → Bool

structure TailBatch where
  records : List Record
  rawBytes : Nat
  atEof : Bool
  needsAck : Bool
deriving DecidableEq

structure Tail where
  position : Position
  scanOffset : Nat
  partialLine : PartialLine
  openRecord : Option OpenRecord
  staged : Option PhysicalLine
  pendingEnd : Option Position
deriving DecidableEq

structure LogFile where
  dev : Nat
  inode : Nat
  bytes : Bytes
deriving DecidableEq

inductive TailError where
  | recordBound
  | rawBytesBound
  | notAcknowledged
  | io
deriving DecidableEq

/-- What the operating system answers to a batch: whether the file is opened and its
size told, whether it is positioned, and how many bytes each read call returns at most.
The read call after the last one fails. -/
structure ReadIo where
  opened : Bool
  seeked : Bool
  reads : List Nat

/-- The bounds and the predicate of a batch. -/
structure BatchConfig where
  continues : Continues
  maxRecords : Nat
  rawLimit : Nat
  trackQuotes : Bool

namespace Tail

def new (position : Position) : Tail :=
  { position := position
    scanOffset := position.offset
    partialLine := PartialLine.new
    openRecord := none
    staged := none
    pendingEnd := none }

def acknowledge (tail : Tail) : Option Position × Tail :=
  match tail.pendingEnd with
  | none => (none, tail)
  | some position => (some position, { tail with pendingEnd := none, position := position })

def resetVolatile (tail : Tail) : Tail :=
  { tail with
    scanOffset := tail.position.offset
    partialLine := PartialLine.new
    openRecord := none
    staged := none
    pendingEnd := none }

def retry (tail : Tail) : Tail := tail.resetVolatile

def reset (tail : Tail) (dev inode : Nat) : Tail :=
  { tail with position := { dev := dev, inode := inode, offset := 0 } }.resetVolatile

end Tail

/-- The record that an open one leaves; one whose lines are all empty leaves none. -/
def OpenRecord.record (openRecord : OpenRecord) : Option Record :=
  if openRecord.lines.any (fun line => !line.isEmpty) then
    some { lines := openRecord.lines, truncated := openRecord.truncated }
  else none

/-- The tail and the local variables of `scan`. -/
structure Scan where
  tail : Tail
  records : List Record
  candidateEnd : Option Nat
  rawBytes : Nat
  stop : Bool

namespace Scan

def flushOpen (scan : Scan) : Scan :=
  match scan.tail.openRecord with
  | none => scan
  | some openRecord =>
    { scan with
      tail := { scan.tail with openRecord := none }
      records := scan.records ++ openRecord.record.toList
      candidateEnd := some openRecord.endAt }

/-- Accepts one complete line; `stop` is set when the record cap was reached. -/
def acceptLine (config : BatchConfig) (line : PhysicalLine) (scan : Scan) : Scan :=
  let lineText := line.text.getD Text.empty
  let startsNew :=
    scan.tail.openRecord.any fun openRecord =>
      !config.continues openRecord.lines lineText openRecord.quotesOdd
  let flushed := if startsNew then scan.flushOpen else scan
  if startsNew && config.maxRecords ≤ flushed.records.length then
    { flushed with tail := { flushed.tail with staged := some line }, stop := true }
  else
    let openRecord := (flushed.tail.openRecord.getD OpenRecord.new).push line
    { flushed with tail := { flushed.tail with openRecord := some openRecord }, stop := false }

/-- One complete line of the buffer, up to its newline. -/
def takeLine (config : BatchConfig) (beforeNewline : Bytes) (scan : Scan) : Scan :=
  let scanOffset := scan.tail.scanOffset + (beforeNewline.length + 1)
  let line := (scan.tail.partialLine.push beforeNewline config.trackQuotes).finish scanOffset
  acceptLine config line
    { scan with
      tail := { scan.tail with scanOffset := scanOffset, partialLine := PartialLine.new } }

/-- The bytes of the buffer after its last newline. -/
def takeRest (config : BatchConfig) (chunk : Bytes) (scan : Scan) : Scan :=
  { scan with
    tail :=
      { scan.tail with
        scanOffset := scan.tail.scanOffset + chunk.length
        partialLine := scan.tail.partialLine.push chunk config.trackQuotes } }

/-- The complete lines of the buffer in turn, until the record cap is reached. -/
def takeLines (config : BatchConfig) : List Bytes → Scan → Scan
  | [], scan => scan
  | line :: lines, scan =>
    let taken := scan.takeLine config line
    if taken.stop then taken else takeLines config lines taken

def takeBuffer (config : BatchConfig) (buffer : Bytes) (scan : Scan) : Scan :=
  let (lines, rest) := Lines.split newline [] buffer
  let taken := takeLines config lines scan
  if taken.stop then taken else taken.takeRest config rest

/-- The reads of a batch, and `none` when one fails. -/
def readLoop (config : BatchConfig) (bytes : Bytes) : List Nat → Scan → Option Scan
  | reads, scan =>
    if scan.stop || config.rawLimit ≤ scan.rawBytes || bytes.length ≤ scan.tail.scanOffset then
      some scan
    else
      match reads with
      | [] => none
      | returned :: reads =>
        let remainingFile := bytes.length - scan.tail.scanOffset
        let want := min (min readBufBytes (config.rawLimit - scan.rawBytes)) remainingFile
        let read := min returned want
        if read = 0 then some scan
        else
          let buffer := (bytes.drop scan.tail.scanOffset).take read
          readLoop config bytes reads
            (takeBuffer config buffer { scan with rawBytes := scan.rawBytes + read })

/-- The flush of the open record at the end of the file, unless an empty line would
continue it. -/
def flushAtEof (config : BatchConfig) (size : Nat) (scan : Scan) : Scan :=
  if decide (size ≤ scan.tail.scanOffset) && decide (scan.records.length < config.maxRecords) &&
      scan.tail.staged.isNone && scan.tail.partialLine.isEmpty &&
      scan.tail.openRecord.any fun openRecord =>
        !config.continues openRecord.lines Text.empty openRecord.quotesOdd then
    scan.flushOpen
  else scan

def takeStaged (config : BatchConfig) (scan : Scan) : Scan :=
  match scan.tail.staged with
  | none => scan
  | some line => acceptLine config line { scan with tail := { scan.tail with staged := none } }

/-- The batch that a scan ends with. -/
def finish (size : Nat) (scan : Scan) : TailBatch × Tail :=
  let pendingEnd :=
    match scan.candidateEnd with
    | none => scan.tail.pendingEnd
    | some offset => some { scan.tail.position with offset := offset }
  ({ records := scan.records
     rawBytes := scan.rawBytes
     atEof := decide (size ≤ scan.tail.scanOffset) && scan.tail.staged.isNone
     needsAck := pendingEnd.isSome },
    { scan.tail with pendingEnd := pendingEnd })

end Scan

namespace Tail

def scan (config : BatchConfig) (bytes : Bytes) (reads : List Nat) (tail : Tail) :
    Option (TailBatch × Tail) :=
  let started : Scan :=
    { tail := tail, records := [], candidateEnd := none, rawBytes := 0, stop := false }
  let resumed := started.takeStaged config
  let stop := !resumed.records.isEmpty && decide (config.maxRecords ≤ resumed.records.length)
  match Scan.readLoop config bytes reads { resumed with stop := stop } with
  | none => none
  | some scanned => some ((scanned.flushAtEof config bytes.length).finish bytes.length)

/-- A different file under the name, or a file cut behind the scan, is read from its
start. -/
def follow (file : LogFile) (tail : Tail) : Tail :=
  if file.dev ≠ tail.position.dev ∨ file.inode ≠ tail.position.inode ∨
      file.bytes.length < tail.scanOffset then
    tail.reset file.dev file.inode
  else tail

/-- `read_batch_configured`. -/
def readBatch (config : BatchConfig) (io : ReadIo) (file : LogFile) (tail : Tail) :
    Except TailError TailBatch × Tail :=
  if config.maxRecords = 0 then (.error .recordBound, tail)
  else if config.rawLimit = 0 then (.error .rawBytesBound, tail)
  else if tail.pendingEnd.isSome then (.error .notAcknowledged, tail)
  else if !io.opened then (.error .io, tail)
  else if !io.seeked then (.error .io, tail.follow file)
  else
    match (tail.follow file).scan config file.bytes io.reads with
    | none => (.error .io, (tail.follow file).resetVolatile)
    | some (batch, after) => (.ok batch, after)

end Tail

end Kronika.SourceLog
