/-
In-memory dictionaries for one segment.

Each value gets a `StrId` and one stored copy, placed in `dict.strings` or in
`dict.blobs` by its size and by the requirements collected for it.  A method
that takes `&mut self` and may fail is a function to the pair of its result and
the dictionaries it leaves behind, so that "a failed call leaves the dictionaries
unchanged" is a statement and not a convention.
-/
import Kronika.Format.StrId
import Kronika.Library.TreeMap

namespace Kronika.Format

/-- The largest `usize` and `u64` value. -/
def usizeMax : Nat := 2 ^ 64 - 1

def saturatingAdd (a b : Nat) : Nat := min (a + b) usizeMax

/-! ## Limits -/

def defaultBlobThreshold : Nat := 4 * 1024
def defaultTruncateLimit : Nat := 1024 * 1024
def defaultMaxTotalBytes : Nat := 64 * 1024 * 1024

/-- Size limits used while building dictionaries, with the bounds `validate`
checks. -/
structure DictLimits where
  blobThreshold : Nat
  truncateLimit : Nat
  maxTotalBytes : Nat
  threshold_pos : 0 < blobThreshold
  threshold_le : blobThreshold ≤ truncateLimit
  truncate_le : truncateLimit ≤ maxTotalBytes
deriving DecidableEq

namespace DictLimits

def default : DictLimits :=
  ⟨defaultBlobThreshold, defaultTruncateLimit, defaultMaxTotalBytes, by decide, by decide,
    by decide⟩

/-- A value is routed to `dict.blobs` by size alone. -/
def oversized (limits : DictLimits) (bytes : Bytes) : Bool :=
  decide (limits.blobThreshold ≤ bytes.length)

end DictLimits

/-- Why a dictionary update was rejected. -/
inductive DictError where
  /-- One id for different values; the id is `0` when the input hashes to zero. -/
  | collision (id : UInt64)
  | placementConflict (id : StrId)
  /-- Flow control: the window should be flushed. -/
  | full (storedBytes max : Nat)
deriving DecidableEq

/-! ## Entries -/

inductive Placement where
  | strings
  | blobs
deriving DecidableEq

inductive HotMark where
  | none
  | soft
  | hard
deriving DecidableEq

/-- Requirements attached to one interning call.  They accumulate per value and
are never withdrawn. -/
structure Requirements where
  blob : Bool := false
  hotHard : Bool := false
  hotSoft : Bool := false
deriving DecidableEq

namespace Requirements

def merge (a b : Requirements) : Requirements :=
  { blob := a.blob || b.blob, hotHard := a.hotHard || b.hotHard,
    hotSoft := a.hotSoft || b.hotSoft }

/-- A strict-hot value that placement sends to `dict.blobs`. -/
def conflicts (req : Requirements) (oversized : Bool) : Bool :=
  req.hotHard && (req.blob || oversized)

end Requirements

/-- One stored value with its accumulated requirements. -/
structure Stored where
  bytes : Bytes
  fullLen : Nat
  fullSha256 : Option (Vector UInt8 32)
  oversized : Bool
  req : Requirements
deriving DecidableEq

namespace Stored

def isBlob (stored : Stored) : Bool := stored.req.blob || stored.oversized

def isHot (stored : Stored) : Bool :=
  !stored.isBlob && (stored.req.hotHard || stored.req.hotSoft)

/-- The entry `tryInsert` builds for a value that is not stored yet. -/
def ofValue (hashes : Hashes) (limits : DictLimits) (bytes : Bytes) (req : Requirements) :
    Stored :=
  let truncated := bytes.length > limits.truncateLimit
  { bytes := if truncated then bytes.take limits.truncateLimit else bytes
    fullLen := bytes.length
    fullSha256 := if truncated then some (hashes.sha256 bytes) else none
    oversized := limits.oversized bytes
    req := req }

end Stored

/-- Snapshot used by the writer when it flushes a dictionary window. -/
structure EntrySnapshot where
  strId : StrId
  storedBytes : Bytes
  fullLen : Nat
  truncated : Bool
  fullSha256 : Option (Vector UInt8 32)
  placement : Placement
  hot : HotMark
  blobRequired : Bool
deriving DecidableEq

structure BlobEntry where
  strId : StrId
  storedBytes : Bytes
  fullLen : Nat
  truncated : Bool
  fullSha256 : Option (Vector UInt8 32)
deriving DecidableEq

inductive Resolved where
  | str (bytes : Bytes)
  | blob (entry : BlobEntry)
deriving DecidableEq

/-- Current dictionary sizes. -/
@[ext]
structure DictStats where
  stringCount : Nat := 0
  blobCount : Nat := 0
  truncatedBlobCount : Nat := 0
  hotCount : Nat := 0
  stringBytes : Nat := 0
  blobBytes : Nat := 0
deriving DecidableEq

def idOrCollision (hashed : Option StrId) : Except DictError StrId :=
  match hashed with
  | some id => .ok id
  | none => .error (.collision 0)

/-! ## The dictionaries of one segment -/

structure SegmentDicts where
  limits : DictLimits
  entries : Std.TreeMap StrId Stored
  /-- Total stored bytes of both dictionaries, held against `maxTotalBytes`. -/
  storedBytes : Nat

namespace SegmentDicts

def new (limits : DictLimits) : SegmentDicts :=
  { limits := limits, entries := ∅, storedBytes := 0 }

/-- Collision check between an existing entry and a value interned again.  For a
truncated entry only the length and the digest are left to compare. -/
def checkSameValue (hashes : Hashes) (id : StrId) (existing : Stored) (bytes : Bytes) :
    Except DictError Unit :=
  let same := existing.fullLen == bytes.length &&
    match existing.fullSha256 with
    | none => existing.bytes == bytes
    | some sha => hashes.sha256 bytes == sha
  if same then .ok () else .error (.collision id.raw)

def tryInsert (hashes : Hashes) (dicts : SegmentDicts) (id : StrId) (bytes : Bytes)
    (req : Requirements) : Except DictError StrId × SegmentDicts :=
  match dicts.entries[id]? with
  | some existing =>
    match checkSameValue hashes id existing bytes with
    | .error problem => (.error problem, dicts)
    | .ok () =>
      let merged := existing.req.merge req
      if merged.conflicts existing.oversized then
        (.error (.placementConflict id), dicts)
      else
        (.ok id, { dicts with
          entries := dicts.entries.modify id fun stored => { stored with req := merged } })
  | none =>
    let oversized := dicts.limits.oversized bytes
    if req.conflicts oversized then
      (.error (.placementConflict id), dicts)
    else
      let storedLen := min bytes.length dicts.limits.truncateLimit
      -- Strict-hot values are exempt from the cap.
      if !req.hotHard && decide
          (saturatingAdd dicts.storedBytes storedLen > dicts.limits.maxTotalBytes) then
        (.error (.full dicts.storedBytes dicts.limits.maxTotalBytes), dicts)
      else
        (.ok id, { dicts with
          storedBytes := dicts.storedBytes + storedLen
          entries := dicts.entries.insert id (Stored.ofValue hashes dicts.limits bytes req) })

def insert (hashes : Hashes) (dicts : SegmentDicts) (bytes : Bytes) (req : Requirements) :
    Except DictError StrId × SegmentDicts :=
  match idOrCollision (StrId.of hashes bytes) with
  | .error problem => (.error problem, dicts)
  | .ok id => dicts.tryInsert hashes id bytes req

def intern (hashes : Hashes) (dicts : SegmentDicts) (bytes : Bytes) :
    Except DictError StrId × SegmentDicts :=
  dicts.insert hashes bytes {}

def internBlob (hashes : Hashes) (dicts : SegmentDicts) (bytes : Bytes) :
    Except DictError StrId × SegmentDicts :=
  dicts.insert hashes bytes { blob := true }

def internHot (hashes : Hashes) (dicts : SegmentDicts) (bytes : Bytes) :
    Except DictError StrId × SegmentDicts :=
  dicts.insert hashes bytes { hotHard := true }

def internHotBestEffort (hashes : Hashes) (dicts : SegmentDicts) (bytes : Bytes) :
    Except DictError (StrId × Bool) × SegmentDicts :=
  match dicts.insert hashes bytes { hotSoft := true } with
  | (.error problem, after) => (.error problem, after)
  | (.ok id, after) => (.ok (id, (after.entries[id]?).any Stored.isHot), after)

def blobEntry (id : StrId) (stored : Stored) : BlobEntry :=
  { strId := id, storedBytes := stored.bytes, fullLen := stored.fullLen
    truncated := stored.fullSha256.isSome, fullSha256 := stored.fullSha256 }

def resolve (dicts : SegmentDicts) (id : StrId) : Option Resolved :=
  (dicts.entries[id]?).map fun stored =>
    if stored.isBlob then .blob (blobEntry id stored) else .str stored.bytes

def len (dicts : SegmentDicts) : Nat := dicts.entries.size

/-- The rows of `dict.strings`, in id order. -/
def strings (dicts : SegmentDicts) : List (StrId × Bytes) :=
  (dicts.entries.toList.filter fun entry => !entry.2.isBlob).map fun entry =>
    (entry.1, entry.2.bytes)

def blobs (dicts : SegmentDicts) : List BlobEntry :=
  (dicts.entries.toList.filter fun entry => entry.2.isBlob).map fun entry =>
    blobEntry entry.1 entry.2

def hotStrings (dicts : SegmentDicts) : List (StrId × Bytes) :=
  (dicts.entries.toList.filter fun entry => entry.2.isHot).map fun entry =>
    (entry.1, entry.2.bytes)

def snapshot (id : StrId) (stored : Stored) : EntrySnapshot :=
  { strId := id
    storedBytes := stored.bytes
    fullLen := stored.fullLen
    truncated := stored.fullSha256.isSome
    fullSha256 := stored.fullSha256
    placement := if stored.isBlob then .blobs else .strings
    hot := if stored.req.hotHard then .hard else if stored.req.hotSoft then .soft else .none
    blobRequired := stored.req.blob }

def snapshots (dicts : SegmentDicts) : List EntrySnapshot :=
  dicts.entries.toList.map fun entry => snapshot entry.1 entry.2

/-- One iteration of the loop in `stats`. -/
def countEntry (stats : DictStats) (stored : Stored) : DictStats :=
  let storedLen := stored.bytes.length
  if stored.isBlob then
    { stats with
      blobCount := stats.blobCount + 1
      truncatedBlobCount := stats.truncatedBlobCount + stored.fullSha256.isSome.toNat
      blobBytes := stats.blobBytes + storedLen }
  else
    { stats with
      stringCount := stats.stringCount + 1
      stringBytes := stats.stringBytes + storedLen
      hotCount := if stored.isHot then stats.hotCount + 1 else stats.hotCount }

def stats (dicts : SegmentDicts) : DictStats :=
  dicts.entries.foldl (fun stats _ stored => countEntry stats stored) {}

end SegmentDicts

end Kronika.Format
