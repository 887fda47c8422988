/-
Per-segment string interner.

The interner has two stores: the window, with the full bytes of values first seen
since the previous flush, and the flushed entries, compact records for ids that
are already in the journal.  Strict-hot values stay pinned and enter every window,
and a stronger requirement on a flushed value puts the value into the window
again.
-/
import Kronika.Format.Dictionary

namespace Kronika.Writer

open Format

/-- Value metadata kept after the bytes have been written to the journal. -/
structure Flushed where
  fullLen : Nat
  check : Vector UInt8 16
  blobRequired : Bool
  hotHard : Bool
  hotSoft : Bool
deriving DecidableEq

namespace Flushed

def req (flushed : Flushed) : Requirements :=
  { blob := flushed.blobRequired, hotHard := flushed.hotHard, hotSoft := flushed.hotSoft }

def withReq (flushed : Flushed) (req : Requirements) : Flushed :=
  { flushed with blobRequired := req.blob, hotHard := req.hotHard, hotSoft := req.hotSoft }

/-- Whether `bytes` is the value this entry was created from (`matches` in the source). -/
def isSame (hashes : Hashes) (flushed : Flushed) (bytes : Bytes) : Bool :=
  flushed.fullLen == bytes.length && check16 hashes bytes == flushed.check

def placement (flushed : Flushed) (limits : DictLimits) : Placement :=
  if flushed.blobRequired || decide (flushed.fullLen ≥ limits.blobThreshold) then .blobs
  else .strings

def hot (flushed : Flushed) : HotMark :=
  if flushed.hotHard then .hard else if flushed.hotSoft then .soft else .none

end Flushed

def statsForFlushed (entry : Flushed) (limits : DictLimits) : DictStats :=
  let storedLen := min entry.fullLen limits.truncateLimit
  match entry.placement limits with
  | .blobs =>
    { blobCount := 1
      truncatedBlobCount := (decide (entry.fullLen > limits.truncateLimit)).toNat
      blobBytes := storedLen }
  | .strings =>
    { stringCount := 1
      hotCount := (decide (entry.hot ≠ HotMark.none)).toNat
      stringBytes := storedLen }

def addStats (stats added : DictStats) : DictStats :=
  { stringCount := stats.stringCount + added.stringCount
    blobCount := stats.blobCount + added.blobCount
    truncatedBlobCount := stats.truncatedBlobCount + added.truncatedBlobCount
    hotCount := stats.hotCount + added.hotCount
    stringBytes := stats.stringBytes + added.stringBytes
    blobBytes := stats.blobBytes + added.blobBytes }

def removeStats (stats removed : DictStats) : DictStats :=
  { stringCount := stats.stringCount - removed.stringCount
    blobCount := stats.blobCount - removed.blobCount
    truncatedBlobCount := stats.truncatedBlobCount - removed.truncatedBlobCount
    hotCount := stats.hotCount - removed.hotCount
    stringBytes := stats.stringBytes - removed.stringBytes
    blobBytes := stats.blobBytes - removed.blobBytes }

structure Interner where
  window : SegmentDicts
  flushed : Std.TreeMap StrId Flushed
  flushedStats : DictStats
  hotPinned : Std.TreeMap StrId Bytes

namespace Interner

def new (limits : DictLimits) : Interner :=
  { window := SegmentDicts.new limits, flushed := ∅, flushedStats := {}, hotPinned := ∅ }

def limits (interner : Interner) : DictLimits := interner.window.limits

/-- Keeps the flushed record in step with an accepted upgrade. -/
def recordFlushedBits (interner : Interner) (id : StrId) (merged : Requirements) : Interner :=
  match interner.flushed[id]? with
  | none => interner
  | some previous =>
    { interner with
      flushed := interner.flushed.insert id (previous.withReq merged)
      flushedStats := addStats
        (removeStats interner.flushedStats (statsForFlushed previous interner.limits))
        (statsForFlushed (previous.withReq merged) interner.limits) }

/-- The calls of `applyToWindow` that follow a successful `intern`, one for each
flag.  Requirements accumulate inside the window. -/
def flagCalls (hashes : Hashes) (window : SegmentDicts) (id : StrId) (bytes : Bytes)
    (req : Requirements) : Except DictError (StrId × Bool) × SegmentDicts :=
  match if req.blob then window.internBlob hashes bytes else (.ok id, window) with
  | (.error problem, window) => (.error problem, window)
  | (.ok _, window) =>
    match if req.hotHard then window.internHot hashes bytes else (.ok id, window) with
    | (.error problem, window) => (.error problem, window)
    | (.ok _, window) =>
      if req.hotSoft then
        match window.internHotBestEffort hashes bytes with
        | (.error problem, window) => (.error problem, window)
        | (.ok (_, hot), window) => (.ok (id, hot), window)
      else
        (.ok (id, req.hotHard), window)

def windowCalls (hashes : Hashes) (window : SegmentDicts) (bytes : Bytes)
    (req : Requirements) : Except DictError (StrId × Bool) × SegmentDicts :=
  match window.intern hashes bytes with
  | (.error problem, window) => (.error problem, window)
  | (.ok id, window) => flagCalls hashes window id bytes req

def applyToWindow (hashes : Hashes) (interner : Interner) (id : StrId) (bytes : Bytes)
    (req : Requirements) : Except DictError (StrId × Bool) × Interner :=
  -- A request with several flags must not fail halfway.
  if req.conflicts (interner.limits.oversized bytes) then
    (.error (.placementConflict id), interner)
  else
    match windowCalls hashes interner.window bytes req with
    | (result, window) => (result, { interner with window := window })

/-- The branch of `request` for a value that is flushed and not in the window. -/
def requestFlushed (hashes : Hashes) (interner : Interner) (id : StrId) (flushed : Flushed)
    (bytes : Bytes) (req : Requirements) : Except DictError (StrId × Bool) × Interner :=
  if !flushed.isSame hashes bytes then
    (.error (.collision id.raw), interner)
  else
    let merged := flushed.req.merge req
    let oversized := decide (flushed.fullLen ≥ interner.limits.blobThreshold)
    if merged.conflicts oversized then
      (.error (.placementConflict id), interner)
    else
      let placementIsBlob := merged.blob || oversized
      -- Placement and the strict hot mark are rebuilt from the part dictionaries
      -- after a crash, so a change of either has to reach the next part.
      let durableUpgrade := merged.blob != flushed.blobRequired ||
        merged.hotHard != flushed.hotHard
      let softBecameEffective := merged.hotSoft != flushed.hotSoft && !placementIsBlob
      if durableUpgrade then
        match interner.applyToWindow hashes id bytes merged with
        | (.error problem, interner) => (.error problem, interner)
        | (.ok result, interner) => (.ok result, interner.recordFlushedBits id merged)
      else
        let interner :=
          if softBecameEffective then interner.recordFlushedBits id merged else interner
        (.ok (id, (merged.hotHard || merged.hotSoft) && !placementIsBlob), interner)

def request (hashes : Hashes) (interner : Interner) (bytes : Bytes) (req : Requirements) :
    Except DictError (StrId × Bool) × Interner :=
  match StrId.of hashes bytes with
  | none => (.error (.collision 0), interner)
  | some id =>
    if (interner.window.resolve id).isSome then
      interner.applyToWindow hashes id bytes req
    else
      match interner.flushed[id]? with
      | some flushed => interner.requestFlushed hashes id flushed bytes req
      | none => interner.applyToWindow hashes id bytes req

def intern (hashes : Hashes) (interner : Interner) (bytes : Bytes) :
    Except DictError StrId × Interner :=
  match interner.request hashes bytes {} with
  | (result, interner) => (result.map Prod.fst, interner)

def internBlob (hashes : Hashes) (interner : Interner) (bytes : Bytes) :
    Except DictError StrId × Interner :=
  match interner.request hashes bytes { blob := true } with
  | (result, interner) => (result.map Prod.fst, interner)

def internHot (hashes : Hashes) (interner : Interner) (bytes : Bytes) :
    Except DictError StrId × Interner :=
  match interner.request hashes bytes { hotHard := true } with
  | (.error problem, interner) => (.error problem, interner)
  | (.ok (id, _), interner) =>
    (.ok id, { interner with hotPinned := interner.hotPinned.insertIfNew id bytes })

def internHotBestEffort (hashes : Hashes) (interner : Interner) (bytes : Bytes) :
    Except DictError (StrId × Bool) × Interner :=
  interner.request hashes bytes { hotSoft := true }

/-- The compact record kept for one entry of a flushed window. -/
def flushedOf (hashes : Hashes) (snap : EntrySnapshot) : Flushed :=
  { fullLen := snap.fullLen
    check := match snap.fullSha256 with
      | none => check16 hashes snap.storedBytes
      | some digest => first16 digest
    blobRequired := snap.blobRequired
    hotHard := decide (snap.hot = HotMark.hard)
    hotSoft := decide (snap.hot = HotMark.soft) }

/-- One iteration of the loop of `flushWindow` over the entries of the window. -/
def flushEntry (hashes : Hashes) (limits : DictLimits)
    (state : Std.TreeMap StrId Flushed × DictStats) (snap : EntrySnapshot) :
    Std.TreeMap StrId Flushed × DictStats :=
  let value := flushedOf hashes snap
  let stats := match state.1[snap.strId]? with
    | some previous => removeStats state.2 (statsForFlushed previous limits)
    | none => state.2
  (state.1.insert snap.strId value, addStats stats (statsForFlushed value limits))

/-- The pinned values enter a fresh window; `intern_hot` on it is not checked. -/
def repin (hashes : Hashes) (window : SegmentDicts) (pinned : List Bytes) : SegmentDicts :=
  pinned.foldl (fun window bytes => (window.internHot hashes bytes).2) window

/-- What follows a successful `write` in `flushWindow`. -/
def afterFlush (hashes : Hashes) (interner : Interner) : Interner :=
  let state := interner.window.snapshots.foldl (flushEntry hashes interner.limits)
    (interner.flushed, interner.flushedStats)
  { interner with
    flushed := state.1
    flushedStats := state.2
    window := repin hashes (SegmentDicts.new interner.limits)
      (interner.hotPinned.toList.map Prod.snd) }

/-- Flush the current window to the journal.  `write` is the callback; what it
stores outside the interner is its result. -/
def flushWindow {ε ω : Type} (hashes : Hashes) (write : SegmentDicts → Except ε ω)
    (interner : Interner) : Except ε (Nat × ω) × Interner :=
  match write interner.window with
  | .error problem => (.error problem, interner)
  | .ok written => (.ok (interner.window.len, written), interner.afterFlush hashes)

/-- One iteration of the loop in `stats`: a window entry that is also flushed has
been counted twice. -/
def uncountFlushed (interner : Interner) (stats : DictStats) (snap : EntrySnapshot) :
    DictStats :=
  match interner.flushed[snap.strId]? with
  | some previous => removeStats stats (statsForFlushed previous interner.limits)
  | none => stats

def stats (interner : Interner) : DictStats :=
  interner.window.snapshots.foldl interner.uncountFlushed
    (addStats interner.flushedStats interner.window.stats)

end Interner

end Kronika.Writer
