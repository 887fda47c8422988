/-
Range selection and predecessor discovery from one captured scan.

A scan knows a finished segment by the summary of its catalog, and opens the file
only when it is selected.  The file may have changed in between, which its identity
tells.  The warnings of a scan pass through unread and are left out.
-/
import Mathlib.Data.Finset.Sort
import Mathlib.Data.Prod.Lex
import Kronika.Reader.Segments

namespace Kronika.Reader

open Format Store

inductive Bound where
  | unbounded
  | included (ts : Int64)
  | excluded (ts : Int64)
deriving DecidableEq

structure TimeRange where
  start : Bound
  stop : Bound
deriving DecidableEq

/-- What opening a finished segment finds: the identity of the file before and after its
bytes were read. -/
structure OpenedFile where
  before : FileIdentity
  bytes : Bytes
  after : FileIdentity

/-- The data directory at the time of the listing. -/
structure LocalDir where
  zms : SegmentId → Option OpenedFile
  activeJournal : Option Bytes

structure LocalScan where
  finished : List FinalUnit
  sorted : finished.Pairwise fun a b => a.id.value < b.id.value
  active : List ActivePart
  validLen : Nat

inductive ReaderError where
  | notFound (id : SegmentId)
  | changed (id : SegmentId)
  | zms (problem : ZmsError)
  | active (problem : SnapshotError)
deriving DecidableEq

/-! ## Ranges -/

def checkedAdd (a b : Int64) : Option Int64 :=
  if a.toInt + b.toInt = (a + b).toInt then some (a + b) else none

def checkedSub (a b : Int64) : Option Int64 :=
  if a.toInt - b.toInt = (a - b).toInt then some (a - b) else none

theorem le_max_right (a b : Int64) : b ≤ max a b := by
  show b ≤ if a ≤ b then b else a
  split
  · exact Std.le_refl b
  · next h => exact Std.le_of_lt (Std.not_le.mp h)

theorem min_le_left (a b : Int64) : min a b ≤ a := by
  show (if a ≤ b then a else b) ≤ a
  split
  · exact Std.le_refl a
  · next h => exact Std.le_of_lt (Std.not_le.mp h)

namespace TimeRange

/-- The first instant of a range, if it has one. -/
def first (range : TimeRange) : Option Int64 :=
  match range.start with
  | .unbounded => some Int64.minValue
  | .included start => some start
  | .excluded start => checkedAdd start 1

/-- The last instant of a range, if it has one. -/
def last (range : TimeRange) : Option Int64 :=
  match range.stop with
  | .unbounded => some Int64.maxValue
  | .included stop => some stop
  | .excluded stop => checkedSub stop 1

def overlaps (range : TimeRange) (minTs maxTs : Int64) : Bool :=
  match range.first with
  | none => false
  | some start =>
    match range.last with
    | none => false
    | some stop => max minTs start ≤ min maxTs stop

def beforeStart (range : TimeRange) (maxTs : Int64) : Bool :=
  match range.start with
  | .unbounded => false
  | .included start => maxTs < start
  | .excluded start => maxTs ≤ start

theorem overlaps_eq_false {range : TimeRange} {minTs maxTs : Int64}
    (h : range.beforeStart maxTs = true) : range.overlaps minTs maxTs = false := by
  have hshort : ∀ start stop : Int64, maxTs < start → ¬max minTs start ≤ min maxTs stop := by
    intro start stop hlt hle
    have hstart : start ≤ maxTs :=
      Std.le_trans (le_max_right minTs start) (Std.le_trans hle (min_le_left maxTs stop))
    exact Std.not_le.mpr hlt hstart
  rw [beforeStart] at h
  rw [overlaps]
  have hfirst : ∀ start, range.first = some start → maxTs < start := by
    intro start hfirst
    rw [first] at hfirst
    cases hbound : range.start with
    | unbounded => simp only [hbound, Bool.false_eq_true] at h
    | included bound =>
      simp only [hbound, decide_eq_true_eq, Option.some.injEq] at h hfirst
      rwa [← hfirst]
    | excluded bound =>
      simp only [hbound, decide_eq_true_eq] at h hfirst
      rw [checkedAdd] at hfirst
      by_cases hsum : bound.toInt + (1 : Int64).toInt = (bound + 1).toInt
      · rw [if_pos hsum] at hfirst
        obtain rfl := Option.some.inj hfirst
        rw [Int64.lt_iff_toInt_lt]
        have hone : (1 : Int64).toInt = 1 := rfl
        have hle := Int64.le_iff_toInt_le.mp h
        omega
      · rw [if_neg hsum] at hfirst
        exact absurd hfirst (by simp)
  cases hstart : range.first with
  | none => rfl
  | some start =>
    cases range.last with
    | none => rfl
    | some stop => exact decide_eq_false (hshort start stop (hfirst start hstart))

end TimeRange

/-! ## Opening -/

section Listing

variable (crc32c : Checksum) (dir : LocalDir) (scan : LocalScan) (range : TimeRange)

def unitRef (unit : FinalUnit) (catalog : Catalog) : SegmentRef :=
  { source := .finished unit, segmentId := unit.id, minTs := unit.summary.minTs
    maxTs := unit.summary.maxTs, capturedBytes := unit.identity.len
    sections := sectionsOf [catalog] }

def snapshotRef (snapshot : ActiveSnapshot) (minTs maxTs : Int64) : SegmentRef :=
  { source := .active snapshot, segmentId := snapshot.segmentId, minTs := minTs, maxTs := maxTs
    capturedBytes := scan.validLen, sections := sectionsOf (snapshot.parts.map (·.catalog)) }

/-- The file of a finished segment must be the scanned one before and after the read. -/
def openFinished (unit : FinalUnit) : Except ReaderError SegmentRef :=
  match dir.zms unit.id with
  | none => .error (.notFound unit.id)
  | some file =>
    if file.before ≠ unit.identity then .error (.changed unit.id)
    else
      match readCatalog crc32c file.bytes with
      | .error problem => .error (.zms problem)
      | .ok catalog =>
        if file.after ≠ unit.identity then .error (.changed unit.id)
        else .ok (unitRef unit catalog)

def openFinishedUnits : List FinalUnit → Except ReaderError (List SegmentRef)
  | [] => .ok []
  | unit :: units =>
    match openFinished crc32c dir unit with
    | .error problem => .error problem
    | .ok segment =>
      match openFinishedUnits units with
      | .error problem => .error problem
      | .ok segments => .ok (segment :: segments)

def openActive : Except ReaderError (Option ActiveSnapshot) :=
  match openActiveSnapshot crc32c dir.activeJournal scan.active scan.validLen with
  | .error problem => .error (.active problem)
  | .ok snapshot => .ok snapshot

/-! ## Selection -/

def LocalScan.activeId : Option SegmentId := scan.active.head?.map (·.segmentId)

def LocalScan.finishedExists : Bool :=
  scan.activeId.any fun activeId => scan.finished.any (·.id = activeId)

/-- The active segment and its bounds, unless it is finished already. -/
def LocalScan.canonicalActive : Option (SegmentId × Int64 × Int64) :=
  if scan.finishedExists then none
  else
    match scan.activeId with
    | none => none
    | some id => (activeBounds scan.active).map fun bounds => (id, bounds)

/-- A segment that ends before a range. -/
structure Candidate where
  maxTs : Int64
  id : SegmentId
  /-- The finished segment, and none for the active one. -/
  unit : Option FinalUnit

def Candidate.key (candidate : Candidate) : Int ×ₗ Int :=
  toLex (candidate.maxTs.toInt, candidate.id.value.toInt)

def candidates : List Candidate :=
  ((scan.finished.filter fun unit => range.beforeStart unit.summary.maxTs).map fun unit =>
      { maxTs := unit.summary.maxTs, id := unit.id, unit := some unit }) ++
    ((scan.canonicalActive.filter fun active => range.beforeStart active.2.2).map fun active =>
      { maxTs := active.2.2, id := active.1, unit := none }).toList

/-- The candidate with the greatest key, and the last of several. -/
def latest : List Candidate → Option Candidate
  | [] => none
  | candidate :: rest =>
    match latest rest with
    | none => some candidate
    | some other => if other.key < candidate.key then some candidate else some other

inductive ListingMode where
  | catalog
  | catalogWithPredecessor
deriving DecidableEq

def predecessorId (mode : ListingMode) : Option SegmentId :=
  match mode with
  | .catalog => none
  | .catalogWithPredecessor => (latest (candidates scan range)).map (·.id)

def sortById (segments : List SegmentRef) : List SegmentRef :=
  segments.mergeSort fun a b => a.segmentId.value ≤ b.segmentId.value

def listSegments (mode : ListingMode) : Except ReaderError (List SegmentRef) :=
  let predecessor := predecessorId scan range mode
  let selected := scan.finished.filter fun unit =>
    range.overlaps unit.summary.minTs unit.summary.maxTs || predecessor = some unit.id
  match openFinishedUnits crc32c dir selected with
  | .error problem => .error problem
  | .ok segments =>
    let finishedIsCanonical :=
      scan.activeId.any fun activeId => segments.any (·.segmentId = activeId)
    match scan.canonicalActive.filter fun active =>
        !finishedIsCanonical &&
          (range.overlaps active.2.1 active.2.2 || predecessor = some active.1) with
    | none => .ok (sortById segments)
    | some active =>
      match openActive crc32c dir scan with
      | .error problem => .error problem
      | .ok none => .ok (sortById segments)
      | .ok (some snapshot) =>
        .ok (sortById (segments ++ [snapshotRef scan snapshot active.2.1 active.2.2]))

/-! ## Predecessors by type -/

/-- Opens one candidate, unless its summary excludes every type that is still wanted. -/
def openCandidate (remaining : Finset Nat) (candidate : Candidate) :
    Except ReaderError (Option SegmentRef) :=
  match candidate.unit with
  | some unit =>
    if unit.summary.mayContainAnyNonemptyType (remaining.sort (· ≤ ·)) then
      match openFinished crc32c dir unit with
      | .error problem => .error problem
      | .ok segment => .ok (some segment)
    else .ok none
  | none =>
    match openActive crc32c dir scan with
    | .error problem => .error problem
    | .ok none => .ok none
    | .ok (some snapshot) =>
      match activeBounds scan.active with
      | none => .ok none
      | some bounds => .ok (some (snapshotRef scan snapshot bounds.1 bounds.2))

def matchedTypes (remaining : Finset Nat) (segment : SegmentRef) : List Nat :=
  (segment.sections.filter fun found => 0 < found.rows ∧ found.typeId ∈ remaining).map (·.typeId)

def findPredecessors (remaining : Finset Nat) :
    List Candidate → Except ReaderError (List SegmentRef)
  | [] => .ok []
  | candidate :: rest =>
    match openCandidate crc32c dir scan remaining candidate with
    | .error problem => .error problem
    | .ok none => findPredecessors remaining rest
    | .ok (some segment) =>
      let matched := matchedTypes remaining segment
      if matched = [] then findPredecessors remaining rest
      else
        let remaining := remaining.filter (· ∉ matched)
        if remaining = ∅ then .ok [segment]
        else
          match findPredecessors remaining rest with
          | .error problem => .error problem
          | .ok segments => .ok (segment :: segments)

def segmentsWithPredecessorsFor (typeIds : List Nat) : Except ReaderError (List SegmentRef) :=
  match listSegments crc32c dir scan range .catalog with
  | .error problem => .error problem
  | .ok segments =>
    if typeIds.toFinset = ∅ then .ok segments
    else
      let sorted := (candidates scan range).mergeSort fun a b => b.key ≤ a.key
      match findPredecessors crc32c dir scan typeIds.toFinset sorted with
      | .error problem => .error problem
      | .ok predecessors => .ok (sortById (segments ++ predecessors))

end Listing

end Kronika.Reader
