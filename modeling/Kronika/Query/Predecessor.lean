/-
The search for the current and the previous moment before an instant.

The search goes through the earlier segments, the latest first, and stops where the
catalogs say that nothing below can matter.  Sections partitioned by database are
searched for each database alone.  The moments of the plain search are kept as a
function of the layout, on the layouts of the search.
-/
import Mathlib.Data.List.AList
import Mathlib.Data.Finset.Basic
import Kronika.Library.Integers
import Kronika.Library.TopTwo
import Kronika.Query.Rows

namespace Kronika.Query

open Library

/-- The timestamps of samples and the ids of the segments that hold them. -/
abbrev RetainedMoments := Moments Int Int

structure ContributingMoments where
  moments : Moments Int Int
  pinned : Bool

def ContributingMoments.default : ContributingMoments := { moments := .empty, pinned := false }

structure SectionPlans where
  logicalName : String
  plans : List Plan

/-- The column that partitions a section in time, if it is partitioned. -/
def temporalPartition (logicalName : String) : Option String :=
  if logicalName = "pg_stat_user_tables" ∨ logicalName = "pg_stat_user_indexes" then some "datid"
  else none

/-- The name of a section before its layouts were merged. -/
def legacy (logicalName : String) : Option String :=
  if logicalName = "os_cgroup_v2_cpu" then some "os_cgroup_cpu"
  else if logicalName = "os_cgroup_v2_memory" then some "os_cgroup_memory"
  else if logicalName = "os_cgroup_v2_io" then some "os_cgroup_io"
  else if logicalName = "os_cgroup_v2_pids" then some "os_cgroup_pids"
  else none

structure RequestFilter where
  column : String
  value : String

abbrev Opener := DatasetSegment → Except QueryError Segment

def recordRetainedMoment (moments : RetainedMoments) (sample : Moment Int Int) :
    RetainedMoments :=
  moments.record sample

/-- A pinned search keeps its current moment, whatever later samples it meets. -/
def recordContributingMoment (moments : ContributingMoments) (instant segmentId : Int) :
    ContributingMoments :=
  if moments.pinned && moments.moments.current.any (·.ts < instant) then moments
  else { moments with moments := moments.moments.record { ts := instant, sources := {segmentId} } }

/-- Segments that may hold earlier samples of one of the layouts, the latest first. -/
def candidatesBefore (anchor : DatasetSegment) (segments : List DatasetSegment)
    (compatible : List Nat) (instant : Int) : List DatasetSegment :=
  ((segments.filter fun candidate => candidate.id < anchor.id && candidate.minTs ≤ instant).filter
      fun candidate => candidate.sections.any fun found => found.typeId ∈ compatible).mergeSort
    fun a b => b.maxTs < a.maxTs || (b.maxTs = a.maxTs && b.id ≤ a.id)

def sortByIdDescending (segments : List DatasetSegment) : List DatasetSegment :=
  segments.mergeSort fun a b => b.id ≤ a.id

/-! ## Plain sections -/

section Plain

def searchedLayouts (sections : List SectionPlans) (latest : Bool) : List (Nat × String) :=
  ((sections.filter fun found => (temporalPartition found.logicalName).isNone).flatMap fun found =>
      (found.plans.filter fun plan =>
        plan.applies || latest || (legacy found.logicalName).isSome).filterMap fun plan =>
          plan.timestamp.map fun timestamp => (plan.typeId, timestamp))

def layoutMap (sections : List SectionPlans) (latest : Bool) : List (Nat × String) :=
  ((searchedLayouts sections latest).foldl
    (fun (layouts : Std.TreeMap Nat String) layout => layouts.insert layout.1 layout.2) ∅).toList

variable (instant : Int)

def scanLayout (segment : Segment) (moments : Nat → ContributingMoments)
    (layout : Nat × String) : Nat → ContributingMoments :=
  -- This layout cannot gain a newer sample, though another one may.
  if ((moments layout.1).moments.previous.any fun previous => segment.maxTs < previous.ts) then
    moments
  else if (segment.rowsOf layout.1).isNone then moments
  else
    (segment.rows layout.1).foldl
      (fun moments row =>
        match rowTimestamp row layout.2 with
        | some stored =>
          if stored ≤ instant then
            Function.update moments layout.1
              (recordContributingMoment (moments layout.1) stored segment.id)
          else moments
        | none => moments)
      moments

def scanContributingMoments (segment : Segment) (layouts : List (Nat × String))
    (pinCurrent : Bool) (moments : Nat → ContributingMoments) : Nat → ContributingMoments :=
  let scanned := layouts.foldl (scanLayout instant segment) moments
  if pinCurrent then
    fun typeId => { scanned typeId with pinned := (scanned typeId).moments.current.isSome }
  else scanned

/-- Whether no candidate that ends at `maxTs` can change any layout. -/
def settled (layouts : List (Nat × String)) (moments : Nat → ContributingMoments)
    (maxTs : Int) : Bool :=
  layouts.all fun layout => (moments layout.1).moments.previous.any fun previous =>
    maxTs < previous.ts

def searchCandidates (openSegment : Opener) (layouts : List (Nat × String)) :
    List DatasetSegment → (Nat → ContributingMoments) →
      Except QueryError (Nat → ContributingMoments)
  | [], moments => .ok moments
  | candidate :: rest, moments =>
    if settled layouts moments candidate.maxTs then .ok moments
    else
      match openSegment candidate with
      | .error problem => .error problem
      | .ok segment =>
        searchCandidates openSegment layouts rest
          (scanContributingMoments instant segment layouts false moments)

def retainedIds (layouts : List (Nat × String)) (moments : Nat → ContributingMoments) :
    Int → Bool :=
  fun id => layouts.any fun layout =>
    (moments layout.1).moments.current.any (id ∈ ·.sources) ||
      (moments layout.1).moments.previous.any (id ∈ ·.sources)

/-- The earlier segments of a plain search, and the moments it found. -/
def preceding (openSegment : Opener) (anchor : DatasetSegment) (segments : List DatasetSegment)
    (current : Segment) (sections : List SectionPlans) (latest pinCurrent : Bool) :
    Except QueryError (List DatasetSegment × (Nat → ContributingMoments)) :=
  let layouts := layoutMap sections latest
  if layouts = [] then .ok ([], fun _ => .default)
  else
    let candidates := candidatesBefore anchor segments (layouts.map (·.1)) instant
    match searchCandidates instant openSegment layouts candidates
        (scanContributingMoments instant current layouts pinCurrent fun _ => .default) with
    | .error problem => .error problem
    | .ok moments =>
      .ok (sortByIdDescending (candidates.filter fun candidate =>
          candidate.id ≠ anchor.id && retainedIds layouts moments candidate.id), moments)

end Plain

/-! ## Partitioned sections -/

section Partitioned

abbrev PartitionKey := Nat × IdentityCell

abbrev RelationMoments := AList fun _ : PartitionKey => RetainedMoments

def requestedDatid (filters : List RequestFilter) : Option IdentityCell :=
  match filters.find? (·.column = "datid") with
  | none => none
  | some filter => (parseUnsigned 32 filter.value).map IdentityCell.u32

def partitionedPlans (sections : List SectionPlans) : List Plan :=
  (sections.filter fun found => (temporalPartition found.logicalName).isSome).flatMap (·.plans)

def entryOrDefault (moments : RelationMoments) (key : PartitionKey) : RelationMoments :=
  if key ∈ moments then moments else moments.insert key .empty

variable (instant : Int)

/-- One row of a partitioned layout: its partition is discovered, and its moment recorded
when it is not after the instant. -/
def visitPartition (requested : Option IdentityCell) (discover : Bool) (segmentId : Int)
    (typeId : Nat) (timestamp : String) (moments : RelationMoments) (row : Row) :
    RelationMoments :=
  match rowTimestamp row timestamp, row.get "datid" with
  | some stored, some cell =>
    let datid := identityCell cell
    if requested.any (· ≠ datid) then moments
    else
      let known := if discover then entryOrDefault moments (typeId, datid) else moments
      if stored ≤ instant then
        match known.lookup (typeId, datid) with
        | some selected =>
          known.insert (typeId, datid)
            (recordRetainedMoment selected { ts := stored, sources := {segmentId} })
        | none => known
      else known
  | _, _ => moments

def scanPartitionedPlan (requested : Option IdentityCell) (discover : Bool) (segment : Segment)
    (moments : RelationMoments) (plan : Plan) : RelationMoments :=
  if !plan.applies then moments
  else
    match plan.timestamp with
    | none => moments
    | some timestamp =>
      if (segment.rowsOf plan.typeId).isNone then moments
      else
        (segment.rows plan.typeId).foldl
          (visitPartition instant requested discover segment.id plan.typeId timestamp) moments

def scanRelationMoments (segment : Segment) (sections : List SectionPlans)
    (requested : Option IdentityCell) (discover : Bool) (moments : RelationMoments) :
    RelationMoments :=
  (partitionedPlans sections).foldl (scanPartitionedPlan instant requested discover segment)
    moments

def relationSettled (moments : RelationMoments) (maxTs : Int) : Bool :=
  !moments.entries.isEmpty && moments.entries.all fun entry =>
    entry.2.previous.any fun previous => maxTs < previous.ts

def searchRelationCandidates (openSegment : Opener) (sections : List SectionPlans)
    (requested : Option IdentityCell) :
    List DatasetSegment → RelationMoments → Except QueryError RelationMoments
  | [], moments => .ok moments
  | candidate :: rest, moments =>
    if relationSettled moments candidate.maxTs then .ok moments
    else
      match openSegment candidate with
      | .error problem => .error problem
      | .ok segment =>
        searchRelationCandidates openSegment sections requested rest
          (scanRelationMoments instant segment sections requested requested.isNone moments)

/-- A requested database has its moments from the start, in every layout that applies. -/
def requestedMoments (sections : List SectionPlans) (requested : Option IdentityCell) :
    RelationMoments :=
  match requested with
  | none => ∅
  | some datid =>
    (partitionedPlans sections).foldl
      (fun moments plan =>
        if plan.applies && plan.timestamp.isSome then entryOrDefault moments (plan.typeId, datid)
        else moments)
      ∅

def relationRetainedIds (moments : RelationMoments) : Int → Bool :=
  fun id => moments.entries.any fun entry =>
    entry.2.current.any (id ∈ ·.sources) || entry.2.previous.any (id ∈ ·.sources)

def relationPreceding (openSegment : Opener) (anchor : DatasetSegment)
    (segments : List DatasetSegment) (current : Segment) (sections : List SectionPlans)
    (filters : List RequestFilter) : Except QueryError (List DatasetSegment × RelationMoments) :=
  let requested := requestedDatid filters
  let candidates := candidatesBefore anchor segments
    ((partitionedPlans sections).map (·.typeId)) instant
  match searchRelationCandidates instant openSegment sections requested candidates
      (scanRelationMoments instant current sections requested requested.isNone
        (requestedMoments sections requested)) with
  | .error problem => .error problem
  | .ok moments =>
    .ok (sortByIdDescending (candidates.filter fun candidate =>
        candidate.id ≠ anchor.id && relationRetainedIds moments candidate.id), moments)

end Partitioned

end Kronika.Query
