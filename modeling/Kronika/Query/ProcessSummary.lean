/-
The sums of all processes at every moment.

Counters become rates against the row of the same process at the moment before.  What a segment
leaves behind for the next one is the rows of its last moment.
-/
import Mathlib.Logic.Function.Basic
import Kronika.Library.Reordering
import Kronika.Library.SortedEntries
import Kronika.Query.Numbers
import Kronika.Query.Projection

namespace Kronika.Query
namespace Processes

open Library

/-! ## Cells -/

def process : String := "os_process"

def i64Min : Int := -2 ^ 63

def i32Value : Option Cell → Option Int
  | some (.i32 value) => some value
  | _ => none

def i64Value : Option Cell → Option Int
  | some (.i64 value) | some (.ts value) => some value
  | _ => none

def i128Value : Option Cell → Option Int
  | some (.i16 value) | some (.i32 value) | some (.i64 value) | some (.ts value) => some value
  | some (.u32 value) | some (.u64 value) => some value
  | _ => none

def integer (cell : Option Cell) : Option Int := i128Value cell

def timestamp (row : Row) : Option Int := i64Value (row.get "ts")

def pid (row : Row) : Option Int := i32Value (row.get "pid")

def starttime (row : Row) : Option Int := integer (row.get "starttime")

structure Counters where
  utime : Option Int
  stime : Option Int
  rundelayNs : Option Int
  nvcsw : Option Int
  nivcsw : Option Int
  majflt : Option Int
  readBytes : Option Int
  writeBytes : Option Int
  syscr : Option Int
  syscw : Option Int
deriving DecidableEq

def counters (row : Row) : Counters where
  utime := integer (row.get "utime")
  stime := integer (row.get "stime")
  rundelayNs := integer (row.get "rundelay_ns")
  nvcsw := integer (row.get "nvcsw")
  nivcsw := integer (row.get "nivcsw")
  majflt := integer (row.get "majflt")
  readBytes := integer (row.get "read_bytes")
  writeBytes := integer (row.get "write_bytes")
  syscr := integer (row.get "syscr")
  syscw := integer (row.get "syscw")

/-! ## Sums -/

structure ExactSum where
  value : Int
  values : Nat
deriving DecidableEq

def ExactSum.add (sum : ExactSum) : Option Int → ExactSum
  | some value => ⟨sum.value + value, sum.values + 1⟩
  | none => sum

/-- A sum of rates, as the bits of a double. -/
structure RateSum where
  value : Nat
  values : Nat
deriving DecidableEq

structure Summary where
  segmentId : Int
  ticksPerSecond : Option Nat
  processes : Nat
  threads : ExactSum
  runnable : Nat
  postgresql : Option Nat
  utime : RateSum
  stime : RateSum
  rundelayNs : RateSum
  nvcsw : RateSum
  nivcsw : RateSum
  residentKib : ExactSum
  virtualKib : ExactSum
  swapKib : ExactSum
  majflt : RateSum
  readBytes : RateSum
  writeBytes : RateSum
  syscr : RateSum
  syscw : RateSum
deriving DecidableEq

def Summary.default : Summary where
  segmentId := 0
  ticksPerSecond := none
  processes := 0
  threads := ⟨0, 0⟩
  runnable := 0
  postgresql := none
  utime := ⟨0, 0⟩
  stime := ⟨0, 0⟩
  rundelayNs := ⟨0, 0⟩
  nvcsw := ⟨0, 0⟩
  nivcsw := ⟨0, 0⟩
  residentKib := ⟨0, 0⟩
  virtualKib := ⟨0, 0⟩
  swapKib := ⟨0, 0⟩
  majflt := ⟨0, 0⟩
  readBytes := ⟨0, 0⟩
  writeBytes := ⟨0, 0⟩
  syscr := ⟨0, 0⟩
  syscw := ⟨0, 0⟩

/-- `saturating_add(1)` of a `u64`. -/
def increment (count : Nat) : Nat := min (count + 1) (2 ^ 64 - 1)

section Rows

variable (floats : FloatOps)

/-- A rate needs both counters, time between them, and a counter that did not go back. -/
def RateSum.add (sum : RateSum) (current previous : Option Int) (seconds : Option Nat) :
    RateSum :=
  match current, previous, seconds with
  | some current, some previous, some seconds =>
    let delta := current - previous
    if delta < 0 ∨ floats.ge 0 seconds = true then sum
    else
      let rate := floats.div (floats.ofInt delta) seconds
      if floats.isFinite rate then ⟨floats.add sum.value rate, sum.values + 1⟩ else sum
  | _, _, _ => sum

def elapsedSeconds (before current : Int) : Option Nat :=
  let elapsed := current - before
  if elapsed < 2 ^ 63 ∧ 0 < elapsed then
    some (floats.div (floats.ofInt elapsed) (floats.ofInt 1000000))
  else none

def addRow (summary : Summary) (row : Row) (current : Counters) (previous : Option Counters)
    (seconds : Option Nat) : Summary :=
  { summary with
    processes := increment summary.processes
    threads := summary.threads.add (integer (row.get "num_threads"))
    runnable := if i128Value (row.get "state") = some ('R'.toNat : Int) then
      increment summary.runnable else summary.runnable
    residentKib := summary.residentKib.add (integer (row.get "rmem_kb"))
    virtualKib := summary.virtualKib.add (integer (row.get "vmem_kb"))
    swapKib := summary.swapKib.add (integer (row.get "vswap_kb"))
    utime := summary.utime.add floats current.utime (previous.bind (·.utime)) seconds
    stime := summary.stime.add floats current.stime (previous.bind (·.stime)) seconds
    rundelayNs :=
      summary.rundelayNs.add floats current.rundelayNs (previous.bind (·.rundelayNs)) seconds
    nvcsw := summary.nvcsw.add floats current.nvcsw (previous.bind (·.nvcsw)) seconds
    nivcsw := summary.nivcsw.add floats current.nivcsw (previous.bind (·.nivcsw)) seconds
    majflt := summary.majflt.add floats current.majflt (previous.bind (·.majflt)) seconds
    readBytes :=
      summary.readBytes.add floats current.readBytes (previous.bind (·.readBytes)) seconds
    writeBytes :=
      summary.writeBytes.add floats current.writeBytes (previous.bind (·.writeBytes)) seconds
    syscr := summary.syscr.add floats current.syscr (previous.bind (·.syscr)) seconds
    syscw := summary.syscw.add floats current.syscw (previous.bind (·.syscw)) seconds }

end Rows

/-! ## Moments -/

/-- The moments with the segments that have them first, and the last moment of every segment. -/
structure MomentScan where
  moments : List (Int × Int)
  lastBySegment : List (Int × Int)

/-- The moment before every moment, and the last moment of every segment. -/
structure MomentIndex where
  previous : List (Int × Int)
  lastBySegment : List (Int × Int)

def visitMoment (id : Int) (scan : MomentScan) (row : Row) : MomentScan :=
  match timestamp row with
  | none => scan
  | some ts =>
    { moments := insertEntry ts (·.getD id) scan.moments
      lastBySegment := insertEntry id (fun last => last.elim ts (max · ts)) scan.lastBySegment }

def previousMoments (moments : List (Int × Int)) : List (Int × Int) :=
  (moments.map Prod.fst).zip (i64Min :: moments.map Prod.fst)

/-- The rows of the layouts of a section, one layout after the other. -/
def sectionRows (registry : Registry) (name : String) (segment : Segment) : List Row :=
  (segment.layouts.filter fun layout => registry.logicalSectionName layout.1 = some name).flatMap
    (·.2)

def processMoments (registry : Registry) (segments : List Segment) : MomentIndex :=
  let scan := segments.foldl (fun scan segment =>
    (sectionRows registry process segment).foldl (visitMoment segment.id) scan) ⟨[], []⟩
  ⟨previousMoments scan.moments, scan.lastBySegment⟩

/-! ## Summaries -/

structure Previous where
  ts : Int
  starttime : Option Int
  counters : Counters
deriving DecidableEq

/-- The summaries by their moments, and the last rows by their processes. -/
structure Progress where
  out : Int → Option Summary
  state : Int → Option Previous

/-- The processes of the last activity snapshot of a segment that is not later.  The snapshots
stand in the order of their keys. -/
def activityPids (activities : List ((Int × Int) × List Int)) (id ts : Int) :
    Option (List Int) :=
  ((activities.filter fun entry => entry.1.1 = id && entry.1.2 ≤ ts).getLast?).map Prod.snd

/-- What is the same for all rows of a segment. -/
structure SegmentFacts where
  id : Int
  shared : Bool
  ticksPerSecond : Option Nat

section Visit

variable (floats : FloatOps) (registry : Registry) (index : MomentIndex)
  (activities : List ((Int × Int) × List Int))

def ticksPerSecond (segment : Segment) : Option Nat :=
  (segment.layouts.filter fun layout =>
    registry.logicalSectionName layout.1 = some "instance_metadata").findSome? fun layout =>
      layout.2.head?.bind fun row =>
        (i128Value (row.get "clock_ticks_per_sec")).bind fun value =>
          let ticks := floats.ofInt value
          if floats.gt ticks 0 then some ticks else none

/-- The row that rates are counted from: the same process at the moment before. -/
def predecessor (before : Option Previous) (expected : Int) (starttime : Option Int) :
    Option Previous :=
  (before.filter fun stored => stored.ts = expected && stored.starttime = starttime).filter
    (·.starttime.isSome)

def visitSummary (facts : SegmentFacts) (summary : Summary) (row : Row) (ts rowPid : Int)
    (before : Option Previous) : Summary :=
  let pids := activityPids activities facts.id ts
  let postgresql := if facts.shared && pids.isSome then some (summary.postgresql.getD 0)
    else summary.postgresql
  let added := addRow floats
    { summary with
      segmentId := facts.id, ticksPerSecond := facts.ticksPerSecond, postgresql := postgresql }
    row (counters row) (before.map (·.counters))
    (before.bind fun stored => elapsedSeconds floats stored.ts ts)
  if facts.shared && pids.any (rowPid ∈ ·) then
    { added with postgresql := some (increment (added.postgresql.getD 0)) }
  else added

def visitRow (facts : SegmentFacts) (progress : Progress) (row : Row) : Progress :=
  match timestamp row, pid row with
  | some ts, some rowPid =>
    let before := progress.state rowPid
    if before.any (ts ≤ ·.ts) then progress
    else
      let expected := (index.previous.lookup ts).getD i64Min
      let summary := visitSummary floats activities facts
        ((progress.out ts).getD Summary.default) row ts rowPid
        (predecessor before expected (starttime row))
      { out := Function.update progress.out ts (some summary)
        state := Function.update progress.state rowPid
          (some ⟨ts, starttime row, counters row⟩) }
  | _, _ => progress

variable (shared : Segment → Bool)

def visitSegment (progress : Progress) (segment : Segment) : Progress :=
  match index.lastBySegment.lookup segment.id with
  | none => progress
  | some last =>
    let facts : SegmentFacts :=
      ⟨segment.id, shared segment, ticksPerSecond floats registry segment⟩
    let visited := (sectionRows registry process segment).foldl
      (visitRow floats index activities facts) progress
    { visited with state := fun rowPid => (visited.state rowPid).filter (·.ts = last) }

def summaries (segments : List Segment) : Int → Option Summary :=
  (segments.foldl (visitSegment floats registry index activities shared)
    ⟨fun _ => none, fun _ => none⟩).out

end Visit

/-- The summaries of a request, with the snapshots of the activity that it has read. -/
def streamSummaries (floats : FloatOps) (registry : Registry)
    (activities : List ((Int × Int) × List Int)) (shared : Segment → Bool)
    (segments : List Segment) : Int → Option Summary :=
  summaries floats registry (processMoments registry segments) activities shared segments

end Processes
end Kronika.Query
