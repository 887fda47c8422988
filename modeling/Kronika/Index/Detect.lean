/-
The findings that compare a counter with an earlier sample of it.

A builder keeps the latest samples of the counters.  Prior segments only move them on; the target
segment moves them on and is searched on the way.  The rules of a row alone (memory, mounts, slow
queries, locks, log events) and the load rule keep no sample and are left out, and so is the window
of the prior segments.
-/
import Kronika.Index.Series
import Kronika.Library.Adjacent
import Kronika.Library.SortedEntries
import Kronika.Library.Visiting
import Kronika.Query.Rows
import Mathlib.Data.List.Sort

namespace Kronika.Index

open Library

abbrev Segment := Query.Segment
abbrev Row := Query.Row

def osCpu : Nat := 1102001
def osLoadavg : Nat := 1105001
def osVmstat : Nat := 1106001
def pgStatArchiver : Nat := 1008001
def osCgroupMemoryV1 : Nat := 1202001
def osCgroupMemoryV2 : Nat := 1202002
def osCgroupMemoryV3 : Nat := 1202003
def osCgroupContext : Nat := 1205002

def databaseLayouts : List Nat := [1005001, 1005002, 1005003, 1005004]
def cgroupMemoryLayouts : List Nat := [osCgroupMemoryV1, osCgroupMemoryV2, osCgroupMemoryV3]

def cpuIdleField : UInt16 := 5
def oomKillField : UInt16 := 11
def databaseDeadlocksField : UInt16 := 16
def frozenXidAgeField : UInt16 := 20
def minMxidAgeField : UInt16 := 21
def checksumFailuresField : UInt16 := 25
def sessionsFatalField : UInt16 := 32
def sessionsKilledField : UInt16 := 33
def archiverFailedCountField : UInt16 := 4
def wraparoundAgeThreshold : Int := 1600000000

/-- The second layout has `shmem` before `oom_kill`. -/
def cgroupOomKillField (typeId : Nat) : UInt16 := if typeId = osCgroupMemoryV1 then 12 else 13

def hasChecksum (typeId : Nat) : Bool := 1005002 ≤ typeId && typeId ≤ 1005004
def hasSessions (typeId : Nat) : Bool := typeId == 1005003 || typeId == 1005004

/-! ## Samples -/

structure CpuRaw where
  timestamp : Int
  counters : List Int
deriving DecidableEq

/-- The host CPUs of a timestamp. -/
structure CpuSnapshot where
  aggregate : Option (Nat × CpuRaw)
  online : Nat
deriving DecidableEq

/-- The identity of the selected group, the timestamp and the counter. -/
abbrev CgroupOomSample := Option Nat × Int × Option Int

structure FindingBuilder where
  requested : List Nat
  cpuBefore : Option CpuRaw
  oomBefore : Option (Int × Option Int)
  archiverBefore : Option (Int × Int)
  deadlocksBefore : Nat × Nat → Option (Int × Int)
  checksumFailuresBefore : Nat × Nat → Option (Int × Option Int)
  sessionsBefore : Nat × Nat → Option (Int × Int × Int)
  cgroupOomBefore : Nat × Nat → Option (Int × Int)
  cgroupOomV3Before : Option CgroupOomSample

def FindingBuilder.new (requested : List SeriesKey) : FindingBuilder where
  requested := ((requested.filter fun key => key.kind = .findings ∧ findingLayout key.typeId).map
    fun key => key.typeId.toNat)
  cpuBefore := none
  oomBefore := none
  archiverBefore := none
  deadlocksBefore := fun _ => none
  checksumFailuresBefore := fun _ => none
  sessionsBefore := fun _ => none
  cgroupOomBefore := fun _ => none
  cgroupOomV3Before := none

def optionalI64 : Option Query.Cell → Option Int
  | some (.i64 value) => some value
  | _ => none

/-- `u32::try_from` of the ordinal of a row. -/
def rowOrdinalOf (ordinal : Nat) : Option Nat := if ordinal < 2 ^ 32 then some ordinal else none

def knownBad (fieldOrdinal : UInt16) (rowOrdinal : Nat) (timestamp : Int) : Finding where
  kind := .knownBad
  category := none
  fieldOrdinal := fieldOrdinal
  rowOrdinal := UInt32.ofNat rowOrdinal
  timestamp := Int64.ofInt timestamp

def everyRow (segment : Segment) (typeId : Nat) : List (Nat × Row) :=
  numbered 0 (segment.rows typeId)

def cpuCounters : List String :=
  ["user", "nice", "system", "idle", "iowait", "irq", "softirq", "steal"]

def cpuRaw (row : Row) : Option CpuRaw :=
  match row.get "ts" with
  | some (.ts timestamp) =>
    (cpuCounters.mapM fun name => optionalI64 (row.get name)).map fun counters =>
      { timestamp := timestamp, counters := counters }
  | _ => none

def cpuBusyAtLeast80 (before current : CpuRaw) : Bool :=
  if current.timestamp ≤ before.timestamp then false
  else
    let deltas := List.zipWith (fun after before : Int => after - before) current.counters
      before.counters
    if deltas.any (· < 0) then false
    else
      let busy := deltas.getD 0 0 + deltas.getD 1 0 + deltas.getD 2 0 + deltas.getD 5 0 +
        deltas.getD 6 0 + deltas.getD 7 0
      let total := deltas.foldl (· + ·) 0
      0 < total && total * 80 ≤ busy * 100

/-- The latest identity of the selected group that is recorded up to a timestamp. -/
def identityAt (identities : List (Int × Option Nat)) (timestamp : Int) : Option (Option Nat) :=
  ((identities.filter fun entry => entry.1 ≤ timestamp).getLast?).map Prod.snd

/-- The memory identities of the contexts by timestamp, with the names that the dictionary has. -/
def cgroupIdentities (segment : Segment) : List (Int × Option Nat) :=
  if (segment.rowsOf osCgroupContext).isNone then []
  else
    let rows := (segment.rows osCgroupContext).foldl
      (fun entries row =>
        match row.get "ts" with
        | some (.ts timestamp) =>
          let identity : Option Nat :=
            match row.get "memory_identity" with
            | some (.strId id) => some id
            | _ => none
          insertEntry timestamp (fun _ => identity) entries
        | _ => entries) []
    rows.map fun entry => (entry.1, entry.2.filter fun id =>
      match segment.dictionary id with
      | some (.str _) => true
      | _ => false)

/-- The samples of the selected groups, by timestamp and ordinal.  The section is sorted by path
first, and the selected path can change. -/
def selectedOomSamples (segment : Segment) : List (Int × Nat × Option Int) :=
  ((everyRow segment osCgroupMemoryV3).filterMap fun item =>
    match item.2.get "ts" with
    | some (.ts timestamp) => some (timestamp, item.1, optionalI64 (item.2.get "oom_kill"))
    | _ => none).insertionSort fun a b => a.1 < b.1 ∨ a.1 = b.1 ∧ a.2.1 ≤ b.2.1

/-- Compares adjacent samples; a missing identity or counter breaks the continuity. -/
def cgroupOomIncreased (before : Option CgroupOomSample) (identity : Option (Option Nat))
    (timestamp : Int) (counter : Option Int) : Option CgroupOomSample × Bool :=
  let counter := counter.filter (0 ≤ ·)
  let increased :=
    match before, identity, counter with
    | some (beforeId, beforeTs, some beforeValue), some id, some value =>
      decide (id = beforeId) && decide (beforeTs < timestamp) && decide (beforeValue < value)
    | _, _, _ => false
  (identity.map fun id => (id, timestamp, counter), increased)

/-! ## Prior segments -/

namespace FindingBuilder

def observeCpuRow (cpuBefore : Option CpuRaw) (row : Row) : Option CpuRaw :=
  if row.get "scope" = some (.u32 0) ∧ row.get "cpu_id" = some (.i32 (-1)) then
    match cpuRaw row with
    | some raw => some raw
    | none => cpuBefore
  else cpuBefore

def observePriorCpu (builder : FindingBuilder) (segment : Segment) : FindingBuilder :=
  if (segment.rowsOf osCpu).isNone then builder
  else { builder with cpuBefore := (segment.rows osCpu).foldl observeCpuRow builder.cpuBefore }

def observeOomRow (oomBefore : Option (Int × Option Int)) (row : Row) :
    Option (Int × Option Int) :=
  match row.get "scope", row.get "ts" with
  | some (.u32 0), some (.ts timestamp) => some (timestamp, optionalI64 (row.get "oom_kill"))
  | _, _ => oomBefore

def observePriorOom (builder : FindingBuilder) (segment : Segment) : FindingBuilder :=
  if (segment.rowsOf osVmstat).isNone then builder
  else { builder with oomBefore := (segment.rows osVmstat).foldl observeOomRow builder.oomBefore }

def observeArchiverRow (archiverBefore : Option (Int × Int)) (row : Row) : Option (Int × Int) :=
  match row.get "ts", row.get "failed_count" with
  | some (.ts timestamp), some (.i64 failedCount) => some (timestamp, failedCount)
  | _, _ => archiverBefore

def observePriorArchiver (builder : FindingBuilder) (segment : Segment) : FindingBuilder :=
  if (segment.rowsOf pgStatArchiver).isNone then builder
  else
    { builder with
      archiverBefore :=
        (segment.rows pgStatArchiver).foldl observeArchiverRow builder.archiverBefore }

def observeDatabaseRow (typeId : Nat) (builder : FindingBuilder) (row : Row) : FindingBuilder :=
  match row.get "ts", row.get "datid", row.get "deadlocks" with
  | some (.ts timestamp), some (.u32 datid), some (.i64 deadlocks) =>
    let key := (typeId, datid)
    { builder with
      deadlocksBefore := Function.update builder.deadlocksBefore key (some (timestamp, deadlocks))
      checksumFailuresBefore :=
        if hasChecksum typeId then
          Function.update builder.checksumFailuresBefore key
            (some (timestamp, optionalI64 (row.get "checksum_failures")))
        else builder.checksumFailuresBefore
      sessionsBefore :=
        match hasSessions typeId, row.get "sessions_fatal", row.get "sessions_killed" with
        | true, some (.i64 fatal), some (.i64 killed) =>
          Function.update builder.sessionsBefore key (some (timestamp, fatal, killed))
        | _, _, _ => builder.sessionsBefore }
  | _, _, _ => builder

def observePriorDatabaseCounters (builder : FindingBuilder) (segment : Segment) (typeId : Nat) :
    FindingBuilder :=
  if (segment.rowsOf typeId).isNone then builder
  else (segment.rows typeId).foldl (observeDatabaseRow typeId) builder

def observeCgroupRow (typeId : Nat) (cgroupOomBefore : Nat × Nat → Option (Int × Int))
    (row : Row) : Nat × Nat → Option (Int × Int) :=
  match row.get "ts", row.get "cgroup_path", row.get "oom_kill" with
  | some (.ts timestamp), some (.strId cgroupPath), some (.i64 oomKill) =>
    Function.update cgroupOomBefore (typeId, cgroupPath) (some (timestamp, oomKill))
  | _, _, _ => cgroupOomBefore

def observePriorCgroupOom (builder : FindingBuilder) (segment : Segment)
    (identities : List (Int × Option Nat)) (typeId : Nat) : FindingBuilder :=
  if (segment.rowsOf typeId).isNone then builder
  else if typeId = osCgroupMemoryV3 then
    { builder with
      cgroupOomV3Before := (selectedOomSamples segment).foldl
        (fun before sample =>
          (cgroupOomIncreased before (identityAt identities sample.1) sample.1 sample.2.2).1)
        builder.cgroupOomV3Before }
  else
    { builder with
      cgroupOomBefore :=
        (segment.rows typeId).foldl (observeCgroupRow typeId) builder.cgroupOomBefore }

/-- The identities are read only where the selected groups are asked for. -/
def identities (builder : FindingBuilder) (segment : Segment) : List (Int × Option Nat) :=
  if builder.requested.contains osCgroupMemoryV3 then cgroupIdentities segment else []

def observePrior (builder : FindingBuilder) (segment : Segment) : FindingBuilder :=
  let builder :=
    if builder.requested.contains osCpu then builder.observePriorCpu segment else builder
  let builder :=
    if builder.requested.contains osVmstat then builder.observePriorOom segment else builder
  let builder :=
    if builder.requested.contains pgStatArchiver then builder.observePriorArchiver segment
    else builder
  let builder := databaseLayouts.foldl
    (fun builder typeId =>
      if builder.requested.contains typeId then
        builder.observePriorDatabaseCounters segment typeId
      else builder) builder
  let identities := builder.identities segment
  cgroupMemoryLayouts.foldl
    (fun builder typeId =>
      if builder.requested.contains typeId then
        builder.observePriorCgroupOom segment identities typeId
      else builder) builder

/-! ## The target segment -/

end FindingBuilder

abbrev Hits := Nat → List Finding

def Hits.extend (hits : Hits) (typeId : Nat) (found : List Finding) : Hits :=
  Function.update hits typeId (hits typeId ++ found)

namespace FindingBuilder

/-- The snapshot of a timestamp with one more row of it. -/
def joinSnapshot (item : Nat × Row) (entry : Option CpuSnapshot) : CpuSnapshot :=
  let snapshot := entry.getD { aggregate := none, online := 0 }
  match item.2.get "cpu_id" with
  | some (.i32 cpuId) =>
    if cpuId = -1 then
      match cpuRaw item.2, rowOrdinalOf item.1 with
      | some raw, some rowOrdinal => { snapshot with aggregate := some (rowOrdinal, raw) }
      | _, _ => snapshot
    else if 0 ≤ cpuId then { snapshot with online := min (snapshot.online + 1) (2 ^ 32 - 1) }
    else snapshot
  | _ => snapshot

def cpuSnapshotRow (snapshots : List (Int × CpuSnapshot)) (item : Nat × Row) :
    List (Int × CpuSnapshot) :=
  match item.2.get "ts" with
  | some (.ts timestamp) =>
    if item.2.get "scope" = some (.u32 0) then
      insertEntry timestamp (joinSnapshot item) snapshots
    else snapshots
  | _ => snapshots

def cpuSnapshots (segment : Segment) : List (Int × CpuSnapshot) :=
  (everyRow segment osCpu).foldl cpuSnapshotRow []

def findCpuSample (cpuBefore : Option CpuRaw) (rowOrdinal : Nat) (current : CpuRaw) :
    Option CpuRaw × List Finding :=
  (some current,
    if cpuBefore.any (cpuBusyAtLeast80 · current) then
      [knownBad cpuIdleField rowOrdinal current.timestamp]
    else [])

def findCpuAndOnlineCount (builder : FindingBuilder) (segment : Segment) (hits : Hits) :
    FindingBuilder × Hits :=
  if (segment.rowsOf osCpu).isNone ∨
      ¬ (builder.requested.contains osCpu ∨ builder.requested.contains osLoadavg) then
    (builder, hits)
  else if builder.requested.contains osCpu then
    let found := visit findCpuSample builder.cpuBefore
      ((cpuSnapshots segment).filterMap fun entry => entry.2.aggregate)
    ({ builder with cpuBefore := found.1 }, hits.extend osCpu found.2)
  else (builder, hits)

def findOomRow (oomBefore : Option (Int × Option Int)) (ordinal : Nat) (row : Row) :
    Option (Int × Option Int) × List Finding :=
  match row.get "ts", row.get "scope" with
  | some (.ts timestamp), some (.u32 0) =>
    let current := optionalI64 (row.get "oom_kill")
    (some (timestamp, current),
      match oomBefore, current, rowOrdinalOf ordinal with
      | some (beforeTs, some before), some after, some rowOrdinal =>
        if beforeTs < timestamp ∧ before < after then
          [knownBad oomKillField rowOrdinal timestamp]
        else []
      | _, _, _ => [])
  | _, _ => (oomBefore, [])

def findOom (builder : FindingBuilder) (segment : Segment) (hits : Hits) :
    FindingBuilder × Hits :=
  if ¬ builder.requested.contains osVmstat ∨ (segment.rowsOf osVmstat).isNone then
    (builder, hits)
  else
    let found := visit findOomRow builder.oomBefore (everyRow segment osVmstat)
    ({ builder with oomBefore := found.1 }, hits.extend osVmstat found.2)

def findArchiverRow (archiverBefore : Option (Int × Int)) (ordinal : Nat) (row : Row) :
    Option (Int × Int) × List Finding :=
  match row.get "ts", row.get "failed_count" with
  | some (.ts timestamp), some (.i64 failedCount) =>
    (some (timestamp, failedCount),
      match archiverBefore, rowOrdinalOf ordinal with
      | some (beforeTs, before), some rowOrdinal =>
        if beforeTs < timestamp ∧ before < failedCount then
          [knownBad archiverFailedCountField rowOrdinal timestamp]
        else []
      | _, _ => [])
  | _, _ => (archiverBefore, [])

def findArchiverFailures (builder : FindingBuilder) (segment : Segment) (hits : Hits) :
    FindingBuilder × Hits :=
  if ¬ builder.requested.contains pgStatArchiver ∨ (segment.rowsOf pgStatArchiver).isNone then
    (builder, hits)
  else
    let found := visit findArchiverRow builder.archiverBefore (everyRow segment pgStatArchiver)
    ({ builder with archiverBefore := found.1 }, hits.extend pgStatArchiver found.2)

def crossesWraparoundAge (age : Int) : Bool := wraparoundAgeThreshold ≤ age

def wraparoundFindings (row : Row) (rowOrdinal : Nat) (timestamp : Int) : List Finding :=
  (if (optionalI64 (row.get "frozen_xid_age")).any crossesWraparoundAge then
    [knownBad frozenXidAgeField rowOrdinal timestamp] else []) ++
  if (optionalI64 (row.get "min_mxid_age")).any crossesWraparoundAge then
    [knownBad minMxidAgeField rowOrdinal timestamp] else []

def checkDeadlocks (builder : FindingBuilder) (key : Nat × Nat) (rowOrdinal : Nat)
    (timestamp deadlocks : Int) : FindingBuilder × List Finding :=
  ({ builder with
      deadlocksBefore :=
        Function.update builder.deadlocksBefore key (some (timestamp, deadlocks)) },
    match builder.deadlocksBefore key with
    | some (beforeTs, before) =>
      if beforeTs < timestamp ∧ before < deadlocks then
        [knownBad databaseDeadlocksField rowOrdinal timestamp]
      else []
    | none => [])

def checkChecksumFailures (builder : FindingBuilder) (key : Nat × Nat) (rowOrdinal : Nat)
    (timestamp : Int) (row : Row) : FindingBuilder × List Finding :=
  let current := optionalI64 (row.get "checksum_failures")
  ({ builder with
      checksumFailuresBefore :=
        Function.update builder.checksumFailuresBefore key (some (timestamp, current)) },
    match builder.checksumFailuresBefore key, current with
    | some (beforeTs, some before), some after =>
      if beforeTs < timestamp ∧ before < after then
        [knownBad checksumFailuresField rowOrdinal timestamp]
      else []
    | _, _ => [])

def checkSessions (builder : FindingBuilder) (key : Nat × Nat) (rowOrdinal : Nat)
    (timestamp : Int) (row : Row) : FindingBuilder × List Finding :=
  match row.get "sessions_fatal", row.get "sessions_killed" with
  | some (.i64 fatal), some (.i64 killed) =>
    ({ builder with
        sessionsBefore := Function.update builder.sessionsBefore key
          (some (timestamp, fatal, killed)) },
      match builder.sessionsBefore key with
      | some (beforeTs, beforeFatal, beforeKilled) =>
        if beforeTs < timestamp then
          (if beforeFatal < fatal then [knownBad sessionsFatalField rowOrdinal timestamp]
            else []) ++
            if beforeKilled < killed then [knownBad sessionsKilledField rowOrdinal timestamp]
            else []
        else []
      | none => [])
  | _, _ => (builder, [])

def findDatabaseRow (typeId : Nat) (builder : FindingBuilder) (ordinal : Nat) (row : Row) :
    FindingBuilder × List Finding :=
  match row.get "ts", row.get "datid", row.get "deadlocks", rowOrdinalOf ordinal with
  | some (.ts timestamp), some (.u32 datid), some (.i64 deadlocks), some rowOrdinal =>
    let key := (typeId, datid)
    let ages := wraparoundFindings row rowOrdinal timestamp
    let checked := builder.checkDeadlocks key rowOrdinal timestamp deadlocks
    let summed :=
      if hasChecksum typeId then checked.1.checkChecksumFailures key rowOrdinal timestamp row
      else (checked.1, [])
    let sessions :=
      if hasSessions typeId then summed.1.checkSessions key rowOrdinal timestamp row
      else (summed.1, [])
    (sessions.1, ages ++ checked.2 ++ summed.2 ++ sessions.2)
  | _, _, _, _ => (builder, [])

def findDatabaseCounters (builder : FindingBuilder) (segment : Segment) (typeId : Nat)
    (hits : Hits) : FindingBuilder × Hits :=
  if ¬ builder.requested.contains typeId ∨ (segment.rowsOf typeId).isNone then (builder, hits)
  else
    let found := visit (findDatabaseRow typeId) builder (everyRow segment typeId)
    (found.1, hits.extend typeId found.2)

def findCgroupRow (typeId : Nat) (cgroupOomBefore : Nat × Nat → Option (Int × Int))
    (ordinal : Nat) (row : Row) : (Nat × Nat → Option (Int × Int)) × List Finding :=
  match row.get "ts", row.get "cgroup_path", row.get "oom_kill" with
  | some (.ts timestamp), some (.strId cgroupPath), some (.i64 oomKill) =>
    let key := (typeId, cgroupPath)
    (Function.update cgroupOomBefore key (some (timestamp, oomKill)),
      match cgroupOomBefore key, rowOrdinalOf ordinal with
      | some (beforeTs, before), some rowOrdinal =>
        if beforeTs < timestamp ∧ before < oomKill then
          [knownBad (cgroupOomKillField typeId) rowOrdinal timestamp]
        else []
      | _, _ => [])
  | _, _, _ => (cgroupOomBefore, [])

def findSelectedSample (identities : List (Int × Option Nat)) (before : Option CgroupOomSample)
    (ordinal : Nat) (sample : Int × Option Int) : Option CgroupOomSample × List Finding :=
  let compared := cgroupOomIncreased before (identityAt identities sample.1) sample.1 sample.2
  (compared.1,
    match compared.2, rowOrdinalOf ordinal with
    | true, some rowOrdinal =>
      [knownBad (cgroupOomKillField osCgroupMemoryV3) rowOrdinal sample.1]
    | _, _ => [])

def findCgroupOom (builder : FindingBuilder) (segment : Segment)
    (identities : List (Int × Option Nat)) (typeId : Nat) (hits : Hits) :
    FindingBuilder × Hits :=
  if (segment.rowsOf typeId).isNone then (builder, hits)
  else if typeId = osCgroupMemoryV3 then
    let found := visit (findSelectedSample identities) builder.cgroupOomV3Before
      ((selectedOomSamples segment).map fun sample => (sample.2.1, (sample.1, sample.2.2)))
    ({ builder with cgroupOomV3Before := found.1 }, hits.extend typeId found.2)
  else
    let found := visit (findCgroupRow typeId) builder.cgroupOomBefore (everyRow segment typeId)
    ({ builder with cgroupOomBefore := found.1 }, hits.extend typeId found.2)

/-- The part of `finish` that finds what the counters have to say.  What the other rules find is
kept under other layouts. -/
def findCounters (builder : FindingBuilder) (segment : Segment) : FindingBuilder × Hits :=
  let found := builder.findCpuAndOnlineCount segment fun _ => []
  let found := found.1.findOom segment found.2
  let found := found.1.findArchiverFailures segment found.2
  let found := databaseLayouts.foldl
    (fun (found : FindingBuilder × Hits) typeId =>
      if found.1.requested.contains typeId then
        found.1.findDatabaseCounters segment typeId found.2
      else found) found
  let identities := found.1.identities segment
  cgroupMemoryLayouts.foldl
    (fun (found : FindingBuilder × Hits) typeId =>
      if found.1.requested.contains typeId then
        found.1.findCgroupOom segment identities typeId found.2
      else found) found

end FindingBuilder

/-- What the counters of a segment have to say behind the prior segments. -/
def counterFindings (requested : List SeriesKey) (priors : List Segment) (target : Segment) :
    Hits :=
  ((priors.foldl FindingBuilder.observePrior (FindingBuilder.new requested)).findCounters target).2

end Kronika.Index
