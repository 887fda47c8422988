/-
What the rules of the counters compare.

Every counter reads its samples from the rows of one layout, and every one of them is a rule of
adjacent samples: the visit of the target follows it, and the visits of the prior segments keep
the same latest samples.
-/
import Kronika.Index.Detect

namespace Kronika.Index

open Library

/-- A recorded value of a counter.  The identity is that of the group that was selected, where
groups are selected, and `none` when it is not known. -/
structure Sample where
  identity : Option (Option Nat)
  timestamp : Int
  value : Option Int
deriving DecidableEq

namespace Sample

def recorded (timestamp : Int) (value : Option Int) : Sample :=
  { identity := some none, timestamp := timestamp, value := value }

/-- Both values are known and of the same thing, the second is later and greater. -/
def grown (before sample : Sample) : Bool :=
  before.identity.isSome && decide (before.identity = sample.identity) &&
    decide (before.timestamp < sample.timestamp) &&
    match before.value, sample.value with
    | some earlier, some later => decide (earlier < later)
    | _, _ => false

end Sample

/-- The finding of a sample, if it has grown since the one before. -/
def grownFindings (field : UInt16) (before : Option Sample) (rowOrdinal : Nat) (sample : Sample) :
    List Finding :=
  if before.any (·.grown sample) then [knownBad field rowOrdinal sample.timestamp] else []

variable {field : UInt16} {x : Finding} {before : Option Sample} {sample : Sample}

theorem mem_grownFindings {rowOrdinal : Nat} :
    x ∈ grownFindings field before rowOrdinal sample ↔
      ∃ earlier, before = some earlier ∧ earlier.grown sample = true ∧
        x = knownBad field rowOrdinal sample.timestamp := by
  cases before with
  | none =>
    constructor
    · intro hx
      cases hx
    · rintro ⟨earlier, hbefore, -⟩
      cases hbefore
  | some earlier =>
    rw [grownFindings, Option.any_some]
    constructor
    · intro hx
      by_cases hgrown : earlier.grown sample = true
      · rw [if_pos hgrown, List.mem_singleton] at hx
        exact ⟨earlier, rfl, hgrown, hx⟩
      · rw [if_neg hgrown] at hx
        cases hx
    · rintro ⟨_, hearlier, hgrown, hx⟩
      cases hearlier
      rw [if_pos hgrown, hx]
      exact List.mem_singleton_self _

theorem grownFindings_recorded (field : UInt16) (rowOrdinal : Nat) (timestamp : Int)
    (before : Option (Int × Option Int)) (value : Option Int) :
    grownFindings field (before.map fun b => .recorded b.1 b.2) rowOrdinal
        (.recorded timestamp value) =
      match before, value with
      | some (beforeTs, some earlier), some later =>
        if beforeTs < timestamp ∧ earlier < later then [knownBad field rowOrdinal timestamp] else []
      | _, _ => [] := by
  cases before with
  | none => rfl
  | some b =>
    obtain ⟨beforeTs, earlier⟩ := b
    cases earlier with
    | none => simp [grownFindings, Sample.grown, Sample.recorded]
    | some earlier =>
      cases value with
      | none => simp [grownFindings, Sample.grown, Sample.recorded]
      | some later =>
        have hgrown : (Sample.recorded beforeTs (some earlier)).grown
            (.recorded timestamp (some later)) = true ↔
              beforeTs < timestamp ∧ earlier < later := by
          show (true && true && decide (beforeTs < timestamp) && decide (earlier < later)) = true ↔
            _
          rw [Bool.true_and, Bool.true_and, Bool.and_eq_true, decide_eq_true_iff,
            decide_eq_true_iff]
        exact if_congr hgrown rfl rfl

theorem grownFindings_counted (field : UInt16) (rowOrdinal : Nat) (timestamp later : Int)
    (before : Option (Int × Int)) :
    grownFindings field (before.map fun b => .recorded b.1 (some b.2)) rowOrdinal
        (.recorded timestamp (some later)) =
      match before with
      | some (beforeTs, earlier) =>
        if beforeTs < timestamp ∧ earlier < later then [knownBad field rowOrdinal timestamp] else []
      | none => [] := by
  have h := grownFindings_recorded field rowOrdinal timestamp (before.map fun b => (b.1, some b.2))
    (some later)
  rw [Option.map_map] at h
  rw [show (fun b : Int × Int => Sample.recorded b.1 (some b.2)) =
    (fun b : Int × Option Int => Sample.recorded b.1 b.2) ∘ fun b => (b.1, some b.2) from rfl, h]
  cases before with
  | none => rfl
  | some b => rfl

theorem rowOrdinalOf_of_lt {ordinal : Nat} (h : ordinal < 2 ^ 32) :
    rowOrdinalOf ordinal = some ordinal := if_pos h

/-! ## The rows that are samples -/

def oomSample (row : Row) : Option (Int × Option Int) :=
  match row.get "ts", row.get "scope" with
  | some (.ts timestamp), some (.u32 0) => some (timestamp, optionalI64 (row.get "oom_kill"))
  | _, _ => none

def archiverSample (row : Row) : Option (Int × Int) :=
  match row.get "ts", row.get "failed_count" with
  | some (.ts timestamp), some (.i64 failedCount) => some (timestamp, failedCount)
  | _, _ => none

/-- The database, the timestamp and the deadlocks of a row. -/
def databaseSample (row : Row) : Option (Nat × Int × Int) :=
  match row.get "ts", row.get "datid", row.get "deadlocks" with
  | some (.ts timestamp), some (.u32 datid), some (.i64 deadlocks) =>
    some (datid, timestamp, deadlocks)
  | _, _, _ => none

/-- The sessions of a row that were ended by an error and by an operator. -/
def sessionsSample (row : Row) : Option (Int × Int) :=
  match row.get "sessions_fatal", row.get "sessions_killed" with
  | some (.i64 fatal), some (.i64 killed) => some (fatal, killed)
  | _, _ => none

/-- The group, the timestamp and the kills of a row. -/
def cgroupSample (row : Row) : Option (Nat × Int × Int) :=
  match row.get "ts", row.get "cgroup_path", row.get "oom_kill" with
  | some (.ts timestamp), some (.strId cgroupPath), some (.i64 oomKill) =>
    some (cgroupPath, timestamp, oomKill)
  | _, _, _ => none

variable {row : Row} {ordinal typeId : Nat} {builder : FindingBuilder}

theorem oomSample_eq_some {timestamp : Int} {value : Option Int}
    (h : oomSample row = some (timestamp, value)) :
    row.get "ts" = some (.ts timestamp) ∧ row.get "scope" = some (.u32 0) ∧
      value = optionalI64 (row.get "oom_kill") := by
  unfold oomSample at h
  split at h
  · next hts hscope =>
    cases h
    exact ⟨hts, hscope, rfl⟩
  · cases h

theorem archiverSample_eq_some {timestamp value : Int}
    (h : archiverSample row = some (timestamp, value)) :
    row.get "ts" = some (.ts timestamp) ∧ row.get "failed_count" = some (.i64 value) := by
  unfold archiverSample at h
  split at h
  · next hts hcount =>
    cases h
    exact ⟨hts, hcount⟩
  · cases h

variable {datid : Nat}

theorem databaseSample_eq_some {timestamp deadlocks : Int}
    (h : databaseSample row = some (datid, timestamp, deadlocks)) :
    row.get "ts" = some (.ts timestamp) ∧ row.get "datid" = some (.u32 datid) ∧
      row.get "deadlocks" = some (.i64 deadlocks) := by
  unfold databaseSample at h
  split at h
  · next hts hdatid hdeadlocks =>
    cases h
    exact ⟨hts, hdatid, hdeadlocks⟩
  · cases h

theorem sessionsSample_eq_some {fatal killed : Int}
    (h : sessionsSample row = some (fatal, killed)) :
    row.get "sessions_fatal" = some (.i64 fatal) ∧
      row.get "sessions_killed" = some (.i64 killed) := by
  unfold sessionsSample at h
  split at h
  · next hfatal hkilled =>
    cases h
    exact ⟨hfatal, hkilled⟩
  · cases h

theorem cgroupSample_eq_some {path : Nat} {timestamp value : Int}
    (h : cgroupSample row = some (path, timestamp, value)) :
    row.get "ts" = some (.ts timestamp) ∧ row.get "cgroup_path" = some (.strId path) ∧
      row.get "oom_kill" = some (.i64 value) := by
  unfold cgroupSample at h
  split at h
  · next hts hpath hvalue =>
    cases h
    exact ⟨hts, hpath, hvalue⟩
  · cases h

/-! ## The steps -/

namespace FindingBuilder

theorem observeOomRow_eq (before : Option (Int × Option Int)) (row : Row) :
    observeOomRow before row = (oomSample row).or before := by
  unfold observeOomRow
  split
  · next hscope hts =>
    rw [oomSample, hts, hscope]
    rfl
  · next h =>
    cases hsample : oomSample row with
    | none => rfl
    | some sample =>
      obtain ⟨hts, hscope, -⟩ := oomSample_eq_some hsample
      exact absurd hts (h _ hscope)

theorem findOomRow_eq (before : Option (Int × Option Int)) (hordinal : ordinal < 2 ^ 32) :
    findOomRow before ordinal row =
      (observeOomRow before row,
        ((oomSample row).map fun sample =>
          grownFindings oomKillField (before.map fun b => .recorded b.1 b.2) ordinal
            (.recorded sample.1 sample.2)).getD []) := by
  rw [observeOomRow_eq]
  unfold findOomRow
  split
  · next timestamp hts hscope =>
    have hsample : oomSample row = some (timestamp, optionalI64 (row.get "oom_kill")) := by
      rw [oomSample, hts, hscope]
      rfl
    rw [hsample, rowOrdinalOf_of_lt hordinal]
    show (_, _) = (_, grownFindings _ _ _ _)
    rw [grownFindings_recorded]
    refine Prod.ext rfl ?_
    cases before with
    | none => rfl
    | some b =>
      obtain ⟨beforeTs, earlier⟩ := b
      cases earlier with
      | none => rfl
      | some earlier =>
        cases optionalI64 (row.get "oom_kill") with
        | none => rfl
        | some later => rfl
  · next h =>
    cases hsample : oomSample row with
    | none => rfl
    | some sample =>
      obtain ⟨hts, hscope, -⟩ := oomSample_eq_some hsample
      exact absurd hscope (h _ hts)

theorem observeArchiverRow_eq (before : Option (Int × Int)) (row : Row) :
    observeArchiverRow before row = (archiverSample row).or before := by
  unfold observeArchiverRow
  split
  · next hts hcount =>
    rw [archiverSample, hts, hcount]
    rfl
  · next h =>
    cases hsample : archiverSample row with
    | none => rfl
    | some sample =>
      obtain ⟨hts, hcount⟩ := archiverSample_eq_some hsample
      exact absurd hcount (h _ _ hts)

theorem findArchiverRow_eq (before : Option (Int × Int)) (hordinal : ordinal < 2 ^ 32) :
    findArchiverRow before ordinal row =
      (observeArchiverRow before row,
        ((archiverSample row).map fun sample =>
          grownFindings archiverFailedCountField (before.map fun b => .recorded b.1 (some b.2))
            ordinal (.recorded sample.1 (some sample.2))).getD []) := by
  rw [observeArchiverRow_eq]
  unfold findArchiverRow
  split
  · next timestamp failedCount hts hcount =>
    have hsample : archiverSample row = some (timestamp, failedCount) := by
      rw [archiverSample, hts, hcount]
    rw [hsample, rowOrdinalOf_of_lt hordinal]
    show (_, _) = (_, grownFindings _ _ _ _)
    rw [grownFindings_counted]
    cases before with
    | none => rfl
    | some b => rfl
  · next h =>
    cases hsample : archiverSample row with
    | none => rfl
    | some sample =>
      obtain ⟨hts, hcount⟩ := archiverSample_eq_some hsample
      exact absurd hcount (h _ _ hts)

theorem observeCgroupRow_none {before : Nat × Nat → Option (Int × Int)}
    (h : cgroupSample row = none) : observeCgroupRow typeId before row = before := by
  unfold observeCgroupRow
  split
  · next hts hpath hvalue =>
    rw [cgroupSample, hts, hpath, hvalue] at h
    cases h
  · rfl

theorem observeCgroupRow_some {before : Nat × Nat → Option (Int × Int)} {path : Nat}
    {timestamp value : Int} (h : cgroupSample row = some (path, timestamp, value)) :
    observeCgroupRow typeId before row =
      Function.update before (typeId, path) (some (timestamp, value)) := by
  obtain ⟨hts, hpath, hvalue⟩ := cgroupSample_eq_some h
  rw [observeCgroupRow, hts, hpath, hvalue]

theorem findCgroupRow_eq (before : Nat × Nat → Option (Int × Int)) (hordinal : ordinal < 2 ^ 32) :
    findCgroupRow typeId before ordinal row =
      (observeCgroupRow typeId before row,
        ((cgroupSample row).map fun sample =>
          grownFindings (cgroupOomKillField typeId)
            ((before (typeId, sample.1)).map fun b => .recorded b.1 (some b.2)) ordinal
            (.recorded sample.2.1 (some sample.2.2))).getD []) := by
  cases hsample : cgroupSample row with
  | none =>
    rw [observeCgroupRow_none hsample]
    unfold findCgroupRow
    split
    · next hts hpath hvalue =>
      rw [cgroupSample, hts, hpath, hvalue] at hsample
      cases hsample
    · rfl
  | some sample =>
    obtain ⟨path, timestamp, value⟩ := sample
    obtain ⟨hts, hpath, hvalue⟩ := cgroupSample_eq_some hsample
    rw [observeCgroupRow_some hsample, findCgroupRow, hts, hpath, hvalue,
      rowOrdinalOf_of_lt hordinal]
    show (_, _) = (_, grownFindings _ _ _ _)
    rw [grownFindings_counted]
    cases before (typeId, path) with
    | none => rfl
    | some b => rfl

theorem observeDatabaseRow_none (h : databaseSample row = none) :
    observeDatabaseRow typeId builder row = builder := by
  unfold observeDatabaseRow
  split
  · next hts hdatid hdeadlocks =>
    rw [databaseSample, hts, hdatid, hdeadlocks] at h
    cases h
  · rfl

theorem observeDatabaseRow_some {timestamp deadlocks : Int}
    (h : databaseSample row = some (datid, timestamp, deadlocks)) :
    observeDatabaseRow typeId builder row =
      { builder with
        deadlocksBefore := Function.update builder.deadlocksBefore (typeId, datid)
          (some (timestamp, deadlocks))
        checksumFailuresBefore :=
          if hasChecksum typeId then
            Function.update builder.checksumFailuresBefore (typeId, datid)
              (some (timestamp, optionalI64 (row.get "checksum_failures")))
          else builder.checksumFailuresBefore
        sessionsBefore :=
          if hasSessions typeId then
            match sessionsSample row with
            | some (fatal, killed) =>
              Function.update builder.sessionsBefore (typeId, datid)
                (some (timestamp, fatal, killed))
            | none => builder.sessionsBefore
          else builder.sessionsBefore } := by
  obtain ⟨hts, hdatid, hdeadlocks⟩ := databaseSample_eq_some h
  rw [observeDatabaseRow, hts, hdatid, hdeadlocks]
  cases hhas : hasSessions typeId with
  | false => rfl
  | true =>
    cases hsessions : sessionsSample row with
    | none =>
      dsimp only
      congr 1
      split
      · next hfatal hkilled =>
        rw [sessionsSample, hfatal, hkilled] at hsessions
        cases hsessions
      · rfl
    | some found =>
      obtain ⟨hfatal, hkilled⟩ := sessionsSample_eq_some hsessions
      rw [hfatal, hkilled]
      rfl

variable {key : Nat × Nat}

theorem checkDeadlocks_snd {timestamp deadlocks : Int} :
    (builder.checkDeadlocks key ordinal timestamp deadlocks).2 =
      grownFindings databaseDeadlocksField
        ((builder.deadlocksBefore key).map fun b => .recorded b.1 (some b.2)) ordinal
        (.recorded timestamp (some deadlocks)) := by
  rw [grownFindings_counted]
  rfl

theorem checkChecksumFailures_snd {timestamp : Int} :
    (builder.checkChecksumFailures key ordinal timestamp row).2 =
      grownFindings checksumFailuresField
        ((builder.checksumFailuresBefore key).map fun b => .recorded b.1 b.2) ordinal
        (.recorded timestamp (optionalI64 (row.get "checksum_failures"))) := by
  rw [grownFindings_recorded]
  rfl

/-- What the sessions of a row have to say. -/
def sessionsFindings (before : Option (Int × Int × Int)) (ordinal : Nat) (timestamp : Int)
    (sessions : Int × Int) : List Finding :=
  grownFindings sessionsFatalField (before.map fun b => .recorded b.1 (some b.2.1)) ordinal
      (.recorded timestamp (some sessions.1)) ++
    grownFindings sessionsKilledField (before.map fun b => .recorded b.1 (some b.2.2)) ordinal
      (.recorded timestamp (some sessions.2))

theorem checkSessions_eq {timestamp : Int} :
    builder.checkSessions key ordinal timestamp row =
      match sessionsSample row with
      | some (fatal, killed) =>
        ({ builder with
            sessionsBefore := Function.update builder.sessionsBefore key
              (some (timestamp, fatal, killed)) },
          sessionsFindings (builder.sessionsBefore key) ordinal timestamp (fatal, killed))
      | none => (builder, []) := by
  cases hsessions : sessionsSample row with
  | none =>
    unfold checkSessions
    split
    · next hfatal hkilled =>
      rw [sessionsSample, hfatal, hkilled] at hsessions
      cases hsessions
    · rfl
  | some found =>
    obtain ⟨fatal, killed⟩ := found
    obtain ⟨hfatal, hkilled⟩ := sessionsSample_eq_some hsessions
    rw [checkSessions, hfatal, hkilled]
    refine Prod.ext rfl ?_
    show _ = grownFindings _ _ _ _ ++ grownFindings _ _ _ _
    cases builder.sessionsBefore key with
    | none => rfl
    | some b =>
      obtain ⟨beforeTs, beforeFatal, beforeKilled⟩ := b
      have hfatals := grownFindings_counted sessionsFatalField ordinal timestamp fatal
        (some (beforeTs, beforeFatal))
      have hkills := grownFindings_counted sessionsKilledField ordinal timestamp killed
        (some (beforeTs, beforeKilled))
      rw [Option.map_some] at hfatals hkills ⊢
      rw [Option.map_some, hfatals, hkills]
      by_cases hlater : beforeTs < timestamp
      · simp [hlater]
      · simp [hlater]

/-- What a row of a database has to say, with the latest samples of the builder. -/
def databaseFindings (typeId : Nat) (builder : FindingBuilder) (ordinal : Nat) (row : Row)
    (datid : Nat) (timestamp deadlocks : Int) : List Finding :=
  wraparoundFindings row ordinal timestamp ++
    grownFindings databaseDeadlocksField
      ((builder.deadlocksBefore (typeId, datid)).map fun b => .recorded b.1 (some b.2)) ordinal
      (.recorded timestamp (some deadlocks)) ++
    (if hasChecksum typeId then
      grownFindings checksumFailuresField
        ((builder.checksumFailuresBefore (typeId, datid)).map fun b => .recorded b.1 b.2) ordinal
        (.recorded timestamp (optionalI64 (row.get "checksum_failures")))
    else []) ++
    if hasSessions typeId then
      ((sessionsSample row).map
        (sessionsFindings (builder.sessionsBefore (typeId, datid)) ordinal timestamp)).getD []
    else []

theorem findDatabaseRow_none (h : databaseSample row = none) :
    findDatabaseRow typeId builder ordinal row = (builder, []) := by
  unfold findDatabaseRow
  split
  · next hts hdatid hdeadlocks _ =>
    rw [databaseSample, hts, hdatid, hdeadlocks] at h
    cases h
  · rfl

theorem findDatabaseRow_some {timestamp deadlocks : Int}
    (h : databaseSample row = some (datid, timestamp, deadlocks)) (hordinal : ordinal < 2 ^ 32) :
    findDatabaseRow typeId builder ordinal row =
      (observeDatabaseRow typeId builder row,
        databaseFindings typeId builder ordinal row datid timestamp deadlocks) := by
  obtain ⟨hts, hdatid, hdeadlocks⟩ := databaseSample_eq_some h
  rw [observeDatabaseRow_some h, databaseFindings, findDatabaseRow, hts, hdatid, hdeadlocks,
    rowOrdinalOf_of_lt hordinal]
  dsimp only
  rw [checkDeadlocks_snd]
  cases hsum : hasChecksum typeId with
  | false =>
    cases hhas : hasSessions typeId with
    | false => simp [checkDeadlocks]
    | true =>
      simp only [checkSessions_eq]
      cases sessionsSample row with
      | none => simp [checkDeadlocks]
      | some found => simp [checkDeadlocks]
  | true =>
    cases hhas : hasSessions typeId with
    | false =>
      simp only [if_true, checkChecksumFailures_snd]
      simp [checkDeadlocks, checkChecksumFailures]
    | true =>
      simp only [if_true, checkSessions_eq, checkChecksumFailures_snd]
      cases sessionsSample row with
      | none => simp [checkDeadlocks, checkChecksumFailures]
      | some found => simp [checkDeadlocks, checkChecksumFailures]

end FindingBuilder

/-! ## The counters -/

/-- A counter that is read from the rows of a layout, entity by entity. -/
structure Counter where
  typeId : Nat
  field : UInt16
  read : Row → Option (Nat × Sample)

namespace Counter

def rule (counter : Counter) : Adjacent Row Nat Sample :=
  { read := counter.read, grown := Sample.grown }

def oom : Counter where
  typeId := osVmstat
  field := oomKillField
  read row := (oomSample row).map fun sample => (0, .recorded sample.1 sample.2)

def archiver : Counter where
  typeId := pgStatArchiver
  field := archiverFailedCountField
  read row := (archiverSample row).map fun sample => (0, .recorded sample.1 (some sample.2))

def deadlocks (typeId : Nat) : Counter where
  typeId := typeId
  field := databaseDeadlocksField
  read row := (databaseSample row).map fun sample =>
    (sample.1, .recorded sample.2.1 (some sample.2.2))

def checksumFailures (typeId : Nat) : Counter where
  typeId := typeId
  field := checksumFailuresField
  read row := (databaseSample row).map fun sample =>
    (sample.1, .recorded sample.2.1 (optionalI64 (row.get "checksum_failures")))

/-- The sessions that ended in one of the two ways. -/
def sessions (field : UInt16) (pick : Int × Int → Int) (typeId : Nat) : Counter where
  typeId := typeId
  field := field
  read row := (databaseSample row).bind fun sample => (sessionsSample row).map fun sessions =>
    (sample.1, .recorded sample.2.1 (some (pick sessions)))

def sessionsFatal : Nat → Counter := sessions sessionsFatalField Prod.fst
def sessionsKilled : Nat → Counter := sessions sessionsKilledField Prod.snd

def cgroupOom (typeId : Nat) : Counter where
  typeId := typeId
  field := cgroupOomKillField typeId
  read row := (cgroupSample row).map fun sample =>
    (sample.1, .recorded sample.2.1 (some sample.2.2))

end Counter

theorem own_grownFindings {field other : UInt16} {rowOrdinal : Nat} :
    x ∈ grownFindings field before rowOrdinal sample ∧ x.fieldOrdinal = other ↔
      x ∈ grownFindings field before rowOrdinal sample ∧ field = other := by
  refine and_congr_right fun hx => ?_
  obtain ⟨earlier, -, -, hfound⟩ := mem_grownFindings.mp hx
  rw [hfound]
  exact Iff.rfl

/-- The steps find what has grown for a counter, and what they keep shows its latest samples. -/
abbrev Counter.FollowedBy {α : Type} (counter : Counter) (view : α → Nat → Option Sample)
    (step : α → Nat → Row → α × List Finding) : Prop :=
  counter.rule.Follows (fun state latest => latest = view state) step
    (fun ordinal sample => knownBad counter.field ordinal sample.timestamp)
    (fun x => x.fieldOrdinal = counter.field) (· < 2 ^ 32)

variable {counter : Counter}

theorem follows_of_view {α : Type} {step : α → Nat → Row → α × List Finding}
    (view : α → Nat → Option Sample)
    (hkeeps : ∀ state ordinal row, ordinal < 2 ^ 32 →
      view (step state ordinal row).1 = counter.rule.keep (view state) row)
    (hfinds : ∀ state ordinal row x, ordinal < 2 ^ 32 →
      (x ∈ (step state ordinal row).2 ∧ x.fieldOrdinal = counter.field ↔
        ∃ entity sample, counter.read row = some (entity, sample) ∧
          x ∈ grownFindings counter.field (view state entity) ordinal sample)) :
    counter.FollowedBy view step where
  keeps := by
    intro state latest ordinal row hordinal hlatest
    rw [hkeeps state ordinal row hordinal, hlatest]
  finds := by
    intro state latest ordinal row x hordinal hlatest
    rw [hfinds state ordinal row x hordinal, hlatest]
    constructor
    · rintro ⟨entity, sample, hread, hx⟩
      obtain ⟨before, hbefore, hlater, hfound⟩ := mem_grownFindings.mp hx
      exact ⟨entity, sample, before, hread, hbefore, hlater, hfound⟩
    · rintro ⟨entity, sample, before, hread, hbefore, hlater, hfound⟩
      exact ⟨entity, sample, hread, mem_grownFindings.mpr ⟨before, hbefore, hlater, hfound⟩⟩

/-- A row moves on the latest sample of the entity that it is read for. -/
theorem keep_of_read {latest next : Nat → Option Sample}
    (hnone : counter.read row = none → next = latest)
    (hsome : ∀ entity sample, counter.read row = some (entity, sample) →
      next = Function.update latest entity (some sample)) :
    next = counter.rule.keep latest row := by
  cases hread : counter.read row with
  | none => rw [Adjacent.keep_of_none hread, hnone hread]
  | some item => rw [Adjacent.keep_of_some hread, hsome item.1 item.2 hread]

def single (latest : Option Sample) : Nat → Option Sample :=
  Function.update (fun _ => none) 0 latest

theorem single_zero (latest : Option Sample) : single latest 0 = latest := by
  rw [single, Function.update_self]

theorem update_single (latest : Option Sample) (sample : Sample) :
    Function.update (single latest) 0 (some sample) = single (some sample) := by
  rw [single, single, Function.update_idem]

namespace FindingBuilder

open Counter

variable {S : Type} {read : Row → Option S} {toSample : S → Sample}
  {observe : Option S → Row → Option S} {find : Option S → Nat → Row → Option S × List Finding}

theorem keep_single (hread : ∀ row, counter.read row = (read row).map fun s => (0, toSample s))
    (hobserve : ∀ before row, observe before row = (read row).or before) (before : Option S)
    (row : Row) :
    single ((observe before row).map toSample) =
      counter.rule.keep (single (before.map toSample)) row := by
  rw [hobserve]
  apply keep_of_read
  · intro hnone
    rw [Option.map_eq_none_iff.mp ((hread row).symm.trans hnone)]
    rfl
  · intro entity sample hsome
    obtain ⟨found, hfound, hitem⟩ := Option.map_eq_some_iff.mp ((hread row).symm.trans hsome)
    cases hitem
    rw [hfound, update_single]
    rfl

theorem follows_single (hread : ∀ row, counter.read row = (read row).map fun s => (0, toSample s))
    (hobserve : ∀ before row, observe before row = (read row).or before)
    (hfind : ∀ before ordinal row, ordinal < 2 ^ 32 →
      find before ordinal row = (observe before row,
        ((read row).map fun sample =>
          grownFindings counter.field (before.map toSample) ordinal (toSample sample)).getD [])) :
    counter.FollowedBy (fun before => single (before.map toSample)) find := by
  refine follows_of_view _ ?_ ?_
  · intro before ordinal row hordinal
    rw [hfind before ordinal row hordinal]
    exact keep_single hread hobserve before row
  · intro before ordinal row x hordinal
    rw [hfind before ordinal row hordinal]
    rw [hread]
    cases read row with
    | none => simp
    | some sample =>
      show x ∈ grownFindings _ _ _ _ ∧ _ ↔ _
      rw [own_grownFindings]
      simp [single_zero]

theorem observeOomRow_keep (before : Option (Int × Option Int)) (row : Row) :
    single ((observeOomRow before row).map fun b => .recorded b.1 b.2) =
      oom.rule.keep (single (before.map fun b => .recorded b.1 b.2)) row :=
  keep_single (fun _ => rfl) observeOomRow_eq before row

theorem observeArchiverRow_keep (before : Option (Int × Int)) (row : Row) :
    single ((observeArchiverRow before row).map fun b => .recorded b.1 (some b.2)) =
      archiver.rule.keep (single (before.map fun b => .recorded b.1 (some b.2))) row :=
  keep_single (fun _ => rfl) observeArchiverRow_eq before row

theorem findOomRow_follows :
    oom.FollowedBy (fun before => single (before.map fun b => .recorded b.1 b.2)) findOomRow :=
  follows_single (fun _ => rfl) observeOomRow_eq fun before _ _ h => findOomRow_eq before h

theorem findArchiverRow_follows :
    archiver.FollowedBy (fun before => single (before.map fun b => .recorded b.1 (some b.2)))
      findArchiverRow :=
  follows_single (fun _ => rfl) observeArchiverRow_eq fun before _ _ h =>
    findArchiverRow_eq before h

/-! ## Counters with entities -/

def cgroupView (typeId : Nat) (before : Nat × Nat → Option (Int × Int)) (path : Nat) :
    Option Sample :=
  (before (typeId, path)).map fun b => .recorded b.1 (some b.2)

theorem map_update {V : Type} (f : V → Sample) (map : Nat × Nat → Option V) (typeId entity : Nat)
    (value : V) :
    (fun other => (Function.update map (typeId, entity) (some value) (typeId, other)).map f) =
      Function.update (fun other => (map (typeId, other)).map f) entity (some (f value)) := by
  funext other
  by_cases h : other = entity
  · rw [h, Function.update_self, Function.update_self]
    rfl
  · rw [Function.update_of_ne h, Function.update_of_ne fun he => h (Prod.ext_iff.mp he).2]

theorem observeCgroupRow_keep (before : Nat × Nat → Option (Int × Int)) (row : Row) :
    cgroupView typeId (observeCgroupRow typeId before row) =
      (cgroupOom typeId).rule.keep (cgroupView typeId before) row := by
  apply keep_of_read
  · intro hread
    rw [observeCgroupRow_none (Option.map_eq_none_iff.mp hread)]
  · intro entity sample hread
    obtain ⟨⟨path, timestamp, value⟩, hsample, hitem⟩ := Option.map_eq_some_iff.mp hread
    cases hitem
    rw [observeCgroupRow_some hsample]
    exact map_update _ _ typeId path (timestamp, value)

theorem findCgroupRow_follows :
    (cgroupOom typeId).FollowedBy (cgroupView typeId) (findCgroupRow typeId) := by
  refine follows_of_view _ ?_ ?_
  · intro before ordinal row hordinal
    rw [findCgroupRow_eq before hordinal]
    exact observeCgroupRow_keep before row
  · intro before ordinal row x hordinal
    rw [findCgroupRow_eq before hordinal]
    show _ ↔ ∃ entity sample, (cgroupSample row).map _ = _ ∧ _
    cases cgroupSample row with
    | none => simp
    | some sample =>
      show x ∈ grownFindings _ _ _ _ ∧ _ ↔ _
      rw [own_grownFindings]
      simp [cgroupView, cgroupOom]

theorem field_of_mem
    (h : x ∈ grownFindings field before ordinal sample) : x.fieldOrdinal = field := by
  obtain ⟨earlier, -, -, hfound⟩ := mem_grownFindings.mp h
  rw [hfound]
  rfl

theorem field_of_wraparound {timestamp : Int} (h : x ∈ wraparoundFindings row ordinal timestamp) :
    x.fieldOrdinal = frozenXidAgeField ∨ x.fieldOrdinal = minMxidAgeField := by
  rw [wraparoundFindings, List.mem_append] at h
  rcases h with h | h
  · split at h
    · rw [List.mem_singleton.mp h]
      exact Or.inl rfl
    · cases h
  · split at h
    · rw [List.mem_singleton.mp h]
      exact Or.inr rfl
    · cases h

theorem mem_databaseFindings {timestamp deadlocks : Int} :
    x ∈ databaseFindings typeId builder ordinal row datid timestamp deadlocks ↔
      x ∈ wraparoundFindings row ordinal timestamp ∨
      x ∈ grownFindings databaseDeadlocksField
        ((builder.deadlocksBefore (typeId, datid)).map fun b => .recorded b.1 (some b.2)) ordinal
        (.recorded timestamp (some deadlocks)) ∨
      (hasChecksum typeId = true ∧ x ∈ grownFindings checksumFailuresField
        ((builder.checksumFailuresBefore (typeId, datid)).map fun b => .recorded b.1 b.2) ordinal
        (.recorded timestamp (optionalI64 (row.get "checksum_failures")))) ∨
      (hasSessions typeId = true ∧ ∃ sessions, sessionsSample row = some sessions ∧
        (x ∈ grownFindings sessionsFatalField
          ((builder.sessionsBefore (typeId, datid)).map fun b => .recorded b.1 (some b.2.1)) ordinal
          (.recorded timestamp (some sessions.1)) ∨
        x ∈ grownFindings sessionsKilledField
          ((builder.sessionsBefore (typeId, datid)).map fun b => .recorded b.1 (some b.2.2)) ordinal
          (.recorded timestamp (some sessions.2)))) := by
  rw [databaseFindings, List.mem_append, List.mem_append, List.mem_append, or_assoc, or_assoc]
  refine or_congr_right (or_congr_right (or_congr ?_ ?_))
  · cases hasChecksum typeId with
    | false => simp
    | true => simp
  · cases hasSessions typeId with
    | false => simp
    | true =>
      cases sessionsSample row with
      | none => simp
      | some sessions =>
        show x ∈ sessionsFindings _ _ _ _ ↔ _
        rw [sessionsFindings]
        simp

def deadlocksView (typeId : Nat) (builder : FindingBuilder) (datid : Nat) : Option Sample :=
  (builder.deadlocksBefore (typeId, datid)).map fun b => .recorded b.1 (some b.2)

def checksumView (typeId : Nat) (builder : FindingBuilder) (datid : Nat) : Option Sample :=
  (builder.checksumFailuresBefore (typeId, datid)).map fun b => .recorded b.1 b.2

def sessionsView (pick : Int × Int → Int) (typeId : Nat) (builder : FindingBuilder)
    (datid : Nat) : Option Sample :=
  (builder.sessionsBefore (typeId, datid)).map fun b => .recorded b.1 (some (pick b.2))

theorem observeDatabaseRow_deadlocks (builder : FindingBuilder) (row : Row) :
    deadlocksView typeId (observeDatabaseRow typeId builder row) =
      (deadlocks typeId).rule.keep (deadlocksView typeId builder) row := by
  apply keep_of_read
  · intro hread
    rw [observeDatabaseRow_none (Option.map_eq_none_iff.mp hread)]
  · intro entity sample hread
    obtain ⟨⟨datid, timestamp, value⟩, hsample, hitem⟩ := Option.map_eq_some_iff.mp hread
    cases hitem
    rw [observeDatabaseRow_some hsample]
    exact map_update _ _ typeId datid (timestamp, value)

theorem observeDatabaseRow_checksum (hlayout : hasChecksum typeId = true)
    (builder : FindingBuilder) (row : Row) :
    checksumView typeId (observeDatabaseRow typeId builder row) =
      (checksumFailures typeId).rule.keep (checksumView typeId builder) row := by
  apply keep_of_read
  · intro hread
    rw [observeDatabaseRow_none (Option.map_eq_none_iff.mp hread)]
  · intro entity sample hread
    obtain ⟨⟨datid, timestamp, value⟩, hsample, hitem⟩ := Option.map_eq_some_iff.mp hread
    cases hitem
    rw [observeDatabaseRow_some hsample, if_pos hlayout]
    exact map_update _ _ typeId datid (timestamp, optionalI64 (row.get "checksum_failures"))

theorem observeDatabaseRow_sessions {pick : Int × Int → Int}
    (hlayout : hasSessions typeId = true) (builder : FindingBuilder) (row : Row) :
    sessionsView pick typeId (observeDatabaseRow typeId builder row) =
      (sessions field pick typeId).rule.keep (sessionsView pick typeId builder) row := by
  apply keep_of_read
  · intro hread
    cases hsample : databaseSample row with
    | none => rw [observeDatabaseRow_none hsample]
    | some sample =>
      have hsessions : sessionsSample row = none := by
        change (databaseSample row).bind _ = none at hread
        rw [hsample] at hread
        exact Option.map_eq_none_iff.mp hread
      rw [observeDatabaseRow_some hsample, if_pos hlayout, hsessions]
      rfl
  · intro entity sample hread
    obtain ⟨⟨datid, timestamp, value⟩, hsample, hmore⟩ := Option.bind_eq_some_iff.mp hread
    obtain ⟨ended, hsessions, hitem⟩ := Option.map_eq_some_iff.mp hmore
    cases hitem
    rw [observeDatabaseRow_some hsample, if_pos hlayout, hsessions]
    exact map_update _ _ typeId datid (timestamp, ended.1, ended.2)

theorem findDatabaseRow_fst (hordinal : ordinal < 2 ^ 32) :
    (findDatabaseRow typeId builder ordinal row).1 = observeDatabaseRow typeId builder row := by
  cases hsample : databaseSample row with
  | none => rw [findDatabaseRow_none hsample, observeDatabaseRow_none hsample]
  | some sample =>
    rw [findDatabaseRow_some hsample hordinal]

theorem databaseFindings_field {timestamp value : Int}
    (h : x ∈ databaseFindings typeId builder ordinal row datid timestamp value) :
    (x.fieldOrdinal = databaseDeadlocksField →
      x ∈ grownFindings databaseDeadlocksField (deadlocksView typeId builder datid) ordinal
        (.recorded timestamp (some value))) ∧
    (x.fieldOrdinal = checksumFailuresField →
      x ∈ grownFindings checksumFailuresField (checksumView typeId builder datid) ordinal
        (.recorded timestamp (optionalI64 (row.get "checksum_failures")))) ∧
    (x.fieldOrdinal = sessionsFatalField → ∃ ended, sessionsSample row = some ended ∧
      x ∈ grownFindings sessionsFatalField (sessionsView Prod.fst typeId builder datid) ordinal
        (.recorded timestamp (some ended.1))) ∧
    (x.fieldOrdinal = sessionsKilledField → ∃ ended, sessionsSample row = some ended ∧
      x ∈ grownFindings sessionsKilledField (sessionsView Prod.snd typeId builder datid) ordinal
        (.recorded timestamp (some ended.2))) := by
  rcases mem_databaseFindings.mp h with hx | hx | ⟨-, hx⟩ | ⟨-, ended, hended, hx | hx⟩
  · rcases field_of_wraparound hx with hfield | hfield
    · rw [hfield]
      exact ⟨fun he => absurd he (by decide), fun he => absurd he (by decide),
        fun he => absurd he (by decide), fun he => absurd he (by decide)⟩
    · rw [hfield]
      exact ⟨fun he => absurd he (by decide), fun he => absurd he (by decide),
        fun he => absurd he (by decide), fun he => absurd he (by decide)⟩
  · rw [field_of_mem hx]
    exact ⟨fun _ => hx, fun he => absurd he (by decide), fun he => absurd he (by decide),
      fun he => absurd he (by decide)⟩
  · rw [field_of_mem hx]
    exact ⟨fun he => absurd he (by decide), fun _ => hx, fun he => absurd he (by decide),
      fun he => absurd he (by decide)⟩
  · rw [field_of_mem hx]
    exact ⟨fun he => absurd he (by decide), fun he => absurd he (by decide),
      fun _ => ⟨ended, hended, hx⟩, fun he => absurd he (by decide)⟩
  · rw [field_of_mem hx]
    exact ⟨fun he => absurd he (by decide), fun he => absurd he (by decide),
      fun he => absurd he (by decide), fun _ => ⟨ended, hended, hx⟩⟩

theorem follows_database {view : FindingBuilder → Nat → Option Sample}
    (hkeep : ∀ builder row,
      view (observeDatabaseRow typeId builder row) = counter.rule.keep (view builder) row)
    (hnone : ∀ row, databaseSample row = none → counter.read row = none)
    (hsome : ∀ {builder ordinal row x datid timestamp value},
      databaseSample row = some (datid, timestamp, value) →
        (x ∈ databaseFindings typeId builder ordinal row datid timestamp value ∧
          x.fieldOrdinal = counter.field ↔
            ∃ entity sample, counter.read row = some (entity, sample) ∧
              x ∈ grownFindings counter.field (view builder entity) ordinal sample)) :
    counter.FollowedBy view (findDatabaseRow typeId) := by
  refine follows_of_view _ ?_ ?_
  · intro builder ordinal row hordinal
    rw [findDatabaseRow_fst hordinal]
    exact hkeep builder row
  · intro builder ordinal row x hordinal
    cases hsample : databaseSample row with
    | none =>
      rw [findDatabaseRow_none hsample]
      constructor
      · rintro ⟨hx, -⟩
        cases hx
      · rintro ⟨entity, sample, hread, -⟩
        cases (hnone row hsample).symm.trans hread
    | some sample =>
      rw [findDatabaseRow_some hsample hordinal]
      exact hsome hsample

theorem findDatabaseRow_deadlocks :
    (deadlocks typeId).FollowedBy (deadlocksView typeId) (findDatabaseRow typeId) := by
  refine follows_database observeDatabaseRow_deadlocks
    (fun row h => Option.map_eq_none_iff.mpr h) ?_
  intro builder ordinal row x datid timestamp value hsample
  show _ ↔ ∃ entity sample, (databaseSample row).map _ = _ ∧ _
  rw [hsample]
  constructor
  · rintro ⟨hx, hfield⟩
    exact ⟨datid, _, rfl, (databaseFindings_field hx).1 hfield⟩
  · rintro ⟨entity, sample, hread, hx⟩
    cases hread
    exact ⟨mem_databaseFindings.mpr (Or.inr (Or.inl hx)), field_of_mem hx⟩

theorem findDatabaseRow_checksum (hlayout : hasChecksum typeId = true) :
    (checksumFailures typeId).FollowedBy (checksumView typeId) (findDatabaseRow typeId) := by
  refine follows_database (observeDatabaseRow_checksum hlayout)
    (fun row h => Option.map_eq_none_iff.mpr h) ?_
  intro builder ordinal row x datid timestamp value hsample
  show _ ↔ ∃ entity sample, (databaseSample row).map _ = _ ∧ _
  rw [hsample]
  constructor
  · rintro ⟨hx, hfield⟩
    exact ⟨datid, _, rfl, (databaseFindings_field hx).2.1 hfield⟩
  · rintro ⟨entity, sample, hread, hx⟩
    cases hread
    exact ⟨mem_databaseFindings.mpr (Or.inr (Or.inr (Or.inl ⟨hlayout, hx⟩))), field_of_mem hx⟩

theorem findDatabaseRow_sessions {pick : Int × Int → Int} (hlayout : hasSessions typeId = true)
    (hown : ∀ {builder : FindingBuilder} {ordinal : Nat} {row : Row} {datid : Nat}
      {timestamp value : Int} {x : Finding},
      x ∈ databaseFindings typeId builder ordinal row datid timestamp value ∧
        x.fieldOrdinal = field ↔ ∃ ended, sessionsSample row = some ended ∧
          x ∈ grownFindings field (sessionsView pick typeId builder datid) ordinal
            (.recorded timestamp (some (pick ended)))) :
    (sessions field pick typeId).FollowedBy (sessionsView pick typeId)
      (findDatabaseRow typeId) := by
  refine follows_database (observeDatabaseRow_sessions hlayout)
    (fun row h => Option.bind_eq_none_iff.mpr fun _ hsample => ?_) ?_
  · rw [h] at hsample
    cases hsample
  · intro builder ordinal row x datid timestamp value hsample
    show _ ↔ ∃ entity sample, (databaseSample row).bind _ = _ ∧ _
    rw [hsample]
    refine hown.trans ?_
    constructor
    · rintro ⟨ended, hended, hx⟩
      exact ⟨datid, _, Option.map_eq_some_iff.mpr ⟨ended, hended, rfl⟩, hx⟩
    · rintro ⟨entity, sample, hread, hx⟩
      obtain ⟨ended, hended, hsome⟩ := Option.map_eq_some_iff.mp hread
      cases hsome
      exact ⟨ended, hended, hx⟩

theorem findDatabaseRow_fatal (hlayout : hasSessions typeId = true) :
    (sessionsFatal typeId).FollowedBy (sessionsView Prod.fst typeId) (findDatabaseRow typeId) := by
  refine findDatabaseRow_sessions hlayout ?_
  intro builder ordinal row datid timestamp value x
  constructor
  · rintro ⟨hx, hfield⟩
    exact (databaseFindings_field hx).2.2.1 hfield
  · rintro ⟨ended, hended, hx⟩
    exact ⟨mem_databaseFindings.mpr (Or.inr (Or.inr (Or.inr ⟨hlayout, ended, hended, Or.inl hx⟩))),
      field_of_mem hx⟩

theorem findDatabaseRow_killed (hlayout : hasSessions typeId = true) :
    (sessionsKilled typeId).FollowedBy (sessionsView Prod.snd typeId)
      (findDatabaseRow typeId) := by
  refine findDatabaseRow_sessions hlayout ?_
  intro builder ordinal row datid timestamp value x
  constructor
  · rintro ⟨hx, hfield⟩
    exact (databaseFindings_field hx).2.2.2 hfield
  · rintro ⟨ended, hended, hx⟩
    exact ⟨mem_databaseFindings.mpr (Or.inr (Or.inr (Or.inr ⟨hlayout, ended, hended, Or.inr hx⟩))),
      field_of_mem hx⟩

end FindingBuilder

end Kronika.Index
