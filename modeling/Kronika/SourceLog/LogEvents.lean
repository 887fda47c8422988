/-
Turning the records of a server log into events.

The parsers of the shapes that become one row each are parameters, and so are
durations with their order and sum.
-/
import Kronika.Library.Grouping
import Kronika.Library.Words
import Kronika.SourceLog.Normalize

namespace Kronika.SourceLog

open Library

def maxTextBytes : Nat := 5120

/-- The largest `u32`. -/
def u32Max : Nat := 2 ^ 32 - 1

structure PgRecord where
  ts : Int64
  severity : Severity
  sqlstate : Option Chars
  message : Chars
  detail : Option Chars
  hint : Option Chars
  context : Option Chars
  statement : Option Chars
  database : Option Chars
  username : Option Chars

structure ErrorGroup where
  ts : Int64
  severity : Severity
  category : ErrorCategory
  sqlstate : Option Chars
  pattern : Chars
  count : Nat
  sample : Chars
  detail : Option Chars
  hint : Option Chars
  context : Option Chars
  statement : Option Chars
  database : Option Chars
  username : Option Chars

structure SlowQuery (D : Type) where
  ts : Int64
  pattern : Chars
  sample : Chars
  count : Nat
  maxDuration : D
  totalDuration : D

/-- A statement that was slow. -/
structure SlowRecord (D : Type) where
  ts : Int64
  duration : D
  sql : Chars

/-! ## Slow statements -/

def trimChars (text : Chars) : Chars :=
  (((text.dropWhile Words.isWhitespace).reverse).dropWhile Words.isWhitespace).reverse

def stripPrefix (pattern text : Chars) : Option Chars :=
  if pattern.isPrefixOf text then some (text.drop pattern.length) else none

/-- `parseDuration` is some duration for a text that is a number, finite and not
negative. -/
def parseSlowQuery {D : Type} (parseDuration : Chars → Option D) (message : Chars) :
    Option (D × Chars) := do
  let rest ← stripPrefix "duration: ".toList message
  let (duration, sql) ←
    match cut " ms  statement: ".toList rest with
    | some parts => some parts
    | none => do
      let (duration, named) ← cut " ms  execute ".toList rest
      let (_, sql) ← cut ": ".toList named
      some (duration, sql)
  let durationMs ← parseDuration duration
  some (durationMs, truncateChars (trimChars sql) maxTextBytes)

/-! ## Events -/

/-- The events that become a row of their own, and their parsers. -/
structure LogParsers where
  Checkpoint : Type
  Autovacuum : Type
  LockWait : Type
  TempFile : Type
  Lifecycle : Type
  checkpoint : PgRecord → Option Checkpoint
  autovacuum : PgRecord → Option Autovacuum
  lockWait : PgRecord → Option LockWait
  tempFile : PgRecord → Option TempFile
  lifecycle : PgRecord → Option Lifecycle

/-- How the characters of a key are hashed. -/
local instance hashableChar : Hashable Char := ⟨fun c => c.val.toUInt64⟩

abbrev ErrorKey := Severity × ErrorCategory × Chars

structure Events (parsers : LogParsers) (D : Type) where
  checkpoints : List parsers.Checkpoint
  autovacuum : List parsers.Autovacuum
  lockWaits : List parsers.LockWait
  lifecycle : List parsers.Lifecycle
  tempFiles : List parsers.TempFile
  errors : Groups ErrorKey ErrorGroup
  slowQueries : Groups Chars (SlowQuery D)

def errorKey (record : PgRecord) : ErrorKey :=
  let pattern := normalizeError record.message
  (record.severity, classifyError pattern record.severity, pattern)

def errorGroup (record : PgRecord) : ErrorGroup where
  ts := record.ts
  severity := record.severity
  category := classifyError (normalizeError record.message) record.severity
  sqlstate := record.sqlstate
  pattern := normalizeError record.message
  count := 1
  sample := truncateChars record.message maxTextBytes
  detail := record.detail
  hint := record.hint
  context := record.context
  statement := record.statement
  database := record.database
  username := record.username

def saturatingSucc (count : Nat) : Nat := min (count + 1) u32Max

def ErrorGroup.again (group : ErrorGroup) (_record : PgRecord) : ErrorGroup :=
  { group with count := saturatingSucc group.count }

variable {parsers : LogParsers} {D : Type}

def slowQuery (record : SlowRecord D) : SlowQuery D where
  ts := record.ts
  pattern := normalizeSql record.sql
  sample := truncateChars record.sql maxTextBytes
  count := 1
  maxDuration := record.duration
  totalDuration := record.duration

variable [LinearOrder D] [Add D]

def SlowQuery.again (group : SlowQuery D) (record : SlowRecord D) : SlowQuery D :=
  let counted :=
    { group with
      count := saturatingSucc group.count
      totalDuration := group.totalDuration + record.duration }
  if group.maxDuration < record.duration then
    { counted with
      maxDuration := record.duration
      sample := truncateChars record.sql maxTextBytes
      ts := record.ts }
  else counted

namespace Events

def empty : Events parsers D where
  checkpoints := []
  autovacuum := []
  lockWaits := []
  lifecycle := []
  tempFiles := []
  errors := .empty
  slowQueries := .empty

def addError (events : Events parsers D) (record : PgRecord) : Events parsers D :=
  { events with errors := events.errors.add errorKey errorGroup ErrorGroup.again record }

def addSlowQuery (events : Events parsers D) (record : SlowRecord D) : Events parsers D :=
  { events with
    slowQueries :=
      events.slowQueries.add (fun r => normalizeSql r.sql) slowQuery SlowQuery.again record }

def addLog (parseDuration : Chars → Option D) (events : Events parsers D) (record : PgRecord) :
    Events parsers D :=
  match parsers.checkpoint record with
  | some event => { events with checkpoints := events.checkpoints ++ [event] }
  | none =>
  match parsers.autovacuum record with
  | some event => { events with autovacuum := events.autovacuum ++ [event] }
  | none =>
  match parseSlowQuery parseDuration record.message with
  | some (durationMs, sql) =>
    events.addSlowQuery { ts := record.ts, duration := durationMs, sql := sql }
  | none =>
  match parsers.lockWait record with
  | some event => { events with lockWaits := events.lockWaits ++ [event] }
  | none =>
  match parsers.tempFile record with
  | some event => { events with tempFiles := events.tempFiles ++ [event] }
  | none =>
  match parsers.lifecycle record with
  | some event => { events with lifecycle := events.lifecycle ++ [event] }
  | none => events

def add (parseDuration : Chars → Option D) (events : Events parsers D) (record : PgRecord) :
    Events parsers D :=
  if record.severity = .log then events.addLog parseDuration record else events.addError record

def ofRecords (parsers : LogParsers) (parseDuration : Chars → Option D)
    (records : List PgRecord) : Events parsers D :=
  records.foldl (add parseDuration) empty

end Events
/-! ## The records that are grouped -/

def errorRecords (records : List PgRecord) : List PgRecord :=
  records.filter fun record => decide (record.severity ≠ .log)

/-- The slow statement of a record that neither of the earlier parsers reads. -/
def slowRecord (parsers : LogParsers) (parseDuration : Chars → Option D) (record : PgRecord) :
    Option (SlowRecord D) :=
  if record.severity = .log ∧ (parsers.checkpoint record).isNone ∧
      (parsers.autovacuum record).isNone then
    (parseSlowQuery parseDuration record.message).map fun parsed =>
      { ts := record.ts, duration := parsed.1, sql := parsed.2 }
  else none

def slowRecords (parsers : LogParsers) (parseDuration : Chars → Option D)
    (records : List PgRecord) : List (SlowRecord D) :=
  records.filterMap (slowRecord parsers parseDuration)

def sqlKey (record : SlowRecord D) : Chars := normalizeSql record.sql

def ErrorGroup.key (group : ErrorGroup) : ErrorKey :=
  (group.severity, group.category, group.pattern)

/-- The tables are what the records make of them. -/
structure Tracked (parseDuration : Chars → Option D) (records : List PgRecord)
    (events : Events parsers D) : Prop where
  errors : ∃ keys, Grouped errorKey errorGroup ErrorGroup.again (errorRecords records) keys
    events.errors
  slowQueries : ∃ keys, Grouped sqlKey slowQuery SlowQuery.again
    (slowRecords parsers parseDuration records) keys events.slowQueries

theorem Events.addLog_errors (parseDuration : Chars → Option D) (events : Events parsers D)
    (record : PgRecord) : (events.addLog parseDuration record).errors = events.errors := by
  unfold Events.addLog
  repeat' split
  all_goals rfl

theorem Events.addLog_slowQueries (parseDuration : Chars → Option D) (events : Events parsers D)
    {record : PgRecord} (hlog : record.severity = .log) :
    (events.addLog parseDuration record).slowQueries =
      match slowRecord parsers parseDuration record with
      | some slow => events.slowQueries.add sqlKey slowQuery SlowQuery.again slow
      | none => events.slowQueries := by
  unfold Events.addLog slowRecord
  cases hcheckpoint : parsers.checkpoint record with
  | some _ => simp
  | none =>
    cases hautovacuum : parsers.autovacuum record with
    | some _ => simp
    | none =>
      cases hslow : parseSlowQuery parseDuration record.message with
      | some _ => simp only [hlog]; rfl
      | none =>
        simp only [hlog, Option.isNone_none, and_self, if_true, Option.map_none]
        repeat' split
        all_goals rfl

theorem Tracked.add {parseDuration : Chars → Option D} {records : List PgRecord}
    {events : Events parsers D} (h : Tracked parseDuration records events) (record : PgRecord) :
    Tracked parseDuration (records ++ [record]) (events.add parseDuration record) := by
  obtain ⟨errorKeys, herrors⟩ := h.errors
  obtain ⟨sqlKeys, hslow⟩ := h.slowQueries
  rw [Events.add]
  by_cases hlog : record.severity = .log
  · have hsame : errorRecords (records ++ [record]) = errorRecords records := by
      rw [errorRecords, List.filter_append, List.filter_singleton, decide_eq_false (by simp [hlog])]
      exact List.append_nil _
    rw [if_pos hlog]
    refine ⟨?_, ?_⟩
    · rw [Events.addLog_errors, hsame]
      exact ⟨errorKeys, herrors⟩
    · rw [Events.addLog_slowQueries parseDuration events hlog, slowRecords,
        List.filterMap_append]
      cases hrecord : slowRecord parsers parseDuration record with
      | none =>
        rw [List.filterMap_cons_none hrecord, List.filterMap_nil, List.append_nil]
        exact ⟨sqlKeys, hslow⟩
      | some slow =>
        rw [List.filterMap_cons_some hrecord]
        exact hslow.add slow
  · have hmore : errorRecords (records ++ [record]) = errorRecords records ++ [record] := by
      rw [errorRecords, List.filter_append, List.filter_singleton, decide_eq_true hlog]
      rfl
    have hsame : slowRecords parsers parseDuration (records ++ [record]) =
        slowRecords parsers parseDuration records := by
      have hnone : slowRecord parsers parseDuration record = none := by
        rw [slowRecord, if_neg]
        rintro ⟨hsev, -⟩
        exact hlog hsev
      rw [slowRecords, List.filterMap_append, List.filterMap_cons_none hnone, List.filterMap_nil,
        List.append_nil]
      rfl
    rw [if_neg hlog]
    refine ⟨?_, ?_⟩
    · rw [hmore]
      exact herrors.add record
    · rw [hsame]
      exact ⟨sqlKeys, hslow⟩

theorem tracked_ofRecords (parsers : LogParsers) (parseDuration : Chars → Option D)
    (records : List PgRecord) :
    Tracked parseDuration records (Events.ofRecords parsers parseDuration records) := by
  induction records using List.reverseRecOn with
  | nil => exact ⟨⟨[], grouped_nil⟩, ⟨[], grouped_nil⟩⟩
  | append_singleton records record ih =>
    rw [Events.ofRecords, List.foldl_append]
    exact ih.add record

/-! ## One group -/

theorem again_count (rest : List PgRecord) (group : ErrorGroup) (hle : group.count ≤ u32Max) :
    rest.foldl ErrorGroup.again group =
      { group with count := min (group.count + rest.length) u32Max } := by
  induction rest generalizing group with
  | nil =>
    rw [List.foldl_nil, List.length_nil, Nat.add_zero, Nat.min_eq_left hle]
  | cons record rest ih =>
    rw [List.foldl_cons, ih _ (Nat.min_le_right _ _), List.length_cons, ErrorGroup.again,
      saturatingSucc]
    have hcount : min (min (group.count + 1) u32Max + rest.length) u32Max =
        min (group.count + (rest.length + 1)) u32Max := by omega
    rw [hcount]

theorem errorGroup_madeOf {records : List PgRecord} {group : ErrorGroup}
    (h : MadeOf errorGroup ErrorGroup.again records group) :
    ∃ first rest, records = first :: rest ∧
      group = { errorGroup first with count := min records.length u32Max } := by
  obtain ⟨first, rest, rfl, rfl⟩ := h
  refine ⟨first, rest, rfl, ?_⟩
  rw [again_count rest (errorGroup first) (by decide : 1 ≤ u32Max), List.length_cons,
    Nat.add_comm rest.length]
  rfl

/-- A slow statement stands for its records: the sample is the first of the slowest. -/
structure Slowest (records : List (SlowRecord D)) (group : SlowQuery D) (slowest : SlowRecord D)
    (earlier later : List (SlowRecord D)) : Prop where
  split : records = earlier ++ slowest :: later
  earlier_lt : ∀ record ∈ earlier, record.duration < slowest.duration
  later_le : ∀ record ∈ later, record.duration ≤ slowest.duration
  ts : group.ts = slowest.ts
  sample : group.sample = truncateChars slowest.sql maxTextBytes
  maxDuration : group.maxDuration = slowest.duration
  count : group.count = min records.length u32Max

theorem slowQuery_madeOf {records : List (SlowRecord D)} {group : SlowQuery D}
    (h : MadeOf slowQuery SlowQuery.again records group) :
    ∃ slowest earlier later, Slowest records group slowest earlier later := by
  obtain ⟨first, rest, rfl, rfl⟩ := h
  induction rest using List.reverseRecOn with
  | nil =>
    refine ⟨first, [], [], rfl, ?_, ?_, rfl, rfl, rfl, rfl⟩
    · intro record hrecord
      cases hrecord
    · intro record hrecord
      cases hrecord
  | append_singleton rest record ih =>
    obtain ⟨slowest, earlier, later, hslowest⟩ := ih
    rw [List.foldl_append, List.foldl_cons, List.foldl_nil]
    generalize rest.foldl SlowQuery.again (slowQuery first) = group at hslowest ⊢
    have hcount : saturatingSucc group.count =
        min (first :: (rest ++ [record])).length u32Max := by
      rw [saturatingSucc, hslowest.count]
      simp only [List.length_cons, List.length_append, List.length_nil]
      omega
    have hsplit : first :: (rest ++ [record]) = (earlier ++ slowest :: later) ++ [record] := by
      rw [← hslowest.split]
      rfl
    by_cases hlt : group.maxDuration < record.duration
    · refine ⟨record, earlier ++ slowest :: later, [], hsplit, ?_, ?_, ?_, ?_, ?_, ?_⟩
      · rw [hslowest.maxDuration] at hlt
        intro other hother
        rcases List.mem_append.mp hother with hearlier | hmem
        · exact lt_trans (hslowest.earlier_lt other hearlier) hlt
        · rcases List.mem_cons.mp hmem with rfl | hlater
          · exact hlt
          · exact lt_of_le_of_lt (hslowest.later_le other hlater) hlt
      · intro other hother
        cases hother
      all_goals rw [SlowQuery.again, if_pos hlt]
      exact hcount
    · refine ⟨slowest, earlier, later ++ [record], ?_, hslowest.earlier_lt, ?_, ?_, ?_, ?_, ?_⟩
      · rw [hsplit, List.append_assoc]
        rfl
      · intro other hother
        rcases List.mem_append.mp hother with hlater | hlast
        · exact hslowest.later_le other hlater
        · rw [List.mem_singleton.mp hlast, ← hslowest.maxDuration]
          exact not_lt.mp hlt
      all_goals rw [SlowQuery.again, if_neg hlt]
      · exact hslowest.ts
      · exact hslowest.sample
      · exact hslowest.maxDuration
      · exact hcount

theorem key_errorGroup (record : PgRecord) : (errorGroup record).key = errorKey record := by
  simp only [ErrorGroup.key, errorGroup, errorKey]

theorem key_again (group : ErrorGroup) (record : PgRecord) :
    (group.again record).key = group.key := rfl

theorem pattern_slowQuery {D : Type} (record : SlowRecord D) :
    (slowQuery record).pattern = sqlKey record := by
  simp only [slowQuery, sqlKey]

theorem pattern_again (group : SlowQuery D) (record : SlowRecord D) :
    (group.again record).pattern = group.pattern := by
  rw [SlowQuery.again]
  split <;> rfl

/-! ## The events of a batch -/

/-- Error records and slow statements are each split by their key.  An error group has
the texts of the first record of its key; a group of slow statements has the sample of
its slowest one. -/
theorem ofRecords_partitioned (parsers : LogParsers) (parseDuration : Chars → Option D)
    (records : List PgRecord) :
    Partitioned errorKey ErrorGroup.key ErrorGroup.count u32Max (errorRecords records)
        (Events.ofRecords parsers parseDuration records).errors.groups ∧
      Partitioned sqlKey SlowQuery.pattern SlowQuery.count u32Max
        (slowRecords parsers parseDuration records)
        (Events.ofRecords parsers parseDuration records).slowQueries.groups ∧
      (∀ group ∈ (Events.ofRecords parsers parseDuration records).errors.groups,
        ∃ first rest, recordsOf errorKey (errorRecords records) group.key = first :: rest ∧
          group = { errorGroup first with count := group.count }) ∧
      ∀ group ∈ (Events.ofRecords parsers parseDuration records).slowQueries.groups,
        ∃ slowest earlier later,
          Slowest (recordsOf sqlKey (slowRecords parsers parseDuration records) group.pattern)
            group slowest earlier later := by
  have htracked := tracked_ofRecords parsers parseDuration records
  obtain ⟨errorKeys, herrors⟩ := htracked.errors
  obtain ⟨sqlKeys, hslow⟩ := htracked.slowQueries
  have herrorCount : ∀ records group, MadeOf errorGroup ErrorGroup.again records group →
      group.count = min records.length u32Max := by
    intro records group hmade
    obtain ⟨first, rest, -, hgroup⟩ := errorGroup_madeOf hmade
    rw [hgroup]
  have hslowCount : ∀ (records : List (SlowRecord D)) group,
      MadeOf slowQuery SlowQuery.again records group →
      group.count = min records.length u32Max := by
    intro records group hmade
    obtain ⟨slowest, earlier, later, hslowest⟩ := slowQuery_madeOf hmade
    exact hslowest.count
  refine ⟨herrors.partitioned key_errorGroup key_again herrorCount,
    hslow.partitioned pattern_slowQuery pattern_again hslowCount, ?_, ?_⟩
  · intro group hgroup
    have hmade := herrors.madeOf key_errorGroup key_again hgroup
    obtain ⟨first, rest, hrecords, heq⟩ := errorGroup_madeOf hmade
    refine ⟨first, rest, hrecords, ?_⟩
    rw [herrorCount _ _ hmade]
    exact heq
  · intro group hgroup
    exact slowQuery_madeOf (hslow.madeOf pattern_slowQuery pattern_again hgroup)

/-! Two runs of one statement, the second of them slower. -/

def noParsers : LogParsers where
  Checkpoint := Empty
  Autovacuum := Empty
  LockWait := Empty
  TempFile := Empty
  Lifecycle := Empty
  checkpoint _ := none
  autovacuum _ := none
  lockWait _ := none
  tempFile _ := none
  lifecycle _ := none

def logRecord (message : String) : PgRecord :=
  ⟨0, .log, none, message.toList, none, none, none, none, none, none⟩

def wholeMillis (text : Chars) : Option Nat :=
  if text = ['1'] then some 1 else if text = ['2'] then some 2 else none

def twoRuns : List PgRecord :=
  [logRecord "duration: 1 ms  statement: select 'a'",
    logRecord "duration: 2 ms  statement: select 'b'"]

def runOf (duration : Nat) (sql : String) : SlowRecord Nat := ⟨0, duration, sql.toList⟩

theorem slowRecords_twoRuns :
    slowRecords noParsers wholeMillis twoRuns = [runOf 1 "select 'a'", runOf 2 "select 'b'"] := by
  rfl

/-- The sample is the one of the second record, which was slower. -/
theorem sample_of_slower_run :
    ∃ group ∈ (Events.ofRecords noParsers wholeMillis twoRuns).slowQueries.groups,
      ∃ first rest, recordsOf sqlKey (slowRecords noParsers wholeMillis twoRuns) group.pattern =
          first :: rest ∧ group.sample ≠ truncateChars first.sql maxTextBytes := by
  obtain ⟨keys, hslow⟩ := (tracked_ofRecords noParsers wholeMillis twoRuns).slowQueries
  have hkeys := hslow.keys_eq pattern_slowQuery pattern_again
  have hfirst : runOf 1 "select 'a'" ∈ slowRecords noParsers wholeMillis twoRuns := by
    exact List.mem_cons_self
  have hcover := hslow.cover _ hfirst
  rw [← hkeys] at hcover
  obtain ⟨group, hgroup, hpattern⟩ := List.mem_map.mp hcover
  have hsame : sqlKey (runOf 2 "select 'b'") = sqlKey (runOf 1 "select 'a'") := by
    have herror : normalizeError (runOf 2 "select 'b'").sql =
        normalizeError (runOf 1 "select 'a'").sql := by decide
    rw [sqlKey, sqlKey, normalizeSql, normalizeSql, herror]
  have hrecords : recordsOf sqlKey (slowRecords noParsers wholeMillis twoRuns) group.pattern =
      [runOf 1 "select 'a'", runOf 2 "select 'b'"] := by
    rw [slowRecords_twoRuns, hpattern, recordsOf, List.filter_cons_of_pos (by simp),
      List.filter_cons_of_pos (by simp [hsame]), List.filter_nil]
  refine ⟨group, hgroup, runOf 1 "select 'a'", [runOf 2 "select 'b'"], hrecords, ?_⟩
  obtain ⟨slowest, earlier, later, hslowest⟩ :=
    slowQuery_madeOf (hslow.madeOf pattern_slowQuery pattern_again hgroup)
  have hsplit := hslowest.split
  rw [hrecords] at hsplit
  have hslower : runOf 2 "select 'b'" = slowest := by
    cases earlier with
    | nil =>
      obtain ⟨hfirst, hlater⟩ := List.cons.inj hsplit
      have hle := hslowest.later_le (runOf 2 "select 'b'")
        (by rw [← hlater]; exact List.mem_singleton_self _)
      rw [← hfirst] at hle
      exact absurd hle (by decide)
    | cons other earlier =>
      obtain ⟨-, htail⟩ := List.cons.inj hsplit
      cases earlier with
      | nil => exact (List.cons.inj htail).1
      | cons another earlier =>
        have hlen := congrArg List.length htail
        simp at hlen
  rw [hslowest.sample, ← hslower]
  decide

end Kronika.SourceLog
