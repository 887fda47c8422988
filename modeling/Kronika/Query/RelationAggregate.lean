/-
The aggregate of the tables or indexes of a group.

Rates are exact fractions as long as 128 bits hold them.  A row is added to an aggregate, and the
aggregates of the databases of a tablespace are merged.
-/
import Mathlib.Logic.Function.Basic
import Kronika.Library.Merging
import Kronika.Library.Utf8
import Kronika.Query.PageRanking

namespace Kronika.Query
namespace Relations

open Library

/-! ## Inputs -/

inductive RelationKind where
  | tables
  | indexes
deriving DecidableEq

inductive Input where
  | value (number : OrderedNumber)
  | neutral
  | unavailable
deriving DecidableEq

/-- A row of a relation, with the readings and the time since its predecessor. -/
structure RelationSource where
  segmentId : Int
  contextIndex : Nat
  ordinal : Nat
  typeId : Nat
  timestamp : Int
deriving DecidableEq

def RelationSource.rank (source : RelationSource) : List Int :=
  [source.segmentId, source.contextIndex, source.ordinal, source.typeId, source.timestamp]

def RelationSource.min (left right : RelationSource) : RelationSource :=
  leastBy RelationSource.rank left right

structure Member where
  contract : TypeContract
  row : Row
  before : Option CounterReadings
  elapsed : Option Int
  dictionary : Dictionary
  source : RelationSource

section Inputs

variable (floats : FloatOps)

def counterInput (contract : TypeContract) (row : Row) (before : Option CounterReadings)
    (name : String) (structural : Bool) : Input :=
  if (contract.column name).isNone then .unavailable
  else
    match row.get name, before.bind (·.lookup name) with
    | some now, some earlier =>
      if structural ∧ now = .null ∧ earlier = .null then .neutral
      else (counterDelta floats now earlier).elim .unavailable .value
    | _, _ => .unavailable

def gaugeInput (contract : TypeContract) (row : Row) (name : String) (structural : Bool) : Input :=
  if (contract.column name).isNone then .unavailable
  else
    match row.get name with
    | some cell =>
      if structural ∧ cell = .null then .neutral
      else (orderedCell floats cell).elim .unavailable .value
    | none => .unavailable

def integerCell (stored : Option Cell) : Option Int :=
  (stored.bind (orderedCell floats)).bind fun number =>
    match number with
    | .integer value => some value
    | .float _ => none

def boolCell : Option Cell → Option Bool
  | some (.bool value) => some value
  | _ => none

def numberIsZero : OrderedNumber → Bool
  | .integer value => value = 0
  | .float bits => floats.partialCmp bits 0 = some .eq

end Inputs

def textCell (stored : Option Cell) (dictionary : Dictionary) :
    Except QueryError (Option Format.Bytes) :=
  match stored with
  | some (.strId id) =>
    match dictionary id with
    | none => .error .badCursor
    | some resolved =>
      if Utf8.Valid resolved.storedBytes then .ok (some resolved.storedBytes)
      else .error (.unreadable "invalid utf-8")
  | _ => .ok none

/-! ## Rates -/

def gcdLoop (left right : Nat) : Nat :=
  if _hright : right = 0 then left else gcdLoop right (left % right)
termination_by right
decreasing_by exact Nat.mod_lt left (Nat.pos_of_ne_zero _hright)

def greatestCommonDivisor (left right : Nat) : Nat :=
  if gcdLoop left right = 0 then 1 else gcdLoop left right

def checkedU128 (value : Nat) : Option Nat := if value < 2 ^ 128 then some value else none

/-- Units per microsecond. -/
inductive RateValue where
  | exact (numerator denominator : Nat)
  | float (bits : Nat)
deriving DecidableEq

namespace RateValue

def reduced (numerator denominator : Nat) : RateValue :=
  .exact (numerator / greatestCommonDivisor numerator denominator)
    (denominator / greatestCommonDivisor numerator denominator)

/-- The sum of two fractions, unless it does not fit. -/
def exactSum : RateValue → RateValue → Option RateValue
  | .exact leftNumerator leftDenominator, .exact rightNumerator rightDenominator =>
    let common := greatestCommonDivisor leftDenominator rightDenominator
    let leftScale := rightDenominator / common
    let rightScale := leftDenominator / common
    (checkedU128 (leftNumerator * leftScale)).bind fun left =>
      (checkedU128 (rightNumerator * rightScale)).bind fun right =>
        (checkedU128 (left + right)).bind fun numerator =>
          (checkedU128 (leftDenominator * leftScale)).map fun denominator =>
            reduced numerator denominator
  | _, _ => none

section Floats

variable (floats : FloatOps)

def fromDelta (delta : OrderedNumber) (elapsed : Int) : Option RateValue :=
  if 0 < elapsed then
    match delta with
    | .integer value => if 0 ≤ value then some (reduced value.toNat elapsed.toNat) else none
    | .float bits =>
      let rate := floats.div bits (floats.ofInt elapsed)
      if floats.isFinite rate then some (.float rate) else none
  else none

def perMicrosecond : RateValue → Nat
  | .exact numerator denominator => floats.div (floats.ofInt numerator) (floats.ofInt denominator)
  | .float bits => bits

def floatSum (left right : RateValue) : Option RateValue :=
  let sum := floats.add (left.perMicrosecond floats) (right.perMicrosecond floats)
  if floats.isFinite sum then some (.float sum) else none

def add (left right : RateValue) : Option RateValue :=
  (exactSum left right).or (floatSum floats left right)

end Floats

end RateValue

/-! ## Aggregates of one field -/

structure RateAggregate where
  value : Option RateValue
  unavailable : Bool
deriving DecidableEq

def RateAggregate.default : RateAggregate := ⟨none, false⟩

namespace RateAggregate

variable (floats : FloatOps)

def extend (aggregate : RateAggregate) (value : RateValue) : RateAggregate :=
  let sum := aggregate.value.elim (some value) fun known => known.add floats value
  ⟨sum, aggregate.unavailable || sum.isNone⟩

def add (aggregate : RateAggregate) (input : Input) (elapsed : Option Int) : RateAggregate :=
  if aggregate.unavailable then aggregate
  else
    match input with
    | .neutral => aggregate
    | .unavailable => { aggregate with unavailable := true }
    | .value delta =>
      match elapsed.bind (RateValue.fromDelta floats delta) with
      | some value => aggregate.extend floats value
      | none => { aggregate with unavailable := true }

def merge (aggregate other : RateAggregate) : RateAggregate :=
  if aggregate.unavailable || other.unavailable then ⟨none, true⟩
  else other.value.elim aggregate fun value => aggregate.extend floats value

end RateAggregate

abbrev Availability := Tally OrderedNumber

namespace Availability

variable (floats : FloatOps)

def add (sum : Availability) (input : Input) : Availability :=
  match sum, input with
  | .unavailable, _ | _, .unavailable => .unavailable
  | sum, .neutral => sum
  | .empty, .value number => .value number
  | .value left, .value right => (addOrdered floats (some left) right).elim .unavailable .value

def merge (sum other : Availability) : Availability :=
  add floats sum <|
    match other with
    | .empty => .neutral
    | .value number => .value number
    | .unavailable => .unavailable

end Availability

structure MaximumAggregate where
  maximum : Option Int
  unavailable : Bool
deriving DecidableEq

def MaximumAggregate.default : MaximumAggregate := ⟨none, false⟩

namespace MaximumAggregate

def add (floats : FloatOps) (aggregate : MaximumAggregate) (present : Bool)
    (stored : Option Cell) : MaximumAggregate :=
  if present = false then { aggregate with unavailable := true }
  else if stored = some .null then aggregate
  else
    match integerCell floats stored with
    | some value =>
      { aggregate with maximum := some (aggregate.maximum.elim value (max · value)) }
    | none => { aggregate with unavailable := true }

def merge (aggregate other : MaximumAggregate) : MaximumAggregate where
  unavailable := aggregate.unavailable || other.unavailable
  maximum := other.maximum.elim aggregate.maximum fun value =>
    some (aggregate.maximum.elim value (max · value))

end MaximumAggregate

inductive TimestampObservation where
  | unavailable
  | notApplicable
  | stored (cell : Option Cell)
deriving DecidableEq

structure TimestampAggregate where
  applicable : Nat
  unavailable : Bool
  oldest : Option Int
  latest : Option Int
  never : Nat
deriving DecidableEq

def TimestampAggregate.default : TimestampAggregate := ⟨0, false, none, none, 0⟩

namespace TimestampAggregate

def add (aggregate : TimestampAggregate) :
    TimestampObservation → TimestampAggregate
  | .unavailable => { aggregate with unavailable := true }
  | .notApplicable => aggregate
  | .stored cell =>
    let aggregate :=
      { aggregate with applicable := Reader.saturatingAdd aggregate.applicable 1 }
    match cell with
    | some (.ts value) =>
      { aggregate with
        oldest := some (aggregate.oldest.elim value (min · value))
        latest := some (aggregate.latest.elim value (max · value)) }
    | some .null => { aggregate with never := Reader.saturatingAdd aggregate.never 1 }
    | _ => { aggregate with unavailable := true }

def merge (aggregate other : TimestampAggregate) : TimestampAggregate where
  applicable := Reader.saturatingAdd aggregate.applicable other.applicable
  unavailable := aggregate.unavailable || other.unavailable
  oldest := Option.merge min aggregate.oldest other.oldest
  latest := Option.merge max aggregate.latest other.latest
  never := Reader.saturatingAdd aggregate.never other.never

end TimestampAggregate

structure BoolAggregate where
  known : Nat
  truthy : Nat
  unavailable : Bool
deriving DecidableEq

def BoolAggregate.default : BoolAggregate := ⟨0, 0, false⟩

namespace BoolAggregate

def add (aggregate : BoolAggregate) : Option Cell → BoolAggregate
  | some (.bool value) =>
    { aggregate with
      known := Reader.saturatingAdd aggregate.known 1
      truthy := Reader.saturatingAdd aggregate.truthy value.toNat }
  | _ => { aggregate with unavailable := true }

def addScan (floats : FloatOps) (aggregate : BoolAggregate) : Input → BoolAggregate
  | .value number => aggregate.add (some (.bool (numberIsZero floats number)))
  | .neutral | .unavailable => { aggregate with unavailable := true }

def merge (aggregate other : BoolAggregate) : BoolAggregate where
  known := Reader.saturatingAdd aggregate.known other.known
  truthy := Reader.saturatingAdd aggregate.truthy other.truthy
  unavailable := aggregate.unavailable || other.unavailable

end BoolAggregate

/-! ## Fields -/

def tableRates : List String :=
  ["seq_scan", "seq_tup_read", "idx_scan", "idx_tup_fetch", "n_tup_ins", "n_tup_upd", "n_tup_del",
    "n_tup_hot_upd", "n_tup_newpage_upd", "vacuum_count", "autovacuum_count", "analyze_count",
    "autoanalyze_count", "total_vacuum_time", "total_autovacuum_time", "total_analyze_time",
    "total_autoanalyze_time", "heap_blks_read", "heap_blks_hit", "idx_blks_read", "idx_blks_hit",
    "toast_blks_read", "toast_blks_hit", "tidx_blks_read", "tidx_blks_hit"]

def tableStructuralRates : List String :=
  ["idx_scan", "idx_tup_fetch", "idx_blks_read", "idx_blks_hit", "toast_blks_read",
    "toast_blks_hit", "tidx_blks_read", "tidx_blks_hit"]

def tableGauges : List String :=
  ["n_live_tup", "n_dead_tup", "n_mod_since_analyze", "n_ins_since_vacuum", "main_fork_bytes",
    "toast_bytes", "toast_n_live_tup", "toast_n_dead_tup", "reltuples"]

def tableStructuralGauges : List String := ["toast_bytes", "toast_n_live_tup", "toast_n_dead_tup"]

def tableMaxima : List String := ["xid_age", "mxid_age"]

def tableTimestamps : List String :=
  ["last_vacuum", "last_autovacuum", "last_analyze", "last_autoanalyze", "last_seq_scan",
    "last_idx_scan", "toast_last_autovacuum"]

def indexRates : List String :=
  ["idx_scan", "idx_tup_read", "idx_tup_fetch", "idx_blks_read", "idx_blks_hit"]

def indexGauges : List String := ["main_fork_bytes"]

def indexTimestamps : List String := ["last_idx_scan"]

def indexFlags : List String :=
  ["indisunique", "indisprimary", "indisvalid", "indisexclusion", "indisready"]

namespace RelationKind

def rates : RelationKind → List String
  | .tables => tableRates
  | .indexes => indexRates

def gauges : RelationKind → List String
  | .tables => tableGauges
  | .indexes => indexGauges

def maxima : RelationKind → List String
  | .tables => tableMaxima
  | .indexes => []

def timestamps : RelationKind → List String
  | .tables => tableTimestamps
  | .indexes => indexTimestamps

def flags : RelationKind → List String
  | .tables => []
  | .indexes => indexFlags

def texts : RelationKind → List String
  | .tables => ["relname", "tablespace"]
  | .indexes => ["indexrelname", "relname", "tablespace", "amname", "indexdef"]

def identifiers : RelationKind → List String
  | .tables => []
  | .indexes => ["relid"]

end RelationKind

section Contributions

variable (floats : FloatOps) (kind : RelationKind) (member : Member)

def toastMissing : Bool := member.row.get "toast_bytes" = some .null

def rateInput (name : String) : Input :=
  counterInput floats member.contract member.row member.before name <|
    match kind with
    | .tables => name ∈ tableStructuralRates
    | .indexes => false

def gaugeOf (name : String) : Input :=
  match kind with
  | .tables =>
    let input := gaugeInput floats member.contract member.row name
      (name ∈ tableStructuralGauges && toastMissing member)
    if name = "reltuples" ∧ input = .value (.integer (-1)) then .unavailable else input
  | .indexes => gaugeInput floats member.contract member.row name false

def observation (name : String) : TimestampObservation :=
  if (member.contract.column name).isNone then .unavailable
  else if kind = .tables ∧ name = "toast_last_autovacuum" ∧ toastMissing member = true then
    .notApplicable
  else .stored (member.row.get name)

def severity : Option Int :=
  match boolCell (member.row.get "indisvalid"), boolCell (member.row.get "indisready") with
  | some false, _ => some 2
  | some true, some false => some 1
  | some true, some true => some 0
  | _, _ => none

/-- The start of the interval of a row, in the range of an `i64`. -/
def sampleFrom : Option Int :=
  member.elapsed.bind fun elapsed =>
    if -2 ^ 63 ≤ member.source.timestamp - elapsed ∧ member.source.timestamp - elapsed < 2 ^ 63 then
      some (member.source.timestamp - elapsed)
    else none

end Contributions

/-! ## The aggregate -/

inductive GroupKey where
  | database (datid : Nat) (datname : Format.Bytes)
  | schema (datid : Nat) (datname schemaname : Format.Bytes)
  | tablespace (tablespaceOid : Nat)
  | table (datid : Nat) (datname schemaname : Format.Bytes) (relid : Nat) (relname : Format.Bytes)
  | index (datid : Nat) (datname schemaname : Format.Bytes) (relid : Nat) (relname : Format.Bytes)
      (indexrelid : Nat) (indexrelname : Format.Bytes)
deriving DecidableEq

def GroupKey.isTablespace : GroupKey → Bool
  | .tablespace _ => true
  | _ => false

abbrev Named (α : Type) := String → Option α

structure RelationAggregate where
  key : GroupKey
  count : Nat
  source : RelationSource
  sampleFrom : Option Int
  sampleTo : Option Int
  rates : Named RateAggregate
  gauges : Named Availability
  maxima : Named MaximumAggregate
  timestamps : Named TimestampAggregate
  flags : Named BoolAggregate
  texts : Named Format.Bytes
  tablespaceLabelTimestamp : Option Int
  identifiers : Named Int
  noScans : BoolAggregate
  stateSeverity : Option Int

/-- `entry(name).or_default()` of all names, one after the other. -/
def updateNamed {α : Type} (names : List String) (empty : α) (update : String → α → α)
    (map : Named α) : Named α :=
  names.foldl (fun map name =>
    Function.update map name (some (update name ((map name).getD empty)))) map

def mergeNamed {α : Type} (empty : α) (merge : α → α → α) (map other : Named α) : Named α :=
  fun name => (other name).elim (map name) fun value => some (merge ((map name).getD empty) value)

/-- `entry(name).or_insert(value)` of all values that there are. -/
def insertNamed {α : Type} (values : List (String × Option α)) (map : Named α) : Named α :=
  values.foldl (fun map entry =>
    entry.2.elim map fun value =>
      Function.update map entry.1 (some ((map entry.1).getD value))) map

namespace RelationAggregate

def new (key : GroupKey) (source : RelationSource) : RelationAggregate where
  key := key
  count := 0
  source := source
  sampleFrom := none
  sampleTo := none
  rates := fun _ => none
  gauges := fun _ => none
  maxima := fun _ => none
  timestamps := fun _ => none
  flags := fun _ => none
  texts := fun _ => none
  tablespaceLabelTimestamp := none
  identifiers := fun _ => none
  noScans := BoolAggregate.default
  stateSeverity := none

/-- The label of the latest row, and the least of the labels of one time. -/
def updateTablespaceLabel (aggregate : RelationAggregate) (timestamp : Int)
    (label : Format.Bytes) : RelationAggregate :=
  if aggregate.tablespaceLabelTimestamp.all fun known =>
      known < timestamp ||
        (timestamp = known &&
          (aggregate.texts "tablespace").all fun current => compareBytes label current = .lt) then
    { aggregate with
      tablespaceLabelTimestamp := some timestamp
      texts := Function.update aggregate.texts "tablespace" (some label) }
  else aggregate

/-- One row without a severity leaves none to all. -/
def severityWith (aggregate : RelationAggregate) (severity : Option Int) : Option Int :=
  match aggregate.stateSeverity, severity with
  | some left, some right => some (max left right)
  | none, some value => if aggregate.count = 1 then some value else none
  | _, none => none

section Rows

variable (floats : FloatOps) (kind : RelationKind)

/-- The numbers of a row, behind its texts. -/
def addFields (aggregate : RelationAggregate) (member : Member)
    (texts : List (String × Option Format.Bytes)) : RelationAggregate :=
  { aggregate with
    rates := updateNamed kind.rates RateAggregate.default
      (fun name rate => rate.add floats (rateInput floats kind member name) member.elapsed)
      aggregate.rates
    gauges := updateNamed kind.gauges .empty
      (fun name gauge => Availability.add floats gauge (gaugeOf floats kind member name))
      aggregate.gauges
    maxima := updateNamed kind.maxima MaximumAggregate.default
      (fun name maximum =>
        maximum.add floats (member.contract.column name).isSome (member.row.get name))
      aggregate.maxima
    timestamps := updateNamed kind.timestamps TimestampAggregate.default
      (fun name timestamp => timestamp.add (observation kind member name)) aggregate.timestamps
    flags := updateNamed kind.flags BoolAggregate.default
      (fun name flag => flag.add (member.row.get name)) aggregate.flags
    texts := insertNamed texts aggregate.texts
    identifiers := insertNamed
      (kind.identifiers.map fun name => (name, integerCell floats (member.row.get name)))
      aggregate.identifiers
    noScans :=
      match kind with
      | .tables => aggregate.noScans
      | .indexes => aggregate.noScans.addScan floats (rateInput floats kind member "idx_scan")
    stateSeverity :=
      match kind with
      | .tables => aggregate.stateSeverity
      | .indexes => aggregate.severityWith (severity member) }

def readLabel (key : GroupKey) (member : Member) : Except QueryError (Option Format.Bytes) :=
  if key.isTablespace then textCell (member.row.get "tablespace") member.dictionary else .ok none

/-- A text that cannot be read ends the query, so nothing of its row is left behind. -/
def readTexts (key : GroupKey) (member : Member) :
    Except QueryError (Option Format.Bytes × List (String × Option Format.Bytes)) := do
  let label ← readLabel key member
  let texts ← kind.texts.mapM fun name =>
    (textCell (member.row.get name) member.dictionary).map fun text => (name, text)
  pure (label, texts)

/-- The count of a row, its place and its interval. -/
def counted (aggregate : RelationAggregate) (member : Member) : RelationAggregate :=
  { aggregate with
    count := Reader.saturatingAdd aggregate.count 1
    source := aggregate.source.min member.source
    sampleTo := some (aggregate.sampleTo.elim member.source.timestamp
      (max · member.source.timestamp))
    sampleFrom := (Relations.sampleFrom member).elim aggregate.sampleFrom fun value =>
      some (aggregate.sampleFrom.elim value (min · value)) }

def addRow (aggregate : RelationAggregate) (member : Member)
    (texts : Option Format.Bytes × List (String × Option Format.Bytes)) : RelationAggregate :=
  let counted := aggregate.counted member
  (texts.1.elim counted (counted.updateTablespaceLabel member.source.timestamp)).addFields floats
    kind member texts.2

def add (aggregate : RelationAggregate) (member : Member) :
    Except QueryError RelationAggregate :=
  (readTexts kind aggregate.key member).map (aggregate.addRow floats kind member)

end Rows

def mergeFields (floats : FloatOps) (aggregate other : RelationAggregate) : RelationAggregate :=
  { aggregate with
    count := Reader.saturatingAdd aggregate.count other.count
    source := aggregate.source.min other.source
    sampleFrom := Option.merge min aggregate.sampleFrom other.sampleFrom
    sampleTo := Option.merge max aggregate.sampleTo other.sampleTo
    rates := mergeNamed RateAggregate.default (RateAggregate.merge floats) aggregate.rates
      other.rates
    gauges := mergeNamed .empty (Availability.merge floats) aggregate.gauges other.gauges
    maxima := mergeNamed MaximumAggregate.default MaximumAggregate.merge aggregate.maxima
      other.maxima
    timestamps := mergeNamed TimestampAggregate.default TimestampAggregate.merge
      aggregate.timestamps other.timestamps
    flags := mergeNamed BoolAggregate.default BoolAggregate.merge aggregate.flags other.flags
    noScans := aggregate.noScans.merge other.noScans
    stateSeverity := aggregate.stateSeverity.bind fun left =>
      other.stateSeverity.map fun right => max left right }

def merge (floats : FloatOps) (aggregate other : RelationAggregate) : RelationAggregate :=
  match other.tablespaceLabelTimestamp, other.texts "tablespace" with
  | some timestamp, some label =>
    (aggregate.mergeFields floats other).updateTablespaceLabel timestamp label
  | _, _ => aggregate.mergeFields floats other

end RelationAggregate

/-! ## Parts -/

section Parts

variable (floats : FloatOps) (kind : RelationKind) (key : GroupKey)

def addMember (slot : Option RelationAggregate) (member : Member) :
    Except QueryError (Option RelationAggregate) :=
  ((slot.getD (RelationAggregate.new key member.source)).add floats kind member).map some

def aggregate (members : List Member) : Except QueryError (Option RelationAggregate) :=
  members.foldlM (addMember floats kind key) none

def mergeAll : List RelationAggregate → Option RelationAggregate
  | [] => none
  | first :: others => some (others.foldl (RelationAggregate.merge floats) first)

/-- The rows of each part in an aggregate of its own, and all of these merged. -/
def aggregateParts (parts : List (List Member)) : Except QueryError (Option RelationAggregate) :=
  (parts.mapM (aggregate floats kind key)).map fun slots => mergeAll floats slots.reduceOption

end Parts

end Relations
end Kronika.Query
