/-
The value that a page is ordered by.

An ordered request names columns and derived metrics, and every layout of the section takes
the first of them that it has.  So the rows of one page may be ordered by values of different
kinds, one kind for each layout.
-/
import Kronika.Query.RatioOrder
import Kronika.Query.RowPages

namespace Kronika.Query

/-! ## What a layout is ordered by -/

inductive PageOrderKind where
  | counterDelta (column : String)
  | column (column : String)
  | counterRatio (numerator denominator : List String) (neutralNulls : Bool)
  | valueRatio (numerator denominator : List String)
deriving DecidableEq

structure PageOrder where
  name : String
  kind : PageOrderKind
deriving DecidableEq

section Layout

variable (logicalName : String) (contract : TypeContract)

def hasColumn (name : String) : Bool := (contract.column name).isSome

def intervalColumn : String → Option String
  | "throttled_interval" => some "throttled_usec"
  | "local_oom_kill_delta" => some "local_oom_kill"
  | "failure_max_delta" => some "failure_max"
  | _ => none

def cgroupInterval (token : String) : Option String :=
  match logicalName, token with
  | "os_cgroup_v2_cpu", "derived.throttled_interval" => some "throttled_interval"
  | "os_cgroup_v2_memory", "derived.local_oom_kill_delta" => some "local_oom_kill_delta"
  | "os_cgroup_v2_pids", "derived.failure_max_delta" => some "failure_max_delta"
  | _, _ => none

/-- The derived metrics of the control groups. -/
def cgroupPageOrder (token : String) : Option PageOrder :=
  match cgroupInterval logicalName token with
  | some name =>
    (intervalColumn name).bind fun column =>
      if hasColumn contract column then some ⟨name, .counterDelta column⟩ else none
  | none =>
    if logicalName ≠ "os_cgroup_v2_cpu" then none
    else
      match token with
      | "derived.throttled_period_ratio" =>
        if hasColumn contract "nr_throttled" && hasColumn contract "nr_periods" then
          some ⟨"throttled_period_ratio", .counterRatio ["nr_throttled"] ["nr_periods"] false⟩
        else none
      | "derived.quota_cores" =>
        if hasColumn contract "quota_usec" && hasColumn contract "period_usec" then
          some ⟨"quota_cores", .valueRatio ["quota_usec"] ["period_usec"]⟩
        else none
      | _ => none

def derivedSupported : Bool :=
  match logicalName with
  | "pg_stat_statements" => 1002001 ≤ contract.typeId && contract.typeId ≤ 1002006
  | "pg_store_plans" =>
    contract.typeId = 1003001 || contract.typeId = 1004001 || contract.typeId = 1018001
  | "pg_stat_user_tables" => 1013005 ≤ contract.typeId && contract.typeId ≤ 1013008
  | "pg_stat_user_indexes" => 1014003 ≤ contract.typeId && contract.typeId ≤ 1014004
  | _ => false

def firstColumn (names : List String) : Option String := names.find? (hasColumn contract ·)

def presentColumns (names : List String) : List String := names.filter (hasColumn contract ·)

def countersOrder (name : String) (numerator denominator : List String) (neutralNulls : Bool) :
    Option PageOrder :=
  if numerator ≠ [] ∧ denominator ≠ [] then
    some ⟨name, .counterRatio numerator denominator neutralNulls⟩
  else none

def oneOver (name : String) (numerator denominator : List String) : Option PageOrder := do
  let numerator ← firstColumn contract numerator
  let denominator ← firstColumn contract denominator
  countersOrder name [numerator] [denominator] false

def gaugesOrder (name : String) (numerator denominator : List String) : Option PageOrder :=
  let numerator := presentColumns contract numerator
  let denominator := presentColumns contract denominator
  if numerator ≠ [] ∧ denominator ≠ [] then some ⟨name, .valueRatio numerator denominator⟩
  else none

def metricOrder (token : String) : Option PageOrder :=
  match token with
  | "derived.mean_exec_ms_per_call" =>
    oneOver contract "mean_exec_ms_per_call" ["total_exec_time", "total_time"] ["calls"]
  | "derived.rows_per_call" => oneOver contract "rows_per_call" ["rows"] ["calls"]
  | "derived.blocks_per_call" => do
    let calls ← firstColumn contract ["calls"]
    countersOrder "blocks_per_call"
      (presentColumns contract
        ["shared_blks_hit", "shared_blks_read", "local_blks_hit", "local_blks_read"])
      [calls] false
  | "derived.hit_pct" => do
    let hit ← firstColumn contract ["shared_blks_hit"]
    let read ← firstColumn contract ["shared_blks_read"]
    countersOrder "hit_pct" [hit] [hit, read] false
  | "derived.wal_per_call" => oneOver contract "wal_per_call" ["wal_bytes"] ["calls"]
  | "derived.plan_time_pct" => do
    let planning ← firstColumn contract ["total_plan_time"]
    let execution ← firstColumn contract ["total_exec_time", "total_time"]
    countersOrder "plan_time_pct" [planning] [planning, execution] false
  | "derived.cv" => do
    let deviation ← firstColumn contract ["stddev_exec_time", "stddev_time"]
    let mean ← firstColumn contract ["mean_exec_time", "mean_time"]
    return ⟨"cv", .valueRatio [deviation] [mean]⟩
  | "derived.dead_pct" =>
    gaugesOrder contract "dead_pct" ["n_dead_tup"] ["n_live_tup", "n_dead_tup"]
  | "derived.hot_pct" => oneOver contract "hot_pct" ["n_tup_hot_upd"] ["n_tup_upd"]
  | "derived.new_page_pct" =>
    oneOver contract "new_page_pct" ["n_tup_newpage_upd"] ["n_tup_upd"]
  | "derived.sequential_share_pct" =>
    countersOrder "sequential_share_pct" (presentColumns contract ["seq_scan"])
      (presentColumns contract ["seq_scan", "idx_scan"]) true
  | "derived.seq_tuples_per_scan" =>
    oneOver contract "seq_tuples_per_scan" ["seq_tup_read"] ["seq_scan"]
  | "derived.idx_tuples_per_scan" =>
    oneOver contract "idx_tuples_per_scan" ["idx_tup_fetch"] ["idx_scan"]
  | "derived.buffer_hit_pct" =>
    countersOrder "buffer_hit_pct"
      (presentColumns contract
        ["heap_blks_hit", "idx_blks_hit", "toast_blks_hit", "tidx_blks_hit"])
      (presentColumns contract
        ["heap_blks_hit", "heap_blks_read", "idx_blks_hit", "idx_blks_read", "toast_blks_hit",
          "toast_blks_read", "tidx_blks_hit", "tidx_blks_read"])
      true
  | "derived.vacuum_mean_ms" =>
    oneOver contract "vacuum_mean_ms" ["total_vacuum_time"] ["vacuum_count"]
  | "derived.autovacuum_mean_ms" =>
    oneOver contract "autovacuum_mean_ms" ["total_autovacuum_time"] ["autovacuum_count"]
  | "derived.analyze_mean_ms" =>
    oneOver contract "analyze_mean_ms" ["total_analyze_time"] ["analyze_count"]
  | "derived.autoanalyze_mean_ms" =>
    oneOver contract "autoanalyze_mean_ms" ["total_autoanalyze_time"] ["autoanalyze_count"]
  | "derived.tuples_per_scan" =>
    oneOver contract "tuples_per_scan" ["idx_tup_read"] ["idx_scan"]
  | "derived.fetches_per_scan" =>
    oneOver contract "fetches_per_scan" ["idx_tup_fetch"] ["idx_scan"]
  | _ => none

def derivedPageOrder (token : String) : Option PageOrder :=
  match cgroupPageOrder logicalName contract token with
  | some order => some order
  | none => if derivedSupported logicalName contract then metricOrder contract token else none

/-- The first requested name that the layout has a column or a metric for. -/
def pageOrder (requested : List String) : Option PageOrder :=
  requested.findSome? fun name =>
    match contract.column name with
    | some column => some ⟨column.name, .column column.name⟩
    | none => derivedPageOrder logicalName contract name

end Layout

/-! ## Contexts -/

inductive RowWindow where
  | untimed
  | shared (timestamp : String) (current : Int)
  | partitioned (timestamp column : String) (current : List (IdentityCell × Int))

abbrev CounterReadings := List (String × Cell)

abbrev Readings := List (List IdentityCell × CounterReadings)

/-- One layout of one source, with the rows before it. -/
structure PageContext where
  contextIndex : Nat
  contract : TypeContract
  plan : Plan
  logicalName : String
  window : RowWindow
  previous : Option Readings
  elapsed : Option Int
  elapsedByPartition : List (IdentityCell × Int)
  order : Option PageOrder
  clockTicksPerSecond : Option Nat
  blockSize : Option Nat

namespace PageContext

def elapsedFor (context : PageContext) (row : Row) : Option Int :=
  match context.window with
  | .partitioned _ column _ =>
    (row.get column).bind fun partition =>
      context.elapsedByPartition.lookup (identityCell partition)
  | .untimed | .shared _ _ => context.elapsed

/-- The readings before a row, unless the entity started anew since. -/
def predecessor (context : PageContext) (row : Row) (identity : List IdentityCell) :
    Option CounterReadings := do
  let previous ← context.previous
  let before ← previous.lookup identity
  match context.contract.column "starttime" with
  | none => return before
  | some column =>
    let now ← row.get column.name
    let earlier ← before.lookup column.name
    if now ≠ earlier then none else return before

end PageContext

/-! ## Order values -/

inductive PageOrderValue where
  | integer (value : Int)
  | float (bits : Nat)
  | integerRate (delta elapsed : Int)
  | floatRate (bits : Nat)
  | integerRatio (numerator denominator : Nat)
  | floatRatio (bits : Nat)
  | text (bytes : Format.Bytes)
deriving DecidableEq

def Resolved.storedBytes : Resolved → Format.Bytes
  | .str bytes => bytes
  | .blob storedBytes _ => storedBytes

section Values

variable (floats : FloatOps)

def addOrdered (left : Option OrderedNumber) (right : OrderedNumber) : Option OrderedNumber :=
  match left, right with
  | none, right => some right
  | some (.integer left), .integer right =>
    if -2 ^ 127 ≤ left + right ∧ left + right < 2 ^ 127 then some (.integer (left + right))
    else none
  | some left, right =>
    let sum := floats.add (left.asF64 floats) (right.asF64 floats)
    if floats.isFinite sum then some (.float sum) else none

def counterSumFrom (row : Row) (before : CounterReadings) (neutralNulls : Bool)
    (sum : Option OrderedNumber) : List String → Option OrderedNumber
  | [] => sum
  | column :: columns => do
    let now ← row.get column
    let earlier ← before.lookup column
    if neutralNulls ∧ now = .null ∧ earlier = .null then
      counterSumFrom row before neutralNulls sum columns
    else
      let value ← counterDelta floats now earlier
      let sum ← addOrdered floats sum value
      counterSumFrom row before neutralNulls (some sum) columns

def counterSum (row : Row) (before : CounterReadings) (columns : List String)
    (neutralNulls : Bool) : Option OrderedNumber :=
  counterSumFrom floats row before neutralNulls none columns

def valueSumFrom (row : Row) (sum : Option OrderedNumber) : List String → Option OrderedNumber
  | [] => sum
  | column :: columns => do
    let stored ← row.get column
    let value ← orderedCell floats stored
    let sum ← addOrdered floats sum value
    valueSumFrom row (some sum) columns

def valueSum (row : Row) (columns : List String) : Option OrderedNumber :=
  valueSumFrom floats row none columns

def ratioOrderValue (numerator denominator : OrderedNumber) : Option PageOrderValue :=
  let inexact :=
    let divisor := denominator.asF64 floats
    let ratio := floats.div (numerator.asF64 floats) divisor
    if floats.gt divisor (floats.ofInt 0) && floats.isFinite ratio then some (.floatRatio ratio)
    else none
  match numerator, denominator with
  | .integer numerator, .integer denominator =>
    if 0 ≤ numerator ∧ 0 < denominator then
      some (.integerRatio numerator.toNat denominator.toNat)
    else inexact
  | _, _ => inexact

def orderedValue : OrderedNumber → PageOrderValue
  | .integer value => .integer value
  | .float bits => .float bits

def columnOrderValue (context : PageContext) (row : Row) (identity : List IdentityCell)
    (dictionary : Dictionary) (column : String) : Option PageOrderValue := do
  let stored ← row.get column
  if (context.contract.column column).any (·.cls = .cumulative) then
    let elapsed ← context.elapsedFor row
    let before ← context.predecessor row identity
    let earlier ← before.lookup column
    match ← counterDelta floats stored earlier with
    | .integer delta => return .integerRate delta elapsed
    | .float delta =>
      let seconds := floats.div (floats.ofInt elapsed) (floats.ofInt 1000000)
      let rate := floats.div delta seconds
      if floats.isFinite rate then return .floatRate rate else none
  else
    match stored with
    | .strId id => (dictionary id).map fun resolved => .text resolved.storedBytes
    | stored => (orderedCell floats stored).map orderedValue

def pageOrderValue (context : PageContext) (row : Row) (identity : List IdentityCell)
    (dictionary : Dictionary) : Option PageOrderValue := do
  let order ← context.order
  let quota := match row.get "quota_usec" with
    | some (.i64 value) => decide (0 < value)
    | _ => false
  if order.name = "quota_cores" ∧ quota = false then none
  else
    match order.kind with
    | .counterDelta column =>
      let _elapsed ← context.elapsedFor row
      let before ← context.predecessor row identity
      let now ← row.get column
      let earlier ← before.lookup column
      (counterDelta floats now earlier).map orderedValue
    | .column column => columnOrderValue floats context row identity dictionary column
    | .counterRatio numerator denominator neutralNulls =>
      let _elapsed ← context.elapsedFor row
      let before ← context.predecessor row identity
      let numerator ← counterSum floats row before numerator neutralNulls
      let denominator ← counterSum floats row before denominator neutralNulls
      ratioOrderValue floats numerator denominator
    | .valueRatio numerator denominator =>
      let numerator ← valueSum floats row numerator
      let denominator ← valueSum floats row denominator
      ratioOrderValue floats numerator denominator

end Values

end Kronika.Query
