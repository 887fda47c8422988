/-
The scheduler of the source groups.

Times are nanoseconds.  A group is planned when its interval has elapsed since it was
last read.  Forcing bypasses the interval of every group but statements and plans, so
that two readings of these stay five minutes apart: `Cooled` is what any call leaves of
an earlier reading, and it is what the next plan has to wait for.
-/
import Kronika.Library.Run
import Mathlib.Data.List.MinMax
import Mathlib.Data.List.Nodup

namespace Kronika.Collector

inductive SourceKind where
  | osCore
  | osMountTopo
  | osProcesses
  | osProcessStatus
  | osCgroup
  | osCgroupMapping
  | logs
  | pgActivity
  | pgInstance
  | pgTablesAndIndexes
  | pgStatementsAndPlans
deriving DecidableEq

/-- `ALL_SOURCES`, in the order of planning. -/
def allSources : List SourceKind :=
  [.osCore, .osMountTopo, .osProcesses, .osProcessStatus, .osCgroup, .osCgroupMapping, .logs,
    .pgActivity, .pgInstance, .pgTablesAndIndexes, .pgStatementsAndPlans]

/-- `MIN_PG_STATEMENTS_INTERVAL_SECS`. -/
def minPgStatementsIntervalSecs : Nat := 300

/-- `Duration::from_secs`. -/
def fromSecs (seconds : Nat) : Nat := seconds * 1000000000

/-- The configured intervals, in seconds. -/
structure Intervals where
  osCore : Nat
  osMountTopo : Nat
  osProcesses : Nat
  osProcessStatus : Nat
  osCgroup : Nat
  osCgroupMapping : Nat
  logs : Nat
  pgActivity : Nat
  pgActivityBlocked : Nat
  pgInstance : Nat
  pgTablesAndIndexes : Nat
  pgStatementsAndPlans : Nat

def Intervals.default : Intervals :=
  { osCore := 10
    osMountTopo := 60
    osProcesses := 5
    osProcessStatus := 30
    osCgroup := 30
    osCgroupMapping := 30
    logs := 10
    pgActivity := 10
    pgActivityBlocked := 5
    pgInstance := 30
    pgTablesAndIndexes := 300
    pgStatementsAndPlans := minPgStatementsIntervalSecs }

def Intervals.of (intervals : Intervals) : SourceKind → Nat
  | .osCore => intervals.osCore
  | .osMountTopo => intervals.osMountTopo
  | .osProcesses => intervals.osProcesses
  | .osProcessStatus => intervals.osProcessStatus
  | .osCgroup => intervals.osCgroup
  | .osCgroupMapping => intervals.osCgroupMapping
  | .logs => intervals.logs
  | .pgActivity => intervals.pgActivity
  | .pgInstance => intervals.pgInstance
  | .pgTablesAndIndexes => intervals.pgTablesAndIndexes
  | .pgStatementsAndPlans => intervals.pgStatementsAndPlans

inductive CollectorMode where
  | local
  | postgresql
deriving DecidableEq

def CollectorMode.collectOs (mode : CollectorMode) : Bool := mode == .local

structure ScheduledSource where
  kind : SourceKind
  interval : Nat
  lastRead : Option Nat
deriving DecidableEq

/-- The groups of one collection window. -/
structure DueSet where
  kinds : List SourceKind
  forced : Bool
deriving DecidableEq

namespace DueSet

def has (due : DueSet) (kind : SourceKind) : Bool := due.kinds.contains kind

def isEmpty (due : DueSet) : Bool := due.kinds.isEmpty

end DueSet

structure Scheduler where
  sources : List ScheduledSource
  pgActivityInterval : Nat
  pgActivityBlockedInterval : Nat
deriving DecidableEq

def ScheduledSource.due (source : ScheduledSource) (now : Nat) (force : Bool) : Bool :=
  (force && source.kind ≠ .pgStatementsAndPlans) ||
    source.lastRead.all fun last => decide (source.interval ≤ now - last)

def ScheduledSource.readAt (source : ScheduledSource) (now : Nat) : ScheduledSource :=
  { source with lastRead := some now }

namespace Scheduler

def new (intervals : Intervals) (mode : CollectorMode) (collectCgroups : Bool) : Scheduler :=
  let kinds := (allSources.filter fun kind =>
    mode.collectOs || [SourceKind.logs, .pgActivity, .pgInstance, .pgTablesAndIndexes,
      .pgStatementsAndPlans].contains kind).filter fun kind =>
    collectCgroups || !([SourceKind.osCgroup, .osCgroupMapping].contains kind)
  let sources := kinds.map fun kind =>
    let seconds := intervals.of kind
    let seconds :=
      if kind = .pgStatementsAndPlans then max seconds minPgStatementsIntervalSecs else seconds
    { kind := kind, interval := fromSecs seconds, lastRead := none : ScheduledSource }
  { sources := sources
    pgActivityInterval := fromSecs intervals.pgActivity
    pgActivityBlockedInterval := fromSecs intervals.pgActivityBlocked }

/-- The statement cooldown begins after the whole `PostgreSQL` pass; activity follows the
blocking that the pass found. -/
def finishPostgres (scheduler : Scheduler) (due : DueSet) (blocking : Option Bool) (now : Nat) :
    Scheduler :=
  { scheduler with
    sources := scheduler.sources.map fun source =>
      match source.kind with
      | .pgStatementsAndPlans =>
        if due.has .pgStatementsAndPlans then source.readAt now else source
      | .pgActivity =>
        match blocking with
        | none => source
        | some true =>
          { source with
            interval := min scheduler.pgActivityInterval scheduler.pgActivityBlockedInterval }
        | some false => { source with interval := scheduler.pgActivityInterval }
      | _ => source }

def plan (scheduler : Scheduler) (now : Nat) (force : Bool) : DueSet × Scheduler :=
  ({ kinds := (scheduler.sources.filter fun source => source.due now force).map
      ScheduledSource.kind
     forced := force },
    { scheduler with
      sources := scheduler.sources.map fun source =>
        if source.due now force then source.readAt now else source })

def nextElapsedDueIn (scheduler : Scheduler) (now : Nat) : Option Nat :=
  ((scheduler.sources.filter fun source => source.interval ≠ 0).filterMap fun source =>
    source.lastRead.map fun last => source.interval - (now - last)).min?

/-- Forgets the first source of the mount and topology group. -/
def forgetMountTopo : List ScheduledSource → List ScheduledSource
  | [] => []
  | source :: sources =>
    if source.kind = .osMountTopo then { source with lastRead := none } :: sources
    else source :: forgetMountTopo sources

def markSegmentOpened (scheduler : Scheduler) : Scheduler :=
  { scheduler with sources := forgetMountTopo scheduler.sources }

/-- A window is rebuilt after a segment opened; statements are repeated without a new
cooldown. -/
def recollectionDue (scheduler : Scheduler) (due : DueSet) (now : Nat) : DueSet × Scheduler :=
  let selected (source : ScheduledSource) : Bool :=
    due.has source.kind || source.kind = .osMountTopo
  ({ kinds := (scheduler.sources.filter selected).map ScheduledSource.kind
     forced := due.forced },
    { scheduler with
      sources := scheduler.sources.map fun source =>
        if selected source && source.kind ≠ .pgStatementsAndPlans then source.readAt now
        else source })

/-! ## Runs -/

inductive Call where
  | plan (now : Nat) (force : Bool)
  | finishPostgres (due : DueSet) (blocking : Option Bool) (now : Nat)
  | recollectionDue (due : DueSet) (now : Nat)
  | markSegmentOpened

def Call.time : Call → Option Nat
  | .plan now _ => some now
  | .finishPostgres _ _ now => some now
  | .recollectionDue _ now => some now
  | .markSegmentOpened => none

def step (scheduler : Scheduler) : Call → Scheduler
  | .plan now force => (scheduler.plan now force).2
  | .finishPostgres due blocking now => scheduler.finishPostgres due blocking now
  | .recollectionDue due now => (scheduler.recollectionDue due now).2
  | .markSegmentOpened => scheduler.markSegmentOpened

def Ordered (calls : List Call) : Prop := (calls.filterMap Call.time).Pairwise (· ≤ ·)

/-- Whether the call reads statements and plans: a plan that selects them, or the finish of
a pass that had them. -/
def readsStatements (scheduler : Scheduler) : Call → Bool
  | .plan now force => (scheduler.plan now force).1.has .pgStatementsAndPlans
  | .finishPostgres due _ _ => due.has .pgStatementsAndPlans
  | .recollectionDue _ _ => false
  | .markSegmentOpened => false

/-! ## What a call does to a source -/

/-- A call may read a source at its time, and forget the mounts' reading; only the activity
group changes its interval. -/
structure Changed (call : Call) (source after : ScheduledSource) : Prop where
  kind : after.kind = source.kind
  interval : source.kind ≠ .pgActivity → after.interval = source.interval
  lastRead : after.lastRead = source.lastRead ∨
    (source.kind = .osMountTopo ∧ after.lastRead = none) ∨
    ∃ now, call.time = some now ∧ after.lastRead = some now

theorem Changed.refl (call : Call) (source : ScheduledSource) : Changed call source source :=
  ⟨rfl, fun _ => rfl, Or.inl rfl⟩

variable {call : Call}

theorem Changed.readAt {now : Nat} (h : call.time = some now)
    (source : ScheduledSource) : Changed call source (source.readAt now) :=
  ⟨rfl, fun _ => rfl, Or.inr (Or.inr ⟨now, h, rfl⟩)⟩

theorem mem_forgetMountTopo {sources : List ScheduledSource} {after : ScheduledSource}
    (h : after ∈ forgetMountTopo sources) :
    ∃ source ∈ sources, Changed .markSegmentOpened source after := by
  induction sources with
  | nil => exact absurd h List.not_mem_nil
  | cons source sources ih =>
    rw [forgetMountTopo] at h
    split at h
    · rename_i hmount
      rcases List.mem_cons.mp h with rfl | hmem
      · exact ⟨source, List.mem_cons_self, rfl, fun _ => rfl, Or.inr (Or.inl ⟨hmount, rfl⟩)⟩
      · exact ⟨after, List.mem_cons_of_mem source hmem, .refl _ after⟩
    · rcases List.mem_cons.mp h with rfl | hmem
      · exact ⟨after, List.mem_cons_self, .refl _ after⟩
      · obtain ⟨other, hother, hchanged⟩ := ih hmem
        exact ⟨other, List.mem_cons_of_mem source hother, hchanged⟩

variable {scheduler : Scheduler}

theorem step_changed {after : ScheduledSource} (h : after ∈ (scheduler.step call).sources) :
    ∃ source ∈ scheduler.sources, Changed call source after := by
  cases call with
  | plan now force =>
    obtain ⟨source, hsource, rfl⟩ := List.mem_map.mp h
    refine ⟨source, hsource, ?_⟩
    split
    · exact .readAt rfl source
    · exact .refl _ source
  | finishPostgres due blocking now =>
    obtain ⟨source, hsource, rfl⟩ := List.mem_map.mp h
    refine ⟨source, hsource, ?_⟩
    split
    · split
      · exact .readAt rfl source
      · exact .refl _ source
    · rename_i hkind
      split
      · exact .refl _ source
      · exact ⟨rfl, fun hne => absurd hkind hne, Or.inl rfl⟩
      · exact ⟨rfl, fun hne => absurd hkind hne, Or.inl rfl⟩
    · exact .refl _ source
  | recollectionDue due now =>
    obtain ⟨source, hsource, rfl⟩ := List.mem_map.mp h
    refine ⟨source, hsource, ?_⟩
    split
    · exact .readAt rfl source
    · exact .refl _ source
  | markSegmentOpened => exact mem_forgetMountTopo h

theorem kinds_forgetMountTopo (sources : List ScheduledSource) :
    (forgetMountTopo sources).map ScheduledSource.kind = sources.map ScheduledSource.kind := by
  induction sources with
  | nil => rfl
  | cons source sources ih =>
    rw [forgetMountTopo]
    split
    · rfl
    · rw [List.map_cons, ih, List.map_cons]

theorem kinds_map {sources : List ScheduledSource} {change : ScheduledSource → ScheduledSource}
    (h : ∀ source, (change source).kind = source.kind) :
    (sources.map change).map ScheduledSource.kind = sources.map ScheduledSource.kind := by
  rw [List.map_map]
  exact List.map_congr_left fun source _ => h source

theorem kinds_step (scheduler : Scheduler) (call : Call) :
    (scheduler.step call).sources.map ScheduledSource.kind =
      scheduler.sources.map ScheduledSource.kind := by
  cases call with
  | plan now force =>
    apply kinds_map
    intro source
    split <;> rfl
  | finishPostgres due blocking now =>
    apply kinds_map
    intro source
    split
    · split <;> rfl
    · split <;> rfl
    · rfl
  | recollectionDue due now =>
    apply kinds_map
    intro source
    split <;> rfl
  | markSegmentOpened => exact kinds_forgetMountTopo scheduler.sources

/-! ## The statement cooldown -/

/-- The invariant: every group stands once, statements and plans have at least their minimum
interval, and nothing was read after `now`. -/
structure Inv (now : Nat) (scheduler : Scheduler) : Prop where
  kinds : (scheduler.sources.map ScheduledSource.kind).Nodup
  interval : ∀ source ∈ scheduler.sources, source.kind = .pgStatementsAndPlans →
    fromSecs minPgStatementsIntervalSecs ≤ source.interval
  lastRead : ∀ source ∈ scheduler.sources, ∀ last, source.lastRead = some last → last ≤ now

theorem inv_new (intervals : Intervals) (mode : CollectorMode) (collectCgroups : Bool) :
    Inv 0 (new intervals mode collectCgroups) where
  kinds := by
    have hall : allSources.Nodup := by decide
    rw [new, List.map_map]
    show (List.map (fun kind => kind) _).Nodup
    rw [List.map_id']
    exact (hall.filter _).filter _
  interval source hsource hkind := by
    obtain ⟨kind, -, rfl⟩ := List.mem_map.mp hsource
    obtain rfl : kind = .pgStatementsAndPlans := hkind
    exact Nat.mul_le_mul_right _ (Nat.le_max_right _ _)
  lastRead source hsource last hlast := by
    obtain ⟨kind, -, rfl⟩ := List.mem_map.mp hsource
    cases hlast

theorem Inv.step {now later : Nat} (h : Inv now scheduler) {call : Call}
    (hlater : now ≤ later) (htime : ∀ time, call.time = some time → time ≤ later) :
    Inv later (scheduler.step call) where
  kinds := by
    rw [kinds_step]
    exact h.kinds
  interval after hafter hkind := by
    obtain ⟨source, hsource, hchanged⟩ := step_changed hafter
    have hkind' : source.kind = .pgStatementsAndPlans := hchanged.kind.symm.trans hkind
    rw [hchanged.interval (by rw [hkind']; decide)]
    exact h.interval source hsource hkind'
  lastRead after hafter last hlast := by
    obtain ⟨source, hsource, hchanged⟩ := step_changed hafter
    rcases hchanged.lastRead with hsame | ⟨-, hnone⟩ | ⟨time, hcall, hread⟩
    · exact (h.lastRead source hsource last (hsame.symm.trans hlast)).trans hlater
    · rw [hnone] at hlast
      cases hlast
    · rw [hread] at hlast
      cases hlast
      exact htime last hcall

/-- Statements and plans were last read at `since` or later. -/
def Cooled (since : Nat) (scheduler : Scheduler) : Prop :=
  ∀ source ∈ scheduler.sources, source.kind = .pgStatementsAndPlans →
    ∃ last, source.lastRead = some last ∧ since ≤ last

theorem Cooled.step {since : Nat} (h : Cooled since scheduler)
    {call : Call} (htime : ∀ time, call.time = some time → since ≤ time) :
    Cooled since (scheduler.step call) := by
  intro after hafter hkind
  obtain ⟨source, hsource, hchanged⟩ := step_changed hafter
  have hkind' : source.kind = .pgStatementsAndPlans := hchanged.kind.symm.trans hkind
  rcases hchanged.lastRead with hsame | ⟨hmount, -⟩ | ⟨time, hcall, hread⟩
  · rw [hsame]
    exact h source hsource hkind'
  · rw [hkind'] at hmount
    cases hmount
  · exact ⟨time, hread, htime time hcall⟩

theorem has_plan {now : Nat} {force : Bool} {kind : SourceKind} :
    (scheduler.plan now force).1.has kind = true ↔
      ∃ source ∈ scheduler.sources, source.due now force = true ∧ source.kind = kind := by
  simp only [plan, DueSet.has, List.contains_iff_mem, List.mem_map, List.mem_filter, and_assoc]

theorem cooled_of_reads {now time : Nat} (hinv : Inv now scheduler) (htime : call.time = some time)
    (h : scheduler.readsStatements call = true) : Cooled time (scheduler.step call) := by
  intro after hafter hkind
  cases call with
  | plan planned force =>
    obtain rfl : planned = time := Option.some.inj htime
    obtain ⟨selected, hselected, hdue, hstatements⟩ := has_plan.mp h
    obtain ⟨source, hsource, rfl⟩ := List.mem_map.mp hafter
    have hsame : source = selected := by
      apply List.inj_on_of_nodup_map hinv.kinds hsource hselected
      rw [hstatements, ← hkind]
      split <;> rfl
    rw [hsame, if_pos hdue]
    exact ⟨planned, rfl, le_rfl⟩
  | finishPostgres due blocking finished =>
    obtain rfl : finished = time := Option.some.inj htime
    obtain ⟨source, hsource, rfl⟩ := List.mem_map.mp hafter
    have hdue : due.has .pgStatementsAndPlans = true := h
    have hsource' : source.kind = .pgStatementsAndPlans := by
      rw [← hkind]
      split
      · split <;> rfl
      · split <;> rfl
      · rfl
    rw [hsource']
    rw [if_pos hdue]
    exact ⟨finished, rfl, le_rfl⟩
  | recollectionDue due now => cases h
  | markSegmentOpened => cases h

theorem plan_waits {since before now : Nat} {force : Bool}
    (hinv : Inv before scheduler) (hcooled : Cooled since scheduler)
    (h : (scheduler.plan now force).1.has .pgStatementsAndPlans = true) :
    since + fromSecs minPgStatementsIntervalSecs ≤ now := by
  obtain ⟨source, hsource, hdue, hkind⟩ := has_plan.mp h
  obtain ⟨last, hlast, hsince⟩ := hcooled source hsource hkind
  have hinterval := hinv.interval source hsource hkind
  have helapsed : source.interval ≤ now - last := by
    simpa [ScheduledSource.due, hkind, hlast] using hdue
  have hpositive : 0 < fromSecs minPgStatementsIntervalSecs := by decide
  omega

/-! ## The next elapsed interval -/

theorem mem_waits {now wait : Nat} :
    wait ∈ (scheduler.sources.filter fun source => source.interval ≠ 0).filterMap
        (fun source => source.lastRead.map fun last => source.interval - (now - last)) ↔
      ∃ source ∈ scheduler.sources, source.interval ≠ 0 ∧
        ∃ last, source.lastRead = some last ∧ source.interval - (now - last) = wait := by
  simp only [List.mem_filterMap, List.mem_filter, decide_eq_true_eq, Option.map_eq_some_iff,
    and_assoc]

/-- A plan after the wait selects a group, and a plan before it, when not forced, selects
just those that were never read or have no interval. -/
theorem nextElapsedDueIn_spec {now wait : Nat} (hinv : Inv now scheduler)
    (h : scheduler.nextElapsedDueIn now = some wait) :
    (∀ force, (scheduler.plan (now + wait) force).1.isEmpty = false) ∧
      ∀ earlier, now ≤ earlier → earlier < now + wait → ∀ kind,
        (scheduler.plan earlier false).1.has kind = true ↔
          ∃ source ∈ scheduler.sources, source.kind = kind ∧
            (source.lastRead = none ∨ source.interval = 0) := by
  obtain ⟨hmem, hleast⟩ := List.min?_eq_some_iff.mp h
  obtain ⟨source, hsource, hpositive, last, hlast, hwait⟩ := mem_waits.mp hmem
  refine ⟨fun force => ?_, fun earlier hnow hearlier kind => ?_⟩
  · have hle := hinv.lastRead source hsource last hlast
    have hdue : source.due (now + wait) force = true := by
      simp only [ScheduledSource.due, hlast, Option.all_some, Bool.or_eq_true, decide_eq_true_eq]
      right
      omega
    have hhas := has_plan.mpr ⟨source, hsource, hdue, rfl⟩
    rw [DueSet.has, List.contains_iff_mem] at hhas
    rw [DueSet.isEmpty, List.isEmpty_eq_false_iff]
    exact List.ne_nil_of_mem hhas
  · rw [has_plan]
    constructor
    · rintro ⟨other, hother, hdue, hkind⟩
      refine ⟨other, hother, hkind, ?_⟩
      by_contra hneither
      obtain ⟨hread, hzero⟩ := not_or.mp hneither
      obtain ⟨last', hlast'⟩ := Option.ne_none_iff_exists'.mp hread
      have helapsed : other.interval ≤ earlier - last' := by
        simpa [ScheduledSource.due, hlast'] using hdue
      have hbound := hleast _ (mem_waits.mpr ⟨other, hother, hzero, last', hlast', rfl⟩)
      omega
    · rintro ⟨other, hother, hkind, hnone | hzero⟩
      · exact ⟨other, hother, by simp [ScheduledSource.due, hnone], hkind⟩
      · refine ⟨other, hother, ?_, hkind⟩
        cases hlast' : other.lastRead with
        | none => simp [ScheduledSource.due, hlast']
        | some last' => simp [ScheduledSource.due, hzero]

/-! ## Whole runs -/

theorem inv_run (intervals : Intervals) (mode : CollectorMode) (collectCgroups : Bool)
    {calls : List Call} {now : Nat}
    (hcalls : ∀ call ∈ calls, ∀ time, call.time = some time → time ≤ now) :
    Inv now (Run.finish step (new intervals mode collectCgroups) calls) := by
  have hstart : Inv now (new intervals mode collectCgroups) := by
    obtain ⟨hkinds, hinterval, hread⟩ := inv_new intervals mode collectCgroups
    exact ⟨hkinds, hinterval, fun source hsource last hlast =>
      (hread source hsource last hlast).trans (Nat.zero_le now)⟩
  refine Run.invariant (fun _ call hcall h (_ : True) => h.step le_rfl (hcalls call hcall)) hstart
    (Run.Along.of_forall fun _ _ _ => trivial)

theorem Cooled.run {since : Nat} {calls : List Call} (h : Cooled since scheduler)
    (hcalls : ∀ call ∈ calls, ∀ time, call.time = some time → since ≤ time) :
    Cooled since (Run.finish Scheduler.step scheduler calls) :=
  Run.invariant (fun _ call hcall h (_ : True) => h.step (hcalls call hcall)) h
    (Run.Along.of_forall fun _ _ _ => trivial)

/-- In every run whose times do not decrease, a plan that selects statements and plans comes
at least five minutes after each earlier plan that did and each pass that finished with
them.  A plan that waits what `nextElapsedDueIn` says selects a group, and one made before
that, not forced, selects just the groups that were never read or have no interval. -/
theorem scheduler_spacing (intervals : Intervals) (mode : CollectorMode) (collectCgroups : Bool) :
    (∀ (before mid : List Call) (call : Call) (time now : Nat) (force : Bool),
      Ordered (before ++ call :: (mid ++ [.plan now force])) → call.time = some time →
      (Run.finish step (new intervals mode collectCgroups) before).readsStatements call = true →
      (Run.finish step (new intervals mode collectCgroups)
        (before ++ call :: mid)).readsStatements (.plan now force) = true →
      time + fromSecs minPgStatementsIntervalSecs ≤ now) ∧
    ∀ (calls : List Call) (now wait : Nat),
      (∀ call ∈ calls, ∀ time, call.time = some time → time ≤ now) →
      (Run.finish step (new intervals mode collectCgroups) calls).nextElapsedDueIn now =
        some wait →
      (∀ force, ((Run.finish step (new intervals mode collectCgroups) calls).plan (now + wait)
        force).1.isEmpty = false) ∧
      ∀ earlier, now ≤ earlier → earlier < now + wait → ∀ kind,
        ((Run.finish step (new intervals mode collectCgroups) calls).plan earlier false).1.has
            kind = true ↔
          ∃ source ∈ (Run.finish step (new intervals mode collectCgroups) calls).sources,
            source.kind = kind ∧ (source.lastRead = none ∨ source.interval = 0) := by
  refine ⟨fun before mid call time now force hordered htime hreads hplan => ?_,
    fun calls now wait hcalls hwait => nextElapsedDueIn_spec (inv_run _ _ _ hcalls) hwait⟩
  have htimes := hordered
  unfold Ordered at htimes
  rw [List.filterMap_append, List.filterMap_cons_some htime, List.filterMap_append] at htimes
  obtain ⟨-, hafter, hbefore⟩ := List.pairwise_append.mp htimes
  obtain ⟨hcall, hmid⟩ := List.pairwise_cons.mp hafter
  obtain ⟨-, -, hlast⟩ := List.pairwise_append.mp hmid
  have hsince : ∀ other ∈ mid, ∀ otherTime, other.time = some otherTime → time ≤ otherTime :=
    fun other hother otherTime hotherTime => hcall otherTime
      (List.mem_append_left _ (List.mem_filterMap.mpr ⟨other, hother, hotherTime⟩))
  have huntil : ∀ other ∈ before ++ call :: mid, ∀ otherTime, other.time = some otherTime →
      otherTime ≤ now := by
    intro other hother otherTime hotherTime
    have hnow : now ∈ List.filterMap Call.time [Call.plan now force] := List.mem_singleton.mpr rfl
    rcases List.mem_append.mp hother with hold | hnew
    · exact hbefore otherTime (List.mem_filterMap.mpr ⟨other, hold, hotherTime⟩) now
        (List.mem_cons_of_mem _ (List.mem_append_right _ hnow))
    · rcases List.mem_cons.mp hnew with rfl | hmem
      · rw [htime] at hotherTime
        cases hotherTime
        exact hcall now (List.mem_append_right _ hnow)
      · exact hlast otherTime (List.mem_filterMap.mpr ⟨other, hmem, hotherTime⟩) now hnow
  have hinv := inv_run intervals mode collectCgroups huntil
  have hbegins : Inv now (Run.finish step (new intervals mode collectCgroups) before) :=
    inv_run _ _ _ fun other hother => huntil other (List.mem_append_left _ hother)
  have hcooled := (cooled_of_reads hbegins htime hreads).run hsince
  rw [Run.finish_append] at hplan hinv
  exact plan_waits hinv hcooled hplan

theorem time_firstPlan :
    ∀ call ∈ [Call.plan 0 false], ∀ time, call.time = some time → time ≤ 0 := by
  intro call hcall time htime
  rw [List.mem_singleton.mp hcall] at htime
  cases htime
  exact le_rfl

/-- The defaults: statements are read at the first plan and five minutes later, and after the
first plan the next group is due in five seconds. -/
theorem scheduler_spacing_default :
    0 + fromSecs minPgStatementsIntervalSecs ≤ fromSecs 300 ∧
    (((new .default .local true).plan 0 false).2.plan (0 + fromSecs 5) false).1.isEmpty = false ∧
    ((((new .default .local true).plan 0 false).2.plan (fromSecs 4) false).1.has .logs = true ↔
      ∃ source ∈ ((new .default .local true).plan 0 false).2.sources, source.kind = .logs ∧
        (source.lastRead = none ∨ source.interval = 0)) := by
  obtain ⟨hspacing, hwait⟩ := scheduler_spacing .default .local true
  obtain ⟨hafter, hbefore⟩ := hwait [.plan 0 false] 0 (fromSecs 5) time_firstPlan (by decide)
  exact ⟨hspacing [] [.finishPostgres ⟨[], false⟩ none 7] (.plan 0 false) 0 (fromSecs 300) true
      (show List.Pairwise (· ≤ ·) [0, 7, fromSecs 300] by decide) rfl (by decide) (by decide),
    hafter false, hbefore (fromSecs 4) (by decide) (by decide) .logs⟩

/-- Logs without an interval are read at every plan, long before the wait that the other
groups' intervals give is over. -/
theorem not_quiet_before_wait :
    ¬∀ (intervals : Intervals) (mode : CollectorMode) (collectCgroups : Bool)
      (calls : List Call) (now wait : Nat),
      (∀ call ∈ calls, ∀ time, call.time = some time → time ≤ now) →
      (Run.finish step (new intervals mode collectCgroups) calls).nextElapsedDueIn now =
        some wait →
      ∀ earlier, now ≤ earlier → earlier < now + wait →
        ((Run.finish step (new intervals mode collectCgroups) calls).plan earlier
          false).1.isEmpty = true := by
  intro h
  have hquiet := h { Intervals.default with logs := 0 } .local true [.plan 0 false] 0 (fromSecs 5)
    time_firstPlan (by decide) 1 (by decide) (by decide)
  revert hquiet
  decide

end Scheduler

end Kronika.Collector
