/-
Construction of the presentation series of a segment.

What the rows of a segment and of its predecessors say is a parameter here: the points of every
series and the locators of every rule are those of some reading.  Which blocks a build makes of
them, and under which keys, is the subject.
-/
import Kronika.Index.Selection
import Kronika.Library.SortedEntries

namespace Kronika.Index

open Format Library Reader

inductive BuildError where
  | reader (problem : String)
  | unresolvedState (id : Nat)
  | invalidMetadata
  | invalidLogErrorCategory
deriving DecidableEq

structure MetadataProjection where
  ambiguous : Bool
  timestamp : Option Int64
  environment : Option UInt32
  bootId : Option UInt64
  bootTime : Option Int64
  osEnabled : Option Bool
  postgresqlProcessesShared : Bool
  postgresqlEnabled : Option Bool
  postgresqlEffectiveCpus : Option UInt32
  postgresqlIntervalSeconds : Option UInt64
deriving DecidableEq

structure HealthMetadata where
  timestamp : Int64
  osEnabled : Option Bool
  postgresqlEnabled : Option Bool
  postgresqlIntervalSeconds : UInt64
deriving DecidableEq

structure ActiveBackendSample where
  timestamp : Int64
  firstActiveOrdinal : Option UInt32
  count : UInt32
  lockWaiting : UInt32
deriving DecidableEq

inductive SourcePenalty where
  | disabled
  | unknown
  | known (penalty : UInt8)

/-- What a build reads: the catalogs of the segment, and what the rows of the segment and of its
predecessors say.  `κ` is the recorded capacity. -/
structure Readings (κ : Type) where
  minTs : Int64
  catalogs : List Catalog
  metadataProjection : Except BuildError (Option MetadataProjection)
  /-- `RecordedCpuCapacity::read` and the seed. -/
  recordedCapacity : MetadataProjection → Except BuildError κ
  noCapacity : κ
  /-- `postgres_penalty` of an active count at the capacity of a timestamp. -/
  penaltyAt : κ → Int64 → UInt32 → Option UInt8
  osPoints : Option MetadataProjection → Except BuildError (List HealthPoint)
  postgresSeed : Option HealthPoint
  activeBackendSamples : UInt32 → Except BuildError (List ActiveBackendSample)
  transactionPoints : UInt32 → Except BuildError (List TransactionPoint)
  /-- What the rules find for each layout, from the rows and from what was built. -/
  findings : List SeriesBlock → List (UInt32 × List ActiveBackendSample) → κ →
    Except BuildError (UInt32 → List Finding)

variable {κ : Type}

namespace Readings

def typeIds (readings : Readings κ) : List UInt32 := Index.typeIds readings.catalogs

/-- `rows_of` gives rows. -/
def recorded (readings : Readings κ) (typeId : UInt32) : Bool := readings.typeIds.contains typeId

/-! ## Health -/

def healthMetadata (readings : Readings κ) (projection : Option MetadataProjection) :
    Except BuildError HealthMetadata :=
  let unknown : HealthMetadata :=
    { timestamp := readings.minTs, osEnabled := none, postgresqlEnabled := none
      postgresqlIntervalSeconds := 0 }
  match projection with
  | none => .ok unknown
  | some projection =>
    if projection.ambiguous then .ok unknown
    else
      match projection.timestamp, projection.postgresqlEnabled,
        projection.postgresqlIntervalSeconds with
      | some timestamp, some enabled, some interval =>
        .ok { timestamp := timestamp, osEnabled := projection.osEnabled
              postgresqlEnabled := some enabled, postgresqlIntervalSeconds := interval }
      | _, _, _ => .error .invalidMetadata

def postgresCapacity (readings : Readings κ) (projection : Option MetadataProjection) :
    Except BuildError κ :=
  match projection.filter fun projection =>
    !projection.ambiguous && projection.postgresqlEnabled == some true with
  | none => .ok readings.noCapacity
  | some projection => readings.recordedCapacity projection

/-- The active backends by timestamp; a timestamp of two layouts has no count. -/
def combinedActivePoints (activity : List (UInt32 × List CountPoint)) :
    List (Int × Option UInt32) :=
  (activity.flatMap Prod.snd).foldl
    (fun counts point =>
      insertEntry point.timestamp.toInt
        (fun count => if count.isSome then none else some point.count) counts) []

def postgresHealthPoints (readings : Readings κ) (metadata : HealthMetadata)
    (active : List (Int × Option UInt32)) (capacity : κ) : Option (List HealthPoint) :=
  if metadata.postgresqlEnabled ≠ some true then none
  else if active.isEmpty then some [{ timestamp := metadata.timestamp, value := none }]
  else
    some (active.map fun entry =>
      let timestamp := Int64.ofInt entry.1
      { timestamp := timestamp
        value := (entry.2.bind fun active => readings.penaltyAt capacity timestamp active).map
          fun penalty => 100 - min penalty 100 })

def penalty : SourcePenalty → Option UInt8
  | .disabled => some 0
  | .unknown => none
  | .known value => some (min value 100)

def overallHealth (osHealth : Option UInt8) (postgres : SourcePenalty) : Option UInt8 :=
  osHealth.bind fun os => (penalty postgres).map fun postgres =>
    UInt8.ofNat (100 - min ((100 - min os.toNat 100) + postgres.toNat) 100)

def latestPostgresPoint (current : Option (List HealthPoint)) (predecessor : Option HealthPoint)
    (timestamp : Int64) : Option HealthPoint :=
  (current.bind fun points =>
    points.reverse.find? fun candidate => candidate.timestamp ≤ timestamp).or
    (predecessor.filter fun candidate => candidate.timestamp ≤ timestamp)

/-- `saturating_sub` of timestamps. -/
def saturatingSub (a b : Int64) : Int := max (-2 ^ 63) (min (a.toInt - b.toInt) (2 ^ 63 - 1))

def overallPoints (os : List HealthPoint) (postgres : Option (List HealthPoint))
    (predecessorPostgres : Option HealthPoint) (metadata : HealthMetadata) : List HealthPoint :=
  if metadata.osEnabled = some false then
    postgres.getD [{ timestamp := metadata.timestamp, value := none }]
  else
    let interval := metadata.postgresqlIntervalSeconds.toNat * 1000000
    os.map fun point =>
      let postgresPenalty :=
        match metadata.postgresqlEnabled with
        | some false => SourcePenalty.disabled
        | some true =>
          -- An interval beyond `i64` is no interval.
          match ((latestPostgresPoint postgres predecessorPostgres point.timestamp).filter
            fun candidate => interval < 2 ^ 63 ∧
              saturatingSub point.timestamp candidate.timestamp ≤ interval).bind
              HealthPoint.value with
          | some health => .known (100 - min health 100)
          | none => .unknown
        | none => .unknown
      { timestamp := point.timestamp
        value :=
          if metadata.osEnabled.isNone ∧ metadata.postgresqlEnabled ≠ some false then none
          else overallHealth point.value postgresPenalty }

/-! ## Activity -/

def activeBackendPoints (samples : List ActiveBackendSample) : List CountPoint :=
  samples.map fun sample => { timestamp := sample.timestamp, count := sample.count }

def lockWaitPoints (samples : List ActiveBackendSample) : List CountPoint :=
  samples.map fun sample => { timestamp := sample.timestamp, count := sample.lockWaiting }

/-- The series of the activity layouts, by layout. -/
structure ActivitySeries where
  activity : List (UInt32 × List CountPoint)
  lockWaits : List (UInt32 × List CountPoint)
  activeSamples : List (UInt32 × List ActiveBackendSample)

/-- Reads each activity layout once for every series that is derived from it. -/
def activitySeries (readings : Readings κ) (requested : List SeriesKey) (needsPgHealth : Bool) :
    List UInt32 → Except BuildError ActivitySeries
  | [] => .ok { activity := [], lockWaits := [], activeSamples := [] }
  | typeId :: rest =>
    let wants (kind : SeriesKind) := requested.contains { kind := kind, typeId := typeId }
    if !(wants .pgActiveBackends || wants .pgLockWaiting || needsPgHealth || wants .findings) then
      activitySeries readings requested needsPgHealth rest
    else do
      let samples ← readings.activeBackendSamples typeId
      let series ← activitySeries readings requested needsPgHealth rest
      .ok
        { activity :=
            if wants .pgActiveBackends || needsPgHealth then
              (typeId, activeBackendPoints samples) :: series.activity
            else series.activity
          lockWaits :=
            if wants .pgLockWaiting then (typeId, lockWaitPoints samples) :: series.lockWaits
            else series.lockWaits
          activeSamples :=
            if wants .findings then (typeId, samples) :: series.activeSamples
            else series.activeSamples }

/-! ## Blocks -/

def sortBlocks (blocks : List SeriesBlock) : List SeriesBlock :=
  blocks.insertionSort fun a b => b.key.before a.key = false

/-- What the blocks are made of, once it has been read. -/
structure SeriesFacts where
  metadata : Option HealthMetadata
  osEnabled : Bool
  osPoints : List HealthPoint
  postgresPoints : Option (List HealthPoint)
  series : ActivitySeries

/-- The block of a requested key, if there is one. -/
def selectedBlock (readings : Readings κ) (facts : SeriesFacts) (key : SeriesKey) :
    Except BuildError (List SeriesBlock) :=
  match key.kind with
  | .osHealth =>
    if key = osHealthKey ∧ facts.osEnabled then .ok [.osHealth facts.osPoints] else .ok []
  | .overallHealth =>
    if key = overallHealthKey then
      match facts.metadata with
      | none => .error .invalidMetadata
      | some metadata =>
        .ok [.overallHealth
          (overallPoints facts.osPoints facts.postgresPoints readings.postgresSeed metadata)]
    else .ok []
  | .postgresHealth =>
    if key = postgresHealthKey then
      match facts.postgresPoints with
      | none => .ok []
      | some points => .ok [.postgresHealth points]
    else .ok []
  | .pgTransactionsPerSecond =>
    if pgDatabaseLayout key.typeId ∧ readings.recorded key.typeId then do
      let points ← readings.transactionPoints key.typeId
      .ok [.pgTransactions key.typeId points]
    else .ok []
  | .pgActiveBackends =>
    if pgActivityLayout key.typeId ∧ readings.recorded key.typeId then
      .ok [.pgActiveBackends key.typeId ((facts.series.activity.lookup key.typeId).getD [])]
    else .ok []
  | .pgLockWaiting =>
    if pgActivityLayout key.typeId ∧ readings.recorded key.typeId then
      .ok [.pgLockWaiting key.typeId ((facts.series.lockWaits.lookup key.typeId).getD [])]
    else .ok []
  | .findings => .ok []

def selectedBlocks (readings : Readings κ) (facts : SeriesFacts) :
    List SeriesKey → Except BuildError (List SeriesBlock)
  | [] => .ok []
  | key :: keys => do
    let block ← selectedBlock readings facts key
    let blocks ← selectedBlocks readings facts keys
    .ok (block ++ blocks)

def wantsHealth (requested : List SeriesKey) : Bool :=
  requested.any fun key =>
    key.kind == .osHealth || key.kind == .overallHealth || key.kind == .postgresHealth

def needsPostgresCapacity (key : SeriesKey) : Bool :=
  key.kind == .postgresHealth || key.kind == .overallHealth ||
    key.kind == .findings && pgActivityLayout key.typeId

/-- The part of `build_selected_series` that reads. -/
def seriesFacts (readings : Readings κ) (requested : List SeriesKey) :
    Except BuildError (SeriesFacts × κ) := do
  let needsMetadata := wantsHealth requested ||
    requested.any fun key => key.kind == .findings && pgActivityLayout key.typeId
  let projection ← if needsMetadata then readings.metadataProjection else .ok none
  let capacity ← readings.postgresCapacity
    (projection.filter fun _ => requested.any needsPostgresCapacity)
  let metadata ←
    if wantsHealth requested then (readings.healthMetadata projection).map some else .ok none
  let osEnabled := (metadata.bind (·.osEnabled)) != some false
  let osPoints ←
    if wantsHealth requested && osEnabled then readings.osPoints projection else .ok []
  let needsPgHealth := requested.contains postgresHealthKey || requested.contains overallHealthKey
  let series ← readings.activitySeries requested needsPgHealth
    (readings.typeIds.filter fun typeId => pgActivityLayout typeId)
  let postgresPoints := metadata.bind fun metadata =>
    readings.postgresHealthPoints metadata (combinedActivePoints series.activity) capacity
  .ok ({ metadata := metadata, osEnabled := osEnabled, osPoints := osPoints
         postgresPoints := postgresPoints, series := series }, capacity)

/-! ## Findings -/

def findingLayouts (requested : List SeriesKey) : List UInt32 :=
  ((sortKeys requested).filter fun key => key.kind == .findings && findingLayout key.typeId).map
    (·.typeId)

/-- The block of a layout: its locators in order, each once, up to the cap. -/
def findingBlock (typeId : UInt32) (findings : List Finding) : FindingBlock :=
  let found := (findings.insertionSort fun a b => b.before a = false).destutter (· ≠ ·)
  let totalHits := min found.length (2 ^ 32 - 1)
  { typeId := typeId
    totalHits := UInt32.ofNat totalHits
    truncated := decide (totalHits > (found.take maxFindingsPerBlock).length)
    findings := found.take maxFindingsPerBlock }

/-- A block for every layout that is asked for, also where nothing was found. -/
def finish (readings : Readings κ) (requested : List SeriesKey) (blocks : List SeriesBlock)
    (activeSamples : List (UInt32 × List ActiveBackendSample)) (capacity : κ) :
    Except BuildError (List SeriesBlock) := do
  let hits ← readings.findings blocks activeSamples capacity
  .ok ((findingLayouts requested).map fun typeId => .findings (findingBlock typeId (hits typeId)))

/-! ## The build -/

def buildSelected (readings : Readings κ) (requested : List SeriesKey) :
    Except BuildError (List SeriesBlock) := do
  let sorted := sortKeys requested
  let (facts, capacity) ← readings.seriesFacts sorted
  let selected ← readings.selectedBlocks facts sorted
  let index := sortBlocks selected
  let found ← readings.finish requested index facts.series.activeSamples capacity
  .ok (sortBlocks (index ++ found))

def build (readings : Readings κ) : Except BuildError (List SeriesBlock) :=
  readings.buildSelected (keys readings.typeIds)

/-! ## Which blocks are made -/

theorem bind_ok {α β : Type} {x : Except BuildError α} {f : α → Except BuildError β} {r : β} :
    (x >>= f) = .ok r ↔ ∃ a, x = .ok a ∧ f a = .ok r := by
  cases x with
  | error problem =>
    constructor
    · intro h
      cases h
    · intro h
      obtain ⟨a, ha, -⟩ := h
      cases ha
  | ok a =>
    constructor
    · intro h
      exact ⟨a, rfl, h⟩
    · intro h
      obtain ⟨b, hb, hf⟩ := h
      cases hb
      exact hf

variable {blocks : List SeriesBlock}

theorem mem_sortBlocks {block : SeriesBlock} : block ∈ sortBlocks blocks ↔ block ∈ blocks :=
  List.mem_insertionSort _

variable {readings : Readings κ} {facts : SeriesFacts} {key : SeriesKey}

theorem selectedBlock_key (h : readings.selectedBlock facts key = .ok blocks) :
    ∀ block ∈ blocks, block.key = key ∧ key.allowlisted = true := by
  obtain ⟨kind, typeId⟩ := key
  intro block hblock
  cases kind with
  | osHealth =>
    dsimp only [selectedBlock] at h
    split at h
    · next hkey =>
      cases h
      rw [List.mem_singleton.mp hblock, hkey.1]
      exact ⟨rfl, rfl⟩
    · cases h
      cases hblock
  | overallHealth =>
    dsimp only [selectedBlock] at h
    split at h
    · next hkey =>
      split at h
      · cases h
      · cases h
        rw [List.mem_singleton.mp hblock, hkey]
        exact ⟨rfl, rfl⟩
    · cases h
      cases hblock
  | postgresHealth =>
    dsimp only [selectedBlock] at h
    split at h
    · next hkey =>
      split at h
      · cases h
        cases hblock
      · cases h
        rw [List.mem_singleton.mp hblock, hkey]
        exact ⟨rfl, rfl⟩
    · cases h
      cases hblock
  | pgTransactionsPerSecond =>
    dsimp only [selectedBlock] at h
    split at h
    · next hlayout =>
      obtain ⟨points, -, hpoints⟩ := bind_ok.mp h
      cases hpoints
      rw [List.mem_singleton.mp hblock]
      exact ⟨rfl, hlayout.1⟩
    · cases h
      cases hblock
  | pgActiveBackends =>
    dsimp only [selectedBlock] at h
    split at h
    · next hlayout =>
      cases h
      rw [List.mem_singleton.mp hblock]
      exact ⟨rfl, hlayout.1⟩
    · cases h
      cases hblock
  | pgLockWaiting =>
    dsimp only [selectedBlock] at h
    split at h
    · next hlayout =>
      cases h
      rw [List.mem_singleton.mp hblock]
      exact ⟨rfl, hlayout.1⟩
    · cases h
      cases hblock
  | findings =>
    cases h
    cases hblock

/-- The key is one that a segment with these sections has a block for, where its family is
collected. -/
def Supported (types : List UInt32) (key : SeriesKey) : Prop :=
  match key.kind with
  | .osHealth | .overallHealth | .postgresHealth => key.typeId = 0
  | .pgTransactionsPerSecond => pgDatabaseLayout key.typeId = true ∧ key.typeId ∈ types
  | .pgActiveBackends | .pgLockWaiting => pgActivityLayout key.typeId = true ∧ key.typeId ∈ types
  | .findings => findingLayout key.typeId = true

theorem supported_of_mem_keys {types : List UInt32} (h : key ∈ keys types) :
    Supported types key := by
  rcases mem_keys.mp h with hfixed | ⟨typeId, htype, hkey⟩
  · rw [List.mem_cons, List.mem_cons, List.mem_cons, List.mem_singleton] at hfixed
    rcases hfixed with rfl | rfl | rfl | rfl
    · rfl
    · rfl
    · rfl
    · rfl
  · rcases List.mem_append.mp hkey with hseries | hfinding
    · split at hseries
      · next hdatabase =>
        rw [List.mem_singleton.mp hseries]
        exact ⟨hdatabase, htype⟩
      · split at hseries
        · next hactivity =>
          rw [List.mem_cons, List.mem_singleton] at hseries
          rcases hseries with rfl | rfl
          · exact ⟨hactivity, htype⟩
          · exact ⟨hactivity, htype⟩
        · cases hseries
    · split at hfinding
      · next hlayout =>
        rw [List.mem_singleton.mp hfinding]
        exact hlayout
      · cases hfinding

/-- The kinds whose blocks are missing where their family is not collected. -/
def Optional (key : SeriesKey) : Prop := key.kind = .osHealth ∨ key.kind = .postgresHealth

theorem selectedBlock_required (h : readings.selectedBlock facts key = .ok blocks)
    (hsupported : Supported readings.typeIds key) (hrequired : ¬ Optional key)
    (hseries : key.kind ≠ .findings) : ∃ block ∈ blocks, block.key = key := by
  obtain ⟨kind, typeId⟩ := key
  have hrecorded : typeId ∈ readings.typeIds → readings.recorded typeId = true :=
    List.contains_iff_mem.mpr
  cases kind with
  | osHealth => exact absurd (Or.inl rfl) hrequired
  | postgresHealth => exact absurd (Or.inr rfl) hrequired
  | findings => exact absurd rfl hseries
  | overallHealth =>
    have hzero : typeId = 0 := hsupported
    have hkey : ({ kind := .overallHealth, typeId := typeId } : SeriesKey) = overallHealthKey := by
      rw [hzero]
      rfl
    dsimp only [selectedBlock] at h
    rw [if_pos hkey] at h
    split at h
    · cases h
    · cases h
      exact ⟨_, List.mem_singleton_self _, hkey.symm⟩
  | pgTransactionsPerSecond =>
    have hboth : pgDatabaseLayout typeId = true ∧ readings.recorded typeId = true :=
      ⟨hsupported.1, hrecorded hsupported.2⟩
    dsimp only [selectedBlock] at h
    rw [if_pos hboth] at h
    obtain ⟨points, -, hpoints⟩ := bind_ok.mp h
    cases hpoints
    exact ⟨_, List.mem_singleton_self _, rfl⟩
  | pgActiveBackends =>
    have hboth : pgActivityLayout typeId = true ∧ readings.recorded typeId = true :=
      ⟨hsupported.1, hrecorded hsupported.2⟩
    dsimp only [selectedBlock] at h
    rw [if_pos hboth] at h
    cases h
    exact ⟨_, List.mem_singleton_self _, rfl⟩
  | pgLockWaiting =>
    have hboth : pgActivityLayout typeId = true ∧ readings.recorded typeId = true :=
      ⟨hsupported.1, hrecorded hsupported.2⟩
    dsimp only [selectedBlock] at h
    rw [if_pos hboth] at h
    cases h
    exact ⟨_, List.mem_singleton_self _, rfl⟩

theorem selectedBlocks_ok {asked : List SeriesKey}
    (h : readings.selectedBlocks facts asked = .ok blocks) :
    (∀ block ∈ blocks, ∃ key ∈ asked, ∃ made, readings.selectedBlock facts key = .ok made ∧
      block ∈ made) ∧
    ∀ key ∈ asked, ∃ made, readings.selectedBlock facts key = .ok made ∧
      ∀ block ∈ made, block ∈ blocks := by
  induction asked generalizing blocks with
  | nil =>
    cases h
    exact ⟨fun block hblock => (List.not_mem_nil hblock).elim,
      fun key hkey => (List.not_mem_nil hkey).elim⟩
  | cons key asked ih =>
    obtain ⟨first, hfirst, hrest⟩ := bind_ok.mp h
    obtain ⟨rest, hblocks, hall⟩ := bind_ok.mp hrest
    cases hall
    obtain ⟨hfrom, hinto⟩ := ih hblocks
    constructor
    · intro block hblock
      rcases List.mem_append.mp hblock with hmem | hmem
      · exact ⟨key, List.mem_cons_self, first, hfirst, hmem⟩
      · obtain ⟨other, hother, found⟩ := hfrom block hmem
        exact ⟨other, List.mem_cons_of_mem key hother, found⟩
    · intro other hother
      rcases List.mem_cons.mp hother with rfl | hmem
      · exact ⟨first, hfirst, fun block hblock => List.mem_append_left _ hblock⟩
      · obtain ⟨made, hmade, hin⟩ := hinto other hmem
        exact ⟨made, hmade, fun block hblock => List.mem_append_right _ (hin block hblock)⟩

theorem mem_findingLayouts {requested : List SeriesKey} {typeId : UInt32} :
    typeId ∈ findingLayouts requested ↔
      findingsKey typeId ∈ requested ∧ findingLayout typeId = true := by
  rw [findingLayouts, List.mem_map]
  constructor
  · intro h
    obtain ⟨⟨kind, found⟩, hmem, rfl⟩ := h
    obtain ⟨hkey, hboth⟩ := List.mem_filter.mp hmem
    rw [Bool.and_eq_true, beq_iff_eq] at hboth
    have hkind : kind = .findings := hboth.1
    rw [hkind] at hkey
    exact ⟨mem_sortKeys.mp hkey, hboth.2⟩
  · intro h
    refine ⟨findingsKey typeId, List.mem_filter.mpr ⟨mem_sortKeys.mpr h.1, ?_⟩, rfl⟩
    exact h.2

theorem buildSelected_ok {requested : List SeriesKey}
    (h : readings.buildSelected requested = .ok blocks) :
    ∃ facts selected, ∃ hits : UInt32 → List Finding,
      readings.selectedBlocks facts (sortKeys requested) = .ok selected ∧
      ∀ block, block ∈ blocks ↔ block ∈ selected ∨ ∃ typeId ∈ findingLayouts requested,
        block = .findings (findingBlock typeId (hits typeId)) := by
  obtain ⟨⟨facts, capacity⟩, -, hfacts⟩ := bind_ok.mp h
  obtain ⟨selected, hselected, hindex⟩ := bind_ok.mp hfacts
  obtain ⟨found, hfound, hblocks⟩ := bind_ok.mp hindex
  obtain ⟨hits, -, hfinish⟩ := bind_ok.mp hfound
  cases hfinish
  cases hblocks
  refine ⟨facts, selected, hits, hselected, fun block => ?_⟩
  rw [mem_sortBlocks, List.mem_append, mem_sortBlocks, List.mem_map]
  exact or_congr_right (exists_congr fun typeId => and_congr_right fun _ => eq_comm)

theorem build_allowlisted
    (h : readings.build = .ok blocks) : ∀ block ∈ blocks, block.key.allowlisted = true := by
  obtain ⟨facts, selected, hits, hselected, hmem⟩ := buildSelected_ok h
  intro block hblock
  rcases (hmem block).mp hblock with hseries | ⟨typeId, htype, rfl⟩
  · obtain ⟨key, -, made, hmade, hin⟩ := (selectedBlocks_ok hselected).1 block hseries
    obtain ⟨hkey, hallowed⟩ := selectedBlock_key hmade block hin
    rw [hkey, hallowed]
  · show (typeId == 0 || findingLayout typeId) = true
    rw [(mem_findingLayouts.mp htype).2, Bool.or_true]

theorem build_required
    (h : readings.build = .ok blocks) {key : SeriesKey} (hkey : key ∈ keys readings.typeIds)
    (hrequired : ¬ Optional key) : ∃ block ∈ blocks, block.key = key := by
  obtain ⟨facts, selected, hits, hselected, hmem⟩ := buildSelected_ok h
  have hsupported := supported_of_mem_keys hkey
  by_cases hseries : key.kind = .findings
  · obtain ⟨kind, typeId⟩ := key
    have hkind : kind = .findings := hseries
    subst hkind
    refine ⟨.findings (findingBlock typeId (hits typeId)), (hmem _).mpr (Or.inr ?_), rfl⟩
    exact ⟨typeId, mem_findingLayouts.mpr ⟨hkey, hsupported⟩, rfl⟩
  · obtain ⟨made, hmade, hin⟩ :=
      (selectedBlocks_ok hselected).2 key (mem_sortKeys.mpr hkey)
    obtain ⟨block, hblock, hown⟩ := selectedBlock_required hmade hsupported hrequired hseries
    exact ⟨block, (hmem block).mpr (Or.inl (hin block hblock)), hown⟩

end Readings

end Kronika.Index
