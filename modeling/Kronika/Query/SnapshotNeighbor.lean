/-
The neighbouring recorded timestamp: the nearest one that is at least a second after, or before,
an instant.

The segments are read in the order of the bounds of their catalogs, and the search stops at the
first one that can hold nothing nearer.
-/
import Mathlib.Data.Prod.Lex
import Kronika.Library.Best
import Kronika.Query.History

namespace Kronika.Query
namespace Neighbor

open Library Best

/-! ## Requests -/

inductive Direction where
  | next
  | previous
deriving DecidableEq

structure Request where
  sections : List String
  direction : Direction
  instant : Int
  window : Window

def minStepMicros : Int := 1000000

/-! ## The window of a search -/

def checkedShift (value shift : Int) : Option Int :=
  if -2 ^ 63 ≤ value + shift ∧ value + shift < 2 ^ 63 then some (value + shift) else none

/-- The window beyond a step from the instant. -/
def stepped (request : Request) : Option Window :=
  match request.direction with
  | .next => (checkedShift request.instant minStepMicros).map fun after =>
      { request.window with lower := some ((request.window.lower.map (max · after)).getD after) }
  | .previous => (checkedShift request.instant (-minStepMicros)).map fun before =>
      { request.window with upper := some ((request.window.upper.map (min · before)).getD before) }

def searchWindow (request : Request) : Option Window :=
  (stepped request).filter fun window =>
    !(window.lower.any fun lower => window.upper.any (· < lower))

/-! ## The search -/

/-- A captured catalog, and the rows of its segments. -/
structure CapturedCatalog where
  segments : Window → Except QueryError (List DatasetSegment)
  openSegment : Opener

def layoutEntries (registry : Registry) (sections : List String) : List (Nat × String) :=
  (registry.contracts.filter fun contract =>
    (registry.logicalSectionName contract.typeId).any (· ∈ sections)).filterMap fun contract =>
      contract.timestamp.map fun timestamp => (contract.typeId, timestamp)

def layouts (registry : Registry) (sections : List String) : Std.TreeMap Nat String :=
  TreeMap.insertAll Prod.fst Prod.snd ∅ (layoutEntries registry sections)

/-- Whether a timestamp is nearer to the instant than another one. -/
def nearer (direction : Direction) (ts chosen : Int) : Bool :=
  match direction with
  | .next => ts < chosen
  | .previous => chosen < ts

/-- Whether the timestamp of a segment replaces what is selected. -/
def replaces (direction : Direction) (selected : Option (Int × Int)) (ts id : Int) : Bool :=
  selected.all fun chosen => nearer direction ts chosen.1 || (ts = chosen.1 && chosen.2 < id)

def visitRow (direction : Direction) (window : Window) (timestamp : String) (id : Int)
    (selected : Option (Int × Int)) (row : Row) : Option (Int × Int) :=
  match rowTimestamp row timestamp with
  | some ts =>
    if window.contains ts && replaces direction selected ts id then some (ts, id) else selected
  | none => selected

def visitSection (known : Std.TreeMap Nat String) (direction : Direction) (window : Window)
    (segment : Segment) (id : Int) (selected : Option (Int × Int))
    (found : Reader.SegmentSection) : Option (Int × Int) :=
  match known[found.typeId]? with
  | none => selected
  | some timestamp =>
    (segment.rows found.typeId).foldl (visitRow direction window timestamp id) selected

/-- Whether a segment, and all that are behind it, hold nothing nearer. -/
def passed (direction : Direction) (selected : Option (Int × Int))
    (candidate : DatasetSegment) : Bool :=
  selected.any fun chosen =>
    match direction with
    | .next => chosen.1 < candidate.minTs
    | .previous => candidate.maxTs < chosen.1

def searchCandidates (openSegment : Opener) (known : Std.TreeMap Nat String)
    (direction : Direction) (window : Window) :
    List DatasetSegment → Option (Int × Int) → Except QueryError (Option (Int × Int))
  | [], selected => .ok selected
  | candidate :: rest, selected =>
    if passed direction selected candidate then .ok selected
    else do
      let segment ← openSegment candidate
      searchCandidates openSegment known direction window rest
        (candidate.sections.foldl (visitSection known direction window segment candidate.id)
          selected)

def visitedFirst (direction : Direction) (a b : DatasetSegment) : Bool :=
  match direction with
  | .next => a.minTs < b.minTs || (a.minTs = b.minTs && b.id ≤ a.id)
  | .previous => b.maxTs < a.maxTs || (b.maxTs = a.maxTs && b.id ≤ a.id)

def candidates (known : Std.TreeMap Nat String) (direction : Direction)
    (segments : List DatasetSegment) : List DatasetSegment :=
  (segments.filter fun segment => segment.sections.any fun found =>
    0 < found.rows && known.contains found.typeId).mergeSort (visitedFirst direction)

def select (registry : Registry) (catalog : CapturedCatalog) (request : Request) :
    Except QueryError (Option (Int × Int)) :=
  match searchWindow request with
  | none => .ok none
  | some window =>
    let known := layouts registry request.sections
    if known.isEmpty then .ok none
    else do
      let segments ← catalog.segments window
      searchCandidates catalog.openSegment known request.direction window
        (candidates known request.direction segments) none

/-! ## Windows -/

section Windows

variable {request : Request} {ts : Int}

def Beyond (request : Request) (ts : Int) : Prop :=
  match request.direction with
  | .next => request.instant + minStepMicros ≤ ts
  | .previous => ts ≤ request.instant - minStepMicros

variable {window : Window}

theorem contains_iff :
    window.contains ts = true ↔
      (∀ lower, window.lower = some lower → lower ≤ ts) ∧
        ∀ upper, window.upper = some upper → ts ≤ upper := by
  rw [Window.contains, Bool.and_eq_true, Option.all_eq_true, Option.all_eq_true]
  simp only [decide_eq_true_eq]

theorem empty_iff :
    (window.lower.any fun lower => window.upper.any (· < lower)) = true ↔
      ∃ lower, window.lower = some lower ∧ ∃ upper, window.upper = some upper ∧ upper < lower := by
  simp only [Option.any_eq_true, decide_eq_true_eq]

theorem contains_stepped (h : stepped request = some window) :
    window.contains ts = true ↔ request.window.contains ts = true ∧ Beyond request ts := by
  rw [stepped] at h
  rw [contains_iff, contains_iff, Beyond]
  cases hdirection : request.direction with
  | next =>
    rw [hdirection] at h
    obtain ⟨after, hafter, rfl⟩ := Option.map_eq_some_iff.mp h
    have hsum : after = request.instant + minStepMicros := by
      rw [checkedShift] at hafter
      split_ifs at hafter
      exact (Option.some.inj hafter).symm
    subst hsum
    cases hlower : request.window.lower with
    | none =>
      simp only [Option.some.injEq, forall_eq', reduceCtorEq, false_implies, implies_true, true_and]
      exact and_comm
    | some lower =>
      simp only [Option.map_some, Option.getD_some, Option.some.injEq, forall_eq', max_le_iff]
      constructor
      · intro hall
        exact ⟨⟨hall.1.1, hall.2⟩, hall.1.2⟩
      · intro hall
        exact ⟨⟨hall.1.1, hall.2⟩, hall.1.2⟩
  | previous =>
    rw [hdirection] at h
    obtain ⟨before, hbefore, rfl⟩ := Option.map_eq_some_iff.mp h
    have hsum : before = request.instant - minStepMicros := by
      rw [checkedShift] at hbefore
      split_ifs at hbefore
      have heq := Option.some.inj hbefore
      omega
    subst hsum
    cases hupper : request.window.upper with
    | none =>
      simp only [Option.map_none, Option.getD_none, Option.some.injEq, forall_eq', reduceCtorEq,
        false_implies, implies_true, and_true]
    | some upper =>
      simp only [Option.map_some, Option.getD_some, Option.some.injEq, forall_eq', le_min_iff]
      exact and_assoc.symm

theorem not_beyond_of_none (hnone : searchWindow request = none)
    (hinstant : -2 ^ 63 ≤ request.instant ∧ request.instant < 2 ^ 63)
    (hts : -2 ^ 63 ≤ ts ∧ ts < 2 ^ 63) (hcontains : request.window.contains ts = true) :
    ¬Beyond request ts := by
  intro hbeyond
  rw [searchWindow] at hnone
  cases hstepped : stepped request with
  | none =>
    rw [stepped] at hstepped
    rw [Beyond] at hbeyond
    cases hdirection : request.direction with
    | next =>
      rw [hdirection] at hstepped hbeyond
      have hshift := Option.map_eq_none_iff.mp hstepped
      rw [checkedShift, ite_eq_right_iff] at hshift
      have hrange : ¬(-2 ^ 63 ≤ request.instant + minStepMicros ∧
          request.instant + minStepMicros < 2 ^ 63) := fun hin => absurd (hshift hin) (by simp)
      rw [minStepMicros] at hrange hbeyond
      omega
    | previous =>
      rw [hdirection] at hstepped hbeyond
      have hshift := Option.map_eq_none_iff.mp hstepped
      rw [checkedShift, ite_eq_right_iff] at hshift
      have hrange : ¬(-2 ^ 63 ≤ request.instant + -minStepMicros ∧
          request.instant + -minStepMicros < 2 ^ 63) := fun hin => absurd (hshift hin) (by simp)
      rw [minStepMicros] at hrange hbeyond
      omega
  | some window =>
    have hin := contains_iff.mp ((contains_stepped hstepped).mpr ⟨hcontains, hbeyond⟩)
    rw [hstepped, Option.filter_eq_none_iff] at hnone
    have hempty := hnone window rfl
    rw [Bool.not_eq_true', Bool.not_eq_false, empty_iff] at hempty
    obtain ⟨lower, hlower, upper, hupper, hlt⟩ := hempty
    have hle := le_trans (hin.1 lower hlower) (hin.2 upper hupper)
    omega

theorem contains_searchWindow (h : searchWindow request = some window) :
    window.contains ts = true ↔ request.window.contains ts = true ∧ Beyond request ts :=
  contains_stepped (Option.filter_eq_some_iff.mp h).1

end Windows

/-! ## What a search finds -/

section Finds

variable {registry : Registry} {known : Std.TreeMap Nat String} {direction : Direction}
  {window : Window} {content : DatasetSegment → Segment}

/-- How near a timestamp is, with the identity of its segment behind it. -/
def nearness (direction : Direction) (sample : Int × Int) : Int ×ₗ Int :=
  match direction with
  | .next => toLex (-sample.1, sample.2)
  | .previous => toLex (sample.1, sample.2)

theorem nearness_lt {a b : Int × Int} :
    nearness direction a < nearness direction b ↔
      nearer direction b.1 a.1 = true ∨ b.1 = a.1 ∧ a.2 < b.2 := by
  cases direction with
  | next =>
    show toLex (-a.1, a.2) < toLex (-b.1, b.2) ↔ decide (b.1 < a.1) = true ∨ _
    rw [Prod.Lex.toLex_lt_toLex, decide_eq_true_eq]
    omega
  | previous =>
    show toLex (a.1, a.2) < toLex (b.1, b.2) ↔ decide (a.1 < b.1) = true ∨ _
    rw [Prod.Lex.toLex_lt_toLex, decide_eq_true_eq, eq_comm (a := b.1)]

theorem replaces_eq (selected : Option (Int × Int)) (ts id : Int) :
    replaces direction selected ts id =
      selected.all fun chosen => nearness direction chosen < nearness direction (ts, id) := by
  rw [replaces]
  congr 1
  funext chosen
  rw [Bool.eq_iff_iff, Bool.or_eq_true, Bool.and_eq_true, decide_eq_true_eq, decide_eq_true_eq,
    decide_eq_true_eq, nearness_lt]

/-- The timestamps of the rows of a section inside the window, with the segment's identity. -/
def samplesOf (known : Std.TreeMap Nat String) (window : Window) (segment : Segment) (id : Int)
    (found : Reader.SegmentSection) : List (Int × Int) :=
  match known[found.typeId]? with
  | none => []
  | some timestamp =>
    (segment.rows found.typeId).flatMap fun row =>
      (((rowTimestamp row timestamp).filter window.contains).map fun ts => (ts, id)).toList

theorem visitRow_eq (timestamp : String) (id : Int) (selected : Option (Int × Int)) (row : Row) :
    visitRow direction window timestamp id selected row =
      ((((rowTimestamp row timestamp).filter window.contains).map fun ts => (ts, id)).toList).foldl
        (Best.better (nearness direction)) selected := by
  rw [visitRow]
  cases rowTimestamp row timestamp with
  | none => rfl
  | some ts =>
    rw [Option.filter_some]
    dsimp only
    by_cases hin : window.contains ts = true
    · rw [hin, replaces_eq]
      rfl
    · rw [(Bool.not_eq_true _).mp hin]
      rfl

theorem foldl_visitRow (timestamp : String) (id : Int) (rows : List Row)
    (selected : Option (Int × Int)) :
    rows.foldl (visitRow direction window timestamp id) selected =
      (rows.flatMap fun row =>
        (((rowTimestamp row timestamp).filter window.contains).map fun ts =>
          (ts, id)).toList).foldl (Best.better (nearness direction)) selected := by
  induction rows generalizing selected with
  | nil => rfl
  | cons row rows ih =>
    rw [List.foldl_cons, ih, visitRow_eq, List.flatMap_cons, List.foldl_append]

theorem visitSection_eq (segment : Segment) (id : Int) (selected : Option (Int × Int))
    (found : Reader.SegmentSection) :
    visitSection known direction window segment id selected found =
      (samplesOf known window segment id found).foldl (Best.better (nearness direction))
        selected := by
  rw [visitSection, samplesOf]
  cases known[found.typeId]? with
  | none => rfl
  | some timestamp => exact foldl_visitRow timestamp id _ selected

def segmentSamples (known : Std.TreeMap Nat String) (window : Window)
    (content : DatasetSegment → Segment) (segment : DatasetSegment) : List (Int × Int) :=
  segment.sections.flatMap (samplesOf known window (content segment) segment.id)

theorem foldl_visitSection (segment : Segment) (id : Int) (found : List Reader.SegmentSection)
    (selected : Option (Int × Int)) :
    found.foldl (visitSection known direction window segment id) selected =
      (found.flatMap (samplesOf known window segment id)).foldl (Best.better (nearness direction))
        selected := by
  induction found generalizing selected with
  | nil => rfl
  | cons first found ih =>
    rw [List.foldl_cons, List.flatMap_cons, List.foldl_append, ih, visitSection_eq]

theorem nearness_le {a b : Int × Int} :
    nearness direction a ≤ nearness direction b ↔
      nearer direction a.1 b.1 = false ∧ (a.1 = b.1 → a.2 ≤ b.2) := by
  rw [← not_lt, nearness_lt, not_or, Bool.not_eq_true, not_and, not_lt]

theorem nearness_injective : Function.Injective (nearness direction) := by
  intro a b heq
  have hle := nearness_le.mp (le_of_eq heq)
  have hge := nearness_le.mp (le_of_eq heq.symm)
  have hts : a.1 = b.1 := by
    cases direction with
    | next =>
      have hab := of_decide_eq_false hle.1
      have hba := of_decide_eq_false hge.1
      omega
    | previous =>
      have hab := of_decide_eq_false hle.1
      have hba := of_decide_eq_false hge.1
      omega
  exact Prod.ext hts (le_antisymm (hle.2 hts) (hge.2 hts.symm))

end Finds

/-! ## What is searched -/

section Searched

variable {registry : Registry} {sections : List String}

/-- A row of the sections at a timestamp. -/
def HasRowAt (registry : Registry) (sections : List String) (segment : Segment) (ts : Int) : Prop :=
  ∃ contract ∈ registry.contracts,
    (∃ name ∈ sections, registry.logicalSectionName contract.typeId = some name) ∧
      ∃ timestamp, contract.timestamp = some timestamp ∧
        ∃ row ∈ segment.rows contract.typeId, rowTimestamp row timestamp = some ts

theorem mem_layoutEntries {entry : Nat × String} :
    entry ∈ layoutEntries registry sections ↔
      ∃ contract ∈ registry.contracts, contract.typeId = entry.1 ∧
        (∃ name ∈ sections, registry.logicalSectionName contract.typeId = some name) ∧
          contract.timestamp = some entry.2 := by
  rw [layoutEntries, List.mem_filterMap]
  constructor
  · intro hentry
    obtain ⟨contract, hcontract, hmap⟩ := hentry
    obtain ⟨hin, hany⟩ := List.mem_filter.mp hcontract
    obtain ⟨name, hname, hwanted⟩ := (Option.any_eq_true _ _).mp hany
    obtain ⟨stored, hstored, rfl⟩ := Option.map_eq_some_iff.mp hmap
    exact ⟨contract, hin, rfl, ⟨name, of_decide_eq_true hwanted, hname⟩, hstored⟩
  · intro hentry
    obtain ⟨contract, hin, htype, ⟨name, hwanted, hname⟩, hstored⟩ := hentry
    refine ⟨contract, List.mem_filter.mpr ⟨hin, ?_⟩, ?_⟩
    · exact (Option.any_eq_true _ _).mpr ⟨name, hname, decide_eq_true hwanted⟩
    · rw [hstored, Option.map_some, htype]

theorem map_fst_entries (contracts : List TypeContract) :
    (contracts.filterMap fun contract =>
      contract.timestamp.map fun timestamp => (contract.typeId, timestamp)).map Prod.fst =
        (contracts.filter fun contract => contract.timestamp.isSome).map (·.typeId) := by
  induction contracts with
  | nil => rfl
  | cons contract contracts ih =>
    cases htimestamp : contract.timestamp with
    | none =>
      rw [List.filterMap_cons_none (by rw [htimestamp]; rfl), ih, List.filter_cons, htimestamp]
      rfl
    | some timestamp =>
      rw [List.filterMap_cons_some (b := (contract.typeId, timestamp))
        (by rw [htimestamp]; rfl), List.map_cons, ih, List.filter_cons, htimestamp]
      rfl

theorem nodup_layoutEntries (hregistry : (registry.contracts.map (·.typeId)).Nodup) :
    ((layoutEntries registry sections).map Prod.fst).Nodup := by
  rw [layoutEntries, map_fst_entries]
  exact hregistry.sublist ((List.filter_sublist.trans List.filter_sublist).map _)

theorem getElem?_layouts (hregistry : (registry.contracts.map (·.typeId)).Nodup) {typeId : Nat}
    {timestamp : String} :
    (layouts registry sections)[typeId]? = some timestamp ↔
      (typeId, timestamp) ∈ layoutEntries registry sections := by
  have hnodup : ((layoutEntries registry sections).map Prod.fst).Nodup :=
    nodup_layoutEntries hregistry
  rw [layouts]
  constructor
  · intro hfound
    by_cases hin : ∃ entry ∈ layoutEntries registry sections, entry.1 = typeId
    · obtain ⟨entry, hentry, rfl⟩ := hin
      rw [TreeMap.getElem?_insertAll_of_mem hnodup hentry] at hfound
      rw [← Option.some.inj hfound]
      exact hentry
    · have hnone : ∀ entry ∈ layoutEntries registry sections, entry.1 ≠ typeId :=
        fun entry hentry heq => hin ⟨entry, hentry, heq⟩
      rw [TreeMap.getElem?_insertAll_of_notMem hnone] at hfound
      exact absurd hfound (by simp)
  · intro hentry
    exact TreeMap.getElem?_insertAll_of_mem hnodup hentry ∅

end Searched

/-! ## The nearest row -/

section Nearest

variable {registry : Registry} {catalog : CapturedCatalog} {content : DatasetSegment → Segment}
  {segments : List DatasetSegment} {request : Request} {known : Std.TreeMap Nat String}
  {direction : Direction} {window : Window}

def overlaps (window : Window) (segment : DatasetSegment) : Bool :=
  window.lower.all (· ≤ segment.maxTs) && window.upper.all (segment.minTs ≤ ·)

/-- The catalog lists the segments that meet a window, the segments open, and their catalogs
bound the timestamps of the sections and list the layouts that have rows. -/
structure Captured (registry : Registry) (sections : List String) (catalog : CapturedCatalog)
    (content : DatasetSegment → Segment) (segments : List DatasetSegment) : Prop where
  lists : ∀ window, catalog.segments window = .ok (segments.filter (overlaps window))
  opens : ∀ segment ∈ segments, catalog.openSegment segment = .ok (content segment)
  listed : ∀ segment ∈ segments, ∀ typeId, (content segment).rows typeId ≠ [] →
    ∃ found ∈ segment.sections, found.typeId = typeId ∧ 0 < found.rows
  bounds : ∀ segment ∈ segments, ∀ ts, HasRowAt registry sections (content segment) ts →
    segment.minTs ≤ ts ∧ ts ≤ segment.maxTs
  range : ∀ segment ∈ segments, -2 ^ 63 ≤ segment.minTs ∧ segment.maxTs < 2 ^ 63

/-- A row of a request: of its sections, inside its window and a step beyond its instant. -/
structure Matches (registry : Registry) (request : Request) (segment : Segment) (ts : Int) :
    Prop where
  row : HasRowAt registry request.sections segment ts
  inside : request.window.contains ts = true
  beyond : Beyond request ts

/-- `found` is the nearest timestamp of a row of the request, with the greatest identity among
the segments that hold it. -/
structure IsNearest (registry : Registry) (request : Request)
    (content : DatasetSegment → Segment) (segments : List DatasetSegment) (found : Int × Int) :
    Prop where
  held : ∃ segment ∈ segments, segment.id = found.2 ∧
    Matches registry request (content segment) found.1
  nearest : ∀ segment ∈ segments, ∀ ts, Matches registry request (content segment) ts →
    nearer request.direction ts found.1 = false
  newest : ∀ segment ∈ segments, Matches registry request (content segment) found.1 →
    segment.id ≤ found.2

theorem mem_samplesOf {segment : Segment} {id : Int} {found : Reader.SegmentSection}
    {sample : Int × Int} :
    sample ∈ samplesOf known window segment id found ↔
      sample.2 = id ∧ window.contains sample.1 = true ∧
        ∃ timestamp, known[found.typeId]? = some timestamp ∧
          ∃ row ∈ segment.rows found.typeId, rowTimestamp row timestamp = some sample.1 := by
  rw [samplesOf]
  cases hknown : known[found.typeId]? with
  | none => simp
  | some timestamp =>
    simp only [List.mem_flatMap, Option.mem_toList, Option.map_eq_some_iff,
      Option.filter_eq_some_iff, Option.some.injEq, exists_eq_left']
    constructor
    · intro hmem
      obtain ⟨row, hrow, ts, ⟨hts, hin⟩, rfl⟩ := hmem
      exact ⟨rfl, hin, row, hrow, hts⟩
    · intro hmem
      obtain ⟨rfl, hin, row, hrow, hts⟩ := hmem
      exact ⟨row, hrow, sample.1, ⟨hts, hin⟩, rfl⟩

theorem mem_segmentSamples (hregistry : (registry.contracts.map (·.typeId)).Nodup)
    {sections : List String} (h : Captured registry sections catalog content segments)
    {segment : DatasetSegment} (hsegment : segment ∈ segments) {sample : Int × Int} :
    sample ∈ segmentSamples (layouts registry sections) window content segment ↔
      sample.2 = segment.id ∧ window.contains sample.1 = true ∧
        HasRowAt registry sections (content segment) sample.1 := by
  rw [segmentSamples, List.mem_flatMap]
  constructor
  · intro hmem
    obtain ⟨found, hfound, hsample⟩ := hmem
    obtain ⟨hid, hin, timestamp, hknown, row, hrow, hts⟩ := mem_samplesOf.mp hsample
    obtain ⟨contract, hcontract, htype, hname, htimestamp⟩ :=
      mem_layoutEntries.mp ((getElem?_layouts hregistry).mp hknown)
    exact ⟨hid, hin, contract, hcontract, hname, timestamp, htimestamp, row, htype ▸ hrow, hts⟩
  · intro hmem
    obtain ⟨hid, hin, contract, hcontract, hname, timestamp, htimestamp, row, hrow, hts⟩ := hmem
    obtain ⟨found, hfound, htype, _⟩ :=
      h.listed segment hsegment contract.typeId (List.ne_nil_of_mem hrow)
    refine ⟨found, hfound, mem_samplesOf.mpr ⟨hid, hin, timestamp, ?_, row, htype ▸ hrow, hts⟩⟩
    rw [htype]
    exact (getElem?_layouts hregistry).mpr
      (mem_layoutEntries.mpr ⟨contract, hcontract, rfl, hname, htimestamp⟩)

theorem searchCandidates_best {remaining : List DatasetSegment}
    (hopens : ∀ segment ∈ remaining, catalog.openSegment segment = .ok (content segment))
    (hordered : remaining.Pairwise fun a b => visitedFirst direction a b = true)
    (hbounds : ∀ segment ∈ remaining, ∀ sample ∈ segmentSamples known window content segment,
      segment.minTs ≤ sample.1 ∧ sample.1 ≤ segment.maxTs)
    {seen : List (Int × Int)} {selected : Option (Int × Int)}
    (h : IsBest (nearness direction) seen selected) :
    ∃ found, searchCandidates catalog.openSegment known direction window remaining selected =
        .ok found ∧
      IsBest (nearness direction)
        (seen ++ remaining.flatMap (segmentSamples known window content)) found := by
  induction remaining generalizing seen selected with
  | nil =>
    refine ⟨selected, rfl, ?_⟩
    rw [List.flatMap_nil, List.append_nil]
    exact h
  | cons candidate remaining ih =>
    obtain ⟨hopen, hopens⟩ := List.forall_mem_cons.mp hopens
    obtain ⟨hfirst, hordered⟩ := List.pairwise_cons.mp hordered
    rw [searchCandidates]
    by_cases hpassed : passed direction selected candidate = true
    · -- No remaining segment reaches the timestamp that is selected.
      rw [if_pos hpassed]
      obtain ⟨chosen, hchosen, hbeyond⟩ := (Option.any_eq_true _ _).mp hpassed
      refine ⟨selected, rfl, h.append_of_le hchosen fun sample hsample => le_of_lt ?_⟩
      obtain ⟨segment, hsegment, hmem⟩ := List.mem_flatMap.mp hsample
      have hbound := hbounds segment hsegment sample hmem
      have hafter : segment = candidate ∨ visitedFirst direction candidate segment = true :=
        (List.mem_cons.mp hsegment).imp_right (hfirst segment)
      apply nearness_lt.mpr
      left
      cases direction with
      | next =>
        have hlt := of_decide_eq_true hbeyond
        apply decide_eq_true
        rcases hafter with rfl | hafter
        · omega
        · have hle : candidate.minTs ≤ segment.minTs := by
            rw [visitedFirst, Bool.or_eq_true, Bool.and_eq_true, decide_eq_true_eq,
              decide_eq_true_eq] at hafter
            omega
          omega
      | previous =>
        have hlt := of_decide_eq_true hbeyond
        apply decide_eq_true
        rcases hafter with rfl | hafter
        · omega
        · have hle : segment.maxTs ≤ candidate.maxTs := by
            rw [visitedFirst, Bool.or_eq_true, Bool.and_eq_true, decide_eq_true_eq,
              decide_eq_true_eq] at hafter
            omega
          omega
    · rw [if_neg hpassed, hopen, List.flatMap_cons, ← List.append_assoc]
      have hbest := h.foldl (segmentSamples known window content candidate)
      rw [segmentSamples, ← foldl_visitSection] at hbest
      exact ih hopens hordered
        (fun segment hsegment => hbounds segment (List.mem_cons_of_mem candidate hsegment)) hbest

theorem visitedFirst_trans {a b c : DatasetSegment} (hab : visitedFirst direction a b = true)
    (hbc : visitedFirst direction b c = true) : visitedFirst direction a c = true := by
  cases direction with
  | next =>
    rw [visitedFirst, Bool.or_eq_true, Bool.and_eq_true, decide_eq_true_eq, decide_eq_true_eq,
      decide_eq_true_eq] at hab hbc ⊢
    omega
  | previous =>
    rw [visitedFirst, Bool.or_eq_true, Bool.and_eq_true, decide_eq_true_eq, decide_eq_true_eq,
      decide_eq_true_eq] at hab hbc ⊢
    omega

theorem visitedFirst_total (a b : DatasetSegment) :
    (visitedFirst direction a b || visitedFirst direction b a) = true := by
  cases direction with
  | next =>
    rw [visitedFirst, visitedFirst, Bool.or_eq_true, Bool.or_eq_true, Bool.or_eq_true,
      Bool.and_eq_true, Bool.and_eq_true, decide_eq_true_eq, decide_eq_true_eq,
      decide_eq_true_eq, decide_eq_true_eq, decide_eq_true_eq, decide_eq_true_eq]
    omega
  | previous =>
    rw [visitedFirst, visitedFirst, Bool.or_eq_true, Bool.or_eq_true, Bool.or_eq_true,
      Bool.and_eq_true, Bool.and_eq_true, decide_eq_true_eq, decide_eq_true_eq,
      decide_eq_true_eq, decide_eq_true_eq, decide_eq_true_eq, decide_eq_true_eq]
    omega

theorem mem_candidates {segment : DatasetSegment} :
    segment ∈ candidates known direction segments ↔
      segment ∈ segments ∧ ∃ found ∈ segment.sections,
        0 < found.rows ∧ known.contains found.typeId = true := by
  rw [candidates, List.mem_mergeSort, List.mem_filter, List.any_eq_true]
  simp only [Bool.and_eq_true, decide_eq_true_eq]

theorem candidates_ordered (known : Std.TreeMap Nat String) (direction : Direction)
    (segments : List DatasetSegment) :
    (candidates known direction segments).Pairwise fun a b =>
      visitedFirst direction a b = true := by
  apply List.pairwise_mergeSort
  · intro a b c hab hbc
    exact visitedFirst_trans hab hbc
  · intro a b
    exact visitedFirst_total a b

theorem mem_samples (hregistry : (registry.contracts.map (·.typeId)).Nodup)
    (h : Captured registry request.sections catalog content segments)
    (hwindow : searchWindow request = some window) (sample : Int × Int) :
    sample ∈ (candidates (layouts registry request.sections) request.direction
        (segments.filter (overlaps window))).flatMap
          (segmentSamples (layouts registry request.sections) window content) ↔
      ∃ segment ∈ segments, segment.id = sample.2 ∧
        Matches registry request (content segment) sample.1 := by
  rw [List.mem_flatMap]
  constructor
  · intro hmem
    obtain ⟨segment, hcandidate, hsample⟩ := hmem
    have hsegment := (List.mem_filter.mp (mem_candidates.mp hcandidate).1).1
    obtain ⟨hid, hin, hrow⟩ := (mem_segmentSamples hregistry h hsegment).mp hsample
    obtain ⟨hinside, hbeyond⟩ := (contains_searchWindow hwindow).mp hin
    exact ⟨segment, hsegment, hid.symm, hrow, hinside, hbeyond⟩
  · intro hmem
    obtain ⟨segment, hsegment, hid, hrow, hinside, hbeyond⟩ := hmem
    have hin := (contains_searchWindow hwindow).mpr ⟨hinside, hbeyond⟩
    have hbound := h.bounds segment hsegment sample.1 hrow
    have hoverlaps : overlaps window segment = true := by
      obtain ⟨hlower, hupper⟩ := contains_iff.mp hin
      rw [overlaps, Bool.and_eq_true, Option.all_eq_true, Option.all_eq_true]
      exact ⟨fun lower hsome => decide_eq_true (le_trans (hlower lower hsome) hbound.2),
        fun upper hsome => decide_eq_true (le_trans hbound.1 (hupper upper hsome))⟩
    refine ⟨segment, mem_candidates.mpr ⟨List.mem_filter.mpr ⟨hsegment, hoverlaps⟩, ?_⟩,
      (mem_segmentSamples hregistry h hsegment).mpr ⟨hid.symm, hin, hrow⟩⟩
    obtain ⟨contract, hcontract, hname, timestamp, htimestamp, row, hmemRow, _⟩ := hrow
    obtain ⟨found, hfound, htype, hrows⟩ :=
      h.listed segment hsegment contract.typeId (List.ne_nil_of_mem hmemRow)
    have hknown : (layouts registry request.sections)[found.typeId]? = some timestamp := by
      rw [htype]
      exact (getElem?_layouts hregistry).mpr
        (mem_layoutEntries.mpr ⟨contract, hcontract, rfl, hname, htimestamp⟩)
    refine ⟨found, hfound, hrows, ?_⟩
    rw [Std.TreeMap.contains_eq_isSome_getElem?, hknown]
    rfl

theorem isNearest_iff {samples : List (Int × Int)} {selected : Option (Int × Int)}
    (hbest : IsBest (nearness request.direction) samples selected)
    (hsamples : ∀ sample, sample ∈ samples ↔ ∃ segment ∈ segments, segment.id = sample.2 ∧
      Matches registry request (content segment) sample.1) (found : Int × Int) :
    selected = some found ↔ IsNearest registry request content segments found := by
  constructor
  · intro hselected
    have hle := hbest.le_of_eq_some hselected
    have hheld := (hsamples found).mp (hbest.mem found hselected)
    refine ⟨hheld, fun segment hsegment ts hmatches => ?_, fun segment hsegment hmatches => ?_⟩
    · exact (nearness_le.mp (hle (ts, segment.id)
        ((hsamples (ts, segment.id)).mpr ⟨segment, hsegment, rfl, hmatches⟩))).1
    · exact (nearness_le.mp (hle (found.1, segment.id)
        ((hsamples (found.1, segment.id)).mpr ⟨segment, hsegment, rfl, hmatches⟩))).2 rfl
  · intro h
    obtain ⟨best, hselected, hle⟩ := hbest.le found ((hsamples found).mpr h.held)
    obtain ⟨segment, hsegment, hid, hmatches⟩ := (hsamples best).mp (hbest.mem best hselected)
    have hback : nearness request.direction best ≤ nearness request.direction found := by
      apply nearness_le.mpr
      refine ⟨h.nearest segment hsegment best.1 hmatches, fun heq => ?_⟩
      rw [← hid]
      exact h.newest segment hsegment (heq ▸ hmatches)
    have heq : best = found := nearness_injective (le_antisymm hback hle)
    rw [hselected, heq]

/-- The neighbour that is selected is the nearest row of the request among all segments, with
the greatest identity that holds it; none is selected if there is no such row. -/
theorem select_nearest (hregistry : (registry.contracts.map (·.typeId)).Nodup)
    (h : Captured registry request.sections catalog content segments)
    (hinstant : -2 ^ 63 ≤ request.instant ∧ request.instant < 2 ^ 63) :
    ∃ selected, select registry catalog request = .ok selected ∧
      (selected = none ↔
        ∀ segment ∈ segments, ∀ ts, ¬Matches registry request (content segment) ts) ∧
      ∀ found, selected = some found ↔ IsNearest registry request content segments found := by
  rw [select]
  cases hwindow : searchWindow request with
  | none =>
    have hno : ∀ segment ∈ segments, ∀ ts, ¬Matches registry request (content segment) ts := by
      intro segment hsegment ts hmatches
      have hbound := h.bounds segment hsegment ts hmatches.row
      have hrange := h.range segment hsegment
      exact not_beyond_of_none hwindow hinstant ⟨by omega, by omega⟩ hmatches.inside
        hmatches.beyond
    refine ⟨none, rfl, ⟨fun _ => hno, fun _ => rfl⟩, fun found => ⟨fun hfound => ?_, ?_⟩⟩
    · exact absurd hfound (by simp)
    · intro hnearest
      obtain ⟨segment, hsegment, _, hmatches⟩ := hnearest.held
      exact absurd hmatches (hno segment hsegment found.1)
  | some window =>
    have hfinish : ∀ {samples : List (Int × Int)} {selected : Option (Int × Int)},
        IsBest (nearness request.direction) samples selected →
        (∀ sample, sample ∈ samples ↔ ∃ segment ∈ segments, segment.id = sample.2 ∧
          Matches registry request (content segment) sample.1) →
        (selected = none ↔
          ∀ segment ∈ segments, ∀ ts, ¬Matches registry request (content segment) ts) ∧
        ∀ found, selected = some found ↔
          IsNearest registry request content segments found := by
      intro samples selected hbest hsamples
      refine ⟨?_, isNearest_iff hbest hsamples⟩
      rw [hbest.eq_none_iff, List.eq_nil_iff_forall_not_mem]
      constructor
      · intro hno segment hsegment ts hmatches
        exact hno (ts, segment.id) ((hsamples _).mpr ⟨segment, hsegment, rfl, hmatches⟩)
      · intro hno sample hsample
        obtain ⟨segment, hsegment, _, hmatches⟩ := (hsamples sample).mp hsample
        exact hno segment hsegment sample.1 hmatches
    have hsamples := mem_samples hregistry h hwindow
    dsimp only
    by_cases hempty : (layouts registry request.sections).isEmpty = true
    · rw [if_pos hempty]
      refine ⟨none, rfl, hfinish isBest_nil fun sample => ?_⟩
      rw [← hsamples sample]
      -- Without a layout no segment is a candidate.
      have hnone : candidates (layouts registry request.sections) request.direction
          (segments.filter (overlaps window)) = [] := by
        apply List.eq_nil_iff_forall_not_mem.mpr
        intro segment hcandidate
        obtain ⟨_, found, _, _, hcontains⟩ := mem_candidates.mp hcandidate
        have hfull := Std.TreeMap.isEmpty_eq_false_iff_exists_contains_eq_true.mpr ⟨_, hcontains⟩
        rw [hempty] at hfull
        exact Bool.false_ne_true hfull.symm
      rw [hnone]
      rfl
    · rw [if_neg hempty, h.lists window]
      have hmem : ∀ segment ∈ candidates (layouts registry request.sections) request.direction
          (segments.filter (overlaps window)), segment ∈ segments := fun segment hcandidate =>
        (List.mem_filter.mp (mem_candidates.mp hcandidate).1).1
      have hstart : IsBest (nearness request.direction) [] none := isBest_nil
      obtain ⟨selected, hselected, hbest⟩ := searchCandidates_best
        (fun segment hcandidate => h.opens segment (hmem segment hcandidate))
        (candidates_ordered _ _ _)
        (fun segment hcandidate sample hsample =>
          h.bounds segment (hmem segment hcandidate) sample.1
            ((mem_segmentSamples hregistry h (hmem segment hcandidate)).mp hsample).2.2)
        hstart
      exact ⟨selected, hselected, hfinish hbest hsamples⟩

end Nearest

/-! ## A timestamp of two segments -/

def sampleContract : TypeContract where
  typeId := 1
  semantics := .snapshotFull
  columns := [{ name := "ts", ty := .ts, cls := .timestamp }]
  identity := []

def sampleRegistry : Registry where
  contracts := [sampleContract]
  logicalSectionName := fun _ => some "os_loadavg"

def sampleSegment (id minTs maxTs : Int) : DatasetSegment where
  id := id
  kind := .finished
  minTs := minTs
  maxTs := maxTs
  activePosition := none
  sections := [{ typeId := 1, rows := 2, bytes := 0 }]

/-- A row at each bound of the catalog. -/
def sampleContent (segment : DatasetSegment) : Segment where
  id := segment.id
  kind := segment.kind
  maxTs := segment.maxTs
  activePosition := none
  layouts := [(1, [⟨[("ts", .ts segment.minTs)]⟩, ⟨[("ts", .ts segment.maxTs)]⟩])]
  dictionary := fun _ => none

def sampleSegments : List DatasetSegment :=
  [sampleSegment 1 0 3000000, sampleSegment 2 3000000 9000000]

def sampleCatalog : CapturedCatalog where
  segments := fun window => .ok (sampleSegments.filter (overlaps window))
  openSegment := fun segment => .ok (sampleContent segment)

def sampleRequest : Request where
  sections := ["os_loadavg"]
  direction := .next
  instant := 1000000
  window := { lower := none, upper := none }

theorem rows_sampleContent (segment : DatasetSegment) {typeId : Nat} {row : Row}
    (h : row ∈ (sampleContent segment).rows typeId) :
    typeId = 1 ∧ ∃ ts, row = ⟨[("ts", .ts ts)]⟩ ∧ (ts = segment.minTs ∨ ts = segment.maxTs) := by
  by_cases htype : typeId = 1
  · subst htype
    refine ⟨rfl, ?_⟩
    rcases List.mem_cons.mp h with rfl | hrest
    · exact ⟨segment.minTs, rfl, Or.inl rfl⟩
    · rw [List.mem_singleton.mp hrest]
      exact ⟨segment.maxTs, rfl, Or.inr rfl⟩
  · have hnil : (sampleContent segment).rows typeId = [] := by
      have hbeq : (typeId == 1) = false := beq_eq_false_iff_ne.mpr htype
      rw [Segment.rows, sampleContent, List.lookup_cons, hbeq]
      rfl
    rw [hnil] at h
    exact absurd h List.not_mem_nil

theorem sample_captured :
    Captured sampleRegistry sampleRequest.sections sampleCatalog sampleContent sampleSegments where
  lists _ := rfl
  opens _ _ := rfl
  listed segment hsegment typeId hrows := by
    obtain ⟨row, hrow⟩ := List.exists_mem_of_ne_nil _ hrows
    obtain ⟨rfl, _⟩ := rows_sampleContent segment hrow
    rcases List.mem_cons.mp hsegment with rfl | hsegment
    · exact ⟨_, List.mem_singleton_self _, rfl, by decide⟩
    · rw [List.mem_singleton.mp hsegment]
      exact ⟨_, List.mem_singleton_self _, rfl, by decide⟩
  bounds segment hsegment ts hrow := by
    have hle : segment.minTs ≤ segment.maxTs := by
      rcases List.mem_cons.mp hsegment with rfl | hsegment
      · decide
      · rw [List.mem_singleton.mp hsegment]
        decide
    obtain ⟨contract, hcontract, _, timestamp, htimestamp, row, hmem, hts⟩ := hrow
    rw [List.mem_singleton.mp hcontract] at htimestamp
    have hname : "ts" = timestamp := Option.some.inj htimestamp
    subst hname
    obtain ⟨_, stored, rfl, hstored⟩ := rows_sampleContent segment hmem
    have heq : stored = ts := Option.some.inj hts
    omega
  range segment hsegment := by
    rcases List.mem_cons.mp hsegment with rfl | hsegment
    · decide
    · rw [List.mem_singleton.mp hsegment]
      decide

theorem select_nearest_sample :
    ∃ selected, select sampleRegistry sampleCatalog sampleRequest = .ok selected ∧
      (selected = none ↔ ∀ segment ∈ sampleSegments, ∀ ts,
        ¬Matches sampleRegistry sampleRequest (sampleContent segment) ts) ∧
      ∀ found, selected = some found ↔
        IsNearest sampleRegistry sampleRequest sampleContent sampleSegments found :=
  select_nearest (by decide) sample_captured (by decide)

end Neighbor
end Kronika.Query
