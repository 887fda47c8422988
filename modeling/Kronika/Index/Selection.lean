/-
Which blocks of an index are asked for.

The keys are chosen from the sections that a catalog lists, before the segment is opened, and a
build chooses its keys from the sections of the opened segment.  Both read the same catalog.
-/
import Kronika.Index.Series
import Kronika.Reader.Segments
import Mathlib.Data.List.Destutter
import Mathlib.Data.List.Sort

namespace Kronika.Index

open Format Library Reader

/-! ## Keys in order -/

def sortKeys (keys : List SeriesKey) : List SeriesKey :=
  (keys.insertionSort fun a b => b.before a = false).destutter (· ≠ ·)

theorem mem_destutter' {α : Type} [DecidableEq α] {x : α} (first : α) (rest : List α) :
    x ∈ rest.destutter' (· ≠ ·) first ↔ x = first ∨ x ∈ rest := by
  induction rest generalizing first with
  | nil => rw [List.destutter'_nil, List.mem_singleton, List.mem_nil_iff, or_false]
  | cons next rest ih =>
    by_cases h : first ≠ next
    · rw [List.destutter'_cons_pos _ h, List.mem_cons, ih, List.mem_cons]
    · rw [List.destutter'_cons_neg _ h, ih, List.mem_cons, ← not_not.mp h, ← or_assoc, or_self]

variable {key : SeriesKey}

theorem mem_sortKeys {keys : List SeriesKey} : key ∈ sortKeys keys ↔ key ∈ keys := by
  rw [← List.mem_insertionSort (fun a b : SeriesKey => b.before a = false) (l := keys), sortKeys]
  cases List.insertionSort (fun a b : SeriesKey => b.before a = false) keys with
  | nil => rfl
  | cons first rest =>
    show key ∈ rest.destutter' _ first ↔ _
    rw [mem_destutter', List.mem_cons]

/-! ## Selection from sections -/

def osHealthKey : SeriesKey := { kind := .osHealth, typeId := 0 }
def overallHealthKey : SeriesKey := { kind := .overallHealth, typeId := 0 }
def postgresHealthKey : SeriesKey := { kind := .postgresHealth, typeId := 0 }

def findingsKey (typeId : UInt32) : SeriesKey := { kind := .findings, typeId := typeId }

def sectionTypeId (section' : SegmentSection) : UInt32 := UInt32.ofNat section'.typeId

def findingKeysForSections (sections : List SegmentSection) : List SeriesKey :=
  sortKeys (((sections.filter fun section' => findingLayout (sectionTypeId section')).map
    fun section' => findingsKey (sectionTypeId section')) ++ [findingsKey 0])

/-- The keys of one section under a section name. -/
def sectionKeys (logicalSectionName : UInt32 → Option String) (logicalName : String)
    (typeId : UInt32) : List SeriesKey :=
  (if logicalName = "pg_stat_database" ∧ pgDatabaseLayout typeId then
      [{ kind := .pgTransactionsPerSecond, typeId := typeId }]
    else if logicalName = "pg_stat_activity" ∧ pgActivityLayout typeId then
      [{ kind := .pgActiveBackends, typeId := typeId }]
    else []) ++
  if findingLayout typeId ∧ logicalSectionName typeId = some logicalName then [findingsKey typeId]
  else []

def seriesKeysForSections (logicalSectionName : UInt32 → Option String)
    (sections : List SegmentSection) (logicalName : String) : List SeriesKey :=
  if logicalName = "health" then
    [osHealthKey, overallHealthKey, postgresHealthKey, findingsKey 0]
  else
    sortKeys (sections.flatMap fun section' =>
      sectionKeys logicalSectionName logicalName (sectionTypeId section'))

def lockWaitKeysForSections (sections : List SegmentSection) : List SeriesKey :=
  sortKeys ((sections.filter fun section' => pgActivityLayout (sectionTypeId section')).map
    fun section' => { kind := .pgLockWaiting, typeId := sectionTypeId section' })

/-! ## The sections of an opened segment -/

/-- The rows and bytes of a section of an opened segment. -/
structure Section where
  rows : Nat
  bytes : Nat
deriving DecidableEq

def addRows (sections : Std.TreeMap Nat Section) (entry : Entry) : Std.TreeMap Nat Section :=
  let section' := sections[entry.typeId]?.getD { rows := 0, bytes := 0 }
  sections.insert entry.typeId
    { rows := section'.rows + entry.rows, bytes := section'.bytes + entry.len }

def rowsByType (catalogs : List Catalog) : Std.TreeMap Nat Section :=
  catalogs.foldl (fun sections (catalog : Catalog) => catalog.entries.foldl addRows sections) ∅

def typeIds (catalogs : List Catalog) : List UInt32 :=
  (rowsByType catalogs).keys.map UInt32.ofNat

/-- The keys of the blocks that a full build makes. -/
def keys (typeIds : List UInt32) : List SeriesKey :=
  sortKeys ([osHealthKey, overallHealthKey, postgresHealthKey, findingsKey 0] ++
    typeIds.flatMap fun typeId =>
      (if pgDatabaseLayout typeId then
          [{ kind := .pgTransactionsPerSecond, typeId := typeId }]
        else if pgActivityLayout typeId then
          [{ kind := .pgActiveBackends, typeId := typeId },
            { kind := .pgLockWaiting, typeId := typeId }]
        else []) ++
      if findingLayout typeId then [findingsKey typeId] else [])

/-! ## Selected keys are keys of the full build -/

theorem mem_foldl_addRows (sections : Std.TreeMap Nat Section) (entries : List Entry)
    (typeId : Nat) : typeId ∈ entries.foldl addRows sections ↔
      typeId ∈ sections ∨ ∃ entry ∈ entries, entry.typeId = typeId := by
  induction entries generalizing sections with
  | nil => simp
  | cons entry entries ih =>
    rw [List.foldl_cons, ih, addRows, Std.TreeMap.mem_insert, compare_eq_iff_eq,
      List.exists_mem_cons_iff, or_assoc, or_left_comm]

theorem foldl_rowsByType (catalogs : List Catalog) (sections : Std.TreeMap Nat Section) :
    catalogs.foldl (fun sections catalog => catalog.entries.foldl addRows sections) sections =
      (catalogs.flatMap (·.entries)).foldl addRows sections := by
  induction catalogs generalizing sections with
  | nil => rfl
  | cons catalog catalogs ih => rw [List.foldl_cons, ih, List.flatMap_cons, List.foldl_append]

theorem mem_rowsByType (catalogs : List Catalog) (typeId : Nat) :
    typeId ∈ (rowsByType catalogs).keys ↔
      ∃ entry ∈ catalogs.flatMap (·.entries), entry.typeId = typeId := by
  rw [Std.TreeMap.mem_keys, rowsByType, foldl_rowsByType, mem_foldl_addRows]
  simp

theorem sectionTypeId_mem {catalogs : List Catalog} {section' : SegmentSection}
    (h : section' ∈ sectionsOf catalogs) : sectionTypeId section' ∈ typeIds catalogs := by
  refine List.mem_map_of_mem ?_
  rw [mem_rowsByType, ← mem_sectionsOf]
  exact List.mem_map_of_mem h

/-- The key comes from one of the selections over the sections of a listing. -/
def SelectedKey (logicalSectionName : UInt32 → Option String) (sections : List SegmentSection)
    (key : SeriesKey) : Prop :=
  key ∈ findingKeysForSections sections ∨
    (∃ logicalName, key ∈ seriesKeysForSections logicalSectionName sections logicalName) ∨
    key ∈ lockWaitKeysForSections sections

variable {types : List UInt32}

theorem mem_keys :
    key ∈ keys types ↔
      key ∈ [osHealthKey, overallHealthKey, postgresHealthKey, findingsKey 0] ∨
      ∃ typeId ∈ types, key ∈ (if pgDatabaseLayout typeId then
            [({ kind := .pgTransactionsPerSecond, typeId := typeId } : SeriesKey)]
          else if pgActivityLayout typeId then
            [{ kind := .pgActiveBackends, typeId := typeId },
              { kind := .pgLockWaiting, typeId := typeId }]
          else []) ++ if findingLayout typeId then [findingsKey typeId] else [] := by
  rw [keys, mem_sortKeys, List.mem_append, List.mem_flatMap]

variable {typeId : UInt32}

theorem findingsKey_mem_keys (h : typeId ∈ types)
    (hfinding : findingLayout typeId = true) : findingsKey typeId ∈ keys types := by
  refine mem_keys.mpr (Or.inr ⟨typeId, h, List.mem_append_right _ ?_⟩)
  rw [if_pos hfinding]
  exact List.mem_singleton_self _

theorem findingsKey_zero_mem_keys (types : List UInt32) : findingsKey 0 ∈ keys types :=
  mem_keys.mpr (Or.inl (by simp))

theorem not_pgDatabaseLayout (h : pgActivityLayout typeId = true) :
    pgDatabaseLayout typeId = false := by
  unfold pgActivityLayout at h
  rw [Bool.or_eq_true, Bool.or_eq_true, beq_iff_eq, beq_iff_eq, beq_iff_eq] at h
  rcases h with (rfl | rfl) | rfl
  · rfl
  · rfl
  · rfl

theorem activityKeys_mem_keys (h : typeId ∈ types) (hactivity : pgActivityLayout typeId = true) :
    { kind := .pgActiveBackends, typeId := typeId } ∈ keys types ∧
      { kind := .pgLockWaiting, typeId := typeId } ∈ keys types := by
  have hdatabase := not_pgDatabaseLayout hactivity
  refine ⟨mem_keys.mpr (Or.inr ⟨typeId, h, List.mem_append_left _ ?_⟩),
    mem_keys.mpr (Or.inr ⟨typeId, h, List.mem_append_left _ ?_⟩)⟩
  · simp [hdatabase, hactivity]
  · simp [hdatabase, hactivity]

theorem sectionKeys_mem_keys {logicalSectionName : UInt32 → Option String} {logicalName : String}
    (h : typeId ∈ types) {key : SeriesKey}
    (hkey : key ∈ sectionKeys logicalSectionName logicalName typeId) : key ∈ keys types := by
  rcases List.mem_append.mp hkey with hseries | hfinding
  · split at hseries
    · next hdatabase =>
      refine mem_keys.mpr (Or.inr ⟨typeId, h, List.mem_append_left _ ?_⟩)
      rwa [if_pos hdatabase.2]
    · split at hseries
      · next hactivity =>
        rw [List.mem_singleton.mp hseries]
        exact (activityKeys_mem_keys h hactivity.2).1
      · cases hseries
  · split at hfinding
    · next hlayout =>
      rw [List.mem_singleton.mp hfinding]
      exact findingsKey_mem_keys h hlayout.1
    · cases hfinding

theorem SelectedKey.mem_keys {logicalSectionName : UInt32 → Option String} {catalogs : List Catalog}
    (h : SelectedKey logicalSectionName (sectionsOf catalogs) key) :
    key ∈ keys (typeIds catalogs) := by
  rcases h with hfindings | ⟨logicalName, hseries⟩ | hlocks
  · rw [findingKeysForSections, mem_sortKeys, List.mem_append] at hfindings
    rcases hfindings with hsection | hzero
    · obtain ⟨section', hmem, rfl⟩ := List.mem_map.mp hsection
      obtain ⟨hlisted, hlayout⟩ := List.mem_filter.mp hmem
      exact findingsKey_mem_keys (sectionTypeId_mem hlisted) hlayout
    · rw [List.mem_singleton.mp hzero]
      exact findingsKey_zero_mem_keys _
  · unfold seriesKeysForSections at hseries
    split at hseries
    · exact Index.mem_keys.mpr (Or.inl hseries)
    · rw [mem_sortKeys, List.mem_flatMap] at hseries
      obtain ⟨section', hlisted, hkey⟩ := hseries
      exact sectionKeys_mem_keys (sectionTypeId_mem hlisted) hkey
  · rw [lockWaitKeysForSections, mem_sortKeys] at hlocks
    obtain ⟨section', hmem, rfl⟩ := List.mem_map.mp hlocks
    obtain ⟨hlisted, hactivity⟩ := List.mem_filter.mp hmem
    exact (activityKeys_mem_keys (sectionTypeId_mem hlisted) hactivity).2

end Kronika.Index
