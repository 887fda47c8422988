/-
The segments a listing returns: finished files and the captured part of the journal.
-/
import Kronika.Library.TreeMap
import Kronika.Store.CatalogSummary
import Kronika.Store.Snapshot

namespace Kronika.Reader

open Format Store

/-- What tells one file, in one state, from every other. -/
structure FileIdentity where
  device : Nat
  inode : Nat
  len : Nat
  mtimeSeconds : Int
  mtimeNanoseconds : Int
  ctimeSeconds : Int
  ctimeNanoseconds : Int
deriving DecidableEq

/-- A finished segment of a scan.  Its address is a function of its id. -/
structure FinalUnit where
  id : SegmentId
  identity : FileIdentity
  summary : CatalogSummary
deriving DecidableEq

/-- A section of a listed segment, with the rows and the bytes of all its entries. -/
structure SegmentSection where
  typeId : Nat
  rows : Nat
  bytes : Nat
deriving DecidableEq

inductive SegmentSource where
  | finished (unit : FinalUnit)
  | active (snapshot : ActiveSnapshot)
deriving DecidableEq

structure SegmentRef where
  source : SegmentSource
  segmentId : SegmentId
  minTs : Int64
  maxTs : Int64
  capturedBytes : Nat
  sections : List SegmentSection
deriving DecidableEq

def saturatingAdd (a b : Nat) : Nat := min (a + b) (2 ^ 64 - 1)

/-! ## The sections of catalogs -/

def addEntry (sections : Std.TreeMap Nat SegmentSection) (entry : Entry) :
    Std.TreeMap Nat SegmentSection :=
  let section' := sections[entry.typeId]?.getD { typeId := entry.typeId, rows := 0, bytes := 0 }
  sections.insert entry.typeId
    { typeId := section'.typeId, rows := saturatingAdd section'.rows entry.rows
      bytes := saturatingAdd section'.bytes entry.len }

def sectionsOf (catalogs : List Catalog) : List SegmentSection :=
  (catalogs.foldl (fun sections (catalog : Catalog) => catalog.entries.foldl addEntry sections)
    ∅).toList.map (·.2)

def HasRows (catalogs : List Catalog) (typeId : Nat) : Prop :=
  ∃ catalog : Catalog, catalog ∈ catalogs ∧
    ∃ entry ∈ catalog.entries, entry.typeId = typeId ∧ entry.rows ≠ 0

section Sections

theorem saturatingAdd_pos {a b : Nat} : 0 < saturatingAdd a b ↔ 0 < a ∨ b ≠ 0 := by
  rw [saturatingAdd]
  omega

/-- What the sections say about the rows of the entries that went in. -/
structure Counted (sections : Std.TreeMap Nat SegmentSection) (entries : List Entry) : Prop where
  typed : ∀ typeId (found : SegmentSection), sections[typeId]? = some found → found.typeId = typeId
  rows : ∀ typeId, (∃ found : SegmentSection, sections[typeId]? = some found ∧ 0 < found.rows) ↔
    ∃ entry ∈ entries, entry.typeId = typeId ∧ entry.rows ≠ 0

theorem counted_empty : Counted ∅ [] where
  typed typeId found h := by
    exact absurd h (by simp)
  rows typeId := by simp

variable {sections : Std.TreeMap Nat SegmentSection} {entries : List Entry}

theorem counted_addEntry (h : Counted sections entries) (entry : Entry) :
    Counted (addEntry sections entry) (entries ++ [entry]) where
  typed typeId found hfound := by
    by_cases heq : typeId = entry.typeId
    · subst heq
      rw [addEntry, TreeMap.getElem?_insert_self] at hfound
      rw [← Option.some.inj hfound]
      cases hold : sections[entry.typeId]? with
      | none => rfl
      | some old => exact h.typed _ old hold
    · rw [addEntry, TreeMap.getElem?_insert_ne _ _ heq] at hfound
      exact h.typed typeId found hfound
  rows typeId := by
    by_cases heq : typeId = entry.typeId
    · subst heq
      have hold : 0 < (sections[entry.typeId]?.getD
          { typeId := entry.typeId, rows := 0, bytes := 0 }).rows ↔
          ∃ found : SegmentSection, sections[entry.typeId]? = some found ∧ 0 < found.rows := by
        cases sections[entry.typeId]? with
        | none => simp
        | some old => simp
      rw [addEntry, TreeMap.getElem?_insert_self]
      simp only [Option.some.injEq, exists_eq_left', saturatingAdd_pos, hold, h.rows,
        List.mem_append, List.mem_singleton]
      constructor
      · rintro (⟨old, hmem, hrows⟩ | hrows)
        · exact ⟨old, .inl hmem, hrows⟩
        · exact ⟨entry, .inr rfl, rfl, hrows⟩
      · rintro ⟨old, hmem | rfl, hrows⟩
        · exact .inl ⟨old, hmem, hrows⟩
        · exact .inr hrows.2
    · rw [addEntry, TreeMap.getElem?_insert_ne _ _ heq, h.rows]
      simp only [List.mem_append, List.mem_singleton]
      constructor
      · rintro ⟨old, hmem, hrows⟩
        exact ⟨old, .inl hmem, hrows⟩
      · rintro ⟨old, hmem | rfl, hrows⟩
        · exact ⟨old, hmem, hrows⟩
        · exact absurd hrows.1.symm heq

theorem counted_foldl (h : Counted sections entries) (more : List Entry) :
    Counted (more.foldl addEntry sections) (entries ++ more) := by
  induction more generalizing sections entries with
  | nil => rwa [List.append_nil]
  | cons entry more ih =>
    have hnext := ih (counted_addEntry h entry)
    rwa [List.append_assoc] at hnext

theorem foldl_sections (catalogs : List Catalog) (sections : Std.TreeMap Nat SegmentSection) :
    catalogs.foldl (fun sections catalog => catalog.entries.foldl addEntry sections) sections =
      (catalogs.flatMap (·.entries)).foldl addEntry sections := by
  induction catalogs generalizing sections with
  | nil => rfl
  | cons catalog catalogs ih => rw [List.foldl_cons, ih, List.flatMap_cons, List.foldl_append]

theorem rows_sectionsOf {catalogs : List Catalog} {typeId : Nat} :
    (∃ found ∈ sectionsOf catalogs, 0 < found.rows ∧ found.typeId = typeId) ↔
      HasRows catalogs typeId := by
  have hcounted := counted_foldl counted_empty (catalogs.flatMap (·.entries))
  rw [List.nil_append] at hcounted
  have hrows : HasRows catalogs typeId ↔
      ∃ entry ∈ catalogs.flatMap (·.entries), entry.typeId = typeId ∧ entry.rows ≠ 0 := by
    simp only [List.mem_flatMap]
    constructor
    · rintro ⟨catalog, hcatalog, entry, hentry, hboth⟩
      exact ⟨entry, ⟨catalog, hcatalog, hentry⟩, hboth⟩
    · rintro ⟨entry, ⟨catalog, hcatalog, hentry⟩, hboth⟩
      exact ⟨catalog, hcatalog, entry, hentry, hboth⟩
  rw [hrows, ← hcounted.rows, sectionsOf, foldl_sections]
  constructor
  · rintro ⟨found, hmem, hpos, rfl⟩
    obtain ⟨⟨key, value⟩, hentry, rfl⟩ := List.mem_map.mp hmem
    have hkey := Std.TreeMap.mem_toList_iff_getElem?_eq_some.mp hentry
    rw [hcounted.typed key value hkey]
    exact ⟨value, hkey, hpos⟩
  · rintro ⟨found, hfound, hpos⟩
    have hentry := Std.TreeMap.mem_toList_iff_getElem?_eq_some.mpr hfound
    exact ⟨found, List.mem_map_of_mem hentry, hpos, hcounted.typed typeId found hfound⟩

def rowTotal (entries : List Entry) (typeId : Nat) : Nat :=
  ((entries.filter (·.typeId = typeId)).map (·.rows)).sum

theorem rowTotal_append (entries more : List Entry) (typeId : Nat) :
    rowTotal (entries ++ more) typeId = rowTotal entries typeId + rowTotal more typeId := by
  rw [rowTotal, List.filter_append, List.map_append, List.sum_append]
  rfl

/-- The sections have the keys and the saturated row counts of the entries that went in. -/
structure Totals (sections : Std.TreeMap Nat SegmentSection) (entries : List Entry) : Prop where
  keys : ∀ typeId, (sections[typeId]?).isSome ↔ ∃ entry ∈ entries, entry.typeId = typeId
  rows : ∀ typeId, (sections[typeId]?.map (·.rows)).getD 0 =
    min (rowTotal entries typeId) (2 ^ 64 - 1)

theorem totals_empty : Totals ∅ [] where
  keys typeId := by
    simp
  rows typeId := by
    rfl

theorem totals_addEntry (h : Totals sections entries) (entry : Entry) :
    Totals (addEntry sections entry) (entries ++ [entry]) where
  keys typeId := by
    by_cases heq : typeId = entry.typeId
    · subst heq
      rw [addEntry]
      simp
    · rw [addEntry, TreeMap.getElem?_insert_ne _ _ heq, h.keys]
      constructor
      · rintro ⟨old, hmem, htype⟩
        exact ⟨old, List.mem_append_left _ hmem, htype⟩
      · rintro ⟨old, hmem, htype⟩
        rcases List.mem_append.mp hmem with hold | hnew
        · exact ⟨old, hold, htype⟩
        · rw [List.mem_singleton.mp hnew] at htype
          exact absurd htype.symm heq
  rows typeId := by
    rw [rowTotal_append]
    by_cases heq : typeId = entry.typeId
    · subst heq
      have hold := h.rows entry.typeId
      have hone : rowTotal [entry] entry.typeId = entry.rows := by
        rw [rowTotal, List.filter_cons, if_pos (decide_eq_true rfl)]
        rfl
      rw [addEntry, TreeMap.getElem?_insert_self]
      cases hfound : sections[entry.typeId]? with
      | none =>
        rw [hfound] at hold
        replace hold : 0 = min (rowTotal entries entry.typeId) (2 ^ 64 - 1) := hold
        show saturatingAdd 0 entry.rows = _
        rw [saturatingAdd]
        omega
      | some found =>
        rw [hfound] at hold
        replace hold : found.rows = min (rowTotal entries entry.typeId) (2 ^ 64 - 1) := hold
        show saturatingAdd found.rows entry.rows = _
        rw [saturatingAdd]
        omega
    · have hnone : rowTotal [entry] typeId = 0 := by
        rw [rowTotal, List.filter_cons, if_neg (by simpa using Ne.symm heq)]
        rfl
      rw [addEntry, TreeMap.getElem?_insert_ne _ _ heq, h.rows, hnone, Nat.add_zero]

theorem totals_foldl (h : Totals sections entries) (more : List Entry) :
    Totals (more.foldl addEntry sections) (entries ++ more) := by
  induction more generalizing sections entries with
  | nil => rwa [List.append_nil]
  | cons entry more ih =>
    have hnext := ih (totals_addEntry h entry)
    rwa [List.append_assoc] at hnext

theorem find?_values
    (htyped : ∀ (typeId : Nat) (found : SegmentSection), sections[typeId]? = some found →
      found.typeId = typeId) (typeId : Nat) :
    (sections.toList.map (·.2)).find? (·.typeId = typeId) = sections[typeId]? := by
  have hmem : ∀ found ∈ sections.toList.map (·.2), sections[found.typeId]? = some found := by
    intro found h
    obtain ⟨⟨key, value⟩, hentry, rfl⟩ := List.mem_map.mp h
    have hkey := Std.TreeMap.mem_toList_iff_getElem?_eq_some.mp hentry
    rw [htyped key value hkey]
    exact hkey
  cases hfind : (sections.toList.map (·.2)).find? (·.typeId = typeId) with
  | some found =>
    have htype := List.find?_some hfind
    rw [decide_eq_true_eq] at htype
    rw [← htype]
    exact (hmem found (List.mem_of_find?_eq_some hfind)).symm
  | none =>
    cases hget : sections[typeId]? with
    | none => rfl
    | some found =>
      have hentry := Std.TreeMap.mem_toList_iff_getElem?_eq_some.mpr hget
      have hnot := List.find?_eq_none.mp hfind found (List.mem_map_of_mem hentry)
      rw [htyped typeId found hget] at hnot
      simp at hnot

theorem find?_sectionsOf (catalogs : List Catalog) (typeId : Nat) :
    (((sectionsOf catalogs).find? (·.typeId = typeId)).map (·.rows)).getD 0 =
      min (rowTotal (catalogs.flatMap (·.entries)) typeId) (2 ^ 64 - 1) := by
  have htyped := (counted_foldl counted_empty (catalogs.flatMap (·.entries))).typed
  have htotals := totals_foldl totals_empty (catalogs.flatMap (·.entries))
  rw [sectionsOf, foldl_sections, find?_values htyped]
  exact htotals.rows typeId

theorem mem_sectionsOf (catalogs : List Catalog) (typeId : Nat) :
    typeId ∈ (sectionsOf catalogs).map (·.typeId) ↔
      ∃ entry ∈ catalogs.flatMap (·.entries), entry.typeId = typeId := by
  have htyped := (counted_foldl counted_empty (catalogs.flatMap (·.entries))).typed
  have htotals := totals_foldl totals_empty (catalogs.flatMap (·.entries))
  rw [List.nil_append] at htotals
  rw [← htotals.keys, ← find?_values htyped, sectionsOf, foldl_sections, List.find?_isSome]
  simp only [List.mem_map, decide_eq_true_eq]

theorem nodup_sectionsOf (catalogs : List Catalog) :
    ((sectionsOf catalogs).map (·.typeId)).Nodup := by
  have htyped := (counted_foldl counted_empty (catalogs.flatMap (·.entries))).typed
  rw [sectionsOf, foldl_sections]
  generalize (catalogs.flatMap (·.entries)).foldl addEntry ∅ = sections at *
  have hkeys : (sections.toList.map (·.2)).map (·.typeId) = sections.toList.map (·.1) := by
    rw [List.map_map]
    apply List.map_congr_left
    intro entry hmem
    have hkey := Std.TreeMap.mem_toList_iff_getElem?_eq_some.mp
      (show (entry.1, entry.2) ∈ sections.toList from hmem)
    exact htyped entry.1 entry.2 hkey
  rw [hkeys, Std.TreeMap.map_fst_toList_eq_keys]
  exact TreeMap.nodup_keys sections

end Sections

/-! ## The active segment -/

def activeBounds (parts : List ActivePart) : Option (Int64 × Int64) :=
  if parts = [] then none
  else
    let minTs := parts.foldl (fun ts part => min ts part.catalog.minTs) Int64.maxValue
    let maxTs := parts.foldl (fun ts part => max ts part.catalog.maxTs) Int64.minValue
    if minTs > maxTs then some (0, 0) else some (minTs, maxTs)

end Kronika.Reader
