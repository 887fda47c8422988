/-
The segments of a scan as the scan captured them, each of them once.

A file that opens is the file of the scan, or the listing fails; so what a listing
opens are canonical segments.
-/
import Kronika.Reader.Discovery

namespace Kronika
namespace Store

open Format Library

theorem readEncodedCatalog_none {reader : Bytes} {budget : Option MetadataBudget}
    {encoded : EncodedCatalog} (h : readEncodedCatalog reader budget = .ok encoded) :
    readEncodedCatalog reader none = .ok encoded := by
  rw [readEncodedCatalog] at h ⊢
  by_cases hshort : reader.length < tailIndexLen
  · rw [if_pos hshort] at h
    exact absurd h (by simp)
  · rw [if_neg hshort] at h ⊢
    dsimp only at h ⊢
    cases htail : readExactAt reader (reader.length - tailIndexLen) tailIndexLen with
    | none =>
      rw [htail] at h
      exact absurd h (by simp)
    | some tailBytes =>
      rw [htail] at h
      dsimp only at h ⊢
      cases hdecode : TailIndex.decode tailBytes with
      | error problem =>
        rw [hdecode] at h
        exact absurd h (by simp)
      | ok tail =>
        rw [hdecode] at h
        dsimp only at h ⊢
        split_ifs at h ⊢ with hlong hplace
        cases hbudget : checkBudget tail.catalogLen budget with
        | error problem =>
          rw [hbudget] at h
          exact absurd h (by simp)
        | ok u =>
          rw [hbudget] at h
          exact h

theorem readCatalog_of_readZmsSummary {crc32c : Checksum} {reader : Bytes} {retained limit : Nat}
    {validation : FinishedValidation} {catalog : Catalog} {catalogLen : Nat}
    (h : readZmsSummary crc32c reader retained limit validation = .ok (catalog, catalogLen)) :
    readCatalog crc32c reader = .ok catalog := by
  rw [readZmsSummary] at h
  cases hencoded : readEncodedCatalog reader (some (retained, limit)) with
  | error problem =>
    rw [hencoded] at h
    exact absurd h (by simp)
  | ok encoded =>
    rw [hencoded] at h
    rw [readCatalog, readEncodedCatalog_none hencoded]
    dsimp only at h ⊢
    cases hmagic : verifyMagic reader with
    | error problem =>
      rw [hmagic] at h
      exact absurd h (by simp)
    | ok u =>
      rw [hmagic] at h
      cases hdecode : Catalog.decode crc32c encoded.bytes with
      | error problem =>
        rw [hdecode] at h
        exact absurd h (by simp)
      | ok found =>
        rw [hdecode] at h
        dsimp only at h ⊢
        split_ifs at h with hlimit
        cases hformat : checkFormat found encoded.bodyEnd with
        | error problem =>
          rw [hformat] at h
          exact absurd h (by simp)
        | ok u =>
          rw [hformat] at h
          cases validation with
          | catalog => exact congrArg (fun pair => Except.ok pair.1) (Except.ok.inj h)
          | complete =>
            cases hsums : validateSectionChecksums crc32c reader found.entries with
            | error problem =>
              rw [hsums] at h
              exact absurd h (by simp)
            | ok u =>
              rw [hsums] at h
              exact congrArg (fun pair => Except.ok pair.1) (Except.ok.inj h)

end Store

namespace Reader

open Format Store Library

/-! ## Canonical segments -/

/-- A segment as the scan captured it, with the catalogs of its file or of its parts. -/
structure Canonical where
  source : SegmentSource
  id : SegmentId
  minTs : Int64
  maxTs : Int64
  capturedBytes : Nat
  catalogs : List Catalog

namespace Canonical

def ref (segment : Canonical) : SegmentRef :=
  { source := segment.source, segmentId := segment.id, minTs := segment.minTs
    maxTs := segment.maxTs, capturedBytes := segment.capturedBytes
    sections := sectionsOf segment.catalogs }

def key (segment : Canonical) : Int ×ₗ Int :=
  toLex (segment.maxTs.toInt, segment.id.value.toInt)

def has (segment : Canonical) (typeId : Nat) : Bool :=
  (sectionsOf segment.catalogs).any fun found => 0 < found.rows ∧ found.typeId = typeId

theorem has_iff {segment : Canonical} {typeId : Nat} :
    segment.has typeId = true ↔ HasRows segment.catalogs typeId := by
  rw [has, List.any_eq_true, ← rows_sectionsOf]
  simp only [decide_eq_true_eq]

theorem key_injective {a b : Canonical} (h : a.key = b.key) : a.id = b.id := by
  have hpair : (a.maxTs.toInt, a.id.value.toInt) = (b.maxTs.toInt, b.id.value.toInt) := h
  exact SegmentId.ext_value (Int64.toInt_inj.mp (congrArg Prod.snd hpair))

/-- The candidate a segment is before it is opened. -/
def candidate (segment : Canonical) : Candidate :=
  { maxTs := segment.maxTs, id := segment.id
    unit := match segment.source with
      | .finished unit => some unit
      | .active _ => none }

end Canonical

variable (catalogs : SegmentId → Catalog) (scan : LocalScan)

def finishedSegment (unit : FinalUnit) : Canonical :=
  { source := .finished unit, id := unit.id, minTs := unit.summary.minTs
    maxTs := unit.summary.maxTs, capturedBytes := unit.identity.len
    catalogs := [catalogs unit.id] }

/-- The captured parts, as the segment of this id and these bounds. -/
def capturedSegment (active : SegmentId × Int64 × Int64) : Canonical :=
  { source := .active { active := scan.active, partCount := scan.active.length
                        validLen := scan.validLen, segmentId := active.1 }
    id := active.1, minTs := active.2.1, maxTs := active.2.2, capturedBytes := scan.validLen
    catalogs := scan.active.map (·.catalog) }

def activeSegment : Option Canonical := scan.canonicalActive.map (capturedSegment scan)

/-- Every segment once: the finished ones, and the active one unless it is finished. -/
def canonicalSegments : List Canonical :=
  scan.finished.map (finishedSegment catalogs) ++ (activeSegment scan).toList

variable {catalogs scan} {crc32c : Checksum} {dir : LocalDir} {range : TimeRange}

theorem canonicalActive_some {id : SegmentId} {bounds : Int64 × Int64}
    (h : scan.canonicalActive = some (id, bounds)) :
    scan.finishedExists = false ∧ scan.activeId = some id ∧
      activeBounds scan.active = some bounds := by
  rw [LocalScan.canonicalActive] at h
  by_cases hexists : scan.finishedExists = true
  · rw [if_pos hexists] at h
    exact absurd h (by simp)
  · rw [if_neg hexists] at h
    cases hid : scan.activeId with
    | none =>
      rw [hid] at h
      exact absurd h (by simp)
    | some found =>
      rw [hid] at h
      obtain ⟨found', hbounds, heq⟩ := Option.map_eq_some_iff.mp h
      cases heq
      exact ⟨Bool.eq_false_iff.mpr hexists, rfl, hbounds⟩

theorem id_mem_finished_of_exists {id : SegmentId} (hid : scan.activeId = some id)
    (h : scan.finishedExists = false) : ∀ unit ∈ scan.finished, unit.id ≠ id := by
  intro unit hunit heq
  rw [LocalScan.finishedExists, hid] at h
  have hnone : ¬(scan.finished.any (·.id = id) = true) := by
    rw [Bool.not_eq_true]
    exact h
  exact hnone (List.any_eq_true.mpr ⟨unit, hunit, by simpa using heq⟩)

theorem ids_pairwise : (canonicalSegments catalogs scan).Pairwise fun a b => a.id ≠ b.id := by
  rw [canonicalSegments, List.pairwise_append]
  refine ⟨?_, ?_, ?_⟩
  · rw [List.pairwise_map]
    refine scan.sorted.imp fun {a b} hlt heq => ?_
    have hid : a.id = b.id := heq
    rw [hid, Int64.lt_iff_toInt_lt] at hlt
    exact absurd hlt (Int.lt_irrefl _)
  · cases activeSegment scan with
    | none => exact List.Pairwise.nil
    | some active => exact List.pairwise_singleton _ _
  · intro a ha b hb heq
    obtain ⟨unit, hunit, rfl⟩ := List.mem_map.mp ha
    rw [Option.mem_toList] at hb
    obtain ⟨⟨id, bounds⟩, hactive, rfl⟩ := Option.map_eq_some_iff.mp hb
    obtain ⟨hexists, hid, _⟩ := canonicalActive_some hactive
    exact id_mem_finished_of_exists hid hexists unit hunit heq

theorem eq_of_id {a b : Canonical} (ha : a ∈ canonicalSegments catalogs scan)
    (hb : b ∈ canonicalSegments catalogs scan) (h : a.id = b.id) : a = b := by
  by_contra hne
  have hsymm : Std.Symm fun a b : Canonical => a.id ≠ b.id := ⟨fun _ _ hab => hab.symm⟩
  exact ids_pairwise.forall ha hb hne h

/-! ## Opening -/

/-- The scan read its summaries from `contents`, and a file that still has the identity of
the scan still has these bytes. -/
structure Pinned (crc32c : Checksum) (dir : LocalDir) (scan : LocalScan)
    (contents : SegmentId → Bytes) (catalogs : SegmentId → Catalog) : Prop where
  summarised : ∀ unit ∈ scan.finished, ∃ retained limit validation catalogLen,
    readZmsSummary crc32c (contents unit.id) retained limit validation =
        .ok (catalogs unit.id, catalogLen) ∧
      unit.summary = CatalogSummary.fromCatalog (catalogs unit.id) catalogLen
  unchanged : ∀ unit ∈ scan.finished, ∀ file, dir.zms unit.id = some file →
    file.before = unit.identity → file.after = unit.identity → file.bytes = contents unit.id

variable {contents : SegmentId → Bytes}

theorem readCatalog_contents (h : Pinned crc32c dir scan contents catalogs) {unit : FinalUnit}
    (hunit : unit ∈ scan.finished) :
    readCatalog crc32c (contents unit.id) = .ok (catalogs unit.id) := by
  obtain ⟨retained, limit, validation, catalogLen, hread, _⟩ := h.summarised unit hunit
  exact readCatalog_of_readZmsSummary hread

theorem openFinished_ok (h : Pinned crc32c dir scan contents catalogs) {unit : FinalUnit}
    (hunit : unit ∈ scan.finished) {segment : SegmentRef}
    (hopen : openFinished crc32c dir unit = .ok segment) :
    segment = (finishedSegment catalogs unit).ref := by
  rw [openFinished] at hopen
  cases hfile : dir.zms unit.id with
  | none =>
    rw [hfile] at hopen
    exact absurd hopen (by simp)
  | some file =>
    rw [hfile] at hopen
    dsimp only at hopen
    by_cases hbefore : file.before = unit.identity
    · rw [if_neg (not_not.mpr hbefore)] at hopen
      cases hread : readCatalog crc32c file.bytes with
      | error problem =>
        rw [hread] at hopen
        exact absurd hopen (by simp)
      | ok catalog =>
        rw [hread] at hopen
        dsimp only at hopen
        by_cases hafter : file.after = unit.identity
        · rw [if_neg (not_not.mpr hafter)] at hopen
          rw [h.unchanged unit hunit file hfile hbefore hafter,
            readCatalog_contents h hunit] at hread
          obtain rfl := Except.ok.inj hread
          exact (Except.ok.inj hopen).symm
        · rw [if_pos hafter] at hopen
          exact absurd hopen (by simp)
    · rw [if_pos hbefore] at hopen
      exact absurd hopen (by simp)

theorem openFinishedUnits_ok (h : Pinned crc32c dir scan contents catalogs)
    {units : List FinalUnit} (hunits : ∀ unit ∈ units, unit ∈ scan.finished)
    {segments : List SegmentRef} (hopen : openFinishedUnits crc32c dir units = .ok segments) :
    segments = (units.map (finishedSegment catalogs)).map (·.ref) := by
  induction units generalizing segments with
  | nil => exact (Except.ok.inj hopen).symm
  | cons unit units ih =>
    obtain ⟨hunit, hrest⟩ := List.forall_mem_cons.mp hunits
    rw [openFinishedUnits] at hopen
    cases hone : openFinished crc32c dir unit with
    | error problem =>
      rw [hone] at hopen
      exact absurd hopen (by simp)
    | ok segment =>
      rw [hone] at hopen
      cases hmore : openFinishedUnits crc32c dir units with
      | error problem =>
        rw [hmore] at hopen
        exact absurd hopen (by simp)
      | ok more =>
        rw [hmore] at hopen
        rw [← Except.ok.inj hopen, List.map_cons, List.map_cons, ← openFinished_ok h hunit hone,
          ← ih hrest hmore]

theorem openActive_ok {active : SegmentId × Int64 × Int64}
    (h : scan.canonicalActive = some active) {found : Option ActiveSnapshot}
    (hopen : openActive crc32c dir scan = .ok found) :
    ∃ snapshot, found = some snapshot ∧
      snapshotRef scan snapshot active.2.1 active.2.2 = (capturedSegment scan active).ref := by
  obtain ⟨_, hid, _⟩ := canonicalActive_some h
  rw [openActive] at hopen
  cases hsnap : openActiveSnapshot crc32c dir.activeJournal scan.active scan.validLen with
  | error problem =>
    rw [hsnap] at hopen
    exact absurd hopen (by simp)
  | ok opened =>
    rw [hsnap] at hopen
    obtain rfl := Except.ok.inj hopen
    obtain ⟨first, hfirst, hsame⟩ := Option.map_eq_some_iff.mp hid
    refine ⟨_, (openActiveSnapshot_ok hsnap).trans (by rw [hfirst]; rfl), ?_⟩
    rw [snapshotRef, ActiveSnapshot.parts, List.take_length]
    dsimp only
    rw [hsame]
    rfl

end Reader
end Kronika
