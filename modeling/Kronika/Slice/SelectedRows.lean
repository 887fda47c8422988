/-
The rows that a slice selects.

Both passes see all rows of the listed segments, whatever batches they come in, and no
other segment has a row in the context of the range.  So what is staged for a type is
what the slice wants of all its rows, and the bounds are the extremes of these.
-/
import Kronika.Library.Folds
import Kronika.Reader.Predecessors
import Kronika.Slice.Boundaries
import Kronika.Slice.StoredRows

namespace Kronika.Slice

open Format Store Reader Library

/-! ## The timestamps of rows -/

def timeOf (registry : List TypeContract) (typeId : Nat) (row : Row) : Option Int64 :=
  ((contractOf registry typeId).bind timestampColumn).bind row.int64

/-- The rows of a type that belong to a slice, of all its rows. -/
def sliceRows (registry : List TypeContract) (range : MicrosRange) (typeId : Nat)
    (all : List Row) : List Row :=
  match contractOf registry typeId with
  | none => []
  | some contract => all.filter fun row =>
      (timeOf registry typeId row).any
        (wanted contract.semantics range (all.filterMap (timeOf registry typeId)))

def Timed (name : String) (rows : List Row) : Prop := ∀ row ∈ rows, (row.int64 name).isSome = true

variable {ε : Type} {contract : TypeContract} {name : String} {batch : RecordBatch}

theorem timestamps_ok {values : List Int64} (h : timestamps (ε := ε) batch contract = .ok values) :
    ∃ name, timestampColumn contract = some name ∧ Timed name batch.rows ∧
      values = batch.rows.filterMap (·.int64 name) := by
  rw [timestamps] at h
  cases hcolumn : timestampColumn contract with
  | none =>
    rw [hcolumn] at h
    cases h
  | some name =>
    rw [hcolumn] at h
    dsimp only at h
    split at h
    · cases h
    · next hvalues =>
      rw [RecordBatch.int64Column] at hvalues
      split at hvalues
      · obtain rfl := Option.some.inj hvalues
        split at h
        · next hall =>
          refine ⟨name, rfl, fun row hrow => ?_, ?_⟩
          · exact List.all_eq_true.mp hall _ (List.mem_map_of_mem hrow)
          · rw [← Except.ok.inj h, List.filterMap_map]
            rfl
        · cases h
      · cases hvalues

theorem Timed.append {rows more : List Row} (h : Timed name rows) (hmore : Timed name more) :
    Timed name (rows ++ more) := by
  intro row hrow
  exact (List.mem_append.mp hrow).elim (h row) (hmore row)

variable {rows : List Row}

variable {registry : List TypeContract} {range : MicrosRange} {typeId : Nat}

/-- What the first pass knows of a type behind some of its rows. -/
structure Surveyed (registry : List TypeContract) (range : MicrosRange) (typeId : Nat)
    (name : String) (selection : TypeSelection) (rows : List Row) : Prop where
  contract : contractOf registry typeId = some selection.contract
  column : timestampColumn selection.contract = some name
  timed : Timed name rows
  observed : Observed selection.contract range selection (rows.filterMap (·.int64 name))

theorem Surveyed.observe {selection next : TypeSelection}
    (h : Surveyed registry range typeId name selection rows)
    (hbatch : observeBatch (ε := ε) range selection batch = .ok next) :
    Surveyed registry range typeId name next (rows ++ batch.rows) := by
  rw [observeBatch] at hbatch
  split at hbatch
  · cases hbatch
  · next hvalues =>
    obtain ⟨found, hfound, htimed, rfl⟩ := timestamps_ok hvalues
    rw [h.column] at hfound
    cases hfound
    obtain rfl := Except.ok.inj hbatch
    have hobserved := h.observed.foldl (batch.rows.filterMap (·.int64 name))
    rw [← List.filterMap_append] at hobserved
    have hsame := hobserved.contract_eq
    refine ⟨?_, ?_, h.timed.append htimed, ?_⟩
    · rw [hsame]
      exact h.contract
    · rw [hsame]
      exact h.column
    · rw [hsame]
      exact hobserved

theorem Surveyed.observeAll {batches : List RecordBatch} {selection next : TypeSelection}
    (h : Surveyed registry range typeId name selection rows)
    (hfold : batches.foldlM (observeBatch (ε := ε) range) selection = .ok next) :
    Surveyed registry range typeId name next (rows ++ batches.flatMap (·.rows)) := by
  have hstart : Surveyed registry range typeId name selection
      (rows ++ ([] : List RecordBatch).flatMap (·.rows)) := by
    rw [List.flatMap_nil, List.append_nil]
    exact h
  refine foldlM_invariant (fun done selection => Surveyed registry range typeId name selection
    (rows ++ done.flatMap (·.rows))) ?_ hstart hfold
  intro done batch _ selection next _ hdone hbatch
  rw [List.flatMap_append, List.flatMap_singleton, ← List.append_assoc]
  exact hdone.observe hbatch

/-! ## Folds over the types of a segment, and over segments -/

section Folds

variable {Body σ E : Type} {reader : BodyReader Body ε} {stored : Stored} {segment : Canonical}
  {source : RowSource} {rowsOf : Nat → List Row}

end Folds

/-! ## The rows behind the selections -/

/-- What the first pass knows of all types behind some rows of each. -/
structure SurveyedAll (registry : List TypeContract) (range : MicrosRange)
    (selections : Selections) (rowsOf : Nat → List Row) : Prop where
  unseen : ∀ typeId, isDictionary typeId = false → selections[typeId]? = none → rowsOf typeId = []
  seen : ∀ typeId selection, isDictionary typeId = false → selections[typeId]? = some selection →
    ∃ name, Surveyed registry range typeId name selection (rowsOf typeId)

section FirstPass

variable {Body : Type} {reader : BodyReader Body ε} {stored : Stored} {segment : Canonical}
  {source : RowSource} {rowsOf : Nat → List Row} {selections next : Selections}

variable {crc32c : Checksum} {dir : LocalDir} {scan : LocalScan}
  {contents : SegmentId → Bytes} {catalogs : SegmentId → Catalog}

end FirstPass

/-! ## Retained batches -/

theorem filter_filterMap {α β : Type} (f : α → Option β) (p : β → Bool) (xs : List α) :
    (xs.filterMap f).filter p = (xs.filter fun x => (f x).any p).filterMap f := by
  induction xs with
  | nil => rfl
  | cons x xs ih =>
    cases hx : f x with
    | none => rw [List.filterMap_cons_none hx, List.filter_cons_of_neg (by simp [hx]), ih]
    | some y =>
      rw [List.filterMap_cons_some hx]
      by_cases hp : p y = true
      · rw [List.filter_cons_of_pos hp, List.filter_cons_of_pos (by simp [hx, hp]),
          List.filterMap_cons_some hx, ih]
      · rw [List.filter_cons_of_neg hp, List.filter_cons_of_neg (by simp [hx, hp]), ih]

/-- A staged section is the encoded batch, in its place. -/
structure StagedAs (encode : Nat → List RecordBatch → Except ε Bytes) (staging : Bytes)
    (typeId : Nat) (staged : StagedSection) (batch : RecordBatch) : Prop where
  rows : staged.rows = batch.rows.length
  within : staged.offset + staged.len ≤ staging.length
  body : encode typeId [batch] = .ok (slice staging staged.offset (staged.offset + staged.len))

/-- What the second pass has staged behind some rows of each type: per type the batches with
the rows to keep, and over all types the extremes of their timestamps. -/
structure StagedRows (registry : List TypeContract)
    (encode : Nat → List RecordBatch → Except ε Bytes) (keep : Nat → Row → Bool)
    (selected : StagedSelection) (rowsOf : Nat → List Row) (batches : Nat → List RecordBatch)
    (times : List Int64) : Prop where
  stagingEnd : selected.stagingEnd = selected.staging.length
  staged : ∀ typeId, List.Forall₂ (StagedAs encode selected.staging typeId)
    (selected.sections typeId) (batches typeId)
  rows : ∀ typeId, isDictionary typeId = false →
    (batches typeId).flatMap (·.rows) = (rowsOf typeId).filter (keep typeId)
  dictionary : ∀ typeId, isDictionary typeId = true → batches typeId = []
  bounds : Hull selected.actualMinTs selected.actualMaxTs times
  times_iff : ∀ ts, ts ∈ times ↔ ∃ typeId, ∃ row ∈ (batches typeId).flatMap (·.rows),
    timeOf registry typeId row = some ts

def Stages (registry : List TypeContract) (encode : Nat → List RecordBatch → Except ε Bytes)
    (keep : Nat → Row → Bool) (selected : StagedSelection) (rowsOf : Nat → List Row) : Prop :=
  ∃ batches times, StagedRows registry encode keep selected rowsOf batches times

section SecondPass

variable {encode : Nat → List RecordBatch → Except ε Bytes} {keep : Nat → Row → Bool}
  {selected : StagedSelection} {rowsOf : Nat → List Row}

theorem Stages.skip (h : Stages registry encode keep selected rowsOf) {rows : List Row}
    (hskip : isDictionary typeId = false → rows.filter (keep typeId) = []) :
    Stages registry encode keep selected fun other =>
      rowsOf other ++ if other = typeId then rows else [] := by
  obtain ⟨batches, times, h⟩ := h
  refine ⟨batches, times, h.stagingEnd, h.staged, fun other hdata => ?_, h.dictionary,
    h.bounds, h.times_iff⟩
  rw [h.rows other hdata, List.filter_append]
  by_cases hsame : other = typeId
  · subst hsame
    rw [if_pos rfl, hskip hdata, List.append_nil]
  · rw [if_neg hsame, List.filter_nil, List.append_nil]

theorem StagedAs.append {staging : Bytes} {staged : StagedSection}
    (h : StagedAs encode staging typeId staged batch) (more : Bytes) :
    StagedAs encode (staging ++ more) typeId staged batch where
  rows := h.rows
  within := by
    rw [List.length_append]
    exact h.within.trans (Nat.le_add_right _ _)
  body := by
    rw [slice_append_left h.within]
    exact h.body

theorem Stages.push (h : Stages registry encode keep selected rowsOf) {rows : List Row}
    {kept : RecordBatch} {body : Bytes} {lo hi : Int64} (hdata : isDictionary typeId = false)
    (hkept : kept.rows = rows.filter (keep typeId)) (hbody : encode typeId [kept] = .ok body)
    (hbounds : Hull lo hi (kept.rows.filterMap (timeOf registry typeId))) :
    Stages registry encode keep (selected.push typeId body kept.rows.length (lo, hi))
      fun other => rowsOf other ++ if other = typeId then rows else [] := by
  obtain ⟨batches, times, h⟩ := h
  have hrows : ∀ other, (batches other ++ if other = typeId then [kept] else []).flatMap
      (·.rows) = (batches other).flatMap (·.rows) ++
        if other = typeId then kept.rows else [] := by
    intro other
    rw [List.flatMap_append]
    by_cases hsame : other = typeId
    · rw [if_pos hsame, if_pos hsame, List.flatMap_singleton]
    · rw [if_neg hsame, if_neg hsame, List.flatMap_nil]
  refine ⟨fun other => batches other ++ if other = typeId then [kept] else [],
    times ++ kept.rows.filterMap (timeOf registry typeId), ?_, fun other => ?_,
    fun other hother => ?_, fun other hother => ?_, h.bounds.append hbounds, fun ts => ?_⟩
  · show selected.stagingEnd + body.length = (selected.staging ++ body).length
    rw [h.stagingEnd, List.length_append]
  · have hold : List.Forall₂ (StagedAs encode (selected.staging ++ body) other)
        (selected.sections other) (batches other) :=
      (h.staged other).imp fun _ _ hstaged => hstaged.append body
    by_cases hsame : other = typeId
    · subst hsame
      have hsections : (selected.push other body kept.rows.length (lo, hi)).sections other =
          selected.sections other ++
            [{ offset := selected.stagingEnd, len := body.length, rows := kept.rows.length }] := by
        rw [StagedSelection.sections, StagedSelection.push, TreeMap.getElem?_insert_self]
        rfl
      rw [hsections, if_pos rfl]
      refine List.rel_append hold (.cons ⟨rfl, ?_, ?_⟩ .nil)
      · show selected.stagingEnd + body.length ≤ (selected.staging ++ body).length
        rw [h.stagingEnd, List.length_append]
      · show encode other [kept] = .ok (slice (selected.staging ++ body) selected.stagingEnd
          (selected.stagingEnd + body.length))
        have hplace : slice (selected.staging ++ body) (selected.stagingEnd + 0)
            (selected.stagingEnd + body.length) = slice body 0 body.length :=
          slice_append_right 0 body.length h.stagingEnd.symm
        rw [Nat.add_zero, slice_full (Nat.le_refl _)] at hplace
        rw [hplace]
        exact hbody
    · have hsections : (selected.push typeId body kept.rows.length (lo, hi)).sections other =
          selected.sections other := by
        rw [StagedSelection.sections, StagedSelection.push, TreeMap.getElem?_insert_ne _ _ hsame]
        rfl
      rw [hsections, if_neg hsame, List.append_nil]
      exact hold
  · rw [hrows, h.rows other hother, List.filter_append]
    by_cases hsame : other = typeId
    · rw [if_pos hsame, if_pos hsame, hkept, hsame]
    · rw [if_neg hsame, if_neg hsame, List.filter_nil]
  · have hne : other ≠ typeId := by
      rintro rfl
      rw [hdata] at hother
      cases hother
    rw [h.dictionary other hother, if_neg hne, List.append_nil]
  · rw [List.mem_append, h.times_iff]
    constructor
    · rintro (⟨other, row, hrow, htime⟩ | hnew)
      · refine ⟨other, row, ?_, htime⟩
        rw [hrows]
        exact List.mem_append_left _ hrow
      · obtain ⟨row, hrow, htime⟩ := List.mem_filterMap.mp hnew
        refine ⟨typeId, row, ?_, htime⟩
        rw [hrows, if_pos rfl]
        exact List.mem_append_right _ hrow
    · rintro ⟨other, row, hrow, htime⟩
      rw [hrows] at hrow
      rcases List.mem_append.mp hrow with hold | hnew
      · exact .inl ⟨other, row, hold, htime⟩
      · right
        by_cases hsame : other = typeId
        · subst hsame
          rw [if_pos rfl] at hnew
          exact List.mem_filterMap.mpr ⟨row, hnew, htime⟩
        · rw [if_neg hsame] at hnew
          exact absurd hnew List.not_mem_nil

/-- What is kept of a type is what its selection retains. -/
structure Chosen (registry : List TypeContract) (range : MicrosRange) (keep : Nat → Row → Bool)
    (typeId : Nat) (name : String) (selection : TypeSelection) : Prop where
  data : isDictionary typeId = false
  contract : contractOf registry typeId = some selection.contract
  column : timestampColumn selection.contract = some name
  keeps : ∀ row, keep typeId row = (row.int64 name).any (retains selection range)

variable {selection : TypeSelection}

variable {state next : Staging}

/-- The rows of a type that a slice keeps, by what the first pass has selected. -/
def keepOf (registry : List TypeContract) (range : MicrosRange) (selections : Selections)
    (typeId : Nat) (row : Row) : Bool :=
  (timeOf registry typeId row).any fun ts =>
    selections[typeId]?.any fun selection => retains selection range ts

section Segments

variable {Body : Type} {reader : BodyReader Body ε} {stored : Stored} {segment : Canonical}
  {source : RowSource} {selections : Selections} {allRows : Nat → List Row}

theorem SurveyedAll.chosen (h : SurveyedAll registry range selections allRows)
    (hdata : isDictionary typeId = false) (hselection : selections[typeId]? = some selection) :
    ∃ name, Chosen registry range (keepOf registry range selections) typeId name selection := by
  obtain ⟨name, hsurveyed⟩ := h.seen typeId selection hdata hselection
  refine ⟨name, hdata, hsurveyed.contract, hsurveyed.column, fun row => ?_⟩
  rw [keepOf, timeOf, hsurveyed.contract, Option.bind_some, hsurveyed.column, hselection]
  rfl

variable {crc32c : Checksum} {hashes : Hashes} {dir : LocalDir} {scan : LocalScan}
  {contents : SegmentId → Bytes} {catalogs : SegmentId → Catalog}

end Segments

end SecondPass

/-! ## What the slice wants -/

namespace MicrosRange

variable {ts minTs maxTs : Int64}

end MicrosRange

variable {segment : Canonical}

section Listing

variable {crc32c : Checksum} {scan : LocalScan} {contents : SegmentId → Bytes}
  {catalogs : SegmentId → Catalog} {stored : Stored}

def ordered (catalogs : SegmentId → Catalog) (scan : LocalScan) : List Canonical :=
  (canonicalSegments catalogs scan).mergeSort fun a b => a.id.value ≤ b.id.value

def listed (catalogs : SegmentId → Catalog) (scan : LocalScan) (range : MicrosRange) :
    List Canonical :=
  (ordered catalogs scan).filter fun segment =>
    range.context.overlaps segment.minTs segment.maxTs

section Slices

variable {Body : Type} {reader : BodyReader Body ε} {hashes : Hashes}
  {encode : Nat → List RecordBatch → Except ε Bytes}

def SliceTime (registry : List TypeContract) (range : MicrosRange) (all : Nat → List Row)
    (ts : Int64) : Prop :=
  ∃ typeId, isDictionary typeId = false ∧
    ∃ row ∈ sliceRows registry range typeId (all typeId), timeOf registry typeId row = some ts

/-- What is staged is the slice: per type its rows in the order of the listing, and over all
types the extremes of their timestamps. -/
structure ExactSlice (registry : List TypeContract) (range : MicrosRange)
    (encode : Nat → List RecordBatch → Except ε Bytes) (selected : StagedSelection)
    (all : Nat → List Row) : Prop where
  staged : ∃ batches : Nat → List RecordBatch,
    (∀ typeId, List.Forall₂ (StagedAs encode selected.staging typeId)
      (selected.sections typeId) (batches typeId)) ∧
    (∀ typeId, isDictionary typeId = false →
      (batches typeId).flatMap (·.rows) = sliceRows registry range typeId (all typeId)) ∧
    ∀ typeId, isDictionary typeId = true → batches typeId = []
  bounds : ∀ ts, SliceTime registry range all ts →
    selected.actualMinTs ≤ ts ∧ ts ≤ selected.actualMaxTs
  reached : (∃ ts, SliceTime registry range all ts) →
    SliceTime registry range all selected.actualMinTs ∧
      SliceTime registry range all selected.actualMaxTs

theorem StagedRows.exact {selected : StagedSelection} {keep : Nat → Row → Bool}
    {rowsOf all : Nat → List Row} {batches : Nat → List RecordBatch} {times : List Int64}
    (h : StagedRows registry encode keep selected rowsOf batches times)
    (hall : ∀ typeId, isDictionary typeId = false →
      (rowsOf typeId).filter (keep typeId) = sliceRows registry range typeId (all typeId)) :
    ExactSlice registry range encode selected all := by
  have hrows : ∀ typeId, isDictionary typeId = false →
      (batches typeId).flatMap (·.rows) = sliceRows registry range typeId (all typeId) :=
    fun typeId hdata => (h.rows typeId hdata).trans (hall typeId hdata)
  have htimes : ∀ ts, ts ∈ times ↔ SliceTime registry range all ts := by
    intro ts
    rw [h.times_iff]
    constructor
    · rintro ⟨typeId, row, hrow, htime⟩
      cases hdata : isDictionary typeId with
      | true =>
        rw [h.dictionary typeId hdata] at hrow
        exact absurd hrow List.not_mem_nil
      | false =>
        rw [hrows typeId hdata] at hrow
        exact ⟨typeId, hdata, row, hrow, htime⟩
    · rintro ⟨typeId, hdata, row, hrow, htime⟩
      rw [← hrows typeId hdata] at hrow
      exact ⟨typeId, row, hrow, htime⟩
  refine ⟨⟨batches, h.staged, hrows, h.dictionary⟩, fun ts hts => ?_, fun hsome => ?_⟩
  · have hmem := (htimes ts).mpr hts
    exact ⟨(h.bounds.le_lo _).mp (Std.le_refl _) ts hmem,
      (h.bounds.hi_le _).mp (Std.le_refl _) ts hmem⟩
  · obtain ⟨ts, hts⟩ := hsome
    have hne : times ≠ [] := List.ne_nil_of_mem ((htimes ts).mpr hts)
    have hextremes := h.bounds.extremes hne
    exact ⟨(htimes _).mp hextremes.lo_mem, (htimes _).mp hextremes.hi_mem⟩

end Slices

end Listing

/-! ### A slice of two finished segments -/

def sampleContract (typeId : Nat) (semantics : Query.Semantics) : TypeContract where
  typeId := typeId
  semantics := semantics
  columns := [{ name := "ts", ty := .ts, cls := .timestamp, nullable := false }]

def sampleRegistry : List TypeContract :=
  [sampleContract 7 .snapshotFull, sampleContract 8 .onChange]

def sampleRow (ts : Int64) : Row := [("ts", .int64 ts)]

/-- Three rows of each type, from the first to the last instant of its segment. -/
def sampleStored : Stored := fun _ _ typeId =>
  if typeId = 7 then [10, 15, 20].map sampleRow else [30, 35, 40].map sampleRow

def sampleReader : BodyReader Unit Unit where
  finishedBody _ _ := .ok ()
  activeBody _ _ _ := .ok ()
  batches typeId columns _ _ _ _ :=
    .ok [.ok { schema := [("ts", .int64)]
               rows := (sampleStored (.finished (sampleUnit oldId)) 0 typeId).map
                 (Row.project columns) }]
  dictionaryFor _ _ := .ok []
  tooManyRows := ()

/-- The second before all of the rows. -/
def sampleRequest : SliceRange where
  fromSecond := ⟨-1, -1000000, rfl, by decide +kernel⟩
  toSecond := ⟨-1, -1000000, rfl, by decide +kernel⟩
  ordered := by decide

variable {minTs maxTs : Int64} {other : Nat}

end Kronika.Slice
