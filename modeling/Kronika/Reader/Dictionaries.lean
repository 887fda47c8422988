/-
Reading the dictionary of a segment, whole or in part.

The Parquet reader is a parameter.  Each way to read a section is a list of batches, and
a batch that cannot be decoded is an error.  A segment gives the same body whenever it
is asked for one.
-/
import Kronika.Library.Folds
import Kronika.Reader.RowRanges
import Kronika.Slice.MergedDictionary

namespace Kronika.Reader

open Format Library Writer

abbrev DictionaryRow := UInt64 × OwnedDictionaryValue

/-! ## The Parquet reader -/

structure ParquetReader (Body : Type) where
  /-- The checks of `dictionary_builder` on a type, a body and the rows of its entry. -/
  builder : Nat → Body → Nat → Except CodecError Unit
  numRows : Body → Nat
  batches : Nat → Body → List (Except CodecError (List DictionaryRow))
  idBatches : Nat → Body → List (Except CodecError (List UInt64))
  valueBatches : Nat → Body → List (Except CodecError (List (UInt64 × Bytes)))
  selectedBatches : Nat → Body → List (Nat × Nat) → Nat →
    List (Except CodecError (List DictionaryRow))

def eachBatch {σ α : Type} (step : σ → α → Except CodecError σ) :
    σ → List (Except CodecError α) → Except CodecError σ
  | state, [] => .ok state
  | _, .error problem :: _ => .error problem
  | state, .ok batch :: batches =>
    match step state batch with
    | .error problem => .error problem
    | .ok state => eachBatch step state batches

/-! ## Decoding one section -/

def storedBytes : OwnedDictionaryValue → Bytes
  | .string bytes => bytes
  | .blob bytes _ _ _ => bytes

def skips (wanted : Option (List UInt64)) (raw : UInt64) : Bool :=
  match wanted with
  | none => false
  | some wanted => decide (raw ∉ wanted)

def materializeRow (wanted : Option (List UInt64)) (dictionary : Dictionary)
    (row : DictionaryRow) : Except CodecError Dictionary :=
  if skips wanted row.1 then .ok dictionary
  else
    match StrId.fromRaw row.1 with
    | none => .error .schemaMismatch
    | some id => dictionary.insert id row.2

def materializeBatch (wanted : Option (List UInt64)) (dictionary : Dictionary)
    (rows : List DictionaryRow) : Except CodecError Dictionary :=
  rows.foldlM (materializeRow wanted) dictionary

/-- The ranges of the wanted rows so far, and the number of the next row. -/
def scanIds (wanted : List UInt64) (scan : List (Nat × Nat) × Nat) (ids : List UInt64) :
    List (Nat × Nat) × Nat :=
  ids.foldl (fun scan id =>
    (if id ∈ wanted then scan.1 ++ [(scan.2, saturatingAdd scan.2 1)] else scan.1,
      saturatingAdd scan.2 1)) scan

def insertMatches (pattern : Bytes) (found : List UInt64) (rows : List (UInt64 × Bytes)) :
    Except CodecError (List UInt64) :=
  rows.foldlM (fun found row =>
    match StrId.fromRaw row.1 with
    | none => .error .schemaMismatch
    | some id => .ok (if pattern.isPrefixOf row.2 then found.insert id.raw else found)) found

section Decoders

variable {Body : Type} (parquet : ParquetReader Body)

def decode (dictionary : Dictionary) (typeId : Nat) (body : Body) (expectedRows : Nat) :
    Except CodecError Dictionary :=
  match parquet.builder typeId body expectedRows with
  | .error problem => .error problem
  | .ok () => eachBatch (materializeBatch none) dictionary (parquet.batches typeId body)

def decodeSelected (wanted : List UInt64) (dictionary : Dictionary) (typeId : Nat) (body : Body)
    (expectedRows : Nat) : Except CodecError Dictionary :=
  if wanted = [] then .ok dictionary
  else
    match parquet.builder typeId body expectedRows with
    | .error problem => .error problem
    | .ok () =>
      match eachBatch (fun scan ids => .ok (scanIds wanted scan ids)) ([], 0)
          (parquet.idBatches typeId body) with
      | .error problem => .error problem
      | .ok (ranges, _) =>
        if ranges = [] then .ok dictionary
        else
          eachBatch (materializeBatch none) dictionary
            (parquet.selectedBatches typeId body ranges (parquet.numRows body))

def decodeSelectedOnce (wanted : List UInt64) (dictionary : Dictionary) (typeId : Nat)
    (body : Body) (expectedRows : Nat) : Except CodecError Dictionary :=
  if wanted = [] then .ok dictionary
  else
    match parquet.builder typeId body expectedRows with
    | .error problem => .error problem
    | .ok () =>
      eachBatch (materializeBatch (some wanted)) dictionary (parquet.batches typeId body)

def matchPrefix (pattern : Bytes) (found : List UInt64) (typeId : Nat) (body : Body)
    (expectedRows : Nat) : Except CodecError (List UInt64) :=
  match parquet.builder typeId body expectedRows with
  | .error problem => .error problem
  | .ok () => eachBatch (insertMatches pattern) found (parquet.valueBatches typeId body)

end Decoders

/-! ## Visiting the sections of a segment -/

/-- A catalog entry, and what reading its body gives. -/
structure SectionEntry (ε Body : Type) where
  typeId : Nat
  rows : Nat
  body : Except ε Body

inductive DictionaryError (ε : Type) where
  | body (error : ε)
  | inSection (typeId : Nat) (source : CodecError)

def visitCatalog {ε Body σ : Type} (decode : σ → Nat → Body → Nat → Except CodecError σ) :
    σ → List (SectionEntry ε Body) → Except (DictionaryError ε) σ
  | state, [] => .ok state
  | state, entry :: entries =>
    if entry.typeId = dictStringsTypeId ∨ entry.typeId = dictBlobsTypeId then
      match entry.body with
      | .error error => .error (.body error)
      | .ok body =>
        match decode state entry.typeId body entry.rows with
        | .error source => .error (.inSection entry.typeId source)
        | .ok state => visitCatalog decode state entries
    else visitCatalog decode state entries

/-- The catalog of a finished segment, or the ones of the parts of an active segment in
journal order. -/
inductive DictionarySource (ε Body : Type) where
  | finished (catalog : List (SectionEntry ε Body))
  | active (parts : List (List (SectionEntry ε Body)))

namespace DictionarySource

variable {ε Body : Type}

def visitDictionary {σ : Type} (segment : DictionarySource ε Body)
    (decode : σ → Nat → Body → Nat → Except CodecError σ) (state : σ) :
    Except (DictionaryError ε) σ :=
  match segment with
  | .finished catalog => visitCatalog decode state catalog
  | .active parts => parts.foldlM (visitCatalog decode) state

def dictionary (parquet : ParquetReader Body) (segment : DictionarySource ε Body) :
    Except (DictionaryError ε) Dictionary :=
  segment.visitDictionary (decode parquet) .default

def dictionaryFor (parquet : ParquetReader Body) (segment : DictionarySource ε Body)
    (ids : List UInt64) : Except (DictionaryError ε) Dictionary :=
  if ids = [] then .ok .default
  else segment.visitDictionary (decodeSelected parquet ids) .default

def dictionaryOnceFor (parquet : ParquetReader Body) (segment : DictionarySource ε Body)
    (ids : List UInt64) : Except (DictionaryError ε) Dictionary :=
  if ids = [] then .ok .default
  else segment.visitDictionary (decodeSelectedOnce parquet ids) .default

def dictionaryIdsWithPrefix (parquet : ParquetReader Body) (segment : DictionarySource ε Body)
    (pattern : Bytes) : Except (DictionaryError ε) (List UInt64) :=
  segment.visitDictionary (matchPrefix parquet pattern) []

end DictionarySource

def resolved (strId : StrId) : OwnedDictionaryValue → Resolved
  | .string bytes => .str bytes
  | .blob bytes fullLen truncated fullSha256 =>
    .blob
      { strId := strId, storedBytes := bytes, fullLen := fullLen, truncated := truncated
        fullSha256 := fullSha256 }

def Dictionary.resolve (dictionary : Dictionary) (rawId : UInt64) : Option Resolved :=
  match StrId.fromRaw rawId with
  | none => none
  | some id => (dictionary.byId[id]?).map (resolved id)

/-! ## What the Parquet reader promises -/

def Reads {α : Type} (batches : List (Except CodecError (List α))) (rows : List α) : Prop :=
  ∃ pages : List (List α), batches = pages.map .ok ∧ pages.flatten = rows

def Consecutive (total : Nat) : Nat → List (Nat × Nat) → Prop
  | start, [] => start ≤ total
  | start, range :: ranges => start ≤ range.1 ∧ range.1 ≤ range.2 ∧
      Consecutive total range.2 ranges

/-- Columns that are read on their own, and selected rows, are those of the whole
section, in its order. -/
structure ParquetReader.Lawful {Body : Type} (parquet : ParquetReader Body) : Prop where
  ids : ∀ {typeId body rows}, Reads (parquet.batches typeId body) rows →
    Reads (parquet.idBatches typeId body) (rows.map Prod.fst)
  values : ∀ {typeId body rows}, Reads (parquet.batches typeId body) rows →
    Reads (parquet.valueBatches typeId body) (rows.map fun row => (row.1, storedBytes row.2))
  numRows : ∀ {typeId body rows}, Reads (parquet.batches typeId body) rows →
    parquet.numRows body = rows.length ∧ rows.length < 2 ^ 63
  selected : ∀ {typeId body rows ranges}, Reads (parquet.batches typeId body) rows →
    Consecutive rows.length 0 ranges →
    Reads (parquet.selectedBatches typeId body ranges (parquet.numRows body))
      (ranges.flatMap fun range => slice rows range.1 range.2)

/-! ## Batches and rows -/

section Batches

variable {σ α : Type} {step : σ → α → Except CodecError σ} {rows : List α}
  {batches : List (Except CodecError (List α))}

theorem eachBatch_reads (h : Reads batches rows) (state : σ) :
    eachBatch (fun state batch => batch.foldlM step state) state batches =
      rows.foldlM step state := by
  obtain ⟨pages, rfl, rfl⟩ := h
  induction pages generalizing state with
  | nil => rfl
  | cons page pages ih =>
    rw [List.map_cons, eachBatch, List.flatten_cons, List.foldlM_append]
    cases page.foldlM step state with
    | error problem => rfl
    | ok next => exact ih next

theorem reads_of_eachBatch {state final : σ}
    (h : eachBatch (fun state batch => batch.foldlM step state) state batches = .ok final) :
    ∃ rows, Reads batches rows := by
  induction batches generalizing state with
  | nil => exact ⟨[], [], rfl, rfl⟩
  | cons batch batches ih =>
    cases batch with
    | error problem => cases h
    | ok batch =>
      rw [eachBatch] at h
      split at h
      · cases h
      · obtain ⟨rows, pages, hpages, hrows⟩ := ih h
        exact ⟨batch ++ rows, batch :: pages, by rw [hpages]; rfl, by rw [← hrows]; rfl⟩

theorem eachBatch_scan {ids : List UInt64} {batches : List (Except CodecError (List UInt64))}
    (h : Reads batches ids) (wanted : List UInt64) (scan : List (Nat × Nat) × Nat) :
    eachBatch (fun scan ids => .ok (scanIds wanted scan ids)) scan batches =
      .ok (scanIds wanted scan ids) := by
  obtain ⟨pages, rfl, rfl⟩ := h
  induction pages generalizing scan with
  | nil => rfl
  | cons page pages ih =>
    rw [List.map_cons, eachBatch, List.flatten_cons]
    dsimp only
    rw [ih, scanIds, scanIds, scanIds, List.foldl_append]

end Batches

/-! ## The ranges of the wanted rows -/

/-- A range of one row for each wanted id, from the number `start` on. -/
def wantedRanges (wanted : List UInt64) : Nat → List UInt64 → List (Nat × Nat)
  | _, [] => []
  | start, id :: ids =>
    if id ∈ wanted then (start, start + 1) :: wantedRanges wanted (start + 1) ids
    else wantedRanges wanted (start + 1) ids

theorem scanIds_eq (wanted : List UInt64) (ids : List UInt64) :
    ∀ (ranges : List (Nat × Nat)) (start : Nat), start + ids.length < 2 ^ 64 →
      (scanIds wanted (ranges, start) ids).1 = ranges ++ wantedRanges wanted start ids := by
  induction ids with
  | nil =>
    intro ranges start _
    exact (List.append_nil ranges).symm
  | cons id ids ih =>
    intro ranges start hfits
    rw [List.length_cons] at hfits
    rw [scanIds, List.foldl_cons, wantedRanges]
    rw [saturatingAdd_eq (by omega)]
    by_cases hid : id ∈ wanted
    · rw [if_pos hid, if_pos hid]
      have hrest := ih (ranges ++ [(start, start + 1)]) (start + 1) (by omega)
      rw [scanIds] at hrest
      rw [hrest, List.append_assoc]
      rfl
    · rw [if_neg hid, if_neg hid]
      exact ih ranges (start + 1) (by omega)

theorem consecutive_wantedRanges (wanted : List UInt64) (ids : List UInt64) :
    ∀ {low start : Nat}, low ≤ start →
      Consecutive (start + ids.length) low (wantedRanges wanted start ids) := by
  induction ids with
  | nil =>
    intro low start hle
    exact hle
  | cons id ids ih =>
    intro low start hle
    rw [wantedRanges, List.length_cons, Nat.add_comm ids.length, ← Nat.add_assoc]
    by_cases hid : id ∈ wanted
    · rw [if_pos hid]
      exact ⟨hle, Nat.le_succ _, ih (Nat.le_refl _)⟩
    · rw [if_neg hid]
      exact ih (by omega)

theorem slices_wantedRanges (wanted : List UInt64) (rows : List DictionaryRow) :
    ∀ before : List DictionaryRow,
      (wantedRanges wanted before.length (rows.map Prod.fst)).flatMap
          (fun range => slice (before ++ rows) range.1 range.2) =
        rows.filter fun row => decide (row.1 ∈ wanted) := by
  induction rows with
  | nil =>
    intro before
    rfl
  | cons row rows ih =>
    intro before
    have hrest := ih (before ++ [row])
    rw [List.length_append, List.length_singleton, List.append_assoc, List.singleton_append]
      at hrest
    rw [List.map_cons, wantedRanges, List.filter_cons]
    by_cases hid : row.1 ∈ wanted
    · have hone : slice (before ++ row :: rows) before.length (before.length + 1) = [row] := by
        rw [slice, List.drop_take, Nat.add_sub_cancel_left, List.drop_left]
        rfl
      rw [if_pos hid, if_pos (decide_eq_true hid), List.flatMap_cons, hone, hrest]
      rfl
    · rw [if_neg hid, if_neg (by simp [hid]), hrest]

/-! ## Rows of part of the ids -/

section Wanted

variable {wanted : List UInt64} {full full' selected : Dictionary} {rows : List DictionaryRow}

def Restricts (wanted : List UInt64) (full selected : Dictionary) : Prop :=
  ∀ id : StrId, selected.byId[id]? = if id.raw ∈ wanted then full.byId[id]? else none

theorem restricts_default (wanted : List UInt64) : Restricts wanted .default .default := by
  intro id
  show (∅ : Std.TreeMap StrId OwnedDictionaryValue)[id]? = _
  split
  · exact Std.TreeMap.getElem?_emptyc.symm
  · rfl

theorem getElem?_of_insert {id : StrId} {value : OwnedDictionaryValue}
    (h : full.insert id value = .ok full') (other : StrId) :
    full'.byId[other]? = if other = id then some value else full.byId[other]? := by
  rw [Dictionary.insert] at h
  split at h
  · cases h
    by_cases hid : other = id
    · rw [if_pos hid, hid]
      exact TreeMap.getElem?_insert_self _ _ _
    · rw [if_neg hid]
      exact TreeMap.getElem?_insert_ne _ _ hid
  · rename_i existing hexisting
    split at h
    · rename_i heq
      cases h
      by_cases hid : other = id
      · rw [if_pos hid, hid, hexisting, heq]
      · rw [if_neg hid]
    · cases h

theorem insert_ok_iff (dictionary : Dictionary) (id : StrId) (value : OwnedDictionaryValue) :
    (∃ next, dictionary.insert id value = .ok next) ↔
      dictionary.byId[id]? = none ∨ dictionary.byId[id]? = some value := by
  rw [Dictionary.insert]
  cases hget : dictionary.byId[id]? with
  | none => simp
  | some existing =>
    by_cases heq : existing = value
    · simp [heq]
    · simp [heq]

theorem Restricts.insert (h : Restricts wanted full selected) {id : StrId}
    {value : OwnedDictionaryValue} (hid : id.raw ∈ wanted)
    (hinsert : full.insert id value = .ok full') :
    ∃ selected', selected.insert id value = .ok selected' ∧ Restricts wanted full' selected' := by
  have hold := (insert_ok_iff full id value).mp ⟨full', hinsert⟩
  have hsame := h id
  rw [if_pos hid] at hsame
  rw [← hsame] at hold
  obtain ⟨selected', hselected⟩ := (insert_ok_iff selected id value).mpr hold
  refine ⟨selected', hselected, ?_⟩
  intro other
  rw [getElem?_of_insert hselected, getElem?_of_insert hinsert]
  by_cases hother : other = id
  · rw [if_pos hother, if_pos hother, hother, if_pos hid]
  · rw [if_neg hother, if_neg hother]
    exact h other

theorem Restricts.skip (h : Restricts wanted full selected) {id : StrId}
    {value : OwnedDictionaryValue} (hid : id.raw ∉ wanted)
    (hinsert : full.insert id value = .ok full') : Restricts wanted full' selected := by
  intro other
  rw [getElem?_of_insert hinsert, h other]
  by_cases hother : other = id
  · rw [hother, if_neg hid, if_neg hid]
  · rw [if_neg hother]

theorem materializeRow_none {row : DictionaryRow} (h : materializeRow none full row = .ok full') :
    ∃ id, StrId.fromRaw row.1 = some id ∧ full.insert id row.2 = .ok full' := by
  replace h : (match StrId.fromRaw row.1 with
      | none => Except.error CodecError.schemaMismatch
      | some id => full.insert id row.2) = .ok full' := h
  split at h
  · cases h
  · rename_i id hid
    exact ⟨id, hid, h⟩

theorem Restricts.filter_rows (h : Restricts wanted full selected)
    (hfull : rows.foldlM (materializeRow none) full = .ok full') :
    ∃ selected', (rows.filter fun row => decide (row.1 ∈ wanted)).foldlM (materializeRow none)
        selected = .ok selected' ∧ Restricts wanted full' selected' := by
  induction rows generalizing full selected with
  | nil =>
    cases hfull
    exact ⟨selected, rfl, h⟩
  | cons row rows ih =>
    obtain ⟨next, hrow, hrest⟩ := foldlM_cons_ok hfull
    obtain ⟨id, hid, hinsert⟩ := materializeRow_none hrow
    have hraw : row.1 = id.raw := StrId.fromRaw_eq_some.mp hid
    rw [List.filter_cons]
    by_cases hwanted : row.1 ∈ wanted
    · obtain ⟨selectedNext, hselected, hnext⟩ := h.insert (by rw [← hraw]; exact hwanted) hinsert
      obtain ⟨selected', hrows, hfinal⟩ := ih hnext hrest
      refine ⟨selected', ?_, hfinal⟩
      have hmaterialize : materializeRow none selected row = .ok selectedNext := by
        rw [← hselected]
        show (match StrId.fromRaw row.1 with
          | none => Except.error CodecError.schemaMismatch
          | some id => selected.insert id row.2) = _
        rw [hid]
      rw [if_pos (decide_eq_true hwanted), List.foldlM_cons, hmaterialize]
      exact hrows
    · rw [if_neg (by simp [hwanted])]
      exact ih (h.skip (by rw [← hraw]; exact hwanted) hinsert) hrest

theorem materialize_filter (wanted : List UInt64) (rows : List DictionaryRow)
    (dictionary : Dictionary) :
    rows.foldlM (materializeRow (some wanted)) dictionary =
      (rows.filter fun row => decide (row.1 ∈ wanted)).foldlM (materializeRow none)
        dictionary := by
  induction rows generalizing dictionary with
  | nil => rfl
  | cons row rows ih =>
    rw [List.filter_cons, List.foldlM_cons]
    by_cases hwanted : row.1 ∈ wanted
    · rw [if_pos (decide_eq_true hwanted), List.foldlM_cons]
      have hsame : materializeRow (some wanted) dictionary row =
          materializeRow none dictionary row := by
        rw [materializeRow, materializeRow, skips, skips]
        simp [hwanted]
      rw [hsame]
      cases materializeRow none dictionary row with
      | error problem => rfl
      | ok next => exact ih next
    · have hsame : materializeRow (some wanted) dictionary row = .ok dictionary := by
        rw [materializeRow, skips]
        simp [hwanted]
      rw [if_neg (by simp [hwanted]), hsame]
      exact ih dictionary

end Wanted

/-! ## One section -/

variable {found : List UInt64} {pattern : Bytes}

section Sections

variable {Body : Type} {parquet : ParquetReader Body} {wanted : List UInt64}
  {full full' selected : Dictionary} {typeId : Nat} {body : Body} {expectedRows : Nat}

theorem decode_ok (h : decode parquet full typeId body expectedRows = .ok full') :
    parquet.builder typeId body expectedRows = .ok () ∧
      ∃ rows, Reads (parquet.batches typeId body) rows ∧
        rows.foldlM (materializeRow none) full = .ok full' := by
  rw [decode] at h
  split at h
  · cases h
  · rename_i hbuilder
    obtain ⟨rows, hrows⟩ := reads_of_eachBatch h
    refine ⟨hbuilder, rows, hrows, ?_⟩
    rw [← eachBatch_reads hrows]
    exact h

theorem decodeSelected_step (hparquet : parquet.Lawful) (h : Restricts wanted full selected)
    (hfull : decode parquet full typeId body expectedRows = .ok full') (hne : wanted ≠ []) :
    ∃ selected', decodeSelected parquet wanted selected typeId body expectedRows =
        .ok selected' ∧ Restricts wanted full' selected' := by
  obtain ⟨hbuilder, rows, hrows, hfold⟩ := decode_ok hfull
  obtain ⟨selected', hselected, hnext⟩ := h.filter_rows hfold
  obtain ⟨hnum, hfits⟩ := hparquet.numRows hrows
  refine ⟨selected', ?_, hnext⟩
  have hscan : (scanIds wanted ([], 0) (rows.map Prod.fst)).1 =
      wantedRanges wanted 0 (rows.map Prod.fst) :=
    scanIds_eq wanted _ [] 0 (by rw [List.length_map]; omega)
  have hconsecutive : Consecutive rows.length 0 (wantedRanges wanted 0 (rows.map Prod.fst)) := by
    have hall := consecutive_wantedRanges wanted (rows.map Prod.fst) (Nat.le_refl 0)
    rw [List.length_map, Nat.zero_add] at hall
    exact hall
  have hslices := slices_wantedRanges wanted rows []
  rw [List.length_nil, List.nil_append] at hslices
  rw [decodeSelected, if_neg hne, hbuilder, eachBatch_scan (hparquet.ids hrows)]
  dsimp only
  rw [hscan]
  by_cases hnone : wantedRanges wanted 0 (rows.map Prod.fst) = []
  · rw [hnone] at hslices
    rw [← hslices] at hselected
    rw [if_pos hnone]
    exact hselected
  · have hreads := hparquet.selected hrows hconsecutive
    rw [hslices] at hreads
    rw [if_neg hnone, ← hselected]
    exact eachBatch_reads hreads selected

theorem decodeSelectedOnce_step (h : Restricts wanted full selected)
    (hfull : decode parquet full typeId body expectedRows = .ok full') (hne : wanted ≠ []) :
    ∃ selected', decodeSelectedOnce parquet wanted selected typeId body expectedRows =
        .ok selected' ∧ Restricts wanted full' selected' := by
  obtain ⟨hbuilder, rows, hrows, hfold⟩ := decode_ok hfull
  obtain ⟨selected', hselected, hnext⟩ := h.filter_rows hfold
  refine ⟨selected', ?_, hnext⟩
  rw [decodeSelectedOnce, if_neg hne, hbuilder, ← hselected, ← materialize_filter]
  exact eachBatch_reads hrows selected

def Matched (pattern : Bytes) (full : Dictionary) (found : List UInt64) : Prop :=
  ∀ raw, raw ∈ found ↔ ∃ (id : StrId) (value : OwnedDictionaryValue), id.raw = raw ∧
    full.byId[id]? = some value ∧ pattern <+: storedBytes value

theorem Matched.insert (h : Matched pattern full found)
    {id : StrId} {value : OwnedDictionaryValue} (hinsert : full.insert id value = .ok full') :
    Matched pattern full'
      (if pattern.isPrefixOf (storedBytes value) then found.insert id.raw else found) := by
  have hold := (insert_ok_iff full id value).mp ⟨full', hinsert⟩
  have hget := getElem?_of_insert hinsert
  have hkept : ∀ raw, raw ∈ found → ∃ (other : StrId) (stored : OwnedDictionaryValue),
      other.raw = raw ∧ full'.byId[other]? = some stored ∧ pattern <+: storedBytes stored := by
    intro raw hraw
    obtain ⟨other, stored, hother, hstored, hmatch⟩ := (h raw).mp hraw
    refine ⟨other, stored, hother, ?_, hmatch⟩
    rw [hget]
    by_cases hsame : other = id
    · rw [hsame] at hstored
      rw [if_pos hsame]
      rcases hold with hnone | hsome
      · rw [hnone] at hstored
        cases hstored
      · rw [← hsome, hstored]
    · rw [if_neg hsame]
      exact hstored
  have hback : ∀ (other : StrId) (stored : OwnedDictionaryValue), other ≠ id →
      full'.byId[other]? = some stored → pattern <+: storedBytes stored → other.raw ∈ found := by
    intro other stored hne hstored hmatch
    rw [hget, if_neg hne] at hstored
    exact (h other.raw).mpr ⟨other, stored, rfl, hstored, hmatch⟩
  have hself : full'.byId[id]? = some value := by rw [hget, if_pos rfl]
  intro raw
  by_cases hpattern : pattern.isPrefixOf (storedBytes value) = true
  · rw [if_pos hpattern, List.mem_insert_iff]
    constructor
    · rintro (rfl | hraw)
      · exact ⟨id, value, rfl, hself, List.isPrefixOf_iff_prefix.mp hpattern⟩
      · exact hkept raw hraw
    · rintro ⟨other, stored, rfl, hstored, hmatch⟩
      by_cases hsame : other = id
      · exact .inl (by rw [hsame])
      · exact .inr (hback other stored hsame hstored hmatch)
  · rw [if_neg hpattern]
    constructor
    · exact hkept raw
    · rintro ⟨other, stored, rfl, hstored, hmatch⟩
      by_cases hsame : other = id
      · rw [hsame, hself] at hstored
        rw [← Option.some.inj hstored] at hmatch
        exact absurd (List.isPrefixOf_iff_prefix.mpr hmatch) hpattern
      · exact hback other stored hsame hstored hmatch

theorem Matched.rows {rows : List DictionaryRow} (h : Matched pattern full found)
    (hfull : rows.foldlM (materializeRow none) full = .ok full') :
    ∃ found', insertMatches pattern found (rows.map fun row => (row.1, storedBytes row.2)) =
        .ok found' ∧ Matched pattern full' found' := by
  induction rows generalizing full found with
  | nil =>
    cases hfull
    exact ⟨found, rfl, h⟩
  | cons row rows ih =>
    obtain ⟨next, hrow, hrest⟩ := foldlM_cons_ok hfull
    obtain ⟨id, hid, hinsert⟩ := materializeRow_none hrow
    obtain ⟨found', hfound, hfinal⟩ := ih (h.insert hinsert) hrest
    refine ⟨found', ?_, hfinal⟩
    rw [insertMatches, List.map_cons, List.foldlM_cons]
    rw [hid]
    exact hfound

theorem matchPrefix_step (hparquet : parquet.Lawful) {pattern : Bytes} {found : List UInt64}
    (h : Matched pattern full found)
    (hfull : decode parquet full typeId body expectedRows = .ok full') :
    ∃ found', matchPrefix parquet pattern found typeId body expectedRows = .ok found' ∧
      Matched pattern full' found' := by
  obtain ⟨hbuilder, rows, hrows, hfold⟩ := decode_ok hfull
  obtain ⟨found', hfound, hnext⟩ := h.rows hfold
  refine ⟨found', ?_, hnext⟩
  rw [matchPrefix, hbuilder, ← hfound]
  exact eachBatch_reads (hparquet.values hrows) found

end Sections

/-! ## The whole segment -/

section Visits

variable {ε Body σ τ : Type} {first : σ → Nat → Body → Nat → Except CodecError σ}
  {second : τ → Nat → Body → Nat → Except CodecError τ} {related : σ → τ → Prop}

theorem visitCatalog_related
    (hstep : ∀ s t typeId body rows s', related s t → first s typeId body rows = .ok s' →
      ∃ t', second t typeId body rows = .ok t' ∧ related s' t')
    {entries : List (SectionEntry ε Body)} {s s' : σ} {t : τ} (h : related s t)
    (hfirst : visitCatalog first s entries = .ok s') :
    ∃ t', visitCatalog second t entries = .ok t' ∧ related s' t' := by
  induction entries generalizing s t with
  | nil =>
    cases hfirst
    exact ⟨t, rfl, h⟩
  | cons entry entries ih =>
    rw [visitCatalog] at hfirst ⊢
    split at hfirst
    · rename_i htype
      rw [if_pos htype]
      split at hfirst
      · cases hfirst
      · rename_i body hbody
        split at hfirst
        · cases hfirst
        · rename_i next hnext
          obtain ⟨nextSecond, hsecond, hrelated⟩ := hstep _ _ _ _ _ _ h hnext
          rw [hsecond]
          exact ih hrelated hfirst
    · rename_i htype
      rw [if_neg htype]
      exact ih h hfirst

theorem visitDictionary_related
    (hstep : ∀ s t typeId body rows s', related s t → first s typeId body rows = .ok s' →
      ∃ t', second t typeId body rows = .ok t' ∧ related s' t')
    {segment : DictionarySource ε Body} {s s' : σ} {t : τ} (h : related s t)
    (hfirst : segment.visitDictionary first s = .ok s') :
    ∃ t', segment.visitDictionary second t = .ok t' ∧ related s' t' := by
  cases segment with
  | finished catalog => exact visitCatalog_related hstep h hfirst
  | active parts =>
    show ∃ t', parts.foldlM (visitCatalog second) t = .ok t' ∧ related s' t'
    induction parts generalizing s t with
    | nil =>
      cases hfirst
      exact ⟨t, rfl, h⟩
    | cons part parts ih =>
      obtain ⟨next, hpart, hrest⟩ := foldlM_cons_ok hfirst
      obtain ⟨nextSecond, hsecond, hrelated⟩ := visitCatalog_related hstep h hpart
      obtain ⟨t', ht', hfinal⟩ := ih hrelated hrest
      refine ⟨t', ?_, hfinal⟩
      rw [List.foldlM_cons, hsecond]
      exact ht'

end Visits

theorem resolve_of_restricts {wanted : List UInt64} {full selected : Dictionary}
    (h : Restricts wanted full selected) (raw : UInt64) :
    selected.resolve raw = if raw ∈ wanted then full.resolve raw else none := by
  rw [Dictionary.resolve, Dictionary.resolve]
  cases hid : StrId.fromRaw raw with
  | none => simp
  | some id =>
    rw [StrId.fromRaw_eq_some.mp hid]
    dsimp only
    rw [h id]
    by_cases hwanted : id.raw ∈ wanted
    · rw [if_pos hwanted, if_pos hwanted]
    · rw [if_neg hwanted, if_neg hwanted]
      rfl

def Resolved.bytes : Resolved → Bytes
  | .str bytes => bytes
  | .blob entry => entry.storedBytes

theorem bytes_resolved (id : StrId) (value : OwnedDictionaryValue) :
    Resolved.bytes (resolved id value) = storedBytes value := by
  cases value with
  | string bytes => rfl
  | blob bytes fullLen truncated fullSha256 => rfl

theorem matched_iff {full : Dictionary} (h : Matched pattern full found) (raw : UInt64) :
    raw ∈ found ↔ ∃ value, full.resolve raw = some value ∧ pattern <+: Resolved.bytes value := by
  rw [h raw]
  constructor
  · rintro ⟨id, value, rfl, hget, hmatch⟩
    refine ⟨resolved id value, ?_, ?_⟩
    · rw [Dictionary.resolve, StrId.fromRaw_eq_some.mpr rfl]
      dsimp only
      rw [hget]
      rfl
    · rw [bytes_resolved]
      exact hmatch
  · rintro ⟨value, hresolve, hmatch⟩
    rw [Dictionary.resolve] at hresolve
    split at hresolve
    · cases hresolve
    · rename_i id hid
      obtain ⟨stored, hget, rfl⟩ := Option.map_eq_some_iff.mp hresolve
      rw [bytes_resolved] at hmatch
      exact ⟨id, stored, (StrId.fromRaw_eq_some.mp hid).symm, hget, hmatch⟩

variable {ε Body : Type} {parquet : ParquetReader Body} {segment : DictionarySource ε Body}
  {full : Dictionary}

/-- When the whole dictionary can be read, both reads of part of it succeed and resolve
the ids that are asked for as the whole does, and the matches of a pattern are the ids
whose stored bytes begin with it. -/
theorem selective_reads_agree (hparquet : parquet.Lawful)
    (hfull : segment.dictionary parquet = .ok full) (ids : List UInt64) (pattern : Bytes) :
    (∃ selected, segment.dictionaryFor parquet ids = .ok selected ∧
        ∀ raw, selected.resolve raw = if raw ∈ ids then full.resolve raw else none) ∧
      (∃ once, segment.dictionaryOnceFor parquet ids = .ok once ∧
        ∀ raw, once.resolve raw = if raw ∈ ids then full.resolve raw else none) ∧
      ∃ found, segment.dictionaryIdsWithPrefix parquet pattern = .ok found ∧
        ∀ raw, raw ∈ found ↔
          ∃ value, full.resolve raw = some value ∧ pattern <+: Resolved.bytes value := by
  have hempty : ∀ raw, Dictionary.default.resolve raw =
      if raw ∈ ([] : List UInt64) then full.resolve raw else none := by
    intro raw
    have hnone : Restricts [] full .default := by
      intro id
      exact Std.TreeMap.getElem?_emptyc
    exact resolve_of_restricts hnone raw
  refine ⟨?_, ?_, ?_⟩
  · rw [DictionarySource.dictionaryFor]
    by_cases hids : ids = []
    · rw [hids]
      exact ⟨.default, rfl, hempty⟩
    · have hstep : ∀ (s t : Dictionary) typeId body rows s', Restricts ids s t →
          decode parquet s typeId body rows = .ok s' →
          ∃ t', decodeSelected parquet ids t typeId body rows = .ok t' ∧ Restricts ids s' t' :=
        fun _ _ _ _ _ _ h hdecode => decodeSelected_step hparquet h hdecode hids
      obtain ⟨selected, hselected, hrestricts⟩ :=
        visitDictionary_related hstep (restricts_default ids) hfull
      rw [if_neg hids]
      exact ⟨selected, hselected, resolve_of_restricts hrestricts⟩
  · rw [DictionarySource.dictionaryOnceFor]
    by_cases hids : ids = []
    · rw [hids]
      exact ⟨.default, rfl, hempty⟩
    · have hstep : ∀ (s t : Dictionary) typeId body rows s', Restricts ids s t →
          decode parquet s typeId body rows = .ok s' →
          ∃ t', decodeSelectedOnce parquet ids t typeId body rows = .ok t' ∧
            Restricts ids s' t' :=
        fun _ _ _ _ _ _ h hdecode => decodeSelectedOnce_step h hdecode hids
      obtain ⟨once, honce, hrestricts⟩ :=
        visitDictionary_related hstep (restricts_default ids) hfull
      rw [if_neg hids]
      exact ⟨once, honce, resolve_of_restricts hrestricts⟩
  · have hstart : Matched pattern .default [] := by
      intro raw
      constructor
      · intro hmem
        cases hmem
      · rintro ⟨id, value, -, hget, -⟩
        exact absurd (Std.TreeMap.getElem?_emptyc.symm.trans hget) (by simp)
    have hstep : ∀ (s : Dictionary) (t : List UInt64) typeId body rows s', Matched pattern s t →
        decode parquet s typeId body rows = .ok s' →
        ∃ t', matchPrefix parquet pattern t typeId body rows = .ok t' ∧ Matched pattern s' t' :=
      fun _ _ _ _ _ _ h hdecode => matchPrefix_step hparquet h hdecode
    obtain ⟨found, hfound, hmatched⟩ := visitDictionary_related hstep hstart hfull
    exact ⟨found, hfound, matched_iff hmatched⟩

/-! A reader of sections that are lists of rows. -/

def plainParquet : ParquetReader (List DictionaryRow) where
  builder _ body expectedRows :=
    if body.length = expectedRows then .ok () else .error .schemaMismatch
  numRows body := body.length
  batches _ body := if body.length < 2 ^ 63 then [.ok body] else [.error .schemaMismatch]
  idBatches _ body := [.ok (body.map Prod.fst)]
  valueBatches _ body := [.ok (body.map fun row => (row.1, storedBytes row.2))]
  selectedBatches _ body ranges _ := [.ok (ranges.flatMap fun range => slice body range.1 range.2)]

theorem reads_plainParquet {typeId : Nat} {body rows : List DictionaryRow}
    (h : Reads (plainParquet.batches typeId body) rows) : rows = body ∧ body.length < 2 ^ 63 := by
  obtain ⟨pages, hpages, hflatten⟩ := h
  rw [plainParquet] at hpages
  dsimp only at hpages
  split at hpages
  · rename_i hlen
    cases pages with
    | nil => cases hpages
    | cons page pages =>
      obtain ⟨hpage, hrest⟩ := List.cons.inj hpages
      cases hpage
      rw [List.map_eq_nil_iff.mp hrest.symm, List.flatten_singleton] at hflatten
      exact ⟨hflatten.symm, hlen⟩
  · cases pages with
    | nil => cases hpages
    | cons page pages => cases (List.cons.inj hpages).1

theorem lawful_plainParquet : plainParquet.Lawful where
  ids h := by
    rw [(reads_plainParquet h).1]
    exact ⟨[_], rfl, List.flatten_singleton⟩
  values h := by
    rw [(reads_plainParquet h).1]
    exact ⟨[_], rfl, List.flatten_singleton⟩
  numRows h := by
    obtain ⟨rfl, hlen⟩ := reads_plainParquet h
    exact ⟨rfl, hlen⟩
  selected h _ := by
    rw [(reads_plainParquet h).1]
    exact ⟨[_], rfl, List.flatten_singleton⟩

/-- Two parts; the second one has a value of the first one again, and another one. -/
def twoParts : DictionarySource Unit (List DictionaryRow) :=
  .active
    [[⟨dictStringsTypeId, 1, .ok [(7, .string [65, 66])]⟩],
      [⟨1, 3, .error ()⟩,
        ⟨dictStringsTypeId, 2, .ok [(7, .string [65, 66]), (9, .string [66])]⟩]]

theorem selective_reads_agree_two_parts :
    ∃ full, twoParts.dictionary plainParquet = .ok full ∧
      (∃ selected, twoParts.dictionaryFor plainParquet [9, 4] = .ok selected ∧
          ∀ raw, selected.resolve raw = if raw ∈ [9, 4] then full.resolve raw else none) ∧
        (∃ once, twoParts.dictionaryOnceFor plainParquet [9, 4] = .ok once ∧
          ∀ raw, once.resolve raw = if raw ∈ [9, 4] then full.resolve raw else none) ∧
        ∃ found, twoParts.dictionaryIdsWithPrefix plainParquet [65] = .ok found ∧
          ∀ raw, raw ∈ found ↔
            ∃ value, full.resolve raw = some value ∧ [65] <+: Resolved.bytes value := by
  cases hfull : twoParts.dictionary plainParquet with
  | error error =>
    have hsome : (twoParts.dictionary plainParquet).toOption.isSome = true := by rfl
    rw [hfull] at hsome
    cases hsome
  | ok full => exact ⟨full, rfl, selective_reads_agree lawful_plainParquet hfull [9, 4] [65]⟩

end Kronika.Reader
