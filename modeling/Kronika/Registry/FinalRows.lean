/-
The rows of a finished section do not depend on how they were cut.

Both paths of the encoder write the rows of all sections in their one order:
`encodeOrdered_ok` for the streaming path, `writeColumns_ok` for the permutation
path, where `locate` finds each row in the arrays of a column.  `encode_ok` joins
them, and `Encodable` is what the rows must satisfy for either to succeed.
-/
import Kronika.Registry.CanonicalOrder
import Mathlib.Data.Fin.VecNotation
import Mathlib.Data.List.GetD

namespace Kronika.Registry

open Library
open Std (TransCmp LawfulEqCmp)

variable {contract : TypeContract} {S : Type}

/-! ## Locations -/

section Locations

variable {arrays : List (List (Value S))} {locations : List Nat}

/-- The ends of the arrays, the first starting at `base`. -/
def endsFrom (base : Nat) : List (List (Value S)) → List Nat
  | [] => []
  | array :: arrays => (base + array.length) :: endsFrom (base + array.length) arrays

theorem arrayEnds_eq {base : Nat} (h : base + arrays.flatten.length ≤ usizeMax) :
    arrayEnds base arrays = .ok (endsFrom base arrays) := by
  induction arrays generalizing base with
  | nil => rfl
  | cons array arrays ih =>
    rw [List.flatten_cons, List.length_append] at h
    rw [arrayEnds, checkedAdd_eq (by omega), bind_ok, ih (by omega)]
    rfl

theorem getLastD_endsFrom (base : Nat) (arrays : List (List (Value S))) :
    (endsFrom base arrays).getLastD base = base + arrays.flatten.length := by
  induction arrays generalizing base with
  | nil => rfl
  | cons array arrays ih =>
    rw [endsFrom, List.getLastD_cons, ih, List.flatten_cons, List.length_append, Nat.add_assoc]

theorem locate {base global : Nat} (hlow : base ≤ global)
    (hhigh : global < base + arrays.flatten.length) :
    ∃ source start, partitionPoint (fun stop => decide (stop ≤ global)) (endsFrom base arrays) =
        source ∧
      (if source = 0 then base else (endsFrom base arrays).getD (source - 1) 0) = start ∧
      source < arrays.length ∧ start ≤ global ∧
      global - start < (arrays.getD source []).length ∧
      (arrays.getD source []).getD (global - start) .null =
        arrays.flatten.getD (global - base) .null := by
  induction arrays generalizing base with
  | nil =>
    rw [List.flatten_nil, List.length_nil] at hhigh
    omega
  | cons array arrays ih =>
    rw [List.flatten_cons, List.length_append] at hhigh
    by_cases hpast : base + array.length ≤ global
    · -- The row stands behind this array.
      obtain ⟨source, start, hsource, hstart, hlt, hle, hoffset, hvalue⟩ := ih hpast (by omega)
      refine ⟨source + 1, start, ?_, ?_, ?_, hle, ?_, ?_⟩
      · rw [← hsource, partitionPoint, endsFrom, List.takeWhile_cons_of_pos (by simpa using hpast)]
        rfl
      · rw [← hstart]
        by_cases hzero : source = 0
        · rw [hzero]
          rfl
        · obtain ⟨k, hk⟩ := Nat.exists_eq_succ_of_ne_zero hzero
          rw [hk]
          rfl
      · rw [List.length_cons]
        omega
      · exact hoffset
      · have hshift : global - base = array.length + (global - (base + array.length)) := by omega
        rw [List.getD_cons_succ, hvalue, List.flatten_cons,
          List.getD_append_right _ _ _ _ (by omega),
          hshift, Nat.add_sub_cancel_left]
    · refine ⟨0, base, ?_, if_pos rfl, ?_, hlow, ?_, ?_⟩
      · rw [partitionPoint, endsFrom, List.takeWhile_cons_of_neg (by simpa using hpast)]
        rfl
      · rw [List.length_cons]
        omega
      · rw [List.getD_cons_zero]
        omega
      · rw [List.getD_cons_zero, List.flatten_cons, List.getD_append _ _ _ _ (by omega)]

theorem batchLocation_eq {global : Nat} (h : global < arrays.flatten.length) :
    ∃ location, batchLocation arrays (endsFrom 0 arrays) global = .ok location ∧
      (arrays.getD location.1 []).getD location.2 .null = arrays.flatten.getD global .null := by
  obtain ⟨source, start, hsource, hstart, hlt, hle, hoffset, hvalue⟩ :=
    locate (Nat.zero_le global) (by rw [Nat.zero_add]; exact h)
  refine ⟨(source, global - start), ?_, hvalue⟩
  rw [batchLocation, hsource, hstart, if_neg (by omega), if_neg (by omega)]

theorem batchLocations_eq (h : ∀ global ∈ locations, global < arrays.flatten.length) :
    ∃ found, batchLocations arrays (endsFrom 0 arrays) locations = .ok found ∧
      interleave arrays found = locations.map fun global => arrays.flatten.getD global .null := by
  induction locations with
  | nil => exact ⟨[], rfl, rfl⟩
  | cons global rest ih =>
    obtain ⟨location, hlocation, hvalue⟩ := batchLocation_eq (h global List.mem_cons_self)
    obtain ⟨found, hfound, hvalues⟩ := ih fun other hmem => h other (List.mem_cons_of_mem _ hmem)
    refine ⟨location :: found, ?_, ?_⟩
    · rw [batchLocations, hlocation, hfound]
      rfl
    · rw [List.map_cons, ← hvalue, ← hvalues]
      rfl

theorem flatten_chunks {size : Nat} (hsize : 0 < size) (xs : List Nat) :
    (chunks size hsize xs).flatten = xs := by
  induction xs using chunks.induct size hsize with
  | case1 => simp [chunks]
  | case2 xs hne ih =>
    rw [chunks, if_neg hne, List.flatten_cons, ih, List.take_append_drop]

theorem interleaveChunks_eq {pieces : List (List Nat)}
    (h : ∀ global ∈ pieces.flatten, global < arrays.flatten.length) :
    interleaveChunks arrays (endsFrom 0 arrays) pieces =
      .ok (pieces.map fun chunk => chunk.map fun global =>
        arrays.flatten.getD global .null) := by
  induction pieces with
  | nil => rfl
  | cons chunk pieces ih =>
    obtain ⟨found, hfound, hvalues⟩ := batchLocations_eq fun global hmem =>
      h global (List.mem_append_left _ hmem)
    rw [interleaveChunks, hfound, bind_ok,
      ih fun global hmem => h global (List.mem_append_right _ hmem), hvalues]
    rfl

theorem writeColumn_eq (hwide : arrays.flatten.length ≤ usizeMax)
    (hcount : arrays.flatten.length = locations.length)
    (hin : ∀ global ∈ locations, global < arrays.flatten.length) (hpos : 0 < locations.length) :
    writeColumn arrays (some locations) =
      .ok (locations.map fun global => arrays.flatten.getD global .null) := by
  have hsize : 0 < decodeBatchSize := by decide
  have hlast := getLastD_endsFrom 0 arrays
  rw [Nat.zero_add] at hlast
  have hchunks := flatten_chunks hsize locations
  have hpieces := interleaveChunks_eq
    (show ∀ global ∈ (chunks decodeBatchSize hsize locations).flatten,
      global < arrays.flatten.length by rw [hchunks]; exact hin)
  have hne : (chunks decodeBatchSize hsize locations).map (fun chunk => chunk.map fun global =>
      arrays.flatten.getD global .null) ≠ [] := by
    intro hnil
    rw [List.map_eq_nil_iff.mp hnil] at hchunks
    rw [← hchunks] at hpos
    exact Nat.lt_irrefl _ hpos
  rw [writeColumn, writtenArrays, arrayEnds_eq (by omega), bind_ok, hlast,
    if_neg fun hne => hne hcount, hpieces, bind_ok, if_neg hne]
  show Except.ok _ = _
  rw [← List.map_flatten, hchunks]

end Locations

/-! ## The permutation path -/

section Permuted

variable {reader : ParquetReader contract S} {sections : List (List (Row contract S))}
variable {locations : List Nat} {total sum : Nat} {column : Fin contract.columns.length}

theorem columnTotal_of_not_isList (rows : List (Row contract S)) (h : ¬ isList column = true) :
    columnTotal rows column = 0 := if_neg h

theorem addListTotal_ok {rows : List (Row contract S)}
    (h : addListTotal column total (columnTotal rows column) = .ok sum) :
    sum = total + columnTotal rows column ∧
      columnTotal rows column ≤ maxListI32ValuesPerSection := by
  unfold addListTotal at h
  by_cases hlist : isList column = true
  · rw [if_pos hlist, ite_error_eq_ok] at h
    exact ⟨checkedAdd_ok h.2, Nat.le_of_not_lt h.1⟩
  · rw [if_neg hlist] at h
    rw [columnTotal_of_not_isList rows hlist, ← Except.ok.inj h]
    exact ⟨rfl, Nat.zero_le _⟩

theorem addListTotal_eq {rows : List (Row contract S)}
    (hfit : columnTotal rows column ≤ maxListI32ValuesPerSection)
    (hsum : total + columnTotal rows column ≤ usizeMax) :
    addListTotal column total (columnTotal rows column) =
      .ok (total + columnTotal rows column) := by
  unfold addListTotal
  by_cases hlist : isList column = true
  · rw [if_pos hlist, if_neg (by omega), checkedAdd_eq hsum]
  · rw [if_neg hlist, columnTotal_of_not_isList rows hlist]
    rfl

theorem writeColumn_projected {projected : ProjectedColumn S}
    (hcap : sections.flatten.length ≤ maxSectionRows) (hpos : 0 < sections.flatten.length)
    (hperm : locations.Perm (List.range sections.flatten.length))
    (h : projectColumn reader (sections.map .declared) column = .ok projected) :
    writeColumn projected.arrays (some locations) =
      .ok (columnValues (locations.map (rowAt sections.flatten)) column) := by
  have hwide := maxSectionRows_le
  obtain ⟨harrays, _, _⟩ := projectColumn_ok h
  have hlen : projected.arrays.flatten.length = sections.flatten.length := by
    rw [harrays, columnValues, List.length_map]
  have hcount : locations.length = sections.flatten.length := by
    rw [hperm.length_eq, List.length_range]
  have hvalues : columnValues (locations.map (rowAt sections.flatten)) column =
      locations.map fun global => (columnValues sections.flatten column).getD global .null := by
    rw [columnValues, List.map_map]
    apply List.map_congr_left
    intro global _
    exact (getD_columnValues _ _ _).symm
  have hin : ∀ global ∈ locations, global < projected.arrays.flatten.length := by
    intro global hmem
    rw [hlen]
    exact List.mem_range.mp (hperm.subset hmem)
  rw [writeColumn_eq (by omega) (by omega) hin (by omega), harrays, hvalues]

theorem writeColumns_ok (hcap : sections.flatten.length ≤ maxSectionRows)
    (hpos : 0 < sections.flatten.length)
    (hperm : locations.Perm (List.range sections.flatten.length))
    {columns : List (Fin contract.columns.length)}
    {found : List (Fin contract.columns.length × List (Value S)) × Nat}
    (h : writeColumns reader (sections.map .declared) locations total columns = .ok found) :
    found.1 = columns.map (fun column =>
        (column, columnValues (locations.map (rowAt sections.flatten)) column)) ∧
      found.2 = total + (columns.map (columnTotal sections.flatten)).sum ∧
      ∀ column ∈ columns, ColumnOk sections.flatten column := by
  induction columns generalizing total found with
  | nil =>
    rw [← Except.ok.inj h]
    exact ⟨rfl, rfl, fun _ hmem => absurd hmem List.not_mem_nil⟩
  | cons column columns ih =>
    simp only [writeColumns, bind_eq_ok] at h
    obtain ⟨projected, hprojected, sum, hsum, written, hwritten, later, hlater, h⟩ := h
    obtain ⟨_, hvalues, hlists⟩ := projectColumn_ok hprojected
    rw [hvalues] at hsum
    obtain ⟨hsum, hfit⟩ := addListTotal_ok hsum
    rw [writeColumn_projected hcap hpos hperm hprojected] at hwritten
    obtain ⟨hcolumns, htotal, hall⟩ := ih hlater
    rw [← Except.ok.inj h, List.map_cons, List.map_cons, List.sum_cons, ← Nat.add_assoc, ← hsum,
      ← htotal, ← hcolumns, Except.ok.inj hwritten]
    refine ⟨rfl, rfl, ?_⟩
    intro other hmem
    rcases List.mem_cons.mp hmem with hhere | hmem
    · rw [hhere]
      exact ⟨hlists, hfit⟩
    · exact hall other hmem

theorem writeColumns_eq (reader : ParquetReader contract S)
    (hcap : sections.flatten.length ≤ maxSectionRows) (hpos : 0 < sections.flatten.length)
    (hperm : locations.Perm (List.range sections.flatten.length))
    (hok : ∀ column, ColumnOk sections.flatten column)
    {columns : List (Fin contract.columns.length)}
    (hsum : total + (columns.map (columnTotal sections.flatten)).sum ≤ usizeMax) :
    ∃ found, writeColumns reader (sections.map .declared) locations total columns = .ok found := by
  induction columns generalizing total with
  | nil => exact ⟨_, rfl⟩
  | cons column columns ih =>
    rw [List.map_cons, List.sum_cons] at hsum
    obtain ⟨projected, hprojected⟩ := projectColumn_eq reader hcap (hok column)
    obtain ⟨_, hvalues, _⟩ := projectColumn_ok hprojected
    obtain ⟨found, hfound⟩ := ih
      (show total + columnTotal sections.flatten column + _ ≤ usizeMax by omega)
    rw [writeColumns, hprojected, bind_ok, hvalues, addListTotal_eq (hok column).2 (by omega),
      bind_ok, writeColumn_projected hcap hpos hperm hprojected, hfound]
    exact ⟨_, rfl⟩

theorem checkLocations_eq {rows : Nat} (h : ∀ global ∈ locations, global < rows) :
    checkLocations rows locations = .ok locations := by
  induction locations with
  | nil => rfl
  | cons global rest ih =>
    have hfirst := h global List.mem_cons_self
    rw [checkLocations, if_neg (by omega),
      ih fun other hmem => h other (List.mem_cons_of_mem _ hmem)]
    rfl

theorem canonicalLocations_eq (hcap : sections.flatten.length ≤ maxSectionRows)
    (hperm : locations.Perm (List.range sections.flatten.length)) :
    canonicalLocations ((sections.map SectionInput.declared).map SectionInput.expected) locations =
      .ok locations := by
  have hcount : locations.length = sections.flatten.length := by
    rw [hperm.length_eq, List.length_range]
  rw [canonicalLocations, aggregateRows_eq (by rw [sum_expected]; exact hcap), bind_ok,
    sum_expected,
    if_neg fun hne => hne hcount]
  exact checkLocations_eq fun global hmem => List.mem_range.mp (hperm.subset hmem)

end Permuted

/-! ## The streaming path -/

variable {xs ys : List (Row contract S)} {columns : List (Fin contract.columns.length)}
variable {column : Fin contract.columns.length}

section Streamed

variable {reader : ParquetReader contract S} {sections : List (List (Row contract S))}
variable {seen batch : List (Row contract S)} {streamed : Streamed contract S}

def listCounts (rows : List (Row contract S)) : List (Fin contract.columns.length × Nat) :=
  (listColumns contract).map fun column => (column, columnTotal rows column)

theorem isList_of_mem (h : column ∈ listColumns contract) : isList column = true :=
  (List.mem_filter.mp h).2

/-- What the streaming path has seen so far, and that it passed every check. -/
structure Saw (seen : List (Row contract S)) (streamed : Streamed contract S) : Prop where
  written : streamed.written = seen
  observedRows : streamed.observedRows = seen.length
  listValues : streamed.listValues = listCounts seen
  lists : ∀ column, ColumnOk seen column

theorem columnOk_of_append (h : ColumnOk (xs ++ ys) column) : ColumnOk xs column := by
  obtain ⟨hlists, htotal⟩ := h
  rw [columnTotal_append] at htotal
  exact ⟨(listsOk_append.mp hlists).1, by omega⟩

theorem columnOk_of_not_isList (rows : List (Row contract S))
    {column : Fin contract.columns.length} (h : ¬ isList column = true) : ColumnOk rows column := by
  refine ⟨fun hlist => absurd hlist h, ?_⟩
  rw [columnTotal_of_not_isList rows h]
  exact Nat.zero_le _

theorem addListValues_ok {found : List (Fin contract.columns.length × Nat)}
    (hlist : ∀ column ∈ columns, isList column = true) (hseen : ∀ column, ColumnOk seen column)
    (h : addListValues batch (columns.map fun column => (column, columnTotal seen column)) =
      .ok found) :
    found = columns.map (fun column => (column, columnTotal (seen ++ batch) column)) ∧
      ∀ column ∈ columns, ColumnOk (seen ++ batch) column := by
  induction columns generalizing found with
  | nil =>
    rw [← Except.ok.inj h]
    exact ⟨rfl, fun _ hmem => absurd hmem List.not_mem_nil⟩
  | cons column columns ih =>
    rw [List.map_cons, addListValues, bind_eq_ok] at h
    obtain ⟨more, hmore, h⟩ := h
    rw [bind_eq_ok] at h
    obtain ⟨values, hvalues, h⟩ := h
    rw [ite_error_eq_ok, bind_eq_ok] at h
    obtain ⟨hfit, rest, hrest, h⟩ := h
    have hcolumn := hlist column List.mem_cons_self
    obtain ⟨hall, hmore⟩ := validateListI32Array_ok hmore
    obtain ⟨hfound, hlater⟩ :=
      ih (fun other hmem => hlist other (List.mem_cons_of_mem _ hmem)) hrest
    have hbatch : columnTotal batch column = more := by
      rw [columnTotal, if_pos hcolumn, hmore]
      rfl
    have hsum : columnTotal (seen ++ batch) column = values := by
      rw [columnTotal_append, hbatch, checkedAdd_ok hvalues]
    rw [← Except.ok.inj h, List.map_cons, ← hfound, hsum]
    refine ⟨rfl, ?_⟩
    intro other hmem
    rcases List.mem_cons.mp hmem with hhere | hmem
    · rw [hhere]
      refine ⟨listsOk_append.mpr ⟨(hseen column).1, fun _ => hall⟩, ?_⟩
      rw [hsum]
      exact Nat.le_of_not_lt hfit
    · exact hlater other hmem

theorem addListValues_eq (hlist : ∀ column ∈ columns, isList column = true)
    (hok : ∀ column, ColumnOk (seen ++ batch) column) :
    ∃ found, addListValues batch (columns.map fun column => (column, columnTotal seen column)) =
      .ok found := by
  have hlong := maxListI32ValuesPerSection_le
  induction columns with
  | nil => exact ⟨_, rfl⟩
  | cons column columns ih =>
    obtain ⟨hlists, htotal⟩ := hok column
    have hcolumn := hlist column List.mem_cons_self
    have hall := (listsOk_append.mp hlists).2 hcolumn
    rw [columnTotal_append] at htotal
    have hbatch : columnTotal batch column = listTotal (columnValues batch column) := if_pos hcolumn
    have hvalid : validateListI32Array (batch.map (· column)) (columnName column) =
        .ok (columnTotal batch column) := by
      rw [hbatch]
      exact validateListI32Array_eq hall (by rw [← columnValues]; omega)
    obtain ⟨found, hfound⟩ := ih fun other hmem => hlist other (List.mem_cons_of_mem _ hmem)
    rw [List.map_cons, addListValues, hvalid, bind_ok, checkedAdd_eq (by omega), bind_ok,
      if_neg (by omega), hfound]
    exact ⟨_, rfl⟩

theorem Saw.streamed_batches {batches : List (List (Row contract S))} {count : Nat}
    {found : Streamed contract S × Nat} (hsaw : Saw seen streamed)
    (h : streamBatches streamed count batches = .ok found) :
    Saw (seen ++ batches.flatten) found.1 ∧ found.2 = count + batches.flatten.length := by
  induction batches generalizing seen streamed count with
  | nil =>
    rw [← Except.ok.inj h, List.flatten_nil, List.append_nil]
    exact ⟨hsaw, rfl⟩
  | cons batch batches ih =>
    simp only [streamBatches, bind_eq_ok] at h
    obtain ⟨count', hcount, observed, hobserved, values, hvalues, h⟩ := h
    rw [hsaw.listValues] at hvalues
    obtain ⟨hvalues, hlists⟩ := addListValues_ok (fun _ => isList_of_mem) hsaw.lists hvalues
    have hnext : Saw (seen ++ batch)
        { observedRows := observed, listValues := values
          written := streamed.written ++ batch } := by
      refine ⟨by rw [hsaw.written], ?_, hvalues, fun column => ?_⟩
      · rw [checkedAdd_ok hobserved, hsaw.observedRows, List.length_append]
      · by_cases hlist : isList column = true
        · exact hlists column (List.mem_filter.mpr ⟨List.mem_finRange column, hlist⟩)
        · exact columnOk_of_not_isList _ hlist
    obtain ⟨hfound, htotal⟩ := ih hnext h
    rw [List.flatten_cons, ← List.append_assoc, htotal, checkedAdd_ok hcount, List.length_append,
      Nat.add_assoc]
    exact ⟨hfound, rfl⟩

theorem Saw.exists_batches {batches : List (List (Row contract S))} {count : Nat}
    (hsaw : Saw seen streamed) (hok : ∀ column, ColumnOk (seen ++ batches.flatten) column)
    (hrows : (seen ++ batches.flatten).length ≤ maxSectionRows)
    (hcount : count + batches.flatten.length ≤ maxSectionRows) :
    ∃ found, streamBatches streamed count batches = .ok found := by
  have hwide := maxSectionRows_le
  induction batches generalizing seen streamed count with
  | nil => exact ⟨_, rfl⟩
  | cons batch batches ih =>
    rw [List.flatten_cons, ← List.append_assoc] at hok hrows
    rw [List.flatten_cons, List.length_append] at hcount
    have hlens : seen.length + batch.length ≤ usizeMax := by
      rw [List.length_append, List.length_append] at hrows
      omega
    have hbatch := fun column => columnOk_of_append (hok column)
    obtain ⟨values, hvalues⟩ := addListValues_eq (fun _ => isList_of_mem) hbatch
    have hadded : addListValues batch streamed.listValues = .ok values := by
      rw [hsaw.listValues]
      exact hvalues
    have hone : streamBatches streamed count [batch] =
        .ok ({ observedRows := streamed.observedRows + batch.length, listValues := values
               written := streamed.written ++ batch }, count + batch.length) := by
      rw [streamBatches, checkedAdd_eq (by omega), hsaw.observedRows, checkedAdd_eq hlens, hadded]
      rfl
    have hnext := (hsaw.streamed_batches hone).1
    rw [List.flatten_singleton] at hnext
    rw [streamBatches, checkedAdd_eq (by omega), hsaw.observedRows, checkedAdd_eq hlens, hadded]
    rw [hsaw.observedRows] at hnext
    exact ih hnext hok hrows (by omega)

theorem Saw.streamed_sections {found : Streamed contract S} (hsaw : Saw seen streamed)
    (h : streamSections reader streamed (sections.map .declared) = .ok found) :
    Saw (seen ++ sections.flatten) found := by
  induction sections generalizing seen streamed with
  | nil =>
    rw [← Except.ok.inj h, List.flatten_nil, List.append_nil]
    exact hsaw
  | cons rows sections ih =>
    simp only [List.map_cons, streamSections, bind_eq_ok] at h
    obtain ⟨_, _, next, hnext, h⟩ := h
    obtain ⟨_, h⟩ := ite_error_eq_ok.mp h
    have hread := (hsaw.streamed_batches hnext).1
    rw [reader.flatten_batches] at hread
    rw [List.flatten_cons, ← List.append_assoc]
    exact ih hread h

theorem Saw.exists_sections (reader : ParquetReader contract S) (hsaw : Saw seen streamed)
    (hok : ∀ column, ColumnOk (seen ++ sections.flatten) column)
    (hrows : (seen ++ sections.flatten).length ≤ maxSectionRows) :
    ∃ found, streamSections reader streamed (sections.map .declared) = .ok found := by
  induction sections generalizing seen streamed with
  | nil => exact ⟨_, rfl⟩
  | cons rows sections ih =>
    rw [List.flatten_cons, ← List.append_assoc] at hok hrows
    have hflatten := reader.flatten_batches rows
    have hlens : (seen ++ rows).length ≤ maxSectionRows := by
      rw [List.length_append] at hrows
      omega
    have hfew : rows.length ≤ maxSectionRows := by
      rw [List.length_append] at hlens
      omega
    obtain ⟨next, hnext⟩ : ∃ next,
        streamBatches streamed 0 (reader.batches rows) = .ok next := by
      apply hsaw.exists_batches
      · rw [hflatten]
        exact fun column => columnOk_of_append (hok column)
      · rw [hflatten]
        exact hlens
      · rw [hflatten]
        omega
    obtain ⟨hread, hcount⟩ := hsaw.streamed_batches hnext
    rw [hflatten] at hread hcount
    obtain ⟨found, hfound⟩ := ih hread hok hrows
    refine ⟨found, ?_⟩
    have hmeta := validateSectionMetadata_eq hfew
    rw [List.map_cons, streamSections, SectionInput.declared]
    dsimp only
    rw [hmeta, bind_ok, hnext, bind_ok, if_neg fun hne => hne (by omega)]
    exact hfound

end Streamed

/-! ## Finished rows -/

section Finished

variable {reader : ParquetReader contract S} {comparator : Comparator S}
variable {sections : List (List (Row contract S))} {rows : List (Row contract S)}

def listTotals (rows : List (Row contract S)) : Nat := ((listCounts rows).map Prod.snd).sum

theorem sum_columnTotal (rows : List (Row contract S)) :
    ((List.finRange contract.columns.length).map (columnTotal rows)).sum = listTotals rows := by
  rw [listTotals, listCounts, listColumns]
  generalize List.finRange contract.columns.length = columns
  induction columns with
  | nil => rfl
  | cons column columns ih =>
    by_cases hlist : isList column = true
    · rw [List.filter_cons_of_pos hlist, List.map_cons, List.sum_cons, ih]
      rfl
    · rw [List.filter_cons_of_neg hlist, List.map_cons, List.sum_cons, ih,
        columnTotal_of_not_isList rows hlist, Nat.zero_add]

theorem listTotals_le_of_bound {count total body : Nat}
    (h : finalDataBodyBound contract count total = .ok body) :
    total ≤ maxListI32ValuesPerSection := by
  rw [finalDataBodyBound, bind_eq_ok] at h
  obtain ⟨_, _, h⟩ := h
  exact Nat.le_of_not_lt (ite_error_eq_ok.mp h).1

/-- The rows that can be finished, whatever sections they stand in. -/
structure Encodable (rows : List (Row contract S)) : Prop where
  nonempty : 0 < rows.length
  cap : rows.length ≤ maxSectionRows
  keys : rows.length ≤ 1 ∨ contract.columns = [] ∨
    ∃ indices, canonicalColumnIndices contract = .ok indices
  lists : ∀ column, ColumnOk rows column
  bound : ∃ body, finalDataBodyBound contract rows.length (listTotals rows) = .ok body

theorem columnTotal_perm (h : xs.Perm ys)
    (column : Fin contract.columns.length) : columnTotal xs column = columnTotal ys column := by
  unfold columnTotal columnValues
  rw [listTotal_perm (h.map fun row => row column)]

theorem listTotals_perm (h : xs.Perm ys) : listTotals xs = listTotals ys := by
  rw [← sum_columnTotal, ← sum_columnTotal, funext (columnTotal_perm h)]

theorem Encodable.perm (hxs : Encodable xs) (h : xs.Perm ys) : Encodable ys where
  nonempty := h.length_eq ▸ hxs.nonempty
  cap := h.length_eq ▸ hxs.cap
  keys := h.length_eq ▸ hxs.keys
  lists column := by
    obtain ⟨hlists, htotal⟩ := hxs.lists column
    rw [columnTotal_perm h] at htotal
    refine ⟨fun hlist => ?_, htotal⟩
    have hvalues : (columnValues xs column).Perm (columnValues ys column) :=
      h.map fun row : Row contract S => row column
    rw [← hvalues.all_eq]
    exact hlists hlist
  bound := by
    rw [← h.length_eq, ← listTotals_perm h]
    exact hxs.bound

theorem columnTotal_nil (column : Fin contract.columns.length) :
    columnTotal ([] : List (Row contract S)) column = 0 := by
  unfold columnTotal
  split <;> rfl

theorem Saw.start (contract : TypeContract) (S : Type) :
    Saw ([] : List (Row contract S))
      { observedRows := 0, listValues := (listColumns contract).map fun column => (column, 0)
        written := [] } where
  written := rfl
  observedRows := rfl
  listValues := by
    unfold listCounts
    simp only [columnTotal_nil]
  lists column := ⟨fun _ => rfl, by rw [columnTotal_nil]; exact Nat.zero_le _⟩

theorem encodeOrdered_ok {file : File contract S}
    (h : encodeOrderedSectionsTo reader sections.flatten.length (sections.map .declared) =
      .ok file) :
    (∀ column, file column = columnValues sections.flatten column) ∧
      (∀ column, ColumnOk sections.flatten column) ∧
      ∃ body, finalDataBodyBound contract sections.flatten.length (listTotals sections.flatten) =
        .ok body := by
  simp only [encodeOrderedSectionsTo, bind_eq_ok] at h
  obtain ⟨streamed, hstreamed, h⟩ := h
  obtain ⟨_, h⟩ := ite_error_eq_ok.mp h
  rw [bind_eq_ok] at h
  obtain ⟨total, htotal, h⟩ := h
  rw [bind_eq_ok] at h
  obtain ⟨body, hbody, h⟩ := h
  have hsaw := (Saw.start contract S).streamed_sections hstreamed
  rw [hsaw.listValues] at htotal
  rw [sumChecked_ok htotal, Nat.zero_add] at hbody
  refine ⟨fun column => ?_, hsaw.lists, body, hbody⟩
  rw [← Except.ok.inj h, hsaw.written]
  rfl

theorem encodeOrdered_eq (reader : ParquetReader contract S) (hok : Encodable sections.flatten) :
    ∃ file, encodeOrderedSectionsTo reader sections.flatten.length (sections.map .declared) =
      .ok file := by
  obtain ⟨streamed, hstreamed⟩ : ∃ streamed,
      streamSections reader _ (sections.map .declared) = .ok streamed :=
    (Saw.start contract S).exists_sections reader hok.lists hok.cap
  have hsaw := (Saw.start contract S).streamed_sections hstreamed
  rw [List.nil_append] at hsaw
  obtain ⟨body, hbody⟩ := hok.bound
  have hfew := listTotals_le_of_bound hbody
  have hlong := maxListI32ValuesPerSection_le
  rw [encodeOrderedSectionsTo, hstreamed, bind_ok, if_neg fun hne => hne hsaw.observedRows,
    hsaw.listValues, sumChecked_eq (by rw [← listTotals]; omega), bind_ok, Nat.zero_add,
    ← listTotals, hbody]
  exact ⟨_, rfl⟩

theorem lookup_map_self (value : Fin contract.columns.length → List (Value S))
    (h : column ∈ columns) :
    (columns.map fun column => (column, value column)).lookup column = some (value column) := by
  induction columns with
  | nil => exact absurd h List.not_mem_nil
  | cons first columns ih =>
    rw [List.map_cons, List.lookup_cons]
    by_cases hsame : column = first
    · rw [hsame, beq_self_eq_true]
    · rw [beq_false_of_ne hsame]
      exact ih (List.mem_of_ne_of_mem hsame h)

/-- Whichever path is taken, the rows that are written are those of the sections, in
their order. -/
theorem encode_ok (hcomparator : ∀ ty, TransCmp (comparator ty)) {file : File contract S}
    (h : encodeFinalSectionsTo reader comparator (sections.map .declared) = .ok file) :
    Encodable sections.flatten ∧ ∃ rows, rows.Perm sections.flatten ∧ InOrder comparator rows ∧
      ∀ column, file column = columnValues rows column := by
  rw [encodeFinalSectionsTo, bind_eq_ok] at h
  obtain ⟨count, hcount, h⟩ := h
  obtain ⟨hrows, hcap⟩ := aggregateRows_ok hcount
  rw [sum_expected] at hrows
  obtain ⟨hpos, h⟩ := ite_error_eq_ok.mp h
  rw [bind_eq_ok] at h
  obtain ⟨order, horder, h⟩ := h
  have hkeys : sections.flatten.length ≤ 1 ∨ contract.columns = [] ∨
      ∃ indices, canonicalColumnIndices contract = .ok indices := by
    rw [canonicalOrder, bind_eq_ok] at horder
    obtain ⟨rows, hfound, horder⟩ := horder
    rw [hcount] at hfound
    rw [← Except.ok.inj hfound, hrows] at horder
    by_cases hsmall : sections.flatten.length ≤ 1 ∨ contract.columns = []
    · exact hsmall.imp_right Or.inl
    · rw [if_neg hsmall, bind_eq_ok] at horder
      obtain ⟨indices, hindices, _⟩ := horder
      exact Or.inr (Or.inr ⟨indices, hindices⟩)
  obtain ⟨hnone, hsome⟩ := canonicalOrder_ok hcomparator horder
  rw [hrows] at h hpos hcap
  cases order with
  | none =>
    obtain ⟨hfile, hlists, hbound⟩ := encodeOrdered_ok h
    exact ⟨⟨by omega, hcap, hkeys, hlists, hbound⟩, sections.flatten, List.Perm.refl _,
      hnone rfl, hfile⟩
  | some order =>
    obtain ⟨hperm, hinOrder⟩ := hsome order rfl
    simp only [bind_eq_ok] at h
    obtain ⟨locations, hlocations, found, hfound, body, hbody, h⟩ := h
    rw [canonicalLocations_eq hcap hperm] at hlocations
    rw [← Except.ok.inj hlocations] at hfound
    obtain ⟨hcolumns, htotal, hlists⟩ := writeColumns_ok hcap (by omega) hperm hfound
    rw [Nat.zero_add, sum_columnTotal] at htotal
    rw [htotal] at hbody
    refine ⟨⟨by omega, hcap, hkeys, fun column => hlists column (List.mem_finRange column),
      body, hbody⟩, order.map (rowAt sections.flatten), ?_, hinOrder, fun column => ?_⟩
    · have hrange := hperm.map (rowAt sections.flatten)
      rw [map_rowAt_range] at hrange
      exact hrange
    · have hlookup : (found.1.lookup column).getD [] =
          columnValues (order.map (rowAt sections.flatten)) column := by
        rw [hcolumns, lookup_map_self _ (List.mem_finRange column), Option.getD_some]
      rw [← Except.ok.inj h]
      exact hlookup

theorem encode_eq (hcomparator : ∀ ty, TransCmp (comparator ty))
    (reader : ParquetReader contract S) (hok : Encodable sections.flatten) :
    ∃ file, encodeFinalSectionsTo reader comparator (sections.map .declared) = .ok file := by
  have hpos := hok.nonempty
  obtain ⟨body, hbody⟩ := hok.bound
  have hfew := listTotals_le_of_bound hbody
  have hlong := maxListI32ValuesPerSection_le
  obtain ⟨order, horder⟩ := canonicalOrder_eq reader comparator hok.cap hok.keys hok.lists
  obtain ⟨_, hsome⟩ := canonicalOrder_ok hcomparator horder
  rw [encodeFinalSectionsTo, aggregateRows_eq (by rw [sum_expected]; exact hok.cap), bind_ok,
    sum_expected, if_neg (by omega), horder, bind_ok]
  cases order with
  | none => exact encodeOrdered_eq reader hok
  | some order =>
    obtain ⟨hperm, _⟩ := hsome order rfl
    obtain ⟨found, hfound⟩ := writeColumns_eq reader hok.cap hpos hperm hok.lists
      (show 0 + ((List.finRange contract.columns.length).map _).sum ≤ usizeMax by
        rw [sum_columnTotal]
        omega)
    obtain ⟨_, htotal, _⟩ := writeColumns_ok hok.cap hpos hperm hfound
    rw [Nat.zero_add, sum_columnTotal] at htotal
    dsimp only
    rw [canonicalLocations_eq hok.cap hperm, bind_ok, hfound, bind_ok, htotal, hbody]
    exact ⟨_, rfl⟩

/-- However the rows of one multiset are cut into sections, ordered in them and read in
batches, the same rows are written, or none: they are the input rows in one order. -/
theorem final_rows_canonical (reader reader' : ParquetReader contract S)
    (comparator : Comparator S) (hcomparator : ∀ ty, TransCmp (comparator ty))
    (hlawful : ∀ ty, LawfulEqCmp (comparator ty)) (xs ys : List (List (Row contract S)))
    (h : xs.flatten.Perm ys.flatten) :
    (∀ file, encodeFinalSectionsTo reader comparator (xs.map .declared) = .ok file ↔
      encodeFinalSectionsTo reader' comparator (ys.map .declared) = .ok file) ∧
    ∀ file, encodeFinalSectionsTo reader comparator (xs.map .declared) = .ok file →
      ∃ rows : List (Row contract S), rows.Perm xs.flatten ∧
        ∀ column, file column = rows.map (· column) := by
  -- Two encodings of the same multiset agree, and one exists when the other does.
  have himp : ∀ (reader reader' : ParquetReader contract S) (xs ys : List (List (Row contract S))),
      xs.flatten.Perm ys.flatten → ∀ file,
        encodeFinalSectionsTo reader comparator (xs.map .declared) = .ok file →
          encodeFinalSectionsTo reader' comparator (ys.map .declared) = .ok file := by
    intro reader reader' xs ys h file hfile
    obtain ⟨hok, rows, hperm, hinOrder, hcolumns⟩ := encode_ok hcomparator hfile
    obtain ⟨other, hother⟩ := encode_eq hcomparator reader' (hok.perm h)
    obtain ⟨_, rows', hperm', hinOrder', hcolumns'⟩ := encode_ok hcomparator hother
    have hrows : rows = rows' := inOrder_unique hcomparator hlawful hinOrder hinOrder'
      (hperm.trans (h.trans hperm'.symm))
    have hsame : file = other := by
      funext column
      rw [hcolumns, hcolumns', hrows]
    rw [hsame]
    exact hother
  refine ⟨fun file => ⟨himp reader reader' xs ys h file, himp reader' reader ys xs h.symm file⟩,
    fun file hfile => ?_⟩
  obtain ⟨_, rows, hperm, _, hcolumns⟩ := encode_ok hcomparator hfile
  exact ⟨rows, hperm, hcolumns⟩

end Finished

/-! ## A sample -/

def sampleContract : TypeContract :=
  { columns := [{ name := "value", ty := .i64, nullable := false },
      { name := "ts", ty := .ts, nullable := false }]
    sortKey := ["ts"] }

def sampleListKey : List (Option Int32) → List Int
  | [] => []
  | none :: rest => 0 :: 0 :: sampleListKey rest
  | some value :: rest => 1 :: value.toInt :: sampleListKey rest

def sampleKey : Value Int → List Int
  | .null => []
  | .scalar value => [0, value]
  | .listI32 values => 1 :: sampleListKey values

def sampleComparator : Comparator Int := fun _ a b => compare (sampleKey a) (sampleKey b)

def sampleReader : ParquetReader sampleContract Int where
  batches rows := [rows]
  column index rows := [rows.map (· index)]
  flatten_batches _ := List.flatten_singleton
  flatten_column _ _ := List.flatten_singleton

def sampleRow (value ts : Int) : Row sampleContract Int := ![.scalar value, .scalar ts]

theorem sampleListKey_injective : Function.Injective sampleListKey := by
  intro xs
  induction xs with
  | nil =>
    intro ys h
    match ys, h with
    | [], _ => rfl
    | none :: _, h => cases h
    | some _ :: _, h => cases h
  | cons x xs ih =>
    intro ys h
    match x, ys, h with
    | none, [], h => cases h
    | some _, [], h => cases h
    | none, none :: ys, h =>
      rw [ih (List.cons.inj (List.cons.inj h).2).2]
    | none, some _ :: ys, h => exact absurd (List.cons.inj h).1 (by decide)
    | some _, none :: ys, h => exact absurd (List.cons.inj h).1 (by decide)
    | some a, some b :: ys, h =>
      obtain ⟨hvalue, hrest⟩ := List.cons.inj (List.cons.inj h).2
      rw [ih hrest, Int32.toInt_inj.mp hvalue]

theorem sampleKey_injective : Function.Injective sampleKey := by
  intro a b h
  match a, b, h with
  | .null, .null, _ => rfl
  | .null, .scalar _, h => cases h
  | .null, .listI32 _, h => cases h
  | .scalar _, .null, h => cases h
  | .listI32 _, .null, h => cases h
  | .scalar _, .listI32 _, h => exact absurd (List.cons.inj h).1 (by decide)
  | .listI32 _, .scalar _, h => exact absurd (List.cons.inj h).1 (by decide)
  | .scalar x, .scalar y, h =>
    rw [(List.cons.inj (List.cons.inj h).2).1]
  | .listI32 xs, .listI32 ys, h =>
    rw [sampleListKey_injective (List.cons.inj h).2]

theorem sampleComparator_trans (ty : ColumnType) : TransCmp (sampleComparator ty) where
  eq_swap := Std.OrientedOrd.eq_swap
  isLE_trans := Std.TransOrd.isLE_trans

theorem sampleComparator_lawful (ty : ColumnType) : LawfulEqCmp (sampleComparator ty) where
  compare_self := Std.ReflOrd.compare_self
  eq_of_compare h := sampleKey_injective (Std.LawfulEqOrd.eq_of_compare h)

theorem sample_encodable : Encodable [sampleRow 1 20, sampleRow 2 10] where
  nonempty := by decide
  cap := by decide
  keys := Or.inr (Or.inr ⟨([⟨1, by decide⟩], [⟨0, by decide⟩]), by decide⟩)
  lists column := columnOk_of_not_isList _ (by revert column; decide)
  bound := ⟨73888, by decide +kernel⟩

theorem final_rows_canonical_sample : ∃ file,
    encodeFinalSectionsTo sampleReader sampleComparator
        ([[sampleRow 1 20, sampleRow 2 10]].map .declared) = .ok file ∧
      encodeFinalSectionsTo sampleReader sampleComparator
        ([[sampleRow 2 10], [], [sampleRow 1 20]].map .declared) = .ok file := by
  obtain ⟨file, hfile⟩ := encode_eq sampleComparator_trans sampleReader
    (show Encodable ([[sampleRow 1 20, sampleRow 2 10]].flatten) from sample_encodable)
  have hperm : [[sampleRow 1 20, sampleRow 2 10]].flatten.Perm
      [[sampleRow 2 10], [], [sampleRow 1 20]].flatten := List.Perm.swap _ _ _
  exact ⟨file, hfile, ((final_rows_canonical sampleReader sampleReader sampleComparator
    sampleComparator_trans sampleComparator_lawful _ _ hperm).1 file).mp hfile⟩

end Kronika.Registry
