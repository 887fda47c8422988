/-
Coalescing journal sections into one body in canonical row order.

Rows are read back from a section by Parquet and written out by it; what is kept of
that is `ParquetReader`: the batches of a read, joined, are the rows of the section,
and those of a projected read are one column of them.  A written file is its columns.
-/
import Mathlib.Data.List.Sort
import Mathlib.Data.Fintype.Pi
import Kronika.Registry.Catalog

namespace Kronika.Registry

/-! ## Contracts -/

inductive ColumnType where
  | i8 | i16 | i32 | i64 | u8 | u16 | u32 | u64 | f32 | f64 | bool | ts | strId | listI32
deriving DecidableEq

structure Column where
  name : String
  ty : ColumnType
  nullable : Bool
deriving DecidableEq

/-- A physical section layout.  The names of the columns are distinct, so a column is
its index. -/
structure TypeContract where
  columns : List Column
  sortKey : List String
deriving DecidableEq

inductive CodecError where
  | arrow
  | tooManyRows (rows : Nat)
  | rowCountMismatch (expected got : Nat)
  | sectionTooLarge (len : Nat)
  | invalidPageLayout
  | missingColumn (name : String)
  | columnType (name : String)
  | nullInRequiredColumn (name : String)
  | tooManyListValues (name : String) (values : Nat)
  | schemaMismatch
deriving DecidableEq

def usizeMax : Nat := 2 ^ 64 - 1
def maxListI32ValuesPerRow : Nat := 4096
def maxListI32ValuesPerSection : Nat := maxSectionBytes / 4
def finalDataPageBytes : Nat := 1024 * 1024
def finalPageFramingBound : Nat := 4 * 1024
def finalFileFramingBound : Nat := 64 * 1024
def decodeBatchSize : Nat := 8192

def checkedAdd (problem : CodecError) (a b : Nat) : Except CodecError Nat :=
  if a + b ≤ usizeMax then .ok (a + b) else .error problem

def checkedMul (problem : CodecError) (a b : Nat) : Except CodecError Nat :=
  if a * b ≤ usizeMax then .ok (a * b) else .error problem

def checkRowCap (rows : Nat) : Except CodecError Unit :=
  if rows ≤ maxSectionRows then .ok () else .error (.tooManyRows rows)

/-! ## Rows -/

/-- A value of a column; a list may hold nulls until it was validated. -/
inductive Value (S : Type) where
  | null
  | scalar (value : S)
  | listI32 (values : List (Option Int32))
deriving DecidableEq

abbrev Row (contract : TypeContract) (S : Type) := Fin contract.columns.length → Value S

/-- What the finalizer relies on when it reads a section. -/
structure ParquetReader (contract : TypeContract) (S : Type) where
  batches : List (Row contract S) → List (List (Row contract S))
  column : Fin contract.columns.length → List (Row contract S) → List (List (Value S))
  flatten_batches : ∀ rows, (batches rows).flatten = rows
  flatten_column : ∀ index rows, (column index rows).flatten = rows.map (· index)

/-- An opened section with the row count that the journal declares for it. -/
structure SectionInput (contract : TypeContract) (S : Type) where
  expected : Nat
  rows : List (Row contract S)

abbrev File (contract : TypeContract) (S : Type) :=
  Fin contract.columns.length → List (Value S)

abbrev Comparator (S : Type) := ColumnType → Value S → Value S → Ordering

variable {contract : TypeContract} {S : Type}

/-! ## Lists -/

def listLens (name : String) : Nat → List (Value S) → Except CodecError Nat
  | total, [] => .ok total
  | total, .listI32 values :: rest =>
    if values.length > maxListI32ValuesPerRow then .error (.tooManyListValues name values.length)
    else if total + values.length > maxListI32ValuesPerSection then
      .error (.tooManyListValues name (total + values.length))
    else listLens name (total + values.length) rest
  | _, _ :: _ => .error (.columnType name)

def Value.holdsNull : Value S → Bool
  | .listI32 values => values.any Option.isNone
  | _ => false

def Value.isNull : Value S → Bool
  | .null => true
  | _ => false

def validateListI32Array (array : List (Value S)) (name : String) : Except CodecError Nat :=
  if array.any Value.isNull then .error (.nullInRequiredColumn name)
  else
    match listLens name 0 array with
    | .error problem => .error problem
    | .ok total =>
      if array.any Value.holdsNull then .error (.nullInRequiredColumn name) else .ok total

/-! ## Body bound -/

structure FinalPlainColumnSize where
  valueBytes : Nat
  levelBytes : Nat

def tooLarge : CodecError := .sectionTooLarge usizeMax

def addPlainColumns (compressionOverhead pageFraming : Nat) :
    Nat → List FinalPlainColumnSize → Except CodecError Nat
  | body, [] => .ok body
  | body, column :: columns => do
    let pageInput ← checkedAdd tooLarge column.valueBytes column.levelBytes
    let compressed ← checkedAdd tooLarge pageInput (pageInput / 256)
    let compressed ← checkedAdd tooLarge compressed compressionOverhead
    let body ← checkedAdd tooLarge body compressed
    let body ← checkedAdd tooLarge body pageFraming
    addPlainColumns compressionOverhead pageFraming body columns

def finalSingleBatchPlainBodyBound (columns : List FinalPlainColumnSize) (pagesPerColumn : Nat) :
    Except CodecError Nat :=
  if pagesPerColumn = 0 then .error .invalidPageLayout
  else do
    let compressionOverhead ← checkedMul tooLarge pagesPerColumn 64
    let pageFraming ← checkedMul tooLarge pagesPerColumn finalPageFramingBound
    let body ← addPlainColumns compressionOverhead pageFraming finalFileFramingBound columns
    if body > maxSectionBytes then .error (.sectionTooLarge body) else .ok body

def ColumnType.width : ColumnType → Nat
  | .i8 | .i16 | .i32 | .u8 | .u16 | .u32 | .f32 => 4
  | .i64 | .u64 | .f64 | .ts | .strId => 8
  | .bool => 1
  | .listI32 => 4

/-- The `PLAIN` size of one column. -/
def plainColumn (rows listValues : Nat) (column : Column) :
    Except CodecError FinalPlainColumnSize :=
  if column.ty = .listI32 then do
    let values ← checkedMul tooLarge listValues 4
    let count ← checkedAdd tooLarge rows listValues
    let levels ← checkedMul tooLarge count 4
    let levels ← checkedAdd tooLarge levels 16
    pure { valueBytes := values, levelBytes := levels }
  else do
    let values ← checkedMul tooLarge rows column.ty.width
    if column.nullable then
      let levels ← checkedMul tooLarge rows 2
      let levels ← checkedAdd tooLarge levels 8
      pure { valueBytes := values, levelBytes := levels }
    else pure { valueBytes := values, levelBytes := 0 }

def divCeil (a b : Nat) : Nat := (a + b - 1) / b

def plainColumns (rows listValues : Nat) :
    Nat → List Column → Except CodecError (List FinalPlainColumnSize × Nat)
  | pages, [] => .ok ([], pages)
  | pages, column :: columns => do
    let size ← plainColumn rows listValues column
    let bytes ← checkedAdd tooLarge size.valueBytes size.levelBytes
    let columnPages := max (divCeil bytes finalDataPageBytes) 1
    let (sizes, pages) ← plainColumns rows listValues (max pages columnPages) columns
    pure (size :: sizes, pages)

def finalDataBodyBound (contract : TypeContract) (rows listValues : Nat) :
    Except CodecError Nat := do
  checkRowCap rows
  let lists := contract.columns.filter fun column => column.ty == .listI32
  if listValues > maxListI32ValuesPerSection then
    .error (.tooManyListValues ((lists.head?.map Column.name).getD "ListI32") listValues)
  else if listValues ≠ 0 ∧ lists = [] then .error .schemaMismatch
  else do
    let (columns, pages) ← plainColumns rows listValues
      (max (divCeil rows sectionWriteBatchRows) 1) contract.columns
    finalSingleBatchPlainBodyBound columns pages

/-! ## Reading columns -/

def sumChecked (problem : CodecError) : Nat → List Nat → Except CodecError Nat
  | rows, [] => .ok rows
  | rows, additional :: rest => do
    let rows ← checkedAdd problem rows additional
    sumChecked problem rows rest

def aggregateRows (expectedRows : List Nat) : Except CodecError Nat := do
  let rows ← sumChecked (.tooManyRows usizeMax) 0 expectedRows
  checkRowCap rows
  pure rows

def isList (column : Fin contract.columns.length) : Bool :=
  (contract.columns.get column).ty == .listI32

def columnName (column : Fin contract.columns.length) : String :=
  (contract.columns.get column).name

def validateSectionMetadata (claimed expectedRows : Nat) : Except CodecError Unit := do
  checkRowCap claimed
  if claimed ≠ expectedRows then .error (.rowCountMismatch expectedRows claimed) else pure ()

structure ProjectedColumn (S : Type) where
  arrays : List (List (Value S))
  rows : Nat
  listValues : Nat

/-- The list values of one array, added when the column is a list. -/
def countListValues (column : Fin contract.columns.length) (listValues : Nat)
    (array : List (Value S)) : Except CodecError Nat :=
  if isList column then do
    let more ← validateListI32Array array (columnName column)
    checkedAdd (.tooManyListValues (columnName column) usizeMax) listValues more
  else pure listValues

/-- The rows and list values of the arrays of one section. -/
def countArrays (column : Fin contract.columns.length) :
    Nat → Nat → List (List (Value S)) → Except CodecError (Nat × Nat)
  | rows, listValues, [] => .ok (rows, listValues)
  | rows, listValues, array :: arrays => do
    let rows ← checkedAdd (.tooManyRows usizeMax) rows array.length
    let listValues ← countListValues column listValues array
    countArrays column rows listValues arrays

def decodeProjectedColumn (reader : ParquetReader contract S)
    (column : Fin contract.columns.length) (input : SectionInput contract S) :
    Except CodecError (ProjectedColumn S) := do
  validateSectionMetadata input.rows.length input.expected
  let arrays := reader.column column input.rows
  let (rows, listValues) ← countArrays column 0 0 arrays
  if rows ≠ input.expected then .error (.rowCountMismatch input.expected rows)
  else pure { arrays := arrays, rows := rows, listValues := listValues }

def projectSections (reader : ParquetReader contract S) (column : Fin contract.columns.length) :
    ProjectedColumn S → List (SectionInput contract S) → Except CodecError (ProjectedColumn S)
  | projected, [] => .ok projected
  | projected, input :: inputs => do
    let decoded ← decodeProjectedColumn reader column input
    let rows ← checkedAdd (.tooManyRows usizeMax) projected.rows decoded.rows
    let listValues ← checkedAdd (.tooManyListValues (columnName column) usizeMax)
      projected.listValues decoded.listValues
    projectSections reader column
      { arrays := projected.arrays ++ decoded.arrays, rows := rows, listValues := listValues }
      inputs

def projectColumn (reader : ParquetReader contract S) (inputs : List (SectionInput contract S))
    (column : Fin contract.columns.length) : Except CodecError (ProjectedColumn S) := do
  let projected ← projectSections reader column { arrays := [], rows := 0, listValues := 0 } inputs
  let expected ← aggregateRows (inputs.map SectionInput.expected)
  if projected.rows ≠ expected then .error (.rowCountMismatch expected projected.rows)
  else pure projected

/-! ## Canonical order -/

/-- The columns of the sort key, then the others. -/
def sortKeyIndices (contract : TypeContract) :
    List String → Except CodecError (List (Fin contract.columns.length))
  | [] => .ok []
  | name :: names =>
    match contract.columns.findFinIdx? fun column => column.name == name with
    | none => .error (.missingColumn name)
    | some index => do
      let indices ← sortKeyIndices contract names
      pure (index :: indices)

def canonicalColumnIndices (contract : TypeContract) :
    Except CodecError
      (List (Fin contract.columns.length) × List (Fin contract.columns.length)) := do
  let keys ← sortKeyIndices contract contract.sortKey
  pure (keys, (List.finRange contract.columns.length).filter fun index => !keys.contains index)

/-- The loop of `collect_ties` over the rest of the range, behind `previous`. -/
def collectTies (compare : Nat → Nat → Ordering) (start position previous : Nat) :
    List Nat → List (Nat × Nat)
  | [] => if position - start > 1 then [(start, position)] else []
  | next :: rest =>
    if compare previous next ≠ .eq then
      (if position - start > 1 then [(start, position)] else []) ++
        collectTies compare position (position + 1) next rest
    else collectTies compare start (position + 1) next rest

/-- Sort the order within a range and collect the ties that are left in it. -/
def refineRange (compare : Nat → Nat → Ordering) (order : List Nat) (range : Nat × Nat) :
    List Nat × List (Nat × Nat) :=
  let sorted := ((order.take range.2).drop range.1).mergeSort fun a b => (compare a b).isLE
  (order.take range.1 ++ sorted ++ order.drop range.2,
    match sorted with
    | [] => []
    | first :: rest => collectTies compare range.1 (range.1 + 1) first rest)

def refineRanges (compare : Nat → Nat → Ordering) :
    List Nat → List (Nat × Nat) → List Nat × List (Nat × Nat)
  | order, [] => (order, [])
  | order, range :: ranges =>
    let (order, ties) := refineRange compare order range
    let (order, later) := refineRanges compare order ranges
    (order, ties ++ later)

def concat : List (List (Value S)) → Except CodecError (List (Value S))
  | [] => .error .arrow
  | arrays => .ok arrays.flatten

def compareAt (compare : Value S → Value S → Ordering) (values : List (Value S)) (a b : Nat) :
    Ordering :=
  compare (values.getD a .null) (values.getD b .null)

def refineColumns (reader : ParquetReader contract S) (comparator : Comparator S)
    (inputs : List (SectionInput contract S)) :
    List (Fin contract.columns.length) → List Nat → List (Nat × Nat) →
      Except CodecError (List Nat)
  | [], order, _ => .ok order
  | column :: columns, order, ties =>
    if ties.isEmpty then .ok order
    else do
      let projected ← projectColumn reader inputs column
      let values ← concat projected.arrays
      let compare := compareAt (comparator (contract.columns.get column).ty) values
      refineColumns reader comparator inputs columns (refineRanges compare order ties).1
        (refineRanges compare order ties).2

def finishCanonicalOrder (order : List Nat) : Option (List Nat) :=
  if order.zipIdx.all fun (actual, expected) => actual == expected then none else some order

def canonicalOrder (reader : ParquetReader contract S) (comparator : Comparator S)
    (inputs : List (SectionInput contract S)) : Except CodecError (Option (List Nat)) := do
  let rows ← aggregateRows (inputs.map SectionInput.expected)
  if rows ≤ 1 ∨ contract.columns = [] then pure none
  else do
    let (keys, others) ← canonicalColumnIndices contract
    let order ←
      refineColumns reader comparator inputs (keys ++ others) (List.range rows) [(0, rows)]
    pure (finishCanonicalOrder order)

def checkLocations (rows : Nat) : List Nat → Except CodecError (List Nat)
  | [] => .ok []
  | global :: rest =>
    if global ≥ rows then .error .schemaMismatch
    else do
      let locations ← checkLocations rows rest
      pure (global :: locations)

def canonicalLocations (expectedRows : List Nat) (order : List Nat) :
    Except CodecError (List Nat) := do
  let rows ← aggregateRows expectedRows
  if order.length ≠ rows then .error (.rowCountMismatch rows order.length)
  else checkLocations rows order

/-! ## Writing columns -/

/-- The end of each array in the joined column. -/
def arrayEnds : Nat → List (List (Value S)) → Except CodecError (List Nat)
  | _, [] => .ok []
  | rows, array :: arrays => do
    let rows ← checkedAdd (.tooManyRows usizeMax) rows array.length
    let ends ← arrayEnds rows arrays
    pure (rows :: ends)

/-- The first index whose element fails `holds`, all before it passing. -/
def partitionPoint (holds : Nat → Bool) (xs : List Nat) : Nat := (xs.takeWhile holds).length

/-- The array that holds a row, and the row's offset in it. -/
def batchLocation (arrays : List (List (Value S))) (ends : List Nat) (global : Nat) :
    Except CodecError (Nat × Nat) :=
  let source := partitionPoint (fun stop => decide (stop ≤ global)) ends
  let start := if source = 0 then 0 else ends.getD (source - 1) 0
  if source ≥ arrays.length ∨ global < start then .error .schemaMismatch
  else if global - start ≥ (arrays.getD source []).length then .error .schemaMismatch
  else .ok (source, global - start)

def batchLocations (arrays : List (List (Value S))) (ends : List Nat) :
    List Nat → Except CodecError (List (Nat × Nat))
  | [] => .ok []
  | global :: rest => do
    let location ← batchLocation arrays ends global
    let locations ← batchLocations arrays ends rest
    pure (location :: locations)

def interleave (arrays : List (List (Value S))) (locations : List (Nat × Nat)) :
    List (Value S) :=
  locations.map fun (source, offset) => (arrays.getD source []).getD offset .null

/-- `chunks` of a slice. -/
def chunks (size : Nat) (hsize : 0 < size) (xs : List Nat) : List (List Nat) :=
  if xs = [] then [] else xs.take size :: chunks size hsize (xs.drop size)
termination_by xs.length
decreasing_by
  rename_i hne
  have hpos := List.length_pos_iff.mpr hne
  rw [List.length_drop]
  omega

def interleaveChunks (arrays : List (List (Value S))) (ends : List Nat) :
    List (List Nat) → Except CodecError (List (List (Value S)))
  | [] => .ok []
  | chunk :: rest => do
    let locations ← batchLocations arrays ends chunk
    let written ← interleaveChunks arrays ends rest
    pure (interleave arrays locations :: written)

/-- The arrays that `write_column` hands to the writer of a column. -/
def writtenArrays (arrays : List (List (Value S))) :
    Option (List Nat) → Except CodecError (List (List (Value S)))
  | none => .ok arrays
  | some locations => do
    let ends ← arrayEnds 0 arrays
    if ends.getLastD 0 ≠ locations.length then
      .error (.rowCountMismatch locations.length (ends.getLastD 0))
    else interleaveChunks arrays ends (chunks decodeBatchSize (by decide) locations)

def writeColumn (arrays : List (List (Value S))) (locations : Option (List Nat)) :
    Except CodecError (List (Value S)) := do
  let written ← writtenArrays arrays locations
  if written = [] then .error .schemaMismatch else pure written.flatten

/-! ## Encoding -/

/-- The list values of a column, within bounds, added to those of the columns before. -/
def addListTotal (column : Fin contract.columns.length) (total listValues : Nat) :
    Except CodecError Nat :=
  if isList column then
    if listValues > maxListI32ValuesPerSection then
      .error (.tooManyListValues (columnName column) listValues)
    else checkedAdd (.tooManyListValues (columnName column) usizeMax) total listValues
  else pure total

/-- The column pass of the permutation path: the columns, and their list values. -/
def writeColumns (reader : ParquetReader contract S) (inputs : List (SectionInput contract S))
    (locations : List Nat) :
    Nat → List (Fin contract.columns.length) →
      Except CodecError (List (Fin contract.columns.length × List (Value S)) × Nat)
  | total, [] => .ok ([], total)
  | total, column :: columns => do
    let projected ← projectColumn reader inputs column
    let total ← addListTotal column total projected.listValues
    let written ← writeColumn projected.arrays (some locations)
    let (later, total) ← writeColumns reader inputs locations total columns
    pure ((column, written) :: later, total)

/-- The list values of one batch, added to those of each list column. -/
def addListValues (batch : List (Row contract S)) :
    List (Fin contract.columns.length × Nat) →
      Except CodecError (List (Fin contract.columns.length × Nat))
  | [] => .ok []
  | (column, values) :: rest => do
    let more ← validateListI32Array (batch.map (· column)) (columnName column)
    let values ← checkedAdd (.tooManyListValues (columnName column) usizeMax) values more
    if values > maxListI32ValuesPerSection then
      .error (.tooManyListValues (columnName column) values)
    else do
      let rest ← addListValues batch rest
      pure ((column, values) :: rest)

/-- What the streaming path has seen and written. -/
structure Streamed (contract : TypeContract) (S : Type) where
  observedRows : Nat
  listValues : List (Fin contract.columns.length × Nat)
  written : List (Row contract S)

def streamBatches : Streamed contract S → Nat → List (List (Row contract S)) →
    Except CodecError (Streamed contract S × Nat)
  | streamed, sectionRows, [] => .ok (streamed, sectionRows)
  | streamed, sectionRows, batch :: batches => do
    let sectionRows ← checkedAdd (.tooManyRows usizeMax) sectionRows batch.length
    let observedRows ← checkedAdd (.tooManyRows usizeMax) streamed.observedRows batch.length
    let listValues ← addListValues batch streamed.listValues
    streamBatches
      { observedRows := observedRows, listValues := listValues
        written := streamed.written ++ batch }
      sectionRows batches

def streamSections (reader : ParquetReader contract S) :
    Streamed contract S → List (SectionInput contract S) → Except CodecError (Streamed contract S)
  | streamed, [] => .ok streamed
  | streamed, input :: inputs => do
    validateSectionMetadata input.rows.length input.expected
    let (streamed, sectionRows) ← streamBatches streamed 0 (reader.batches input.rows)
    if sectionRows ≠ input.expected then .error (.rowCountMismatch input.expected sectionRows)
    else streamSections reader streamed inputs

def listColumns (contract : TypeContract) : List (Fin contract.columns.length) :=
  (List.finRange contract.columns.length).filter isList

def encodeOrderedSectionsTo (reader : ParquetReader contract S) (rows : Nat)
    (inputs : List (SectionInput contract S)) : Except CodecError (File contract S) := do
  let streamed ← streamSections reader
    { observedRows := 0, listValues := (listColumns contract).map fun column => (column, 0)
      written := [] }
    inputs
  if streamed.observedRows ≠ rows then .error (.rowCountMismatch rows streamed.observedRows)
  else do
    let total ← sumChecked (.tooManyListValues
      (((listColumns contract).head?.map columnName).getD "ListI32") usizeMax) 0
      (streamed.listValues.map Prod.snd)
    let _ ← finalDataBodyBound contract rows total
    pure fun column => streamed.written.map (· column)

def encodeFinalSectionsTo (reader : ParquetReader contract S) (comparator : Comparator S)
    (inputs : List (SectionInput contract S)) : Except CodecError (File contract S) := do
  let rows ← aggregateRows (inputs.map SectionInput.expected)
  if rows = 0 then .error .schemaMismatch
  else do
    let order ← canonicalOrder reader comparator inputs
    match order with
    | none => encodeOrderedSectionsTo reader rows inputs
    | some order => do
      let locations ← canonicalLocations (inputs.map SectionInput.expected) order
      let (columns, total) ← writeColumns reader inputs locations 0
        (List.finRange contract.columns.length)
      let _ ← finalDataBodyBound contract rows total
      pure fun column => (columns.lookup column).getD []

end Kronika.Registry
