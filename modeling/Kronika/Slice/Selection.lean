/-
Finding the cohorts at the edges of a slice, and retaining rows without changing
their order.

Bodies are opened and decoded outside of this development: a `BodyReader` gives the
batches of a body, each of which may fail.  A batch has its columns by name, and the
code looks only at their Arrow types and at integers of 64 bits.
-/
import Kronika.Query.Projection
import Kronika.Reader.Canonical
import Kronika.Reader.RowRanges
import Kronika.Slice.MergedDictionary
import Kronika.Slice.Range

namespace Kronika.Slice

open Format Store Reader Library

/-! ## Contracts -/

structure Column where
  name : String
  ty : Query.ColumnType
  cls : Query.ColumnClass
  nullable : Bool
deriving DecidableEq

structure TypeContract where
  typeId : Nat
  semantics : Query.Semantics
  columns : List Column
deriving DecidableEq

def contractOf (registry : List TypeContract) (typeId : Nat) : Option TypeContract :=
  registry.find? (·.typeId = typeId)

def isDictionary (typeId : Nat) : Bool :=
  typeId = dictStringsTypeId || typeId = dictBlobsTypeId

def timestampColumn (contract : TypeContract) : Option String :=
  match contract.columns.filter (·.cls = .timestamp) with
  | [column] => if column.ty = .ts ∧ column.nullable = false then some column.name else none
  | _ => none

/-! ## Batches -/

inductive ArrowType where
  | int64
  | uint64
  | other
deriving DecidableEq

inductive ArrowValue where
  | null
  | int64 (value : Int64)
  | uint64 (value : UInt64)
  | other (bytes : Bytes)
deriving DecidableEq

abbrev Row := List (String × ArrowValue)

namespace Row

def int64 (row : Row) (name : String) : Option Int64 :=
  match row.lookup name with
  | some (.int64 value) => some value
  | _ => none

def uint64 (row : Row) (name : String) : Option UInt64 :=
  match row.lookup name with
  | some (.uint64 value) => some value
  | _ => none

def project (columns : Option (List String)) (row : Row) : Row :=
  match columns with
  | none => row
  | some names => row.filter fun cell => cell.1 ∈ names

end Row

structure RecordBatch where
  schema : List (String × ArrowType)
  rows : List Row
deriving DecidableEq

namespace RecordBatch

/-- The values of a column of the type `Int64Array`, with none for a null. -/
def int64Column (batch : RecordBatch) (name : String) : Option (List (Option Int64)) :=
  if batch.schema.lookup name = some .int64 then some (batch.rows.map (·.int64 name)) else none

end RecordBatch

inductive SelectError (ε : Type) where
  | reader (problem : ReaderError)
  | section (problem : ε)
  | codec (problem : ε)
  | dictionary (problem : SliceError)
  | unsliceableType (typeId : Nat)
  | invalidBatch (typeId : Nat) (column : String)
  | unresolvedDictionary (strId : UInt64)
  | arithmeticOverflow

section Batches

variable {ε : Type}

def timestamps (batch : RecordBatch) (contract : TypeContract) :
    Except (SelectError ε) (List Int64) :=
  match timestampColumn contract with
  | none => .error (.unsliceableType contract.typeId)
  | some name =>
    match batch.int64Column name with
    | none => .error (.invalidBatch contract.typeId name)
    | some values =>
      if values.all (·.isSome) then .ok (values.filterMap id)
      else .error (.invalidBatch contract.typeId name)

end Batches

/-! ## Boundaries -/

inductive Boundary where
  | none
  | allContext
  /-- The nearest snapshot on each side, even when it spans segments. -/
  | cohort (before after : Option Int64)
deriving DecidableEq

structure TypeSelection where
  contract : TypeContract
  hasRequestedRows : Bool
  boundary : Boundary
deriving DecidableEq

namespace TypeSelection

def new (contract : TypeContract) : TypeSelection where
  contract := contract
  hasRequestedRows := false
  boundary :=
    match contract.semantics with
    | .eventStream => .none
    | .changed | .onChange => .allContext
    | .snapshotFull | .conditionalFull => .cohort none none

end TypeSelection

def observeTimestamp (range : MicrosRange) (selection : TypeSelection) (value : Int64) :
    TypeSelection :=
  if range.inRequest value then { selection with hasRequestedRows := true }
  else
    match selection.boundary with
    | .none | .allContext => selection
    | .cohort before after =>
      if range.before value then
        { selection with
          boundary := .cohort (some (before.elim value fun current => max current value)) after }
      else if range.after value then
        { selection with
          boundary := .cohort before (some (after.elim value fun current => min current value)) }
      else selection

/-- Whether a row with this timestamp is retained. -/
def retains (selection : TypeSelection) (range : MicrosRange) (value : Int64) : Bool :=
  if range.inRequest value then true
  else
    match selection.boundary with
    | .none => false
    | .allContext => range.before value || range.after value
    | .cohort before after => before = some value || after = some value

/-- What reads the bodies of segments. -/
structure BodyReader (Body ε : Type) where
  finishedBody : SegmentSource → Entry → Except ε Body
  activeBody : SegmentSource → Nat → Entry → Except ε Body
  /-- The batches of a body: for the type, the columns, the expected rows and a range of
  the rows. -/
  batches : Nat → Option (List String) → Body → Nat → Nat → Nat →
    Except ε (List (Except ε RecordBatch))
  dictionaryFor : RowSource → List UInt64 → Except ε (List (StrId × OwnedDictionaryValue))
  tooManyRows : ε

def openSegment (crc32c : Checksum) (dir : LocalDir) (reference : SegmentRef) :
    Except ReaderError RowSource :=
  match reference.source with
  | .active snapshot => .ok (.active snapshot)
  | .finished unit =>
    match dir.zms unit.id with
    | none => .error (.notFound unit.id)
    | some file =>
      if file.before ≠ unit.identity then .error (.changed unit.id)
      else
        match readCatalog crc32c file.bytes with
        | .error problem => .error (.zms problem)
        | .ok catalog =>
          if file.after ≠ unit.identity then .error (.changed unit.id)
          else .ok (.finished catalog)

def catalogsOf : RowSource → List Catalog
  | .finished catalog => [catalog]
  | .active snapshot => snapshot.parts.map (·.catalog)

/-- The types of a segment, in numeric order. -/
def typeIds (source : RowSource) : List Nat := (sectionsOf (catalogsOf source)).map (·.typeId)

section Visit

variable {Body ε : Type} (reader : BodyReader Body ε)

/-- The loop over the batches of one body. -/
def visitBatchList {σ : Type} (offset : Nat) (visitor : Visitor σ RecordBatch) :
    Nat → List (Except ε RecordBatch) → σ → Except ε Nat × σ
  | visited, [], s => (.ok visited, s)
  | _, .error problem :: _, s => (.error problem, s)
  | visited, .ok batch :: batches, s =>
    let next := visited + batch.rows.length
    if 2 ^ 64 ≤ next then (.error reader.tooManyRows, s)
    else
      let after := visitor s (Reader.saturatingAdd offset visited) batch
      if after.2 then visitBatchList offset visitor next batches after.1 else (.ok next, after.1)

def visitRecordBatches (typeId : Nat) (columns : Option (List String)) :
    BodyVisitor Body RecordBatch ε :=
  fun _ body expectedRows offset limit visitor s =>
    if limit = 0 then (.ok 0, s)
    else
      match reader.batches typeId columns body expectedRows offset limit with
      | .error problem => (.error problem, s)
      | .ok batches => visitBatchList reader offset visitor 0 batches s

/-- The callback of a visit, which keeps its first error and stops there. -/
def callback {σ E : Type} (f : σ → RecordBatch → Except E σ) :
    Visitor (σ × Option E) RecordBatch :=
  fun state _ batch =>
    match f state.1 batch with
    | .ok next => ((next, state.2), true)
    | .error problem => ((state.1, some problem), false)

def usizeMax : Nat := 2 ^ 64 - 1

/-- All batches of a type, and the error of the visit before that of its callback. -/
def visitBatches {σ : Type} (reference : SegmentRef) (source : RowSource) (typeId : Nat)
    (columns : Option (List String)) (f : σ → RecordBatch → Except (SelectError ε) σ) (s : σ) :
    Except (SelectError ε) σ :=
  match visitRows (visitRecordBatches reader typeId columns)
      (reader.finishedBody reference.source) (reader.activeBody reference.source) source typeId 0
      usizeMax (callback f) (s, none) with
  | (.error problem, _) => .error (.section problem)
  | (.ok _, (_, some problem)) => .error problem
  | (.ok _, (s, none)) => .ok s

end Visit

/-! ## The first pass -/

section FirstPass

variable {Body ε : Type} (crc32c : Checksum) (dir : LocalDir) (reader : BodyReader Body ε)
  (registry : List TypeContract) (range : MicrosRange)

abbrev Selections := Std.TreeMap Nat TypeSelection

def observeBatch (selection : TypeSelection) (batch : RecordBatch) :
    Except (SelectError ε) TypeSelection :=
  match timestamps batch selection.contract with
  | .error problem => .error problem
  | .ok values => .ok (values.foldl (observeTimestamp range) selection)

end FirstPass

end Kronika.Slice
