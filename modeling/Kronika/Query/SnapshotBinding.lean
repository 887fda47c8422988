/-
The binding of a snapshot cursor to its request.

A cursor of a page carries a hash of its request, and is refused when the hash of the request
that brings it is another one.  The hash reads the fields one after another, each under a tag
of its own and behind its length.
-/
import Kronika.Library.Framing
import Kronika.Query.CursorText
import Kronika.Query.SearchExpr

namespace Kronika.Query

open Library Library.Framing

/-! ## Requests -/

inductive RelationGroup where
  | database
  | schema
  | tablespace
  | object
deriving DecidableEq

def RelationGroup.asStr : RelationGroup → String
  | .database => "database"
  | .schema => "schema"
  | .tablespace => "tablespace"
  | .object => "object"

inductive StatementScope where
  | all
  | workload
deriving DecidableEq

def StatementScope.asStr : StatementScope → String
  | .all => "all"
  | .workload => "workload"

def Order.asStr : Order → String
  | .asc => "asc"
  | .desc => "desc"

structure SnapshotRequest where
  segmentId : Int
  latest : Bool
  moment : Int
  sections : List String
  fields : List String
  orderBy : List String
  direction : Order
  group : Option RelationGroup
  pageSize : Option Nat
  cursor : Option String
  search : Option String
  firstMatch : Bool
  text : Option Nat
  filters : List RequestFilter
  typeId : Option Nat
  rowOrdinal : Option Nat
  scope : StatementScope

/-! ## The hash -/

/-- `i64::to_le_bytes`. -/
def signedBytes (value : Int) : Format.Bytes := leBytes 8 (value % 2 ^ 64).toNat

def hashPart (hash : UInt64) (tag : String) (bytes : Format.Bytes) : UInt64 :=
  hashBytes (hashBytes hash (utf8 tag)) bytes

def canonicalBytes (search : StructuredSearch) : Format.Bytes :=
  utf8 (String.ofList search.canonical)

def snapshotBinding (request : SnapshotRequest) (search : Option StructuredSearch) : UInt64 :=
  let hash : UInt64 := 0xcbf29ce484222325
  let hash := hashPart hash "segment" (signedBytes request.segmentId)
  let hash := hashPart hash "at" (signedBytes request.moment)
  let hash := if request.latest then hashPart hash "selection" (utf8 "latest") else hash
  let hash := request.sections.foldl
    (fun hash sectionName => hashPart hash "section" (utf8 sectionName)) hash
  let hash := request.typeId.elim hash fun typeId => hashPart hash "type" (leBytes 4 typeId)
  let hash := request.fields.foldl (fun hash field => hashPart hash "field" (utf8 field)) hash
  let hash := request.text.elim hash fun text => hashPart hash "text" (leBytes 8 text)
  let hash := request.filters.foldl
    (fun hash filter =>
      hashPart (hashPart hash "filter-column" (utf8 filter.column)) "filter-value"
        (utf8 filter.value)) hash
  let hash := search.elim hash fun search => hashPart hash "search" (canonicalBytes search)
  let hash := hashPart hash "first-match" [if request.firstMatch then 1 else 0]
  let hash := hashPart hash "scope" (utf8 request.scope.asStr)
  let hash := request.orderBy.foldl (fun hash name => hashPart hash "by" (utf8 name)) hash
  let hash := request.group.elim hash fun group => hashPart hash "group" (utf8 group.asStr)
  hashPart hash "direction" (utf8 request.direction.asStr)

def hasActivity (registry : Registry) (segment : DatasetSegment) : Bool :=
  segment.sections.any fun stored =>
    registry.logicalSectionName stored.typeId = some "pg_stat_activity"

def bindLockObservations (registry : Registry) (binding : UInt64)
    (segments : List DatasetSegment) : UInt64 :=
  let hash := hashPart binding "locks-observation" (utf8 "v1")
  (segments.filter (hasActivity registry)).foldl
    (fun hash segment =>
      let hash := hashPart hash "activity-segment" (signedBytes segment.id)
      let hash := hashPart hash "activity-prefix" (leBytes 8 (segment.activePosition.getD 0))
      let hash := hashPart hash "activity-from" (signedBytes segment.minTs)
      let hash := hashPart hash "activity-to" (signedBytes segment.maxTs)
      segment.sections.foldl
        (fun hash stored =>
          hashPart (hashPart hash "activity-layout" (leBytes 4 stored.typeId)) "activity-rows"
            (leBytes 8 stored.rows)) hash) hash

/-! ## Cursors -/

structure SnapshotCursor where
  segmentId : Int
  activePosition : Nat
  contextIndex : Nat
  ordinal : Nat
  binding : Nat
deriving DecidableEq

namespace SnapshotCursor

/-- A snapshot cursor is written like a cursor of rows, with the context for the layout. -/
def ofCursor (cursor : Cursor) : SnapshotCursor :=
  ⟨cursor.segmentId, cursor.activePosition, cursor.layoutIndex, cursor.position, cursor.binding⟩

def toCursor (cursor : SnapshotCursor) : Cursor :=
  ⟨cursor.segmentId, cursor.activePosition, cursor.contextIndex, cursor.ordinal, cursor.binding⟩

def parse (raw : String) : Except QueryError SnapshotCursor := (Cursor.parse raw).map ofCursor

def encode (cursor : SnapshotCursor) : String := cursor.toCursor.encode

end SnapshotCursor

/-! ## Preparation -/

/-- The cursor of a request, which has to be of its segment. -/
def parsedSnapshotCursor (request : SnapshotRequest) : Except QueryError (Option SnapshotCursor) :=
  match request.cursor with
  | none => .ok none
  | some raw => do
    let cursor ← SnapshotCursor.parse raw
    if cursor.segmentId = request.segmentId then .ok (some cursor) else .error .badCursor

/-- A prepared page: the segment that it reads, the row that it goes on after, the segments that
its locks were observed in, and its binding. -/
structure SnapshotPreparation where
  anchor : DatasetSegment
  cursor : Option SnapshotCursor
  observed : Option (List DatasetSegment)
  binding : UInt64

section Preparation

variable (registry : Registry) (dataset : QueryDataset) (current : DatasetSegment)
  (segments : List DatasetSegment) (request : SnapshotRequest)

def lockObservations (pinCurrent : Bool) : Bool :=
  !pinCurrent && request.rowOrdinal.isNone && request.sections.any (· = "pg_locks")

/-- The segments that decide whether a locks answer is still the same. -/
def bindsLockObservations (pinCurrent : Bool) (candidate : DatasetSegment) : Bool :=
  lockObservations request pinCurrent &&
    (hasActivity registry candidate && candidate.minTs ≤ request.moment ||
      candidate.kind = .active && candidate.id ≤ request.moment)

def validatorSegments (anchor : DatasetSegment) (pinCurrent : Bool) : List DatasetSegment :=
  anchor :: segments.filter fun candidate =>
    candidate.id ≠ anchor.id &&
      (candidate.id < anchor.id && candidate.minTs ≤ request.moment ||
        bindsLockObservations registry request pinCurrent candidate)

def observedSegments (anchor : DatasetSegment) (pinCurrent : Bool) :
    Option (List DatasetSegment) :=
  if lockObservations request pinCurrent then
    some ((validatorSegments registry segments request anchor pinCurrent).mergeSort
      fun left right => left.id ≤ right.id)
  else none

def observedBinding (search : Option StructuredSearch) (observed : Option (List DatasetSegment)) :
    UInt64 :=
  match observed with
  | none => snapshotBinding request search
  | some observed => bindLockObservations registry (snapshotBinding request search) observed

def prepareSelectedState (search : Option StructuredSearch) (pinCurrent : Bool) :
    Except QueryError SnapshotPreparation := do
  let cursor ← parsedSnapshotCursor request
  let anchor ← pin dataset current (cursor.map SnapshotCursor.toCursor)
  if cursor.any fun cursor => cursor.activePosition ≠ anchor.activePosition.getD 0 then
    .error .badCursor
  else
    let observed := observedSegments registry segments request anchor pinCurrent
    let binding := observedBinding registry request search observed
    if cursor.any fun cursor => cursor.binding ≠ binding.toNat then .error .badCursor
    else .ok { anchor := anchor, cursor := cursor, observed := observed, binding := binding }

end Preparation

/-- The cursor of a row of a page. -/
def SnapshotPreparation.nextCursor (prepared : SnapshotPreparation) (contextIndex ordinal : Nat) :
    SnapshotCursor where
  segmentId := prepared.anchor.id
  activePosition := prepared.anchor.activePosition.getD 0
  contextIndex := contextIndex
  ordinal := ordinal
  binding := prepared.binding.toNat

/-! ## The bytes of a binding -/

/-- What a binding is about. -/
@[ext]
structure Bound where
  segmentId : Int
  moment : Int
  latest : Bool
  sections : List String
  typeId : Option Nat
  fields : List String
  text : Option Nat
  filters : List (String × String)
  search : Option (List Char)
  firstMatch : Bool
  scope : StatementScope
  orderBy : List String
  group : Option RelationGroup
  direction : Order
deriving DecidableEq

def SnapshotRequest.bound (request : SnapshotRequest) (search : Option StructuredSearch) :
    Bound where
  segmentId := request.segmentId
  moment := request.moment
  latest := request.latest
  sections := request.sections
  typeId := request.typeId
  fields := request.fields
  text := request.text
  filters := request.filters.map fun filter => (filter.column, filter.value)
  search := search.map (·.canonical)
  firstMatch := request.firstMatch
  scope := request.scope
  orderBy := request.orderBy
  group := request.group
  direction := request.direction

abbrev Parts := List (String × Format.Bytes)

def filterParts (filters : List RequestFilter) : Parts :=
  filters.flatMap fun filter =>
    [("filter-column", utf8 filter.column), ("filter-value", utf8 filter.value)]

/-- The parts of a request, in the order in which they are read. -/
def snapshotParts (request : SnapshotRequest) (search : Option StructuredSearch) : Parts :=
  tagged "segment" [signedBytes request.segmentId] ++
    (tagged "at" [signedBytes request.moment] ++
    (tagged "selection" (if request.latest then [utf8 "latest"] else []) ++
    (tagged "section" (request.sections.map utf8) ++
    (tagged "type" (request.typeId.toList.map (leBytes 4)) ++
    (tagged "field" (request.fields.map utf8) ++
    (tagged "text" (request.text.toList.map (leBytes 8)) ++
    (filterParts request.filters ++
    (tagged "search" (search.toList.map canonicalBytes) ++
    (tagged "first-match" [[if request.firstMatch then 1 else 0]] ++
    (tagged "scope" [utf8 request.scope.asStr] ++
    (tagged "by" (request.orderBy.map utf8) ++
    (tagged "group" (request.group.toList.map fun group => utf8 group.asStr) ++
    tagged "direction" [utf8 request.direction.asStr]))))))))))))

def segmentParts (segment : DatasetSegment) : Parts :=
  [("activity-segment", signedBytes segment.id),
    ("activity-prefix", leBytes 8 (segment.activePosition.getD 0)),
    ("activity-from", signedBytes segment.minTs), ("activity-to", signedBytes segment.maxTs)] ++
  segment.sections.flatMap fun stored =>
    [("activity-layout", leBytes 4 stored.typeId), ("activity-rows", leBytes 8 stored.rows)]

def observedParts (registry : Registry) : Option (List DatasetSegment) → Parts
  | none => []
  | some observed =>
    ("locks-observation", utf8 "v1") ::
      (observed.filter (hasActivity registry)).flatMap segmentParts

def boundBytes (registry : Registry) (request : SnapshotRequest) (search : Option StructuredSearch)
    (observed : Option (List DatasetSegment)) : Format.Bytes :=
  written utf8 8 (snapshotParts request search ++ observedParts registry observed)

def fnv (bytes : Format.Bytes) : UInt64 := bytes.foldl hashByte 0xcbf29ce484222325

section Bytes

variable {registry : Registry} {request : SnapshotRequest} {search : Option StructuredSearch}

theorem hashBytes_eq (hash : UInt64) (bytes : Format.Bytes) :
    hashBytes hash bytes = (frame 8 bytes).foldl hashByte hash := by
  have hlimit : 256 ^ 8 = 2 ^ 64 := by norm_num
  rw [frame, hlimit, hashBytes]

theorem hashPart_eq (hash : UInt64) (tag : String) (bytes : Format.Bytes) :
    hashPart hash tag bytes = (frame 8 (utf8 tag) ++ frame 8 bytes).foldl hashByte hash := by
  rw [hashPart, hashBytes_eq, hashBytes_eq, List.foldl_append]

theorem foldl_written (parts : Parts) (hash : UInt64) :
    (written utf8 8 parts).foldl hashByte hash =
      parts.foldl (fun hash part => hashPart hash part.1 part.2) hash := by
  induction parts generalizing hash with
  | nil => rfl
  | cons part parts ih =>
    rw [written_cons, ← List.append_assoc, List.foldl_append, ih, ← hashPart_eq]
    rfl

theorem foldl_tagged (tag : String) (values : List Format.Bytes) (hash : UInt64) :
    (tagged tag values).foldl (fun hash part => hashPart hash part.1 part.2) hash =
      values.foldl (fun hash value => hashPart hash tag value) hash := by
  rw [tagged, List.foldl_map]

theorem foldl_filterParts (filters : List RequestFilter) (hash : UInt64) :
    (filterParts filters).foldl (fun hash part => hashPart hash part.1 part.2) hash =
      filters.foldl
        (fun hash filter =>
          hashPart (hashPart hash "filter-column" (utf8 filter.column)) "filter-value"
            (utf8 filter.value)) hash := by
  simp only [filterParts, List.foldl_flatMap, List.foldl_cons, List.foldl_nil]

theorem foldl_toList {α : Type*} (found : Option α) (step : UInt64 → α → UInt64) (hash : UInt64) :
    found.toList.foldl step hash = found.elim hash (step hash) := by
  cases found with
  | none => rfl
  | some value => rfl

theorem foldl_latest (latest : Bool) (hash : UInt64) :
    (if latest then [utf8 "latest"] else []).foldl
        (fun hash value => hashPart hash "selection" value) hash =
      if latest then hashPart hash "selection" (utf8 "latest") else hash := by
  cases latest with
  | false => rfl
  | true => rw [if_pos rfl, if_pos rfl, List.foldl_cons, List.foldl_nil]

theorem snapshotBinding_eq (request : SnapshotRequest) (search : Option StructuredSearch) :
    snapshotBinding request search =
      (snapshotParts request search).foldl (fun hash part => hashPart hash part.1 part.2)
        0xcbf29ce484222325 := by
  simp only [snapshotParts, snapshotBinding, List.foldl_append, foldl_tagged, foldl_filterParts,
    List.foldl_map, List.foldl_cons, List.foldl_nil, foldl_toList, foldl_latest]

theorem bindLockObservations_eq (registry : Registry) (binding : UInt64)
    (observed : List DatasetSegment) :
    bindLockObservations registry binding observed =
      (observedParts registry (some observed)).foldl
        (fun hash part => hashPart hash part.1 part.2) binding := by
  simp only [observedParts, segmentParts, bindLockObservations, List.foldl_append,
    List.foldl_flatMap, List.foldl_cons, List.foldl_nil]

theorem observedBinding_eq (registry : Registry) (request : SnapshotRequest)
    (search : Option StructuredSearch) (observed : Option (List DatasetSegment)) :
    observedBinding registry request search observed =
      fnv (boundBytes registry request search observed) := by
  rw [fnv, boundBytes, foldl_written, List.foldl_append, ← snapshotBinding_eq]
  cases observed with
  | none => rw [observedBinding, observedParts, List.foldl_nil]
  | some observed => rw [observedBinding, bindLockObservations_eq]

end Bytes

end Kronika.Query
