/-
Pages over the physical order of rows.

A cursor names a layout and a row of it: the row itself when the order ascends, the row
above it when it descends.  A page ends before the first matching row that it has no
room for.
-/
import Kronika.Query.Projection

namespace Kronika.Query

open Library Format

inductive Order where
  | asc
  | desc
deriving DecidableEq

structure RowsRequest where
  data : DataRequest
  order : Order
  pageSize : Nat
  cursor : Option String

/-! ## What a request reads -/

/-- The data a query reads: exact segments, earlier positions of an active one, and rows. -/
structure QueryDataset where
  segment : Int → Except QueryError (List DatasetSegment)
  atActivePosition : DatasetSegment → Nat → Except QueryError DatasetSegment
  openSegment : Opener

def exactSegment (dataset : QueryDataset) (id : Int) : Except QueryError DatasetSegment := do
  let segments ← dataset.segment id
  match segments.head? with
  | none => .error .noSuchSegment
  | some segment => .ok segment

/-- Any problem with a position is a bad cursor. -/
def atPosition (dataset : QueryDataset) (current : DatasetSegment) (position : Nat) :
    Except QueryError DatasetSegment :=
  match dataset.atActivePosition current position with
  | .error _ => .error .badCursor
  | .ok segment => .ok segment

def activeTail (dataset : QueryDataset) (current : DatasetSegment) (after : Option ActiveCursor) :
    Except QueryError (Option DatasetSegment) :=
  match after with
  | none => .ok none
  | some after =>
    if current.kind ≠ .active ∨ current.id ≠ after.segmentId then .error .badCursor
    else (atPosition dataset current after.walPosition).map some

/-! ## Cursors -/

structure Cursor where
  segmentId : Int
  activePosition : Nat
  layoutIndex : Nat
  position : Nat
  binding : Nat
deriving DecidableEq

namespace Cursor

def ofTexts (segmentId activePosition layoutIndex position binding : List Char) :
    Option Cursor := do
  return {
    segmentId := ← parseSigned 64 (String.ofList segmentId)
    activePosition := ← parseUnsigned 64 (String.ofList activePosition)
    layoutIndex := ← parseUnsigned 64 (String.ofList layoutIndex)
    position := ← parseUnsigned 64 (String.ofList position)
    binding := ← parseUnsigned 64 (String.ofList binding) }

def parse (raw : String) : Except QueryError Cursor :=
  match raw.toList.splitOn ',' with
  | [segmentId, activePosition, layoutIndex, position, binding] =>
    match ofTexts segmentId activePosition layoutIndex position binding with
    | none => .error .badCursor
    | some cursor => .ok cursor
  | _ => .error .badCursor

def encode (cursor : Cursor) : String :=
  String.ofList ([','].intercalate [decimalText cursor.segmentId,
    Nat.toDigits 10 cursor.activePosition, Nat.toDigits 10 cursor.layoutIndex,
    Nat.toDigits 10 cursor.position, Nat.toDigits 10 cursor.binding])

end Cursor

/-! ## The binding of a cursor to its request -/

def hashByte (hash : UInt64) (byte : UInt8) : UInt64 := (hash ^^^ byte.toUInt64) * 0x100000001b3

def hashBytes (hash : UInt64) (bytes : Bytes) : UInt64 :=
  (leBytes 8 (min bytes.length (2 ^ 64 - 1)) ++ bytes).foldl hashByte hash

def binding (request : RowsRequest) : Nat :=
  let hash := hashBytes 0xcbf29ce484222325 (utf8 request.data.sectionName)
  let hash := match request.data.typeId with
    | none => hash
    | some typeId => hashBytes hash (leBytes 4 typeId)
  let hash := hashByte hash (match request.order with | .asc => 0 | .desc => 1)
  let hash := request.data.fields.foldl (fun hash field => hashBytes hash (utf8 field)) hash
  let hash := request.data.filters.foldl
    (fun hash filter => hashBytes (hashBytes hash (utf8 filter.column)) (utf8 filter.value)) hash
  let hash := match request.data.after with
    | none => hash
    | some after =>
      hashBytes (hashBytes hash (leBytes 8 (after.segmentId % 2 ^ 64).toNat))
        (leBytes 8 after.walPosition)
  hash.toNat

/-! ## Preparation -/

structure PreparedRows where
  segment : Segment
  plans : List Plan
  order : Order
  pageSize : Nat
  start : Cursor

def pin (dataset : QueryDataset) (current : DatasetSegment) (cursor : Option Cursor) :
    Except QueryError DatasetSegment :=
  match cursor with
  | none => .ok current
  | some cursor =>
    match current.kind with
    | .finished => if cursor.activePosition = 0 then .ok current else .error .badCursor
    | .active => atPosition dataset current cursor.activePosition

/-- The cursor of a request, of this segment and this request. -/
def parsedCursor (request : RowsRequest) : Except QueryError (Option Cursor) :=
  match request.cursor with
  | none => .ok none
  | some raw => do
    let cursor ← Cursor.parse raw
    if cursor.segmentId = request.data.segmentId ∧ cursor.binding = binding request then
      .ok (some cursor)
    else .error .badCursor

/-- The segment that a request reads, and the capture that its tail starts after. -/
def view (dataset : QueryDataset) (data : DataRequest) (cursor : Option Cursor) :
    Except QueryError (Segment × Option DatasetSegment) := do
  let current ← exactSegment dataset data.segmentId
  let segmentRef ← pin dataset current cursor
  let tail ← activeTail dataset segmentRef data.after
  let segment ← dataset.openSegment segmentRef
  return (segment, tail)

/-- Where the first page begins: at the first row of the first plan, or after the last row
of the last one. -/
def firstCursor (order : Order) (segment : Segment) (plans : List Plan) (binding : Nat) : Cursor :=
  match order with
  | .asc =>
    { segmentId := segment.id, activePosition := segment.activePosition.getD 0, layoutIndex := 0
      position := (plans[0]?.map (·.startRow)).getD 0, binding := binding }
  | .desc =>
    { segmentId := segment.id, activePosition := segment.activePosition.getD 0
      layoutIndex := plans.length - 1
      position := (plans[plans.length - 1]?.map (·.rows)).getD 0, binding := binding }

theorem firstCursor_fields (order : Order) (segment : Segment) (plans : List Plan) (hash : Nat) :
    (firstCursor order segment plans hash).segmentId = segment.id ∧
      (firstCursor order segment plans hash).activePosition = segment.activePosition.getD 0 ∧
        (firstCursor order segment plans hash).binding = hash := by
  cases order <;> exact ⟨rfl, rfl, rfl⟩

/-- The checks of a cursor against the plans. -/
def checkStart (segment : Segment) (planned : List Plan) (request : RowsRequest) (start : Cursor) :
    Except QueryError PreparedRows :=
  match planned[start.layoutIndex]? with
  | none => .error .badCursor
  | some plan =>
    if start.position < plan.startRow ∨ plan.rows < start.position ∨
        start.activePosition ≠ segment.activePosition.getD 0 then .error .badCursor
    else
      .ok { segment := segment, plans := planned, order := request.order
            pageSize := request.pageSize, start := start }

variable (registry : Registry) (floats : FloatText)

def prepare (dataset : QueryDataset) (request : RowsRequest) : Except QueryError PreparedRows := do
  let parsed ← parsedCursor request
  let found ← view dataset request.data parsed
  let planned ← plans registry floats found.1 request.data
  let planned ← applyTail planned found.2
  let start := parsed.getD (firstCursor request.order found.1 planned (binding request))
  checkStart found.1 planned request start

/-! ## Records -/

/-- What a cell shows: itself, or the entry of its string. -/
inductive Value where
  | null
  | cell (value : Cell)
  | resolved (value : Resolved)
deriving DecidableEq

structure RowRecord where
  typeId : Nat
  ordinal : Nat
  values : List Value
deriving DecidableEq

def cellValue (dictionary : Dictionary) (cell : Cell) : Except QueryError Value :=
  match cell with
  | .null => .ok .null
  | .strId id =>
    match dictionary id with
    | some found => .ok (.resolved found)
    | none => .error (unresolvedDictionary id)
  | cell => .ok (.cell cell)

def columnValue (dictionary : Dictionary) (row : Row) (column : Option String) :
    Except QueryError Value :=
  match column.bind row.get with
  | none => .ok .null
  | some cell => cellValue dictionary cell

def rowRecord (plan : Plan) (ordinal : Nat) (row : Row) (dictionary : Dictionary) :
    Except QueryError RowRecord := do
  let values ← plan.fields.mapM fun field => columnValue dictionary row field.column
  return { typeId := plan.typeId, ordinal := ordinal, values := values }

/-! ## Pages -/

abbrev RowPage := Page RowRecord Cursor

namespace PreparedRows

variable (prepared : PreparedRows)

def chunkRows : Nat := Reader.saturatingAdd prepared.pageSize 1

def scanned (plan : Plan) (offset limit : Nat) : List (Nat × Row) :=
  (prepared.segment.visitRows plan.typeId offset limit).map fun (ordinal, row) =>
    (ordinal, row.project plan.projection)

/-- The matching rows of a chunk go to the page while it has room, and the first one that it
has no room for, at `position`, begins the next page. -/
def emitRows (plan : Plan) (layoutIndex : Nat) (position : Nat → Nat) (dictionary : Dictionary) :
    List (Nat × Row) → RowPage → Except QueryError RowPage
  | [], page => .ok page
  | (ordinal, row) :: rest, page =>
    if !plan.accepts row dictionary then
      emitRows plan layoutIndex position dictionary rest page
    else if page.items.length = prepared.pageSize then
      .ok { page with
        next := some
          { prepared.start with layoutIndex := layoutIndex, position := position ordinal } }
    else do
      let record ← rowRecord plan ordinal row dictionary
      emitRows plan layoutIndex position dictionary rest
        { page with items := page.items ++ [record] }

/-! ### Ascending -/

def emitAscChunk (plan : Plan) (layoutIndex : Nat) (chunk : List (Nat × Row)) (page : RowPage) :
    Except QueryError RowPage := do
  let dictionary ← chunkDictionary prepared.segment chunk
  prepared.emitRows plan layoutIndex id dictionary chunk page

/-- The scan of a layout: its full chunks are emitted while the page has no next one, and the
rows of the last chunk are left. -/
def visitAsc (plan : Plan) (layoutIndex : Nat) :
    List (Nat × Row) → List (Nat × Row) → RowPage → Except QueryError (List (Nat × Row) × RowPage)
  | [], chunk, page => .ok (chunk, page)
  | row :: rest, chunk, page =>
    if (chunk ++ [row]).length < prepared.chunkRows then
      visitAsc plan layoutIndex rest (chunk ++ [row]) page
    else do
      let page ← prepared.emitAscChunk plan layoutIndex (chunk ++ [row]) page
      if page.next.isSome then .ok ([], page) else visitAsc plan layoutIndex rest [] page

def ascLayout (plan : Plan) (layoutIndex : Nat) (page : RowPage) : Except QueryError RowPage := do
  let offset := if layoutIndex = prepared.start.layoutIndex then prepared.start.position
    else plan.startRow
  let rows := prepared.scanned plan offset (prepared.segment.rows plan.typeId).length
  let (chunk, page) ← prepared.visitAsc plan layoutIndex rows [] page
  if page.next.isNone && !chunk.isEmpty then prepared.emitAscChunk plan layoutIndex chunk page
  else .ok page

/-! ### Descending -/

/-- The windows of a layout below `upper`, the highest first, the rows of each backwards. -/
def descWindows (plan : Plan) (layoutIndex upper : Nat) (page : RowPage) :
    Except QueryError RowPage :=
  if _h : plan.startRow < upper ∧ page.next.isNone then do
    let lower := max (upper - prepared.chunkRows) plan.startRow
    let chunk := prepared.scanned plan lower (upper - lower)
    let dictionary ← chunkDictionary prepared.segment chunk
    let page ← prepared.emitRows plan layoutIndex (Reader.saturatingAdd · 1) dictionary
      chunk.reverse page
    descWindows plan layoutIndex lower page
  else .ok page
termination_by upper
decreasing_by
  have hpos : 0 < prepared.chunkRows := by
    rw [chunkRows, Reader.saturatingAdd]
    omega
  omega

def descLayout (plan : Plan) (layoutIndex : Nat) (page : RowPage) : Except QueryError RowPage :=
  let upper := if layoutIndex = prepared.start.layoutIndex then prepared.start.position
    else plan.rows
  prepared.descWindows plan layoutIndex upper page

/-! ### Over the layouts -/

/-- The layouts that apply, in turn, until the page has a next one. -/
def layoutPages (visit : Plan → Nat → RowPage → Except QueryError RowPage) :
    List (Plan × Nat) → RowPage → Except QueryError RowPage
  | [], page => .ok page
  | (plan, layoutIndex) :: rest, page =>
    if !plan.applies then layoutPages visit rest page
    else do
      let page ← visit plan layoutIndex page
      if page.next.isSome then .ok page else layoutPages visit rest page

def asc : Except QueryError RowPage :=
  layoutPages prepared.ascLayout (prepared.plans.zipIdx.drop prepared.start.layoutIndex) .empty

def desc : Except QueryError RowPage :=
  layoutPages prepared.descLayout
    (prepared.plans.zipIdx.take (prepared.start.layoutIndex + 1)).reverse .empty

def page : Except QueryError RowPage :=
  match prepared.order with
  | .asc => prepared.asc
  | .desc => prepared.desc

/-- The rows of the page, and the text of the cursor of the next one. -/
def stream : Except QueryError (List RowRecord × Option String) := do
  let page ← prepared.page
  return (page.items, page.next.map Cursor.encode)

end PreparedRows

def rowsPage (dataset : QueryDataset) (request : RowsRequest) :
    Except QueryError (List RowRecord × Option String) := do
  let prepared ← prepare registry floats dataset request
  prepared.stream

end Kronika.Query
