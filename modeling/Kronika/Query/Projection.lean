/-
The plans of a request: one for each layout of its section, with the output fields and
the typed filters of that layout.

A plan says which columns a scan asks for, and a scan sees these columns alone.  The
unresolved identities of a chunk are those of the columns asked for.
-/
import Kronika.Library.Paging
import Kronika.Query.Predecessor

namespace Kronika.Query

open Library

/-! ## The registry -/

inductive ColumnClass where
  | cumulative
  | gauge
  | label
  | timestamp
deriving DecidableEq

inductive ColumnType where
  | i8
  | i16
  | i32
  | i64
  | u8
  | u16
  | u32
  | u64
  | f32
  | f64
  | bool
  | ts
  | strId
  | listI32
deriving DecidableEq

structure Column where
  name : String
  ty : ColumnType
  cls : ColumnClass
deriving DecidableEq

inductive Semantics where
  | snapshotFull
  | conditionalFull
  | changed
  | onChange
  | eventStream
deriving DecidableEq

structure TypeContract where
  typeId : Nat
  semantics : Semantics
  columns : List Column
  identity : List String
deriving DecidableEq

def TypeContract.column (contract : TypeContract) (name : String) : Option Column :=
  contract.columns.find? (·.name = name)

def TypeContract.timestamp (contract : TypeContract) : Option String :=
  (contract.columns.find? (·.cls = .timestamp)).map (·.name)

structure Registry where
  contracts : List TypeContract
  logicalSectionName : Nat → Option String

def Registry.contract (registry : Registry) (typeId : Nat) : Option TypeContract :=
  registry.contracts.find? (·.typeId = typeId)

/-- The bits of the double that a text denotes, read as a single or as a double; none if the
text is no number or not finite. -/
structure FloatText where
  single : String → Option Nat
  double : String → Option Nat

/-! ## Requests -/

structure ActiveCursor where
  segmentId : Int
  walPosition : Nat
deriving DecidableEq

structure DataRequest where
  segmentId : Int
  sectionName : String
  typeId : Option Nat
  fields : List String
  filters : List RequestFilter
  after : Option ActiveCursor

/-! ## Typed filters -/

def parseBool (text : String) : Option Bool :=
  if text = "true" then some true
  else if text = "false" then some false
  else none

def parseListI32 (text : String) : Option (List Int) :=
  if text = "" then some []
  else (text.toList.splitOn ',').mapM fun part => parseSigned 32 (String.ofList part)

def utf8 (text : String) : Format.Bytes := text.toUTF8.toList

/-- A filter value as a cell of a column of the type; a string is compared by its bytes. -/
def parseCell (floats : FloatText) (ty : ColumnType) (value : String) : Option Cell :=
  match ty with
  | .i8 => (parseSigned 8 value).map .i16
  | .i16 => (parseSigned 16 value).map .i16
  | .i32 => (parseSigned 32 value).map .i32
  | .i64 => (parseSigned 64 value).map .i64
  | .u8 => (parseUnsigned 8 value).map .u32
  | .u16 => (parseUnsigned 16 value).map .u32
  | .u32 => (parseUnsigned 32 value).map .u32
  | .u64 => (parseUnsigned 64 value).map .u64
  | .f32 => (floats.single value).map .f64
  | .f64 => (floats.double value).map .f64
  | .bool => (parseBool value).map .bool
  | .ts => (parseSigned 64 value).map .ts
  | .listI32 => (parseListI32 value).map .listI32
  | .strId => none

def typedFilter (floats : FloatText) (contract : TypeContract) (filter : RequestFilter) :
    Except QueryError (Option TypedFilter) :=
  match contract.column filter.column with
  | none => .ok none
  | some column =>
    if column.cls ≠ .label then .error (.badFilter filter.column)
    else if column.ty = .strId then .ok (some (.bytes column.name (utf8 filter.value)))
    else
      match parseCell floats column.ty filter.value with
      | none => .error (.badFilter filter.column)
      | some wanted => .ok (some (.cell column.name wanted))

/-- Every filter is read against all known layouts, and some layout has its column. -/
def validateFilters (floats : FloatText) (known : List TypeContract) :
    List RequestFilter → Except QueryError Unit
  | [] => .ok ()
  | filter :: rest => do
    let typed ← known.mapM fun contract => typedFilter floats contract filter
    if typed.any (·.isSome) then validateFilters floats known rest
    else .error (.noSuchColumn filter.column)

/-! ## Plans -/

def recordedNames (recorded : List TypeContract) : List String :=
  ((recorded.flatMap (·.columns)).map (·.name)).foldl
    (fun names name => if name ∈ names then names else names ++ [name]) []

def outputNames (recorded known : List TypeContract) (requested : List String) :
    Except QueryError (List String) :=
  if requested = [] then .ok (recordedNames recorded)
  else
    match requested.find? fun name => !known.any fun contract => (contract.column name).isSome with
    | some name => .error (.noSuchColumn name)
    | none => .ok requested

/-- The layouts of a section in a segment, with the contract and the row count of each. -/
def layoutsOf (registry : Registry) (segment : Segment) (request : DataRequest) :
    List (TypeContract × Nat) :=
  (segment.layouts.map (·.1)).filterMap fun typeId =>
    if registry.logicalSectionName typeId = some request.sectionName ∧
        request.typeId.all (· = typeId) then
      (registry.contract typeId).map fun contract => (contract, (segment.rows typeId).length)
    else none

def planOf (floats : FloatText) (names : List String) (filters : List RequestFilter)
    (layout : TypeContract × Nat) : Except QueryError Plan := do
  let typed ← filters.mapM fun filter => typedFilter floats layout.1 filter
  return {
    typeId := layout.1.typeId
    fields := names.map fun name =>
      { name := name, column := (layout.1.column name).map (·.name) }
    timestamp := layout.1.timestamp
    startRow := 0
    filters := typed.filterMap id
    matchesNone := typed.any (·.isNone)
    rows := layout.2 }

def knownLayouts (registry : Registry) (sectionName : String) : List TypeContract :=
  registry.contracts.filter fun contract =>
    registry.logicalSectionName contract.typeId = some sectionName

def plans (registry : Registry) (floats : FloatText) (segment : Segment) (request : DataRequest) :
    Except QueryError (List Plan) :=
  let layouts := layoutsOf registry segment request
  let known := knownLayouts registry request.sectionName
  if layouts = [] then .error .noSuchSection
  else do
    let names ← outputNames (layouts.map (·.1)) known request.fields
    validateFilters floats known request.filters
    layouts.mapM (planOf floats names request.filters)

section Plans

variable {registry : Registry} {floats : FloatText} {segment : Segment} {request : DataRequest}
  {names : List String} {filters : List RequestFilter} {plan : Plan}
  {planned : List Plan}

theorem planOf_ok {layout : TypeContract × Nat}
    (h : planOf floats names filters layout = .ok plan) :
    plan.typeId = layout.1.typeId ∧ plan.rows = layout.2 ∧ plan.startRow = 0 := by
  obtain ⟨typed, _, h⟩ := bind_eq_ok.mp h
  rw [← Except.ok.inj h]
  exact ⟨rfl, rfl, rfl⟩

theorem mem_layoutsOf {layout : TypeContract × Nat}
    (h : layout ∈ layoutsOf registry segment request) :
    layout.2 = (segment.rows layout.1.typeId).length := by
  obtain ⟨typeId, _, hlayout⟩ := List.mem_filterMap.mp h
  split at hlayout
  · obtain ⟨contract, hcontract, rfl⟩ := Option.map_eq_some_iff.mp hlayout
    have htype := List.find?_some hcontract
    rw [decide_eq_true_eq] at htype
    rw [htype]
  · cases hlayout

theorem plans_ok (h : plans registry floats segment request = .ok planned) :
    ∃ names, outputNames ((layoutsOf registry segment request).map (·.1))
        (knownLayouts registry request.sectionName) request.fields = .ok names ∧
      List.Forall₂ (fun layout plan => planOf floats names request.filters layout = .ok plan)
        (layoutsOf registry segment request) planned := by
  rw [plans] at h
  split at h
  · cases h
  · obtain ⟨names, hnames, h⟩ := bind_eq_ok.mp h
    obtain ⟨_, _, h⟩ := bind_eq_ok.mp h
    exact ⟨names, hnames, mapM_eq_ok.mp h⟩

theorem length_plans_le (h : plans registry floats segment request = .ok planned) :
    planned.length ≤ segment.layouts.length := by
  obtain ⟨_, _, hplans⟩ := plans_ok h
  rw [← hplans.length_eq]
  refine (List.length_filterMap_le ..).trans ?_
  rw [List.length_map]

theorem mem_plans (h : plans registry floats segment request = .ok planned)
    (hmem : plan ∈ planned) :
    plan.rows = (segment.rows plan.typeId).length ∧ plan.startRow = 0 := by
  obtain ⟨_, _, hplans⟩ := plans_ok h
  obtain ⟨layout, hlayout, hplan⟩ := exists_left_of_forall₂ hplans hmem
  obtain ⟨htype, hrows, hstart⟩ := planOf_ok hplan
  rw [hrows, htype]
  exact ⟨mem_layoutsOf hlayout, hstart⟩

end Plans

/-- Every plan starts after the rows of an earlier capture. -/
def applyTail (plans : List Plan) (prior : Option DatasetSegment) :
    Except QueryError (List Plan) :=
  match prior with
  | none => .ok plans
  | some prior =>
    plans.mapM fun plan =>
      let startRow := ((prior.sections.find? (·.typeId = plan.typeId)).map (·.rows)).getD 0
      if plan.rows < startRow then .error .badCursor
      else .ok { plan with startRow := startRow }

def priorRows (prior : Option DatasetSegment) (typeId : Nat) : Nat :=
  ((prior.bind fun prior => prior.sections.find? (·.typeId = typeId)).map (·.rows)).getD 0

theorem applyTail_ok {planned tailed : List Plan} {prior : Option DatasetSegment}
    (hzero : ∀ plan ∈ planned, plan.startRow = 0) (h : applyTail planned prior = .ok tailed) :
    tailed = planned.map (fun plan => { plan with startRow := priorRows prior plan.typeId }) ∧
      ∀ plan ∈ tailed, plan.startRow ≤ plan.rows := by
  cases prior with
  | none =>
    rw [← Except.ok.inj h]
    constructor
    · conv_lhs => rw [← List.map_id planned]
      apply List.map_congr_left
      intro plan hmem
      show plan = { plan with startRow := 0 }
      rw [← hzero plan hmem]
    · intro plan hmem
      rw [hzero plan hmem]
      exact Nat.zero_le _
  | some prior =>
    have hplans := mapM_eq_ok.mp h
    clear h hzero
    induction hplans with
    | nil => exact ⟨rfl, fun _ hmem => absurd hmem List.not_mem_nil⟩
    | @cons plan plan' planned tailed hplan _ ih =>
      dsimp only at hplan
      split at hplan
      · cases hplan
      · next hle =>
        have heq := Except.ok.inj hplan
        refine ⟨?_, ?_⟩
        · rw [List.map_cons, ← ih.1, ← heq]
          rfl
        · intro other hmem
          rcases List.mem_cons.mp hmem with hhead | htail
          · rw [hhead, ← heq]
            exact Nat.le_of_not_lt hle
          · exact ih.2 other htail

/-! ## Scans -/

def Row.project (row : Row) (columns : List String) : Row :=
  { cells := row.cells.filter fun cell => cell.1 ∈ columns }

def Plan.projection (plan : Plan) : List String :=
  plan.fields.filterMap (·.column) ++ plan.filters.map (·.column)

/-- The identities of the strings in a row. -/
def Row.ids (row : Row) : List Nat :=
  row.cells.filterMap fun cell =>
    match cell.2 with
    | .strId id => some id
    | _ => none

def unresolvedDictionary (id : Nat) : QueryError := .unreadable s!"unresolved dictionary id {id}"

def dictionaryForChunk (segment : Segment) (rows : List (Nat × Row)) : Dictionary := fun id =>
  if id ∈ rows.flatMap (·.2.ids) then segment.dictionary id else none

def chunkDictionary (segment : Segment) (rows : List (Nat × Row)) :
    Except QueryError Dictionary :=
  match (rows.flatMap (·.2.ids)).find? fun id => (segment.dictionary id).isNone with
  | some id => .error (unresolvedDictionary id)
  | none => .ok (dictionaryForChunk segment rows)

end Kronika.Query
