/-
The physical history of a segment: its rows with their timestamps and identities, each
layout in ascending order.
-/
import Kronika.Query.RowPaging

namespace Kronika.Query

open Library

structure Window where
  lower : Option Int
  upper : Option Int

def Window.contains (window : Window) (timestamp : Int) : Bool :=
  window.lower.all (· ≤ timestamp) && window.upper.all (timestamp ≤ ·)

structure HistoryRecord where
  typeId : Nat
  ordinal : Nat
  timestamp : Value
  identity : List Value
  values : List Value
  breakBefore : Bool
deriving DecidableEq

def rowChunkRows : Nat := 512

/-- The columns that identify a row: all but the timestamp where the rows are events. -/
def identityColumns (contract : TypeContract) : List String :=
  (contract.columns.filter fun column =>
    if contract.semantics = .eventStream then column.cls ≠ .timestamp
    else column.name ∈ contract.identity).map (·.name)

/-- A plan with its contract. -/
structure HistoryPlan where
  plan : Plan
  contract : TypeContract

def HistoryPlan.projection (planned : HistoryPlan) : List String :=
  planned.plan.projection ++ identityColumns planned.contract ++ planned.plan.timestamp.toList

def validateRowDictionary (row : Row) (dictionary : Dictionary) : Except QueryError Unit :=
  match row.ids.find? fun id => (dictionary id).isNone with
  | some id => .error (unresolvedDictionary id)
  | none => .ok ()

def inWindow (window : Option Window) (planned : HistoryPlan) (row : Row) : Bool :=
  match window with
  | none => true
  | some window => (planned.plan.timestamp.bind (rowTimestamp row)).any window.contains

def breaksAt (breaks : Option (List (Nat × Int))) (planned : HistoryPlan) (row : Row) : Bool :=
  match breaks with
  | none => false
  | some breaks =>
    (planned.plan.timestamp.bind (rowTimestamp row)).any fun ts =>
      (planned.plan.typeId, ts) ∈ breaks

def historyRecord (planned : HistoryPlan) (breaks : Option (List (Nat × Int)))
    (dictionary : Dictionary) (ordinal : Nat) (row : Row) : Except QueryError HistoryRecord := do
  let identity ← planned.contract.identity.mapM fun name => columnValue dictionary row (some name)
  let timestamp ← columnValue dictionary row planned.plan.timestamp
  let values ← planned.plan.fields.mapM fun field => columnValue dictionary row field.column
  return {
    typeId := planned.plan.typeId, ordinal := ordinal, timestamp := timestamp
    identity := identity, values := values, breakBefore := breaksAt breaks planned row }

def emitHistoryRow (planned : HistoryPlan) (breaks : Option (List (Nat × Int)))
    (dictionary : Dictionary) (item : Nat × Row) : Except QueryError (List HistoryRecord) := do
  validateRowDictionary item.2 dictionary
  if planned.plan.accepts item.2 dictionary then do
    let record ← historyRecord planned breaks dictionary item.1 item.2
    return [record]
  else .ok []

def emitChunk (segment : Segment) (planned : HistoryPlan) (breaks : Option (List (Nat × Int)))
    (chunk : List (Nat × Row)) : Except QueryError (List HistoryRecord) := do
  let records ← chunk.mapM (emitHistoryRow planned breaks (dictionaryForChunk segment chunk))
  return records.flatten

/-- The scan of a layout: what its full chunks emit, and the rows of the last one. -/
def visitHistory (segment : Segment) (planned : HistoryPlan) (window : Option Window)
    (breaks : Option (List (Nat × Int))) :
    List (Nat × Row) → List (Nat × Row) → List HistoryRecord →
      Except QueryError (List (Nat × Row) × List HistoryRecord)
  | [], chunk, records => .ok (chunk, records)
  | item :: rest, chunk, records =>
    if !inWindow window planned item.2 then
      visitHistory segment planned window breaks rest chunk records
    else if (chunk ++ [item]).length < rowChunkRows then
      visitHistory segment planned window breaks rest (chunk ++ [item]) records
    else do
      let emitted ← emitChunk segment planned breaks (chunk ++ [item])
      visitHistory segment planned window breaks rest [] (records ++ emitted)

def streamPlan (segment : Segment) (planned : HistoryPlan) (window : Option Window)
    (breaks : Option (List (Nat × Int))) : Except QueryError (List HistoryRecord) :=
  if !planned.plan.applies then .ok []
  else do
    let rows := (segment.visitRows planned.plan.typeId planned.plan.startRow
      (segment.rows planned.plan.typeId).length).map fun (ordinal, row) =>
        (ordinal, row.project planned.projection)
    let (chunk, records) ← visitHistory segment planned window breaks rows [] []
    if chunk.isEmpty then .ok records
    else do
      let emitted ← emitChunk segment planned breaks chunk
      return records ++ emitted

def streamPlans (segment : Segment) (plans : List HistoryPlan) (window : Option Window)
    (breaks : Option (List (Nat × Int))) : Except QueryError (List HistoryRecord) := do
  let records ← plans.mapM fun planned => streamPlan segment planned window breaks
  return records.flatten

structure PreparedHistory where
  segment : Segment
  plans : List HistoryPlan

variable (registry : Registry) (floats : FloatText)

def withContract (plan : Plan) : Except QueryError HistoryPlan :=
  match registry.contract plan.typeId with
  | none => .error .noSuchSection
  | some contract => .ok { plan := plan, contract := contract }

/-- The preparation for a stored section; the series derived for the section `health` has a
preparation of its own. -/
def prepareHistory (dataset : QueryDataset) (request : DataRequest) :
    Except QueryError PreparedHistory := do
  let found ← view dataset request none
  let planned ← plans registry floats found.1 request
  let planned ← applyTail planned found.2
  let planned ← planned.mapM (withContract registry)
  return { segment := found.1, plans := planned }

def history (dataset : QueryDataset) (request : DataRequest) :
    Except QueryError (List HistoryRecord) := do
  let prepared ← prepareHistory registry floats dataset request
  streamPlans prepared.segment prepared.plans none none

/-! ## What a history returns -/

section Returned

variable {registry floats} {segment : Segment} {planned : HistoryPlan} {calm : Prop}
  {rows chunk : List (Nat × Row)} {records : List HistoryRecord}

/-- The record of a row in the physical history.  Its identity is of the columns that the
scan asks for, which include the identity of a contract. -/
def historyOf (segment : Segment) (planned : HistoryPlan) (item : Nat × Row) : HistoryRecord where
  typeId := planned.plan.typeId
  ordinal := item.1
  timestamp := shownColumn segment.dictionary item.2 planned.plan.timestamp
  identity := planned.contract.identity.map fun name =>
    shownColumn segment.dictionary (item.2.project planned.projection) (some name)
  values := planned.plan.fields.map fun field =>
    shownColumn segment.dictionary item.2 field.column
  breakBefore := false

def historyIn (segment : Segment) (planned : HistoryPlan) : List HistoryRecord :=
  if planned.plan.applies then
    (matchingItems segment planned.plan).map (historyOf segment planned)
  else []

def seenByHistory (planned : HistoryPlan) (item : Nat × Row) : Nat × Row :=
  (item.1, item.2.project planned.projection)

def ResolvesHistory (segment : Segment) (planned : HistoryPlan) (rows : List (Nat × Row)) : Prop :=
  ∀ item ∈ rows, ∀ id ∈ (item.2.project planned.projection).ids, (segment.dictionary id).isSome

def emitted (segment : Segment) (planned : HistoryPlan) (item : Nat × Row) : List HistoryRecord :=
  if planned.plan.accepts item.2 segment.dictionary then [historyOf segment planned item] else []

theorem historyRecord_project {dictionary : Dictionary} {item : Nat × Row}
    (h : ResolvesRow segment dictionary (item.2.project planned.projection)) :
    historyRecord planned none dictionary item.1 (item.2.project planned.projection) =
      .ok (historyOf segment planned item) := by
  have hfields : ∀ name ∈ planned.plan.projection, name ∈ planned.projection :=
    fun _ hmem => List.mem_append_left _ (List.mem_append_left _ hmem)
  have htimestamp : ∀ name ∈ planned.plan.timestamp, name ∈ planned.projection := by
    intro name hmem
    exact List.mem_append_right _ (Option.mem_toList.mpr hmem)
  rw [historyRecord, mapM_ok fun name _ => columnValue_resolved h (some name),
    columnValue_project htimestamp h, mapM_ok fun field hmem => columnValue_project
      (fun name hname => hfields name (field_mem_projection hmem name hname)) h]
  rfl

theorem emitHistoryRow_yields {item : Nat × Row}
    (hmem : item ∈ chunk) (hcalm : calm → ResolvesHistory segment planned chunk) :
    Yields calm (emitHistoryRow planned none
        (dictionaryForChunk segment (chunk.map (seenByHistory planned)))
        (seenByHistory planned item)) (emitted segment planned item) := by
  have hids : ∀ id ∈ (item.2.project planned.projection).ids,
      dictionaryForChunk segment (chunk.map (seenByHistory planned)) id =
        segment.dictionary id := by
    intro id hid
    exact if_pos (List.mem_flatMap.mpr ⟨seenByHistory planned item, List.mem_map_of_mem hmem, hid⟩)
  rw [emitHistoryRow, validateRowDictionary]
  cases hfind : (seenByHistory planned item).2.ids.find? fun id =>
      (dictionaryForChunk segment (chunk.map (seenByHistory planned)) id).isNone with
  | some id =>
    apply Yields.error
    intro hholds
    have hid := List.mem_of_find?_eq_some hfind
    have hnone := List.find?_some hfind
    rw [hids id hid, Option.isNone_iff_eq_none] at hnone
    have hsome := hcalm hholds item hmem id hid
    rw [hnone] at hsome
    cases hsome
  | none =>
    have hresolves : ResolvesRow segment
        (dictionaryForChunk segment (chunk.map (seenByHistory planned)))
        (item.2.project planned.projection) := by
      intro id hid
      have hsome := List.find?_eq_none.mp hfind id hid
      rw [Option.isNone_iff_eq_none, hids id hid] at hsome
      exact ⟨hids id hid, Option.isSome_iff_ne_none.mpr hsome⟩
    have haccepts : planned.plan.accepts (seenByHistory planned item).2
        (dictionaryForChunk segment (chunk.map (seenByHistory planned))) =
          planned.plan.accepts item.2 segment.dictionary :=
      accepts_project (fun _ hmem => List.mem_append_left _ (List.mem_append_left _ hmem))
        hresolves
    show Yields calm (if planned.plan.accepts (seenByHistory planned item).2
      (dictionaryForChunk segment (chunk.map (seenByHistory planned))) then _ else _) _
    rw [haccepts, emitted]
    by_cases hmatch : planned.plan.accepts item.2 segment.dictionary = true
    · have hrecord : historyRecord planned none
          (dictionaryForChunk segment (chunk.map (seenByHistory planned)))
          (seenByHistory planned item).1 (seenByHistory planned item).2 =
            .ok (historyOf segment planned item) := historyRecord_project hresolves
      rw [if_pos hmatch, if_pos hmatch, hrecord]
      exact Yields.ok calm _
    · rw [if_neg hmatch, if_neg hmatch]
      exact Yields.ok calm []

theorem emitChunk_yields (hcalm : calm → ResolvesHistory segment planned chunk) :
    Yields calm (emitChunk segment planned none (chunk.map (seenByHistory planned)))
      (chunk.flatMap (emitted segment planned)) := by
  have hrows : Yields calm ((chunk.map (seenByHistory planned)).mapM
      (emitHistoryRow planned none
        (dictionaryForChunk segment (chunk.map (seenByHistory planned)))))
      (chunk.map (emitted segment planned)) := by
    rw [List.mapM_map]
    exact Yields.mapM fun item hmem => emitHistoryRow_yields hmem hcalm
  have hflat := hrows.bind (f := fun records : List (List HistoryRecord) =>
    (Except.ok records.flatten : Except QueryError (List HistoryRecord))) (Yields.ok calm _)
  exact hflat

theorem visitHistory_yields (hcalm : calm → ResolvesHistory segment planned (chunk ++ rows)) :
    Yields calm
      (visitHistory segment planned none none (rows.map (seenByHistory planned))
          (chunk.map (seenByHistory planned)) records >>= fun (chunk, records) =>
        if chunk.isEmpty then .ok records
        else do
          let emitted ← emitChunk segment planned none chunk
          return records ++ emitted)
      (records ++ (chunk ++ rows).flatMap (emitted segment planned)) := by
  induction rows generalizing chunk records with
  | nil =>
    rw [List.append_nil] at hcalm ⊢
    show Yields calm (if (chunk.map (seenByHistory planned)).isEmpty then .ok records else _) _
    cases chunk with
    | nil =>
      rw [List.flatMap_nil, List.append_nil]
      exact Yields.ok calm records
    | cons item chunk =>
      exact (emitChunk_yields hcalm).bind (Yields.ok calm _)
  | cons row rows ih =>
    have hassoc : chunk ++ row :: rows = (chunk ++ [row]) ++ rows := by
      rw [List.append_assoc, List.singleton_append]
    have hseen : chunk.map (seenByHistory planned) ++ [seenByHistory planned row] =
        (chunk ++ [row]).map (seenByHistory planned) := by
      rw [List.map_append, List.map_singleton]
    rw [hassoc] at hcalm ⊢
    rw [List.map_cons, visitHistory, inWindow, hseen, if_neg (by simp)]
    by_cases hshort : ((chunk ++ [row]).map (seenByHistory planned)).length < rowChunkRows
    · rw [if_pos hshort]
      exact ih hcalm
    · have hchunk : Yields calm
          (emitChunk segment planned none ((chunk ++ [row]).map (seenByHistory planned)))
          ((chunk ++ [row]).flatMap (emitted segment planned)) :=
        emitChunk_yields fun hholds item hmem =>
          hcalm hholds item (List.mem_append_left _ hmem)
      have hrest : calm → ResolvesHistory segment planned ([] ++ rows) :=
        fun hholds item hmem => hcalm hholds item (List.mem_append_right _ hmem)
      rw [if_neg hshort, bind_assoc, List.flatMap_append, ← List.append_assoc]
      exact hchunk.bind (ih hrest)

def HistoryResolvable (segment : Segment) (plans : List HistoryPlan) : Prop :=
  ∀ planned ∈ plans, planned.plan.applies = true →
    ResolvesHistory segment planned (segment.numbered planned.plan.typeId)

theorem streamPlan_yields (hcalm : calm → planned.plan.applies = true →
      ResolvesHistory segment planned (segment.numbered planned.plan.typeId)) :
    Yields calm (streamPlan segment planned none none) (historyIn segment planned) := by
  rw [streamPlan, historyIn]
  by_cases happlies : planned.plan.applies = true
  · have hscan : ((segment.visitRows planned.plan.typeId planned.plan.startRow
        (segment.rows planned.plan.typeId).length).map fun (ordinal, row) =>
          (ordinal, row.project planned.projection)) =
        ((segment.numbered planned.plan.typeId).drop planned.plan.startRow).map
          (seenByHistory planned) := by
      show (((segment.numbered planned.plan.typeId).drop _).take _).map _ = _
      rw [List.take_of_length_le]
      · rfl
      · rw [List.length_drop, length_numbered]
        omega
    have hitems : ((segment.numbered planned.plan.typeId).drop planned.plan.startRow).flatMap
        (emitted segment planned) =
          (matchingItems segment planned.plan).map (historyOf segment planned) := by
      rw [matchingItems]
      induction (segment.numbered planned.plan.typeId).drop planned.plan.startRow with
      | nil => rfl
      | cons item rows ih =>
        rw [List.flatMap_cons, ih, emitted, List.filter_cons]
        by_cases hmatch : planned.plan.accepts item.2 segment.dictionary = true
        · rw [if_pos hmatch, if_pos hmatch]
          rfl
        · rw [if_neg hmatch, if_neg hmatch]
          rfl
    have hvisit : calm → ResolvesHistory segment planned ([] ++
        (segment.numbered planned.plan.typeId).drop planned.plan.startRow) :=
      fun hholds item hmem => hcalm hholds happlies item (List.mem_of_mem_drop hmem)
    rw [happlies, hscan, ← hitems]
    exact visitHistory_yields hvisit
  · rw [Bool.not_eq_true] at happlies
    rw [happlies]
    exact Yields.ok calm []

theorem streamPlans_yields (plans : List HistoryPlan) :
    Yields (HistoryResolvable segment plans) (streamPlans segment plans none none)
      (plans.flatMap (historyIn segment)) := by
  have hplans : Yields (HistoryResolvable segment plans)
      (plans.mapM fun planned => streamPlan segment planned none none)
      (plans.map (historyIn segment)) :=
    Yields.mapM fun planned hmem => streamPlan_yields fun hholds =>
      hholds planned hmem
  have hflat := hplans.bind (f := fun records : List (List HistoryRecord) =>
    (Except.ok records.flatten : Except QueryError (List HistoryRecord))) (Yields.ok _ _)
  exact hflat

end Returned

end Kronika.Query
