/-
One stored row, addressed by a locator, and the reading before it.

The ordinal of a locator is a hint: the row is the one of its time and its identity.  The reading
before it is searched in the segment of the locator and in the earlier ones, the latest first, and
the search stops at the first segment that ends before what was found.
-/
import Mathlib.Data.String.Basic
import Kronika.Library.Best
import Kronika.Library.SortedEntries
import Kronika.Query.History
import Kronika.Query.PredecessorSearch

namespace Kronika.Query
namespace Detail

open Library Best

/-! ## Row identities -/

/-- The value of an identity column.  `other` is what a locator may hold and no row has. -/
inductive IdentityValue where
  | null
  | bool (value : Bool)
  | text (value : String)
  | list (values : List String)
  | other (text : String)
deriving DecidableEq

abbrev RowIdentity := List (String × IdentityValue)

/-- `{:016x}` of the bits of a double. -/
def hexBits (bits : Nat) : String :=
  let digits := Nat.toDigits 16 bits
  String.ofList (List.replicate (16 - digits.length) '0' ++ digits)

def identityValue : Cell → IdentityValue
  | .null => .null
  | .bool value => .bool value
  | .i16 value | .i32 value | .i64 value | .ts value => .text (toString value)
  | .u32 value | .u64 value | .strId value => .text (toString value)
  | .f64 bits => .text ("f64:" ++ hexBits bits)
  | .listI32 values => .list (values.map toString)

def identityEntry (typeId : Nat) (row : Row) (entries : RowIdentity) (name : String) :
    Except String RowIdentity :=
  match row.get name with
  | none =>
    .error ("type_id " ++ toString typeId ++ " identity column \"" ++ name ++ "\" is absent")
  | some cell => .ok (insertEntry name (fun _ => identityValue cell) entries)

def identity (registry : Registry) (typeId : Nat) (row : Row) : Except String RowIdentity :=
  match registry.contract typeId with
  | none => .error ("type_id " ++ toString typeId ++ " has no registry contract")
  | some contract => (identityColumns contract).foldlM (identityEntry typeId row) []

/-- Whether the names of an identity are those of the layout. -/
def validate (registry : Registry) (typeId : Nat) (requested : RowIdentity) :
    Except String Unit :=
  match registry.contract typeId with
  | none => .error ("type_id " ++ toString typeId ++ " has no registry contract")
  | some contract =>
    let expected := identityColumns contract
    let missing := expected.filter fun name => name ∉ requested.map Prod.fst
    let extra := (requested.map Prod.fst).filter (· ∉ expected)
    if missing.isEmpty && extra.isEmpty then .ok ()
    else
      .error ("invalid detail_locator identity for type_id " ++ toString typeId ++
        ": expected [" ++ ", ".intercalate expected ++ "], missing [" ++
        ", ".intercalate missing ++ "], unexpected [" ++ ", ".intercalate extra ++ "]")

/-! ## The row of a locator -/

structure DetailLocator where
  sectionName : String
  segmentId : Int
  instant : Int
  typeId : Nat
  rowOrdinal : Nat
  identity : RowIdentity

/-- What a scan has found: the first row of the locator, and the row of its hint. -/
structure Located where
  resolved : Option Nat
  hinted : Option Nat

def notUnique (locator : DetailLocator) : QueryError :=
  .badLocator ("detail_locator identity is not unique for segment_id=" ++
    toString locator.segmentId ++ ", type_id=" ++ toString locator.typeId ++ ", at=" ++
    toString locator.instant)

def noMatch (locator : DetailLocator) : QueryError :=
  .badLocator ("no stored row matches detail_locator segment_id=" ++
    toString locator.segmentId ++ ", type_id=" ++ toString locator.typeId ++ ", at=" ++
    toString locator.instant ++ " and identity")

section Locate

variable (registry : Registry) (contract : TypeContract) (timestamp : String)
  (locator : DetailLocator)

/-- The rows from the first one on, until the scan fails. -/
def locateRows : List (Nat × Row) → Located → Except QueryError Located
  | [], found => .ok found
  | (ordinal, row) :: rest, found =>
    if rowTimestamp row timestamp ≠ some locator.instant then locateRows rest found
    else
      match identity registry locator.typeId row with
      | .error problem => .error (.badLocator problem)
      | .ok stored =>
        if stored = locator.identity then
          let hinted := if ordinal = locator.rowOrdinal then some ordinal else found.hinted
          if found.resolved.isNone then locateRows rest ⟨some ordinal, hinted⟩
          else if contract.semantics = .eventStream then locateRows rest ⟨found.resolved, hinted⟩
          else .error (notUnique locator)
        else locateRows rest found

def allRows (segment : Segment) (typeId : Nat) : List (Nat × Row) :=
  segment.visitRows typeId 0 (segment.rows typeId).length

def locateRow (segment : Segment) : Except QueryError Nat :=
  match locateRows registry contract timestamp locator (allRows segment locator.typeId)
      ⟨none, none⟩ with
  | .error problem => .error problem
  | .ok found =>
    match found.hinted.or found.resolved with
    | some ordinal => .ok ordinal
    | none => .error (noMatch locator)

end Locate

def readRow (segment : Segment) (contract : TypeContract) (ordinal : Nat) :
    Except QueryError Row :=
  match (segment.visitRows contract.typeId ordinal 1).head? with
  | some (_, row) => .ok row
  | none => .error (.badLocator "detail_ref does not identify one recorded row")

/-! ## The reading before a row -/

/-- The cells of an earlier row under their names. -/
structure PreviousReadings where
  instant : Int
  values : List (String × Cell)
deriving DecidableEq

structure PreparedRowDetail where
  locator : DetailLocator
  anchor : DatasetSegment
  anchorSegment : Segment
  otherSegments : List DatasetSegment
  openSegment : Opener

def hasCumulative (contract : TypeContract) : Bool :=
  contract.columns.any (·.cls = .cumulative)

/-- The columns of a reading, each once. -/
def readingColumns (contract : TypeContract) (timestamp : String) : List String :=
  ((identityColumns contract ++
    (contract.columns.filter (·.cls = .cumulative)).map (·.name) ++
    (if (contract.column "starttime").isSome then ["starttime"] else []) ++
    [timestamp]).mergeSort fun a b => a ≤ b).dedup

section Previous

variable (registry : Registry) (locator : DetailLocator) (timestamp : String)
  (projection : List String)

def visitPredecessor (previous : Option PreviousReadings) (row : Row) :
    Option PreviousReadings :=
  match rowTimestamp row timestamp with
  | none => previous
  | some stored =>
    if locator.instant ≤ stored then previous
    else if (identity registry locator.typeId row).toOption = some locator.identity then
      if previous.any (stored ≤ ·.instant) then previous
      else
        some ⟨stored, projection.filterMap fun name => (row.get name).map fun cell => (name, cell)⟩
    else previous

def scanPredecessor (segment : Segment) (previous : Option PreviousReadings) :
    Option PreviousReadings :=
  (segment.rows locator.typeId).foldl
    (visitPredecessor registry locator timestamp projection) previous

def predecessorCandidates (prepared : PreparedRowDetail) : List DatasetSegment :=
  ((prepared.anchor :: prepared.otherSegments.filter (·.id ≤ prepared.anchor.id)).filter
    fun segment => segment.sections.any (·.typeId = prepared.locator.typeId)).mergeSort laterFirst

def searchPredecessors (prepared : PreparedRowDetail) :
    List DatasetSegment → Option PreviousReadings → Except QueryError (Option PreviousReadings)
  | [], previous => .ok previous
  | descriptor :: rest, previous =>
    if previous.any (descriptor.maxTs < ·.instant) then .ok previous
    else if descriptor.id = prepared.anchor.id then
      searchPredecessors prepared rest
        (scanPredecessor registry locator timestamp projection prepared.anchorSegment previous)
    else do
      let segment ← prepared.openSegment descriptor
      searchPredecessors prepared rest
        (scanPredecessor registry locator timestamp projection segment previous)

def previousReadings (prepared : PreparedRowDetail) (contract : TypeContract) :
    Except QueryError (Option PreviousReadings) :=
  if hasCumulative contract then
    searchPredecessors registry prepared.locator timestamp (readingColumns contract timestamp)
      prepared (predecessorCandidates prepared) none
  else .ok none

end Previous

/-! ## A row with its reading -/

/-- The row of a request, the reading before it, and what its rates use of the reading. -/
structure RowDetail where
  ordinal : Nat
  row : Row
  previous : Option PreviousReadings
  elapsed : Option Int
  before : Option (List (String × Cell))

def changedProcess (contract : TypeContract) (row : Row) (previous : PreviousReadings) : Bool :=
  (contract.column "starttime").any fun column =>
    row.get column.name ≠ previous.values.lookup column.name

def elapsedSince (locator : DetailLocator) (previous : Option PreviousReadings) : Option Int :=
  (previous.bind fun before =>
    let elapsed := locator.instant - before.instant
    if -2 ^ 63 ≤ elapsed ∧ elapsed < 2 ^ 63 then some elapsed else none).filter (0 < ·)

def outOfRows (prepared : PreparedRowDetail) (rows : Nat) : QueryError :=
  .badLocator ("invalid detail_locator row_ordinal " ++ toString prepared.locator.rowOrdinal ++
    ": type_id " ++ toString prepared.locator.typeId ++ " has " ++ toString rows ++
    " rows in segment " ++ toString prepared.anchor.id)

/-- `execute`, up to the rendering of the fields. -/
def execute (registry : Registry) (prepared : PreparedRowDetail) :
    Except QueryError RowDetail :=
  let locator := prepared.locator
  let segment := prepared.anchorSegment
  match segment.rowsOf locator.typeId with
  | none => .error .badCursor
  | some rows =>
    match (registry.contract locator.typeId).filter fun _ =>
        registry.logicalSectionName locator.typeId = some locator.sectionName with
    | none => .error .badCursor
    | some contract =>
      match contract.timestamp with
      | none => .error .badCursor
      | some timestamp =>
        match validate registry locator.typeId locator.identity with
        | .error problem => .error (.badLocator problem)
        | .ok () =>
          if rows ≤ locator.rowOrdinal then .error (outOfRows prepared rows)
          else do
            let ordinal ← locateRow registry contract timestamp locator segment
            let row ← readRow segment contract ordinal
            let previous ← previousReadings registry timestamp prepared contract
            return {
              ordinal := ordinal, row := row, previous := previous
              elapsed := elapsedSince locator previous
              before := (previous.filter fun reading => !changedProcess contract row reading).map
                (·.values) }

/-! ## The rows of a locator -/

section Rows

variable {registry : Registry} {contract : TypeContract} {timestamp : String}
  {locator : DetailLocator} {segment : Segment}

def rowTime (registry : Registry) (typeId : Nat) (row : Row) : Option Int :=
  ((registry.contract typeId).bind (·.timestamp)).bind (rowTimestamp row)

def sameIdentity (registry : Registry) (locator : DetailLocator) (row : Row) : Bool :=
  (identity registry locator.typeId row).toOption = some locator.identity

def matchesLocator (registry : Registry) (locator : DetailLocator) (item : Nat × Row) : Bool :=
  rowTime registry locator.typeId item.2 = some locator.instant &&
    sameIdentity registry locator item.2

def isEventStream (registry : Registry) (typeId : Nat) : Bool :=
  (registry.contract typeId).any (·.semantics = .eventStream)

def matching (registry : Registry) (locator : DetailLocator) (items : List (Nat × Row)) :
    List Nat :=
  (items.filter (matchesLocator registry locator)).map Prod.fst

theorem rowTime_eq (hcontract : registry.contract locator.typeId = some contract)
    (htimestamp : contract.timestamp = some timestamp) (row : Row) :
    rowTime registry locator.typeId row = rowTimestamp row timestamp := by
  rw [rowTime, hcontract, Option.bind_some, htimestamp, Option.bind_some]

def Identified (registry : Registry) (locator : DetailLocator) (items : List (Nat × Row)) : Prop :=
  ∀ item ∈ items, ∃ stored, identity registry locator.typeId item.2 = .ok stored

theorem matching_cons_of_not {item : Nat × Row} {items : List (Nat × Row)}
    (h : matchesLocator registry locator item = false) :
    matching registry locator (item :: items) = matching registry locator items := by
  rw [matching, matching, List.filter_cons, if_neg (Bool.eq_false_iff.mp h)]

theorem matching_cons {item : Nat × Row} {items : List (Nat × Row)}
    (h : matchesLocator registry locator item = true) :
    matching registry locator (item :: items) =
      item.1 :: matching registry locator items := by
  rw [matching, matching, List.filter_cons, if_pos h, List.map_cons]

theorem hint_cons {hint ordinal : Nat} {ordinals : List Nat} {found : Option Nat} :
    (if hint ∈ ordinals then some hint else if ordinal = hint then some ordinal else found) =
      if hint ∈ ordinal :: ordinals then some hint else found := by
  by_cases hmem : hint ∈ ordinals
  · rw [if_pos hmem, if_pos (List.mem_cons_of_mem ordinal hmem)]
  · rw [if_neg hmem]
    by_cases heq : ordinal = hint
    · rw [if_pos heq, heq, if_pos List.mem_cons_self]
    · have hcons : hint ∉ ordinal :: ordinals := by
        rw [List.mem_cons, not_or]
        exact ⟨fun h => heq h.symm, hmem⟩
      rw [if_neg heq, if_neg hcons]

theorem locateRows_eq (hcontract : registry.contract locator.typeId = some contract)
    (htimestamp : contract.timestamp = some timestamp) {items : List (Nat × Row)}
    (hitems : Identified registry locator items) (found : Located) :
    locateRows registry contract timestamp locator items found =
      if contract.semantics = .eventStream ∨
          (found.resolved.toList ++ matching registry locator items).length ≤ 1 then
        .ok ⟨found.resolved.or (matching registry locator items).head?,
          if locator.rowOrdinal ∈ matching registry locator items then some locator.rowOrdinal
          else found.hinted⟩
      else .error (notUnique locator) := by
  induction items generalizing found with
  | nil =>
    have hlength : (found.resolved.toList ++ matching registry locator []).length ≤ 1 := by
      cases found.resolved
      · exact Nat.zero_le 1
      · exact Nat.le_refl 1
    rw [locateRows, if_pos (Or.inr hlength), matching, List.filter_nil, List.map_nil,
      List.head?_nil, Option.or_none, if_neg List.not_mem_nil]
  | cons item items ih =>
    obtain ⟨ordinal, row⟩ := item
    obtain ⟨⟨stored, hstored⟩, hrest⟩ := List.forall_mem_cons.mp hitems
    have hidentity : sameIdentity registry locator row = decide (stored = locator.identity) := by
      rw [sameIdentity, hstored]
      exact decide_eq_decide.mpr Option.some_inj
    have hmatches : matchesLocator registry locator (ordinal, row) =
        (decide (rowTimestamp row timestamp = some locator.instant) &&
          decide (stored = locator.identity)) := by
      rw [matchesLocator, rowTime_eq hcontract htimestamp, hidentity]
    rw [locateRows]
    by_cases htime : rowTimestamp row timestamp = some locator.instant
    · rw [if_neg (not_not.mpr htime)]
      rw [hstored]
      dsimp only
      by_cases hsame : stored = locator.identity
      · have hyes : matchesLocator registry locator (ordinal, row) = true := by
          rw [hmatches, decide_eq_true htime, decide_eq_true hsame]
          rfl
        rw [if_pos hsame, matching_cons hyes]
        cases hresolved : found.resolved with
        | none =>
          rw [ih hrest, hint_cons]
          rfl
        | some first =>
          rw [Option.isNone_some, if_neg Bool.false_ne_true]
          by_cases hevent : contract.semantics = .eventStream
          · rw [if_pos hevent, if_pos (Or.inl hevent), ih hrest, if_pos (Or.inl hevent), hint_cons]
            rfl
          · have hlength : ¬((some first).toList ++
                ordinal :: matching registry locator items).length ≤ 1 := by
              rw [Option.toList_some, List.length_append, List.length_singleton, List.length_cons]
              omega
            rw [if_neg hevent, if_neg (not_or.mpr ⟨hevent, hlength⟩)]
      · have hno : matchesLocator registry locator (ordinal, row) = false := by
          rw [hmatches, decide_eq_false hsame, Bool.and_false]
        rw [if_neg hsame, matching_cons_of_not hno]
        exact ih hrest found
    · have hno : matchesLocator registry locator (ordinal, row) = false := by
        rw [hmatches, decide_eq_false htime, Bool.false_and]
      rw [if_pos htime, matching_cons_of_not hno]
      exact ih hrest found

/-- A locator has one row, or any number of them where the rows are events. -/
def Resolvable (registry : Registry) (locator : DetailLocator) (ordinals : List Nat) : Prop :=
  ordinals ≠ [] ∧ (isEventStream registry locator.typeId = true ∨ ordinals.length = 1)

def chosen (locator : DetailLocator) (ordinals : List Nat) : Option Nat :=
  if locator.rowOrdinal ∈ ordinals then some locator.rowOrdinal else ordinals.head?

theorem isEventStream_eq (hcontract : registry.contract locator.typeId = some contract) :
    isEventStream registry locator.typeId = true ↔ contract.semantics = .eventStream := by
  rw [isEventStream, hcontract, Option.any_some, decide_eq_true_eq]

theorem locateRow_eq_ok (hcontract : registry.contract locator.typeId = some contract)
    (htimestamp : contract.timestamp = some timestamp)
    (hitems : Identified registry locator (allRows segment locator.typeId)) {ordinal : Nat} :
    locateRow registry contract timestamp locator segment = .ok ordinal ↔
      Resolvable registry locator (matching registry locator (allRows segment locator.typeId)) ∧
        chosen locator (matching registry locator (allRows segment locator.typeId)) =
          some ordinal := by
  rw [locateRow, locateRows_eq hcontract htimestamp hitems, Resolvable, chosen,
    isEventStream_eq hcontract, Option.toList_none, List.nil_append, Option.none_or]
  generalize matching registry locator (allRows segment locator.typeId) = ordinals
  by_cases hbound : contract.semantics = .eventStream ∨ ordinals.length ≤ 1
  · rw [if_pos hbound]
    dsimp only
    have hchosen : (if locator.rowOrdinal ∈ ordinals then some locator.rowOrdinal else none).or
        ordinals.head? =
          if locator.rowOrdinal ∈ ordinals then some locator.rowOrdinal else ordinals.head? := by
      split_ifs
      · rfl
      · rfl
    rw [hchosen]
    cases ordinals with
    | nil =>
      constructor
      · intro h
        cases h
      · intro h
        exact absurd rfl h.1.1
    | cons first rest =>
      have hone : contract.semantics = .eventStream ∨ (first :: rest).length = 1 := by
        rcases hbound with hevent | hlength
        · exact Or.inl hevent
        · rw [List.length_cons] at hlength ⊢
          exact Or.inr (by omega)
      have hsome : ∃ found, (if locator.rowOrdinal ∈ first :: rest then some locator.rowOrdinal
          else (first :: rest).head?) = some found := by
        split_ifs
        · exact ⟨_, rfl⟩
        · exact ⟨first, rfl⟩
      obtain ⟨found, hfound⟩ := hsome
      rw [hfound]
      constructor
      · intro h
        exact ⟨⟨List.cons_ne_nil _ _, hone⟩, congrArg some (Except.ok.inj h)⟩
      · intro h
        exact congrArg Except.ok (Option.some.inj h.2)
  · rw [if_neg hbound]
    constructor
    · intro h
      cases h
    · intro h
      have hno := not_or.mp hbound
      rcases h.1.2 with hevent | hlength
      · exact absurd hevent hno.1
      · exact absurd (Nat.le_of_eq hlength) hno.2

end Rows

/-! ## Stored rows -/

section Stored

variable {registry : Registry} {contract : TypeContract} {locator : DetailLocator}
  {segment : Segment} {typeId ordinal : Nat} {row : Row}

theorem mem_allRows : (ordinal, row) ∈ allRows segment typeId ↔
    (segment.rows typeId)[ordinal]? = some row := by
  rw [allRows, Segment.visitRows, List.drop_zero, List.take_of_length_le (by simp), List.mem_map]
  constructor
  · intro h
    obtain ⟨⟨found, place⟩, hmem, heq⟩ := h
    obtain ⟨rfl, rfl⟩ := Prod.mk.inj heq
    exact List.mem_zipIdx_iff_getElem?.mp hmem
  · intro h
    exact ⟨(row, ordinal), List.mem_zipIdx_iff_getElem?.mpr h, rfl⟩

theorem readRow_eq (h : (segment.rows contract.typeId)[ordinal]? = some row) :
    readRow segment contract ordinal = .ok row := by
  have hhead : (segment.visitRows contract.typeId ordinal 1).head? = some (ordinal, row) := by
    rw [Segment.visitRows, List.head?_take, List.head?_drop, List.getElem?_map,
      List.getElem?_zipIdx, h]
    simp
  rw [readRow, hhead]

def Decoded (registry : Registry) (typeId : Nat) (segment : Segment) : Prop :=
  ∀ contract, registry.contract typeId = some contract → ∀ row ∈ segment.rows typeId,
    ∀ column ∈ contract.columns, (row.get column.name).isSome

theorem foldlM_identityEntry {names : List String} (h : ∀ name ∈ names, (row.get name).isSome)
    (entries : RowIdentity) :
    ∃ stored, names.foldlM (identityEntry typeId row) entries = .ok stored := by
  induction names generalizing entries with
  | nil => exact ⟨entries, rfl⟩
  | cons name names ih =>
    obtain ⟨hname, hrest⟩ := List.forall_mem_cons.mp h
    obtain ⟨cell, hcell⟩ := Option.isSome_iff_exists.mp hname
    rw [List.foldlM_cons, identityEntry, hcell]
    exact ih hrest _

theorem identified (hcontract : registry.contract locator.typeId = some contract)
    (h : Decoded registry locator.typeId segment) :
    Identified registry locator (allRows segment locator.typeId) := by
  intro item hitem
  have hrow : item.2 ∈ segment.rows locator.typeId :=
    List.mem_of_getElem? (mem_allRows.mp (Prod.eta item ▸ hitem))
  rw [identity, hcontract]
  apply foldlM_identityEntry
  intro name hname
  obtain ⟨column, hcolumn, rfl⟩ := List.mem_map.mp hname
  exact h contract hcontract item.2 hrow column (List.mem_filter.mp hcolumn).1

theorem mem_matching : ordinal ∈ matching registry locator (allRows segment typeId) ↔
    ∃ row, (segment.rows typeId)[ordinal]? = some row ∧
      matchesLocator registry locator (ordinal, row) = true := by
  rw [matching, List.mem_map]
  constructor
  · intro h
    obtain ⟨⟨place, row⟩, hmem, rfl⟩ := h
    obtain ⟨hrow, hmatches⟩ := List.mem_filter.mp hmem
    exact ⟨row, mem_allRows.mp hrow, hmatches⟩
  · intro h
    obtain ⟨row, hrow, hmatches⟩ := h
    exact ⟨(ordinal, row), List.mem_filter.mpr ⟨mem_allRows.mpr hrow, hmatches⟩, rfl⟩

theorem chosen_mem {ordinals : List Nat} (h : chosen locator ordinals = some ordinal) :
    ordinal ∈ ordinals := by
  rw [chosen] at h
  split_ifs at h with hmem
  · rw [← Option.some.inj h]
    exact hmem
  · exact List.mem_of_head? h

end Stored

/-! ## The reading before a row -/

section Reading

variable {registry : Registry} {contract : TypeContract} {timestamp : String}
  {locator : DetailLocator} {projection : List String} {prepared : PreparedRowDetail}
  {content : DatasetSegment → Segment}

/-- The readings of a segment before the locator's time. -/
def readings (registry : Registry) (locator : DetailLocator) (timestamp : String)
    (projection : List String) (segment : Segment) : List PreviousReadings :=
  (segment.rows locator.typeId).flatMap fun row =>
    (((rowTimestamp row timestamp).filter fun stored =>
      stored < locator.instant && sameIdentity registry locator row).map fun stored =>
        ⟨stored, projection.filterMap fun name =>
          (row.get name).map fun cell => (name, cell)⟩).toList

theorem visitPredecessor_eq (previous : Option PreviousReadings) (row : Row) :
    visitPredecessor registry locator timestamp projection previous row =
      ((((rowTimestamp row timestamp).filter fun stored =>
        stored < locator.instant && sameIdentity registry locator row).map fun stored =>
          (⟨stored, projection.filterMap fun name =>
            (row.get name).map fun cell => (name, cell)⟩ : PreviousReadings)).toList).foldl
        (Best.better (·.instant)) previous := by
  rw [visitPredecessor]
  cases rowTimestamp row timestamp with
  | none => rfl
  | some stored =>
    dsimp only
    rw [Option.filter_some]
    by_cases hbefore : locator.instant ≤ stored
    · rw [if_pos hbefore, decide_eq_false (not_lt.mpr hbefore)]
      rfl
    · rw [if_neg hbefore, decide_eq_true (not_le.mp hbefore), Bool.true_and, sameIdentity]
      by_cases hsame : (identity registry locator.typeId row).toOption = some locator.identity
      · rw [if_pos hsame, if_pos (decide_eq_true hsame)]
        show _ = Best.better (·.instant) previous _
        rw [Best.better]
        cases previous with
        | none => rfl
        | some found =>
          rw [Option.any_some, Option.all_some]
          by_cases hle : stored ≤ found.instant
          · rw [decide_eq_true hle, if_pos rfl, decide_eq_false (not_lt.mpr hle),
              if_neg Bool.false_ne_true]
          · rw [decide_eq_false hle, if_neg Bool.false_ne_true, decide_eq_true (not_le.mp hle),
              if_pos rfl]
      · rw [if_neg hsame, if_neg (by rw [decide_eq_true_eq]; exact hsame)]
        rfl

theorem scanPredecessor_eq (segment : Segment) (previous : Option PreviousReadings) :
    scanPredecessor registry locator timestamp projection segment previous =
      (readings registry locator timestamp projection segment).foldl (Best.better (·.instant))
        previous := by
  rw [scanPredecessor, readings]
  induction segment.rows locator.typeId generalizing previous with
  | nil => rfl
  | cons row rows ih =>
    rw [List.foldl_cons, ih, visitPredecessor_eq, List.flatMap_cons, List.foldl_append]

theorem searchPredecessors_best {remaining : List DatasetSegment}
    (hopens : ∀ segment ∈ remaining, segment.id ≠ prepared.anchor.id →
      prepared.openSegment segment = .ok (content segment))
    (hanchor : ∀ segment ∈ remaining, segment.id = prepared.anchor.id →
      content segment = prepared.anchorSegment)
    (hordered : remaining.Pairwise fun a b => laterFirst a b = true)
    (hbounds : ∀ segment ∈ remaining,
      ∀ reading ∈ readings registry locator timestamp projection (content segment),
        reading.instant ≤ segment.maxTs)
    {seen : List PreviousReadings} {previous : Option PreviousReadings}
    (h : IsBest (·.instant) seen previous) :
    ∃ found, searchPredecessors registry locator timestamp projection prepared remaining
        previous = .ok found ∧
      IsBest (·.instant) (seen ++ remaining.flatMap fun segment =>
        readings registry locator timestamp projection (content segment)) found := by
  induction remaining generalizing seen previous with
  | nil =>
    refine ⟨previous, rfl, ?_⟩
    rw [List.flatMap_nil, List.append_nil]
    exact h
  | cons descriptor remaining ih =>
    obtain ⟨hopen, hopens⟩ := List.forall_mem_cons.mp hopens
    obtain ⟨hself, hanchor⟩ := List.forall_mem_cons.mp hanchor
    obtain ⟨hfirst, hordered⟩ := List.pairwise_cons.mp hordered
    rw [searchPredecessors]
    by_cases hstop : previous.any (descriptor.maxTs < ·.instant) = true
    · -- No remaining segment reaches the reading that was found.
      rw [if_pos hstop]
      obtain ⟨chosen, hchosen, hlt⟩ := (Option.any_eq_true _ _).mp hstop
      rw [decide_eq_true_eq] at hlt
      refine ⟨previous, rfl, h.append_of_le hchosen fun reading hreading => ?_⟩
      obtain ⟨segment, hsegment, hmem⟩ := List.mem_flatMap.mp hreading
      have hbound := hbounds segment hsegment reading hmem
      have hle : segment.maxTs ≤ descriptor.maxTs := by
        rcases List.mem_cons.mp hsegment with rfl | hbehind
        · exact le_refl _
        · have hlater := laterFirst_iff.mp (hfirst segment hbehind)
          omega
      exact le_of_lt (lt_of_le_of_lt (le_trans hbound hle) hlt)
    · have hbest := h.foldl
        (readings registry locator timestamp projection (content descriptor))
      rw [← scanPredecessor_eq] at hbest
      have hrest : ∀ segment ∈ remaining,
          ∀ reading ∈ readings registry locator timestamp projection (content segment),
            reading.instant ≤ segment.maxTs := fun segment hsegment =>
        hbounds segment (List.mem_cons_of_mem descriptor hsegment)
      rw [if_neg hstop, List.flatMap_cons, ← List.append_assoc]
      by_cases hid : descriptor.id = prepared.anchor.id
      · rw [if_pos hid, ← hself hid]
        exact ih hopens hanchor hordered hrest hbest
      · rw [if_neg hid, hopen hid]
        exact ih hopens hanchor hordered hrest hbest

theorem predecessorCandidates_ordered (prepared : PreparedRowDetail) :
    (predecessorCandidates prepared).Pairwise fun a b => laterFirst a b = true := by
  apply List.pairwise_mergeSort
  · intro a b c hab hbc
    have h1 := laterFirst_iff.mp hab
    have h2 := laterFirst_iff.mp hbc
    exact laterFirst_iff.mpr (by omega)
  · intro a b
    have h : laterFirst a b = true ∨ laterFirst b a = true := by
      rw [laterFirst_iff, laterFirst_iff]
      omega
    exact Bool.or_eq_true_iff.mpr h

theorem mem_predecessorCandidates {segment : DatasetSegment} :
    segment ∈ predecessorCandidates prepared ↔
      (segment = prepared.anchor ∨
        segment ∈ prepared.otherSegments ∧ segment.id ≤ prepared.anchor.id) ∧
      segment.sections.any (·.typeId = prepared.locator.typeId) = true := by
  rw [predecessorCandidates, List.mem_mergeSort, List.mem_filter, List.mem_cons, List.mem_filter,
    decide_eq_true_eq]

def Earlier (prepared : PreparedRowDetail) (segment : DatasetSegment) : Prop :=
  segment = prepared.anchor ∨
    segment ∈ prepared.otherSegments ∧ segment.id < prepared.anchor.id

/-- The segments of a prepared request open, and their catalogs bound the rows of the layout and
list it. -/
structure DetailCaptured (registry : Registry) (prepared : PreparedRowDetail)
    (content : DatasetSegment → Segment) : Prop where
  anchor : content prepared.anchor = prepared.anchorSegment
  ids : ∀ segment ∈ prepared.otherSegments, segment.id ≠ prepared.anchor.id
  opens : ∀ segment ∈ prepared.otherSegments, prepared.openSegment segment = .ok (content segment)
  listed : ∀ segment ∈ prepared.anchor :: prepared.otherSegments,
    (content segment).rows prepared.locator.typeId ≠ [] →
      segment.sections.any (·.typeId = prepared.locator.typeId) = true
  bounds : ∀ segment ∈ prepared.anchor :: prepared.otherSegments,
    ∀ row ∈ (content segment).rows prepared.locator.typeId, ∀ ts,
      rowTime registry prepared.locator.typeId row = some ts → ts ≤ segment.maxTs
  decoded : Decoded registry prepared.locator.typeId prepared.anchorSegment

/-- A row of the locator's layout and identity before its time, in its segment or an earlier one,
and the cells that are kept of it. -/
def EarlierReading (registry : Registry) (prepared : PreparedRowDetail)
    (content : DatasetSegment → Segment) (columns : List String)
    (reading : PreviousReadings) : Prop :=
  ∃ segment, Earlier prepared segment ∧
    ∃ row ∈ (content segment).rows prepared.locator.typeId,
      rowTime registry prepared.locator.typeId row = some reading.instant ∧
        reading.instant < prepared.locator.instant ∧
          sameIdentity registry prepared.locator row = true ∧
            reading.values = columns.filterMap fun name =>
              (row.get name).map fun cell => (name, cell)

theorem mem_readings (hcontract : registry.contract locator.typeId = some contract)
    (htimestamp : contract.timestamp = some timestamp) {segment : Segment}
    {reading : PreviousReadings} :
    reading ∈ readings registry locator timestamp projection segment ↔
      ∃ row ∈ segment.rows locator.typeId,
        rowTime registry locator.typeId row = some reading.instant ∧
          reading.instant < locator.instant ∧ sameIdentity registry locator row = true ∧
            reading.values = projection.filterMap fun name =>
              (row.get name).map fun cell => (name, cell) := by
  rw [readings, List.mem_flatMap]
  constructor
  · intro h
    obtain ⟨row, hrow, hmem⟩ := h
    obtain ⟨stored, hstored, rfl⟩ := Option.map_eq_some_iff.mp (Option.mem_toList.mp hmem)
    obtain ⟨hts, hboth⟩ := Option.filter_eq_some_iff.mp hstored
    rw [Bool.and_eq_true, decide_eq_true_eq] at hboth
    refine ⟨row, hrow, ?_, hboth.1, hboth.2, rfl⟩
    rw [rowTime_eq hcontract htimestamp]
    exact hts
  · intro h
    obtain ⟨row, hrow, hts, hlt, hsame, hvalues⟩ := h
    rw [rowTime_eq hcontract htimestamp] at hts
    refine ⟨row, hrow, Option.mem_toList.mpr (Option.map_eq_some_iff.mpr
      ⟨reading.instant, Option.filter_eq_some_iff.mpr ⟨hts, ?_⟩, ?_⟩)⟩
    · rw [Bool.and_eq_true, decide_eq_true_eq]
      exact ⟨hlt, hsame⟩
    · rw [← hvalues]

theorem mem_candidateReadings (h : DetailCaptured registry prepared content)
    (hcontract : registry.contract prepared.locator.typeId = some contract)
    (htimestamp : contract.timestamp = some timestamp) {reading : PreviousReadings} :
    (reading ∈ (predecessorCandidates prepared).flatMap fun segment =>
        readings registry prepared.locator timestamp projection (content segment)) ↔
      EarlierReading registry prepared content projection reading := by
  rw [List.mem_flatMap]
  constructor
  · intro hmem
    obtain ⟨segment, hcandidate, hreading⟩ := hmem
    obtain ⟨hsegment, _⟩ := mem_predecessorCandidates.mp hcandidate
    refine ⟨segment, ?_, (mem_readings hcontract htimestamp).mp hreading⟩
    rcases hsegment with rfl | ⟨hother, hle⟩
    · exact Or.inl rfl
    · have hne := h.ids segment hother
      exact Or.inr ⟨hother, by omega⟩
  · intro hearlier
    obtain ⟨segment, hsegment, hrow⟩ := hearlier
    have hmem : segment ∈ prepared.anchor :: prepared.otherSegments := by
      rcases hsegment with rfl | ⟨hother, _⟩
      · exact List.mem_cons_self
      · exact List.mem_cons_of_mem _ hother
    refine ⟨segment, mem_predecessorCandidates.mpr ⟨?_, ?_⟩,
      (mem_readings hcontract htimestamp).mpr hrow⟩
    · exact hsegment.imp_right fun hother => ⟨hother.1, by omega⟩
    · obtain ⟨row, hrow, _⟩ := hrow
      exact h.listed segment hmem (List.ne_nil_of_mem hrow)

/-- The reading that is found is the last one before the locator's time. -/
structure IsPrevious (registry : Registry) (prepared : PreparedRowDetail)
    (content : DatasetSegment → Segment) (columns : List String)
    (previous : Option PreviousReadings) : Prop where
  none_iff : previous = none ↔
    ∀ reading, ¬EarlierReading registry prepared content columns reading
  last : ∀ reading, previous = some reading →
    EarlierReading registry prepared content columns reading ∧
      ∀ other, EarlierReading registry prepared content columns other →
        other.instant ≤ reading.instant

theorem previousReadings_ok (h : DetailCaptured registry prepared content)
    (hcontract : registry.contract prepared.locator.typeId = some contract)
    (htimestamp : contract.timestamp = some timestamp) :
    ∃ previous, previousReadings registry timestamp prepared contract = .ok previous ∧
      (hasCumulative contract = true →
        IsPrevious registry prepared content (readingColumns contract timestamp) previous) := by
  rw [previousReadings]
  by_cases hcumulative : hasCumulative contract = true
  · rw [if_pos hcumulative]
    have hmem : ∀ segment ∈ predecessorCandidates prepared,
        segment ∈ prepared.anchor :: prepared.otherSegments := by
      intro segment hcandidate
      rcases (mem_predecessorCandidates.mp hcandidate).1 with rfl | ⟨hother, _⟩
      · exact List.mem_cons_self
      · exact List.mem_cons_of_mem _ hother
    have hopens : ∀ segment ∈ predecessorCandidates prepared,
        segment.id ≠ prepared.anchor.id →
          prepared.openSegment segment = .ok (content segment) := by
      intro segment hcandidate hne
      rcases List.mem_cons.mp (hmem segment hcandidate) with rfl | hother
      · exact absurd rfl hne
      · exact h.opens segment hother
    have hanchor : ∀ segment ∈ predecessorCandidates prepared,
        segment.id = prepared.anchor.id → content segment = prepared.anchorSegment := by
      intro segment hcandidate hid
      rcases List.mem_cons.mp (hmem segment hcandidate) with rfl | hother
      · exact h.anchor
      · exact absurd hid (h.ids segment hother)
    have hbounds : ∀ segment ∈ predecessorCandidates prepared,
        ∀ reading ∈ readings registry prepared.locator timestamp
          (readingColumns contract timestamp) (content segment),
          reading.instant ≤ segment.maxTs := by
      intro segment hcandidate reading hreading
      obtain ⟨row, hrow, hts, _⟩ := (mem_readings hcontract htimestamp).mp hreading
      exact h.bounds segment (hmem segment hcandidate) row hrow reading.instant hts
    have hstart : IsBest (fun reading : PreviousReadings => reading.instant) [] none := isBest_nil
    obtain ⟨previous, hprevious, hbest⟩ := searchPredecessors_best hopens hanchor
      (predecessorCandidates_ordered prepared) hbounds hstart
    refine ⟨previous, hprevious, fun _ => ⟨?_, fun reading hreading => ⟨?_, ?_⟩⟩⟩
    · rw [hbest.eq_none_iff, List.eq_nil_iff_forall_not_mem]
      exact forall_congr' fun reading => not_congr (mem_candidateReadings h hcontract htimestamp)
    · exact (mem_candidateReadings h hcontract htimestamp).mp (hbest.mem reading hreading)
    · intro other hother
      exact hbest.le_of_eq_some hreading other
        ((mem_candidateReadings h hcontract htimestamp).mpr hother)
  · rw [if_neg hcumulative]
    exact ⟨none, rfl, fun hyes => absurd hyes hcumulative⟩

end Reading

/-! ## Requests -/

section Requests

variable {registry : Registry} {prepared : PreparedRowDetail}
  {content : DatasetSegment → Segment}

/-- What is checked of a locator when it is read. -/
structure Validated (registry : Registry) (locator : DetailLocator) : Prop where
  named : registry.logicalSectionName locator.typeId = some locator.sectionName
  valid : validate registry locator.typeId locator.identity = .ok ()

def requested (registry : Registry) (prepared : PreparedRowDetail) : List Nat :=
  matching registry prepared.locator (allRows prepared.anchorSegment prepared.locator.typeId)

/-- The row, the reading before it, and what the rates use of it. -/
structure Answers (registry : Registry) (prepared : PreparedRowDetail)
    (content : DatasetSegment → Segment) (detail : RowDetail) : Prop where
  chosen : chosen prepared.locator (requested registry prepared) = some detail.ordinal
  row : (prepared.anchorSegment.rows prepared.locator.typeId)[detail.ordinal]? = some detail.row
  previous : ∀ contract timestamp,
    registry.contract prepared.locator.typeId = some contract →
    contract.timestamp = some timestamp → hasCumulative contract = true →
    IsPrevious registry prepared content (readingColumns contract timestamp) detail.previous
  before : ∀ contract, registry.contract prepared.locator.typeId = some contract →
    ∀ values, detail.before = some values ↔ ∃ reading, detail.previous = some reading ∧
      changedProcess contract detail.row reading = false ∧ reading.values = values

theorem contract_of_validated {locator : DetailLocator} (h : Validated registry locator) :
    ∃ contract, registry.contract locator.typeId = some contract := by
  have hvalid := h.valid
  rw [validate] at hvalid
  cases hcontract : registry.contract locator.typeId with
  | none =>
    rw [hcontract] at hvalid
    cases hvalid
  | some contract => exact ⟨contract, rfl⟩

theorem typeId_of_contract {typeId : Nat} {contract : TypeContract}
    (h : registry.contract typeId = some contract) : contract.typeId = typeId := by
  have hfound := List.find?_some h
  exact of_decide_eq_true hfound

theorem rows_of_requested (h : requested registry prepared ≠ []) :
    prepared.anchorSegment.rowsOf prepared.locator.typeId =
      some (prepared.anchorSegment.rows prepared.locator.typeId).length := by
  obtain ⟨ordinal, hordinal⟩ := List.exists_mem_of_ne_nil _ h
  obtain ⟨row, hrow, _⟩ := mem_matching.mp hordinal
  rw [Segment.rowsOf]
  rw [Segment.rows] at hrow ⊢
  cases hlookup : prepared.anchorSegment.layouts.lookup prepared.locator.typeId with
  | none =>
    rw [hlookup] at hrow
    cases hrow
  | some rows => rfl

theorem rowsOf_eq {rows : Nat}
    (h : prepared.anchorSegment.rowsOf prepared.locator.typeId = some rows) :
    (prepared.anchorSegment.rows prepared.locator.typeId).length = rows := by
  obtain ⟨found, hfound, hlength⟩ := Option.map_eq_some_iff.mp h
  rw [Segment.rows, hfound]
  exact hlength

theorem timed_of_requested (h : requested registry prepared ≠ []) :
    ∃ contract timestamp, registry.contract prepared.locator.typeId = some contract ∧
      contract.timestamp = some timestamp := by
  obtain ⟨ordinal, hordinal⟩ := List.exists_mem_of_ne_nil _ h
  obtain ⟨row, _, hmatches⟩ := mem_matching.mp hordinal
  have htime := of_decide_eq_true (Bool.and_eq_true_iff.mp hmatches).1
  obtain ⟨timestamp, htimestamp, _⟩ := Option.bind_eq_some_iff.mp htime
  obtain ⟨contract, hcontract, hcolumn⟩ := Option.bind_eq_some_iff.mp htimestamp
  exact ⟨contract, timestamp, hcontract, hcolumn⟩

theorem chosen_of_ne_nil (locator : DetailLocator) {ordinals : List Nat} (h : ordinals ≠ []) :
    ∃ ordinal, chosen locator ordinals = some ordinal := by
  rw [chosen]
  split_ifs
  · exact ⟨_, rfl⟩
  · exact ⟨_, List.head?_eq_some_head h⟩

theorem execute_located (hvalid : Validated registry prepared.locator)
    (h : DetailCaptured registry prepared content) {contract : TypeContract} {timestamp : String}
    (hcontract : registry.contract prepared.locator.typeId = some contract)
    (htimestamp : contract.timestamp = some timestamp) {ordinal : Nat}
    (hordinal : locateRow registry contract timestamp prepared.locator prepared.anchorSegment =
      .ok ordinal) (hlt : prepared.locator.rowOrdinal <
      (prepared.anchorSegment.rows prepared.locator.typeId).length) :
    ∃ detail, execute registry prepared = .ok detail ∧
      Answers registry prepared content detail := by
  obtain ⟨hresolvable, hchosen⟩ :=
    (locateRow_eq_ok hcontract htimestamp (identified hcontract h.decoded)).mp hordinal
  obtain ⟨row, hrow, _⟩ := mem_matching.mp (chosen_mem hchosen)
  have hread : readRow prepared.anchorSegment contract ordinal = .ok row := by
    apply readRow_eq
    rw [typeId_of_contract hcontract]
    exact hrow
  obtain ⟨previous, hprevious, hlast⟩ := previousReadings_ok h hcontract htimestamp
  refine ⟨⟨ordinal, row, previous, elapsedSince prepared.locator previous,
    (previous.filter fun reading => !changedProcess contract row reading).map (·.values)⟩, ?_, ?_⟩
  · rw [execute, rows_of_requested hresolvable.1, hcontract]
    rw [Option.filter_some, decide_eq_true hvalid.named, if_pos rfl]
    dsimp only
    rw [htimestamp]
    dsimp only
    rw [hvalid.valid]
    rw [if_neg (not_le.mpr hlt), hordinal]
    show (readRow prepared.anchorSegment contract ordinal >>= _) = _
    rw [hread]
    show (previousReadings registry timestamp prepared contract >>= _) = _
    rw [hprevious]
    rfl
  · exact {
      chosen := hchosen
      row := hrow
      previous := by
        intro other column hother hcolumn hcumulative
        rw [hcontract] at hother
        obtain rfl := Option.some.inj hother
        rw [htimestamp] at hcolumn
        obtain rfl := Option.some.inj hcolumn
        exact hlast hcumulative
      before := by
        intro other hother values
        rw [hcontract] at hother
        obtain rfl := Option.some.inj hother
        rw [Option.map_eq_some_iff]
        constructor
        · intro hvalues
          obtain ⟨reading, hreading, hvalue⟩ := hvalues
          obtain ⟨hfound, hsame⟩ := Option.filter_eq_some_iff.mp hreading
          exact ⟨reading, hfound, by simpa using hsame, hvalue⟩
        · intro hreading
          obtain ⟨reading, hfound, hsame, hvalue⟩ := hreading
          exact ⟨reading, Option.filter_eq_some_iff.mpr ⟨hfound, by rw [hsame]; rfl⟩, hvalue⟩ }

theorem located_of_execute (hvalid : Validated registry prepared.locator)
    {detail : RowDetail} (hok : execute registry prepared = .ok detail) :
    ∃ contract timestamp ordinal, registry.contract prepared.locator.typeId = some contract ∧
      contract.timestamp = some timestamp ∧
      prepared.locator.rowOrdinal < (prepared.anchorSegment.rows prepared.locator.typeId).length ∧
      locateRow registry contract timestamp prepared.locator prepared.anchorSegment =
        .ok ordinal := by
  obtain ⟨contract, hcontract⟩ := contract_of_validated hvalid
  rw [execute] at hok
  cases hrows : prepared.anchorSegment.rowsOf prepared.locator.typeId with
  | none =>
    rw [hrows] at hok
    cases hok
  | some rows =>
    rw [hrows, hcontract] at hok
    rw [Option.filter_some, decide_eq_true hvalid.named, if_pos rfl] at hok
    dsimp only at hok
    split at hok
    · cases hok
    · next timestamp htimestamp =>
      rw [hvalid.valid] at hok
      by_cases hlt : rows ≤ prepared.locator.rowOrdinal
      · rw [if_pos hlt] at hok
        cases hok
      · rw [if_neg hlt] at hok
        cases hordinal : locateRow registry contract timestamp prepared.locator
            prepared.anchorSegment with
        | error problem =>
          rw [hordinal] at hok
          cases hok
        | ok ordinal =>
          refine ⟨contract, timestamp, ordinal, hcontract, htimestamp, ?_, hordinal⟩
          rw [rowsOf_eq hrows]
          exact not_le.mp hlt

/-- A request answers when its hint is within the rows of its layout and its locator resolves,
and then with the chosen row and the last reading before it. -/
theorem execute_resolves (hvalid : Validated registry prepared.locator)
    (h : DetailCaptured registry prepared content) :
    ((∃ detail, execute registry prepared = .ok detail) ↔
      prepared.locator.rowOrdinal <
          (prepared.anchorSegment.rows prepared.locator.typeId).length ∧
        Resolvable registry prepared.locator (requested registry prepared)) ∧
      ∀ detail, execute registry prepared = .ok detail →
        Answers registry prepared content detail := by
  refine ⟨⟨fun hok => ?_, fun hresolves => ?_⟩, fun detail hok => ?_⟩
  · obtain ⟨detail, hok⟩ := hok
    obtain ⟨contract, timestamp, ordinal, hcontract, htimestamp, hlt, hordinal⟩ :=
      located_of_execute hvalid hok
    exact ⟨hlt,
      ((locateRow_eq_ok hcontract htimestamp (identified hcontract h.decoded)).mp hordinal).1⟩
  · obtain ⟨hlt, hresolvable⟩ := hresolves
    obtain ⟨contract, timestamp, hcontract, htimestamp⟩ := timed_of_requested hresolvable.1
    obtain ⟨ordinal, hchosen⟩ := chosen_of_ne_nil prepared.locator hresolvable.1
    have hordinal := (locateRow_eq_ok hcontract htimestamp (identified hcontract h.decoded)).mpr
      ⟨hresolvable, hchosen⟩
    obtain ⟨detail, hok, _⟩ := execute_located hvalid h hcontract htimestamp hordinal hlt
    exact ⟨detail, hok⟩
  · obtain ⟨contract, timestamp, ordinal, hcontract, htimestamp, hlt, hordinal⟩ :=
      located_of_execute hvalid hok
    obtain ⟨found, hfound, hanswers⟩ :=
      execute_located hvalid h hcontract htimestamp hordinal hlt
    rw [hok] at hfound
    rw [Except.ok.inj hfound]
    exact hanswers

/-- The statements of one database, with their calls. -/
def statementCalls : TypeContract where
  typeId := 1
  semantics := .snapshotFull
  columns := [⟨"ts", .ts, .timestamp⟩, ⟨"datname", .strId, .label⟩, ⟨"calls", .u64, .cumulative⟩]
  identity := ["datname"]

def callsRegistry : Registry where
  contracts := [statementCalls]
  logicalSectionName _ := some "statement_calls"

def callsRow (ts : Int) (calls : Nat) : Row where
  cells := [("ts", .ts ts), ("datname", .strId 4), ("calls", .u64 calls)]

def callsSegment : Segment where
  id := 3
  kind := .finished
  maxTs := 20
  activePosition := none
  layouts := [(1, [callsRow 10 100, callsRow 20 120])]
  dictionary _ := none

/-- The second row, asked with a hint. -/
def callsDetail (hint : Nat) : PreparedRowDetail where
  locator := ⟨"statement_calls", 3, 20, 1, hint, [("datname", .text "4")]⟩
  anchor := ⟨3, .finished, 10, 20, none, [⟨1, 2, 96⟩]⟩
  anchorSegment := callsSegment
  otherSegments := []
  openSegment _ := .ok callsSegment

theorem callsDetail_validated (hint : Nat) :
    Validated callsRegistry (callsDetail hint).locator where
  named := rfl
  valid := rfl

theorem callsDetail_captured (hint : Nat) :
    DetailCaptured callsRegistry (callsDetail hint) fun _ => callsSegment where
  anchor := rfl
  ids segment hsegment := absurd hsegment List.not_mem_nil
  opens segment hsegment := absurd hsegment List.not_mem_nil
  listed segment hsegment _ := by
    rw [List.mem_singleton.mp hsegment]
    rfl
  bounds segment hsegment row hrow ts hts := by
    rw [List.mem_singleton.mp hsegment]
    rcases List.mem_pair.mp hrow with rfl | rfl
    · rw [← Option.some.inj hts]
      show (10 : Int) ≤ 20
      omega
    · rw [← Option.some.inj hts]
      exact le_refl (20 : Int)
  decoded contract hcontract row hrow column hcolumn := by
    obtain rfl := Option.some.inj hcontract
    rcases List.mem_pair.mp hrow with rfl | rfl
    · revert column
      decide
    · revert column
      decide

/-- Two other segments, one of which lasts beyond the anchor. -/
def overlappingContent (segment : DatasetSegment) : Segment :=
  if segment.id = 3 then callsSegment
  else
    { callsSegment with
      id := segment.id
      maxTs := segment.maxTs
      layouts := [(1, if segment.id = 1 then [callsRow 15 111, callsRow 25 130]
        else [callsRow 5 50, callsRow 12 104])] }

def overlappingDetail : PreparedRowDetail :=
  { callsDetail 0 with
    otherSegments := [⟨1, .finished, 15, 25, none, [⟨1, 2, 96⟩]⟩,
      ⟨2, .finished, 5, 12, none, [⟨1, 2, 96⟩]⟩]
    openSegment := fun segment => .ok (overlappingContent segment) }

theorem overlappingDetail_captured :
    DetailCaptured callsRegistry overlappingDetail overlappingContent where
  anchor := rfl
  ids := by decide
  opens _ _ := rfl
  listed := by decide
  bounds segment hsegment row hrow ts hts := by
    have htimes : ∀ segment ∈ overlappingDetail.anchor :: overlappingDetail.otherSegments,
        ∀ row ∈ (overlappingContent segment).rows 1,
          ∀ ts ∈ rowTime callsRegistry 1 row, ts ≤ segment.maxTs := by decide +kernel
    exact htimes segment hsegment row hrow ts hts
  decoded := (callsDetail_captured 0).decoded

/-- The reading before it is at 15, in the segment that ends after it. -/
theorem execute_resolves_sample : ∃ detail, execute callsRegistry overlappingDetail = .ok detail ∧
    Answers callsRegistry overlappingDetail overlappingContent detail ∧
      ∃ reading, detail.previous = some reading ∧ reading.instant = 15 := by
  have hvalid : Validated callsRegistry overlappingDetail.locator := callsDetail_validated 0
  obtain ⟨hresolves, hanswers⟩ := execute_resolves hvalid overlappingDetail_captured
  obtain ⟨detail, hok⟩ := hresolves.mpr ⟨Nat.two_pos, by decide +kernel, Or.inr (by decide +kernel)⟩
  have hanswer := hanswers detail hok
  refine ⟨detail, hok, hanswer, ?_⟩
  have hprevious := hanswer.previous statementCalls "ts" rfl rfl rfl
  have hearlier : EarlierReading callsRegistry overlappingDetail overlappingContent
      (readingColumns statementCalls "ts") ⟨15, _⟩ :=
    ⟨_, .inr ⟨List.mem_cons_self, by decide⟩, callsRow 15 111, List.mem_cons_self, rfl, by decide,
      by decide +kernel, rfl⟩
  cases hreading : detail.previous with
  | none => exact absurd hearlier (hprevious.none_iff.mp hreading _)
  | some reading =>
    obtain ⟨⟨segment, hsegment, row, hrow, hts, hlt, -⟩, hlast⟩ := hprevious.last reading hreading
    have htimes : ∀ segment ∈ overlappingDetail.anchor :: overlappingDetail.otherSegments,
        ∀ row ∈ (overlappingContent segment).rows 1,
          ∀ ts ∈ rowTime callsRegistry 1 row, ts < 20 → ts ≤ 15 := by decide +kernel
    have hmem : segment ∈ overlappingDetail.anchor :: overlappingDetail.otherSegments :=
      List.mem_cons.mpr (hsegment.imp_right And.left)
    exact ⟨reading, rfl, Int.le_antisymm (htimes segment hmem row hrow _ hts hlt)
      (hlast _ hearlier)⟩

/-- The one row of a locator is not found by a hint that no row has. -/
theorem execute_out_of_rows :
    Validated callsRegistry (callsDetail 2).locator ∧
      DetailCaptured callsRegistry (callsDetail 2) (fun _ => callsSegment) ∧
      Resolvable callsRegistry (callsDetail 2).locator (requested callsRegistry (callsDetail 2)) ∧
      ¬∃ detail, execute callsRegistry (callsDetail 2) = .ok detail := by
  refine ⟨callsDetail_validated 2, callsDetail_captured 2,
    ⟨by decide +kernel, Or.inr (by decide +kernel)⟩, fun hok => ?_⟩
  obtain ⟨detail, hok⟩ := hok
  obtain ⟨_, _, _, _, _, hlt, _⟩ := located_of_execute (callsDetail_validated 2) hok
  exact absurd hlt (Nat.lt_irrefl 2)

end Requests

end Detail
end Kronika.Query
