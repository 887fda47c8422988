/-
A page is filled with the findings of the scan from its cursor on: the matching rows, each
with the cursor of a page that would begin there.
-/
import Kronika.Query.CursorText

namespace Kronika.Query

open Library

/-! ## Rows and what a scan sees of them -/

def Segment.numbered (segment : Segment) (typeId : Nat) : List (Nat × Row) :=
  (segment.rows typeId).zipIdx.map fun (row, ordinal) => (ordinal, row)

theorem length_numbered (segment : Segment) (typeId : Nat) :
    (segment.numbered typeId).length = (segment.rows typeId).length := by
  rw [Segment.numbered, List.length_map, List.length_zipIdx]

theorem ordinal_numbered {segment : Segment} {typeId i : Nat} {item : Nat × Row}
    (h : (segment.numbered typeId)[i]? = some item) : item.1 = i := by
  rw [Segment.numbered, List.getElem?_map, List.getElem?_zipIdx, Option.map_map] at h
  obtain ⟨row, _, rfl⟩ := Option.map_eq_some_iff.mp h
  show 0 + i = i
  omega

theorem lookup_filter {β : Type} {names : List String} {name : String} (h : name ∈ names)
    (cells : List (String × β)) :
    (cells.filter fun cell => cell.1 ∈ names).lookup name = cells.lookup name := by
  induction cells with
  | nil => rfl
  | cons cell cells ih =>
    by_cases hname : name = cell.1
    · subst hname
      rw [List.filter_cons, if_pos (decide_eq_true h), List.lookup_cons, List.lookup_cons, BEq.refl]
    · have hne : (name == cell.1) = false := beq_false_of_ne hname
      rw [List.lookup_cons, hne]
      by_cases hmem : cell.1 ∈ names
      · rw [List.filter_cons, if_pos (decide_eq_true hmem), List.lookup_cons, hne]
        exact ih
      · rw [List.filter_cons, if_neg (by simpa using hmem)]
        exact ih

variable {columns : List String}

theorem get_project {column : String} (h : column ∈ columns) (row : Row) :
    (row.project columns).get column = row.get column := lookup_filter h row.cells

theorem mem_of_lookup {β : Type} {cells : List (String × β)} {name : String} {cell : β}
    (h : cells.lookup name = some cell) : (name, cell) ∈ cells := by
  induction cells with
  | nil => cases h
  | cons head cells ih =>
    rw [List.lookup_cons] at h
    by_cases hname : name = head.1
    · subst hname
      rw [BEq.refl] at h
      rw [← Option.some.inj h]
      exact List.mem_cons_self ..
    · rw [beq_false_of_ne hname] at h
      exact List.mem_cons_of_mem _ (ih h)

theorem mem_ids_of_get {row : Row} {column : String} {id : Nat}
    (h : row.get column = some (.strId id)) : id ∈ row.ids :=
  List.mem_filterMap.mpr ⟨(column, .strId id), mem_of_lookup h, rfl⟩

/-- A dictionary that resolves what the segment resolves in a row, and all of the row. -/
def ResolvesRow (segment : Segment) (dictionary : Dictionary) (row : Row) : Prop :=
  ∀ id ∈ row.ids, dictionary id = segment.dictionary id ∧ (segment.dictionary id).isSome

variable {segment : Segment} {dictionary : Dictionary} {plan : Plan} {row : Row}

theorem TypedFilter.accepts_project {filter : TypedFilter}
    (hmem : filter.column ∈ columns) (h : ResolvesRow segment dictionary (row.project columns)) :
    filter.accepts (row.project columns) dictionary = filter.accepts row segment.dictionary := by
  cases filter with
  | cell column wanted =>
    replace hmem : column ∈ columns := hmem
    rw [TypedFilter.accepts, TypedFilter.accepts, get_project hmem]
  | bytes column wanted =>
    replace hmem : column ∈ columns := hmem
    rw [TypedFilter.accepts, TypedFilter.accepts, get_project hmem]
    cases hget : row.get column with
    | none => rfl
    | some cell =>
      cases cell with
      | strId id =>
        have hid := mem_ids_of_get ((get_project hmem row).trans hget)
        dsimp only
        rw [(h id hid).1]
      | _ => rfl

theorem accepts_project (hsub : ∀ column ∈ plan.projection, column ∈ columns)
    (h : ResolvesRow segment dictionary (row.project columns)) :
    plan.accepts (row.project columns) dictionary = plan.accepts row segment.dictionary := by
  rw [Plan.accepts]
  congr 1
  rw [Bool.eq_iff_iff, List.all_eq_true, List.all_eq_true]
  have hfilter : ∀ filter ∈ plan.filters, filter.accepts (row.project columns) dictionary =
      filter.accepts row segment.dictionary := by
    intro filter hmem
    have hcolumn := List.mem_map_of_mem (f := TypedFilter.column) hmem
    exact TypedFilter.accepts_project (hsub _ (List.mem_append_right _ hcolumn)) h
  constructor
  · intro hall filter hmem
    rw [← hfilter filter hmem]
    exact hall filter hmem
  · intro hall filter hmem
    rw [hfilter filter hmem]
    exact hall filter hmem

/-! ## Records -/

/-- What a cell shows; an unresolved string, which no page shows, is null here. -/
def shownCell (dictionary : Dictionary) : Cell → Value
  | .null => .null
  | .strId id =>
    match dictionary id with
    | some found => .resolved found
    | none => .null
  | cell => .cell cell

def shownColumn (dictionary : Dictionary) (row : Row) (column : Option String) : Value :=
  match column.bind row.get with
  | none => .null
  | some cell => shownCell dictionary cell

def recordOf (segment : Segment) (plan : Plan) (item : Nat × Row) : RowRecord where
  typeId := plan.typeId
  ordinal := item.1
  values := plan.fields.map fun field => shownColumn segment.dictionary item.2 field.column

theorem columnValue_resolved (h : ResolvesRow segment dictionary row) (column : Option String) :
    columnValue dictionary row column = .ok (shownColumn segment.dictionary row column) := by
  rw [columnValue, shownColumn]
  cases column with
  | none => rfl
  | some name =>
    rw [Option.bind_some]
    cases hget : row.get name with
    | none => rfl
    | some cell =>
      cases cell with
      | strId id =>
        obtain ⟨heq, hsome⟩ := h id (mem_ids_of_get hget)
        obtain ⟨found, hfound⟩ := Option.isSome_iff_exists.mp hsome
        dsimp only
        rw [cellValue, shownCell, heq, hfound]
      | _ => rfl

theorem shownColumn_project {column : Option String}
    (hmem : ∀ name ∈ column, name ∈ columns) (row : Row) :
    shownColumn dictionary (row.project columns) column = shownColumn dictionary row column := by
  rw [shownColumn, shownColumn]
  cases column with
  | none => rfl
  | some name => rw [Option.bind_some, Option.bind_some, get_project (hmem name rfl)]

theorem columnValue_project {column : Option String} (hmem : ∀ name ∈ column, name ∈ columns)
    (h : ResolvesRow segment dictionary (row.project columns)) :
    columnValue dictionary (row.project columns) column =
      .ok (shownColumn segment.dictionary row column) := by
  rw [columnValue_resolved h, shownColumn_project hmem]

theorem mapM_ok {α β ε : Type} {f : α → Except ε β} {g : α → β} {as : List α}
    (h : ∀ a ∈ as, f a = .ok (g a)) : as.mapM f = .ok (as.map g) := by
  rw [mapM_eq_ok, List.forall₂_map_right_iff, List.forall₂_same]
  exact h

theorem field_mem_projection {field : OutputField} (hmem : field ∈ plan.fields) :
    ∀ name ∈ field.column, name ∈ plan.projection :=
  fun _ hname => List.mem_append_left _ (List.mem_filterMap.mpr ⟨field, hmem, hname⟩)

theorem rowRecord_project (ordinal : Nat)
    (h : ResolvesRow segment dictionary (row.project plan.projection)) :
    rowRecord plan ordinal (row.project plan.projection) dictionary =
      .ok (recordOf segment plan (ordinal, row)) := by
  rw [rowRecord, mapM_ok fun field hmem => columnValue_project (field_mem_projection hmem) h]
  rfl

/-- The rows of a layout that match, from the start of the plan on. -/
def matchingItems (segment : Segment) (plan : Plan) : List (Nat × Row) :=
  ((segment.numbered plan.typeId).drop plan.startRow).filter fun item =>
    plan.accepts item.2 segment.dictionary

/-! ## Findings -/

namespace PreparedRows

variable (prepared : PreparedRows)

def seenBy (plan : Plan) (item : Nat × Row) : Nat × Row := (item.1, item.2.project plan.projection)

/-- The matching rows, each with the cursor of a page that begins there. -/
def findings (plan : Plan) (layoutIndex : Nat) (position : Nat → Nat) (rows : List (Nat × Row)) :
    List (RowRecord × Cursor) :=
  (rows.filter fun item => plan.accepts item.2 prepared.segment.dictionary).map fun item =>
    (recordOf prepared.segment plan item,
      { prepared.start with layoutIndex := layoutIndex, position := position item.1 })

variable {prepared} {layoutIndex : Nat} {position : Nat → Nat} {rows more : List (Nat × Row)}
  {page : RowPage} {calm : Prop}

theorem findings_append : prepared.findings plan layoutIndex position (rows ++ more) =
    prepared.findings plan layoutIndex position rows ++
      prepared.findings plan layoutIndex position more := by
  rw [findings, List.filter_append, List.map_append]
  rfl

def Resolves (segment : Segment) (plan : Plan) (rows : List (Nat × Row)) : Prop :=
  ∀ item ∈ rows, ∀ id ∈ (item.2.project plan.projection).ids, (segment.dictionary id).isSome

theorem emitRows_eq (hnext : page.next = none) (hroom : page.items.length ≤ prepared.pageSize)
    (h : ∀ item ∈ rows, ResolvesRow prepared.segment dictionary (item.2.project plan.projection)) :
    prepared.emitRows plan layoutIndex position dictionary (rows.map (seenBy plan)) page =
      .ok (page.fill prepared.pageSize (prepared.findings plan layoutIndex position rows)) := by
  induction rows generalizing page with
  | nil =>
    show Except.ok page = .ok (page.fill prepared.pageSize [])
    rw [Page.fill_nil hnext]
  | cons item rows ih =>
    have hitem := h item (List.mem_cons_self ..)
    have hrows : ∀ other ∈ rows,
        ResolvesRow prepared.segment dictionary (other.2.project plan.projection) :=
      fun other hmem => h other (List.mem_cons_of_mem _ hmem)
    rw [List.map_cons, seenBy, emitRows, accepts_project (fun _ h => h) hitem]
    by_cases haccepts : plan.accepts item.2 prepared.segment.dictionary = true
    · have hfound : prepared.findings plan layoutIndex position (item :: rows) =
          (recordOf prepared.segment plan item,
            { prepared.start with layoutIndex := layoutIndex, position := position item.1 }) ::
            prepared.findings plan layoutIndex position rows := by
        rw [findings, List.filter_cons, if_pos haccepts]
        rfl
      rw [haccepts, hfound, if_neg (by simp)]
      by_cases hfull : page.items.length = prepared.pageSize
      · rw [if_pos hfull, Page.fill_full hfull]
      · rw [if_neg hfull, rowRecord_project item.1 hitem, Page.fill_cons (by omega)]
        refine ih hnext ?_ hrows
        · rw [List.length_append, List.length_singleton]
          omega
    · have hfound : prepared.findings plan layoutIndex position (item :: rows) =
          prepared.findings plan layoutIndex position rows := by
        rw [findings, List.filter_cons, if_neg haccepts]
        rfl
      rw [Bool.not_eq_true] at haccepts
      rw [haccepts, hfound]
      exact ih hnext hroom hrows

theorem chunk_yields (hnext : page.next = none) (hroom : page.items.length ≤ prepared.pageSize)
    (hcalm : calm → Resolves prepared.segment plan rows) (hmore : ∀ item ∈ more, item ∈ rows) :
    Yields calm
      (chunkDictionary prepared.segment (rows.map (seenBy plan)) >>= fun dictionary =>
        prepared.emitRows plan layoutIndex position dictionary (more.map (seenBy plan)) page)
      (page.fill prepared.pageSize (prepared.findings plan layoutIndex position more)) := by
  have hids : ∀ item ∈ rows, ∀ id ∈ (item.2.project plan.projection).ids,
      id ∈ (rows.map (seenBy plan)).flatMap (·.2.ids) := by
    intro item hmem id hid
    exact List.mem_flatMap.mpr ⟨seenBy plan item, List.mem_map_of_mem hmem, hid⟩
  rw [chunkDictionary]
  cases hfind : ((rows.map (seenBy plan)).flatMap (·.2.ids)).find?
      fun id => (prepared.segment.dictionary id).isNone with
  | some id =>
    apply Yields.error
    intro hholds
    have hmem := List.mem_of_find?_eq_some hfind
    have hnone := List.find?_some hfind
    obtain ⟨_, hseen, hid⟩ := List.mem_flatMap.mp hmem
    obtain ⟨item, hitem, rfl⟩ := List.mem_map.mp hseen
    have hsome := hcalm hholds item hitem id hid
    rw [Option.isNone_iff_eq_none] at hnone
    rw [hnone] at hsome
    cases hsome
  | none =>
    show Yields calm (prepared.emitRows plan layoutIndex position
      (dictionaryForChunk prepared.segment (rows.map (seenBy plan))) (more.map (seenBy plan))
      page) _
    rw [emitRows_eq hnext hroom]
    · exact Yields.ok calm _
    · intro item hitem id hid
      have hchunk := hids item (hmore item hitem) id hid
      have hsome := List.find?_eq_none.mp hfind id hchunk
      rw [Option.isNone_iff_eq_none] at hsome
      exact ⟨if_pos hchunk, Option.isSome_iff_ne_none.mpr hsome⟩

theorem fill_room (page : RowPage) (found : List (RowRecord × Cursor))
    (hroom : page.items.length ≤ prepared.pageSize) :
    (page.fill prepared.pageSize found).items.length ≤ prepared.pageSize :=
  Page.length_fill_le hroom

/-! ## The ascending scan -/

theorem visitAsc_yields {chunk : List (Nat × Row)} (hnext : page.next = none)
    (hroom : page.items.length ≤ prepared.pageSize)
    (hcalm : calm → Resolves prepared.segment plan (chunk ++ rows)) :
    Yields calm
      (prepared.visitAsc plan layoutIndex (rows.map (seenBy plan)) (chunk.map (seenBy plan))
        page >>=
        fun (chunk, page) =>
          if page.next.isNone && !chunk.isEmpty then
            prepared.emitAscChunk plan layoutIndex chunk page
          else .ok page)
      (page.fill prepared.pageSize (prepared.findings plan layoutIndex id (chunk ++ rows))) := by
  induction rows generalizing chunk page with
  | nil =>
    rw [List.append_nil] at hcalm ⊢
    show Yields calm (if page.next.isNone && !(chunk.map (seenBy plan)).isEmpty then
      prepared.emitAscChunk plan layoutIndex (chunk.map (seenBy plan)) page else .ok page) _
    cases chunk with
    | nil =>
      rw [if_neg (by simp)]
      show Yields calm (.ok page) (page.fill prepared.pageSize [])
      rw [Page.fill_nil hnext]
      exact Yields.ok calm page
    | cons item chunk =>
      rw [hnext]
      exact chunk_yields hnext hroom hcalm fun _ hmem => hmem
  | cons row rows ih =>
    have hassoc : chunk ++ row :: rows = (chunk ++ [row]) ++ rows := by
      rw [List.append_assoc, List.singleton_append]
    have hseen : chunk.map (seenBy plan) ++ [seenBy plan row] =
        (chunk ++ [row]).map (seenBy plan) := by
      rw [List.map_append, List.map_singleton]
    rw [hassoc] at hcalm ⊢
    rw [List.map_cons, visitAsc, hseen]
    by_cases hshort : ((chunk ++ [row]).map (seenBy plan)).length < prepared.chunkRows
    · rw [if_pos hshort]
      exact ih hnext hroom hcalm
    · rw [if_neg hshort, bind_assoc]
      have hemit : Yields calm
          (prepared.emitAscChunk plan layoutIndex ((chunk ++ [row]).map (seenBy plan)) page)
          (page.fill prepared.pageSize (prepared.findings plan layoutIndex id (chunk ++ [row]))) :=
        chunk_yields hnext hroom
          (fun hholds item hmem => hcalm hholds item (List.mem_append_left _ hmem))
          fun _ hmem => hmem
      have happend : prepared.findings plan layoutIndex id ((chunk ++ [row]) ++ rows) = _ :=
        findings_append
      refine hemit.bind ?_
      rw [happend]
      cases hfilled : (page.fill prepared.pageSize
          (prepared.findings plan layoutIndex id (chunk ++ [row]))).next with
      | some cursor =>
        have hsome : (page.fill prepared.pageSize
            (prepared.findings plan layoutIndex id (chunk ++ [row]))).next ≠ none := by
          rw [hfilled]
          exact Option.some_ne_none cursor
        rw [Page.fill_append_of_next hsome]
        show Yields calm (if (page.fill prepared.pageSize
          (prepared.findings plan layoutIndex id (chunk ++ [row]))).next.isNone && _ then _
          else .ok _) _
        rw [hfilled]
        exact Yields.ok calm _
      | none =>
        rw [Page.fill_append hfilled]
        have hrest : calm → Resolves prepared.segment plan ([] ++ rows) :=
          fun hholds item hmem => hcalm hholds item (List.mem_append_right _ hmem)
        exact ih hfilled (fill_room page _ hroom) hrest

def ascFound (prepared : PreparedRows) (plan : Plan) (layoutIndex : Nat) :
    List (RowRecord × Cursor) :=
  prepared.findings plan layoutIndex id ((prepared.segment.numbered plan.typeId).drop
    (if layoutIndex = prepared.start.layoutIndex then prepared.start.position else plan.startRow))

def ResolvesPlan (segment : Segment) (plan : Plan) : Prop :=
  Resolves segment plan (segment.numbered plan.typeId)

theorem ascLayout_yields (hnext : page.next = none) (hroom : page.items.length ≤ prepared.pageSize)
    (hcalm : calm → ResolvesPlan prepared.segment plan) :
    Yields calm (prepared.ascLayout plan layoutIndex page)
      (page.fill prepared.pageSize (prepared.ascFound plan layoutIndex)) := by
  have hscan : ∀ offset, prepared.scanned plan offset (prepared.segment.rows plan.typeId).length =
      ((prepared.segment.numbered plan.typeId).drop offset).map (seenBy plan) := by
    intro offset
    show (((prepared.segment.numbered plan.typeId).drop offset).take _).map _ = _
    rw [List.take_of_length_le]
    · rfl
    · rw [List.length_drop, length_numbered]
      omega
  rw [ascLayout, hscan]
  have hvisit : calm → Resolves prepared.segment plan ([] ++
      (prepared.segment.numbered plan.typeId).drop (if layoutIndex = prepared.start.layoutIndex
        then prepared.start.position else plan.startRow)) :=
    fun hholds item hmem => hcalm hholds item (List.mem_of_mem_drop hmem)
  exact visitAsc_yields hnext hroom hvisit

/-! ## The descending scan -/

def descFound (prepared : PreparedRows) (plan : Plan) (layoutIndex : Nat) :
    List (RowRecord × Cursor) :=
  prepared.findings plan layoutIndex (Reader.saturatingAdd · 1)
    (slice (prepared.segment.numbered plan.typeId) plan.startRow
      (if layoutIndex = prepared.start.layoutIndex then prepared.start.position
        else plan.rows)).reverse

theorem descWindows_yields {upper : Nat} (hnext : page.next = none)
    (hroom : page.items.length ≤ prepared.pageSize)
    (hcalm : calm → ResolvesPlan prepared.segment plan) :
    Yields calm (prepared.descWindows plan layoutIndex upper page)
      (page.fill prepared.pageSize
        (prepared.findings plan layoutIndex (Reader.saturatingAdd · 1)
          (slice (prepared.segment.numbered plan.typeId) plan.startRow upper).reverse)) := by
  induction upper using Nat.strongRecOn generalizing page with
  | ind upper ih =>
    rw [descWindows]
    by_cases hupper : plan.startRow < upper
    · have hpos : 0 < prepared.chunkRows := by
        rw [chunkRows, Reader.saturatingAdd]
        omega
      rw [dif_pos ⟨hupper, by rw [hnext]; rfl⟩]
      generalize hlower : max (upper - prepared.chunkRows) plan.startRow = lower
      have hlow : plan.startRow ≤ lower ∧ lower < upper := by omega
      have hscan : prepared.scanned plan lower (upper - lower) =
          (slice (prepared.segment.numbered plan.typeId) lower upper).map (seenBy plan) := by
        rw [slice, List.drop_take]
        rfl
      have hchunk : Yields calm
          (chunkDictionary prepared.segment (prepared.scanned plan lower (upper - lower)) >>=
            fun dictionary => prepared.emitRows plan layoutIndex (Reader.saturatingAdd · 1)
              dictionary (prepared.scanned plan lower (upper - lower)).reverse page)
          (page.fill prepared.pageSize
            (prepared.findings plan layoutIndex (Reader.saturatingAdd · 1)
              (slice (prepared.segment.numbered plan.typeId) lower upper).reverse)) := by
        rw [hscan, ← List.map_reverse]
        apply chunk_yields hnext hroom
        · intro hholds item hmem
          exact hcalm hholds item (List.mem_of_mem_take (List.mem_of_mem_drop hmem))
        · intro item hmem
          exact List.mem_reverse.mp hmem
      have hsplit : (slice (prepared.segment.numbered plan.typeId) plan.startRow upper).reverse =
          (slice (prepared.segment.numbered plan.typeId) lower upper).reverse ++
            (slice (prepared.segment.numbered plan.typeId) plan.startRow lower).reverse := by
        rw [← List.reverse_append, slice_append_slice hlow.1 hlow.2.le]
      rw [hsplit, findings_append, ← bind_assoc]
      refine hchunk.bind ?_
      cases hfilled : (page.fill prepared.pageSize
          (prepared.findings plan layoutIndex (Reader.saturatingAdd · 1)
            (slice (prepared.segment.numbered plan.typeId) lower upper).reverse)).next with
      | some cursor =>
        rw [Page.fill_append_of_next (by rw [hfilled]; exact Option.some_ne_none cursor),
          descWindows, dif_neg (by rw [hfilled]; simp)]
        exact Yields.ok calm _
      | none =>
        rw [Page.fill_append hfilled]
        exact ih lower hlow.2 hfilled (fill_room page _ hroom)
    · rw [dif_neg (fun h => hupper h.1)]
      have hempty : slice (prepared.segment.numbered plan.typeId) plan.startRow upper = [] := by
        rw [slice, List.drop_eq_nil_iff, List.length_take]
        omega
      rw [hempty]
      show Yields calm (.ok page) (page.fill prepared.pageSize [])
      rw [Page.fill_nil hnext]
      exact Yields.ok calm page

/-! ## All layouts -/

def foundIn (found : Plan → Nat → List (RowRecord × Cursor)) (layouts : List (Plan × Nat)) :
    List (RowRecord × Cursor) :=
  layouts.flatMap fun layout => if layout.1.applies then found layout.1 layout.2 else []

theorem layoutPages_yields {visit : Plan → Nat → RowPage → Except QueryError RowPage}
    {found : Plan → Nat → List (RowRecord × Cursor)} {layouts : List (Plan × Nat)}
    (hvisit : ∀ layout ∈ layouts, layout.1.applies = true → ∀ page : RowPage, page.next = none →
      page.items.length ≤ prepared.pageSize →
        Yields calm (visit layout.1 layout.2 page)
          (page.fill prepared.pageSize (found layout.1 layout.2)))
    (hnext : page.next = none) (hroom : page.items.length ≤ prepared.pageSize) :
    Yields calm (layoutPages visit layouts page)
      (page.fill prepared.pageSize (foundIn found layouts)) := by
  induction layouts generalizing page with
  | nil =>
    show Yields calm (.ok page) (page.fill prepared.pageSize [])
    rw [Page.fill_nil hnext]
    exact Yields.ok calm page
  | cons layout layouts ih =>
    have hrest : ∀ other ∈ layouts, other.1.applies = true → ∀ page : RowPage, page.next = none →
        page.items.length ≤ prepared.pageSize →
          Yields calm (visit other.1 other.2 page)
            (page.fill prepared.pageSize (found other.1 other.2)) :=
      fun other hmem => hvisit other (List.mem_cons_of_mem _ hmem)
    rw [layoutPages]
    by_cases happlies : layout.1.applies = true
    · have hfound : foundIn found (layout :: layouts) =
          found layout.1 layout.2 ++ foundIn found layouts := by
        rw [foundIn, List.flatMap_cons, if_pos happlies]
        rfl
      rw [happlies, hfound]
      refine (hvisit layout (List.mem_cons_self ..) happlies page hnext hroom).bind ?_
      cases hfilled : (page.fill prepared.pageSize (found layout.1 layout.2)).next with
      | some cursor =>
        rw [Page.fill_append_of_next (by rw [hfilled]; exact Option.some_ne_none cursor)]
        exact Yields.ok calm _
      | none =>
        rw [Page.fill_append hfilled]
        exact ih hrest hfilled (fill_room page _ hroom)
    · have hfound : foundIn found (layout :: layouts) = foundIn found layouts := by
        rw [foundIn, List.flatMap_cons, if_neg happlies]
        rfl
      rw [Bool.not_eq_true] at happlies
      rw [happlies, hfound]
      exact ih hrest hnext hroom

/-- What the scan from the start of a page finds. -/
def found (prepared : PreparedRows) : List (RowRecord × Cursor) :=
  match prepared.order with
  | .asc => foundIn prepared.ascFound (prepared.plans.zipIdx.drop prepared.start.layoutIndex)
  | .desc =>
    foundIn prepared.descFound
      (prepared.plans.zipIdx.take (prepared.start.layoutIndex + 1)).reverse

def Resolvable (segment : Segment) (plans : List Plan) : Prop :=
  ∀ plan ∈ plans, plan.applies = true → ResolvesPlan segment plan

theorem mem_plans_of_zipIdx {plans : List Plan} {layout : Plan × Nat}
    (h : layout ∈ plans.zipIdx) : layout.1 ∈ plans := by
  obtain ⟨_, _, heq⟩ := List.mem_zipIdx h
  rw [heq]
  exact List.getElem_mem _

theorem stream_yields (prepared : PreparedRows) :
    Yields (Resolvable prepared.segment prepared.plans) prepared.stream
      ((prepared.found.take prepared.pageSize).map (·.1),
        (prepared.found[prepared.pageSize]?).map (·.2.encode)) := by
  have hempty : (Page.empty : RowPage).items.length ≤ prepared.pageSize := Nat.zero_le _
  have hpage : Yields (Resolvable prepared.segment prepared.plans) prepared.page
      ((Page.empty : RowPage).fill prepared.pageSize prepared.found) := by
    rw [PreparedRows.page, found]
    cases prepared.order with
    | asc =>
      apply layoutPages_yields _ rfl hempty
      intro layout hmem happlies page hnext hroom
      exact ascLayout_yields hnext hroom fun hholds =>
        hholds layout.1 (mem_plans_of_zipIdx (List.mem_of_mem_drop hmem)) happlies
    | desc =>
      apply layoutPages_yields _ rfl hempty
      intro layout hmem happlies page hnext hroom
      exact descWindows_yields hnext hroom fun hholds =>
        hholds layout.1 (mem_plans_of_zipIdx (List.mem_of_mem_take (List.mem_reverse.mp hmem)))
          happlies
  have hyields := hpage.bind (f := fun page : RowPage =>
      (Except.ok (page.items, page.next.map Cursor.encode) :
        Except QueryError (List RowRecord × Option String))) (Yields.ok _ _)
  rw [Page.fill_empty] at hyields
  rw [Option.map_map] at hyields
  exact hyields

end PreparedRows

end Kronika.Query
