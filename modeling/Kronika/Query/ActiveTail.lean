/-
The rows after an earlier position complete the rows at it.

Layout by layout, what a request returns at an earlier position of an active segment, and
what it returns after that position, is what it returns without one.  A position that is no
end of a part of the generation is no position to start from.
-/
import Mathlib.Algebra.Order.BigOperators.Group.List
import Kronika.Query.CapturedRows
import Kronika.Query.History

namespace Kronika.Query

open Format Library Reader Store Writer

variable {content : JournalContent} {finished : Int → Option FinishedSegment}
  {crc32c : Checksum} {segmentId : SegmentId} {parts left right : List (ValidPart crc32c)}
  {typeId : Nat} {registry : Registry} {floats : FloatText} {segment : Segment}
  {data : DataRequest} {names names' : List String} {plan : Plan} {found found' : Option Plan}

/-! ## The plans of a capture -/

/-- The names of the output: those of the request, or of all recorded layouts. -/
def namesAt (registry : Registry) (segment : Segment) (data : DataRequest) : List String :=
  if data.fields = [] then recordedNames ((layoutsOf registry segment data).map (·.1))
  else data.fields

variable {planned tailed : List Plan} {tail : Option DatasetSegment}

theorem outputNames_ok {recorded known : List TypeContract} {requested : List String}
    (h : outputNames recorded known requested = .ok names) :
    names = if requested = [] then recordedNames recorded else requested := by
  rw [outputNames] at h
  split at h
  · next hnil => rw [if_pos hnil, Except.ok.inj h]
  · next hne =>
    split at h
    · cases h
    · rw [if_neg hne, Except.ok.inj h]

theorem planAt_plans (h : plans registry floats segment data = .ok planned) (typeId : Nat) :
    PlanAt registry floats data (namesAt registry segment data) segment typeId
      (planned.find? (·.typeId = typeId)) := by
  obtain ⟨names, hnames, hplans⟩ := plans_ok h
  rw [show namesAt registry segment data = names from (outputNames_ok hnames).symm]
  exact find?_forall₂ hplans (fun layout plan hplan => (planOf_ok hplan).1.symm) typeId

theorem planAt_unrecorded (h : layoutsOf registry segment data = []) (typeId : Nat) :
    PlanAt registry floats data (namesAt registry segment data) segment typeId none := by
  rw [PlanAt, h]
  exact .none

theorem nodup_plans (h : plans registry floats segment data = .ok planned)
    (hnodup : (segment.layouts.map (·.1)).Nodup) : (planned.map (·.typeId)).Nodup := by
  obtain ⟨_, _, hplans⟩ := plans_ok h
  have hkeys : planned.map (·.typeId) =
      (layoutsOf registry segment data).map (·.1.typeId) := by
    clear h
    generalize layoutsOf registry segment data = layouts at hplans ⊢
    induction hplans with
    | nil => rfl
    | cons hplan _ ih => rw [List.map_cons, List.map_cons, ih, (planOf_ok hplan).1]
  rw [hkeys]
  exact nodup_layoutsOf hnodup

theorem nodup_segmentOf (snapshot : ActiveSnapshot) :
    ((segmentOf content snapshot).layouts.map (·.1)).Nodup := by
  rw [segmentOf, List.map_map]
  exact nodup_sectionsOf (catalogsOf snapshot)

theorem exists_mapM {α β ε : Type} {f : α → Except ε β} {as : List α}
    (h : ∀ a ∈ as, ∃ b, f a = .ok b) : ∃ bs, as.mapM f = .ok bs := by
  induction as with
  | nil => exact ⟨[], rfl⟩
  | cons a as ih =>
    obtain ⟨b, hb⟩ := h a (List.mem_cons_self ..)
    obtain ⟨bs, hbs⟩ := ih fun a' hmem => h a' (List.mem_cons_of_mem _ hmem)
    refine ⟨b :: bs, ?_⟩
    rw [List.mapM_cons, hb, hbs]
    rfl

theorem exists_plans {earlier later : Segment} (hne : layoutsOf registry earlier data ≠ [])
    (hsub : ∀ layout ∈ layoutsOf registry earlier data,
      ∃ rows, (layout.1, rows) ∈ layoutsOf registry later data)
    (h : plans registry floats later data = .ok planned) :
    ∃ planned, plans registry floats earlier data = .ok planned := by
  rw [plans] at h
  split at h
  · cases h
  obtain ⟨names, hnames, h⟩ := bind_eq_ok.mp h
  obtain ⟨_, hvalid, h⟩ := bind_eq_ok.mp h
  have hplans := mapM_eq_ok.mp h
  have hnames' : ∃ names', outputNames ((layoutsOf registry earlier data).map (·.1))
      (knownLayouts registry data.sectionName) data.fields = .ok names' := by
    rw [outputNames] at hnames ⊢
    by_cases hfields : data.fields = []
    · exact ⟨_, if_pos hfields⟩
    · rw [if_neg hfields] at hnames ⊢
      exact ⟨names, hnames⟩
  obtain ⟨names', hnames'⟩ := hnames'
  have hplan : ∀ layout ∈ layoutsOf registry earlier data,
      ∃ plan, planOf floats names' data.filters layout = .ok plan := by
    intro layout hmem
    obtain ⟨rows, hlayout⟩ := hsub layout hmem
    obtain ⟨k, hk⟩ := List.getElem?_of_mem hlayout
    obtain ⟨hlt, hget⟩ := List.getElem?_eq_some_iff.mp hk
    have hothers := hplans.get hlt (hplans.length_eq ▸ hlt)
    rw [List.get_eq_getElem, hget] at hothers
    obtain ⟨typed, htyped, _⟩ := bind_eq_ok.mp hothers
    rw [planOf]
    rw [htyped]
    exact ⟨_, rfl⟩
  obtain ⟨planned', hplanned'⟩ := exists_mapM hplan
  refine ⟨planned', ?_⟩
  rw [plans, if_neg hne, hnames']
  show (validateFilters floats (knownLayouts registry data.sectionName) data.filters >>= fun _ =>
    (layoutsOf registry earlier data).mapM (planOf floats names' data.filters)) = _
  rw [hvalid]
  exact hplanned'

theorem exists_applyTail (h : ∀ plan ∈ planned, priorRows tail plan.typeId ≤ plan.rows) :
    ∃ tailed, applyTail planned tail = .ok tailed := by
  cases tail with
  | none => exact ⟨planned, rfl⟩
  | some prior =>
    apply exists_mapM
    intro plan hmem
    have hle := h plan hmem
    exact ⟨_, if_neg (Nat.not_lt.mpr hle)⟩

/-! ## The rows of a request -/

/-- The rows of all pages of a request; none if no layout of the section is recorded. -/
inductive Returned (registry : Registry) (floats : FloatText) (captures : Nat → QueryDataset)
    (request : RowsRequest) : List RowRecord → Prop where
  | pages {pages : List (List RowRecord)}
    (hfollows : Follows (answer registry floats captures request) (0, none) pages) :
    Returned registry floats captures request pages.flatten
  | unrecorded {segment : Segment} {tail : Option DatasetSegment}
    (hview : view (captures 0) request.data none = .ok (segment, tail))
    (hnone : layoutsOf registry segment request.data = []) :
    Returned registry floats captures request []

/-- The plans of a view, each from where the tail of its layout begins. -/
def tailPlans (tail : Option DatasetSegment) (planned : List Plan) : List Plan :=
  planned.map fun plan => { plan with startRow := priorRows tail plan.typeId }

/-- The rows of a view, in the order of the request. -/
inductive Answers (registry : Registry) (floats : FloatText) (request : RowsRequest)
    (segment : Segment) (tail : Option DatasetSegment) : List RowRecord → Prop where
  | planned {planned : List Plan}
    (hplans : plans registry floats segment request.data = .ok planned) :
    Answers registry floats request segment tail
      (request.order.arrange (matchingRows segment (tailPlans tail planned)))
  | unrecorded (hnone : layoutsOf registry segment request.data = []) :
    Answers registry floats request segment tail []

variable {captures : Nat → QueryDataset} {request : RowsRequest} {rows rows' : List RowRecord}

theorem plans_unrecorded (h : layoutsOf registry segment data = []) :
    plans registry floats segment data = .error .noSuchSection := by
  exact if_pos h

theorem Answers.unique (h : Answers registry floats request segment tail rows)
    (h' : Answers registry floats request segment tail rows') : rows = rows' := by
  cases h with
  | planned hplans =>
    cases h' with
    | planned hplans' => rw [Except.ok.inj (hplans.symm.trans hplans')]
    | unrecorded hnone =>
      rw [plans_unrecorded hnone] at hplans
      cases hplans
  | unrecorded hnone =>
    cases h' with
    | planned hplans' =>
      rw [plans_unrecorded hnone] at hplans'
      cases hplans'
    | unrecorded _ => rfl

/-- Every layout has at least the rows that its tail begins after. -/
def Covers (segment : Segment) (tail : Option DatasetSegment) : Prop :=
  ∀ typeId, priorRows tail typeId ≤ (segment.rows typeId).length

theorem firstCursor_in (segment : Segment) (order : Order) (hash : Nat) (hne : planned ≠ [])
    (hle : ∀ plan ∈ planned, plan.startRow ≤ plan.rows) :
    ∃ plan, planned[(firstCursor order segment planned hash).layoutIndex]? = some plan ∧
      plan.startRow ≤ (firstCursor order segment planned hash).position ∧
        (firstCursor order segment planned hash).position ≤ plan.rows := by
  have hpos := List.length_pos_iff.mpr hne
  cases order with
  | asc =>
    have hget : planned[0]? = some planned[0] := List.getElem?_eq_getElem hpos
    refine ⟨planned[0], hget, ?_⟩
    show _ ≤ (planned[0]?.map (·.startRow)).getD 0 ∧ (planned[0]?.map (·.startRow)).getD 0 ≤ _
    rw [hget]
    exact ⟨Nat.le_refl _, hle _ (List.getElem_mem hpos)⟩
  | desc =>
    have hlast : planned.length - 1 < planned.length := by omega
    have hget : planned[planned.length - 1]? = some planned[planned.length - 1] :=
      List.getElem?_eq_getElem hlast
    refine ⟨planned[planned.length - 1], hget, ?_⟩
    show _ ≤ (planned[planned.length - 1]?.map (·.rows)).getD 0 ∧
      (planned[planned.length - 1]?.map (·.rows)).getD 0 ≤ _
    rw [hget]
    exact ⟨hle _ (List.getElem_mem hlast), Nat.le_refl _⟩

theorem prepare_planned (hcursor : request.cursor = none)
    (hview : view (captures 0) request.data none = .ok (segment, tail))
    (hcovers : Covers segment tail)
    (hplans : plans registry floats segment request.data = .ok planned) :
    prepare registry floats (captures 0) request =
      .ok { segment := segment, plans := tailPlans tail planned, order := request.order
            pageSize := request.pageSize
            start := firstCursor request.order segment (tailPlans tail planned)
              (binding request) } := by
  have hzero : ∀ plan ∈ planned, plan.startRow = 0 := fun plan hmem => (mem_plans hplans hmem).2
  have hrows : ∀ plan ∈ planned, priorRows tail plan.typeId ≤ plan.rows := by
    intro plan hmem
    rw [(mem_plans hplans hmem).1]
    exact hcovers plan.typeId
  obtain ⟨tailed, htail⟩ := exists_applyTail hrows
  obtain ⟨heq, hle⟩ := applyTail_ok hzero htail
  subst heq
  have hne : tailPlans tail planned ≠ [] := by
    obtain ⟨_, _, hlayouts⟩ := plans_ok hplans
    intro hnil
    have hnone : planned = [] := List.map_eq_nil_iff.mp hnil
    rw [hnone, List.forall₂_nil_right_iff] at hlayouts
    rw [plans_unrecorded hlayouts] at hplans
    cases hplans
  obtain ⟨plan, hplan, hfrom, hto⟩ := firstCursor_in segment request.order (binding request) hne hle
  have hparsed : parsedCursor request = .ok none := by rw [parsedCursor, hcursor]
  have hchecks : ¬((firstCursor request.order segment (tailPlans tail planned)
        (binding request)).position < plan.startRow ∨
      plan.rows < (firstCursor request.order segment (tailPlans tail planned)
        (binding request)).position ∨
      (firstCursor request.order segment (tailPlans tail planned)
        (binding request)).activePosition ≠ segment.activePosition.getD 0) := by
    rintro (hlow | hhigh | hother)
    · omega
    · omega
    · exact hother (firstCursor_fields ..).2.1
  refine bind_eq_ok.mpr ⟨_, hparsed, bind_eq_ok.mpr ⟨_, hview, bind_eq_ok.mpr
    ⟨_, hplans, bind_eq_ok.mpr ⟨_, htail, ?_⟩⟩⟩⟩
  show checkStart segment (tailPlans tail planned) request
    (firstCursor request.order segment (tailPlans tail planned) (binding request)) = _
  rw [checkStart, hplan]
  exact if_neg hchecks

theorem returned_iff (hsize : 0 < request.pageSize) (hcursor : request.cursor = none)
    (hpinned : Pinned captures request.data segment tail) (hfits : segment.Fits)
    (hcovers : Covers segment tail)
    (hresolves : ∀ planned, PreparedRows.Resolvable segment planned) :
    Returned registry floats captures request rows ↔
      Answers registry floats request segment tail rows := by
  constructor
  · intro h
    cases h with
    | @pages pages hfollows =>
      have hfirst : ∃ page, answer registry floats captures request (0, none) = .ok page := by
        cases hfollows with
        | last hpage => exact ⟨_, hpage⟩
        | more hpage _ => exact ⟨_, hpage⟩
      obtain ⟨page, hpage⟩ := hfirst
      obtain ⟨found, hfound, -⟩ := bind_eq_ok.mp hpage
      obtain ⟨first, hprepare, -⟩ := bind_eq_ok.mp hfound
      have hsame : { request with cursor := none } = request := by rw [← hcursor]
      rw [hsame] at hprepare
      have hplanned := prepare_first hcursor hpinned.first hprepare
      have hpages := (serves hpinned hfits hplanned).complete
        (standsAt_first hcursor hpinned hfits hprepare) hfollows
      obtain ⟨planned, hplans, -⟩ := hplanned.plans_eq
      rw [prepare_planned hcursor hpinned.first hcovers hplans] at hprepare
      have hjoined := hpages.joined
      rw [← Except.ok.inj hprepare, List.flatMap_id] at hjoined
      rw [hjoined]
      exact .planned hplans
    | unrecorded hview hnone =>
      have hpair := Prod.mk.inj (Except.ok.inj (hview.symm.trans hpinned.first))
      rw [hpair.1] at hnone
      exact .unrecorded hnone
  · intro h
    cases h with
    | planned hplans =>
      have hprepare := prepare_planned hcursor hpinned.first hcovers hplans
      obtain ⟨pages, hfollows⟩ := exists_follows_first hsize hcursor hpinned hfits hprepare
        (hresolves _)
      have hplanned := prepare_first hcursor hpinned.first hprepare
      have hjoined := ((serves hpinned hfits hplanned).complete
        (standsAt_first hcursor hpinned hfits hprepare) hfollows).joined
      rw [List.flatMap_id] at hjoined
      rw [← hjoined]
      exact .pages hfollows
    | unrecorded hnone => exact .unrecorded hpinned.first hnone

/-! ## Rows at an earlier position, and after it -/

/-- The rows at an earlier position followed by the tail, in the order of the request. -/
def Order.join {α : Type} (order : Order) (earlier tail : List α) : List α :=
  match order with
  | .asc => earlier ++ tail
  | .desc => tail ++ earlier

/-- The items of a layout at an earlier position and those after it are the items without a
tail, each once.  The record of an item is the same but for the names of the output. -/
structure Composes {β : Type} (order : Order) (record : List String → Nat × Row → β)
    (names names' : List String) (earlier tail whole : List β) (before after : List (Nat × Row)) :
    Prop where
  earlier_eq : earlier = order.arrange (before.map (record names))
  tail_eq : tail = order.arrange (after.map (record names'))
  whole_eq : whole = order.arrange ((before ++ after).map (record names'))
  joined : names = names' → whole = order.join earlier tail
  once : ((before ++ after).map (·.1)).Pairwise (· < ·)

theorem composes_of {β : Type} {order : Order} {record : List String → Nat × Row → β}
    {earlier tail whole : List β} {before after : List (Nat × Row)}
    (hearlier : earlier = order.arrange (before.map (record names)))
    (htail : tail = order.arrange (after.map (record names')))
    (hwhole : whole = order.arrange ((before ++ after).map (record names')))
    (honce : ((before ++ after).map (·.1)).Pairwise (· < ·)) :
    Composes order record names names' earlier tail whole before after where
  earlier_eq := hearlier
  tail_eq := htail
  whole_eq := hwhole
  joined hnames := by
    rw [hearlier, htail, hwhole, hnames, List.map_append]
    cases order with
    | asc => rfl
    | desc => exact List.reverse_append
  once := honce

/-- The record of an item, with a value for each name. -/
def rowOf (typeId : Nat) (value : Nat × Row → String → Value) (names : List String)
    (item : Nat × Row) : RowRecord where
  typeId := typeId
  ordinal := item.1
  values := names.map (value item)

/-- The value of a column of a layout that the request is about. -/
def valueOf (registry : Registry) (data : DataRequest) (dictionary : Dictionary) (typeId : Nat)
    (item : Nat × Row) (name : String) : Value :=
  match wantedContract registry data typeId with
  | none => .null
  | some contract => shownColumn dictionary item.2 ((contract.column name).map (·.name))

theorem arrange_filter {α : Type} (order : Order) (p : α → Bool) (items : List α) :
    (order.arrange items).filter p = order.arrange (items.filter p) := by
  cases order with
  | asc => rfl
  | desc => exact List.filter_reverse ..

theorem matchingItems_eq_nil (segment : Segment) (h : plan.applies = false) :
    matchingItems segment plan = [] := by
  rw [matchingItems, List.filter_eq_nil_iff]
  intro item _ haccepts
  rw [Plan.accepts, show (!plan.matchesNone) = false from h] at haccepts
  cases haccepts

theorem matchingRows_flatMap (segment : Segment) (plans : List Plan) :
    matchingRows segment plans = plans.flatMap (matchingIn segment) := by
  induction plans with
  | nil => rfl
  | cons plan plans ih =>
    rw [List.flatMap_cons, ← ih, matchingRows, List.filter_cons]
    by_cases h : plan.applies = true
    · rw [if_pos h]
      rfl
    · rw [if_neg h, matchingIn, matchingItems_eq_nil segment (Bool.eq_false_of_not_eq_true h)]
      rfl

theorem recordOf_planAt (h : PlanAt registry floats data names segment typeId (some plan)) :
    recordOf segment plan = rowOf typeId (valueOf registry data segment.dictionary typeId)
      names := by
  obtain ⟨contract, hcontract, hplan, htype⟩ := h.some
  funext item
  rw [recordOf, (planOf_fields hplan).1, fieldsOf, List.map_map]
  congr 1
  apply List.map_congr_left
  intro name _
  rw [valueOf, hcontract]
  rfl

theorem answers_filter (h : Answers registry floats request segment tail rows)
    (hnodup : (segment.layouts.map (·.1)).Nodup) (typeId : Nat) :
    ∃ found, PlanAt registry floats request.data (namesAt registry segment request.data) segment
        typeId found ∧
      rows.filter (·.typeId = typeId) = request.order.arrange
        ((itemsFrom segment found (priorRows tail typeId)).map
          (rowOf typeId (valueOf registry request.data segment.dictionary typeId)
            (namesAt registry segment request.data))) := by
  cases h with
  | unrecorded hnone =>
    refine ⟨none, planAt_unrecorded hnone typeId, ?_⟩
    cases request.order <;> rfl
  | @planned planned hplans =>
    have hplan := planAt_plans hplans typeId
    refine ⟨_, hplan, ?_⟩
    have hkeys : ∀ plan ∈ planned, ∀ row ∈ matchingIn segment
        { plan with startRow := priorRows tail plan.typeId }, row.typeId = plan.typeId := by
      intro plan _ row hrow
      obtain ⟨item, _, rfl⟩ := List.mem_map.mp hrow
      rfl
    rw [arrange_filter, matchingRows_flatMap, tailPlans, List.flatMap_map,
      filter_flatMap_key hkeys (nodup_plans hplans hnodup)]
    congr 1
    cases hfound : planned.find? (·.typeId = typeId) with
    | none => rfl
    | some plan =>
      rw [hfound] at hplan
      have hrecord := recordOf_planAt hplan
      obtain ⟨_, _, _, rfl⟩ := hplan.some
      rw [← hrecord]
      rfl

def positionOf (segmentId : SegmentId) (parts : List (ValidPart crc32c)) : ActiveCursor where
  segmentId := segmentId.value.toInt
  walPosition := endOf parts

def DataRequest.tailAfter (data : DataRequest) (after : ActiveCursor) : DataRequest :=
  { data with after := some after }

def RowsRequest.tailAfter (request : RowsRequest) (after : ActiveCursor) : RowsRequest :=
  { request with data := request.data.tailAfter after }

theorem PlanAt.unique (h : PlanAt registry floats data names segment typeId found)
    (h' : PlanAt registry floats data names segment typeId found') : found = found' := by
  rw [PlanAt] at h h'
  generalize (layoutsOf registry segment data).find? (·.1.typeId = typeId) = layout at h h'
  cases h with
  | none =>
    cases h'
    rfl
  | some hplan =>
    cases h' with
    | some hplan' => rw [Except.ok.inj (hplan.symm.trans hplan')]

theorem ids_project (row : Row) (columns : List String) :
    ∀ id ∈ (row.project columns).ids, id ∈ row.ids := by
  intro id hid
  obtain ⟨cell, hcell, hvalue⟩ := List.mem_filterMap.mp hid
  exact List.mem_filterMap.mpr ⟨cell, List.mem_of_mem_filter hcell, hvalue⟩

theorem Written.resolvable (h : Written content segmentId parts) (planned : List Plan) :
    PreparedRows.Resolvable (segmentOf content (captured segmentId parts)) planned := by
  intro plan _ _ item hitem id hid
  exact h.isSome (mem_numbered hitem) id (ids_project _ _ id hid)

theorem Written.covers (h : Written content segmentId (left ++ right)) :
    Covers (segmentOf content (captured segmentId (left ++ right)))
      (some (referenceOf (captured segmentId left))) := by
  intro typeId
  obtain ⟨rest, hrows⟩ := h.rows_append typeId
  rw [h.front.priorRows, hrows, List.length_append]
  exact Nat.le_add_right ..

theorem valueOf_front (registry : Registry) (data : DataRequest)
    (h : Written content segmentId (left ++ right)) {item : Nat × Row}
    (hitem : item.2 ∈ (segmentOf content (captured segmentId left)).rows typeId) :
    valueOf registry data (segmentOf content (captured segmentId left)).dictionary typeId item =
      valueOf registry data (segmentOf content (captured segmentId (left ++ right))).dictionary
        typeId item := by
  funext name
  rw [valueOf, valueOf]
  cases wantedContract registry data typeId with
  | none => rfl
  | some contract => exact shownColumn_congr (fun id hid => (h.dictionary hitem id hid).1) _

theorem answers_compose {earlier last whole : List RowRecord}
    (h : Written content segmentId (left ++ right))
    (hearlier : Answers registry floats request (segmentOf content (captured segmentId left)) none
      earlier)
    (htail : Answers registry floats (request.tailAfter (positionOf segmentId left))
      (segmentOf content (captured segmentId (left ++ right)))
      (some (referenceOf (captured segmentId left))) last)
    (hwhole : Answers registry floats request
      (segmentOf content (captured segmentId (left ++ right))) none whole) (typeId : Nat) :
    ∃ value before after, Composes request.order (rowOf typeId value)
      (namesAt registry (segmentOf content (captured segmentId left)) request.data)
      (namesAt registry (segmentOf content (captured segmentId (left ++ right))) request.data)
      (earlier.filter (·.typeId = typeId)) (last.filter (·.typeId = typeId))
      (whole.filter (·.typeId = typeId)) before after := by
  obtain ⟨found, hplan, hfirst⟩ := answers_filter hearlier (nodup_segmentOf _) typeId
  obtain ⟨found', hplan', hlast⟩ := answers_filter htail (nodup_segmentOf _) typeId
  obtain ⟨found'', hplan'', hall⟩ := answers_filter hwhole (nodup_segmentOf _) typeId
  have hsame : found' = found'' := PlanAt.unique hplan' hplan''
  subst hsame
  have happend := itemsFrom_append h hplan hplan''
  rw [h.front.priorRows] at hlast
  refine ⟨valueOf registry request.data
      (segmentOf content (captured segmentId (left ++ right))).dictionary typeId,
    itemsFrom (segmentOf content (captured segmentId left)) found 0,
    itemsFrom (segmentOf content (captured segmentId (left ++ right))) found'
      ((segmentOf content (captured segmentId left)).rows typeId).length,
    composes_of ?_ hlast ?_ ?_⟩
  · rw [hfirst]
    congr 1
    apply List.map_congr_left
    intro item hitem
    rw [rowOf, rowOf, valueOf_front registry request.data h (mem_itemsFrom hplan hitem)]
  · rw [← happend]
    exact hall
  · rw [← happend]
    exact increasing_itemsFrom ..

/-! ## Requests at both positions -/

theorem mem_layouts_captured {parts : List (ValidPart crc32c)} :
    typeId ∈ (segmentOf content (captured segmentId parts)).layouts.map (·.1) ↔
      ∃ part ∈ activeParts segmentId journalHeaderLen parts,
        ∃ entry ∈ part.catalog.entries, entry.typeId = typeId := by
  have hparts := (captures_captured segmentId parts).parts_eq
  rw [segmentOf, List.map_map]
  show typeId ∈ (sectionsOf (catalogsOf (captured segmentId parts))).map (·.typeId) ↔ _
  rw [mem_sectionsOf, catalogsOf, hparts]
  simp only [List.mem_flatMap, List.mem_map]
  constructor
  · rintro ⟨entry, ⟨_, ⟨part, hpart, rfl⟩, hentry⟩, htype⟩
    exact ⟨part, hpart, entry, hentry, htype⟩
  · rintro ⟨part, hpart, entry, hentry, htype⟩
    exact ⟨entry, ⟨part.catalog, ⟨part, hpart, rfl⟩, hentry⟩, htype⟩

theorem layoutsOf_front (content : JournalContent) (registry : Registry) (data : DataRequest)
    (segmentId : SegmentId) (left right : List (ValidPart crc32c)) :
    ∀ layout ∈ layoutsOf registry (segmentOf content (captured segmentId left)) data,
      ∃ rows, (layout.1, rows) ∈
        layoutsOf registry (segmentOf content (captured segmentId (left ++ right))) data := by
  intro layout hmem
  obtain ⟨typeId, htype, hlayout⟩ := List.mem_filterMap.mp hmem
  have hlater : typeId ∈
      (segmentOf content (captured segmentId (left ++ right))).layouts.map (·.1) := by
    rw [mem_layouts_captured] at htype ⊢
    obtain ⟨part, hpart, hentry⟩ := htype
    refine ⟨part, ?_, hentry⟩
    rw [activeParts_append]
    exact List.mem_append_left _ hpart
  split at hlayout
  · next hwanted =>
    obtain ⟨contract, hcontract, rfl⟩ := Option.map_eq_some_iff.mp hlayout
    refine ⟨((segmentOf content (captured segmentId (left ++ right))).rows typeId).length,
      List.mem_filterMap.mpr ⟨typeId, hlater, ?_⟩⟩
    rw [if_pos hwanted, hcontract]
    rfl
  · cases hlayout

theorem layoutsOf_front_nil
    (h : layoutsOf registry (segmentOf content (captured segmentId (left ++ right))) data = []) :
    layoutsOf registry (segmentOf content (captured segmentId left)) data = [] := by
  rw [List.eq_nil_iff_forall_not_mem]
  intro layout hlayout
  obtain ⟨rows, hmem⟩ := layoutsOf_front content registry data segmentId left right layout hlayout
  rw [h] at hmem
  cases hmem

theorem exists_earlier (h : Answers registry floats request
      (segmentOf content (captured segmentId (left ++ right))) none rows) :
    ∃ earlier, Answers registry floats request (segmentOf content (captured segmentId left)) none
      earlier := by
  by_cases hnone :
      layoutsOf registry (segmentOf content (captured segmentId left)) request.data = []
  · exact ⟨[], .unrecorded hnone⟩
  · cases h with
    | planned hplans =>
      obtain ⟨planned, hplanned⟩ := exists_plans hnone
        (layoutsOf_front content registry request.data segmentId left right) hplans
      exact ⟨_, .planned hplanned⟩
    | unrecorded hlater => exact absurd (layoutsOf_front_nil hlater) hnone

theorem exists_tail (after : ActiveCursor) (tail : Option DatasetSegment)
    (h : Answers registry floats request segment none rows) :
    ∃ last, Answers registry floats (request.tailAfter after) segment tail last := by
  cases h with
  | planned hplans => exact ⟨_, .planned hplans⟩
  | unrecorded hnone => exact ⟨[], .unrecorded hnone⟩

theorem TailOf.covers {after : Option ActiveCursor} (h : Written content segmentId parts)
    (htail : TailOf segmentId parts after tail) :
    Covers (segmentOf content (captured segmentId parts)) tail := by
  cases htail with
  | whole => exact fun _ => Nat.zero_le _
  | after hsplit =>
    subst hsplit
    exact h.covers

theorem returned_captured {snapshots : Nat → ActiveSnapshot} (hsize : 0 < request.pageSize)
    (hcursor : request.cursor = none) (hid : request.data.segmentId = segmentId.value.toInt)
    (h : Written content segmentId parts) (hgrows : Grows snapshots segmentId parts)
    (htail : TailOf segmentId parts request.data.after tail) :
    Returned registry floats (fun k => journalDataset content finished (snapshots k)) request
        rows ↔
      Answers registry floats request (segmentOf content (captured segmentId parts)) tail rows := by
  exact returned_iff hsize hcursor (pinned_journal hgrows hid htail)
    (h.fits parts [] (List.append_nil parts).symm) (htail.covers h) h.resolvable

def ReturnsOnly (registry : Registry) (floats : FloatText) (captures : Nat → QueryDataset)
    (request : RowsRequest) (rows : List RowRecord) : Prop :=
  ∀ rows', Returned registry floats captures request rows' ↔ rows' = rows

theorem returnsOnly_captured {snapshots : Nat → ActiveSnapshot} (hsize : 0 < request.pageSize)
    (hcursor : request.cursor = none) (hid : request.data.segmentId = segmentId.value.toInt)
    (h : Written content segmentId parts) (hgrows : Grows snapshots segmentId parts)
    (htail : TailOf segmentId parts request.data.after tail)
    (hrows : Answers registry floats request (segmentOf content (captured segmentId parts)) tail
      rows) :
    ReturnsOnly registry floats (fun k => journalDataset content finished (snapshots k)) request
      rows := by
  intro rows'
  rw [returned_captured hsize hcursor hid h hgrows htail]
  constructor
  · intro h'
    exact h'.unique hrows
  · rintro rfl
    exact hrows

theorem rows_compose {earlier later whole : Nat → ActiveSnapshot}
    (h : Written content segmentId (left ++ right)) (hsize : 0 < request.pageSize)
    (hcursor : request.cursor = none) (hid : request.data.segmentId = segmentId.value.toInt)
    (hafter : request.data.after = none) (hearlier : Grows earlier segmentId left)
    (hlater : Grows later segmentId (left ++ right))
    (hwhole : Grows whole segmentId (left ++ right))
    (hreturned : Returned registry floats
      (fun k => journalDataset content finished (whole k)) request rows) :
    ∃ first last,
      ReturnsOnly registry floats (fun k => journalDataset content finished (earlier k)) request
          first ∧
        ReturnsOnly registry floats (fun k => journalDataset content finished (later k))
          (request.tailAfter (positionOf segmentId left)) last ∧
        ∀ typeId, ∃ value before after, Composes request.order (rowOf typeId value)
          (namesAt registry (segmentOf content (captured segmentId left)) request.data)
          (namesAt registry (segmentOf content (captured segmentId (left ++ right))) request.data)
          (first.filter (·.typeId = typeId)) (last.filter (·.typeId = typeId))
          (rows.filter (·.typeId = typeId)) before after := by
  have hnone : ∀ parts : List (ValidPart crc32c),
      TailOf segmentId parts request.data.after none := by
    intro parts
    rw [hafter]
    exact .whole
  have htail : TailOf segmentId (left ++ right)
      (request.tailAfter (positionOf segmentId left)).data.after
        (some (referenceOf (captured segmentId left))) := .after rfl
  have hall := (returned_captured hsize hcursor hid h hwhole (hnone _)).mp hreturned
  obtain ⟨first, hfirst⟩ := exists_earlier hall
  obtain ⟨last, hlast⟩ := exists_tail (positionOf segmentId left)
    (some (referenceOf (captured segmentId left))) hall
  exact ⟨first, last, returnsOnly_captured hsize hcursor hid h.front hearlier (hnone _) hfirst,
    returnsOnly_captured hsize hcursor hid h hlater htail hlast,
    fun typeId => answers_compose h hfirst hlast hall typeId⟩

/-! ## The physical history -/

/-- The columns of an identity are labels of the layout. -/
structure Registry.Linted (registry : Registry) : Prop where
  identity : ∀ contract ∈ registry.contracts, ∀ name ∈ contract.identity,
    ∃ column ∈ contract.columns, column.name = name ∧ column.cls = .label

/-- The records of a history; none if no layout of the section is recorded. -/
inductive HistoryReturned (registry : Registry) (floats : FloatText) (dataset : QueryDataset)
    (data : DataRequest) : List HistoryRecord → Prop where
  | records {records : List HistoryRecord}
    (hhistory : history registry floats dataset data = .ok records) :
    HistoryReturned registry floats dataset data records
  | unrecorded {segment : Segment} {tail : Option DatasetSegment}
    (hview : view dataset data none = .ok (segment, tail))
    (hnone : layoutsOf registry segment data = []) :
    HistoryReturned registry floats dataset data []

/-- The history of a view. -/
inductive HistoryAnswers (registry : Registry) (floats : FloatText) (data : DataRequest)
    (segment : Segment) (tail : Option DatasetSegment) : List HistoryRecord → Prop where
  | planned {planned : List Plan} {contracted : List HistoryPlan}
    (hplans : plans registry floats segment data = .ok planned)
    (hcontracts : (tailPlans tail planned).mapM (withContract registry) = .ok contracted) :
    HistoryAnswers registry floats data segment tail (contracted.flatMap (historyIn segment))
  | unrecorded (hnone : layoutsOf registry segment data = []) :
    HistoryAnswers registry floats data segment tail []

variable {dataset : QueryDataset} {records records' : List HistoryRecord}

theorem HistoryAnswers.unique (h : HistoryAnswers registry floats data segment tail records)
    (h' : HistoryAnswers registry floats data segment tail records') : records = records' := by
  cases h with
  | planned hplans hcontracts =>
    cases h' with
    | planned hplans' hcontracts' =>
      rw [Except.ok.inj (hplans.symm.trans hplans')] at hcontracts
      rw [Except.ok.inj (hcontracts.symm.trans hcontracts')]
    | unrecorded hnone =>
      rw [plans_unrecorded hnone] at hplans
      cases hplans
  | unrecorded hnone =>
    cases h' with
    | planned hplans' _ =>
      rw [plans_unrecorded hnone] at hplans'
      cases hplans'
    | unrecorded _ => rfl

theorem exists_contracts (tail : Option DatasetSegment)
    (hplans : plans registry floats segment data = .ok planned) :
    ∃ contracted, (tailPlans tail planned).mapM (withContract registry) = .ok contracted := by
  apply exists_mapM
  intro plan hmem
  obtain ⟨plan', hplan', rfl⟩ := List.mem_map.mp hmem
  obtain ⟨_, _, hlayouts⟩ := plans_ok hplans
  obtain ⟨layout, hlayout, hplan⟩ := exists_left_of_forall₂ hlayouts hplan'
  obtain ⟨typeId, _, hfound⟩ := List.mem_filterMap.mp hlayout
  split at hfound
  · obtain ⟨contract, hcontract, rfl⟩ := Option.map_eq_some_iff.mp hfound
    have htype := List.find?_some hcontract
    rw [decide_eq_true_eq] at htype
    have hsame : plan'.typeId = typeId := (planOf_ok hplan).1.trans htype
    rw [withContract]
    rw [hsame, hcontract]
    exact ⟨_, rfl⟩
  · cases hfound

theorem historyReturned_iff (hview : view dataset data none = .ok (segment, tail))
    (hcovers : Covers segment tail) (hresolves : ∀ planned, HistoryResolvable segment planned) :
    HistoryReturned registry floats dataset data records ↔
      HistoryAnswers registry floats data segment tail records := by
  have hprepare : ∀ planned contracted, plans registry floats segment data = .ok planned →
      (tailPlans tail planned).mapM (withContract registry) = .ok contracted →
        prepareHistory registry floats dataset data =
          .ok { segment := segment, plans := contracted } := by
    intro planned contracted hplans hcontracts
    have hrows : ∀ plan ∈ planned, priorRows tail plan.typeId ≤ plan.rows := by
      intro plan hmem
      rw [(mem_plans hplans hmem).1]
      exact hcovers plan.typeId
    obtain ⟨tailed, htail⟩ := exists_applyTail hrows
    obtain ⟨heq, -⟩ := applyTail_ok (fun plan hmem => (mem_plans hplans hmem).2) htail
    subst heq
    exact bind_eq_ok.mpr ⟨_, hview, bind_eq_ok.mpr ⟨_, hplans, bind_eq_ok.mpr
      ⟨_, htail, bind_eq_ok.mpr ⟨_, hcontracts, rfl⟩⟩⟩⟩
  constructor
  · intro h
    cases h with
    | records hhistory =>
      obtain ⟨prepared, hprepared, hstream⟩ := bind_eq_ok.mp hhistory
      obtain ⟨found, hfound, hplanned⟩ := bind_eq_ok.mp hprepared
      rw [Except.ok.inj (hfound.symm.trans hview)] at hplanned
      obtain ⟨planned, hplans, -⟩ := bind_eq_ok.mp hplanned
      obtain ⟨contracted, hcontracts⟩ := exists_contracts tail hplans
      rw [Except.ok.inj (hprepared.symm.trans (hprepare planned contracted hplans hcontracts))]
        at hstream
      rw [(streamPlans_yields contracted).value records hstream]
      exact .planned hplans hcontracts
    | unrecorded hview' hnone =>
      rw [(Prod.mk.inj (Except.ok.inj (hview'.symm.trans hview))).1] at hnone
      exact .unrecorded hnone
  · intro h
    cases h with
    | @planned planned contracted hplans hcontracts =>
      apply HistoryReturned.records
      rw [history, hprepare planned contracted hplans hcontracts]
      exact (streamPlans_yields contracted).total (hresolves contracted)
    | unrecorded hnone => exact .unrecorded hview hnone

/-- The record of an item in a history. -/
def historyRowOf (typeId : Nat) (timestamp : Nat × Row → Value)
    (identity : Nat × Row → List Value) (value : Nat × Row → String → Value)
    (names : List String) (item : Nat × Row) : HistoryRecord where
  typeId := typeId
  ordinal := item.1
  timestamp := timestamp item
  identity := identity item
  values := names.map (value item)
  breakBefore := false

def timestampOf (registry : Registry) (data : DataRequest) (dictionary : Dictionary)
    (typeId : Nat) (item : Nat × Row) : Value :=
  match wantedContract registry data typeId with
  | none => .null
  | some contract => shownColumn dictionary item.2 contract.timestamp

def identityOf (registry : Registry) (data : DataRequest) (dictionary : Dictionary)
    (typeId : Nat) (item : Nat × Row) : List Value :=
  match wantedContract registry data typeId with
  | none => []
  | some contract => contract.identity.map fun name => shownColumn dictionary item.2 (some name)

theorem identity_mem_projection (h : registry.Linted) {planned : HistoryPlan}
    (hcontract : planned.contract ∈ registry.contracts) {name : String}
    (hname : name ∈ planned.contract.identity) : name ∈ planned.projection := by
  obtain ⟨column, hcolumn, rfl, hlabel⟩ := h.identity _ hcontract name hname
  refine List.mem_append_left _ (List.mem_append_right _ (List.mem_map_of_mem ?_))
  rw [List.mem_filter]
  refine ⟨hcolumn, ?_⟩
  by_cases hevent : planned.contract.semantics = .eventStream
  · rw [if_pos hevent, hlabel]
    rfl
  · rw [if_neg hevent]
    exact decide_eq_true hname

theorem wantedContract_eq {contract : TypeContract}
    (h : wantedContract registry data typeId = some contract) :
    registry.contract typeId = some contract := by
  rw [wantedContract] at h
  split at h
  · exact h
  · cases h

theorem historyOf_planAt (hlinted : registry.Linted)
    (h : PlanAt registry floats data names segment typeId (some plan)) {startRow : Nat}
    {planned : HistoryPlan}
    (hcontract : withContract registry { plan with startRow := startRow } = .ok planned) :
    planned.plan = { plan with startRow := startRow } ∧
      historyOf segment planned = historyRowOf typeId
        (timestampOf registry data segment.dictionary typeId)
        (identityOf registry data segment.dictionary typeId)
        (valueOf registry data segment.dictionary typeId) names := by
  obtain ⟨contract, hwanted, hplan, rfl⟩ := h.some
  have hregistered := wantedContract_eq hwanted
  rw [withContract] at hcontract
  rw [hregistered] at hcontract
  have heq := Except.ok.inj hcontract
  have hmem : contract ∈ registry.contracts := List.mem_of_find?_eq_some hregistered
  refine ⟨by rw [← heq], ?_⟩
  funext item
  have hidentity : planned.contract.identity.map (fun name =>
      shownColumn segment.dictionary (item.2.project planned.projection) (some name)) =
        identityOf registry data segment.dictionary plan.typeId item := by
    rw [identityOf, hwanted, ← heq]
    apply List.map_congr_left
    intro name hname
    apply shownColumn_project
    intro other hother
    rw [← Option.some.inj hother]
    exact identity_mem_projection hlinted hmem hname
  rw [historyOf, hidentity, historyRowOf, timestampOf, hwanted, ← heq]
  rw [(planOf_fields hplan).1, (planOf_fields hplan).2, fieldsOf, List.map_map]
  congr 1
  apply List.map_congr_left
  intro name _
  rw [valueOf, hwanted]
  rfl

theorem historyIn_eq (segment : Segment) (planned : HistoryPlan) :
    historyIn segment planned =
      (matchingItems segment planned.plan).map (historyOf segment planned) := by
  rw [historyIn]
  by_cases h : planned.plan.applies = true
  · rw [if_pos h]
  · rw [if_neg h, matchingItems_eq_nil segment (Bool.eq_false_of_not_eq_true h), List.map_nil]

theorem historyAnswers_filter (hlinted : registry.Linted)
    (h : HistoryAnswers registry floats data segment tail records)
    (hnodup : (segment.layouts.map (·.1)).Nodup) (typeId : Nat) :
    ∃ found, PlanAt registry floats data (namesAt registry segment data) segment typeId found ∧
      records.filter (·.typeId = typeId) =
        (itemsFrom segment found (priorRows tail typeId)).map (historyRowOf typeId
          (timestampOf registry data segment.dictionary typeId)
          (identityOf registry data segment.dictionary typeId)
          (valueOf registry data segment.dictionary typeId) (namesAt registry segment data)) := by
  cases h with
  | unrecorded hnone => exact ⟨none, planAt_unrecorded hnone typeId, rfl⟩
  | @planned planned contracted hplans hcontracts =>
    have hplan := planAt_plans hplans typeId
    refine ⟨_, hplan, ?_⟩
    have hforall := mapM_eq_ok.mp hcontracts
    have hkey : ∀ plan (planned : HistoryPlan), withContract registry plan = .ok planned →
        plan.typeId = planned.plan.typeId := by
      intro plan planned hcontract
      rw [withContract] at hcontract
      split at hcontract
      · cases hcontract
      · rw [← Except.ok.inj hcontract]
    have hitems : ∀ planned ∈ contracted, ∀ record ∈ historyIn segment planned,
        record.typeId = planned.plan.typeId := by
      intro planned _ record hrecord
      rw [historyIn_eq] at hrecord
      obtain ⟨item, _, rfl⟩ := List.mem_map.mp hrecord
      rfl
    have hkeys : contracted.map (·.plan.typeId) = planned.map (·.typeId) := by
      have htailed : (tailPlans tail planned).map (·.typeId) = planned.map (·.typeId) := by
        rw [tailPlans, List.map_map]
        rfl
      rw [← htailed]
      clear hcontracts hitems htailed
      generalize tailPlans tail planned = tailed at hforall ⊢
      induction hforall with
      | nil => rfl
      | cons hcontract _ ih => rw [List.map_cons, List.map_cons, ih, hkey _ _ hcontract]
    have hnodup' : (contracted.map (·.plan.typeId)).Nodup := by
      rw [hkeys]
      exact nodup_plans hplans hnodup
    have hfind := find?_forall₂ hforall hkey typeId
    have htailed : (tailPlans tail planned).find? (·.typeId = typeId) =
        (planned.find? (·.typeId = typeId)).map fun plan =>
          { plan with startRow := priorRows tail plan.typeId } := by
      rw [tailPlans, List.find?_map]
      rfl
    rw [filter_flatMap_key hitems hnodup']
    rw [htailed] at hfind
    generalize hcontracted : contracted.find? (·.plan.typeId = typeId) = contract at hfind ⊢
    cases hfound : planned.find? (·.typeId = typeId) with
    | none =>
      rw [hfound] at hfind
      cases hfind
      rfl
    | some plan =>
      rw [hfound] at hfind hplan
      cases hfind with
      | @some _ contract hcontract =>
        obtain ⟨hsame, hrecord⟩ := historyOf_planAt hlinted hplan hcontract
        obtain ⟨_, _, _, rfl⟩ := hplan.some
        rw [Option.map_some, historyIn_eq, hrecord, hsame]
        rfl

def HistoryReturnsOnly (registry : Registry) (floats : FloatText) (dataset : QueryDataset)
    (data : DataRequest) (records : List HistoryRecord) : Prop :=
  ∀ records', HistoryReturned registry floats dataset data records' ↔ records' = records

variable {snapshot : ActiveSnapshot}

theorem historyReturned_captured (h : Written content segmentId parts)
    (hid : data.segmentId = segmentId.value.toInt) (hcaptures : Captures snapshot segmentId parts)
    (htail : TailOf segmentId parts data.after tail) :
    HistoryReturned registry floats (journalDataset content finished snapshot) data records ↔
      HistoryAnswers registry floats data (segmentOf content (captured segmentId parts)) tail
        records := by
  refine historyReturned_iff (view_first hcaptures hid htail) (htail.covers h) ?_
  intro planned _ _ _ item hitem id hident
  exact h.isSome (mem_numbered hitem) id (ids_project _ _ id hident)

theorem historyReturnsOnly_captured (h : Written content segmentId parts)
    (hid : data.segmentId = segmentId.value.toInt) (hcaptures : Captures snapshot segmentId parts)
    (htail : TailOf segmentId parts data.after tail)
    (hrecords : HistoryAnswers registry floats data
      (segmentOf content (captured segmentId parts)) tail records) :
    HistoryReturnsOnly registry floats (journalDataset content finished snapshot) data
      records := by
  intro records'
  rw [historyReturned_captured h hid hcaptures htail]
  constructor
  · intro h'
    exact h'.unique hrecords
  · rintro rfl
    exact hrecords

theorem exists_earlier_history (h : HistoryAnswers registry floats data
      (segmentOf content (captured segmentId (left ++ right))) none records) :
    ∃ earlier, HistoryAnswers registry floats data
      (segmentOf content (captured segmentId left)) none earlier := by
  by_cases hnone : layoutsOf registry (segmentOf content (captured segmentId left)) data = []
  · exact ⟨[], .unrecorded hnone⟩
  · cases h with
    | planned hplans _ =>
      obtain ⟨planned, hplanned⟩ := exists_plans hnone
        (layoutsOf_front content registry data segmentId left right) hplans
      obtain ⟨contracted, hcontracts⟩ := exists_contracts none hplanned
      exact ⟨_, .planned hplanned hcontracts⟩
    | unrecorded hlater => exact absurd (layoutsOf_front_nil hlater) hnone

theorem exists_tail_history (after : ActiveCursor) (tail : Option DatasetSegment)
    (h : HistoryAnswers registry floats data segment none records) :
    ∃ last, HistoryAnswers registry floats (data.tailAfter after) segment tail last := by
  cases h with
  | planned hplans _ =>
    obtain ⟨contracted, hcontracts⟩ := exists_contracts tail hplans
    exact ⟨_, .planned hplans hcontracts⟩
  | unrecorded hnone => exact ⟨[], .unrecorded hnone⟩

theorem timestampOf_front (registry : Registry) (data : DataRequest)
    (h : Written content segmentId (left ++ right)) {item : Nat × Row}
    (hitem : item.2 ∈ (segmentOf content (captured segmentId left)).rows typeId) :
    timestampOf registry data (segmentOf content (captured segmentId left)).dictionary typeId
        item =
      timestampOf registry data
        (segmentOf content (captured segmentId (left ++ right))).dictionary typeId item := by
  rw [timestampOf, timestampOf]
  cases wantedContract registry data typeId with
  | none => rfl
  | some contract => exact shownColumn_congr (fun id hid => (h.dictionary hitem id hid).1) _

theorem identityOf_front (registry : Registry) (data : DataRequest)
    (h : Written content segmentId (left ++ right)) {item : Nat × Row}
    (hitem : item.2 ∈ (segmentOf content (captured segmentId left)).rows typeId) :
    identityOf registry data (segmentOf content (captured segmentId left)).dictionary typeId
        item =
      identityOf registry data
        (segmentOf content (captured segmentId (left ++ right))).dictionary typeId item := by
  rw [identityOf, identityOf]
  cases wantedContract registry data typeId with
  | none => rfl
  | some contract =>
    apply List.map_congr_left
    intro name _
    exact shownColumn_congr (fun id hid => (h.dictionary hitem id hid).1) _

theorem historyAnswers_compose {earlier last whole : List HistoryRecord}
    (hlinted : registry.Linted) (h : Written content segmentId (left ++ right))
    (hearlier : HistoryAnswers registry floats data (segmentOf content (captured segmentId left))
      none earlier)
    (htail : HistoryAnswers registry floats (data.tailAfter (positionOf segmentId left))
      (segmentOf content (captured segmentId (left ++ right)))
      (some (referenceOf (captured segmentId left))) last)
    (hwhole : HistoryAnswers registry floats data
      (segmentOf content (captured segmentId (left ++ right))) none whole) (typeId : Nat) :
    ∃ timestamp identity value before after,
      Composes .asc (historyRowOf typeId timestamp identity value)
        (namesAt registry (segmentOf content (captured segmentId left)) data)
        (namesAt registry (segmentOf content (captured segmentId (left ++ right))) data)
        (earlier.filter (·.typeId = typeId)) (last.filter (·.typeId = typeId))
        (whole.filter (·.typeId = typeId)) before after := by
  obtain ⟨found, hplan, hfirst⟩ := historyAnswers_filter hlinted hearlier (nodup_segmentOf _) typeId
  obtain ⟨found', hplan', hlast⟩ := historyAnswers_filter hlinted htail (nodup_segmentOf _) typeId
  obtain ⟨found'', hplan'', hall⟩ := historyAnswers_filter hlinted hwhole (nodup_segmentOf _) typeId
  have hsame : found' = found'' := PlanAt.unique hplan' hplan''
  subst hsame
  have happend := itemsFrom_append h hplan hplan''
  rw [h.front.priorRows] at hlast
  refine ⟨timestampOf registry data
      (segmentOf content (captured segmentId (left ++ right))).dictionary typeId,
    identityOf registry data
      (segmentOf content (captured segmentId (left ++ right))).dictionary typeId,
    valueOf registry data
      (segmentOf content (captured segmentId (left ++ right))).dictionary typeId,
    itemsFrom (segmentOf content (captured segmentId left)) found 0,
    itemsFrom (segmentOf content (captured segmentId (left ++ right))) found'
      ((segmentOf content (captured segmentId left)).rows typeId).length,
    composes_of ?_ hlast ?_ ?_⟩
  · rw [hfirst]
    apply List.map_congr_left
    intro item hitem
    have hrow := mem_itemsFrom hplan hitem
    rw [historyRowOf, historyRowOf, valueOf_front registry data h hrow,
      timestampOf_front registry data h hrow, identityOf_front registry data h hrow]
  · rw [← happend]
    exact hall
  · rw [← happend]
    exact increasing_itemsFrom ..

/-- The history at an earlier position, and the history after it, are the history without a
tail. -/
theorem history_compose {earlier later whole : ActiveSnapshot} (hlinted : registry.Linted)
    (h : Written content segmentId (left ++ right))
    (hid : data.segmentId = segmentId.value.toInt) (hafter : data.after = none)
    (hearlier : Captures earlier segmentId left) (hlater : Captures later segmentId (left ++ right))
    (hwhole : Captures whole segmentId (left ++ right))
    (hreturned : HistoryReturned registry floats (journalDataset content finished whole) data
      records) :
    ∃ first last,
      HistoryReturnsOnly registry floats (journalDataset content finished earlier) data first ∧
        HistoryReturnsOnly registry floats (journalDataset content finished later)
          (data.tailAfter (positionOf segmentId left)) last ∧
        ∀ typeId, ∃ timestamp identity value before after,
          Composes .asc (historyRowOf typeId timestamp identity value)
            (namesAt registry (segmentOf content (captured segmentId left)) data)
            (namesAt registry (segmentOf content (captured segmentId (left ++ right))) data)
            (first.filter (·.typeId = typeId)) (last.filter (·.typeId = typeId))
            (records.filter (·.typeId = typeId)) before after := by
  have hnone : ∀ parts : List (ValidPart crc32c), TailOf segmentId parts data.after none := by
    intro parts
    rw [hafter]
    exact .whole
  have htail : TailOf segmentId (left ++ right)
      (data.tailAfter (positionOf segmentId left)).after
        (some (referenceOf (captured segmentId left))) := .after rfl
  have hall := (historyReturned_captured h hid hwhole (hnone _)).mp hreturned
  obtain ⟨first, hfirst⟩ := exists_earlier_history hall
  obtain ⟨last, hlast⟩ := exists_tail_history (positionOf segmentId left)
    (some (referenceOf (captured segmentId left))) hall
  exact ⟨first, last, historyReturnsOnly_captured h.front hid hearlier (hnone _) hfirst,
    historyReturnsOnly_captured h hid hlater htail hlast,
    fun typeId => historyAnswers_compose hlinted h hfirst hlast hall typeId⟩

/-! ## Positions that are rejected -/

/-- The tail of a request starts at the end of some first parts of the active segment. -/
def TailLocated (segmentId : SegmentId) (parts : List (ValidPart crc32c)) (data : DataRequest) :
    Prop :=
  ∀ after ∈ data.after, data.segmentId = segmentId.value.toInt ∧
    ∃ left right, parts = left ++ right ∧ after = positionOf segmentId left

/-- A page cursor is of the segment of its request, and where that is the active one, of the
end of some first parts of it. -/
def CursorLocated (segmentId : SegmentId) (parts : List (ValidPart crc32c))
    (data : DataRequest) (cursor : Cursor) : Prop :=
  cursor.segmentId = data.segmentId ∧
    (data.segmentId = segmentId.value.toInt →
      ∃ left right, parts = left ++ right ∧ cursor.activePosition = endOf left) ∧
    (data.segmentId ≠ segmentId.value.toInt → cursor.activePosition = 0)

theorem view_located {cursor : Option Cursor} (h : Captures snapshot segmentId parts)
    (hview : view (journalDataset content finished snapshot) data cursor = .ok (segment, tail)) :
    TailLocated segmentId parts data ∧ ∀ found ∈ cursor,
      (data.segmentId = segmentId.value.toInt →
        ∃ left right, parts = left ++ right ∧ found.activePosition = endOf left) ∧
      (data.segmentId ≠ segmentId.value.toInt → found.activePosition = 0) := by
  by_cases hid : data.segmentId = segmentId.value.toInt
  · obtain ⟨shown, rest, rfl, _, hposition, htail, _⟩ := view_active h hid hview
    constructor
    · intro after hmem
      rw [Option.mem_def.mp hmem] at htail
      cases htail with
      | @after left right hsplit =>
        exact ⟨hid, left, right ++ rest, by rw [hsplit, List.append_assoc], rfl⟩
    · intro found hmem
      exact ⟨fun _ => ⟨shown, rest, rfl, hposition found hmem⟩, fun hne => absurd hid hne⟩
  · obtain ⟨hafter, hzero⟩ := view_other h hid hview
    constructor
    · intro after hmem
      rw [hafter] at hmem
      cases hmem
    · intro found hmem
      exact ⟨fun heq => absurd heq hid, fun _ => hzero found hmem⟩

theorem rowsPage_located {page : List RowRecord × Option String}
    (h : Captures snapshot segmentId parts)
    (hanswer : rowsPage registry floats (journalDataset content finished snapshot) request =
      .ok page) :
    TailLocated segmentId parts request.data ∧ ∀ raw ∈ request.cursor, ∃ cursor,
      Cursor.parse raw = .ok cursor ∧ CursorLocated segmentId parts request.data cursor := by
  obtain ⟨prepared, hprepare, -⟩ := bind_eq_ok.mp hanswer
  obtain ⟨parsed, hparsed, hprepare⟩ := bind_eq_ok.mp hprepare
  obtain ⟨⟨segment, tail⟩, hview, -⟩ := bind_eq_ok.mp hprepare
  obtain ⟨htail, hcursor⟩ := view_located h hview
  refine ⟨htail, ?_⟩
  intro raw hraw
  rw [parsedCursor, Option.mem_def.mp hraw] at hparsed
  obtain ⟨cursor, hparse, hchecked⟩ := bind_eq_ok.mp hparsed
  split at hchecked
  · next hsame =>
    rw [← Except.ok.inj hchecked] at hcursor
    exact ⟨cursor, hparse, hsame.1, hcursor cursor rfl⟩
  · cases hchecked

theorem history_located (h : Captures snapshot segmentId parts)
    (hanswer : history registry floats (journalDataset content finished snapshot) data =
      .ok records) : TailLocated segmentId parts data := by
  obtain ⟨prepared, hprepare, -⟩ := bind_eq_ok.mp hanswer
  obtain ⟨⟨segment, tail⟩, hview, -⟩ := bind_eq_ok.mp hprepare
  exact (view_located h hview).1

/-! ## Tails of a growing journal -/

/-- The journal of a segment is one that this read of it was checked against. -/
def Checked (crc32c : Checksum) (segmentId : SegmentId) (file : Bytes) : Prop :=
  committedResetPlan crc32c file = none ∧
    ∃ header, JournalHeader.decode crc32c (slice file 0 journalHeaderLen) = .ok header ∧
      header.state = .active segmentId.value

/-- What holds of requests for the active segment between two positions of it. -/
structure ActiveTails (registry : Registry) (floats : FloatText) (content : JournalContent)
    (finished : Int → Option FinishedSegment) (segmentId : SegmentId)
    (left right : List (ValidPart crc32c)) : Prop where
  rows : ∀ (request : RowsRequest) (earlier later whole : Nat → ActiveSnapshot)
    (rows : List RowRecord), 0 < request.pageSize → request.cursor = none →
    request.data.segmentId = segmentId.value.toInt → request.data.after = none →
    Grows earlier segmentId left → Grows later segmentId (left ++ right) →
    Grows whole segmentId (left ++ right) →
    Returned registry floats (fun k => journalDataset content finished (whole k)) request rows →
      ∃ first last,
        ReturnsOnly registry floats (fun k => journalDataset content finished (earlier k))
            request first ∧
          ReturnsOnly registry floats (fun k => journalDataset content finished (later k))
            (request.tailAfter (positionOf segmentId left)) last ∧
          ∀ typeId, ∃ value before after, Composes request.order (rowOf typeId value)
            (namesAt registry (segmentOf content (captured segmentId left)) request.data)
            (namesAt registry (segmentOf content (captured segmentId (left ++ right)))
              request.data)
            (first.filter (·.typeId = typeId)) (last.filter (·.typeId = typeId))
            (rows.filter (·.typeId = typeId)) before after
  histories : ∀ (data : DataRequest) (earlier later whole : ActiveSnapshot)
    (records : List HistoryRecord),
    data.segmentId = segmentId.value.toInt → data.after = none →
    Captures earlier segmentId left → Captures later segmentId (left ++ right) →
    Captures whole segmentId (left ++ right) →
    HistoryReturned registry floats (journalDataset content finished whole) data records →
      ∃ first last,
        HistoryReturnsOnly registry floats (journalDataset content finished earlier) data first ∧
          HistoryReturnsOnly registry floats (journalDataset content finished later)
            (data.tailAfter (positionOf segmentId left)) last ∧
          ∀ typeId, ∃ timestamp identity value before after,
            Composes .asc (historyRowOf typeId timestamp identity value)
              (namesAt registry (segmentOf content (captured segmentId left)) data)
              (namesAt registry (segmentOf content (captured segmentId (left ++ right))) data)
              (first.filter (·.typeId = typeId)) (last.filter (·.typeId = typeId))
              (records.filter (·.typeId = typeId)) before after
  rows_located : ∀ (request : RowsRequest) (snapshot : ActiveSnapshot)
    (page : List RowRecord × Option String), Captures snapshot segmentId (left ++ right) →
    rowsPage registry floats (journalDataset content finished snapshot) request = .ok page →
      TailLocated segmentId (left ++ right) request.data ∧
        ∀ raw ∈ request.cursor, ∃ cursor, Cursor.parse raw = .ok cursor ∧
          CursorLocated segmentId (left ++ right) request.data cursor
  history_located : ∀ (data : DataRequest) (snapshot : ActiveSnapshot)
    (records : List HistoryRecord), Captures snapshot segmentId (left ++ right) →
    history registry floats (journalDataset content finished snapshot) data = .ok records →
      TailLocated segmentId (left ++ right) data
  reads : ∀ (snapshot : ActiveSnapshot) (before during after bytes : Bytes) (i offset len : Nat),
    Captures snapshot segmentId (left ++ right) →
    snapshot.readPartRange crc32c before during after i offset len = .ok bytes →
      Checked crc32c segmentId before ∧ Checked crc32c segmentId after ∧
        ∀ header rest : Bytes, header.length = journalHeaderLen →
          during = header ++ frames (left ++ right) ++ rest →
            ∃ part, (left ++ right)[i]? = some part ∧
              bytes = slice part.bytes offset (offset + len)

theorem reads_captured {before during after bytes : Bytes} {i offset len : Nat}
    (h : Captures snapshot segmentId parts)
    (hread : snapshot.readPartRange crc32c before during after i offset len = .ok bytes) :
    Checked crc32c segmentId before ∧ Checked crc32c segmentId after ∧
      ∀ header rest : Bytes, header.length = journalHeaderLen →
        during = header ++ frames parts ++ rest →
          ∃ part, parts[i]? = some part ∧ bytes = slice part.bytes offset (offset + len) := by
  obtain ⟨_, _, _, _, hbefore, hafter, -⟩ := readPartRange_ok hread
  rw [h.segmentId_eq] at hbefore hafter
  obtain ⟨hreset, -, hheader⟩ := validateActiveSnapshot_ok hbefore
  obtain ⟨hreset', -, hheader'⟩ := validateActiveSnapshot_ok hafter
  exact ⟨⟨hreset, hheader⟩, ⟨hreset', hheader'⟩,
    fun header rest hlength hduring => readPartRange_captured hlength hduring h hread⟩

/-- Whatever the generation has grown by, what is returned at an earlier position and what is
returned after it are what is returned without a tail.  No other position is accepted, and no
other generation is read. -/
theorem active_tails (hlinted : registry.Linted)
    (h : Written content segmentId (left ++ right)) :
    ActiveTails registry floats content finished segmentId left right where
  rows _ _ _ _ _ hsize hcursor hid hafter hearlier hlater hwhole hrows :=
    rows_compose h hsize hcursor hid hafter hearlier hlater hwhole hrows
  histories _ _ _ _ _ hid hafter hearlier hlater hwhole hrecords :=
    history_compose hlinted h hid hafter hearlier hlater hwhole hrecords
  rows_located _ _ _ hcaptures hanswer := rowsPage_located hcaptures hanswer
  history_located _ _ _ hcaptures hanswer := history_located hcaptures hanswer
  reads _ _ _ _ _ _ _ _ hcaptures hread := reads_captured hcaptures hread

/-! ## A journal of two parts -/

def activityContract : TypeContract where
  typeId := 1001001
  semantics := .snapshotFull
  columns := [{ name := "ts", ty := .ts, cls := .timestamp },
    { name := "backends", ty := .u32, cls := .gauge }]
  identity := []

def laterActivityContract : TypeContract where
  typeId := 1001002
  semantics := .snapshotFull
  columns := [{ name := "ts", ty := .ts, cls := .timestamp },
    { name := "waiting", ty := .u32, cls := .gauge }]
  identity := []

def activityRegistry : Registry where
  contracts := [activityContract, laterActivityContract]
  logicalSectionName _ := some "activity"

def activityRow (entry : Entry) : Row :=
  if entry.typeId = 1001001 then { cells := [("ts", .ts 1), ("backends", .u32 3)] }
  else { cells := [("ts", .ts 2), ("waiting", .u32 1)] }

def activityContent : JournalContent := fun part =>
  { rows := fun typeId => (part.catalog.entries.filter (·.typeId = typeId)).map activityRow
    entries := [] }

def activityRequest : RowsRequest where
  data := { segmentId := 1, sectionName := "activity", typeId := none, fields := []
            filters := [], after := none }
  order := .asc
  pageSize := 10
  cursor := none

def activityData (parts : List (ValidPart castagnoli)) : QueryDataset :=
  journalDataset activityContent (fun _ => none) (captured sampleId parts)

/-- A request that names no fields shows the columns of the layouts recorded so far: the old
row has a value more at the later position. -/
theorem active_tails_names_grow : ∃ first last rows,
    rowsPage activityRegistry sampleFloats (activityData [sampleValidPart]) activityRequest =
        .ok (first, none) ∧
      rowsPage activityRegistry sampleFloats (activityData [sampleValidPart, secondValidPart])
          (activityRequest.tailAfter (positionOf sampleId [sampleValidPart])) = .ok (last, none) ∧
        rowsPage activityRegistry sampleFloats (activityData [sampleValidPart, secondValidPart])
            activityRequest = .ok (rows, none) ∧
          (first ++ last).filter (·.typeId = 1001001) ≠ rows.filter (·.typeId = 1001001) := by
  refine ⟨[{ typeId := 1001001, ordinal := 0, values := [.cell (.ts 1), .cell (.u32 3)] }],
    [{ typeId := 1001002, ordinal := 0
       values := [.cell (.ts 2), .null, .cell (.u32 1)] }],
    [{ typeId := 1001001, ordinal := 0, values := [.cell (.ts 1), .cell (.u32 3), .null] },
      { typeId := 1001002, ordinal := 0
        values := [.cell (.ts 2), .null, .cell (.u32 1)] }], ?_, ?_, ?_, ?_⟩
  · decide +kernel
  · decide +kernel
  · decide +kernel
  · decide

theorem written_sample : Written activityContent sampleId [sampleValidPart, secondValidPart] := by
  have hparts : ∀ left right, [sampleValidPart, secondValidPart] = left ++ right →
      left = [] ∨ left = [sampleValidPart] ∨ left = [sampleValidPart, secondValidPart] := by
    intro left right hsplit
    rcases left with _ | ⟨part, _ | ⟨part', left⟩⟩
    · exact .inl rfl
    · rw [(List.cons.inj hsplit).1]
      exact .inr (.inl rfl)
    · obtain ⟨rfl, hrest⟩ := List.cons.inj hsplit
      obtain ⟨rfl, hnil⟩ := List.cons.inj hrest
      have hleft : left = [] := (List.append_eq_nil_iff.mp hnil.symm).1
      rw [hleft]
      exact .inr (.inr rfl)
  have hcounted : Counted activityContent
      (activeParts sampleId journalHeaderLen [sampleValidPart, secondValidPart]) := by
    intro part hmem typeId
    have hone : ∀ entry ∈ part.catalog.entries, entry.rows = 1 := by
      revert part hmem
      decide
    show ((part.catalog.entries.filter (·.typeId = typeId)).map activityRow).length =
      ((part.catalog.entries.filter (·.typeId = typeId)).map (·.rows)).sum
    have hrows : (part.catalog.entries.filter (·.typeId = typeId)).map (·.rows) =
        (part.catalog.entries.filter (·.typeId = typeId)).map fun _ => 1 :=
      List.map_congr_left fun entry hentry => hone entry (List.mem_of_mem_filter hentry)
    rw [hrows]
    simp
  have hsub : ∀ left right, [sampleValidPart, secondValidPart] = left ++ right →
      Counted activityContent (activeParts sampleId journalHeaderLen left) := by
    intro left right hsplit part hmem
    apply hcounted
    rw [hsplit, activeParts_append]
    exact List.mem_append_left _ hmem
  refine ⟨hcounted, ?_, ?_⟩
  · intro left right hsplit part _ typeId row hrow id hid
    obtain ⟨entry, _, rfl⟩ := List.mem_map.mp hrow
    rw [activityRow] at hid
    split at hid <;> cases hid
  · intro left right hsplit
    refine ⟨?_, ?_, ?_, ?_, ?_⟩
    · show -2 ^ 63 ≤ sampleId.value.toInt
      decide
    · show sampleId.value.toInt < 2 ^ 63
      decide
    · rcases hparts left right hsplit with rfl | rfl | rfl <;> decide +kernel
    · rcases hparts left right hsplit with rfl | rfl | rfl <;> decide +kernel
    · intro typeId
      have hshown := (captures_captured sampleId left).parts_eq
      rw [rows_segmentOf (by rw [hshown]; exact hsub left right hsplit), hshown,
        length_partRows (hsub left right hsplit)]
      have hsublist : ∀ entries : List Entry,
          rowTotal entries typeId ≤ (entries.map (·.rows)).sum := fun entries =>
        (List.filter_sublist.map _).sum_le_sum fun _ _ => Nat.zero_le _
      refine (hsublist _).trans_lt ?_
      rcases hparts left right hsplit with rfl | rfl | rfl <;> decide +kernel
theorem linted_sample : activityRegistry.Linted := ⟨by decide⟩

def activityHistory : List HistoryRecord :=
  [{ typeId := 1001001, ordinal := 0, timestamp := .cell (.ts 1), identity := []
     values := [.cell (.ts 1), .cell (.u32 3), .null], breakBefore := false },
    { typeId := 1001002, ordinal := 0, timestamp := .cell (.ts 2), identity := []
      values := [.cell (.ts 2), .null, .cell (.u32 1)], breakBefore := false }]

theorem active_tails_sample :
    ActiveTails activityRegistry sampleFloats activityContent (fun _ => none) sampleId
        [sampleValidPart] [secondValidPart] ∧
      HistoryReturned activityRegistry sampleFloats
        (activityData [sampleValidPart, secondValidPart]) activityRequest.data activityHistory :=
  ⟨active_tails linted_sample written_sample, .records (by decide +kernel)⟩

end Kronika.Query
