/-
The binding of a rows cursor to its request.

Every text of a request is fed to the hash behind its length, but the fields, the filters and the
tail position follow each other without a mark between them.  The bytes tell the one row of texts,
and not where one list ends and the next begins.
-/
import Kronika.Query.SnapshotCursors

namespace Kronika.Query

open Library Library.Framing

/-! ## The bytes of a binding -/

def orderByte : Order → UInt8
  | .asc => 0
  | .desc => 1

def tailTexts (after : Option ActiveCursor) : List Format.Bytes :=
  after.toList.flatMap fun after => [signedBytes after.segmentId, leBytes 8 after.walPosition]

/-- The texts behind the order: fields, columns and values of filters, and the tail position. -/
def rowTexts (data : DataRequest) : List Format.Bytes :=
  data.fields.map utf8 ++
    (data.filters.flatMap (fun filter => [utf8 filter.column, utf8 filter.value]) ++
      tailTexts data.after)

def rowsBytes (request : RowsRequest) : Format.Bytes :=
  frame 8 (utf8 request.data.sectionName) ++
    (frames 8 (request.data.typeId.toList.map (leBytes 4)) ++
      (orderByte request.order :: frames 8 (rowTexts request.data)))

theorem foldl_frames (texts : List Format.Bytes) (hash : UInt64) :
    (frames 8 texts).foldl hashByte hash = texts.foldl hashBytes hash := by
  induction texts generalizing hash with
  | nil => rfl
  | cons text texts ih =>
    rw [frames, List.flatMap_cons, List.foldl_append, ← frames, ih]
    rfl

theorem binding_eq (request : RowsRequest) : binding request = (fnv (rowsBytes request)).toNat := by
  rw [fnv, rowsBytes, List.foldl_append, List.foldl_append, List.foldl_cons, foldl_frames,
    foldl_frames, rowTexts, tailTexts, List.foldl_append, List.foldl_append, List.foldl_map,
    List.foldl_flatMap, List.foldl_flatMap, ← hashBytes_eq]
  rw [binding]
  cases request.data.typeId
  all_goals cases request.data.after
  all_goals cases request.order
  all_goals simp only [orderByte, signedBytes, Option.toList_none, Option.toList_some,
    List.map_nil, List.map_cons, List.foldl_nil, List.foldl_cons]

/-! ## The request from its bytes -/

/-- A request of the widths of its fields. -/
structure RowsRequest.Fits (request : RowsRequest) : Prop where
  section_short : ShortText request.data.sectionName
  typeId_lt : ∀ typeId ∈ request.data.typeId, typeId < 2 ^ 32
  fields_short : ∀ field ∈ request.data.fields, ShortText field
  filters_short : ∀ filter ∈ request.data.filters,
    ShortText filter.column ∧ ShortText filter.value
  tail_range : ∀ after ∈ request.data.after,
    (-2 ^ 63 ≤ after.segmentId ∧ after.segmentId < 2 ^ 63) ∧ after.walPosition < 2 ^ 64

section Told

variable {request request' : RowsRequest}

theorem short_rowTexts (h : request.Fits) : ∀ text ∈ rowTexts request.data, Short 8 text := by
  intro text htext
  rw [rowTexts, tailTexts, List.mem_append, List.mem_append, List.mem_flatMap,
    List.mem_flatMap] at htext
  rcases htext with htext | ⟨filter, hfilter, htext⟩ | ⟨after, _, htext⟩
  · exact short_names h.fields_short text htext
  · rcases List.mem_pair.mp htext with rfl | rfl
    · exact (h.filters_short filter hfilter).1
    · exact (h.filters_short filter hfilter).2
  · rcases List.mem_pair.mp htext with rfl | rfl
    · exact short_leBytes le_rfl _
    · exact short_leBytes le_rfl _

theorem orderByte_injective : Function.Injective orderByte := by
  intro left right h
  cases left
  all_goals cases right
  all_goals first | rfl | exact absurd h (by decide)

theorem typeFrame_ne (typeId : Nat) (order : Order) (rest rest' : Format.Bytes) :
    frames 8 [leBytes 4 typeId] ++ rest ≠ orderByte order :: rest' := by
  intro h
  have hhead := congrArg List.head? h
  have hframe : (frames 8 [leBytes 4 typeId] ++ rest).head? = some 4 := by
    rfl
  rw [hframe] at hhead
  cases order
  all_goals exact absurd (Option.some.inj hhead) (by decide)

theorem rowsBytes_eq_iff (h : request.Fits) (h' : request'.Fits) :
    rowsBytes request = rowsBytes request' ↔
      request.data.sectionName = request'.data.sectionName ∧
        request.data.typeId = request'.data.typeId ∧ request.order = request'.order ∧
          rowTexts request.data = rowTexts request'.data := by
  constructor
  · intro hbytes
    have hshort : Short 8 (utf8 request.data.sectionName) := h.section_short
    have hshort' : Short 8 (utf8 request'.data.sectionName) := h'.section_short
    obtain ⟨hsection, hbytes⟩ := frame_append_inj hshort hshort' hbytes
    have htail : request.data.typeId = request'.data.typeId ∧
        orderByte request.order :: frames 8 (rowTexts request.data) =
          orderByte request'.order :: frames 8 (rowTexts request'.data) := by
      cases htype : request.data.typeId with
      | none =>
        cases htype' : request'.data.typeId with
        | none =>
          rw [htype, htype'] at hbytes
          exact ⟨rfl, hbytes⟩
        | some typeId' =>
          rw [htype, htype'] at hbytes
          exact absurd hbytes.symm (typeFrame_ne _ _ _ _)
      | some typeId =>
        cases htype' : request'.data.typeId with
        | none =>
          rw [htype, htype'] at hbytes
          exact absurd hbytes (typeFrame_ne _ _ _ _)
        | some typeId' =>
          rw [htype, htype'] at hbytes
          have hframe : frame 8 (leBytes 4 typeId) ++ _ = frame 8 (leBytes 4 typeId') ++ _ := hbytes
          obtain ⟨htypes, htail⟩ := frame_append_inj (short_leBytes (by decide) typeId)
            (short_leBytes (by decide) typeId') hframe
          exact ⟨congrArg some (leBytes_injOn (h.typeId_lt typeId htype)
            (h'.typeId_lt typeId' htype') htypes), htail⟩
    obtain ⟨horder, htexts⟩ := List.cons.inj htail.2
    exact ⟨utf8_injective hsection, htail.1, orderByte_injective horder,
      frames_injective (by decide) (short_rowTexts h) (short_rowTexts h') htexts⟩
  · intro htold
    rw [rowsBytes, rowsBytes, htold.1, htold.2.1, htold.2.2.1, htold.2.2.2]

/-- Requests that a page is not the same for. -/
def RowsDiffer (request request' : RowsRequest) : Prop :=
  request.data.sectionName ≠ request'.data.sectionName ∨
    request.data.typeId ≠ request'.data.typeId ∨ request.order ≠ request'.order ∨
      request.data.fields ≠ request'.data.fields ∨ request.data.filters ≠ request'.data.filters ∨
        request.data.after ≠ request'.data.after

/-- Requests that are told apart: by their section, their layout, their order, or by the row of
their texts. -/
def RowsTold (request request' : RowsRequest) : Prop :=
  request.data.sectionName ≠ request'.data.sectionName ∨
    request.data.typeId ≠ request'.data.typeId ∨ request.order ≠ request'.order ∨
      rowTexts request.data ≠ rowTexts request'.data

theorem rowsBytes_ne_iff (h : request.Fits) (h' : request'.Fits) :
    rowsBytes request ≠ rowsBytes request' ↔ RowsTold request request' := by
  rw [ne_eq, rowsBytes_eq_iff h h', RowsTold, not_and_or, not_and_or, not_and_or]

theorem filterTexts_injective {filters filters' : List RequestFilter}
    (h : filters.flatMap (fun filter => [utf8 filter.column, utf8 filter.value]) =
      filters'.flatMap (fun filter => [utf8 filter.column, utf8 filter.value])) :
    filters = filters' := by
  induction filters generalizing filters' with
  | nil =>
    cases filters' with
    | nil => rfl
    | cons filter' filters' => cases h
  | cons filter filters ih =>
    cases filters' with
    | nil => cases h
    | cons filter' filters' =>
      obtain ⟨hhead, htail⟩ := List.append_inj h rfl
      obtain ⟨hcolumn, hvalue⟩ := List.cons.inj hhead
      have hsame : filter = filter' := by
        exact congrArg₂ RequestFilter.mk (utf8_injective hcolumn)
          (utf8_injective (List.cons.inj hvalue).1)
      rw [hsame, ih htail]

theorem tailTexts_injOn (h : request.Fits) (h' : request'.Fits)
    (htexts : tailTexts request.data.after = tailTexts request'.data.after) :
    request.data.after = request'.data.after := by
  cases hafter : request.data.after with
  | none =>
    cases hafter' : request'.data.after with
    | none => rfl
    | some after' =>
      rw [hafter, hafter'] at htexts
      cases htexts
  | some after =>
    cases hafter' : request'.data.after with
    | none =>
      rw [hafter, hafter'] at htexts
      cases htexts
    | some after' =>
      rw [hafter, hafter'] at htexts
      obtain ⟨hsegment, hrest⟩ := List.cons.inj htexts
      have hrange := h.tail_range after hafter
      have hrange' := h'.tail_range after' hafter'
      have hid := signedBytes_injOn hrange.1 hrange'.1 hsegment
      have hposition : after.walPosition = after'.walPosition :=
        leBytes_injOn hrange.2 hrange'.2 (List.cons.inj hrest).1
      exact congrArg some (congrArg₂ ActiveCursor.mk hid hposition)

theorem rowsTold_of_shape (h : request.Fits) (h' : request'.Fits)
    (hfields : request.data.fields.length = request'.data.fields.length)
    (htail : request.data.after.isSome = request'.data.after.isSome)
    (hdiffer : RowsDiffer request request') : RowsTold request request' := by
  by_contra htold
  rw [RowsTold, not_or, not_or, not_or, not_not, not_not, not_not, not_not] at htold
  obtain ⟨hsection, htype, horder, htexts⟩ := htold
  have hlengths : (request.data.fields.map utf8).length =
      (request'.data.fields.map utf8).length := by
    rw [List.length_map, List.length_map, hfields]
  obtain ⟨hnames, htexts⟩ := List.append_inj htexts hlengths
  -- The tail is two texts, or none, so the filters are as many.
  have htails : (tailTexts request.data.after).length = (tailTexts request'.data.after).length := by
    cases hafter : request.data.after
    all_goals cases hafter' : request'.data.after
    all_goals first | rfl | (rw [hafter, hafter'] at htail; cases htail)
  obtain ⟨hfilters, hafters⟩ := List.append_inj' htexts htails
  rcases hdiffer with hne | hne | hne | hne | hne | hne
  · exact hne hsection
  · exact hne htype
  · exact hne horder
  · exact hne (List.map_injective_iff.mpr utf8_injective hnames)
  · exact hne (filterTexts_injective hfilters)
  · exact hne (tailTexts_injOn h h' hafters)

/-! ## Cursors of other requests -/

theorem prepare_refuses (registry : Registry) (floats : FloatText) (dataset : QueryDataset)
    {cursor : Cursor} (hcursor : cursor.Fits) (htext : request'.cursor = some cursor.encode)
    (hbinding : cursor.binding ≠ binding request') :
    prepare registry floats dataset request' = .error .badCursor := by
  have hparsed : parsedCursor request' = .error .badCursor := by
    rw [parsedCursor, htext]
    show (do
      let cursor ← Cursor.parse cursor.encode
      _) = _
    rw [Cursor.parse_encode hcursor]
    show (if _ ∧ _ then _ else _) = _
    rw [if_neg fun hand => hbinding hand.2]
  rw [prepare, hparsed]
  rfl

theorem parsedCursor_takes {cursor : Cursor} (hcursor : cursor.Fits)
    (htext : request'.cursor = some cursor.encode)
    (hsegment : cursor.segmentId = request'.data.segmentId)
    (hbinding : cursor.binding = binding request') : parsedCursor request' = .ok (some cursor) := by
  rw [parsedCursor, htext]
  show (do
    let cursor ← Cursor.parse cursor.encode
    _) = _
  rw [Cursor.parse_encode hcursor]
  show (if _ ∧ _ then _ else _) = _
  rw [if_pos ⟨hsegment, hbinding⟩]

/-- The requests have different bytes, and one refuses the cursors that the other issues, unless
the hash of the two is the same. -/
def RowsBound (registry : Registry) (floats : FloatText) (request request' : RowsRequest) : Prop :=
  rowsBytes request ≠ rowsBytes request' ∧
    ((fnv (rowsBytes request) = fnv (rowsBytes request') →
        rowsBytes request = rowsBytes request') →
      ∀ (dataset : QueryDataset) (cursor : Cursor), cursor.Fits →
        cursor.segmentId = request.data.segmentId → cursor.binding = binding request →
        prepare registry floats dataset { request' with cursor := some cursor.encode } =
          .error .badCursor)

/-- A cursor is read back from its text.  Two requests are bound exactly when they are told apart,
which requests that differ are if they have as many fields and a tail in both or in neither. -/
theorem rowsCursor_bound_iff (registry : Registry) (floats : FloatText) (h : request.Fits)
    (h' : request'.Fits) :
    (∀ cursor : Cursor, cursor.Fits → Cursor.parse cursor.encode = .ok cursor) ∧
      (RowsBound registry floats request request' ↔ RowsTold request request') ∧
      (request.data.fields.length = request'.data.fields.length →
        request.data.after.isSome = request'.data.after.isSome →
        RowsDiffer request request' → RowsTold request request') := by
  refine ⟨fun cursor hcursor => Cursor.parse_encode hcursor, ?_,
    fun hfields htail hdiffer => rowsTold_of_shape h h' hfields htail hdiffer⟩
  rw [← rowsBytes_ne_iff h h']
  constructor
  · intro hbound
    exact hbound.1
  · intro hbytes
    refine ⟨hbytes, fun hhash dataset cursor hcursor _ hbinding => ?_⟩
    apply prepare_refuses registry floats dataset hcursor rfl
    intro heq
    have hsame : binding request = binding request' := hbinding.symm.trans heq
    rw [binding_eq, binding_eq] at hsame
    exact hbytes (hhash (UInt64.toNat_inj.mp hsame))

end Told

/-! ## Two requests with the same bytes -/

/-- The rows of sessions, with the fields and the filters of a request. -/
def sessionRows (fields : List String) (filters : List RequestFilter) : RowsRequest where
  data := {
    segmentId := 1, sectionName := "pg_stat_activity", typeId := none, fields := fields
    filters := filters, after := none }
  order := .asc
  pageSize := 100
  cursor := none

def twoColumns : RowsRequest := sessionRows ["datname", "usename"] []

/-- All columns of the sessions whose database is called `usename`. -/
def oneDatabase : RowsRequest := sessionRows [] [⟨"datname", "usename"⟩]

theorem sessionRows_differ : RowsDiffer twoColumns oneDatabase :=
  Or.inr (Or.inr (Or.inr (Or.inl (List.cons_ne_nil _ _))))

/-- A cursor of one request. -/
def sessionRowsCursor (request : RowsRequest) : Cursor where
  segmentId := 1
  activePosition := 0
  layoutIndex := 0
  position := 100
  binding := binding request

theorem sessionRowsCursor_fits (request : RowsRequest) : (sessionRowsCursor request).Fits :=
  ⟨by norm_num [sessionRowsCursor], by norm_num [sessionRowsCursor],
    by norm_num [sessionRowsCursor], by norm_num [sessionRowsCursor],
    by norm_num [sessionRowsCursor], binding_lt request⟩

theorem sessionRows_fits {fields : List String} {filters : List RequestFilter}
    (hfields : ∀ field ∈ fields, ShortText field)
    (hfilters : ∀ filter ∈ filters, ShortText filter.column ∧ ShortText filter.value) :
    (sessionRows fields filters).Fits where
  section_short := by
    show (utf8 "pg_stat_activity").length < 2 ^ 64
    decide +kernel
  typeId_lt typeId htype := absurd htype (by simp [sessionRows])
  fields_short := hfields
  filters_short := hfilters
  tail_range after hafter := absurd hafter (by simp [sessionRows])

theorem short_columns : ShortText "datname" ∧ ShortText "usename" := by
  show (utf8 _).length < 2 ^ 64 ∧ (utf8 _).length < 2 ^ 64
  decide +kernel

theorem twoColumns_fits : twoColumns.Fits := by
  apply sessionRows_fits
  · intro field hfield
    rcases List.mem_pair.mp hfield with rfl | rfl
    · exact short_columns.1
    · exact short_columns.2
  · intro filter hfilter
    exact absurd hfilter List.not_mem_nil

theorem oneDatabase_fits : oneDatabase.Fits := by
  apply sessionRows_fits
  · intro field hfield
    exact absurd hfield List.not_mem_nil
  · intro filter hfilter
    rw [List.mem_singleton.mp hfilter]
    exact short_columns

theorem rowsCursor_bound_sample :
    RowsBound sessionsRegistry ⟨fun _ => none, fun _ => none⟩ oneDatabase
      (sessionRows [] [⟨"usename", "datname"⟩]) := by
  have hfits : (sessionRows [] [⟨"usename", "datname"⟩]).Fits := by
    apply sessionRows_fits
    · intro field hfield
      exact absurd hfield List.not_mem_nil
    · intro filter hfilter
      rw [List.mem_singleton.mp hfilter]
      exact ⟨short_columns.2, short_columns.1⟩
  have hbound := rowsCursor_bound_iff sessionsRegistry ⟨fun _ => none, fun _ => none⟩
    oneDatabase_fits hfits
  refine hbound.2.1.mpr (hbound.2.2 rfl rfl ?_)
  refine Or.inr (Or.inr (Or.inr (Or.inr (Or.inl ?_))))
  intro heq
  have hcolumn : "datname" = "usename" := congrArg RequestFilter.column (List.cons.inj heq).1
  exact absurd hcolumn (by decide)

/-- A cursor of the one request is taken for the other. -/
theorem rowsCursor_bound_differs :
    RowsDiffer twoColumns oneDatabase ∧ rowsBytes twoColumns = rowsBytes oneDatabase ∧
      parsedCursor { oneDatabase with cursor := some (sessionRowsCursor twoColumns).encode } =
        .ok (some (sessionRowsCursor twoColumns)) := by
  have hbytes : rowsBytes twoColumns = rowsBytes oneDatabase := by
    rw [rowsBytes_eq_iff twoColumns_fits oneDatabase_fits]
    exact ⟨rfl, rfl, rfl, rfl⟩
  refine ⟨sessionRows_differ, hbytes, ?_⟩
  apply parsedCursor_takes (sessionRowsCursor_fits twoColumns) rfl rfl
  show binding twoColumns = binding oneDatabase
  rw [binding_eq, binding_eq, hbytes]

end Kronika.Query
