/-
A snapshot cursor belongs to one request, up to its hash.

The bytes that are hashed tell every field of a request that a page depends on, so a request
takes the cursor of another one only where the hash of two different byte strings is the same.
The hash has 64 bits, and there are such strings.
-/
import Kronika.Query.SnapshotBinding

namespace Kronika.Query

open Library Library.Framing

/-! ## Fields of the parts -/

section Fields

variable {tag : String}

theorem valuesOf_tagged_ite (tag other : String) (values : List Format.Bytes) :
    valuesOf tag (tagged other values) = if other = tag then values else [] := by
  split_ifs with h
  · rw [h, valuesOf_tagged]
  · exact valuesOf_tagged_other h values

theorem valuesOf_cons_ite (tag : String) (part : String × Format.Bytes) (parts : Parts) :
    valuesOf tag (part :: parts) =
      if part.1 = tag then part.2 :: valuesOf tag parts else valuesOf tag parts := by
  split_ifs with h
  · exact List.filterMap_cons_some (if_pos h)
  · exact List.filterMap_cons_none (if_neg h)

theorem valuesOf_filterParts (tag : String) (filters : List RequestFilter) :
    valuesOf tag (filterParts filters) =
      if tag = "filter-column" then filters.map fun filter => utf8 filter.column
      else if tag = "filter-value" then filters.map fun filter => utf8 filter.value
      else [] := by
  induction filters with
  | nil =>
    split_ifs
    all_goals rfl
  | cons filter filters ih =>
    rw [filterParts, List.flatMap_cons, valuesOf_append]
    show valuesOf tag _ ++ valuesOf tag (filterParts filters) = _
    rw [valuesOf_cons_ite, valuesOf_cons_ite, valuesOf_nil]
    split_ifs
    all_goals simp_all

def observedTags : List String :=
  ["locks-observation", "activity-segment", "activity-prefix", "activity-from", "activity-to",
    "activity-layout", "activity-rows"]

theorem observedParts_tags {registry : Registry} {observed : Option (List DatasetSegment)}
    {part : String × Format.Bytes} (h : part ∈ observedParts registry observed) :
    part.1 ∈ observedTags := by
  cases observed with
  | none => cases h
  | some observed =>
    rw [observedParts, List.mem_cons, List.mem_flatMap] at h
    rcases h with rfl | ⟨segment, _, h⟩
    · decide
    · rw [segmentParts, List.mem_append, List.mem_flatMap] at h
      rcases h with h | ⟨stored, _, h⟩
      · simp only [List.mem_cons, List.not_mem_nil, or_false] at h
        rcases h with rfl | rfl | rfl | rfl
        all_goals simp [observedTags]
      · simp only [List.mem_cons, List.not_mem_nil, or_false] at h
        rcases h with rfl | rfl
        all_goals simp [observedTags]

theorem valuesOf_observed {registry : Registry} {observed : Option (List DatasetSegment)}
    (htag : tag ∉ observedTags) (parts : Parts) :
    valuesOf tag (parts ++ observedParts registry observed) = valuesOf tag parts := by
  have hnone : valuesOf tag (observedParts registry observed) = [] := by
    apply valuesOf_other
    intro part hpart heq
    rw [← heq] at htag
    exact htag (observedParts_tags hpart)
  rw [valuesOf_append, hnone, List.append_nil]

end Fields

/-! ## Fields from their bytes -/

section Bytes

theorem toList_loop (bytes : ByteArray) (i : Nat) (read : List UInt8) :
    ByteArray.toList.loop bytes i read = read.reverse ++ bytes.data.toList.drop i := by
  induction i, read using ByteArray.toList.loop.induct bytes with
  | case1 i read h ih =>
    have hlength : i < bytes.data.toList.length := h
    have hget : bytes.get! i = bytes.data.toList[i] := by
      show bytes.data[i]! = _
      rw [getElem!_pos bytes.data i h, Array.getElem_toList]
    rw [ByteArray.toList.loop, if_pos h, ih, List.reverse_cons, List.append_assoc,
      List.drop_eq_getElem_cons hlength, hget]
    rfl
  | case2 i read h =>
    have hlength : bytes.data.toList.length ≤ i := Nat.le_of_not_lt h
    rw [ByteArray.toList.loop, if_neg h, List.drop_eq_nil_of_le hlength, List.append_nil]

theorem utf8_injective : Function.Injective utf8 := by
  intro left right h
  have htoList : ∀ bytes : ByteArray, bytes.toList = bytes.data.toList := fun bytes => by
    rw [ByteArray.toList, toList_loop, List.reverse_nil, List.nil_append, List.drop_zero]
  rw [utf8, utf8, htoList, htoList, Array.toList_inj] at h
  exact String.toByteArray_inj.mp (ByteArray.ext h)

theorem leBytes_injOn {width m n : Nat} (hm : m < 256 ^ width) (hn : n < 256 ^ width)
    (h : leBytes width m = leBytes width n) : m = n := by
  rw [← leNat_leBytes_of_lt hm, h, leNat_leBytes_of_lt hn]

theorem signedBytes_injOn {a b : Int} (ha : -2 ^ 63 ≤ a ∧ a < 2 ^ 63)
    (hb : -2 ^ 63 ≤ b ∧ b < 2 ^ 63) (h : signedBytes a = signedBytes b) : a = b := by
  have hwidth : ∀ value : Int, (value % 2 ^ 64).toNat < 256 ^ 8 := by
    intro value
    omega
  have heq := leBytes_injOn (hwidth a) (hwidth b) h
  omega

theorem toList_map_injOn {α β : Type*} {f : α → β} {left right : Option α}
    (hinj : ∀ a ∈ left, ∀ b ∈ right, f a = f b → a = b)
    (h : left.toList.map f = right.toList.map f) : left = right := by
  cases left with
  | none =>
    cases right with
    | none => rfl
    | some b => cases h
  | some a =>
    cases right with
    | none => cases h
    | some b => rw [hinj a rfl b rfl (List.cons.inj h).1]

theorem asStr_group_injective : Function.Injective RelationGroup.asStr := by
  intro left right h
  cases left
  all_goals cases right
  all_goals first | rfl | exact absurd h (by decide)

theorem asStr_scope_injective : Function.Injective StatementScope.asStr := by
  intro left right h
  cases left
  all_goals cases right
  all_goals first | rfl | exact absurd h (by decide)

theorem asStr_order_injective : Function.Injective Order.asStr := by
  intro left right h
  cases left
  all_goals cases right
  all_goals first | rfl | exact absurd h (by decide)

end Bytes

/-! ## The request from its bytes -/

def ShortText (text : String) : Prop := (utf8 text).length < 2 ^ 64

/-- A request of the widths of its fields. -/
structure SnapshotRequest.Fits (request : SnapshotRequest) (search : Option StructuredSearch) :
    Prop where
  segmentId_range : -2 ^ 63 ≤ request.segmentId ∧ request.segmentId < 2 ^ 63
  moment_range : -2 ^ 63 ≤ request.moment ∧ request.moment < 2 ^ 63
  typeId_lt : ∀ typeId ∈ request.typeId, typeId < 2 ^ 32
  text_lt : ∀ text ∈ request.text, text < 2 ^ 64
  names_short : ∀ name ∈ request.sections ++ request.fields ++ request.orderBy, ShortText name
  filters_short : ∀ filter ∈ request.filters, ShortText filter.column ∧ ShortText filter.value
  search_short : ∀ found ∈ search, (canonicalBytes found).length < 2 ^ 64

section Bound

variable {request request' : SnapshotRequest} {search search' : Option StructuredSearch}

theorem bound_eq (hfits : request.Fits search) (hfits' : request'.Fits search')
    (h : ∀ tag, tag ∉ observedTags → valuesOf tag (snapshotParts request search) =
      valuesOf tag (snapshotParts request' search')) :
    request.bound search = request'.bound search' := by
  have hsegment := h "segment" (by decide)
  have hmoment := h "at" (by decide)
  have hlatest := h "selection" (by decide)
  have hsections := h "section" (by decide)
  have htype := h "type" (by decide)
  have hfields := h "field" (by decide)
  have htext := h "text" (by decide)
  have hcolumns := h "filter-column" (by decide)
  have hvalues := h "filter-value" (by decide)
  have hsearch := h "search" (by decide)
  have hfirst := h "first-match" (by decide)
  have hscope := h "scope" (by decide)
  have hby := h "by" (by decide)
  have hgroup := h "group" (by decide)
  have hdirection := h "direction" (by decide)
  simp [snapshotParts, valuesOf_append, valuesOf_tagged_ite, valuesOf_filterParts]
    at hsegment hmoment hlatest hsections htype hfields htext hcolumns hvalues hsearch hfirst
      hscope hby hgroup hdirection
  have hnames : Function.Injective (List.map utf8) := List.map_injective_iff.mpr utf8_injective
  have hfilterColumns : request.filters.map (·.column) = request'.filters.map (·.column) := by
    apply hnames
    rw [List.map_map, List.map_map]
    exact hcolumns
  have hfilterValues : request.filters.map (·.value) = request'.filters.map (·.value) := by
    apply hnames
    rw [List.map_map, List.map_map]
    exact hvalues
  apply Bound.ext
  · exact signedBytes_injOn hfits.segmentId_range hfits'.segmentId_range hsegment
  · exact signedBytes_injOn hfits.moment_range hfits'.moment_range hmoment
  · show request.latest = request'.latest
    cases hleft : request.latest
    all_goals cases hright : request'.latest
    all_goals first | rfl | simp [hleft, hright] at hlatest
  · exact hnames hsections
  · exact toList_map_injOn (fun a ha b hb => leBytes_injOn (hfits.typeId_lt a ha)
      (hfits'.typeId_lt b hb)) htype
  · exact hnames hfields
  · exact toList_map_injOn (fun a ha b hb => leBytes_injOn (hfits.text_lt a ha)
      (hfits'.text_lt b hb)) htext
  · show request.filters.map _ = request'.filters.map _
    rw [← List.zip_map', hfilterColumns, hfilterValues, List.zip_map']
  · show search.map _ = search'.map _
    apply toList_map_injOn (f := fun text => utf8 (String.ofList text))
    · intro a _ b _ heq
      exact String.ofList_inj.mp (utf8_injective heq)
    · cases search
      all_goals cases search'
      all_goals exact hsearch
  · show request.firstMatch = request'.firstMatch
    cases hleft : request.firstMatch
    all_goals cases hright : request'.firstMatch
    all_goals first | rfl | simp [hleft, hright] at hfirst
  · exact asStr_scope_injective (utf8_injective hscope)
  · exact hnames hby
  · exact toList_map_injOn (fun a _ b _ heq => asStr_group_injective (utf8_injective heq)) hgroup
  · exact asStr_order_injective (utf8_injective hdirection)

/-! ## Short parts -/

def ShortParts (parts : Parts) : Prop :=
  ∀ part ∈ parts, Short 8 (utf8 part.1) ∧ Short 8 part.2

theorem short_append {left right : Parts} (hleft : ShortParts left) (hright : ShortParts right) :
    ShortParts (left ++ right) := by
  intro part hpart
  exact (List.mem_append.mp hpart).elim (hleft part) (hright part)

theorem short_tagged {tag : String} {values : List Format.Bytes} (htag : Short 8 (utf8 tag))
    (hvalues : ∀ value ∈ values, Short 8 value) : ShortParts (tagged tag values) := by
  intro part hpart
  obtain ⟨value, hvalue, rfl⟩ := List.mem_map.mp hpart
  exact ⟨htag, hvalues value hvalue⟩

theorem short_of_le {bytes : Format.Bytes} (h : bytes.length ≤ 8) : Short 8 bytes :=
  h.trans_lt (by norm_num)

theorem short_leBytes {width : Nat} (h : width ≤ 8) (n : Nat) : Short 8 (leBytes width n) := by
  apply short_of_le
  rw [length_leBytes]
  exact h

theorem short_tag {tag : String} (h : tag ∈ observedTags ++ ["segment", "at", "selection",
    "section", "type", "field", "text", "filter-column", "filter-value", "search", "first-match",
    "scope", "by", "group", "direction"]) : Short 8 (utf8 tag) := by
  revert tag
  show ∀ tag ∈ _, (utf8 tag).length < 256 ^ 8
  decide +kernel

theorem short_names {names : List String} (h : ∀ name ∈ names, ShortText name) :
    ∀ value ∈ names.map utf8, Short 8 value := by
  intro value hvalue
  obtain ⟨name, hname, rfl⟩ := List.mem_map.mp hvalue
  exact h name hname

theorem short_single {bytes : Format.Bytes} (h : Short 8 bytes) :
    ∀ value ∈ [bytes], Short 8 value :=
  List.forall_mem_singleton.mpr h

theorem short_filterParts {filters : List RequestFilter}
    (h : ∀ filter ∈ filters, ShortText filter.column ∧ ShortText filter.value) :
    ShortParts (filterParts filters) := by
  intro part hpart
  obtain ⟨filter, hfilter, hpart⟩ := List.mem_flatMap.mp hpart
  rw [List.mem_pair] at hpart
  have hcolumn : Short 8 (utf8 "filter-column") := short_tag (by decide)
  have hvalue : Short 8 (utf8 "filter-value") := short_tag (by decide)
  rcases hpart with rfl | rfl
  · exact ⟨hcolumn, (h filter hfilter).1⟩
  · exact ⟨hvalue, (h filter hfilter).2⟩

theorem short_words : ∀ text ∈ ["latest", "v1", "database", "schema", "tablespace", "object", "all",
    "workload", "asc", "desc"], Short 8 (utf8 text) := by
  show ∀ text ∈ _, (utf8 text).length < 256 ^ 8
  decide +kernel

theorem short_snapshotParts (h : request.Fits search) :
    ShortParts (snapshotParts request search) := by
  have hnames := h.names_short
  rw [List.forall_mem_append, List.forall_mem_append] at hnames
  refine short_append (short_tagged (short_tag (by decide)) ?_) <|
    short_append (short_tagged (short_tag (by decide)) ?_) <|
    short_append (short_tagged (short_tag (by decide)) ?_) <|
    short_append (short_tagged (short_tag (by decide)) ?_) <|
    short_append (short_tagged (short_tag (by decide)) ?_) <|
    short_append (short_tagged (short_tag (by decide)) ?_) <|
    short_append (short_tagged (short_tag (by decide)) ?_) <|
    short_append (short_filterParts h.filters_short) <|
    short_append (short_tagged (short_tag (by decide)) ?_) <|
    short_append (short_tagged (short_tag (by decide)) ?_) <|
    short_append (short_tagged (short_tag (by decide)) ?_) <|
    short_append (short_tagged (short_tag (by decide)) ?_) <|
    short_append (short_tagged (short_tag (by decide)) ?_) <|
    short_tagged (short_tag (by decide)) ?_
  · exact short_single (short_leBytes le_rfl _)
  · exact short_single (short_leBytes le_rfl _)
  · split_ifs
    · exact short_single (short_words _ (by decide))
    · simp
  · exact short_names hnames.1.1
  · intro value hvalue
    obtain ⟨typeId, _, rfl⟩ := List.mem_map.mp hvalue
    exact short_leBytes (by decide) typeId
  · exact short_names hnames.1.2
  · intro value hvalue
    obtain ⟨text, _, rfl⟩ := List.mem_map.mp hvalue
    exact short_leBytes le_rfl text
  · intro value hvalue
    obtain ⟨found, hfound, rfl⟩ := List.mem_map.mp hvalue
    exact h.search_short found (Option.mem_toList.mp hfound)
  · exact short_single (short_of_le (by simp))
  · apply short_single
    cases request.scope
    all_goals exact short_words _ (by decide)
  · exact short_names hnames.2
  · intro value hvalue
    obtain ⟨group, _, rfl⟩ := List.mem_map.mp hvalue
    cases group
    all_goals exact short_words _ (by decide)
  · apply short_single
    cases request.direction
    all_goals exact short_words _ (by decide)

theorem short_observedParts (registry : Registry) (observed : Option (List DatasetSegment)) :
    ShortParts (observedParts registry observed) := by
  cases observed with
  | none =>
    intro part hpart
    cases hpart
  | some observed =>
    intro part hpart
    refine ⟨short_tag (List.mem_append_left _ (observedParts_tags hpart)), ?_⟩
    rw [observedParts, List.mem_cons, List.mem_flatMap] at hpart
    rcases hpart with rfl | ⟨segment, _, hpart⟩
    · exact short_words _ (by decide)
    · rw [segmentParts, List.mem_append, List.mem_flatMap] at hpart
      rcases hpart with hpart | ⟨stored, _, hpart⟩
      · simp only [List.mem_cons, List.not_mem_nil, or_false] at hpart
        rcases hpart with rfl | rfl | rfl | rfl
        all_goals exact short_leBytes le_rfl _
      · simp only [List.mem_cons, List.not_mem_nil, or_false] at hpart
        rcases hpart with rfl | rfl
        · exact short_leBytes (by decide) _
        · exact short_leBytes le_rfl _

theorem boundBytes_injective {registry registry' : Registry}
    {observed observed' : Option (List DatasetSegment)} (hfits : request.Fits search)
    (hfits' : request'.Fits search')
    (h : boundBytes registry request search observed =
      boundBytes registry' request' search' observed') :
    request.bound search = request'.bound search' := by
  have hparts := written_injective utf8 (by decide) utf8_injective
    (short_append (short_snapshotParts hfits) (short_observedParts registry observed))
    (short_append (short_snapshotParts hfits') (short_observedParts registry' observed')) h
  apply bound_eq hfits hfits'
  intro tag htag
  rw [← valuesOf_observed htag, hparts, valuesOf_observed htag]

end Bound

/-! ## Cursors -/

def SnapshotCursor.Fits (cursor : SnapshotCursor) : Prop := cursor.toCursor.Fits

theorem SnapshotCursor.parse_encode {cursor : SnapshotCursor} (h : cursor.Fits) :
    SnapshotCursor.parse cursor.encode = .ok cursor := by
  rw [SnapshotCursor.parse, SnapshotCursor.encode, Cursor.parse_encode h]
  rfl

section Accepted

variable {registry : Registry} {dataset dataset' : QueryDataset}
  {current current' : DatasetSegment} {segments segments' : List DatasetSegment}
  {request request' : SnapshotRequest} {search search' : Option StructuredSearch}
  {pinCurrent pinCurrent' : Bool} {prepared prepared' : SnapshotPreparation}
  {cursor : SnapshotCursor}

theorem prepareSelectedState_ok
    (h : prepareSelectedState registry dataset current segments request search pinCurrent =
      .ok prepared) :
    prepared.binding = observedBinding registry request search prepared.observed ∧
      parsedSnapshotCursor request = .ok prepared.cursor ∧
      ∀ cursor ∈ prepared.cursor, cursor.binding = prepared.binding.toNat := by
  obtain ⟨parsed, hparsed, h⟩ := bind_eq_ok.mp h
  obtain ⟨anchor, _, h⟩ := bind_eq_ok.mp h
  split_ifs at h with hposition
  dsimp only at h
  split_ifs at h with hbinding
  rw [← Except.ok.inj h]
  refine ⟨rfl, hparsed, ?_⟩
  intro cursor hcursor
  rw [Option.any_eq_true] at hbinding
  by_contra hne
  exact hbinding ⟨cursor, hcursor, decide_eq_true hne⟩

theorem prepareSelectedState_next {anchor : DatasetSegment}
    (hparsed : parsedSnapshotCursor request = .ok (some cursor))
    (hpin : pin dataset current (some cursor.toCursor) = .ok anchor)
    (hposition : cursor.activePosition = anchor.activePosition.getD 0)
    (hbinding : cursor.binding = (observedBinding registry request search
      (observedSegments registry segments request anchor pinCurrent)).toNat) :
    prepareSelectedState registry dataset current segments request search pinCurrent = .ok {
      anchor := anchor
      cursor := some cursor
      observed := observedSegments registry segments request anchor pinCurrent
      binding := observedBinding registry request search
        (observedSegments registry segments request anchor pinCurrent) } := by
  rw [prepareSelectedState, hparsed]
  show (do
    let anchor ← pin dataset current (some cursor.toCursor)
    _) = _
  rw [hpin]
  show (if decide (cursor.activePosition ≠ anchor.activePosition.getD 0) = true then _ else _) = _
  rw [if_neg (by simp [hposition])]
  show (if decide (cursor.binding ≠ _) = true then _ else _) = _
  rw [if_neg (by simp [hbinding])]

theorem prepared_cursor (hcursor : cursor.Fits) (htext : request.cursor = some cursor.encode)
    (h : parsedSnapshotCursor request = .ok prepared.cursor) : cursor ∈ prepared.cursor := by
  rw [parsedSnapshotCursor, htext] at h
  dsimp only at h
  rw [SnapshotCursor.parse_encode hcursor] at h
  obtain ⟨parsed, hparsed, h⟩ := bind_eq_ok.mp h
  split_ifs at h
  rw [← Except.ok.inj h, ← Except.ok.inj hparsed]
  rfl

/-- Requests that differ in what a page is bound to have different bytes, and one takes the cursor
of the other only where the hash of the two is the same.  A cursor is read back from its text. -/
theorem snapshotCursor_bound (registry : Registry) (hfits : request.Fits search)
    (hfits' : request'.Fits search') (hbound : request.bound search ≠ request'.bound search') :
    (∀ observed observed', boundBytes registry request search observed ≠
      boundBytes registry request' search' observed') ∧
    (∀ (dataset dataset' : QueryDataset) (current current' : DatasetSegment)
      (segments segments' : List DatasetSegment) (pinCurrent pinCurrent' : Bool)
      (prepared prepared' : SnapshotPreparation) (cursor : SnapshotCursor),
      prepareSelectedState registry dataset current segments request search pinCurrent =
        .ok prepared →
      cursor.Fits → cursor.binding = prepared.binding.toNat →
      request'.cursor = some cursor.encode →
      prepareSelectedState registry dataset' current' segments' request' search' pinCurrent' =
        .ok prepared' →
      fnv (boundBytes registry request search prepared.observed) =
        fnv (boundBytes registry request' search' prepared'.observed)) ∧
    ∀ cursor : SnapshotCursor, cursor.Fits → SnapshotCursor.parse cursor.encode = .ok cursor := by
  refine ⟨?_, ?_, fun cursor hcursor => SnapshotCursor.parse_encode hcursor⟩
  · intro observed observed' hbytes
    exact hbound (boundBytes_injective hfits hfits' hbytes)
  · intro dataset dataset' current current' segments segments' pinCurrent pinCurrent' prepared
      prepared' cursor h hcursor hbinding htext h'
    obtain ⟨hminted, _, _⟩ := prepareSelectedState_ok h
    obtain ⟨hexpected, hparsed, haccepted⟩ := prepareSelectedState_ok h'
    have heq := haccepted cursor (prepared_cursor hcursor htext hparsed)
    rw [← observedBinding_eq, ← observedBinding_eq, ← hminted, ← hexpected]
    exact UInt64.toNat_inj.mp (hbinding.symm.trans heq)

end Accepted

/-! ## Two requests of one hash -/

-- The hash of a request is evaluated once, and not when two requests are compared.
attribute [local irreducible] hashBytes

/-- The sessions of one database. -/
def sessionsOf (datname : String) (cursor : Option String) : SnapshotRequest where
  segmentId := 1
  latest := false
  moment := 0
  sections := ["pg_stat_activity"]
  fields := []
  orderBy := []
  direction := .desc
  group := none
  pageSize := some 50
  cursor := cursor
  search := none
  firstMatch := false
  text := none
  filters := [⟨"datname", datname⟩]
  typeId := none
  rowOrdinal := none
  scope := .all

def sessionsSegment : DatasetSegment where
  id := 1
  kind := .finished
  minTs := 0
  maxTs := 0
  activePosition := none
  sections := []

def sessionsDataset : QueryDataset where
  segment := fun _ => .ok [sessionsSegment]
  atActivePosition := fun segment _ => .ok segment
  openSegment := fun _ => .error .noSuchSegment

def sessionsRegistry : Registry where
  contracts := []
  logicalSectionName := fun _ => none

def prepareSessions (datname : String) (cursor : Option String) :
    Except QueryError SnapshotPreparation :=
  prepareSelectedState sessionsRegistry sessionsDataset sessionsSegment [sessionsSegment]
    (sessionsOf datname cursor) none false

theorem sessionsOf_fits {datname : String} (h : ShortText datname) (cursor : Option String) :
    (sessionsOf datname cursor).Fits none := by
  refine ⟨⟨by norm_num [sessionsOf], by norm_num [sessionsOf]⟩,
    ⟨by norm_num [sessionsOf], by norm_num [sessionsOf]⟩, ?_, ?_, ?_, ?_, ?_⟩
  · intro typeId htype
    cases htype
  · intro text htext
    cases htext
  · show ∀ name ∈ ["pg_stat_activity"], (utf8 name).length < 2 ^ 64
    decide +kernel
  · have hcolumn : ShortText "datname" := by
      show (utf8 "datname").length < 2 ^ 64
      decide +kernel
    intro filter hfilter
    rw [List.mem_singleton.mp hfilter]
    exact ⟨hcolumn, h⟩
  · intro found hfound
    cases hfound

theorem sessions_binding : snapshotBinding (sessionsOf "UnwwBLL2gqc" none) none =
    snapshotBinding (sessionsOf "DI789WcEaup" none) none := by
  decide +kernel

/-- A page of the sessions, from the first one on or after a cursor. -/
def sessionsPage (datname : String) (cursor : Option SnapshotCursor) : SnapshotPreparation where
  anchor := sessionsSegment
  cursor := cursor
  observed := none
  binding := snapshotBinding (sessionsOf datname none) none

def sessionsCursor (datname : String) : SnapshotCursor :=
  (sessionsPage datname none).nextCursor 0 49

theorem sessionsCursor_binding (datname : String) :
    (sessionsCursor datname).binding = (sessionsPage datname none).binding.toNat := by
  rw [sessionsCursor, SnapshotPreparation.nextCursor]

theorem prepareSessions_first (datname : String) :
    prepareSessions datname none = .ok (sessionsPage datname none) := rfl

theorem sessionsCursor_fits (datname : String) : (sessionsCursor datname).Fits := by
  refine ⟨?_, ?_, ?_, ?_, ?_, UInt64.toNat_lt _⟩
  all_goals norm_num [sessionsCursor, SnapshotPreparation.nextCursor, sessionsPage, sessionsSegment,
    SnapshotCursor.toCursor]

theorem sessions_short : ShortText "UnwwBLL2gqc" ∧ ShortText "DI789WcEaup" := by
  show (utf8 _).length < 2 ^ 64 ∧ (utf8 _).length < 2 ^ 64
  decide +kernel

theorem sessions_bound_ne {datname other : String} {cursor cursor' : Option String}
    (h : datname ≠ other) :
    (sessionsOf datname cursor).bound none ≠ (sessionsOf other cursor').bound none := by
  intro heq
  have hfilters : [datname] = [other] :=
    congrArg (fun bound : Bound => bound.filters.map Prod.snd) heq
  exact h (List.cons.inj hfilters).1

theorem prepareSessions_next {datname other : String}
    (h : snapshotBinding (sessionsOf other none) none =
      snapshotBinding (sessionsOf datname none) none) :
    prepareSessions datname (some (sessionsCursor other).encode) =
      .ok (sessionsPage datname (some (sessionsCursor other))) := by
  have hparsed : parsedSnapshotCursor
      (sessionsOf datname (some (sessionsCursor other).encode)) =
        .ok (some (sessionsCursor other)) := by
    show (do
      let cursor ← SnapshotCursor.parse (sessionsCursor other).encode
      _) = _
    rw [SnapshotCursor.parse_encode (sessionsCursor_fits other)]
    rfl
  exact prepareSelectedState_next hparsed rfl rfl (congrArg UInt64.toNat h)

theorem snapshotCursor_bound_sample :
    (∀ observed observed',
      boundBytes sessionsRegistry (sessionsOf "UnwwBLL2gqc" none) none observed ≠
        boundBytes sessionsRegistry
          (sessionsOf "DI789WcEaup" (some (sessionsCursor "UnwwBLL2gqc").encode)) none
          observed') ∧
    fnv (boundBytes sessionsRegistry (sessionsOf "UnwwBLL2gqc" none) none none) =
      fnv (boundBytes sessionsRegistry
        (sessionsOf "DI789WcEaup" (some (sessionsCursor "UnwwBLL2gqc").encode)) none none) ∧
    SnapshotCursor.parse (sessionsCursor "UnwwBLL2gqc").encode =
      .ok (sessionsCursor "UnwwBLL2gqc") := by
  have hbound := snapshotCursor_bound sessionsRegistry
    (sessionsOf_fits sessions_short.1 none)
    (sessionsOf_fits sessions_short.2 (some (sessionsCursor "UnwwBLL2gqc").encode))
    (sessions_bound_ne (by decide))
  refine ⟨hbound.1, ?_, hbound.2.2 _ (sessionsCursor_fits _)⟩
  have hfirst := prepareSessions_first "UnwwBLL2gqc"
  have hnext := prepareSessions_next sessions_binding
  have htext : (sessionsOf "DI789WcEaup" (some (sessionsCursor "UnwwBLL2gqc").encode)).cursor =
      some (sessionsCursor "UnwwBLL2gqc").encode := by rw [sessionsOf]
  have hhash := hbound.2.1 _ _ _ _ _ _ _ _ _ _ (sessionsCursor "UnwwBLL2gqc") hfirst
    (sessionsCursor_fits "UnwwBLL2gqc") (sessionsCursor_binding "UnwwBLL2gqc") htext hnext
  exact hhash

/-- The request for one database takes the cursor of the request for the other. -/
theorem snapshotCursor_bound_differs :
    (sessionsOf "UnwwBLL2gqc" none).bound none ≠
      (sessionsOf "DI789WcEaup" (some (sessionsCursor "UnwwBLL2gqc").encode)).bound none ∧
    prepareSessions "UnwwBLL2gqc" none = .ok (sessionsPage "UnwwBLL2gqc" none) ∧
    sessionsCursor "UnwwBLL2gqc" = (sessionsPage "UnwwBLL2gqc" none).nextCursor 0 49 ∧
    prepareSessions "DI789WcEaup" (some (sessionsCursor "UnwwBLL2gqc").encode) =
      .ok (sessionsPage "DI789WcEaup" (some (sessionsCursor "UnwwBLL2gqc"))) :=
  ⟨sessions_bound_ne (by decide), prepareSessions_first _, rfl,
    prepareSessions_next sessions_binding⟩

end Kronika.Query
