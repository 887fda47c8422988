/-
The rows of a captured journal, layout by layout.

The parts of a generation stay while it lives, so a later capture shows the rows of an
earlier one first, under the same ordinals.  The count of a layout in the catalogs at the
earlier position is where the tail of the layout begins.
-/
import Kronika.Query.JournalCapture

namespace Kronika.Query

open Format Library Reader Store Writer

variable {content : JournalContent} {finished : Int → Option FinishedSegment}
  {crc32c : Checksum} {segmentId : SegmentId} {parts left right : List (ValidPart crc32c)}
  {typeId : Nat}

/-! ## The rows of a capture -/

def Counted (content : JournalContent) (parts : List ActivePart) : Prop :=
  ∀ part ∈ parts, ∀ typeId,
    ((content part).rows typeId).length = rowTotal part.catalog.entries typeId

/-- What the writer of a generation sees to: the counts of the catalogs, that every string
of a row resolves in the first parts that end with the row's part or later, and the widths. -/
structure Written (content : JournalContent) (segmentId : SegmentId)
    (parts : List (ValidPart crc32c)) : Prop where
  counted : Counted content (activeParts segmentId journalHeaderLen parts)
  resolves : ∀ left right, parts = left ++ right →
    ∀ part ∈ activeParts segmentId journalHeaderLen left, ∀ typeId,
      ∀ row ∈ (content part).rows typeId, ∀ id ∈ row.ids,
        ((segmentOf content (captured segmentId left)).dictionary id).isSome
  fits : ∀ left right, parts = left ++ right →
    (segmentOf content (captured segmentId left)).Fits

theorem Written.front (h : Written content segmentId (left ++ right)) :
    Written content segmentId left where
  counted part hmem := by
    apply h.counted
    rw [activeParts_append]
    exact List.mem_append_left _ hmem
  resolves front back hsplit := h.resolves front (back ++ right) (by rw [hsplit, List.append_assoc])
  fits front back hsplit := h.fits front (back ++ right) (by rw [hsplit, List.append_assoc])

def partRows (content : JournalContent) (parts : List ActivePart) (typeId : Nat) : List Row :=
  parts.flatMap fun part => (content part).rows typeId

theorem length_partRows {parts : List ActivePart} (h : Counted content parts) (typeId : Nat) :
    (partRows content parts typeId).length =
      rowTotal ((parts.map (·.catalog)).flatMap (·.entries)) typeId := by
  induction parts with
  | nil => rfl
  | cons part parts ih =>
    have hrest : Counted content parts := fun other hmem => h other (List.mem_cons_of_mem _ hmem)
    rw [partRows, List.flatMap_cons, List.length_append, h part (List.mem_cons_self ..),
      List.map_cons, List.flatMap_cons, rowTotal_append, ← ih hrest, partRows]

theorem lookup_typed {β : Type} (rows : Nat → β) (sections : List SegmentSection) (typeId : Nat) :
    (sections.map fun found => (found.typeId, rows found.typeId)).lookup typeId =
      if typeId ∈ sections.map (·.typeId) then some (rows typeId) else none := by
  induction sections with
  | nil => rfl
  | cons found sections ih =>
    rw [List.map_cons, List.lookup_cons]
    by_cases h : typeId = found.typeId
    · rw [h, BEq.refl, List.map_cons, if_pos (List.mem_cons_self ..)]
    · rw [beq_false_of_ne h, List.map_cons]
      simp only [List.mem_cons, h, false_or]
      exact ih

theorem rows_segmentOf {snapshot : ActiveSnapshot} (h : Counted content snapshot.parts)
    (typeId : Nat) :
    (segmentOf content snapshot).rows typeId = partRows content snapshot.parts typeId := by
  have hlookup := lookup_typed (partRows content snapshot.parts)
    (sectionsOf (catalogsOf snapshot)) typeId
  show (((sectionsOf (catalogsOf snapshot)).map fun found =>
    (found.typeId, partRows content snapshot.parts found.typeId)).lookup typeId).getD [] = _
  rw [hlookup]
  by_cases hmem : typeId ∈ (sectionsOf (catalogsOf snapshot)).map (·.typeId)
  · rw [if_pos hmem]
    rfl
  · have hnone : ((catalogsOf snapshot).flatMap (·.entries)).filter (·.typeId = typeId) = [] := by
      rw [List.filter_eq_nil_iff]
      intro entry hentry htype
      rw [decide_eq_true_eq] at htype
      exact hmem ((mem_sectionsOf _ _).mpr ⟨entry, hentry, htype⟩)
    have hlength := length_partRows h typeId
    rw [rowTotal, show snapshot.parts.map (·.catalog) = catalogsOf snapshot from rfl, hnone]
      at hlength
    rw [if_neg hmem]
    exact (List.length_eq_zero_iff.mp hlength).symm

theorem Written.rows (h : Written content segmentId parts) (typeId : Nat) :
    (segmentOf content (captured segmentId parts)).rows typeId =
      partRows content (activeParts segmentId journalHeaderLen parts) typeId := by
  have hparts := (captures_captured segmentId parts).parts_eq
  rw [rows_segmentOf (by rw [hparts]; exact h.counted), hparts]

theorem Written.rows_append (h : Written content segmentId (left ++ right)) (typeId : Nat) :
    ∃ later, (segmentOf content (captured segmentId (left ++ right))).rows typeId =
      (segmentOf content (captured segmentId left)).rows typeId ++ later := by
  refine ⟨partRows content
    (activeParts segmentId (journalHeaderLen + (frames left).length) right) typeId, ?_⟩
  rw [h.rows, h.front.rows, activeParts_append, partRows, List.flatMap_append]
  rfl

theorem Written.priorRows (h : Written content segmentId parts) (typeId : Nat) :
    priorRows (some (referenceOf (captured segmentId parts))) typeId =
      ((segmentOf content (captured segmentId parts)).rows typeId).length := by
  have hparts := (captures_captured segmentId parts).parts_eq
  have hlength := length_partRows h.counted typeId
  have hfits := (h.fits parts [] (List.append_nil parts).symm).rows_lt typeId
  show (((sectionsOf (catalogsOf (captured segmentId parts))).find?
    (·.typeId = typeId)).map (·.rows)).getD 0 = _
  rw [find?_sectionsOf, catalogsOf, hparts, ← hlength, ← h.rows]
  omega

theorem Written.dictionary (h : Written content segmentId (left ++ right)) {row : Row}
    (hrow : row ∈ (segmentOf content (captured segmentId left)).rows typeId) :
    ∀ id ∈ row.ids, (segmentOf content (captured segmentId left)).dictionary id =
        (segmentOf content (captured segmentId (left ++ right))).dictionary id ∧
      ((segmentOf content (captured segmentId (left ++ right))).dictionary id).isSome := by
  intro id hid
  rw [h.front.rows] at hrow
  obtain ⟨part, hpart, hrow⟩ := List.mem_flatMap.mp hrow
  have hfirst := h.resolves left right rfl part hpart typeId row hrow id hid
  have hwhole := h.resolves (left ++ right) [] (List.append_nil _).symm part
    (by rw [activeParts_append]; exact List.mem_append_left _ hpart) typeId row hrow id hid
  obtain ⟨found, hfound⟩ := Option.isSome_iff_exists.mp hfirst
  refine ⟨?_, hwhole⟩
  have hentries : ∀ shown : List (ValidPart crc32c),
      (segmentOf content (captured segmentId shown)).dictionary id =
        entryOf ((activeParts segmentId journalHeaderLen shown).flatMap
          fun part => (content part).entries) id := by
    intro shown
    rw [← (captures_captured segmentId shown).parts_eq]
    rfl
  rw [hentries (left ++ right), activeParts_append, List.flatMap_append] at hwhole ⊢
  rw [hfound]
  rw [hentries left] at hfound
  exact (entryOf_append hfound hwhole).symm

theorem Written.isSome (h : Written content segmentId parts) {row : Row}
    (hrow : row ∈ (segmentOf content (captured segmentId parts)).rows typeId) :
    ∀ id ∈ row.ids, ((segmentOf content (captured segmentId parts)).dictionary id).isSome := by
  intro id hid
  rw [h.rows] at hrow
  obtain ⟨part, hpart, hrow⟩ := List.mem_flatMap.mp hrow
  exact h.resolves parts [] (List.append_nil _).symm part hpart typeId row hrow id hid

/-! ## The items of a layout -/

theorem mem_numbered {segment : Segment} {item : Nat × Row}
    (h : item ∈ segment.numbered typeId) : item.2 ∈ segment.rows typeId := by
  obtain ⟨⟨row, ordinal⟩, hmem, rfl⟩ := List.mem_map.mp h
  exact (List.mem_zipIdx hmem).2.2 ▸ List.getElem_mem _

theorem ordinals_numbered (segment : Segment) (typeId : Nat) :
    (segment.numbered typeId).map (·.1) = List.range (segment.rows typeId).length := by
  rw [Segment.numbered, List.map_map]
  exact (List.zipIdx_map_snd 0 (segment.rows typeId)).trans List.range_eq_range'.symm

theorem numbered_append {earlier later : Segment} {rest : List Row}
    (h : later.rows typeId = earlier.rows typeId ++ rest) :
    later.numbered typeId = earlier.numbered typeId ++
      (later.numbered typeId).drop (earlier.rows typeId).length := by
  have hsplit : later.numbered typeId = earlier.numbered typeId ++
      (rest.zipIdx (earlier.rows typeId).length).map fun entry => (entry.2, entry.1) := by
    rw [Segment.numbered, h, List.zipIdx_append, List.map_append, Nat.zero_add]
    rfl
  conv_lhs => rw [hsplit]
  rw [hsplit, ← length_numbered earlier typeId, List.drop_left]

variable {dictionary dictionary' : Dictionary} {row : Row} {plan : Plan}

theorem TypedFilter.accepts_congr (h : ∀ id ∈ row.ids, dictionary id = dictionary' id)
    (filter : TypedFilter) : filter.accepts row dictionary = filter.accepts row dictionary' := by
  cases filter with
  | cell column wanted => rfl
  | bytes column wanted =>
    rw [TypedFilter.accepts, TypedFilter.accepts]
    cases hget : row.get column with
    | none => rfl
    | some cell =>
      cases cell with
      | strId id =>
        dsimp only
        rw [h id (mem_ids_of_get hget)]
      | _ => rfl

theorem accepts_congr (h : ∀ id ∈ row.ids, dictionary id = dictionary' id) :
    plan.accepts row dictionary = plan.accepts row dictionary' := by
  rw [Plan.accepts, Plan.accepts, List.all_congr rfl fun filter => filter.accepts_congr h]

theorem shownColumn_congr (h : ∀ id ∈ row.ids, dictionary id = dictionary' id)
    (column : Option String) :
    shownColumn dictionary row column = shownColumn dictionary' row column := by
  rw [shownColumn, shownColumn]
  cases column with
  | none => rfl
  | some name =>
    rw [Option.bind_some]
    cases hget : row.get name with
    | none => rfl
    | some cell =>
      cases cell with
      | strId id =>
        dsimp only
        rw [shownCell, shownCell, h id (mem_ids_of_get hget)]
      | _ => rfl

theorem matchingItems_append (h : Written content segmentId (left ++ right))
    (hstart : plan.startRow = 0) :
    matchingItems (segmentOf content (captured segmentId (left ++ right))) plan =
      matchingItems (segmentOf content (captured segmentId left)) plan ++
        matchingItems (segmentOf content (captured segmentId (left ++ right)))
          { plan with startRow := ((segmentOf content (captured segmentId left)).rows
            plan.typeId).length } := by
  obtain ⟨rest, hrows⟩ := h.rows_append plan.typeId
  rw [matchingItems, matchingItems, hstart, List.drop_zero]
  conv_lhs => rw [numbered_append hrows, List.filter_append]
  congr 1
  apply List.filter_congr
  intro item hmem
  have hrow := mem_numbered hmem
  exact accepts_congr fun id hid => ((h.dictionary hrow) id hid).1.symm

theorem increasing_matchingItems (segment : Segment) (plan : Plan) :
    ((matchingItems segment plan).map (·.1)).Pairwise (· < ·) := by
  have hsub : ((matchingItems segment plan).map (·.1)).Sublist
      ((segment.numbered plan.typeId).map (·.1)) :=
    (List.filter_sublist.trans (List.drop_sublist _ _)).map _
  rw [ordinals_numbered] at hsub
  exact List.pairwise_lt_range.sublist hsub

/-! ## The plan of a layout -/

section Layouts

universe u

variable {α β : Type u} {as : List α} {bs : List β}

variable {key : α → Nat}

theorem filter_flatMap_key {items : α → List β} {keyOf : β → Nat}
    (hitems : ∀ a ∈ as, ∀ b ∈ items a, keyOf b = key a) (hnodup : (as.map key).Nodup) (k : Nat) :
    (as.flatMap items).filter (keyOf · = k) = ((as.find? (key · = k)).map items).getD [] := by
  induction as with
  | nil => rfl
  | cons a as ih =>
    have hrest : ∀ a' ∈ as, ∀ b ∈ items a', keyOf b = key a' :=
      fun a' hmem => hitems a' (List.mem_cons_of_mem _ hmem)
    have hfirst := hitems a (List.mem_cons_self ..)
    rw [List.map_cons, List.nodup_cons] at hnodup
    rw [List.flatMap_cons, List.filter_append, ih hrest hnodup.2, List.find?_cons]
    by_cases ha : key a = k
    · have hnone : as.find? (key · = k) = none := by
        rw [List.find?_eq_none]
        intro a' hmem ha'
        rw [decide_eq_true_eq] at ha'
        exact hnodup.1 (List.mem_map.mpr ⟨a', hmem, ha'.trans ha.symm⟩)
      have hall : (items a).filter (keyOf · = k) = items a := by
        rw [List.filter_eq_self]
        intro b hb
        rw [decide_eq_true_eq, hfirst b hb, ha]
      rw [hnone, hall, decide_eq_true ha]
      exact List.append_nil _
    · have hnone : (items a).filter (keyOf · = k) = [] := by
        rw [List.filter_eq_nil_iff]
        intro b hb hk
        rw [decide_eq_true_eq, hfirst b hb] at hk
        exact ha hk
      rw [hnone, decide_eq_false ha]
      rfl

theorem find?_forall₂ {R : α → β → Prop} {key' : β → Nat}
    (h : List.Forall₂ R as bs) (hkey : ∀ a b, R a b → key a = key' b) (k : Nat) :
    Option.Rel R (as.find? (key · = k)) (bs.find? (key' · = k)) := by
  induction h with
  | nil => exact .none
  | @cons a b as bs hab _ ih =>
    rw [List.find?_cons, List.find?_cons, hkey a b hab]
    by_cases hk : key' b = k
    · rw [decide_eq_true hk]
      exact .some hab
    · rw [decide_eq_false hk]
      exact ih

theorem find?_filterMap {f : Nat → Option α}
    (hkey : ∀ k a, f k = some a → key a = k) (ks : List Nat) (k : Nat) :
    (ks.filterMap f).find? (key · = k) = if k ∈ ks then f k else none := by
  induction ks with
  | nil => rfl
  | cons k' ks ih =>
    by_cases heq : k' = k
    · subst heq
      rw [if_pos (List.mem_cons_self ..)]
      cases hf : f k' with
      | none =>
        rw [List.filterMap_cons_none hf, ih, hf, ite_self]
      | some a =>
        rw [List.filterMap_cons_some hf, List.find?_cons, hkey k' a hf, decide_eq_true rfl]
    · have hne : ∀ a, f k' = some a → decide (key a = k) = false := by
        intro a ha
        rw [hkey k' a ha, decide_eq_false heq]
      have hmem : (k ∈ k' :: ks) ↔ k ∈ ks := by
        rw [List.mem_cons, or_iff_right (Ne.symm heq)]
      simp only [hmem]
      cases hf : f k' with
      | none => rw [List.filterMap_cons_none hf, ih]
      | some a => rw [List.filterMap_cons_some hf, List.find?_cons, hne a hf, ih]

end Layouts

variable {registry : Registry} {floats : FloatText} {segment : Segment} {data : DataRequest}
  {names names' : List String}

/-- The contract of a layout of the request. -/
def wantedContract (registry : Registry) (data : DataRequest) (typeId : Nat) :
    Option TypeContract :=
  if registry.logicalSectionName typeId = some data.sectionName ∧
      data.typeId.all (· = typeId) then registry.contract typeId
  else none

theorem find?_layoutsOf (segment : Segment) (typeId : Nat) :
    (layoutsOf registry segment data).find? (·.1.typeId = typeId) =
      if typeId ∈ segment.layouts.map (·.1) then
        (wantedContract registry data typeId).map fun contract =>
          (contract, (segment.rows typeId).length)
      else none := by
  rw [layoutsOf, find?_filterMap]
  · by_cases hmem : typeId ∈ segment.layouts.map (·.1)
    · rw [if_pos hmem, wantedContract]
      split
      · rfl
      · rfl
    · rw [if_neg hmem, if_neg hmem]
  · intro k layout hlayout
    split at hlayout
    · obtain ⟨contract, hcontract, rfl⟩ := Option.map_eq_some_iff.mp hlayout
      have htype := List.find?_some hcontract
      rw [decide_eq_true_eq] at htype
      exact htype
    · cases hlayout

theorem nodup_layoutsOf (h : (segment.layouts.map (·.1)).Nodup) :
    ((layoutsOf registry segment data).map (·.1.typeId)).Nodup := by
  have hsub : ∀ ks : List Nat, ((ks.filterMap fun typeId =>
      if registry.logicalSectionName typeId = some data.sectionName ∧
          data.typeId.all (· = typeId) then
        (registry.contract typeId).map fun contract => (contract, (segment.rows typeId).length)
      else none).map (·.1.typeId)).Sublist ks := by
    intro ks
    rw [List.map_filterMap]
    induction ks with
    | nil => exact .slnil
    | cons k ks ih =>
      rw [List.filterMap_cons]
      split
      · exact ih.cons k
      · next typeId htype =>
        have hk : typeId = k := by
          obtain ⟨layout, hlayout, rfl⟩ := Option.map_eq_some_iff.mp htype
          split at hlayout
          · obtain ⟨contract, hcontract, rfl⟩ := Option.map_eq_some_iff.mp hlayout
            have hfound := List.find?_some hcontract
            rw [decide_eq_true_eq] at hfound
            exact hfound
          · cases hlayout
        rw [hk]
        exact ih.cons_cons k
  exact h.sublist (hsub _)

def fieldsOf (contract : TypeContract) (names : List String) : List OutputField :=
  names.map fun name => { name := name, column := (contract.column name).map (·.name) }

theorem planOf_same {filters : List RequestFilter} {contract : TypeContract} {rows rows' : Nat}
    {plan' : Plan} (h : planOf floats names filters (contract, rows) = .ok plan)
    (h' : planOf floats names' filters (contract, rows') = .ok plan') :
    plan = { plan' with fields := fieldsOf contract names, rows := rows } := by
  obtain ⟨typed, htyped, hplan⟩ := bind_eq_ok.mp h
  obtain ⟨typed', htyped', hplan'⟩ := bind_eq_ok.mp h'
  rw [Except.ok.inj (htyped.symm.trans htyped')] at hplan
  rw [← Except.ok.inj hplan, ← Except.ok.inj hplan']
  rfl

theorem planOf_fields {filters : List RequestFilter} {layout : TypeContract × Nat}
    (h : planOf floats names filters layout = .ok plan) :
    plan.fields = fieldsOf layout.1 names ∧ plan.timestamp = layout.1.timestamp := by
  obtain ⟨typed, _, hplan⟩ := bind_eq_ok.mp h
  rw [← Except.ok.inj hplan]
  exact ⟨rfl, rfl⟩

/-- What a request knows of a layout: nothing if the layout is not recorded, else its plan. -/
def PlanAt (registry : Registry) (floats : FloatText) (data : DataRequest) (names : List String)
    (segment : Segment) (typeId : Nat) (found : Option Plan) : Prop :=
  Option.Rel (fun layout plan => planOf floats names data.filters layout = .ok plan)
    ((layoutsOf registry segment data).find? (·.1.typeId = typeId)) found

def itemsFrom (segment : Segment) (found : Option Plan) (startRow : Nat) : List (Nat × Row) :=
  (found.map fun plan => matchingItems segment { plan with startRow := startRow }).getD []

variable {found found' : Option Plan}

theorem PlanAt.some (h : PlanAt registry floats data names segment typeId (some plan)) :
    ∃ contract, wantedContract registry data typeId = Option.some contract ∧
      planOf floats names data.filters (contract, (segment.rows typeId).length) = .ok plan ∧
        plan.typeId = typeId := by
  rw [PlanAt, find?_layoutsOf] at h
  split at h
  · cases hcontract : wantedContract registry data typeId with
    | none =>
      rw [hcontract] at h
      cases h
    | some contract =>
      rw [hcontract] at h
      have hplan : planOf floats names data.filters
          (contract, (segment.rows typeId).length) = .ok plan := by
        cases h with
        | some h => exact h
      refine ⟨contract, rfl, hplan, ?_⟩
      rw [(planOf_ok hplan).1]
      rw [wantedContract] at hcontract
      split at hcontract
      · have htype := List.find?_some hcontract
        rw [decide_eq_true_eq] at htype
        exact htype
      · cases hcontract
  · cases h

theorem PlanAt.none (h : PlanAt registry floats data names segment typeId none) :
    wantedContract registry data typeId = Option.none ∨ segment.rows typeId = [] := by
  rw [PlanAt, find?_layoutsOf] at h
  split at h
  · left
    cases hcontract : wantedContract registry data typeId with
    | none => rfl
    | some contract =>
      rw [hcontract] at h
      cases h
  · next hmem =>
    right
    rw [Segment.rows, List.lookup_eq_none_iff.mpr]
    · rfl
    · intro entry hentry
      rw [bne_iff_ne]
      rintro rfl
      exact hmem (List.mem_map_of_mem hentry)

theorem itemsFrom_append (h : Written content segmentId (left ++ right))
    (hearlier : PlanAt registry floats data names (segmentOf content (captured segmentId left))
      typeId found)
    (hlater : PlanAt registry floats data names'
      (segmentOf content (captured segmentId (left ++ right))) typeId found') :
    itemsFrom (segmentOf content (captured segmentId (left ++ right))) found' 0 =
      itemsFrom (segmentOf content (captured segmentId left)) found 0 ++
        itemsFrom (segmentOf content (captured segmentId (left ++ right))) found'
          ((segmentOf content (captured segmentId left)).rows typeId).length := by
  have hnil : ∀ plan : Plan, plan.typeId = typeId →
      (segmentOf content (captured segmentId left)).rows typeId = [] →
        matchingItems (segmentOf content (captured segmentId left)) plan = [] := by
    intro plan htype hrows
    rw [matchingItems, Segment.numbered, htype, hrows, List.zipIdx_nil, List.map_nil,
      List.drop_nil, List.filter_nil]
  cases found' with
  | none =>
    cases found with
    | none => rfl
    | some plan =>
      obtain ⟨contract, hcontract, hplan, htype⟩ := hearlier.some
      rcases hlater.none with hnone | hrows
      · rw [hcontract] at hnone
        cases hnone
      · obtain ⟨rest, happend⟩ := h.rows_append typeId
        rw [hrows] at happend
        have hempty := (List.append_eq_nil_iff.mp happend.symm).1
        show [] = matchingItems _ { plan with startRow := 0 } ++ []
        rw [hnil { plan with startRow := 0 } htype hempty]
        rfl
  | some plan' =>
    obtain ⟨contract, hcontract, hplan', htype'⟩ := hlater.some
    have happend := matchingItems_append h (show { plan' with startRow := 0 }.startRow = 0 from rfl)
    have hsame : itemsFrom (segmentOf content (captured segmentId left)) found 0 =
        matchingItems (segmentOf content (captured segmentId left))
          { plan' with startRow := 0 } := by
      cases found with
      | none =>
        rcases hearlier.none with hnone | hrows
        · rw [hcontract] at hnone
          cases hnone
        · exact (hnil { plan' with startRow := 0 } htype' hrows).symm
      | some plan =>
        obtain ⟨contract', hcontract', hplan, htype⟩ := hearlier.some
        rw [hcontract] at hcontract'
        rw [← Option.some.inj hcontract'] at hplan
        rw [planOf_same hplan hplan']
        rfl
    rw [hsame]
    subst htype'
    exact happend

theorem increasing_itemsFrom (segment : Segment) (found : Option Plan) (startRow : Nat) :
    ((itemsFrom segment found startRow).map (·.1)).Pairwise (· < ·) := by
  cases found with
  | none => exact .nil
  | some plan => exact increasing_matchingItems segment _

theorem mem_itemsFrom {startRow : Nat} {item : Nat × Row}
    (h : PlanAt registry floats data names segment typeId found)
    (hmem : item ∈ itemsFrom segment found startRow) : item.2 ∈ segment.rows typeId := by
  cases found with
  | none => cases hmem
  | some plan =>
    obtain ⟨_, _, _, htype⟩ := h.some
    have hnumbered := List.mem_of_mem_drop (List.mem_of_mem_filter hmem)
    rw [← htype]
    exact mem_numbered hnumbered

end Kronika.Query
