/-
The search by partition, and what both searches find.

A search for one database knows its partitions from the start.  Any other search
discovers a partition with the first row of it, also with a row after the instant, and
stops once every partition it knows has two moments above all that is left.  A partition
whose first row stands behind that point is missed.
-/
import Kronika.Query.PredecessorSearch

namespace Kronika.Query

open Library Library.Moments

/-! ## Rows by partition -/

/-- A row of a partitioned layout, as the search sees it. -/
structure PartitionRow where
  key : PartitionKey
  stored : Int
  segmentId : Int
deriving DecidableEq

def partitionRow (segmentId : Int) (typeId : Nat) (timestamp : String) (row : Row) :
    Option PartitionRow :=
  match rowTimestamp row timestamp, row.get "datid" with
  | some stored, some cell =>
    some { key := (typeId, identityCell cell), stored := stored, segmentId := segmentId }
  | _, _ => none

def planRows (segment : Segment) (plan : Plan) : List PartitionRow :=
  if !plan.applies then []
  else
    match plan.timestamp with
    | none => []
    | some timestamp =>
      (segment.rows plan.typeId).filterMap (partitionRow segment.id plan.typeId timestamp)

def partitionRows (sections : List SectionPlans) (segment : Segment) : List PartitionRow :=
  (partitionedPlans sections).flatMap (planRows segment)

variable {moments : RelationMoments}

section Visit

variable {instant : Int}

def visit (instant : Int) (requested : Option IdentityCell) (discover : Bool)
    (moments : RelationMoments) (row : PartitionRow) : RelationMoments :=
  if requested.any (· ≠ row.key.2) then moments
  else
    let known := if discover then entryOrDefault moments row.key else moments
    if row.stored ≤ instant then
      match known.lookup row.key with
      | some selected =>
        known.insert row.key (selected.record { ts := row.stored, sources := {row.segmentId} })
      | none => known
    else known

theorem foldl_visitPartition (requested : Option IdentityCell) (discover : Bool)
    (segmentId : Int) (typeId : Nat) (timestamp : String) (rows : List Row)
    (moments : RelationMoments) :
    rows.foldl (visitPartition instant requested discover segmentId typeId timestamp) moments =
      (rows.filterMap (partitionRow segmentId typeId timestamp)).foldl
        (visit instant requested discover) moments := by
  induction rows generalizing moments with
  | nil => rfl
  | cons row rows ih =>
    rw [List.foldl_cons, ih, visitPartition]
    cases hstored : rowTimestamp row timestamp with
    | none =>
      rw [List.filterMap_cons_none (by simp only [partitionRow, hstored])]
    | some stored =>
      cases hcell : row.get "datid" with
      | none =>
        rw [List.filterMap_cons_none (by simp only [partitionRow, hstored, hcell])]
      | some cell =>
        rw [List.filterMap_cons_some (by simp only [partitionRow, hstored, hcell]; rfl)]
        rfl

theorem scanPartitionedPlan_eq (requested : Option IdentityCell) (discover : Bool)
    (segment : Segment) (moments : RelationMoments) (plan : Plan) :
    scanPartitionedPlan instant requested discover segment moments plan =
      (planRows segment plan).foldl (visit instant requested discover) moments := by
  rw [scanPartitionedPlan, planRows]
  by_cases happlies : (!plan.applies) = true
  · rw [if_pos happlies, if_pos happlies, List.foldl_nil]
  · rw [if_neg happlies, if_neg happlies]
    cases plan.timestamp with
    | none => rfl
    | some timestamp =>
      dsimp only
      by_cases hnone : (segment.rowsOf plan.typeId).isNone = true
      · rw [if_pos hnone, Segment.rows]
        rw [Segment.rowsOf, Option.isNone_map] at hnone
        rw [Option.isNone_iff_eq_none.mp hnone]
        rfl
      · rw [if_neg hnone, foldl_visitPartition]

theorem scanRelationMoments_eq (segment : Segment) (sections : List SectionPlans)
    (requested : Option IdentityCell) (discover : Bool) (moments : RelationMoments) :
    scanRelationMoments instant segment sections requested discover moments =
      (partitionRows sections segment).foldl (visit instant requested discover) moments := by
  rw [scanRelationMoments, partitionRows]
  induction partitionedPlans sections generalizing moments with
  | nil => rfl
  | cons plan plans ih =>
    rw [List.foldl_cons, ih, scanPartitionedPlan_eq, List.flatMap_cons, List.foldl_append]

/-! ## What the moments of the partitions stand for -/

def samplesFor (instant : Int) (key : PartitionKey) (rows : List PartitionRow) :
    List (Moment Int Int) :=
  (rows.filter fun row => row.key = key ∧ row.stored ≤ instant).map fun row =>
    { ts := row.stored, sources := {row.segmentId} }

theorem samplesFor_append (key : PartitionKey) (rows more : List PartitionRow) :
    samplesFor instant key (rows ++ more) =
      samplesFor instant key rows ++ samplesFor instant key more := by
  rw [samplesFor, List.filter_append, List.map_append]
  rfl

variable {key : PartitionKey} {row : PartitionRow}

theorem samplesFor_other (h : row.key ≠ key ∨ ¬row.stored ≤ instant) (rows : List PartitionRow) :
    samplesFor instant key (rows ++ [row]) = samplesFor instant key rows := by
  rw [samplesFor_append, samplesFor, samplesFor, List.filter_cons_of_neg, List.filter_nil,
    List.map_nil, List.append_nil]
  simpa only [decide_eq_true_eq, not_and_or] using h

theorem samplesFor_self (h : row.stored ≤ instant) (rows : List PartitionRow) :
    samplesFor instant row.key (rows ++ [row]) =
      samplesFor instant row.key rows ++ [{ ts := row.stored, sources := {row.segmentId} }] := by
  rw [samplesFor_append]
  congr 1
  rw [samplesFor, List.filter_cons_of_pos (by simpa using h)]
  rfl

/-- The map has the known partitions, each with the moments of the rows seen so far. -/
structure Stands (instant : Int) (moments : RelationMoments) (known : PartitionKey → Prop)
    (seen : List PartitionRow) : Prop where
  found : ∀ key, known key → moments.lookup key = some (topTwo (samplesFor instant key seen))
  absent : ∀ key, ¬known key → moments.lookup key = none

theorem lookup_entryOrDefault (moments : RelationMoments) (key other : PartitionKey) :
    (entryOrDefault moments key).lookup other =
      if other = key then some ((moments.lookup key).getD .empty) else moments.lookup other := by
  rw [entryOrDefault]
  by_cases hmem : key ∈ moments
  · rw [if_pos hmem]
    by_cases heq : other = key
    · subst heq
      obtain ⟨selected, hselected⟩ := Option.isSome_iff_exists.mp (AList.lookup_isSome.mpr hmem)
      rw [if_pos rfl, hselected, Option.getD_some]
    · rw [if_neg heq]
  · rw [if_neg hmem]
    by_cases heq : other = key
    · subst heq
      rw [if_pos rfl, AList.lookup_insert, AList.lookup_eq_none.mpr hmem, Option.getD_none]
    · rw [if_neg heq, AList.lookup_insert_ne heq]

variable {seen : List PartitionRow} {known : PartitionKey → Prop}

theorem stands_insert (h : Stands instant moments known seen) {row : PartitionRow}
    (hknown : known row.key) (hstored : row.stored ≤ instant) :
    Stands instant (moments.insert row.key
      ((topTwo (samplesFor instant row.key seen)).record
        { ts := row.stored, sources := {row.segmentId} })) known (seen ++ [row]) where
  found key hkey := by
    by_cases heq : key = row.key
    · subst heq
      rw [AList.lookup_insert, samplesFor_self hstored, topTwo_append]
    · rw [AList.lookup_insert_ne heq, samplesFor_other (.inl fun hrow => heq hrow.symm)]
      exact h.found key hkey
  absent key hkey := by
    have hne : key ≠ row.key := by
      intro heq
      rw [heq] at hkey
      exact hkey hknown
    rw [AList.lookup_insert_ne hne]
    exact h.absent key hkey

theorem stands_skip (h : Stands instant moments known seen) {row : PartitionRow}
    (hskip : ¬known row.key ∨ ¬row.stored ≤ instant) :
    Stands instant moments known (seen ++ [row]) where
  found key hkey := by
    have hother : row.key ≠ key ∨ ¬row.stored ≤ instant := by
      refine hskip.imp_left fun hnot heq => ?_
      rw [heq] at hnot
      exact hnot hkey
    rw [samplesFor_other hother]
    exact h.found key hkey
  absent := h.absent

theorem visit_requested {datid : IdentityCell} (h : Stands instant moments known seen)
    (hdatid : ∀ key, known key → key.2 = datid) (row : PartitionRow) :
    Stands instant (visit instant (some datid) false moments row) known (seen ++ [row]) := by
  rw [visit]
  by_cases hother : (some datid).any (· ≠ row.key.2) = true
  · rw [if_pos hother]
    refine stands_skip h (.inl fun hknown => ?_)
    have hne : datid ≠ row.key.2 := of_decide_eq_true hother
    exact hne (hdatid row.key hknown).symm
  · rw [if_neg hother, if_neg Bool.false_ne_true]
    by_cases hstored : row.stored ≤ instant
    · rw [if_pos hstored]
      by_cases hknown : known row.key
      · rw [h.found row.key hknown]
        exact stands_insert h hknown hstored
      · rw [h.absent row.key hknown]
        exact stands_skip h (.inl hknown)
    · rw [if_neg hstored]
      exact stands_skip h (.inr hstored)

def met (seen : List PartitionRow) (key : PartitionKey) : Prop := ∃ row ∈ seen, row.key = key

theorem met_append_singleton : met (seen ++ [row]) key ↔ met seen key ∨ key = row.key := by
  constructor
  · rintro ⟨found, hfound, rfl⟩
    rcases List.mem_append.mp hfound with hfound | hfound
    · exact .inl ⟨found, hfound, rfl⟩
    · rw [List.mem_singleton.mp hfound]
      exact .inr rfl
  · rintro (⟨found, hfound, rfl⟩ | rfl)
    · exact ⟨found, List.mem_append_left _ hfound, rfl⟩
    · exact ⟨row, List.mem_append_right _ (List.mem_singleton_self _), rfl⟩

theorem samplesFor_eq_nil (h : ¬met seen key) : samplesFor instant key seen = [] := by
  rw [samplesFor, List.map_eq_nil_iff, List.filter_eq_nil_iff]
  intro row hrow hboth
  exact h ⟨row, hrow, (of_decide_eq_true hboth).1⟩

theorem stands_discover (h : Stands instant moments (met seen) seen) (row : PartitionRow) :
    Stands instant (entryOrDefault moments row.key) (met (seen ++ [row])) seen where
  found key hkey := by
    rw [lookup_entryOrDefault]
    by_cases heq : key = row.key
    · rw [if_pos heq]
      subst heq
      by_cases hknown : met seen row.key
      · rw [h.found _ hknown, Option.getD_some]
      · rw [h.absent _ hknown, samplesFor_eq_nil hknown]
        rfl
    · rw [if_neg heq]
      exact h.found key ((met_append_singleton.mp hkey).resolve_right heq)
  absent key hkey := by
    obtain ⟨hseen, hne⟩ := not_or.mp (met_append_singleton.not.mp hkey)
    rw [lookup_entryOrDefault, if_neg hne]
    exact h.absent key hseen

theorem visit_discover (h : Stands instant moments (met seen) seen) (row : PartitionRow) :
    Stands instant (visit instant none true moments row) (met (seen ++ [row])) (seen ++ [row]) := by
  have hdiscovered := stands_discover h row
  have hmet : met (seen ++ [row]) row.key := met_append_singleton.mpr (.inr rfl)
  rw [visit, if_pos rfl]
  by_cases hstored : row.stored ≤ instant
  · rw [if_pos hstored, hdiscovered.found row.key hmet]
    exact stands_insert hdiscovered hmet hstored
  · rw [if_neg hstored]
    exact stands_skip hdiscovered (.inr hstored)

end Visit

/-! ## The search by partition -/

section Search

variable {instant : Int} {openSegment : Opener} {content : DatasetSegment → Segment}
  {sections : List SectionPlans}

theorem foldl_visit {requested : Option IdentityCell}
    {P : RelationMoments → List PartitionRow → Prop}
    (hvisit : ∀ moments seen row, P moments seen →
      P (visit instant requested requested.isNone moments row) (seen ++ [row]))
    (rows : List PartitionRow) {moments : RelationMoments} {seen : List PartitionRow}
    (h : P moments seen) :
    P (rows.foldl (visit instant requested requested.isNone) moments) (seen ++ rows) := by
  induction rows generalizing moments seen with
  | nil => rwa [List.append_nil]
  | cons row rows ih =>
    have hnext := ih (hvisit moments seen row h)
    rwa [List.append_assoc] at hnext

/-- A search reads some first candidates, and stops before a candidate just when it is settled.
Whatever one visited row keeps holds of all it read. -/
theorem searchRelationCandidates_run {requested : Option IdentityCell}
    {P : RelationMoments → List PartitionRow → Prop}
    (hvisit : ∀ moments seen row, P moments seen →
      P (visit instant requested requested.isNone moments row) (seen ++ [row]))
    {candidates : List DatasetSegment}
    (hopens : ∀ candidate ∈ candidates, openSegment candidate = .ok (content candidate))
    {moments : RelationMoments} {seen : List PartitionRow} (h : P moments seen) :
    ∃ visited rest found, candidates = visited ++ rest ∧
      searchRelationCandidates instant openSegment sections requested candidates moments =
        .ok found ∧
      P found (seen ++ visited.flatMap fun candidate =>
        partitionRows sections (content candidate)) ∧
      (∀ candidate ∈ rest.head?, relationSettled found candidate.maxTs = true) ∧
      ∀ before candidate after, visited = before ++ candidate :: after → ∃ known,
        P known (seen ++ before.flatMap fun candidate =>
          partitionRows sections (content candidate)) ∧
        relationSettled known candidate.maxTs = false := by
  induction candidates generalizing moments seen with
  | nil =>
    refine ⟨[], [], moments, rfl, rfl, ?_, fun candidate hcandidate => ?_,
      fun before candidate after hsplit => ?_⟩
    · rwa [List.flatMap_nil, List.append_nil]
    · exact absurd hcandidate (by simp)
    · exact absurd hsplit (by simp)
  | cons candidate candidates ih =>
    obtain ⟨hopen, hopens⟩ := List.forall_mem_cons.mp hopens
    rw [searchRelationCandidates]
    by_cases hsettled : relationSettled moments candidate.maxTs = true
    · rw [if_pos hsettled]
      refine ⟨[], candidate :: candidates, moments, rfl, rfl, ?_, fun found hfound => ?_,
        fun before candidate after hsplit => ?_⟩
      · rwa [List.flatMap_nil, List.append_nil]
      · rw [← Option.some.inj hfound]
        exact hsettled
      · exact absurd hsplit (by simp)
    · rw [if_neg hsettled, hopen]
      dsimp only
      rw [scanRelationMoments_eq]
      obtain ⟨visited, rest, found, rfl, hsearch, hP, hrest, hbefore⟩ :=
        ih hopens (foldl_visit hvisit (partitionRows sections (content candidate)) h)
      refine ⟨candidate :: visited, rest, found, rfl, hsearch, ?_, hrest,
        fun before other after hsplit => ?_⟩
      · rw [List.flatMap_cons, ← List.append_assoc]
        exact hP
      · cases before with
        | nil =>
          obtain ⟨rfl, rfl⟩ := List.cons.inj hsplit
          refine ⟨moments, ?_, Bool.eq_false_iff.mpr hsettled⟩
          rwa [List.flatMap_nil, List.append_nil]
        | cons first before =>
          obtain ⟨rfl, hvisited⟩ := List.cons.inj hsplit
          obtain ⟨known, hknown, hopenAt⟩ := hbefore before other after hvisited
          refine ⟨known, ?_, hopenAt⟩
          rw [List.flatMap_cons, ← List.append_assoc]
          exact hknown

/-- The rows of a partition in the anchor and in every candidate. -/
def allRows (sections : List SectionPlans) (content : DatasetSegment → Segment)
    (current : Segment) (candidates : List DatasetSegment) : List PartitionRow :=
  partitionRows sections current ++
    candidates.flatMap fun candidate => partitionRows sections (content candidate)

/-- The two greatest timestamps of a partition among all rows of all candidates. -/
def bruteForceFor (instant : Int) (sections : List SectionPlans)
    (content : DatasetSegment → Segment) (current : Segment) (candidates : List DatasetSegment)
    (key : PartitionKey) : Moments Int Int :=
  topTwo (samplesFor instant key (allRows sections content current candidates))

theorem relationSettled_iff {maxTs : Int} :
    relationSettled moments maxTs = true ↔
      (∃ key found, moments.lookup key = some found) ∧
        ∀ key found, moments.lookup key = some found →
          ∃ previous, found.previous = some previous ∧ maxTs < previous.ts := by
  rw [relationSettled, Bool.and_eq_true, List.all_eq_true]
  have hmem : ∀ key found, moments.lookup key = some found ↔ ⟨key, found⟩ ∈ moments.entries :=
    fun key found => AList.mem_lookup_iff
  constructor
  · rintro ⟨hne, hall⟩
    refine ⟨?_, fun key found hfound => ?_⟩
    · cases hentries : moments.entries with
      | nil =>
        rw [hentries] at hne
        exact absurd hne (by decide)
      | cons entry rest =>
        refine ⟨entry.1, entry.2, (hmem _ _).mpr ?_⟩
        rw [hentries]
        exact List.mem_cons_self
    · obtain ⟨previous, hprevious, hlt⟩ :=
        Option.any_eq_true _ _ |>.mp (hall _ ((hmem key found).mp hfound))
      exact ⟨previous, hprevious, of_decide_eq_true hlt⟩
  · rintro ⟨⟨key, found, hfound⟩, hall⟩
    refine ⟨?_, fun entry hentry => ?_⟩
    · have hentry := (hmem key found).mp hfound
      cases hentries : moments.entries with
      | nil =>
        rw [hentries] at hentry
        exact absurd hentry List.not_mem_nil
      | cons entry rest => rfl
    · obtain ⟨previous, hprevious, hlt⟩ := hall entry.1 entry.2 ((hmem _ _).mpr hentry)
      exact (Option.any_eq_true _ _).mpr ⟨previous, hprevious, decide_eq_true hlt⟩

variable {segments : List DatasetSegment}

/-- A row that is read belongs to a layout that applies, and carries what the physical row says. -/
theorem mem_partitionRows {segment : Segment} {row : PartitionRow}
    (hrow : row ∈ partitionRows sections segment) :
    ∃ plan ∈ partitionedPlans sections, plan.applies = true ∧
      ∃ timestamp, plan.timestamp = some timestamp ∧ ∃ physical ∈ segment.rows plan.typeId,
        rowTimestamp physical timestamp = some row.stored ∧ row.key.1 = plan.typeId := by
  obtain ⟨plan, hplan, hrow⟩ := List.mem_flatMap.mp hrow
  refine ⟨plan, hplan, ?_⟩
  rw [planRows] at hrow
  by_cases happlies : (!plan.applies) = true
  · rw [if_pos happlies] at hrow
    exact absurd hrow List.not_mem_nil
  · rw [if_neg happlies] at hrow
    refine ⟨by simpa using happlies, ?_⟩
    cases htimestamp : plan.timestamp with
    | none =>
      rw [htimestamp] at hrow
      exact absurd hrow List.not_mem_nil
    | some timestamp =>
      rw [htimestamp] at hrow
      obtain ⟨physical, hphysical, hview⟩ := List.mem_filterMap.mp hrow
      refine ⟨timestamp, rfl, physical, hphysical, ?_⟩
      rw [partitionRow] at hview
      split at hview
      · next hstored _ =>
        rw [← Option.some.inj hview]
        exact ⟨hstored, rfl⟩
      · cases hview

theorem stored_le_of_partitionRows
    (h : Readable openSegment content sections segments) {segment : DatasetSegment}
    (hsegment : segment ∈ segments) :
    ∀ row ∈ partitionRows sections (content segment), row.stored ≤ segment.maxTs := by
  intro row hrow
  obtain ⟨plan, hplan, -, timestamp, htimestamp, physical, hphysical, hstored, -⟩ :=
    mem_partitionRows hrow
  obtain ⟨found, hfound, hplan⟩ := List.mem_flatMap.mp hplan
  exact h.bounds segment hsegment found (List.mem_filter.mp hfound).1 plan hplan timestamp
    htimestamp physical hphysical _ hstored

theorem topTwo_of_settled
    (h : Readable openSegment content sections segments) {rest : List DatasetSegment}
    (hrest : ∀ candidate ∈ rest, candidate ∈ segments)
    (hsorted : rest.Pairwise fun a b => b.maxTs ≤ a.maxTs) {found : RelationMoments}
    (hsettled : ∀ candidate ∈ rest.head?, relationSettled found candidate.maxTs = true)
    {key : PartitionKey} {seen : List PartitionRow}
    (hfound : found.lookup key = some (topTwo (samplesFor instant key seen))) :
    topTwo (samplesFor instant key (seen ++ rest.flatMap fun candidate =>
      partitionRows sections (content candidate))) = topTwo (samplesFor instant key seen) := by
  cases rest with
  | nil => rw [List.flatMap_nil, List.append_nil]
  | cons first rest =>
    obtain ⟨previous, hprevious, hlt⟩ :=
      (relationSettled_iff.mp (hsettled first rfl)).2 key _ hfound
    rw [samplesFor_append]
    refine topTwo_append_below hprevious fun sample hsample => ?_
    obtain ⟨row, hrow, rfl⟩ := List.mem_map.mp hsample
    obtain ⟨candidate, hcandidate, hrow⟩ := List.mem_flatMap.mp (List.mem_filter.mp hrow).1
    have hle := stored_le_of_partitionRows h (hrest candidate hcandidate) row hrow
    refine lt_of_le_of_lt (le_trans hle ?_) hlt
    rcases List.mem_cons.mp hcandidate with rfl | hcandidate
    · exact le_refl _
    · exact (List.pairwise_cons.mp hsorted).1 candidate hcandidate

def requestedKey (sections : List SectionPlans) (datid : IdentityCell) (key : PartitionKey) :
    Prop :=
  ∃ plan ∈ partitionedPlans sections, plan.applies = true ∧ plan.timestamp.isSome = true ∧
    key = (plan.typeId, datid)

theorem stands_requested (datid : IdentityCell) :
    Stands instant (requestedMoments sections (some datid)) (requestedKey sections datid) [] := by
  have hfold : ∀ (plans : List Plan) (known : PartitionKey → Prop) (moments : RelationMoments),
      Stands instant moments known [] →
      Stands instant
        (plans.foldl (fun moments plan =>
          if plan.applies && plan.timestamp.isSome then
            entryOrDefault moments (plan.typeId, datid) else moments) moments)
        (fun key => known key ∨ ∃ plan ∈ plans, plan.applies = true ∧
          plan.timestamp.isSome = true ∧ key = (plan.typeId, datid)) [] := by
    intro plans
    induction plans with
    | nil =>
      intro known moments h
      exact ⟨fun key hkey => h.found key (by simpa using hkey),
        fun key hkey => h.absent key (by simpa using hkey)⟩
    | cons plan plans ih =>
      intro known moments h
      have hstep : Stands instant
          (if plan.applies && plan.timestamp.isSome then
            entryOrDefault moments (plan.typeId, datid) else moments)
          (fun key => known key ∨ plan.applies = true ∧ plan.timestamp.isSome = true ∧
            key = (plan.typeId, datid)) [] := by
        by_cases hplan : (plan.applies && plan.timestamp.isSome) = true
        · rw [if_pos hplan]
          obtain ⟨happlies, htimestamp⟩ := Bool.and_eq_true_iff.mp hplan
          refine ⟨fun key hkey => ?_, fun key hkey => ?_⟩
          · rw [lookup_entryOrDefault]
            by_cases heq : key = (plan.typeId, datid)
            · rw [if_pos heq]
              by_cases hknown : known (plan.typeId, datid)
              · rw [h.found _ hknown]
                rfl
              · rw [h.absent _ hknown]
                rfl
            · rw [if_neg heq]
              exact h.found key (hkey.resolve_right fun hnew => heq hnew.2.2)
          · obtain ⟨hold, hnew⟩ := not_or.mp hkey
            rw [lookup_entryOrDefault, if_neg fun heq => hnew ⟨happlies, htimestamp, heq⟩]
            exact h.absent key hold
        · rw [if_neg hplan]
          have hnot : ∀ key, ¬(plan.applies = true ∧ plan.timestamp.isSome = true ∧
              key = (plan.typeId, datid)) := by
            rintro key ⟨happlies, htimestamp, _⟩
            exact hplan (Bool.and_eq_true_iff.mpr ⟨happlies, htimestamp⟩)
          exact ⟨fun key hkey => h.found key (hkey.resolve_right (hnot key)),
            fun key hkey => h.absent key fun hold => hkey (.inl hold)⟩
      have hrest := ih _ _ hstep
      refine ⟨fun key hkey => hrest.found key ?_, fun key hkey => hrest.absent key ?_⟩
      · rcases hkey with hold | ⟨found, hfound, hboth⟩
        · exact .inl (.inl hold)
        · rcases List.mem_cons.mp hfound with rfl | hfound
          · exact .inl (.inr hboth)
          · exact .inr ⟨found, hfound, hboth⟩
      · rintro ((hold | hboth) | ⟨found, hfound, hboth⟩)
        · exact hkey (.inl hold)
        · exact hkey (.inr ⟨plan, List.mem_cons_self, hboth⟩)
        · exact hkey (.inr ⟨found, List.mem_cons_of_mem _ hfound, hboth⟩)
  have hempty : Stands instant (∅ : RelationMoments) (fun _ => False) [] :=
    ⟨fun _ hkey => hkey.elim, fun _ _ => rfl⟩
  have hall := hfold (partitionedPlans sections) _ _ hempty
  exact ⟨fun key hkey => hall.found key (.inr hkey),
    fun key hkey => hall.absent key fun hor => hor.elim id hkey⟩

/-- The partitions that a request asks for. -/
def Asked (filters : List RequestFilter) (key : PartitionKey) : Prop :=
  ∀ datid, requestedDatid filters = some datid → key.2 = datid

/-- The answer of a search by partition: the moments of brute force for every partition that is
asked for, and the segments that hold them, the newest id first. -/
structure PartitionAnswer (instant : Int) (content : DatasetSegment → Segment)
    (sections : List SectionPlans) (filters : List RequestFilter) (current : Segment)
    (candidates chosen : List DatasetSegment) (found : RelationMoments) : Prop where
  moments : ∀ key, Asked filters key → (found.lookup key).getD .empty =
    bruteForceFor instant sections content current candidates key
  sorted : chosen.Pairwise fun a b => b.id ≤ a.id
  chosen : ∀ segment, segment ∈ chosen ↔ segment ∈ candidates ∧
    ∃ key moment, Asked filters key ∧
      ((bruteForceFor instant sections content current candidates key).current = some moment ∨
        (bruteForceFor instant sections content current candidates key).previous = some moment) ∧
      segment.id ∈ moment.sources

/-- The partitions met so far each have two moments above the bound, and there is one. -/
def Settled (instant : Int) (seen : List PartitionRow) (maxTs : Int) : Prop :=
  seen ≠ [] ∧ ∀ row ∈ seen, ∃ earlier ∈ seen, ∃ later ∈ seen,
    earlier.key = row.key ∧ later.key = row.key ∧ maxTs < earlier.stored ∧
      earlier.stored < later.stored ∧ later.stored ≤ instant

/-- No partition has its first sample behind a candidate at which those met before are settled. -/
def Discovered (instant : Int) (sections : List SectionPlans)
    (content : DatasetSegment → Segment) (current : Segment)
    (candidates : List DatasetSegment) : Prop :=
  ∀ before candidate after, candidates = before ++ candidate :: after →
    Settled instant (allRows sections content current before) candidate.maxTs →
    ∀ later ∈ candidate :: after, ∀ row ∈ partitionRows sections (content later),
      row.stored ≤ instant → met (allRows sections content current before) row.key

theorem relationRetainedIds_iff {found : RelationMoments} {id : Int} :
    relationRetainedIds found id = true ↔
      ∃ key moments moment, found.lookup key = some moments ∧
        (moments.current = some moment ∨ moments.previous = some moment) ∧
        id ∈ moment.sources := by
  rw [relationRetainedIds, List.any_eq_true]
  constructor
  · rintro ⟨entry, hentry, hboth⟩
    have hlookup : found.lookup entry.1 = some entry.2 := AList.mem_lookup_iff.mpr hentry
    rw [Bool.or_eq_true, Option.any_eq_true, Option.any_eq_true] at hboth
    rcases hboth with ⟨moment, hsome, hid⟩ | ⟨moment, hsome, hid⟩
    · exact ⟨entry.1, entry.2, moment, hlookup, .inl hsome, of_decide_eq_true hid⟩
    · exact ⟨entry.1, entry.2, moment, hlookup, .inr hsome, of_decide_eq_true hid⟩
  · rintro ⟨key, moments, moment, hlookup, hsome, hid⟩
    refine ⟨⟨key, moments⟩, AList.mem_lookup_iff.mp hlookup, ?_⟩
    rw [Bool.or_eq_true, Option.any_eq_true, Option.any_eq_true]
    rcases hsome with hsome | hsome
    · exact .inl ⟨moment, hsome, decide_eq_true hid⟩
    · exact .inr ⟨moment, hsome, decide_eq_true hid⟩

theorem relationPreceding_run
    (h : Readable openSegment content sections segments) (anchor : DatasetSegment)
    (current : Segment) (filters : List RequestFilter)
    {P : RelationMoments → List PartitionRow → Prop}
    (hvisit : ∀ moments seen row, P moments seen →
      P (visit instant (requestedDatid filters) (requestedDatid filters).isNone moments row)
        (seen ++ [row]))
    (hstart : P (requestedMoments sections (requestedDatid filters)) []) :
    ∃ chosen found visited rest,
      relationPreceding instant openSegment anchor segments current sections filters =
        .ok (chosen, found) ∧
      candidatesBefore anchor segments ((partitionedPlans sections).map (·.typeId)) instant =
        visited ++ rest ∧
      P found (allRows sections content current visited) ∧
      (∀ candidate ∈ rest.head?, relationSettled found candidate.maxTs = true) ∧
      (∀ before candidate after, visited = before ++ candidate :: after → ∃ known,
        P known (allRows sections content current before) ∧
        relationSettled known candidate.maxTs = false) ∧
      chosen.Pairwise (fun a b => b.id ≤ a.id) ∧
      ∀ segment, segment ∈ chosen ↔ segment ∈ visited ++ rest ∧
        relationRetainedIds found segment.id = true := by
  have hmem : ∀ segment ∈ candidatesBefore anchor segments
      ((partitionedPlans sections).map (·.typeId)) instant,
      segment ∈ segments ∧ segment.id < anchor.id := fun _ => mem_candidatesBefore
  have hcurrent := foldl_visit hvisit (partitionRows sections current) hstart
  obtain ⟨visited, rest, found, hsplit, hsearch, hP, hsettled, hbefore⟩ :=
    searchRelationCandidates_run hvisit
      (fun segment hsegment => h.opens segment (hmem segment hsegment).1) hcurrent
  rw [relationPreceding, scanRelationMoments_eq, hsearch]
  refine ⟨_, found, visited, rest, rfl, hsplit, hP, hsettled, hbefore,
    sortByIdDescending_sorted _, ?_⟩
  intro segment
  rw [sortByIdDescending, List.mem_mergeSort, List.mem_filter, Bool.and_eq_true,
    decide_eq_true_eq, ← hsplit]
  constructor
  · rintro ⟨hcandidate, _, hretained⟩
    exact ⟨hcandidate, hretained⟩
  · rintro ⟨hcandidate, hretained⟩
    exact ⟨hcandidate, ne_of_lt (hmem segment hcandidate).2, hretained⟩

variable {anchor : DatasetSegment} {current : Segment} {filters : List RequestFilter}
  {visited rest chosen : List DatasetSegment} {found : RelationMoments}

theorem allRows_append (current : Segment) (visited rest : List DatasetSegment) :
    allRows sections content current (visited ++ rest) =
      allRows sections content current visited ++
        rest.flatMap fun candidate => partitionRows sections (content candidate) := by
  rw [allRows, List.flatMap_append, ← List.append_assoc]
  rfl

/-- The moments of a known partition stay what they are over the candidates left unread. -/
theorem bruteForceFor_of_settled (h : Readable openSegment content sections segments)
    (hsplit : candidatesBefore anchor segments ((partitionedPlans sections).map (·.typeId))
      instant = visited ++ rest)
    (hsettled : ∀ candidate ∈ rest.head?, relationSettled found candidate.maxTs = true)
    {key : PartitionKey}
    (hfound : found.lookup key =
      some (topTwo (samplesFor instant key (allRows sections content current visited)))) :
    found.lookup key =
      some (bruteForceFor instant sections content current (visited ++ rest) key) := by
  have hdescending := candidatesBefore_descending anchor segments
    ((partitionedPlans sections).map (·.typeId)) instant
  rw [hsplit] at hdescending
  have hmem : ∀ candidate ∈ rest, candidate ∈ segments := by
    intro candidate hcandidate
    have hbefore : candidate ∈ candidatesBefore anchor segments
        ((partitionedPlans sections).map (·.typeId)) instant := by
      rw [hsplit]
      exact List.mem_append_right _ hcandidate
    exact (mem_candidatesBefore hbefore).1
  rw [bruteForceFor, allRows_append, topTwo_of_settled h hmem
    (List.pairwise_append.mp hdescending).2.1 hsettled hfound]
  exact hfound

theorem partitionAnswer_of_moments {candidates : List DatasetSegment}
    (hmoments : ∀ key, Asked filters key → (found.lookup key).getD .empty =
      bruteForceFor instant sections content current candidates key)
    (hasked : ∀ key moments, found.lookup key = some moments → Asked filters key)
    (hsorted : chosen.Pairwise fun a b => b.id ≤ a.id)
    (hchosen : ∀ segment, segment ∈ chosen ↔ segment ∈ candidates ∧
      relationRetainedIds found segment.id = true) :
    PartitionAnswer instant content sections filters current candidates chosen found where
  moments := hmoments
  sorted := hsorted
  chosen segment := by
    rw [hchosen, relationRetainedIds_iff]
    refine and_congr_right fun _ => ⟨?_, ?_⟩
    · rintro ⟨key, moments, moment, hlookup, hsome, hid⟩
      have hkey := hasked key moments hlookup
      have hsame := hmoments key hkey
      rw [hlookup, Option.getD_some] at hsame
      rw [hsame] at hsome
      exact ⟨key, moment, hkey, hsome, hid⟩
    · rintro ⟨key, moment, hkey, hsome, hid⟩
      rw [← hmoments key hkey] at hsome
      cases hlookup : found.lookup key with
      | none =>
        rw [hlookup, Option.getD_none] at hsome
        rcases hsome with hsome | hsome
        · cases hsome
        · cases hsome
      | some moments =>
        rw [hlookup, Option.getD_some] at hsome
        exact ⟨key, moments, moment, hlookup, hsome, hid⟩

/-! ## The search for one database -/

theorem plan_of_mem_partitionRows {segment : Segment} {row : PartitionRow}
    (hrow : row ∈ partitionRows sections segment) :
    ∃ plan ∈ partitionedPlans sections, plan.applies = true ∧ plan.timestamp.isSome = true ∧
      row.key.1 = plan.typeId := by
  obtain ⟨plan, hplan, happlies, timestamp, htimestamp, -, -, -, hkey⟩ := mem_partitionRows hrow
  exact ⟨plan, hplan, happlies, by rw [htimestamp]; rfl, hkey⟩

theorem mem_allRows {candidates : List DatasetSegment} {row : PartitionRow} :
    row ∈ allRows sections content current candidates ↔
      row ∈ partitionRows sections current ∨
        ∃ candidate ∈ candidates, row ∈ partitionRows sections (content candidate) := by
  rw [allRows, List.mem_append, List.mem_flatMap]

theorem not_met_of_not_requested {datid : IdentityCell} {key : PartitionKey}
    (hkey : key.2 = datid) (hnot : ¬requestedKey sections datid key)
    (candidates : List DatasetSegment) :
    ¬met (allRows sections content current candidates) key := by
  rintro ⟨row, hrow, rfl⟩
  have hplan : ∃ plan ∈ partitionedPlans sections, plan.applies = true ∧
      plan.timestamp.isSome = true ∧ row.key.1 = plan.typeId := by
    rcases mem_allRows.mp hrow with hrow | ⟨candidate, _, hrow⟩
    · exact plan_of_mem_partitionRows hrow
    · exact plan_of_mem_partitionRows hrow
  obtain ⟨plan, hplan, happlies, htimestamp, htype⟩ := hplan
  exact hnot ⟨plan, hplan, happlies, htimestamp, Prod.ext htype hkey⟩

theorem relationPreceding_requested (h : Readable openSegment content sections segments)
    (anchor : DatasetSegment) (current : Segment) {datid : IdentityCell}
    (hrequested : requestedDatid filters = some datid) :
    ∃ chosen found,
      relationPreceding instant openSegment anchor segments current sections filters =
        .ok (chosen, found) ∧
      PartitionAnswer instant content sections filters current
        (candidatesBefore anchor segments ((partitionedPlans sections).map (·.typeId)) instant)
        chosen found := by
  obtain ⟨chosen, found, visited, rest, hrun, hsplit, hstands, hsettled, -, hsorted, hchosen⟩ :=
    relationPreceding_run h anchor current filters
      (P := fun moments seen => Stands instant moments (requestedKey sections datid) seen)
      (fun moments seen row hstands => by
        rw [hrequested]
        exact visit_requested hstands (fun key ⟨_, _, _, _, heq⟩ => by rw [heq]) row)
      (by rw [hrequested]; exact stands_requested datid)
  refine ⟨chosen, found, hrun, partitionAnswer_of_moments (fun key hkey => ?_)
    (fun key moments hlookup => ?_) hsorted ?_⟩
  · rw [hsplit]
    by_cases hknown : requestedKey sections datid key
    · rw [bruteForceFor_of_settled h hsplit hsettled (hstands.found key hknown),
        Option.getD_some]
    · rw [hstands.absent key hknown, bruteForceFor, samplesFor_eq_nil
        (not_met_of_not_requested (hkey datid hrequested) hknown _)]
      rfl
  · intro other hother
    rw [hrequested] at hother
    by_cases hknown : requestedKey sections datid key
    · obtain ⟨plan, -, -, -, rfl⟩ := hknown
      exact Option.some.inj hother
    · rw [hstands.absent key hknown] at hlookup
      cases hlookup
  · rw [hsplit]
    exact hchosen

/-! ## The search that discovers its partitions -/

theorem mem_samplesFor {key : PartitionKey} {seen : List PartitionRow} {sample : Moment Int Int} :
    sample ∈ samplesFor instant key seen ↔ ∃ row ∈ seen, row.key = key ∧ row.stored ≤ instant ∧
      sample = { ts := row.stored, sources := {row.segmentId} } := by
  rw [samplesFor, List.mem_map]
  constructor
  · rintro ⟨row, hrow, rfl⟩
    rw [List.mem_filter, decide_eq_true_eq] at hrow
    exact ⟨row, hrow.1, hrow.2.1, hrow.2.2, rfl⟩
  · rintro ⟨row, hrow, hkey, hle, rfl⟩
    exact ⟨row, List.mem_filter.mpr ⟨hrow, decide_eq_true ⟨hkey, hle⟩⟩, rfl⟩

theorem relationSettled_iff_settled {seen : List PartitionRow} {maxTs : Int}
    (h : Stands instant found (met seen) seen) :
    relationSettled found maxTs = true ↔ Settled instant seen maxTs := by
  rw [relationSettled_iff]
  have hknown : ∀ key moments, found.lookup key = some moments → met seen key := by
    intro key moments hlookup
    by_contra hnot
    rw [h.absent key hnot] at hlookup
    cases hlookup
  constructor
  · rintro ⟨⟨key, moments, hlookup⟩, hall⟩
    obtain ⟨first, hfirst, -⟩ := hknown key moments hlookup
    refine ⟨List.ne_nil_of_mem hfirst, fun row hrow => ?_⟩
    obtain ⟨_, hsample, _, hnext, hlt, hrising⟩ :=
      previous_above_iff.mp (hall row.key _ (h.found row.key ⟨row, hrow, rfl⟩))
    obtain ⟨earlier, hearlier, hearlierKey, -, rfl⟩ := mem_samplesFor.mp hsample
    obtain ⟨later, hlater, hlaterKey, hle, rfl⟩ := mem_samplesFor.mp hnext
    exact ⟨earlier, hearlier, later, hlater, hearlierKey, hlaterKey, hlt, hrising, hle⟩
  · rintro ⟨hne, hall⟩
    obtain ⟨first, rest, rfl⟩ := List.exists_cons_of_ne_nil hne
    refine ⟨⟨first.key, _, h.found first.key ⟨first, List.mem_cons_self, rfl⟩⟩,
      fun key moments hlookup => ?_⟩
    obtain ⟨row, hrow, rfl⟩ := hknown key moments hlookup
    rw [h.found row.key ⟨row, hrow, rfl⟩] at hlookup
    rw [← Option.some.inj hlookup]
    obtain ⟨earlier, hearlier, later, hlater, hearlierKey, hlaterKey, hlt, hrising, hle⟩ :=
      hall row hrow
    refine previous_above_iff.mpr ⟨_, mem_samplesFor.mpr ⟨earlier, hearlier, hearlierKey,
      le_of_lt (lt_of_lt_of_le hrising hle), rfl⟩, _,
      mem_samplesFor.mpr ⟨later, hlater, hlaterKey, hle, rfl⟩, hlt, hrising⟩

/-- The search stops at the candidate at which what it has met is settled, at the latest. -/
theorem visited_prefix {before after : List DatasetSegment} {candidate : DatasetSegment}
    (hread : ∀ before candidate after, visited = before ++ candidate :: after → ∃ known,
      Stands instant known (met (allRows sections content current before))
        (allRows sections content current before) ∧
      relationSettled known candidate.maxTs = false)
    (hsplit : visited ++ rest = before ++ candidate :: after)
    (hsettled : Settled instant (allRows sections content current before) candidate.maxTs) :
    ∃ more, before = visited ++ more := by
  rcases List.append_eq_append_iff.mp hsplit with ⟨more, hmore, -⟩ | ⟨more, rfl, hmore⟩
  · exact ⟨more, hmore⟩
  · cases more with
    | nil => exact ⟨[], by rw [List.append_nil, List.append_nil]⟩
    | cons first more =>
      obtain ⟨rfl, -⟩ := List.cons.inj hmore
      obtain ⟨known, hknown, hnot⟩ := hread before candidate more rfl
      rw [(relationSettled_iff_settled hknown).mpr hsettled] at hnot
      cases hnot

/-- Where every partition is met in time, one that was not met has no samples at all. -/
theorem samplesFor_of_discovered {key : PartitionKey}
    (hdiscovered : Discovered instant sections content current (visited ++ rest))
    (hstands : Stands instant found (met (allRows sections content current visited))
      (allRows sections content current visited))
    (hsettled : ∀ candidate ∈ rest.head?, relationSettled found candidate.maxTs = true)
    (hunmet : ¬met (allRows sections content current visited) key) :
    samplesFor instant key (allRows sections content current (visited ++ rest)) = [] := by
  rw [List.eq_nil_iff_forall_not_mem]
  intro sample hsample
  obtain ⟨row, hrow, rfl, hle, -⟩ := mem_samplesFor.mp hsample
  rw [allRows_append, List.mem_append, List.mem_flatMap] at hrow
  rcases hrow with hrow | ⟨later, hlater, hrow⟩
  · exact hunmet ⟨row, hrow, rfl⟩
  · cases rest with
    | nil => exact absurd hlater List.not_mem_nil
    | cons candidate after =>
      have hstop := (relationSettled_iff_settled hstands).mp (hsettled candidate rfl)
      exact hunmet (hdiscovered visited candidate after rfl hstop later hlater row hrow hle)

theorem relationPreceding_discover (h : Readable openSegment content sections segments)
    (anchor : DatasetSegment) (current : Segment) (hnone : requestedDatid filters = none) :
    (∃ chosen found,
      relationPreceding instant openSegment anchor segments current sections filters =
        .ok (chosen, found) ∧
      PartitionAnswer instant content sections filters current
        (candidatesBefore anchor segments ((partitionedPlans sections).map (·.typeId)) instant)
        chosen found) ↔
      Discovered instant sections content current
        (candidatesBefore anchor segments ((partitionedPlans sections).map (·.typeId))
          instant) := by
  have hasked : ∀ key, Asked filters key := by
    intro key datid hdatid
    rw [hnone] at hdatid
    cases hdatid
  obtain ⟨chosen, found, visited, rest, hrun, hsplit, hstands, hsettled, hread, hsorted,
      hchosen⟩ :=
    relationPreceding_run h anchor current filters
      (P := fun moments seen => Stands instant moments (met seen) seen)
      (fun moments seen row hstands => by
        rw [hnone]
        exact visit_discover hstands row)
      (by
        rw [hnone]
        exact ⟨fun key ⟨row, hrow, _⟩ => absurd hrow List.not_mem_nil, fun key _ => rfl⟩)
  rw [hsplit]
  constructor
  · rintro ⟨_, _, hsame, hanswer⟩ before candidate after heq hbefore later hlater row hrow hle
    obtain ⟨rfl, rfl⟩ := Prod.mk.inj (Except.ok.inj (hrun.symm.trans hsame))
    by_contra hnew
    obtain ⟨more, rfl⟩ := visited_prefix hread heq hbefore
    have hunmet : ¬met (allRows sections content current visited) row.key := by
      rintro ⟨other, hother, hkey⟩
      refine hnew ⟨other, ?_, hkey⟩
      rw [allRows_append]
      exact List.mem_append_left _ hother
    have hmoments := hanswer.moments row.key (hasked _)
    rw [hstands.absent _ hunmet, Option.getD_none, heq] at hmoments
    have hlatest : latest (samplesFor instant row.key (allRows sections content current
        (visited ++ more ++ candidate :: after))) = none := (congrArg (·.current) hmoments).symm
    have hmem : row ∈ allRows sections content current (visited ++ more ++ candidate :: after) :=
      mem_allRows.mpr (Or.inr ⟨later, List.mem_append_right _ hlater, hrow⟩)
    have hsample := mem_samplesFor.mpr ⟨row, hmem, rfl, hle, rfl⟩
    rw [latest_eq_none.mp hlatest] at hsample
    exact absurd hsample List.not_mem_nil
  · intro hdiscovered
    refine ⟨chosen, found, hrun, partitionAnswer_of_moments (fun key _ => ?_)
      (fun key _ _ => hasked key) hsorted hchosen⟩
    by_cases hknown : met (allRows sections content current visited) key
    · rw [bruteForceFor_of_settled h hsplit hsettled (hstands.found key hknown),
        Option.getD_some]
    · have hnil := samplesFor_of_discovered hdiscovered hstands hsettled hknown
      rw [hstands.absent key hknown, Option.getD_none, bruteForceFor, hnil]
      rfl

theorem relationPreceding_perm {anchor : DatasetSegment} {segments segments' : List DatasetSegment}
    (hperm : segments.Perm segments')
    (hids : ∀ a ∈ segments, ∀ b ∈ segments, a.id = b.id → a = b) (current : Segment)
    (filters : List RequestFilter) :
    relationPreceding instant openSegment anchor segments current sections filters =
      relationPreceding instant openSegment anchor segments' current sections filters := by
  rw [relationPreceding, relationPreceding, candidatesBefore_perm hperm hids]

end Search

/-! ## Both searches -/

/-- A pinned search has the last sample of a layout in the anchor, if the anchor has one. -/
def PinnedLast (instant : Int) (content : DatasetSegment → Segment) (pinCurrent : Bool)
    (current : Segment) (layouts : List (Nat × String)) (candidates : List DatasetSegment) : Prop :=
  pinCurrent = true → ∀ layout ∈ layouts, storedIn instant current layout ≠ [] →
    ∀ candidate ∈ candidates, ∀ stored ∈ storedIn instant (content candidate) layout,
      ∃ own ∈ storedIn instant current layout, stored ≤ own

section Plain

variable {instant : Int} {openSegment : Opener} {content : DatasetSegment → Segment}
  {sections : List SectionPlans} {segments candidates : List DatasetSegment} {pinCurrent : Bool}
  {current : Segment} {layouts : List (Nat × String)} {layout : Nat × String}

theorem mem_samplesOf {segment : Segment} {sample : Moment Int Int} :
    sample ∈ samplesOf instant segment layout ↔
      ∃ stored ∈ storedIn instant segment layout,
        { ts := stored, sources := {segment.id} } = sample :=
  List.mem_map

theorem bruteForce_unpinned (candidates : List DatasetSegment) (layout : Nat × String) :
    bruteForce instant content false current candidates layout =
      topTwo (allSamples instant content current candidates layout) := by
  rw [bruteForce, pinLimit, if_neg Bool.false_ne_true, upTo_none]

/-- A pinned moment that is the last one is no limit. -/
theorem bruteForce_pinned
    (h : PinnedLast instant content pinCurrent current layouts candidates)
    (hlayout : layout ∈ layouts) :
    bruteForce instant content pinCurrent current candidates layout =
      bruteForce instant content false current candidates layout := by
  cases pinCurrent with
  | false => rfl
  | true =>
    rw [bruteForce_unpinned, bruteForce, pinLimit, if_pos rfl]
    cases hlatest : Moments.latest (samplesOf instant current layout) with
    | none => rw [Option.map_none, upTo_none]
    | some last =>
      have hgreatest := (latest_eq_some.mp hlatest).greatest
      have hne : storedIn instant current layout ≠ [] := by
        intro hnil
        rw [samplesOf, hnil, List.map_nil] at hlatest
        cases hlatest
      rw [upTo, List.filter_eq_self.mpr]
      intro sample hsample
      refine decide_eq_true ?_
      rcases List.mem_append.mp hsample with hown | hother
      · exact hgreatest sample hown
      · obtain ⟨candidate, hcandidate, hsample⟩ := List.mem_flatMap.mp hother
        obtain ⟨stored, hstored, rfl⟩ := mem_samplesOf.mp hsample
        obtain ⟨own, hown, hle⟩ := h rfl layout hlayout hne candidate hcandidate stored hstored
        exact le_trans hle (hgreatest _ (mem_samplesOf.mpr ⟨own, hown, rfl⟩))

theorem pinnedLast_of_bruteForce
    (h : ∀ layout ∈ layouts, bruteForce instant content pinCurrent current candidates layout =
      bruteForce instant content false current candidates layout) :
    PinnedLast instant content pinCurrent current layouts candidates := by
  intro hpinned layout hlayout hne candidate hcandidate stored hstored
  have hsame := h layout hlayout
  rw [bruteForce_unpinned, bruteForce, pinLimit, if_pos hpinned] at hsame
  cases hlatest : Moments.latest (samplesOf instant current layout) with
  | none =>
    rw [latest_eq_none, samplesOf, List.map_eq_nil_iff] at hlatest
    exact absurd hlatest hne
  | some last =>
    obtain ⟨found, hfound, hts⟩ := (latest_eq_some.mp hlatest).attained
    obtain ⟨own, hown, rfl⟩ := mem_samplesOf.mp hfound
    refine ⟨own, hown, ?_⟩
    have hmem : { ts := stored, sources := {(content candidate).id} } ∈
        allSamples instant content current candidates layout :=
      List.mem_append_right _ (List.mem_flatMap.mpr
        ⟨candidate, hcandidate, mem_samplesOf.mpr ⟨stored, hstored, rfl⟩⟩)
    cases hall : Moments.latest (allSamples instant content current candidates layout) with
    | none =>
      rw [latest_eq_none.mp hall] at hmem
      exact absurd hmem List.not_mem_nil
    | some greatest =>
      have hcurrent := congrArg (·.current) hsame
      have hlimited : Moments.latest (upTo (some last.ts)
          (allSamples instant content current candidates layout)) = some greatest := by
        rw [hlatest] at hcurrent
        exact hcurrent.trans hall
      obtain ⟨limited, hlimitedMem, heq⟩ := (latest_eq_some.mp hlimited).attained
      have hle : limited.ts ≤ last.ts := of_decide_eq_true (List.mem_filter.mp hlimitedMem).2
      have hgreatest := (latest_eq_some.mp hall).greatest _ hmem
      rw [heq, ← hts] at hle
      exact le_trans hgreatest hle

theorem preceding_exact_iff (h : Readable openSegment content sections segments)
    (anchor : DatasetSegment) (current : Segment) (latest pinCurrent : Bool) :
    (∃ chosen found, preceding instant openSegment anchor segments current sections latest
        pinCurrent = .ok (chosen, found) ∧
      PlainAnswer instant content false current (layoutMap sections latest)
        (candidatesBefore anchor segments ((layoutMap sections latest).map (·.1)) instant)
        chosen found) ↔
      PinnedLast instant content pinCurrent current (layoutMap sections latest)
        (candidatesBefore anchor segments ((layoutMap sections latest).map (·.1)) instant) := by
  obtain ⟨chosen, found, hrun, hanswer⟩ := preceding_bruteForce h anchor current latest pinCurrent
  constructor
  · rintro ⟨_, _, hsame, hexact⟩
    obtain ⟨rfl, rfl⟩ := Prod.mk.inj (Except.ok.inj (hrun.symm.trans hsame))
    apply pinnedLast_of_bruteForce
    intro layout hlayout
    rw [← hanswer.moments layout hlayout, hexact.moments layout hlayout]
  · intro hlast
    have hsame : ∀ layout ∈ layoutMap sections latest, _ = _ :=
      fun layout hlayout => bruteForce_pinned hlast hlayout
    refine ⟨chosen, found, hrun, fun layout hlayout => ?_, hanswer.sorted, fun segment => ?_⟩
    · rw [hanswer.moments layout hlayout, hsame layout hlayout]
    · rw [hanswer.chosen]
      refine and_congr_right fun _ => exists_congr fun layout => and_congr_right fun hlayout => ?_
      rw [hsame layout hlayout]

end Plain

/-- What reading all rows of all candidates would give, from both searches. -/
def AgreesWithBruteForce (instant : Int) (openSegment : Opener)
    (content : DatasetSegment → Segment) (sections : List SectionPlans)
    (segments : List DatasetSegment) (anchor : DatasetSegment) (current : Segment)
    (filters : List RequestFilter) (latest pinCurrent : Bool) : Prop :=
  (∃ chosen found, preceding instant openSegment anchor segments current sections latest
      pinCurrent = .ok (chosen, found) ∧
    PlainAnswer instant content false current (layoutMap sections latest)
      (candidatesBefore anchor segments ((layoutMap sections latest).map (·.1)) instant)
      chosen found) ∧
  ∃ chosen found,
    relationPreceding instant openSegment anchor segments current sections filters =
      .ok (chosen, found) ∧
    PartitionAnswer instant content sections filters current
      (candidatesBefore anchor segments ((partitionedPlans sections).map (·.typeId)) instant)
      chosen found

/-- The searches agree with brute force unless a pinned search leaves out later samples, or a
search that is not for one database stops in front of the first sample of a partition.  The order
in which the catalog lists the segments does not matter. -/
theorem predecessor_search_iff {instant : Int} {openSegment : Opener}
    {content : DatasetSegment → Segment} {sections : List SectionPlans}
    {segments : List DatasetSegment} (h : Readable openSegment content sections segments)
    (hids : ∀ a ∈ segments, ∀ b ∈ segments, a.id = b.id → a = b) (anchor : DatasetSegment)
    (current : Segment) (filters : List RequestFilter) (latest pinCurrent : Bool) :
    (AgreesWithBruteForce instant openSegment content sections segments anchor current filters
        latest pinCurrent ↔
      PinnedLast instant content pinCurrent current (layoutMap sections latest)
          (candidatesBefore anchor segments ((layoutMap sections latest).map (·.1)) instant) ∧
        (requestedDatid filters = none → Discovered instant sections content current
          (candidatesBefore anchor segments ((partitionedPlans sections).map (·.typeId))
            instant))) ∧
    ∀ segments', segments.Perm segments' →
      preceding instant openSegment anchor segments' current sections latest pinCurrent =
          preceding instant openSegment anchor segments current sections latest pinCurrent ∧
        relationPreceding instant openSegment anchor segments' current sections filters =
          relationPreceding instant openSegment anchor segments current sections filters := by
  refine ⟨and_congr (preceding_exact_iff h anchor current latest pinCurrent) ?_, fun _ hperm =>
    ⟨(preceding_perm hperm hids current sections latest pinCurrent).symm,
      (relationPreceding_perm hperm hids current filters).symm⟩⟩
  cases hrequested : requestedDatid filters with
  | none =>
    rw [relationPreceding_discover h anchor current hrequested]
    exact ⟨fun hdiscovered _ => hdiscovered, fun hall => hall rfl⟩
  | some datid =>
    refine ⟨fun _ hnone => ?_, fun _ => relationPreceding_requested h anchor current hrequested⟩
    cases hnone

/-! ## A database that only an old segment holds

The anchor has two samples of database 1, and database 2 has its only sample in a segment
that ends before both.  Another segment before the anchor has a later sample of a plain
layout than the anchor. -/

def samplePlan (typeId : Nat) : Plan :=
  { typeId := typeId, fields := [], timestamp := some "ts", startRow := 0, filters := []
    matchesNone := false, rows := 0 }

def sampleSections : List SectionPlans :=
  [{ logicalName := "pg_stat_user_tables", plans := [samplePlan 9] },
   { logicalName := "os_cpu", plans := [samplePlan 1] }]

def sampleRow (ts : Int) (datid : Nat) : Row :=
  { cells := [("ts", .ts ts), ("datid", .u32 datid)] }

def sampleReference (id maxTs : Int) (typeIds : List Nat) : DatasetSegment :=
  { id := id, kind := .finished, minTs := 0, maxTs := maxTs, activePosition := none
    sections := typeIds.map fun typeId => { typeId := typeId, rows := 1, bytes := 1 } }

def sampleSegment (id maxTs : Int) (layouts : List (Nat × List Row)) : Segment :=
  { id := id, kind := .finished, maxTs := maxTs, activePosition := none, layouts := layouts
    dictionary := fun _ => none }

def anchorReference : DatasetSegment := sampleReference 30 100 [1, 9]
def oldReference : DatasetSegment := sampleReference 10 50 [9]
def sideReference : DatasetSegment := sampleReference 20 150 [1]

def anchorSegment : Segment :=
  sampleSegment 30 100 [(1, [sampleRow 100 0]), (9, [sampleRow 90 1, sampleRow 100 1])]

def sampleContent (segment : DatasetSegment) : Segment :=
  if segment = oldReference then sampleSegment 10 50 [(9, [sampleRow 50 2])]
  else sampleSegment 20 150 [(1, [sampleRow 150 0])]

def sampleOpen : Opener := fun segment => .ok (sampleContent segment)

theorem sampleSegments_readable :
    Readable sampleOpen sampleContent sampleSections [oldReference, sideReference] where
  opens _ _ := rfl
  ids segment hsegment := by
    rcases List.mem_cons.mp hsegment with rfl | hsegment
    · rfl
    · rw [List.mem_singleton.mp hsegment]
      rfl
  maxTs segment hsegment := by
    rcases List.mem_cons.mp hsegment with rfl | hsegment
    · rfl
    · rw [List.mem_singleton.mp hsegment]
      rfl
  bounds := by
    have hall : ∀ segment ∈ [oldReference, sideReference], ∀ typeId ∈ [1, 9],
        ∀ row ∈ (sampleContent segment).rows typeId,
          rowTimestamp row "ts" = some segment.maxTs := by
      decide +kernel
    intro segment hsegment found hfound plan hplan timestamp htimestamp row hrow stored hstored
    have hplans : ∀ found ∈ sampleSections, ∀ plan ∈ found.plans,
        plan.typeId ∈ [1, 9] ∧ plan.timestamp = some "ts" := by decide +kernel
    obtain ⟨htype, hts⟩ := hplans found hfound plan hplan
    rw [hts] at htimestamp
    rw [← Option.some.inj htimestamp, hall segment hsegment plan.typeId htype row hrow] at hstored
    exact le_of_eq (Option.some.inj hstored).symm

instance settledDecidable (instant : Int) (seen : List PartitionRow) (maxTs : Int) :
    Decidable (Settled instant seen maxTs) :=
  inferInstanceAs (Decidable (_ ∧ ∀ row ∈ seen, ∃ earlier ∈ seen, ∃ later ∈ seen, _))

instance metDecidable (seen : List PartitionRow) (key : PartitionKey) :
    Decidable (met seen key) :=
  inferInstanceAs (Decidable (∃ row ∈ seen, row.key = key))

theorem candidates_sample :
    candidatesBefore anchorReference [oldReference, sideReference]
        ((partitionedPlans sampleSections).map (·.typeId)) 95 = [oldReference] ∧
      candidatesBefore anchorReference [oldReference, sideReference]
        ((partitionedPlans sampleSections).map (·.typeId)) 200 = [oldReference] := by
  decide +kernel

/-- The searches agree at an instant at which the anchor has one sample, and for database 2 alone.
At a later instant they do not know database 2, or keep the pinned sample. -/
theorem predecessor_search_sample :
    AgreesWithBruteForce 95 sampleOpen sampleContent sampleSections [oldReference, sideReference]
        anchorReference anchorSegment [] false false ∧
      AgreesWithBruteForce 200 sampleOpen sampleContent sampleSections
        [oldReference, sideReference] anchorReference anchorSegment [⟨"datid", "2"⟩] false false ∧
      ¬AgreesWithBruteForce 200 sampleOpen sampleContent sampleSections
        [oldReference, sideReference] anchorReference anchorSegment [] false false ∧
      ¬AgreesWithBruteForce 200 sampleOpen sampleContent sampleSections
        [oldReference, sideReference] anchorReference anchorSegment [⟨"datid", "2"⟩] false
        true := by
  have hiff : ∀ instant filters pinCurrent, AgreesWithBruteForce instant sampleOpen sampleContent
      sampleSections [oldReference, sideReference] anchorReference anchorSegment filters false
      pinCurrent ↔ _ := fun instant filters pinCurrent =>
    (@predecessor_search_iff instant _ _ _ _ sampleSegments_readable (by decide) anchorReference
      anchorSegment filters false pinCurrent).1
  have hfiltered : requestedDatid [⟨"datid", "2"⟩] ≠ none := by decide +kernel
  refine ⟨(hiff _ _ _).mpr ⟨fun hfalse => absurd hfalse Bool.false_ne_true, fun _ => ?_⟩,
    (hiff _ _ _).mpr ⟨fun hfalse => absurd hfalse Bool.false_ne_true,
      fun hnone => absurd hnone hfiltered⟩, fun hagrees => ?_, fun hagrees => ?_⟩
  · rw [candidates_sample.1]
    intro before candidate after hsplit hsettled
    cases before with
    | nil =>
      obtain ⟨rfl, rfl⟩ := List.cons.inj hsplit
      exact absurd hsettled (by decide +kernel)
    | cons first before =>
      exact absurd (List.cons.inj hsplit).2 (by simp)
  · have hdiscovered := ((hiff _ _ _).mp hagrees).2 rfl
    rw [candidates_sample.2] at hdiscovered
    have hmet := hdiscovered [] oldReference [] rfl (by decide +kernel) oldReference
      List.mem_cons_self ⟨(9, .u32 2), 50, 10⟩ (by decide +kernel) (by decide)
    revert hmet
    decide +kernel
  · have hlast := ((hiff _ _ _).mp hagrees).1 rfl (1, "ts") (by decide +kernel)
      (by decide +kernel) sideReference (by decide +kernel) 150 (by decide +kernel)
    revert hlast
    decide +kernel

/-- Brute force over all candidates knows database 2, and the search for it finds its sample.  The
search that is not for one database does not know it. -/
theorem predecessor_search_differs :
    (relationPreceding 200 sampleOpen anchorReference [oldReference, sideReference]
        anchorSegment sampleSections []).map
        (fun answer => (answer.2.lookup (9, .u32 2)).isSome) = .ok false ∧
      (bruteForceFor 200 sampleSections sampleContent anchorSegment
        [oldReference, sideReference] (9, .u32 2)).current.map (·.ts) = some 50 ∧
      (relationPreceding 200 sampleOpen anchorReference [oldReference, sideReference]
        anchorSegment sampleSections [⟨"datid", "2"⟩]).map
        (fun answer => (answer.2.lookup (9, .u32 2)).bind fun moments =>
          moments.current.map (·.ts)) = .ok (some 50) := by
  decide +kernel

end Kronika.Query
