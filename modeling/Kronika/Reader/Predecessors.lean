/-
Predecessor discovery finds, for every type, the closest segment that has rows of it.

One pass over the segments before the range serves all the types.  It keeps the first
segment for each of them, and the pass descends, so the first is the closest.  A summary
that excludes a segment wrongly would change the outcome; one that admits it wrongly only
costs an opened file.
-/
import Kronika.Library.FirstCover
import Kronika.Reader.Canonical

namespace Kronika.Reader

open Format Store Library

variable {crc32c : Checksum} {dir : LocalDir} {scan : LocalScan} {range : TimeRange}
  {contents : SegmentId → Bytes} {catalogs : SegmentId → Catalog}

/-! ## The segments of the range -/

theorem filter_canonicalSegments (p : Int64 → Int64 → Bool) :
    ((canonicalSegments catalogs scan).filter fun segment => p segment.minTs segment.maxTs) =
      (scan.finished.filter fun unit => p unit.summary.minTs unit.summary.maxTs).map
          (finishedSegment catalogs) ++
        ((scan.canonicalActive.filter fun active => p active.2.1 active.2.2).map
          (capturedSegment scan)).toList := by
  rw [canonicalSegments, List.filter_append, List.filter_map, activeSegment]
  congr 1
  cases scan.canonicalActive with
  | none => rfl
  | some active =>
    rw [Option.filter_some]
    show List.filter _ [capturedSegment scan active] = _
    show (bif p active.2.1 active.2.2 then _ else _) = _
    cases p active.2.1 active.2.2 with
    | true => rfl
    | false => rfl

def overlapping (catalogs : SegmentId → Catalog) (scan : LocalScan) (range : TimeRange) :
    List Canonical :=
  (canonicalSegments catalogs scan).filter fun segment =>
    range.overlaps segment.minTs segment.maxTs

theorem active_not_listed {units : List FinalUnit} (hunits : ∀ unit ∈ units, unit ∈ scan.finished)
    {active : SegmentId × Int64 × Int64} (hactive : scan.canonicalActive = some active) :
    (scan.activeId.any fun activeId =>
      ((units.map (finishedSegment catalogs)).map (·.ref)).any
        (·.segmentId = activeId)) = false := by
  obtain ⟨hexists, hid, _⟩ := canonicalActive_some hactive
  rw [hid, Option.any_some, List.any_map, List.any_map, List.any_eq_false]
  intro unit hunit heq
  have hsame : unit.id = active.1 := of_decide_eq_true heq
  exact id_mem_finished_of_exists hid hexists unit (hunits unit hunit) hsame

theorem listSegments_ok (h : Pinned crc32c dir scan contents catalogs) {segments : List SegmentRef}
    (hlist : listSegments crc32c dir scan range .catalog = .ok segments) :
    segments = sortById ((overlapping catalogs scan range).map (·.ref)) := by
  have hselected : (scan.finished.filter fun unit =>
      range.overlaps unit.summary.minTs unit.summary.maxTs ||
        predecessorId scan range .catalog = some unit.id) =
      scan.finished.filter fun unit => range.overlaps unit.summary.minTs unit.summary.maxTs := by
    refine List.filter_congr fun unit _ => ?_
    rw [predecessorId, decide_eq_false (by simp), Bool.or_false]
  have hmem : ∀ unit ∈ scan.finished.filter fun unit =>
      range.overlaps unit.summary.minTs unit.summary.maxTs, unit ∈ scan.finished :=
    fun unit hunit => (List.mem_filter.mp hunit).1
  rw [overlapping, filter_canonicalSegments, List.map_append]
  rw [listSegments, hselected] at hlist
  generalize (scan.finished.filter fun unit =>
    range.overlaps unit.summary.minTs unit.summary.maxTs) = selected at *
  cases hunits : openFinishedUnits crc32c dir selected with
  | error problem =>
    rw [hunits] at hlist
    exact absurd hlist (by simp)
  | ok finished =>
    rw [hunits, openFinishedUnits_ok h hmem hunits] at hlist
    dsimp only at hlist
    cases hactive : scan.canonicalActive with
    | none =>
      rw [hactive] at hlist
      rw [Option.filter_none, Option.map_none, Option.toList_none, List.map_nil, List.append_nil]
      exact (Except.ok.inj hlist).symm
    | some active =>
      rw [hactive, active_not_listed hmem hactive] at hlist
      rw [Option.filter_some] at hlist ⊢
      rw [predecessorId, decide_eq_false (by simp), Bool.or_false, Bool.not_false,
        Bool.true_and] at hlist
      cases hover : range.overlaps active.2.1 active.2.2 with
      | false =>
        rw [hover] at hlist
        rw [if_neg (by decide), Option.map_none, Option.toList_none, List.map_nil, List.append_nil]
        exact (Except.ok.inj hlist).symm
      | true =>
        rw [hover, if_pos rfl] at hlist
        cases hopen : openActive crc32c dir scan with
        | error problem =>
          rw [hopen] at hlist
          exact absurd hlist (by simp)
        | ok found =>
          obtain ⟨snapshot, rfl, href⟩ := openActive_ok hactive hopen
          rw [hopen] at hlist
          dsimp only at hlist
          rw [href] at hlist
          exact (Except.ok.inj hlist).symm

/-! ## The pass -/

variable {segment : Canonical}

theorem mem_matchedTypes {remaining : Finset Nat} {typeId : Nat} :
    typeId ∈ matchedTypes remaining segment.ref ↔
      typeId ∈ remaining ∧ segment.has typeId = true := by
  rw [matchedTypes, List.mem_map, Canonical.has, List.any_eq_true]
  constructor
  · rintro ⟨found, hmem, rfl⟩
    obtain ⟨hsection, hboth⟩ := List.mem_filter.mp hmem
    obtain ⟨hrows, hwanted⟩ := of_decide_eq_true hboth
    exact ⟨hwanted, found, hsection, decide_eq_true ⟨hrows, rfl⟩⟩
  · rintro ⟨hwanted, found, hsection, hboth⟩
    obtain ⟨hrows, rfl⟩ := of_decide_eq_true hboth
    exact ⟨found, List.mem_filter.mpr ⟨hsection, decide_eq_true ⟨hrows, hwanted⟩⟩, rfl⟩

theorem matchedTypes_eq_nil {remaining : Finset Nat} :
    matchedTypes remaining segment.ref = [] ↔ remaining.filter (segment.has ·) = ∅ := by
  rw [List.eq_nil_iff_forall_not_mem, Finset.filter_eq_empty_iff]
  simp only [mem_matchedTypes, not_and]

theorem filter_not_matched (remaining : Finset Nat) (segment : Canonical) :
    remaining.filter (· ∉ matchedTypes remaining segment.ref) =
      remaining.filter (!segment.has ·) := by
  refine Finset.filter_congr fun typeId hwanted => ?_
  simp only [mem_matchedTypes, hwanted, true_and, Bool.not_eq_true, Bool.not_eq_true']

theorem has_eq_false_of_summary (h : Pinned crc32c dir scan contents catalogs)
    {unit : FinalUnit} (hunit : unit ∈ scan.finished) {typeIds : List Nat}
    (hsummary : ¬unit.summary.mayContainAnyNonemptyType typeIds = true) :
    ∀ typeId ∈ typeIds, (finishedSegment catalogs unit).has typeId = false := by
  intro typeId hwanted
  rw [Bool.eq_false_iff]
  intro hhas
  obtain ⟨catalog, hcatalog, entry, hentry, rfl, hrows⟩ := Canonical.has_iff.mp hhas
  have hsame : catalog = catalogs unit.id := List.mem_singleton.mp hcatalog
  subst hsame
  obtain ⟨retained, limit, validation, catalogLen, _, heq⟩ := h.summarised unit hunit
  rw [heq] at hsummary
  exact hsummary (mayContainAnyNonemptyType_of_rows hentry hrows hwanted)

theorem openCandidate_ok (h : Pinned crc32c dir scan contents catalogs) {segment : Canonical}
    (hmem : segment ∈ canonicalSegments catalogs scan) {remaining : Finset Nat}
    {found : Option SegmentRef}
    (hopen : openCandidate crc32c dir scan remaining segment.candidate = .ok found) :
    found = some segment.ref ∨
      found = none ∧ ∀ typeId ∈ remaining, segment.has typeId = false := by
  rw [canonicalSegments, List.mem_append, List.mem_map, Option.mem_toList] at hmem
  rcases hmem with ⟨unit, hunit, rfl⟩ | hactive
  · have hunitOf : (finishedSegment catalogs unit).candidate.unit = some unit := rfl
    rw [openCandidate, hunitOf] at hopen
    dsimp only at hopen
    by_cases hmay : unit.summary.mayContainAnyNonemptyType (remaining.sort (· ≤ ·)) = true
    · rw [if_pos hmay] at hopen
      cases hfile : openFinished crc32c dir unit with
      | error problem =>
        rw [hfile] at hopen
        exact absurd hopen (by simp)
      | ok opened =>
        rw [hfile] at hopen
        rw [← Except.ok.inj hopen, openFinished_ok h hunit hfile]
        exact .inl rfl
    · rw [if_neg hmay] at hopen
      refine .inr ⟨(Except.ok.inj hopen).symm, fun typeId hwanted => ?_⟩
      exact has_eq_false_of_summary h hunit hmay typeId ((Finset.mem_sort _).mpr hwanted)
  · obtain ⟨active, hcanonical, rfl⟩ := Option.map_eq_some_iff.mp hactive
    have hunitOf : (capturedSegment scan active).candidate.unit = none := rfl
    rw [openCandidate, hunitOf] at hopen
    cases hsnap : openActive crc32c dir scan with
    | error problem =>
      rw [hsnap] at hopen
      exact absurd hopen (by simp)
    | ok opened =>
      obtain ⟨snapshot, rfl, href⟩ := openActive_ok hcanonical hsnap
      rw [hsnap, (canonicalActive_some hcanonical).2.2] at hopen
      dsimp only at hopen
      rw [href] at hopen
      exact .inl (Except.ok.inj hopen).symm

theorem findPredecessors_ok (h : Pinned crc32c dir scan contents catalogs)
    {segments : List Canonical}
    (hmem : ∀ segment ∈ segments, segment ∈ canonicalSegments catalogs scan)
    {remaining : Finset Nat} {found : List SegmentRef}
    (hfind : findPredecessors crc32c dir scan remaining (segments.map (·.candidate)) = .ok found) :
    found = (firstCover Canonical.has remaining segments).map (·.ref) := by
  induction segments generalizing remaining found with
  | nil => exact (Except.ok.inj hfind).symm
  | cons segment segments ih =>
    obtain ⟨hfirst, hrest⟩ := List.forall_mem_cons.mp hmem
    rw [List.map_cons, findPredecessors] at hfind
    rw [firstCover]
    cases hopen : openCandidate crc32c dir scan remaining segment.candidate with
    | error problem =>
      rw [hopen] at hfind
      exact absurd hfind (by simp)
    | ok opened =>
      rw [hopen] at hfind
      rcases openCandidate_ok h hfirst hopen with rfl | ⟨rfl, hnone⟩
      · dsimp only at hfind
        by_cases hmatched : matchedTypes remaining segment.ref = []
        · rw [if_pos hmatched] at hfind
          rw [if_pos (matchedTypes_eq_nil.mp hmatched)]
          exact ih hrest hfind
        · rw [if_neg hmatched, filter_not_matched] at hfind
          rw [if_neg fun hempty => hmatched (matchedTypes_eq_nil.mpr hempty), List.map_cons]
          by_cases hdone : remaining.filter (!segment.has ·) = ∅
          · rw [if_pos hdone] at hfind
            rw [hdone, firstCover_empty]
            exact (Except.ok.inj hfind).symm
          · rw [if_neg hdone] at hfind
            cases hmore : findPredecessors crc32c dir scan (remaining.filter (!segment.has ·))
                (segments.map (·.candidate)) with
            | error problem =>
              rw [hmore] at hfind
              exact absurd hfind (by simp)
            | ok more =>
              rw [hmore] at hfind
              rw [← ih hrest hmore]
              exact (Except.ok.inj hfind).symm
      · have hempty : remaining.filter (segment.has ·) = ∅ := by
          rw [Finset.filter_eq_empty_iff]
          intro typeId hwanted
          rw [hnone typeId hwanted]
          decide
        rw [if_pos hempty]
        exact ih hrest hfind

/-! ## The order of the candidates -/

def before (catalogs : SegmentId → Catalog) (scan : LocalScan) (range : TimeRange) :
    List Canonical :=
  (canonicalSegments catalogs scan).filter fun segment => range.beforeStart segment.maxTs

def descending (catalogs : SegmentId → Catalog) (scan : LocalScan) (range : TimeRange) :
    List Canonical :=
  (before catalogs scan range).mergeSort fun a b => b.key ≤ a.key

theorem candidates_eq : candidates scan range = (before catalogs scan range).map (·.candidate) := by
  rw [before, filter_canonicalSegments fun _ maxTs => range.beforeStart maxTs, candidates,
    List.map_append, List.map_map]
  congr 1
  cases scan.canonicalActive.filter fun active => range.beforeStart active.2.2 with
  | none => rfl
  | some active => rfl

theorem mergeSort_candidates :
    ((candidates scan range).mergeSort fun a b => b.key ≤ a.key) =
      (descending catalogs scan range).map (·.candidate) := by
  have hall : candidates scan range = (before catalogs scan range).map (·.candidate) :=
    candidates_eq
  rw [hall, descending, List.map_mergeSort]
  intro a _ b _
  rfl

theorem mem_descending :
    segment ∈ descending catalogs scan range ↔
      segment ∈ canonicalSegments catalogs scan ∧ range.beforeStart segment.maxTs = true := by
  rw [descending, List.mem_mergeSort, before, List.mem_filter]

theorem descending_ids : (descending catalogs scan range).Pairwise fun a b => a.id ≠ b.id := by
  have hperm := List.mergeSort_perm (before catalogs scan range) fun a b => b.key ≤ a.key
  refine (hperm.pairwise_iff fun h => h.symm).mpr ?_
  exact ids_pairwise.sublist List.filter_sublist

theorem descending_sorted : (descending catalogs scan range).Pairwise fun a b => b.key < a.key := by
  have hle : (descending catalogs scan range).Pairwise fun a b => b.key ≤ a.key := by
    refine (List.pairwise_mergeSort ?_ ?_ (before catalogs scan range)).imp of_decide_eq_true
    · intro a b c hab hbc
      exact decide_eq_true (le_trans (of_decide_eq_true hbc) (of_decide_eq_true hab))
    · intro a b
      rw [Bool.or_eq_true, decide_eq_true_eq, decide_eq_true_eq]
      exact le_total b.key a.key
  refine (hle.and descending_ids).imp fun {a b} hboth => lt_of_le_of_ne hboth.1 fun heq => ?_
  exact hboth.2 (Canonical.key_injective heq).symm

/-! ## Closest predecessors -/

/-- No canonical segment with rows of the type ends later before the range. -/
def IsClosest (catalogs : SegmentId → Catalog) (scan : LocalScan) (range : TimeRange)
    (typeId : Nat) (segment : Canonical) : Prop :=
  range.beforeStart segment.maxTs = true ∧ HasRows segment.catalogs typeId ∧
    ∀ other ∈ canonicalSegments catalogs scan, range.beforeStart other.maxTs = true →
      HasRows other.catalogs typeId → other.key ≤ segment.key

def predecessors (catalogs : SegmentId → Catalog) (scan : LocalScan) (range : TimeRange)
    (typeIds : List Nat) : List Canonical :=
  firstCover Canonical.has typeIds.toFinset (descending catalogs scan range)

theorem mem_predecessors {typeIds : List Nat} :
    segment ∈ predecessors catalogs scan range typeIds ↔
      segment ∈ canonicalSegments catalogs scan ∧
        ∃ typeId ∈ typeIds, IsClosest catalogs scan range typeId segment := by
  have hfind : ∀ typeId, (descending catalogs scan range).find? (Canonical.has · typeId) =
      some segment ↔ segment ∈ canonicalSegments catalogs scan ∧
        IsClosest catalogs scan range typeId segment := by
    intro typeId
    rw [find?_eq_some_of_sorted descending_sorted fun a b hab hba => lt_asymm hab hba,
      mem_descending, Canonical.has_iff]
    constructor
    · rintro ⟨⟨hmem, hbefore⟩, hrows, hmax⟩
      refine ⟨hmem, hbefore, hrows, fun other hother hearlier hothers => ?_⟩
      rcases hmax other (mem_descending.mpr ⟨hother, hearlier⟩)
        (Canonical.has_iff.mpr hothers) with rfl | hlt
      · exact le_refl _
      · exact le_of_lt hlt
    · rintro ⟨hmem, hbefore, hrows, hmax⟩
      refine ⟨⟨hmem, hbefore⟩, hrows, fun other hother hothers => ?_⟩
      obtain ⟨hcanonical, hearlier⟩ := mem_descending.mp hother
      rcases lt_or_eq_of_le (hmax other hcanonical hearlier (Canonical.has_iff.mp hothers))
        with hlt | heq
      · exact .inr hlt
      · exact .inl (eq_of_id hcanonical hmem (Canonical.key_injective heq))
  rw [predecessors, mem_firstCover]
  simp only [List.mem_toFinset, hfind]
  constructor
  · rintro ⟨typeId, hwanted, hmem, hclosest⟩
    exact ⟨hmem, typeId, hwanted, hclosest⟩
  · rintro ⟨hmem, typeId, hwanted, hclosest⟩
    exact ⟨typeId, hwanted, hmem, hclosest⟩

theorem selected_ids {typeIds : List Nat} :
    (overlapping catalogs scan range ++ predecessors catalogs scan range typeIds).Pairwise
      fun a b => a.id ≠ b.id := by
  refine List.pairwise_append.mpr ⟨?_, ?_, ?_⟩
  · exact ids_pairwise.sublist List.filter_sublist
  · exact descending_ids.sublist (firstCover_sublist _ _ _)
  · intro a ha b hb heq
    obtain ⟨hacanonical, hover⟩ := List.mem_filter.mp ha
    obtain ⟨hbcanonical, typeId, _, hbefore, _⟩ := mem_predecessors.mp hb
    obtain rfl := eq_of_id hacanonical hbcanonical heq
    rw [TimeRange.overlaps_eq_false hbefore] at hover
    exact absurd hover (by decide)

theorem sortById_sorted (segments : List SegmentRef) :
    (sortById segments).Pairwise fun a b => a.segmentId.value ≤ b.segmentId.value := by
  refine (List.pairwise_mergeSort ?_ ?_ segments).imp of_decide_eq_true
  · intro a b c hab hbc
    exact decide_eq_true (Std.le_trans (of_decide_eq_true hab) (of_decide_eq_true hbc))
  · intro a b
    rw [Bool.or_eq_true, decide_eq_true_eq, decide_eq_true_eq]
    exact Std.le_total

theorem segmentsWithPredecessorsFor_ok (h : Pinned crc32c dir scan contents catalogs)
    {typeIds : List Nat} {listing : List SegmentRef}
    (hlist : segmentsWithPredecessorsFor crc32c dir scan range typeIds = .ok listing) :
    listing.Perm ((overlapping catalogs scan range ++
        predecessors catalogs scan range typeIds).map (·.ref)) ∧
      listing.Pairwise fun a b => a.segmentId.value ≤ b.segmentId.value := by
  rw [segmentsWithPredecessorsFor] at hlist
  cases hrange : listSegments crc32c dir scan range .catalog with
  | error problem =>
    rw [hrange] at hlist
    exact absurd hlist (by simp)
  | ok segments =>
    obtain rfl := listSegments_ok h hrange
    rw [hrange] at hlist
    dsimp only at hlist
    by_cases hwanted : typeIds.toFinset = ∅
    · rw [if_pos hwanted] at hlist
      rw [← Except.ok.inj hlist, predecessors, hwanted, firstCover_empty, List.append_nil]
      exact ⟨List.mergeSort_perm _ _, sortById_sorted _⟩
    · have hsorted : ((candidates scan range).mergeSort fun a b => b.key ≤ a.key) =
          (descending catalogs scan range).map (·.candidate) := mergeSort_candidates
      rw [if_neg hwanted, hsorted] at hlist
      cases hfind : findPredecessors crc32c dir scan typeIds.toFinset
          ((descending catalogs scan range).map (·.candidate)) with
      | error problem =>
        rw [hfind] at hlist
        exact absurd hlist (by simp)
      | ok found =>
        have hfound := findPredecessors_ok h
          (fun segment hsegment => (mem_descending.mp hsegment).1) hfind
        rw [hfind] at hlist
        rw [← Except.ok.inj hlist, List.map_append, predecessors, ← hfound]
        refine ⟨(List.mergeSort_perm _ _).trans ?_, sortById_sorted _⟩
        exact (List.mergeSort_perm _ _).append_right _

/-! ## A listing of an unchanged directory -/

/-- Nothing changed since the scan: every file is still there, and so is the captured prefix
of the journal. -/
structure Available (crc32c : Checksum) (dir : LocalDir) (scan : LocalScan)
    (contents : SegmentId → Bytes) : Prop where
  files : ∀ unit ∈ scan.finished, dir.zms unit.id =
    some { before := unit.identity, bytes := contents unit.id, after := unit.identity }
  journal : ∃ found, openActive crc32c dir scan = .ok found

theorem openFinished_available (h : Pinned crc32c dir scan contents catalogs)
    (havail : Available crc32c dir scan contents) {unit : FinalUnit}
    (hunit : unit ∈ scan.finished) : ∃ segment, openFinished crc32c dir unit = .ok segment := by
  refine ⟨unitRef unit (catalogs unit.id), ?_⟩
  rw [openFinished, havail.files unit hunit]
  dsimp only
  rw [if_neg (not_not.mpr rfl), readCatalog_contents h hunit]
  dsimp only
  rw [if_neg (not_not.mpr rfl)]

theorem openFinishedUnits_available (h : Pinned crc32c dir scan contents catalogs)
    (havail : Available crc32c dir scan contents) {units : List FinalUnit}
    (hunits : ∀ unit ∈ units, unit ∈ scan.finished) :
    ∃ segments, openFinishedUnits crc32c dir units = .ok segments := by
  induction units with
  | nil => exact ⟨[], rfl⟩
  | cons unit units ih =>
    obtain ⟨hunit, hrest⟩ := List.forall_mem_cons.mp hunits
    obtain ⟨segment, hone⟩ := openFinished_available h havail hunit
    obtain ⟨segments, hmore⟩ := ih hrest
    refine ⟨segment :: segments, ?_⟩
    rw [openFinishedUnits, hone]
    rw [hmore]

theorem listSegments_available (h : Pinned crc32c dir scan contents catalogs)
    (havail : Available crc32c dir scan contents) (mode : ListingMode) :
    ∃ segments, listSegments crc32c dir scan range mode = .ok segments := by
  obtain ⟨finished, hunits⟩ := openFinishedUnits_available h havail
    fun unit hunit => List.mem_of_mem_filter hunit
  obtain ⟨found, hopen⟩ := havail.journal
  rw [listSegments]
  rw [hunits, hopen]
  dsimp only
  split
  · exact ⟨_, rfl⟩
  · cases found with
    | none => exact ⟨_, rfl⟩
    | some snapshot => exact ⟨_, rfl⟩

theorem openCandidate_available (h : Pinned crc32c dir scan contents catalogs)
    (havail : Available crc32c dir scan contents) {segment : Canonical}
    (hmem : segment ∈ canonicalSegments catalogs scan) (remaining : Finset Nat) :
    ∃ found, openCandidate crc32c dir scan remaining segment.candidate = .ok found := by
  rw [canonicalSegments, List.mem_append, List.mem_map, Option.mem_toList] at hmem
  rcases hmem with ⟨unit, hunit, rfl⟩ | hactive
  · obtain ⟨opened, hfile⟩ := openFinished_available h havail hunit
    have hunitOf : (finishedSegment catalogs unit).candidate.unit = some unit := rfl
    rw [openCandidate, hunitOf]
    dsimp only
    by_cases hmay : unit.summary.mayContainAnyNonemptyType (remaining.sort (· ≤ ·)) = true
    · rw [if_pos hmay, hfile]
      exact ⟨_, rfl⟩
    · rw [if_neg hmay]
      exact ⟨_, rfl⟩
  · obtain ⟨active, hcanonical, rfl⟩ := Option.map_eq_some_iff.mp hactive
    obtain ⟨found, hsnap⟩ := havail.journal
    obtain ⟨snapshot, rfl, _⟩ := openActive_ok hcanonical hsnap
    rw [openCandidate, hsnap, (canonicalActive_some hcanonical).2.2]
    exact ⟨_, rfl⟩

theorem findPredecessors_available (h : Pinned crc32c dir scan contents catalogs)
    (havail : Available crc32c dir scan contents) {segments : List Canonical}
    (hmem : ∀ segment ∈ segments, segment ∈ canonicalSegments catalogs scan)
    (remaining : Finset Nat) :
    ∃ found, findPredecessors crc32c dir scan remaining (segments.map (·.candidate)) =
      .ok found := by
  induction segments generalizing remaining with
  | nil => exact ⟨[], rfl⟩
  | cons segment segments ih =>
    obtain ⟨hfirst, hrest⟩ := List.forall_mem_cons.mp hmem
    obtain ⟨opened, hopen⟩ := openCandidate_available h havail hfirst remaining
    rw [List.map_cons, findPredecessors, hopen]
    cases opened with
    | none => exact ih hrest remaining
    | some opened =>
      dsimp only
      split_ifs
      · exact ih hrest remaining
      · exact ⟨_, rfl⟩
      · obtain ⟨more, hmore⟩ := ih hrest (remaining.filter (· ∉ matchedTypes remaining opened))
        rw [hmore]
        exact ⟨_, rfl⟩

/-- A listing names no segment twice, and it holds the segments of the range and, for every
type, the closest segment before it.  It fails only when something changed. -/
theorem predecessors_closest (h : Pinned crc32c dir scan contents catalogs)
    (range : TimeRange) (typeIds : List Nat) :
    (∀ listing, segmentsWithPredecessorsFor crc32c dir scan range typeIds = .ok listing →
      listing.Pairwise (fun a b => a.segmentId.value < b.segmentId.value) ∧
      (∀ ref, ref ∈ listing ↔ ∃ segment ∈ canonicalSegments catalogs scan, segment.ref = ref ∧
        (range.overlaps segment.minTs segment.maxTs = true ∨
          ∃ typeId ∈ typeIds, IsClosest catalogs scan range typeId segment)) ∧
      ∀ segment ∈ canonicalSegments catalogs scan, range.beforeStart segment.maxTs = true →
        (∀ typeId ∈ typeIds, ¬IsClosest catalogs scan range typeId segment) →
          segment.ref ∉ listing) ∧
    (Available crc32c dir scan contents →
      ∃ listing, segmentsWithPredecessorsFor crc32c dir scan range typeIds = .ok listing) := by
  refine ⟨fun listing hlist => ?_, fun havail => ?_⟩
  · obtain ⟨hperm, hsorted⟩ := segmentsWithPredecessorsFor_ok h hlist
    have hmem : ∀ ref, ref ∈ listing ↔ ∃ segment ∈ canonicalSegments catalogs scan,
        segment.ref = ref ∧ (range.overlaps segment.minTs segment.maxTs = true ∨
          ∃ typeId ∈ typeIds, IsClosest catalogs scan range typeId segment) := by
      intro ref
      rw [hperm.mem_iff, List.mem_map]
      simp only [List.mem_append, mem_predecessors, overlapping, List.mem_filter]
      constructor
      · rintro ⟨segment, ⟨hmem, hover⟩ | ⟨hmem, hclosest⟩, rfl⟩
        · exact ⟨segment, hmem, rfl, .inl hover⟩
        · exact ⟨segment, hmem, rfl, .inr hclosest⟩
      · rintro ⟨segment, hmem, rfl, hover | hclosest⟩
        · exact ⟨segment, .inl ⟨hmem, hover⟩, rfl⟩
        · exact ⟨segment, .inr ⟨hmem, hclosest⟩, rfl⟩
    refine ⟨?_, hmem, ?_⟩
    · have hne : listing.Pairwise fun a b => a.segmentId ≠ b.segmentId := by
        refine (hperm.pairwise_iff fun hab => hab.symm).mpr ?_
        exact List.pairwise_map.mpr selected_ids
      refine (hsorted.and hne).imp fun {a b} hboth => Std.lt_of_le_of_ne hboth.1 fun heq => ?_
      exact hboth.2 (SegmentId.ext_value heq)
    · intro segment hsegment hbefore hnone hlisted
      obtain ⟨other, hother, href, hreason⟩ := (hmem _).mp hlisted
      obtain rfl := eq_of_id hother hsegment (congrArg SegmentRef.segmentId href)
      rcases hreason with hover | ⟨typeId, hwanted, hclosest⟩
      · rw [TimeRange.overlaps_eq_false hbefore] at hover
        exact absurd hover (by decide)
      · exact hnone typeId hwanted hclosest
  · obtain ⟨segments, hrange⟩ := listSegments_available h havail .catalog
    have hsorted : ((candidates scan range).mergeSort fun a b => b.key ≤ a.key) =
        (descending catalogs scan range).map (·.candidate) := mergeSort_candidates
    obtain ⟨found, hfind⟩ := findPredecessors_available h havail
      (fun segment hsegment => (mem_descending.mp hsegment).1) typeIds.toFinset
    rw [segmentsWithPredecessorsFor, hrange]
    dsimp only
    rw [hsorted, hfind]
    split_ifs
    · exact ⟨_, rfl⟩
    · exact ⟨_, rfl⟩

/-! ## Two segments before a range, and one type -/

def oldId : SegmentId := (SegmentId.new 10).get (by decide)
def newId : SegmentId := (SegmentId.new 30).get (by decide)

def sampleCatalog (typeId : Nat) (minTs maxTs : Int64) : Catalog :=
  { entries := [{ typeId := typeId, flags := 0, offset := 4, len := 1, rows := 3, crc32c := 0 }]
    minTs := minTs, maxTs := maxTs, formatVersion := formatVersion, windowCount := 1 }

def sampleCatalogs (id : SegmentId) : Catalog :=
  if id = oldId then sampleCatalog 7 10 20 else sampleCatalog 8 30 40

def sampleContents (id : SegmentId) : Bytes :=
  magic ++ [0] ++ (sampleCatalogs id).encode castagnoli

def sampleIdentity : FileIdentity :=
  { device := 1, inode := 1, len := 77, mtimeSeconds := 0, mtimeNanoseconds := 0
    ctimeSeconds := 0, ctimeNanoseconds := 0 }

def sampleUnit (id : SegmentId) : FinalUnit :=
  { id := id, identity := sampleIdentity
    summary := CatalogSummary.fromCatalog (sampleCatalogs id) 64 }

def sampleScan : LocalScan :=
  { finished := [sampleUnit oldId, sampleUnit newId], sorted := by decide, active := []
    validLen := 0 }

def sampleDir : LocalDir :=
  { zms := fun id => some { before := sampleIdentity, bytes := sampleContents id
                            after := sampleIdentity }
    activeJournal := none }

theorem sampleScan_pinned :
    Pinned castagnoli sampleDir sampleScan sampleContents sampleCatalogs where
  summarised unit hunit := by
    have hread : ∀ id ∈ [oldId, newId], readZmsSummary castagnoli (sampleContents id) 0
        hardMaxMetadataBytes .catalog = .ok (sampleCatalogs id, 64) := by decide +kernel
    rcases List.mem_cons.mp hunit with rfl | hunit
    · exact ⟨_, _, _, _, hread oldId List.mem_cons_self, rfl⟩
    · obtain rfl := List.mem_singleton.mp hunit
      exact ⟨_, _, _, _, hread newId (by decide), rfl⟩
  unchanged unit _ file hfile _ _ := by
    obtain rfl := Option.some.inj hfile
    rfl

theorem sampleScan_available : Available castagnoli sampleDir sampleScan sampleContents where
  files unit hunit := by
    rcases List.mem_cons.mp hunit with rfl | hunit
    · rfl
    · obtain rfl := List.mem_singleton.mp hunit
      rfl
  journal := ⟨none, rfl⟩

theorem predecessors_closest_sample :
    ∃ listing, segmentsWithPredecessorsFor castagnoli sampleDir sampleScan
        { start := .included 50, stop := .unbounded } [7] = .ok listing ∧
      (sampleUnit oldId |> finishedSegment sampleCatalogs).ref ∈ listing := by
  obtain ⟨hspec, havail⟩ := predecessors_closest sampleScan_pinned
    { start := .included 50, stop := .unbounded } [7]
  obtain ⟨listing, hlisting⟩ := havail sampleScan_available
  refine ⟨listing, hlisting, ((hspec listing hlisting).2.1 _).mpr ⟨_, List.mem_cons_self, rfl, ?_⟩⟩
  refine .inr ⟨7, List.mem_singleton_self 7, by decide, ?_, ?_⟩
  · exact ⟨_, List.mem_singleton_self _, _, List.mem_singleton_self _, rfl, by decide⟩
  · intro other hother _ hrows
    rcases List.mem_cons.mp hother with rfl | hother
    · exact le_refl _
    · obtain rfl := List.mem_singleton.mp hother
      obtain ⟨catalog, hcatalog, entry, hentry, htype, _⟩ := hrows
      obtain rfl := List.mem_singleton.mp hcatalog
      obtain rfl := List.mem_singleton.mp hentry
      exact absurd htype (by decide)

end Kronika.Reader
