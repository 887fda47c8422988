/-
The search for predecessors finds what reading every candidate would find.

Brute force reads all rows of all candidates and takes the two greatest timestamps at
or before the instant.  The search skips segments, and stops, only where its moments lie
above everything that is left.  A pinned search keeps the current moment of the anchor.
A partitioned search that is not for one database knows a partition only once it has met
a row of it.
-/
import Kronika.Query.Predecessor

namespace Kronika.Query

open Library Library.Moments

/-! ## One layout -/

variable {layouts : List (Nat × String)}

section Layout

variable {instant : Int}

def storedIn (instant : Int) (segment : Segment) (layout : Nat × String) : List Int :=
  (segment.rows layout.1).filterMap fun row =>
    (rowTimestamp row layout.2).filter (· ≤ instant)

def samplesOf (instant : Int) (segment : Segment) (layout : Nat × String) :
    List (Moment Int Int) :=
  (storedIn instant segment layout).map fun stored => { ts := stored, sources := {segment.id} }

/-- What a scan of one layout does to its moments. -/
def scanned (instant : Int) (segment : Segment) (layout : Nat × String)
    (moments : ContributingMoments) : ContributingMoments :=
  if (moments.moments.previous.any fun previous => segment.maxTs < previous.ts) then moments
  else
    (storedIn instant segment layout).foldl
      (fun moments stored => recordContributingMoment moments stored segment.id) moments

variable {segment : Segment}

theorem storedIn_eq_nil {layout : Nat × String}
    (h : (segment.rowsOf layout.1).isNone = true) : storedIn instant segment layout = [] := by
  rw [Segment.rowsOf, Option.isNone_map] at h
  rw [storedIn, Segment.rows, Option.isNone_iff_eq_none.mp h]
  rfl

theorem scanLayout_eq (segment : Segment) (moments : Nat → ContributingMoments)
    (layout : Nat × String) :
    scanLayout instant segment moments layout =
      Function.update moments layout.1 (scanned instant segment layout (moments layout.1)) := by
  rw [scanLayout, scanned]
  by_cases hskip : ((moments layout.1).moments.previous.any fun previous =>
      segment.maxTs < previous.ts) = true
  · rw [if_pos hskip, if_pos hskip, Function.update_eq_self]
  · rw [if_neg hskip, if_neg hskip]
    by_cases hnone : (segment.rowsOf layout.1).isNone = true
    · rw [if_pos hnone, storedIn_eq_nil hnone, List.foldl_nil, Function.update_eq_self]
    · rw [if_neg hnone, storedIn]
      clear hskip hnone
      induction segment.rows layout.1 generalizing moments with
      | nil => rw [List.filterMap_nil, List.foldl_nil, List.foldl_nil, Function.update_eq_self]
      | cons row rows ih =>
        rw [List.foldl_cons, ih]
        cases hstored : rowTimestamp row layout.2 with
        | none =>
          rw [List.filterMap_cons_none (by rw [hstored]; rfl)]
        | some stored =>
          dsimp only
          by_cases hle : stored ≤ instant
          · rw [if_pos hle, List.filterMap_cons_some (b := stored) (by simp [hstored, hle]),
              List.foldl_cons, Function.update_self, Function.update_idem]
          · rw [if_neg hle, List.filterMap_cons_none (by simp [hstored, Int.not_le.mp hle])]

theorem foldl_scanLayout_other {typeId : Nat}
    (h : typeId ∉ layouts.map (·.1)) (moments : Nat → ContributingMoments) :
    layouts.foldl (scanLayout instant segment) moments typeId = moments typeId := by
  induction layouts generalizing moments with
  | nil => rfl
  | cons first layouts ih =>
    obtain ⟨hfirst, hrest⟩ := not_or.mp (List.mem_cons.not.mp h)
    rw [List.foldl_cons, ih hrest, scanLayout_eq, Function.update_of_ne hfirst]

theorem foldl_scanLayout (hnodup : (layouts.map (·.1)).Nodup) (moments : Nat → ContributingMoments)
    {layout : Nat × String} (hmem : layout ∈ layouts) :
    layouts.foldl (scanLayout instant segment) moments layout.1 =
      scanned instant segment layout (moments layout.1) := by
  induction layouts generalizing moments with
  | nil => exact absurd hmem List.not_mem_nil
  | cons first layouts ih =>
    obtain ⟨hfirst, hrest⟩ := List.nodup_cons.mp hnodup
    rw [List.foldl_cons]
    rcases List.mem_cons.mp hmem with rfl | hmem
    · rw [foldl_scanLayout_other hfirst, scanLayout_eq, Function.update_self]
    · have hne : layout.1 ≠ first.1 := by
        intro heq
        apply hfirst
        show first.1 ∈ layouts.map (·.1)
        rw [← heq]
        exact List.mem_map_of_mem hmem
      rw [ih hrest _ hmem, scanLayout_eq, Function.update_of_ne hne]

/-! ## What the moments of a layout stand for -/

/-- The samples a search counts: all of them, or those up to its pinned moment. -/
def upTo (limit : Option Int) (samples : List (Moment Int Int)) : List (Moment Int Int) :=
  samples.filter fun sample => limit.all (sample.ts ≤ ·)

/-- Moments that stand for the samples seen so far.  A limit is the pinned moment. -/
structure Represents (found : ContributingMoments) (limit : Option Int)
    (seen : List (Moment Int Int)) : Prop where
  moments : found.moments = topTwo (upTo limit seen)
  pinned : found.pinned = limit.isSome
  current : ∀ ts, limit = some ts → ∃ last, found.moments.current = some last ∧ last.ts = ts

theorem upTo_append (limit : Option Int) (samples more : List (Moment Int Int)) :
    upTo limit (samples ++ more) = upTo limit samples ++ upTo limit more :=
  List.filter_append _ _

theorem record_current {moments : Moments Int Int} {current sample : Moment Int Int}
    (h : moments.current = some current) (hle : sample.ts ≤ current.ts) :
    ∃ found, (moments.record sample).current = some found ∧ found.ts = current.ts := by
  rw [Moments.record, h]
  dsimp only
  by_cases heq : sample.ts = current.ts
  · rw [if_pos heq]
    exact ⟨_, rfl, rfl⟩
  · rw [if_neg heq, if_neg (not_lt_of_ge hle)]
    refine ⟨current, ?_, rfl⟩
    cases moments.previous with
    | none => rfl
    | some previous =>
      dsimp only
      split_ifs
      · rfl
      · rfl
      · exact h

variable {moments : ContributingMoments} {limit : Option Int} {seen : List (Moment Int Int)}

theorem represents_record (h : Represents moments limit seen) (stored id : Int) :
    Represents (recordContributingMoment moments stored id) limit
      (seen ++ [{ ts := stored, sources := {id} }]) := by
  rw [recordContributingMoment]
  by_cases hskip : (moments.pinned && moments.moments.current.any (·.ts < stored)) = true
  · rw [if_pos hskip]
    obtain ⟨hpinned, hlater⟩ := Bool.and_eq_true_iff.mp hskip
    rw [h.pinned] at hpinned
    obtain ⟨ts, hts⟩ := Option.isSome_iff_exists.mp hpinned
    obtain ⟨current, hcurrent, heq⟩ := h.current ts hts
    rw [hcurrent, Option.any_some, heq] at hlater
    refine ⟨?_, h.pinned, h.current⟩
    rw [h.moments, upTo_append]
    have hnone : upTo limit [{ ts := stored, sources := {id} }] = [] := by
      rw [upTo, hts, List.filter_cons_of_neg, List.filter_nil]
      simpa using hlater
    rw [hnone, List.append_nil]
  · rw [if_neg hskip]
    have hall : upTo limit [{ ts := stored, sources := {id} }] =
        [{ ts := stored, sources := {id} }] := by
      rw [upTo, List.filter_cons_of_pos, List.filter_nil]
      cases hlimit : limit with
      | none => rfl
      | some ts =>
        obtain ⟨current, hcurrent, heq⟩ := h.current ts hlimit
        rw [h.pinned, hlimit, hcurrent] at hskip
        simpa [heq] using hskip
    refine ⟨?_, h.pinned, fun ts hts => ?_⟩
    · rw [h.moments, upTo_append, hall, topTwo_append]
    · obtain ⟨current, hcurrent, heq⟩ := h.current ts hts
      have hle : stored ≤ current.ts := by
        rw [h.pinned, hts, hcurrent] at hskip
        simpa using hskip
      rw [← heq]
      exact record_current hcurrent hle

theorem represents_foldl (h : Represents moments limit seen) (id : Int) (stored : List Int) :
    Represents (stored.foldl (fun moments ts => recordContributingMoment moments ts id) moments)
      limit (seen ++ stored.map fun ts => { ts := ts, sources := {id} }) := by
  induction stored generalizing moments seen with
  | nil => rwa [List.map_nil, List.append_nil]
  | cons ts stored ih =>
    have hnext := ih (represents_record h ts id)
    rwa [List.append_assoc] at hnext

theorem represents_below
    {seen more : List (Moment Int Int)} (h : Represents moments limit seen) {maxTs : Int}
    (hprevious : (moments.moments.previous.any fun previous => maxTs < previous.ts) = true)
    (hbound : ∀ sample ∈ more, sample.ts ≤ maxTs) : Represents moments limit (seen ++ more) := by
  obtain ⟨previous, hsome, hlt⟩ := Option.any_eq_true _ _ |>.mp hprevious
  refine ⟨?_, h.pinned, h.current⟩
  rw [h.moments] at hsome ⊢
  rw [upTo_append, topTwo_append_below hsome]
  intro sample hsample
  exact lt_of_le_of_lt (hbound sample (List.mem_filter.mp hsample).1) (of_decide_eq_true hlt)

theorem represents_scanned (h : Represents moments limit seen) {segment : Segment}
    {layout : Nat × String}
    (hbound : ∀ stored ∈ storedIn instant segment layout, stored ≤ segment.maxTs) :
    Represents (scanned instant segment layout moments) limit
      (seen ++ samplesOf instant segment layout) := by
  rw [scanned]
  by_cases hskip : (moments.moments.previous.any fun previous =>
      segment.maxTs < previous.ts) = true
  · rw [if_pos hskip]
    refine represents_below h hskip fun sample hsample => ?_
    obtain ⟨stored, hstored, rfl⟩ := List.mem_map.mp hsample
    exact hbound stored hstored
  · rw [if_neg hskip]
    exact represents_foldl h segment.id _

end Layout

/-! ## The plain search -/

section Plain

variable {instant : Int} {openSegment : Opener} {content : DatasetSegment → Segment}

/-- The samples of a layout in the anchor and in every candidate. -/
def allSamples (instant : Int) (content : DatasetSegment → Segment) (current : Segment)
    (candidates : List DatasetSegment) (layout : Nat × String) : List (Moment Int Int) :=
  samplesOf instant current layout ++
    candidates.flatMap fun candidate => samplesOf instant (content candidate) layout

/-- The current moment of a pinned search is the anchor's, when the anchor has one. -/
def pinLimit (instant : Int) (pinCurrent : Bool) (current : Segment) (layout : Nat × String) :
    Option Int :=
  if pinCurrent then (latest (samplesOf instant current layout)).map (·.ts) else none

/-- The two greatest timestamps among all rows of all candidates. -/
def bruteForce (instant : Int) (content : DatasetSegment → Segment) (pinCurrent : Bool)
    (current : Segment) (candidates : List DatasetSegment) (layout : Nat × String) :
    Moments Int Int :=
  topTwo (upTo (pinLimit instant pinCurrent current layout)
    (allSamples instant content current candidates layout))

/-- The captured segments open, and their catalogs bound the timestamps of the layouts. -/
structure Readable (openSegment : Opener) (content : DatasetSegment → Segment)
    (sections : List SectionPlans) (segments : List DatasetSegment) : Prop where
  opens : ∀ segment ∈ segments, openSegment segment = .ok (content segment)
  ids : ∀ segment ∈ segments, (content segment).id = segment.id
  maxTs : ∀ segment ∈ segments, (content segment).maxTs = segment.maxTs
  bounds : ∀ segment ∈ segments, ∀ found ∈ sections, ∀ plan ∈ found.plans, ∀ timestamp,
    plan.timestamp = some timestamp → ∀ row ∈ (content segment).rows plan.typeId, ∀ stored,
      rowTimestamp row timestamp = some stored → stored ≤ segment.maxTs

theorem mem_foldl_insert {known : Std.TreeMap Nat String} {key : Nat} {timestamp : String}
    (h : (layouts.foldl (fun (layouts : Std.TreeMap Nat String) layout =>
      layouts.insert layout.1 layout.2) known)[key]? = some timestamp) :
    (key, timestamp) ∈ layouts ∨ known[key]? = some timestamp := by
  induction layouts generalizing known with
  | nil => exact .inr h
  | cons layout layouts ih =>
    rcases ih h with hmem | hknown
    · exact .inl (List.mem_cons_of_mem _ hmem)
    · by_cases heq : key = layout.1
      · subst heq
        rw [TreeMap.getElem?_insert_self] at hknown
        rw [← Option.some.inj hknown]
        exact .inl List.mem_cons_self
      · rw [TreeMap.getElem?_insert_ne _ _ heq] at hknown
        exact .inr hknown

variable {sections : List SectionPlans}

theorem plan_of_mem_layoutMap {latest : Bool}
    {layout : Nat × String} (h : layout ∈ layoutMap sections latest) :
    ∃ found ∈ sections, ∃ plan ∈ found.plans, plan.typeId = layout.1 ∧
      plan.timestamp = some layout.2 := by
  have hlookup := Std.TreeMap.mem_toList_iff_getElem?_eq_some.mp h
  rcases mem_foldl_insert hlookup with hmem | hempty
  · obtain ⟨found, hfound, hplan⟩ := List.mem_flatMap.mp hmem
    obtain ⟨plan, hmemPlan, hlayout⟩ := List.mem_filterMap.mp hplan
    obtain ⟨timestamp, htimestamp, heq⟩ := Option.map_eq_some_iff.mp hlayout
    refine ⟨found, (List.mem_filter.mp hfound).1, plan, (List.mem_filter.mp hmemPlan).1, ?_, ?_⟩
    · exact congrArg Prod.fst heq
    · rw [htimestamp]
      exact congrArg some (congrArg Prod.snd heq)
  · exact absurd hempty (by simp)

theorem layoutMap_nodup (sections : List SectionPlans) (latest : Bool) :
    ((layoutMap sections latest).map (·.1)).Nodup := by
  rw [layoutMap, Std.TreeMap.map_fst_toList_eq_keys]
  exact TreeMap.nodup_keys _

variable {segments : List DatasetSegment}

theorem stored_le_maxTs {latest : Bool} (h : Readable openSegment content sections segments)
    {segment : DatasetSegment} (hsegment : segment ∈ segments) {layout : Nat × String}
    (hlayout : layout ∈ layoutMap sections latest) :
    ∀ stored ∈ storedIn instant (content segment) layout, stored ≤ segment.maxTs := by
  intro stored hstored
  obtain ⟨row, hrow, hts⟩ := List.mem_filterMap.mp hstored
  obtain ⟨found, hfound, plan, hplan, htype, htimestamp⟩ := plan_of_mem_layoutMap hlayout
  obtain ⟨hsome, _⟩ := Option.filter_eq_some_iff.mp hts
  exact h.bounds segment hsegment found hfound plan hplan layout.2 htimestamp row
    (htype ▸ hrow) stored hsome

theorem searchCandidates_represents
    (hnodup : (layouts.map (·.1)).Nodup) {candidates : List DatasetSegment}
    (hopens : ∀ candidate ∈ candidates, openSegment candidate = .ok (content candidate))
    (hmaxTs : ∀ candidate ∈ candidates, (content candidate).maxTs = candidate.maxTs)
    (hbounds : ∀ candidate ∈ candidates, ∀ layout ∈ layouts,
      ∀ stored ∈ storedIn instant (content candidate) layout, stored ≤ candidate.maxTs)
    (hsorted : candidates.Pairwise fun a b => b.maxTs ≤ a.maxTs)
    {limit : Nat × String → Option Int} {seen : Nat × String → List (Moment Int Int)}
    {moments : Nat → ContributingMoments}
    (h : ∀ layout ∈ layouts, Represents (moments layout.1) (limit layout) (seen layout)) :
    ∃ found, searchCandidates instant openSegment layouts candidates moments = .ok found ∧
      ∀ layout ∈ layouts, Represents (found layout.1) (limit layout) (seen layout ++
        candidates.flatMap fun candidate => samplesOf instant (content candidate) layout) := by
  induction candidates generalizing moments seen with
  | nil => exact ⟨moments, rfl, fun layout hlayout => by simpa using h layout hlayout⟩
  | cons candidate candidates ih =>
    obtain ⟨hopen, hopens⟩ := List.forall_mem_cons.mp hopens
    obtain ⟨hmax, hmaxTs⟩ := List.forall_mem_cons.mp hmaxTs
    obtain ⟨hbound, hrest⟩ := List.forall_mem_cons.mp hbounds
    obtain ⟨hfirst, hsorted⟩ := List.pairwise_cons.mp hsorted
    rw [searchCandidates]
    by_cases hsettled : settled layouts moments candidate.maxTs = true
    · -- Everything that is left ends below the previous moment of every layout.
      rw [if_pos hsettled]
      refine ⟨moments, rfl, fun layout hlayout => ?_⟩
      refine represents_below (h layout hlayout) (List.all_eq_true.mp hsettled layout hlayout) ?_
      intro sample hsample
      obtain ⟨other, hother, hsample⟩ := List.mem_flatMap.mp hsample
      obtain ⟨stored, hstored, rfl⟩ := List.mem_map.mp hsample
      have hle := hbounds other hother layout hlayout stored hstored
      rcases List.mem_cons.mp hother with rfl | hother
      · exact hle
      · exact le_trans hle (hfirst other hother)
    · rw [if_neg hsettled, hopen]
      have hnext : ∀ layout ∈ layouts,
          Represents (scanContributingMoments instant (content candidate) layouts false moments
            layout.1) (limit layout)
            (seen layout ++ samplesOf instant (content candidate) layout) := by
        intro layout hlayout
        rw [scanContributingMoments, if_neg (by decide), foldl_scanLayout hnodup moments hlayout]
        refine represents_scanned (h layout hlayout) fun stored hstored => ?_
        rw [hmax]
        exact hbound layout hlayout stored hstored
      obtain ⟨found, hfound, hrep⟩ := ih hopens hmaxTs hrest hsorted hnext
      refine ⟨found, hfound, fun layout hlayout => ?_⟩
      rw [List.flatMap_cons, ← List.append_assoc]
      exact hrep layout hlayout

theorem represents_default : Represents .default none [] where
  moments := rfl
  pinned := rfl
  current ts h := absurd h (by simp)

theorem upTo_none (samples : List (Moment Int Int)) : upTo none samples = samples :=
  List.filter_eq_self.mpr fun _ _ => rfl

theorem upTo_latest {samples : List (Moment Int Int)} :
    upTo ((Moments.latest samples).map (·.ts)) samples = samples := by
  cases hlatest : Moments.latest samples with
  | none => exact upTo_none samples
  | some last =>
    refine List.filter_eq_self.mpr fun sample hsample => ?_
    exact decide_eq_true ((latest_eq_some.mp hlatest).greatest sample hsample)

theorem represents_anchor (hnodup : (layouts.map (·.1)).Nodup)
    (current : Segment) (pinCurrent : Bool) :
    ∀ layout ∈ layouts,
      Represents (scanContributingMoments instant current layouts pinCurrent
        (fun _ => .default) layout.1) (pinLimit instant pinCurrent current layout)
        (samplesOf instant current layout) := by
  intro layout hlayout
  have hscan : Represents
      (layouts.foldl (scanLayout instant current) (fun _ => .default) layout.1) none
      (samplesOf instant current layout) := by
    rw [foldl_scanLayout hnodup _ hlayout]
    have hfold := represents_foldl represents_default current.id
      (storedIn instant current layout)
    exact hfold
  rw [scanContributingMoments, pinLimit]
  cases pinCurrent with
  | false => exact hscan
  | true =>
    rw [if_pos rfl, if_pos rfl]
    have hmoments := hscan.moments
    rw [upTo_none] at hmoments
    refine ⟨?_, ?_, fun ts hts => ?_⟩
    · rw [upTo_latest]
      exact hmoments
    · rw [hmoments, Option.isSome_map]
      rfl
    · obtain ⟨last, hlast, rfl⟩ := Option.map_eq_some_iff.mp hts
      refine ⟨last, ?_, rfl⟩
      rw [hmoments]
      exact hlast

/-- Whether a segment holds the current or the previous moment of some layout. -/
def Contributes (layouts : List (Nat × String)) (found : Nat × String → Moments Int Int)
    (id : Int) : Prop :=
  ∃ layout ∈ layouts, ∃ moment, ((found layout).current = some moment ∨
    (found layout).previous = some moment) ∧ id ∈ moment.sources

theorem retainedIds_iff {moments : Nat → ContributingMoments}
    {found : Nat × String → Moments Int Int}
    (h : ∀ layout ∈ layouts, (moments layout.1).moments = found layout) {id : Int} :
    retainedIds layouts moments id = true ↔ Contributes layouts found id := by
  rw [retainedIds, List.any_eq_true]
  refine exists_congr fun layout => and_congr_right fun hlayout => ?_
  rw [h layout hlayout, Bool.or_eq_true, Option.any_eq_true, Option.any_eq_true]
  simp only [decide_eq_true_eq]
  constructor
  · rintro (⟨moment, hsome, hid⟩ | ⟨moment, hsome, hid⟩)
    · exact ⟨moment, .inl hsome, hid⟩
    · exact ⟨moment, .inr hsome, hid⟩
  · rintro ⟨moment, hsome | hsome, hid⟩
    · exact .inl ⟨moment, hsome, hid⟩
    · exact .inr ⟨moment, hsome, hid⟩

variable {anchor : DatasetSegment}

theorem mem_candidatesBefore {compatible : List Nat} {segment : DatasetSegment}
    (h : segment ∈ candidatesBefore anchor segments compatible instant) :
    segment ∈ segments ∧ segment.id < anchor.id := by
  have hmem := List.mem_mergeSort.mp h
  obtain ⟨hearlier, _⟩ := List.mem_filter.mp hmem
  obtain ⟨hsegment, hboth⟩ := List.mem_filter.mp hearlier
  exact ⟨hsegment, by simpa using (Bool.and_eq_true_iff.mp hboth).1⟩

/-- The order of the candidates: by their last timestamps, and by their ids. -/
def laterFirst (a b : DatasetSegment) : Bool :=
  b.maxTs < a.maxTs || (b.maxTs = a.maxTs && b.id ≤ a.id)

theorem laterFirst_iff {a b : DatasetSegment} :
    laterFirst a b = true ↔ b.maxTs < a.maxTs ∨ b.maxTs = a.maxTs ∧ b.id ≤ a.id := by
  rw [laterFirst]
  simp

theorem candidatesBefore_sorted (anchor : DatasetSegment) (segments : List DatasetSegment)
    (compatible : List Nat) (instant : Int) :
    (candidatesBefore anchor segments compatible instant).Pairwise fun a b =>
      laterFirst a b = true := by
  refine List.pairwise_mergeSort ?_ ?_ _
  · intro a b c hab hbc
    have h1 := laterFirst_iff.mp hab
    have h2 := laterFirst_iff.mp hbc
    exact laterFirst_iff.mpr (by omega)
  · intro a b
    rw [Bool.or_eq_true]
    have h : laterFirst a b = true ∨ laterFirst b a = true := by
      rw [laterFirst_iff, laterFirst_iff]
      omega
    exact h

theorem candidatesBefore_descending (anchor : DatasetSegment) (segments : List DatasetSegment)
    (compatible : List Nat) (instant : Int) :
    (candidatesBefore anchor segments compatible instant).Pairwise fun a b =>
      b.maxTs ≤ a.maxTs :=
  (candidatesBefore_sorted anchor segments compatible instant).imp fun h => by
    have := laterFirst_iff.mp h
    omega

theorem candidatesBefore_perm {segments segments' : List DatasetSegment}
    (hperm : segments.Perm segments')
    (hids : ∀ a ∈ segments, ∀ b ∈ segments, a.id = b.id → a = b) (compatible : List Nat)
    (instant : Int) :
    candidatesBefore anchor segments compatible instant =
      candidatesBefore anchor segments' compatible instant := by
  refine List.Perm.eq_of_pairwise ?_
    (candidatesBefore_sorted anchor segments compatible instant)
    (candidatesBefore_sorted anchor segments' compatible instant) ?_
  · intro a b ha hb hab hba
    have h1 := laterFirst_iff.mp hab
    have h2 := laterFirst_iff.mp hba
    refine hids a (mem_candidatesBefore ha).1 b ?_ (by omega)
    exact hperm.mem_iff.mpr (mem_candidatesBefore hb).1
  · exact ((List.mergeSort_perm _ _).trans ((hperm.filter _).filter _)).trans
      (List.mergeSort_perm _ _).symm

theorem sortByIdDescending_sorted (segments : List DatasetSegment) :
    (sortByIdDescending segments).Pairwise fun a b => b.id ≤ a.id := by
  refine (List.pairwise_mergeSort ?_ ?_ segments).imp of_decide_eq_true
  · intro a b c hab hbc
    exact decide_eq_true (le_trans (of_decide_eq_true hbc) (of_decide_eq_true hab))
  · intro a b
    rw [Bool.or_eq_true, decide_eq_true_eq, decide_eq_true_eq]
    exact le_total b.id a.id

/-- The answer of a plain search: the moments of brute force, and the segments that hold them,
the newest id first. -/
structure PlainAnswer (instant : Int) (content : DatasetSegment → Segment) (pinCurrent : Bool)
    (current : Segment) (layouts : List (Nat × String)) (candidates chosen : List DatasetSegment)
    (found : Nat → ContributingMoments) : Prop where
  moments : ∀ layout ∈ layouts, (found layout.1).moments =
    bruteForce instant content pinCurrent current candidates layout
  sorted : chosen.Pairwise fun a b => b.id ≤ a.id
  chosen : ∀ segment, segment ∈ chosen ↔ segment ∈ candidates ∧
    Contributes layouts (bruteForce instant content pinCurrent current candidates) segment.id

theorem preceding_bruteForce
    (h : Readable openSegment content sections segments) (anchor : DatasetSegment)
    (current : Segment) (latest pinCurrent : Bool) :
    ∃ chosen found, preceding instant openSegment anchor segments current sections latest
        pinCurrent = .ok (chosen, found) ∧
      PlainAnswer instant content pinCurrent current (layoutMap sections latest)
        (candidatesBefore anchor segments ((layoutMap sections latest).map (·.1)) instant)
        chosen found := by
  rw [preceding]
  have hnodup := layoutMap_nodup sections latest
  have hbound : ∀ segment ∈ segments, ∀ layout ∈ layoutMap sections latest,
      ∀ stored ∈ storedIn instant (content segment) layout, stored ≤ segment.maxTs :=
    fun segment hsegment layout hlayout => stored_le_maxTs h hsegment hlayout
  generalize layoutMap sections latest = layouts at hnodup hbound ⊢
  have hmem : ∀ segment ∈ candidatesBefore anchor segments (layouts.map (·.1)) instant,
      segment ∈ segments ∧ segment.id < anchor.id := fun _ => mem_candidatesBefore
  by_cases hempty : layouts = []
  · subst hempty
    refine ⟨[], fun _ => .default, rfl, fun layout hlayout => ?_, List.Pairwise.nil, ?_⟩
    · exact absurd hlayout List.not_mem_nil
    · intro segment
      simp [Contributes]
  · dsimp only
    rw [if_neg hempty]
    have hanchor : ∀ layout ∈ layouts,
        Represents (scanContributingMoments instant current layouts pinCurrent
          (fun _ => .default) layout.1) (pinLimit instant pinCurrent current layout)
          (samplesOf instant current layout) := represents_anchor hnodup current pinCurrent
    obtain ⟨found, hfound, hrep⟩ := searchCandidates_represents hnodup
      (fun segment hsegment => h.opens segment (hmem segment hsegment).1)
      (fun segment hsegment => h.maxTs segment (hmem segment hsegment).1)
      (fun segment hsegment => hbound segment (hmem segment hsegment).1)
      (candidatesBefore_descending anchor segments (layouts.map (·.1)) instant)
      hanchor
    rw [hfound]
    have hmoments : ∀ layout ∈ layouts, (found layout.1).moments =
        bruteForce instant content pinCurrent current
          (candidatesBefore anchor segments (layouts.map (·.1)) instant) layout :=
      fun layout hlayout => (hrep layout hlayout).moments
    refine ⟨_, found, rfl, hmoments, sortByIdDescending_sorted _, fun segment => ?_⟩
    rw [sortByIdDescending, List.mem_mergeSort, List.mem_filter, Bool.and_eq_true,
      retainedIds_iff hmoments, decide_eq_true_eq]
    constructor
    · rintro ⟨hcandidate, _, hcontributes⟩
      exact ⟨hcandidate, hcontributes⟩
    · rintro ⟨hcandidate, hcontributes⟩
      exact ⟨hcandidate, ne_of_lt (hmem segment hcandidate).2, hcontributes⟩

theorem preceding_perm {segments segments' : List DatasetSegment} (hperm : segments.Perm segments')
    (hids : ∀ a ∈ segments, ∀ b ∈ segments, a.id = b.id → a = b) (current : Segment)
    (sections : List SectionPlans) (latest pinCurrent : Bool) :
    preceding instant openSegment anchor segments current sections latest pinCurrent =
      preceding instant openSegment anchor segments' current sections latest pinCurrent := by
  rw [preceding, preceding]
  rw [candidatesBefore_perm hperm hids]

end Plain

end Kronika.Query
