/-
Which lock graphs an activity sample without waiting backends supersedes.

The segments are read the latest first, and the reading stops before a segment that ends
earlier than the latest sample without a waiting backend.  Such a sample may still turn
out to have one, in a segment that ends as late: those are read before the reading stops.
-/
import Kronika.Index.Selection
import Kronika.Query.Rows
import Mathlib.Data.Int.LeastGreatest
import Mathlib.Order.Bounds.Basic

namespace Kronika.Query
namespace Locks

open Index

/-- The types that the registry names `pg_stat_activity`. -/
def activityTypeIds : List UInt32 := [1001001, 1001002, 1001004]

def hasActivity (segment : DatasetSegment) : Bool :=
  segment.sections.any fun found => activityTypeIds.contains (sectionTypeId found)

/-- `IndexProvider::load`: the selected blocks of the index of a segment. -/
abbrev IndexProvider : Type :=
  DatasetSegment → (logicalName : String) → List SeriesKey → Except QueryError (List SeriesBlock)

/-- Whether a backend waited, by the timestamp of the sample. -/
abbrev Observations : Type := Std.TreeMap Int Bool

def latestZero (observations : Observations) : Option Int :=
  observations.toList.reverse.findSome? fun entry => if !entry.2 then some entry.1 else none

def lockPoints : SeriesBlock → List CountPoint
  | .pgLockWaiting _ points => points
  | _ => []

section

variable (graphAt instant : Int)

def observe (observations : Observations) (point : CountPoint) : Observations :=
  if graphAt < point.timestamp.toInt ∧ point.timestamp.toInt ≤ instant then
    observations.insert point.timestamp.toInt
      (observations.getD point.timestamp.toInt false || decide (0 < point.count))
  else observations

/-- The loop over the segments; `cancelled` is what its calls answer, one after another. -/
def observeSegments (load : IndexProvider) (cancelled : Nat → Bool) :
    Nat → List DatasetSegment → Observations → Except QueryError (Nat × Observations)
  | calls, [], observations => .ok (calls, observations)
  | calls, segment :: rest, observations =>
    if (latestZero observations).any (segment.maxTs < ·) then .ok (calls, observations)
    else if cancelled calls then .error .cancelled
    else
      match load segment "pg_stat_activity" (lockWaitKeysForSections segment.sections) with
      | .error problem => .error problem
      | .ok blocks =>
        observeSegments load cancelled (calls + 1) rest
          ((blocks.flatMap lockPoints).foldl (observe graphAt instant) observations)

def candidates (segments : List DatasetSegment) : List DatasetSegment :=
  (segments.filter fun segment => graphAt < segment.maxTs && hasActivity segment).mergeSort
    fun a b => b.maxTs ≤ a.maxTs

def lockObservationCutoff (indexes : Option IndexProvider) (cancelled : Nat → Bool)
    (segments : List DatasetSegment) : Except QueryError (Option Int) :=
  match indexes with
  | none => .error (.unreadable "this query context has no derived-index provider")
  | some load =>
    match observeSegments graphAt instant load cancelled 0 (candidates graphAt segments) ∅ with
    | .error problem => .error problem
    | .ok (calls, observations) =>
      if cancelled calls then .error .cancelled else .ok (latestZero observations)

end

/-- The contexts of a page of locks, by the samples they show. -/
def retainLocks {Context : Type} (sampleTo : Context → Option Int)
    (cutoff : (graphAt : Int) → Except QueryError (Option Int)) (contexts : List Context) :
    Except QueryError (List Context) :=
  match (contexts.filterMap sampleTo).min? with
  | none => .ok contexts
  | some graphAt =>
    match cutoff graphAt with
    | .error problem => .error problem
    | .ok none => .ok contexts
    | .ok (some zero) => .ok (contexts.filter fun context => (sampleTo context).any (zero ≤ ·))

/-! ## What the samples say -/

/-- The activity samples of a segment: the points its index has for the activity layouts
among its sections. -/
def activityPoints (blocks : DatasetSegment → List SeriesBlock) (segment : DatasetSegment) :
    List CountPoint :=
  ((blocks segment).filter fun block =>
    (lockWaitKeysForSections segment.sections).contains block.key).flatMap lockPoints

def Waiting (points : List CountPoint) (ts : Int) : Prop :=
  ∃ point ∈ points, point.timestamp.toInt = ts ∧ 0 < point.count

/-- There are samples of the instant, and none of them has a waiting backend. -/
def ZeroAt (points : List CountPoint) (ts : Int) : Prop :=
  (∃ point ∈ points, point.timestamp.toInt = ts) ∧ ¬ Waiting points ts

/-- The catalog bounds the samples of every segment. -/
def Bounded (blocks : DatasetSegment → List SeriesBlock) (segments : List DatasetSegment) : Prop :=
  ∀ segment ∈ segments, ∀ point ∈ activityPoints blocks segment,
    point.timestamp.toInt ≤ segment.maxTs

/-- The provider loads only the selected blocks, of exactly this segment. -/
def Selects (load : IndexProvider) (blocks : DatasetSegment → List SeriesBlock) : Prop :=
  ∀ segment logicalName keys found, load segment logicalName keys = .ok found →
    ∀ block, block ∈ found ↔ block ∈ blocks segment ∧ block.key ∈ keys

/-! ## The map of observations -/

theorem findSome?_zero_iff {entries : List (Int × Bool)}
    (h : entries.Pairwise fun a b => b.1 < a.1) (zero : Int) :
    (entries.findSome? fun entry => if !entry.2 then some entry.1 else none) = some zero ↔
      (zero, false) ∈ entries ∧ ∀ ts, (ts, false) ∈ entries → ts ≤ zero := by
  induction entries with
  | nil => simp
  | cons entry entries ih =>
    obtain ⟨hfirst, hrest⟩ := List.pairwise_cons.mp h
    obtain ⟨first, waiting⟩ := entry
    cases waiting with
    | true =>
      rw [List.findSome?_cons]
      simpa using ih hrest
    | false =>
      rw [List.findSome?_cons]
      simp only [Bool.not_false, if_true, Option.some.injEq, List.mem_cons, Prod.mk.injEq, and_true]
      constructor
      · rintro rfl
        refine ⟨Or.inl rfl, ?_⟩
        rintro ts (rfl | hmem)
        · exact Int.le_refl _
        · exact Int.le_of_lt (hfirst _ hmem)
      · rintro ⟨rfl | hmem, hle⟩
        · rfl
        · exact Int.le_antisymm (hle first (Or.inl rfl)) (Int.le_of_lt (hfirst _ hmem))

theorem latestZero_iff (observations : Observations) (zero : Int) :
    latestZero observations = some zero ↔
      observations[zero]? = some false ∧ ∀ ts, observations[ts]? = some false → ts ≤ zero := by
  have hsorted : observations.toList.reverse.Pairwise fun a b => b.1 < a.1 := by
    rw [List.pairwise_reverse]
    exact observations.ordered_keys_toList.imp fun h => Std.compare_eq_lt.mp h
  unfold latestZero
  rw [findSome?_zero_iff hsorted]
  simp only [List.mem_reverse, Std.TreeMap.mem_toList_iff_getElem?_eq_some]

section

variable {graphAt instant : Int} {observations : Observations} {points : List CountPoint}

/-- The map has what the samples of the window say, instant by instant. -/
def Represents (graphAt instant : Int) (observations : Observations) (points : List CountPoint) :
    Prop :=
  ∀ ts waiting, observations[ts]? = some waiting ↔
    (graphAt < ts ∧ ts ≤ instant) ∧ (∃ point ∈ points, point.timestamp.toInt = ts) ∧
      (waiting = true ↔ Waiting points ts)

theorem waiting_concat {point : CountPoint} {ts : Int} :
    Waiting (points ++ [point]) ts ↔
      Waiting points ts ∨ point.timestamp.toInt = ts ∧ 0 < point.count := by
  unfold Waiting
  simp [or_and_right, exists_or]

theorem Represents.getD_eq_true_iff (h : Represents graphAt instant observations points) {ts : Int}
    (hwindow : graphAt < ts ∧ ts ≤ instant) :
    observations.getD ts false = true ↔ Waiting points ts := by
  rw [Std.TreeMap.getD_eq_getD_getElem?]
  constructor
  · intro htrue
    cases hget : observations[ts]? with
    | none =>
      rw [hget] at htrue
      cases htrue
    | some waiting =>
      rw [hget] at htrue
      exact ((h ts waiting).mp hget).2.2.mp htrue
  · intro hwaiting
    obtain ⟨point, hpoint, hts, -⟩ := id hwaiting
    rw [(h ts true).mpr ⟨hwindow, ⟨point, hpoint, hts⟩, iff_of_true rfl hwaiting⟩]
    rfl

theorem Represents.observe (h : Represents graphAt instant observations points)
    (point : CountPoint) :
    Represents graphAt instant (observe graphAt instant observations point)
      (points ++ [point]) := by
  intro ts waiting
  have hother (hne : point.timestamp.toInt ≠ ts) :
      ((∃ other ∈ points ++ [point], other.timestamp.toInt = ts) ↔
        ∃ other ∈ points, other.timestamp.toInt = ts) ∧
      (Waiting (points ++ [point]) ts ↔ Waiting points ts) := by
    rw [waiting_concat]
    simp [hne, or_and_right, exists_or]
  unfold Locks.observe
  by_cases heq : point.timestamp.toInt = ts
  · split_ifs with hwindow
    · rw [heq] at hwindow ⊢
      rw [Std.TreeMap.getElem?_insert_self, Option.some_inj, waiting_concat,
        ← h.getD_eq_true_iff hwindow]
      have hexists : ∃ other ∈ points ++ [point], other.timestamp.toInt = ts :=
        ⟨point, List.mem_append_right _ (List.mem_singleton_self _), heq⟩
      rw [and_iff_right hwindow, and_iff_right hexists, and_iff_right heq]
      generalize observations.getD ts false = known
      by_cases hcount : 0 < point.count
      · cases known <;> cases waiting <;> simp [hcount]
      · cases known <;> cases waiting <;> simp [hcount]
    · rw [heq] at hwindow
      rw [h ts waiting]
      exact iff_of_false (fun hold => hwindow hold.1) fun hold => hwindow hold.1
  · rw [(hother heq).1, (hother heq).2, ← h ts waiting]
    split_ifs
    · rw [Std.TreeMap.getElem?_insert, if_neg fun h => heq (Std.compare_eq_iff_eq.mp h)]
    · rfl

theorem Represents.foldl (h : Represents graphAt instant observations points)
    (more : List CountPoint) :
    Represents graphAt instant (more.foldl (Locks.observe graphAt instant) observations)
      (points ++ more) := by
  induction more generalizing observations points with
  | nil =>
    rw [List.append_nil]
    exact h
  | cons point more ih =>
    rw [List.append_cons]
    exact ih (h.observe point)

theorem Represents.congr (h : Represents graphAt instant observations points)
    {more : List CountPoint} (hsame : ∀ point, point ∈ points ↔ point ∈ more) :
    Represents graphAt instant observations more := by
  intro ts waiting
  rw [h ts waiting]
  unfold Waiting
  simp only [hsame]

theorem represents_empty : Represents graphAt instant ∅ [] := by
  intro ts waiting
  simp

/-- The instants of the window whose samples have no waiting backend. -/
def zeros (graphAt instant : Int) (points : List CountPoint) : Set Int :=
  {ts | graphAt < ts ∧ ts ≤ instant ∧ ZeroAt points ts}

theorem Represents.false_iff (h : Represents graphAt instant observations points) (ts : Int) :
    observations[ts]? = some false ↔ ts ∈ zeros graphAt instant points := by
  rw [h ts false, and_assoc]
  simp [zeros, ZeroAt]

theorem Represents.latestZero_iff (h : Represents graphAt instant observations points)
    (zero : Int) :
    latestZero observations = some zero ↔ IsGreatest (zeros graphAt instant points) zero := by
  rw [Locks.latestZero_iff]
  simp only [h.false_iff]
  rfl

/-- What is said of an instant depends on the samples of that instant only. -/
theorem zeroAt_congr {left right : List CountPoint} {ts : Int}
    (h : ∀ point, point.timestamp.toInt = ts → (point ∈ left ↔ point ∈ right)) :
    ZeroAt left ts ↔ ZeroAt right ts := by
  unfold ZeroAt Waiting
  refine and_congr (exists_congr fun point => ?_) (not_congr (exists_congr fun point => ?_))
  · exact and_congr_left fun hts => h point hts
  · exact and_congr_left fun hts => h point hts.1

/-- The samples that are left cannot move a zero which they all precede. -/
theorem isGreatest_zeros_append {more : List CountPoint} {zero : Int}
    (h : IsGreatest (zeros graphAt instant points) zero)
    (hmore : ∀ point ∈ more, point.timestamp.toInt < zero) :
    IsGreatest (zeros graphAt instant (points ++ more)) zero := by
  have hsame {ts : Int} (hts : zero ≤ ts) : ZeroAt (points ++ more) ts ↔ ZeroAt points ts := by
    apply zeroAt_congr
    rintro point rfl
    rw [List.mem_append, or_iff_left]
    exact fun hmem => Int.not_lt.mpr hts (hmore point hmem)
  obtain ⟨⟨hafter, hbefore, hzero⟩, hgreatest⟩ := h
  refine ⟨⟨hafter, hbefore, (hsame (Int.le_refl _)).mpr hzero⟩, ?_⟩
  rintro ts ⟨hlow, hhigh, hts⟩
  rcases Int.le_total ts zero with hle | hle
  · exact hle
  · exact hgreatest ⟨hlow, hhigh, (hsame hle).mp hts⟩

end

/-! ## Reading the segments -/

section

variable {graphAt instant : Int} {load : IndexProvider} {cancelled : Nat → Bool}
  {blocks : DatasetSegment → List SeriesBlock}

/-- The loop ends with the latest zero of all samples, read or not. -/
theorem observeSegments_spec (hload : Selects load blocks) {segments : List DatasetSegment}
    (hsorted : segments.Pairwise fun a b => b.maxTs ≤ a.maxTs) (hbound : Bounded blocks segments)
    {calls last : Nat} {observations final : Observations} {points : List CountPoint}
    (h : Represents graphAt instant observations points)
    (hread : observeSegments graphAt instant load cancelled calls segments observations =
      .ok (last, final)) (zero : Int) :
    latestZero final = some zero ↔ IsGreatest
      (zeros graphAt instant (points ++ segments.flatMap (activityPoints blocks))) zero := by
  induction segments generalizing calls observations points with
  | nil =>
    cases hread
    rw [List.flatMap_nil, List.append_nil]
    exact h.latestZero_iff zero
  | cons segment rest ih =>
    obtain ⟨hfirst, hrest⟩ := List.pairwise_cons.mp hsorted
    unfold observeSegments at hread
    split_ifs at hread with hstop
    · cases hread
      obtain ⟨found, hfound, hlater⟩ : ∃ found, latestZero final = some found ∧
          segment.maxTs < found := by
        cases hfound : latestZero final with
        | none =>
          rw [hfound] at hstop
          cases hstop
        | some found =>
          rw [hfound] at hstop
          exact ⟨found, rfl, of_decide_eq_true hstop⟩
      have hleft : ∀ point ∈ (segment :: rest).flatMap (activityPoints blocks),
          point.timestamp.toInt < found := by
        intro point hpoint
        obtain ⟨other, hother, hmem⟩ := List.mem_flatMap.mp hpoint
        refine Int.lt_of_le_of_lt (hbound other hother point hmem) (Int.lt_of_le_of_lt ?_ hlater)
        rcases List.mem_cons.mp hother with rfl | hother
        · exact Int.le_refl _
        · exact hfirst other hother
      have hgreatest := isGreatest_zeros_append ((h.latestZero_iff found).mp hfound) hleft
      rw [hfound, Option.some_inj]
      exact ⟨fun heq => heq ▸ hgreatest, fun hzero => hgreatest.unique hzero⟩
    · split at hread
      · cases hread
      · next found hfound =>
        have hpoints (point : CountPoint) : point ∈ points ++ found.flatMap lockPoints ↔
            point ∈ points ++ activityPoints blocks segment := by
          rw [List.mem_append, List.mem_append, List.mem_flatMap, activityPoints, List.mem_flatMap]
          simp only [hload _ _ _ _ hfound, List.mem_filter, List.contains_iff_mem]
        rw [List.flatMap_cons, ← List.append_assoc]
        exact ih hrest (fun other hother => hbound other (List.mem_cons_of_mem _ hother))
          ((h.foldl _).congr hpoints) hread

/-- A segment with activity samples has a section of an activity layout. -/
theorem hasActivity_of_mem {segment : DatasetSegment} {point : CountPoint}
    (h : point ∈ activityPoints blocks segment) : hasActivity segment = true := by
  obtain ⟨block, hblock, -⟩ := List.mem_flatMap.mp h
  have hkey := List.contains_iff_mem.mp (List.mem_filter.mp hblock).2
  rw [lockWaitKeysForSections, mem_sortKeys] at hkey
  obtain ⟨found, hfound, -⟩ := List.mem_map.mp hkey
  obtain ⟨hmem, hlayout⟩ := List.mem_filter.mp hfound
  refine List.any_eq_true.mpr ⟨found, hmem, ?_⟩
  unfold pgActivityLayout at hlayout
  simpa [activityTypeIds, or_assoc] using hlayout

/-- Segments that are not candidates have no sample after the graph. -/
theorem zeros_candidates {segments : List DatasetSegment} (hbound : Bounded blocks segments) :
    zeros graphAt instant ((candidates graphAt segments).flatMap (activityPoints blocks)) =
      zeros graphAt instant (segments.flatMap (activityPoints blocks)) := by
  ext ts
  refine and_congr_right fun hafter => and_congr_right fun _ => zeroAt_congr ?_
  rintro point rfl
  rw [List.mem_flatMap, List.mem_flatMap]
  refine exists_congr fun segment => and_congr_left fun hpoint => ?_
  rw [candidates, List.mem_mergeSort, List.mem_filter, and_iff_left_of_imp]
  intro hsegment
  rw [Bool.and_eq_true, decide_eq_true_iff]
  exact ⟨Int.lt_of_lt_of_le hafter (hbound segment hsegment point hpoint),
    hasActivity_of_mem hpoint⟩

theorem candidates_sorted (segments : List DatasetSegment) :
    (candidates graphAt segments).Pairwise fun a b => b.maxTs ≤ a.maxTs := by
  refine (List.pairwise_mergeSort ?_ ?_ _).imp of_decide_eq_true
  · intro a b c hab hbc
    exact decide_eq_true (Int.le_trans (of_decide_eq_true hbc) (of_decide_eq_true hab))
  · intro a b
    rw [Bool.or_eq_true, decide_eq_true_eq, decide_eq_true_eq]
    exact Int.le_total b.maxTs a.maxTs

theorem lockObservationCutoff_some_iff (hload : Selects load blocks)
    {segments : List DatasetSegment} (hbound : Bounded blocks segments) {result : Option Int}
    (h : lockObservationCutoff graphAt instant (some load) cancelled segments = .ok result)
    (zero : Int) :
    result = some zero ↔
      IsGreatest (zeros graphAt instant (segments.flatMap (activityPoints blocks))) zero := by
  unfold lockObservationCutoff at h
  dsimp only at h
  cases hread :
      observeSegments graphAt instant load cancelled 0 (candidates graphAt segments) ∅ with
  | error problem =>
    rw [hread] at h
    cases h
  | ok ended =>
    rw [hread] at h
    dsimp only at h
    split_ifs at h
    cases h
    have hspec := observeSegments_spec hload (candidates_sorted segments)
      (fun segment hsegment => hbound segment
        (List.mem_filter.mp (List.mem_mergeSort.mp hsegment)).1) represents_empty hread zero
    rw [hspec, List.nil_append, zeros_candidates hbound]

theorem observeSegments_isOk {segments : List DatasetSegment}
    (hcancelled : ∀ call, cancelled call = false)
    (hok : ∀ segment ∈ segments, ∀ keys, ∃ found, load segment "pg_stat_activity" keys = .ok found)
    (calls : Nat) (observations : Observations) :
    ∃ ended, observeSegments graphAt instant load cancelled calls segments observations =
      .ok ended := by
  induction segments generalizing calls observations with
  | nil => exact ⟨_, rfl⟩
  | cons segment rest ih =>
    unfold observeSegments
    split_ifs with hstop hcancel
    · exact ⟨_, rfl⟩
    · rw [hcancelled] at hcancel
      cases hcancel
    · obtain ⟨found, hfound⟩ := hok segment List.mem_cons_self
        (lockWaitKeysForSections segment.sections)
      rw [hfound]
      exact ih (fun other hother => hok other (List.mem_cons_of_mem _ hother)) _ _

/-- There is no cutoff exactly when no instant of the window is a zero. -/
theorem eq_none_iff_zeros {points : List CountPoint} {result : Option Int}
    (h : ∀ zero, result = some zero ↔ IsGreatest (zeros graphAt instant points) zero) :
    result = none ↔ zeros graphAt instant points = ∅ := by
  constructor
  · rintro rfl
    rw [Set.eq_empty_iff_forall_notMem]
    intro ts hts
    obtain ⟨zero, hzero, hgreatest⟩ := Int.exists_greatest_of_bdd
      (P := fun ts => ts ∈ zeros graphAt instant points) ⟨instant, fun _ hts => hts.2.1⟩ ⟨ts, hts⟩
    cases (h zero).mpr ⟨hzero, fun other hother => hgreatest other hother⟩
  · intro hempty
    cases result with
    | none => rfl
    | some zero =>
      have hzero := ((h zero).mp rfl).1
      rw [hempty] at hzero
      cases hzero

/-- A context is kept exactly when no later instant up to the requested one is a zero. -/
theorem retainLocks_iff {Context : Type} {sampleTo : Context → Option Int}
    {cutoff : Int → Except QueryError (Option Int)} {points : List CountPoint}
    (hcutoff : ∀ graphAt result, cutoff graphAt = .ok result →
      ∀ zero, result = some zero ↔ IsGreatest (zeros graphAt instant points) zero)
    {contexts kept : List Context} (h : retainLocks sampleTo cutoff contexts = .ok kept)
    {context : Context} (hcontext : context ∈ contexts) {shown : Int}
    (hshown : sampleTo context = some shown) :
    context ∈ kept ↔ ∀ ts, shown < ts → ts ≤ instant → ¬ ZeroAt points ts := by
  have hmem : shown ∈ contexts.filterMap sampleTo :=
    List.mem_filterMap.mpr ⟨context, hcontext, hshown⟩
  unfold retainLocks at h
  cases hmin : (contexts.filterMap sampleTo).min? with
  | none =>
    rw [List.min?_eq_none_iff.mp hmin] at hmem
    cases hmem
  | some graphAt =>
    have hle : graphAt ≤ shown := (List.min?_eq_some_iff.mp hmin).2 shown hmem
    rw [hmin] at h
    dsimp only at h
    cases hread : cutoff graphAt with
    | error problem =>
      rw [hread] at h
      cases h
    | ok result =>
      have hspec := hcutoff graphAt result hread
      rw [hread] at h
      cases result with
      | none =>
        cases h
        refine iff_of_true hcontext fun ts hlow hhigh hzero => ?_
        have hempty := (eq_none_iff_zeros hspec).mp rfl
        have hts : ts ∈ zeros graphAt instant points := ⟨Int.lt_of_le_of_lt hle hlow, hhigh, hzero⟩
        rw [hempty] at hts
        cases hts
      | some zero =>
        cases h
        obtain ⟨⟨-, hinstant, hzero⟩, hgreatest⟩ := (hspec zero).mp rfl
        rw [List.mem_filter, and_iff_right hcontext, hshown, Option.any_some, decide_eq_true_iff]
        constructor
        · intro hkept ts hlow hhigh hts
          have := hgreatest ⟨Int.lt_of_le_of_lt hle hlow, hhigh, hts⟩
          omega
        · intro hnone
          by_contra hlater
          exact hnone zero (Int.not_le.mp hlater) hinstant hzero

/-- The cutoff is the latest instant of the window that has samples, none of them with a
waiting backend; and it keeps the graphs that no such instant follows. -/
theorem lockObservationCutoff_spec (load : IndexProvider)
    (blocks : DatasetSegment → List SeriesBlock) (hload : Selects load blocks)
    (segments : List DatasetSegment)
    (hbound : Bounded blocks segments)
    (cancelled : Nat → Bool) (instant : Int) :
    (∀ (graphAt : Int) (result : Option Int),
      lockObservationCutoff graphAt instant (some load) cancelled segments = .ok result →
        (∀ zero, result = some zero ↔
          IsGreatest (zeros graphAt instant (segments.flatMap (activityPoints blocks))) zero) ∧
        (result = none ↔
          zeros graphAt instant (segments.flatMap (activityPoints blocks)) = ∅)) ∧
    ((∀ call, cancelled call = false) → (∀ segment ∈ segments, ∀ keys, ∃ found,
      load segment "pg_stat_activity" keys = .ok found) → ∀ graphAt : Int, ∃ result,
        lockObservationCutoff graphAt instant (some load) cancelled segments = .ok result) ∧
    ∀ (Context : Type) (sampleTo : Context → Option Int) (contexts kept : List Context),
      retainLocks sampleTo (fun graphAt =>
        lockObservationCutoff graphAt instant (some load) cancelled segments) contexts = .ok kept →
      ∀ context ∈ contexts, ∀ shown, sampleTo context = some shown →
        (context ∈ kept ↔ ∀ ts, shown < ts → ts ≤ instant →
          ¬ ZeroAt (segments.flatMap (activityPoints blocks)) ts) := by
  refine ⟨?_, ?_, ?_⟩
  · intro graphAt result h
    have hspec := lockObservationCutoff_some_iff hload hbound h
    exact ⟨hspec, eq_none_iff_zeros hspec⟩
  · intro hcancelled hok graphAt
    obtain ⟨ended, hended⟩ : ∃ ended, observeSegments graphAt instant load cancelled 0
        (candidates graphAt segments) ∅ = .ok ended :=
      observeSegments_isOk hcancelled (fun segment hsegment => hok segment
        (List.mem_filter.mp (List.mem_mergeSort.mp hsegment)).1) 0 ∅
    unfold lockObservationCutoff
    dsimp only
    rw [hended]
    dsimp only
    rw [hcancelled]
    exact ⟨_, rfl⟩
  · intro Context sampleTo contexts kept h context hcontext shown hshown
    exact retainLocks_iff (fun graphAt result hresult =>
      lockObservationCutoff_some_iff hload hbound hresult) h hcontext hshown

def sampledSegment (id minTs maxTs : Int) : DatasetSegment :=
  { id := id, kind := .finished, minTs := minTs, maxTs := maxTs, activePosition := none
    sections := [{ typeId := 1001001, rows := 2, bytes := 1 }] }

/-- At 30 the samples of two segments differ. -/
def sampledBlocks (segment : DatasetSegment) : List SeriesBlock :=
  if segment.id = 1 then [.pgLockWaiting 1001001 [⟨12, 0⟩, ⟨18, 0⟩]]
  else if segment.id = 2 then [.pgLockWaiting 1001001 [⟨15, 0⟩, ⟨30, 0⟩]]
  else [.pgLockWaiting 1001001 [⟨20, 0⟩, ⟨30, 2⟩, ⟨60, 0⟩]]

def sampledIndexes : IndexProvider := fun segment _ keys =>
  if segment.id = 1 then .error (.unreadable "damaged")
  else .ok ((sampledBlocks segment).filter fun block => keys.contains block.key)

theorem selects_sampledIndexes : Selects sampledIndexes sampledBlocks := by
  intro segment _ keys found h block
  rw [sampledIndexes] at h
  split_ifs at h
  rw [← Except.ok.inj h, List.mem_filter, List.contains_iff_mem]

def sampledSegments : List DatasetSegment :=
  [sampledSegment 1 10 19, sampledSegment 2 15 30, sampledSegment 3 20 60]

/-- The search stops before the first segment, which is damaged. -/
theorem lockObservationCutoff_sample :
    lockObservationCutoff 10 50 (some sampledIndexes) (fun _ => false) sampledSegments =
        .ok (some 20) ∧
      IsGreatest (zeros 10 50 (sampledSegments.flatMap (activityPoints sampledBlocks))) 20 := by
  have hspec := lockObservationCutoff_spec sampledIndexes sampledBlocks selects_sampledIndexes
    sampledSegments (by unfold Bounded; decide) (fun _ => false) 50
  have hsorted : candidates 10 sampledSegments =
      [sampledSegment 3 20 60, sampledSegment 2 15 30, sampledSegment 1 10 19] := by
    simp +decide [candidates, sampledSegments, List.mergeSort]
  have hcutoff : lockObservationCutoff 10 50 (some sampledIndexes) (fun _ => false)
      sampledSegments = .ok (some 20) := by
    rw [lockObservationCutoff, hsorted]
    decide +kernel
  exact ⟨hcutoff, ((hspec.1 10 _ hcutoff).1 20).mp rfl⟩

end

end Locks
end Kronika.Query
