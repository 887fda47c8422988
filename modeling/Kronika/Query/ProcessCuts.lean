/-
The summaries of moments that stand in several segments.

The summary of a moment is a fold over its rows that looks at the moment in front of it alone.  The
rows that are carried from one segment to the next are those of the last moment, which is all that
the first moment of the next segment looks at.  Stored rows are sorted by process before time; a row
can be visited before rows of other processes and times.
-/
import Kronika.Query.ProcessSummary

namespace Kronika.Query
namespace Processes

open Library

/-! ## Moments -/

/-- The rows of all processes at a time. -/
structure ProcessMoment where
  ts : Int
  rows : List Row

/-- There is a row, and every row has the time and a process of its own. -/
structure ProcessMoment.Valid (moment : ProcessMoment) : Prop where
  ne_nil : moment.rows ≠ []
  timed : ∀ row ∈ moment.rows, timestamp row = some moment.ts ∧ ∃ rowPid, pid row = some rowPid
  distinct : (moment.rows.map pid).Nodup

def ofProcess (rowPid : Int) (row : Row) : Bool := pid row = some rowPid

def ProcessMoment.row? (moment : ProcessMoment) (rowPid : Int) : Option Row :=
  moment.rows.find? (ofProcess rowPid)

def sameProcess (row stored : Row) : Bool :=
  pid stored = pid row && (starttime stored = starttime row && (starttime row).isSome)

def predecessorRow (previous : Option ProcessMoment) (row : Row) : Option Row :=
  previous.bind fun moment => moment.rows.find? (sameProcess row)

section Expected

variable (floats : FloatOps)

/-- A row is added with its rates against the moment before. -/
def addFrom (previous : Option ProcessMoment) (ts : Int) (summary : Summary) (row : Row) :
    Summary :=
  addRow floats summary row (counters row) ((predecessorRow previous row).map counters)
    ((predecessorRow previous row).bind fun _ =>
      previous.bind fun moment => elapsedSeconds floats moment.ts ts)

def momentSummary (previous : Option ProcessMoment) (moment : ProcessMoment) : Summary :=
  moment.rows.foldl (addFrom floats previous moment.ts) Summary.default

/-- The sums and rates of all moments. -/
def expectedSummaries : Option ProcessMoment → List ProcessMoment → Int → Option Summary
  | _, [], _ => none
  | previous, moment :: moments, ts =>
    if ts = moment.ts then some (momentSummary floats previous moment)
    else expectedSummaries (some moment) moments ts

/-- What is left of a summary without its segment, the ticks and the processes of PostgreSQL. -/
def Summary.measured (summary : Summary) : Summary :=
  { summary with segmentId := 0, ticksPerSecond := none, postgresql := none }

theorem getLast?_cons_or (moment : ProcessMoment) (moments : List ProcessMoment)
    (previous : Option ProcessMoment) :
    ((moment :: moments).getLast?).or previous = moments.getLast?.or (some moment) := by
  rw [List.getLast?_cons]
  cases moments.getLast? with
  | none => rfl
  | some last => rfl

theorem expectedSummaries_append (previous : Option ProcessMoment)
    (left right : List ProcessMoment) (ts : Int) :
    expectedSummaries floats previous (left ++ right) ts =
      (expectedSummaries floats previous left ts).or
        (expectedSummaries floats (left.getLast?.or previous) right ts) := by
  induction left generalizing previous with
  | nil => rfl
  | cons moment left ih =>
    rw [List.cons_append, expectedSummaries, expectedSummaries]
    by_cases hts : ts = moment.ts
    · rw [if_pos hts, if_pos hts, Option.some_or]
    · rw [if_neg hts, if_neg hts, ih, getLast?_cons_or]

theorem rateSum_add_none (sum : RateSum) (current : Option Int) (seconds : Option Nat) :
    sum.add floats current none seconds = sum := by
  cases current with
  | none => rfl
  | some current => rfl

end Expected

/-! ## Rows that are carried -/

section Carried

variable {state : Int → Option Previous} {previous : Option ProcessMoment}
  {moment : ProcessMoment} {row : Row} {rowPid expected : Int}

def storedAt (ts : Int) (row : Row) : Previous := ⟨ts, starttime row, counters row⟩

/-- The stored rows of the time of a moment are its rows, and no stored row is later. -/
structure Carried (state : Int → Option Previous) (previous : Option ProcessMoment) : Prop where
  fresh : previous = none → ∀ rowPid, state rowPid = none
  le : ∀ moment, previous = some moment → ∀ rowPid stored, state rowPid = some stored →
    stored.ts ≤ moment.ts
  last : ∀ moment, previous = some moment → ∀ rowPid,
    (state rowPid).filter (·.ts = moment.ts) = (moment.row? rowPid).map (storedAt moment.ts)

theorem find?_and {α β : Type*} [DecidableEq β] {key : α → β} {other : α → Bool} {items : List α}
    (h : (items.map key).Nodup) (wanted : β) :
    items.find? (fun item => decide (key item = wanted) && other item) =
      (items.find? fun item => decide (key item = wanted)).filter other := by
  induction items with
  | nil => rfl
  | cons item items ih =>
    rw [List.map_cons, List.nodup_cons] at h
    rw [List.find?_cons, List.find?_cons]
    by_cases hkey : key item = wanted
    · rw [decide_eq_true hkey, Bool.true_and]
      cases hother : other item with
      | true =>
        rw [Option.filter_some, hother, if_pos rfl]
      | false =>
        rw [Option.filter_some, hother, if_neg Bool.false_ne_true, List.find?_eq_none]
        intro later hlater
        rw [Bool.and_eq_true, decide_eq_true_eq]
        intro hboth
        apply h.1
        rw [hkey, ← hboth.1]
        exact List.mem_map_of_mem hlater
    · rw [decide_eq_false hkey]
      exact ih h.2

theorem predecessor_filter (before : Option Previous) (expected : Int) (starttime : Option Int) :
    predecessor before expected starttime = (before.filter (·.ts = expected)).filter fun stored =>
      decide (stored.starttime = starttime) && starttime.isSome := by
  rw [predecessor]
  cases before with
  | none => rfl
  | some stored =>
    rw [Option.filter_some, Option.filter_some]
    by_cases hts : stored.ts = expected
    · rw [decide_eq_true hts, Bool.true_and, if_pos rfl, Option.filter_some]
      by_cases hstart : stored.starttime = starttime
      · rw [decide_eq_true hstart, if_pos rfl, Option.filter_some, hstart, Bool.true_and]
      · rw [decide_eq_false hstart]
        rfl
    · rw [decide_eq_false hts]
      rfl

theorem predecessor_eq (hcarried : Carried state previous)
    (hvalid : ∀ moment, previous = some moment → moment.Valid)
    (hexpected : ∀ moment, previous = some moment → expected = moment.ts)
    (hpid : pid row = some rowPid) :
    predecessor (state rowPid) expected (starttime row) =
      previous.bind fun moment => (predecessorRow previous row).map (storedAt moment.ts) := by
  cases previous with
  | none =>
    rw [hcarried.fresh rfl]
    rfl
  | some moment =>
    have hrow : predecessorRow (some moment) row = (moment.row? rowPid).filter fun stored =>
        decide (starttime stored = starttime row) && (starttime row).isSome := by
      show moment.rows.find? (fun stored => decide (pid stored = pid row) &&
        (decide (starttime stored = starttime row) && (starttime row).isSome)) = _
      rw [hpid]
      exact find?_and (hvalid moment rfl).distinct (some rowPid)
    rw [predecessor_filter, hexpected moment rfl, hcarried.last moment rfl, hrow]
    cases moment.row? rowPid with
    | none => rfl
    | some stored =>
      rw [Option.map_some, Option.filter_some, Option.filter_some]
      show (if (decide (starttime stored = starttime row) && (starttime row).isSome) = true then _
        else _) = _
      split_ifs
      · rfl
      · rfl

end Carried

/-! ## The rows of a moment -/

section Visits

variable {floats : FloatOps} {registry : Registry} {index : MomentIndex}
  {activities : List ((Int × Int) × List Int)} {facts : SegmentFacts}
  {previous : Option ProcessMoment} {row : Row} {rows : List Row} {ts rowPid : Int}
  {progress : Progress}

theorem visitSummary_measured (summary : Summary) (row : Row) (ts rowPid : Int)
    (before : Option Previous) :
    (visitSummary floats activities facts summary row ts rowPid before).measured =
      addRow floats summary.measured row (counters row) (before.map (·.counters))
        (before.bind fun stored => elapsedSeconds floats stored.ts ts) := by
  rw [visitSummary]
  split_ifs
  all_goals rfl

theorem visitSummary_facts (summary : Summary) (row : Row) (ts rowPid : Int)
    (before : Option Previous) :
    (visitSummary floats activities facts summary row ts rowPid before).segmentId = facts.id ∧
      (visitSummary floats activities facts summary row ts rowPid before).ticksPerSecond =
        facts.ticksPerSecond := by
  rw [visitSummary]
  split_ifs
  all_goals exact ⟨rfl, rfl⟩

/-- A row that is not behind what is stored of its process, and whose predecessor is that of its
moment. -/
structure Ready (index : MomentIndex) (previous : Option ProcessMoment) (ts : Int)
    (state : Int → Option Previous) (row : Row) : Prop where
  timed : timestamp row = some ts
  earlier : ∀ rowPid, pid row = some rowPid → ∀ stored, state rowPid = some stored →
    stored.ts < ts
  before : ∀ rowPid, pid row = some rowPid →
    predecessor (state rowPid) ((index.previous.lookup ts).getD i64Min) (starttime row) =
      previous.bind fun moment => (predecessorRow previous row).map (storedAt moment.ts)

theorem visitRow_ready (floats : FloatOps) (activities : List ((Int × Int) × List Int))
    (facts : SegmentFacts) (hready : Ready index previous ts progress.state row)
    (hpid : pid row = some rowPid) :
    ∃ summary, visitRow floats index activities facts progress row =
        ⟨Function.update progress.out ts (some summary),
          Function.update progress.state rowPid (some (storedAt ts row))⟩ ∧
      summary.measured = addFrom floats previous ts
        ((progress.out ts).getD Summary.default).measured row ∧
      summary.segmentId = facts.id ∧ summary.ticksPerSecond = facts.ticksPerSecond := by
  have hnot : ¬(progress.state rowPid).any (ts ≤ ·.ts) = true := by
    rw [Option.any_eq_true]
    intro hany
    obtain ⟨stored, hstored, hle⟩ := hany
    have hlt := hready.earlier rowPid hpid stored hstored
    exact absurd (of_decide_eq_true hle) (not_le.mpr hlt)
  rw [visitRow, hready.timed, hpid]
  dsimp only
  rw [if_neg hnot, hready.before rowPid hpid]
  refine ⟨_, rfl, ?_, visitSummary_facts _ _ _ _ _⟩
  rw [visitSummary_measured, addFrom]
  cases previous with
  | none => rfl
  | some moment =>
    cases predecessorRow (some moment) row with
    | none => rfl
    | some stored => rfl

/-- What the rows of one time have done. -/
structure Visited (floats : FloatOps) (facts : SegmentFacts) (previous : Option ProcessMoment)
    (ts : Int) (rows : List Row) (progress last : Progress) : Prop where
  others : ∀ other, other ≠ ts → last.out other = progress.out other
  state : ∀ rowPid, last.state rowPid =
    ((rows.find? (ofProcess rowPid)).map (storedAt ts)).or (progress.state rowPid)
  measured : ((last.out ts).getD Summary.default).measured =
    rows.foldl (addFrom floats previous ts) ((progress.out ts).getD Summary.default).measured
  facts : rows ≠ [] → ∃ summary, last.out ts = some summary ∧ summary.segmentId = facts.id ∧
    summary.ticksPerSecond = facts.ticksPerSecond

theorem foldl_visitRow (hpids : ∀ row ∈ rows, ∃ rowPid, pid row = some rowPid)
    (hdistinct : (rows.map pid).Nodup)
    (hready : ∀ row ∈ rows, Ready index previous ts progress.state row) :
    Visited floats facts previous ts rows progress
      (rows.foldl (visitRow floats index activities facts) progress) := by
  induction rows generalizing progress with
  | nil =>
    exact {
      others := fun _ _ => rfl
      state := fun _ => rfl
      measured := rfl
      facts := fun hne => absurd rfl hne }
  | cons row rows ih =>
    obtain ⟨⟨rowPid, hpid⟩, hpids⟩ := List.forall_mem_cons.mp hpids
    obtain ⟨hrow, hready⟩ := List.forall_mem_cons.mp hready
    rw [List.map_cons, List.nodup_cons] at hdistinct
    obtain ⟨summary, hvisit, hmeasured, hfacts⟩ := visitRow_ready floats activities facts hrow hpid
    -- The other rows are of other processes, so they are as ready as before.
    have hother : ∀ later ∈ rows, ∀ laterPid, pid later = some laterPid → laterPid ≠ rowPid := by
      intro later hlater laterPid hlaterPid heq
      apply hdistinct.1
      rw [hpid, ← heq, ← hlaterPid]
      exact List.mem_map_of_mem hlater
    have hreadyRest : ∀ later ∈ rows, Ready index previous ts
        (Function.update progress.state rowPid (some (storedAt ts row))) later := by
      intro later hlater
      have hold := hready later hlater
      refine ⟨hold.timed, fun laterPid hlaterPid => ?_, fun laterPid hlaterPid => ?_⟩
      · rw [Function.update_of_ne (hother later hlater laterPid hlaterPid)]
        exact hold.earlier laterPid hlaterPid
      · rw [Function.update_of_ne (hother later hlater laterPid hlaterPid)]
        exact hold.before laterPid hlaterPid
    have hrest : Visited floats facts previous ts rows
        ⟨Function.update progress.out ts (some summary),
          Function.update progress.state rowPid (some (storedAt ts row))⟩
        (rows.foldl (visitRow floats index activities facts)
          ⟨Function.update progress.out ts (some summary),
            Function.update progress.state rowPid (some (storedAt ts row))⟩) :=
      ih hpids hdistinct.2 hreadyRest
    rw [List.foldl_cons, hvisit]
    refine ⟨fun other hne => ?_, fun asked => ?_, ?_, fun _ => ?_⟩
    · rw [hrest.others other hne]
      exact Function.update_of_ne hne _ _
    · rw [hrest.state asked]
      dsimp only
      rw [List.find?_cons, ofProcess, hpid]
      by_cases hasked : asked = rowPid
      · have hnone : rows.find? (ofProcess asked) = none := by
          rw [List.find?_eq_none]
          intro later hlater hsame
          exact hother later hlater asked (of_decide_eq_true hsame) hasked
        rw [hnone, hasked, decide_eq_true rfl, Function.update_self]
        rfl
      · rw [decide_eq_false fun heq => hasked (Option.some.inj heq).symm,
          Function.update_of_ne hasked]
    · rw [hrest.measured, List.foldl_cons, ← hmeasured]
      show rows.foldl _ ((Function.update progress.out ts (some summary) ts).getD _).measured = _
      rw [Function.update_self, Option.getD_some]
    · cases rows with
      | nil =>
        refine ⟨summary, ?_, hfacts⟩
        show Function.update progress.out ts (some summary) ts = some summary
        exact Function.update_self _ _ _
      | cons next rows => exact hrest.facts (List.cons_ne_nil next rows)

end Visits

/-! ## Moments of a segment -/

section Moments

variable {floats : FloatOps} {registry : Registry} {index : MomentIndex}
  {activities : List ((Int × Int) × List Int)} {facts : SegmentFacts}
  {previous : Option ProcessMoment} {moment : ProcessMoment} {moments : List ProcessMoment}
  {progress last : Progress}

/-- The index has the moment before for every moment that has one. -/
def Indexed (index : MomentIndex) : Option ProcessMoment → List ProcessMoment → Prop
  | _, [] => True
  | previous, moment :: moments =>
    (∀ before, previous = some before → index.previous.lookup moment.ts = some before.ts) ∧
      Indexed index (some moment) moments

/-- The moments of a run, in the order of their times. -/
structure Ordered (previous : Option ProcessMoment) (moments : List ProcessMoment) : Prop where
  valid : ∀ moment ∈ previous.toList ++ moments, moment.Valid
  rising : (previous.toList ++ moments).Pairwise fun left right => left.ts < right.ts

theorem Ordered.tail (h : Ordered previous (moment :: moments)) :
    Ordered (some moment) moments where
  valid := fun later hlater => h.valid later (List.mem_append_right _ hlater)
  rising := h.rising.sublist (List.sublist_append_right _ _)

theorem Ordered.lt (h : Ordered previous (moment :: moments)) :
    ∀ later ∈ moments, moment.ts < later.ts :=
  (List.pairwise_cons.mp h.tail.rising).1

theorem Ordered.before (h : Ordered previous (moment :: moments)) :
    ∀ before, previous = some before → before.ts < moment.ts := by
  intro before hprevious
  have hrising := h.rising
  rw [hprevious] at hrising
  exact (List.pairwise_cons.mp hrising).1 moment List.mem_cons_self

theorem visited_moment (hcarried : Carried progress.state previous)
    (hordered : Ordered previous (moment :: moments))
    (hindexed : Indexed index previous (moment :: moments)) :
    Visited floats facts previous moment.ts moment.rows progress
        (moment.rows.foldl (visitRow floats index activities facts) progress) := by
  have hvalid : moment.Valid := hordered.valid moment (List.mem_append_right _ List.mem_cons_self)
  apply foldl_visitRow (fun row hrow => (hvalid.timed row hrow).2) hvalid.distinct
  intro row hrow
  refine ⟨(hvalid.timed row hrow).1, fun rowPid hpid stored hstored => ?_, fun rowPid hpid => ?_⟩
  · cases hprevious : previous with
    | none =>
      rw [hcarried.fresh hprevious] at hstored
      cases hstored
    | some before =>
      exact lt_of_le_of_lt (hcarried.le before hprevious rowPid stored hstored)
        (hordered.before before hprevious)
  · apply predecessor_eq hcarried
    · intro before hprevious
      apply hordered.valid
      rw [hprevious]
      exact List.mem_append_left _ List.mem_cons_self
    · intro before hprevious
      rw [hindexed.1 before hprevious, Option.getD_some]
    · exact hpid

theorem carried_moment (hcarried : Carried progress.state previous)
    (hbefore : ∀ before, previous = some before → before.ts < moment.ts)
    (hvisited : Visited floats facts previous moment.ts moment.rows progress last) :
    Carried last.state (some moment) := by
  have hold : ∀ rowPid stored, progress.state rowPid = some stored → stored.ts < moment.ts := by
    intro rowPid stored hstored
    cases hprevious : previous with
    | none =>
      rw [hcarried.fresh hprevious] at hstored
      cases hstored
    | some before =>
      exact lt_of_le_of_lt (hcarried.le before hprevious rowPid stored hstored)
        (hbefore before hprevious)
  refine ⟨fun hnone => ?_, fun other hother rowPid stored hstored => ?_,
    fun other hother rowPid => ?_⟩
  · cases hnone
  · rw [← Option.some.inj hother]
    rw [hvisited.state rowPid] at hstored
    cases hfind : moment.rows.find? (ofProcess rowPid) with
    | none =>
      rw [hfind] at hstored
      exact le_of_lt (hold rowPid stored hstored)
    | some row =>
      rw [hfind] at hstored
      rw [← Option.some.inj hstored]
      exact le_refl moment.ts
  · rw [← Option.some.inj hother, hvisited.state rowPid, ProcessMoment.row?]
    cases moment.rows.find? (ofProcess rowPid) with
    | none =>
      show (progress.state rowPid).filter _ = none
      rw [Option.filter_eq_none_iff]
      intro stored hstored hts
      exact absurd (of_decide_eq_true hts) (ne_of_lt (hold rowPid stored hstored))
    | some row =>
      show (some (storedAt moment.ts row)).filter _ = some (storedAt moment.ts row)
      exact if_pos (decide_eq_true rfl)

/-- What the moments of a segment have done. -/
structure Ran (floats : FloatOps) (facts : SegmentFacts) (previous : Option ProcessMoment)
    (moments : List ProcessMoment) (progress last : Progress) : Prop where
  others : ∀ ts, (∀ moment ∈ moments, ts ≠ moment.ts) → last.out ts = progress.out ts
  carried : Carried last.state (moments.getLast?.or previous)
  measured : ∀ ts, (last.out ts).map Summary.measured =
    ((expectedSummaries floats previous moments ts).map Summary.measured).or
      ((progress.out ts).map Summary.measured)
  facts : ∀ moment ∈ moments, ∃ summary, last.out moment.ts = some summary ∧
    summary.segmentId = facts.id ∧ summary.ticksPerSecond = facts.ticksPerSecond

theorem foldl_addFrom_measured (previous : Option ProcessMoment) (ts : Int) (rows : List Row)
    (summary : Summary) :
    (rows.foldl (addFrom floats previous ts) summary).measured =
      rows.foldl (addFrom floats previous ts) summary.measured := by
  induction rows generalizing summary with
  | nil => rfl
  | cons row rows ih =>
    rw [List.foldl_cons, ih]
    rfl

theorem expectedSummaries_eq_none {ts : Int} (h : ∀ moment ∈ moments, ts ≠ moment.ts) :
    expectedSummaries floats previous moments ts = none := by
  induction moments generalizing previous with
  | nil => rfl
  | cons moment moments ih =>
    obtain ⟨hmoment, hmoments⟩ := List.forall_mem_cons.mp h
    rw [expectedSummaries, if_neg hmoment]
    exact ih hmoments

theorem ran_moments (hcarried : Carried progress.state previous)
    (hordered : Ordered previous moments) (hindexed : Indexed index previous moments)
    (hfresh : ∀ moment ∈ moments, progress.out moment.ts = none) :
    Ran floats facts previous moments progress
      ((moments.flatMap (·.rows)).foldl (visitRow floats index activities facts) progress) := by
  induction moments generalizing previous progress with
  | nil =>
    refine ⟨fun _ _ => rfl, hcarried, fun ts => ?_, fun moment hmoment => ?_⟩
    · exact (Option.none_or).symm
    · exact absurd hmoment List.not_mem_nil
  | cons moment moments ih =>
    rw [List.flatMap_cons, List.foldl_append]
    have hvisited : Visited floats facts previous moment.ts moment.rows progress
        (moment.rows.foldl (visitRow floats index activities facts) progress) :=
      visited_moment hcarried hordered hindexed
    generalize moment.rows.foldl (visitRow floats index activities facts) progress = next
      at hvisited ⊢
    obtain ⟨hmomentFresh, hfresh⟩ := List.forall_mem_cons.mp hfresh
    have hlt := hordered.lt
    have hfreshNext : ∀ later ∈ moments, next.out later.ts = none := by
      intro later hlater
      rw [hvisited.others later.ts (ne_of_gt (hlt later hlater))]
      exact hfresh later hlater
    have hran := ih (carried_moment hcarried hordered.before hvisited) hordered.tail hindexed.2
      hfreshNext
    have hvalid : moment.Valid := hordered.valid moment (List.mem_append_right _ List.mem_cons_self)
    obtain ⟨summary, hsummary, hfacts⟩ := hvisited.facts hvalid.ne_nil
    have hnow := hran.others moment.ts fun later hlater => ne_of_lt (hlt later hlater)
    refine ⟨fun ts hts => ?_, ?_, fun ts => ?_, fun other hother => ?_⟩
    · obtain ⟨hmoment, hmoments⟩ := List.forall_mem_cons.mp hts
      rw [hran.others ts hmoments, hvisited.others ts hmoment]
    · rw [getLast?_cons_or]
      exact hran.carried
    · rw [hran.measured ts, expectedSummaries]
      by_cases hts : ts = moment.ts
      · have hnone : expectedSummaries floats (some moment) moments ts = none :=
          expectedSummaries_eq_none fun later hlater => by
            rw [hts]
            exact ne_of_lt (hlt later hlater)
        have hmeasured := hvisited.measured
        rw [hsummary, hmomentFresh, Option.getD_some, Option.getD_none] at hmeasured
        rw [if_pos hts, hnone, hts, hsummary, Option.map_none, Option.none_or, Option.map_some,
          Option.map_some, Option.some_or, hmeasured, momentSummary, foldl_addFrom_measured]
      · rw [if_neg hts, hvisited.others ts hts]
    · rcases List.mem_cons.mp hother with rfl | hmem
      · exact ⟨summary, hnow.trans hsummary, hfacts⟩
      · exact hran.facts other hmem

theorem Ordered.append {left right : List ProcessMoment} (h : Ordered previous (left ++ right)) :
    Ordered previous left ∧ Ordered (left.getLast?.or previous) right := by
  constructor
  · refine ⟨fun moment hmoment => h.valid moment ?_, h.rising.sublist ?_⟩
    · rw [← List.append_assoc]
      exact List.mem_append_left _ hmoment
    · rw [← List.append_assoc]
      exact List.sublist_append_left _ _
  · induction left generalizing previous with
    | nil => exact h
    | cons moment left ih =>
      rw [getLast?_cons_or]
      exact ih h.tail

theorem Indexed.append {left right : List ProcessMoment}
    (h : Indexed index previous (left ++ right)) :
    Indexed index previous left ∧ Indexed index (left.getLast?.or previous) right := by
  induction left generalizing previous with
  | nil => exact ⟨trivial, h⟩
  | cons moment left ih =>
    obtain ⟨hleft, hright⟩ := ih h.2
    rw [getLast?_cons_or]
    exact ⟨⟨h.1, hleft⟩, hright⟩

end Moments

/-! ## Rows in the order of their storage -/

section Stored

variable {floats : FloatOps} {index : MomentIndex} {activities : List ((Int × Int) × List Int)}
  {facts : SegmentFacts} {first second : Row} {moment : ProcessMoment}
  {moments : List ProcessMoment}

/-- The rows of two processes at two times. -/
def Apart (first second : Row) : Prop :=
  timestamp first ≠ timestamp second ∧ pid first ≠ pid second

theorem visitRow_comm (h : Apart first second) (progress : Progress) :
    visitRow floats index activities facts
        (visitRow floats index activities facts progress first) second =
      visitRow floats index activities facts
        (visitRow floats index activities facts progress second) first := by
  obtain ⟨hts, hpid⟩ := h
  cases hfirstTs : timestamp first with
  | none => simp only [visitRow, hfirstTs]
  | some firstTs =>
    cases hsecondTs : timestamp second with
    | none => simp only [visitRow, hsecondTs]
    | some secondTs =>
      cases hfirstPid : pid first with
      | none => simp only [visitRow, hfirstTs, hfirstPid]
      | some firstPid =>
        cases hsecondPid : pid second with
        | none => simp only [visitRow, hsecondTs, hsecondPid]
        | some secondPid =>
          rw [hfirstTs, hsecondTs, ne_eq, Option.some.injEq] at hts
          rw [hfirstPid, hsecondPid, ne_eq, Option.some.injEq] at hpid
          simp only [visitRow, hfirstTs, hsecondTs, hfirstPid, hsecondPid]
          by_cases hfirst : (progress.state firstPid).any (firstTs ≤ ·.ts) = true
          · by_cases hsecond : (progress.state secondPid).any (secondTs ≤ ·.ts) = true
            · rw [if_pos hfirst, if_pos hsecond, if_pos hfirst]
            · rw [if_pos hfirst, if_neg hsecond]
              simp only [Function.update_of_ne hpid, if_pos hfirst]
          · by_cases hsecond : (progress.state secondPid).any (secondTs ≤ ·.ts) = true
            · rw [if_neg hfirst, if_pos hsecond, if_neg hfirst]
              simp only [Function.update_of_ne (Ne.symm hpid), if_pos hsecond]
            · rw [if_neg hfirst, if_neg hsecond]
              simp only [Function.update_of_ne hpid, Function.update_of_ne (Ne.symm hpid),
                if_neg hfirst, if_neg hsecond, Function.update_of_ne hts,
                Function.update_of_ne (Ne.symm hts)]
              rw [Function.update_comm hts, Function.update_comm hpid]

theorem visitMoment_comm (h : Apart first second) (id : Int) (scan : MomentScan) :
    visitMoment id (visitMoment id scan first) second =
      visitMoment id (visitMoment id scan second) first := by
  cases hfirst : timestamp first with
  | none => simp only [visitMoment, hfirst]
  | some firstTs =>
    cases hsecond : timestamp second with
    | none => simp only [visitMoment, hfirst, hsecond]
    | some secondTs =>
      have hts := h.1
      rw [hfirst, hsecond, ne_eq, Option.some.injEq] at hts
      simp only [visitMoment, hfirst, hsecond]
      rw [insertEntry_comm (Ne.symm hts), insertEntry_insertEntry, insertEntry_insertEntry]
      congr 2
      funext last
      cases last with
      | none => exact max_comm firstTs secondTs
      | some last => exact max_right_comm last firstTs secondTs

/-- The rows of a time are those of its moment. -/
theorem filter_timestamp (hvalid : ∀ moment ∈ moments, moment.Valid)
    (hrising : moments.Pairwise fun left right => left.ts < right.ts) (hmoment : moment ∈ moments) :
    (moments.flatMap (·.rows)).filter (timestamp · = some moment.ts) = moment.rows := by
  induction moments with
  | nil => exact absurd hmoment List.not_mem_nil
  | cons first moments ih =>
    obtain ⟨hlt, hrising⟩ := List.pairwise_cons.mp hrising
    obtain ⟨hfirst, hmoments⟩ := List.forall_mem_cons.mp hvalid
    rw [List.flatMap_cons, List.filter_append]
    rcases List.mem_cons.mp hmoment with rfl | hmem
    · have hlater : (moments.flatMap (·.rows)).filter (timestamp · = some moment.ts) = [] := by
        rw [List.filter_eq_nil_iff]
        intro row hrow hts
        obtain ⟨later, hlater, hrow⟩ := List.mem_flatMap.mp hrow
        rw [((hmoments later hlater).timed row hrow).1] at hts
        exact absurd (Option.some.inj (of_decide_eq_true hts)) (ne_of_gt (hlt later hlater))
      rw [hlater, List.append_nil, List.filter_eq_self]
      intro row hrow
      exact decide_eq_true (hfirst.timed row hrow).1
    · have hnone : first.rows.filter (timestamp · = some moment.ts) = [] := by
        rw [List.filter_eq_nil_iff]
        intro row hrow hts
        rw [(hfirst.timed row hrow).1] at hts
        exact absurd (Option.some.inj (of_decide_eq_true hts)) (ne_of_lt (hlt moment hmem))
      rw [hnone, List.nil_append]
      exact ih hmoments hrising hmem

/-- Moments have the rows of a process in the order of their times. -/
theorem pairwise_moments (hvalid : ∀ moment ∈ moments, moment.Valid)
    (hrising : moments.Pairwise fun left right => left.ts < right.ts) :
    (moments.flatMap (·.rows)).Pairwise fun earlier later =>
      pid earlier = pid later →
        ∀ ts ∈ timestamp earlier, ∀ next ∈ timestamp later, ts < next := by
  rw [List.pairwise_flatMap]
  refine ⟨fun moment hmoment => ?_, hrising.imp_of_mem ?_⟩
  · refine (List.pairwise_map.mp (hvalid moment hmoment).distinct).imp ?_
    intro earlier later hne hsame
    exact absurd hsame hne
  · intro earlier later hearlier hlater hlt row hrow stored hstored _ ts hts next hnext
    rw [((hvalid earlier hearlier).timed row hrow).1] at hts
    rw [((hvalid later hlater).timed stored hstored).1] at hnext
    rw [← Option.some.inj hts, ← Option.some.inj hnext]
    exact hlt

end Stored

/-! ## Segments -/

section Pieces

variable {floats : FloatOps} {registry : Registry} {index : MomentIndex}
  {activities : List ((Int × Int) × List Int)} {shared : Segment → Bool}
  {previous : Option ProcessMoment} {moment : ProcessMoment} {moments : List ProcessMoment}
  {progress last : Progress}

/-- A segment and the moments that it has. -/
structure Piece where
  segment : Segment
  moments : List ProcessMoment

/-- The stored rows of a segment, in any order that keeps the rows of a time and those of a process
in order: sorted by process and time, as finished segments have them, or one time after the
other. -/
structure Piece.Holds (registry : Registry) (piece : Piece) : Prop where
  rows : ∀ moment ∈ piece.moments,
    (sectionRows registry process piece.segment).filter (timestamp · = some moment.ts) =
      moment.rows
  timed : ∀ row ∈ sectionRows registry process piece.segment,
    ∃ moment ∈ piece.moments, timestamp row = some moment.ts
  rising : (sectionRows registry process piece.segment).Pairwise fun earlier later =>
    pid earlier = pid later → ∀ ts ∈ timestamp earlier, ∀ next ∈ timestamp later, ts < next

theorem Piece.Holds.rows_eq {piece : Piece} (hholds : piece.Holds registry)
    (hvalid : ∀ moment ∈ piece.moments, moment.Valid)
    (hrising : piece.moments.Pairwise fun left right => left.ts < right.ts) (key : Option Int) :
    (sectionRows registry process piece.segment).filter (timestamp · = key) =
      (piece.moments.flatMap (·.rows)).filter (timestamp · = key) := by
  by_cases hkey : ∃ moment ∈ piece.moments, key = some moment.ts
  · obtain ⟨moment, hmoment, rfl⟩ := hkey
    rw [hholds.rows moment hmoment, filter_timestamp hvalid hrising hmoment]
  · have hstored :
        (sectionRows registry process piece.segment).filter (timestamp · = key) = [] := by
      rw [List.filter_eq_nil_iff]
      intro row hrow hts
      obtain ⟨moment, hmoment, heq⟩ := hholds.timed row hrow
      exact hkey ⟨moment, hmoment, (of_decide_eq_true hts).symm.trans heq⟩
    have hmoments : (piece.moments.flatMap (·.rows)).filter (timestamp · = key) = [] := by
      rw [List.filter_eq_nil_iff]
      intro row hrow hts
      obtain ⟨moment, hmoment, hrow⟩ := List.mem_flatMap.mp hrow
      exact hkey ⟨moment, hmoment,
        (of_decide_eq_true hts).symm.trans ((hvalid moment hmoment).timed row hrow).1⟩
    rw [hstored, hmoments]

/-- The stored rows are those of the moments, moved past rows of other processes and times. -/
theorem Piece.Holds.reordered {piece : Piece} (hholds : piece.Holds registry)
    (hvalid : ∀ moment ∈ piece.moments, moment.Valid)
    (hrising : piece.moments.Pairwise fun left right => left.ts < right.ts) :
    Reordered Apart (sectionRows registry process piece.segment)
      (piece.moments.flatMap (·.rows)) := by
  have hrows := hholds.rows_eq hvalid hrising
  have hperm : (sectionRows registry process piece.segment).Perm
      (piece.moments.flatMap (·.rows)) := perm_of_filter_eq hrows
  apply reordered_of_keys hrows
  intro rowPid
  -- The rows of a process are in the order of their times in both, so they are the same.
  apply List.Perm.eq_of_pairwise _ (hholds.rising.filter _)
    ((pairwise_moments hvalid hrising).filter _) (hperm.filter _)
  intro first second hfirst hsecond hlt hgt
  rw [List.mem_filter, decide_eq_true_eq] at hfirst hsecond
  obtain ⟨moment, -, hts⟩ := hholds.timed first hfirst.1
  obtain ⟨later, -, hlater⟩ := hholds.timed second (hperm.mem_iff.mpr hsecond.1)
  exact absurd (hlt (hfirst.2.trans hsecond.2.symm) moment.ts hts later.ts hlater)
    (not_lt_of_gt (hgt (hsecond.2.trans hfirst.2.symm) later.ts hlater moment.ts hts))

theorem carried_retained {state : Int → Option Previous} (h : Carried state (some moment)) :
    Carried (fun rowPid => (state rowPid).filter (·.ts = moment.ts)) (some moment) where
  fresh hnone := by cases hnone
  le other hother rowPid stored hstored :=
    h.le other hother rowPid stored (Option.filter_eq_some_iff.mp hstored).1
  last other hother rowPid := by
    rw [← h.last other hother rowPid, ← Option.some.inj hother]
    cases state rowPid with
    | none => rfl
    | some stored =>
      rw [Option.filter_some]
      split_ifs with hts
      · rw [Option.filter_some, if_pos hts]
      · rfl

theorem ran_segment {piece : Piece} (hholds : piece.Holds registry)
    (hlast : index.lastBySegment.lookup piece.segment.id = piece.moments.getLast?.map (·.ts))
    (hcarried : Carried progress.state previous) (hordered : Ordered previous piece.moments)
    (hindexed : Indexed index previous piece.moments)
    (hfresh : ∀ moment ∈ piece.moments, progress.out moment.ts = none) :
    Ran floats ⟨piece.segment.id, shared piece.segment,
        ticksPerSecond floats registry piece.segment⟩ previous piece.moments progress
      (visitSegment floats registry index activities shared progress piece.segment) := by
  have hran := @ran_moments floats index activities ⟨piece.segment.id, shared piece.segment,
    ticksPerSecond floats registry piece.segment⟩ previous piece.moments progress hcarried hordered
    hindexed hfresh
  have hvalid : ∀ moment ∈ piece.moments, moment.Valid :=
    fun moment hmoment => hordered.valid moment (List.mem_append_right _ hmoment)
  have hreordered := hholds.reordered hvalid
    (hordered.rising.sublist (List.sublist_append_right _ _))
  rw [visitSegment, hlast]
  cases hmoment : piece.moments.getLast? with
  | none =>
    have hnil : piece.moments = [] := List.getLast?_eq_none_iff.mp hmoment
    rw [hnil] at hran ⊢
    exact hran
  | some moment =>
    rw [← hreordered.foldl_eq fun _ _ hapart => visitRow_comm hapart] at hran
    have hkept := hran.carried
    rw [hmoment] at hkept
    refine ⟨hran.others, ?_, hran.measured, hran.facts⟩
    rw [hmoment]
    exact carried_retained hkept

/-- What segments have done. -/
structure RanPieces (floats : FloatOps) (registry : Registry) (previous : Option ProcessMoment)
    (pieces : List Piece) (progress last : Progress) : Prop where
  others : ∀ ts, (∀ moment ∈ pieces.flatMap (·.moments), ts ≠ moment.ts) →
    last.out ts = progress.out ts
  measured : ∀ ts, (last.out ts).map Summary.measured =
    ((expectedSummaries floats previous (pieces.flatMap (·.moments)) ts).map Summary.measured).or
      ((progress.out ts).map Summary.measured)
  facts : ∀ piece ∈ pieces, ∀ moment ∈ piece.moments, ∃ summary,
    last.out moment.ts = some summary ∧ summary.segmentId = piece.segment.id ∧
      summary.ticksPerSecond = ticksPerSecond floats registry piece.segment

theorem ran_pieces {pieces : List Piece} (hholds : ∀ piece ∈ pieces, piece.Holds registry)
    (hlast : ∀ piece ∈ pieces,
      index.lastBySegment.lookup piece.segment.id = piece.moments.getLast?.map (·.ts))
    (hcarried : Carried progress.state previous)
    (hordered : Ordered previous (pieces.flatMap (·.moments)))
    (hindexed : Indexed index previous (pieces.flatMap (·.moments)))
    (hfresh : ∀ moment ∈ pieces.flatMap (·.moments), progress.out moment.ts = none) :
    RanPieces floats registry previous pieces progress
      ((pieces.map (·.segment)).foldl (visitSegment floats registry index activities shared)
        progress) := by
  induction pieces generalizing previous progress with
  | nil =>
    refine ⟨fun _ _ => rfl, fun ts => (Option.none_or).symm, fun piece hpiece => ?_⟩
    exact absurd hpiece List.not_mem_nil
  | cons piece pieces ih =>
    obtain ⟨hpiece, hholds⟩ := List.forall_mem_cons.mp hholds
    obtain ⟨hpieceLast, hlast⟩ := List.forall_mem_cons.mp hlast
    obtain ⟨horderedPiece, horderedRest⟩ := hordered.append
    obtain ⟨hindexedPiece, hindexedRest⟩ := hindexed.append
    obtain ⟨hfreshPiece, hfreshRest⟩ := List.forall_mem_append.mp hfresh
    have hran := @ran_segment floats registry index activities shared previous progress piece
      hpiece hpieceLast hcarried horderedPiece hindexedPiece hfreshPiece
    rw [List.map_cons, List.foldl_cons]
    -- No moment of the rest is a moment of this segment.
    have hapart : ∀ later ∈ pieces.flatMap (·.moments), ∀ moment ∈ piece.moments,
        moment.ts < later.ts := by
      intro later hlater moment hmoment
      have hrising := hordered.rising.sublist (List.sublist_append_right _ _)
      exact (List.pairwise_append.mp hrising).2.2 moment hmoment later hlater
    have hrest := ih hholds hlast hran.carried horderedRest hindexedRest fun later hlater => by
      rw [hran.others later.ts fun moment hmoment =>
        ne_of_gt (hapart later hlater moment hmoment)]
      exact hfreshRest later hlater
    refine ⟨fun ts hts => ?_, fun ts => ?_, fun other hother moment hmoment => ?_⟩
    · obtain ⟨hleft, hright⟩ := List.forall_mem_append.mp hts
      rw [hrest.others ts hright, hran.others ts hleft]
    · rw [hrest.measured ts, hran.measured ts, List.flatMap_cons, expectedSummaries_append,
        ← Option.or_assoc]
      cases hleft : expectedSummaries floats previous piece.moments ts with
      | none => rw [Option.map_none, Option.or_none, Option.none_or]
      | some summary =>
        have hnone : expectedSummaries floats (piece.moments.getLast?.or previous)
            (pieces.flatMap (·.moments)) ts = none := by
          apply expectedSummaries_eq_none
          intro later hlater heq
          have hsame : expectedSummaries floats previous piece.moments ts = none := by
            apply expectedSummaries_eq_none
            intro moment hmoment hts
            exact absurd (hts.symm.trans heq) (ne_of_lt (hapart later hlater moment hmoment))
          rw [hsame] at hleft
          cases hleft
        rw [hnone]
        rfl
    · rcases List.mem_cons.mp hother with rfl | hmem
      · rw [hrest.others moment.ts fun later hlater =>
          ne_of_lt (hapart later hlater moment hmoment)]
        exact hran.facts moment hmoment
      · exact hrest.facts other hmem moment hmoment

end Pieces

/-! ## The index of the moments -/

variable {previous : Option ProcessMoment}

section Index

variable {registry : Registry} {id ts : Int} {row : Row} {rows : List Row}
  {found old : List (Int × Int)} {here : Option Int} {moment : ProcessMoment}
  {moments : List ProcessMoment}

theorem visitMoment_first (hrow : timestamp row = some ts)
    (hfound : ∀ entry ∈ found, entry.1 < ts) (hold : ∀ entry ∈ old, entry.1 < id)
    (hhere : ∀ last, here = some last → last < ts) :
    visitMoment id ⟨found, old ++ (here.map (id, ·)).toList⟩ row =
      ⟨found ++ [(ts, id)], old ++ [(id, ts)]⟩ := by
  rw [visitMoment, hrow]
  dsimp only
  rw [insertEntry_last hfound, insertEntry_append hold]
  cases here with
  | none => rfl
  | some last =>
    show MomentScan.mk _ (old ++ insertEntry id _ [(id, last)]) = _
    rw [insertEntry_self, Option.elim_some, max_eq_right (le_of_lt (hhere last rfl))]
    rfl

theorem visitMoment_again (hrow : timestamp row = some ts)
    (hfound : ∀ entry ∈ found, entry.1 < ts) (hold : ∀ entry ∈ old, entry.1 < id) :
    visitMoment id ⟨found ++ [(ts, id)], old ++ [(id, ts)]⟩ row =
      ⟨found ++ [(ts, id)], old ++ [(id, ts)]⟩ := by
  rw [visitMoment, hrow]
  dsimp only
  rw [insertEntry_append hfound, insertEntry_append hold, insertEntry_self, insertEntry_self,
    Option.elim_some, max_self]
  rfl

theorem foldl_visitMoment_again (hrows : ∀ row ∈ rows, timestamp row = some ts)
    (hfound : ∀ entry ∈ found, entry.1 < ts) (hold : ∀ entry ∈ old, entry.1 < id) :
    rows.foldl (visitMoment id) ⟨found ++ [(ts, id)], old ++ [(id, ts)]⟩ =
      ⟨found ++ [(ts, id)], old ++ [(id, ts)]⟩ := by
  induction rows with
  | nil => rfl
  | cons row rows ih =>
    obtain ⟨hrow, hrows⟩ := List.forall_mem_cons.mp hrows
    rw [List.foldl_cons, visitMoment_again hrow hfound hold]
    exact ih hrows

theorem scan_moments (here : Option Int) (hvalid : ∀ moment ∈ moments, moment.Valid)
    (hrising : moments.Pairwise fun left right => left.ts < right.ts)
    (hfound : ∀ moment ∈ moments, ∀ entry ∈ found, entry.1 < moment.ts)
    (hold : ∀ entry ∈ old, entry.1 < id)
    (hhere : ∀ moment ∈ moments, ∀ last, here = some last → last < moment.ts) :
    (moments.flatMap (·.rows)).foldl (visitMoment id)
        ⟨found, old ++ (here.map (id, ·)).toList⟩ =
      ⟨found ++ moments.map fun moment => (moment.ts, id),
        old ++ (((moments.getLast?.map (·.ts)).or here).map (id, ·)).toList⟩ := by
  induction moments generalizing found here with
  | nil =>
    rw [List.map_nil, List.append_nil]
    rfl
  | cons moment moments ih =>
    obtain ⟨hmoment, hvalid⟩ := List.forall_mem_cons.mp hvalid
    obtain ⟨hlt, hrising⟩ := List.pairwise_cons.mp hrising
    obtain ⟨hmomentFound, hfound⟩ := List.forall_mem_cons.mp hfound
    obtain ⟨row, rows, hrows⟩ := List.exists_cons_of_ne_nil hmoment.ne_nil
    have htimed : ∀ row ∈ moment.rows, timestamp row = some moment.ts :=
      fun row hrow => (hmoment.timed row hrow).1
    rw [hrows] at htimed
    obtain ⟨hrow, htimed⟩ := List.forall_mem_cons.mp htimed
    rw [List.flatMap_cons, List.foldl_append, hrows, List.foldl_cons,
      visitMoment_first hrow hmomentFound hold
        fun last hlast => hhere moment List.mem_cons_self last hlast,
      foldl_visitMoment_again htimed hmomentFound hold]
    have hrest := @ih (found ++ [(moment.ts, id)]) (some moment.ts) hvalid hrising
      (fun later hlater entry hentry => by
        rcases List.mem_append.mp hentry with hentry | hentry
        · exact hfound later hlater entry hentry
        · rw [List.mem_singleton.mp hentry]
          exact hlt later hlater)
      (fun later hlater last hlast => by
        rw [← Option.some.inj hlast]
        exact hlt later hlater)
    rw [Option.map_some, Option.toList_some] at hrest
    rw [hrest, List.append_assoc, List.getLast?_cons]
    cases moments.getLast? with
    | none => rfl
    | some last => rfl

def foundMoments (piece : Piece) : List (Int × Int) :=
  piece.moments.map fun moment => (moment.ts, piece.segment.id)

def lastMoment (piece : Piece) : Option (Int × Int) :=
  piece.moments.getLast?.map fun moment => (piece.segment.id, moment.ts)

theorem scan_pieces (found old : List (Int × Int)) {pieces : List Piece}
    (hholds : ∀ piece ∈ pieces, piece.Holds registry)
    (hids : pieces.Pairwise fun left right => left.segment.id < right.segment.id)
    (hvalid : ∀ moment ∈ pieces.flatMap (·.moments), moment.Valid)
    (hrising : (pieces.flatMap (·.moments)).Pairwise fun left right => left.ts < right.ts)
    (hfound : ∀ moment ∈ pieces.flatMap (·.moments), ∀ entry ∈ found, entry.1 < moment.ts)
    (hold : ∀ piece ∈ pieces, ∀ entry ∈ old, entry.1 < piece.segment.id) :
    (pieces.map (·.segment)).foldl (fun scan segment =>
        (sectionRows registry process segment).foldl (visitMoment segment.id) scan) ⟨found, old⟩ =
      ⟨found ++ pieces.flatMap foundMoments, old ++ pieces.filterMap lastMoment⟩ := by
  induction pieces generalizing found old with
  | nil =>
    show MomentScan.mk found old = ⟨found ++ [], old ++ []⟩
    rw [List.append_nil, List.append_nil]
  | cons piece pieces ih =>
    obtain ⟨hpiece, hholds⟩ := List.forall_mem_cons.mp hholds
    obtain ⟨hpieceOld, hold⟩ := List.forall_mem_cons.mp hold
    obtain ⟨hlt, hids⟩ := List.pairwise_cons.mp hids
    obtain ⟨hpieceValid, hvalid⟩ := List.forall_mem_append.mp hvalid
    obtain ⟨hpieceFound, hfound⟩ := List.forall_mem_append.mp hfound
    obtain ⟨hpieceRising, hrising, hapart⟩ := List.pairwise_append.mp hrising
    have hscan := scan_moments none hpieceValid hpieceRising hpieceFound hpieceOld
      fun moment hmoment last hlast => by cases hlast
    have hlast : (((piece.moments.getLast?.map (·.ts)).or none).map (piece.segment.id, ·)).toList =
        (lastMoment piece).toList := by
      rw [Option.or_none, Option.map_map]
      rfl
    have hreordered := hpiece.reordered hpieceValid hpieceRising
    rw [Option.map_none, Option.toList_none, List.append_nil, hlast, ← hreordered.foldl_eq
      fun _ _ hapart scan => visitMoment_comm hapart piece.segment.id scan] at hscan
    rw [List.map_cons, List.foldl_cons, hscan]
    have hrest := ih (found ++ foundMoments piece) (old ++ (lastMoment piece).toList)
      hholds hids hvalid hrising
      (fun later hlater entry hentry => by
        rcases List.mem_append.mp hentry with hentry | hentry
        · exact hfound later hlater entry hentry
        · obtain ⟨moment, hmoment, heq⟩ := List.mem_map.mp hentry
          rw [← heq]
          exact hapart moment hmoment later hlater)
      (fun later hlater entry hentry => by
        rcases List.mem_append.mp hentry with hentry | hentry
        · exact hold later hlater entry hentry
        · obtain ⟨moment, _, heq⟩ := Option.map_eq_some_iff.mp (Option.mem_toList.mp hentry)
          rw [← heq]
          exact hlt later hlater)
    show List.foldl _ (MomentScan.mk (found ++ foundMoments piece)
      (old ++ (lastMoment piece).toList)) _ = _
    rw [hrest, List.append_assoc, List.append_assoc, List.filterMap_cons]
    cases lastMoment piece with
    | none => rfl
    | some entry => rfl

theorem indexed_zip {index : MomentIndex} (before : Int)
    (hrising : moments.Pairwise fun left right => left.ts < right.ts)
    (hbefore : ∀ moment, previous = some moment → before = moment.ts)
    (hlookup : ∀ moment ∈ moments, index.previous.lookup moment.ts =
      ((moments.map (·.ts)).zip (before :: moments.map (·.ts))).lookup moment.ts) :
    Indexed index previous moments := by
  induction moments generalizing previous before with
  | nil => exact trivial
  | cons moment moments ih =>
    obtain ⟨hlt, hrising⟩ := List.pairwise_cons.mp hrising
    obtain ⟨hmoment, hlookup⟩ := List.forall_mem_cons.mp hlookup
    rw [List.map_cons, List.zip_cons_cons, List.lookup_cons_self] at hmoment
    constructor
    · intro earlier hprevious
      rw [hmoment, hbefore earlier hprevious]
    · apply ih moment.ts hrising
      · intro earlier hprevious
        rw [Option.some.inj hprevious]
      · intro later hlater
        rw [hlookup later hlater, List.map_cons, List.zip_cons_cons, List.lookup_cons,
          beq_false_of_ne (ne_of_gt (hlt later hlater))]

theorem lookup_lastMoment {pieces : List Piece} {piece : Piece}
    (hids : pieces.Pairwise fun left right => left.segment.id < right.segment.id)
    (hpiece : piece ∈ pieces) :
    (pieces.filterMap lastMoment).lookup piece.segment.id = piece.moments.getLast?.map (·.ts) := by
  induction pieces with
  | nil => exact absurd hpiece List.not_mem_nil
  | cons first pieces ih =>
    obtain ⟨hlt, hids⟩ := List.pairwise_cons.mp hids
    rw [List.filterMap_cons]
    rcases List.mem_cons.mp hpiece with rfl | hmem
    · have hlater : (pieces.filterMap lastMoment).lookup piece.segment.id = none := by
        apply lookup_of_lt
        intro entry hentry
        obtain ⟨later, hlater, heq⟩ := List.mem_filterMap.mp hentry
        obtain ⟨moment, _, heq⟩ := Option.map_eq_some_iff.mp heq
        rw [← heq]
        exact hlt later hlater
      rw [lastMoment]
      cases piece.moments.getLast? with
      | none => exact hlater
      | some moment => exact List.lookup_cons_self
    · rw [← ih hids hmem, lastMoment]
      cases first.moments.getLast? with
      | none => rfl
      | some moment =>
        show List.lookup _ ((first.segment.id, moment.ts) :: _) = _
        rw [List.lookup_cons, beq_false_of_ne (ne_of_gt (hlt piece hmem))]

end Index

/-! ## Cuts -/

section Cuts

variable {floats : FloatOps} {registry : Registry} {pieces : List Piece}

/-- A sequence of moments, cut into segments. -/
structure Cut (registry : Registry) (pieces : List Piece) : Prop where
  holds : ∀ piece ∈ pieces, piece.Holds registry
  ids : pieces.Pairwise fun left right => left.segment.id < right.segment.id
  ordered : Ordered none (pieces.flatMap (·.moments))

theorem processMoments_cut (h : Cut registry pieces) :
    processMoments registry (pieces.map (·.segment)) =
      ⟨((pieces.flatMap (·.moments)).map (·.ts)).zip
          (i64Min :: (pieces.flatMap (·.moments)).map (·.ts)), pieces.filterMap lastMoment⟩ := by
  have hscan := scan_pieces [] [] h.holds h.ids h.ordered.valid
    h.ordered.rising (fun moment _ entry hentry => absurd hentry List.not_mem_nil)
    fun piece _ entry hentry => absurd hentry List.not_mem_nil
  have hkeys : (pieces.flatMap foundMoments).map Prod.fst =
      (pieces.flatMap (·.moments)).map (·.ts) := by
    rw [List.map_flatMap, List.map_flatMap]
    apply List.flatMap_congr
    intro piece _
    rw [foundMoments, List.map_map]
    rfl
  rw [processMoments, hscan]
  show MomentIndex.mk (previousMoments (pieces.flatMap foundMoments)) _ = _
  rw [previousMoments, hkeys]
  rfl

theorem ran_cut (activities : List ((Int × Int) × List Int)) (shared : Segment → Bool)
    (h : Cut registry pieces) :
    RanPieces floats registry none pieces ⟨fun _ => none, fun _ => none⟩
      ((pieces.map (·.segment)).foldl (visitSegment floats registry
        (processMoments registry (pieces.map (·.segment))) activities shared)
        ⟨fun _ => none, fun _ => none⟩) := by
  apply ran_pieces h.holds
  · intro piece hpiece
    rw [processMoments_cut h]
    exact lookup_lastMoment h.ids hpiece
  · refine ⟨fun _ _ => rfl, fun moment hmoment => ?_, fun moment hmoment => ?_⟩
    · cases hmoment
    · cases hmoment
  · exact h.ordered
  · refine indexed_zip i64Min h.ordered.rising (fun moment hmoment => ?_)
      fun moment _ => ?_
    · cases hmoment
    · rw [processMoments_cut h]
  · intro _ _
    rfl

theorem measured_eq (activities : List ((Int × Int) × List Int)) (shared : Segment → Bool)
    (h : Cut registry pieces) (ts : Int) :
    (streamSummaries floats registry activities shared (pieces.map (·.segment)) ts).map
        Summary.measured =
      (expectedSummaries floats none (pieces.flatMap (·.moments)) ts).map Summary.measured := by
  have hran := (@ran_cut floats registry pieces activities shared h).measured ts
  rw [Option.map_none, Option.or_none] at hran
  exact hran

theorem expectedSummaries_of_split {front back : List ProcessMoment} {moment : ProcessMoment}
    (hordered : Ordered none (front ++ moment :: back)) :
    expectedSummaries floats none (front ++ moment :: back) moment.ts =
      some (momentSummary floats front.getLast? moment) := by
  have hrising : (front ++ moment :: back).Pairwise fun left right => left.ts < right.ts :=
    hordered.rising
  have hapart := (List.pairwise_append.mp hrising).2.2
  have hnone : expectedSummaries floats none front moment.ts = none :=
    expectedSummaries_eq_none fun earlier hearlier =>
      ne_of_gt (hapart earlier hearlier moment List.mem_cons_self)
  rw [expectedSummaries_append, hnone, Option.none_or, Option.or_none, expectedSummaries,
    if_pos rfl]

theorem predecessorRow_eq_some {before : ProcessMoment} {row stored : Row}
    (h : predecessorRow (some before) row = some stored) :
    stored ∈ before.rows ∧ pid stored = pid row ∧ starttime stored = starttime row ∧
      (starttime row).isSome := by
  have hsame := List.find?_some h
  rw [sameProcess, Bool.and_eq_true, Bool.and_eq_true] at hsame
  exact ⟨List.mem_of_find?_eq_some h, of_decide_eq_true hsame.1, of_decide_eq_true hsame.2.1,
    hsame.2.2⟩

def Summary.rates (summary : Summary) : List RateSum :=
  [summary.utime, summary.stime, summary.rundelayNs, summary.nvcsw, summary.nivcsw,
    summary.majflt, summary.readBytes, summary.writeBytes, summary.syscr, summary.syscw]

theorem rates_of_no_predecessor {row : Row}
    (h : predecessorRow previous row = none) (ts : Int) (summary : Summary) :
    (addFrom floats previous ts summary row).rates = summary.rates := by
  rw [addFrom, h, Option.map_none]
  simp only [addRow, Summary.rates, Option.bind_none, rateSum_add_none]

theorem predecessorRow_eq_none {row : Row}
    (h : ∀ before, previous = some before → ∀ stored ∈ before.rows,
      ¬(pid stored = pid row ∧ starttime stored = starttime row)) :
    predecessorRow previous row = none := by
  cases previous with
  | none => rfl
  | some before =>
    rw [predecessorRow, Option.bind_some, List.find?_eq_none]
    intro stored hstored hsame
    rw [sameProcess, Bool.and_eq_true, Bool.and_eq_true] at hsame
    exact h before rfl stored hstored
      ⟨of_decide_eq_true hsame.1, of_decide_eq_true hsame.2.1⟩

/-- Where a sequence of moments is cut shows in the segments of the summaries alone: the sums and
rates of a moment are those against the moment before it, wherever that stands. -/
theorem streamSummaries_cut (floats : FloatOps) (registry : Registry)
    (activities wholeActivities : List ((Int × Int) × List Int))
    (shared wholeShared : Segment → Bool) (pieces : List Piece) (whole : Piece)
    (h : Cut registry pieces) (hwhole : whole.Holds registry)
    (hsame : whole.moments = pieces.flatMap (·.moments)) :
    (∀ ts, (streamSummaries floats registry activities shared (pieces.map (·.segment)) ts).map
          Summary.measured =
        (streamSummaries floats registry wholeActivities wholeShared [whole.segment] ts).map
          Summary.measured) ∧
      (∀ piece ∈ pieces, ∀ moment ∈ piece.moments, ∃ summary,
        streamSummaries floats registry activities shared (pieces.map (·.segment)) moment.ts =
          some summary ∧ summary.segmentId = piece.segment.id) ∧
      (∀ front moment back, pieces.flatMap (·.moments) = front ++ moment :: back →
        (streamSummaries floats registry activities shared (pieces.map (·.segment))
            moment.ts).map Summary.measured =
          some (momentSummary floats front.getLast? moment).measured) ∧
      (∀ (before : ProcessMoment) (row stored : Row),
        predecessorRow (some before) row = some stored → stored ∈ before.rows ∧
          pid stored = pid row ∧ starttime stored = starttime row ∧ (starttime row).isSome) ∧
      ∀ (previous : Option ProcessMoment) (ts : Int) (summary : Summary) (row : Row),
        (∀ before, previous = some before → ∀ stored ∈ before.rows,
          ¬(pid stored = pid row ∧ starttime stored = starttime row)) →
        (addFrom floats previous ts summary row).rates = summary.rates := by
  refine ⟨fun ts => ?_, fun piece hpiece moment hmoment => ?_, fun front moment back hsplit => ?_,
    fun before row stored hstored => predecessorRow_eq_some hstored,
    fun previous ts summary row hnone => ?_⟩
  · have hone : Cut registry [whole] := by
      refine ⟨List.forall_mem_singleton.mpr hwhole, List.pairwise_singleton _ _, ?_⟩
      rw [List.flatMap_singleton, hsame]
      exact h.ordered
    have hmeasured := @measured_eq floats registry [whole] wholeActivities wholeShared hone ts
    rw [List.flatMap_singleton, hsame] at hmeasured
    rw [measured_eq activities shared h]
    exact hmeasured.symm
  · obtain ⟨summary, hsummary, hid, _⟩ :=
      (@ran_cut floats registry pieces activities shared h).facts piece hpiece moment hmoment
    exact ⟨summary, hsummary, hid⟩
  · have hordered := h.ordered
    rw [hsplit] at hordered
    rw [measured_eq activities shared h, hsplit, expectedSummaries_of_split hordered,
      Option.map_some]
  · exact rates_of_no_predecessor (predecessorRow_eq_none hnone) ts summary

/-! ## A cut between two moments -/

/-- Doubles of one second and one hundred ticks. -/
def processFloats : FloatOps where
  partialCmp := fun left right => some (compare left right)
  isFinite := fun bits => bits < 0x7FF0000000000000
  add := fun left right => if left = 0 then right else left
  sub := fun left right => if left = right then 0 else left
  mul := fun left right => if right = 0x3FF0000000000000 then left else 0
  div := fun left right =>
    if right = 0x3FF0000000000000 then left
    else if left = right then 0x3FF0000000000000
    else 0
  ofInt := fun value =>
    if value = 1000000 then 0x412E848000000000
    else if value = 100 then 0x4059000000000000
    else 0

def processRegistry : Registry where
  contracts := []
  logicalSectionName typeId := if typeId = 9 then some process else none

def processRow (ts rowPid start utime : Int) : Row where
  cells := [("ts", .ts ts), ("pid", .i32 rowPid), ("starttime", .i64 start), ("utime", .i64 utime)]

/-- The second process is restarted at the third moment. -/
def processSeconds : List ProcessMoment :=
  [⟨1000000, [processRow 1000000 7 50 100, processRow 1000000 8 60 100]⟩,
    ⟨2000000, [processRow 2000000 7 50 200, processRow 2000000 8 60 200]⟩,
    ⟨3000000, [processRow 3000000 7 50 300, processRow 3000000 8 90 300]⟩]

/-- A segment whose rows are sorted by process and time. -/
def processPiece (id : Int) (moments : List ProcessMoment) : Piece where
  segment :=
    { id := id
      kind := .finished
      maxTs := 0
      activePosition := none
      layouts := [(9, (moments.flatMap (·.rows)).filter (ofProcess 7) ++
        (moments.flatMap (·.rows)).filter (ofProcess 8))]
      dictionary := fun _ => none }
  moments := moments

theorem valid_processRows (ts : Int) {left right : Int} (hne : left ≠ right)
    (leftStart leftTime rightStart rightTime : Int) :
    (ProcessMoment.mk ts
      [processRow ts left leftStart leftTime, processRow ts right rightStart rightTime]).Valid where
  ne_nil := List.cons_ne_nil _ _
  timed row hrow := by
    rcases List.mem_cons.mp hrow with rfl | hrow
    · exact ⟨rfl, left, rfl⟩
    · rw [List.mem_singleton.mp hrow]
      exact ⟨rfl, right, rfl⟩
  distinct := by
    show [some left, some right].Nodup
    exact List.nodup_cons.mpr
      ⟨fun hmem => hne (Option.some.inj (List.mem_singleton.mp hmem)), List.nodup_singleton _⟩

theorem ordered_processSeconds : Ordered none processSeconds where
  valid moment hmoment := by
    rcases List.mem_cons.mp hmoment with rfl | hmoment
    · exact valid_processRows 1000000 (by decide) 50 100 60 100
    · rcases List.mem_cons.mp hmoment with rfl | hmoment
      · exact valid_processRows 2000000 (by decide) 50 200 60 200
      · rw [List.mem_singleton.mp hmoment]
        exact valid_processRows 3000000 (by decide) 50 300 90 300
  rising := by decide

def processPieces : List Piece :=
  [processPiece 1 (processSeconds.take 2), processPiece 2 (processSeconds.drop 2)]

theorem holds_processPiece : (processPiece 1 processSeconds).Holds processRegistry where
  rows := by decide +kernel
  timed := by decide +kernel
  rising := by decide +kernel

theorem cut_processPieces : Cut processRegistry processPieces where
  holds piece hpiece := by
    rcases List.mem_cons.mp hpiece with rfl | hpiece
    · exact ⟨by decide +kernel, by decide +kernel, by decide +kernel⟩
    · rw [List.mem_singleton.mp hpiece]
      exact ⟨by decide +kernel, by decide +kernel, by decide +kernel⟩
  ids := List.pairwise_pair.mpr (by decide)
  ordered := ordered_processSeconds

/-- The rate of the third moment is counted from a row of the segment before, for the process that
was not restarted. -/
theorem streamSummaries_cut_sample :
    ((streamSummaries processFloats processRegistry [] (fun _ => false)
        (processPieces.map (·.segment)) 3000000).map Summary.measured =
      (streamSummaries processFloats processRegistry [] (fun _ => false)
        [(processPiece 1 processSeconds).segment] 3000000).map Summary.measured) ∧
      (streamSummaries processFloats processRegistry [] (fun _ => false)
        (processPieces.map (·.segment)) 3000000).map (·.utime) =
          some ⟨0x4059000000000000, 1⟩ :=
  ⟨(streamSummaries_cut processFloats processRegistry [] [] (fun _ => false) (fun _ => false)
      processPieces (processPiece 1 processSeconds) cut_processPieces
      holds_processPiece rfl).1 3000000, by decide +kernel⟩

/-- A summary has the segment of its moment, so a cut changes it. -/
theorem streamSummaries_segment :
    Cut processRegistry processPieces ∧
      (processPiece 1 processSeconds).Holds processRegistry ∧
      (processPiece 1 processSeconds).moments = processPieces.flatMap (·.moments) ∧
      (streamSummaries processFloats processRegistry [] (fun _ => false)
        (processPieces.map (·.segment)) 3000000).map (·.segmentId) = some 2 ∧
      (streamSummaries processFloats processRegistry [] (fun _ => false)
        [(processPiece 1 processSeconds).segment] 3000000).map (·.segmentId) = some 1 :=
  ⟨cut_processPieces, holds_processPiece, rfl, by decide +kernel, by decide +kernel⟩

end Cuts

end Processes
end Kronika.Query
