/-
The two greatest distinct keys of a stream, each with all its sources.

`topTwo` says what they are, by looking at the whole list; `record` brings them up to
date for one sample, and a fold of it computes `topTwo`.  The order of the samples
does not matter, nor do samples below both keys.
-/
import Mathlib.Data.Finset.Basic
import Mathlib.Order.Lattice

namespace Kronika.Library

/-- A key and the sources that carry it. -/
structure Moment (τ σ : Type*) where
  ts : τ
  sources : Finset σ

def Moment.join {τ σ : Type*} [DecidableEq σ] (moment : Moment τ σ) (sources : Finset σ) :
    Moment τ σ :=
  { moment with sources := moment.sources ∪ sources }

structure Moments (τ σ : Type*) where
  current : Option (Moment τ σ)
  previous : Option (Moment τ σ)

namespace Moments

variable {τ σ : Type*} [LinearOrder τ] [DecidableEq σ]

def empty : Moments τ σ := { current := none, previous := none }

def record (moments : Moments τ σ) (sample : Moment τ σ) : Moments τ σ :=
  match moments.current with
  | none => { moments with current := some sample }
  | some current =>
    if sample.ts = current.ts then
      { moments with current := some (current.join sample.sources) }
    else if current.ts < sample.ts then { current := some sample, previous := some current }
    else
      match moments.previous with
      | none => { moments with previous := some sample }
      | some previous =>
        if sample.ts = previous.ts then
          { moments with previous := some (previous.join sample.sources) }
        else if previous.ts < sample.ts then { moments with previous := some sample }
        else moments

/-! ## What the whole list says -/

def sourcesAt (samples : List (Moment τ σ)) (ts : τ) : Finset σ :=
  match samples with
  | [] => ∅
  | sample :: samples =>
    if sample.ts = ts then sample.sources ∪ sourcesAt samples ts else sourcesAt samples ts

def latest (samples : List (Moment τ σ)) : Option (Moment τ σ) :=
  (samples.map (·.ts)).max?.map fun ts => { ts := ts, sources := sourcesAt samples ts }

def topTwo (samples : List (Moment τ σ)) : Moments τ σ :=
  { current := latest samples
    previous := (latest samples).bind fun current =>
      latest (samples.filter fun sample => sample.ts < current.ts) }

variable {samples : List (Moment τ σ)}

theorem mem_sourcesAt {ts : τ} {source : σ} :
    source ∈ sourcesAt samples ts ↔
      ∃ sample ∈ samples, sample.ts = ts ∧ source ∈ sample.sources := by
  induction samples with
  | nil => simp [sourcesAt]
  | cons sample samples ih =>
    rw [sourcesAt]
    by_cases h : sample.ts = ts
    · rw [if_pos h, Finset.mem_union, ih]
      simp [h]
    · rw [if_neg h, ih]
      simp [h]

/-- The latest moment: nothing is later, and every source of it is there. -/
structure IsLatest (samples : List (Moment τ σ)) (moment : Moment τ σ) : Prop where
  attained : ∃ sample ∈ samples, sample.ts = moment.ts
  greatest : ∀ sample ∈ samples, sample.ts ≤ moment.ts
  sources : ∀ source, source ∈ moment.sources ↔
    ∃ sample ∈ samples, sample.ts = moment.ts ∧ source ∈ sample.sources

theorem latest_eq_some {moment : Moment τ σ} :
    latest samples = some moment ↔ IsLatest samples moment := by
  rw [latest, Option.map_eq_some_iff]
  constructor
  · rintro ⟨ts, hmax, rfl⟩
    obtain ⟨hmem, hle⟩ := List.max?_eq_some_iff.mp hmax
    refine ⟨List.mem_map.mp hmem, fun sample hsample => ?_, fun source => mem_sourcesAt⟩
    exact hle sample.ts (List.mem_map_of_mem hsample)
  · intro h
    refine ⟨moment.ts, List.max?_eq_some_iff.mpr ⟨List.mem_map.mpr h.attained, ?_⟩, ?_⟩
    · intro ts hts
      obtain ⟨sample, hsample, rfl⟩ := List.mem_map.mp hts
      exact h.greatest sample hsample
    · have hsources : sourcesAt samples moment.ts = moment.sources := by
        ext source
        rw [mem_sourcesAt, h.sources]
      rw [hsources]

theorem latest_eq_none : latest samples = none ↔ samples = [] := by
  rw [latest, Option.map_eq_none_iff, List.max?_eq_none_iff, List.map_eq_nil_iff]

/-! ## One more sample -/

section Append

variable {samples : List (Moment τ σ)} {sample : Moment τ σ} {moment : Moment τ σ}

theorem latest_append_none (h : latest samples = none) :
    latest (samples ++ [sample]) = some sample := by
  rw [latest_eq_none.mp h, latest_eq_some]
  exact ⟨⟨sample, List.mem_singleton_self _, rfl⟩, by simp, by simp⟩

theorem latest_append_eq (h : latest samples = some moment) (heq : sample.ts = moment.ts) :
    latest (samples ++ [sample]) = some (moment.join sample.sources) := by
  obtain ⟨⟨found, hfound, hts⟩, hgreatest, hsources⟩ := latest_eq_some.mp h
  rw [latest_eq_some]
  refine ⟨⟨found, List.mem_append_left _ hfound, hts⟩, fun other hother => ?_, fun source => ?_⟩
  · rcases List.mem_append.mp hother with hother | hother
    · exact hgreatest other hother
    · rw [List.mem_singleton.mp hother, heq]
      exact le_refl _
  · show source ∈ moment.sources ∪ sample.sources ↔ ∃ other ∈ samples ++ [sample],
      other.ts = moment.ts ∧ source ∈ other.sources
    rw [Finset.mem_union, hsources]
    constructor
    · rintro (⟨other, hother, hboth⟩ | hsource)
      · exact ⟨other, List.mem_append_left _ hother, hboth⟩
      · exact ⟨sample, List.mem_append_right _ (List.mem_singleton_self _), heq, hsource⟩
    · rintro ⟨other, hother, hboth⟩
      rcases List.mem_append.mp hother with hother | hother
      · exact .inl ⟨other, hother, hboth⟩
      · rw [List.mem_singleton.mp hother] at hboth
        exact .inr hboth.2

theorem latest_append_lt (h : latest samples = some moment) (hlt : moment.ts < sample.ts) :
    latest (samples ++ [sample]) = some sample := by
  obtain ⟨_, hgreatest, _⟩ := latest_eq_some.mp h
  rw [latest_eq_some]
  have hmem : sample ∈ samples ++ [sample] := List.mem_append_right _ (List.mem_singleton_self _)
  refine ⟨⟨sample, hmem, rfl⟩, fun other hother => ?_, fun source => ⟨fun hsource => ?_, ?_⟩⟩
  · rcases List.mem_append.mp hother with hother | hother
    · exact le_of_lt (lt_of_le_of_lt (hgreatest other hother) hlt)
    · rw [List.mem_singleton.mp hother]
  · exact ⟨sample, hmem, rfl, hsource⟩
  · rintro ⟨other, hother, hts, hsource⟩
    rcases List.mem_append.mp hother with hother | hother
    · exact absurd (hgreatest other hother) (not_le_of_gt (hts ▸ hlt))
    · rwa [List.mem_singleton.mp hother] at hsource

theorem latest_append_gt (h : latest samples = some moment) (hlt : sample.ts < moment.ts) :
    latest (samples ++ [sample]) = some moment := by
  obtain ⟨⟨found, hfound, hts⟩, hgreatest, hsources⟩ := latest_eq_some.mp h
  rw [latest_eq_some]
  refine ⟨⟨found, List.mem_append_left _ hfound, hts⟩, fun other hother => ?_, fun source => ?_⟩
  · rcases List.mem_append.mp hother with hother | hother
    · exact hgreatest other hother
    · rw [List.mem_singleton.mp hother]
      exact le_of_lt hlt
  · rw [hsources]
    constructor
    · rintro ⟨other, hother, hboth⟩
      exact ⟨other, List.mem_append_left _ hother, hboth⟩
    · rintro ⟨other, hother, hboth⟩
      rcases List.mem_append.mp hother with hother | hother
      · exact ⟨other, hother, hboth⟩
      · rw [List.mem_singleton.mp hother] at hboth
        exact absurd hboth.1 (ne_of_lt hlt)

omit [DecidableEq σ] in
theorem filter_append_singleton (ts : τ) :
    ((samples ++ [sample]).filter fun other => other.ts < ts) =
      (samples.filter fun other => other.ts < ts) ++ if sample.ts < ts then [sample] else [] := by
  rw [List.filter_append]
  congr 1
  by_cases h : sample.ts < ts
  · rw [if_pos h, List.filter_cons_of_pos (by simpa using h), List.filter_nil]
  · rw [if_neg h, List.filter_cons_of_neg (by simpa using h), List.filter_nil]

theorem topTwo_append (samples : List (Moment τ σ)) (sample : Moment τ σ) :
    topTwo (samples ++ [sample]) = record (topTwo samples) sample := by
  cases hcurrent : latest samples with
  | none =>
    rw [topTwo, topTwo, record, latest_append_none hcurrent, hcurrent, latest_eq_none.mp hcurrent]
    have hnone : latest (([] ++ [sample]).filter fun other => other.ts < sample.ts) = none := by
      rw [latest_eq_none, List.nil_append, List.filter_cons_of_neg (by simp), List.filter_nil]
    simp only [Option.bind_some, Option.bind_none, hnone]
  | some current =>
    have hprevious : (topTwo samples).previous =
        latest (samples.filter fun other => other.ts < current.ts) := by
      rw [topTwo, hcurrent]
      rfl
    have htop : (topTwo samples).current = some current := hcurrent
    rw [record, htop]
    dsimp only
    rcases lt_trichotomy sample.ts current.ts with hlt | heq | hgt
    · rw [if_neg (ne_of_lt hlt), if_neg (not_lt_of_gt hlt)]
      have hnew : topTwo (samples ++ [sample]) =
          { current := some current
            previous := latest ((samples.filter fun other => other.ts < current.ts) ++
              [sample]) } := by
        rw [topTwo, latest_append_gt hcurrent hlt]
        simp only [Option.bind_some]
        rw [filter_append_singleton, if_pos hlt]
      rw [hnew, hprevious]
      cases hsecond : latest (samples.filter fun other => other.ts < current.ts) with
      | none =>
        rewrite [latest_append_none hsecond]
        rfl
      | some previous =>
        dsimp only
        rcases lt_trichotomy sample.ts previous.ts with hlt' | heq' | hgt'
        · rw [if_neg (ne_of_lt hlt'), if_neg (not_lt_of_gt hlt'), latest_append_gt hsecond hlt',
            topTwo, hcurrent, Option.bind_some, hsecond]
        · rw [if_pos heq', latest_append_eq hsecond heq']
        · rw [if_neg (ne_of_gt hgt'), if_pos hgt', latest_append_lt hsecond hgt']
    · rw [if_pos heq, topTwo, latest_append_eq hcurrent heq]
      simp only [Option.bind_some]
      rw [filter_append_singleton, if_neg (by simp [Moment.join, heq]), List.append_nil, hprevious]
      rfl
    · rw [if_neg (ne_of_gt hgt), if_pos hgt, topTwo, latest_append_lt hcurrent hgt]
      simp only [Option.bind_some]
      rw [filter_append_singleton, if_neg (lt_irrefl _), List.append_nil]
      have hall : (samples.filter fun other => other.ts < sample.ts) = samples := by
        refine List.filter_eq_self.mpr fun other hother => decide_eq_true ?_
        exact lt_of_le_of_lt ((latest_eq_some.mp hcurrent).greatest other hother) hgt
      rw [hall, hcurrent]

theorem foldl_record (samples more : List (Moment τ σ)) :
    more.foldl record (topTwo samples) = topTwo (samples ++ more) := by
  induction more generalizing samples with
  | nil => rw [List.append_nil, List.foldl_nil]
  | cons sample more ih =>
    rw [List.foldl_cons, ← topTwo_append, ih, List.append_assoc, List.singleton_append]

theorem previous_lt_current {current previous : Moment τ σ}
    (hcurrent : (topTwo samples).current = some current)
    (hprevious : (topTwo samples).previous = some previous) : previous.ts < current.ts := by
  have hlatest : latest samples = some current := hcurrent
  rw [topTwo, hlatest] at hprevious
  obtain ⟨found, hfound, hts⟩ := (latest_eq_some.mp hprevious).attained
  rw [← hts]
  exact of_decide_eq_true (List.mem_filter.mp hfound).2

/-- The previous moment lies above a bound when two different moments do. -/
theorem previous_above_iff {bound : τ} :
    (∃ previous, (topTwo samples).previous = some previous ∧ bound < previous.ts) ↔
      ∃ earlier ∈ samples, ∃ later ∈ samples, bound < earlier.ts ∧ earlier.ts < later.ts := by
  constructor
  · rintro ⟨previous, hprevious, hlt⟩
    obtain ⟨current, hcurrent, hfiltered⟩ := Option.bind_eq_some_iff.mp hprevious
    obtain ⟨earlier, hearlier, hts⟩ := (latest_eq_some.mp hfiltered).attained
    obtain ⟨later, hlater, hlast⟩ := (latest_eq_some.mp hcurrent).attained
    rw [List.mem_filter, decide_eq_true_eq] at hearlier
    refine ⟨earlier, hearlier.1, later, hlater, ?_, ?_⟩
    · rw [hts]
      exact hlt
    · rw [hlast]
      exact hearlier.2
  · rintro ⟨earlier, hearlier, later, hlater, hlt, hrising⟩
    cases hcurrent : latest samples with
    | none =>
      rw [latest_eq_none.mp hcurrent] at hearlier
      exact absurd hearlier List.not_mem_nil
    | some current =>
      have hle := (latest_eq_some.mp hcurrent).greatest later hlater
      have hmem : earlier ∈ samples.filter fun sample => sample.ts < current.ts :=
        List.mem_filter.mpr ⟨hearlier, decide_eq_true (lt_of_lt_of_le hrising hle)⟩
      cases hprevious : latest (samples.filter fun sample => sample.ts < current.ts) with
      | none =>
        rw [latest_eq_none.mp hprevious] at hmem
        exact absurd hmem List.not_mem_nil
      | some previous =>
        refine ⟨previous, ?_, lt_of_lt_of_le hlt ((latest_eq_some.mp hprevious).greatest _ hmem)⟩
        rw [topTwo, hcurrent]
        exact hprevious

theorem record_below {moments : Moments τ σ} {current previous : Moment τ σ}
    (hcurrent : moments.current = some current) (hprevious : moments.previous = some previous)
    (horder : previous.ts < current.ts) (hbelow : sample.ts < previous.ts) :
    record moments sample = moments := by
  have hlt := lt_trans hbelow horder
  rw [record, hcurrent]
  dsimp only
  rw [if_neg (ne_of_lt hlt), if_neg (not_lt_of_gt hlt), hprevious]
  dsimp only
  rw [if_neg (ne_of_lt hbelow), if_neg (not_lt_of_gt hbelow)]

theorem topTwo_append_below {previous : Moment τ σ} {more : List (Moment τ σ)}
    (h : (topTwo samples).previous = some previous)
    (hbelow : ∀ other ∈ more, other.ts < previous.ts) :
    topTwo (samples ++ more) = topTwo samples := by
  cases hcurrent : (topTwo samples).current with
  | none =>
    have hlatest : latest samples = none := hcurrent
    rw [topTwo, hlatest] at h
    exact absurd h (by simp)
  | some current =>
    rw [← foldl_record]
    induction more with
    | nil => rfl
    | cons sample more ih =>
      obtain ⟨hfirst, hrest⟩ := List.forall_mem_cons.mp hbelow
      rw [List.foldl_cons, record_below hcurrent h (previous_lt_current hcurrent h) hfirst]
      exact ih hrest

end Append

end Moments

end Kronika.Library
