/-
What is found for the kills in the selected groups.

The samples are taken by timestamp, each with the identity that its own segment records for the
group, and a sample without a known identity is never compared.
-/
import Kronika.Index.DetectRuns

namespace Kronika.Index

open Library FindingBuilder

variable {typeId : Nat} {builder : FindingBuilder} {segment target : Segment} {x : Finding}
  {requested : List SeriesKey} {priors : List Segment} {identities : List (Int × Option Nat)}

/-- A sample of the selected group, with the identity that is known at its timestamp. -/
def selectedSample (identities : List (Int × Option Nat)) (item : Int × Option Int) : Sample where
  identity := identityAt identities item.1
  timestamp := item.1
  value := item.2.filter (0 ≤ ·)

def selectedRule (identities : List (Int × Option Nat)) :
    Adjacent (Int × Option Int) Nat Sample where
  read item := some (0, selectedSample identities item)
  grown := Sample.grown

/-- The state that a latest sample leaves: nothing, if its identity is not known. -/
def selectedState (latest : Option Sample) : Option CgroupOomSample :=
  latest.bind fun sample => sample.identity.map fun identity =>
    (identity, sample.timestamp, sample.value)

namespace FindingBuilder

theorem cgroupOomIncreased_fst (before : Option CgroupOomSample) (item : Int × Option Int) :
    (cgroupOomIncreased before (identityAt identities item.1) item.1 item.2).1 =
      selectedState (some (selectedSample identities item)) := rfl

theorem cgroupOomIncreased_snd (latest : Option Sample) (item : Int × Option Int) :
    (cgroupOomIncreased (selectedState latest) (identityAt identities item.1) item.1 item.2).2 =
      latest.any (·.grown (selectedSample identities item)) := by
  cases latest with
  | none => rfl
  | some before =>
    obtain ⟨identity, beforeTs, earlier⟩ := before
    show _ = Sample.grown _ (selectedSample identities item)
    cases identity with
    | none => rfl
    | some identity =>
      unfold cgroupOomIncreased selectedSample Sample.grown
      cases identityAt identities item.1 with
      | none =>
        cases earlier with
        | none => rfl
        | some earlier => rfl
      | some found =>
        cases earlier with
        | none =>
          cases item.2.filter (0 ≤ ·) with
          | none => simp [selectedState]
          | some later => simp [selectedState]
        | some earlier =>
          cases item.2.filter (0 ≤ ·) with
          | none => simp [selectedState]
          | some later =>
            have hsame : decide (found = identity) = decide (some identity = some found) :=
              decide_eq_decide.mpr (by rw [Option.some.injEq, eq_comm])
            simp only [selectedState, Option.bind_some, Option.map_some, hsame, Option.isSome_some,
              Bool.true_and]

theorem findSelectedSample_follows :
    (selectedRule identities).Follows (fun before latest => before = selectedState (latest 0))
      (findSelectedSample identities)
      (fun ordinal sample =>
        knownBad (cgroupOomKillField osCgroupMemoryV3) ordinal sample.timestamp)
      (fun x => x.fieldOrdinal = cgroupOomKillField osCgroupMemoryV3) (· < 2 ^ 32) where
  keeps := by
    intro before latest ordinal item _ _
    exact cgroupOomIncreased_fst before item
  finds := by
    intro before latest ordinal item x hordinal hbefore
    rw [findSelectedSample, hbefore, rowOrdinalOf_of_lt hordinal]
    rw [cgroupOomIncreased_snd]
    constructor
    · rintro ⟨hx, -⟩
      cases hlatest : latest 0 with
      | none =>
        rw [hlatest] at hx
        cases hx
      | some earlier =>
        rw [hlatest, Option.any_some] at hx
        cases hgrown : earlier.grown (selectedSample identities item) with
        | false =>
          rw [hgrown] at hx
          cases hx
        | true =>
          rw [hgrown] at hx
          exact ⟨0, _, earlier, rfl, hlatest, hgrown, List.mem_singleton.mp hx⟩
    · rintro ⟨entity, sample, earlier, hread, hlatest, hgrown, hx⟩
      cases hread
      have hgrown' : earlier.grown (selectedSample identities item) = true := hgrown
      rw [hlatest, Option.any_some, hgrown', hx]
      exact ⟨List.mem_singleton_self _, rfl⟩

end FindingBuilder

/-- The samples of the selected groups by timestamp, with the ordinals of their rows. -/
def selectedLine (segment : Segment) : List (Nat × Sample) :=
  (selectedOomSamples segment).map fun sample =>
    (sample.2.1, selectedSample (cgroupIdentities segment) (sample.1, sample.2.2))

def selectedSamples (segments : List Segment) : List Sample :=
  segments.flatMap fun segment => (selectedLine segment).map Prod.snd

def selectedFinding (ordinal : Nat) (sample : Sample) : Finding :=
  knownBad (cgroupOomKillField osCgroupMemoryV3) ordinal sample.timestamp

theorem foldl_selected (samples : List (Int × Nat × Option Int)) (latest : Option Sample) :
    samples.foldl
        (fun before sample =>
          (cgroupOomIncreased before (identityAt identities sample.1) sample.1 sample.2.2).1)
        (selectedState latest) =
      selectedState (((samples.map fun sample =>
        selectedSample identities (sample.1, sample.2.2)).getLast?).or latest) := by
  induction samples generalizing latest with
  | nil => rfl
  | cons sample samples ih =>
    rw [List.foldl_cons, List.map_cons, List.getLast?_cons]
    have hfirst : (cgroupOomIncreased (selectedState latest)
        (identityAt identities sample.1) sample.1 sample.2.2).1 =
        selectedState (some (selectedSample identities (sample.1, sample.2.2))) :=
      cgroupOomIncreased_fst _ (sample.1, sample.2.2)
    rw [hfirst, ih]
    cases (samples.map fun sample => selectedSample identities (sample.1, sample.2.2)).getLast? with
    | none => rfl
    | some last => rfl

theorem identities_of_requested (h : builder.requested.contains osCgroupMemoryV3 = true) :
    builder.identities segment = cgroupIdentities segment := if_pos h

theorem selected_keeping :
    Keeping (Pass.cgroup osCgroupMemoryV3)
      (fun builder latest => builder.cgroupOomV3Before = selectedState (latest 0))
      fun segment => onlyZero ((selectedLine segment).map Prod.snd) where
  same := by
    intro builder next latest hsame hlatest
    rw [hsame.selected rfl, hlatest]
  observe := by
    intro builder latest segment hrequested hlatest
    show (observePriorCgroupOom builder segment _ osCgroupMemoryV3).cgroupOomV3Before = _
    show _ = selectedState (((selectedLine segment).map Prod.snd).getLast?.or (latest 0))
    rw [identities_of_requested hrequested]
    unfold observePriorCgroupOom
    split
    · next habsent =>
      have hnone : selectedLine segment = [] := by
        rw [selectedLine, selectedOomSamples, everyRow_of_absent habsent]
        rfl
      rw [hnone, hlatest]
      rfl
    · rw [hlatest, selectedLine, List.map_map]
      exact foldl_selected (selectedOomSamples segment) (latest 0)

theorem line_selectedRule (items : List (Nat × (Int × Option Int))) (entity : Nat) :
    (selectedRule identities).line entity items =
      onlyZero (items.map fun item => (item.1, selectedSample identities item.2)) entity := by
  by_cases h : entity = 0
  · rw [h, onlyZero, if_pos rfl]
    induction items with
    | nil => rfl
    | cons item items ih =>
      have hsample : (selectedRule identities).sampleOf 0 item.2 =
          some (selectedSample identities item.2) := Adjacent.sampleOf_self rfl
      rw [Adjacent.line_cons_of_some hsample, ih, List.map_cons]
  · rw [onlyZero, if_neg h]
    induction items with
    | nil => rfl
    | cons item items ih =>
      have hread : (selectedRule identities).read item.2 =
          some (0, selectedSample identities item.2) := rfl
      have hsample : (selectedRule identities).sampleOf entity item.2 = none :=
        Adjacent.sampleOf_other hread (Ne.symm h)
      rw [Adjacent.line_cons_of_none hsample, ih]

theorem lt_of_mem_selected (h : RowsFit segment) {sample : Int × Nat × Option Int}
    (hsample : sample ∈ selectedOomSamples segment) : sample.2.1 < 2 ^ 32 := by
  rw [selectedOomSamples, List.mem_insertionSort, List.mem_filterMap] at hsample
  obtain ⟨item, hitem, hsome⟩ := hsample
  split at hsome
  · cases hsome
    exact lt_of_mem_everyRow h hitem
  · cases hsome

/-- The kills of the selected groups are found where they have grown since the sample just before,
in a group that is known to be the same. -/
theorem selected_found
    (hrequested : (FindingBuilder.new requested).requested.contains osCgroupMemoryV3 = true)
    (hfit : RowsFit target) :
    x ∈ counterFindings requested priors target osCgroupMemoryV3 ∧
        x.fieldOrdinal = cgroupOomKillField osCgroupMemoryV3 ↔
      ∃ n, FoundIn Sample.grown selectedFinding (selectedSamples priors) (selectedLine target)
        n x := by
  have hpass : Pass.cgroup osCgroupMemoryV3 ∈ counterPasses := by
    simp [counterPasses, cgroupMemoryLayouts]
  have hfound : x ∈ counterFindings requested priors target osCgroupMemoryV3 ∧
      x.fieldOrdinal = cgroupOomKillField osCgroupMemoryV3 ↔
        ∃ entity n, FoundIn Sample.grown selectedFinding
          (priors.flatMap fun segment => onlyZero ((selectedLine segment).map Prod.snd) entity)
          (onlyZero (selectedLine target) entity) n x := by
    refine selected_keeping.found hpass (fun x => x.fieldOrdinal = _)
      (onlyZero (selectedLine target)) Sample.grown selectedFinding hrequested rfl ?_ x
    intro builder latest earlier x hcontains hlatest hearlier
    show x ∈ (ite _ _ _ : FindingBuilder × List Finding).2 ∧ _ ↔ _
    rw [if_pos rfl, identities_of_requested hcontains]
    rw [findSelectedSample_follows.mem_visit hlatest hearlier]
    · refine exists_congr fun entity => exists_congr fun n => ?_
      rw [Adjacent.Finds, line_selectedRule, List.map_map]
      exact Iff.rfl
    · intro item hitem
      obtain ⟨sample, hsample, rfl⟩ := List.mem_map.mp hitem
      exact lt_of_mem_selected hfit hsample
  exact hfound.trans exists_onlyZero

end Kronika.Index
