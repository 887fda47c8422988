/-
What is found for the host CPUs.

The rows are gathered by timestamp first, and the last aggregate of a timestamp stands for it.
-/
import Kronika.Index.DetectSelected
import Kronika.Library.LatestOf

namespace Kronika.Index

open Library FindingBuilder

variable {builder : FindingBuilder} {segment target : Segment} {x : Finding}
  {requested : List SeriesKey} {priors : List Segment} {item : Nat × Row}
  {snapshots : List (Int × CpuSnapshot)}

/-! ## The aggregates of a section -/

def cpuSample (row : Row) : Option CpuRaw :=
  if row.get "scope" = some (.u32 0) ∧ row.get "cpu_id" = some (.i32 (-1)) then cpuRaw row
  else none

def cpuLine (segment : Segment) : List (Nat × CpuRaw) :=
  (everyRow segment osCpu).filterMap fun item =>
    (cpuSample item.2).map fun raw => (item.1, raw)

def cpuSamples (segments : List Segment) : List CpuRaw :=
  segments.flatMap fun segment => (cpuLine segment).map Prod.snd

theorem cpuRaw_timestamp {row : Row} {raw : CpuRaw} (h : cpuRaw row = some raw) :
    row.get "ts" = some (.ts raw.timestamp) := by
  unfold cpuRaw at h
  split at h
  · next timestamp hts =>
    obtain ⟨counters, -, hraw⟩ := Option.map_eq_some_iff.mp h
    rw [← hraw, hts]
  · cases h

def aggregateAt (snapshots : List (Int × CpuSnapshot)) (timestamp : Int) :
    Option (Nat × CpuRaw) :=
  (snapshots.lookup timestamp).bind CpuSnapshot.aggregate

theorem aggregateAt_insert (h : Rising snapshots) {timestamp : Int}
    {update : Option CpuSnapshot → CpuSnapshot} (other : Int) :
    aggregateAt (insertEntry timestamp update snapshots) other =
      if other = timestamp then (update (snapshots.lookup timestamp)).aggregate
      else aggregateAt snapshots other := by
  rw [aggregateAt, lookup_insertEntry h]
  split
  · rfl
  · rfl

namespace FindingBuilder

theorem joinSnapshot_aggregate (entry : Option CpuSnapshot) (hordinal : item.1 < 2 ^ 32)
    (h : item.2.get "cpu_id" = some (.i32 (-1))) :
    (joinSnapshot item entry).aggregate =
      ((cpuRaw item.2).map fun raw => (item.1, raw)).or (entry.bind CpuSnapshot.aggregate) := by
  have hdefault : (entry.getD { aggregate := none, online := 0 }).aggregate =
      entry.bind CpuSnapshot.aggregate := by
    cases entry with
    | none => rfl
    | some snapshot => rfl
  rw [joinSnapshot, h, rowOrdinalOf_of_lt hordinal]
  cases cpuRaw item.2 with
  | none => exact hdefault
  | some raw => rfl

theorem joinSnapshot_other (entry : Option CpuSnapshot)
    (h : item.2.get "cpu_id" ≠ some (.i32 (-1))) :
    (joinSnapshot item entry).aggregate = entry.bind CpuSnapshot.aggregate := by
  have hdefault : (entry.getD { aggregate := none, online := 0 }).aggregate =
      entry.bind CpuSnapshot.aggregate := by
    cases entry with
    | none => rfl
    | some snapshot => rfl
  unfold joinSnapshot
  split
  · next cpuId hcpu =>
    have hne : cpuId ≠ -1 := fun he => h (by rw [hcpu, he])
    rw [if_neg hne]
    split
    · exact hdefault
    · exact hdefault
  · exact hdefault

theorem cpuSnapshotRow_spec (h : Rising snapshots) (hordinal : item.1 < 2 ^ 32) :
    Rising (cpuSnapshotRow snapshots item) ∧
      ∀ timestamp, aggregateAt (cpuSnapshotRow snapshots item) timestamp =
        (((cpuSample item.2).filter (·.timestamp = timestamp)).map fun raw =>
          (item.1, raw)).or (aggregateAt snapshots timestamp) := by
  unfold cpuSnapshotRow
  split
  · next found hts =>
    by_cases hscope : item.2.get "scope" = some (.u32 0)
    · rw [if_pos hscope]
      refine ⟨rising_insertEntry h, fun timestamp => ?_⟩
      rw [aggregateAt_insert h]
      by_cases haggregate : item.2.get "cpu_id" = some (.i32 (-1))
      · have hsample : cpuSample item.2 = cpuRaw item.2 := if_pos ⟨hscope, haggregate⟩
        rw [hsample, joinSnapshot_aggregate _ hordinal haggregate]
        cases hraw : cpuRaw item.2 with
        | none =>
          split
          · next heq => rw [heq]; rfl
          · rfl
        | some raw =>
          have hsame : found = raw.timestamp := by
            have htimestamp := cpuRaw_timestamp hraw
            rw [hts] at htimestamp
            cases htimestamp
            rfl
          by_cases heq : timestamp = found
          · rw [if_pos heq, Option.filter_some, if_pos (decide_eq_true (by rw [heq, hsame]))]
            rfl
          · rw [if_neg heq, Option.filter_some, if_neg fun he => heq ?_]
            · rfl
            · rw [hsame]
              exact (of_decide_eq_true he).symm
      · have hsample : cpuSample item.2 = none := if_neg fun hboth => haggregate hboth.2
        rw [hsample, joinSnapshot_other _ haggregate]
        split
        · next heq => rw [heq]; rfl
        · rfl
    · have hsample : cpuSample item.2 = none := if_neg fun hboth => hscope hboth.1
      rw [if_neg hscope, hsample]
      exact ⟨h, fun _ => rfl⟩
  · next hnot =>
    have hsample : cpuSample item.2 = none := by
      unfold cpuSample
      split
      · cases hraw : cpuRaw item.2 with
        | none => rfl
        | some raw => exact absurd (cpuRaw_timestamp hraw) (hnot _)
      · rfl
    rw [hsample]
    exact ⟨h, fun _ => rfl⟩

theorem foldl_cpuSnapshotRow {items : List (Nat × Row)} (hitems : ∀ item ∈ items, item.1 < 2 ^ 32)
    (h : Rising snapshots) :
    Rising (items.foldl cpuSnapshotRow snapshots) ∧
      ∀ timestamp, aggregateAt (items.foldl cpuSnapshotRow snapshots) timestamp =
        (((items.filterMap fun item => (cpuSample item.2).map fun raw => (item.1, raw)).filter
          fun found => found.2.timestamp = timestamp).getLast?).or
            (aggregateAt snapshots timestamp) := by
  induction items generalizing snapshots with
  | nil => exact ⟨h, fun _ => rfl⟩
  | cons item items ih =>
    obtain ⟨hrising, hat⟩ := cpuSnapshotRow_spec h (hitems item List.mem_cons_self)
    obtain ⟨hrest, hall⟩ := ih (fun other hother => hitems other (List.mem_cons_of_mem item hother))
      hrising
    refine ⟨hrest, fun timestamp => ?_⟩
    rw [List.foldl_cons, hall, hat]
    cases hsample : cpuSample item.2 with
    | none =>
      rw [List.filterMap_cons_none (by rw [hsample]; rfl)]
      rfl
    | some raw =>
      rw [List.filterMap_cons_some (b := (item.1, raw)) (by rw [hsample]; rfl)]
      by_cases heq : raw.timestamp = timestamp
      · rw [List.filter_cons_of_pos (by exact decide_eq_true heq), List.getLast?_cons,
          Option.filter_some, if_pos (decide_eq_true heq)]
        cases List.getLast? _ with
        | none => rfl
        | some last => rfl
      · rw [List.filter_cons_of_neg (by exact fun he => heq (of_decide_eq_true he)),
          Option.filter_some, if_neg fun he => heq (of_decide_eq_true he)]
        rfl

theorem cpuItems_latestOf (hfit : RowsFit segment) :
    LatestOf (fun found : Nat × CpuRaw => found.2.timestamp) (cpuLine segment)
      (Pass.cpuItems segment) := by
  obtain ⟨hrising, hat⟩ : Rising (cpuSnapshots segment) ∧ ∀ timestamp,
      aggregateAt (cpuSnapshots segment) timestamp =
        (((cpuLine segment).filter fun found => found.2.timestamp = timestamp).getLast?).or none :=
    foldl_cpuSnapshotRow (fun item hitem => lt_of_mem_everyRow hfit hitem) List.Pairwise.nil
  have hown : ∀ entry ∈ cpuSnapshots segment, ∀ found, entry.2.aggregate = some found →
      aggregateAt (cpuSnapshots segment) entry.1 = some found ∧
        found.2.timestamp = entry.1 := by
    intro entry hentry found hfound
    have hlookup : (cpuSnapshots segment).lookup entry.1 = some entry.2 :=
      (mem_iff_lookup hrising).mp hentry
    have haggregate : aggregateAt (cpuSnapshots segment) entry.1 = some found := by
      rw [aggregateAt, hlookup]
      exact hfound
    refine ⟨haggregate, ?_⟩
    rw [hat, Option.or_none] at haggregate
    exact of_decide_eq_true (List.mem_filter.mp (List.mem_of_getLast? haggregate)).2
  constructor
  · refine List.pairwise_filterMap.mpr ?_
    refine List.Pairwise.imp_of_mem ?_ hrising
    intro a b ha hb hab found hfound other hother
    show found.2.timestamp < other.2.timestamp
    rw [(hown a ha found hfound).2, (hown b hb other hother).2]
    exact hab
  · intro found
    rw [← Option.or_none (o := List.getLast? _), ← hat]
    constructor
    · intro hmem
      obtain ⟨entry, hentry, hfound⟩ := List.mem_filterMap.mp hmem
      obtain ⟨haggregate, htimestamp⟩ := hown entry hentry found hfound
      rw [htimestamp]
      exact haggregate
    · intro haggregate
      obtain ⟨snapshot, hlookup, hfound⟩ := Option.bind_eq_some_iff.mp haggregate
      exact List.mem_filterMap.mpr ⟨_, (mem_iff_lookup hrising).mpr hlookup, hfound⟩

theorem observeCpuRow_eq (before : Option CpuRaw) (row : Row) :
    observeCpuRow before row = (cpuSample row).or before := by
  rw [observeCpuRow, cpuSample]
  split
  · cases cpuRaw row with
    | none => rfl
    | some raw => rfl
  · rfl

theorem foldl_observeCpuRow (before : Option CpuRaw) (rows : List Row) :
    rows.foldl observeCpuRow before = ((rows.filterMap cpuSample).getLast?).or before := by
  induction rows generalizing before with
  | nil => rfl
  | cons row rows ih =>
    rw [List.foldl_cons, ih, observeCpuRow_eq]
    cases hsample : cpuSample row with
    | none =>
      rw [List.filterMap_cons_none hsample]
      rfl
    | some raw =>
      rw [List.filterMap_cons_some hsample, List.getLast?_cons]
      cases (rows.filterMap cpuSample).getLast? with
      | none => rfl
      | some last => rfl

end FindingBuilder

/-! ## What is found -/

def cpuRule : Adjacent CpuRaw Nat CpuRaw where
  read raw := some (0, raw)
  grown := cpuBusyAtLeast80

def cpuFinding (ordinal : Nat) (raw : CpuRaw) : Finding :=
  knownBad cpuIdleField ordinal raw.timestamp

theorem findCpuSample_follows :
    cpuRule.Follows (fun before latest => before = latest 0) findCpuSample cpuFinding
      (fun x => x.fieldOrdinal = cpuIdleField) (fun _ => True) where
  keeps := by
    intro before latest ordinal raw _ _
    rfl
  finds := by
    intro before latest ordinal raw x _ hbefore
    rw [findCpuSample, hbefore]
    constructor
    · rintro ⟨hx, -⟩
      cases hlatest : latest 0 with
      | none =>
        rw [hlatest] at hx
        cases hx
      | some earlier =>
        rw [hlatest] at hx
        split at hx
        · next hbusy => exact ⟨0, raw, earlier, rfl, hlatest, hbusy, List.mem_singleton.mp hx⟩
        · cases hx
    · rintro ⟨entity, sample, earlier, hread, hlatest, hbusy, hx⟩
      cases hread
      have hbusy' : cpuBusyAtLeast80 earlier raw = true := hbusy
      rw [hlatest, Option.any_some, if_pos hbusy', hx]
      exact ⟨List.mem_singleton_self _, rfl⟩

theorem line_cpuRule (items : List (Nat × CpuRaw)) (entity : Nat) :
    cpuRule.line entity items = onlyZero items entity := by
  by_cases h : entity = 0
  · rw [h, onlyZero, if_pos rfl]
    induction items with
    | nil => rfl
    | cons item items ih =>
      have hsample : cpuRule.sampleOf 0 item.2 = some item.2 := Adjacent.sampleOf_self rfl
      rw [Adjacent.line_cons_of_some hsample, ih]
  · rw [onlyZero, if_neg h]
    induction items with
    | nil => rfl
    | cons item items ih =>
      have hread : cpuRule.read item.2 = some (0, item.2) := rfl
      rw [Adjacent.line_cons_of_none (Adjacent.sampleOf_other hread (Ne.symm h)), ih]

theorem map_cpuLine (segment : Segment) :
    (cpuLine segment).map Prod.snd = (segment.rows osCpu).filterMap cpuSample := by
  rw [cpuLine, map_snd_filterMap, map_everyRow]

theorem cpu_keeping :
    Keeping Pass.cpu (fun builder latest => builder.cpuBefore = latest 0)
      fun segment => onlyZero ((cpuLine segment).map Prod.snd) where
  same := by
    intro builder next latest hsame hlatest
    rw [hsame.cpu rfl, hlatest]
  observe := by
    intro builder latest segment _ hlatest
    show (observePriorCpu builder segment).cpuBefore =
      (((cpuLine segment).map Prod.snd).getLast?).or (latest 0)
    rw [observePriorCpu_eq, map_cpuLine, ← hlatest]
    exact foldl_observeCpuRow builder.cpuBefore (segment.rows osCpu)

theorem cpu_found_items
    (hrequested : (FindingBuilder.new requested).requested.contains osCpu = true) :
    x ∈ counterFindings requested priors target osCpu ∧ x.fieldOrdinal = cpuIdleField ↔
      ∃ n, FoundIn cpuBusyAtLeast80 cpuFinding (cpuSamples priors) (Pass.cpuItems target) n x := by
  have hpass : Pass.cpu ∈ counterPasses := by simp [counterPasses]
  have hfound : x ∈ counterFindings requested priors target osCpu ∧
      x.fieldOrdinal = cpuIdleField ↔
        ∃ entity n, FoundIn cpuBusyAtLeast80 cpuFinding
          (priors.flatMap fun segment => onlyZero ((cpuLine segment).map Prod.snd) entity)
          (onlyZero (Pass.cpuItems target) entity) n x := by
    refine cpu_keeping.found hpass (fun x => x.fieldOrdinal = cpuIdleField)
      (onlyZero (Pass.cpuItems target)) cpuBusyAtLeast80 cpuFinding hrequested rfl ?_ x
    intro builder latest earlier x _ hlatest hearlier
    refine (findCpuSample_follows.mem_visit hlatest hearlier fun _ _ => trivial).trans
      (exists_congr fun entity => exists_congr fun n => ?_)
    rw [Adjacent.Finds, line_cpuRule]
    exact Iff.rfl
  exact hfound.trans exists_onlyZero

/-- A sample of the host CPUs, the last of its timestamp, is busy since the last one that is
earlier. -/
def CpuGrownAt (samples : List CpuRaw) (n : Nat) : Prop :=
  ∃ sample before, samples[n]? = some sample ∧
    (∀ next, samples[n + 1]? = some next → next.timestamp ≠ sample.timestamp) ∧
    (samples.filter fun other => other.timestamp < sample.timestamp).getLast? = some before ∧
    cpuBusyAtLeast80 before sample = true

theorem later_of_busy {before current : CpuRaw} (h : cpuBusyAtLeast80 before current = true) :
    before.timestamp < current.timestamp := by
  unfold cpuBusyAtLeast80 at h
  split at h
  · cases h
  · next hlater => exact Int.not_le.mp hlater

theorem filter_earlier {samples : List CpuRaw} {timestamp : Int}
    (h : ∀ sample ∈ samples, sample.timestamp < timestamp) :
    samples.filter (fun other => other.timestamp < timestamp) = samples :=
  List.filter_eq_self.mpr fun sample hsample => decide_eq_true (h sample hsample)

theorem le_last {samples : List CpuRaw}
    (h : samples.Pairwise fun a b => a.timestamp ≤ b.timestamp) {last sample : CpuRaw}
    (hlast : samples.getLast? = some last) (hsample : sample ∈ samples) :
    sample.timestamp ≤ last.timestamp := by
  obtain ⟨front, rfl⟩ := List.getLast?_eq_some_iff.mp hlast
  rcases List.mem_append.mp hsample with hmem | hmem
  · exact (List.pairwise_append.mp h).2.2 sample hmem last (List.mem_singleton_self last)
  · rw [List.mem_singleton.mp hmem]

theorem foundIn_items_iff {earlier : List CpuRaw} {all items : List (Nat × CpuRaw)}
    (hitems : LatestOf (fun found : Nat × CpuRaw => found.2.timestamp) all items)
    (hordered : (earlier ++ all.map Prod.snd).Pairwise fun a b => a.timestamp ≤ b.timestamp) :
    (∃ n, FoundIn cpuBusyAtLeast80 cpuFinding earlier items n x) ↔
      ∃ n item, all[n]? = some item ∧
        CpuGrownAt (earlier ++ all.map Prod.snd) (earlier.length + n) ∧
        (∀ before ∈ earlier, before.timestamp ≠ item.2.timestamp) ∧
        x = cpuFinding item.1 item.2 := by
  have hline : all.Pairwise fun a b => a.2.timestamp ≤ b.2.timestamp := by
    have hmapped := (List.pairwise_append.mp hordered).2.1
    rw [List.pairwise_map] at hmapped
    exact hmapped
  have hearlier : ∀ item ∈ all, ∀ before ∈ earlier, before.timestamp ≤ item.2.timestamp :=
    fun item hitem before hbefore =>
      (List.pairwise_append.mp hordered).2.2 before hbefore item.2 (List.mem_map_of_mem hitem)
  have hget : ∀ n, (earlier ++ all.map Prod.snd)[earlier.length + n]? =
      (all[n]?).map Prod.snd := by
    intro n
    rw [List.getElem?_append_right (Nat.le_add_right _ n), Nat.add_sub_cancel_left,
      List.getElem?_map]
  -- With no earlier sample of the timestamp, the predecessors of both sides are the same.
  have hlast : ∀ item ∈ all, (∀ before ∈ earlier, before.timestamp ≠ item.2.timestamp) →
      ((earlier ++ all.map Prod.snd).filter fun other =>
        other.timestamp < item.2.timestamp).getLast? =
      (((all.filter fun other => other.2.timestamp < item.2.timestamp).getLast?).map Prod.snd).or
        earlier.getLast? := by
    intro item hitem hne
    have hall : ∀ before ∈ earlier, before.timestamp < item.2.timestamp := fun before hbefore =>
      lt_of_le_of_ne (hearlier item hitem before hbefore) (hne before hbefore)
    rw [List.filter_append, filter_earlier hall, List.getLast?_append, List.filter_map,
      List.getLast?_map]
    rfl
  constructor
  · rintro ⟨n, item, hitem, hgrown, hx⟩
    obtain ⟨hlt, rfl⟩ := List.getElem?_eq_some_iff.mp hitem
    have hsplit : items = items.take n ++ items[n] :: items.drop (n + 1) := by
      rw [← List.drop_eq_getElem_cons hlt, List.take_append_drop]
    obtain ⟨m, hm, hnext⟩ := (hitems.mem_iff_next hline).mp (List.getElem_mem hlt)
    have hmem : items[n] ∈ all := List.mem_of_getElem? hm
    have hlength : earlier.length + n = (earlier ++ (items.take n).map Prod.snd).length := by
      rw [List.length_append, List.length_map, List.length_take, min_eq_left (Nat.le_of_lt hlt)]
    have hmap : earlier ++ items.map Prod.snd =
        (earlier ++ (items.take n).map Prod.snd) ++
          items[n].2 :: (items.drop (n + 1)).map Prod.snd := by
      conv_lhs => rw [hsplit]
      rw [List.map_append, List.map_cons, List.append_assoc]
    rw [hmap, hlength, Adjacent.grownAt_middle] at hgrown
    obtain ⟨before, hbefore, hbusy⟩ := hgrown
    rw [List.getLast?_append, List.getLast?_map, hitems.getLast?_before hline hsplit] at hbefore
    have hlater := later_of_busy hbusy
    have hne : ∀ other ∈ earlier, other.timestamp ≠ items[n].2.timestamp := by
      intro other hother
      cases hfound : (all.filter fun other =>
          other.2.timestamp < items[n].2.timestamp).getLast? with
      | none =>
        rw [hfound] at hbefore
        have hle := le_last (List.pairwise_append.mp hordered).1 hbefore hother
        omega
      | some found =>
        rw [hfound] at hbefore
        cases hbefore
        have hin := List.mem_filter.mp (List.mem_of_getLast? hfound)
        have hle := hearlier found hin.1 other hother
        omega
    refine ⟨m, items[n], hm, ⟨items[n].2, before, ?_, ?_, ?_, hbusy⟩, hne, hx⟩
    · rw [hget, hm]
      rfl
    · intro next hnextget
      rw [Nat.add_assoc, hget] at hnextget
      obtain ⟨found, hfound, rfl⟩ := Option.map_eq_some_iff.mp hnextget
      exact hnext found hfound
    · rw [hlast _ hmem hne, hbefore]
  · rintro ⟨m, item, hm, ⟨sample, before, hsample, hnext, hbefore, hbusy⟩, hne, hx⟩
    rw [hget, hm] at hsample
    cases hsample
    have hmem : item ∈ all := List.mem_of_getElem? hm
    have hin : item ∈ items := by
      rw [hitems.mem_iff_next hline]
      refine ⟨m, hm, fun next hfound => hnext next.2 ?_⟩
      rw [Nat.add_assoc, hget, hfound]
      rfl
    obtain ⟨front, back, hsplit⟩ := List.append_of_mem hin
    have hitem : items[front.length]? = some item := by
      rw [hsplit, List.getElem?_append_right (Nat.le_refl _), Nat.sub_self]
      rfl
    have hmap : earlier ++ items.map Prod.snd =
        (earlier ++ front.map Prod.snd) ++ item.2 :: back.map Prod.snd := by
      rw [hsplit, List.map_append, List.map_cons, List.append_assoc]
    have hlength : earlier.length + front.length = (earlier ++ front.map Prod.snd).length := by
      rw [List.length_append, List.length_map]
    refine ⟨front.length, item, hitem, ?_, hx⟩
    rw [hmap, hlength, Adjacent.grownAt_middle]
    refine ⟨before, ?_, hbusy⟩
    rw [List.getLast?_append, List.getLast?_map, hitems.getLast?_before hline hsplit,
      ← hlast item hmem hne, hbefore]

end Kronika.Index
