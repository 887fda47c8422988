/-
What is found for the counters that are read row by row.

The findings of a counter are those of its samples that have grown since the sample just before
them, in the target or in the prior segments.
-/
import Kronika.Index.DetectPasses

namespace Kronika.Index

open Library FindingBuilder

variable {typeId : Nat} {builder : FindingBuilder} {segment target : Segment} {x : Finding}
  {requested : List SeriesKey} {priors : List Segment}

theorem lt_of_mem_everyRow (h : RowsFit segment) {item : Nat × Row}
    (hitem : item ∈ everyRow segment typeId) : item.1 < 2 ^ 32 := by
  have hlt : ∀ (base : Nat) (rows : List Row) (item : Nat × Row),
      item ∈ numbered base rows → item.1 < base + rows.length := by
    intro base rows
    induction rows generalizing base with
    | nil =>
      intro item hitem
      cases hitem
    | cons row rows ih =>
      intro item hitem
      rw [List.length_cons]
      rcases List.mem_cons.mp hitem with rfl | hmem
      · exact Nat.lt_add_of_pos_right (Nat.succ_pos _)
      · have hle := ih (base + 1) item hmem
        omega
  have hrow := hlt 0 (segment.rows typeId) item hitem
  have hfit := h typeId
  omega

theorem view_foldl {α : Type} (rule : Adjacent Row Nat Sample) {observe : α → Row → α}
    (view : α → Nat → Option Sample)
    (hview : ∀ state row, view (observe state row) = rule.keep (view state) row) (state : α)
    (rows : List Row) :
    view (rows.foldl observe state) =
      fun entity => (rule.samples entity rows).getLast?.or (view state entity) := by
  have hfold : view (rows.foldl observe state) = rows.foldl rule.keep (view state) := by
    induction rows generalizing state with
    | nil => rfl
    | cons row rows ih => rw [List.foldl_cons, List.foldl_cons, ih, hview]
  rw [hfold]
  funext entity
  exact Adjacent.foldl_keep _ rows entity

/-- A counter is read from the layout of a pass. -/
structure Counter.ReadBy (counter : Counter) (pass : Pass)
    (view : FindingBuilder → Nat → Option Sample) : Prop where
  typeId : pass.typeId = counter.typeId
  keeping : Keeping pass (fun builder latest => latest = view builder) fun segment entity =>
    counter.rule.samples entity (segment.rows counter.typeId)
  start : ∀ requested, (fun _ => none) = view (FindingBuilder.new requested)
  find : ∀ (builder : FindingBuilder) (target : Segment) (earlier : Nat → List Sample)
    (x : Finding), RowsFit target → (∀ entity, view builder entity = (earlier entity).getLast?) →
    (x ∈ (pass.find builder target).2 ∧ x.fieldOrdinal = counter.field ↔
      ∃ entity n, counter.rule.Finds
        (fun ordinal sample => knownBad counter.field ordinal sample.timestamp) earlier
        (everyRow target counter.typeId) x entity n)

variable {counter : Counter}

namespace Counter

theorem single_none : (fun _ => none) = single none :=
  (Function.update_eq_self 0 (fun _ => (none : Option Sample))).symm

theorem oom_readBy : oom.ReadBy .oom
    fun builder => single (builder.oomBefore.map fun b => .recorded b.1 b.2) where
  typeId := rfl
  keeping :=
    { same := by
        intro builder next latest hsame hlatest
        rw [hlatest, hsame.oom rfl]
      observe := by
        intro builder latest segment _ hlatest
        rw [hlatest]
        show _ = single (Option.map _ (observePriorOom builder segment).oomBefore)
        rw [observePriorOom_eq]
        exact (view_foldl oom.rule
          (fun before : Option (Int × Option Int) => single (before.map _))
          observeOomRow_keep _ _).symm }
  start _ := single_none
  find := by
    intro builder target earlier x hfit hearlier
    exact findOomRow_follows.mem_visit rfl hearlier fun item hitem => lt_of_mem_everyRow hfit hitem

theorem archiver_readBy : archiver.ReadBy .archiver
    fun builder => single (builder.archiverBefore.map fun b => .recorded b.1 (some b.2)) where
  typeId := rfl
  keeping :=
    { same := by
        intro builder next latest hsame hlatest
        rw [hlatest, hsame.archiver rfl]
      observe := by
        intro builder latest segment _ hlatest
        rw [hlatest]
        show _ = single (Option.map _ (observePriorArchiver builder segment).archiverBefore)
        rw [observePriorArchiver_eq]
        exact (view_foldl archiver.rule
          (fun before : Option (Int × Int) => single (before.map _))
          observeArchiverRow_keep _ _).symm }
  start _ := single_none
  find := by
    intro builder target earlier x hfit hearlier
    exact findArchiverRow_follows.mem_visit rfl hearlier fun item hitem =>
      lt_of_mem_everyRow hfit hitem

theorem database_readBy {view : FindingBuilder → Nat → Option Sample}
    (htypeId : counter.typeId = typeId)
    (hsame : ∀ builder next, SameFor typeId builder next → view next = view builder)
    (hview : ∀ builder row,
      view (observeDatabaseRow typeId builder row) = counter.rule.keep (view builder) row)
    (hstart : ∀ requested, (fun _ => none) = view (FindingBuilder.new requested))
    (hfollows : counter.FollowedBy view (findDatabaseRow typeId)) :
    counter.ReadBy (.database typeId) view where
  typeId := htypeId.symm
  keeping :=
    { same := by
        intro builder next latest hnext hlatest
        rw [hlatest, hsame builder next hnext]
      observe := by
        intro builder latest segment _ hlatest
        rw [hlatest, htypeId]
        show _ = view (observePriorDatabaseCounters builder segment typeId)
        rw [observePriorDatabase_eq, view_foldl counter.rule view hview] }
  start := hstart
  find := by
    intro builder target earlier x hfit hearlier
    rw [htypeId]
    exact hfollows.mem_visit rfl hearlier fun item hitem => lt_of_mem_everyRow hfit hitem

theorem deadlocks_readBy (typeId : Nat) :
    (deadlocks typeId).ReadBy (.database typeId) (deadlocksView typeId) := by
  refine database_readBy rfl ?_ observeDatabaseRow_deadlocks (fun _ => rfl)
    findDatabaseRow_deadlocks
  intro builder next hsame
  funext datid
  rw [deadlocksView, deadlocksView, hsame.deadlocks]

theorem checksumFailures_readBy (h : hasChecksum typeId = true) :
    (checksumFailures typeId).ReadBy (.database typeId) (checksumView typeId) := by
  refine database_readBy rfl ?_ (observeDatabaseRow_checksum h) (fun _ => rfl)
    (findDatabaseRow_checksum h)
  intro builder next hsame
  funext datid
  rw [checksumView, checksumView, hsame.checksum]

theorem sessionsView_same {pick : Int × Int → Int} {next : FindingBuilder}
    (hsame : SameFor typeId builder next) :
    sessionsView pick typeId next = sessionsView pick typeId builder := by
  funext datid
  rw [sessionsView, sessionsView, hsame.sessions]

theorem sessionsFatal_readBy (h : hasSessions typeId = true) :
    (sessionsFatal typeId).ReadBy (.database typeId) (sessionsView Prod.fst typeId) :=
  database_readBy rfl (fun _ _ => sessionsView_same) (observeDatabaseRow_sessions h)
    (fun _ => rfl) (findDatabaseRow_fatal h)

theorem sessionsKilled_readBy (h : hasSessions typeId = true) :
    (sessionsKilled typeId).ReadBy (.database typeId) (sessionsView Prod.snd typeId) :=
  database_readBy rfl (fun _ _ => sessionsView_same) (observeDatabaseRow_sessions h)
    (fun _ => rfl) (findDatabaseRow_killed h)

theorem cgroupOom_readBy (h : typeId ≠ osCgroupMemoryV3) :
    (cgroupOom typeId).ReadBy (.cgroup typeId)
      fun builder => cgroupView typeId builder.cgroupOomBefore where
  typeId := rfl
  keeping :=
    { same := by
        intro builder next latest hsame hlatest
        rw [hlatest]
        funext path
        have hid : next.cgroupOomBefore (typeId, path) = builder.cgroupOomBefore (typeId, path) :=
          hsame.cgroup path
        rw [cgroupView, cgroupView, hid]
      observe := by
        intro builder latest segment _ hlatest
        rw [hlatest]
        show _ = cgroupView typeId (observePriorCgroupOom builder segment _ typeId).cgroupOomBefore
        rw [observePriorCgroup_eq h]
        exact (view_foldl (cgroupOom typeId).rule (cgroupView typeId)
          observeCgroupRow_keep _ _).symm }
  start _ := rfl
  find := by
    intro builder target earlier x hfit hearlier
    have hpass : (Pass.cgroup typeId).find builder target = _ := if_neg h
    rw [hpass]
    exact findCgroupRow_follows.mem_visit rfl hearlier fun item hitem =>
      lt_of_mem_everyRow hfit hitem

end Counter

/-- The counters that are read row by row. -/
def rowCounters : List Counter :=
  [.oom, .archiver] ++ databaseLayouts.map .deadlocks ++
    (databaseLayouts.filter hasChecksum).map .checksumFailures ++
    (databaseLayouts.filter hasSessions).map .sessionsFatal ++
    (databaseLayouts.filter hasSessions).map .sessionsKilled ++
    [.cgroupOom osCgroupMemoryV1, .cgroupOom osCgroupMemoryV2]

theorem exists_readBy (h : counter ∈ rowCounters) :
    ∃ pass ∈ counterPasses, ∃ view, counter.ReadBy pass view := by
  have hdatabase : ∀ layout ∈ databaseLayouts, Pass.database layout ∈ counterPasses := by
    intro layout hlayout
    exact List.mem_append_left _ (List.mem_append_right _ (List.mem_map_of_mem hlayout))
  rw [rowCounters, List.mem_append, List.mem_append, List.mem_append, List.mem_append,
    List.mem_append] at h
  rcases h with ((((h | h) | h) | h) | h) | h
  · rcases List.mem_cons.mp h with rfl | h
    · exact ⟨.oom, by simp [counterPasses], _, Counter.oom_readBy⟩
    · rw [List.mem_singleton.mp h]
      exact ⟨.archiver, by simp [counterPasses], _, Counter.archiver_readBy⟩
  · obtain ⟨layout, hlayout, rfl⟩ := List.mem_map.mp h
    exact ⟨_, hdatabase layout hlayout, _, Counter.deadlocks_readBy layout⟩
  · obtain ⟨layout, hlayout, rfl⟩ := List.mem_map.mp h
    rw [List.mem_filter] at hlayout
    exact ⟨_, hdatabase layout hlayout.1, _, Counter.checksumFailures_readBy hlayout.2⟩
  · obtain ⟨layout, hlayout, rfl⟩ := List.mem_map.mp h
    rw [List.mem_filter] at hlayout
    exact ⟨_, hdatabase layout hlayout.1, _, Counter.sessionsFatal_readBy hlayout.2⟩
  · obtain ⟨layout, hlayout, rfl⟩ := List.mem_map.mp h
    rw [List.mem_filter] at hlayout
    exact ⟨_, hdatabase layout hlayout.1, _, Counter.sessionsKilled_readBy hlayout.2⟩
  · rcases List.mem_cons.mp h with rfl | h
    · exact ⟨.cgroup osCgroupMemoryV1, by simp [counterPasses, cgroupMemoryLayouts], _,
        Counter.cgroupOom_readBy (by decide)⟩
    · rw [List.mem_singleton.mp h]
      exact ⟨.cgroup osCgroupMemoryV2, by simp [counterPasses, cgroupMemoryLayouts], _,
        Counter.cgroupOom_readBy (by decide)⟩

namespace Counter

def line (counter : Counter) (segment : Segment) (entity : Nat) : List (Nat × Sample) :=
  counter.rule.line entity (everyRow segment counter.typeId)

def samples (counter : Counter) (segments : List Segment) (entity : Nat) : List Sample :=
  segments.flatMap fun segment => (counter.line segment entity).map Prod.snd

def finding (counter : Counter) (ordinal : Nat) (sample : Sample) : Finding :=
  knownBad counter.field ordinal sample.timestamp

end Counter

theorem map_numbered_snd (base : Nat) (rows : List Row) :
    (numbered base rows).map Prod.snd = rows := by
  induction rows generalizing base with
  | nil => rfl
  | cons row rows ih => rw [numbered, List.map_cons, ih]

theorem map_everyRow (segment : Segment) (typeId : Nat) :
    (everyRow segment typeId).map Prod.snd = segment.rows typeId :=
  map_numbered_snd 0 _

theorem Counter.samples_eq (counter : Counter) (segments : List Segment) (entity : Nat) :
    counter.samples segments entity = segments.flatMap fun segment =>
      counter.rule.samples entity (segment.rows counter.typeId) := by
  refine List.flatMap_congr fun segment _ => ?_
  rw [Counter.line, Adjacent.map_line, map_everyRow]

theorem rowCounter_found (hcounter : counter ∈ rowCounters)
    (hrequested : (FindingBuilder.new requested).requested.contains counter.typeId = true)
    (hfit : RowsFit target) :
    x ∈ counterFindings requested priors target counter.typeId ∧
        x.fieldOrdinal = counter.field ↔
      ∃ entity n, FoundIn Sample.grown counter.finding (counter.samples priors entity)
        (counter.line target entity) n x := by
  obtain ⟨pass, hpass, view, hread⟩ := exists_readBy hcounter
  have hfound : x ∈ counterFindings requested priors target pass.typeId ∧
      x.fieldOrdinal = counter.field ↔
        ∃ entity n, FoundIn Sample.grown counter.finding
          (priors.flatMap fun segment =>
            counter.rule.samples entity (segment.rows counter.typeId))
          (counter.line target entity) n x := by
    refine hread.keeping.found hpass (fun x => x.fieldOrdinal = counter.field)
      (counter.line target) Sample.grown counter.finding (by rw [hread.typeId, hrequested])
      (hread.start requested) ?_ x
    intro builder latest earlier x _ hlatest hearlier
    rw [hlatest] at hearlier
    exact hread.find builder target earlier x hfit hearlier
  rw [hread.typeId] at hfound
  rw [hfound]
  simp only [Counter.samples_eq]

/-! ## Counters of one thing -/

def onlyZero {β : Type} (line : List β) (entity : Nat) : List β := if entity = 0 then line else []

theorem exists_onlyZero {σ : Type} {grown : σ → σ → Bool} {place : Nat → σ → Finding}
    {earlier : Nat → List σ} {line : List (Nat × σ)} :
    (∃ entity n, FoundIn grown place (earlier entity) (onlyZero line entity) n x) ↔
      ∃ n, FoundIn grown place (earlier 0) line n x := by
  constructor
  · rintro ⟨entity, n, h⟩
    by_cases hentity : entity = 0
    · rw [hentity] at h
      exact ⟨n, h⟩
    · obtain ⟨item, hitem, -⟩ := h
      rw [onlyZero, if_neg hentity] at hitem
      cases hitem
  · rintro ⟨n, h⟩
    exact ⟨0, n, h⟩

end Kronika.Index
