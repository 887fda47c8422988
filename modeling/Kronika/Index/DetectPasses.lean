/-
The passes of a builder over a segment.

Each layout has its own pass over the prior segments and its own pass over the target.  A pass moves
on the samples of its layout alone and adds to the hits of its layout alone, so what is found under
a layout is what its pass finds behind its own passes over the prior segments.
-/
import Kronika.Index.DetectRules

namespace Kronika.Index

open Library

variable {typeId other : Nat} {builder next last : FindingBuilder} {segment : Segment}

/-- Two builders keep the same samples of a layout. -/
structure SameFor (typeId : Nat) (builder next : FindingBuilder) : Prop where
  requested : next.requested = builder.requested
  cpu : typeId = osCpu → next.cpuBefore = builder.cpuBefore
  oom : typeId = osVmstat → next.oomBefore = builder.oomBefore
  archiver : typeId = pgStatArchiver → next.archiverBefore = builder.archiverBefore
  deadlocks : ∀ id, next.deadlocksBefore (typeId, id) = builder.deadlocksBefore (typeId, id)
  checksum : ∀ id,
    next.checksumFailuresBefore (typeId, id) = builder.checksumFailuresBefore (typeId, id)
  sessions : ∀ id, next.sessionsBefore (typeId, id) = builder.sessionsBefore (typeId, id)
  cgroup : ∀ id, next.cgroupOomBefore (typeId, id) = builder.cgroupOomBefore (typeId, id)
  selected : typeId = osCgroupMemoryV3 → next.cgroupOomV3Before = builder.cgroupOomV3Before

namespace SameFor

theorem refl (typeId : Nat) (builder : FindingBuilder) : SameFor typeId builder builder :=
  ⟨rfl, fun _ => rfl, fun _ => rfl, fun _ => rfl, fun _ => rfl, fun _ => rfl, fun _ => rfl,
    fun _ => rfl, fun _ => rfl⟩

theorem trans (h : SameFor typeId builder next) (h' : SameFor typeId next last) :
    SameFor typeId builder last where
  requested := h'.requested.trans h.requested
  cpu ht := (h'.cpu ht).trans (h.cpu ht)
  oom ht := (h'.oom ht).trans (h.oom ht)
  archiver ht := (h'.archiver ht).trans (h.archiver ht)
  deadlocks id := (h'.deadlocks id).trans (h.deadlocks id)
  checksum id := (h'.checksum id).trans (h.checksum id)
  sessions id := (h'.sessions id).trans (h.sessions id)
  cgroup id := (h'.cgroup id).trans (h.cgroup id)
  selected ht := (h'.selected ht).trans (h.selected ht)

end SameFor

/-- The samples of no layout but one have moved on. -/
structure Moves (typeId : Nat) (builder next : FindingBuilder) : Prop where
  requested : next.requested = builder.requested
  other : ∀ other, other ≠ typeId → SameFor other builder next

namespace Moves

theorem refl (typeId : Nat) (builder : FindingBuilder) : Moves typeId builder builder :=
  ⟨rfl, fun other _ => .refl other builder⟩

theorem trans (h : Moves typeId builder next) (h' : Moves typeId next last) :
    Moves typeId builder last where
  requested := h'.requested.trans h.requested
  other other hother := (h.other other hother).trans (h'.other other hother)

end Moves

/-- The passes over the prior segments and over the target that belong to a layout. -/
structure Pass where
  typeId : Nat
  observe : FindingBuilder → Segment → FindingBuilder
  find : FindingBuilder → Segment → FindingBuilder × List Finding

/-- A pass leaves the samples of other layouts alone. -/
structure Pass.Framed (pass : Pass) : Prop where
  observe : ∀ builder segment, Moves pass.typeId builder (pass.observe builder segment)
  find : ∀ builder segment, Moves pass.typeId builder (pass.find builder segment).1

/-- One layout after the other is observed, where it is asked for. -/
def observeAll (segment : Segment) (builder : FindingBuilder) (passes : List Pass) :
    FindingBuilder :=
  passes.foldl
    (fun builder pass =>
      if builder.requested.contains pass.typeId then pass.observe builder segment else builder)
    builder

/-- One layout after the other is searched, where it is asked for. -/
def findAll (segment : Segment) (found : FindingBuilder × Hits) (passes : List Pass) :
    FindingBuilder × Hits :=
  passes.foldl
    (fun found pass =>
      if found.1.requested.contains pass.typeId then
        ((pass.find found.1 segment).1,
          found.2.extend pass.typeId (pass.find found.1 segment).2)
      else found)
    found

variable {passes front back : List Pass} {pass : Pass}

theorem observeAll_requested (hframed : ∀ pass ∈ passes, pass.Framed) :
    (observeAll segment builder passes).requested = builder.requested := by
  induction passes generalizing builder with
  | nil => rfl
  | cons pass passes ih =>
    obtain ⟨hpass, hpasses⟩ := List.forall_mem_cons.mp hframed
    rw [observeAll, List.foldl_cons, ← observeAll, ih hpasses]
    split
    · exact (hpass.observe builder segment).requested
    · rfl

theorem observeAll_other (hframed : ∀ pass ∈ passes, pass.Framed)
    (hother : ∀ pass ∈ passes, typeId ≠ pass.typeId) :
    SameFor typeId builder (observeAll segment builder passes) := by
  induction passes generalizing builder with
  | nil => exact .refl typeId builder
  | cons pass passes ih =>
    obtain ⟨hpass, hpasses⟩ := List.forall_mem_cons.mp hframed
    obtain ⟨hne, hothers⟩ := List.forall_mem_cons.mp hother
    rw [observeAll, List.foldl_cons]
    refine SameFor.trans ?_ (ih hpasses hothers)
    split
    · exact (hpass.observe builder segment).other typeId hne
    · exact .refl typeId builder

/-- The passes in front of one and behind it belong to other layouts. -/
theorem front_back (hnodup : ((front ++ pass :: back).map Pass.typeId).Nodup) :
    (∀ other ∈ front, pass.typeId ≠ other.typeId) ∧
      ∀ other ∈ back, pass.typeId ≠ other.typeId := by
  rw [List.map_append, List.nodup_append] at hnodup
  constructor
  · intro other hother he
    exact hnodup.2.2 _ (List.mem_map_of_mem hother) _ List.mem_cons_self he.symm
  · intro other hother he
    exact (List.nodup_cons.mp hnodup.2.1).1 (he ▸ List.mem_map_of_mem hother)

theorem observeAll_mem (hframed : ∀ other ∈ passes, other.Framed)
    (hnodup : (passes.map Pass.typeId).Nodup) (hpass : pass ∈ passes)
    (hrequested : builder.requested.contains pass.typeId = true) :
    ∃ before, SameFor pass.typeId builder before ∧
      SameFor pass.typeId (pass.observe before segment) (observeAll segment builder passes) := by
  obtain ⟨front, back, rfl⟩ := List.append_of_mem hpass
  obtain ⟨hfront, hback⟩ := front_back hnodup
  rw [List.forall_mem_append, List.forall_mem_cons] at hframed
  obtain ⟨hfronts, -, hbacks⟩ := hframed
  refine ⟨observeAll segment builder front, observeAll_other hfronts hfront, ?_⟩
  have hsplit : observeAll segment builder (front ++ pass :: back) =
      observeAll segment (pass.observe (observeAll segment builder front) segment) back := by
    rw [observeAll, List.foldl_append, List.foldl_cons, ← observeAll, ← observeAll,
      observeAll_requested hfronts, if_pos hrequested]
  rw [hsplit]
  exact observeAll_other hbacks hback

variable {hits : Hits}

theorem findAll_requested (hframed : ∀ pass ∈ passes, pass.Framed) :
    (findAll segment (builder, hits) passes).1.requested = builder.requested := by
  induction passes generalizing builder hits with
  | nil => rfl
  | cons pass passes ih =>
    obtain ⟨hpass, hpasses⟩ := List.forall_mem_cons.mp hframed
    rw [findAll, List.foldl_cons, ← findAll]
    split
    · rw [ih hpasses]
      exact (hpass.find builder segment).requested
    · exact ih hpasses

theorem findAll_other (hframed : ∀ pass ∈ passes, pass.Framed)
    (hother : ∀ pass ∈ passes, typeId ≠ pass.typeId) :
    SameFor typeId builder (findAll segment (builder, hits) passes).1 ∧
      (findAll segment (builder, hits) passes).2 typeId = hits typeId := by
  induction passes generalizing builder hits with
  | nil => exact ⟨.refl typeId builder, rfl⟩
  | cons pass passes ih =>
    obtain ⟨hpass, hpasses⟩ := List.forall_mem_cons.mp hframed
    obtain ⟨hne, hothers⟩ := List.forall_mem_cons.mp hother
    rw [findAll, List.foldl_cons, ← findAll]
    split
    · refine ⟨((hpass.find builder segment).other typeId hne).trans (ih hpasses hothers).1, ?_⟩
      rw [(ih hpasses hothers).2, Hits.extend, Function.update_of_ne hne]
    · exact ih hpasses hothers

theorem findAll_mem (hframed : ∀ other ∈ passes, other.Framed)
    (hnodup : (passes.map Pass.typeId).Nodup) (hpass : pass ∈ passes)
    (hrequested : builder.requested.contains pass.typeId = true) :
    ∃ before, SameFor pass.typeId builder before ∧
      (findAll segment (builder, hits) passes).2 pass.typeId =
        hits pass.typeId ++ (pass.find before segment).2 := by
  obtain ⟨front, back, rfl⟩ := List.append_of_mem hpass
  obtain ⟨hfront, hback⟩ := front_back hnodup
  rw [List.forall_mem_append, List.forall_mem_cons] at hframed
  obtain ⟨hfronts, -, hbacks⟩ := hframed
  have hbefore : SameFor pass.typeId builder (findAll segment (builder, hits) front).1 ∧
      (findAll segment (builder, hits) front).2 pass.typeId = hits pass.typeId :=
    findAll_other hfronts hfront
  refine ⟨(findAll segment (builder, hits) front).1, hbefore.1, ?_⟩
  rw [findAll, List.foldl_append, List.foldl_cons, ← findAll, ← findAll,
    findAll_requested hfronts, if_pos hrequested, (findAll_other hbacks hback).2, Hits.extend,
    Function.update_self, hbefore.2]

/-! ## The passes -/

theorem rows_of_absent (h : (segment.rowsOf typeId).isNone = true) : segment.rows typeId = [] := by
  rw [Option.isNone_iff_eq_none, Query.Segment.rowsOf, Option.map_eq_none_iff] at h
  rw [Query.Segment.rows, h]
  rfl

theorem everyRow_of_absent (h : (segment.rowsOf typeId).isNone = true) :
    everyRow segment typeId = [] := by
  rw [everyRow, rows_of_absent h]
  rfl

namespace FindingBuilder

theorem observePriorCpu_eq : builder.observePriorCpu segment =
    { builder with cpuBefore := (segment.rows osCpu).foldl observeCpuRow builder.cpuBefore } := by
  unfold observePriorCpu
  split
  · next habsent => rw [rows_of_absent habsent]; rfl
  · rfl

theorem observePriorOom_eq : builder.observePriorOom segment =
    { builder with
      oomBefore := (segment.rows osVmstat).foldl observeOomRow builder.oomBefore } := by
  unfold observePriorOom
  split
  · next habsent => rw [rows_of_absent habsent]; rfl
  · rfl

theorem observePriorArchiver_eq : builder.observePriorArchiver segment =
    { builder with
      archiverBefore :=
        (segment.rows pgStatArchiver).foldl observeArchiverRow builder.archiverBefore } := by
  unfold observePriorArchiver
  split
  · next habsent => rw [rows_of_absent habsent]; rfl
  · rfl

theorem observePriorDatabase_eq : builder.observePriorDatabaseCounters segment typeId =
    (segment.rows typeId).foldl (observeDatabaseRow typeId) builder := by
  unfold observePriorDatabaseCounters
  split
  · next habsent => rw [rows_of_absent habsent]; rfl
  · rfl

theorem observePriorCgroup_eq {found : List (Int × Option Nat)} (h : typeId ≠ osCgroupMemoryV3) :
    builder.observePriorCgroupOom segment found typeId =
      { builder with
        cgroupOomBefore :=
          (segment.rows typeId).foldl (observeCgroupRow typeId) builder.cgroupOomBefore } := by
  rw [observePriorCgroupOom]
  split
  · next habsent => rw [rows_of_absent habsent]; rfl
  · rfl

end FindingBuilder

theorem Hits.extend_nil (hits : Hits) (typeId : Nat) : hits.extend typeId [] = hits := by
  rw [Hits.extend, List.append_nil, Function.update_eq_self]

namespace Pass

open FindingBuilder

def cpuItems (segment : Segment) : List (Nat × CpuRaw) :=
  (cpuSnapshots segment).filterMap fun entry => entry.2.aggregate

def cpu : Pass where
  typeId := osCpu
  observe := observePriorCpu
  find builder segment :=
    let found := visit findCpuSample builder.cpuBefore (cpuItems segment)
    ({ builder with cpuBefore := found.1 }, found.2)

def oom : Pass where
  typeId := osVmstat
  observe := observePriorOom
  find builder segment :=
    let found := visit findOomRow builder.oomBefore (everyRow segment osVmstat)
    ({ builder with oomBefore := found.1 }, found.2)

def archiver : Pass where
  typeId := pgStatArchiver
  observe := observePriorArchiver
  find builder segment :=
    let found := visit findArchiverRow builder.archiverBefore (everyRow segment pgStatArchiver)
    ({ builder with archiverBefore := found.1 }, found.2)

def database (typeId : Nat) : Pass where
  typeId := typeId
  observe builder segment := builder.observePriorDatabaseCounters segment typeId
  find builder segment := visit (findDatabaseRow typeId) builder (everyRow segment typeId)

def cgroup (typeId : Nat) : Pass where
  typeId := typeId
  observe builder segment :=
    builder.observePriorCgroupOom segment (builder.identities segment) typeId
  find builder segment :=
    if typeId = osCgroupMemoryV3 then
      let found := visit (findSelectedSample (builder.identities segment))
        builder.cgroupOomV3Before
        ((selectedOomSamples segment).map fun sample => (sample.2.1, (sample.1, sample.2.2)))
      ({ builder with cgroupOomV3Before := found.1 }, found.2)
    else
      let found := visit (findCgroupRow typeId) builder.cgroupOomBefore (everyRow segment typeId)
      ({ builder with cgroupOomBefore := found.1 }, found.2)

end Pass

def counterPasses : List Pass :=
  [.cpu, .oom, .archiver] ++ databaseLayouts.map .database ++ cgroupMemoryLayouts.map .cgroup

theorem nodup_counterPasses : (counterPasses.map Pass.typeId).Nodup := by decide

theorem visit_keeps {α ρ φ : Type} {step : α → Nat → ρ → α × List φ} (Same : α → α → Prop)
    (hrefl : ∀ state, Same state state) (htrans : ∀ a b c, Same a b → Same b c → Same a c)
    (hstep : ∀ state ordinal row, Same state (step state ordinal row).1) {state : α}
    {rows : List (Nat × ρ)} : Same state (visit step state rows).1 := by
  induction rows generalizing state with
  | nil => exact hrefl state
  | cons item rows ih => exact htrans _ _ _ (hstep state item.1 item.2) ih

theorem foldl_keeps {α ρ : Type} {step : α → ρ → α} (Same : α → α → Prop)
    (hrefl : ∀ state, Same state state) (htrans : ∀ a b c, Same a b → Same b c → Same a c)
    (hstep : ∀ state row, Same state (step state row)) {state : α} {rows : List ρ} :
    Same state (rows.foldl step state) := by
  induction rows generalizing state with
  | nil => exact hrefl state
  | cons row rows ih => exact htrans _ _ _ (hstep state row) ih

namespace FindingBuilder

variable {row : Row}

theorem observeDatabaseRow_moves :
    Moves typeId builder (observeDatabaseRow typeId builder row) := by
  cases hsample : databaseSample row with
  | none =>
    rw [observeDatabaseRow_none hsample]
    exact .refl typeId builder
  | some sample =>
    obtain ⟨datid, timestamp, value⟩ := sample
    rw [observeDatabaseRow_some hsample]
    refine ⟨rfl, fun other h => ?_⟩
    have hne : ∀ id : Nat, (other, id) ≠ (typeId, datid) := fun id he => h (Prod.ext_iff.mp he).1
    refine { SameFor.refl other builder with
      deadlocks := fun id => Function.update_of_ne (hne id) _ _
      checksum := fun id => ?_
      sessions := fun id => ?_ }
    · dsimp only
      split
      · exact Function.update_of_ne (hne id) _ _
      · rfl
    · dsimp only
      split
      · cases sessionsSample row with
        | none => rfl
        | some ended => exact Function.update_of_ne (hne id) _ _
      · rfl

theorem findDatabaseRow_moves (ordinal : Nat) (row : Row) :
    (findDatabaseRow typeId builder ordinal row).1 = builder ∨
      (findDatabaseRow typeId builder ordinal row).1 = observeDatabaseRow typeId builder row := by
  by_cases hordinal : ordinal < 2 ^ 32
  · exact Or.inr (findDatabaseRow_fst hordinal)
  · left
    unfold findDatabaseRow
    split
    · next hrow =>
      rw [rowOrdinalOf, if_neg hordinal] at hrow
      cases hrow
    · rfl

theorem observeCgroupRow_other {before : Nat × Nat → Option (Int × Int)}
    (h : typeId ≠ other) (id : Nat) :
    observeCgroupRow other before row (typeId, id) = before (typeId, id) := by
  cases hsample : cgroupSample row with
  | none => rw [observeCgroupRow_none hsample]
  | some sample =>
    rw [observeCgroupRow_some hsample]
    exact Function.update_of_ne (fun he => h (Prod.ext_iff.mp he).1) _ _

theorem findCgroupRow_other {ordinal : Nat} {before : Nat × Nat → Option (Int × Int)}
    (h : typeId ≠ other) (id : Nat) :
    (findCgroupRow other before ordinal row).1 (typeId, id) = before (typeId, id) := by
  unfold findCgroupRow
  split
  · exact Function.update_of_ne (fun he => h (Prod.ext_iff.mp he).1) _ _
  · rfl

end FindingBuilder

namespace Pass

open FindingBuilder

theorem cpu_framed : cpu.Framed := by
  have hmoves : ∀ builder value, Moves osCpu builder { builder with cpuBefore := value } :=
    fun builder _ => ⟨rfl, fun other hother =>
      { SameFor.refl other builder with cpu := fun h => absurd h hother }⟩
  refine ⟨fun builder segment => ?_, fun builder segment => hmoves builder _⟩
  show Moves osCpu builder (observePriorCpu builder segment)
  rw [observePriorCpu_eq]
  exact hmoves builder _

theorem oom_framed : oom.Framed := by
  have hmoves : ∀ builder value, Moves osVmstat builder { builder with oomBefore := value } :=
    fun builder _ => ⟨rfl, fun other hother =>
      { SameFor.refl other builder with oom := fun h => absurd h hother }⟩
  refine ⟨fun builder segment => ?_, fun builder segment => hmoves builder _⟩
  show Moves osVmstat builder (observePriorOom builder segment)
  rw [observePriorOom_eq]
  exact hmoves builder _

theorem archiver_framed : archiver.Framed := by
  have hmoves : ∀ builder value,
      Moves pgStatArchiver builder { builder with archiverBefore := value } :=
    fun builder _ => ⟨rfl, fun other hother =>
      { SameFor.refl other builder with archiver := fun h => absurd h hother }⟩
  refine ⟨fun builder segment => ?_, fun builder segment => hmoves builder _⟩
  show Moves pgStatArchiver builder (observePriorArchiver builder segment)
  rw [observePriorArchiver_eq]
  exact hmoves builder _

theorem database_framed (layout : Nat) : (database layout).Framed where
  observe := by
    intro builder segment
    show Moves layout builder (observePriorDatabaseCounters builder segment layout)
    rw [observePriorDatabase_eq]
    exact foldl_keeps (Moves layout) (.refl layout) (fun _ _ _ hab hbc => hab.trans hbc)
      fun _ _ => observeDatabaseRow_moves
  find := by
    intro builder segment
    refine visit_keeps (Moves layout) (.refl layout) (fun _ _ _ hab hbc => hab.trans hbc) ?_
    intro state ordinal row
    rcases findDatabaseRow_moves ordinal row with h | h
    · rw [h]
      exact .refl layout state
    · rw [h]
      exact observeDatabaseRow_moves

theorem selected_framed : (cgroup osCgroupMemoryV3).Framed := by
  have hmoves : ∀ builder value,
      Moves osCgroupMemoryV3 builder { builder with cgroupOomV3Before := value } :=
    fun builder _ => ⟨rfl, fun other hother =>
      { SameFor.refl other builder with selected := fun h => absurd h hother }⟩
  refine ⟨fun builder segment => ?_, fun builder segment => hmoves builder _⟩
  show Moves _ builder (observePriorCgroupOom builder segment _ osCgroupMemoryV3)
  unfold observePriorCgroupOom
  split
  · exact .refl _ builder
  · exact hmoves builder _

theorem cgroup_framed (layout : Nat) : (cgroup layout).Framed := by
  by_cases hselected : layout = osCgroupMemoryV3
  · rw [hselected]
    exact selected_framed
  have hmoves : ∀ (builder : FindingBuilder) (before : Nat × Nat → Option (Int × Int)),
      (∀ other, other ≠ layout → ∀ id, before (other, id) = builder.cgroupOomBefore (other, id)) →
        Moves layout builder { builder with cgroupOomBefore := before } :=
    fun builder before h => ⟨rfl, fun other hother =>
      { SameFor.refl other builder with cgroup := h other hother }⟩
  constructor
  · intro builder segment
    show Moves layout builder (observePriorCgroupOom builder segment _ layout)
    rw [observePriorCgroup_eq hselected]
    refine hmoves builder _ fun other hother id => ?_
    exact foldl_keeps (fun a b : Nat × Nat → Option (Int × Int) => b (other, id) = a (other, id))
      (fun _ => rfl) (fun _ _ _ hab hbc => Eq.trans hbc hab)
      fun _ _ => observeCgroupRow_other hother id
  · intro builder segment
    show Moves layout builder (ite _ _ _ : FindingBuilder × List Finding).1
    rw [if_neg hselected]
    refine hmoves builder _ fun other hother id => ?_
    exact visit_keeps (fun a b : Nat × Nat → Option (Int × Int) => b (other, id) = a (other, id))
      (fun _ => rfl) (fun _ _ _ hab hbc => Eq.trans hbc hab)
      fun _ _ _ => findCgroupRow_other hother id

end Pass

theorem framed_counterPasses : ∀ pass ∈ counterPasses, pass.Framed := by
  intro pass hpass
  rw [counterPasses, List.mem_append, List.mem_append, List.mem_map, List.mem_map] at hpass
  rcases hpass with (hpass | ⟨layout, -, rfl⟩) | ⟨layout, -, rfl⟩
  · rcases List.mem_cons.mp hpass with rfl | hpass
    · exact Pass.cpu_framed
    · rcases List.mem_cons.mp hpass with rfl | hpass
      · exact Pass.oom_framed
      · rw [List.mem_singleton.mp hpass]
        exact Pass.archiver_framed
  · exact Pass.database_framed layout
  · exact Pass.cgroup_framed layout

namespace FindingBuilder

theorem identities_congr (h : next.requested = builder.requested) :
    next.identities segment = builder.identities segment := by
  rw [identities, identities, h]

theorem observeCgroups_eq {layouts : List Nat} {found : List (Int × Option Nat)}
    (h : found = builder.identities segment) :
    layouts.foldl
        (fun (builder : FindingBuilder) typeId =>
          if builder.requested.contains typeId then
            builder.observePriorCgroupOom segment found typeId
          else builder) builder =
      observeAll segment builder (layouts.map Pass.cgroup) := by
  induction layouts generalizing builder with
  | nil => rfl
  | cons layout layouts ih =>
    show List.foldl _ (if builder.requested.contains layout then _ else _) _ =
      observeAll segment (if builder.requested.contains layout then
        builder.observePriorCgroupOom segment (builder.identities segment) layout else _) _
    rw [← h]
    refine ih ?_
    rw [h]
    split
    · exact (identities_congr ((Pass.cgroup_framed layout).observe builder segment).requested).symm
    · rfl

theorem observePrior_eq : builder.observePrior segment =
    observeAll segment builder counterPasses := by
  rw [observePrior, observeCgroups_eq rfl, counterPasses, observeAll, observeAll, List.foldl_append]
  rfl

/-- A pass that finds no rows changes nothing. -/
theorem findAll_skip (hits : Hits) (h : pass.find builder segment = (builder, [])) :
    findAll segment (builder, hits) [pass] = (builder, hits) := by
  show (if builder.requested.contains pass.typeId then _ else _) = _
  rw [h, Hits.extend_nil, ite_self]

theorem findCpu_eq (hits : Hits) : builder.findCpuAndOnlineCount segment hits =
    findAll segment (builder, hits) [Pass.cpu] := by
  unfold findCpuAndOnlineCount
  split
  · next h =>
    rcases h with habsent | hrequested
    · refine (findAll_skip hits ?_).symm
      show ({ builder with cpuBefore := _ }, _) = _
      rw [Pass.cpuItems, cpuSnapshots, everyRow_of_absent habsent]
      rfl
    · exact (if_neg fun h => hrequested (Or.inl h)).symm
  · rfl

theorem findOom_eq (hits : Hits) : builder.findOom segment hits =
    findAll segment (builder, hits) [Pass.oom] := by
  unfold findOom
  split
  · next h =>
    rcases h with hrequested | habsent
    · exact (if_neg hrequested).symm
    · refine (findAll_skip hits ?_).symm
      show ({ builder with oomBefore := _ }, _) = _
      rw [everyRow_of_absent habsent]
      rfl
  · next h => exact (if_pos (not_not.mp (not_or.mp h).1)).symm

theorem findArchiver_eq (hits : Hits) : builder.findArchiverFailures segment hits =
    findAll segment (builder, hits) [Pass.archiver] := by
  unfold findArchiverFailures
  split
  · next h =>
    rcases h with hrequested | habsent
    · exact (if_neg hrequested).symm
    · refine (findAll_skip hits ?_).symm
      show ({ builder with archiverBefore := _ }, _) = _
      rw [everyRow_of_absent habsent]
      rfl
  · next h => exact (if_pos (not_not.mp (not_or.mp h).1)).symm

theorem findDatabase_eq (hits : Hits) (hrequested : builder.requested.contains typeId = true) :
    builder.findDatabaseCounters segment typeId hits =
      (((Pass.database typeId).find builder segment).1,
        hits.extend typeId ((Pass.database typeId).find builder segment).2) := by
  unfold findDatabaseCounters
  split
  · next h =>
    have habsent : (segment.rowsOf typeId).isNone = true :=
      h.resolve_left fun hnot => hnot hrequested
    have hfound : (Pass.database typeId).find builder segment = (builder, []) := by
      show visit _ _ _ = _
      rw [everyRow_of_absent habsent]
      rfl
    rw [hfound, Hits.extend_nil]
  · rfl

theorem findCgroup_eq (hits : Hits) {found : List (Int × Option Nat)}
    (h : found = builder.identities segment) :
    builder.findCgroupOom segment found typeId hits =
      (((Pass.cgroup typeId).find builder segment).1,
        hits.extend typeId ((Pass.cgroup typeId).find builder segment).2) := by
  unfold findCgroupOom
  split
  · next habsent =>
    have hfound : (Pass.cgroup typeId).find builder segment = (builder, []) := by
      show ite _ _ _ = _
      split
      · next hselected =>
        rw [hselected] at habsent
        rw [selectedOomSamples, everyRow_of_absent habsent]
        rfl
      · rw [everyRow_of_absent habsent]
        rfl
    rw [hfound, Hits.extend_nil]
  · split
    · next hselected =>
      have hfound : (Pass.cgroup typeId).find builder segment = _ := if_pos hselected
      rw [hfound, h]
    · next hselected =>
      have hfound : (Pass.cgroup typeId).find builder segment = _ := if_neg hselected
      rw [hfound]

theorem findDatabases_eq (layouts : List Nat) (found : FindingBuilder × Hits) :
    layouts.foldl
        (fun (found : FindingBuilder × Hits) typeId =>
          if found.1.requested.contains typeId then
            found.1.findDatabaseCounters segment typeId found.2
          else found) found =
      findAll segment found (layouts.map Pass.database) := by
  induction layouts generalizing found with
  | nil => rfl
  | cons layout layouts ih =>
    rw [List.map_cons, findAll, List.foldl_cons, List.foldl_cons, ih]
    congr 1
    show (if found.1.requested.contains layout then _ else _) =
      if found.1.requested.contains layout then _ else _
    split
    · next hrequested => exact findDatabase_eq found.2 hrequested
    · rfl

theorem findCgroups_eq (layouts : List Nat) (found : FindingBuilder × Hits)
    {names : List (Int × Option Nat)} (h : names = found.1.identities segment) :
    layouts.foldl
        (fun (found : FindingBuilder × Hits) typeId =>
          if found.1.requested.contains typeId then
            found.1.findCgroupOom segment names typeId found.2
          else found) found =
      findAll segment found (layouts.map Pass.cgroup) := by
  induction layouts generalizing found with
  | nil => rfl
  | cons layout layouts ih =>
    have hnext : (if found.1.requested.contains layout then
        found.1.findCgroupOom segment names layout found.2 else found) =
      if found.1.requested.contains layout then
        (((Pass.cgroup layout).find found.1 segment).1,
          found.2.extend layout ((Pass.cgroup layout).find found.1 segment).2)
      else found := by
      rw [findCgroup_eq found.2 h]
    rw [List.foldl_cons, hnext]
    refine ih _ ?_
    rw [h]
    split
    · exact (identities_congr ((Pass.cgroup_framed layout).find found.1 segment).requested).symm
    · rfl

theorem findCounters_eq : builder.findCounters segment =
    findAll segment (builder, fun _ => []) counterPasses := by
  rw [findCounters, findCgroups_eq _ _ rfl, findDatabases_eq, findArchiver_eq, findOom_eq,
    findCpu_eq, counterPasses, findAll, findAll, findAll, findAll, findAll, findAll,
    List.foldl_append, List.foldl_append]
  rfl

end FindingBuilder

/-! ## What is found under a layout -/

variable {σ : Type} {pass : Pass} {requested : List SeriesKey}
  {priors : List Segment} {target : Segment}

/-- The rows of every section can be counted by a `u32`. -/
def RowsFit (segment : Segment) : Prop := ∀ typeId, (segment.rows typeId).length < 2 ^ 32

theorem observed_requested (builder : FindingBuilder) (priors : List Segment) :
    (priors.foldl FindingBuilder.observePrior builder).requested = builder.requested := by
  induction priors generalizing builder with
  | nil => rfl
  | cons prior priors ih =>
    rw [List.foldl_cons, ih, FindingBuilder.observePrior_eq,
      observeAll_requested framed_counterPasses]

/-- What a pass keeps of the samples of a layout, entity by entity. -/
structure Keeping (pass : Pass) (Keeps : FindingBuilder → (Nat → Option σ) → Prop)
    (samples : Segment → Nat → List σ) : Prop where
  same : ∀ builder next latest, SameFor pass.typeId builder next → Keeps builder latest →
    Keeps next latest
  observe : ∀ builder latest segment, builder.requested.contains pass.typeId = true →
    Keeps builder latest → Keeps (pass.observe builder segment)
      fun entity => (samples segment entity).getLast?.or (latest entity)

theorem mem_of_requested {requested : List SeriesKey} {typeId : Nat}
    (h : (FindingBuilder.new requested).requested.contains typeId = true) (priors : List Segment) :
    (priors.foldl FindingBuilder.observePrior
      (FindingBuilder.new requested)).requested.contains typeId = true := by
  rw [observed_requested, h]

theorem Keeping.observed {Keeps : FindingBuilder → (Nat → Option σ) → Prop}
    {samples : Segment → Nat → List σ} (h : Keeping pass Keeps samples)
    (hpass : pass ∈ counterPasses) {builder : FindingBuilder} {latest : Nat → Option σ}
    (hrequested : builder.requested.contains pass.typeId = true) (hkeeps : Keeps builder latest)
    (priors : List Segment) :
    Keeps (priors.foldl FindingBuilder.observePrior builder) fun entity =>
      (priors.flatMap (samples · entity)).getLast?.or (latest entity) := by
  induction priors generalizing builder latest with
  | nil => exact hkeeps
  | cons prior priors ih =>
    obtain ⟨before, hsame, hafter⟩ := @observeAll_mem builder prior _ _ framed_counterPasses
      nodup_counterPasses hpass hrequested
    rw [← FindingBuilder.observePrior_eq] at hafter
    have hbefore := h.same _ _ _ hsame hkeeps
    have hnext := h.same _ _ _ hafter (h.observe before latest prior
      (by rw [hsame.requested]; exact hrequested) hbefore)
    have hstill : (builder.observePrior prior).requested.contains pass.typeId = true := by
      rw [FindingBuilder.observePrior_eq, observeAll_requested framed_counterPasses, hrequested]
    have hrest := ih hstill hnext
    rw [List.foldl_cons]
    convert hrest using 2 with entity
    rw [List.flatMap_cons, List.getLast?_append, Option.or_assoc]

/-- What is found for the samples of a line, behind earlier samples. -/
def FoundIn (grown : σ → σ → Bool) (place : Nat → σ → Finding) (earlier : List σ)
    (items : List (Nat × σ)) (n : Nat) (x : Finding) : Prop :=
  ∃ item, items[n]? = some item ∧
    GrownAt grown (earlier ++ items.map Prod.snd) (earlier.length + n) ∧ x = place item.1 item.2

theorem Keeping.found {Keeps : FindingBuilder → (Nat → Option σ) → Prop}
    {samples : Segment → Nat → List σ} (h : Keeping pass Keeps samples)
    (hpass : pass ∈ counterPasses) (own : Finding → Prop) (line : Nat → List (Nat × σ))
    (grown : σ → σ → Bool) (place : Nat → σ → Finding)
    (hrequested : (FindingBuilder.new requested).requested.contains pass.typeId = true)
    (hstart : Keeps (FindingBuilder.new requested) fun _ => none)
    (hfind : ∀ (builder : FindingBuilder) latest (earlier : Nat → List σ) x,
      builder.requested.contains pass.typeId = true → Keeps builder latest →
      (∀ entity, latest entity = (earlier entity).getLast?) →
      (x ∈ (pass.find builder target).2 ∧ own x ↔
        ∃ entity n, FoundIn grown place (earlier entity) (line entity) n x)) (x : Finding) :
    x ∈ counterFindings requested priors target pass.typeId ∧ own x ↔
      ∃ entity n, FoundIn grown place (priors.flatMap (samples · entity)) (line entity) n x := by
  have hstill := mem_of_requested hrequested priors
  obtain ⟨before, hsame, hhits⟩ := @findAll_mem _ target _ _ (fun _ => []) framed_counterPasses
    nodup_counterPasses hpass hstill
  have hkeeps := h.same _ _ _ hsame (h.observed hpass hrequested hstart priors)
  have hcontains : before.requested.contains pass.typeId = true := by
    rw [hsame.requested, hstill]
  rw [counterFindings, FindingBuilder.findCounters_eq, hhits]
  exact hfind before _ (fun entity => priors.flatMap (samples · entity)) x hcontains hkeeps
    fun entity => Option.or_none

end Kronika.Index
