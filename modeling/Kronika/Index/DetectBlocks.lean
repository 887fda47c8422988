/-
The blocks of what the counters have to say.

A block keeps the first findings of a layout in the order of timestamp, row, field and kind, each
once, and the number of all of them.
-/
import Kronika.Index.Build
import Kronika.Index.DetectPasses
import Kronika.Library.Ranks
import Mathlib.Data.Prod.Lex

namespace Kronika.Index

open Library FindingBuilder

/-- The block of a layout of the counters, as `finish` makes it. -/
def counterBlock (requested : List SeriesKey) (priors : List Segment) (target : Segment)
    (typeId : Nat) : FindingBlock :=
  Readings.findingBlock (UInt32.ofNat typeId) (counterFindings requested priors target typeId)

/-- What a block keeps of the findings of its layout. -/
structure BlockOf (hits : List Finding) (block : FindingBlock) : Prop where
  mem_iff : ∀ x, x ∈ block.findings ↔
    x ∈ hits ∧ rank Finding.before hits x < maxFindingsPerBlock
  ordered : block.findings.Pairwise fun a b => a.before b = true
  totalHits : block.totalHits.toNat = min hits.toFinset.card (2 ^ 32 - 1)
  truncated : block.truncated = true ↔ maxFindingsPerBlock < hits.toFinset.card

variable {hits : List Finding} {x : Finding} {typeId : UInt32}

def Finding.place (x : Finding) : Int ×ₗ Nat ×ₗ Nat ×ₗ Nat :=
  toLex (x.timestamp.toInt,
    toLex (x.rowOrdinal.toNat, toLex (x.fieldOrdinal.toNat, x.kind.raw.toNat)))

theorem Finding.before_iff (a b : Finding) : a.before b = true ↔ a.place < b.place := by
  simp only [Finding.before, Finding.place, Prod.Lex.toLex_lt_toLex, Bool.or_eq_true,
    Bool.and_eq_true, decide_eq_true_iff, beq_iff_eq, Int64.lt_iff_toInt_lt, ← Int64.toInt_inj,
    UInt32.lt_iff_toNat_lt, ← UInt32.toNat_inj, UInt16.lt_iff_toNat_lt, ← UInt16.toNat_inj,
    UInt8.lt_iff_toNat_lt]

/-- A finding that says nothing but where it is. -/
def Plain (x : Finding) : Prop := ∃ field ordinal timestamp, x = knownBad field ordinal timestamp

theorem plain_knownBad (field : UInt16) (ordinal : Nat) (timestamp : Int) :
    Plain (knownBad field ordinal timestamp) := ⟨field, ordinal, timestamp, rfl⟩

theorem orderedBy_place (h : ∀ x ∈ hits, Plain x) :
    OrderedBy Finding.before Finding.place hits where
  before_iff := Finding.before_iff
  unique := by
    intro a ha b hb hplace
    obtain ⟨field, ordinal, timestamp, rfl⟩ := h a ha
    obtain ⟨field', ordinal', timestamp', rfl⟩ := h b hb
    simp only [Finding.place, knownBad, toLex_inj, Prod.mk.injEq, Int64.toInt_inj,
      UInt32.toNat_inj, UInt16.toNat_inj, and_true] at hplace
    obtain ⟨htimestamp, hordinal, hfield⟩ := hplace
    simp only [knownBad, htimestamp, hordinal, hfield]

theorem findingBlock_blockOf (h : ∀ x ∈ hits, Plain x) :
    BlockOf hits (Readings.findingBlock typeId hits) := by
  have hplaces := orderedBy_place h
  have hlength : (ordered Finding.before hits).length = hits.toFinset.card :=
    hplaces.length_ordered
  constructor
  · intro x
    exact hplaces.mem_take_ordered
  · refine (hplaces.ordered_pairwise.sublist (List.take_sublist _ _)).imp ?_
    intro a b hlt
    exact (Finding.before_iff a b).mpr hlt
  · show (UInt32.ofNat (min (ordered Finding.before hits).length _)).toNat = _
    rw [hlength, UInt32.toNat_ofNat', Nat.mod_eq_of_lt (by omega)]
  · show decide (((ordered Finding.before hits).take _).length <
      min (ordered Finding.before hits).length _) = true ↔ _
    rw [decide_eq_true_iff, List.length_take, hlength, maxFindingsPerBlock]
    omega

/-! ## The counters find plain findings alone -/

theorem plain_visit {α ρ : Type} {step : α → Nat → ρ → α × List Finding}
    (hstep : ∀ state ordinal row, ∀ x ∈ (step state ordinal row).2, Plain x) {state : α}
    {rows : List (Nat × ρ)} : ∀ x ∈ (visit step state rows).2, Plain x := by
  induction rows generalizing state with
  | nil =>
    intro x hx
    cases hx
  | cons item rows ih =>
    intro x hx
    rcases List.mem_append.mp hx with hmem | hmem
    · exact hstep state item.1 item.2 x hmem
    · exact ih x hmem

theorem plain_ite {p : Prop} [Decidable p] {field : UInt16} {ordinal : Nat} {timestamp : Int} :
    ∀ x ∈ (if p then [knownBad field ordinal timestamp] else []), Plain x := by
  intro x hx
  split at hx
  · rw [List.mem_singleton.mp hx]
    exact plain_knownBad field ordinal timestamp
  · cases hx

theorem plain_append {left right : List Finding} (hleft : ∀ x ∈ left, Plain x)
    (hright : ∀ x ∈ right, Plain x) : ∀ x ∈ left ++ right, Plain x :=
  List.forall_mem_append.mpr ⟨hleft, hright⟩

theorem plain_nil : ∀ x ∈ ([] : List Finding), Plain x := List.forall_mem_nil _

namespace FindingBuilder

variable {builder : FindingBuilder} {ordinal : Nat} {row : Row} {key : Nat × Nat}
  {timestamp : Int}

theorem plain_findOomRow (before : Option (Int × Option Int)) :
    ∀ x ∈ (findOomRow before ordinal row).2, Plain x := by
  unfold findOomRow
  split
  · dsimp only
    split
    · exact plain_ite
    · exact plain_nil
  · exact plain_nil

theorem plain_findArchiverRow (before : Option (Int × Int)) :
    ∀ x ∈ (findArchiverRow before ordinal row).2, Plain x := by
  unfold findArchiverRow
  split
  · dsimp only
    split
    · exact plain_ite
    · exact plain_nil
  · exact plain_nil

theorem plain_checkDeadlocks (deadlocks : Int) :
    ∀ x ∈ (builder.checkDeadlocks key ordinal timestamp deadlocks).2, Plain x := by
  unfold checkDeadlocks
  dsimp only
  split
  · exact plain_ite
  · exact plain_nil

theorem plain_checkChecksumFailures :
    ∀ x ∈ (builder.checkChecksumFailures key ordinal timestamp row).2, Plain x := by
  unfold checkChecksumFailures
  dsimp only
  split
  · exact plain_ite
  · exact plain_nil

theorem plain_checkSessions :
    ∀ x ∈ (builder.checkSessions key ordinal timestamp row).2, Plain x := by
  unfold checkSessions
  split
  · dsimp only
    split
    · split
      · exact plain_append plain_ite plain_ite
      · exact plain_nil
    · exact plain_nil
  · exact plain_nil

theorem plain_findDatabaseRow (typeId : Nat) :
    ∀ x ∈ (findDatabaseRow typeId builder ordinal row).2, Plain x := by
  unfold findDatabaseRow
  split
  · dsimp only
    refine plain_append (plain_append (plain_append ?_ (plain_checkDeadlocks _)) ?_) ?_
    · exact plain_append plain_ite plain_ite
    · split
      · exact plain_checkChecksumFailures
      · exact plain_nil
    · split
      · exact plain_checkSessions
      · exact plain_nil
  · exact plain_nil

theorem plain_findCgroupRow (typeId : Nat) (before : Nat × Nat → Option (Int × Int)) :
    ∀ x ∈ (findCgroupRow typeId before ordinal row).2, Plain x := by
  unfold findCgroupRow
  split
  · dsimp only
    split
    · exact plain_ite
    · exact plain_nil
  · exact plain_nil

theorem plain_findSelectedSample (identities : List (Int × Option Nat))
    (before : Option CgroupOomSample) (sample : Int × Option Int) :
    ∀ x ∈ (findSelectedSample identities before ordinal sample).2, Plain x := by
  unfold findSelectedSample
  dsimp only
  split
  · intro x hx
    rw [List.mem_singleton.mp hx]
    exact plain_knownBad _ _ _
  · exact plain_nil

end FindingBuilder

theorem plain_counterPasses : ∀ pass ∈ counterPasses, ∀ builder segment,
    ∀ x ∈ (pass.find builder segment).2, Plain x := by
  intro pass hpass builder segment
  rw [counterPasses, List.mem_append, List.mem_append, List.mem_map, List.mem_map] at hpass
  rcases hpass with (hpass | ⟨layout, -, rfl⟩) | ⟨layout, -, rfl⟩
  · rcases List.mem_cons.mp hpass with rfl | hpass
    · exact @plain_visit _ _ findCpuSample (fun _ _ _ => plain_ite) _ _
    · rcases List.mem_cons.mp hpass with rfl | hpass
      · exact plain_visit fun before _ _ => plain_findOomRow before
      · rw [List.mem_singleton.mp hpass]
        exact plain_visit fun before _ _ => plain_findArchiverRow before
  · exact plain_visit fun _ _ _ => plain_findDatabaseRow layout
  · show ∀ x ∈ (ite _ _ _ : FindingBuilder × List Finding).2, Plain x
    split
    · exact plain_visit fun before _ sample => plain_findSelectedSample _ before sample
    · exact plain_visit fun before _ _ => plain_findCgroupRow layout before

theorem plain_findAll {passes : List Pass} {segment : Segment} {found : FindingBuilder × Hits}
    (hpasses : ∀ pass ∈ passes, ∀ builder segment, ∀ x ∈ (pass.find builder segment).2, Plain x)
    (hfound : ∀ typeId, ∀ x ∈ found.2 typeId, Plain x) :
    ∀ typeId, ∀ x ∈ (findAll segment found passes).2 typeId, Plain x := by
  induction passes generalizing found with
  | nil => exact hfound
  | cons pass passes ih =>
    obtain ⟨hpass, hrest⟩ := List.forall_mem_cons.mp hpasses
    rw [findAll, List.foldl_cons, ← findAll]
    split
    · refine ih hrest fun typeId => ?_
      show ∀ x ∈ Hits.extend found.2 pass.typeId _ typeId, Plain x
      by_cases htype : typeId = pass.typeId
      · rw [htype, Hits.extend, Function.update_self]
        exact plain_append (hfound _) (hpass _ _)
      · rw [Hits.extend, Function.update_of_ne htype]
        exact hfound typeId
    · exact ih hrest hfound

/-- The block of a layout keeps the first of what is found for it. -/
theorem counterBlock_blockOf (requested : List SeriesKey) (priors : List Segment)
    (target : Segment) (typeId : Nat) :
    BlockOf (counterFindings requested priors target typeId)
      (counterBlock requested priors target typeId) := by
  refine findingBlock_blockOf ?_
  rw [counterFindings, findCounters_eq]
  exact plain_findAll plain_counterPasses (fun _ => plain_nil) typeId

end Kronika.Index
