/-
Health over the interval between two pressure snapshots.

A duration is the integer that an `i64` holds.  Each operation of `i64` is the one on
integers, checked or clamped to the limits where the source does so.
-/
import Kronika.Index.Series

namespace Kronika.Index

open Format

def i64Min : Int := -2 ^ 63
def i64Max : Int := 2 ^ 63 - 1

/-- The `i64` closest to an integer. -/
def saturate (n : Int) : Int :=
  max i64Min (min n i64Max)

def checkedSubI64 (a b : Int64) : Option Int :=
  if i64Min ≤ a.toInt - b.toInt ∧ a.toInt - b.toInt ≤ i64Max then some (a.toInt - b.toInt)
  else none

/-! ## One interval -/

structure Stall where
  cpu : Int64
  memory : Int64
  io : Int64

def stalled (before after : Int64) : Option Int :=
  (checkedSubI64 after before).filter (0 ≤ ·)

/-- `u8::try_from(percent).unwrap_or(100)`. -/
def percentOf (percent : Int) : Nat :=
  if 0 ≤ percent ∧ percent ≤ 255 then percent.toNat else 100

def percentLeft (stalled elapsed : Int) : Nat :=
  let capped := min stalled elapsed
  let half := elapsed.tdiv 2
  let percent := (saturate (saturate (capped * 100) + half)).tdiv elapsed
  100 - percentOf percent

def health (before : Stall) (beforeTs : Int64) (after : Stall) (afterTs : Int64) : Option Nat :=
  match (checkedSubI64 afterTs beforeTs).filter (0 < ·) with
  | none => none
  | some elapsed =>
    match stalled before.cpu after.cpu, stalled before.memory after.memory,
        stalled before.io after.io with
    | some cpu, some memory, some io => some (percentLeft (max (max cpu memory) io) elapsed)
    | _, _, _ => none

/-! ## A run of snapshots -/

structure SnapshotIdentity where
  environment : Option UInt32
  bootId : Option UInt64
  bootTime : Option Int64
  cgroup : Option (Option UInt64 × Option UInt64 × Option UInt64)
deriving DecidableEq

structure StallSnapshot where
  timestamp : Int64
  identity : SnapshotIdentity
  stall : Option Stall

def healthPoint (previous : Option StallSnapshot) (snapshot : StallSnapshot) : HealthPoint where
  timestamp := snapshot.timestamp
  value := (previous.filter (·.identity = snapshot.identity)).bind fun before =>
    before.stall.bind fun beforeStall =>
      snapshot.stall.bind fun after =>
        (health beforeStall before.timestamp after snapshot.timestamp).map UInt8.ofNat

def healthPoints : Option StallSnapshot → List StallSnapshot → List HealthPoint
  | _, [] => []
  | previous, snapshot :: rest =>
    healthPoint previous snapshot :: healthPoints (some snapshot) rest

/-! ## The exact share -/

/-- The integer nearest to a quotient, the larger one of two that are as near. -/
def rounded (n d : Int) : Int := (2 * n + d) / (2 * d)

def exactLeft (worst elapsed : Int) : Int :=
  100 - rounded (100 * min worst elapsed) elapsed

/-- Where the limit of `i64` leaves the quotient as it is. -/
def Fits (worst elapsed : Int) : Prop :=
  100 * min worst elapsed + elapsed / 2 < elapsed * (i64Max / elapsed + 1)

theorem rounded_eq (n d : Int) : rounded n d = (n + d / 2) / d := by
  have hhalf : (2 * n + d) / 2 = n + d / 2 := by omega
  rw [rounded, ← hhalf, Int.ediv_ediv_of_nonneg (by decide)]

theorem saturate_twice {capped half : Int} (hcapped : 0 ≤ capped) (hhalf : 0 ≤ half) :
    saturate (saturate (capped * 100) + half) = min (100 * capped + half) i64Max := by
  simp only [saturate, i64Min, i64Max]
  omega

theorem min_ediv {d : Int} (hd : 0 < d) (n m : Int) : min n m / d = min (n / d) (m / d) := by
  rcases Int.le_total n m with h | h
  · rw [Int.min_eq_left h, Int.min_eq_left (Int.ediv_le_ediv hd h)]
  · rw [Int.min_eq_right h, Int.min_eq_right (Int.ediv_le_ediv hd h)]

variable {worst worst' elapsed : Int}

theorem share_nonneg (hworst : 0 ≤ worst) (helapsed : 0 < elapsed) :
    0 ≤ (100 * min worst elapsed + elapsed / 2) / elapsed :=
  Int.ediv_nonneg (by omega) (Int.le_of_lt helapsed)

theorem share_le (helapsed : 0 < elapsed) :
    (100 * min worst elapsed + elapsed / 2) / elapsed ≤ 100 := by
  have hlt : 100 * min worst elapsed + elapsed / 2 < 101 * elapsed := by omega
  exact Int.lt_add_one_iff.mp (Int.ediv_lt_of_lt_mul helapsed hlt)

theorem percentLeft_eq (hworst : 0 ≤ worst) (helapsed : 0 < elapsed) :
    (percentLeft worst elapsed : Int) =
      100 - min ((100 * min worst elapsed + elapsed / 2) / elapsed) (i64Max / elapsed) := by
  have hhalf : elapsed.tdiv 2 = elapsed / 2 := Int.tdiv_eq_ediv_of_nonneg (Int.le_of_lt helapsed)
  have hmin : 0 ≤ min (100 * min worst elapsed + elapsed / 2) i64Max := by
    rw [i64Max]
    omega
  have hshare := share_nonneg hworst helapsed
  have hshareLe : (100 * min worst elapsed + elapsed / 2) / elapsed ≤ 100 := share_le helapsed
  have hlimit : 0 ≤ i64Max / elapsed := Int.ediv_nonneg (by decide) (Int.le_of_lt helapsed)
  dsimp only [percentLeft]
  rw [hhalf, saturate_twice (by omega) (by omega), Int.tdiv_eq_ediv_of_nonneg hmin,
    min_ediv helapsed, percentOf, if_pos (by omega)]
  omega

theorem percentLeft_le (worst elapsed : Int) : percentLeft worst elapsed ≤ 100 :=
  Nat.sub_le _ _

theorem percentLeft_antitone (hworst : 0 ≤ worst) (hle : worst ≤ worst')
    (helapsed : 0 < elapsed) : percentLeft worst' elapsed ≤ percentLeft worst elapsed := by
  have hmono : (100 * min worst elapsed + elapsed / 2) / elapsed ≤
      (100 * min worst' elapsed + elapsed / 2) / elapsed :=
    Int.ediv_le_ediv helapsed (by omega)
  have hleft := percentLeft_eq hworst helapsed
  have hleft' := percentLeft_eq (Int.le_trans hworst hle) helapsed
  omega

theorem percentLeft_exact_iff (hworst : 0 ≤ worst) (helapsed : 0 < elapsed) :
    (percentLeft worst elapsed : Int) = exactLeft worst elapsed ↔ Fits worst elapsed := by
  have hlimit : (100 * min worst elapsed + elapsed / 2) / elapsed ≤ i64Max / elapsed ↔
      Fits worst elapsed := by
    rw [Fits, ← Int.lt_add_one_iff, Int.ediv_lt_iff_lt_mul helapsed, Int.mul_comm elapsed]
  rw [percentLeft_eq hworst helapsed, exactLeft, rounded_eq, ← hlimit]
  omega

theorem fits_of_short (worst : Int) (helapsed : 0 < elapsed)
    (hshort : elapsed ≤ i64Max / 101) : Fits worst elapsed := by
  have hdiv := Int.lt_mul_ediv_self_add (x := i64Max) helapsed
  rw [i64Max] at hshort
  rw [Fits, Int.mul_add]
  rw [i64Max] at hdiv ⊢
  omega

/-! ## The health of an interval -/

def worstStall (before after : Stall) : Int :=
  max (max (after.cpu.toInt - before.cpu.toInt) (after.memory.toInt - before.memory.toInt))
    (after.io.toInt - before.io.toInt)

def elapsedTime (beforeTs afterTs : Int64) : Int := afterTs.toInt - beforeTs.toInt

theorem checkedSubI64_eq {a b : Int64} {d : Int} (h : checkedSubI64 a b = some d) :
    d = a.toInt - b.toInt := by
  rw [checkedSubI64] at h
  split at h
  · exact (Option.some.inj h).symm
  · cases h

theorem stalled_eq {before after : Int64} {delta : Int} (h : stalled before after = some delta) :
    delta = after.toInt - before.toInt ∧ 0 ≤ delta := by
  obtain ⟨hsub, hnonneg⟩ := Option.filter_eq_some_iff.mp h
  exact ⟨checkedSubI64_eq hsub, of_decide_eq_true hnonneg⟩

variable {before after : Stall} {beforeTs afterTs : Int64} {value : Nat}

theorem health_eq_some (h : health before beforeTs after afterTs = some value) :
    0 ≤ worstStall before after ∧ 0 < elapsedTime beforeTs afterTs ∧
      value = percentLeft (worstStall before after) (elapsedTime beforeTs afterTs) := by
  rw [health] at h
  split at h
  · cases h
  · rename_i elapsed helapsed
    obtain ⟨hsub, hpos⟩ := Option.filter_eq_some_iff.mp helapsed
    have htime : elapsed = elapsedTime beforeTs afterTs := checkedSubI64_eq hsub
    split at h
    · rename_i cpu memory io hcpu hmemory hio
      obtain ⟨rfl, hcpuNonneg⟩ := stalled_eq hcpu
      obtain ⟨rfl, -⟩ := stalled_eq hmemory
      obtain ⟨rfl, -⟩ := stalled_eq hio
      have hworst : 0 ≤ worstStall before after := by
        rw [worstStall]
        omega
      refine ⟨hworst, ?_, ?_⟩
      · rw [← htime]
        exact of_decide_eq_true hpos
      · rw [← htime]
        exact (Option.some.inj h).symm
    · cases h

/-- Health is a percentage and falls with the worst stall; it is the exact one just where
the limit of `i64` does not reach the quotient. -/
theorem health_exact_iff (h : health before beforeTs after afterTs = some value) :
    value ≤ 100 ∧
      (∀ worst, worstStall before after ≤ worst →
        percentLeft worst (elapsedTime beforeTs afterTs) ≤ value) ∧
      ((value : Int) =
          exactLeft (worstStall before after) (elapsedTime beforeTs afterTs) ↔
        Fits (worstStall before after) (elapsedTime beforeTs afterTs)) := by
  obtain ⟨hworst, helapsed, rfl⟩ := health_eq_some h
  exact ⟨percentLeft_le _ _, fun worst hle => percentLeft_antitone hworst hle helapsed,
    percentLeft_exact_iff hworst helapsed⟩

theorem health_exact_iff_second :
    (30 : Nat) ≤ 100 ∧
      (∀ worst, worstStall ⟨0, 0, 0⟩ ⟨0, 700000, 5⟩ ≤ worst →
        percentLeft worst (elapsedTime 0 1000000) ≤ 30) ∧
      (((30 : Nat) : Int) =
          exactLeft (worstStall ⟨0, 0, 0⟩ ⟨0, 700000, 5⟩) (elapsedTime 0 1000000) ↔
        Fits (worstStall ⟨0, 0, 0⟩ ⟨0, 700000, 5⟩) (elapsedTime 0 1000000)) :=
  health_exact_iff (by decide)

/-- From the first to the last instant of the layout, stalled all the time: 71 percent. -/
theorem health_layout_range :
    representable (-62167219200000000) = true ∧ representable 253402300799999999 = true ∧
      ¬ ∀ value, health ⟨0, 0, 0⟩ (-62167219200000000) ⟨315569519999999999, 0, 0⟩
          253402300799999999 = some value →
        (value : Int) = exactLeft (worstStall ⟨0, 0, 0⟩ ⟨315569519999999999, 0, 0⟩)
          (elapsedTime (-62167219200000000) 253402300799999999) := by
  refine ⟨by decide, by decide, ?_⟩
  intro hexact
  exact absurd (hexact 71 (by decide)) (by decide)

/-! ## The health of a run of snapshots -/

/-- What a point says: a value is over the interval from the snapshot right before, of the
same identity, and unless that lasts millennia it is the exact share. -/
structure Says (point : HealthPoint) (previous : Option StallSnapshot)
    (snapshot : StallSnapshot) : Prop where
  timestamp_eq : point.timestamp = snapshot.timestamp
  value_exact : ∀ percent ∈ point.value, ∃ first before after, previous = some first ∧
    first.identity = snapshot.identity ∧ first.stall = some before ∧
    snapshot.stall = some after ∧
    (elapsedTime first.timestamp snapshot.timestamp ≤ i64Max / 101 →
      (percent.toNat : Int) =
        exactLeft (worstStall before after) (elapsedTime first.timestamp snapshot.timestamp))

theorem says_healthPoint (previous : Option StallSnapshot) (snapshot : StallSnapshot) :
    Says (healthPoint previous snapshot) previous snapshot := by
  refine ⟨rfl, fun percent h => ?_⟩
  obtain ⟨first, hfirst, h⟩ := Option.bind_eq_some_iff.mp h
  obtain ⟨before, hbefore, h⟩ := Option.bind_eq_some_iff.mp h
  obtain ⟨after, hafter, h⟩ := Option.bind_eq_some_iff.mp h
  obtain ⟨left, hhealth, rfl⟩ := Option.map_eq_some_iff.mp h
  obtain ⟨hprevious, hidentity⟩ := Option.filter_eq_some_iff.mp hfirst
  refine ⟨first, before, after, hprevious, of_decide_eq_true hidentity, hbefore, hafter, ?_⟩
  intro hshort
  obtain ⟨hworst, helapsed, rfl⟩ := health_eq_some hhealth
  rw [UInt8.toNat_ofNat_of_lt' (Nat.lt_of_le_of_lt (percentLeft_le _ _) (by decide))]
  exact (percentLeft_exact_iff hworst helapsed).mpr (fits_of_short _ helapsed hshort)

/-- Each point of a series stands for its snapshot and the one right before it. -/
theorem healthPoints_exact (seed : Option StallSnapshot) (snapshots : List StallSnapshot) :
    List.Forall₂ (fun point interval => Says point interval.1 interval.2)
      (healthPoints seed snapshots) ((seed :: snapshots.map some).zip snapshots) := by
  induction snapshots generalizing seed with
  | nil => exact .nil
  | cons snapshot rest ih => exact .cons (says_healthPoint seed snapshot) (ih (some snapshot))

end Kronika.Index
