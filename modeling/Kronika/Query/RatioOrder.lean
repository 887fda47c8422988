/-
Comparing exact ratios without multiplying them.

`compareU128Ratios` compares whole parts, and goes on with the inverses of what remains, the
order turned round.  Every round keeps the order of the two ratios, and the left denominator
falls.
-/
import Mathlib.Logic.Relation
import Kronika.Library.Fractions
import Kronika.Query.Numbers

namespace Kronika.Query

open Library.Fractions

/-- The variables of the loop. -/
structure Ratios where
  leftNumerator : Nat
  leftDenominator : Nat
  rightNumerator : Nat
  rightDenominator : Nat
  reverse : Bool
deriving DecidableEq

/-- A round of the loop returns, or goes on. -/
inductive RatioRound where
  | done (ordering : Ordering)
  | next (ratios : Ratios)
deriving DecidableEq

/-- `left / right`, which stops the program at a divisor of zero. -/
def divU128 (left right : Nat) : Option Nat := if right = 0 then none else some (left / right)

/-- `left % right`. -/
def remU128 (left right : Nat) : Option Nat := if right = 0 then none else some (left % right)

def oriented (reverse : Bool) (ordering : Ordering) : Ordering :=
  if reverse then ordering.swap else ordering

/-! ## The loop of the page order -/

/-- The inverses of what remains, to be compared the other way round. -/
def Ratios.inverted (ratios : Ratios) (leftRemainder rightRemainder : Nat) : Ratios where
  leftNumerator := ratios.leftDenominator
  leftDenominator := leftRemainder
  rightNumerator := ratios.rightDenominator
  rightDenominator := rightRemainder
  reverse := !ratios.reverse

def ratioRound (ratios : Ratios) : Option RatioRound := do
  let left ← divU128 ratios.leftNumerator ratios.leftDenominator
  let right ← divU128 ratios.rightNumerator ratios.rightDenominator
  let whole := compare left right
  if whole ≠ .eq then return .done (oriented ratios.reverse whole)
  else
    let leftRemainder ← remU128 ratios.leftNumerator ratios.leftDenominator
    let rightRemainder ← remU128 ratios.rightNumerator ratios.rightDenominator
    if leftRemainder = 0 ∧ rightRemainder = 0 then return .done .eq
    else if leftRemainder = 0 then return .done (oriented ratios.reverse .lt)
    else if rightRemainder = 0 then return .done (oriented ratios.reverse .gt)
    else return .next (ratios.inverted leftRemainder rightRemainder)

theorem ratioRound_next {ratios next : Ratios} (h : ratioRound ratios = some (.next next)) :
    0 < ratios.leftDenominator ∧ 0 < ratios.rightDenominator ∧
      ratios.leftNumerator / ratios.leftDenominator =
        ratios.rightNumerator / ratios.rightDenominator ∧
      0 < ratios.leftNumerator % ratios.leftDenominator ∧
      0 < ratios.rightNumerator % ratios.rightDenominator ∧
      next = ratios.inverted (ratios.leftNumerator % ratios.leftDenominator)
        (ratios.rightNumerator % ratios.rightDenominator) := by
  rw [ratioRound, divU128, divU128, remU128, remU128] at h
  by_cases hleft : ratios.leftDenominator = 0
  · rw [if_pos hleft] at h
    cases h
  · by_cases hright : ratios.rightDenominator = 0
    · rw [if_neg hleft, if_pos hright] at h
      cases h
    · rw [if_neg hleft, if_neg hright, if_neg hleft, if_neg hright] at h
      dsimp only [bind, Option.bind] at h
      split_ifs at h with hwhole hboth hzero hzero'
      all_goals cases h
      refine ⟨Nat.pos_of_ne_zero hleft, Nat.pos_of_ne_zero hright, ?_,
        Nat.pos_of_ne_zero hzero, Nat.pos_of_ne_zero hzero', rfl⟩
      exact Nat.compare_eq_eq.mp (not_not.mp hwhole)

def compareLoop (ratios : Ratios) : Option Ordering :=
  match _h : ratioRound ratios with
  | none => none
  | some (.done ordering) => some ordering
  | some (.next next) => compareLoop next
termination_by ratios.leftDenominator
decreasing_by
  obtain ⟨hpos, _, _, _, _, rfl⟩ := ratioRound_next _h
  exact Nat.mod_lt _ hpos

def compareU128Ratios (leftNumerator leftDenominator rightNumerator rightDenominator : Nat) :
    Option Ordering :=
  compareLoop ⟨leftNumerator, leftDenominator, rightNumerator, rightDenominator, false⟩

/-! ## The loop of the hourly metrics -/

/-- The same loop as the hourly relations spell it. -/
def hourRatioRound (ratios : Ratios) : Option RatioRound := do
  let left ← divU128 ratios.leftNumerator ratios.leftDenominator
  let right ← divU128 ratios.rightNumerator ratios.rightDenominator
  let whole := compare left right
  if whole ≠ .eq then return .done (if ratios.reverse then whole.swap else whole)
  else
    let leftRemainder ← remU128 ratios.leftNumerator ratios.leftDenominator
    let rightRemainder ← remU128 ratios.rightNumerator ratios.rightDenominator
    match decide (leftRemainder = 0), decide (rightRemainder = 0) with
    | true, true => return .done .eq
    | true, false => return .done (if ratios.reverse then .gt else .lt)
    | false, true => return .done (if ratios.reverse then .lt else .gt)
    | false, false =>
      return .next
        { leftNumerator := ratios.leftDenominator
          leftDenominator := leftRemainder
          rightNumerator := ratios.rightDenominator
          rightDenominator := rightRemainder
          reverse := !ratios.reverse }

theorem hourRatioRound_eq (ratios : Ratios) : hourRatioRound ratios = ratioRound ratios := by
  rw [hourRatioRound, ratioRound]
  cases divU128 ratios.leftNumerator ratios.leftDenominator with
  | none => rfl
  | some left =>
    cases divU128 ratios.rightNumerator ratios.rightDenominator with
    | none => rfl
    | some right =>
      dsimp only [bind, Option.bind]
      by_cases hwhole : compare left right ≠ .eq
      · rw [if_pos hwhole, if_pos hwhole]
        rfl
      · rw [if_neg hwhole, if_neg hwhole]
        cases remU128 ratios.leftNumerator ratios.leftDenominator with
        | none => rfl
        | some leftRemainder =>
          cases remU128 ratios.rightNumerator ratios.rightDenominator with
          | none => rfl
          | some rightRemainder =>
            by_cases hleft : leftRemainder = 0
            · by_cases hright : rightRemainder = 0
              · simp [hleft, hright]
              · simp [hleft, hright, oriented]
            · by_cases hright : rightRemainder = 0
              · simp [hleft, hright, oriented]
              · simp [hleft, hright, Ratios.inverted]

def hourCompareLoop (ratios : Ratios) : Option Ordering :=
  match _h : hourRatioRound ratios with
  | none => none
  | some (.done ordering) => some ordering
  | some (.next next) => hourCompareLoop next
termination_by ratios.leftDenominator
decreasing_by
  rw [hourRatioRound_eq] at _h
  obtain ⟨hpos, _, _, _, _, rfl⟩ := ratioRound_next _h
  exact Nat.mod_lt _ hpos

def hourCompareU128Ratios
    (leftNumerator leftDenominator rightNumerator rightDenominator : Nat) : Option Ordering :=
  hourCompareLoop ⟨leftNumerator, leftDenominator, rightNumerator, rightDenominator, false⟩

section Loop

variable {ratios next : Ratios}

theorem compareLoop_done {ordering : Ordering} (h : ratioRound ratios = some (.done ordering)) :
    compareLoop ratios = some ordering := by
  rw [compareLoop]
  split
  · next hnone =>
    rw [hnone] at h
    cases h
  · next hdone =>
    rw [hdone] at h
    cases h
    rfl
  · next hnext =>
    rw [hnext] at h
    cases h

theorem compareLoop_next (h : ratioRound ratios = some (.next next)) :
    compareLoop ratios = compareLoop next := by
  rw [compareLoop]
  split
  · next hnone =>
    rw [hnone] at h
    cases h
  · next hdone =>
    rw [hdone] at h
    cases h
  · next hnext =>
    rw [hnext] at h
    cases h
    rfl

theorem compareLoop_none (h : ratioRound ratios = none) : compareLoop ratios = none := by
  rw [compareLoop]
  split
  · rfl
  · next hdone =>
    rw [hdone] at h
    cases h
  · next hnext =>
    rw [hnext] at h
    cases h

theorem hourCompareLoop_eq (ratios : Ratios) : hourCompareLoop ratios = compareLoop ratios := by
  induction ratios using compareLoop.induct with
  | case1 ratios hround =>
    rw [compareLoop_none hround, hourCompareLoop]
    rw [← hourRatioRound_eq] at hround
    split
    · rfl
    · next hdone =>
      rw [hdone] at hround
      cases hround
    · next hnext =>
      rw [hnext] at hround
      cases hround
  | case2 ratios ordering hround =>
    rw [compareLoop_done hround, hourCompareLoop]
    rw [← hourRatioRound_eq] at hround
    split
    · next hnone =>
      rw [hnone] at hround
      cases hround
    · next hdone =>
      rw [hdone] at hround
      cases hround
      rfl
    · next hnext =>
      rw [hnext] at hround
      cases hround
  | case3 ratios next hround ih =>
    rw [compareLoop_next hround, hourCompareLoop]
    rw [← hourRatioRound_eq] at hround
    split
    · next hnone =>
      rw [hnone] at hround
      cases hround
    · next hdone =>
      rw [hdone] at hround
      cases hround
    · next hnext =>
      rw [hnext] at hround
      cases hround
      exact ih

/-! ## The order that the loop keeps -/

def Ratios.order (ratios : Ratios) : Ordering :=
  oriented ratios.reverse (cross ratios.leftNumerator ratios.leftDenominator
    ratios.rightNumerator ratios.rightDenominator)

def Ratios.Positive (ratios : Ratios) : Prop :=
  0 < ratios.leftDenominator ∧ 0 < ratios.rightDenominator

theorem oriented_not (reverse : Bool) (ordering : Ordering) :
    oriented (!reverse) ordering.swap = oriented reverse ordering := by
  cases reverse
  · exact Ordering.swap_swap
  · rfl

theorem ratioRound_spec (h : ratios.Positive) :
    ratioRound ratios = some (.done ratios.order) ∨
      ∃ next, ratioRound ratios = some (.next next) ∧ next.Positive ∧
        next.order = ratios.order := by
  obtain ⟨hl, hr⟩ := h
  have horder : ratios.leftNumerator / ratios.leftDenominator =
      ratios.rightNumerator / ratios.rightDenominator →
      ratios.order = oriented ratios.reverse
        (cross (ratios.leftNumerator % ratios.leftDenominator) ratios.leftDenominator
          (ratios.rightNumerator % ratios.rightDenominator) ratios.rightDenominator) := by
    intro hwhole
    rw [Ratios.order, cross_of_whole_eq hwhole]
  rw [ratioRound, divU128, divU128, remU128, remU128, if_neg hl.ne', if_neg hr.ne',
    if_neg hl.ne', if_neg hr.ne']
  dsimp only [bind, Option.bind, pure]
  split_ifs with hwhole hboth hzero hzero'
  · left
    rw [Ratios.order, cross_of_whole_ne hl hr hwhole]
  · left
    rw [horder (Nat.compare_eq_eq.mp (not_not.mp hwhole)), hboth.1, hboth.2, cross_zero]
    cases ratios.reverse
    · rfl
    · rfl
  · left
    have hremains : ratios.rightNumerator % ratios.rightDenominator ≠ 0 := by
      intro hremains
      exact hboth ⟨hzero, hremains⟩
    rw [horder (Nat.compare_eq_eq.mp (not_not.mp hwhole)), hzero,
      cross_zero_left hl (Nat.pos_of_ne_zero hremains)]
  · left
    rw [horder (Nat.compare_eq_eq.mp (not_not.mp hwhole)), hzero',
      cross_zero_right (Nat.pos_of_ne_zero hzero) hr]
  · right
    refine ⟨_, rfl, ⟨Nat.pos_of_ne_zero hzero, Nat.pos_of_ne_zero hzero'⟩, ?_⟩
    rw [horder (Nat.compare_eq_eq.mp (not_not.mp hwhole)), cross_inverse]
    rw [← oriented_not ratios.reverse, Ordering.swap_swap]
    rfl

theorem compareLoop_eq (h : ratios.Positive) : compareLoop ratios = some ratios.order := by
  -- the left denominator falls, and the order is the invariant
  induction hsize : ratios.leftDenominator using Nat.strong_induction_on generalizing ratios with
  | _ size ih =>
    rcases ratioRound_spec h with hdone | ⟨next, hnext, hpositive, horder⟩
    · exact compareLoop_done hdone
    · obtain ⟨hpos, _, _, _, _, hinverted⟩ := ratioRound_next hnext
      have hfalls : next.leftDenominator < size := by
        rw [hinverted, ← hsize]
        exact Nat.mod_lt _ hpos
      rw [compareLoop_next hnext, ih _ hfalls hpositive rfl, horder]

/-! ## The variables of the loop -/

def Ratios.Reaches : Ratios → Ratios → Prop :=
  Relation.ReflTransGen fun ratios next => ratioRound ratios = some (.next next)

/-- The variables are 128-bit values, and no divisor is zero. -/
structure Ratios.InRange (ratios : Ratios) : Prop where
  positive : ratios.Positive
  leftNumerator_lt : ratios.leftNumerator < 2 ^ 128
  leftDenominator_lt : ratios.leftDenominator < 2 ^ 128
  rightNumerator_lt : ratios.rightNumerator < 2 ^ 128
  rightDenominator_lt : ratios.rightDenominator < 2 ^ 128

theorem inRange_next (h : ratios.InRange) (hnext : ratioRound ratios = some (.next next)) :
    next.InRange := by
  obtain ⟨hl, hr, _, hleft, hright, rfl⟩ := ratioRound_next hnext
  have hleft_lt := Nat.mod_lt ratios.leftNumerator hl
  have hright_lt := Nat.mod_lt ratios.rightNumerator hr
  exact ⟨⟨hleft, hright⟩, h.leftDenominator_lt, hleft_lt.trans h.leftDenominator_lt,
    h.rightDenominator_lt, hright_lt.trans h.rightDenominator_lt⟩

theorem inRange_reaches (h : ratios.InRange) (hreaches : ratios.Reaches next) : next.InRange := by
  induction hreaches with
  | refl => exact h
  | tail _ hround ih => exact inRange_next ih hround

end Loop

/-! ## Rates of counters -/

/-- Two integer rates, compared by what the counters moved times the other's time. -/
def compareIntegerRates (left leftElapsed right rightElapsed : Int) : Ordering :=
  compare (productI128 left rightElapsed) (productI128 right leftElapsed)

theorem rate_product_range {delta elapsed : Int} (hdelta : 0 ≤ delta ∧ delta < 2 ^ 64)
    (helapsed : 0 < elapsed ∧ elapsed < 2 ^ 63) :
    -2 ^ 127 ≤ delta * elapsed ∧ delta * elapsed < 2 ^ 127 := by
  have hnonneg : 0 ≤ delta * elapsed := Int.mul_nonneg hdelta.1 (by omega)
  have hle : delta * elapsed ≤ 2 ^ 64 * elapsed :=
    Int.mul_le_mul_of_nonneg_right (by omega) (by omega)
  omega

theorem compareIntegerRates_eq {left leftElapsed right rightElapsed : Int}
    (hleft : 0 ≤ left ∧ left < 2 ^ 64) (hright : 0 ≤ right ∧ right < 2 ^ 64)
    (hleftElapsed : 0 < leftElapsed ∧ leftElapsed < 2 ^ 63)
    (hrightElapsed : 0 < rightElapsed ∧ rightElapsed < 2 ^ 63) :
    compareIntegerRates left leftElapsed right rightElapsed =
      compare ((left : ℚ) / leftElapsed) ((right : ℚ) / rightElapsed) := by
  have hcross := rate_product_range hleft hrightElapsed
  have hcross' := rate_product_range hright hleftElapsed
  have hl : (0 : ℚ) < leftElapsed := Int.cast_pos.mpr hleftElapsed.1
  have hr : (0 : ℚ) < rightElapsed := Int.cast_pos.mpr hrightElapsed.1
  rw [compareIntegerRates, productI128_eq hcross.1 hcross.2, productI128_eq hcross'.1 hcross'.2]
  apply compare_eq_compare
  · rw [div_lt_div_iff₀ hl hr]
    exact_mod_cast Iff.rfl
  · rw [div_lt_div_iff₀ hr hl]
    exact_mod_cast Iff.rfl

/-- Ratios are compared exactly, by both loops, and rates of counters are too. -/
theorem compareU128Ratios_exact (floats : FloatOps) :
    (∀ leftNumerator leftDenominator rightNumerator rightDenominator : Nat,
      leftNumerator < 2 ^ 128 → leftDenominator < 2 ^ 128 → rightNumerator < 2 ^ 128 →
      rightDenominator < 2 ^ 128 → 0 < leftDenominator → 0 < rightDenominator →
      compareU128Ratios leftNumerator leftDenominator rightNumerator rightDenominator =
        some (compare ((leftNumerator : ℚ) / leftDenominator)
          ((rightNumerator : ℚ) / rightDenominator)) ∧
      ∀ ratios, Ratios.Reaches
        ⟨leftNumerator, leftDenominator, rightNumerator, rightDenominator, false⟩
        ratios → ratios.InRange) ∧
    (∀ leftNumerator leftDenominator rightNumerator rightDenominator : Nat,
      hourCompareU128Ratios leftNumerator leftDenominator rightNumerator rightDenominator =
        compareU128Ratios leftNumerator leftDenominator rightNumerator rightDenominator) ∧
    ∀ now earlier now' earlier' : Cell, now.InWidth → earlier.InWidth → now'.InWidth →
      earlier'.InWidth → ∀ left right leftElapsed rightElapsed : Int,
      counterDelta floats now earlier = some (.integer left) →
      counterDelta floats now' earlier' = some (.integer right) →
      0 < leftElapsed ∧ leftElapsed < 2 ^ 63 → 0 < rightElapsed ∧ rightElapsed < 2 ^ 63 →
      (-2 ^ 127 ≤ left * rightElapsed ∧ left * rightElapsed < 2 ^ 127) ∧
      (-2 ^ 127 ≤ right * leftElapsed ∧ right * leftElapsed < 2 ^ 127) ∧
      compareIntegerRates left leftElapsed right rightElapsed =
        compare ((left : ℚ) / leftElapsed) ((right : ℚ) / rightElapsed) := by
  refine ⟨?_, ?_, ?_⟩
  · intro leftNumerator leftDenominator rightNumerator rightDenominator hln hld hrn hrd hl hr
    refine ⟨?_, fun ratios hreaches => inRange_reaches ⟨⟨hl, hr⟩, hln, hld, hrn, hrd⟩ hreaches⟩
    rw [compareU128Ratios, compareLoop_eq ⟨hl, hr⟩, compare_div hl hr]
    rfl
  · intro leftNumerator leftDenominator rightNumerator rightDenominator
    exact hourCompareLoop_eq _
  · intro now earlier now' earlier' hnow hearlier hnow' hearlier' left right leftElapsed
      rightElapsed hleft hright hleftElapsed hrightElapsed
    have hl := counterDelta_range hnow hearlier hleft
    have hr := counterDelta_range hnow' hearlier' hright
    exact ⟨rate_product_range hl hrightElapsed, rate_product_range hr hleftElapsed,
      compareIntegerRates_eq hl hr hleftElapsed hrightElapsed⟩

/-- Floats whose operations are all zero; no integer meets them. -/
def noFloats : FloatOps where
  partialCmp := fun left right => some (compare left right)
  isFinite := fun _ => true
  add := fun _ _ => 0
  sub := fun _ _ => 0
  mul := fun _ _ => 0
  div := fun _ _ => 0
  ofInt := fun _ => 0

/-- `7/3` against `5/2`, and a counter that moved by six in two microseconds. -/
theorem compareU128Ratios_exact_sample :
    compareU128Ratios 7 3 5 2 = some (compare ((7 : Nat) / (3 : Nat) : ℚ) ((5 : Nat) / (2 : Nat))) ∧
      compareIntegerRates 6 2 5 1 =
        compare (((6 : Int) : ℚ) / (2 : Int)) (((5 : Int) : ℚ) / (1 : Int)) :=
  ⟨((compareU128Ratios_exact noFloats).1 7 3 5 2 (by decide) (by decide) (by decide) (by decide)
      (by decide) (by decide)).1,
    ((compareU128Ratios_exact noFloats).2.2 (.u64 7) (.u64 1) (.u64 5) (.u64 0)
      (by decide : 7 < 2 ^ 64) (by decide : 1 < 2 ^ 64) (by decide : 5 < 2 ^ 64)
      (by decide : 0 < 2 ^ 64) 6 5 2 1 rfl rfl (by decide) (by decide)).2.2⟩

end Kronika.Query
