/-
The range of a slice: whole seconds, and the context on both sides of them.

The context is clipped to the years that the layout represents.  Every bound is a
number of microseconds of one of these years, so nothing here leaves `i64`.
-/
import Kronika.Library.Gregorian
import Kronika.Reader.Discovery

namespace Kronika

/-! ## The years of the layout -/

namespace Format

theorem civilYear_eq (days : Int) : ∃ era day year : Int,
    days + 719468 = era * 146097 + day ∧ 0 ≤ day ∧ day < 146097 ∧
      year = (day - day / 1460 + day / 36524 - day / 146096) / 365 ∧
      civilYear days = year + era * 400 +
        if 306 ≤ day - (365 * year + year / 4 - year / 100) then 1 else 0 := by
  refine ⟨(days + 719468) / 146097, (days + 719468) % 146097, _, by omega, by omega, by omega,
    rfl, ?_⟩
  have hday : days + 719468 - (days + 719468) / 146097 * 146097 = (days + 719468) % 146097 := by
    omega
  rw [civilYear, Gregorian.tdiv_era, hday]
  have hnonneg : 0 ≤ (days + 719468) % 146097 := by omega
  have hlt : (days + 719468) % 146097 < 146097 := by omega
  generalize (days + 719468) % 146097 = day at hnonneg hlt ⊢
  rw [Int.tdiv_eq_ediv_of_nonneg hnonneg, Int.tdiv_eq_ediv_of_nonneg hnonneg,
    Int.tdiv_eq_ediv_of_nonneg hnonneg, Int.tdiv_eq_ediv_of_nonneg (a :=
      day - day / 1460 + day / 36524 - day / 146096) (by omega)]
  have hyear : 0 ≤ (day - day / 1460 + day / 36524 - day / 146096) / 365 := by omega
  generalize hyearEq : (day - day / 1460 + day / 36524 - day / 146096) / 365 = year at hyear ⊢
  rw [Int.tdiv_eq_ediv_of_nonneg hyear, Int.tdiv_eq_ediv_of_nonneg hyear]
  -- A rough bound will do: the month is the same for a day before the first one.
  have hdayOfYear : -30 ≤ day - (365 * year + year / 4 - year / 100) := by omega
  have hdayLt : day - (365 * year + year / 4 - year / 100) ≤ 366 := by omega
  generalize day - (365 * year + year / 4 - year / 100) = dayOfYear at hdayOfYear hdayLt ⊢
  have hmonth : (5 * dayOfYear + 2).tdiv 153 =
      if 0 ≤ dayOfYear then (5 * dayOfYear + 2) / 153 else 0 := by
    by_cases h : 0 ≤ dayOfYear
    · rw [if_pos h, Int.tdiv_eq_ediv_of_nonneg (by omega)]
    · have hneg : 5 * dayOfYear + 2 = -(-(5 * dayOfYear + 2)) := by omega
      rw [hneg, Int.neg_tdiv, Int.tdiv_eq_ediv_of_nonneg (by omega)]
      omega
  split_ifs <;> omega

def layoutMin : Int := -62167219200000000

def layoutMaxExclusive : Int := 253402300800000000

theorem representable_bounds {value : Int64} (h : representable value = true) :
    layoutMin ≤ value.toInt ∧ value.toInt < layoutMaxExclusive := by
  obtain ⟨era, day, year, hdays, hnonneg, hlt, hyear, hcivil⟩ :=
    civilYear_eq (value.toInt.ediv microsPerDay)
  rw [representable, Bool.and_eq_true, decide_eq_true_eq, decide_eq_true_eq, hcivil] at h
  have hmicros : value.toInt.ediv microsPerDay = value.toInt / 86400000000 := rfl
  rw [layoutMin, layoutMaxExclusive]
  obtain ⟨hfirst, hlast⟩ := h
  split_ifs at hfirst hlast <;> omega

end Format

namespace Slice

open Format Reader

/-! ## Seconds -/

def microsPerSecond : Int64 := 1000000

/-- Rates need neighbouring observations, at most 30 seconds away. -/
def contextMicros : Int64 := 30000000

def layoutMinMicros : Int64 := -62167219200000000

def layoutMaxExclusiveMicros : Int64 := 253402300800000000

def checkedMul (a b : Int64) : Option Int64 :=
  if a.toInt * b.toInt = (a * b).toInt then some (a * b) else none

/-- A whole second that the layout represents. -/
structure UtcSecond where
  unixSeconds : Int64
  inLayout : ∃ micros, checkedMul unixSeconds microsPerSecond = some micros ∧
    representable micros = true

namespace UtcSecond

def unixMicros (second : UtcSecond) : Int64 := second.unixSeconds * microsPerSecond

theorem toInt_unixMicros (second : UtcSecond) :
    second.unixMicros.toInt = second.unixSeconds.toInt * 1000000 ∧
      layoutMin ≤ second.unixMicros.toInt ∧ second.unixMicros.toInt < layoutMaxExclusive := by
  obtain ⟨micros, hmul, hrep⟩ := second.inLayout
  rw [checkedMul] at hmul
  by_cases hfits : second.unixSeconds.toInt * microsPerSecond.toInt =
      (second.unixSeconds * microsPerSecond).toInt
  · rw [if_pos hfits] at hmul
    rw [unixMicros]
    refine ⟨hfits.symm, representable_bounds ?_⟩
    rw [Option.some.inj hmul]
    exact hrep
  · rw [if_neg hfits] at hmul
    cases hmul

end UtcSecond

/-- Whole seconds, both ends included. -/
structure SliceRange where
  fromSecond : UtcSecond
  toSecond : UtcSecond
  ordered : fromSecond.unixSeconds ≤ toSecond.unixSeconds

/-! ## Microseconds -/

/-- The requested microseconds, within the context around them. -/
structure MicrosRange where
  fromTs : Int64
  toExclusive : Int64
  contextFrom : Int64
  contextToExclusive : Int64
  context_le : contextFrom ≤ fromTs
  from_lt : fromTs < toExclusive
  le_context : toExclusive ≤ contextToExclusive

namespace MicrosRange

variable (range : MicrosRange)

def inRequest (ts : Int64) : Bool := range.fromTs ≤ ts && ts < range.toExclusive

def before (ts : Int64) : Bool := range.contextFrom ≤ ts && ts < range.fromTs

def after (ts : Int64) : Bool := range.toExclusive ≤ ts && ts < range.contextToExclusive

def context : TimeRange :=
  { start := .included range.contextFrom, stop := .excluded range.contextToExclusive }

end MicrosRange

def saturatingSub64 (a b : Int64) : Int64 := Int64.ofIntClamp (a.toInt - b.toInt)

def saturatingAdd64 (a b : Int64) : Int64 := Int64.ofIntClamp (a.toInt + b.toInt)

theorem toInt_max (a b : Int64) : (max a b).toInt = max a.toInt b.toInt := by
  show (if a ≤ b then b else a).toInt = _
  by_cases h : a ≤ b
  · rw [if_pos h, max_eq_right (Int64.le_iff_toInt_le.mp h)]
  · rw [if_neg h, max_eq_left (by rw [Int64.le_iff_toInt_le] at h; omega)]

theorem toInt_min (a b : Int64) : (min a b).toInt = min a.toInt b.toInt := by
  show (if a ≤ b then a else b).toInt = _
  by_cases h : a ≤ b
  · rw [if_pos h, min_eq_left (Int64.le_iff_toInt_le.mp h)]
  · rw [if_neg h, min_eq_right (by rw [Int64.le_iff_toInt_le] at h; omega)]

namespace SliceRange

variable (range : SliceRange)

def fromMicros : Int64 := range.fromSecond.unixMicros

def toExclusiveMicros : Int64 := range.toSecond.unixMicros + microsPerSecond

theorem toInt_fromMicros : range.fromMicros.toInt = range.fromSecond.unixSeconds.toInt * 1000000 ∧
    layoutMin ≤ range.fromMicros.toInt ∧ range.fromMicros.toInt < layoutMaxExclusive :=
  range.fromSecond.toInt_unixMicros

theorem toInt_toExclusiveMicros :
    range.toExclusiveMicros.toInt = range.toSecond.unixSeconds.toInt * 1000000 + 1000000 ∧
      range.toExclusiveMicros.toInt ≤ layoutMaxExclusive := by
  obtain ⟨hmicros, hlo, hhi⟩ := range.toSecond.toInt_unixMicros
  have hone : microsPerSecond.toInt = 1000000 := rfl
  rw [layoutMin] at hlo
  rw [layoutMaxExclusive] at hhi ⊢
  rw [toExclusiveMicros, Int64.toInt_add, Int.bmod_eq_of_le (by omega) (by omega)]
  omega

theorem toInt_contextFrom :
    (max (saturatingSub64 range.fromMicros contextMicros) layoutMinMicros).toInt =
      max (range.fromMicros.toInt - 30000000) layoutMin := by
  obtain ⟨_, hlo, hhi⟩ := range.toInt_fromMicros
  rw [layoutMin] at hlo
  rw [layoutMaxExclusive] at hhi
  have hmin : Int64.minValue.toInt = -2 ^ 63 := rfl
  have hmax : Int64.maxValue.toInt = 2 ^ 63 - 1 := rfl
  have hcontext : contextMicros.toInt = 30000000 := rfl
  rw [toInt_max, saturatingSub64, Int64.toInt_ofIntClamp (by omega) (by omega)]
  rfl

theorem toInt_contextToExclusive :
    (min (saturatingAdd64 range.toExclusiveMicros contextMicros) layoutMaxExclusiveMicros).toInt =
      min (range.toExclusiveMicros.toInt + 30000000) layoutMaxExclusive := by
  obtain ⟨hmicros, hhi⟩ := range.toInt_toExclusiveMicros
  obtain ⟨hsecond, hlo, _⟩ := range.toSecond.toInt_unixMicros
  rw [layoutMin] at hlo
  rw [layoutMaxExclusive] at hhi
  have hmin : Int64.minValue.toInt = -2 ^ 63 := rfl
  have hmax : Int64.maxValue.toInt = 2 ^ 63 - 1 := rfl
  have hcontext : contextMicros.toInt = 30000000 := rfl
  rw [toInt_min, saturatingAdd64, Int64.toInt_ofIntClamp (by omega) (by omega)]
  rfl

def micros : MicrosRange where
  fromTs := range.fromMicros
  toExclusive := range.toExclusiveMicros
  contextFrom := max (saturatingSub64 range.fromMicros contextMicros) layoutMinMicros
  contextToExclusive :=
    min (saturatingAdd64 range.toExclusiveMicros contextMicros) layoutMaxExclusiveMicros
  context_le := by
    obtain ⟨_, hlo, _⟩ := range.toInt_fromMicros
    rw [Int64.le_iff_toInt_le, toInt_contextFrom]
    omega
  from_lt := by
    obtain ⟨hfrom, _, _⟩ := range.toInt_fromMicros
    obtain ⟨hto, _⟩ := range.toInt_toExclusiveMicros
    have hordered := Int64.le_iff_toInt_le.mp range.ordered
    rw [Int64.lt_iff_toInt_lt, hfrom, hto]
    omega
  le_context := by
    obtain ⟨_, hhi⟩ := range.toInt_toExclusiveMicros
    rw [Int64.le_iff_toInt_le, toInt_contextToExclusive]
    omega

end SliceRange
end Slice
end Kronika
