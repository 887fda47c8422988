/-
The time columns of a heatmap grid.

`intervals` publishes where every column begins and ends, and `columnOf` finds the column of
a timestamp.  Both round down, one from the columns to the time and the other back.
-/
import Kronika.Library.EvenCuts

namespace Kronika.Heatmap

open Library.EvenCuts

structure TimeRange where
  fromTs : Int64
  toExclusive : Int64

/-- One grid interval with inclusive endpoints. -/
structure HeatmapInterval where
  start : Int
  stop : Int
deriving DecidableEq

/-! ## Columns -/

/-- `saturating_add` of an `i64`. -/
def saturatingAdd (left right : Int) : Int := max (-2 ^ 63) (min (left + right) (2 ^ 63 - 1))

/-- The product of an `i128`, which wraps in a release build. -/
def mulI128 (left right : Int) : Int := (left * right).bmod (2 ^ 128)

/-- `i128::try_from(value).unwrap_or(i128::MAX)`. -/
def toI128 (value : Nat) : Int := if value < 2 ^ 127 then value else 2 ^ 127 - 1

/-- `i64::try_from(offset).unwrap_or(i64::MAX)`. -/
def clamped (offset : Int) : Int :=
  if -2 ^ 63 ≤ offset ∧ offset < 2 ^ 63 then offset else 2 ^ 63 - 1

def intervalStart (range : TimeRange) (columns index : Nat) : Int :=
  let span := range.toExclusive.toInt - range.fromTs.toInt
  let offset := (mulI128 span (toI128 index)).tdiv (toI128 (max columns 1))
  saturatingAdd range.fromTs.toInt (clamped offset)

def intervals (range : TimeRange) (columns : Nat) : List HeatmapInterval :=
  (List.range columns).map fun index =>
    { start := intervalStart range columns index
      stop := saturatingAdd (intervalStart range columns (index + 1)) (-1) }

def columnOf (timestamp : Int64) (range : TimeRange) (columns : Nat) : Nat :=
  let span := max (range.toExclusive.toInt - range.fromTs.toInt) 1
  let offset := timestamp.toInt - range.fromTs.toInt
  let column := max ((mulI128 offset (toI128 (max columns 1))).tdiv span) 0
  min (if column < 2 ^ 64 then column.toNat else columns - 1) (columns - 1)

/-! ## Agreement -/

namespace TimeRange

def span (range : TimeRange) : Nat := (range.toExclusive.toInt - range.fromTs.toInt).toNat

def Has (range : TimeRange) (timestamp : Int64) : Prop :=
  range.fromTs ≤ timestamp ∧ timestamp < range.toExclusive

def offset (range : TimeRange) (timestamp : Int64) : Nat :=
  (timestamp.toInt - range.fromTs.toInt).toNat

end TimeRange

def HeatmapInterval.Has (interval : HeatmapInterval) (timestamp : Int64) : Prop :=
  interval.start ≤ timestamp.toInt ∧ timestamp.toInt ≤ interval.stop

/-- Intervals that fill the numbers from `low` to `high` in order, each with a number. -/
def Tiles (high : Int) : Int → List HeatmapInterval → Prop
  | low, [] => low = high
  | low, interval :: rest =>
    interval.start = low ∧ interval.start ≤ interval.stop ∧ Tiles high (interval.stop + 1) rest

/-- The published intervals fill the range, and the column of the timestamp is the one whose
interval has it. -/
structure ColumnAgrees (range : TimeRange) (columns : Nat) (timestamp : Int64) : Prop where
  tiles : Tiles range.toExclusive.toInt range.fromTs.toInt (intervals range columns)
  column : ∃ interval ∈ (intervals range columns)[columnOf timestamp range columns]?,
    interval.Has timestamp
  only : ∀ index, (∃ interval ∈ (intervals range columns)[index]?, interval.Has timestamp) →
    index = columnOf timestamp range columns

section Agreement

variable {range : TimeRange} {columns index : Nat} {timestamp : Int64}

theorem int64_bounds (value : Int64) : -2 ^ 63 ≤ value.toInt ∧ value.toInt < 2 ^ 63 :=
  ⟨Int64.le_toInt value, Int64.toInt_lt value⟩

theorem span_eq (h : range.Has timestamp) :
    range.toExclusive.toInt - range.fromTs.toInt = range.span ∧
      timestamp.toInt - range.fromTs.toInt = range.offset timestamp ∧
        range.offset timestamp < range.span := by
  have hlow := Int64.le_iff_toInt_le.mp h.1
  have hhigh := Int64.lt_iff_toInt_lt.mp h.2
  rw [TimeRange.span, TimeRange.offset]
  omega

/-! ### Within the widths -/

theorem mulI128_eq {left right : Nat} (h : left * right < 2 ^ 127) :
    mulI128 left right = (left * right : Nat) := by
  rw [mulI128, ← Int.natCast_mul, Int.bmod_eq_of_le]
  · omega
  · omega

theorem toI128_eq {value : Nat} (h : value < 2 ^ 127) : toI128 value = value := if_pos h

theorem clamped_eq {offset : Nat} (h : offset < 2 ^ 63) : clamped offset = offset :=
  if_pos (by omega)

theorem saturatingAdd_eq {left right : Int} (hlow : -2 ^ 63 ≤ left + right)
    (hhigh : left + right < 2 ^ 63) : saturatingAdd left right = left + right := by
  rw [saturatingAdd]
  omega

theorem intervalStart_eq (hspan : range.toExclusive.toInt - range.fromTs.toInt = range.span)
    (hlt : range.span < 2 ^ 63) (hpos : 0 < columns) (hle : columns ≤ range.span)
    (hindex : index ≤ columns) :
    intervalStart range columns index =
      range.fromTs.toInt + (cut range.span columns index : Nat) := by
  have hproduct : range.span * index < 2 ^ 127 := by
    calc range.span * index ≤ range.span * range.span :=
          Nat.mul_le_mul_left range.span (hindex.trans hle)
      _ < 2 ^ 63 * 2 ^ 63 := Nat.mul_lt_mul_of_le_of_lt (Nat.le_of_lt hlt) hlt (by decide)
      _ < 2 ^ 127 := by decide
  have hcut : cut range.span columns index ≤ range.span := by
    calc cut range.span columns index ≤ cut range.span columns columns := cut_le_cut hindex
      _ = range.span := cut_count hpos
  have hfrom := int64_bounds range.fromTs
  have hto := int64_bounds range.toExclusive
  rw [intervalStart, hspan, toI128_eq (by omega), toI128_eq (by omega), mulI128_eq hproduct,
    Nat.max_eq_left hpos, ← Int.ofNat_tdiv, ← cut, clamped_eq (by omega)]
  exact saturatingAdd_eq (by omega) (by omega)

theorem columnOf_eq (hhas : range.Has timestamp) (hlt : range.span < 2 ^ 63)
    (hpos : 0 < columns) (hle : columns ≤ range.span) :
    columnOf timestamp range columns = part range.span columns (range.offset timestamp) := by
  obtain ⟨hspan, hoffset, hless⟩ := span_eq hhas
  have hproduct : range.offset timestamp * columns < 2 ^ 127 := by
    calc range.offset timestamp * columns ≤ range.span * range.span :=
          Nat.mul_le_mul (Nat.le_of_lt hless) hle
      _ < 2 ^ 63 * 2 ^ 63 := Nat.mul_lt_mul_of_le_of_lt (Nat.le_of_lt hlt) hlt (by decide)
      _ < 2 ^ 127 := by decide
  have hpart := part_lt hless hpos
  have hmax : max (range.span : Int) 1 = range.span := by omega
  rw [columnOf, hspan, hoffset, hmax, Nat.max_eq_left hpos, toI128_eq (by omega),
    mulI128_eq hproduct, ← Int.ofNat_tdiv, ← part, if_pos (by omega)]
  omega

theorem getElem?_intervals {interval : HeatmapInterval} :
    interval ∈ (intervals range columns)[index]? ↔
      index < columns ∧
        interval = { start := intervalStart range columns index
                     stop := saturatingAdd (intervalStart range columns (index + 1)) (-1) } := by
  rw [intervals, List.getElem?_map, Option.mem_def]
  by_cases hlt : index < columns
  · rw [List.getElem?_range hlt, Option.map_some, Option.some_inj, eq_comm]
    exact (and_iff_right hlt).symm
  · rw [List.getElem?_eq_none (by rw [List.length_range]; omega)]
    constructor
    · intro h
      cases h
    · intro h
      exact absurd h.1 hlt

theorem intervalEnd_eq (hspan : range.toExclusive.toInt - range.fromTs.toInt = range.span)
    (hlt : range.span < 2 ^ 63) (hpos : 0 < columns) (hle : columns ≤ range.span)
    (hindex : index < columns) :
    saturatingAdd (intervalStart range columns (index + 1)) (-1) =
      range.fromTs.toInt + (cut range.span columns (index + 1) : Nat) - 1 := by
  have hcut : cut range.span columns (index + 1) ≤ range.span := by
    calc cut range.span columns (index + 1) ≤ cut range.span columns columns := cut_le_cut hindex
      _ = range.span := cut_count hpos
  have hsize : cut range.span columns index < cut range.span columns (index + 1) :=
    cut_lt_cut_succ hpos hle
  have hfrom := int64_bounds range.fromTs
  have hto := int64_bounds range.toExclusive
  rw [intervalStart_eq hspan hlt hpos hle (show index + 1 ≤ columns from hindex),
    saturatingAdd_eq (by omega) (by omega)]
  omega

theorem has_iff (hhas : range.Has timestamp) (hlt : range.span < 2 ^ 63) (hpos : 0 < columns)
    (hle : columns ≤ range.span) :
    (∃ interval ∈ (intervals range columns)[index]?, interval.Has timestamp) ↔
      index < columns ∧ cut range.span columns index ≤ range.offset timestamp ∧
        range.offset timestamp < cut range.span columns (index + 1) := by
  obtain ⟨hspan, hoffset, _⟩ := span_eq hhas
  have hbounds : index < columns → (HeatmapInterval.Has
      { start := intervalStart range columns index
        stop := saturatingAdd (intervalStart range columns (index + 1)) (-1) } timestamp ↔
      cut range.span columns index ≤ range.offset timestamp ∧
        range.offset timestamp < cut range.span columns (index + 1)) := by
    intro hindex
    rw [HeatmapInterval.Has, intervalStart_eq hspan hlt hpos hle (Nat.le_of_lt hindex),
      intervalEnd_eq hspan hlt hpos hle hindex]
    dsimp only
    omega
  constructor
  · rintro ⟨interval, hget, hinside⟩
    obtain ⟨hindex, rfl⟩ := getElem?_intervals.mp hget
    exact ⟨hindex, (hbounds hindex).mp hinside⟩
  · rintro ⟨hindex, hinside⟩
    exact ⟨_, getElem?_intervals.mpr ⟨hindex, rfl⟩, (hbounds hindex).mpr hinside⟩

theorem tiles_from (hspan : range.toExclusive.toInt - range.fromTs.toInt = range.span)
    (hlt : range.span < 2 ^ 63) (hpos : 0 < columns) (hle : columns ≤ range.span) (count : Nat) :
    ∀ index, index + count = columns →
      Tiles range.toExclusive.toInt (range.fromTs.toInt + (cut range.span columns index : Nat))
        ((List.range' index count).map fun index =>
          { start := intervalStart range columns index
            stop := saturatingAdd (intervalStart range columns (index + 1)) (-1) }) := by
  induction count with
  | zero =>
    intro index hindex
    show range.fromTs.toInt + (cut range.span columns index : Nat) = range.toExclusive.toInt
    rw [show index = columns by omega, cut_count hpos]
    omega
  | succ count ih =>
    intro index hindex
    have hsize : cut range.span columns index < cut range.span columns (index + 1) :=
      cut_lt_cut_succ hpos hle
    have hrest := ih (index + 1) (by omega)
    rw [List.range'_succ, List.map_cons, Tiles,
      intervalStart_eq hspan hlt hpos hle (by omega),
      intervalEnd_eq hspan hlt hpos hle (by omega)]
    dsimp only
    refine ⟨rfl, by omega, ?_⟩
    rw [Int.sub_add_cancel]
    exact hrest

theorem tiles_intervals (hspan : range.toExclusive.toInt - range.fromTs.toInt = range.span)
    (hlt : range.span < 2 ^ 63) (hpos : 0 < columns) (hle : columns ≤ range.span) :
    Tiles range.toExclusive.toInt range.fromTs.toInt (intervals range columns) := by
  have hall := tiles_from hspan hlt hpos hle columns 0 (by omega)
  rw [cut_zero, Int.natCast_zero, Int.add_zero, ← List.range_eq_range'] at hall
  exact hall

theorem Tiles.last {low high : Int} {first last : HeatmapInterval}
    {rest : List HeatmapInterval} (h : Tiles high low (first :: rest))
    (hlast : (first :: rest).getLast? = some last) : last.stop + 1 = high := by
  induction rest generalizing low first with
  | nil =>
    obtain ⟨_, _, hstop⟩ := h
    obtain rfl := Option.some.inj hlast
    exact hstop
  | cons next rest ih =>
    exact ih h.2.2 hlast

theorem not_tiles (hspan : range.toExclusive.toInt - range.fromTs.toInt = range.span)
    (hge : 2 ^ 63 ≤ range.span) (hpos : 0 < columns) :
    ¬Tiles range.toExclusive.toInt range.fromTs.toInt (intervals range columns) := by
  intro htiles
  have hfrom := int64_bounds range.fromTs
  obtain ⟨before, rfl⟩ : ∃ before, columns = before + 1 := ⟨columns - 1, by omega⟩
  have hlast : (intervals range (before + 1)).getLast? =
      some { start := intervalStart range (before + 1) before
             stop := saturatingAdd (intervalStart range (before + 1) (before + 1)) (-1) } := by
    rw [intervals, List.range_succ, List.map_append, List.getLast?_append]
    rfl
  have hstart : intervalStart range (before + 1) (before + 1) < range.toExclusive.toInt := by
    have hclamped : ∀ offset, clamped offset ≤ 2 ^ 63 - 1 := by
      intro offset
      rw [clamped]
      split
      · omega
      · exact Int.le_refl _
    have hoffset := hclamped ((mulI128 (range.toExclusive.toInt - range.fromTs.toInt)
      (toI128 (before + 1))).tdiv (toI128 (max (before + 1) 1)))
    rw [intervalStart, saturatingAdd]
    omega
  cases hintervals : intervals range (before + 1) with
  | nil =>
    rw [hintervals] at hlast
    cases hlast
  | cons first rest =>
    rw [hintervals] at htiles hlast
    have hstop := htiles.last hlast
    dsimp only at hstop
    rw [saturatingAdd] at hstop
    omega

theorem uncut_of_agrees (hpos : 0 < columns) (hle : columns ≤ range.span)
    (hhas : range.Has timestamp) (h : ColumnAgrees range columns timestamp) :
    range.span < 2 ^ 63 ∧ Uncut range.span columns (range.offset timestamp) := by
  obtain ⟨hspan, _, hless⟩ := span_eq hhas
  have hlt : range.span < 2 ^ 63 := by
    by_contra hge
    exact not_tiles hspan (by omega) hpos h.tiles
  refine ⟨hlt, (part_agrees_iff hpos hless).mp ?_⟩
  rw [← columnOf_eq hhas hlt hpos hle]
  exact ((has_iff hhas hlt hpos hle).mp h.column).2

theorem agrees_of_uncut (hpos : 0 < columns) (hle : columns ≤ range.span)
    (hhas : range.Has timestamp) (hlt : range.span < 2 ^ 63)
    (huncut : Uncut range.span columns (range.offset timestamp)) :
    ColumnAgrees range columns timestamp := by
  obtain ⟨hspan, _, hless⟩ := span_eq hhas
  have hpart := (part_agrees_iff hpos hless).mpr huncut
  rw [← columnOf_eq hhas hlt hpos hle] at hpart
  have hcolumn := part_lt hless hpos
  rw [← columnOf_eq hhas hlt hpos hle] at hcolumn
  refine ⟨tiles_intervals hspan hlt hpos hle, (has_iff hhas hlt hpos hle).mpr ⟨hcolumn, hpart⟩,
    fun index hindex => ?_⟩
  obtain ⟨_, hlow, hhigh⟩ := (has_iff hhas hlt hpos hle).mp hindex
  exact cut_unique hpart.1 hpart.2 hlow hhigh

end Agreement

/-- The published intervals fill the range and have the timestamp in its column exactly where
the span fits and no exact boundary lies behind the timestamp and before the next one. -/
theorem columnAgrees_iff {range : TimeRange} {columns : Nat} {timestamp : Int64}
    (hpos : 0 < columns) (hle : columns ≤ range.span) (hhas : range.Has timestamp) :
    ColumnAgrees range columns timestamp ↔
      range.span < 2 ^ 63 ∧ Uncut range.span columns (range.offset timestamp) := by
  constructor
  · exact uncut_of_agrees hpos hle hhas
  · rintro ⟨hlt, huncut⟩
    exact agrees_of_uncut hpos hle hhas hlt huncut

def sampleRange : TimeRange := { fromTs := 0, toExclusive := 12 }

/-- Four columns of three microseconds. -/
theorem columnAgrees_sample : ColumnAgrees sampleRange 4 5 := by
  have huncut : Uncut 12 4 5 := by
    intro index
    omega
  exact (columnAgrees_iff (by decide) (by decide) ⟨by decide, by decide⟩).mpr
    ⟨by decide, huncut⟩

def hourRange : TimeRange := { fromTs := 0, toExclusive := 3600000000 }

/-- In an hour of seven columns, the first timestamp of the second one is found in the first. -/
theorem columnAgrees_differs : ¬ColumnAgrees hourRange 7 514285714 := by
  intro h
  have hsecond := h.only 1 ⟨_, getElem?_intervals.mpr ⟨by decide, rfl⟩, by
    rw [HeatmapInterval.Has]
    decide +kernel⟩
  cases hsecond

/-- The published intervals fill the range and all its timestamps are found in their columns exactly
where the span fits and the columns divide it. -/
theorem columns_agree_iff {range : TimeRange} {columns : Nat} (hpos : 0 < columns)
    (hle : columns ≤ range.span) :
    (∀ timestamp, range.Has timestamp → ColumnAgrees range columns timestamp) ↔
      range.span < 2 ^ 63 ∧ columns ∣ range.span := by
  constructor
  · intro hall
    have hpoint : ∀ offset < range.span, ∃ timestamp, range.Has timestamp ∧
        range.offset timestamp = offset := by
      intro offset hoffset
      have hfrom := int64_bounds range.fromTs
      have hto := int64_bounds range.toExclusive
      rw [TimeRange.span] at hoffset
      have hvalue : (Int64.ofInt (range.fromTs.toInt + offset)).toInt =
          range.fromTs.toInt + offset :=
        Int64.toInt_ofInt_of_le (by omega) (by omega)
      refine ⟨Int64.ofInt (range.fromTs.toInt + offset), ⟨?_, ?_⟩, ?_⟩
      · rw [Int64.le_iff_toInt_le]
        omega
      · rw [Int64.lt_iff_toInt_lt]
        omega
      · rw [TimeRange.offset]
        omega
    have huncut : ∀ offset < range.span, range.span < 2 ^ 63 ∧ Uncut range.span columns offset := by
      intro offset hoffset
      obtain ⟨timestamp, hhas, rfl⟩ := hpoint offset hoffset
      exact uncut_of_agrees hpos hle hhas (hall timestamp hhas)
    exact ⟨(huncut 0 (by omega)).1,
      (uncut_iff_dvd hpos hle).mp fun offset hoffset => (huncut offset hoffset).2⟩
  · rintro ⟨hlt, hdvd⟩ timestamp hhas
    obtain ⟨_, _, hless⟩ := span_eq hhas
    exact agrees_of_uncut hpos hle hhas hlt ((uncut_iff_dvd hpos hle).mpr hdvd _ hless)

theorem columns_agree_sample :
    (∀ timestamp, sampleRange.Has timestamp → ColumnAgrees sampleRange 4 timestamp) ↔
      sampleRange.span < 2 ^ 63 ∧ 4 ∣ sampleRange.span :=
  columns_agree_iff (by decide) (by decide)

end Kronika.Heatmap
