/-
The UTC day of a segment.

The source computes a date from the number of a day by counting eras of 400 years that
begin in March.  The date is the Gregorian one of that day.
-/
import Kronika.Format.JournalHeader
import Kronika.Library.Gregorian

namespace Kronika.Layout

open Format Gregorian

/-- The date of a day; the conversions of month and day to `u8` would stop the program
where they fail. -/
def civilFromDays (daysSinceEpoch : Int) : Option Date :=
  let shifted := daysSinceEpoch + 719468
  let era := (if 0 ≤ shifted then shifted else shifted - 146096).tdiv 146097
  let dayOfEra := shifted - era * 146097
  let yearOfEra := (dayOfEra - dayOfEra.tdiv 1460 + dayOfEra.tdiv 36524
    - dayOfEra.tdiv 146096).tdiv 365
  let year := yearOfEra + era * 400
  let dayOfYear := dayOfEra - (365 * yearOfEra + yearOfEra.tdiv 4 - yearOfEra.tdiv 100)
  let monthPrime := (5 * dayOfYear + 2).tdiv 153
  let day := dayOfYear - (153 * monthPrime + 2).tdiv 5 + 1
  let month := monthPrime + if monthPrime < 10 then 3 else -9
  if 0 ≤ month ∧ month ≤ 255 ∧ 0 ≤ day ∧ day ≤ 255 then
    some
      { year := if month ≤ 2 then year + 1 else year
        month := month.toNat
        day := day.toNat }
  else none

/-! ## Eras -/

def plainDays (day : Nat) : Nat := day - day / 1460 + day / 36524 - day / 146096

def yearStart (year : Nat) : Nat := 365 * year + year / 4 - year / 100

theorem plainDays_mono : Monotone plainDays := by
  apply monotone_nat_of_le_succ
  intro day
  rw [plainDays, plainDays]
  omega

theorem plainDays_yearStart : ∀ year < 400, 365 * year ≤ plainDays (yearStart year) ∧
    (year < 399 → plainDays (yearStart (year + 1) - 1) < 365 * (year + 1)) := by
  decide +kernel

theorem yearOfEra_bounds {day : Nat} (h : day < 146097) :
    plainDays day / 365 ≤ 399 ∧ yearStart (plainDays day / 365) ≤ day ∧
      (plainDays day / 365 < 399 → day < yearStart (plainDays day / 365 + 1)) := by
  have hlast : plainDays day ≤ plainDays 146096 := plainDays_mono (by omega)
  have hbound : plainDays 146096 = 145999 := by decide
  have hyear : plainDays day / 365 ≤ 399 := by omega
  refine ⟨hyear, ?_, ?_⟩
  · -- A day before the year would count into the year before.
    by_contra hbefore
    have hpos : 0 < plainDays day / 365 := by
      apply Nat.pos_of_ne_zero
      intro hzero
      rw [hzero] at hbefore
      exact hbefore (Nat.zero_le _)
    obtain ⟨year, hsucc⟩ : ∃ year, plainDays day / 365 = year + 1 :=
      ⟨plainDays day / 365 - 1, by omega⟩
    have hend := (plainDays_yearStart year (by omega)).2 (by omega)
    have hmono : plainDays day ≤ plainDays (yearStart (year + 1) - 1) :=
      plainDays_mono (by rw [hsucc] at hbefore; omega)
    omega
  · intro hnot
    by_contra hafter
    have hstart := (plainDays_yearStart (plainDays day / 365 + 1) (by omega)).1
    have hmono : plainDays (yearStart (plainDays day / 365 + 1)) ≤ plainDays day :=
      plainDays_mono (Nat.le_of_not_lt hafter)
    omega

/-! ## The date -/

/-- The code's month and day of month, for a day of a year that begins in March. -/
def marchDate (year : Int) (dayOfYear : Nat) : Date :=
  let monthPrime := (5 * dayOfYear + 2) / 153
  { year := if monthPrime < 10 then year else year + 1
    month := if monthPrime < 10 then monthPrime + 3 else monthPrime - 9
    day := dayOfYear - (153 * monthPrime + 2) / 5 + 1 }

theorem civilFromDays_eq (days : Int) : ∃ (era : Int) (day : Nat),
    days + 719468 = era * 146097 + day ∧ day < 146097 ∧
      civilFromDays days = some (marchDate (era * 400 + (plainDays day / 365 : Nat))
        (day - yearStart (plainDays day / 365))) := by
  obtain ⟨day, hday⟩ := Int.eq_ofNat_of_zero_le
    (Int.emod_nonneg (days + 719468) (by decide : (146097 : Int) ≠ 0))
  have hlt : day < 146097 := by omega
  refine ⟨(days + 719468) / 146097, day, by omega, hlt, ?_⟩
  obtain ⟨hyear, hstart, hend⟩ := yearOfEra_bounds hlt
  have hdayOfEra : days + 719468 - (days + 719468) / 146097 * 146097 = (day : Int) := by omega
  have hyearOfEra : ((day : Int) - (day : Int).tdiv 1460 + (day : Int).tdiv 36524 -
      (day : Int).tdiv 146096).tdiv 365 = ((plainDays day / 365 : Nat) : Int) := by
    have hplain : ((plainDays day : Nat) : Int) =
        (day : Int) - (day : Int).tdiv 1460 + (day : Int).tdiv 36524 - (day : Int).tdiv 146096 := by
      simp only [Int.tdiv_eq_ediv_of_nonneg (Int.natCast_nonneg day)]
      rw [plainDays]
      omega
    rw [← hplain]
    exact Int.ofNat_tdiv _ _
  rw [civilFromDays, tdiv_era, hdayOfEra, hyearOfEra]
  generalize plainDays day / 365 = year at hyear hstart hend ⊢
  have hdayOfYear : (day : Int) - (365 * (year : Int) + (year : Int).tdiv 4 -
      (year : Int).tdiv 100) = ((day - yearStart year : Nat) : Int) := by
    simp only [Int.tdiv_eq_ediv_of_nonneg (Int.natCast_nonneg year)]
    rw [yearStart] at hstart ⊢
    omega
  have hdayLe : day - yearStart year ≤ 366 := by
    rw [yearStart] at hstart ⊢
    by_cases hlast : year < 399
    · have hnext := hend hlast
      rw [yearStart] at hnext
      omega
    · omega
  rw [hdayOfYear]
  generalize day - yearStart year = dayOfYear at hdayLe ⊢
  have hmonthPrime : (5 * (dayOfYear : Int) + 2).tdiv 153 =
      (((5 * dayOfYear + 2) / 153 : Nat) : Int) := by
    rw [Int.tdiv_eq_ediv_of_nonneg (by omega)]
    omega
  have hdayOfMonth : (153 * (((5 * dayOfYear + 2) / 153 : Nat) : Int) + 2).tdiv 5 =
      (((153 * ((5 * dayOfYear + 2) / 153) + 2) / 5 : Nat) : Int) := by
    rw [Int.tdiv_eq_ediv_of_nonneg (by omega)]
    omega
  rw [hmonthPrime, hdayOfMonth, marchDate]
  generalize hprime : (5 * dayOfYear + 2) / 153 = monthPrime
  by_cases hearly : monthPrime < 10
  · have hearlyInt : (monthPrime : Int) < 10 := by omega
    rw [if_pos hearlyInt, if_pos (by omega)]
    simp only [if_pos hearly, Option.some.injEq]
    refine Date.ext ?_ ?_ ?_
    · show (year : Int) + _ = _ + year
      omega
    · show ((monthPrime : Int) + 3).toNat = monthPrime + 3
      omega
    · show ((dayOfYear : Int) - _ + 1).toNat = dayOfYear - _ + 1
      omega
  · have hlateInt : ¬ (monthPrime : Int) < 10 := by omega
    have hmonth : (monthPrime : Int) + -9 ≤ 2 := by omega
    rw [if_neg hlateInt, if_pos (by omega), if_pos hmonth]
    simp only [if_neg hearly, Option.some.injEq]
    refine Date.ext ?_ ?_ ?_
    · show (year : Int) + _ + 1 = _ + year + 1
      omega
    · show ((monthPrime : Int) + -9).toNat = monthPrime - 9
      omega
    · show ((dayOfYear : Int) - _ + 1).toNat = dayOfYear - _ + 1
      omega

theorem daysBeforeYear_march (era : Int) {year : Nat} (h : year ≤ 399) :
    daysBeforeYear (era * 400 + year + 1) = era * 146097 + yearStart year + 365 := by
  rw [daysBeforeYear, yearStart]
  omega

theorem daysBeforeMonth_march (year : Int) {monthPrime : Nat} (h : monthPrime < 10) :
    daysBeforeMonth year (monthPrime + 3) =
      (153 * monthPrime + 2) / 5 + 59 + if isLeapYear year then 1 else 0 := by
  have hstart : daysBeforeMonth year 3 = 59 + if isLeapYear year then 1 else 0 := by
    simp only [daysBeforeMonth, daysInMonth]
    split <;> rfl
  have hrest : ∀ m < 10, daysBeforeMonth year (m + 3) =
      daysBeforeMonth year 3 + (153 * m + 2) / 5 := by
    intro m hm
    interval_cases m <;> rfl
  rw [hrest monthPrime h]
  omega

theorem dayOfYear_lt (era : Int) {year day : Nat} (hyear : year ≤ 399)
    (hend : year < 399 → day < yearStart (year + 1)) (hday : day < 146097) :
    day - yearStart year < 365 + if isLeapYear (era * 400 + year + 1) then 1 else 0 := by
  have hnext : year = 399 ∨ day < 365 * (year + 1) + (year + 1) / 4 - (year + 1) / 100 := by
    by_cases hlast : year < 399
    · exact .inr (hend hlast)
    · exact .inl (by omega)
  rw [yearStart]
  rcases leap_cases (era * 400 + year + 1) with ⟨hleap, hmod⟩ | ⟨hleap, hmod⟩
  · rw [if_pos hleap]
    omega
  · rcases hmod with hfour | ⟨hcentury, hera⟩
    · have hquarter : (year + 1) / 4 = year / 4 := by omega
      omega
    · omega

theorem marchDate_correct (era : Int) {year day : Nat} (hyear : year ≤ 399)
    (hstart : yearStart year ≤ day) (hend : year < 399 → day < yearStart (year + 1))
    (hday : day < 146097) :
    (marchDate (era * 400 + year) (day - yearStart year)).Valid ∧
      dayNumber (marchDate (era * 400 + year) (day - yearStart year)) =
        era * 146097 + day - 719468 := by
  have hlast := dayOfYear_lt era hyear hend hday
  have hbefore := daysBeforeYear_march era hyear
  have hsucc := daysBeforeYear_succ (era * 400 + year)
  generalize hdoy : day - yearStart year = dayOfYear at hlast ⊢
  rw [marchDate]
  generalize hprime : (5 * dayOfYear + 2) / 153 = monthPrime
  have hprimeLt : monthPrime < 12 := by
    split_ifs at hlast <;> omega
  by_cases hearly : monthPrime < 10
  · have hmonth := daysBeforeMonth_march (era * 400 + year) hearly
    simp only [if_pos hearly]
    refine ⟨⟨?_, ?_, ?_, ?_⟩, ?_⟩
    · show 1 ≤ monthPrime + 3
      omega
    · show monthPrime + 3 ≤ 12
      omega
    · show 1 ≤ dayOfYear - (153 * monthPrime + 2) / 5 + 1
      omega
    · show dayOfYear - (153 * monthPrime + 2) / 5 + 1 ≤ daysInMonth _ (monthPrime + 3)
      interval_cases monthPrime <;> simp only [daysInMonth] <;> omega
    · rw [dayNumber]
      dsimp only
      rw [hmonth]
      split_ifs at hsucc ⊢ <;> omega
  · simp only [if_neg hearly]
    refine ⟨⟨?_, ?_, ?_, ?_⟩, ?_⟩
    · show 1 ≤ monthPrime - 9
      omega
    · show monthPrime - 9 ≤ 12
      omega
    · show 1 ≤ dayOfYear - (153 * monthPrime + 2) / 5 + 1
      omega
    · show dayOfYear - (153 * monthPrime + 2) / 5 + 1 ≤ daysInMonth _ (monthPrime - 9)
      interval_cases monthPrime
      · simp only [daysInMonth]
        omega
      · simp only [daysInMonth]
        split_ifs at hlast ⊢ <;> omega
    · have hmonth : ∀ other, daysBeforeMonth other (monthPrime - 9) + 306 =
          (153 * monthPrime + 2) / 5 := by
        intro other
        interval_cases monthPrime <;> rfl
      rw [dayNumber]
      dsimp only
      have hsum := hmonth (era * 400 + year + 1)
      omega

theorem civilFromDays_ok (days : Int) :
    ∃ date, civilFromDays days = some date ∧ date.Valid ∧ dayNumber date = days := by
  obtain ⟨era, day, hdays, hday, hcivil⟩ := civilFromDays_eq days
  obtain ⟨hyear, hstart, hend⟩ := yearOfEra_bounds hday
  obtain ⟨hvalid, hnumber⟩ := marchDate_correct era hyear hstart hend hday
  refine ⟨_, hcivil, hvalid, ?_⟩
  omega

theorem civilFromDays_dayNumber {date : Date} (h : date.Valid) :
    civilFromDays (dayNumber date) = some date := by
  obtain ⟨computed, hcivil, hvalid, hnumber⟩ := civilFromDays_ok (dayNumber date)
  rw [hcivil, dayNumber_inj hvalid h hnumber]

theorem civilYear_of_date {days : Int} {date : Date} (h : civilFromDays days = some date) :
    civilYear days = date.year := by
  simp only [civilFromDays, Option.ite_none_right_eq_some, Option.some.injEq] at h
  rw [← h.2]
  rfl

/-! ## Addresses -/

inductive LayoutError where
  /-- A month or a day that is no `u8`, which stops the program. -/
  | civilConversion
  | segmentIdOutOfRange (value : Int64)
  | misbucketedSegment (id : SegmentId) (actual expected : Date)
  | unexpectedLeafEntry (name : List Char)

def utcDay (id : SegmentId) : Except LayoutError Date :=
  match civilFromDays (id.value.toInt.ediv microsPerDay) with
  | none => .error .civilConversion
  | some date =>
    if 0 ≤ date.year ∧ date.year ≤ 9999 then .ok date
    else .error (.segmentIdOutOfRange id.value)

/-- The instant lies in the UTC day of the date. -/
def InDay (value : Int64) (date : Date) : Prop :=
  dayNumber date * microsPerDay ≤ value.toInt ∧
    value.toInt < (dayNumber date + 1) * microsPerDay

theorem inDay_iff (value : Int64) (date : Date) :
    InDay value date ↔ dayNumber date = value.toInt.ediv microsPerDay := by
  have hdiv : value.toInt.ediv microsPerDay = value.toInt / 86400000000 := rfl
  rw [hdiv, InDay, microsPerDay]
  constructor
  · intro h
    omega
  · intro h
    omega

theorem utcDay_ok (id : SegmentId) :
    ∃ date, utcDay id = .ok date ∧ date.Valid ∧ 0 ≤ date.year ∧ date.year ≤ 9999 ∧
      InDay id.value date := by
  obtain ⟨date, hcivil, hvalid, hnumber⟩ := civilFromDays_ok (id.value.toInt.ediv microsPerDay)
  have hrange := id.in_range
  rw [representable, Bool.and_eq_true, decide_eq_true_eq, decide_eq_true_eq,
    civilYear_of_date hcivil] at hrange
  refine ⟨date, ?_, hvalid, hrange.1, hrange.2, (inDay_iff _ _).mpr hnumber⟩
  rw [utcDay, hcivil]
  exact if_pos hrange

theorem utcDay_eq {id : SegmentId} {date other : Date} (h : utcDay id = .ok date)
    (hother : other.Valid) (hin : InDay id.value other) : other = date := by
  obtain ⟨day, hday, hvalid, -, -, hinDay⟩ := utcDay_ok id
  rw [hday] at h
  cases h
  rw [inDay_iff] at hin hinDay
  exact dayNumber_inj hother hvalid (hin.trans hinDay.symm)

theorem utcDay_mono {id later : SegmentId} {date laterDate : Date}
    (hle : id.value.toInt ≤ later.value.toInt) (h : utcDay id = .ok date)
    (hlater : utcDay later = .ok laterDate) : ¬ laterDate.Before date := by
  obtain ⟨day, hday, hvalid, -, -, hin⟩ := utcDay_ok id
  obtain ⟨laterDay, hlaterDay, hlaterValid, -, -, hlaterIn⟩ := utcDay_ok later
  rw [hday] at h
  rw [hlaterDay] at hlater
  cases h
  cases hlater
  apply not_before_of_le hvalid hlaterValid
  rw [inDay_iff] at hin hlaterIn
  rw [hin, hlaterIn]
  exact Int.ediv_le_ediv (by decide) hle

/-- A segment under its own day. -/
structure SegmentAddress where
  id : SegmentId
  day : Date
  own : utcDay id = .ok day

def SegmentAddress.inDay (id : SegmentId) (day : Date) : Except LayoutError SegmentAddress :=
  match h : utcDay id with
  | .error error => .error error
  | .ok expected =>
    if hday : expected = day then .ok { id := id, day := day, own := by rw [h, hday] }
    else .error (.misbucketedSegment id day expected)

theorem SegmentAddress.inDay_own (address : SegmentAddress) :
    SegmentAddress.inDay address.id address.day = .ok address := by
  unfold SegmentAddress.inDay
  split
  · next error h =>
    rw [address.own] at h
    cases h
  · next expected h =>
    rw [address.own] at h
    cases h
    rw [dif_pos rfl]

theorem SegmentAddress.inDay_eq_ok {id : SegmentId} {day : Date} {address : SegmentAddress}
    (h : SegmentAddress.inDay id day = .ok address) : address.id = id ∧ address.day = day := by
  unfold SegmentAddress.inDay at h
  split at h
  · cases h
  · split at h
    · cases h
      exact ⟨rfl, rfl⟩
    · cases h

end Kronika.Layout
