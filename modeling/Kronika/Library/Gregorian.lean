/-
The proleptic Gregorian calendar.

Days are numbered from the first of January 1970.  The number of a day is what the years
and the months before it add up to, and it grows with the day.
-/
import Mathlib.Tactic.Linarith
import Mathlib.Order.Defs.LinearOrder

namespace Kronika.Gregorian

def isLeapYear (year : Int) : Bool :=
  year % 4 == 0 && (year % 100 != 0 || year % 400 == 0)

def daysInMonth (year : Int) (month : Nat) : Nat :=
  match month with
  | 1 | 3 | 5 | 7 | 8 | 10 | 12 => 31
  | 4 | 6 | 9 | 11 => 30
  | 2 => if isLeapYear year then 29 else 28
  | _ => 0

/-- The era of 400 years of a day, also of one before the first era. -/
theorem tdiv_era (days : Int) :
    (if 0 ≤ days then days else days - 146096).tdiv 146097 = days / 146097 := by
  by_cases h : 0 ≤ days
  · rw [if_pos h, Int.tdiv_eq_ediv_of_nonneg h]
  · have hneg : days - 146096 = -(146096 - days) := by omega
    rw [if_neg h, hneg, Int.neg_tdiv, Int.tdiv_eq_ediv_of_nonneg (by omega)]
    omega

structure Date where
  year : Int
  month : Nat
  day : Nat
deriving DecidableEq

variable {a b : Date}

namespace Date

structure Valid (date : Date) : Prop where
  month_pos : 1 ≤ date.month
  month_le : date.month ≤ 12
  day_pos : 1 ≤ date.day
  day_le : date.day ≤ daysInMonth date.year date.month

def Before (a b : Date) : Prop :=
  a.year < b.year ∨ a.year = b.year ∧
    (a.month < b.month ∨ a.month = b.month ∧ a.day < b.day)

theorem ext (hyear : a.year = b.year) (hmonth : a.month = b.month)
    (hday : a.day = b.day) : a = b := by
  cases a
  cases hyear
  cases hmonth
  cases hday
  rfl

theorem before_or (a b : Date) : a.Before b ∨ a = b ∨ b.Before a := by
  rcases lt_trichotomy a.year b.year with hyear | hyear | hyear
  · exact .inl (.inl hyear)
  · rcases lt_trichotomy a.month b.month with hmonth | hmonth | hmonth
    · exact .inl (.inr ⟨hyear, .inl hmonth⟩)
    · rcases lt_trichotomy a.day b.day with hday | hday | hday
      · exact .inl (.inr ⟨hyear, .inr ⟨hmonth, hday⟩⟩)
      · exact .inr (.inl (ext hyear hmonth hday))
      · exact .inr (.inr (.inr ⟨hyear.symm, .inr ⟨hmonth.symm, hday⟩⟩))
    · exact .inr (.inr (.inr ⟨hyear.symm, .inl hmonth⟩))
  · exact .inr (.inr (.inl hyear))

end Date

/-! ## Day numbers -/

def daysBeforeYear (year : Int) : Int :=
  365 * year + (year - 1) / 4 - (year - 1) / 100 + (year - 1) / 400

def daysBeforeMonth (year : Int) : Nat → Nat
  | 0 => 0
  | month + 1 => daysBeforeMonth year month + daysInMonth year month

def dayNumber (date : Date) : Int :=
  daysBeforeYear date.year + daysBeforeMonth date.year date.month + date.day - 719528

theorem leap_cases (year : Int) :
    isLeapYear year = true ∧ year % 4 = 0 ∧ (year % 100 ≠ 0 ∨ year % 400 = 0) ∨
      isLeapYear year = false ∧ (year % 4 ≠ 0 ∨ year % 100 = 0 ∧ year % 400 ≠ 0) := by
  cases h : isLeapYear year with
  | true =>
    simp only [isLeapYear, Bool.and_eq_true, Bool.or_eq_true, beq_iff_eq, bne_iff_ne] at h
    exact .inl ⟨rfl, h⟩
  | false =>
    simp only [isLeapYear, Bool.and_eq_false_iff, Bool.or_eq_false_iff, beq_eq_false_iff_ne,
      bne_eq_false_iff_eq] at h
    exact .inr ⟨rfl, h⟩

theorem daysBeforeYear_succ (year : Int) :
    daysBeforeYear (year + 1) = daysBeforeYear year + if isLeapYear year then 366 else 365 := by
  rw [daysBeforeYear, daysBeforeYear]
  rcases leap_cases year with ⟨hleap, hmod⟩ | ⟨hleap, hmod⟩
  · rw [if_pos hleap]
    omega
  · rw [if_neg (by simp [hleap])]
    omega

theorem daysBeforeYear_mono {a b : Int} (h : a ≤ b) : daysBeforeYear a ≤ daysBeforeYear b := by
  rw [daysBeforeYear, daysBeforeYear]
  omega

theorem daysBeforeMonth_end (year : Int) :
    daysBeforeMonth year 13 = if isLeapYear year then 366 else 365 := by
  simp only [daysBeforeMonth, daysInMonth]
  split <;> rfl

theorem daysBeforeMonth_mono (year : Int) {a b : Nat} (h : a ≤ b) :
    daysBeforeMonth year a ≤ daysBeforeMonth year b := by
  induction h with
  | refl => exact Nat.le_refl _
  | step _ ih => exact Nat.le_trans ih (Nat.le_add_right _ _)

theorem dayNumber_lt (ha : a.Valid) (hb : b.Valid) (h : a.Before b) :
    dayNumber a < dayNumber b := by
  have hday := ha.day_le
  have hdayPos := hb.day_pos
  rw [dayNumber, dayNumber]
  rcases h with hyear | ⟨hyear, hmonth | ⟨hmonth, hlt⟩⟩
  · have hend : daysBeforeMonth a.year a.month + daysInMonth a.year a.month ≤
        daysBeforeMonth a.year 13 :=
      daysBeforeMonth_mono a.year (Nat.succ_le_succ ha.month_le)
    have hnext := daysBeforeYear_succ a.year
    have hmono := daysBeforeYear_mono (Int.add_one_le_of_lt hyear)
    rw [daysBeforeMonth_end] at hend
    split_ifs at hend hnext <;> omega
  · have hmono : daysBeforeMonth a.year a.month + daysInMonth a.year a.month ≤
        daysBeforeMonth a.year b.month := daysBeforeMonth_mono a.year hmonth
    rw [← hyear]
    omega
  · rw [← hyear, ← hmonth]
    omega

theorem dayNumber_inj (ha : a.Valid) (hb : b.Valid)
    (h : dayNumber a = dayNumber b) : a = b := by
  rcases a.before_or b with hbefore | heq | hafter
  · exact absurd h (ne_of_lt (dayNumber_lt ha hb hbefore))
  · exact heq
  · exact absurd h (ne_of_gt (dayNumber_lt hb ha hafter))

theorem not_before_of_le (ha : a.Valid) (hb : b.Valid)
    (h : dayNumber a ≤ dayNumber b) : ¬ b.Before a :=
  fun hbefore => absurd (dayNumber_lt hb ha hbefore) (not_lt.mpr h)

end Kronika.Gregorian
