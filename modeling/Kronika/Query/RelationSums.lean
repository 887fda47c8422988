/-
The sums of the fields of an aggregate.

An exact rate is a fraction in lowest terms, and every other field is merged as it is added to.
-/
import Mathlib.Algebra.Order.Field.Rat
import Mathlib.Data.NNRat.Lemmas
import Mathlib.Data.Nat.Cast.Field
import Mathlib.Tactic.FieldSimp
import Kronika.Library.Fractions
import Kronika.Query.RelationAggregate

namespace Kronika.Query
namespace Relations

open Library

/-! ## Exact rates -/

section Rates

variable {left right numerator denominator : Nat}

theorem gcdLoop_eq (left right : Nat) : gcdLoop left right = Nat.gcd left right :=
  Fractions.eq_gcd (fun m n => by rw [gcdLoop, dite_eq_ite]) left right

theorem greatestCommonDivisor_eq (h : 0 < right) :
    greatestCommonDivisor left right = Nat.gcd left right := by
  have hpos : Nat.gcd left right ≠ 0 := (Nat.gcd_pos_of_pos_right left h).ne'
  rw [greatestCommonDivisor, gcdLoop_eq, if_neg hpos]

def RateValue.ofRat (rate : ℚ≥0) : RateValue := .exact rate.num rate.den

theorem num_den_of_coprime (hpos : 0 < denominator) (h : Nat.Coprime numerator denominator) :
    ((numerator : ℚ≥0) / denominator).num = numerator ∧
      ((numerator : ℚ≥0) / denominator).den = denominator := by
  have hden : (0 : Int) < denominator := Int.natCast_pos.mpr hpos
  have hcoprime : (numerator : Int).natAbs.Coprime (denominator : Int).natAbs := h
  have hnum := Rat.num_div_eq_of_coprime hden hcoprime
  have hrat := Rat.den_div_eq_of_coprime hden hcoprime
  have hcast : (((numerator : ℚ≥0) / denominator : ℚ≥0) : ℚ) =
      ((numerator : Int) : ℚ) / ((denominator : Int) : ℚ) := by
    rw [NNRat.cast_div, NNRat.cast_natCast, NNRat.cast_natCast, Int.cast_natCast, Int.cast_natCast]
  constructor
  · have hcoe := NNRat.num_coe ((numerator : ℚ≥0) / denominator)
    rw [hcast, hnum] at hcoe
    exact Int.ofNat.inj hcoe.symm
  · exact Int.ofNat.inj hrat

theorem reduced_eq (h : 0 < denominator) :
    RateValue.reduced numerator denominator = .ofRat (numerator / denominator) := by
  have hpos : 0 < Nat.gcd numerator denominator := Nat.gcd_pos_of_pos_right numerator h
  have hden : 0 < denominator / Nat.gcd numerator denominator :=
    Nat.div_pos (Nat.le_of_dvd h (Nat.gcd_dvd_right numerator denominator)) hpos
  have hcoprime := Nat.coprime_div_gcd_div_gcd hpos
  have hsame : ((numerator / Nat.gcd numerator denominator : Nat) : ℚ≥0) /
      (denominator / Nat.gcd numerator denominator : Nat) = numerator / denominator :=
    Nat.cast_div_div_div_cancel_right (Nat.gcd_dvd_right numerator denominator)
      (Nat.gcd_dvd_left numerator denominator)
  obtain ⟨hnum, hrat⟩ := num_den_of_coprime hden hcoprime
  rw [hsame] at hnum hrat
  rw [RateValue.reduced, greatestCommonDivisor_eq h, RateValue.ofRat, hnum, hrat]

theorem exactSum_eq {leftDenominator rightDenominator : Nat} {sum : RateValue}
    (hleft : 0 < leftDenominator) (hright : 0 < rightDenominator)
    (h : RateValue.exactSum (.exact left leftDenominator) (.exact right rightDenominator) =
      some sum) :
    sum = .ofRat (left / leftDenominator + right / rightDenominator) := by
  rw [RateValue.exactSum, greatestCommonDivisor_eq hright] at h
  have hpos : 0 < Nat.gcd leftDenominator rightDenominator := Nat.gcd_pos_of_pos_right _ hright
  obtain ⟨a, ha⟩ := Nat.gcd_dvd_left leftDenominator rightDenominator
  obtain ⟨b, hb⟩ := Nat.gcd_dvd_right leftDenominator rightDenominator
  generalize Nat.gcd leftDenominator rightDenominator = common at h hpos ha hb
  subst ha hb
  rw [Nat.mul_div_cancel_left a hpos, Nat.mul_div_cancel_left b hpos] at h
  obtain ⟨scaledLeft, hscaledLeft, h⟩ := Option.bind_eq_some_iff.mp h
  obtain ⟨scaledRight, hscaledRight, h⟩ := Option.bind_eq_some_iff.mp h
  obtain ⟨numerator, hnumerator, h⟩ := Option.bind_eq_some_iff.mp h
  obtain ⟨denominator, hdenominator, h⟩ := Option.map_eq_some_iff.mp h
  have hchecked : ∀ {value found : Nat}, checkedU128 value = some found → found = value := by
    intro value found hfound
    rw [checkedU128] at hfound
    split_ifs at hfound
    exact (Option.some.inj hfound).symm
  have hb : 0 < b := Nat.pos_of_mul_pos_left hright
  have ha : 0 < a := Nat.pos_of_mul_pos_left hleft
  rw [hchecked hnumerator, hchecked hdenominator, hchecked hscaledLeft, hchecked hscaledRight,
    reduced_eq (Nat.mul_pos hleft hb)] at h
  rw [← h]
  congr 1
  have haNe : (a : ℚ≥0) ≠ 0 := Nat.cast_ne_zero.mpr ha.ne'
  have hbNe : (b : ℚ≥0) ≠ 0 := Nat.cast_ne_zero.mpr hb.ne'
  push_cast
  field_simp

end Rates

/-! ## Sums of exact values -/

section Sums

variable {floats : FloatOps} {aggregate other : RateAggregate} {sum added : Tally ℚ≥0}
  {gauge more : Tally Int}

def RateAggregate.view (aggregate : RateAggregate) : Tally RateValue :=
  if aggregate.unavailable then .unavailable else aggregate.value.elim .empty .value

/-- The rate of a counter that moved by an integer. -/
def rateTally : Input → Option Int → Tally ℚ≥0
  | .neutral, _ => .empty
  | .value (.integer delta), some elapsed =>
    if 0 ≤ delta ∧ 0 < elapsed then .value (delta.toNat / elapsed.toNat) else .unavailable
  | _, _ => .unavailable

def gaugeTally : Input → Tally Int
  | .neutral => .empty
  | .value (.integer value) => .value value
  | _ => .unavailable

def Input.Exact (input : Input) : Prop := ∀ bits, input ≠ .value (.float bits)

instance decidableExact (input : Input) : Decidable input.Exact :=
  match input with
  | .value (.float bits) => .isFalse fun h => h bits rfl
  | .value (.integer _) => .isTrue fun _ h => by cases h
  | .neutral => .isTrue fun _ h => by cases h
  | .unavailable => .isTrue fun _ h => by cases h

def RateAggregate.Fits (aggregate : RateAggregate) (added : Tally RateValue) : Prop :=
  ∀ known value, aggregate.view = .value known → added = .value value →
    (RateValue.exactSum known value).isSome = true

/-- The sum of a gauge fits an `i128`. -/
def GaugeFits (sum : Availability) (added : Availability) : Prop :=
  ∀ left right, sum = .value (.integer left) → added = .value (.integer right) →
    -2 ^ 127 ≤ left + right ∧ left + right < 2 ^ 127

theorem add_ofRat {left right : ℚ≥0}
    (h : (RateValue.exactSum (.ofRat left) (.ofRat right)).isSome = true) :
    RateValue.add floats (.ofRat left) (.ofRat right) = some (.ofRat (left + right)) := by
  obtain ⟨sum, hsum⟩ := Option.isSome_iff_exists.mp h
  have heq := exactSum_eq left.den_pos right.den_pos hsum
  rw [NNRat.num_div_den, NNRat.num_div_den] at heq
  rw [RateValue.add, hsum, heq, Option.some_or]

theorem view_eq_map (h : aggregate.view = sum.map RateValue.ofRat) :
    (aggregate.unavailable = true ∧ sum = .unavailable) ∨
      (aggregate = RateAggregate.default ∧ sum = .empty) ∨
      ∃ rate, aggregate = ⟨some (.ofRat rate), false⟩ ∧ sum = .value rate := by
  obtain ⟨value, unavailable⟩ := aggregate
  cases unavailable with
  | true =>
    cases sum with
    | unavailable => exact Or.inl ⟨rfl, rfl⟩
    | empty => cases h
    | value rate => cases h
  | false =>
    cases value with
    | none =>
      cases sum with
      | empty => exact Or.inr (Or.inl ⟨rfl, rfl⟩)
      | value rate => cases h
      | unavailable => cases h
    | some value =>
      cases sum with
      | value rate =>
        have hvalue : value = .ofRat rate := Tally.value.inj h
        rw [hvalue]
        exact Or.inr (Or.inr ⟨rate, rfl, rfl⟩)
      | empty => cases h
      | unavailable => cases h

theorem view_extend {rate : ℚ≥0} (h : aggregate.view = sum.map RateValue.ofRat)
    (havailable : aggregate.unavailable = false) (hfits : aggregate.Fits (.value (.ofRat rate))) :
    (aggregate.extend floats (.ofRat rate)).view =
      (sum.add (.value rate)).map RateValue.ofRat := by
  rcases view_eq_map h with hspoilt | ⟨hempty, hsum⟩ | ⟨known, hknown, hsum⟩
  · rw [hspoilt.1] at havailable
    cases havailable
  · rw [hempty, hsum]
    rfl
  · have hexact := hfits (.ofRat known) (.ofRat rate) (by rw [hknown]; rfl) rfl
    have hadd := @add_ofRat floats known rate hexact
    rw [hknown, hsum]
    show (RateAggregate.mk (RateValue.add floats (.ofRat known) (.ofRat rate))
      (false || (RateValue.add floats (.ofRat known) (.ofRat rate)).isNone)).view = _
    rw [hadd]
    rfl

theorem fromDelta_integer (delta elapsed : Int) (hdelta : 0 ≤ delta) (helapsed : 0 < elapsed) :
    RateValue.fromDelta floats (.integer delta) elapsed =
      some (.ofRat (delta.toNat / elapsed.toNat)) := by
  have hpos : 0 < elapsed.toNat := Int.pos_iff_toNat_pos.mp helapsed
  rw [RateValue.fromDelta, if_pos helapsed, if_pos hdelta, reduced_eq hpos]

theorem view_add {input : Input} {elapsed : Option Int}
    (h : aggregate.view = sum.map RateValue.ofRat) (hexact : input.Exact)
    (hfits : aggregate.Fits ((rateTally input elapsed).map RateValue.ofRat)) :
    (aggregate.add floats input elapsed).view =
      (sum.add (rateTally input elapsed)).map RateValue.ofRat := by
  cases havailable : aggregate.unavailable with
  | true =>
    have hspoilt : sum = .unavailable := by
      rcases view_eq_map h with hspoilt | ⟨hempty, _⟩ | ⟨known, hknown, _⟩
      · exact hspoilt.2
      · rw [hempty] at havailable
        cases havailable
      · rw [hknown] at havailable
        cases havailable
    rw [RateAggregate.add.eq_def, if_pos havailable, h, hspoilt]
    rfl
  | false =>
    have hspoil : (RateAggregate.mk aggregate.value true).view =
        (sum.add .unavailable).map RateValue.ofRat := by
      cases sum <;> rfl
    rw [RateAggregate.add.eq_def, if_neg (by rw [havailable]; exact Bool.false_ne_true)]
    cases input with
    | neutral =>
      show aggregate.view = (sum.add .empty).map RateValue.ofRat
      rw [Tally.add_empty, h]
    | unavailable => exact hspoil
    | value number =>
      cases number with
      | float bits => exact absurd rfl (hexact bits)
      | integer delta =>
        cases elapsed with
        | none => exact hspoil
        | some elapsed =>
          dsimp only
          rw [Option.bind_some]
          by_cases hknown : 0 ≤ delta ∧ 0 < elapsed
          · have htally : rateTally (.value (.integer delta)) (some elapsed) =
                .value (delta.toNat / elapsed.toNat) := if_pos hknown
            rw [htally] at hfits ⊢
            rw [fromDelta_integer delta elapsed hknown.1 hknown.2]
            exact view_extend h havailable hfits
          · have htally : rateTally (.value (.integer delta)) (some elapsed) = .unavailable :=
              if_neg hknown
            have hnone : RateValue.fromDelta floats (.integer delta) elapsed = none := by
              rw [RateValue.fromDelta]
              split_ifs with helapsed hdelta
              · exact absurd ⟨hdelta, helapsed⟩ hknown
              · rfl
              · rfl
            rw [htally, hnone]
            exact hspoil

theorem view_merge (h : aggregate.view = sum.map RateValue.ofRat)
    (hother : other.view = added.map RateValue.ofRat) (hfits : aggregate.Fits other.view) :
    (aggregate.merge floats other).view = (sum.add added).map RateValue.ofRat := by
  rw [RateAggregate.merge]
  rcases view_eq_map h with hspoilt | hleft
  · rw [hspoilt.1, hspoilt.2]
    rfl
  · have havailable : aggregate.unavailable = false := by
      rcases hleft with ⟨hempty, _⟩ | ⟨known, hknown, _⟩
      · rw [hempty]
        rfl
      · rw [hknown]
    rcases view_eq_map hother with hspoilt | ⟨hempty, hadded⟩ | ⟨rate, hrate, hadded⟩
    · rw [hspoilt.1, hspoilt.2, Bool.or_true]
      cases sum <;> rfl
    · rw [hempty, hadded, havailable, Tally.add_empty]
      exact h
    · rw [hrate] at hfits
      rw [hrate, hadded, havailable]
      exact view_extend h havailable hfits

theorem gauge_add {input : Input} (hexact : input.Exact)
    (hfits : GaugeFits (gauge.map .integer) ((gaugeTally input).map .integer)) :
    Availability.add floats (gauge.map .integer) input =
      (gauge.add (gaugeTally input)).map .integer := by
  cases input with
  | neutral => cases gauge <;> rfl
  | unavailable => cases gauge <;> rfl
  | value number =>
    cases number with
    | float bits => exact absurd rfl (hexact bits)
    | integer value =>
      cases gauge with
      | empty => rfl
      | unavailable => rfl
      | value known =>
        have hrange := hfits known value rfl rfl
        show (addOrdered floats (some (.integer known)) (.integer value)).elim _ _ = _
        rw [addOrdered, if_pos hrange]
        rfl

theorem gauge_merge (hfits : GaugeFits (gauge.map .integer) (more.map .integer)) :
    Availability.merge floats (gauge.map .integer) (more.map .integer) =
      (gauge.add more).map .integer := by
  cases more with
  | empty => exact @gauge_add floats gauge .neutral (fun _ h => by cases h) hfits
  | unavailable => exact @gauge_add floats gauge .unavailable (fun _ h => by cases h) hfits
  | value value =>
    exact @gauge_add floats gauge (.value (.integer value)) (fun _ h => by cases h) hfits

end Sums

/-! ## Fields that are merged as they are added to -/

section Fields

variable (floats : FloatOps) (kind : RelationKind) (name : String)

def Counted (count : Nat) : Prop := count ≤ 2 ^ 64 - 1

theorem saturatingAdd_counted (a b : Nat) : Counted (Reader.saturatingAdd a b) :=
  Nat.min_le_right (a + b) (2 ^ 64 - 1)

theorem saturatingAdd_zero {a : Nat} (h : Counted a) : Reader.saturatingAdd a 0 = a :=
  Nat.min_eq_left h

theorem saturatingAdd_assoc (a b c : Nat) :
    Reader.saturatingAdd a (Reader.saturatingAdd b c) =
      Reader.saturatingAdd (Reader.saturatingAdd a b) c := by
  unfold Reader.saturatingAdd
  omega

theorem mergeable_count : Mergeable Counted
    (fun count (_ : Member) => Reader.saturatingAdd count 1) Reader.saturatingAdd 0 where
  valid_empty := Nat.zero_le _
  valid_add count _ _ := saturatingAdd_counted count 1
  merge_empty _ h := saturatingAdd_zero h
  merge_add count more _ := saturatingAdd_assoc count more 1

theorem mergeable_maximum : Mergeable (fun _ => True)
    (fun maximum (member : Member) =>
      MaximumAggregate.add floats maximum (member.contract.column name).isSome
        (member.row.get name))
    MaximumAggregate.merge MaximumAggregate.default where
  valid_empty := trivial
  valid_add _ _ _ := trivial
  merge_empty maximum _ := by
    rw [MaximumAggregate.merge, MaximumAggregate.default, Bool.or_false]
    rfl
  merge_add maximum more member := by
    unfold MaximumAggregate.add
    split_ifs
    · rw [MaximumAggregate.merge, Bool.or_true]
      rfl
    · rfl
    · cases integerCell floats (member.row.get name) with
      | none =>
        rw [MaximumAggregate.merge, Bool.or_true]
        rfl
      | some value =>
        obtain ⟨known, spoilt⟩ := maximum
        obtain ⟨other, otherSpoilt⟩ := more
        cases other with
        | none => rfl
        | some other =>
          cases known with
          | none => rfl
          | some known =>
            show MaximumAggregate.mk (some (max known (max other value))) _ =
              ⟨some (max (max known other) value), _⟩
            rw [max_assoc]
            rfl

theorem optionMerge_some {op : Int → Int → Int} (h : ∀ a b c, op (op a b) c = op a (op b c))
    (known other : Option Int) (value : Int) :
    Option.merge op known (some (other.elim value (op · value))) =
      some ((Option.merge op known other).elim value (op · value)) := by
  cases known with
  | none => cases other <;> rfl
  | some known =>
    cases other with
    | none => rfl
    | some other => exact congrArg some (h known other value).symm

/-- The counts of an aggregate of timestamps are `u64`. -/
def TimestampAggregate.Counts (aggregate : TimestampAggregate) : Prop :=
  Counted aggregate.applicable ∧ Counted aggregate.never

theorem mergeable_timestamp : Mergeable TimestampAggregate.Counts
    (fun timestamp (member : Member) => timestamp.add (observation kind member name))
    TimestampAggregate.merge TimestampAggregate.default where
  valid_empty := ⟨Nat.zero_le _, Nat.zero_le _⟩
  valid_add timestamp member h := by
    cases observation kind member name with
    | unavailable => exact h
    | notApplicable => exact h
    | stored cell =>
      unfold TimestampAggregate.add
      dsimp only
      split
      · exact ⟨saturatingAdd_counted _ _, h.2⟩
      · exact ⟨saturatingAdd_counted _ _, saturatingAdd_counted _ _⟩
      · exact ⟨saturatingAdd_counted _ _, h.2⟩
  merge_empty timestamp h := by
    rw [TimestampAggregate.merge, TimestampAggregate.default]
    rw [saturatingAdd_zero h.1, saturatingAdd_zero h.2, Bool.or_false, Option.merge_none_right,
      Option.merge_none_right]
  merge_add timestamp more member := by
    cases observation kind member name with
    | unavailable =>
      rw [TimestampAggregate.add, TimestampAggregate.merge, Bool.or_true]
      rfl
    | notApplicable => rfl
    | stored cell =>
      unfold TimestampAggregate.add
      dsimp only
      split
      · rw [TimestampAggregate.merge]
        rw [saturatingAdd_assoc, optionMerge_some min_assoc, optionMerge_some max_assoc]
        rfl
      · rw [TimestampAggregate.merge]
        rw [saturatingAdd_assoc, saturatingAdd_assoc]
        rfl
      · rw [TimestampAggregate.merge]
        rw [saturatingAdd_assoc, Bool.or_true]
        rfl

def BoolAggregate.Counts (aggregate : BoolAggregate) : Prop :=
  Counted aggregate.known ∧ Counted aggregate.truthy

theorem flag_counts {flag : BoolAggregate} (h : flag.Counts) (stored : Option Cell) :
    (flag.add stored).Counts := by
  unfold BoolAggregate.add
  split
  · exact ⟨saturatingAdd_counted _ _, saturatingAdd_counted _ _⟩
  · exact h

theorem flag_merge_default {flag : BoolAggregate} (h : flag.Counts) :
    flag.merge BoolAggregate.default = flag := by
  rw [BoolAggregate.merge, BoolAggregate.default]
  rw [saturatingAdd_zero h.1, saturatingAdd_zero h.2, Bool.or_false]

theorem flag_merge_add (flag more : BoolAggregate) (stored : Option Cell) :
    flag.merge (more.add stored) = (flag.merge more).add stored := by
  unfold BoolAggregate.add
  split
  · rw [BoolAggregate.merge]
    rw [saturatingAdd_assoc, saturatingAdd_assoc]
    rfl
  · rw [BoolAggregate.merge, Bool.or_true]
    rfl

theorem mergeable_flag : Mergeable BoolAggregate.Counts
    (fun flag (member : Member) => flag.add (member.row.get name)) BoolAggregate.merge
    BoolAggregate.default where
  valid_empty := ⟨Nat.zero_le _, Nat.zero_le _⟩
  valid_add _ member h := flag_counts h (member.row.get name)
  merge_empty _ h := flag_merge_default h
  merge_add flag more member := flag_merge_add flag more (member.row.get name)

def addNoScans (flag : BoolAggregate) (member : Member) : BoolAggregate :=
  match kind with
  | .tables => flag
  | .indexes => flag.addScan floats (rateInput floats kind member "idx_scan")

theorem mergeable_noScans : Mergeable BoolAggregate.Counts (addNoScans floats kind)
    BoolAggregate.merge BoolAggregate.default where
  valid_empty := ⟨Nat.zero_le _, Nat.zero_le _⟩
  valid_add flag member h := by
    cases kind with
    | tables => exact h
    | indexes =>
      show (flag.addScan floats _).Counts
      unfold BoolAggregate.addScan
      split
      · exact flag_counts h _
      · exact h
      · exact h
  merge_empty _ h := flag_merge_default h
  merge_add flag more member := by
    cases kind with
    | tables => rfl
    | indexes =>
      show flag.merge (more.addScan floats _) = (flag.merge more).addScan floats _
      unfold BoolAggregate.addScan
      split
      · exact flag_merge_add flag more _
      · rw [BoolAggregate.merge, Bool.or_true]
        rfl
      · rw [BoolAggregate.merge, Bool.or_true]
        rfl

end Fields

end Relations
end Kronika.Query
