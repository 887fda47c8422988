/-
The texts of quantities, and what they denote.

A quantity that is parsed is exactly the number times the factor of its unit, in lowest
terms.  A documented text is refused only when its digits, read without the point, times the
factor leave 128 bits.
-/
import Mathlib.Data.Nat.Cast.Field
import Mathlib.Data.Rat.Lemmas
import Mathlib.Tactic.Linarith
import Kronika.Library.Fractions
import Kronika.Query.SearchQuantity

namespace Kronika.Query

open Library Library.Decimals

/-! ## The characters of a unit -/

def isUnitChar (c : Char) : Bool := c.isAlpha || c = '/' || c = '%'

variable {c : Char}

theorem not_isDigit_of_isUnitChar (h : isUnitChar c = true) : c.isDigit = false := by
  rw [isUnitChar, Bool.or_eq_true, Bool.or_eq_true, decide_eq_true_iff, decide_eq_true_iff] at h
  obtain (halpha | rfl) | rfl := h
  · delta Char.isAlpha Char.isUpper Char.isLower at halpha
    simp only [Char.isDigit, UInt32.le_iff_toNat_le] at halpha ⊢
    simp at halpha ⊢
    omega
  · rfl
  · rfl

theorem ne_of_isUnitChar {c other : Char} (h : isUnitChar c = true)
    (hother : isUnitChar other = false) : c ≠ other := by
  intro heq
  rw [heq, hother] at h
  cases h

variable {unit : List Char}

theorem byteMultiplier_chars (h : (byteMultiplier unit).isSome) :
    ∀ c ∈ unit, isUnitChar c = true := by
  unfold byteMultiplier at h
  split at h
  case h_14 => cases h
  all_goals exact List.all_eq_true.mp rfl

theorem durationFactors_chars (h : (durationFactors unit).isSome) :
    ∀ c ∈ unit, isUnitChar c = true := by
  unfold durationFactors at h
  split at h
  case h_7 => cases h
  all_goals exact List.all_eq_true.mp rfl

theorem eq_of_stripSuffix {suffix unit before : List Char}
    (h : stripSuffix suffix unit = some before) : unit = before ++ suffix := by
  rw [stripSuffix] at h
  split_ifs at h with hsuffix
  obtain ⟨front, rfl⟩ := hsuffix
  rw [← Option.some.inj h, List.length_append, Nat.add_sub_cancel, List.take_left' rfl]

theorem stripSuffix_chars {unit before : List Char} (h : stripSuffix ['/', 's'] unit = some before)
    (hbefore : ∀ c ∈ before, isUnitChar c = true) : ∀ c ∈ unit, isUnitChar c = true := by
  have hrate : ∀ c ∈ ['/', 's'], isUnitChar c = true := List.all_eq_true.mp rfl
  rw [eq_of_stripSuffix h]
  intro c hmem
  rcases List.mem_append.mp hmem with hmem | hmem
  · exact hbefore c hmem
  · exact hrate c hmem

theorem unitFactor_chars {kind : QuantityKind} {factor : Nat × Nat}
    (h : unitFactor kind unit = some factor) : ∀ c ∈ unit, isUnitChar c = true := by
  cases kind with
  | bytes =>
    obtain ⟨_, hmultiplier, _⟩ := Option.map_eq_some_iff.mp h
    exact byteMultiplier_chars (Option.isSome_of_eq_some hmultiplier)
  | byteRate =>
    obtain ⟨_, hmultiplier, _⟩ := Option.map_eq_some_iff.mp h
    obtain ⟨_, hbefore, hmultiplier⟩ := Option.bind_eq_some_iff.mp hmultiplier
    exact stripSuffix_chars hbefore (byteMultiplier_chars (Option.isSome_of_eq_some hmultiplier))
  | duration => exact durationFactors_chars (Option.isSome_of_eq_some h)
  | durationRate =>
    obtain ⟨_, hbefore, hfactors⟩ := Option.bind_eq_some_iff.mp h
    exact stripSuffix_chars (Option.filter_eq_some_iff.mp hbefore).1
      (durationFactors_chars (Option.isSome_of_eq_some hfactors))
  | count | scalar | countRate | percentage =>
    rw [unitFactor] at h
    split_ifs at h with hunit
    rw [hunit]
    exact List.all_eq_true.mp rfl

/-! ## Numbers -/

/-- The digits of a number that a quantity may have. -/
structure NumberText (whole fraction : List Char) : Prop where
  nonempty : whole ≠ []
  digits : ∀ c ∈ whole, c.isDigit = true
  front : ¬(1 < whole.length ∧ whole.head? = some '0')
  fraction_digits : ∀ c ∈ fraction, c.isDigit = true
  significant : significantDigits (whole ++ fraction) ≤ searchMaxSignificantDigits
  fractional : fraction.length ≤ searchMaxFractionalDigits

theorem greatestCommonDivisor_eq (left right : Nat) :
    greatestCommonDivisor left right = left.gcd right :=
  Fractions.eq_gcd (fun m n => by rw [greatestCommonDivisor, dite_eq_ite]) left right

theorem checkedPower_eq {base exponent : Nat} (hbase : 0 < base) (h : base ^ exponent < 2 ^ 128) :
    checkedPower base exponent = some (base ^ exponent) := by
  induction exponent with
  | zero => rfl
  | succ exponent ih =>
    rw [Nat.pow_succ] at h
    have hle : base ^ exponent ≤ base ^ exponent * base := Nat.le_mul_of_pos_right _ hbase
    rw [checkedPower, ih (Nat.lt_of_le_of_lt hle h), Option.bind_some, checkedMulU128_eq h,
      Nat.pow_succ]

variable {offset : Nat}

section NumberText

variable {whole fraction unit : List Char}

theorem NumberText.all_digits (h : NumberText whole fraction) :
    ∀ c ∈ whole ++ fraction, c.isDigit = true := by
  intro c hmem
  rcases List.mem_append.mp hmem with hmem | hmem
  · exact h.digits c hmem
  · exact h.fraction_digits c hmem

theorem NumberText.coefficient_lt (h : NumberText whole fraction) :
    Decimals.value (whole ++ fraction) < 2 ^ 128 := by
  have hlt := value_lt_significant h.all_digits
  have hdigits : ((whole ++ fraction).dropWhile (· = '0')).length ≤ 38 :=
    (Nat.le_max_left _ 1).trans h.significant
  have hpow : 10 ^ ((whole ++ fraction).dropWhile (· = '0')).length ≤ 10 ^ 38 :=
    Nat.pow_le_pow_right (by decide) hdigits
  omega

theorem NumberText.parse_eq (h : NumberText whole fraction) :
    parseU128 (whole ++ fraction) = some (Decimals.value (whole ++ fraction)) :=
  if_pos ⟨List.append_ne_nil_of_left_ne_nil h.nonempty _, h.coefficient_lt⟩

theorem NumberText.scale_le (h : NumberText whole fraction) : 10 ^ fraction.length ≤ 10 ^ 9 :=
  Nat.pow_le_pow_right (by decide) h.fractional

theorem NumberText.power_eq (h : NumberText whole fraction) :
    checkedPower 10 fraction.length = some (10 ^ fraction.length) :=
  checkedPower_eq (by decide) (Nat.lt_of_le_of_lt h.scale_le (by decide))

theorem numeral_numeric (h : ∀ c ∈ whole ++ fraction, c.isDigit = true) :
    ∀ c ∈ numeral whole fraction, isNumeric c = true := by
  intro c hmem
  rw [numeral] at hmem
  rw [isNumeric, Bool.or_eq_true]
  split at hmem
  · exact Or.inl (h c (List.mem_append_left _ hmem))
  · rcases List.mem_append.mp hmem with hmem | hmem
    · exact Or.inl (h c (List.mem_append_left _ hmem))
    · rcases List.mem_cons.mp hmem with rfl | hmem
      · exact Or.inr rfl
      · exact Or.inl (h c (List.mem_append_right _ hmem))

theorem not_isNumeric_of_isUnitChar (h : isUnitChar c = true) : isNumeric c = false := by
  rw [isNumeric, not_isDigit_of_isUnitChar h, Bool.false_or, decide_eq_false_iff_not]
  exact ne_of_isUnitChar h (by decide)

theorem takeWhile_number (h : ∀ c ∈ whole ++ fraction, c.isDigit = true)
    (hunit : ∀ c ∈ unit, isUnitChar c = true) :
    (numeral whole fraction ++ unit).takeWhile isNumeric = numeral whole fraction := by
  rw [List.takeWhile_append_of_pos (numeral_numeric h)]
  cases unit with
  | nil => rw [List.takeWhile_nil, List.append_nil]
  | cons c unit =>
    rw [List.takeWhile_cons_of_neg
      (by rw [not_isNumeric_of_isUnitChar (hunit c List.mem_cons_self)]; decide), List.append_nil]

theorem dropWhile_number (h : ∀ c ∈ whole ++ fraction, c.isDigit = true)
    (hunit : ∀ c ∈ unit, isUnitChar c = true) :
    (numeral whole fraction ++ unit).dropWhile isNumeric = unit := by
  rw [List.dropWhile_append_of_pos (numeral_numeric h)]
  cases unit with
  | nil => rfl
  | cons c unit =>
    rw [List.dropWhile_cons_of_neg
      (by rw [not_isNumeric_of_isUnitChar (hunit c List.mem_cons_self)]; decide)]

theorem isExponent_unit (h : ∀ c ∈ unit, isUnitChar c = true) : isExponent unit = false := by
  unfold isExponent
  split
  · next first c rest =>
    have hc := h c (by simp)
    rw [not_isDigit_of_isUnitChar hc, decide_eq_false (ne_of_isUnitChar hc (by decide)),
      decide_eq_false (ne_of_isUnitChar hc (by decide))]
    rw [Bool.or_false, Bool.or_false, Bool.and_false]
  · rfl

theorem not_mem_digits {digits : List Char} (h : ∀ d ∈ digits, d.isDigit = true)
    (hc : c.isDigit = false) : c ∉ digits := by
  intro hmem
  rw [h c hmem] at hc
  cases hc

theorem count_point_le (h : NumberText whole fraction) :
    (numeral whole fraction).count '.' ≤ 1 := by
  have hwhole := List.count_eq_zero.mpr (not_mem_digits (c := '.') h.digits (by decide))
  have hfraction := List.count_eq_zero.mpr
    (not_mem_digits (c := '.') h.fraction_digits (by decide))
  rw [numeral]
  split
  · omega
  · rw [List.count_append, List.count_cons_self, hwhole, hfraction]

theorem getLast_numeral (h : NumberText whole fraction) :
    (numeral whole fraction).getLast? ≠ some '.' := by
  have hdigit : ∀ digits : List Char, (∀ c ∈ digits, c.isDigit = true) →
      digits.getLast? ≠ some '.' := by
    intro digits hdigits hlast
    exact absurd (hdigits _ (List.mem_of_getLast? hlast)) (by decide)
  rw [numeral]
  split
  · exact hdigit whole h.digits
  · next hfraction =>
    obtain ⟨c, rest, rfl⟩ := List.exists_cons_of_ne_nil hfraction
    rw [List.getLast?_append, List.getLast?_cons, ← List.getLast?_cons]
    exact hdigit _ h.fraction_digits

theorem numeral_ne_nil (h : NumberText whole fraction) : numeral whole fraction ≠ [] := by
  rw [numeral]
  split
  · exact h.nonempty
  · exact List.append_ne_nil_of_left_ne_nil h.nonempty _

theorem not_mem_text (h : NumberText whole fraction)
    (hunit : ∀ d ∈ unit, isUnitChar d = true) (hnumeric : isNumeric c = false)
    (hchar : isUnitChar c = false) : c ∉ numeral whole fraction ++ unit := by
  intro hmem
  rcases List.mem_append.mp hmem with hmem | hmem
  · rw [numeral_numeric h.all_digits c hmem] at hnumeric
    cases hnumeric
  · rw [hunit c hmem] at hchar
    cases hchar

theorem malformedNumber_numeral (h : NumberText whole fraction)
    (hunit : ∀ c ∈ unit, isUnitChar c = true) :
    malformedNumber (numeral whole fraction) unit = false := by
  have hcomma : ',' ∉ numeral whole fraction := by
    intro hmem
    exact absurd (numeral_numeric h.all_digits _ hmem) (by decide)
  have hline : '_' ∉ numeral whole fraction := by
    intro hmem
    exact absurd (numeral_numeric h.all_digits _ hmem) (by decide)
  simp [malformedNumber, numeral_ne_nil h, getLast_numeral h, isExponent_unit hunit, hcomma,
    hline, count_point_le h]

theorem malformedParts_eq_false :
    malformedParts whole fraction = false ↔
      whole ≠ [] ∧ (∀ c ∈ whole, c.isDigit = true) ∧
        ¬(1 < whole.length ∧ whole.head? = some '0') ∧ ∀ c ∈ fraction, c.isDigit = true := by
  simp [malformedParts, and_assoc]

theorem parseQuantity_numeral (h : NumberText whole fraction)
    (hunit : ∀ c ∈ unit, isUnitChar c = true) {kind : QuantityKind} {value : Nat × Nat}
    (hvalue : scaledQuantity kind unit fraction (Decimals.value (whole ++ fraction))
      (10 ^ fraction.length) = .ok value) (offset : Nat) :
    parseQuantity (numeral whole fraction ++ unit) kind offset =
      .ok (reducedQuantity (canonicalNumber whole fraction ++ unit) value) := by
  have hhead : ∀ c, isNumeric c = false → isUnitChar c = false →
      (numeral whole fraction ++ unit).head? ≠ some c := by
    intro c hnumeric hchar heq
    exact not_mem_text h hunit hnumeric hchar (List.mem_of_head? heq)
  have hcomma : ',' ∉ numeral whole fraction ++ unit := not_mem_text h hunit (by decide) (by decide)
  have hline : '_' ∉ numeral whole fraction ++ unit := not_mem_text h hunit (by decide) (by decide)
  have hgroup : ¬(((numeral whole fraction ++ unit).contains ',' ||
      (numeral whole fraction ++ unit).contains '_') = true) := by
    rw [Bool.or_eq_true, List.contains_iff_mem, List.contains_iff_mem]
    intro h
    exact h.elim hcomma hline
  have hparts : malformedParts whole fraction = false :=
    malformedParts_eq_false.mpr ⟨h.nonempty, h.digits, h.front, h.fraction_digits⟩
  have hlimits : ¬(searchMaxSignificantDigits < significantDigits (whole ++ fraction) ∨
      searchMaxFractionalDigits < fraction.length) := by
    have hsignificant := h.significant
    have hfractional := h.fractional
    omega
  unfold parseQuantity
  dsimp only
  rw [takeWhile_number h.all_digits hunit, dropWhile_number h.all_digits hunit,
    splitPoint_numeral h.digits, if_neg (hhead '-' (by decide) (by decide)),
    if_neg (hhead '+' (by decide) (by decide)), if_neg hgroup, malformedNumber_numeral h hunit,
    hparts, if_neg (by decide), if_neg (by decide), if_neg hlimits, h.parse_eq, h.power_eq]
  dsimp only
  rw [hvalue]

theorem parseQuantity_ok {raw : List Char} {kind : QuantityKind} {q : Quantity}
    (h : parseQuantity raw kind offset = .ok q) :
    ∃ whole fraction unit value, raw = numeral whole fraction ++ unit ∧
      NumberText whole fraction ∧
      scaledQuantity kind unit fraction (Decimals.value (whole ++ fraction))
        (10 ^ fraction.length) = .ok value ∧
      q = reducedQuantity (canonicalNumber whole fraction ++ unit) value := by
  unfold parseQuantity at h
  dsimp only at h
  split_ifs at h with hminus hplus hgroup hnumber hparts hlimits
  have hgood := malformedParts_eq_false.mp (Bool.eq_false_iff.mpr hparts)
  have htext : NumberText (splitPoint (raw.takeWhile isNumeric)).1
      (splitPoint (raw.takeWhile isNumeric)).2 := by
    refine ⟨hgood.1, hgood.2.1, hgood.2.2.1, hgood.2.2.2, ?_, ?_⟩
    · omega
    · omega
  have hlast : (raw.takeWhile isNumeric).getLast? ≠ some '.' := by
    intro hlast
    apply hnumber
    simp [malformedNumber, hlast]
  rw [htext.parse_eq, htext.power_eq] at h
  dsimp only at h
  cases hvalue : scaledQuantity kind (raw.dropWhile isNumeric)
      (splitPoint (raw.takeWhile isNumeric)).2
      (Decimals.value ((splitPoint (raw.takeWhile isNumeric)).1 ++
        (splitPoint (raw.takeWhile isNumeric)).2))
      (10 ^ (splitPoint (raw.takeWhile isNumeric)).2.length) with
  | error problem =>
    rw [hvalue] at h
    cases problem
    · cases h
    · cases h
  | ok value =>
    rw [hvalue] at h
    refine ⟨_, _, raw.dropWhile isNumeric, value, ?_, htext, hvalue, (Except.ok.inj h).symm⟩
    rw [numeral_splitPoint hlast]
    exact List.takeWhile_append_dropWhile.symm

end NumberText

/-! ## Exactness -/

def exactValue (whole fraction : List Char) (factor : Nat × Nat) : ℚ :=
  decimal whole fraction * (factor.1 / factor.2)

/-- A text of the grammar: a number within the digit limits, a unit of the kind, and a value that
a field of the kind may be compared with. -/
structure Documented (kind : QuantityKind) (raw whole fraction unit : List Char)
    (factor : Nat × Nat) : Prop where
  text : raw = numeral whole fraction ++ unit
  number : NumberText whole fraction
  unit_eq : unitFactor kind unit = some factor
  bytes : kind = .bytes → ∃ n : Nat, exactValue whole fraction factor = n
  count : kind = .count → fraction = []
  percentage : kind = .percentage → exactValue whole fraction factor ≤ 100

section Exact

variable {kind : QuantityKind} {raw whole fraction unit : List Char} {factor : Nat × Nat}

theorem unitFactor_one (h : unitFactor kind unit = some factor)
    (hkind : kind = .bytes ∨ kind = .count ∨ kind = .percentage) : factor.2 = 1 := by
  rcases hkind with rfl | rfl | rfl
  · obtain ⟨_, _, rfl⟩ := Option.map_eq_some_iff.mp h
    rfl
  · rw [unitFactor] at h
    split_ifs at h
    rw [← Option.some.inj h]
  · rw [unitFactor] at h
    split_ifs at h
    rw [← Option.some.inj h]

theorem exactValue_eq (whole fraction : List Char) (factor : Nat × Nat) :
    exactValue whole fraction factor =
      ((Decimals.value (whole ++ fraction) * factor.1 : Nat) : ℚ) /
        ((10 ^ fraction.length * factor.2 : Nat) : ℚ) := by
  rw [exactValue, decimal, div_mul_div_comm]
  push_cast
  rfl

theorem scale_pos (fraction : List Char) : 0 < 10 ^ fraction.length := Nat.pow_pos (by decide)

theorem allowed_iff (h : unitFactor kind unit = some factor) :
    Allowed kind fraction (Decimals.value (whole ++ fraction) * factor.1) (10 ^ fraction.length) ↔
      (kind = .bytes → ∃ n : Nat, exactValue whole fraction factor = n) ∧
        (kind = .count → fraction = []) ∧
        (kind = .percentage → exactValue whole fraction factor ≤ 100) := by
  have hscale : ((10 ^ fraction.length : Nat) : ℚ) ≠ 0 :=
    Nat.cast_ne_zero.mpr (scale_pos fraction).ne'
  cases kind with
  | bytes =>
    show 10 ^ fraction.length ∣ Decimals.value (whole ++ fraction) * factor.1 ↔ _
    rw [exactValue_eq, unitFactor_one h (Or.inl rfl), Nat.mul_one]
    constructor
    · intro hdvd
      obtain ⟨n, hn⟩ := hdvd
      refine ⟨?_, by simp, by simp⟩
      intro _
      refine ⟨n, ?_⟩
      rw [hn, Nat.cast_mul]
      field_simp
    · intro h
      obtain ⟨n, hn⟩ := h.1 rfl
      refine ⟨n, ?_⟩
      rw [div_eq_iff hscale] at hn
      have heq : Decimals.value (whole ++ fraction) * factor.1 = n * 10 ^ fraction.length := by
        exact_mod_cast hn
      rw [heq, Nat.mul_comm]
  | count =>
    show fraction = [] ↔ _
    simp
  | percentage =>
    show Decimals.value (whole ++ fraction) * factor.1 ≤ 100 * 10 ^ fraction.length ↔ _
    rw [exactValue_eq, unitFactor_one h (Or.inr (Or.inr rfl)), Nat.mul_one,
      div_le_iff₀ (by exact_mod_cast scale_pos fraction)]
    constructor
    · intro hle
      refine ⟨by simp, by simp, ?_⟩
      intro _
      exact_mod_cast hle
    · intro h
      exact_mod_cast h.2.2 rfl
  | byteRate | countRate | duration | durationRate | scalar =>
    show True ↔ _
    simp

theorem kept_eq (h : unitFactor kind unit = some factor)
    (hallowed : Allowed kind fraction (Decimals.value (whole ++ fraction) * factor.1)
      (10 ^ fraction.length)) :
    let kept := kept kind (Decimals.value (whole ++ fraction) * factor.1)
      (10 ^ fraction.length * factor.2)
    0 < kept.2 ∧ (kept.1 : ℚ) / kept.2 = exactValue whole fraction factor := by
  have hfactor := (unitFactor_le h).1
  cases kind with
  | bytes =>
    have hdvd : 10 ^ fraction.length ∣ Decimals.value (whole ++ fraction) * factor.1 := hallowed
    have hscale : ((10 ^ fraction.length : Nat) : ℚ) ≠ 0 :=
      Nat.cast_ne_zero.mpr (scale_pos fraction).ne'
    rw [exactValue_eq, unitFactor_one h (Or.inl rfl), Nat.mul_one]
    refine ⟨Nat.one_pos, ?_⟩
    show ((Decimals.value (whole ++ fraction) * factor.1 / 10 ^ fraction.length : Nat) : ℚ) /
      (1 : Nat) = _
    rw [Nat.cast_div hdvd hscale, Nat.cast_one, div_one]
  | count =>
    have hnil : fraction = [] := hallowed
    rw [exactValue_eq, unitFactor_one h (Or.inr (Or.inl rfl)), hnil]
    exact ⟨Nat.one_pos, rfl⟩
  | byteRate | countRate | duration | durationRate | percentage | scalar =>
    rw [exactValue_eq]
    exact ⟨Nat.mul_pos (scale_pos fraction) hfactor, rfl⟩

theorem reducedQuantity_eq (canonical : List Char) (numerator : Nat) {denominator : Nat}
    (h : 0 < denominator) :
    let q := reducedQuantity canonical (numerator, denominator)
    (q.numerator : ℚ) / q.denominator = numerator / denominator ∧
      q.numerator.Coprime q.denominator ∧ 0 < q.denominator ∧
      q.numerator ≤ numerator ∧ q.denominator ≤ denominator := by
  have hgcd : 0 < numerator.gcd denominator := Nat.gcd_pos_of_pos_right _ h
  have hne : ((numerator.gcd denominator : Nat) : ℚ) ≠ 0 := Nat.cast_ne_zero.mpr hgcd.ne'
  rw [reducedQuantity]
  rw [greatestCommonDivisor_eq]
  refine ⟨?_, Nat.coprime_div_gcd_div_gcd hgcd,
    Nat.div_pos (Nat.le_of_dvd h (Nat.gcd_dvd_right _ _)) hgcd, Nat.div_le_self _ _,
    Nat.div_le_self _ _⟩
  rw [Nat.cast_div (Nat.gcd_dvd_left _ _) hne, Nat.cast_div (Nat.gcd_dvd_right _ _) hne,
    div_div_div_cancel_right₀ hne]

end Exact

/-! ## Reading a text back -/

section Texts

variable {kind : QuantityKind} {raw whole fraction unit : List Char} {factor : Nat × Nat}

theorem text_inj {whole' fraction' unit' : List Char}
    (h : ∀ c ∈ whole ++ fraction, c.isDigit = true)
    (h' : ∀ c ∈ whole' ++ fraction', c.isDigit = true)
    (hunit : ∀ c ∈ unit, isUnitChar c = true) (hunit' : ∀ c ∈ unit', isUnitChar c = true)
    (heq : numeral whole fraction ++ unit = numeral whole' fraction' ++ unit') :
    whole = whole' ∧ fraction = fraction' ∧ unit = unit' := by
  have htake := takeWhile_number h hunit
  rw [heq, takeWhile_number h' hunit'] at htake
  have hdrop := dropWhile_number h hunit
  rw [heq, dropWhile_number h' hunit'] at hdrop
  have hsplit : splitPoint (numeral whole fraction) = (whole, fraction) :=
    splitPoint_numeral fun c hmem => h c (List.mem_append_left _ hmem)
  rw [← htake, splitPoint_numeral fun c hmem => h' c (List.mem_append_left _ hmem)] at hsplit
  rw [Prod.mk.injEq] at hsplit
  exact ⟨hsplit.1.symm, hsplit.2.symm, hdrop.symm⟩

/-- What a parsed text denotes. -/
structure Denotes (kind : QuantityKind) (raw : List Char) (q : Quantity)
    (whole fraction unit : List Char) (factor : Nat × Nat) : Prop where
  documented : Documented kind raw whole fraction unit factor
  exact : (q.numerator : ℚ) / q.denominator = exactValue whole fraction factor
  coprime : q.numerator.Coprime q.denominator
  denominator_pos : 0 < q.denominator
  numerator_lt : q.numerator < 2 ^ 128
  denominator_lt : q.denominator < 2 ^ 128
  integral : kind = .bytes ∨ kind = .count → q.denominator = 1
  canonical : q.canonical = canonicalNumber whole fraction ++ unit
  product_lt : Decimals.value (whole ++ fraction) * factor.1 < 2 ^ 128

theorem kept_bounds {numerator denominator : Nat} (h : denominator < 2 ^ 128) :
    (kept kind numerator denominator).1 ≤ numerator ∧
      (kept kind numerator denominator).2 < 2 ^ 128 := by
  have hone : 1 < 2 ^ 128 := by decide
  cases kind with
  | bytes => exact ⟨Nat.div_le_self _ _, hone⟩
  | count => exact ⟨Nat.le_refl _, hone⟩
  | byteRate | countRate | duration | durationRate | percentage | scalar =>
    exact ⟨Nat.le_refl _, h⟩

theorem kept_integral (hkind : kind = .bytes ∨ kind = .count) (numerator denominator : Nat) :
    (kept kind numerator denominator).2 = 1 := by
  rcases hkind with rfl | rfl
  · rfl
  · rfl

theorem denotes_of_ok {q : Quantity} (h : parseQuantity raw kind offset = .ok q) :
    ∃ whole fraction unit factor, Denotes kind raw q whole fraction unit factor := by
  obtain ⟨whole, fraction, unit, ⟨numerator, denominator⟩, htext, hnumber, hscaled, rfl⟩ :=
    parseQuantity_ok h
  rw [scaledQuantity_ok_iff hnumber.scale_le hnumber.coefficient_lt] at hscaled
  obtain ⟨factor, hfactor, hlt, hallowed, hpair⟩ := hscaled
  obtain ⟨hbytes, hcount, hpercentage⟩ := (allowed_iff hfactor).mp hallowed
  have hscale : 10 ^ fraction.length * factor.2 ≤ 10 ^ 9 * 10 ^ 6 :=
    Nat.mul_le_mul hnumber.scale_le (unitFactor_le hfactor).2
  have hkept := kept_eq hfactor hallowed
  have hbounds : (kept kind (Decimals.value (whole ++ fraction) * factor.1)
      (10 ^ fraction.length * factor.2)).1 ≤ Decimals.value (whole ++ fraction) * factor.1 ∧ _ :=
    kept_bounds (Nat.lt_of_le_of_lt hscale (by decide))
  rw [← hpair] at hkept hbounds
  dsimp only at hkept hbounds
  obtain ⟨hvalue, hcoprime, hpos, hnumerator, hdenominator⟩ :=
    reducedQuantity_eq (canonicalNumber whole fraction ++ unit) numerator hkept.1
  refine ⟨whole, fraction, unit, factor,
    ⟨htext, hnumber, hfactor, hbytes, hcount, hpercentage⟩, hvalue.trans hkept.2, hcoprime, hpos,
    by omega, by omega, ?_, rfl, hlt⟩
  intro hkind
  have hone := kept_integral hkind (Decimals.value (whole ++ fraction) * factor.1)
    (10 ^ fraction.length * factor.2)
  rw [← hpair] at hone
  omega

theorem accepted_iff (h : Documented kind raw whole fraction unit factor) (offset : Nat) :
    (∃ q, parseQuantity raw kind offset = .ok q) ↔
      Decimals.value (whole ++ fraction) * factor.1 < 2 ^ 128 := by
  constructor
  · intro hok
    obtain ⟨q, hq⟩ := hok
    obtain ⟨whole', fraction', unit', factor', hdenotes⟩ := denotes_of_ok hq
    have hother := hdenotes.documented
    obtain ⟨rfl, rfl, rfl⟩ := text_inj h.number.all_digits hother.number.all_digits
      (unitFactor_chars h.unit_eq) (unitFactor_chars hother.unit_eq)
      (h.text.symm.trans hother.text)
    have hsame : factor' = factor := Option.some.inj (hother.unit_eq.symm.trans h.unit_eq)
    rw [← hsame]
    exact hdenotes.product_lt
  · intro hlt
    have hscaled := (scaledQuantity_ok_iff h.number.scale_le h.number.coefficient_lt).mpr
      ⟨factor, h.unit_eq, hlt, (allowed_iff h.unit_eq).mpr ⟨h.bytes, h.count, h.percentage⟩, rfl⟩
    rw [h.text]
    exact ⟨_, parseQuantity_numeral h.number (unitFactor_chars h.unit_eq) hscaled offset⟩

theorem canonicalNumber_digits (h : ∀ c ∈ whole ++ fraction, c.isDigit = true) :
    ∀ c ∈ whole ++ fraction.rdropWhile (· = '0'), c.isDigit = true := by
  intro c hmem
  apply h
  rcases List.mem_append.mp hmem with hmem | hmem
  · exact List.mem_append_left _ hmem
  · exact List.mem_append_right _ ((List.rdropWhile_prefix _ _).subset hmem)

theorem eq_of_canonical {q q' : Quantity} {raw' whole' fraction' unit' : List Char}
    {factor' : Nat × Nat} (h : Denotes kind raw q whole fraction unit factor)
    (h' : Denotes kind raw' q' whole' fraction' unit' factor') (heq : q.canonical = q'.canonical) :
    q.numerator = q'.numerator ∧ q.denominator = q'.denominator := by
  rw [h.canonical, h'.canonical] at heq
  obtain ⟨rfl, hfraction, rfl⟩ := text_inj
    (canonicalNumber_digits h.documented.number.all_digits)
    (canonicalNumber_digits h'.documented.number.all_digits)
    (unitFactor_chars h.documented.unit_eq) (unitFactor_chars h'.documented.unit_eq) heq
  have hfactor : factor = factor' :=
    Option.some.inj (h.documented.unit_eq.symm.trans h'.documented.unit_eq)
  have hvalue : (q.numerator : ℚ) / q.denominator = q'.numerator / q'.denominator := by
    rw [h.exact, h'.exact, exactValue, exactValue, ← decimal_rdropWhile whole fraction, hfraction,
      decimal_rdropWhile, hfactor]
  have hpos : (0 : Int) < q.denominator := Int.natCast_pos.mpr h.denominator_pos
  have hpos' : (0 : Int) < q'.denominator := Int.natCast_pos.mpr h'.denominator_pos
  obtain ⟨hnumerator, hdenominator⟩ := Rat.div_int_inj (a := q.numerator)
    (c := q'.numerator) hpos hpos' h.coprime h'.coprime (by
      exact hvalue)
  exact ⟨Int.natCast_inj.mp hnumerator, Int.natCast_inj.mp hdenominator⟩

theorem length_le_byteLen (text : List Char) : text.length ≤ byteLen text := by
  induction text with
  | nil => exact Nat.le_refl 0
  | cons c text ih =>
    have hpos := c.utf8Size_pos
    show text.length + 1 ≤ c.utf8Size + byteLen text
    omega

theorem span_of_error {e : SearchDiagnostic} (h : parseQuantity raw kind offset = .error e) :
    offset ≤ e.start ∧ e.start ≤ e.stop ∧ e.stop ≤ offset + byteLen raw := by
  have hlen : (raw.takeWhile isNumeric).length ≤ byteLen raw :=
    (List.takeWhile_sublist _).length_le.trans (length_le_byteLen raw)
  have hwhole : ∀ code, e = ⟨code, offset, offset + byteLen raw⟩ →
      offset ≤ e.start ∧ e.start ≤ e.stop ∧ e.stop ≤ offset + byteLen raw := by
    intro code heq
    rw [heq]
    exact ⟨Nat.le_refl _, Nat.le_add_right _ _, Nat.le_refl _⟩
  have hnumber : ∀ code, e = ⟨code, offset, offset + (raw.takeWhile isNumeric).length⟩ →
      offset ≤ e.start ∧ e.start ≤ e.stop ∧ e.stop ≤ offset + byteLen raw := by
    intro code heq
    rw [heq]
    exact ⟨Nat.le_refl _, Nat.le_add_right _ _, Nat.add_le_add_left hlen _⟩
  have hunit : ∀ code,
      e = ⟨code, offset + (raw.takeWhile isNumeric).length, offset + byteLen raw⟩ →
      offset ≤ e.start ∧ e.start ≤ e.stop ∧ e.stop ≤ offset + byteLen raw := by
    intro code heq
    rw [heq]
    exact ⟨Nat.le_add_right _ _, Nat.add_le_add_left hlen _, Nat.le_refl _⟩
  unfold parseQuantity at h
  dsimp only at h
  split_ifs at h
  · exact hwhole _ (Except.error.inj h).symm
  · exact hwhole _ (Except.error.inj h).symm
  · exact hwhole _ (Except.error.inj h).symm
  · exact hwhole _ (Except.error.inj h).symm
  · exact hnumber _ (Except.error.inj h).symm
  · exact hnumber _ (Except.error.inj h).symm
  · split at h
    · split at h
      · exact hunit _ (Except.error.inj h).symm
      · exact hwhole _ (Except.error.inj h).symm
      · cases h
    · exact hnumber _ (Except.error.inj h).symm

/-- What is promised of a text and a kind of field. -/
structure Promised (kind : QuantityKind) (raw : List Char) (offset : Nat) : Prop where
  exact : ∀ q, parseQuantity raw kind offset = .ok q →
    ∃ whole fraction unit factor, Denotes kind raw q whole fraction unit factor
  canonical : ∀ q raw' offset' q', parseQuantity raw kind offset = .ok q →
    parseQuantity raw' kind offset' = .ok q' → q.canonical = q'.canonical →
      q.numerator = q'.numerator ∧ q.denominator = q'.denominator
  accepted : ∀ whole fraction unit factor, Documented kind raw whole fraction unit factor →
    (exactValue whole fraction factor).num < 2 ^ 128 →
      (exactValue whole fraction factor).den < 2 ^ 128 →
        ∃ q, parseQuantity raw kind offset = .ok q
  spans : ∀ e, parseQuantity raw kind offset = .error e →
    offset ≤ e.start ∧ e.start ≤ e.stop ∧ e.stop ≤ offset + byteLen raw

/-- A documented text whose value fits is refused exactly when its digits, read without the point,
times the factor of its unit leave 128 bits. -/
theorem promised_iff (kind : QuantityKind) (raw : List Char) (offset : Nat) :
    Promised kind raw offset ↔
      ∀ whole fraction unit factor, Documented kind raw whole fraction unit factor →
        (exactValue whole fraction factor).num < 2 ^ 128 →
          (exactValue whole fraction factor).den < 2 ^ 128 →
            Decimals.value (whole ++ fraction) * factor.1 < 2 ^ 128 := by
  constructor
  · intro h whole fraction unit factor hdocumented hnum hden
    exact (accepted_iff hdocumented offset).mp
      (h.accepted whole fraction unit factor hdocumented hnum hden)
  · intro h
    refine ⟨fun q hq => denotes_of_ok hq, ?_, ?_, fun e he => span_of_error he⟩
    · intro q raw' offset' q' hq hq' hcanonical
      obtain ⟨_, _, _, _, hdenotes⟩ := denotes_of_ok hq
      obtain ⟨_, _, _, _, hdenotes'⟩ := denotes_of_ok hq'
      exact eq_of_canonical hdenotes hdenotes' hcanonical
    · intro whole fraction unit factor hdocumented hnum hden
      exact (accepted_iff hdocumented offset).mpr
        (h whole fraction unit factor hdocumented hnum hden)

/-- `100000000000000000000.0EB` is ten to the power of 38, and refused. -/
theorem promised_bytes_differs :
    ¬Promised .bytes "100000000000000000000.0EB".toList 0 := by
  intro h
  have hvalue : exactValue "100000000000000000000".toList ['0'] (1000000000000000000, 1) =
      ((10 ^ 38 : Nat) : ℚ) := by
    rw [exactValue_eq]
    have hproduct : Decimals.value ("100000000000000000000".toList ++ ['0']) * 1000000000000000000 =
        10 ^ 38 * (10 ^ (['0'] : List Char).length * 1) := by decide
    rw [hproduct, Nat.cast_mul, mul_div_cancel_right₀]
    exact Nat.cast_ne_zero.mpr (by decide)
  have hnumber : NumberText "100000000000000000000".toList ['0'] :=
    ⟨by decide, List.all_eq_true.mp (by decide), by decide, List.all_eq_true.mp (by decide),
      by decide, by decide⟩
  have hdocumented : Documented .bytes "100000000000000000000.0EB".toList
      "100000000000000000000".toList ['0'] ['E', 'B'] (1000000000000000000, 1) := by
    refine ⟨by decide, hnumber, rfl, ?_, by simp, by simp⟩
    intro _
    exact ⟨_, hvalue⟩
  have hfits := (promised_iff _ _ _).mp h _ _ _ _ hdocumented
  rw [hvalue] at hfits
  exact absurd (hfits (by decide) (by decide)) (by decide)

end Texts

end Kronika.Query
